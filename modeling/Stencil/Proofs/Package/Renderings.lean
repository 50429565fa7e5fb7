import Mathlib.Data.List.Flatten
import Stencil.Proofs.Closing
import Stencil.Proofs.Generation.Completion
import Stencil.Proofs.Lookup
import Stencil.Proofs.Package.Places
import Stencil.Proofs.Package.Writing
import Stencil.Proofs.Substitution.Numbering

namespace Stencil

variable {σ τ α β γ : Type} {r : Renderer} {get : σ → Expansion}

/-- The texts that are expanded by a step and by what goes on with its value. -/
def Attempt.logging (x : Attempt σ α) (log : σ → List Rendering) (more : α → σ → List Rendering)
    (s : σ) : List Rendering :=
  log s ++ match x.outcome s with
    | (.ok a, t) => more a t
    | (.error _, _) => []

/-- Nothing but the expansion of some texts counts in a step. -/
def Logged (r : Renderer) (get : σ → Expansion) (x : Attempt σ α) (log : σ → List Rendering) : Prop :=
  ∀ s, Chained r (get s).nextParameter (log s) (get (x.outcome s).2).nextParameter

namespace Logged

variable {x : Attempt σ α} {log : σ → List Rendering} {f : α → Attempt σ β}
  {more : α → σ → List Rendering}

theorem idle (h : Leaves (fun s => (get s).nextParameter) x) : Logged r get x fun _ => [] := by
  intro s
  rw [show (get (x.outcome s).2).nextParameter = (get s).nextParameter from h s]
  exact .nil

theorem bind (hx : Logged r get x log) (hf : ∀ a, Logged r get (f a) (more a)) :
    Logged r get (x >>= f) (x.logging log more) := by
  intro s
  have hfirst := hx s
  unfold Attempt.logging
  rw [Attempt.outcome_bind]
  generalize x.outcome s = left at hfirst
  obtain ⟨result, t⟩ := left
  cases result with
  | ok a => exact hfirst.append (hf a t)
  | error failure =>
    -- behind a failure nothing more is expanded
    rw [List.append_nil]
    exact hfirst

theorem bind_idle (hx : Logged r get x log)
    (hf : ∀ a, Leaves (fun s => (get s).nextParameter) (f a)) : Logged r get (x >>= f) log := by
  have hboth := hx.bind fun a => idle (r := r) (hf a)
  intro s
  have hs := hboth s
  unfold Attempt.logging at hs
  split at hs
  · rwa [List.append_nil] at hs
  · rwa [List.append_nil] at hs

theorem caught (hx : Logged r get x log) : Logged r get x.caught log := by
  intro s
  rw [Attempt.outcome_caught]
  exact hx s

theorem expanding {x : Attempt Expansion α} {log : Expansion → List Rendering}
    (hx : Logged r id x log) :
    Logged r Run.expansion (Run.expanding x) fun s => log s.expansion := by
  intro s
  rw [Run.outcome_expanding]
  exact hx s.expansion

/-- Expanding a text is the expansion of this text. -/
theorem renderAt (r : Renderer) (file : Path) (origin : Position) (text : String) :
    Logged r id (r.renderAt file origin text) fun e => [⟨file, origin, text, e⟩] :=
  fun e => .cons (g := ⟨file, origin, text, e⟩) .nil

end Logged

namespace Entry

variable (fs : FileSystem) (r : Renderer) (t : Template) (e : Entry)

/-- The candidates that are expanded until one of them is a file. -/
def candidateRenderings : List String → Expansion → List Rendering
  | [] => fun _ => []
  | candidate :: rest =>
    (r.renderAt t.path e.position candidate).logging
      (fun x => [⟨t.path, e.position, candidate, x⟩]) fun text =>
        if fs.isFile ⟨text⟩ then fun _ => [] else candidateRenderings rest

/-- The expansion of the destination of an entry. -/
def destinationRendering (x : Expansion) : Rendering := ⟨t.path, e.position, e.destination, x⟩

/-- The candidates that are expanded until one of them is a file, behind what is said of them. -/
def sourceRenderings : Expansion → List Rendering :=
  (Expansion.say .verbose e.search.message).logging (fun _ => []) fun _ =>
    e.candidateRenderings fs r t e.candidates

/-- The texts that looking up an entry expands. -/
def renderings : Expansion → List Rendering :=
  (e.resolveSource fs r t).logging (e.sourceRenderings fs r t) fun _ x =>
    [e.destinationRendering t x]

theorem logged_firstSource (candidates : List String) :
    Logged r id (e.firstSource fs r t candidates) (e.candidateRenderings fs r t candidates) := by
  induction candidates with
  | nil => exact Logged.idle (Renderer.leaves_journaled _)
  | cons candidate rest ih =>
    unfold firstSource candidateRenderings
    refine (Logged.renderAt r t.path e.position candidate).bind fun text => ?_
    -- the first candidate that is a file ends the search
    by_cases hfile : fs.isFile ⟨text⟩ = true
    · simp only [hfile, if_true]
      exact Logged.idle (Leaves.pure _)
    · simp only [hfile]
      exact ih

theorem logged_resolveSource :
    Logged r id (e.resolveSource fs r t) (e.sourceRenderings fs r t) := by
  unfold resolveSource
  exact (Logged.idle (Renderer.leaves_journaled _)).bind fun _ => e.logged_firstSource fs r t _

theorem logged_resolveDestination :
    Logged r id (e.resolveDestination r t) fun x => [e.destinationRendering t x] := by
  unfold resolveDestination
  refine (Logged.renderAt r t.path e.position e.destination).bind_idle fun relative => ?_
  exact Leaves.ite (Renderer.leaves_journaled _) (Leaves.pure _)

end Entry

namespace Package

variable (fs : FileSystem) (r : Renderer) (t : Template)

/-- The texts that laying out some entries expands, behind those that have places already. -/
def entriesRenderings : PackageEntries → List Entry → Expansion → List Rendering
  | _, [] => fun _ => []
  | entries, e :: rest =>
    (layOut fs r t entries e).logging (e.renderings fs r t) fun laid =>
      entriesRenderings laid.1 rest

/-- The texts that laying out a project expands. Without a place for the project file there are no
others. -/
def projectRenderings (p : Project) : Expansion → List Rendering :=
  (layOut fs r t [] p.entry).logging (p.entry.renderings fs r t) fun laid =>
    match laid with
    | (_, none) => fun _ => []
    | (entries, some _) => entriesRenderings fs r t entries p.files

theorem logged_resolve (e : Entry) : Logged r id (resolve fs r t e) (e.renderings fs r t) := by
  have hboth : Logged r id (do
      let source ← e.resolveSource fs r t
      let relative ← e.resolveDestination r t
      return (source, relative)) (e.renderings fs r t) :=
    (e.logged_resolveSource fs r t).bind fun source =>
      (e.logged_resolveDestination r t).bind_idle fun _ => Leaves.pure _
  unfold resolve
  -- texts that were expanded before a failure count, even where the failure is caught
  refine hboth.caught.bind_idle fun result => ?_
  split
  · exact Leaves.pure _
  · exact Leaves.pure _
  · exact Leaves.throw _

theorem logged_layOut (entries : PackageEntries) (e : Entry) :
    Logged r id (layOut fs r t entries e) (e.renderings fs r t) := by
  unfold layOut
  refine (logged_resolve fs r t e).bind_idle fun found => ?_
  split
  · exact Leaves.pure _
  · split
    · exact Leaves.pure _
    · exact Renderer.leaves_sayAt _ _ _ _

theorem logged_entries (entries : PackageEntries) (l : List Entry) :
    Logged r id (l.foldlM (fun entries e => do return (← layOut fs r t entries e).1) entries)
      (entriesRenderings fs r t entries l) := by
  induction l generalizing entries with
  | nil => exact Logged.idle (Leaves.pure _)
  | cons e rest ih =>
    rw [List.foldlM_cons, bind_assoc]
    simp only [pure_bind]
    exact (logged_layOut fs r t entries e).bind fun laid => ih laid.1

theorem logged_layOutProject (p : Project) :
    Logged r id (layOutProject fs r t p) (projectRenderings fs r t p) := by
  unfold layOutProject
  refine (logged_layOut fs r t [] p.entry).bind fun laid => ?_
  obtain ⟨entries, names⟩ := laid
  cases names with
  | none => exact Logged.idle (Renderer.leaves_journaled _)
  | some names => exact (logged_entries fs r t entries p.files).bind_idle fun _ => Leaves.pure _

/-- The contents of a file, which are expanded unless they are taken as they are. -/
def fileRenderings (file : PackageFile) (s : Run) : List Rendering :=
  if file.raw then []
  else match s.files.readText file.source with
    | .ok text => [⟨file.source, .start, text, s.expansion⟩]
    | .error _ => []

def pieceRenderings : PackagePiece → Run → List Rendering
  | (_, some file) => fileRenderings file
  | (_, none) => fun _ => []

/-- The contents that are expanded while pieces are written, one after the other. -/
def piecesRenderings (r : Renderer) (output : Path) : List PackagePiece → Run → List Rendering
  | [] => fun _ => []
  | piece :: rest =>
    (writePiece r output piece).logging (pieceRenderings piece) fun _ =>
      piecesRenderings r output rest

/-- A step on files only. -/
theorem leaves_onFiles {α : Type} (x : FileStep α) :
    Leaves (fun s : Run => s.expansion.nextParameter) (Run.onFiles x) :=
  Leaves.onFiles (fun _ _ => rfl) x

/-- A step that only speaks. -/
theorem leaves_saying {part : Run → τ} (hjournal : ∀ s j, part (Run.under s j) = part s)
    (x : Attempt Journal α) : Leaves part (Run.journaled x) := by
  intro s
  unfold Run.journaled
  rw [Run.outcome_expanding, Expansion.outcome_journaled]
  exact hjournal s _

section Source

variable {r} {source : Path} {s : Run}

theorem outcome_looking_text {result : Except FileFault String}
    (h : s.files.readText source = result) :
    (Run.looking (·.readText source)).outcome s = (result.mapError .file, s) := by
  unfold Attempt.outcome Run.looking
  simp only [h]
  cases result <;> rfl

theorem outcome_unread {fault : FileFault} (h : s.files.readText source = .error fault) :
    (Run.expandSource r source).outcome s = (.error (.file fault), s) := by
  unfold Run.expandSource
  rw [Attempt.outcome_bind, outcome_looking_text h]
  rfl

/-- A source that can be read is expanded as a whole. -/
theorem outcome_read {text : String} (h : s.files.readText source = .ok text) :
    (Run.expandSource r source).outcome s =
      ((Rendering.outcome ⟨source, .start, text, s.expansion⟩ r).1,
        { s with expansion := (Rendering.outcome ⟨source, .start, text, s.expansion⟩ r).2 }) := by
  unfold Run.expandSource
  rw [Attempt.outcome_bind, outcome_looking_text h]
  exact Run.outcome_expanding _ s

end Source

theorem logged_writeFile (file : PackageFile) (target : Path) :
    Logged r Run.expansion (writeFile r file target) (fileRenderings file) := by
  unfold writeFile fileRenderings
  cases file.raw with
  | true =>
    simp only [if_true]
    exact Logged.idle (leaves_onFiles _)
  | false =>
    -- a source that cannot be read is not expanded
    refine Logged.bind_idle (fun s => ?_) fun rendered => leaves_onFiles _
    simp only [Bool.false_eq_true, if_false]
    cases htext : s.files.readText file.source with
    | error fault =>
      rw [outcome_unread htext]
      exact .nil
    | ok text =>
      rw [outcome_read htext]
      exact .cons (g := ⟨file.source, .start, text, s.expansion⟩) .nil

theorem logged_tryFile (file : PackageFile) (target : Path) :
    Logged r Run.expansion (tryFile r file target) (fileRenderings file) := by
  unfold tryFile
  refine (logged_writeFile r file target).caught.bind_idle fun result => ?_
  split
  · exact fun _ => rfl
  · exact Leaves.pure _
  · exact Leaves.ite (Leaves.throw _) (leaves_saying (fun _ _ => rfl) _)

theorem logged_writePiece (output : Path) (piece : PackagePiece) :
    Logged r Run.expansion (writePiece r output piece) (pieceRenderings piece) := by
  obtain ⟨names, kind⟩ := piece
  cases kind with
  | some file => exact logged_tryFile r file _
  | none => exact Logged.idle (leaves_onFiles _)

theorem logged_pieces (output : Path) (pieces : List PackagePiece) :
    Logged r Run.expansion (pieces.forM (writePiece r output)) (piecesRenderings r output pieces) := by
  induction pieces with
  | nil => exact Logged.idle (Leaves.pure _)
  | cons piece rest ih => exact (logged_writePiece r output piece).bind fun _ => ih

variable (settings : Settings) (year : Nat) (q : ExportRequest)

/-- The texts that planning an export expands. -/
def planRenderings : Run → List Rendering :=
  (opening t settings q).logging (fun _ => []) fun opened s =>
    projectRenderings s.files (renderer t settings year q) t opened.2 s.expansion

/-- The texts that an export expands, in their order. -/
def renderings : Run → List Rendering :=
  (plan t settings year q).logging (planRenderings t settings year q) fun p =>
    piecesRenderings (renderer t settings year q) p.1 ((PackageNode.directory p.2.1).pieces [])

theorem leaves_opening :
    Leaves (fun s : Run => s.expansion.nextParameter) (opening t settings q) := by
  unfold opening
  refine Leaves.bind (fun s => ?_) fun output => (leaves_saying (fun _ _ => rfl) _).bind fun _ => ?_
  · rw [Run.outcome_destination]
  · refine Leaves.bind (leaves_saying (fun _ _ => rfl) _) fun _ => Leaves.bind ?_ fun project =>
      Leaves.pure _
    unfold onlyProject
    split
    · exact Leaves.pure _
    · exact leaves_saying (fun _ _ => rfl) _
    · exact leaves_saying (fun _ _ => rfl) _

theorem logged_plan : Logged (renderer t settings year q) Run.expansion (plan t settings year q)
    (planRenderings t settings year q) := by
  rw [plan_eq_opening]
  refine (Logged.idle (leaves_opening t settings q)).bind fun opened => ?_
  -- the layout is looked for in the files of this state
  intro s
  have hfiles : Run.currentFiles.outcome s = (.ok s.files, s) := rfl
  rw [Attempt.outcome_bind, hfiles]
  exact ((logged_layOutProject s.files (renderer t settings year q) t opened.2).expanding.bind_idle
    fun _ => Leaves.pure _) s

section Aside

variable {part : Run → τ} (hfiles : ∀ s files, part { s with files } = part s)
  (hjournal : ∀ s j, part (Run.under s j) = part s)

include hfiles hjournal

theorem leaves_copyAsset (output : Path) (asset : Option String) :
    Leaves part (copyAsset t output asset) := by
  unfold copyAsset
  split
  · exact Leaves.pure _
  · dsimp only
    split
    · exact leaves_saying hjournal _
    · refine Leaves.currentFiles.bind fun files => Leaves.ite ?_ (leaves_saying hjournal _)
      refine (Leaves.onFiles hfiles _).caught.bind fun result => ?_
      split
      · exact leaves_saying hjournal _
      · exact Leaves.throw _
      · exact Leaves.pure _

/-- What is done behind the files of the layout neither expands a text nor notes a file. -/
theorem leaves_aside (language : Language) (output : Path) (entries : PackageEntries)
    (names : List String) : Leaves part (do
      copyAsset t output t.icon
      copyAsset t output t.preview
      warnOfOutsiders entries names
      writeDescriptor t language output entries names) := by
  refine (leaves_copyAsset t hfiles hjournal output t.icon).bind fun _ => ?_
  refine (leaves_copyAsset t hfiles hjournal output t.preview).bind fun _ => Leaves.bind ?_ fun _ => ?_
  · unfold warnOfOutsiders
    exact Leaves.forM (fun _ => Leaves.ite (Leaves.pure _) (leaves_saying hjournal _)) _
  · unfold writeDescriptor
    split
    · exact Leaves.throw _
    · exact (Leaves.onFiles hfiles _).bind fun _ => leaves_saying hjournal _

end Aside

/-- Behind its plan, an export expands the contents of its files only. -/
theorem logged_steps : Logged (renderer t settings year q) Run.expansion (steps t settings year q)
    (renderings t settings year q) := by
  rw [steps_eq]
  refine (logged_plan t settings year q).bind fun p => ?_
  obtain ⟨output, entries, names⟩ := p
  unfold writeOut
  dsimp only
  rw [writeNode_eq_forM]
  exact (logged_pieces (renderer t settings year q) output _).bind_idle fun _ =>
    leaves_aside t (fun _ _ => rfl) (fun _ _ => rfl) q.language output entries names

/-- The names that the expansion of a text spells. -/
def spelled (r : Renderer) (g : Rendering) : Option (List String) :=
  (g.outcome r).1.toOption.bind PackageEntries.namesOf?

/-- Files have come into a layout, each at the place that the expansion of a text of its own spells. -/
def Placed (r : Renderer) (entries grown : PackageEntries) (placed : List Rendering) : Prop :=
  (grown.files.map fun f => some f.1).Perm
    ((entries.files.map fun f => some f.1) ++ placed.map (spelled r))

theorem Placed.refl (r : Renderer) (entries : PackageEntries) : Placed r entries entries [] := by
  unfold Placed
  rw [List.map_nil, List.append_nil]

theorem Placed.trans {r : Renderer} {entries grown full : PackageEntries}
    {placed more : List Rendering} (h : Placed r entries grown placed) (h' : Placed r grown full more) :
    Placed r entries full (placed ++ more) := by
  unfold Placed at h h' ⊢
  rw [List.map_append, ← List.append_assoc]
  exact h'.trans (h.append_right _)

section Emitted

variable {fs r t} {entries grown : PackageEntries} {e : Entry} {p : Project} {x y : Expansion}
  {source : Path} {relative : String}

/-- An entry that is found has an expanded destination. -/
theorem resolve_eq_some (h : (resolve fs r t e).outcome x = (.ok (some (source, relative)), y)) :
    ∃ between, (e.resolveSource fs r t).outcome x = (.ok source, between) ∧
      ((e.destinationRendering t between).outcome r).1 = .ok relative := by
  unfold resolve at h
  obtain ⟨result, caught, hcaught, h⟩ := Attempt.outcome_bind_eq_ok_iff.mp h
  rw [Attempt.outcome_caught] at hcaught
  obtain ⟨hresult, -⟩ := Prod.mk.inj hcaught
  split at h
  · next found =>
    cases h
    -- both texts were expanded, one after the other
    obtain ⟨_, between, hsource, hrest⟩ :=
      Attempt.outcome_bind_eq_ok_iff.mp (Prod.ext (Except.ok.inj hresult) rfl)
    obtain ⟨_, behind, hrelative, hboth⟩ := Attempt.outcome_bind_eq_ok_iff.mp hrest
    cases hboth
    unfold Entry.resolveDestination at hrelative
    obtain ⟨out, rendered, hout, hchecked⟩ := Attempt.outcome_bind_eq_ok_iff.mp hrelative
    split at hchecked
    · unfold Expansion.reported at hchecked
      rw [Expansion.outcome_journaled, Journal.outcome_reported] at hchecked
      split at hchecked <;> cases hchecked
    · cases hchecked
      exact ⟨between, hsource, congrArg Prod.fst hout⟩
  · cases h
  · cases h

/-- An entry that gets a place gets the one that its expanded destination spells. -/
theorem placed_layOut {place : Option (List String)}
    (h : (layOut fs r t entries e).outcome x = (.ok (grown, place), y)) :
    ∃ placed, List.Sublist placed (e.renderings fs r t x) ∧ Placed r entries grown placed := by
  unfold layOut at h
  obtain ⟨found, resolved, hresolve, h⟩ := Attempt.outcome_bind_eq_ok_iff.mp h
  split at h
  · cases h
    exact ⟨[], List.nil_sublist _, .refl r _⟩
  · next source relative =>
    split at h
    · next names hinsert =>
      cases h
      obtain ⟨between, hsource, hrelative⟩ := resolve_eq_some hresolve
      obtain ⟨hnames, hinserted⟩ := PackageEntries.insert_ok_iff.mp hinsert
      refine ⟨[e.destinationRendering t between], ?_, ?_⟩
      · unfold Entry.renderings Attempt.logging
        rw [hsource]
        exact List.sublist_append_right _ _
      · have hspelled : spelled r (e.destinationRendering t between) = some names := by
          rw [spelled, hrelative]
          exact hnames
        have hfiles := ((PackageEntries.enters_of_insertAt hinserted).files_perm []).map fun f => some f.1
        rw [List.map_append] at hfiles
        rw [Placed, List.map_singleton, hspelled]
        exact hfiles
    · obtain ⟨_, _, _, h⟩ := Attempt.outcome_bind_eq_ok_iff.mp h
      cases h
      exact ⟨[], List.nil_sublist _, .refl r _⟩

theorem placed_entries {l : List Entry}
    (h : Attempt.outcome (l.foldlM (fun entries e => do return (← layOut fs r t entries e).1) entries)
      x = (.ok grown, y)) :
    ∃ placed, List.Sublist placed (entriesRenderings fs r t entries l x) ∧
      Placed r entries grown placed := by
  induction l generalizing entries x with
  | nil =>
    cases h
    exact ⟨[], List.nil_sublist _, .refl r _⟩
  | cons e rest ih =>
    rw [List.foldlM_cons, bind_assoc] at h
    simp only [pure_bind] at h
    obtain ⟨⟨next, place⟩, between, hfirst, hrest⟩ := Attempt.outcome_bind_eq_ok_iff.mp h
    obtain ⟨placed, hsub, hplaced⟩ := placed_layOut hfirst
    obtain ⟨more, hsubs, hmore⟩ := ih hrest
    refine ⟨placed ++ more, ?_, hplaced.trans hmore⟩
    unfold entriesRenderings Attempt.logging
    rw [hfirst]
    exact hsub.append hsubs

theorem placed_layOutProject {names : List String}
    (h : (layOutProject fs r t p).outcome x = (.ok (grown, names), y)) :
    ∃ placed, List.Sublist placed (projectRenderings fs r t p x) ∧ Placed r [] grown placed := by
  obtain ⟨entries, between, hfirst, hrest⟩ := layOutProject_eq_ok h
  obtain ⟨placed, hsub, hplaced⟩ := placed_layOut hfirst
  obtain ⟨more, hsubs, hmore⟩ := placed_entries hrest
  unfold projectRenderings Attempt.logging
  rw [hfirst]
  exact ⟨placed ++ more, hsub.append hsubs, hplaced.trans hmore⟩

/-- Every file of a package has the place that an expanded destination of its own spells. -/
theorem placed_plan {settings : Settings} {year : Nat} {q : ExportRequest} {s s' : Run} {p : Plan}
    (h : (plan t settings year q).outcome s = (.ok p, s')) :
    ∃ placed, List.Sublist placed (planRenderings t settings year q s) ∧
      Placed (renderer t settings year q) [] p.2.1 placed := by
  rw [plan_eq_opening] at h
  obtain ⟨⟨output, project⟩, opened, hopened, h⟩ := Attempt.outcome_bind_eq_ok_iff.mp h
  obtain ⟨files, same, hfiles, h⟩ := Attempt.outcome_bind_eq_ok_iff.mp h
  cases hfiles
  obtain ⟨⟨entries, names⟩, laid, hlay, h⟩ := Attempt.outcome_bind_eq_ok_iff.mp h
  cases h
  obtain ⟨after, hlaid, -⟩ := Run.outcome_expanding_eq_ok_iff.mp hlay
  unfold planRenderings Attempt.logging
  rw [hopened]
  exact placed_layOutProject hlaid

/-- What is written of a file that is expanded is its expansion. -/
theorem contents_of_writeFile {file : PackageFile} {target : Path} {s s' : Run}
    (hraw : file.raw = false) (h : (writeFile r file target).outcome s = (.ok (), s')) :
    ∃ g out place, fileRenderings file s = [g] ∧ g.file = file.source ∧ (g.outcome r).1 = .ok out ∧
      FileSystem.Wrote s.files target place out.toUTF8 s'.files := by
  unfold writeFile at h
  rw [hraw] at h
  obtain ⟨out, rendered, hout, hwrite⟩ := Attempt.outcome_bind_eq_ok_iff.mp h
  unfold fileRenderings
  rw [hraw]
  cases htext : s.files.readText file.source with
  | error fault =>
    rw [outcome_unread htext] at hout
    cases hout
  | ok text =>
    rw [outcome_read htext] at hout
    obtain ⟨hresult, hrendered⟩ := Prod.mk.inj hout
    -- an expansion touches no file, so the target is written where the source was read
    have hfiles : rendered.files = s.files := by rw [← hrendered]
    have hwrote := FileSystem.write_triple rendered.files target out.toUTF8
    rw [Run.outcome_onFiles] at hwrite
    split at hwrite
    · next made hmade =>
      cases hwrite
      have hput := hwrote rendered.files rfl
      unfold FileSystem.writeText at hmade
      rw [hmade] at hput
      obtain ⟨place, hput⟩ := hput
      exact ⟨_, out, place, rfl, rfl, hresult, hfiles ▸ hput⟩
    · cases hwrite

/-- The files that pieces note. Of those that are not taken as they are, each holds the expansion of a
text of its own. -/
inductive Held (r : Renderer) (output : Path) :
    List PackagePiece → List WrittenFile → List Rendering → Prop
  | nil : Held r output [] [] []
  | passed {piece : PackagePiece} {pieces : List PackagePiece} {notes : List WrittenFile}
    {gs : List Rendering} (rest : Held r output pieces notes gs) :
    Held r output (piece :: pieces) notes gs
  | copied {names : List String} {file : PackageFile} {pieces : List PackagePiece}
    {notes : List WrittenFile} {gs : List Rendering} (hraw : file.raw = true)
    (rest : Held r output pieces notes gs) :
    Held r output ((names, some file) :: pieces)
      (⟨file.source, output.join (pathOfNames names)⟩ :: notes) gs
  | expanded {names : List String} {file : PackageFile} {pieces : List PackagePiece}
    {notes : List WrittenFile} {gs : List Rendering} {g : Rendering} {out : String}
    {place : List String} {before after : FileSystem} (hraw : file.raw = false)
    (hsource : g.file = file.source) (hout : (g.outcome r).1 = .ok out)
    (hwrote : FileSystem.Wrote before (output.join (pathOfNames names)) place out.toUTF8 after)
    (rest : Held r output pieces notes gs) :
    Held r output ((names, some file) :: pieces)
      (⟨file.source, output.join (pathOfNames names)⟩ :: notes) (g :: gs)

theorem Held.none (r : Renderer) (output : Path) (pieces : List PackagePiece) :
    Held r output pieces [] [] := by
  induction pieces with
  | nil => exact .nil
  | cons piece rest ih => exact .passed ih

theorem leaves_written_writeFile (file : PackageFile) (target : Path) :
    Leaves (·.written) (writeFile r file target) := by
  unfold writeFile
  refine Leaves.ite (Leaves.onFiles (fun _ _ => rfl) _) (Leaves.bind ?_ fun rendered =>
    Leaves.onFiles (fun _ _ => rfl) _)
  unfold Run.expandSource
  exact (Leaves.looking _).bind fun text => Leaves.expanding (fun _ _ => rfl) _

/-- A file is noted if it was written, and only then. -/
theorem noted_of_tryFile {file : PackageFile} {target : Path} {s s' : Run}
    {result : Except Failure Unit} (h : (tryFile r file target).outcome s = (result, s')) :
    s'.written = s.written ∨ s'.written = s.written ++ [⟨file.source, target⟩] ∧
      ∃ between, (writeFile r file target).outcome s = (.ok (), between) := by
  have hleaves := leaves_written_writeFile (r := r) file target s
  unfold tryFile at h
  rw [Attempt.outcome_bind, Attempt.outcome_caught] at h
  generalize hwrite : (writeFile r file target).outcome s = left at h hleaves
  obtain ⟨outcome, between⟩ := left
  cases outcome with
  | ok _ =>
    cases h
    exact Or.inr ⟨congrArg (· ++ _) hleaves, between, rfl⟩
  | error failure =>
    -- what is said of the failure notes no file
    refine Or.inl (Eq.trans ?_ hleaves)
    have hquiet : Leaves (·.written) (if failure.endsRun then throw failure
        else Run.say .error s!"Error writing '{target.text}': {failure.message}") :=
      Leaves.ite (Leaves.throw _) (Leaves.say (fun _ _ => rfl) _ _)
    cases failure with
    | reported d =>
      cases h
      rfl
    | _ => exact hquiet.of_outcome h

theorem held_of_piece {output : Path} {piece : PackagePiece} {s s' : Run}
    {result : Except Failure Unit} (h : (writePiece r output piece).outcome s = (result, s')) :
    ∃ notes gs, s'.written = s.written ++ notes ∧ List.Sublist gs (pieceRenderings piece s) ∧
      ∀ {pieces more gs'}, Held r output pieces more gs' →
        Held r output (piece :: pieces) (notes ++ more) (gs ++ gs') := by
  obtain ⟨names, kind⟩ := piece
  cases kind with
  | none =>
    have hwritten : s'.written = s.written :=
      Leaves.of_outcome (Leaves.onFiles (fun _ _ => rfl) _) h
    exact ⟨[], [], by rw [hwritten, List.append_nil], List.nil_sublist _, .passed⟩
  | some file =>
    -- a file is noted together with its expansion, or neither of them is
    rcases noted_of_tryFile h with hwritten | ⟨hwritten, between, hwrite⟩
    · exact ⟨[], [], by rw [hwritten, List.append_nil], List.nil_sublist _, .passed⟩
    · cases hraw : file.raw with
      | true => exact ⟨_, [], hwritten, List.nil_sublist _, .copied hraw⟩
      | false =>
        obtain ⟨g, out, place, hlog, hsource, hout, hwrote⟩ := contents_of_writeFile hraw hwrite
        have hsub : List.Sublist [g] (pieceRenderings (names, some file) s) := by
          rw [pieceRenderings, hlog]
        exact ⟨_, [g], hwritten, hsub, .expanded hraw hsource hout hwrote⟩

/-- Whatever becomes of the pieces, those that are noted hold expansions of their own. -/
theorem held_of_pieces {output : Path} {pieces : List PackagePiece} {s s' : Run}
    {result : Except Failure Unit}
    (h : (pieces.forM (writePiece r output)).outcome s = (result, s')) :
    ∃ notes gs, s'.written = s.written ++ notes ∧
      List.Sublist gs (piecesRenderings r output pieces s) ∧ Held r output pieces notes gs := by
  induction pieces generalizing s with
  | nil =>
    cases h
    exact ⟨[], [], (List.append_nil _).symm, List.nil_sublist _, .nil⟩
  | cons piece rest ih =>
    change (writePiece r output piece >>= fun _ => rest.forM (writePiece r output)).outcome s = _ at h
    unfold piecesRenderings Attempt.logging
    rw [Attempt.outcome_bind] at h
    cases hpiece : (writePiece r output piece).outcome s with
    | mk ended between =>
      obtain ⟨notes, gs, hwritten, hsub, hheld⟩ := held_of_piece hpiece
      rw [hpiece] at h
      cases ended with
      | ok _ =>
        obtain ⟨more, gs', hmore, hsubs, hrest⟩ := ih h
        exact ⟨notes ++ more, gs ++ gs', by rw [hmore, hwritten, List.append_assoc],
          hsub.append hsubs, hheld hrest⟩
      | error failure =>
        -- the pieces behind one that ends the run are passed
        cases h
        rw [List.append_nil]
        have hnone := hheld (Held.none r output rest)
        rw [List.append_nil, List.append_nil] at hnone
        exact ⟨notes, gs, hwritten, hsub, hnone⟩

end Emitted

/-- What an export emits: the places of the files of its layout, and what those files hold that it
notes. Each comes from the expansion of a text of its own. -/
def Emits (r : Renderer) (p : Plan) (written : List WrittenFile) (emitted : List Rendering) : Prop :=
  ∃ placed texts, emitted = placed ++ texts ∧ Placed r [] p.2.1 placed ∧
    Held r p.1 ((PackageNode.directory p.2.1).pieces []) written texts

section

variable {t : Template} {settings : Settings} {year : Nat} {q : ExportRequest} {s : Run}

/-- An export that has a plan emits what the plan and the pieces of its layout expand. -/
theorem emits_of_plan {p : Plan} (hfresh : s.written = [])
    (h : ((plan t settings year q).outcome s).1 = .ok p) :
    ∃ emitted, List.Sublist emitted (renderings t settings year q s) ∧
      Emits (renderer t settings year q) p ((steps t settings year q).outcome s).2.written emitted := by
  obtain ⟨between, hplan⟩ : ∃ between, (plan t settings year q).outcome s = (.ok p, between) :=
    ⟨_, Prod.ext h rfl⟩
  obtain ⟨placed, hplaced, hplaces⟩ := placed_plan hplan
  have hbetween : between.written = [] := by
    have hquiet := (quiet_plan t settings year q s).2
    rwa [hplan, hfresh] at hquiet
  obtain ⟨output, entries, names⟩ := p
  let pieces := (PackageNode.directory entries).pieces []
  cases hpieces : (pieces.forM (writePiece (renderer t settings year q) output)).outcome between with
  | mk ended last =>
    obtain ⟨notes, texts, hwritten, htexts, hheld⟩ := held_of_pieces hpieces
    rw [hbetween, List.nil_append] at hwritten
    -- nothing is noted behind the pieces, whether they came to their end or not
    have hlast : ((steps t settings year q).outcome s).2.written = last.written := by
      rw [steps_eq, Attempt.outcome_bind, hplan]
      unfold writeOut
      dsimp only
      rw [writeNode_eq_forM, Attempt.outcome_bind, hpieces]
      cases ended with
      | error failure => rfl
      | ok _ =>
        have hnone : Leaves (fun s : Run => s.written) _ :=
          leaves_aside t (fun _ _ => rfl) (fun _ _ => rfl) q.language output entries names
        exact hnone last
    refine ⟨placed ++ texts, ?_, placed, texts, rfl, hplaces, ?_⟩
    · unfold renderings Attempt.logging
      rw [hplan]
      exact hplaced.append htexts
    · rw [hlast, hwritten]
      exact hheld

/-- Without a plan nothing is emitted. -/
theorem idle_of_unplanned {failure : Failure}
    (h : ((plan t settings year q).outcome s).1 = .error failure) :
    ((steps t settings year q).outcome s).2.files = s.files ∧
      ((steps t settings year q).outcome s).2.written = s.written := by
  have hquiet := quiet_plan t settings year q s
  rw [steps_eq, Attempt.outcome_bind]
  generalize (plan t settings year q).outcome s = left at h hquiet
  obtain ⟨result, last⟩ := left
  cases h
  exact hquiet

end

/-- How an export numbers identifiers: the texts that it expands are told one after the other, and all
that it emits comes from expansions of texts of their own, with no identifier twice. -/
structure Identified (t : Template) (settings : Settings) (year : Nat) (q : ExportRequest)
    (files : FileSystem) (guids : GuidSource) : Prop where
  chained : Chained (renderer t settings year q) firstNumber
    (renderings t settings year q (Run.start files guids settings))
    (exportPackage t settings year q files guids).2.expansion.nextParameter
  counted : ((renderings t settings year q (Run.start files guids settings)).flatMap
      (·.newGuids (renderer t settings year q))).length < UInt32.size →
    Counted (renderer t settings year q)
      (renderings t settings year q (Run.start files guids settings))
      (exportPackage t settings year q files guids).2.expansion.nextParameter
  emitted : ∀ p, ((plan t settings year q).outcome (Run.start files guids settings)).1 = .ok p →
    ∃ emitted, List.Sublist emitted (renderings t settings year q (Run.start files guids settings)) ∧
      Emits (renderer t settings year q) p (exportPackage t settings year q files guids).1.written
        emitted ∧
      (((renderings t settings year q (Run.start files guids settings)).flatMap
        (·.newGuids (renderer t settings year q))).length < UInt32.size →
        (emitted.flatMap (·.newGuids (renderer t settings year q))).Nodup)
  unplanned : ∀ failure,
    ((plan t settings year q).outcome (Run.start files guids settings)).1 = .error failure →
      (exportPackage t settings year q files guids).2.files = files ∧
        (exportPackage t settings year q files guids).1.written = []

theorem identified (t : Template) (settings : Settings) (year : Nat) (q : ExportRequest)
    (files : FileSystem) (guids : GuidSource) : Identified t settings year q files guids := by
  have hchained : Chained (renderer t settings year q) firstNumber _ _ :=
    logged_steps t settings year q (Run.start files guids settings)
  refine ⟨hchained, hchained.counted rfl, fun p hplan => ?_, fun _ h => idle_of_unplanned h⟩
  obtain ⟨emitted, hsub, hemits⟩ := emits_of_plan rfl hplan
  refine ⟨emitted, hsub, hemits, fun hfew => ?_⟩
  exact (hchained.counted rfl hfew).distinct.sublist (hsub.flatMap _)

/-- Texts that one renderer expands in turn for an environment get identifiers that are numbered from
one on, across all of them, whether their expansions come to their end or not. So an export, which
expands candidates and destinations first and the contents of files as they lie in the tree behind them,
emits no identifier twice. -/
theorem guids_never_repeat :
    (∀ (r : Renderer) (calls : List (Path × Position × String)) (e : Expansion),
      r.expander = .parameters → e.nextParameter = firstNumber →
      ((r.inTurn calls e).flatMap (·.newGuids r)).length < UInt32.size →
      Counted r (r.inTurn calls e) (r.behind calls e).nextParameter) ∧
    ∀ (t : Template) (settings : Settings) (year : Nat) (q : ExportRequest) (files : FileSystem)
      (guids : GuidSource), Identified t settings year q files guids := by
  refine ⟨fun r calls e hr hfirst hfew => ?_, identified⟩
  have hchained := r.chained_inTurn calls e
  rw [hfirst] at hchained
  exact hchained.counted hr hfew

/-- Three texts under a strict journal, the second of which has no end; and an export that asks for an
identifier in the place of a file and in what the file holds. -/
theorem guids_never_repeat_each :
    (∃ (r : Renderer) (calls : List (Path × Position × String)) (e : Expansion),
      calls.map (·.2.2) = ["\x7b\x7b#newGuid\x7d\x7d", "a\x7b\x7b #newGuid \x7d\x7d\x7b\x7bb",
        "\x7b\x7b#newGuid\x7d\x7d"] ∧
      (r.inTurn calls e).map (fun g => (g.outcome r).1.toOption) =
        [some "$guid1$", none, some "$guid3$"] ∧
      r.expander = .parameters ∧ e.nextParameter = firstNumber ∧
      ((r.inTurn calls e).flatMap (·.newGuids r)).length = 3 ∧ (r.behind calls e).nextParameter = 4 ∧
      Counted r (r.inTurn calls e) (r.behind calls e).nextParameter) ∧
    ∃ (files : FileSystem) (t : Template) (p : Plan),
      files = ⟨.directory [("work", .directory [("a.txt", .file "\x7b\x7b#newGuid\x7d\x7d".toUTF8)])],
        ["work"]⟩ ∧
      ((Template.parse files ⟨"/work/t.xml"⟩
        "<Template><Project src=\"a.txt\" dst=\"\x7b\x7b#newGuid\x7d\x7d\"/></Template>").outcome
          {}).1.toOption = some t ∧
      ((plan t {} 2031 ⟨⟨"out"⟩, [], .cSharp⟩).outcome (Run.start files ⟨0, 0⟩ {})).1.toOption =
        some p ∧
      (exportPackage t {} 2031 ⟨⟨"out"⟩, [], .cSharp⟩ files ⟨0, 0⟩).2.files.at?
        ["work", "out", "$guid1$"] = some (some "$guid2$".toUTF8) ∧
      Identified t {} 2031 ⟨⟨"out"⟩, [], .cSharp⟩ files ⟨0, 0⟩ := by
  let r : Renderer := ⟨⟨[]⟩, .parameters, .proceed, 2031⟩
  let e : Expansion := ⟨{ strict := true }, ⟨0, 0⟩, firstNumber⟩
  let calls : List (Path × Position × String) :=
    [(⟨"t.xml"⟩, ⟨1, 1⟩, "\x7b\x7b#newGuid\x7d\x7d"),
      (⟨"t.xml"⟩, ⟨2, 1⟩, "a\x7b\x7b #newGuid \x7d\x7d\x7b\x7bb"),
      (⟨"t.xml"⟩, ⟨3, 1⟩, "\x7b\x7b#newGuid\x7d\x7d")]
  have hlength : ((r.inTurn calls e).flatMap (·.newGuids r)).length = 3 := by decide +kernel
  let files : FileSystem := ⟨.directory [("work", .directory
    [("a.txt", .file "\x7b\x7b#newGuid\x7d\x7d".toUTF8)])], ["work"]⟩
  let t : Template := ⟨⟨"/work/t.xml"⟩, none, none, none, none, [⟨"/work"⟩],
    ⟨[⟨"_sourceExt", some "Extension of source files.", "cs", none, .string, true⟩]⟩,
    [⟨⟨"a.txt", ["/work/a.txt"], "\x7b\x7b#newGuid\x7d\x7d", false, ⟨1, 11⟩⟩, []⟩]⟩
  let plan := ((Package.plan t {} 2031 ⟨⟨"out"⟩, [], .cSharp⟩).outcome
    (Run.start files ⟨0, 0⟩ {})).1.toOption
  let p : Plan := plan.get (by decide +kernel)
  refine ⟨⟨r, calls, e, rfl, ?_, rfl, rfl, hlength, ?_, ?_⟩, files, t, p, rfl, ?_, ?_, ?_,
    guids_never_repeat.2 t {} 2031 ⟨⟨"out"⟩, [], .cSharp⟩ files ⟨0, 0⟩⟩
  · decide +kernel
  · decide +kernel
  · exact guids_never_repeat.1 r calls e rfl rfl (by rw [hlength]; decide)
  · decide +kernel
  · exact (Option.some_get _).symm
  · decide +kernel

end Package

end Stencil
