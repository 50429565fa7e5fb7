import Stencil.Proofs.Comparison.Lenience
import Stencil.Proofs.Comparison.Package
import Stencil.Proofs.FileSystem.Below
import Stencil.Proofs.Generation.Turn
import Stencil.Proofs.Package.Layout

namespace Stencil

open FileSystem (Grown Opens Retains Room Wrote nameLimit)
open Stencil.Path (Written)

variable {fs fs' made : FileSystem} {base names above : List String} {last : String}
  {done pieces : List PackagePiece} {output target : Path} {file : PackageFile}

/-- A file may have been written, and nothing else was done. -/
def FileSystem.Scribbled (fs : FileSystem) (target : Path) (fs' : FileSystem) : Prop :=
  fs' = fs ∨ ∃ place content, Wrote fs target place content fs'

/-- All directories are where they were, and no file went away. -/
structure FileSystem.SameDirectories (fs fs' : FileSystem) : Prop where
  retains : Retains fs fs'
  directory : ∀ q, fs'.at? q = some none → fs.at? q = some none

theorem FileSystem.SameDirectories.refl (fs : FileSystem) : fs.SameDirectories fs :=
  ⟨Retains.refl fs, fun _ h => h⟩

theorem FileSystem.SameDirectories.trans {fs₁ fs₂ fs₃ : FileSystem} (h : fs₁.SameDirectories fs₂)
    (h' : fs₂.SameDirectories fs₃) : fs₁.SameDirectories fs₃ :=
  ⟨h.retains.trans h'.retains, fun q hq => h.directory q (h'.directory q hq)⟩

theorem FileSystem.Scribbled.sameDirectories (h : fs.Scribbled target fs') :
    fs.SameDirectories fs' := by
  rcases h with rfl | ⟨place, content, hwrote⟩
  · exact SameDirectories.refl fs'
  · refine ⟨hwrote.retains, fun q hq => ?_⟩
    rw [hwrote.at?] at hq
    split at hq
    · cases hq
    · exact hq

/-- What the text of a source can expand to. -/
def Renderer.Renders (r : Renderer) (source : Path) (text rendered : String) : Prop :=
  ∃ before after, (r.render source text).outcome before = (.ok rendered, after)

theorem Renderer.renders_triple (r : Renderer) (source : Path) (text : String) :
    Triple (fun _ => True) (r.render source text) (fun rendered _ => r.Renders source text rendered)
      (fun _ => True) :=
  (Triple.ran _).mono (fun _ h => h) (fun _ after ⟨before, _, h⟩ => ⟨before, after, h⟩) fun _ h => h

/-- What a file holds that is written at a place: a copy of its source, or what the text there
expands to. -/
def PackageFile.Filled (r : Renderer) (fs : FileSystem) (file : PackageFile) (place : List String)
    (content : ByteArray) : Prop :=
  if file.raw then fs.Copied file.source place content
  else ∃ text rendered, fs.readText file.source = .ok text ∧ r.Renders file.source text rendered ∧
    content = rendered.toUTF8

namespace Package

variable {r : Renderer} {t : Template} {written : List WrittenFile}

/-- Expanding a source reads its text and changes nothing. -/
theorem expandSource_triple (r : Renderer) (source : Path) :
    Triple (fun s => s.files = fs ∧ s.written = written) (Run.expandSource r source)
      (fun rendered s => (s.files = fs ∧ s.written = written) ∧
        ∃ text, fs.readText source = .ok text ∧ r.Renders source text rendered)
      (fun s => s.files = fs ∧ s.written = written) := by
  unfold Run.expandSource
  refine Run.looking_triple.bind fun text => Triple.of_and fun htext => ?_
  refine (Run.expanding_triple (P := fun files w => files = fs ∧ w = written)
    (r.renders_triple source text)).mono (fun _ h => h) (fun rendered _ h => ?_) fun _ h => h
  exact ⟨h.1, text, htext, h.2⟩

/-- Writing a file fails without a trace, or writes what the file is to hold. -/
theorem writeFile_triple (r : Renderer) (file : PackageFile) (target : Path) :
    Triple (fun s => s.files = fs ∧ s.written = written) (writeFile r file target)
      (fun _ s => (∃ place content, Wrote fs target place content s.files ∧
        file.Filled r fs place content) ∧ s.written = written)
      (fun s => s.files = fs ∧ s.written = written) := by
  unfold writeFile
  refine Triple.ite (fun hraw => ?_) fun hraw => ?_
  · refine (Run.onFiles_triple (FileSystem.copy_copied fs file.source target) written).mono
      (fun _ h => h) (fun _ s h => ?_) fun _ h => h
    obtain ⟨⟨place, content, hwrote, hcopied⟩, hwritten⟩ := h
    exact ⟨⟨place, content, hwrote, by rwa [PackageFile.Filled, if_pos hraw]⟩, hwritten⟩
  · refine (expandSource_triple r file.source).bind fun rendered => Triple.of_and fun hrendered => ?_
    obtain ⟨text, htext, hrenders⟩ := hrendered
    refine (Run.onFiles_triple (FileSystem.write_triple fs target rendered.toUTF8) written).mono
      (fun _ h => h) (fun _ s h => ?_) fun _ h => h
    obtain ⟨⟨place, hwrote⟩, hwritten⟩ := h
    refine ⟨⟨place, _, hwrote, ?_⟩, hwritten⟩
    rw [PackageFile.Filled, if_neg hraw]
    exact ⟨text, rendered, htext, hrenders, rfl⟩

theorem onFiles_scribbled {x : FileStep Unit}
    (h : Triple (· = fs) x (fun _ fs' => ∃ place content, Wrote fs target place content fs')
      (· = fs)) :
    Triple (fun s => s.files = fs) (Run.onFiles x) (fun _ s => fs.Scribbled target s.files)
      (fun s => fs.Scribbled target s.files) := by
  intro s hs
  refine (Run.onFiles_triple h s.written).mono (fun _ h => h) (fun _ s' h => ?_) (fun s' h => ?_) s
    ⟨hs, rfl⟩
  · exact Or.inr h.1
  · exact Or.inl h.1

theorem writeFile_scribbled (r : Renderer) (file : PackageFile) (target : Path) :
    Triple (fun s => s.files = fs) (writeFile r file target) (fun _ s => fs.Scribbled target s.files)
      (fun s => fs.Scribbled target s.files) := by
  intro s hs
  refine (writeFile_triple r file target).mono (fun _ h => h) (fun _ s' h => ?_) (fun s' h => ?_) s
    ⟨hs, rfl⟩
  · obtain ⟨⟨place, content, hwrote, -⟩, -⟩ := h
    exact Or.inr ⟨place, content, hwrote⟩
  · exact Or.inl h.1

/-- Trying a file writes at most this file. -/
theorem tryFile_scribbled (r : Renderer) (file : PackageFile) (target : Path) :
    Triple (fun s => s.files = fs) (tryFile r file target) (fun _ s => fs.Scribbled target s.files)
      (fun s => fs.Scribbled target s.files) := by
  have hquiet {α : Type} {x : Attempt Run α} (hx : Quiet x) :=
    hx.triple (P := fun files _ => fs.Scribbled target files)
  unfold tryFile
  refine (writeFile_scribbled r file target).caught.bind fun result => ?_
  split
  · exact fun _ hs => hs
  · exact hquiet (Quiet.pure _)
  · exact Triple.ite (fun _ => hquiet (Quiet.throw _)) fun _ => hquiet (Quiet.say _ _)

end Package

/-- A piece leaves all directories and files that there are. -/
theorem writePiece_retains (r : Renderer) (output : Path) (piece : PackagePiece) :
    Triple (fun s => Retains fs s.files) (Package.writePiece r output piece)
      (fun _ s => Retains fs s.files) (fun s => Retains fs s.files) := by
  intro s hs
  obtain ⟨names, kind⟩ := piece
  cases kind with
  | some file =>
    have hretains {s' : Run} (h : s.files.Scribbled (output.join (pathOfNames names)) s'.files) :
        Retains fs s'.files := hs.trans h.sameDirectories.retains
    exact ((Package.tryFile_scribbled r file _).mono (fun _ h => h) (fun _ _ h => hretains h)
      fun _ h => hretains h) s rfl
  | none =>
    have hgrown := (FileSystem.createDirectories_triple s.files (output.join (pathOfNames names))).mono
      (fun _ h => h) (fun _ _ h => h.1) fun _ h => h
    refine ((Run.onFiles_triple hgrown s.written).mono (fun _ h => h) (fun _ s' h => ?_)
      fun s' h => ?_) s ⟨Grown.refl _, rfl⟩
    · exact hs.trans h.1.retains
    · exact hs.trans h.1.retains

/-- What stands in the files after some pieces were written below a directory that was made before.
All directories are those that were there and those of the pieces, and so are all files. -/
structure Laid (made : FileSystem) (base : List String) (done : List PackagePiece)
    (fs : FileSystem) : Prop where
  retains : Retains made fs
  present : ∀ names, (names, none) ∈ done →
    fs.at? (base ++ names) = some none ∧ ∀ n ∈ names, ¬ nameLimit < n.utf8ByteSize
  directory : ∀ q, fs.at? q = some none →
    made.at? q = some none ∨ ∃ names, (names, none) ∈ done ∧ q = base ++ names
  file : ∀ q content, fs.at? q = some (some content) →
    (∃ content', made.at? q = some (some content')) ∨
      ∃ names file, (names, some file) ∈ done ∧ q = base ++ names

namespace Laid

theorem start (h : made.at? base = some none) : Laid made base [([], none)] made := by
  refine ⟨Retains.refl made, fun names hmem => ?_, fun q hq => Or.inl hq,
    fun q content hq => Or.inl ⟨content, hq⟩⟩
  obtain ⟨rfl, -⟩ := Prod.mk.inj (List.mem_singleton.mp hmem)
  rw [List.append_nil]
  exact ⟨h, nofun⟩

variable (h : Laid made base done fs)
include h

theorem directory_more (piece : PackagePiece) {q : List String} (hq : fs.at? q = some none) :
    made.at? q = some none ∨ ∃ names, (names, none) ∈ done ++ [piece] ∧ q = base ++ names := by
  rcases h.directory q hq with hmade | ⟨names, hmem, heq⟩
  · exact Or.inl hmade
  · exact Or.inr ⟨names, List.mem_append_left _ hmem, heq⟩

theorem file_more (piece : PackagePiece) {q : List String} {content : ByteArray}
    (hq : fs.at? q = some (some content)) : (∃ content', made.at? q = some (some content')) ∨
      ∃ names file, (names, some file) ∈ done ++ [piece] ∧ q = base ++ names := by
  rcases h.file q content hq with hmade | ⟨names, file, hmem, heq⟩
  · exact Or.inl hmade
  · exact Or.inr ⟨names, file, List.mem_append_left _ hmem, heq⟩

/-- A directory is added. -/
theorem makeDirectory (hgrown : Grown fs fs') (hshort : ∀ n ∈ names, ¬ nameLimit < n.utf8ByteSize)
    (hplaces : ∀ q, fs'.at? q = if q = base ++ names then some none else fs.at? q) :
    Laid made base (done ++ [(names, none)]) fs' := by
  refine ⟨h.retains.trans hgrown.retains, fun front hmem => ?_, fun q hq => ?_,
    fun q content hq => ?_⟩
  · rcases List.mem_append.mp hmem with hmem | hmem
    · obtain ⟨hdir, hfront⟩ := h.present front hmem
      exact ⟨hgrown.retains.directory _ hdir, hfront⟩
    · obtain ⟨rfl, -⟩ := Prod.mk.inj (List.mem_singleton.mp hmem)
      exact ⟨(hplaces _).trans (if_pos rfl), hshort⟩
  · rw [hplaces] at hq
    split at hq
    · next heq => exact Or.inr ⟨names, List.mem_append_right _ List.mem_cons_self, heq⟩
    · exact h.directory_more _ hq
  · rw [hgrown.file_iff] at hq
    exact h.file_more _ hq

/-- A file is added, or not. -/
theorem scribbled (htarget : target.placeFrom fs.workingDirectory = base ++ names)
    (hwrote : fs.Scribbled target fs') : Laid made base (done ++ [(names, some file)]) fs' := by
  have hsome (front : List String) (hmem : (front, none) ∈ done ++ [(names, some file)]) :
      (front, none) ∈ done := by
    rcases List.mem_append.mp hmem with hmem | hmem
    · exact hmem
    · cases (Prod.mk.inj (List.mem_singleton.mp hmem)).2
  rcases hwrote with rfl | ⟨place, content, hwrote⟩
  · exact ⟨h.retains, fun front hmem => h.present front (hsome front hmem),
      fun q hq => h.directory_more _ hq, fun q content hq => h.file_more _ hq⟩
  · have hplace : place = base ++ names := hwrote.place_eq.trans htarget
    refine ⟨h.retains.trans hwrote.retains, fun front hmem => ?_, fun q hq => ?_,
      fun q content' hq => ?_⟩
    · obtain ⟨hdir, hfront⟩ := h.present front (hsome front hmem)
      exact ⟨hwrote.retains.directory _ hdir, hfront⟩
    · rw [hwrote.at?] at hq
      split at hq
      · cases hq
      · exact h.directory_more _ hq
    · rw [hwrote.at?] at hq
      split at hq
      · next heq =>
        exact Or.inr ⟨names, file, List.mem_append_right _ List.mem_cons_self, heq.trans hplace⟩
      · exact h.file_more _ hq

/-- No piece takes the room of another, so there is room where there was before the first of them. -/
theorem room_iff (hbase : base = output.placeFrom []) (hfree : ∀ file, (names, some file) ∉ done) :
    fs.Room output names ↔ made.Room output names := by
  constructor
  · intro hroom
    refine ⟨hroom.check, hroom.short, fun content hc => ?_⟩
    obtain ⟨content', hc'⟩ := h.retains.file _ content hc
    exact hroom.free content' hc'
  · intro hroom
    refine ⟨hroom.check, hroom.short, fun content hc => ?_⟩
    rcases h.file _ content hc with ⟨content', hc'⟩ | ⟨front, file, hmem, heq⟩
    · exact hroom.free content' hc'
    · have hnames : names = front := List.append_cancel_left (hbase ▸ heq)
      exact hfree file (hnames ▸ hmem)

end Laid

/-- How the writing of pieces ends: with all of them there, or at a directory without room. -/
inductive PiecesEnd (made : FileSystem) (output : Path) (base : List String)
    (done pieces : List PackagePiece) : Except Failure Unit × Run → Prop
  | laid {t : Run} (hroom : ∀ names, (names, none) ∈ pieces → made.Room output names)
    (h : Laid made base (done ++ pieces) t.files) (ht : t.expansion.journal.Lenient) :
    PiecesEnd made output base done pieces (.ok (), t)
  | stuck {e : Failure} {t : Run} (hroom : ¬ ∀ names, (names, none) ∈ pieces → made.Room output names) :
    PiecesEnd made output base done pieces (.error e, t)

namespace Package

variable {r : Renderer} {s : Run}

section

variable (hopens : made.Opens output base) (h : Laid made base done s.files)
  (hs : s.expansion.journal.Lenient) (hparent : (above, none) ∈ done)
  (hnames : ∀ n ∈ above ++ [last], Written (.name n))
include hopens h hs hparent hnames

theorem piecesEnd_directory (hfree : ∀ file, (above ++ [last], some file) ∉ done) :
    PiecesEnd made output base done [(above ++ [last], none)]
      ((writePiece r output (above ++ [last], none)).outcome s) := by
  obtain ⟨hdir, hshort⟩ := h.present above hparent
  have hopens' := hopens.mono h.retains
  have hroom := h.room_iff hopens.base_eq hfree
  have hout := Run.outcome_onFiles
    (FileSystem.createDirectories (output.join (pathOfNames (above ++ [last])))) s
  unfold writePiece
  rw [hout]
  -- room is told by the state before the first piece, for the pieces do not take it
  by_cases hmade : made.Room output (above ++ [last])
  · obtain ⟨fs', hcreate, hgrown, hplaces⟩ :=
      hopens'.createDirectories hnames hdir hshort (hroom.mpr hmade)
    rw [hcreate]
    refine .laid (fun names hmem => ?_) (h.makeDirectory hgrown hmade.short hplaces) hs
    obtain ⟨rfl, -⟩ := Prod.mk.inj (List.mem_singleton.mp hmem)
    exact hmade
  · obtain ⟨fault, hcreate⟩ :=
      hopens'.createDirectories_error hnames hdir hshort fun hroom' => hmade (hroom.mp hroom')
    rw [hcreate]
    exact .stuck fun hall => hmade (hall _ List.mem_cons_self)

omit hparent in
theorem piecesEnd_file (file : PackageFile) :
    PiecesEnd made output base done [(above ++ [last], some file)]
      ((writePiece r output (above ++ [last], some file)).outcome s) := by
  obtain ⟨_, t, hout, ht⟩ := (matched_tryFile Journal.spoken_lenient r file
    (output.join (pathOfNames (above ++ [last])))).outcome_lenient hs
  have hscribbled := (tryFile_scribbled r file _).of_outcome rfl hout
  have htarget := (hopens.mono h.retains).placeFrom_below hnames s.files.workingDirectory
  unfold writePiece
  rw [hout]
  exact .laid (fun names hmem => by simp at hmem) (h.scribbled htarget hscribbled) ht

end

/-- Each directory is made, and each file is tried, until there is no room for a directory. -/
theorem piecesEnd_forM (hopens : made.Opens output base) (h : Laid made base done s.files)
    (hs : s.expansion.journal.Lenient) (hdescending : Descending done pieces)
    (hnames : ∀ piece ∈ pieces, ∀ n ∈ piece.1, Written (.name n))
    (hapart : ∀ names file, (names, none) ∈ pieces → (names, some file) ∉ done ++ pieces) :
    PiecesEnd made output base done pieces ((pieces.forM (writePiece r output)).outcome s) := by
  induction pieces generalizing done s with
  | nil => exact .laid nofun ((List.append_nil done).symm ▸ h) hs
  | cons piece rest ih =>
    obtain ⟨⟨above, last, heq, hparent⟩, hrest⟩ := hdescending
    obtain ⟨names, kind⟩ := piece
    obtain rfl : names = above ++ [last] := heq
    have hwritten := hnames _ List.mem_cons_self
    have hfirst : PiecesEnd made output base done [(above ++ [last], kind)]
        ((writePiece r output (above ++ [last], kind)).outcome s) := by
      cases kind with
      | some file => exact piecesEnd_file hopens h hs hwritten file
      | none =>
        refine piecesEnd_directory hopens h hs hparent hwritten fun file hmem => ?_
        exact hapart _ file List.mem_cons_self (List.mem_append_left _ hmem)
    have hcons : ((above ++ [last], kind) :: rest).forM (writePiece r output) =
        writePiece r output (above ++ [last], kind) >>= fun _ => rest.forM (writePiece r output) := rfl
    rw [hcons, Attempt.outcome_bind]
    -- a piece without room ends the writing, and otherwise the next ones find this one done
    generalize (writePiece r output (above ++ [last], kind)).outcome s = left at hfirst
    cases hfirst with
    | stuck hroom =>
      refine .stuck fun hall => hroom fun names hmem => hall names ?_
      exact List.mem_cons.mpr (Or.inl (List.mem_singleton.mp hmem))
    | @laid t hroom h ht =>
      have hapart' : ∀ names file, (names, none) ∈ rest →
          (names, some file) ∉ done ++ [(above ++ [last], kind)] ++ rest := by
        intro names file hmem hfile
        rw [List.append_assoc] at hfile
        exact hapart names file (List.mem_cons_of_mem _ hmem) hfile
      have hlast := ih h ht hrest (fun piece hmem => hnames piece (List.mem_cons_of_mem _ hmem)) hapart'
      simp only
      generalize (rest.forM (writePiece r output)).outcome t = right at hlast
      cases hlast with
      | stuck hroom' =>
        exact .stuck fun hall => hroom' fun names hmem => hall names (List.mem_cons_of_mem _ hmem)
      | laid hroom' h' ht' =>
        refine .laid (fun names hmem => ?_) (by simpa using h') ht'
        rcases List.mem_cons.mp hmem with heq | hmem
        · exact hroom names (List.mem_singleton.mpr heq)
        · exact hroom' names hmem

end Package

end Stencil
