import Stencil.Proofs.FileSystem.Along
import Stencil.Proofs.Generation.Account
import Stencil.Proofs.Generation.Extent
import Stencil.Proofs.Package.Completion
import Stencil.Proofs.Substitution.Fixed

/-! Where generating and exporting look for sources. Both look up an entry's candidates in turn, but a
generation does so among the files that it made by then, and with values in place of parameters. The
two find the same as long as neither shows in the candidates. -/

namespace Stencil

open FileSystem (FilledIn Gained Passes)

variable {t : Template} {settings : Settings} {year : Nat} {files : FileSystem} {guids : GuidSource}
  {r : Renderer} {base : Path} {e : Entry} {s s' : Run}

/-- Whether the destination of an entry never leads out of the output. -/
def Entry.Stays (e : Entry) (r : Renderer) (t : Template) : Prop :=
  ∀ relative, e.LeadsTo r t relative → rise (Path.mk relative).moves = 0

/-- What a target adds lies near the destination if it does not lead out. -/
theorem Entry.Stays.near {place : List String} (h : e.Stays r t) (hb : base.isRooted = true)
    (htours : e.Tours r t base place) : base.Near place := by
  obtain ⟨relative, hleads, hpassing⟩ := htours
  exact inside_of_rise hb (Entry.isRooted_of_leadsTo hleads) (h relative hleads) hpassing

/-- A target that does not lead out lies inside the destination. -/
theorem Entry.Stays.inside {relative : String} (h : e.Stays r t) (hb : base.isRooted = true)
    (hleads : e.LeadsTo r t relative) (start : List String) :
    base.placeFrom [] <+: (base.join ⟨relative⟩).placeFrom start := by
  have hrise := h relative hleads
  rw [placeFrom_of_isRooted (Path.isRooted_join hb ⟨relative⟩),
    Path.moves_join base (Entry.isRooted_of_leadsTo hleads), leads_append,
    ← placeFrom_of_isRooted hb [], leads_eq_take (Path.moving_moves ⟨relative⟩), hrise, Nat.sub_zero,
    List.take_length]
  exact List.prefix_append _ _

/-- A destination that a strict run expands once it has found a source, it always expands so. -/
theorem Entry.gives_of_resolved {before between after : Expansion} {source : Path} {relative : String}
    (hguid : Renderer.Guidless e.destination) (hs : before.journal.strict = true)
    (hsource : (e.resolveSource files r t).outcome before = (.ok source, between))
    (hrelative : (e.resolveDestination r t).outcome between = (.ok relative, after)) :
    Expansion.Gives (e.resolveDestination r t) relative ∧ after.journal.strict = true := by
  have honward := (e.matched_resolveSource Journal.spoken_onward r t files).ahead before before
    (Journal.Onward.refl _)
  rw [hsource] at honward
  have hbetween : between.journal.strict = true := honward.strict.trans hs
  exact (Entry.fixed_resolveDestination hguid).gives hbetween hrelative

namespace FileSystem.FilledIn

variable {fs : FileSystem}

theorem of_grown (h : FileSystem.Grown files fs) (hgained : Gained (base.Passing []) files fs) :
    FilledIn base files fs :=
  ⟨h.retains, hgained.mono fun _ hp => Or.inl hp, fun _ hp => Or.inl (h.fileAt_iff.mp hp)⟩

/-- An entry whose target does not lead out only fills the destination further. -/
theorem filed (h : FilledIn base files s.files) (hb : base.isRooted = true) (hstays : e.Stays r t)
    (hfiled : Filed r t base e s s') (hgained : Gained (e.Tours r t base) s.files s'.files) :
    FilledIn base files s'.files where
  retains := h.retains.trans hfiled.retains
  gained := h.gained.trans (hgained.mono fun _ => hstays.near hb)
  inside := by
    intro place hplace
    cases hfiled with
    | left hgrows =>
      obtain ⟨expansion, grown, hgrown, rfl⟩ := hgrows
      exact h.inside place (hgrown.fileAt_iff.mp hplace)
    | made hmade =>
      obtain ⟨made, target, content, hgrown, -, hwrote⟩ := hmade.wrote
      rcases hwrote.fileAt_iff.mp hplace with hbefore | rfl
      · exact h.inside place (hgrown.fileAt_iff.mp hbefore)
      · obtain ⟨relative, after, last, -, hrelative, rfl⟩ := hmade.resolved
        right
        rw [hwrote.place_eq]
        exact hstays.inside hb ⟨after, last, hrelative⟩ _

end FileSystem.FilledIn

namespace Generation

/-- What holds whenever a lenient generation takes up an entry. -/
structure Underway (base : Path) (files : FileSystem) (s : Run) : Prop where
  passes : s.files.Passes [] base.moves
  filled : FilledIn base files s.files
  lenient : s.expansion.Lenient

/-- Taking up an entry leaves things as the next one needs them. -/
theorem Underway.addEntry {kind : String} {result : Except Failure Unit}
    (h : Underway base files s) (hb : base.isRooted = true) (hstays : e.Stays r t)
    (hrun : (addEntry r t base kind e).outcome s = (result, s')) : Underway base files s' := by
  have hfiled := (addEntry_filed r t kind e hb h.passes).after (s := s) rfl
  have hmake : Triple (fun s' => Gained (e.Tours r t base) s.files s'.files) (makeEntry r t base e)
      (fun _ s' => Gained (e.Tours r t base) s.files s'.files)
      (fun s' => Gained (e.Tours r t base) s.files s'.files) := fun s' hs =>
    ((makeEntry_gained r t hb e).mono (fun _ h => h) (fun _ _ h => hs.trans h.1)
      fun _ h => hs.trans h) s' ⟨rfl, rfl⟩
  have hgained := (addEntry_keeps (P := fun fs _ => Gained (e.Tours r t base) s.files fs) kind
    hmake).after (s := s) (Gained.refl _ _)
  have honward := (matched_addEntry Journal.spoken_onward r t base kind e).onward s
  rw [hrun] at hfiled hgained honward
  exact ⟨h.passes.mono hfiled.retains, h.filled.filed hb hstays hfiled hgained,
    honward.strict.trans h.lenient⟩

/-- What a generation does before it takes up its entries. -/
def opening (t : Template) (settings : Settings) (q : GenerationRequest) : Attempt Run Path := do
  let destination ← Run.destination settings q.destination
  Run.journaled (t.mentionIgnored q.values)
  Run.onFiles (FileSystem.createDirectories destination)
  return destination

/-- What a generation does after it took up its entries. -/
def closing (q : GenerationRequest) : Attempt Run Unit := do
  match q.solution with
  | some path => trySolution path (← get).projects
  | none => return ()

variable {q : GenerationRequest}

theorem steps_eq_opening : steps t settings year q = (do
    let base ← opening t settings q
    (tasks t.projects).forM fun task => addEntry (renderer t settings year q) t base task.1 task.2
    closing q) := by
  unfold steps opening
  simp only [bind_assoc, pure_bind, ← addProjects_eq]
  rfl

/-- The states in which a generation takes up an entry. -/
def TakesUp (t : Template) (settings : Settings) (year : Nat) (q : GenerationRequest)
    (files : FileSystem) (guids : GuidSource) (e : Entry) (s : Run) : Prop :=
  ∃ base begun taken kind,
    (opening t settings q).outcome (Run.start files guids settings) = (.ok base, begun) ∧
      taken ++ [(kind, e)] <+: tasks t.projects ∧
      Linked (fun task s s' =>
        (addEntry (renderer t settings year q) t base task.1 task.2).outcome s = (.ok (), s'))
        taken begun s

/-- What a generation finds as the source of an entry that it takes up: a file, or why there is none. -/
def Finds (t : Template) (settings : Settings) (year : Nat) (q : GenerationRequest)
    (files : FileSystem) (guids : GuidSource) (e : Entry) (found : Except Failure Path) : Prop :=
  ∃ s, TakesUp t settings year q files guids e s ∧
    found = ((e.resolveSource s.files (renderer t settings year q) t).outcome s.expansion).1

theorem opening_triple (files : FileSystem) :
    Triple (fun s => s.files = files) (opening t settings q)
      (fun base s => q.destination.absolute? files.workingPath = some base ∧
        s.files.Passes [] base.moves ∧ FilledIn base files s.files) fun _ => True := by
  intro s hs
  unfold opening
  refine (((destination_triple files s.written settings q.destination).mono_error
    fun _ _ => trivial).bind fun base => Triple.of_and fun hbase => ?_) s ⟨hs, rfl⟩
  have hb := isRooted_absolute hbase
  refine (((Quiet.expanding _).triple (P := fun fs w => fs = files ∧ w = s.written)).mono_error
    fun _ _ => trivial).bind fun _ => ?_
  have hgained : Triple (· = files) (FileSystem.createDirectories base)
      (fun _ => Gained (base.Passing []) files) (Gained (base.Passing []) files) :=
    (FileSystem.createDirectories_gained fun place hp =>
      (Path.passing_iff_of_isRooted hb _ place).mp hp).mono (fun _ h => h ▸ Gained.refl _ _)
      (fun _ _ h => h) fun _ h => h
  have hmake := ((FileSystem.createDirectories_triple files base).mono
    (fun fs (h : fs = files) => h ▸ FileSystem.Grown.refl _) (fun _ _ h => h) fun _ h => h).and hgained
  refine ((Run.onFiles_triple hmake s.written).mono (fun _ h => ⟨⟨h.1, h.1⟩, h.2⟩) (fun _ _ h => h.1)
    fun _ _ => trivial).bind fun _ => Triple.pure fun _ h => ?_
  obtain ⟨⟨hgrown, hmade⟩, hgained⟩ := h
  exact ⟨hbase, passes_of_made hb hmade, .of_grown hgrown hgained⟩

/-- What a generation says before it takes up its entries halts it nowhere. -/
theorem matched_opening {C : Comparison Journal} {F : Failure → Prop} (hC : Spoken C F) (t : Template)
    (settings : Settings) (q : GenerationRequest) :
    Matched C.ofRuns (fun _ => True) (opening t settings q) := by
  unfold opening
  refine ((Matched.destination _ _).mono fun _ _ => trivial).bind fun base => ?_
  refine ((t.matched_mentionIgnored hC _).mono fun _ _ => trivial).bind fun _ => ?_
  exact (Matched.onFiles fun _ => trivial).bind fun _ => Matched.pure _

theorem opening_onward (t : Template) (settings : Settings) (q : GenerationRequest) (s : Run) :
    Journal.Onward s.expansion.journal ((opening t settings q).outcome s).2.expansion.journal :=
  (matched_opening Journal.spoken_onward t settings q).onward s

/-- Whenever a lenient generation takes up an entry, its destination was at most made and filled. -/
theorem TakesUp.underway (h : TakesUp t settings year q files guids e s)
    (hlenient : settings.strict = false)
    (hstays : ∀ e ∈ t.projects.flatMap Project.entries, e.Stays (renderer t settings year q) t) :
    ∃ base, q.destination.absolute? files.workingPath = some base ∧ Underway base files s := by
  obtain ⟨base, begun, taken, kind, hopening, hfront, hlinked⟩ := h
  obtain ⟨hbase, hpasses, hfilled⟩ := (opening_triple files).of_outcome rfl hopening
  have honward := opening_onward t settings q (Run.start files guids settings)
  rw [hopening] at honward
  refine ⟨base, hbase, hlinked.keeps ⟨hpasses, hfilled, honward.strict.trans hlenient⟩
    fun task htask s s' hs hrun => ?_⟩
  refine hs.addEntry (isRooted_absolute hbase) (hstays task.2 ?_) hrun
  rw [← map_tasks]
  exact List.mem_map_of_mem (hfront.subset (List.mem_append_left _ htask))

/-- A generation that is not fatal takes up every entry. -/
theorem exists_finds (h : (generate t settings year q files guids).1.outcome ≠ .fatal)
    (he : e ∈ t.projects.flatMap Project.entries) :
    ∃ found, Finds t settings year q files guids e found := by
  obtain ⟨last, hrun⟩ := Run.exists_of_not_fatal h
  rw [steps_eq_opening] at hrun
  obtain ⟨base, begun, hopening, hrun⟩ := Attempt.outcome_bind_eq_ok_iff.mp hrun
  obtain ⟨_, turned, hloop, -⟩ := Attempt.outcome_bind_eq_ok_iff.mp hrun
  rw [← map_tasks] at he
  obtain ⟨⟨kind, e⟩, htask, rfl⟩ := List.mem_map.mp he
  obtain ⟨front, back, hsplit⟩ := List.append_of_mem htask
  rw [hsplit] at hloop
  obtain ⟨s, hfront, -⟩ := (Linked.of_forM hloop).split
  exact ⟨_, s, ⟨base, begun, front, kind, hopening, ⟨back, by rw [hsplit, List.append_assoc]; rfl⟩,
    hfront⟩, rfl⟩

end Generation

namespace Package

/-- What an export does before it takes up its entries. -/
def opening (t : Template) (settings : Settings) (q : ExportRequest) :
    Attempt Run (Path × Project) := do
  let output ← Run.destination settings q.output
  Run.journaled (t.mentionIgnored q.values)
  Run.detail s!"Exporting Visual Studio template to {output.text}"
  let project ← onlyProject t
  return (output, project)

/-- The states in which an export takes up an entry of its project: that of the project file first,
and the others, one after the other, once that one has its place. -/
inductive Reaches (files : FileSystem) (r : Renderer) (t : Template) (p : Project)
    (start : Expansion) : Entry → Expansion → Prop
  | project : Reaches files r t p start p.entry start
  | file {entries full : PackageEntries} {names : List String} {placed x : Expansion}
    {taken : List Entry} {e : Entry}
    (hplaced : (layOut files r t [] p.entry).outcome start = (.ok (entries, some names), placed))
    (hfront : taken ++ [e] <+: p.files)
    (hlinked : Linked (fun e before after => ∃ place,
      (layOut files r t before.1 e).outcome before.2 = (.ok (after.1, place), after.2))
      taken (entries, placed) (full, x)) : Reaches files r t p start e x

/-- What an export finds as the source of an entry that it takes up: a file, or why there is none. -/
def Finds (t : Template) (settings : Settings) (year : Nat) (q : ExportRequest)
    (files : FileSystem) (guids : GuidSource) (e : Entry) (found : Except Failure Path) : Prop :=
  ∃ output project begun x,
    (opening t settings q).outcome (Run.start files guids settings) = (.ok (output, project), begun) ∧
      Reaches begun.files (renderer t settings year q) t project begun.expansion e x ∧
      found = ((e.resolveSource begun.files (renderer t settings year q) t).outcome x).1

variable {q : ExportRequest} {p : Project} {x start : Expansion}

theorem plan_eq_opening : plan t settings year q = (do
    let (output, project) ← opening t settings q
    let files ← Run.currentFiles
    let (entries, names) ← Run.expanding
      (layOutProject files (renderer t settings year q) t project)
    return (output, entries, names)) := by
  unfold plan opening
  simp only [bind_assoc, pure_bind]

theorem quiet_opening (t : Template) (settings : Settings) (q : ExportRequest) :
    Quiet (opening t settings q) := by
  unfold opening
  refine Quiet.bind (fun s => ?_) fun output => (Quiet.expanding _).bind fun _ => ?_
  · rw [Run.outcome_destination]
    exact ⟨rfl, rfl⟩
  refine (Quiet.detail _).bind fun _ => Quiet.bind ?_ fun project => Quiet.pure _
  unfold onlyProject
  split
  · exact Quiet.pure _
  · exact Quiet.expanding _
  · exact Quiet.expanding _

/-- Only a template with a single project is exported. -/
theorem projects_of_opening {output : Path}
    (h : (opening t settings q).outcome s = (.ok (output, p), s')) : t.projects = [p] := by
  unfold opening at h
  obtain ⟨_, _, -, h⟩ := Attempt.outcome_bind_eq_ok_iff.mp h
  obtain ⟨_, _, -, h⟩ := Attempt.outcome_bind_eq_ok_iff.mp h
  obtain ⟨_, _, -, h⟩ := Attempt.outcome_bind_eq_ok_iff.mp h
  obtain ⟨only, _, honly, h⟩ := Attempt.outcome_bind_eq_ok_iff.mp h
  unfold onlyProject Run.journaled at honly
  split at honly
  · next project hprojects =>
    cases honly
    cases h
    exact hprojects
  · rw [Run.outcome_expanding, Expansion.outcome_journaled, Journal.outcome_fatal] at honly
    cases honly
  · rw [Run.outcome_expanding, Expansion.outcome_journaled, Journal.outcome_fatal] at honly
    cases honly

theorem opening_onward (t : Template) (settings : Settings) (q : ExportRequest) (s : Run) :
    Journal.Onward s.expansion.journal ((opening t settings q).outcome s).2.expansion.journal := by
  have hmatched : Matched Journal.onwardness.ofRuns (fun _ => True) (opening t settings q) := by
    unfold opening
    refine ((Matched.destination _ _).mono fun _ _ => trivial).bind fun output => ?_
    refine ((t.matched_mentionIgnored Journal.spoken_onward _).mono fun _ _ => trivial).bind fun _ => ?_
    refine ((Journal.spoken_onward.run_detail _).mono fun _ _ => trivial).bind fun _ => ?_
    refine ((matched_onlyProject (F := fun _ => False) t Journal.onward_fatal).mono
      fun _ _ => trivial).bind fun project => Matched.pure _
  exact hmatched.onward s

theorem layOut_onward (files : FileSystem) (r : Renderer) (t : Template) (entries : PackageEntries)
    (e : Entry) (x : Expansion) :
    Journal.Onward x.journal ((layOut files r t entries e).outcome x).2.journal :=
  (matched_layOut Journal.spoken_onward r t files entries e).ahead x x (Journal.Onward.refl _)

/-- Whenever a lenient export takes up an entry, it is still lenient. -/
theorem Reaches.lenient (h : Reaches files r t p start e x) (hstart : start.Lenient) : x.Lenient := by
  cases h with
  | project => exact hstart
  | @file entries full names placed _ taken _ hplaced hfront hlinked =>
    have hfirst := layOut_onward files r t [] p.entry start
    rw [hplaced] at hfirst
    refine hlinked.keeps (I := fun a : PackageEntries × Expansion => a.2.Lenient)
      (hfirst.strict.trans hstart) fun e _ before after hbefore hround => ?_
    obtain ⟨place, hround⟩ := hround
    have hnext := layOut_onward files r t before.1 e before.2
    rw [hround] at hnext
    exact hnext.strict.trans hbefore

/-- A layout that is handed on has a place for its project file, and went on from there. -/
theorem layOutProject_eq_ok {laid : PackageEntries × List String}
    (h : (layOutProject files r t p).outcome start = (.ok laid, x)) :
    ∃ entries placed, (layOut files r t [] p.entry).outcome start = (.ok (entries, some laid.2), placed) ∧
      Attempt.outcome (p.files.foldlM
        (fun entries e => do return (← layOut files r t entries e).1) entries) placed = (.ok laid.1, x) := by
  unfold layOutProject at h
  obtain ⟨⟨entries, place⟩, placed, hplaced, h⟩ := Attempt.outcome_bind_eq_ok_iff.mp h
  cases place with
  | none =>
    simp only at h
    rw [Expansion.outcome_journaled, Journal.outcome_fatal] at h
    cases h
  | some names =>
    obtain ⟨full, last, hloop, hlast⟩ := Attempt.outcome_bind_eq_ok_iff.mp h
    cases hlast
    exact ⟨entries, placed, hplaced, hloop⟩

/-- A layout that is handed on took up every entry. -/
theorem reaches_of_layOutProject {laid : PackageEntries × List String}
    (h : (layOutProject files r t p).outcome start = (.ok laid, x)) (he : e ∈ p.entries) :
    ∃ x, Reaches files r t p start e x := by
  rcases List.mem_cons.mp he with rfl | he
  · exact ⟨start, .project⟩
  · obtain ⟨entries, placed, hplaced, hloop⟩ := layOutProject_eq_ok h
    obtain ⟨front, back, hsplit⟩ := List.append_of_mem he
    rw [hsplit] at hloop
    obtain ⟨⟨reached, x⟩, hfront, -⟩ := (Linked.of_foldlM hloop).split
    refine ⟨x, .file hplaced ⟨back, by rw [hsplit, List.append_assoc]; rfl⟩
      (hfront.mono_kept (I := fun _ => True) trivial fun e _ before after _ hround => ?_).1⟩
    obtain ⟨grown, after', hlaid, hround⟩ := Attempt.outcome_bind_eq_ok_iff.mp hround
    obtain ⟨next, last⟩ := after
    cases hround
    exact ⟨⟨grown.2, hlaid⟩, trivial⟩

/-- An export that is not fatal takes up every entry. -/
theorem exists_finds (h : (exportPackage t settings year q files guids).1.outcome ≠ .fatal)
    (he : e ∈ t.projects.flatMap Project.entries) :
    ∃ found, Finds t settings year q files guids e found := by
  obtain ⟨last, hrun⟩ := Run.exists_of_not_fatal h
  rw [steps_eq, plan_eq_opening, bind_assoc] at hrun
  obtain ⟨⟨output, project⟩, begun, hopening, hrun⟩ := Attempt.outcome_bind_eq_ok_iff.mp hrun
  obtain ⟨⟨entries, names⟩, planned, hplan, -⟩ := Attempt.outcome_bind_eq_ok_iff.mp hrun
  obtain ⟨fs, s, hfs, hplan⟩ := Attempt.outcome_bind_eq_ok_iff.mp hplan
  cases hfs
  obtain ⟨laid, _, hlaid, -⟩ := Attempt.outcome_bind_eq_ok_iff.mp hplan
  rw [Run.outcome_expanding] at hlaid
  rw [projects_of_opening hopening, List.flatMap_singleton] at he
  obtain ⟨x, hreaches⟩ := reaches_of_layOutProject (Prod.ext (Prod.mk.inj hlaid).1 rfl) he
  exact ⟨_, output, project, begun, x, hopening, hreaches, rfl⟩

end Package

/-- Where no candidate is read differently for a package or lies where the generation writes, a
generation and an export find the same source for an entry, or both find none for the same reason;
and each of them looks for it unless it is fatal. -/
theorem finds_agree (t : Template) (settings : Settings) (year : Nat) (q : GenerationRequest)
    (output : Path) (files : FileSystem) (guids guids' : GuidSource) (e : Entry)
    (he : e ∈ t.projects.flatMap Project.entries) (hlenient : settings.strict = false)
    (hneutral : e.Neutral (t.variablesFor q.language q.values))
    (hstays : ∀ e ∈ t.projects.flatMap Project.entries,
      e.Stays (Generation.renderer t settings year q) t)
    (havoids : ∀ base ∈ q.destination.absolute? files.workingPath, ∀ path,
      e.Seeks (Generation.renderer t settings year q) t path → path.Avoids files base) :
    (∀ found found', Generation.Finds t settings year q files guids e found →
      Package.Finds t settings year ⟨output, q.values, q.language⟩ files guids' e found' →
      found = found') ∧
    ((generate t settings year q files guids).1.outcome ≠ .fatal →
      ∃ found, Generation.Finds t settings year q files guids e found) ∧
    ((exportPackage t settings year ⟨output, q.values, q.language⟩ files guids').1.outcome ≠ .fatal →
      ∃ found, Package.Finds t settings year ⟨output, q.values, q.language⟩ files guids' e found) := by
  refine ⟨?_, fun h => Generation.exists_finds h he, fun h => Package.exists_finds h he⟩
  rintro _ _ ⟨s, htakes, rfl⟩ ⟨_, project, begun, x, hopening, hreaches, rfl⟩
  obtain ⟨base, hbase, hunderway⟩ := htakes.underway hlenient hstays
  have hfiles : begun.files = files := by
    have hquiet := (Package.quiet_opening t settings ⟨output, q.values, q.language⟩
      (Run.start files guids' settings)).1
    rwa [hopening] at hquiet
  have honward := Package.opening_onward t settings ⟨output, q.values, q.language⟩
    (Run.start files guids' settings)
  rw [hopening] at honward
  have hx : x.Lenient := hreaches.lenient (honward.strict.trans hlenient)
  -- first from the files underway to those at the start, then from one renderer to the other
  have hsame : e.resolveSource s.files (Generation.renderer t settings year q) t =
      e.resolveSource begun.files
        (Package.renderer t settings year ⟨output, q.values, q.language⟩) t :=
    calc e.resolveSource s.files (Generation.renderer t settings year q) t
        = e.resolveSource files (Generation.renderer t settings year q) t :=
          Entry.resolveSource_congr fun path hpath => Bool.eq_iff_iff.mpr
            (hunderway.filled.isFile_iff (havoids base hbase path hpath))
      _ = e.resolveSource files
            { Generation.renderer t settings year q with expander := .parameters } t :=
          (Entry.resolveSource_of_neutral hneutral .parameters).symm
      _ = e.resolveSource begun.files
            (Package.renderer t settings year ⟨output, q.values, q.language⟩) t := by rw [hfiles]; rfl
  have hfixed : Expansion.Fixed
      (e.resolveSource s.files (Generation.renderer t settings year q) t) :=
    Entry.fixed_resolveSource fun c hc => (hneutral c hc).guidless
  obtain ⟨result, hresult⟩ := hfixed false
  rw [(hresult _ hunderway.lenient).1, ← hsame, (hresult _ hx).1]

/-- The source of the first project is looked up as soon as the destination is made. -/
theorem Generation.finds_first (base : Path) {q : GenerationRequest} {p : Project}
    {rest : List Project} {found : Except Failure Path} {begun : Except Failure Path × Run}
    (hbegun : (opening t settings q).outcome (Run.start files guids settings) = begun)
    (hbase : begun.1 = .ok base) (hprojects : t.projects = p :: rest)
    (hfound : ((p.entry.resolveSource begun.2.files (renderer t settings year q) t).outcome
      begun.2.expansion).1 = found) : Finds t settings year q files guids p.entry found :=
  ⟨begun.2, ⟨base, begun.2, [], "project", hbegun.trans (Prod.ext hbase rfl),
    ⟨_, by rw [hprojects]; rfl⟩, .nil⟩, hfound.symm⟩

/-- The source of the project is looked up first. -/
theorem Package.finds_first (output : Path) (p : Project) {q : ExportRequest}
    {found : Except Failure Path} {begun : Except Failure (Path × Project) × Run}
    (hbegun : (opening t settings q).outcome (Run.start files guids settings) = begun)
    (hproject : begun.1 = .ok (output, p))
    (hfound : ((p.entry.resolveSource begun.2.files (renderer t settings year q) t).outcome
      begun.2.expansion).1 = found) : Finds t settings year q files guids p.entry found :=
  ⟨output, p, begun.2, _, hbegun.trans (Prod.ext hproject rfl), .project, hfound.symm⟩

/-- A candidate with one variable. -/
theorem fragments_named : Fragment.ofText "/work/\x7b\x7bName\x7d\x7d.txt" =
    [.literal "/work/", .token "Name" ⟨0, 6⟩, .literal ".txt"] := by
  rw [Fragment.ofText, Scanner.fragments]
  simp only
  rw [dif_pos (by decide +kernel), dif_pos (by decide +kernel), Scanner.fragments,
    dif_neg (by decide +kernel)]
  decide +kernel

/-- A source that is named by a variable without a role is found by both. -/
theorem finds_agree_variable : ∃ (files : FileSystem) (t : Template) (e : Entry)
    (found : Except Failure Path),
    files = ⟨.directory [("work", .directory [("App.txt", .file "data".toUTF8)])], ["work"]⟩ ∧
      ((Template.parse files ⟨"/work/t.xml"⟩
        ("<Template><Var name=\"Name\">App</Var>" ++
          "<Project src=\"\x7b\x7bName\x7d\x7d.txt\" dst=\"a.txt\"/></Template>")).outcome
          {}).1.toOption = some t ∧
      e ∈ t.projects.flatMap Project.entries ∧
      Generation.Finds t {} 2031 ⟨⟨"out"⟩, none, [], .cSharp⟩ files ⟨0, 0⟩ e found ∧
      Package.Finds t {} 2031 ⟨⟨"out"⟩, [], .cSharp⟩ files ⟨7, 0⟩ e found := by
  let files : FileSystem :=
    ⟨.directory [("work", .directory [("App.txt", .file "data".toUTF8)])], ["work"]⟩
  let p : Project := ⟨⟨"\x7b\x7bName\x7d\x7d.txt", ["/work/\x7b\x7bName\x7d\x7d.txt"], "a.txt",
    false, ⟨1, 37⟩⟩, []⟩
  let t : Template := ⟨⟨"/work/t.xml"⟩, none, none, none, none, [⟨"/work"⟩],
    ⟨[⟨"_sourceExt", some "Extension of source files.", "cs", none, .string, true⟩,
      ⟨"Name", none, "App", none, .string, false⟩]⟩, [p]⟩
  have hgenerated : Generation.Finds t {} 2031 ⟨⟨"out"⟩, none, [], .cSharp⟩ files ⟨0, 0⟩ p.entry
      (.ok ⟨"/work/App.txt"⟩) := by
    refine Generation.finds_first ⟨"/work/out"⟩ rfl (by decide +kernel) rfl ?_
    simp only [p, Entry.resolveSource, Entry.firstSource, Renderer.renderAt, fragments_named]
    decide +kernel
  obtain ⟨found, hexported⟩ :
      ∃ found, Package.Finds t {} 2031 ⟨⟨"out"⟩, [], .cSharp⟩ files ⟨7, 0⟩ p.entry found :=
    ⟨_, Package.finds_first ⟨"/work/out"⟩ p rfl (by decide +kernel) rfl⟩
  refine ⟨files, t, p.entry, found, rfl, by decide +kernel, by decide, ?_, hexported⟩
  suffices h : .ok ⟨"/work/App.txt"⟩ = found from h ▸ hgenerated
  refine (finds_agree t {} 2031 ⟨⟨"out"⟩, none, [], .cSharp⟩ ⟨"out"⟩ files ⟨0, 0⟩ ⟨7, 0⟩ p.entry
    (by decide) rfl ?_ ?_ ?_).1 _ _ hgenerated hexported
  · intro candidate hc body place hbody
    obtain rfl : candidate = "/work/\x7b\x7bName\x7d\x7d.txt" := List.mem_singleton.mp hc
    rw [fragments_named] at hbody
    obtain ⟨rfl, rfl⟩ : body = "Name" ∧ place = ⟨0, 6⟩ := by simpa using hbody
    exact ⟨by decide, by decide, by decide⟩
  · rintro e' he' relative ⟨before, after, hrun⟩
    obtain rfl : e' = p.entry := List.mem_singleton.mp he'
    have hplain : Fragment.ofText p.entry.destination = [.literal "a.txt"] := by decide +kernel
    rw [Entry.resolveDestination, Renderer.renderAt, hplain] at hrun
    obtain rfl : relative = "a.txt" := by
      obtain ⟨found, s, hfound, hrun⟩ := Attempt.outcome_bind_eq_ok_iff.mp hrun
      cases hfound
      cases hrun
      rfl
    decide
  · rintro base hbase path ⟨candidate, hc, before, after, hrun⟩
    obtain rfl : candidate = "/work/\x7b\x7bName\x7d\x7d.txt" := List.mem_singleton.mp hc
    rw [Renderer.renderAt, fragments_named] at hrun
    have hpath : path = ⟨"/work/App.txt"⟩ := by
      obtain ⟨found, s, hfound, hrun⟩ := Attempt.outcome_bind_eq_ok_iff.mp hrun
      cases hfound
      exact congrArg Path.mk
        ((Except.ok.inj (Prod.mk.inj hrun).1).symm.trans (by decide +kernel))
    have hout : (Path.mk "out").absolute? files.workingPath = some ⟨"/work/out"⟩ := by decide +kernel
    obtain rfl := Option.some.inj (hout.symm.trans hbase)
    have hmoves : (Path.mk "/work/App.txt").moves = [.name "work", .name "App.txt"] := by
      decide +kernel
    refine ⟨by rw [hpath]; decide +kernel, fun front hfront => ?_⟩
    -- the path never goes up
    rw [hpath, hmoves] at hfront
    exact absurd (hfront.subset (List.mem_append_right front List.mem_cons_self)) (by decide)

/-- A generation finds a source for an entry of a template where an export does not. -/
def FindsAlone (files : FileSystem) (text : String) (output source : Path) : Prop :=
  ∃ t e, ((Template.parse files ⟨"/work/t.xml"⟩ text).outcome {}).1.toOption = some t ∧
    e ∈ t.projects.flatMap Project.entries ∧
    Generation.Finds t {} 2031 ⟨output, none, [], .cSharp⟩ files ⟨0, 0⟩ e (.ok source) ∧
    Package.Finds t {} 2031 ⟨output, [], .cSharp⟩ files ⟨0, 0⟩ e
      (.error (.reported ⟨.error, s!"Source file '{e.source}' not found.",
        some ⟨t.path, e.position⟩⟩))

/-- An entry that was laid out without a failure. -/
theorem laid_of_place {laid : Except Failure (PackageEntries × Option (List String)) × Expansion}
    (place : Option (List String)) (h : laid.1.toOption.map (·.2) = some place) :
    laid = (.ok ((laid.1.toOption.map (·.1)).getD [], place), laid.2) := by
  obtain ⟨result, x⟩ := laid
  cases result with
  | ok a =>
    obtain rfl := Option.some.inj h
    rfl
  | error e => cases h

/-- A variable with a role, a destination that leads out of the output, and a candidate that goes up
from a directory above the output: in each case only the generation finds the source. -/
theorem finds_differ : ∃ files : FileSystem,
    files = ⟨.directory [("work", .directory [("App.txt", .file "data".toUTF8),
      ("a.txt", .file "data".toUTF8)])], ["work"]⟩ ∧
    FindsAlone files
      ("<Template><Var name=\"Name\" semantic=\"projectName\">App</Var>" ++
        "<Project src=\"\x7b\x7bName\x7d\x7d.txt\" dst=\"a.txt\"/></Template>")
      ⟨"out"⟩ ⟨"/work/App.txt"⟩ ∧
    FindsAlone files
      ("<Template><Project src=\"a.txt\"><File src=\"a.txt\" dst=\"../b.txt\"/>" ++
        "<File src=\"b.txt\"/></Project></Template>")
      ⟨"out"⟩ ⟨"/work/b.txt"⟩ ∧
    FindsAlone files "<Template><Project src=\"new/../a.txt\" dst=\"a.txt\"/></Template>"
      ⟨"new/out"⟩ ⟨"/work/new/../a.txt"⟩ := by
  let extension : Variable :=
    ⟨"_sourceExt", some "Extension of source files.", "cs", none, .string, true⟩
  let template (store : VariableStore) (p : Project) : Template :=
    ⟨⟨"/work/t.xml"⟩, none, none, none, none, [⟨"/work"⟩], store, [p]⟩
  refine ⟨_, rfl, ?_, ?_, ?_⟩
  · let p : Project := ⟨⟨"\x7b\x7bName\x7d\x7d.txt", ["/work/\x7b\x7bName\x7d\x7d.txt"], "a.txt",
      false, ⟨1, 60⟩⟩, []⟩
    let t := template ⟨[extension, ⟨"Name", none, "App", some "projectName", .string, false⟩]⟩ p
    refine ⟨t, p.entry, by decide +kernel, by decide, ?_, ?_⟩
    · refine Generation.finds_first ⟨"/work/out"⟩ rfl (by decide +kernel) rfl ?_
      simp only [p, Entry.resolveSource, Entry.firstSource, Renderer.renderAt, fragments_named]
      decide +kernel
    · refine Package.finds_first ⟨"/work/out"⟩ p rfl (by decide +kernel) ?_
      simp only [p, Entry.resolveSource, Entry.firstSource, Renderer.renderAt, fragments_named]
      decide +kernel
  · let p : Entry := ⟨"a.txt", ["/work/a.txt"], "a.txt", false, ⟨1, 11⟩⟩
    let out : Entry := ⟨"a.txt", ["/work/a.txt"], "../b.txt", false, ⟨1, 32⟩⟩
    let e : Entry := ⟨"b.txt", ["/work/b.txt"], "b.txt", false, ⟨1, 66⟩⟩
    let t := template ⟨[extension]⟩ ⟨p, [out, e]⟩
    refine ⟨t, e, by decide +kernel, by decide, ?_, ?_⟩
    · refine ⟨_, ⟨⟨"/work/out"⟩, _, [("project", p), ("file", out)], "file",
        Prod.ext (by decide +kernel) rfl, ⟨[], rfl⟩,
        .cons (Prod.ext (by decide +kernel) rfl) (.cons (Prod.ext (by decide +kernel) rfl) .nil)⟩, ?_⟩
      decide +kernel
    · refine ⟨⟨"/work/out"⟩, ⟨p, [out, e]⟩, _, _, Prod.ext (by decide +kernel) rfl,
        .file (laid_of_place (some ["a.txt"]) (by decide +kernel))
          (show [out] ++ [e] <+: [out, e] from ⟨[], rfl⟩)
          (.cons ⟨_, laid_of_place none (by decide +kernel)⟩ .nil), ?_⟩
      decide +kernel
  · let p : Project := ⟨⟨"new/../a.txt", ["/work/new/../a.txt"], "a.txt", false, ⟨1, 11⟩⟩, []⟩
    let t := template ⟨[extension]⟩ p
    refine ⟨t, p.entry, by decide +kernel, by decide, ?_, ?_⟩
    · exact Generation.finds_first ⟨"/work/new/out"⟩ rfl (by decide +kernel) rfl
        (by decide +kernel)
    · exact Package.finds_first ⟨"/work/new/out"⟩ p rfl (by decide +kernel)
        (by decide +kernel)

end Stencil
