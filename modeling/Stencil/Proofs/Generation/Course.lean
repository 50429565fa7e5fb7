import Stencil.Proofs.Generation.Turn
import Stencil.Proofs.Solution.RoundTrip

namespace Stencil

open FileSystem (Grown Retains Wrote Passes)

variable {fs : FileSystem} {written : List WrittenFile} {path : Path}

namespace Solution

theorem path_of_parse {content : String} {s : Solution} (h : parse path content = .ok s) :
    s.path = path := by
  obtain ⟨r, version, -, -, rfl⟩ := exists_reading_of_parse h
  rfl

/-- A solution that is saved comes from a file that was read, or from nothing. -/
theorem loadOrCreate_eq_ok {s : Solution} {created : Bool}
    (h : loadOrCreate fs path = .ok (s, created)) :
    (∃ content, parse path content = .ok s) ∨ s = create path := by
  unfold loadOrCreate at h
  split at h
  · unfold load at h
    split at h
    · cases h
    · next content _ =>
      cases hparse : parse path content with
      | error fault =>
        rw [hparse] at h
        cases h
      | ok parsed =>
        rw [hparse] at h
        cases h
        exact Or.inl ⟨content, hparse⟩
  · cases h
    exact Or.inr rfl

theorem path_of_loadOrCreate {s : Solution} {created : Bool}
    (h : loadOrCreate fs path = .ok (s, created)) : s.path = path := by
  obtain ⟨content, hparse⟩ | rfl := loadOrCreate_eq_ok h
  · exact path_of_parse hparse
  · rfl

theorem path_of_addProject {s grown : Solution} {workingDirectory project : Path} {guid : Guid}
    {added : Bool} (h : s.addProject workingDirectory guid project = .ok (grown, added)) :
    grown.path = s.path := by
  rcases addProject_eq h with rfl | ⟨language, rfl⟩ <;> rfl

/-- Directories are made, and then the file of a solution may be written. -/
def Settles (path : Path) (fs fs' : FileSystem) : Prop :=
  ∃ made, Grown fs made ∧ (fs' = made ∨ ∃ place content, Wrote made path place content fs')

theorem Settles.refl (path : Path) (fs : FileSystem) : Settles path fs fs :=
  ⟨fs, Grown.refl fs, Or.inl rfl⟩

theorem Settles.retains {fs' : FileSystem} (h : Settles path fs fs') : Retains fs fs' := by
  obtain ⟨made, hgrown, rfl | ⟨place, content, hwrote⟩⟩ := h
  · exact hgrown.retains
  · exact hgrown.retains.trans hwrote.retains

/-- As `Settles`, where what is written is a solution. -/
def Saves (path : Path) (fs fs' : FileSystem) : Prop :=
  ∃ made, Grown fs made ∧ (fs' = made ∨
    ∃ (s : Solution) (place : List String), s.path = path ∧ Wrote made path place s.text.toUTF8 fs')

theorem Saves.settles {fs' : FileSystem} (h : Saves path fs fs') : Settles path fs fs' := by
  obtain ⟨made, hgrown, hmade | ⟨s, place, -, hwrote⟩⟩ := h
  · exact ⟨made, hgrown, Or.inl hmade⟩
  · exact ⟨made, hgrown, Or.inr ⟨place, _, hwrote⟩⟩

/-- Saving a solution makes directories, and may write its text. -/
theorem save_saves (s : Solution) :
    Triple (Grown fs) s.save (fun _ fs' => Saves s.path fs fs') (Saves s.path fs) := by
  have hgrown {fs' : FileSystem} (h : Grown fs fs') : Saves s.path fs fs' :=
    ⟨fs', h, Or.inl rfl⟩
  have hwrite : Triple (Grown fs) (FileSystem.writeText s.path s.text)
      (fun _ fs' => Saves s.path fs fs') (Saves s.path fs) := by
    intro made hmade
    refine ((FileSystem.write_triple made s.path _).mono (fun _ h => h) (fun _ fs' h => ?_)
      fun fs' h => ?_) made rfl
    · obtain ⟨place, hwrote⟩ := h
      exact ⟨made, hmade, Or.inr ⟨s, place, rfl, hwrote⟩⟩
    · exact hgrown (h ▸ hmade)
  unfold save
  split
  · next parent _ =>
    refine ((FileSystem.createDirectories_triple fs parent).mono (fun _ h => h) (fun _ _ h => h.1)
      fun _ h => hgrown h).bind fun _ => hwrite
  · exact hwrite

/-- Saving a solution writes no file but its own. -/
theorem save_triple (s : Solution) :
    Triple (Grown fs) s.save (fun _ fs' => Settles s.path fs fs') (Settles s.path fs) :=
  s.save_saves.mono (fun _ h => h) (fun _ _ h => h.settles) fun _ h => h.settles

end Solution

namespace Generation

theorem registerProject_triple (name : String) (s : Solution) (project : Path) :
    Triple (fun st => (st.files = fs ∧ st.written = written) ∧ s.path = path)
      (registerProject name s project)
      (fun s' st => (st.files = fs ∧ st.written = written) ∧ s'.path = path)
      (fun st => st.files = fs ∧ st.written = written) := by
  refine Triple.of_and fun hpath => ?_
  have hquiet {α : Type} {x : Attempt Run α} (hx : Quiet x) :=
    hx.triple (P := fun files w => files = fs ∧ w = written)
  have hreturn (s' : Solution) (hs : s'.path = s.path) :
      Triple (fun st => st.files = fs ∧ st.written = written) (pure s' : Attempt Run Solution)
        (fun s' st => (st.files = fs ∧ st.written = written) ∧ s'.path = path)
        (fun st => st.files = fs ∧ st.written = written) :=
    Triple.pure fun _ h => ⟨h, hs.trans hpath⟩
  unfold registerProject
  refine (hquiet Quiet.currentFiles).bind fun files => ?_
  refine (hquiet Quiet.nextGuid).bind fun guid => ?_
  split
  · next grown hadd =>
    refine (hquiet Quiet.drawGuid).bind fun _ => ?_
    refine (hquiet (Quiet.say _ _)).bind fun _ => ?_
    exact hreturn grown (Solution.path_of_addProject hadd)
  · next same hadd =>
    refine (hquiet (Quiet.detail _)).bind fun _ => ?_
    refine (hquiet (Quiet.say _ _)).bind fun _ => ?_
    exact hreturn same (Solution.path_of_addProject hadd)
  · refine (hquiet (Quiet.say _ _)).bind fun _ => ?_
    exact hreturn s rfl

section

variable {Q : FileSystem → Prop}
  (hsave : ∀ full : Solution, full.path = path → Triple (· = fs) full.save (fun _ => Q) Q)
  (hstill : Q fs)
include hsave hstill

/-- Before a solution is saved, nothing happens to the files. -/
theorem assembleSolution_triple (projects : List Path) :
    Triple (fun s => s.files = fs ∧ s.written = written) (assembleSolution path projects)
      (fun _ s => Q s.files ∧ s.written = written) (fun s => Q s.files ∧ s.written = written) := by
  have hquiet {α : Type} {x : Attempt Run α} (hx : Quiet x) :=
    hx.triple (P := fun files w => files = fs ∧ w = written)
  -- as long as the files are those of the start, a failure has changed nothing
  have hfail {α : Type} {P : Run → Prop} {x : Attempt Run α} {R : α → Run → Prop}
      (h : Triple P x R fun s => s.files = fs ∧ s.written = written) :
      Triple P x R fun s => Q s.files ∧ s.written = written :=
    h.mono_error fun s h => ⟨h.1.symm ▸ hstill, h.2⟩
  have hassemble (name : String) (solution : Solution) (hpath : solution.path = path) :
      Triple (fun s => s.files = fs ∧ s.written = written)
        (do
          let full ← projects.foldlM (registerProject name) solution
          Run.onFiles full.save)
        (fun _ s => Q s.files ∧ s.written = written)
        (fun s => Q s.files ∧ s.written = written) := by
    refine ((hfail (Triple.foldlM (fun s p _ => registerProject_triple name s p) solution)).mono
      (fun _ h => ⟨h, hpath⟩) (fun _ _ h => h) fun _ h => h).bind fun full => ?_
    exact Triple.of_and fun hfull => Run.onFiles_triple (hsave full hfull) written
  unfold assembleSolution
  refine (hfail (hquiet Quiet.currentFiles)).bind fun files => ?_
  refine (hfail Triple.ofExcept).bind fun loaded => ?_
  refine Triple.of_and fun hload => ?_
  obtain ⟨solution, created⟩ := loaded
  have hpath := Solution.path_of_loadOrCreate hload
  simp only
  split
  · exact (hfail (hquiet (Quiet.say _ _))).bind fun _ => hassemble _ solution hpath
  · exact hassemble _ solution hpath

/-- Adding projects to a solution does no more to the files than saving it. -/
theorem trySolution_triple (projects : List Path) :
    Triple (fun s => s.files = fs ∧ s.written = written) (trySolution path projects)
      (fun _ s => Q s.files ∧ s.written = written) (fun s => Q s.files ∧ s.written = written) := by
  have hquiet {α : Type} {x : Attempt Run α} (hx : Quiet x) :=
    hx.triple (P := fun files w => Q files ∧ w = written)
  unfold trySolution
  refine (assembleSolution_triple hsave hstill projects).caught.bind fun result => ?_
  split
  · exact hquiet (Quiet.pure _)
  · refine Triple.ite (fun _ => hquiet (Quiet.throw _)) fun _ => ?_
    exact hquiet (Quiet.say _ _)

end

/-- How a run ends, whatever its result: before its first turn, after some turns, or with the
solution at work. -/
inductive Course (q : GenerationRequest) (files : FileSystem) :
    FileSystem × List WrittenFile → Prop
  | idle {fs : FileSystem} (h : Grown files fs) : Course q files (fs, [])
  | turned {base : Path} {fs : FileSystem} {last : FileSystem × List WrittenFile}
    (hbase : q.destination.absolute? files.workingPath = some base) (hgrown : Grown files fs)
    (hpasses : Passes fs [] base.moves)
    (hturns : Relation.ReflTransGen (Turn base) (fs, []) last) : Course q files last
  | settled {base path : Path} {fs fs₁ fs₂ : FileSystem} {written : List WrittenFile}
    (hbase : q.destination.absolute? files.workingPath = some base) (hgrown : Grown files fs)
    (hpasses : Passes fs [] base.moves)
    (hturns : Relation.ReflTransGen (Turn base) (fs, []) (fs₁, written))
    (hsolution : q.solution = some path) (hsettles : Solution.Settles path fs₁ fs₂) :
    Course q files (fs₂, written)

theorem isRooted_workingPath (fs : FileSystem) : fs.workingPath.isRooted = true :=
  Path.isRooted_append (by decide)

theorem isRooted_absolute {p base : Path} (h : p.absolute? fs.workingPath = some base) :
    base.isRooted = true := by
  have hp : p.text ≠ "" := by
    intro ht
    simp [Path.absolute?, ht] at h
  obtain ⟨whole, hwhole, hrooted, -⟩ := Path.absolute?_eq_some hp (isRooted_workingPath fs)
  rw [hwhole] at h
  cases h
  exact hrooted

/-- All on the way to a directory exists once the directory was made. -/
theorem passes_of_made {base : Path} (hb : base.isRooted = true)
    (h : ¬ (base.text = "" ∨ base.parent?.isNone = true) → fs.isDirectory base = true) :
    Passes fs [] base.moves := by
  by_cases hstop : base.text = "" ∨ base.parent?.isNone = true
  · have hmoves : base.moves = [] := by
      rcases hstop with ht | hparent
      · rw [show base = ⟨""⟩ from congrArg Path.mk ht]
        rfl
      · exact Path.moves_eq_nil_of_parent (Option.isNone_iff_eq_none.mp hparent)
    rw [hmoves]
    intro front hf
    rw [List.prefix_nil.mp hf]
    rfl
  · obtain ⟨place, hdenotes, -⟩ := FileSystem.isDirectory_iff.mp (h hstop)
    have hpasses := hdenotes.passes
    rwa [FileSystem.startOf, if_pos hb] at hpasses

theorem destination_triple (files : FileSystem) (written : List WrittenFile) (settings : Settings)
    (destination : Path) :
    Triple (fun s => s.files = files ∧ s.written = written) (Run.destination settings destination)
      (fun base s => (s.files = files ∧ s.written = written) ∧
        destination.absolute? files.workingPath = some base)
      (fun s => s.files = files ∧ s.written = written) := by
  rintro s ⟨rfl, hs⟩
  unfold Run.destination
  cases Run.checkDestination s.files destination settings.overwrite with
  | error failure => exact ⟨rfl, hs⟩
  | ok _ =>
    simp only
    cases habsolute : destination.absolute? s.files.workingPath with
    | none => exact ⟨rfl, hs⟩
    | some base => exact ⟨⟨rfl, hs⟩, rfl⟩

theorem steps_triple (t : Template) (settings : Settings) (year : Nat) (q : GenerationRequest)
    (files : FileSystem) :
    Triple (fun s => s.files = files ∧ s.written = []) (steps t settings year q)
      (fun _ s => Course q files s.traces) (fun s => Course q files s.traces) := by
  have hidle {s : Run} (h : Grown files s.files ∧ s.written = []) : Course q files s.traces := by
    rw [Run.traces, h.2]
    exact .idle h.1
  have hstill {s : Run} (h : s.files = files ∧ s.written = []) : Course q files s.traces :=
    hidle ⟨h.1 ▸ Grown.refl _, h.2⟩
  unfold steps
  refine ((destination_triple files [] settings q.destination).mono_error
    fun _ h => hstill h).bind fun base => ?_
  refine Triple.of_and fun hbase => ?_
  refine (((Quiet.expanding _).triple (P := fun fs w => fs = files ∧ w = [])).mono_error
    fun _ h => hstill h).bind fun _ => ?_
  refine ((Run.onFiles_triple (FileSystem.createDirectories_triple files base) []).mono
    (fun s (h : s.files = files ∧ s.written = []) => ⟨h.1 ▸ Grown.refl _, h.2⟩) (fun _ _ h => h)
    fun _ h => hidle h).bind fun _ => ?_
  -- the destination is there from here on, and this state is where the turns start
  rintro s ⟨⟨hgrown, hmade⟩, hwritten⟩
  have hpasses := passes_of_made (isRooted_absolute hbase) hmade
  have hturned {s' : Run} (h : Run.Follows base (s.files, []) s') : Course q files s'.traces :=
    .turned hbase hgrown hpasses h
  refine ((((addProjects_follows t.projects).mono_error fun _ h => hturned h).bind fun _ => ?_) :
      Triple (Run.Follows base (s.files, [])) _ _ _) s ?_
  · cases hsolution : q.solution with
    | none => exact Triple.pure fun _ h => hturned h
    | some path =>
      intro s₁ hs₁
      have hsave (full : Solution) (hfull : full.path = path) : Triple (· = s₁.files) full.save
          (fun _ => Solution.Settles path s₁.files) (Solution.Settles path s₁.files) :=
        hfull ▸ full.save_triple.mono (fun _ h => h ▸ Grown.refl _) (fun _ _ h => h) fun _ h => h
      refine ((trySolution_triple hsave (.refl path s₁.files) s₁.projects).mono (fun _ h => h)
        (fun _ s₂ h => ?_) fun s₂ h => ?_) s₁ ⟨rfl, rfl⟩
      · obtain ⟨hsettles, hsame⟩ := h
        rw [Run.traces, hsame]
        exact .settled hbase hgrown hpasses hs₁ hsolution hsettles
      · obtain ⟨hsettles, hsame⟩ := h
        rw [Run.traces, hsame]
        exact .settled hbase hgrown hpasses hs₁ hsolution hsettles
  · rw [Run.Follows, Run.traces, hwritten]

end Generation

/-- Every generation takes one of these courses, and reports what it noted on the way. -/
theorem course_generate (t : Template) (settings : Settings) (year : Nat) (q : GenerationRequest)
    (files : FileSystem) (guids : GuidSource) :
    Generation.Course q files ((generate t settings year q files guids).2.files,
      (generate t settings year q files guids).1.written) :=
  (Generation.steps_triple t settings year q files).after (s := Run.start files guids settings)
    ⟨rfl, rfl⟩

end Stencil
