import Stencil.Proofs.Comparison.Flawless
import Stencil.Proofs.FileSystem.Standing
import Stencil.Proofs.Generation.Course
import Stencil.Proofs.Path.Relative

namespace Stencil

open FileSystem (Grown Wrote)

variable {fs fs' : FileSystem} {path : Path}

namespace Solution

/-- A solution at a path that its own text is read as. -/
structure Readable (path : Path) (s : Solution) : Prop where
  path_eq : s.path = path
  faithful : s.Faithful
  plain : ∀ p ∈ s.projects, p.Plain

theorem readable_of_loadOrCreate {s : Solution} {created : Bool}
    (h : loadOrCreate fs path = .ok (s, created)) : s.Readable path := by
  have hpath := path_of_loadOrCreate h
  obtain ⟨content, hparse⟩ | rfl := loadOrCreate_eq_ok h
  · exact ⟨hpath, faithful_parse hparse, plain_of_parse hparse⟩
  · exact ⟨hpath, faithful_create path, by simp [create]⟩

/-- Whether a path may be named in a solution: it has no quote and no line feed. -/
def Nameable (project : Path) : Prop := '"' ∉ project.text.toList ∧ '\n' ∉ project.text.toList

/-- The name and the way of a project have no other characters than its path. -/
theorem plain_newProject {s : Solution} {project : Path} (h : Nameable project) (language : Language)
    (workingDirectory : Path) (guid : String) :
    (newProject language (project.stem?.getD "") (s.projectPath workingDirectory project)
      guid).Plain := by
  -- both are put together from parts of the path, with slashes and points
  have hname {x : Char} (hslash : x ≠ '/') (hpoint : x ≠ '.') (hx : x ∉ project.text.toList) :
      x ∉ (project.stem?.getD "").toList := by
    intro hmem
    cases hstem : project.stem? with
    | none => simp [hstem] at hmem
    | some stem =>
      rw [hstem, Option.getD_some] at hmem
      rcases Path.mem_stem hstem hmem with h | h | h
      · exact hslash h
      · exact hpoint h
      · exact hx h
  have hway {x : Char} (hslash : x ≠ '/') (hback : x ≠ '\\') (hpoint : x ≠ '.')
      (hx : x ∉ project.text.toList) : x ∉ (s.projectPath workingDirectory project).toList := by
    intro hmem
    unfold projectPath at hmem
    rw [String.toList_map] at hmem
    obtain ⟨y, hy, hyx⟩ := List.mem_map.mp hmem
    split at hyx
    · exact hback hyx.symm
    · subst hyx
      rcases Path.mem_relativeTo hy with h | h | h
      · exact hslash h
      · exact hpoint h
      · exact hx h
  exact ⟨⟨hname (by decide) (by decide) h.1, hname (by decide) (by decide) h.2⟩,
    hway (by decide) (by decide) (by decide) h.1, hway (by decide) (by decide) (by decide) h.2⟩

theorem Readable.addProject {s grown : Solution} {workingDirectory project : Path} {guid : Guid}
    {added : Bool} (h : s.Readable path) (hproject : Nameable project)
    (hadd : s.addProject workingDirectory guid project = .ok (grown, added)) :
    grown.Readable path := by
  refine ⟨(path_of_addProject hadd).trans h.path_eq, faithful_addProject h.faithful hadd, ?_⟩
  rcases addProject_eq hadd with rfl | ⟨language, rfl⟩
  · exact h.plain
  · intro p hp
    rcases List.mem_append.mp hp with hp | hp
    · exact h.plain p hp
    · rw [List.mem_singleton.mp hp]
      exact plain_newProject hproject language workingDirectory _

/-- Loading the solution at a path and saving it again changes nothing. -/
def Rests (path : Path) (fs : FileSystem) : Prop :=
  ∃ s, loadOrCreate fs path = .ok (s, false) ∧ s.save fs = .ok () fs

/-- Whether the directory of a solution's file is there, as far as saving would make it. -/
def Housed (path : Path) (fs : FileSystem) : Prop :=
  ∀ parent ∈ path.parent?.filter (·.text ≠ ""),
    ¬ (parent.text = "" ∨ parent.parent?.isNone = true) → fs.isDirectory parent = true

theorem save_again {s : Solution} (hhoused : Housed s.path fs)
    (hwrite : FileSystem.writeText s.path s.text fs = .ok () fs) : s.save fs = .ok () fs := by
  unfold save
  cases hparent : s.path.parent?.filter (·.text ≠ "") with
  | none => exact hwrite
  | some parent =>
    have hdirectory := FileSystem.createDirectories_again (hhoused parent hparent)
    simp only [Bind.bind, EStateM.bind, hdirectory]
    exact hwrite

/-- What is saved is loaded and saved again without a change. -/
theorem Readable.save_rests {s : Solution} (h : s.Readable path) :
    Triple (fun _ => True) s.save (fun _ => Rests path) fun _ => True := by
  obtain ⟨rfl, hfaithful, hplain⟩ := h
  -- the directory of the file is there when the text is written, and stays
  have hwrite (made : FileSystem) (hmade : Housed s.path made) :
      Triple (· = made) (FileSystem.writeText s.path s.text) (fun _ => Rests s.path)
        fun _ => True := by
    refine (FileSystem.write_triple made s.path s.text.toUTF8).mono (fun _ h => h)
      (fun _ fs' hwrote => ?_) fun _ _ => trivial
    obtain ⟨place, hwrote⟩ := hwrote
    obtain ⟨hfile, hread⟩ := hwrote.readText
    have hload : load fs' s.path = .ok { s with globalSection := s.writtenGlobalSection } := by
      unfold load
      rw [hread]
      simp only [parse_text hfaithful hplain]
      rfl
    -- reading back gives the section that was written, and that is written again as it is
    refine ⟨{ s with globalSection := s.writtenGlobalSection }, ?_, ?_⟩
    · unfold loadOrCreate
      rw [if_pos hfile, hload]
      rfl
    · refine save_again (fun parent hparent hne => ?_) ?_
      · exact FileSystem.isDirectory_mono hwrote.retains (hmade parent hparent hne)
      · rw [text_writtenGlobalSection]
        exact hwrote.again
  unfold save
  split
  · next parent hparent =>
    intro fs _
    refine (((FileSystem.createDirectories_triple fs parent).mono_error fun _ _ => trivial).bind
      fun _ made hmade => ?_) fs (Grown.refl fs)
    refine hwrite made (fun other hother => ?_) made rfl
    rw [hparent] at hother
    cases hother
    exact hmade.2
  · next hparent =>
    intro fs _
    refine hwrite fs (fun other hother => ?_) fs rfl
    rw [hparent] at hother
    cases hother

end Solution

open Solution (Nameable Readable Rests)

namespace Generation

theorem registerProject_readable {project : Path} (hproject : Nameable project) (name : String)
    (s : Solution) :
    Triple (fun _ => s.Readable path) (registerProject name s project)
      (fun s' _ => s'.Readable path) fun _ => True := by
  intro run hs
  refine ((Triple.trivial (fun _ => True) Run.currentFiles).bind fun files =>
    (Triple.trivial _ Run.nextGuid).bind fun guid => ?_) run trivial
  have hreturn {α β : Type} {s' : Solution} {x : Attempt Run α} {y : Attempt Run β}
      (h : s'.Readable path) : Triple (fun _ => True) (do let _ ← x; let _ ← y; pure s')
        (fun s' _ => s'.Readable path) fun _ => True :=
    (Triple.trivial _ x).bind fun _ => (Triple.trivial _ y).bind fun _ => Triple.pure fun _ _ => h
  split
  · next grown hadd => exact hreturn (hs.addProject hproject hadd)
  · next same hadd => exact hreturn (hs.addProject hproject hadd)
  · exact (Triple.trivial _ _).bind fun _ => Triple.pure fun _ _ => hs

/-- A solution that was put together rests. -/
theorem assembleSolution_rests {projects : List Path} (h : ∀ p ∈ projects, Nameable p) :
    Triple (fun _ => True) (assembleSolution path projects) (fun _ s => Rests path s.files)
      fun _ => True := by
  -- each project that is registered leaves the solution readable, and so saving it makes it rest
  have hassemble (name : String) {solution : Solution} (hs : solution.Readable path) :
      Triple (fun _ => True) (do
        let full ← projects.foldlM (registerProject name) solution
        Run.onFiles full.save) (fun _ s => Rests path s.files) fun _ => True := by
    have hfold := Triple.foldlM (I := fun s _ => Readable path s) (E := fun _ : Run => True)
      (fun s p hp => registerProject_readable (h p hp) name s) solution
    refine (hfold.mono (fun _ _ => hs) (fun _ _ h => h) fun _ h => h).bind fun full => ?_
    intro run hfull
    have hsave := hfull.save_rests run.files trivial
    unfold Run.onFiles
    cases hrun : full.save run.files with
    | ok _ files =>
      rw [hrun] at hsave
      exact hsave
    | error fault files => trivial
  unfold assembleSolution
  refine (Triple.trivial _ _).bind fun files => ?_
  refine (Triple.ofExcept.mono_error fun _ _ => trivial).bind fun loaded => ?_
  refine Triple.of_and fun hload => ?_
  obtain ⟨solution, created⟩ := loaded
  have hreadable := Solution.readable_of_loadOrCreate hload
  simp only
  split
  · exact (Triple.trivial _ _).bind fun _ => hassemble _ hreadable
  · exact hassemble _ hreadable

/-- Where a strict run gets past its solution, the solution rests. -/
theorem trySolution_rests {projects : List Path} (h : ∀ p ∈ projects, Nameable p) :
    Triple Run.Strict (trySolution path projects) (fun _ s => Rests path s.files)
      fun _ => True := by
  have hassembled := (matched_assembleSolution Journal.spoken_onward path projects).strictly
    (assembleSolution_rests h)
  unfold trySolution
  refine Triple.mono (P := fun s => s.Strict ∧ True) ?_ (fun _ h => ⟨h, trivial⟩) (fun _ _ h => h)
    fun _ h => h
  refine Triple.strictly_caught
    ((matched_assembleSolution Journal.spoken_strict path projects).mono fun _ h => h) hassembled
    (fun _ => Triple.pure fun _ h => h.2) fun failure _ => ?_
  exact Triple.ite (fun _ _ _ => trivial) fun _ => Run.strict_say _

/-- Where a solution rests, adding no projects to it changes nothing. -/
theorem trySolution_again {s : Run} (h : Rests path s.files) :
    (trySolution path []).outcome s = (.ok (), s) := by
  obtain ⟨solution, hload, hsave⟩ := h
  have hassemble : (assembleSolution path []).outcome s = (.ok (), s) := by
    unfold assembleSolution
    refine Attempt.outcome_bind_eq_ok_iff.mpr ⟨s.files, s, rfl, ?_⟩
    refine Attempt.outcome_bind_eq_ok_iff.mpr ⟨(solution, false), s, ?_, ?_⟩
    · rw [hload]
      rfl
    · refine Attempt.outcome_bind_eq_ok_iff.mpr ⟨solution, s, rfl, ?_⟩
      rw [Run.outcome_onFiles, hsave]
  unfold trySolution
  refine Attempt.outcome_bind_eq_ok_iff.mpr ⟨.ok (), s, ?_, rfl⟩
  rw [Attempt.outcome_caught, hassemble]

end Generation

end Stencil
