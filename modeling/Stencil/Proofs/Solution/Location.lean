import Stencil.Proofs.Path.Relative
import Stencil.Solution

namespace Stencil

/-- The path of a project as whoever opens the solution reads it. -/
def SolutionProject.location (p : SolutionProject) : Path :=
  ⟨p.path.map fun c => if c = '\\' then '/' else c⟩

namespace Solution

open Stencil.Path (Retraces)

variable {s : Solution} {workingDirectory project : Path}

/-- The directory of a solution is rooted, or empty if the solution's path has no parent. -/
theorem directory_cases (hw : workingDirectory.isRooted = true) :
    s.directory workingDirectory = ⟨""⟩ ∨ (s.directory workingDirectory).isRooted = true := by
  by_cases ht : s.path.text = ""
  · have hpath : s.path = ⟨""⟩ := by
      cases hs : s.path
      simp_all
    left
    rw [directory, hpath]
    rfl
  · obtain ⟨whole, hwhole, hrooted, -⟩ := Path.absolute?_eq_some ht hw
    rw [directory, hwhole, Option.getD_some]
    cases hparent : whole.parent? with
    | none => exact Or.inl rfl
    | some parent => exact Or.inr ((Path.isRooted_parent hparent).trans hrooted)

/-- A solution whose path ends in a name is an entry of its directory. -/
theorem placeFrom_directory (hw : workingDirectory.isRooted = true) {name : String}
    (hn : s.path.fileName? = some name) :
    s.path.placeFrom (workingDirectory.placeFrom []) =
      (s.directory workingDirectory).placeFrom [] ++ [name] := by
  have hlast := Path.fileName?_eq_some_iff.mp hn
  have ht : s.path.text ≠ "" := by
    intro ht
    simp [Path.moves, Path.segments, Text.split, Text.splitChars, Path.step?, ht] at hlast
  obtain ⟨whole, hwhole, -, hmoves⟩ := Path.absolute?_eq_some ht hw
  have hwlast : whole.moves.getLast? = some (.name name) := by
    rw [hmoves, List.getLast?_append, hlast]
    rfl
  rw [directory, hwhole, Option.getD_some, ← Path.placeFrom_absolute hw hwhole []]
  cases hparent : whole.parent? with
  | none => simp [Path.moves_eq_nil_of_parent hparent] at hwlast
  | some parent =>
    exact Path.placeFrom_parent hparent (Path.fileName?_eq_some_iff.mpr hwlast) []

theorem relativeTo_empty (target : Path) : (Path.mk "").relativeTo target = target := rfl

theorem join_empty (p : Path) : (Path.mk "").join p = p := by
  simp [Path.join]

theorem retraces_empty (target : Path) : Retraces ⟨""⟩ target := by
  left
  rw [show (Path.mk "").components = [] from rfl, List.drop_nil]
  exact List.not_mem_nil

/-- Whatever the solution's path, the way from its directory leads to a rooted project exactly if it
retraces the directory. -/
theorem placeFrom_relativeTo_directory_iff (hw : workingDirectory.isRooted = true)
    (hp : project.isRooted = true) :
    ((s.directory workingDirectory).relativeTo project).placeFrom
        ((s.directory workingDirectory).placeFrom []) = project.placeFrom [] ↔
      Retraces (s.directory workingDirectory) project := by
  rcases directory_cases hw with hbase | hbase
  · rw [hbase, relativeTo_empty, Path.placeFrom_eq project, Path.placeFrom_eq project, hp]
    simp only [if_true, retraces_empty]
  · exact Path.placeFrom_relativeTo_iff hbase hp

/-- Writing slashes as backslashes and reading them back changes nothing where no backslash is. -/
theorem map_backslash {text : String} (h : '\\' ∉ text.toList) :
    ((text.map fun c => if c = '/' then '\\' else c).map fun c => if c = '\\' then '/' else c) =
      text := by
  apply String.toList_injective
  rw [String.toList_map, String.toList_map, List.map_map]
  refine (List.map_congr_left fun c hc => ?_).trans (List.map_id _)
  by_cases hslash : c = '/'
  · simp [hslash]
  · have hback : c ≠ '\\' := fun he => h (he ▸ hc)
    simp [hslash, hback]

theorem backslash_notMem_relativeTo (hw : workingDirectory.isRooted = true)
    (hp : project.isRooted = true) (hb : ∀ c ∈ project.components, '\\' ∉ c.text.toList) :
    '\\' ∉ ((s.directory workingDirectory).relativeTo project).text.toList := by
  have hmoves : ∀ c ∈ project.moves, '\\' ∉ c.text.toList := by
    intro c hc
    exact hb c (Path.components_of_isRooted hp ▸ List.mem_cons_of_mem _ hc)
  have hfree (p : Path) (h : ∀ c ∈ p.moves, '\\' ∉ c.text.toList) : '\\' ∉ p.text.toList := by
    intro hx
    rcases Path.mem_text hx with hx | hx | ⟨c, hc, hx⟩
    · exact absurd hx (by decide)
    · exact absurd hx (by decide)
    · exact h c hc hx
  rcases directory_cases hw with hbase | hbase
  · rw [hbase, relativeTo_empty]
    exact hfree project hmoves
  · obtain ⟨back, way, hrel, -, -, -, hway⟩ := Path.relativeTo_of_isRooted hbase hp
    apply hfree
    intro c hc
    rw [hrel, Path.moves_ofComponents (Path.written_back _ hway)] at hc
    rcases List.mem_append.mp hc with hc | hc
    · rw [List.eq_of_mem_replicate hc]
      decide
    · exact hmoves c (hway hc)

/-- The project that adding a file appends. -/
theorem addProject_eq_added {guid : Guid} {grown : Solution}
    (h : s.addProject workingDirectory guid project = .ok (grown, true)) :
    ∃ language : Language, grown =
      { s with projects := s.projects ++ [newProject language (project.stem?.getD "")
        (s.projectPath workingDirectory project) (guid.text.map Char.toUpper)] } := by
  unfold addProject at h
  split at h
  · simp at h
  · next language _ =>
    simp only at h
    split at h
    · simp at h
    · simp only [Except.ok.injEq, Prod.mk.injEq, and_true] at h
      exact ⟨language, h.symm⟩

/-- A project is found from the directory of its solution exactly if the way to it retraces that
directory. -/
theorem project_found_iff (hw : workingDirectory.isRooted = true) (hp : project.isRooted = true) :
    (∀ name, s.path.fileName? = some name →
      s.path.placeFrom (workingDirectory.placeFrom []) =
        (s.directory workingDirectory).placeFrom [] ++ [name]) ∧
    (((s.directory workingDirectory).join
        ((s.directory workingDirectory).relativeTo project)).placeFrom [] = project.placeFrom [] ↔
      Retraces (s.directory workingDirectory) project) ∧
    ∀ guid grown, s.addProject workingDirectory guid project = .ok (grown, true) →
      (∀ c ∈ project.components, '\\' ∉ c.text.toList) →
      ∃ added, grown.projects = s.projects ++ [added] ∧
        (added.location.placeFrom ((s.directory workingDirectory).placeFrom []) =
            project.placeFrom [] ↔
          Retraces (s.directory workingDirectory) project) := by
  refine ⟨fun name hn => placeFrom_directory hw hn, ?_, ?_⟩
  · rw [← placeFrom_relativeTo_directory_iff hw hp]
    rcases directory_cases hw with hbase | hbase
    · rw [hbase, relativeTo_empty, join_empty]
      rfl
    · rw [Path.placeFrom_join hbase]
  · intro guid grown hadd hb
    obtain ⟨language, rfl⟩ := addProject_eq_added hadd
    refine ⟨_, rfl, ?_⟩
    rw [← placeFrom_relativeTo_directory_iff hw hp]
    simp only [SolutionProject.location, newProject, projectPath,
      map_backslash (backslash_notMem_relativeTo hw hp hb)]

/-- From a directory beside the project the way back is found, also where the project's path has
upward steps. -/
theorem project_found_beside :
    (Path.mk "/work/projects").isRooted = true ∧
      (Path.mk "/work/projects/Lib/../App/App.csproj").isRooted = true ∧
      ∃ grown, (create ⟨"Sln/Game.sln"⟩).addProject ⟨"/work/projects"⟩ ⟨0⟩
          ⟨"/work/projects/Lib/../App/App.csproj"⟩ = .ok (grown, true) ∧
        ∃ added, grown.projects = [added] ∧
          added.location.placeFrom
              (((create ⟨"Sln/Game.sln"⟩).directory ⟨"/work/projects"⟩).placeFrom []) =
            ["work", "projects", "App", "App.csproj"] := by
  refine ⟨by decide, by decide, _, rfl, ?_⟩
  obtain ⟨added, hgrown, hfound⟩ := (project_found_iff (s := create ⟨"Sln/Game.sln"⟩)
    (by decide : (Path.mk "/work/projects").isRooted = true)
    (by decide : (Path.mk "/work/projects/Lib/../App/App.csproj").isRooted = true)).2.2
    ⟨0⟩ _ rfl (by decide +kernel)
  refine ⟨added, hgrown, (hfound.mpr (Or.inl ?_)).trans ?_⟩
  · decide +kernel
  · decide +kernel

/-- From a directory that is reached by an upward step the way is not found: the step is undone by
another one, which leads further up. -/
theorem project_lost_behind_up :
    ∃ grown added, (create ⟨"../Game.sln"⟩).addProject ⟨"/work/projects"⟩ ⟨0⟩
        ⟨"/work/projects/App/App.csproj"⟩ = .ok (grown, true) ∧
      grown.projects = [added] ∧
      (∀ c ∈ (Path.mk "/work/projects/App/App.csproj").components, '\\' ∉ c.text.toList) ∧
      added.path = "..\\App\\App.csproj" ∧
      added.location.placeFrom
          (((create ⟨"../Game.sln"⟩).directory ⟨"/work/projects"⟩).placeFrom []) =
        ["App", "App.csproj"] ∧
      (Path.mk "/work/projects/App/App.csproj").placeFrom [] =
        ["work", "projects", "App", "App.csproj"] := by
  refine ⟨_, _, rfl, rfl, ?_, ?_, ?_, ?_⟩ <;> decide +kernel

end Solution

end Stencil
