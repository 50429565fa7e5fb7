import Stencil.Proofs.Solution.RoundTrip

namespace Stencil.Solution

/-- A call that adds a project file to a solution: where it is made, the identifier that the project would
get, and the file. -/
structure Addition where
  workingDirectory : Path
  guid : Guid
  project : Path
deriving DecidableEq, Repr

/-- What a call answers: whether the project was added, or why it cannot be. -/
def answer (s : Solution) (a : Addition) : Except SolutionFault Bool :=
  (s.addProject a.workingDirectory a.guid a.project).map (·.2)

/-- The solution behind a call. -/
def after (s : Solution) (a : Addition) : Solution :=
  match s.addProject a.workingDirectory a.guid a.project with
  | .ok (grown, _) => grown
  | .error _ => s

/-- The solution behind some calls. -/
def afterAll (s : Solution) (additions : List Addition) : Solution := additions.foldl after s

/-- The answers to some calls, one after the other. -/
def answers (s : Solution) : List Addition → List (Except SolutionFault Bool)
  | [] => []
  | a :: rest => s.answer a :: (s.after a).answers rest

variable {s : Solution} {a : Addition} {additions : List Addition}

/-- The path that a call looks for in the solution. -/
def wayTo (s : Solution) (a : Addition) : String := s.projectPath a.workingDirectory a.project

/-- The block that a call appends if the project is one of a language. -/
def blockFor (s : Solution) (a : Addition) (language : Language) : SolutionProject :=
  newProject language (a.project.stem?.getD "") (s.wayTo a) (a.guid.text.map Char.toUpper)

/-- The language of the project that a call is about. -/
def Addition.language? (a : Addition) : Option Language :=
  Language.ofProjectExtension? (a.project.extension?.getD "")

/-- What a call can come to. -/
inductive Answered (s : Solution) (a : Addition) : Except SolutionFault Bool → Solution → Prop
  | added (language : Language) (hlanguage : a.language? = some language)
    (hnew : s.hasProject (s.wayTo a) = false) :
    Answered s a (.ok true) { s with projects := s.projects ++ [s.blockFor a language] }
  | present (language : Language) (hlanguage : a.language? = some language)
    (hold : s.hasProject (s.wayTo a) = true) : Answered s a (.ok false) s
  | unsupported (hlanguage : a.language? = none) :
    Answered s a (.error (.unsupportedProject a.project)) s

theorem answered (s : Solution) (a : Addition) : Answered s a (s.answer a) (s.after a) := by
  unfold answer after addProject
  cases hlanguage : Language.ofProjectExtension? (a.project.extension?.getD "") with
  | none => exact .unsupported hlanguage
  | some language =>
    cases hpath : s.hasProject (s.projectPath a.workingDirectory a.project) with
    | true =>
      simp only [hpath]
      exact .present language hlanguage hpath
    | false =>
      simp only [hpath]
      exact .added language hlanguage hpath

theorem after_eq_self (h : s.answer a ≠ .ok true) : s.after a = s := by
  have hcall := answered s a
  generalize s.answer a = result, s.after a = grown at h hcall
  cases hcall with
  | added => exact absurd rfl h
  | present => rfl
  | unsupported => rfl

theorem exists_block_of_answer (h : s.answer a = .ok true) : ∃ language,
    a.language? = some language ∧ s.hasProject (s.wayTo a) = false ∧
      s.after a = { s with projects := s.projects ++ [s.blockFor a language] } := by
  have hcall := answered s a
  generalize s.answer a = result, s.after a = grown at h hcall
  cases hcall with
  | added language hlanguage hnew => exact ⟨language, hlanguage, hnew, rfl⟩
  | present => cases h
  | unsupported => cases h

theorem answer_eq_false (hlanguage : a.language?.isSome = true)
    (hold : s.hasProject (s.wayTo a) = true) : s.answer a = .ok false := by
  have hcall := answered s a
  generalize s.answer a = result, s.after a = grown at hcall
  cases hcall with
  | added language _ hnew => exact absurd hold (Bool.eq_false_iff.mp hnew)
  | present => rfl
  | unsupported hnone =>
    rw [hnone] at hlanguage
    cases hlanguage

/-- No two projects have the same path, in any case. -/
def Apart (s : Solution) : Prop :=
  s.projects.Pairwise fun p q => Text.sameWord p.path q.path = false

instance (s : Solution) : Decidable s.Apart := inferInstanceAs (Decidable (List.Pairwise _ _))

/-- Projects that are appended to a solution: blocks of two lines each. -/
structure Appended (s grown : Solution) (blocks : List SolutionProject) : Prop where
  grown : grown = { s with projects := s.projects ++ blocks }
  lines : ∀ block ∈ blocks, ∃ line, block.lines = [line, "EndProject"]

namespace Appended

variable {grown more : Solution} {blocks others : List SolutionProject}

theorem refl (s : Solution) : Appended s s [] := ⟨by rw [List.append_nil], nofun⟩

theorem trans (h : Appended s grown blocks) (h' : Appended grown more others) :
    Appended s more (blocks ++ others) := by
  obtain ⟨rfl, hlines⟩ := h
  obtain ⟨rfl, hlines'⟩ := h'
  refine ⟨by rw [List.append_assoc], fun block hblock => ?_⟩
  exact (List.mem_append.mp hblock).elim (hlines block) (hlines' block)

/-- What stands in a solution stays in it. -/
theorem hasProject (h : Appended s grown blocks) {way : String} (hs : s.hasProject way = true) :
    grown.hasProject way = true := by
  obtain ⟨rfl, -⟩ := h
  rw [Solution.hasProject, List.any_append, Bool.or_eq_true]
  exact .inl hs

end Appended

theorem appended_after (s : Solution) (a : Addition) :
    ∃ blocks, Appended s (s.after a) blocks ∧
      blocks.length = if s.answer a = .ok true then 1 else 0 := by
  by_cases h : s.answer a = .ok true
  · obtain ⟨language, -, -, hafter⟩ := exists_block_of_answer h
    refine ⟨[s.blockFor a language], ⟨hafter, fun block hblock => ?_⟩, (if_pos h).symm⟩
    rw [List.mem_singleton.mp hblock]
    exact ⟨_, rfl⟩
  · rw [after_eq_self h, if_neg h]
    exact ⟨[], .refl s, rfl⟩

theorem Apart.after (h : s.Apart) (a : Addition) : (s.after a).Apart := by
  by_cases hadded : s.answer a = .ok true
  · obtain ⟨language, -, hnew, hafter⟩ := exists_block_of_answer hadded
    rw [hafter]
    refine List.pairwise_append.mpr ⟨h, List.pairwise_singleton _ _, fun p hp q hq => ?_⟩
    -- no project had the path when it was looked for
    rw [List.mem_singleton.mp hq]
    exact Bool.eq_false_iff.mpr (List.any_eq_false.mp hnew p hp)
  · rwa [after_eq_self hadded]

theorem afterAll_append (s : Solution) (before later : List Addition) :
    s.afterAll (before ++ later) = (s.afterAll before).afterAll later := List.foldl_append

theorem Apart.afterAll (h : s.Apart) (additions : List Addition) : (s.afterAll additions).Apart := by
  induction additions generalizing s with
  | nil => exact h
  | cons a rest ih => exact ih (h.after a)

theorem appended_afterAll (s : Solution) (additions : List Addition) :
    ∃ blocks, Appended s (s.afterAll additions) blocks ∧
      blocks.length = (s.answers additions).countP (fun result => decide (result = .ok true)) := by
  induction additions generalizing s with
  | nil => exact ⟨[], .refl s, rfl⟩
  | cons a rest ih =>
    obtain ⟨blocks, hblocks, hlength⟩ := appended_after s a
    obtain ⟨others, hothers, hrest⟩ := ih (s.after a)
    refine ⟨blocks ++ others, hblocks.trans hothers, ?_⟩
    rw [List.length_append, hlength, hrest, answers, List.countP_cons, Nat.add_comm]
    simp

/-- A project that was added is found by every later call for it, whatever identifier it would get. -/
theorem answer_repeated (h : s.answer a = .ok true) (later : List Addition) (guid : Guid) :
    ((s.after a).afterAll later).answer { a with guid } = .ok false := by
  obtain ⟨language, hlanguage, -, hafter⟩ := exists_block_of_answer h
  -- later calls only append, so the block is still there when the path is looked for
  obtain ⟨blocks, happended, -⟩ := appended_afterAll (s.after a) later
  have hway : ((s.after a).afterAll later).wayTo { a with guid } = s.wayTo a := by
    rw [happended.grown, hafter]
    rfl
  have hlanguage' : ({ a with guid } : Addition).language? = some language := hlanguage
  have hpath : (s.blockFor a language).path = s.wayTo a := rfl
  refine answer_eq_false (by rw [hlanguage']; rfl) ?_
  rw [hway]
  apply happended.hasProject
  rw [hafter, hasProject, List.any_append, Bool.or_eq_true]
  right
  rw [List.any_cons, hpath, Text.sameWord, beq_self_eq_true, Bool.true_or]

/-- Lines with their breaks. -/
def ended (lines : List String) : String := String.join (lines.map (· ++ "\r\n"))

/-- The lines in front of the global section. -/
def frontLines (s : Solution) : List String :=
  ["", formatHeader ++ s.formatVersion] ++ s.header ++
    (s.minimumVersion.toList.map fun version => s!"{minimumVersionKey} = {version}") ++
    s.projects.flatMap (·.lines)

theorem text_eq (s : Solution) : s.text = ended s.frontLines ++ ended s.writtenGlobalSection := by
  have hlines : s.textLines = s.frontLines ++ s.writtenGlobalSection := rfl
  rw [text, hlines, List.map_append, String.join_append]
  rfl

/-- The lines of blocks that are appended go directly before the global section. -/
theorem Appended.text {grown : Solution} {blocks : List SolutionProject}
    (h : Appended s grown blocks) : grown.text =
      ended s.frontLines ++ ended (blocks.flatMap (·.lines)) ++ ended s.writtenGlobalSection := by
  obtain ⟨rfl, -⟩ := h
  have hfront : frontLines { s with projects := s.projects ++ blocks } =
      s.frontLines ++ blocks.flatMap (·.lines) := by
    simp only [frontLines, List.flatMap_append, List.append_assoc]
  rw [text_eq, hfront, ended, ended, ended, ended, List.map_append, String.join_append]
  rfl

/-- What calls do to a solution, whatever they are about. -/
structure Growth (s : Solution) (additions : List Addition) : Prop where
  apart : (s.afterAll additions).Apart
  /-- The projects of before stand unchanged in front of a block of two lines for each call that added
  one, and the text grows by these lines alone, before the global section. -/
  appended : ∃ blocks, Appended s (s.afterAll additions) blocks ∧
    blocks.length = (s.answers additions).countP (fun result => decide (result = .ok true)) ∧
    s.text = ended s.frontLines ++ ended s.writtenGlobalSection ∧
    (s.afterAll additions).text =
      ended s.frontLines ++ ended (blocks.flatMap (·.lines)) ++ ended s.writtenGlobalSection
  idle : ∀ before a later, additions = before ++ a :: later →
    (s.afterAll before).answer a ≠ .ok true → s.afterAll (before ++ [a]) = s.afterAll before
  repeated : ∀ before a later, additions = before ++ a :: later →
    (s.afterAll before).answer a = .ok true →
      ∀ guid, (s.afterAll additions).answer { a with guid } = .ok false

theorem growth (h : s.Apart) (additions : List Addition) : Growth s additions := by
  refine ⟨h.afterAll additions, ?_, fun before a later _ hidle => ?_, ?_⟩
  · obtain ⟨blocks, happended, hlength⟩ := appended_afterAll s additions
    exact ⟨blocks, happended, hlength, text_eq s, happended.text⟩
  · rw [afterAll_append]
    exact after_eq_self hidle
  · rintro before a later rfl hadded guid
    rw [afterAll_append]
    exact answer_repeated hadded later guid

end Stencil.Solution
