import Stencil.Proofs.Text.Parts
import Stencil.Proofs.Text.Trimmed
import Stencil.Solution

namespace Stencil

/-- Neither the name nor the path of the project has a quote or a line feed. -/
def SolutionProject.Plain (p : SolutionProject) : Prop :=
  ('"' ∉ p.name.toList ∧ '\n' ∉ p.name.toList) ∧ '"' ∉ p.path.toList ∧ '\n' ∉ p.path.toList

instance (p : SolutionProject) : Decidable p.Plain := inferInstanceAs (Decidable (_ ∧ _))

theorem exists_of_mem_hexDigits {c : Char} {digits n : Nat} (h : c ∈ hexDigits digits n) :
    ∃ k < 16, c = Nat.digitChar k := by
  induction digits generalizing n with
  | zero => cases h
  | succ digits ih =>
    rcases List.mem_append.mp h with h | h
    · exact ih h
    · exact ⟨n % 16, Nat.mod_lt _ (by decide), List.mem_singleton.mp h⟩

/-- An identifier in upper case is on one line and has no brace. -/
theorem plain_of_mem_guid (guid : Guid) :
    ∀ c ∈ (guid.text.map Char.toUpper).toList, c ≠ '}' ∧ c ≠ '\n' := by
  intro c hc
  have hdigit : ∀ k < 16, (Nat.digitChar k).toUpper ≠ '}' ∧ (Nat.digitChar k).toUpper ≠ '\n' := by
    decide
  obtain ⟨d, hd, rfl⟩ : ∃ d ∈ guid.text.toList, d.toUpper = c := by
    simpa [String.toList_map] using hc
  simp only [Guid.text, String.toList_ofList, List.mem_append, List.mem_cons, List.not_mem_nil,
    or_false] at hd
  have hhex (digits n : Nat) (h : d ∈ hexDigits digits n) : d.toUpper ≠ '}' ∧ d.toUpper ≠ '\n' := by
    obtain ⟨k, hk, rfl⟩ := exists_of_mem_hexDigits h
    exact hdigit k hk
  rcases hd with (((((((((h | rfl) | h) | (rfl | rfl)) | h) | rfl) | h) | h) | rfl) | h)
  · exact hhex _ _ h
  · decide
  · exact hhex _ _ h
  · decide
  · decide
  · exact hhex _ _ h
  · decide
  · exact hhex _ _ h
  · exact hhex _ _ h
  · decide
  · exact hhex _ _ h

theorem guid_ne_nil (guid : Guid) : (guid.text.map Char.toUpper).toList ≠ [] := by
  rw [String.toList_map, Guid.text, String.toList_ofList]
  simp

theorem plain_of_mem_projectType (language : Language) :
    ∀ c ∈ language.projectType.toList, c ≠ '}' ∧ c ≠ '\n' := by
  have hall : language.projectType.toList.all (fun c => c != '}' && c != '\n') = true := by
    cases language <;> decide
  simpa using hall

theorem projectType_ne_nil (language : Language) : language.projectType.toList ≠ [] := by
  cases language <;> decide

namespace Solution

theorem quoted?_append {name : List Char} (h : '"' ∉ name) (rest : List Char) :
    quoted? ('"' :: (name ++ '"' :: rest)) = some (name, rest) :=
  Text.splitAtFirst_append h rest

theorem braced?_append {body : List Char} (hfree : '}' ∉ body) (hne : body ≠ []) (rest : List Char) :
    braced? (body ++ '}' :: rest) = some (String.ofList body, rest) := by
  rw [braced?, Text.splitAtFirst_append hfree]
  cases body with
  | nil => exact absurd rfl hne
  | cons c body => rfl

/-- What stands before the first field of a project's declaration. -/
def opening : List Char := ['P', 'r', 'o', 'j', 'e', 'c', 't', '(', '"', '{']

/-- The declaration of a project with given fields. -/
def projectLine (typeGuid name path guid : List Char) : List Char :=
  opening ++ (typeGuid ++ '}' :: (['"', ')'] ++ ([' ', '=', ' '] ++
    '"' :: (name ++ '"' :: ([',', ' '] ++ '"' :: (path ++ '"' :: ([',', ' '] ++
      (['"', '{'] ++ (guid ++ '}' :: ['"'])))))))))

theorem lines_newProject (language : Language) (name path guid : String) :
    (newProject language name path guid).lines =
      [String.ofList (projectLine language.projectType.toList name.toList path.toList guid.toList),
        "EndProject"] := by
  simp only [newProject, List.cons.injEq, and_true]
  apply String.toList_injective
  have hopening : "Project(\"\x7b".toList = opening := by decide
  have htype : "\x7d\") = \"".toList = ['}', '"', ')', ' ', '=', ' ', '"'] := by decide
  have hname : "\", \"".toList = ['"', ',', ' ', '"'] := by decide
  have hpath : "\", ".toList = ['"', ',', ' '] := by decide
  have hguid : "\"\x7b".toList = ['"', '{'] := by decide
  have hend : "\x7d\"".toList = ['}', '"'] := by decide
  simp only [toString, String.toList_append, String.toList_ofList, projectLine, hopening, htype,
    hname, hpath, hguid, hend, List.append_assoc, List.cons_append, List.nil_append]

theorem getLast?_projectLine (typeGuid name path guid : List Char) :
    (projectLine typeGuid name path guid).getLast? = some '"' := by
  simp [projectLine, List.getLast?_cons]

theorem trimChars_projectLine (typeGuid name path guid : List Char) :
    Text.trimChars (projectLine typeGuid name path guid) = projectLine typeGuid name path guid := by
  apply Text.trimChars_eq_self
  · intro c hc
    cases hc
    decide
  · intro c hc
    rw [getLast?_projectLine] at hc
    cases hc
    decide

/-- The line of a project without quotes in its name and path declares this project. -/
theorem projectOfLine?_projectLine {typeGuid name path guid : List Char}
    (ht : '}' ∉ typeGuid) (ht' : typeGuid ≠ []) (hn : '"' ∉ name) (hp : '"' ∉ path)
    (hg : '}' ∉ guid) (hg' : guid ≠ []) :
    projectOfLine? (String.ofList (projectLine typeGuid name path guid)) =
      some ⟨String.ofList typeGuid, String.ofList name, String.ofList path, String.ofList guid,
        [String.ofList (projectLine typeGuid name path guid)]⟩ := by
  have hline : (String.ofList (projectLine typeGuid name path guid)).toList =
      projectLine typeGuid name path guid := String.toList_ofList
  have hopening : "Project(\"\x7b".toList = opening := by decide
  have hclose : "\")".toList = ['"', ')'] := by decide
  have hopen : "\"\x7b".toList = ['"', '{'] := by decide
  have hequals (rest : List Char) :
      afterMark? '=' ([' ', '=', ' '] ++ '"' :: rest) = some ('"' :: rest) := rfl
  have hcomma (rest : List Char) :
      afterMark? ',' ([',', ' '] ++ '"' :: rest) = some ('"' :: rest) := rfl
  -- each reader takes up what was written for it and leaves the rest to the next one
  rw [projectOfLine?, hline, trimChars_projectLine]
  simp only [hopening, hclose, hopen, projectLine]
  rw [Text.afterStart_append]
  simp only [Option.bind_eq_bind, Option.bind_some, braced?_append ht ht', Text.afterStart_append,
    hequals, quoted?_append hn, hcomma, quoted?_append hp]
  have hguid : afterMark? ',' ([',', ' '] ++ (['"', '{'] ++ (guid ++ '}' :: ['"']))) =
      some (['"', '{'] ++ (guid ++ '}' :: ['"'])) := rfl
  simp only [hguid, Option.bind_some, Text.afterStart_append, braced?_append hg hg', if_true]

theorem quoted?_eq_some {cs name rest : List Char} (h : quoted? cs = some (name, rest)) :
    '"' ∉ name ∧ name ⊆ cs ∧ rest ⊆ cs := by
  unfold quoted? at h
  split at h
  · next tail =>
    obtain ⟨hfree, rfl⟩ := Text.splitAtFirst_eq_some_iff.mp h
    refine ⟨hfree, fun c hc => ?_, fun c hc => ?_⟩
    · exact List.mem_cons_of_mem _ (List.mem_append_left _ hc)
    · exact List.mem_cons_of_mem _ (List.mem_append_right _ (List.mem_cons_of_mem _ hc))
  · cases h

theorem afterMark?_subset {mark : Char} {cs rest : List Char} (h : afterMark? mark cs = some rest) :
    rest ⊆ cs := by
  have hsub : Text.dropBlank cs ⊆ cs := (List.dropWhile_suffix _).subset
  rw [afterMark?] at h
  split at h
  · next c tail hdrop =>
    split at h
    · cases h
      rw [hdrop] at hsub
      intro x hx
      exact hsub (List.mem_cons_of_mem _ ((List.dropWhile_suffix _).subset hx))
    · cases h
  · cases h

theorem braced?_subset {cs rest : List Char} {body : String} (h : braced? cs = some (body, rest)) :
    rest ⊆ cs := by
  rw [braced?] at h
  split at h
  · next hcut =>
    cases h
    obtain ⟨-, rfl⟩ := Text.splitAtFirst_eq_some_iff.mp hcut
    intro x hx
    exact List.mem_append_right _ (List.mem_cons_of_mem _ hx)
  · cases h

/-- A project that a line declares has no quote in its name and path. -/
theorem projectOfLine?_eq_some {line : String} {p : SolutionProject}
    (h : projectOfLine? line = some p) :
    p.lines = [line] ∧ opening <+: Text.trimChars line.toList ∧
      ('\n' ∉ line.toList → p.Plain) := by
  have hopening : "Project(\"\x7b".toList = opening := by decide
  simp only [projectOfLine?, hopening, Option.bind_eq_bind, Option.bind_eq_some_iff,
    Prod.exists] at h
  obtain ⟨r₁, h₁, typeGuid, r₂, h₂, r₃, h₃, r₄, h₄, name, r₅, h₅, r₆, h₆, path, r₇, h₇, _, -, _, -, _,
    _, -, h⟩ := h
  have hstart := Text.eq_append_of_afterStart h₁
  obtain ⟨hname, hnamesub, hrest₅⟩ := quoted?_eq_some h₅
  obtain ⟨hpath, hpathsub, -⟩ := quoted?_eq_some h₇
  -- both fields are parts of the line
  have hfour : r₄ ⊆ line.toList := by
    apply List.Subset.trans (afterMark?_subset h₄)
    have hthree : r₃ ⊆ r₂ := by
      rw [Text.eq_append_of_afterStart h₃]
      exact List.subset_append_right _ _
    apply List.Subset.trans hthree
    apply List.Subset.trans (braced?_subset h₂)
    intro c hc
    apply Text.trimChars_subset
    rw [hstart]
    exact List.mem_append_right _ hc
  have hsix : r₆ ⊆ line.toList :=
    List.Subset.trans (afterMark?_subset h₆) (List.Subset.trans hrest₅ hfour)
  split at h
  · cases h
    refine ⟨rfl, hstart ▸ List.prefix_append _ _, fun hline => ?_⟩
    refine ⟨⟨?_, ?_⟩, ?_, ?_⟩
    · rwa [String.toList_ofList]
    · rw [String.toList_ofList]
      exact fun hn => hline (hfour (hnamesub hn))
    · rwa [String.toList_ofList]
    · rw [String.toList_ofList]
      exact fun hn => hline (hsix (hpathsub hn))
  · cases h

end Solution

end Stencil
