import Mathlib.Data.List.TakeWhile
import Stencil.Text

namespace Stencil.Text

theorem isBlank_head?_dropBlank (cs : List Char) : ∀ c ∈ (dropBlank cs).head?, isBlank c = false := by
  intro c hc
  have h := List.head?_dropWhile_not isBlank cs
  rw [show List.dropWhile isBlank cs = dropBlank cs from rfl, Option.mem_def.mp hc] at h
  exact h

theorem dropBlank_of_head? {cs : List Char} (h : ∀ c ∈ cs.head?, isBlank c = false) :
    dropBlank cs = cs := by
  cases cs with
  | nil => rfl
  | cons c cs =>
    rw [dropBlank, List.dropWhile_cons_of_neg]
    simp [h c rfl]

theorem isBlank_getLast?_dropBlankEnd (cs : List Char) :
    ∀ c ∈ (dropBlankEnd cs).getLast?, isBlank c = false := by
  intro c hc
  rw [dropBlankEnd, List.getLast?_reverse] at hc
  exact isBlank_head?_dropBlank _ c hc

theorem dropBlankEnd_of_getLast? {cs : List Char} (h : ∀ c ∈ cs.getLast?, isBlank c = false) :
    dropBlankEnd cs = cs := by
  rw [dropBlankEnd, dropBlank_of_head?, List.reverse_reverse]
  rwa [List.head?_reverse]

theorem dropBlankEnd_isPrefix (cs : List Char) : dropBlankEnd cs <+: cs := by
  have h : dropBlank cs.reverse <:+ cs.reverse := List.dropWhile_suffix _
  simpa [dropBlankEnd] using List.reverse_prefix.mpr h

/-- White space at the end is dropped whatever there is of it. -/
theorem dropBlankEnd_append_of_blank {b : List Char} (h : ∀ c ∈ b, isBlank c = true) (a : List Char) :
    dropBlankEnd (a ++ b) = dropBlankEnd a := by
  have hback : ∀ c ∈ b.reverse, isBlank c = true := fun c hc => h c (List.mem_reverse.mp hc)
  rw [dropBlankEnd, dropBlankEnd, List.reverse_append, dropBlank, List.dropWhile_append_of_pos hback]
  rfl

theorem exists_append_dropBlankEnd (cs : List Char) :
    ∃ blanks, (∀ c ∈ blanks, isBlank c = true) ∧ dropBlankEnd cs ++ blanks = cs := by
  refine ⟨(cs.reverse.takeWhile isBlank).reverse, fun c hc => ?_, ?_⟩
  · exact List.mem_takeWhile_imp (List.mem_reverse.mp hc)
  · rw [dropBlankEnd, dropBlank, ← List.reverse_append, List.takeWhile_append_dropWhile,
      List.reverse_reverse]

/-- Nothing is dropped in front of the last character that is no white space. -/
theorem dropBlankEnd_append {a : List Char} (h : dropBlankEnd a = a) (b : List Char) :
    dropBlankEnd (a ++ b) = a ++ dropBlankEnd b := by
  have hback : dropBlank a.reverse = a.reverse := by
    have hreverse := congrArg List.reverse h
    rwa [dropBlankEnd, List.reverse_reverse] at hreverse
  rw [dropBlankEnd, dropBlankEnd, List.reverse_append, dropBlank, List.dropWhile_append]
  -- from the end, dropping either stops within the text behind or goes through all of it
  split
  · next hblank =>
    rw [List.isEmpty_iff] at hblank
    change (dropBlank a.reverse).reverse = a ++ (List.dropWhile isBlank b.reverse).reverse
    rw [hback, hblank]
    simp
  · rw [List.reverse_append, List.reverse_reverse]
    rfl

/-- Leaving out some of the white space changes nothing else at the end. -/
theorem dropBlankEnd_filter {p : Char → Bool} (h : ∀ c, isBlank c = false → p c = true)
    (cs : List Char) : dropBlankEnd (cs.filter p) = (dropBlankEnd cs).filter p := by
  have hfront (cs : List Char) : dropBlank (cs.filter p) = (dropBlank cs).filter p := by
    induction cs with
    | nil => rfl
    | cons c cs ih =>
      cases hc : isBlank c with
      | true =>
        have hdrop (cs : List Char) : dropBlank (c :: cs) = dropBlank cs :=
          List.dropWhile_cons_of_pos hc
        rw [List.filter_cons, hdrop, ← ih]
        split
        · exact hdrop _
        · rfl
      | false =>
        have hkeep (cs : List Char) : dropBlank (c :: cs) = c :: cs :=
          List.dropWhile_cons_of_neg (by simp [hc])
        rw [hkeep, List.filter_cons_of_pos (h c hc), hkeep]
  rw [dropBlankEnd, dropBlankEnd, ← List.filter_reverse, hfront, List.filter_reverse]

theorem isBlank_head?_trimChars (cs : List Char) :
    ∀ c ∈ (trimChars cs).head?, isBlank c = false := by
  intro c hc
  obtain ⟨rest, hrest⟩ := dropBlankEnd_isPrefix (dropBlank cs)
  apply isBlank_head?_dropBlank cs c
  rw [← hrest, List.head?_append, show dropBlankEnd (dropBlank cs) = trimChars cs from rfl,
    Option.mem_def.mp hc]
  rfl

theorem isBlank_getLast?_trimChars (cs : List Char) :
    ∀ c ∈ (trimChars cs).getLast?, isBlank c = false :=
  isBlank_getLast?_dropBlankEnd _

theorem trimChars_eq_self {cs : List Char} (hhead : ∀ c ∈ cs.head?, isBlank c = false)
    (hlast : ∀ c ∈ cs.getLast?, isBlank c = false) : trimChars cs = cs := by
  rw [trimChars, dropBlank_of_head? hhead, dropBlankEnd_of_getLast? hlast]

@[simp] theorem trimChars_trimChars (cs : List Char) : trimChars (trimChars cs) = trimChars cs :=
  trimChars_eq_self (isBlank_head?_trimChars cs) (isBlank_getLast?_trimChars cs)

@[simp] theorem toList_trim (s : String) : (trim s).toList = trimChars s.toList := by
  simp [trim]

@[simp] theorem trim_trim (s : String) : trim (trim s) = trim s := by
  apply String.toList_injective
  simp

theorem trimChars_subset (cs : List Char) : trimChars cs ⊆ cs :=
  List.Subset.trans (dropBlankEnd_isPrefix _).subset (List.dropWhile_suffix _).subset

theorem trimChars_cons_of_blank {c : Char} (hc : isBlank c = true) (cs : List Char) :
    trimChars (c :: cs) = trimChars cs := by
  simp [trimChars, dropBlank, hc]

/-- Nothing is left of a text exactly if it has only white space. -/
theorem trimChars_eq_nil_iff {cs : List Char} :
    trimChars cs = [] ↔ ∀ c ∈ cs, isBlank c = true := by
  rw [trimChars, dropBlankEnd, List.reverse_eq_nil_iff, dropBlank, List.dropWhile_eq_nil_iff]
  simp only [List.mem_reverse]
  constructor
  · intro h c hc
    rw [← List.takeWhile_append_dropWhile (p := isBlank) (l := cs), List.mem_append] at hc
    rcases hc with hc | hc
    · exact List.mem_takeWhile_imp hc
    · exact h c hc
  · intro h c hc
    exact h c ((List.dropWhile_suffix _).subset hc)

/-- Trimming goes no further than to a trimmed part in front. -/
theorem trimChars_append {start : List Char} (h : trimChars start = start) (hne : start ≠ [])
    (rest : List Char) : trimChars (start ++ rest) = start ++ dropBlankEnd rest := by
  have hhead : ∀ c ∈ (start ++ rest).head?, isBlank c = false := by
    intro c hc
    rw [List.head?_append, Option.or_of_isSome (by simp [hne]), ← h] at hc
    exact isBlank_head?_trimChars start c hc
  have hback : dropBlankEnd start = start := by
    apply dropBlankEnd_of_getLast?
    intro c hc
    rw [← h] at hc
    exact isBlank_getLast?_trimChars start c hc
  rw [trimChars, dropBlank_of_head? hhead, dropBlankEnd_append hback]

theorem dropBlankEnd_cons {c : Char} {cs : List Char} (h : trimChars cs = cs)
    (hne : cs ≠ []) : dropBlankEnd (c :: cs) = c :: cs := by
  apply dropBlankEnd_of_getLast?
  intro x hx
  rw [← List.singleton_append, List.getLast?_append, Option.or_of_isSome (by simp [hne]), ← h] at hx
  exact isBlank_getLast?_trimChars cs x hx

end Stencil.Text
