import Stencil.Proofs.Text.Parts

namespace Stencil.Text

variable {ls : List (List Char)}

theorem splitChars_flatMap_feed (h : ∀ l ∈ ls, '\n' ∉ l) :
    splitChars (· == '\n') (ls.flatMap (· ++ ['\n'])) = ls ++ [[]] := by
  induction ls with
  | nil => rfl
  | cons l ls ih =>
    have hfree : ∀ c ∈ l, (c == '\n') = false := by
      intro c hc
      exact beq_eq_false_iff_ne.mpr fun hcn => h l List.mem_cons_self (hcn ▸ hc)
    have hcut : (l :: ls).flatMap (· ++ ['\n']) = l ++ '\n' :: ls.flatMap (· ++ ['\n']) := by simp
    rw [hcut, splitChars_append (by decide), splitChars_of_free hfree,
      ih fun l hl => h l (List.mem_cons_of_mem _ hl)]
    rfl

/-- The cut is at the line feed, and the carriage return stays with its line. -/
theorem splitChars_flatMap_break (h : ∀ l ∈ ls, '\n' ∉ l) :
    splitChars (· == '\n') (ls.flatMap (· ++ ['\r', '\n'])) = ls.map (· ++ ['\r']) ++ [[]] := by
  have hbreaks : ls.flatMap (· ++ ['\r', '\n']) = (ls.map (· ++ ['\r'])).flatMap (· ++ ['\n']) := by
    simp [List.flatMap_map]
  have hfree : ∀ l ∈ ls.map (· ++ ['\r']), '\n' ∉ l := by
    intro l hl
    obtain ⟨plain, hplain, rfl⟩ := List.mem_map.mp hl
    simp [h plain hplain]
  rw [hbreaks, splitChars_flatMap_feed hfree]

theorem lineChars_flatMap_break (h : ∀ l ∈ ls, '\n' ∉ l) :
    lineChars (ls.flatMap (· ++ ['\r', '\n'])) = ls := by
  rw [lineChars, splitChars_flatMap_break h]
  simp only [List.dropLast_concat, List.map_map, List.getLast?_concat, Option.getD_some,
    List.isEmpty_nil, if_true, List.append_nil]
  refine (List.map_congr_left fun l _ => ?_).trans (List.map_id _)
  simp [dropReturn]

/-- Lines that end with a line feed only are read as they are, if none ends with a carriage return. -/
theorem lineChars_flatMap_feed (h : ∀ l ∈ ls, '\n' ∉ l) (hplain : ∀ l ∈ ls, l.getLast? ≠ some '\r') :
    lineChars (ls.flatMap (· ++ ['\n'])) = ls := by
  rw [lineChars, splitChars_flatMap_feed h]
  simp only [List.dropLast_concat, List.getLast?_concat, Option.getD_some, List.isEmpty_nil, if_true,
    List.append_nil]
  refine (List.map_congr_left fun l hl => ?_).trans (List.map_id _)
  exact if_neg (hplain l hl)

/-- There is a part behind each separator, and one in front. -/
theorem length_splitChars (separator : Char → Bool) (cs : List Char) :
    (splitChars separator cs).length = cs.countP separator + 1 := by
  induction cs with
  | nil => rfl
  | cons c cs ih =>
    rw [splitChars, List.countP_cons]
    split
    · rw [List.length_cons, ih]
    · rw [← ih]
      cases hparts : splitChars separator cs with
      | nil => exact absurd hparts (splitChars_ne_nil separator cs)
      | cons part parts => rfl

/-- A text that ends with a line feed has as many lines as line feeds. -/
theorem length_lineChars_concat (cs : List Char) :
    (lineChars (cs ++ ['\n'])).length = (cs ++ ['\n']).count '\n' := by
  have hcut : splitChars (· == '\n') (cs ++ ['\n']) = splitChars (· == '\n') cs ++ [[]] :=
    splitChars_append rfl cs []
  rw [lineChars, hcut]
  simp only [List.dropLast_concat, List.getLast?_concat, Option.getD_some, List.isEmpty_nil, if_true,
    List.append_nil, List.length_map]
  rw [length_splitChars, List.count_append]
  rfl

theorem count_flatMap_feed (ls : List (List Char)) :
    ls.length ≤ (ls.flatMap (· ++ ['\n'])).count '\n' ∧
      ((ls.flatMap (· ++ ['\n'])).count '\n' = ls.length ↔ ∀ l ∈ ls, '\n' ∉ l) := by
  induction ls with
  | nil => exact ⟨Nat.le_refl 0, iff_of_true rfl nofun⟩
  | cons l ls ih =>
    obtain ⟨hle, hiff⟩ := ih
    have hcount : ((l :: ls).flatMap (· ++ ['\n'])).count '\n' =
        l.count '\n' + 1 + (ls.flatMap (· ++ ['\n'])).count '\n' := by
      rw [List.flatMap_cons, List.count_append, List.count_append, List.count_singleton_self]
    rw [hcount, List.forall_mem_cons, ← hiff, ← List.count_eq_zero, List.length_cons]
    omega

/-- Texts with a line feed behind each are as many lines as texts exactly if there is no other line feed in
them. -/
theorem length_lineChars_flatMap_iff :
    (lineChars (ls.flatMap (· ++ ['\n']))).length = ls.length ↔ ∀ l ∈ ls, '\n' ∉ l := by
  have hlines : (lineChars (ls.flatMap (· ++ ['\n']))).length =
      (ls.flatMap (· ++ ['\n'])).count '\n' := by
    rcases List.eq_nil_or_concat ls with rfl | ⟨front, last, rfl⟩
    · rfl
    · rw [List.concat_eq_append, List.flatMap_append, List.flatMap_singleton, ← List.append_assoc]
      exact length_lineChars_concat _
  rw [hlines]
  exact (count_flatMap_feed ls).2

theorem newline_notMem_of_mem_lineChars {cs line : List Char} (h : line ∈ lineChars cs) :
    '\n' ∉ line := by
  have hpart (part : List Char) (hp : part ∈ splitChars (· == '\n') cs) : '\n' ∉ part :=
    fun hn => absurd (free_of_mem_splitChars hp _ hn) (by decide)
  rw [lineChars] at h
  rcases List.mem_append.mp h with h | h
  · obtain ⟨part, hp, rfl⟩ := List.mem_map.mp h
    intro hn
    apply hpart part (List.dropLast_subset _ hp)
    rw [dropReturn] at hn
    split at hn
    · exact List.dropLast_subset _ hn
    · exact hn
  · split at h
    · cases h
    · rw [List.mem_singleton.mp h]
      apply hpart
      rw [List.getLast?_eq_some_getLast (splitChars_ne_nil _ cs), Option.getD_some]
      exact List.getLast_mem _

end Stencil.Text
