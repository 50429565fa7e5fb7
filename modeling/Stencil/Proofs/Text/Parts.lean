import Stencil.Text

namespace Stencil.Text

variable {separator : Char → Bool}

theorem splitChars_append {c : Char} (hc : separator c = true) (a b : List Char) :
    splitChars separator (a ++ c :: b) = splitChars separator a ++ splitChars separator b := by
  induction a with
  | nil => simp [splitChars, hc]
  | cons x a ih =>
    simp only [List.cons_append, splitChars, ih]
    split
    · rfl
    · -- the first part of `a` goes on with `x`
      cases ha : splitChars separator a with
      | nil => exact absurd ha (splitChars_ne_nil separator a)
      | cons part parts => rfl

/-- A text without separators is its only part. -/
theorem splitChars_of_free {cs : List Char} (h : ∀ c ∈ cs, separator c = false) :
    splitChars separator cs = [cs] := by
  induction cs with
  | nil => rfl
  | cons c cs ih =>
    have hc : separator c = false := h c List.mem_cons_self
    simp only [splitChars, hc, ih fun x hx => h x (List.mem_cons_of_mem _ hx)]
    rfl

/-- Only what separates the characters of a text matters. -/
theorem splitChars_congr {separator' : Char → Bool} {cs : List Char}
    (h : ∀ c ∈ cs, separator c = separator' c) :
    splitChars separator cs = splitChars separator' cs := by
  induction cs with
  | nil => rfl
  | cons c cs ih =>
    have hc := h c List.mem_cons_self
    have hrest := ih fun x hx => h x (List.mem_cons_of_mem _ hx)
    simp only [splitChars, hc, hrest]

/-- No part has a separator in it. -/
theorem free_of_mem_splitChars {cs part : List Char} (h : part ∈ splitChars separator cs) :
    ∀ c ∈ part, separator c = false := by
  induction cs generalizing part with
  | nil =>
    simp only [splitChars, List.mem_singleton] at h
    simp [h]
  | cons x cs ih =>
    simp only [splitChars] at h
    split at h
    · rcases List.mem_cons.mp h with rfl | h
      · simp
      · exact ih h
    · next hx =>
      cases hs : splitChars separator cs with
      | nil => exact absurd hs (splitChars_ne_nil separator cs)
      | cons first parts =>
        rw [hs] at h
        rcases List.mem_cons.mp h with rfl | h
        · intro c hc
          rcases List.mem_cons.mp hc with rfl | hc
          · exact Bool.eq_false_iff.mpr hx
          · exact ih (hs ▸ List.mem_cons_self) c hc
        · exact ih (hs ▸ List.mem_cons_of_mem _ h)

/-- A part has only characters of the text. -/
theorem subset_of_mem_splitChars {cs part : List Char} (h : part ∈ splitChars separator cs) :
    part ⊆ cs := by
  induction cs generalizing part with
  | nil =>
    simp only [splitChars, List.mem_singleton] at h
    exact h ▸ List.Subset.refl _
  | cons x cs ih =>
    have hmore {rest : List Char} (hrest : rest ∈ splitChars separator cs) : rest ⊆ x :: cs :=
      fun c hc => List.mem_cons_of_mem _ (ih hrest hc)
    simp only [splitChars] at h
    split at h
    · rcases List.mem_cons.mp h with rfl | h
      · exact List.nil_subset _
      · exact hmore h
    · cases hs : splitChars separator cs with
      | nil => exact absurd hs (splitChars_ne_nil separator cs)
      | cons first parts =>
        rw [hs] at h
        rcases List.mem_cons.mp h with rfl | h
        · have hfirst := hmore (hs ▸ List.mem_cons_self)
          exact List.cons_subset.mpr ⟨List.mem_cons_self, hfirst⟩
        · exact hmore (hs ▸ List.mem_cons_of_mem _ h)

/-- What is no separator is in some part. -/
theorem exists_mem_splitChars {cs : List Char} {c : Char} (h : c ∈ cs) (hc : separator c = false) :
    ∃ part ∈ splitChars separator cs, c ∈ part := by
  obtain ⟨before, after, rfl⟩ := List.append_of_mem h
  induction before with
  | nil =>
    simp only [List.nil_append, splitChars, hc, Bool.false_eq_true, if_false]
    cases splitChars separator after with
    | nil => exact ⟨[c], List.mem_cons_self, List.mem_cons_self⟩
    | cons part parts => exact ⟨c :: part, List.mem_cons_self, List.mem_cons_self⟩
  | cons x before ih =>
    obtain ⟨part, hpart, hmem⟩ := ih (List.mem_append_right _ List.mem_cons_self)
    simp only [List.cons_append, splitChars]
    split
    · exact ⟨part, List.mem_cons_of_mem _ hpart, hmem⟩
    · cases hs : splitChars separator (before ++ c :: after) with
      | nil => exact absurd hs (splitChars_ne_nil separator _)
      | cons first parts =>
        rw [hs] at hpart
        rcases List.mem_cons.mp hpart with rfl | hpart
        · exact ⟨x :: part, List.mem_cons_self, List.mem_cons_of_mem _ hmem⟩
        · exact ⟨part, List.mem_cons_of_mem _ hpart, hmem⟩

/-- Parts that are written with separators between them are read as these parts. -/
theorem splitChars_intercalate {c : Char} {parts : List (List Char)} (hne : parts ≠ [])
    (h : ∀ part ∈ parts, c ∉ part) :
    splitChars (· == c) (List.intercalate [c] parts) = parts := by
  have free (part : List Char) (hp : part ∈ parts) : ∀ x ∈ part, (x == c) = false := by
    intro x hx
    exact beq_eq_false_iff_ne.mpr fun hxc => h part hp (hxc ▸ hx)
  induction parts with
  | nil => exact absurd rfl hne
  | cons part parts ih =>
    have hpart := splitChars_of_free (free part List.mem_cons_self)
    cases parts with
    | nil => simpa [List.intercalate] using hpart
    | cons next parts =>
      have hrest := ih (by simp) (fun p hp => h p (List.mem_cons_of_mem _ hp))
        (fun p hp => free p (List.mem_cons_of_mem _ hp))
      have hcut : List.intercalate [c] (part :: next :: parts) =
          part ++ c :: List.intercalate [c] (next :: parts) := by
        simp [List.intercalate]
      rw [hcut, splitChars_append (by simp), hpart, hrest]
      rfl

/-- The parts of a text make it up again. -/
theorem intercalate_splitChars (c : Char) (cs : List Char) :
    List.intercalate [c] (splitChars (· == c) cs) = cs := by
  induction cs with
  | nil => rfl
  | cons x cs ih =>
    cases hs : splitChars (· == c) cs with
    | nil => exact absurd hs (splitChars_ne_nil _ cs)
    | cons part parts =>
      rw [hs] at ih
      simp only [splitChars, hs]
      split
      · next hx =>
        rw [beq_iff_eq] at hx
        simpa [List.intercalate, hx] using ih
      · cases parts <;> simpa [List.intercalate] using ih

/-- What parts are put together to has only characters of the parts and of what stands between. -/
theorem mem_intercalate {c : Char} {between : List Char} {parts : List (List Char)}
    (h : c ∈ between.intercalate parts) : c ∈ between ∨ ∃ part ∈ parts, c ∈ part := by
  induction parts with
  | nil => simp [List.intercalate] at h
  | cons part parts ih =>
    cases parts with
    | nil => exact Or.inr ⟨part, List.mem_cons_self, by simpa [List.intercalate] using h⟩
    | cons next parts =>
      have hsplit : between.intercalate (part :: next :: parts) =
          part ++ between ++ between.intercalate (next :: parts) := by
        simp [List.intercalate]
      rw [hsplit, List.mem_append, List.mem_append] at h
      rcases h with (hpart | hbetween) | hrest
      · exact Or.inr ⟨part, List.mem_cons_self, hpart⟩
      · exact Or.inl hbetween
      · exact (ih hrest).imp_right fun ⟨other, hother, hc⟩ =>
          ⟨other, List.mem_cons_of_mem _ hother, hc⟩

theorem intercalate_isPrefix {c : Char} {front whole : List (List Char)} (h : front <+: whole) :
    List.intercalate [c] front <+: List.intercalate [c] whole := by
  obtain ⟨behind, rfl⟩ := h
  induction front with
  | nil => exact List.nil_prefix
  | cons part front ih =>
    cases front with
    | nil =>
      cases behind with
      | nil => exact List.prefix_refl _
      | cons next behind => simp [List.intercalate]
    | cons next front =>
      obtain ⟨more, hmore⟩ := ih
      exact ⟨more, by simpa [List.intercalate] using hmore⟩

theorem splitAtFirst_eq_some_iff {c : Char} {cs before after : List Char} :
    splitAtFirst c cs = some (before, after) ↔ c ∉ before ∧ cs = before ++ c :: after := by
  induction cs generalizing before with
  | nil => simp [splitAtFirst]
  | cons x cs ih =>
    simp only [splitAtFirst]
    split
    · next hx =>
      subst hx
      cases before with
      | nil => simp [eq_comm]
      | cons y before =>
        -- the first character is the separator, so nothing stands before it
        simp only [Option.some.injEq, Prod.mk.injEq, List.cons_append, List.cons.injEq,
          List.mem_cons, not_or]
        constructor
        · rintro ⟨h, -⟩
          cases h
        · rintro ⟨⟨h, -⟩, rfl, -⟩
          exact absurd rfl h
    · next hx =>
      cases before with
      | nil => simp [hx]
      | cons y before =>
        simp only [Option.map_eq_some_iff, Prod.mk.injEq, List.cons.injEq, List.cons_append,
          List.mem_cons, not_or, Prod.exists]
        constructor
        · rintro ⟨b, a, h, ⟨rfl, rfl⟩, rfl⟩
          obtain ⟨hfree, hcs⟩ := ih.mp h
          exact ⟨⟨fun h => hx h.symm, hfree⟩, rfl, hcs⟩
        · rintro ⟨⟨-, hfree⟩, rfl, hcs⟩
          exact ⟨before, after, ih.mpr ⟨hfree, hcs⟩, ⟨rfl, rfl⟩, rfl⟩

theorem splitAtFirst_append {c : Char} {before : List Char} (h : c ∉ before) (after : List Char) :
    splitAtFirst c (before ++ c :: after) = some (before, after) :=
  splitAtFirst_eq_some_iff.mpr ⟨h, rfl⟩

theorem afterStart_append (start rest : List Char) :
    afterStart start (start ++ rest) = some rest := by
  induction start with
  | nil => rfl
  | cons c start ih => simpa [afterStart] using ih

end Stencil.Text
