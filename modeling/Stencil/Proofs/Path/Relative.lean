import Stencil.Proofs.Path.Absolute

namespace Stencil.Path

theorem take_commonLength (as bs : List Component) :
    as.take (commonLength as bs) = bs.take (commonLength as bs) := by
  induction as generalizing bs with
  | nil => simp [commonLength]
  | cons a as ih =>
    cases bs with
    | nil => simp [commonLength]
    | cons b bs =>
      simp only [commonLength]
      split
      · next h => rw [h, List.take_succ_cons, List.take_succ_cons, ih]
      · simp

theorem commonLength_pos {base target : Path} (hb : base.isRooted = true)
    (ht : target.isRooted = true) : 0 < commonLength base.components target.components := by
  rw [components_of_isRooted hb, components_of_isRooted ht]
  simp [commonLength]

/-- Whether the way from a directory to a target undoes the directory's own part: that part has no
step upwards, or the target's own part rises to the root. -/
def Retraces (base target : Path) : Prop :=
  let common := commonLength base.components target.components
  .up ∉ base.components.drop common ∨
    (leads [] (base.components.take common)).length ≤ rise (target.components.drop common)

theorem drop_components_subset {p : Path} (h : p.isRooted = true) {n : Nat} (hn : 0 < n) :
    p.components.drop n ⊆ p.moves := by
  obtain ⟨m, rfl⟩ : ∃ m, n = m + 1 := ⟨n - 1, by omega⟩
  rw [components_of_isRooted h, List.drop_succ_cons]
  exact List.drop_subset _ _

theorem relativeTo_of_isRooted {base target : Path} (hb : base.isRooted = true)
    (ht : target.isRooted = true) :
    ∃ back way : List Component, base.relativeTo target =
        ofComponents (List.replicate back.length .up ++ way) ∧
      back = base.components.drop (commonLength base.components target.components) ∧
      way = target.components.drop (commonLength base.components target.components) ∧
      back ⊆ base.moves ∧ way ⊆ target.moves := by
  have hpos := commonLength_pos hb ht
  refine ⟨_, _, ?_, rfl, rfl, drop_components_subset hb hpos, drop_components_subset ht hpos⟩
  rw [relativeTo, if_neg (Nat.ne_of_gt hpos), List.length_drop]

theorem written_back (n : Nat) {way : List Component} {target : Path} (h : way ⊆ target.moves) :
    ∀ c ∈ List.replicate n .up ++ way, Written c := by
  intro c hc
  rcases List.mem_append.mp hc with hc | hc
  · rw [List.eq_of_mem_replicate hc]
    exact written_up
  · exact written_of_mem_moves (h hc)

/-- Going from a rooted directory along the way to a rooted target leads to the target exactly if the
way retraces the directory. -/
theorem placeFrom_relativeTo_iff {base target : Path} (hb : base.isRooted = true)
    (ht : target.isRooted = true) :
    (base.relativeTo target).placeFrom (base.placeFrom []) = target.placeFrom [] ↔
      Retraces base target := by
  obtain ⟨back, way, hrel, hback, hway, hbackMoves, hwayMoves⟩ := relativeTo_of_isRooted hb ht
  let common := commonLength base.components target.components
  let start := leads [] (base.components.take common)
  have hwritten := written_back back.length hwayMoves
  have hbase : base.placeFrom [] = leads start back := by
    rw [hback, ← leads_append, List.take_append_drop, placeFrom]
  have htarget : target.placeFrom [] = leads start way := by
    rw [hway, show start = leads [] (target.components.take common) by
      rw [← take_commonLength], ← leads_append, List.take_append_drop, placeFrom]
  rw [hrel, hbase, htarget, placeFrom_eq, isRooted_ofComponents hwritten,
    moves_ofComponents hwritten]
  simp only [Bool.false_eq_true, if_false]
  rw [leads_back_then_iff (fun c hc => moving_moves base c (hbackMoves hc))
    (fun c hc => moving_moves target c (hwayMoves hc)), hback, hway, Retraces]

/-- A component has only characters of the path, besides slashes and points. -/
theorem mem_of_mem_components {p : Path} {c : Component} {x : Char} (hc : c ∈ p.components)
    (hx : x ∈ c.text.toList) : x = '/' ∨ x = '.' ∨ x ∈ p.text.toList := by
  have hfixed : (∀ y ∈ c.text.toList, y = '/' ∨ y = '.') → x = '/' ∨ x = '.' ∨ x ∈ p.text.toList :=
    fun h => (h x hx).imp_right Or.inl
  cases c with
  | root => exact hfixed (by simp [Component.text])
  | here => exact hfixed (by simp [Component.text])
  | up => exact hfixed (by simp [Component.text])
  | name text =>
    -- a name is a segment, and that is a part of the text
    have hsegment : text ∈ p.segments := by
      unfold components at hc
      rcases List.mem_append.mp hc with hfront | hmove
      · split at hfront
        · simp at hfront
        · split at hfront <;> simp at hfront
      · obtain ⟨segment, hmem, hstep⟩ := List.mem_filterMap.mp hmove
        unfold step? at hstep
        split at hstep
        · cases hstep
        · split at hstep
          · cases hstep
          · cases hstep
            exact hmem
    obtain ⟨part, hpart, rfl⟩ := List.mem_map.mp hsegment
    have hmem : x ∈ part := by simpa [Component.text] using hx
    exact Or.inr (Or.inr (Text.subset_of_mem_splitChars hpart hmem))

/-- The way to a target has only characters of the target, besides slashes and points. -/
theorem mem_relativeTo {base target : Path} {x : Char}
    (h : x ∈ (base.relativeTo target).text.toList) : x = '/' ∨ x = '.' ∨ x ∈ target.text.toList := by
  unfold relativeTo at h
  simp only at h
  split at h
  · exact Or.inr (Or.inr h)
  · unfold ofComponents at h
    rw [String.toList_intercalate] at h
    rcases Text.mem_intercalate h with hslash | ⟨part, hpart, hx⟩
    · exact Or.inl (by simpa using hslash)
    · obtain ⟨text, htext, rfl⟩ := List.mem_map.mp hpart
      obtain ⟨c, hc, rfl⟩ := List.mem_map.mp htext
      rcases List.mem_append.mp hc with hup | hdown
      · rw [List.eq_of_mem_replicate hup] at hx
        exact Or.inr (Or.inl (by simpa [Component.text] using hx))
      · exact mem_of_mem_components (List.drop_subset _ _ hdown) hx

/-- The stem of a file name has only characters of the path, besides slashes and points. -/
theorem mem_stem {p : Path} {stem : String} {x : Char} (h : p.stem? = some stem)
    (hx : x ∈ stem.toList) : x = '/' ∨ x = '.' ∨ x ∈ p.text.toList := by
  obtain ⟨name, hname, hstem⟩ := Option.map_eq_some_iff.mp h
  have hmem : x ∈ name.toList := by
    subst hstem
    unfold splitName at hx
    split at hx
    · next after first rest hcut =>
      have hreverse := (Text.splitAtFirst_eq_some_iff.mp hcut).2
      have hbefore : x ∈ (first :: rest).reverse := by simpa using hx
      rw [← List.mem_reverse, hreverse]
      exact List.mem_append_right _ (List.mem_cons_of_mem _ (List.mem_reverse.mp hbefore))
    · exact hx
  unfold fileName? at hname
  split at hname
  · next text hlast =>
    cases hname
    exact mem_of_mem_components (List.mem_of_getLast? hlast) hmem
  · cases hname

/-- Besides slashes and points, a path has only the characters of its moves. -/
theorem mem_text {p : Path} {x : Char} (h : x ∈ p.text.toList) :
    x = '/' ∨ x = '.' ∨ ∃ c ∈ p.moves, x ∈ c.text.toList := by
  by_cases hx : x = '/'
  · exact Or.inl hx
  · obtain ⟨part, hpart, hmem⟩ : ∃ part ∈ Text.splitChars (· == '/') p.text.toList, x ∈ part :=
      Text.exists_mem_splitChars h (beq_eq_false_iff_ne.mpr hx)
    by_cases hpoint : x = '.'
    · exact Or.inr (Or.inl hpoint)
    · -- a segment with another character than a point is a name
      have hname : step? (String.ofList part) = some (.name (String.ofList part)) := by
        have hne (s : String) (hs : ∀ y ∈ s.toList, y = '.') : String.ofList part ≠ s := by
          intro he
          exact hpoint (hs x (by rw [← he]; simpa using hmem))
        simp [step?, hne "" (by simp), hne "." (by simp), hne ".." (by simp)]
      exact Or.inr (Or.inr ⟨_, List.mem_filterMap.mpr ⟨_, List.mem_map_of_mem hpart, hname⟩,
        by simpa [Component.text] using hmem⟩)

end Stencil.Path
