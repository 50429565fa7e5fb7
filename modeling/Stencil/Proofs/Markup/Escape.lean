import Stencil.Markup.Reference

namespace Stencil.Markup

variable {cs rest : List Char} {c : Char}

/-- What stands in an escaped text for a character that would be taken for markup. -/
theorem escapeChar_cases (c : Char) :
    (c, escapeChar c) ∈ [('<', "&lt;".toList), ('>', "&gt;".toList), ('&', "&amp;".toList),
      ('\'', "&apos;".toList), ('"', "&quot;".toList)] ∨
    (c ≠ '<' ∧ c ≠ '>' ∧ c ≠ '&' ∧ c ≠ '\'' ∧ c ≠ '"') ∧ escapeChar c = [c] := by
  unfold escapeChar
  split
  · exact Or.inl (by decide)
  · exact Or.inl (by decide)
  · exact Or.inl (by decide)
  · exact Or.inl (by decide)
  · exact Or.inl (by decide)
  · next hlt hgt hamp hapos hquot => exact Or.inr ⟨⟨hlt, hgt, hamp, hapos, hquot⟩, rfl⟩

/-- The characters that an escaped text is free of. -/
theorem escape_free {s : String} (h : c ∈ (escape s).toList) :
    c ≠ '<' ∧ c ≠ '>' ∧ c ≠ '\'' ∧ c ≠ '"' := by
  obtain ⟨d, -, hd⟩ := List.mem_flatMap.mp (String.toList_ofList ▸ h)
  rcases escapeChar_cases d with hspecial | ⟨hplain, hd'⟩
  · generalize escapeChar d = written at hspecial hd
    simp only [List.mem_cons, Prod.mk.injEq, List.not_mem_nil, or_false] at hspecial
    have hfree : ∀ c ∈ written, c ≠ '<' ∧ c ≠ '>' ∧ c ≠ '\'' ∧ c ≠ '"' := by
      rcases hspecial with ⟨-, rfl⟩ | ⟨-, rfl⟩ | ⟨-, rfl⟩ | ⟨-, rfl⟩ | ⟨-, rfl⟩ <;> simp
    exact hfree c hd
  · rw [hd', List.mem_singleton] at hd
    subst hd
    exact ⟨hplain.1, hplain.2.1, hplain.2.2.2.1, hplain.2.2.2.2⟩

theorem unescapeFrom_cons (h : c ≠ '&') (total offset : Nat) (rest : List Char) :
    unescapeFrom total offset (c :: rest) =
      (unescapeFrom total (offset + c.utf8Size) rest).map (c :: ·) := by
  rw [unescapeFrom, if_neg h]
  cases unescapeFrom total (offset + c.utf8Size) rest <;> rfl

/-- A reference to one of the five entities gives its character. -/
theorem unescapeFrom_entity {name : List Char} (hbody : referenceBody (name ++ ';' :: rest) =
      some (name, rest)) (hentity : entity? name = some c) (total offset : Nat) :
    unescapeFrom total offset ('&' :: name ++ ';' :: rest) =
      (unescapeFrom total (offset + 2 + byteLength name) rest).map (c :: ·) := by
  have hresolve : resolve (offset + 1) name = .ok c := by
    unfold resolve
    split
    · cases hentity
    · rw [hentity]
  rw [List.cons_append, unescapeFrom, if_pos rfl]
  split
  · next hnone =>
    rw [hbody] at hnone
    cases hnone
  · next body after hsome =>
    obtain ⟨rfl, rfl⟩ : name = body ∧ rest = after := by simpa [hbody] using hsome
    simp only [hresolve, bind, Except.bind]
    cases unescapeFrom total (offset + 2 + byteLength name) rest <;> rfl

/-- Reading an escaped text gives the text, wherever it stands. -/
theorem unescapeFrom_escape (total offset : Nat) (cs : List Char) :
    unescapeFrom total offset (cs.flatMap escapeChar) = .ok cs := by
  induction cs generalizing offset with
  | nil => rw [List.flatMap_nil, unescapeFrom]
  | cons c cs ih =>
    rw [List.flatMap_cons]
    rcases escapeChar_cases c with hspecial | ⟨⟨-, -, hamp, -, -⟩, hplain⟩
    · obtain ⟨name, hwritten, hentity, hbody⟩ : ∃ name, escapeChar c = '&' :: name ++ [';'] ∧
          entity? name = some c ∧
          ∀ rest, referenceBody (name ++ ';' :: rest) = some (name, rest) := by
        simp only [List.mem_cons, Prod.mk.injEq, List.not_mem_nil, or_false] at hspecial
        rcases hspecial with ⟨rfl, -⟩ | ⟨rfl, -⟩ | ⟨rfl, -⟩ | ⟨rfl, -⟩ | ⟨rfl, -⟩
        · exact ⟨['l', 't'], rfl, rfl, fun _ => rfl⟩
        · exact ⟨['g', 't'], rfl, rfl, fun _ => rfl⟩
        · exact ⟨['a', 'm', 'p'], rfl, rfl, fun _ => rfl⟩
        · exact ⟨['a', 'p', 'o', 's'], rfl, rfl, fun _ => rfl⟩
        · exact ⟨['q', 'u', 'o', 't'], rfl, rfl, fun _ => rfl⟩
      rw [hwritten, List.append_assoc, List.singleton_append,
        unescapeFrom_entity (hbody _) hentity, ih]
      rfl
    · rw [hplain, List.singleton_append, unescapeFrom_cons hamp, ih]
      rfl

/-- Reading an escaped text gives the text. -/
theorem unescape_escape (s : String) : unescape (escape s).toList = .ok s := by
  unfold unescape escape
  rw [String.toList_ofList, unescapeFrom_escape, Except.map, String.ofList_toList]

theorem escape_of_plain {s : String} (h : ∀ c ∈ s.toList, escapeChar c = [c]) : escape s = s := by
  have hsame : s.toList.flatMap escapeChar = s.toList := by
    rw [List.flatMap_def, List.map_congr_left h, ← List.flatMap_def]
    exact List.flatMap_singleton' _
  rw [escape, hsame, String.ofList_toList]

theorem eq_empty_of_escape {s : String} (h : (escape s).toList = []) : s = "" := by
  have hread := unescape_escape s
  rw [h, unescape, unescapeFrom] at hread
  exact (Except.ok.inj hread).symm

end Stencil.Markup
