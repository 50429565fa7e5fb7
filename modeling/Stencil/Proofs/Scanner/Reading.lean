import Mathlib.Data.List.Basic
import Stencil.Proofs.Scanner.Place
import Stencil.Substitution

namespace Stencil

open Text

/-- The first place where a delimiter stands. -/
def firstAt (delimiter cs : List Char) : Option Nat :=
  (List.range cs.length).find? fun i => delimiter.isPrefixOf (cs.drop i)

/-- No lower case beyond ASCII's letters falls on a brace or on the bar between the braces. -/
theorem caseRuns_avoid_braces :
    ∀ run ∈ caseRuns, run.last + run.shift < 123 ∨ 125 < run.first + run.shift := by
  decide +kernel

theorem toLower_brace : ∀ n < 0x80, (Char.ofNat n).toLower ∈ ['{', '}'] →
    (Char.ofNat n).toLower = Char.ofNat n := by
  decide

theorem eq_toNat_of_ofNat_eq {n : Nat} {d : Char} (hd : d ≠ '\x00') (h : Char.ofNat n = d) :
    n = d.toNat := by
  by_cases hvalid : n.isValidChar
  · rw [Char.ofNat, dif_pos hvalid] at h
    exact congrArg Char.toNat h
  · rw [Char.ofNat, dif_neg hvalid] at h
    exact absurd h.symm hd

theorem eq_of_lowerCase_eq {c d : Char} (hd : d ∈ ['{', '}']) (h : lowerCase c = [d]) :
    c = d := by
  obtain ⟨hlow, hhigh, hzero⟩ : 123 ≤ d.toNat ∧ d.toNat ≤ 125 ∧ d ≠ '\x00' := by
    rcases List.mem_pair.mp hd with rfl | rfl <;> decide
  simp only [lowerCase] at h
  split at h
  · next hascii =>
    have hlower := (List.cons.inj h).1
    have hself := toLower_brace c.toNat hascii
    rw [Char.ofNat_toNat, hlower] at hself
    exact (hself hd).symm
  · split at h
    · simp at h
    · split at h
      · next run hrun =>
        have havoid := caseRuns_avoid_braces run (List.mem_of_find?_eq_some hrun)
        have hin := List.find?_some hrun
        simp only [CaseRun.contains, Bool.and_eq_true, decide_eq_true_eq] at hin
        have hcode := eq_toNat_of_ofNat_eq hzero (List.cons.inj h).1
        omega
      · exact (List.cons.inj h).1

theorem sameLetter_brace {c d : Char} (hd : d ∈ ['{', '}']) : sameLetter c d = (c == d) := by
  have hself : lowerCase d = [d] := by
    rcases List.mem_pair.mp hd with rfl | rfl <;> decide
  by_cases h : c = d
  · simp [h, sameLetter]
  · have hl : lowerCase c ≠ [d] := fun he => h (eq_of_lowerCase_eq hd he)
    simp [sameLetter, hself, h, hl]

variable {delimiter cs : List Char}

theorem startsWithDelimiter_eq (h : delimiter ⊆ ['{', '}']) (cs : List Char) :
    startsWithDelimiter delimiter cs = delimiter.isPrefixOf cs := by
  induction delimiter generalizing cs with
  | nil => simp [startsWithDelimiter]
  | cons d delimiter ih =>
    cases cs with
    | nil => simp [startsWithDelimiter, List.isPrefixOf]
    | cons c cs =>
      have hrest := ih (List.subset_of_cons_subset h) cs
      simp only [startsWithDelimiter, List.isPrefixOf, hrest, sameLetter_brace (h List.mem_cons_self),
        Bool.beq_comm]

theorem firstAt_cons (c : Char) (cs : List Char) :
    firstAt delimiter (c :: cs) =
      if delimiter.isPrefixOf (c :: cs) then some 0 else (firstAt delimiter cs).map (· + 1) := by
  simp only [firstAt, List.length_cons, List.range_succ_eq_map, List.find?_cons, List.drop_zero,
    List.find?_map]
  split
  · next h => rw [h]; simp
  · next h => rw [h]; rfl

/-- The scanner cuts at the first place where a delimiter of braces stands. -/
theorem cutAt?_eq (h : delimiter ⊆ ['{', '}']) (cs : List Char) :
    cutAt? delimiter cs = (firstAt delimiter cs).map fun i => (cs.take i, cs.drop i) := by
  induction cs with
  | nil => simp [cutAt?, firstAt]
  | cons c cs ih =>
    rw [cutAt?, firstAt_cons, startsWithDelimiter_eq h, ih]
    split
    · simp
    · cases firstAt delimiter cs <;> simp

/-- What is found lies within the text. -/
theorem firstAt_lt {i : Nat} (h : firstAt delimiter cs = some i) : i < cs.length := by
  have := List.mem_of_find?_eq_some h
  simpa using this

/-- Where a delimiter is found, the text goes on with it. -/
theorem drop_of_firstAt {i : Nat} (h : firstAt delimiter cs = some i) :
    cs.drop i = delimiter ++ cs.drop (i + delimiter.length) := by
  have hprefix : delimiter <+: cs.drop i := by simpa using List.find?_some h
  rw [← List.drop_drop]
  exact (List.prefix_iff_eq_append.mp hprefix).symm

end Stencil

namespace Stencil.Scanner

variable {s : Scanner} {delimiter passed : List Char}

/-- A scanner that has passed over a text. -/
def Behind (s : Scanner) (passed : List Char) : Prop :=
  s.place = ({} : Place).through s.rest.head? passed

theorem behind_ofText (text : String) : (ofText text).Behind [] := rfl

theorem readTo_of_none (hd : delimiter ⊆ ['{', '}']) (h : firstAt delimiter s.rest = none) :
    (s.readTo delimiter).before = s.rest ∧ (s.readTo delimiter).found = false := by
  have hcut : cutAt? delimiter s.rest = none := by rw [cutAt?_eq hd, h]; rfl
  simp [readTo, hcut]

/-- What a delimiter that is found cuts off. -/
theorem readTo_of_some (hd : delimiter ⊆ ['{', '}']) (hne : delimiter ≠ []) {i : Nat}
    (h : firstAt delimiter s.rest = some i) :
    s.readTo delimiter =
      let mark := s.place.through delimiter.head? (s.rest.take i)
      let rest := s.rest.drop (i + delimiter.length)
      ⟨s.rest.take i, true, ⟨rest, mark.through rest.head? delimiter, mark⟩⟩ := by
  have hcut : cutAt? delimiter s.rest = some (s.rest.take i, s.rest.drop i) := by
    rw [cutAt?_eq hd, h]
    rfl
  obtain ⟨d, more, rfl⟩ := List.exists_cons_of_ne_nil hne
  simp only [readTo, hcut, drop_of_firstAt h, List.cons_append, List.head?_cons]
  rw [← List.cons_append, List.take_left, List.drop_left]

theorem head?_rest_of_firstAt (hne : delimiter ≠ []) {i : Nat}
    (h : firstAt delimiter s.rest = some i) :
    s.rest.head? = (s.rest.take i).head?.or delimiter.head? := by
  obtain ⟨d, more, rfl⟩ := List.exists_cons_of_ne_nil hne
  have hhead : (s.rest.drop i).head? = some d := by rw [drop_of_firstAt h]; rfl
  rw [List.head?_cons, ← hhead, ← List.head?_append, List.take_append_drop]

/-- The mark is the place behind all that was passed, up to the delimiter that was found. -/
theorem mark_readTo (hd : delimiter ⊆ ['{', '}']) (hne : delimiter ≠ []) {i : Nat}
    (h : firstAt delimiter s.rest = some i) (hs : s.Behind passed) :
    (s.readTo delimiter).after.mark =
      ⟨lineBreaks (passed ++ s.rest.take i), lastLine (passed ++ s.rest.take i)⟩ := by
  have hhead : delimiter.head? ≠ some '\n' := by
    obtain ⟨d, rest, rfl⟩ := List.exists_cons_of_ne_nil hne
    rw [List.head?_cons]
    rcases List.mem_pair.mp (hd List.mem_cons_self) with rfl | rfl <;> decide
  rw [readTo_of_some hd hne h]
  simp only
  rw [hs, head?_rest_of_firstAt hne h, ← Place.through_append, Place.through_start hhead]

theorem behind_readTo (hd : delimiter ⊆ ['{', '}']) (hne : delimiter ≠ []) {i : Nat}
    (h : firstAt delimiter s.rest = some i) (hs : s.Behind passed) :
    (s.readTo delimiter).after.Behind (passed ++ s.rest.take (i + delimiter.length)) := by
  have htake : s.rest.take (i + delimiter.length) = s.rest.take i ++ delimiter := by
    rw [List.take_add, drop_of_firstAt h, List.take_left]
  rw [readTo_of_some hd hne h]
  simp only [Behind]
  rw [hs, head?_rest_of_firstAt hne h, ← Place.through_append, htake, ← List.append_assoc,
    Place.through_append _ _ (passed ++ _)]
  obtain ⟨d, more, rfl⟩ := List.exists_cons_of_ne_nil hne
  rfl

end Stencil.Scanner
