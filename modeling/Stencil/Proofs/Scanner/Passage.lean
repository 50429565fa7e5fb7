import Mathlib.Data.List.Forall2
import Mathlib.Data.List.Induction
import Stencil.Proofs.Scanner.Reading

/-! Readings one after the other. Each takes the characters up to the leftmost place where its delimiter
stands, and the delimiter with them; what has been taken so far is the front of the text, and the place of
the scanner is the one behind it: the line breaks that end in that front, and the characters since the last
of them. Whether a break ends there may depend on the first character that was not taken. -/

namespace Stencil

variable {cs rest : List Char} {delimiter : List Char}

/-- Whether a carriage return that no line feed follows stands at an index. -/
def loneReturn (cs : List Char) (i : Nat) : Bool := cs[i]? == some '\r' && cs[i + 1]? != some '\n'

/-- Whether a line break ends with the character at an index. -/
def endsBreak (cs : List Char) (i : Nat) : Bool := cs[i]? == some '\n' || loneReturn cs i

/-- The indices in front of another one at which line breaks end. -/
def breakEnds (cs : List Char) (n : Nat) : List Nat := (List.range n).filter (endsBreak cs)

/-- The index behind the last line break that ends in front of an index. -/
def lineStart (cs : List Char) (n : Nat) : Nat := ((breakEnds cs n).getLast?.map (· + 1)).getD 0

/-- The place of an index: the line breaks that end in front of it, and the characters since the last. -/
def Place.ofIndex (cs : List Char) (n : Nat) : Place := ⟨(breakEnds cs n).length, n - lineStart cs n⟩

theorem endsBreak_eq {c : Char} {i : Nat} (h : cs[i]? = some c) :
    endsBreak cs i = (c == '\n' || loneReturn cs i) := by
  rw [endsBreak, h]
  rfl

theorem breakEnds_succ (cs : List Char) (n : Nat) :
    breakEnds cs (n + 1) = breakEnds cs n ++ if endsBreak cs n then [n] else [] := by
  rw [breakEnds, breakEnds, List.range_succ, List.filter_append, List.filter_singleton]
  cases endsBreak cs n <;> rfl

theorem lineStart_le (cs : List Char) (n : Nat) : lineStart cs n ≤ n := by
  rw [lineStart]
  cases hlast : (breakEnds cs n).getLast? with
  | none => exact Nat.zero_le n
  | some i =>
    have hmem : i ∈ List.range n := List.mem_of_mem_filter (List.mem_of_getLast? hlast)
    exact List.mem_range.mp hmem

theorem lineStart_succ (cs : List Char) (n : Nat) :
    lineStart cs (n + 1) = if endsBreak cs n then n + 1 else lineStart cs n := by
  rw [lineStart, breakEnds_succ]
  split
  · rw [List.getLast?_concat]
    rfl
  · rw [List.append_nil]
    rfl

namespace Place

theorem breaksLine_eq {c : Char} {n : Nat} (h : cs[n]? = some c) :
    breaksLine c cs[n + 1]? = endsBreak cs n := by
  rw [endsBreak_eq h, loneReturn, h]
  rfl

/-- Past one more character the place is one step further. -/
theorem ofIndex_succ {c : Char} {n : Nat} (h : cs[n]? = some c) :
    ofIndex cs (n + 1) = (ofIndex cs n).step c cs[n + 1]? := by
  rw [ofIndex, ofIndex, step, lineStart_succ, breakEnds_succ, breaksLine_eq h]
  split
  · simp
  · have hle := lineStart_le cs n
    simp only [List.append_nil, mk.injEq, true_and]
    omega

/-- A scanner that counts along a text comes to the place of the index behind it. -/
theorem through_eq_ofIndex (passed rest : List Char) :
    ({} : Place).through rest.head? passed = ofIndex (passed ++ rest) passed.length := by
  induction passed using List.reverseRecOn generalizing rest with
  | nil => rfl
  | append_singleton passed c ih =>
    -- the last character sees what follows the text, and all before it sees that character
    have hlast : (passed ++ c :: rest)[passed.length]? = some c := by simp
    have hnext : (passed ++ c :: rest)[passed.length + 1]? = rest.head? := by
      rw [List.getElem?_append_right (by omega)]
      cases rest <;> simp
    have hfront := ih (c :: rest)
    rw [List.head?_cons] at hfront
    rw [through_append, List.head?_cons, Option.some_or, hfront, List.append_assoc,
      List.singleton_append, List.length_append, List.length_singleton, ofIndex_succ hlast, hnext]
    rfl

end Place

/-- A text that a delimiter stands for: its characters one by one, without regard to case. -/
def Spells (text delimiter : List Char) : Prop :=
  List.Forall₂ (fun c d => Text.lowerCase c = Text.lowerCase d) text delimiter

/-- A text that goes on with a delimiter. -/
def BeginsWith (delimiter cs : List Char) : Prop := ∃ text rest, cs = text ++ rest ∧ Spells text delimiter

theorem sameLetter_iff {c d : Char} :
    Text.sameLetter c d = true ↔ Text.lowerCase c = Text.lowerCase d := by
  simp only [Text.sameLetter, Bool.or_eq_true, beq_iff_eq]
  constructor
  · rintro (rfl | h)
    · rfl
    · exact h
  · exact .inr

/-- What a scanner compares are the characters in front, as many as the delimiter has. -/
theorem startsWithDelimiter_iff : startsWithDelimiter delimiter cs = true ↔
    Spells (cs.take delimiter.length) delimiter ∧ delimiter.length ≤ cs.length := by
  induction delimiter generalizing cs with
  | nil => simp [startsWithDelimiter, Spells]
  | cons d delimiter ih =>
    cases cs with
    | nil => simp [startsWithDelimiter]
    | cons c cs =>
      simp only [startsWithDelimiter, Bool.and_eq_true, sameLetter_iff, ih, Spells, List.length_cons,
        List.take_succ_cons, List.forall₂_cons, Nat.add_le_add_iff_right, and_assoc]

theorem beginsWith_iff : BeginsWith delimiter cs ↔ startsWithDelimiter delimiter cs = true := by
  rw [startsWithDelimiter_iff]
  constructor
  · rintro ⟨text, rest, rfl, hspells⟩
    have hlength : text.length = delimiter.length := List.Forall₂.length_eq hspells
    rw [← hlength, List.take_left, List.length_append]
    exact ⟨hspells, Nat.le_add_right _ _⟩
  · rintro ⟨hspells, -⟩
    exact ⟨_, _, (List.take_append_drop _ _).symm, hspells⟩

/-- Nothing is cut if the delimiter stands nowhere. -/
theorem not_beginsWith_of_cutAt? (h : cutAt? delimiter cs = none) {i : Nat} (hi : i < cs.length) :
    ¬ BeginsWith delimiter (cs.drop i) := by
  induction cs generalizing i with
  | nil => exact absurd hi (Nat.not_lt_zero i)
  | cons c cs ih =>
    rw [cutAt?] at h
    split at h
    · cases h
    · next hstart =>
      cases i with
      | zero => rwa [List.drop_zero, beginsWith_iff]
      | succ i => exact ih (Option.map_eq_none_iff.mp h) (Nat.lt_of_succ_lt_succ hi)

/-- The cut is at the leftmost place where the delimiter stands. -/
theorem leftmost_of_cutAt? {before found : List Char} (h : cutAt? delimiter cs = some (before, found))
    {i : Nat} (hi : i < before.length) : ¬ BeginsWith delimiter (cs.drop i) := by
  induction cs generalizing before i with
  | nil => cases h
  | cons c cs ih =>
    rw [cutAt?] at h
    split at h
    · cases h
      exact absurd hi (Nat.not_lt_zero i)
    · next hstart =>
      obtain ⟨⟨inner, after⟩, hcut, hsame⟩ := Option.map_eq_some_iff.mp h
      obtain ⟨rfl, rfl⟩ := Prod.mk.inj hsame
      cases i with
      | zero => rwa [List.drop_zero, beginsWith_iff]
      | succ i => exact ih hcut (Nat.lt_of_succ_lt_succ hi)

namespace Scanner

variable {source passed : List Char} {s : Scanner} {mark : Place}

/-- What a reading does behind the front of a text that was taken before it, and the front that is taken
after it. The mark of the readings before it stays if nothing is found. -/
inductive Cuts (source passed delimiter : List Char) (mark : Place) : Reading → List Char → Prop
  | found (before text rest : List Char) (whole : source = passed ++ before ++ text ++ rest)
      (spells : Spells text delimiter)
      (leftmost : ∀ i < before.length, ¬ BeginsWith delimiter ((before ++ text ++ rest).drop i)) :
      Cuts source passed delimiter mark
        ⟨before, true, rest, .ofIndex source (passed ++ before ++ text).length,
          .ofIndex source (passed ++ before).length⟩
        (passed ++ before ++ text)
  | missed (before : List Char) (whole : source = passed ++ before)
      (nowhere : ∀ i < before.length, ¬ BeginsWith delimiter (before.drop i)) :
      Cuts source passed delimiter mark ⟨before, false, [], .ofIndex source source.length, mark⟩
        (passed ++ before)

/-- The place of a scanner is that of the index which it has come to. -/
theorem Behind.place_eq (hs : s.Behind passed) :
    s.place = Place.ofIndex (passed ++ s.rest) passed.length :=
  Eq.trans hs (Place.through_eq_ofIndex passed s.rest)

/-- A scanner that counts on over more of its text is behind that too. -/
theorem Behind.take {more rest : List Char} (hs : s.Behind passed) (hrest : s.rest = more ++ rest)
    (mark : Place) : Behind ⟨rest, s.place.through rest.head? more, mark⟩ (passed ++ more) := by
  rw [Behind, Place.through_append, hs, hrest, List.head?_append]

/-- A reading cuts at the leftmost place of its delimiter, and leaves the scanner behind what was taken. -/
theorem cuts_readTo (hs : s.Behind passed) (delimiter : List Char) :
    ∃ passed', Cuts (passed ++ s.rest) passed delimiter s.mark (s.readTo delimiter) passed' ∧
      (s.readTo delimiter).after.Behind passed' ∧
      passed' ++ (s.readTo delimiter).after.rest = passed ++ s.rest := by
  rw [readTo]
  split
  · next hcut =>
    have hend := hs.take (List.append_nil s.rest).symm s.mark
    have hplace := hend.place_eq
    simp only [List.head?_nil, List.append_nil] at hend hplace
    refine ⟨passed ++ s.rest, ?_, hend, List.append_nil _⟩
    rw [hplace]
    exact .missed s.rest rfl fun i hi => not_beginsWith_of_cutAt? hcut hi
  · next before found hcut =>
    have hrest : s.rest = before ++ found := (append_of_cutAt? hcut).symm
    have hstart := startsWithDelimiter_iff.mp (startsWithDelimiter_of_cutAt? hcut)
    -- what was found is the delimiter as the text has it, and the rest
    obtain ⟨text, rest, hfound, hspells, htake, hdrop⟩ : ∃ text rest, found = text ++ rest ∧
        Spells text delimiter ∧ found.take delimiter.length = text ∧
        found.drop delimiter.length = rest :=
      ⟨_, _, (List.take_append_drop _ _).symm, hstart.1, rfl, rfl⟩
    simp only [htake, hdrop]
    have hmark := hs.take hrest s.mark
    have hafter := hmark.take hfound (s.place.through found.head? before)
    have hwhole : passed ++ s.rest = passed ++ before ++ text ++ rest := by
      rw [hrest, hfound]
      simp only [List.append_assoc]
    refine ⟨passed ++ before ++ text, ?_, hafter, hwhole.symm⟩
    have hmarked := hmark.place_eq
    have hplace := hafter.place_eq
    simp only at hmarked hplace
    rw [hplace, hmarked, hwhole, hfound, ← List.append_assoc]
    refine .found before text rest rfl hspells fun i hi => ?_
    rw [List.append_assoc, ← hfound, ← hrest]
    exact leftmost_of_cutAt? hcut hi

/-- The readings for delimiters, each from where the one before it ended. -/
def readAll (s : Scanner) : List (List Char) → List Reading
  | [] => []
  | delimiter :: delimiters => s.readTo delimiter :: (s.readTo delimiter).after.readAll delimiters

/-- Readings that go on behind the front of a text, each from what the one before it has taken. -/
inductive Follows (source : List Char) : List Char → Place → List (List Char) → List Reading → Prop
  | done (passed : List Char) (mark : Place) : Follows source passed mark [] []
  | call {passed passed' delimiter : List Char} {mark : Place} {reading : Reading}
      {delimiters : List (List Char)} {readings : List Reading}
      (cuts : Cuts source passed delimiter mark reading passed')
      (others : Follows source passed' reading.after.mark delimiters readings) :
      Follows source passed mark (delimiter :: delimiters) (reading :: readings)

theorem follows_readAll (hs : s.Behind passed) (delimiters : List (List Char)) :
    Follows (passed ++ s.rest) passed s.mark delimiters (s.readAll delimiters) := by
  induction delimiters generalizing s passed with
  | nil => exact .done passed s.mark
  | cons delimiter delimiters ih =>
    obtain ⟨passed', hcuts, hafter, hwhole⟩ := cuts_readTo hs delimiter
    have hothers := ih hafter
    rw [hwhole] at hothers
    exact .call hcuts hothers

/-- A scanner loses nothing of its text and always knows the place it has come to. -/
theorem readings_exact (source : String) (delimiters : List (List Char)) :
    Follows source.toList [] {} delimiters ((ofText source).readAll delimiters) :=
  follows_readAll (behind_ofText source) delimiters

/-- Delimiters that part the two characters of a break, and that stand in the text in another case. -/
example : (ofText "a\r\nB\rcÉ").readAll ["\r".toList, "b".toList, "é".toList, "z".toList] =
    [⟨['a'], true, "\nB\rcÉ".toList, ⟨0, 2⟩, ⟨0, 1⟩⟩, ⟨['\n'], true, "\rcÉ".toList, ⟨1, 1⟩, ⟨1, 0⟩⟩,
      ⟨['\r', 'c'], true, [], ⟨2, 2⟩, ⟨2, 1⟩⟩, ⟨[], false, [], ⟨2, 2⟩, ⟨2, 1⟩⟩] := by
  decide +kernel

end Scanner

end Stencil
