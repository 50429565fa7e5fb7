import Stencil.Proofs.Markup.Site
import Stencil.Proofs.Scanner.Passage

namespace Stencil

variable {source : String} {before cs : List Char} {s : Scanner}

/-- The position of a place in a text that starts at the first column of the first line. -/
def Place.position (p : Place) : Position := Position.start.offset p.line p.column

theorem Place.position_eq (p : Place) : p.position = ⟨p.line + 1, p.column + 1⟩ := by
  rw [position, Position.offset, Position.start, Nat.add_comm 1 p.line, Nat.add_comm 1 p.column]
  split
  · next h => rw [h]
  · rfl

/-- Of the breaks in front of an index each is a line feed or a lone carriage return. -/
theorem length_breakEnds {n : Nat} (hn : n ≤ cs.length) : (breakEnds cs n).length =
    (cs.take n).count '\n' + ((List.range n).filter (loneReturn cs)).length := by
  induction n with
  | zero => rfl
  | succ n ih =>
    have hfront := ih (by omega)
    obtain ⟨c, hc⟩ : ∃ c, cs[n]? = some c := ⟨_, List.getElem?_eq_getElem (by omega)⟩
    -- no character is both a line feed and a carriage return
    have hapart : c = '\n' → loneReturn cs n = false := by
      rintro rfl
      rw [loneReturn, hc]
      rfl
    rw [breakEnds_succ, List.take_add_one, List.range_succ, List.filter_append, List.length_append,
      List.length_append, List.count_append, hfront, hc, Option.toList_some, List.filter_singleton,
      endsBreak_eq hc, List.count_singleton]
    by_cases hfeed : c = '\n'
    · rw [hapart hfeed, hfeed]
      simp only [beq_self_eq_true, Bool.true_or, if_true, List.length_singleton]
      exact Nat.add_right_comm _ _ 1
    · rw [beq_false_of_ne hfeed]
      cases loneReturn cs n <;> rfl

/-- One more character moves a position to the next column, or to the next line if it is a line feed. -/
theorem Markup.positionAfter_concat (cs : List Char) (c : Char) :
    Markup.positionAfter (cs ++ [c]) = if c = '\n' then ⟨(Markup.positionAfter cs).line + 1, 1⟩
      else ⟨(Markup.positionAfter cs).line, (Markup.positionAfter cs).column + 1⟩ := by
  rw [Markup.positionAfter, Markup.positionAfter, List.count_append, List.reverse_append,
    List.reverse_singleton, List.singleton_append, List.takeWhile_cons, List.count_singleton]
  by_cases hfeed : c = '\n'
  · subst hfeed
    rfl
  · rw [if_neg hfeed, beq_false_of_ne hfeed, bne_iff_ne.mpr hfeed]
    rfl

/-- Where no carriage return stands alone, the position of an index is told by the line feeds. -/
theorem position_ofIndex {rest : List Char}
    (h : ∀ i < before.length, loneReturn (before ++ rest) i = false) :
    (Place.ofIndex (before ++ rest) before.length).position = Markup.positionAfter before := by
  induction before using List.reverseRecOn generalizing rest with
  | nil => rfl
  | append_singleton before c ih =>
    rw [List.append_assoc, List.singleton_append, List.length_append, List.length_singleton] at *
    have hlast : (before ++ c :: rest)[before.length]? = some c := by simp
    have hfront := ih fun i hi => h i (by omega)
    have hlone := h before.length (by omega)
    have hbreaks : Place.breaksLine c (before ++ c :: rest)[before.length + 1]? = (c == '\n') := by
      rw [Place.breaksLine_eq hlast, endsBreak_eq hlast, hlone, Bool.or_false]
    rw [Place.position_eq] at hfront ⊢
    rw [Place.ofIndex_succ hlast, Place.step, hbreaks, Markup.positionAfter_concat, ← hfront]
    by_cases hfeed : c = '\n'
    · rw [if_pos hfeed, if_pos (beq_iff_eq.mpr hfeed)]
    · rw [if_neg hfeed, beq_false_of_ne hfeed, if_neg Bool.false_ne_true]

namespace Scanner

/-- A scanner that has read a text, by some delimiters, exactly up to the end of a front of it. -/
def HasRead (source : String) (before : List Char) (s : Scanner) : Prop :=
  before ++ s.rest = source.toList ∧
    ∃ delimiters : List (List Char), s = delimiters.foldl (fun s d => (s.readTo d).after) (ofText source)

theorem behind_foldl {passed : List Char} (hs : s.Behind passed) (delimiters : List (List Char)) :
    ∃ passed', (delimiters.foldl (fun s d => (s.readTo d).after) s).Behind passed' ∧
      passed' ++ (delimiters.foldl (fun s d => (s.readTo d).after) s).rest = passed ++ s.rest := by
  induction delimiters generalizing s passed with
  | nil => exact ⟨passed, hs, rfl⟩
  | cons d delimiters ih =>
    obtain ⟨passed', -, hafter, hwhole⟩ := cuts_readTo hs d
    obtain ⟨passed'', hlast, hrest⟩ := ih hafter
    exact ⟨passed'', hlast, hrest.trans hwhole⟩

theorem HasRead.place_eq (h : HasRead source before s) :
    s.place = Place.ofIndex source.toList before.length := by
  obtain ⟨hwhole, delimiters, hs⟩ := h
  obtain ⟨passed, hbehind, hrest⟩ := behind_foldl (behind_ofText source) delimiters
  rw [← hs] at hbehind hrest
  obtain rfl : passed = before := List.append_cancel_right (hrest.trans hwhole.symm)
  rw [hbehind.place_eq, hwhole]

/-- Every front of a text can be read: it is found at once if it is the delimiter. -/
theorem exists_hasRead (h : before <+: source.toList) : ∃ s, HasRead source before s := by
  obtain ⟨rest, hwhole⟩ := h
  cases hbefore : before with
  | nil =>
    exact ⟨ofText source, rfl, [], rfl⟩
  | cons c more =>
    have hstart : startsWithDelimiter before (before ++ rest) = true := by
      rw [startsWithDelimiter_iff, List.take_left]
      exact ⟨List.forall₂_same.mpr fun _ _ => rfl, List.prefix_append before rest |>.length_le⟩
    have hcut : cutAt? before (ofText source).rest = some ([], before ++ rest) := by
      rw [hbefore] at hstart hwhole ⊢
      rw [ofText, ← hwhole]
      exact if_pos hstart
    have hrest : ((ofText source).readTo before).after.rest = rest := by
      rw [readTo, hcut]
      exact List.drop_left
    refine ⟨((ofText source).readTo before).after, ?_, [before], rfl⟩
    rw [hrest, ← hbefore, hwhole]

/-- At a boundary of a text, a scanner that has read up to it and the count of line feeds tell the same
position exactly if no carriage return stands alone in front of it. -/
theorem positions_agree_iff {offset : Nat} (h : Markup.takeBytes? source.toList offset = some before) :
    (∃ s, HasRead source before s) ∧ ∀ s, HasRead source before s →
      (Position.start.offset s.place.line s.place.column = Markup.positionAfter before ↔
        ∀ i < before.length, loneReturn source.toList i = false) := by
  have hfront : before <+: source.toList := (Markup.takeBytes?_eq_some_iff.mp h).1
  refine ⟨exists_hasRead hfront, fun s hs => ?_⟩
  obtain ⟨rest, hwhole⟩ := hfront
  rw [hs.place_eq, ← hwhole]
  constructor
  · intro hagree i hi
    -- as many breaks as line feeds: none of the breaks is a carriage return
    have hposition : (Place.ofIndex (before ++ rest) before.length).position =
        Markup.positionAfter before := hagree
    have hlines := congrArg Position.line hposition
    have hbreaks := @length_breakEnds (before ++ rest) before.length (by simp)
    rw [Place.position_eq] at hlines
    rw [List.take_left] at hbreaks
    have hnone : ((List.range before.length).filter (loneReturn (before ++ rest))).length = 0 := by
      have hsame : (breakEnds (before ++ rest) before.length).length + 1 = before.count '\n' + 1 := hlines
      omega
    have hfree := List.filter_eq_nil_iff.mp (List.length_eq_zero_iff.mp hnone)
    exact Bool.eq_false_iff.mpr (hfree i (List.mem_range.mpr hi))
  · exact position_ofIndex

/-- Line feeds, alone and behind carriage returns, and a boundary between the two. -/
theorem positions_agree_between :
    let source := "é\r\nb\n\r\n"
    let before := "é\r\nb\n\r".toList
    Markup.takeBytes? source.toList 7 = some before ∧ ∃ s, HasRead source before s ∧
      s.place = ⟨2, 1⟩ ∧ Position.start.offset s.place.line s.place.column = Markup.positionAfter before := by
  intro source before
  have hboundary : Markup.takeBytes? source.toList 7 = some before := by decide
  have hread : HasRead source before
      (["\r".toList, "\n\r".toList].foldl (fun s d => (s.readTo d).after) (ofText source)) :=
    ⟨by decide, _, rfl⟩
  exact ⟨hboundary, _, hread, by decide, ((positions_agree_iff hboundary).2 _ hread).mpr (by decide)⟩

/-- A carriage return in front of an element: the place of the element is told on the first line, and a
scanner that has read up to it is on the second. -/
theorem positions_part_behind_return :
    Markup.takeBytes? "\r<T/>".toList 1 = some ['\r'] ∧
      (∃ s, HasRead "\r<T/>" ['\r'] s ∧ Position.start.offset s.place.line s.place.column = ⟨2, 1⟩) ∧
      Markup.positionAfter ['\r'] = ⟨1, 2⟩ ∧
      (Markup.Element.ofText "\r<T/>").toOption.map (·.position) = some ⟨1, 2⟩ := by
  refine ⟨by decide, ⟨_, ⟨?_, ["\r".toList], rfl⟩, ?_⟩, by decide, by decide +kernel⟩
  · decide
  · decide

end Scanner

end Stencil
