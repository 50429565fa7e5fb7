import Mathlib.Data.List.TakeWhile
import Stencil.Diagnostic
import Stencil.Scanner

namespace Stencil

/-- Whether a character ends a line, alone or together with the next one. -/
def isBreak (c : Char) : Bool := c == '\n' || c == '\r'

/-- The line breaks of a text: its line feeds, and its carriage returns that no line feed follows. -/
def lineBreaks : List Char → Nat
  | [] => 0
  | c :: cs =>
    (if c = '\n' ∨ (c = '\r' ∧ cs.head? ≠ some '\n') then 1 else 0) + lineBreaks cs

/-- The length of the last line of a text. -/
def lastLine (cs : List Char) : Nat := (cs.reverse.takeWhile fun c => !isBreak c).length

/-- The position behind a text, counted from one. -/
def positionBehind (cs : List Char) : Position := ⟨lineBreaks cs + 1, lastLine cs + 1⟩

theorem lastLine_of_free {cs : List Char} (h : cs.any isBreak = false) : lastLine cs = cs.length := by
  have hfree : ∀ c ∈ cs.reverse, (!isBreak c) = true := by
    intro c hc
    simpa using List.any_eq_false.mp h c (List.mem_reverse.mp hc)
  rw [lastLine, List.takeWhile_eq_self_iff.mpr hfree, List.length_reverse]

theorem lastLine_cons (c : Char) (cs : List Char) :
    lastLine (c :: cs) =
      if cs.any isBreak then lastLine cs else if isBreak c then cs.length else cs.length + 1 := by
  cases h : cs.any isBreak with
  | true =>
    have hshort : (cs.reverse.takeWhile fun c => !isBreak c).length ≠ cs.reverse.length := by
      intro hlen
      obtain ⟨x, hx, hbreak⟩ := List.any_eq_true.mp h
      have hall := (List.takeWhile_prefix (fun c => !isBreak c)).eq_of_length hlen
      have := List.takeWhile_eq_self_iff.mp hall x (List.mem_reverse.mpr hx)
      simp [hbreak] at this
    rw [lastLine, List.reverse_cons, List.takeWhile_append, if_neg hshort]
    rfl
  | false =>
    have hfree := lastLine_of_free h
    rw [lastLine] at hfree
    rw [lastLine, List.reverse_cons, List.takeWhile_append,
      if_pos (by rw [hfree, List.length_reverse])]
    cases hc : isBreak c <;> simp [hc]

namespace Place

theorem through_append (p : Place) (next : Option Char) (a b : List Char) :
    p.through next (a ++ b) = (p.through (b.head?.or next) a).through next b := by
  induction a generalizing p with
  | nil => rfl
  | cons c a ih =>
    simp only [List.cons_append, through, ih]
    cases a <;> rfl

theorem line_through {next : Option Char} (hn : next ≠ some '\n') (p : Place) (cs : List Char) :
    (p.through next cs).line = p.line + lineBreaks cs := by
  induction cs generalizing p with
  | nil => rfl
  | cons c cs ih =>
    -- a carriage return looks at the next character, which is behind the text for the last one
    have hbreak : breaksLine c (cs.head?.or next) = true ↔
        c = '\n' ∨ (c = '\r' ∧ cs.head? ≠ some '\n') := by
      cases cs <;> simp [breaksLine, hn]
    rw [through, ih, lineBreaks, step]
    by_cases h : c = '\n' ∨ (c = '\r' ∧ cs.head? ≠ some '\n')
    · rw [if_pos (hbreak.mpr h), if_pos h]
      exact Nat.add_assoc _ _ _
    · rw [if_neg fun hb => h (hbreak.mp hb), if_neg h, Nat.zero_add]

theorem column_through {next : Option Char} (hn : next ≠ some '\n') (p : Place) (cs : List Char) :
    (p.through next cs).column = if cs.any isBreak then lastLine cs else p.column + cs.length := by
  induction cs generalizing p with
  | nil => rfl
  | cons c cs ih =>
    rw [through, ih, lastLine_cons, List.any_cons]
    cases hcs : cs.any isBreak with
    | true => simp
    | false =>
      -- no feed follows, so a carriage return here is a break of its own
      have hhead : cs.head?.or next ≠ some '\n' := by
        cases cs with
        | nil => simpa using hn
        | cons x cs =>
          simp only [List.any_cons, Bool.or_eq_false_iff, isBreak] at hcs
          simpa using (beq_eq_false_iff_ne.mp hcs.1.1)
      have hbreak : breaksLine c (cs.head?.or next) = isBreak c := by
        rw [breaksLine, isBreak, bne_iff_ne.mpr hhead, Bool.and_true]
      rw [step, hbreak]
      cases isBreak c with
      | true => simp
      | false =>
        simp only [Bool.false_eq_true, if_false, Bool.or_self, List.length_cons]
        omega

/-- The place behind a text that no line feed follows. -/
theorem through_start {next : Option Char} (hn : next ≠ some '\n') (cs : List Char) :
    ({} : Place).through next cs = ⟨lineBreaks cs, lastLine cs⟩ := by
  have hline := line_through hn {} cs
  have hcolumn := column_through hn {} cs
  cases h : ({} : Place).through next cs with
  | mk line column =>
    rw [h] at hline hcolumn
    have hl : line = lineBreaks cs := by simpa using hline
    have hc : column = lastLine cs := by
      cases hb : cs.any isBreak with
      | true => simpa [hb] using hcolumn
      | false => simpa [hb, lastLine_of_free hb] using hcolumn
    rw [hl, hc]

end Place

theorem offset_start (cs : List Char) :
    Position.start.offset (lineBreaks cs) (lastLine cs) = positionBehind cs := by
  simp only [Position.offset, Position.start, positionBehind]
  split
  · next h => rw [h, Nat.add_comm]
  · rw [Nat.add_comm]

end Stencil
