import Stencil.Text.Letter

namespace Stencil

/-- A place in a text: the line breaks before it and the characters since the last of them. -/
structure Place where
  line : Nat := 0
  column : Nat := 0
deriving DecidableEq, Repr, Inhabited

namespace Place

/-- Whether a line ends with a character, given the one after it. A carriage return and the line feed
behind it are one break. -/
def breaksLine (c : Char) (next : Option Char) : Bool :=
  c == '\n' || (c == '\r' && next != some '\n')

def step (p : Place) (c : Char) (next : Option Char) : Place :=
  if breaksLine c next then ⟨p.line + 1, 0⟩ else ⟨p.line, p.column + 1⟩

def through (p : Place) (next : Option Char) : List Char → Place
  | [] => p
  | c :: cs => through (p.step c (cs.head?.or next)) next cs

end Place

/-- Whether characters start with a delimiter, without regard to case. -/
def startsWithDelimiter : List Char → List Char → Bool
  | [], _ => true
  | _ :: _, [] => false
  | d :: delimiter, c :: cs => Text.sameLetter c d && startsWithDelimiter delimiter cs

/-- Cuts characters at the first place that starts with a delimiter. There is none behind the last
character, not even for the empty delimiter. -/
def cutAt? (delimiter : List Char) : List Char → Option (List Char × List Char)
  | [] => none
  | c :: cs =>
    if startsWithDelimiter delimiter (c :: cs) then some ([], c :: cs)
    else (cutAt? delimiter cs).map fun (before, rest) => (c :: before, rest)

/-- A text that is partly read. -/
structure Scanner where
  rest : List Char
  place : Place := {}
  /-- Where the delimiter that was found last starts. -/
  mark : Place := {}
deriving DecidableEq, Repr

namespace Scanner

def ofText (s : String) : Scanner := ⟨s.toList, {}, {}⟩

def atEnd (s : Scanner) : Bool := s.rest.isEmpty

/-- What a delimiter cuts off: the characters before it, whether it was found, and the scanner
behind it, or at the end if it was not found. -/
structure Reading where
  before : List Char
  found : Bool
  after : Scanner
deriving DecidableEq, Repr

/-- Reads up to and through the next delimiter. -/
def readTo (s : Scanner) (delimiter : List Char) : Reading :=
  match cutAt? delimiter s.rest with
  | none => ⟨s.rest, false, ⟨[], s.place.through none s.rest, s.mark⟩⟩
  | some (before, at_) =>
    let mark := s.place.through at_.head? before
    let rest := at_.drop delimiter.length
    ⟨before, true, ⟨rest, mark.through rest.head? (at_.take delimiter.length), mark⟩⟩

end Scanner

theorem startsWithDelimiter_length {delimiter cs : List Char}
    (h : startsWithDelimiter delimiter cs = true) : delimiter.length ≤ cs.length := by
  induction delimiter generalizing cs with
  | nil => simp
  | cons d delimiter ih =>
    cases cs with
    | nil => simp [startsWithDelimiter] at h
    | cons c cs =>
      simp only [startsWithDelimiter, Bool.and_eq_true] at h
      have := ih h.2
      simp only [List.length_cons]
      omega

/-- A cut loses nothing. -/
theorem append_of_cutAt? {delimiter cs before rest : List Char}
    (h : cutAt? delimiter cs = some (before, rest)) : before ++ rest = cs := by
  induction cs generalizing before with
  | nil => simp [cutAt?] at h
  | cons c cs ih =>
    simp only [cutAt?] at h
    split at h
    · simp only [Option.some.injEq, Prod.mk.injEq] at h
      simp [← h.1, ← h.2]
    · obtain ⟨⟨inner, after⟩, found, same⟩ := Option.map_eq_some_iff.1 h
      simp only [Prod.mk.injEq] at same
      obtain ⟨rfl, rfl⟩ := same
      simp [ih found]

theorem startsWithDelimiter_of_cutAt? {delimiter cs before rest : List Char}
    (h : cutAt? delimiter cs = some (before, rest)) : startsWithDelimiter delimiter rest = true := by
  induction cs generalizing before with
  | nil => simp [cutAt?] at h
  | cons c cs ih =>
    simp only [cutAt?] at h
    split at h
    · next start =>
      simp only [Option.some.injEq, Prod.mk.injEq] at h
      rw [← h.2]
      exact start
    · obtain ⟨⟨inner, after⟩, found, same⟩ := Option.map_eq_some_iff.1 h
      simp only [Prod.mk.injEq] at same
      obtain ⟨-, rfl⟩ := same
      exact ih found

/-- A delimiter that is found makes the rest shorter by at least its length. -/
theorem Scanner.length_readTo {s : Scanner} {delimiter : List Char}
    (h : (s.readTo delimiter).found = true) :
    (s.readTo delimiter).after.rest.length + delimiter.length ≤ s.rest.length := by
  simp only [Scanner.readTo] at h ⊢
  split
  · next missing => simp [missing] at h
  · next before rest found =>
    have whole := append_of_cutAt? found
    have start := startsWithDelimiter_length (startsWithDelimiter_of_cutAt? found)
    rw [← whole]
    simp only [List.length_drop, List.length_append]
    omega

end Stencil
