namespace Stencil.Text

/-- White space: the characters with the Unicode property of that name. -/
def isBlank (c : Char) : Bool :=
  let n := c.toNat
  (9 ≤ n && n ≤ 13) || n == 0x20 || n == 0x85 || n == 0xA0 || n == 0x1680 ||
    (0x2000 ≤ n && n ≤ 0x200A) || n == 0x2028 || n == 0x2029 || n == 0x202F || n == 0x205F ||
    n == 0x3000

/-- Characters without the white space in front. -/
def dropBlank (cs : List Char) : List Char := cs.dropWhile isBlank

/-- Characters without the white space at the end. -/
def dropBlankEnd (cs : List Char) : List Char := (dropBlank cs.reverse).reverse

/-- Characters without the white space at either end. -/
def trimChars (cs : List Char) : List Char := dropBlankEnd (dropBlank cs)

def trim (s : String) : String := String.ofList (trimChars s.toList)

def trimEnd (s : String) : String := String.ofList (dropBlankEnd s.toList)

def isBlankText (s : String) : Bool := s.toList.all isBlank

/-- The value of a digit in a base up to sixteen. -/
def digit? (base : Nat) (c : Char) : Option Nat :=
  let value :=
    if '0' ≤ c ∧ c ≤ '9' then some (c.toNat - '0'.toNat)
    else if 'a' ≤ c ∧ c ≤ 'f' then some (c.toNat - 'a'.toNat + 10)
    else if 'A' ≤ c ∧ c ≤ 'F' then some (c.toNat - 'A'.toNat + 10)
    else none
  value.filter (· < base)

def isDecimal (c : Char) : Bool := '0' ≤ c && c ≤ '9'

/-- The number that digits continue. -/
def continueNumber? (base : Nat) : Nat → List Char → Option Nat
  | n, [] => some n
  | n, c :: rest => match digit? base c with
    | some d => continueNumber? base (n * base + d) rest
    | none => none

/-- The number that characters spell, if there is at least one and all are digits. -/
def number? (base : Nat) (cs : List Char) : Option Nat :=
  if cs.isEmpty then none else continueNumber? base 0 cs

def spanDecimal (cs : List Char) : List Char × List Char := cs.span isDecimal

/-- The parts between separators: one more part than there are separators. -/
def splitChars (separator : Char → Bool) : List Char → List (List Char)
  | [] => [[]]
  | c :: rest =>
    if separator c then [] :: splitChars separator rest
    else match splitChars separator rest with
      | [] => [[c]]
      | part :: parts => (c :: part) :: parts

def split (separator : Char → Bool) (s : String) : List String :=
  (splitChars separator s.toList).map String.ofList

/-- What stands before and after the first occurrence of a character. -/
def splitAtFirst (separator : Char) : List Char → Option (List Char × List Char)
  | [] => none
  | c :: rest =>
    if c = separator then some ([], rest)
    else (splitAtFirst separator rest).map fun (before, after) => (c :: before, after)

/-- What follows a given beginning, if the characters start with it. -/
def afterStart : List Char → List Char → Option (List Char)
  | [], cs => some cs
  | _ :: _, [] => none
  | p :: start, c :: rest => if p = c then afterStart start rest else none

/-- A line without the carriage return before its break. -/
def dropReturn (line : List Char) : List Char :=
  if line.getLast? = some '\r' then line.dropLast else line

/-- The lines of a text. A break ends a line, so no empty line follows the last one, and a carriage
return directly before a break belongs to it. -/
def lineChars (cs : List Char) : List (List Char) :=
  let parts := splitChars (· == '\n') cs
  let last := parts.getLast?.getD []
  parts.dropLast.map dropReturn ++ if last.isEmpty then [] else [last]

def lines (s : String) : List String := (lineChars s.toList).map String.ofList

theorem splitChars_ne_nil (separator : Char → Bool) (cs : List Char) :
    splitChars separator cs ≠ [] := by
  induction cs with
  | nil => simp [splitChars]
  | cons c rest ih =>
    simp only [splitChars]
    split
    · simp
    · split <;> simp

theorem eq_append_of_afterStart {start cs rest : List Char} (h : afterStart start cs = some rest) :
    cs = start ++ rest := by
  induction start generalizing cs with
  | nil => simpa [afterStart] using h
  | cons p start ih =>
    cases cs with
    | nil => simp [afterStart] at h
    | cons c cs =>
      simp only [afterStart] at h
      split at h
      · next heq => rw [heq, ih h]; rfl
      · simp at h

end Stencil.Text
