import Stencil.Yaml.Token

namespace Stencil.Yaml.Block

/-- What becomes of the line breaks at the end. -/
inductive Chomping where
  | strip | clip | keep
deriving DecidableEq, Repr

/-- What the first line of a block scalar says. -/
structure Header where
  chomping : Chomping := .clip
  /-- The indentation in addition to that of the surrounding collection. -/
  indent : Option Nat := none
deriving Repr

/-- The sign that says what becomes of the last line breaks. -/
def chomping? : Char → Option Chomping
  | '+' => some .keep
  | '-' => some .strip
  | _ => none

/-- The header with what one character adds to it. Neither part may be given twice, and the
indentation is not zero. -/
def Header.add (h : Header) (c : Char) : Option Header :=
  match chomping? c, Text.digit? 10 c with
  | some chomping, _ => if h.chomping = .clip then some { h with chomping } else none
  | none, some 0 => none
  | none, some n => if h.indent = none then some { h with indent := some n } else none
  | none, none => none

/-- The rest of a line, which may hold a comment only, with what follows its break. -/
def endOfLine? (cs : List Char) : Option (List Char) :=
  let rest := cs.dropWhile isBlank
  let rest := if rest.head? = some '#' then rest.dropWhile (!isBreak ·) else rest
  match rest with
  | [] => some []
  | c :: after => if isBreak c then some after else none

def header? (cs : List Char) : Option (Header × List Char) := do
  let signs := cs.takeWhile fun c => (chomping? c).isSome || Text.isDecimal c
  let header ← signs.foldlM Header.add {}
  return (header, ← endOfLine? (cs.drop signs.length))

/-- White space in front of the first line. -/
structure Lead where
  column : Nat := 0
  widest : Nat := 0
  /-- The line breaks, the last one first. -/
  breaks : List Char := []

/-- Passes over empty lines and the indentation of the line after them. No tab may stand there. -/
def lead (l : Lead) : List Char → Option (Lead × List Char)
  | ' ' :: rest =>
    lead { l with column := l.column + 1, widest := max l.widest (l.column + 1) } rest
  | '\t' :: _ => none
  | c :: rest =>
    if isBreak c then lead { l with column := 0, breaks := c :: l.breaks } rest
    else some (l, c :: rest)
  | [] => some (l, [])

/-- A block scalar as far as it was read. -/
structure Reading where
  /-- The text, the last character first. -/
  text : List Char := []
  /-- The break of the last line that holds something. -/
  lastBreak : List Char := []
  /-- The breaks of empty lines after it, the last one first. -/
  breaks : List Char := []
  /-- Whether the last line begins with a blank, and so is not folded. -/
  isSpaced : Bool := false

def Reading.beginLine (folded : Bool) (r : Reading) (c : Char) : Reading :=
  let spaced := isBlank c
  let border :=
    if folded && r.lastBreak == ['\n'] && !r.isSpaced && !spaced then
      if r.breaks.isEmpty then [' '] else []
    else r.lastBreak
  { text := c :: (r.breaks ++ border ++ r.text), isSpaced := spaced }

def Reading.finish (r : Reading) (chomping : Chomping) : String :=
  let ending := match chomping with
    | .strip => []
    | .clip => r.lastBreak
    | .keep => r.breaks ++ r.lastBreak
  String.ofList (ending ++ r.text).reverse

/-- Where a scalar is being read: in a line, or in front of one at a column. -/
inductive Where where
  | inLine
  | before (column : Nat)

/-- Reads lines that are indented by `indent`. -/
def lines (folded : Bool) (indent : Nat) (r : Reading) (place : Where) :
    List Char → Option (Reading × List Char)
  | [] => some (r, [])
  | c :: rest =>
    match place with
    | .inLine =>
      if isBreak c then lines folded indent { r with lastBreak := [c] } (.before 0) rest
      else lines folded indent { r with text := c :: r.text } .inLine rest
    | .before column =>
      if column < indent && c == ' ' then lines folded indent r (.before (column + 1)) rest
      else if column < indent && c == '\t' then none
      else if isBreak c then
        lines folded indent { r with breaks := c :: r.breaks } (.before 0) rest
      else if column = indent then lines folded indent (r.beginLine folded c) .inLine rest
      else some (r, c :: rest)

/-- The text of a block scalar, given what follows the sign that opens it, and what follows the
scalar. The surrounding collection is indented by one less than `outer`. -/
def read? (folded : Bool) (outer : Nat) (cs : List Char) : Option (String × List Char) := do
  let (header, rest) ← header? cs
  match header.indent with
  | some increment =>
    let indent := (outer - 1) + increment
    let (r, rest) ← lines folded indent {} (.before 0) rest
    return (r.finish header.chomping, rest)
  | none =>
    let (l, rest) ← lead {} rest
    let indent := max 1 (max outer l.widest)
    let (r, rest) ← lines folded indent { breaks := l.breaks } (.before l.column) rest
    return (r.finish header.chomping, rest)

end Stencil.Yaml.Block

namespace Stencil.Yaml.Directive

/-- The number of digits that a version number does not exceed. -/
def maxDigits : Nat := 9

def number? (cs : List Char) : Option (Nat × List Char) :=
  let (digits, rest) := Text.spanDecimal cs
  if digits.length ≤ maxDigits then (Text.number? 10 digits).map (·, rest) else none

def version? (cs : List Char) : Option (Token × List Char) := do
  let (major, rest) ← number? (cs.dropWhile isBlank)
  match rest with
  | '.' :: rest =>
    let (minor, rest) ← number? rest
    return (.version major minor, rest)
  | _ => none

/-- A handle that is to get a meaning, and what follows it. -/
def handleName? : List Char → Option (String × List Char)
  | '!' :: rest =>
    let word := rest.takeWhile isNameChar
    match rest.drop word.length with
    | '!' :: after => some (String.ofList ('!' :: word ++ ['!']), after)
    | after => if word.isEmpty then some ("!", after) else none
  | _ => none

/-- A handle and its meaning, and what follows them. -/
def handle? (cs : List Char) : Option (Token × List Char) := do
  let (name, rest) ← handleName? (cs.dropWhile isBlank)
  if rest.head?.any isBlank then
    let (meaning, rest) ← someOctets? true (rest.dropWhile isBlank)
    if endsWord rest then return (.handle name meaning, rest) else none
  else none

/-- The directive at the front of a text, given what follows its `%`, and what follows its line. -/
def read? (cs : List Char) : Option (Token × List Char) := do
  let name := cs.takeWhile isNameChar
  let rest := cs.drop name.length
  if !endsWord rest then none
  let (token, rest) ←
    if name = "YAML".toList then version? rest
    else if name = "TAG".toList then handle? rest
    else none
  return (token, ← Block.endOfLine? rest)

end Stencil.Yaml.Directive
