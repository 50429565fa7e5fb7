import Stencil.Json.Number
import Stencil.Text

namespace Stencil.Json

inductive Token where
  | openObject | closeObject | openArray | closeArray | comma | colon
  | text (s : String)
  | value (v : Value)
deriving DecidableEq, Repr

/-- Whether a character may stand between tokens. -/
def isSpace (c : Char) : Bool := c == ' ' || c == '\t' || c == '\n' || c == '\r'

/-- The number in the four hexadecimal digits at the front of a text, and what follows them. -/
def codeUnit? (cs : List Char) : Option (Nat × List Char) :=
  let digits := cs.take 4
  if digits.length = 4 then (Text.number? 16 digits).map (·, cs.drop 4) else none

/-- The character that a backslash and `u` stand for, given what follows them. Characters that do not
fit into 16 bits take two escapes, and neither half may stand alone. -/
def unicodeEscape? (cs : List Char) : Option (Char × List Char) := do
  let (unit, rest) ← codeUnit? cs
  if 0xD800 ≤ unit ∧ unit < 0xDC00 then
    let (low, rest) ← codeUnit? (← Text.afterStart ['\\', 'u'] rest)
    if 0xDC00 ≤ low ∧ low < 0xE000 then
      return (Char.ofNat (0x10000 + (unit - 0xD800) * 0x400 + (low - 0xDC00)), rest)
    else none
  else if 0xDC00 ≤ unit ∧ unit < 0xE000 then none
  else return (Char.ofNat unit, rest)

/-- The character that an escape stands for, given what follows the backslash. -/
def escape? : List Char → Option (Char × List Char)
  | '"' :: rest => some ('"', rest)
  | '\\' :: rest => some ('\\', rest)
  | '/' :: rest => some ('/', rest)
  | 'b' :: rest => some ('\x08', rest)
  | 'f' :: rest => some ('\x0c', rest)
  | 'n' :: rest => some ('\n', rest)
  | 'r' :: rest => some ('\r', rest)
  | 't' :: rest => some ('\t', rest)
  | 'u' :: rest => unicodeEscape? rest
  | _ => none

/-- The characters up to the closing quote, and what follows it. Control characters must be escaped. -/
def quoted? (cs : List Char) : Option (List Char × List Char) :=
  match cs with
  | [] => none
  | '"' :: rest => some ([], rest)
  | '\\' :: rest =>
    match escape? rest with
    | none => none
    | some (c, after) =>
      if after.length < rest.length then
        (quoted? after).map fun (body, last) => (c :: body, last)
      else none
  | c :: rest =>
    if c.toNat < 0x20 then none else (quoted? rest).map fun (body, last) => (c :: body, last)
termination_by cs.length
decreasing_by all_goals simp only [List.length_cons]; omega

def literals : List (List Char × Value) :=
  [("true".toList, .flag true), ("false".toList, .flag false), ("null".toList, .empty)]

def Token.read? : List Char → Option (Token × List Char)
  | '\x7b' :: rest => some (.openObject, rest)
  | '\x7d' :: rest => some (.closeObject, rest)
  | '[' :: rest => some (.openArray, rest)
  | ']' :: rest => some (.closeArray, rest)
  | ',' :: rest => some (.comma, rest)
  | ':' :: rest => some (.colon, rest)
  | '"' :: rest => (quoted? rest).map fun (body, after) => (.text (String.ofList body), after)
  | cs =>
    match literals.findSome? fun (word, v) => (Text.afterStart word cs).map (v, ·) with
    | some (v, after) => some (.value v, after)
    | none => do
      let (numeral, after) ← Numeral.read? cs
      return (.value (← numeral.value?), after)

def Token.ofChars? (cs : List Char) : Option (List Token) :=
  match cs with
  | [] => some []
  | c :: rest =>
    if isSpace c then ofChars? rest
    else match Token.read? (c :: rest) with
      | none => none
      | some (token, after) =>
        if after.length < (c :: rest).length then (ofChars? after).map (token :: ·) else none
termination_by cs.length
decreasing_by all_goals simp_all

inductive Collection where
  | object | array
deriving DecidableEq, Repr

/-- What may come next. -/
inductive Expected where
  /-- The object that the document consists of. -/
  | document
  | value
  | valueOrEnd
  | key
  | keyOrEnd
  | colon
  | commaOrEnd
  | nothing
deriving DecidableEq, Repr

/-- A document as far as it was read, with a stack of the collections that are open. Of collections
among the values of its members only that they are well formed is kept. -/
structure Reading where
  opened : List Collection := []
  expected : Expected := .document
  /-- The last key of the outermost object. -/
  key : String := ""
  /-- The members of the outermost object, the last one first. -/
  members : List (String × Value) := []
deriving Repr

namespace Reading

/-- The number of collections that cannot lie within each other any more. -/
def depthLimit : Nat := 128

def finish (r : Reading) (v : Value) : Reading :=
  match r.opened with
  | [] => { r with expected := .nothing }
  | [_] => { r with expected := .commaOrEnd, members := (r.key, v) :: r.members }
  | _ => { r with expected := .commaOrEnd }

def takesValue (r : Reading) : Bool := r.expected = .value || r.expected = .valueOrEnd

def enter (r : Reading) (c : Collection) : Option Reading :=
  let first := r.expected = .document && c = .object
  if (first || r.takesValue) && r.opened.length + 1 < depthLimit then
    some { r with
      opened := c :: r.opened
      expected := if c = .object then .keyOrEnd else .valueOrEnd }
  else none

def leave (r : Reading) (c : Collection) : Option Reading :=
  let ifEmpty : Expected := if c = .object then .keyOrEnd else .valueOrEnd
  match r.opened with
  | innermost :: outer =>
    if innermost = c && (r.expected = .commaOrEnd || r.expected = ifEmpty) then
      some (finish { r with opened := outer } .textless)
    else none
  | [] => none

def step (r : Reading) : Token → Option Reading
  | .openObject => r.enter .object
  | .openArray => r.enter .array
  | .closeObject => r.leave .object
  | .closeArray => r.leave .array
  | .comma =>
    if r.expected = .commaOrEnd then
      some { r with expected := if r.opened.head? = some .object then .key else .value }
    else none
  | .colon => if r.expected = .colon then some { r with expected := .value } else none
  | .text s =>
    if r.expected = .key || r.expected = .keyOrEnd then
      some { r with expected := .colon, key := if r.opened.length = 1 then s else r.key }
    else if r.takesValue then some (r.finish (.text s))
    else none
  | .value v => if r.takesValue then some (r.finish v) else none

end Reading

/-- The members of the object that a text holds, in order. -/
def members? (text : String) : Option (List (String × Value)) := do
  let last ← (← Token.ofChars? text.toList).foldlM Reading.step {}
  if last.expected = .nothing then some last.members.reverse else none

end Stencil.Json
