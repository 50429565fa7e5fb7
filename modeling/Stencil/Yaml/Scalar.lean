import Stencil.Value
import Stencil.Yaml.Node

namespace Stencil.Yaml

def isNull (s : String) : Bool := ["null", "Null", "NULL", "~"].contains s

def flag? (s : String) : Option Bool :=
  if ["true", "True", "TRUE"].contains s then some true
  else if ["false", "False", "FALSE"].contains s then some false
  else none

def unsigned : List Char → List Char
  | '+' :: rest => rest
  | '-' :: rest => rest
  | cs => cs

/-- Whether a text looks like a number in decimal digits but, for the zero in front, is none. -/
def hasLeadingZero (cs : List Char) : Bool :=
  match unsigned cs with
  | '0' :: c :: rest => (c :: rest).all Text.isDecimal
  | _ => false

/-- The marks of numbers that are not decimal, and their bases. -/
def bases : List (List Char × Nat) := [(['0', 'x'], 16), (['0', 'o'], 8), (['0', 'b'], 2)]

/-- The natural number that a text without a sign spells: in decimal digits, or in those of the base
that its first two characters mark. -/
def natural? (cs : List Char) : Option Nat :=
  let based := bases.findSome? fun (mark, base) =>
    if cs.take 2 = mark then Text.number? base (cs.drop 2) else none
  based <|> if hasLeadingZero cs then none else Text.number? 10 cs

def integer? : List Char → Option Int
  | '-' :: cs => (natural? cs).map fun n => -(n : Int)
  | '+' :: cs => (natural? cs).map fun n => (n : Int)
  | cs => (natural? cs).map fun n => (n : Int)

/-- Whether a whole number has at most 64 bits, with a sign or without. -/
def isWord (n : Int) : Bool := -Int.pow 2 63 ≤ n && n < Int.pow 2 64

/-- Whether a whole number has at most 128 bits, with a sign or without. -/
def isDoubleWord (n : Int) : Bool := -Int.pow 2 127 ≤ n && n < Int.pow 2 128

/-- The exponent that ends a number, if there is one. -/
def exponent? (cs : List Char) : Option Int :=
  match cs with
  | [] => some 0
  | c :: rest =>
    if c = 'e' ∨ c = 'E' then
      let size := (Text.number? 10 (unsigned rest)).map fun (n : Nat) => (n : Int)
      if rest.head? = some '-' then size.map (- ·) else size
    else none

/-- The number that digits with a point or an exponent spell, without its sign. -/
def magnitude? (cs : List Char) : Option Binary64 := do
  let (whole, rest) := Text.spanDecimal cs
  let (fraction, rest) := match rest with
    | '.' :: rest => Text.spanDecimal rest
    | rest => ([], rest)
  let digits ← Text.number? 10 (whole ++ fraction)
  let exponent ← exponent? rest
  Binary64.ofDecimal digits (exponent - fraction.length)

def real? (cs : List Char) : Option Value :=
  (magnitude? (unsigned cs)).map (.real (cs.head? = some '-'))

def isNotFinite (s : String) : Bool :=
  [".inf", ".Inf", ".INF", "+.inf", "+.Inf", "+.INF", "-.inf", "-.Inf", "-.INF",
    ".nan", ".NaN", ".NAN"].contains s

def float? (s : String) : Option Value :=
  if isNotFinite s then some .textless else real? s.toList

/-- The value of a whole number. One that takes more than 64 bits cannot be handled. -/
def wordValue? (n : Int) : Option Value := if isWord n then some (.integer n) else none

/-- The value of a plain scalar without a tag. A number between 64 and 128 bits cannot be handled;
a longer one is a floating point number. -/
def plainValue? (s : String) : Option Value :=
  let asFloat : Value :=
    if hasLeadingZero s.toList then .text s else (float? s).getD (.text s)
  if s = "" || isNull s then some .empty
  else match flag? s with
    | some b => some (.flag b)
    | none => match integer? s.toList with
      | some n => if isDoubleWord n then wordValue? n else some asFloat
      | none => some asFloat

def formatTag (name : String) : Tag := octetsOf ("tag:yaml.org,2002:" ++ name).toList

/-- Whether a tag is one that a document makes up. Nothing is known of what it means. -/
def isLocalTag (t : Tag) : Bool :=
  t.head? == some '!'.toNat && (String.fromUTF8? ⟨(t.map UInt8.ofNat).toArray⟩).isSome

/-- The value of a text with a tag, if it has what the tag demands. -/
def taggedValue? (t : Tag) (s : String) : Option Value :=
  if isLocalTag t then none
  else if t = formatTag "bool" then (flag? s).map .flag
  else if t = formatTag "int" then (integer? s.toList).bind wordValue?
  else if t = formatTag "float" then float? s
  else if t = formatTag "null" then if isNull s then some .empty else none
  else some (.text s)

/-- The value of a scalar. A plain one without a tag is a null, a boolean, a number or else a text. -/
def scalarValue? (p : Properties) (plain : Bool) (text : String) : Option Value :=
  match p.tag with
  | some t => taggedValue? t text
  | none => if plain then plainValue? text else some (.text text)

end Stencil.Yaml
