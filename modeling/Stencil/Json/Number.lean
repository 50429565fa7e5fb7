import Stencil.Text
import Stencil.Value

/-!
Numbers of JSON. Whole numbers of 64 bits are exact. All others become floating point numbers in two
steps, each of which rounds: the leading digits that fit into 64 bits are taken as a whole number, and
that is multiplied with or divided by a power of ten. A number that is too large for the result is
refused.
-/

namespace Stencil.Json

/-- What a whole number of 64 bits stays below. -/
def wordLimit : Nat := Nat.pow 2 64

/-- Takes digits as long as the number stays within 64 bits: the number, and how many digits it took. -/
def takeDigits : Nat × Nat → List Char → Nat × Nat
  | (value, taken), [] => (value, taken)
  | (value, taken), c :: rest =>
    let longer := value * 10 + (c.toNat - '0'.toNat)
    if longer < wordLimit then takeDigits (longer, taken + 1) rest else (value, taken)

/-- The largest power of ten that a number is multiplied with in one step. -/
def powerLimit : Nat := 308

def powerOfTen (exponent : Nat) : Option Binary64 := Binary64.ofRatio (Nat.pow 10 exponent) 1

/-- A floating point number times a power of ten. A very small power takes several divisions. -/
def scale (x : Binary64) (exponent : Int) : Option Binary64 :=
  if exponent.natAbs ≤ powerLimit then do
    let power ← powerOfTen exponent.natAbs
    if 0 ≤ exponent then x.times power else x.dividedBy power
  else if x.mantissa = 0 then some x
  else if 0 < exponent then none
  else do
    let smaller ← x.dividedBy (← powerOfTen powerLimit)
    scale smaller (exponent + powerLimit)
termination_by exponent.natAbs
decreasing_by simp only [powerLimit] at *; omega

/-- The parts of a number as written. -/
structure Numeral where
  negative : Bool
  whole : List Char
  fraction : List Char
  exponent : Option (Bool × List Char)

namespace Numeral

/-- What follows an `e`: the sign and the digits of an exponent. -/
def exponentPart? (cs : List Char) : Option ((Bool × List Char) × List Char) :=
  let (negative, unsigned) := match cs with
    | '+' :: rest => (false, rest)
    | '-' :: rest => (true, rest)
    | cs => (false, cs)
  let (digits, rest) := Text.spanDecimal unsigned
  if digits.isEmpty then none else some ((negative, digits), rest)

/-- The fraction after a point, if there is a point. A point without digits after it is refused. -/
def fractionPart? (cs : List Char) : Option (List Char × List Char) :=
  match cs with
  | '.' :: rest =>
    let (digits, rest) := Text.spanDecimal rest
    if digits.isEmpty then none else some (digits, rest)
  | cs => some ([], cs)

/-- The number at the front of a text, and what follows it. No zero stands in front of other digits. -/
def read? (cs : List Char) : Option (Numeral × List Char) := do
  let (negative, unsigned) := match cs with
    | '-' :: rest => (true, rest)
    | cs => (false, cs)
  let (whole, rest) := Text.spanDecimal unsigned
  if whole.isEmpty || (whole.head? == some '0' && 1 < whole.length) then none
  let (fraction, rest) ← fractionPart? rest
  match rest with
  | c :: after =>
    if c = 'e' ∨ c = 'E' then
      let (exponent, rest) ← exponentPart? after
      return (⟨negative, whole, fraction, some exponent⟩, rest)
    else return (⟨negative, whole, fraction, none⟩, rest)
  | [] => return (⟨negative, whole, fraction, none⟩, [])

/-- What an exponent stays below to count at all; one beyond that makes any number zero or too large. -/
def exponentLimit : Nat := Nat.pow 2 31

def real? (n : Numeral) : Option Binary64 :=
  let (wholeValue, wholeTaken) := takeDigits (0, 0) n.whole
  let (value, fractionTaken) := takeDigits (wholeValue, 0) n.fraction
  let shift : Int := (n.whole.length - wholeTaken : Nat) - (fractionTaken : Int)
  match n.exponent with
  | none => scaled value shift
  | some (negative, digits) =>
    let exponent := (Text.number? 10 digits).getD 0
    if exponent < exponentLimit then
      scaled value (if negative then shift - exponent else shift + exponent)
    else if value = 0 ∨ negative then some .zero
    else none
where
  scaled (value : Nat) (exponent : Int) : Option Binary64 := do
    scale (← Binary64.ofRatio value 1) exponent

def isWhole (n : Numeral) : Bool := n.fraction.isEmpty && n.exponent.isNone

/-- The value of a numeral. A negative zero is no whole number, as that has no sign. -/
def value? (n : Numeral) : Option Value :=
  let whole := (Text.number? 10 n.whole).getD 0
  if n.isWhole && !n.negative && whole < wordLimit then some (.integer whole)
  else if n.isWhole && n.negative && 0 < whole && whole ≤ Nat.pow 2 63 then some (.integer (-whole))
  else n.real?.map (.real n.negative)

end Numeral

end Stencil.Json
