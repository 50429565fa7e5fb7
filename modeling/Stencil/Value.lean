/-!
Floating point numbers of 64 bits, without their sign. A number is a mantissa of at most 53 bits times
a power of two; rounding takes the nearest such number and, of two equally near ones, the one with the
even mantissa. All arithmetic is on natural numbers, so it is exact until it is rounded.
-/

namespace Stencil

/-- The number `mantissa · 2 ^ exponent · 2 ^ -1074`. The mantissa has 53 bits unless the exponent
is zero. -/
structure Binary64 where
  mantissa : Nat
  exponent : Nat
deriving DecidableEq, Repr

namespace Binary64

/-- The number of bits of a full mantissa. -/
def precision : Nat := 53

/-- The number of places after the binary point of the smallest number. -/
def places : Nat := 1074

/-- The largest exponent of a finite number. -/
def maxExponent : Nat := 2045

def zero : Binary64 := ⟨0, 0⟩

/-- The number as a multiple of the smallest one, `2 ^ -1074`. -/
def units (x : Binary64) : Nat := x.mantissa * Nat.pow 2 x.exponent

/-- The quotient rounded to the nearest number, and to the even one of the two nearest. -/
def roundedQuotient (numerator denominator : Nat) : Nat :=
  let quotient := numerator / denominator
  let remainder := numerator % denominator
  if denominator < 2 * remainder ∨ (2 * remainder = denominator ∧ quotient % 2 = 1) then
    quotient + 1
  else quotient

/-- The number nearest to a fraction of units. There is none if that is beyond the largest. -/
def ofUnits (numerator denominator : Nat) : Option Binary64 :=
  let exponent := (numerator / denominator).log2 + 1 - precision
  let mantissa := roundedQuotient numerator (denominator * Nat.pow 2 exponent)
  let rounded : Binary64 :=
    if mantissa = Nat.pow 2 precision then ⟨Nat.pow 2 (precision - 1), exponent + 1⟩
    else ⟨mantissa, exponent⟩
  if rounded.exponent ≤ maxExponent then some rounded else none

def ofRatio (numerator denominator : Nat) : Option Binary64 :=
  ofUnits (numerator * Nat.pow 2 places) denominator

def times (x y : Binary64) : Option Binary64 := ofUnits (x.units * y.units) (Nat.pow 2 places)

def dividedBy (x y : Binary64) : Option Binary64 := ofRatio x.units y.units

/-- The number nearest to `digits · 10 ^ exponent`. Exponents far outside the range are decided by
the place of the first digit alone. -/
def ofDecimal (digits : Nat) (exponent : Int) : Option Binary64 :=
  -- three bits hold less than a digit, so this is no less than the place of the first digit
  let first : Int := exponent + digits.log2 / 3
  if digits = 0 then some zero
  else if 400 < exponent then none
  else if first < -400 then some zero
  else if exponent < 0 then ofRatio digits (Nat.pow 10 exponent.natAbs)
  else ofRatio (digits * Nat.pow 10 exponent.natAbs) 1

end Binary64

/-- The number `digits · 10 ^ exponent`. -/
structure Decimal where
  digits : Nat
  exponent : Int
deriving DecidableEq, Repr

namespace Decimal

/-- The number of digits of a number. -/
def width (n : Nat) : Nat := (Nat.toDigits 10 n).length

def trimZeros (digits : Nat) (exponent : Int) : Decimal :=
  let text := Nat.toDigits 10 digits
  let zeros := (text.reverse.takeWhile (· = '0')).length
  ⟨digits / Nat.pow 10 zeros, exponent + zeros⟩

end Decimal

namespace Binary64

/-- The number of decimal places at which the decimals of all floating point numbers are whole. -/
def decimalPlaces : Nat := 400

/-- The size of one decimal unit, `10 ^ -400`, in comparisons. -/
def grain : Nat := 4 * Nat.pow 2 places

/-- The size of a number in comparisons, which are of natural numbers: everything is counted in quarters
of the smallest number, times a power of ten that makes each decimal whole. -/
def size (x : Binary64) : Nat := 4 * x.units * Nat.pow 10 decimalPlaces

def halfGapAbove (x : Binary64) : Nat := 2 * Nat.pow 2 x.exponent * Nat.pow 10 decimalPlaces

/-- Half of the distance to the next number below, which is smaller below a power of two. -/
def halfGapBelow (x : Binary64) : Nat :=
  if x.mantissa = Nat.pow 2 (precision - 1) ∧ 0 < x.exponent then x.halfGapAbove / 2
  else x.halfGapAbove

/-- Whether a decimal, given by its size, reads back as the number: it lies in the interval that is
rounded to the number, whose ends belong to it exactly if the mantissa is even. -/
def isReadFrom (x : Binary64) (size : Nat) : Bool :=
  let low := x.size - x.halfGapBelow
  let high := x.size + x.halfGapAbove
  if x.mantissa % 2 = 0 then low ≤ size && size ≤ high else low < size && size < high

def distance (a b : Nat) : Nat := (a - b) + (b - a)

/-- The decimal nearest to the number among its two neighbours with a given last place, if one of them
reads back. Of two equally near ones it is the even one. -/
def neighbour? (x : Binary64) (place : Nat) : Option Nat :=
  let step := grain * Nat.pow 10 place
  let below := x.size / step
  let above := below + 1
  let nearBelow := distance x.size (below * step)
  let nearAbove := distance x.size (above * step)
  match x.isReadFrom (below * step), x.isReadFrom (above * step) with
  | true, true =>
    some (if nearBelow < nearAbove ∨ (nearBelow = nearAbove ∧ below % 2 = 0) then below else above)
  | true, false => some below
  | false, true => some above
  | false, false => none

/-- The largest number of digits that is ever needed. -/
def maxDigits : Nat := 17

/-- The shortest decimal that reads back as the number; of several, the one nearest to it. -/
def shortest (x : Binary64) : Decimal :=
  let top := Decimal.width (x.size / grain)
  let candidates := (List.range maxDigits).filterMap fun n =>
    let place := top - (n + 1)
    (x.neighbour? place).map fun digits =>
      Decimal.trimZeros digits ((place : Int) - decimalPlaces)
  candidates.head?.getD ⟨0, 0⟩

/-- The exponents of the first digit with which a number is written without an exponent. -/
def isPositional (exponent : Int) : Bool := -5 ≤ exponent && exponent < 16

/-- A decimal as text: positional with at least one digit after the point, or with an exponent that
always has a sign. -/
def decimalText (d : Decimal) : String :=
  let digits := Nat.toDigits 10 d.digits
  let exponent : Int := d.exponent + digits.length - 1
  let zeros (n : Nat) := List.replicate n '0'
  if isPositional exponent then
    if exponent < 0 then String.ofList (['0', '.'] ++ zeros (exponent.natAbs - 1) ++ digits)
    else
      let whole := exponent.natAbs + 1
      let fraction := digits.drop whole
      String.ofList (digits.take whole ++ zeros (whole - digits.length) ++ ['.'] ++
        if fraction.isEmpty then ['0'] else fraction)
  else
    let fraction := digits.drop 1
    String.ofList (digits.take 1 ++ (if fraction.isEmpty then [] else '.' :: fraction) ++ ['e'] ++
      [if exponent < 0 then '-' else '+'] ++ Nat.toDigits 10 exponent.natAbs)

/-- The text of a number that may be negative. Zero has a sign too. -/
def text (negative : Bool) (x : Binary64) : String :=
  (if negative then "-" else "") ++ if x.mantissa = 0 then "0.0" else decimalText x.shortest

end Binary64

/-- A value in a document. -/
inductive Value where
  | text (s : String)
  | flag (b : Bool)
  | integer (n : Int)
  | real (negative : Bool) (magnitude : Binary64)
  | empty
  /-- A collection, or a number that is not finite: nothing that a variable could have as value. -/
  | textless
deriving DecidableEq, Repr

/-- The value as the text of a variable, if it can be one. -/
def Value.text? : Value → Option String
  | .text s => some s
  | .flag b => some (if b then "true" else "false")
  | .integer n => some (toString n)
  | .real negative magnitude => some (magnitude.text negative)
  | .empty => some ""
  | .textless => none

/-- Values under names. No name stands twice in what the operations below make. -/
abbrev Dictionary (α : Type) := List (String × α)

namespace Dictionary

variable {α : Type}

/-- Gives a name a value, in the place of an earlier one if there is one. -/
def put (entries : Dictionary α) (name : String) (value : α) : Dictionary α :=
  match entries with
  | [] => [(name, value)]
  | (other, old) :: rest =>
    if other = name then (name, value) :: rest else (other, old) :: put rest name value

def putAll (entries : Dictionary α) (pairs : List (String × α)) : Dictionary α :=
  pairs.foldl (fun entries (name, value) => put entries name value) entries

def ofPairs (pairs : List (String × α)) : Dictionary α := putAll [] pairs

end Dictionary

end Stencil
