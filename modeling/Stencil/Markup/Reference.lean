import Stencil.Markup.Fault
import Stencil.Text

namespace Stencil.Markup

/-- The number of bytes that characters take. -/
def byteLength (cs : List Char) : Nat := cs.foldr (·.utf8Size + ·) 0

/-- How a character is written where it might be taken for markup. -/
def escapeChar : Char → List Char
  | '<' => "&lt;".toList
  | '>' => "&gt;".toList
  | '&' => "&amp;".toList
  | '\'' => "&apos;".toList
  | '"' => "&quot;".toList
  | c => [c]

/-- A text as it is written in content and in attribute values. -/
def escape (s : String) : String := String.ofList (s.toList.flatMap escapeChar)

def entity? : List Char → Option Char
  | ['l', 't'] => some '<'
  | ['g', 't'] => some '>'
  | ['a', 'm', 'p'] => some '&'
  | ['a', 'p', 'o', 's'] => some '\''
  | ['q', 'u', 'o', 't'] => some '"'
  | _ => none

/-- Reads digits from the front, at most up to a value of 32 bits. The first digit that is none, or
that makes the number too large, is the fault. -/
def readCode (base value : Nat) : List Char → Except ReferenceFault Nat
  | [] => .ok value
  | c :: rest => match Text.digit? base c with
    | none => .error .badDigit
    | some d =>
      if value * base + d < Nat.pow 2 32 then readCode base (value * base + d) rest
      else .error .tooLarge

def codeOf (base : Nat) (digits : List Char) : Except ReferenceFault Nat :=
  match digits with
  | [] => .error .noDigits
  | c :: _ => if c = '+' ∨ c = '-' then .error .signedNumber else readCode base 0 digits

def charOfCode (code : Nat) : Except ReferenceFault Char :=
  if code = 0 then .error .nul
  else if code.isValidChar then .ok (Char.ofNat code)
  else .error (.noCharacter code)

/-- The character that `#…` stands for, in decimal digits or in hexadecimal ones after an `x`. -/
def charOfReference (text : List Char) : Except ReferenceFault Char := do
  let code ← match text with
    | 'x' :: digits => codeOf 16 digits
    | digits => codeOf 10 digits
  charOfCode code

/-- The character that stands between `&` and `;`, at a byte offset of its text. -/
def resolve (offset : Nat) (body : List Char) : Except ReferenceFault Char :=
  match body with
  | '#' :: number => charOfReference number
  | name => match entity? name with
    | some c => .ok c
    | none => .error (.unknownEntity offset (offset + byteLength name) (String.ofList name))

/-- Characters up to the next `;`, as long as no `&` comes first, and what follows it. -/
def referenceBody : List Char → Option (List Char × List Char)
  | [] => none
  | c :: rest =>
    if c = ';' then some ([], rest)
    else if c = '&' then none
    else (referenceBody rest).map fun (body, after) => (c :: body, after)

theorem length_referenceBody {cs body rest : List Char} (h : referenceBody cs = some (body, rest)) :
    rest.length < cs.length := by
  induction cs generalizing body with
  | nil => simp [referenceBody] at h
  | cons c cs ih =>
    simp only [referenceBody] at h
    split at h
    · simp_all
    · split at h
      · simp at h
      · obtain ⟨⟨inner, after⟩, found, same⟩ := Option.map_eq_some_iff.1 h
        have : after = rest := by simpa using congrArg Prod.snd same
        have := ih (this ▸ found)
        simp only [List.length_cons]
        omega

/-- Replaces references by their characters. `offset` is the number of bytes before the characters
and `total` that of the whole text. -/
def unescapeFrom (total offset : Nat) (cs : List Char) : Except ReferenceFault (List Char) :=
  match cs with
  | [] => .ok []
  | c :: rest =>
    if c = '&' then
      match h : referenceBody rest with
      | none => .error (.unterminated offset total)
      | some (body, after) => do
        have : after.length < rest.length := length_referenceBody h
        let decoded ← resolve (offset + 1) body
        let others ← unescapeFrom total (offset + 2 + byteLength body) after
        return decoded :: others
    else do
      let others ← unescapeFrom total (offset + c.utf8Size) rest
      return c :: others
termination_by cs.length

def unescape (cs : List Char) : Except ReferenceFault String :=
  (unescapeFrom (byteLength cs) 0 cs).map String.ofList

end Stencil.Markup
