import Stencil.Markup.Reference

namespace Stencil.Markup

/-- The four characters that separate the parts of a tag. -/
def isSpace (c : Char) : Bool := c = ' ' || c = '\t' || c = '\n' || c = '\r'

def endsKey (c : Char) : Bool := c = '=' || isSpace c

/-- A key with its byte position, and the text after its equals sign with that text's position. -/
structure KeyCut where
  key : List Char
  start : Nat
  valueStart : Nat
  rest : List Char

/-- Takes the next key and its equals sign off a tag's text that starts with `first :: rest`. The
first character belongs to the key whatever it is. -/
def cutKey (position : Nat) (first : Char) (rest : List Char) : Except AttributeFault KeyCut :=
  let key := first :: rest.takeWhile (!endsKey ·)
  let blanks := (rest.dropWhile (!endsKey ·)).takeWhile isSpace
  let place := position + byteLength key + byteLength blanks
  match (rest.dropWhile (!endsKey ·)).dropWhile isSpace with
  | '=' :: after => .ok ⟨key, position, place + 1, after⟩
  | _ => .error (.noEquals place)

/-- A quoted value, and the text after its closing quote with that text's position. -/
structure ValueCut where
  value : List Char
  stop : Nat
  rest : List Char

/-- Takes a quoted value off the text after an equals sign. -/
def cutValue (position : Nat) (cs : List Char) : Except AttributeFault ValueCut :=
  let place := position + byteLength (cs.takeWhile isSpace)
  match cs.dropWhile isSpace with
  | [] => .error (.noValue place)
  | quote :: body =>
    if quote = '"' ∨ quote = '\'' then
      match Text.splitAtFirst quote body with
      | some (value, rest) => .ok ⟨value, place + 2 + byteLength value, rest⟩
      | none => .error (.unclosed (place + 1 + byteLength body) quote)
    else .error (.noQuote place)

theorem length_dropWhile_le (p : Char → Bool) (cs : List Char) :
    (cs.dropWhile p).length ≤ cs.length := (List.dropWhile_suffix p).length_le

theorem length_splitAtFirst {separator : Char} {cs before after : List Char}
    (h : Text.splitAtFirst separator cs = some (before, after)) : after.length < cs.length := by
  induction cs generalizing before with
  | nil => simp [Text.splitAtFirst] at h
  | cons c cs ih =>
    simp only [Text.splitAtFirst] at h
    split at h
    · simp_all
    · obtain ⟨⟨inner, rest⟩, found, same⟩ := Option.map_eq_some_iff.1 h
      have : rest = after := by simpa using congrArg Prod.snd same
      have := ih (this ▸ found)
      simp only [List.length_cons]
      omega

theorem length_cutKey {position : Nat} {first : Char} {rest : List Char} {cut : KeyCut}
    (h : cutKey position first rest = .ok cut) : cut.rest.length < rest.length := by
  have outer := length_dropWhile_le (!endsKey ·) rest
  have inner := length_dropWhile_le isSpace (rest.dropWhile (!endsKey ·))
  simp only [cutKey] at h
  split at h
  · next after found =>
    rw [found, List.length_cons] at inner
    have : cut.rest = after := by cases h; rfl
    rw [this]
    omega
  · simp at h

theorem length_cutValue {position : Nat} {cs : List Char} {cut : ValueCut}
    (h : cutValue position cs = .ok cut) : cut.rest.length < cs.length := by
  have outer := length_dropWhile_le isSpace cs
  simp only [cutValue] at h
  split at h
  · simp at h
  · next quote body found =>
    rw [found, List.length_cons] at outer
    split at h
    · split at h
      · next value rest cutAt =>
        have := length_splitAtFirst cutAt
        have : cut.rest = rest := by cases h; rfl
        rw [this]
        omega
      · simp at h
    · simp at h

/-- Reads the attributes in a tag's text from a byte position on. `seen` holds the keys read so far
with their positions. Each value is decoded before the next attribute is looked at, so of two faults the
one further left is found. -/
def readAttributes (seen : List (List Char × Nat)) (position : Nat) (cs : List Char) :
    Except Fault (List (String × String)) :=
  match blank : cs.dropWhile isSpace with
  | [] => .ok []
  | first :: rest =>
    match keyed : cutKey (position + byteLength (cs.takeWhile isSpace)) first rest with
    | .error fault => .error (.badAttribute fault)
    | .ok key =>
      match seen.lookup key.key with
      | some earlier => .error (.badAttribute (.duplicate key.start earlier))
      | none =>
        match valued : cutValue key.valueStart key.rest with
        | .error fault => .error (.badAttribute fault)
        | .ok value =>
          match unescape value.value with
          | .error fault => .error (.badReference fault)
          | .ok decoded =>
            have : value.rest.length < cs.length := by
              have := length_dropWhile_le isSpace cs
              rw [blank, List.length_cons] at this
              have := length_cutKey keyed
              have := length_cutValue valued
              omega
            match readAttributes ((key.key, key.start) :: seen) value.stop value.rest with
            | .error fault => .error fault
            | .ok others => .ok ((String.ofList key.key, decoded) :: others)
termination_by cs.length

def tagName (tag : List Char) : List Char := tag.takeWhile (!isSpace ·)

/-- The attributes of a tag, in order, from the text between its brackets. -/
def tagAttributes (tag : List Char) : Except Fault (List (String × String)) :=
  readAttributes [] (byteLength (tagName tag)) (tag.dropWhile (!isSpace ·))

end Stencil.Markup
