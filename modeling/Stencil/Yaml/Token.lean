import Stencil.Text

namespace Stencil.Yaml

def isAllowed (c : Char) : Bool :=
  let n := c.toNat
  n == 9 || n == 10 || n == 13 || (0x20 ≤ n && n ≤ 0x7E) || n == 0x85 ||
    (0xA0 ≤ n && n ≤ 0xD7FF) || (0xE000 ≤ n && n ≤ 0xFFFD) || 0x10000 ≤ n

/-- A text with one line feed for each carriage return, line feed, pair of both and next line. The line
and paragraph separators are breaks too, but stay what they are. -/
def unifyBreaks : List Char → List Char
  | '\r' :: '\n' :: rest => '\n' :: unifyBreaks rest
  | '\r' :: rest => '\n' :: unifyBreaks rest
  | '\u0085' :: rest => '\n' :: unifyBreaks rest
  | c :: rest => c :: unifyBreaks rest
  | [] => []

/-- The mark that may stand at the very front of a document. -/
def byteOrderMark : Char := '\uFEFF'

def isBlank (c : Char) : Bool := c == ' ' || c == '\t'

def isBreak (c : Char) : Bool := c == '\n' || c == '\u2028' || c == '\u2029'

/-- Whether a word ends where these characters follow it: at a blank, a break or the end. -/
def endsWord : List Char → Bool
  | [] => true
  | c :: _ => isBlank c || isBreak c

/-- Whether names of anchors, handles and directives may hold a character. -/
def isNameChar (c : Char) : Bool :=
  c.isAlphanum || c == '_' || c == '-'

/-- Whether characters, which follow a line break, begin or end a document. -/
def isDocumentMark : List Char → Bool
  | '-' :: '-' :: '-' :: rest => endsWord rest
  | '.' :: '.' :: '.' :: rest => endsWord rest
  | _ => false

/-- The white space after a word. Blanks within a line are kept; a single line break becomes a space; of
several line breaks the first one is dropped; and blanks next to a line break do not count. -/
structure Gap where
  /-- The blanks, as long as there is no line break. -/
  blanks : List Char := []
  /-- The first line break. An escaped one is there but holds no character. -/
  first : Option (List Char) := none
  /-- The other line breaks. -/
  more : List Char := []
  /-- The number of blanks after the last line break. -/
  column : Nat := 0
deriving Repr

namespace Gap

/-- Whether the next word stands on another line. -/
def hasBreak (g : Gap) : Bool := g.first.isSome

def isEmpty (g : Gap) : Bool := g.blanks.isEmpty && !g.hasBreak

def addBlank (g : Gap) (c : Char) : Gap :=
  if g.hasBreak then { g with column := g.column + 1 } else { g with blanks := g.blanks ++ [c] }

def addBreak (g : Gap) (c : Char) : Gap :=
  if g.hasBreak then { g with more := g.more ++ [c], column := 0 }
  else { first := some [c] }

/-- The gap that an escaped line break opens. -/
def joint : Gap := { first := some [] }

/-- What the gap stands for in the text. -/
def text (g : Gap) : List Char :=
  match g.first with
  | none => g.blanks
  | some ['\n'] => if g.more.isEmpty then [' '] else g.more
  | some other => other ++ g.more

end Gap

/-- A tag as it is meant. It consists of octets, since an escape in a tag stands for an octet. -/
abbrev Tag := List Nat

/-- What handles stand for. -/
abbrev Handles := List (String × Tag)

/-- A tag as it is written. Without a handle the suffix is the whole tag. -/
structure TagName where
  handle : Option String
  suffix : Tag
deriving DecidableEq, Repr

/-- The octets of a text that holds no others than these. -/
def octetsOf (cs : List Char) : List Nat := cs.map Char.toNat

/-- The handles that every document knows. -/
def defaultHandles : Handles :=
  [("!", octetsOf ['!']), ("!!", octetsOf "tag:yaml.org,2002:".toList)]

/-- The tag that is meant. There is none if the handle is unknown. -/
def TagName.resolve? (t : TagName) (handles : Handles) : Option Tag :=
  match t.handle with
  | none => some t.suffix
  | some handle => (handles.lookup handle).map (· ++ t.suffix)

/-- Whether a tag may hold a character without an escape. Within angle brackets some more may stand. -/
def isTagChar (bracketed : Bool) (c : Char) : Bool :=
  isNameChar c || ";/?:@&=+$.!~*'()".toList.contains c || (bracketed && ",[]".toList.contains c)

/-- The number of octets that follow the first octet of an encoded character. -/
def octetsAfter? (octet : Nat) : Option Nat :=
  if octet < 0x80 then some 0
  else if octet / 0x20 = 6 then some 1
  else if octet / 0x10 = 14 then some 2
  else if octet / 8 = 30 then some 3
  else none

/-- The octets at the front of a text, and what follows them. Escaped octets must make up whole
characters, of which `pending` more octets are to come. -/
def tagOctets? (bracketed : Bool) (pending : Nat) : List Char → Option (List Nat × List Char)
  | '%' :: a :: b :: rest =>
    match Text.number? 16 [a, b], pending with
    | none, _ => none
    | some octet, 0 => do
      let (octets, last) ← tagOctets? bracketed (← octetsAfter? octet) rest
      return (octet :: octets, last)
    | some octet, more + 1 =>
      if octet / 0x40 = 2 then
        (tagOctets? bracketed more rest).map fun (octets, last) => (octet :: octets, last)
      else none
  | c :: rest =>
    if c = '%' ∨ 0 < pending then none
    else if isTagChar bracketed c then
      (tagOctets? bracketed 0 rest).map fun (octets, last) => (c.toNat :: octets, last)
    else some ([], c :: rest)
  | [] => if 0 < pending then none else some ([], [])

def someOctets? (bracketed : Bool) (cs : List Char) : Option (List Nat × List Char) :=
  (tagOctets? bracketed 0 cs).filter fun (octets, _) => !octets.isEmpty

/-- The tag name at the front of a text, given what follows its first `!`. -/
def tagNameBody? (cs : List Char) : Option (TagName × List Char) :=
  match cs with
  | '<' :: rest => do
    let (octets, rest) ← someOctets? true rest
    match rest with
    | '>' :: last => return (⟨none, octets⟩, last)
    | _ => none
  | cs =>
    let word := cs.takeWhile isNameChar
    match cs.drop word.length with
    | '!' :: rest => do
      let (octets, last) ← someOctets? false rest
      return (⟨some (String.ofList ('!' :: word ++ ['!'])), octets⟩, last)
    | rest => do
      let (octets, last) ← tagOctets? false 0 rest
      let suffix := octetsOf word ++ octets
      return (if suffix.isEmpty then ⟨none, octetsOf ['!']⟩ else ⟨some "!", suffix⟩, last)

/-- The tag name at the front of a text, given what follows its first `!`. White space must follow it,
or a comma within a flow collection. -/
def TagName.read? (inFlow : Bool) (cs : List Char) : Option (TagName × List Char) :=
  (tagNameBody? cs).filter fun (_, rest) => endsWord rest || (inFlow && rest.head? == some ',')

inductive Token where
  | version (major minor : Nat)
  | handle (name : String) (meaning : Tag)
  | documentStart
  | documentEnd
  | blockSequence
  | blockMapping
  | blockEnd
  | flowSequence
  | flowSequenceEnd
  | flowMapping
  | flowMappingEnd
  | blockEntry
  | flowEntry
  | key
  | value
  | alias (name : String)
  | anchor (name : String)
  | tag (name : TagName)
  | scalar (text : String) (plain : Bool)
deriving DecidableEq, Repr

end Stencil.Yaml
