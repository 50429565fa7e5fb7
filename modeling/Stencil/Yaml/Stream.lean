import Stencil.Yaml.Block
import Stencil.Yaml.Inline

/-!
From characters to tokens. Two things are not told by the characters themselves. Where a line is
indented more or less than those before it, a block collection begins or ends. And a key without a `?`
is recognised only at the colon after it, so that its tokens are inserted in front of tokens that were
read before.
-/

namespace Stencil.Yaml

/-- A place in a text, counted from zero. -/
structure Mark where
  index : Nat := 0
  line : Nat := 0
  column : Nat := 0
deriving DecidableEq, Repr

def Mark.past (m : Mark) (c : Char) : Mark :=
  if isBreak c then ⟨m.index + 1, m.line + 1, 0⟩ else ⟨m.index + 1, m.line, m.column + 1⟩

/-- Something that turns out to be a key if a colon follows it. -/
structure Candidate where
  /-- The number of tokens in front of it. -/
  tokens : Nat
  mark : Mark
  /-- Whether a colon must follow. -/
  required : Bool
deriving Repr

/-- A text as far as it was taken apart. -/
structure Stream where
  rest : List Char
  mark : Mark := {}
  /-- The indentation of the block collections that are open, the innermost first. -/
  indents : List Nat := []
  /-- What may be a key in the innermost collection. -/
  candidate : Option Candidate := none
  /-- What may be a key in each collection around the flow collections that are open. -/
  outer : List (Option Candidate) := []
  /-- Whether a key may begin at the next token. -/
  keyAllowed : Bool := true
  /-- The tokens so far, the last one first. -/
  tokens : List Token := []

namespace Stream

def inFlow (s : Stream) : Bool := !s.outer.isEmpty

/-- The smallest indentation of what lies inside the innermost block collection. -/
def innerIndent (s : Stream) : Nat :=
  match s.indents with
  | [] => 0
  | indent :: _ => indent + 1

def push (s : Stream) (t : Token) : Stream := { s with tokens := t :: s.tokens }

def insert (s : Stream) (count : Nat) (t : Token) : Stream :=
  let later := s.tokens.length - count
  { s with tokens := s.tokens.take later ++ t :: s.tokens.drop later }

def moveTo (s : Stream) (rest : List Char) : Stream :=
  let passed := s.rest.take (s.rest.length - rest.length)
  { s with rest, mark := passed.foldl Mark.past s.mark }

def skip (s : Stream) (count : Nat) : Stream := s.moveTo (s.rest.drop count)

/-- Passes over white space, comments and line breaks. Tabs may not indent what can be a key of a
block collection; there, a new line makes room for a key. -/
def skipGap (inFlow keyAllowed comment : Bool) (m : Mark) : List Char → Bool × Mark × List Char
  | [] => (keyAllowed, m, [])
  | c :: rest =>
    if isBreak c then skipGap inFlow (keyAllowed || !inFlow) false (m.past c) rest
    else if comment then skipGap inFlow keyAllowed true (m.past c) rest
    else if c == ' ' || (c == '\t' && (inFlow || !keyAllowed)) then
      skipGap inFlow keyAllowed false (m.past c) rest
    else if c == '#' then skipGap inFlow keyAllowed true (m.past c) rest
    else if c == byteOrderMark && m.index == 0 then skipGap inFlow keyAllowed false (m.past c) rest
    else (keyAllowed, m, c :: rest)

def toToken (s : Stream) : Stream :=
  let (keyAllowed, mark, rest) := skipGap s.inFlow s.keyAllowed false s.mark s.rest
  { s with keyAllowed, mark, rest }

/-- The number of characters that a key without a `?` does not exceed. -/
def keyLength : Nat := 1024

/-- Whether something that may be a key lies too far back: on another line or beyond the length. -/
def isStale (s : Stream) (c : Candidate) : Bool :=
  c.mark.line < s.mark.line || c.mark.index + keyLength < s.mark.index

/-- What may still be a key. That a colon is missing after what must be one is a fault. -/
def freshCandidate (s : Stream) (c : Option Candidate) : Option (Option Candidate) :=
  match c with
  | some c => if s.isStale c then if c.required then none else some none else some (some c)
  | none => some none

def dropStale (s : Stream) : Option Stream := do
  let candidate ← s.freshCandidate s.candidate
  let outer ← s.outer.mapM s.freshCandidate
  return { s with candidate, outer }

/-- Gives up what may be a key, unless it must be one. -/
def dropCandidate (s : Stream) : Option Stream :=
  if s.candidate.any (·.required) then none else some { s with candidate := none }

/-- Notes that what comes next may be a key, if one may stand here. -/
def noteCandidate (s : Stream) : Option Stream :=
  if s.keyAllowed then do
    let s ← s.dropCandidate
    let required := !s.inFlow && s.indents.head? == some s.mark.column
    return { s with candidate := some ⟨s.tokens.length, s.mark, required⟩ }
  else some s

/-- Opens a block collection at a column, unless one is open there. Its token is inserted after the
first `count` ones. -/
def indentTo (s : Stream) (column count : Nat) (t : Token) : Stream :=
  if s.inFlow || s.indents.head?.any (column ≤ ·) then s
  else { s.insert count t with indents := column :: s.indents }

/-- Closes the block collections that are not around a column any more. -/
def outdent (s : Stream) (hasEnded : Nat → Bool) : Stream :=
  if s.inFlow then s
  else
    let ended := s.indents.takeWhile hasEnded
    { s with
      indents := s.indents.drop ended.length
      tokens := ended.map (fun _ => .blockEnd) ++ s.tokens }

/-- Closes all block collections, for what stands outside of them. -/
def outdentAll (s : Stream) : Option Stream := do
  let s ← (s.outdent fun _ => true).dropCandidate
  return { s with keyAllowed := false }

def directive (s : Stream) : Option Stream := do
  let s ← s.outdentAll
  let (token, rest) ← Directive.read? (s.rest.drop 1)
  return (s.moveTo rest).push token

def documentMark (s : Stream) (t : Token) : Option Stream := do
  return ((← s.outdentAll).skip 3).push t

def openFlow (s : Stream) (t : Token) : Option Stream := do
  let s ← s.noteCandidate
  let s := { s with outer := s.candidate :: s.outer, candidate := none, keyAllowed := true }
  return (s.skip 1).push t

def closeFlow (s : Stream) (t : Token) : Option Stream := do
  let s ← s.dropCandidate
  let s := match s.outer with
    | candidate :: outer => { s with candidate, outer }
    | [] => s
  return ({ s with keyAllowed := false }.skip 1).push t

def flowEntry (s : Stream) : Option Stream := do
  let s ← s.dropCandidate
  return ({ s with keyAllowed := true }.skip 1).push .flowEntry

/-- Makes sure that a block collection is open at the sign that comes next. -/
def openBlock (s : Stream) (t : Token) : Option Stream :=
  if s.inFlow then some s
  else if s.keyAllowed then some (s.indentTo s.mark.column s.tokens.length t)
  else none

def blockEntry (s : Stream) : Option Stream := do
  let s ← (← s.openBlock .blockSequence).dropCandidate
  return ({ s with keyAllowed := true }.skip 1).push .blockEntry

def key (s : Stream) : Option Stream := do
  let s ← (← s.openBlock .blockMapping).dropCandidate
  return ({ s with keyAllowed := !s.inFlow }.skip 1).push .key

/-- The colon of a value, after a key that is recognised now or after one that was marked. -/
def value (s : Stream) : Option Stream := do
  let s ← match s.candidate with
    | some c =>
      -- the mapping begins in front of its first key, so it is opened after the key is inserted
      let s := (s.insert c.tokens .key).indentTo c.mark.column c.tokens .blockMapping
      some { s with candidate := none, keyAllowed := false }
    | none => do
      let s ← s.openBlock .blockMapping
      some { s with keyAllowed := !s.inFlow }
  return (s.skip 1).push .value

/-- A node or a property of one that may stand in a key: it is read after a sign of `count`
characters. -/
def keyed (s : Stream) (count : Nat) (read? : List Char → Option (Token × List Char)) :
    Option Stream := do
  let s ← s.noteCandidate
  let (token, rest) ← read? (s.rest.drop count)
  return ({ s with keyAllowed := false }.moveTo rest).push token

def endsAnchor (cs : List Char) : Bool :=
  endsWord cs || cs.head?.any fun c => "?:,]%@\x60\x7d".toList.contains c

def anchorName? (cs : List Char) : Option (String × List Char) :=
  let name := cs.takeWhile isNameChar
  let rest := cs.drop name.length
  if name.isEmpty || !endsAnchor rest then none else some (String.ofList name, rest)

def quoted (s : Stream) (quote : Char) : Option Stream :=
  s.keyed 1 fun cs => (Quoted.read? quote cs).map fun (text, rest) => (.scalar text false, rest)

/-- A block scalar. A key may follow it, as it ends with a line. -/
def block (s : Stream) (folded : Bool) : Option Stream := do
  let s ← s.dropCandidate
  let (text, rest) ← Block.read? folded s.innerIndent (s.rest.drop 1)
  return ({ s with keyAllowed := true }.moveTo rest).push (.scalar text false)

/-- A plain scalar. A key may follow it if it ends before a new line. -/
def plain (s : Stream) : Option Stream := do
  let s ← s.noteCandidate
  let r ← Plain.read? s.inFlow s.innerIndent s.rest
  return ({ s with keyAllowed := r.onNewLine }.moveTo r.rest).push (.scalar r.text true)

def take (s : Stream) (c : Char) (rest : List Char) : Option Stream :=
  let atStart := s.mark.column == 0
  let aloneOrInFlow := s.inFlow || endsWord rest
  if atStart && c == '%' then s.directive
  else if atStart && isDocumentMark (c :: rest) then
    s.documentMark (if c = '-' then .documentStart else .documentEnd)
  else match c with
    | '[' => s.openFlow .flowSequence
    | '\x7b' => s.openFlow .flowMapping
    | ']' => s.closeFlow .flowSequenceEnd
    | '\x7d' => s.closeFlow .flowMappingEnd
    | ',' => s.flowEntry
    | '*' => s.keyed 1 fun cs => (anchorName? cs).map fun (name, rest) => (.alias name, rest)
    | '&' => s.keyed 1 fun cs => (anchorName? cs).map fun (name, rest) => (.anchor name, rest)
    | '!' => s.keyed 1 fun cs =>
      (TagName.read? s.inFlow cs).map fun (name, rest) => (.tag name, rest)
    | '\'' => s.quoted '\''
    | '"' => s.quoted '"'
    | _ =>
      if c == '-' && endsWord rest then s.blockEntry
      else if c == '?' && aloneOrInFlow then s.key
      else if c == ':' && aloneOrInFlow then s.value
      else if c == '|' && !s.inFlow then s.block false
      else if c == '>' && !s.inFlow then s.block true
      else if Plain.begins s.inFlow (c :: rest) then s.plain
      else none

/-- The stream at the front of its next token, with the block collections closed that end there. -/
def settle (s : Stream) : Option Stream := do
  let s ← s.toToken.dropStale
  return s.outdent (s.mark.column < ·)

/-- Takes all tokens. Each takes at least one character. -/
def takeAll (s : Stream) : Option Stream :=
  match s.settle with
  | none => none
  | some here =>
    match here.rest with
    | [] => here.outdentAll
    | c :: rest =>
      match here.take c rest with
      | none => none
      | some next => if next.rest.length < s.rest.length then takeAll next else none
termination_by s.rest.length

end Stream

def tokens? (text : String) : Option (List Token) :=
  if text.toList.all isAllowed then
    (Stream.takeAll { rest := unifyBreaks text.toList }).map (·.tokens.reverse)
  else none

end Stencil.Yaml
