import Stencil.Yaml.Token

namespace Stencil.Yaml.Plain

/-- A plain scalar as it was read. -/
structure Reading where
  text : String
  rest : List Char
  /-- Whether the white space after the last word holds a line break. -/
  onNewLine : Bool

def flowMarks : List Char := [',', '[', ']', '\x7b', '\x7d']

/-- Whether a scalar may not begin with a character. -/
def isIndicator (c : Char) : Bool :=
  (flowMarks ++ ['-', '?', ':', '#', '&', '*', '!', '|', '>', '\'', '"', '%', '@', '\x60']).contains c

/-- Whether a plain scalar begins here, given that no other token does. -/
def begins (inFlow : Bool) : List Char → Bool
  | [] => false
  | c :: rest =>
    !(isIndicator c || endsWord (c :: rest)) ||
    (c == '-' && !(rest.head?.any isBlank)) ||
    (!inFlow && (c == '?' || c == ':') && !endsWord rest)

/-- Whether a plain scalar ends after a gap, in front of a character and what follows that. -/
def endsAt (inFlow : Bool) (indent : Nat) (gap : Gap) (c : Char) (rest : List Char) : Bool :=
  (!inFlow && gap.hasBreak && gap.column < indent) ||
  (gap.hasBreak && gap.column == 0 && isDocumentMark (c :: rest)) ||
  (!gap.isEmpty && c == '#') ||
  (c == ':' && endsWord rest) ||
  (inFlow && flowMarks.contains c)

/-- Whether a colon stands where it cannot be told whether it belongs to the scalar. -/
def isDoubtfulColon (inFlow : Bool) (c : Char) (rest : List Char) : Bool :=
  inFlow && c == ':' && rest.head?.any fun next => flowMarks.contains next || next == '?'

/-- Reads on, given the text so far in reverse and the gap after it. A tab may not stand in the
indentation of a continued scalar. -/
def readOn (inFlow : Bool) (indent : Nat) (text : List Char) (gap : Gap) :
    List Char → Option Reading
  | [] => some ⟨String.ofList text.reverse, [], gap.hasBreak⟩
  | c :: rest =>
    if isBlank c then
      if c == '\t' && gap.hasBreak && gap.column < indent then none
      else readOn inFlow indent text (gap.addBlank c) rest
    else if isBreak c then readOn inFlow indent text (gap.addBreak c) rest
    else if endsAt inFlow indent gap c rest then
      some ⟨String.ofList text.reverse, c :: rest, gap.hasBreak⟩
    else if isDoubtfulColon inFlow c rest then none
    else readOn inFlow indent (c :: (gap.text.reverse ++ text)) {} rest

/-- The plain scalar at the front of a text. Lines that continue it are indented by at least `indent`. -/
def read? (inFlow : Bool) (indent : Nat) (cs : List Char) : Option Reading :=
  readOn inFlow indent [] {} cs

end Stencil.Yaml.Plain

namespace Stencil.Yaml.Quoted

inductive Piece where
  | letter (c : Char)
  | blank (c : Char)
  | lineBreak (c : Char)
  /-- An escaped line break. -/
  | joint
deriving Repr

def Piece.ofChar (c : Char) : Piece :=
  if isBlank c then .blank c else if isBreak c then .lineBreak c else .letter c

/-- Whether a piece is followed by something that cannot be inside a quoted scalar: a line that begins
or ends a document. -/
def isCutOff (c : Char) (rest : List Char) : Bool := isBreak c && isDocumentMark rest

/-- The pieces of a scalar in single quotes up to the closing one, and what follows it. A quote inside
is written twice. -/
def single? : List Char → Option (List Piece × List Char)
  | '\'' :: '\'' :: rest => (single? rest).map fun (pieces, last) => (.letter '\'' :: pieces, last)
  | '\'' :: rest => some ([], rest)
  | c :: rest =>
    if isCutOff c rest then none
    else (single? rest).map fun (pieces, last) => (.ofChar c :: pieces, last)
  | [] => none

/-- The character that a backslash and a letter stand for. -/
def escaped? : Char → Option Char
  | '0' => some '\x00'
  | 'a' => some '\x07'
  | 'b' => some '\x08'
  | 't' => some '\t'
  | '\t' => some '\t'
  | 'n' => some '\n'
  | 'v' => some '\x0b'
  | 'f' => some '\x0c'
  | 'r' => some '\r'
  | 'e' => some '\x1b'
  | ' ' => some ' '
  | '"' => some '"'
  | '/' => some '/'
  | '\\' => some '\\'
  | 'N' => some '\u0085'
  | '_' => some '\u00a0'
  | 'L' => some '\u2028'
  | 'P' => some '\u2029'
  | _ => none

/-- The number of digits after a backslash and a letter. -/
def codeLength? : Char → Option Nat
  | 'x' => some 2
  | 'u' => some 4
  | 'U' => some 8
  | _ => none

/-- The character that hexadecimal digits stand for. -/
def coded? (length : Nat) (cs : List Char) : Option Char := do
  let digits := cs.take length
  let code ← if digits.length = length then Text.number? 16 digits else none
  if code.isValidChar then some (Char.ofNat code) else none

/-- The piece that a backslash stands for, given what follows it, and what remains. -/
def escape? : List Char → Option (Piece × List Char)
  | [] => none
  | c :: rest =>
    if isBreak c then if isDocumentMark rest then none else some (.joint, rest)
    else match escaped? c, codeLength? c with
      | some e, _ => some (.letter e, rest)
      | none, some length => (coded? length rest).map fun e => (.letter e, rest.drop length)
      | none, none => none

/-- The pieces of a scalar in double quotes up to the closing one, and what follows it. -/
def double? (cs : List Char) : Option (List Piece × List Char) :=
  match cs with
  | [] => none
  | '"' :: rest => some ([], rest)
  | '\\' :: rest =>
    match escape? rest with
    | none => none
    | some (piece, after) =>
      if after.length < rest.length then
        (double? after).map fun (pieces, last) => (piece :: pieces, last)
      else none
  | c :: rest =>
    if isCutOff c rest then none
    else (double? rest).map fun (pieces, last) => (.ofChar c :: pieces, last)
termination_by cs.length
decreasing_by all_goals simp only [List.length_cons]; omega

/-- The text so far, in reverse, and the gap after it, with one more piece. -/
def fold : List Char × Gap → Piece → List Char × Gap
  | (text, gap), .letter c => (c :: (gap.text.reverse ++ text), {})
  | (text, gap), .blank c => (text, gap.addBlank c)
  | (text, gap), .lineBreak c => (text, gap.addBreak c)
  | (text, gap), .joint => (gap.text.reverse ++ text, .joint)

def textOf (pieces : List Piece) : String :=
  let (text, gap) := pieces.foldl fold ([], {})
  String.ofList (gap.text.reverse ++ text).reverse

/-- The text of a scalar, given what follows its opening quote, and what follows the closing one. -/
def read? (quote : Char) (cs : List Char) : Option (String × List Char) :=
  (if quote = '"' then double? cs else single? cs).map fun (pieces, rest) => (textOf pieces, rest)

end Stencil.Yaml.Quoted
