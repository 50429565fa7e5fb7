import Stencil.Failure
import Stencil.Markup.Event
import Stencil.Markup.Reference
import Stencil.Text

namespace Stencil.Markup

/-- An element that is to be written: with a text in it, or with elements. -/
inductive Tree where
  | leaf (name : String) (attributes : List (String × String)) (text : String)
  | branch (name : String) (attributes : List (String × String)) (children : List Tree)
deriving Repr

def attributeText (pair : String × String) : String :=
  " " ++ pair.1 ++ "=\"" ++ escape pair.2 ++ "\""

def startTag (name : String) (attributes : List (String × String)) : String :=
  "<" ++ name ++ String.join (attributes.map attributeText) ++ ">"

def endTag (name : String) : String := "</" ++ name ++ ">"

/-- The white space in front of an element inside `depth` others. -/
def indent (depth : Nat) : String := String.ofList (List.replicate (2 * depth) ' ')

mutual

def Tree.lines (depth : Nat) : Tree → List String
  | .leaf name attributes text =>
    [indent depth ++ startTag name attributes ++ escape text ++ endTag name]
  | .branch name attributes children =>
    (indent depth ++ startTag name attributes) :: Tree.linesOf (depth + 1) children ++
      [indent depth ++ endTag name]

def Tree.linesOf (depth : Nat) : List Tree → List String
  | [] => []
  | tree :: rest => tree.lines depth ++ Tree.linesOf depth rest

end

def declaration : String := "<?xml version=\"1.0\" encoding=\"utf-8\"?>"

/-- The document of an element, with each element on a line of its own. -/
def Tree.document (tree : Tree) : String := "\n".intercalate (declaration :: tree.lines 0)

/-- An element with the text and the elements directly in it. -/
structure Element where
  name : String
  attributes : List (String × String)
  text : String
  children : List Element
  position : Position
deriving Repr

/-- Characters up to a number of bytes; none if that number ends inside a character or beyond the
text. -/
def takeBytes? (cs : List Char) (count : Nat) : Option (List Char) :=
  match cs with
  | [] => if count = 0 then some [] else none
  | c :: rest =>
    if count = 0 then some []
    else if c.utf8Size ≤ count then (takeBytes? rest (count - c.utf8Size)).map (c :: ·)
    else none

/-- What stands before the last `<`; nothing if there is none. -/
def beforeLastBracket (cs : List Char) : List Char :=
  ((cs.reverse.dropWhile (· != '<')).drop 1).reverse

/-- The position after characters: one more than the line feeds among them, and one more than the
characters since the last of those. -/
def positionAfter (cs : List Char) : Position :=
  ⟨cs.count '\n' + 1, (cs.reverse.takeWhile (· != '\n')).length + 1⟩

/-- The position of the tag that ends `stop` bytes into a document: that of the last `<` before, so a `<`
in an attribute value moves it. -/
def tagPosition (source : List Char) (stop : Nat) : Except Fault Position :=
  match takeBytes? source stop with
  | some cs => .ok (positionAfter (beforeLastBracket cs))
  | none => .error (.splitCharacter stop)

namespace Element

def attribute? (e : Element) (name : String) : Option String := e.attributes.lookup name

def child? (e : Element) (name : String) : Option Element := e.children.find? (·.name = name)

def childrenNamed (e : Element) (name : String) : List Element := e.children.filter (·.name = name)

/-- The text of the first child with a name, without white space around it. -/
def childText? (e : Element) (name : String) : Option String :=
  (e.child? name).map fun child => Text.trim child.text

def addChild (e child : Element) : Element := { e with children := e.children ++ [child] }

def addText (e : Element) (text : String) : Element := { e with text := e.text ++ text }

/-- The element that a tag opens, for a document and the byte offset where the tag ends. -/
def ofTag (source : List Char) (body : List Char) (stop : Nat) : Except Fault Element := do
  let position ← tagPosition source stop
  let attributes ← tagAttributes body
  return ⟨String.ofList (tagName body), attributes, "", [], position⟩

end Element

/-- A document that is partly read: the open elements, innermost first, and the root once it is
closed. -/
structure Building where
  opened : List Element
  root : Option Element

namespace Building

/-- Adds a complete element to the innermost open one, or takes it as the root. -/
def attach (b : Building) (element : Element) : Except Failure Building :=
  match b.opened with
  | parent :: others => .ok { b with opened := parent.addChild element :: others }
  | [] => match b.root with
    | none => .ok { b with root := some element }
    | some _ =>
      .error (.template (.nesting (.severalRoots element.name element.position.line)))

/-- Adds text to the innermost open element; outside the root there is none to add it to. -/
def addText (b : Building) (text : Except Fault String) : Except Failure Building :=
  match b.opened with
  | [] => .ok b
  | top :: others => match text with
    | .ok text => .ok { b with opened := top.addText text :: others }
    | .error fault => .error (.markup fault)

def step (source : List Char) (b : Building) : Event → Except Failure Building
  | .tag body closed stop => match Element.ofTag source body stop with
    | .error fault => .error (.markup fault)
    | .ok element =>
      if closed then b.attach element else .ok { b with opened := element :: b.opened }
  | .close => match b.opened with
    | [] => .error (.template (.nesting .strayEnd))
    | top :: others => attach { b with opened := others } top
  | .text raw => b.addText ((unescape raw).mapError .badReference)
  | .verbatim raw => b.addText (.ok (String.ofList raw))
  | .aside => .ok b

def finish (b : Building) : Except Failure Element :=
  match b.opened with
  | top :: _ => .error (.template (.nesting (.unclosed top.name)))
  | [] => match b.root with
    | some root => .ok root
    | none => .error (.template (.nesting .noRoot))

end Building

def Element.ofEvents (source : List Char) (events : List Event) (fault : Option Fault) :
    Except Failure Element := do
  let built ← events.foldlM (Building.step source) ⟨[], none⟩
  match fault with
  | some fault => .error (.markup fault)
  | none => built.finish

/-- The element that a document holds. -/
def Element.ofText (source : String) : Except Failure Element :=
  let (events, fault) := Event.ofText source
  Element.ofEvents source.toList events fault

end Stencil.Markup
