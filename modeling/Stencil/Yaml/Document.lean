import Stencil.Yaml.Node
import Stencil.Yaml.Scalar
import Stencil.Yaml.Stream

namespace Stencil.Yaml

/-- What the directives of a document say. -/
structure Preamble where
  hasVersion : Bool := false
  handles : Handles := []

def isKnownVersion (major minor : Nat) : Bool := major == 1 && (minor == 1 || minor == 2)

/-- Whether a token stands outside of documents. -/
def isBoundary : Token → Bool
  | .version .. | .handle .. | .documentStart | .documentEnd => true
  | _ => false

/-- The directives in front of a document, up to its start, and what follows that. Nothing may be said
twice. -/
def Preamble.read? (p : Preamble) : List Token → Option (Preamble × List Token)
  | .version major minor :: rest =>
    if p.hasVersion || !isKnownVersion major minor then none
    else read? { p with hasVersion := true } rest
  | .handle name meaning :: rest =>
    if (p.handles.lookup name).isSome then none
    else read? { p with handles := p.handles ++ [(name, meaning)] } rest
  | .documentStart :: rest => some (p, rest)
  | _ => none

/-- All handles that a document knows: those it declares and the common ones. -/
def Preamble.allHandles (p : Preamble) : Handles := p.handles ++ defaultHandles

/-- The node of the first document, and what follows it. A document that begins with a mark may be
empty. -/
def document? (ts : List Token) : Option (Node String × List Token) :=
  match ts with
  | .version .. :: _ | .handle .. :: _ | .documentStart :: _ => do
    let (preamble, rest) ← Preamble.read? {} ts
    if rest.isEmpty || rest.head?.any isBoundary then return (.absent, rest)
    else Node.read? preamble.allHandles rest
  | ts => Node.read? defaultHandles ts

/-- The node of the only document of a text; a text without any token holds an absent node. -/
def root? (text : String) : Option (Node String) := do
  let ts ← tokens? text
  if ts.isEmpty then return .absent
  let (node, rest) ← document? ts
  if (rest.dropWhile (· == .documentEnd)).isEmpty then return node else none

/-- The number of collections that may lie within each other. -/
def depthLimit : Nat := 128

/-- How many aliases may be followed for each part of a document. -/
def aliasesPerPart : Nat := 100

mutual

/-- The number of parts of a node: a scalar or an alias is one, a collection has a start and an end. -/
def Node.parts {α : Type} : Node α → Nat
  | .alias _ => 1
  | .scalar .. => 1
  | .sequence _ items => Node.partsOfItems items + 2
  | .mapping _ pairs => Node.partsOfPairs pairs + 2

def Node.partsOfItems {α : Type} : List (Node α) → Nat
  | [] => 0
  | item :: rest => item.parts + Node.partsOfItems rest

def Node.partsOfPairs {α : Type} : List (Node α × Node α) → Nat
  | [] => 0
  | (key, value) :: rest => key.parts + value.parts + Node.partsOfPairs rest

end

/-- What the values of a document are read with: what aliases stand for, and how many of them may be
followed. -/
structure Context where
  targets : List (Nat × Node Nat)
  limit : Nat

namespace Context

/-- What a node stands for, given how many aliases were followed, and how many are now. -/
def follow (c : Context) (followed : Nat) : Node Nat → Option (Node Nat × Nat)
  | .alias number =>
    if followed < c.limit then (c.targets.lookup number).map (·, followed + 1) else none
  | node => some (node, followed)

/-- The value of a node within collections that leave room for `depth` more, and how many aliases were
followed. -/
def value? (c : Context) : Nat → Nat → Node Nat → Option (Value × Nat)
  | depth, followed, node => do
    match ← c.follow followed node, depth with
    | (.scalar p plain text, followed), _ => return (← scalarValue? p plain text, followed)
    | (.sequence p items, followed), depth + 1 =>
      if p.tag.any isLocalTag then none
      let followed ← items.foldlM (fun followed item => do
        return (← value? c depth followed item).2) followed
      return (.textless, followed)
    | (.mapping p pairs, followed), depth + 1 =>
      if p.tag.any isLocalTag then none
      let followed ← pairs.foldlM (fun followed (key, value) => do
        let (_, followed) ← value? c depth followed key
        return (← value? c depth followed value).2) followed
      return (.textless, followed)
    | _, _ => none
termination_by depth => depth

/-- The text of a key. -/
def key? (c : Context) (followed : Nat) (node : Node Nat) : Option (String × Nat) := do
  match ← c.follow followed node with
  | (.scalar _ _ text, followed) => return (text, followed)
  | _ => none

/-- The members of a mapping after those that were read, and how many aliases were followed. -/
def addMember (c : Context) (read : List (String × Value) × Nat) (pair : Node Nat × Node Nat) :
    Option (List (String × Value) × Nat) := do
  let (key, followed) ← c.key? read.2 pair.1
  let (value, followed) ← c.value? (depthLimit - 1) followed pair.2
  return (read.1 ++ [(key, value)], followed)

end Context

/-- The members of the mapping that a text holds, in order. A text that holds nothing has none. -/
def members? (text : String) : Option (List (String × Value)) := do
  let root ← root? text
  let (node, anchors) ← root.numbered? {}
  match node with
  | .mapping _ pairs =>
    let c : Context := ⟨anchors.targets, node.parts * aliasesPerPart⟩
    return (← pairs.foldlM c.addMember ([], 0)).1
  | .scalar _ plain text => if plain && text = "" then return [] else none
  | _ => none

end Stencil.Yaml
