import Stencil.Value
import Stencil.Yaml.Token

namespace Stencil.Yaml

/-- What may stand in front of a node. -/
structure Properties where
  anchor : Option String := none
  tag : Option Tag := none
deriving DecidableEq, Repr

/-- A node. An alias tells by `α` what it stands for. -/
inductive Node (α : Type) where
  | alias (target : α)
  | scalar (properties : Properties) (plain : Bool) (text : String)
  | sequence (properties : Properties) (items : List (Node α))
  | mapping (properties : Properties) (pairs : List (Node α × Node α))
deriving Repr

namespace Node

variable {α : Type}

/-- A node that is not written at all. -/
def absent (p : Properties := {}) : Node α := .scalar p true ""

/-- The tag that leaves it open what a scalar is, just as no tag does. -/
def openTag : Tag := octetsOf ['!']

/-- A scalar that is written out. -/
def written (p : Properties) (plain : Bool) (text : String) : Node α :=
  .scalar { p with tag := p.tag.filter (· ≠ openTag) } plain text

end Node

/-- The anchor in front of a node, if there is one. -/
def anchor? : List Token → Option String × List Token
  | .anchor name :: rest => (some name, rest)
  | ts => (none, ts)

/-- The tag in front of a node, if there is one. Its handle must be known. -/
def tag? (handles : Handles) : List Token → Option (Option Tag × List Token)
  | .tag name :: rest => (name.resolve? handles).map fun tag => (some tag, rest)
  | ts => some (none, ts)

/-- The properties in front of a node: an anchor and a tag in any order. -/
def Properties.read? (handles : Handles) (ts : List Token) : Option (Properties × List Token) := do
  match anchor? ts with
  | (some name, rest) =>
    let (tag, rest) ← tag? handles rest
    return (⟨some name, tag⟩, rest)
  | (none, rest) =>
    let (tag, rest) ← tag? handles rest
    let (anchor, rest) := if tag.isSome then anchor? rest else (none, rest)
    return (⟨anchor, tag⟩, rest)

/-- The tokens after a dash that show that the item is left out. -/
def itemEnds : List Token := [.blockEntry, .blockEnd]

/-- The tokens after a dash that show that the item is left out, in a sequence that is not indented
more than the mapping around it. -/
def alignedItemEnds : List Token := [.blockEntry, .key, .value, .blockEnd]

/-- The tokens that show that a key or a value of a block mapping is left out. -/
def blockPartEnds : List Token := [.key, .value, .blockEnd]

/-- The tokens that show that a value in a flow collection is left out. -/
def flowValueEnds (close : Token) : List Token := [.flowEntry, close]

/-- The tokens that show that a key in a flow collection is left out. -/
def flowKeyEnds (close : Token) : List Token := .value :: flowValueEnds close

/-- What is left to read of a flow collection, if its next entry is in place: a comma stands in front of
every entry but the first, and may follow the last one. -/
def flowEntry? (first : Bool) (ts : List Token) : Option (List Token) :=
  if first then some ts
  else match ts with
    | .flowEntry :: rest => some rest
    | _ => none

mutual

/-- The node at the front of some tokens, and what follows it. Only where `block` is set may it be a
block collection, and only where `aligned` is set a sequence that is not indented. -/
def node? (handles : Handles) : Nat → Bool → Bool → List Token → Option (Node String × List Token)
  | 0, _, _, _ => none
  | _ + 1, _, _, .alias name :: rest => some (.alias name, rest)
  | fuel + 1, block, aligned, ts => do
    let (p, ts) ← Properties.read? handles ts
    let bare : Option (Node String × List Token) :=
      if p.anchor.isSome || p.tag.isSome then some (.absent p, ts) else none
    match ts with
    | .scalar text plain :: rest => return (.written p plain text, rest)
    | .flowSequence :: rest =>
      let (items, rest) ← flowItems? handles fuel true rest
      return (.sequence p items, rest)
    | .flowMapping :: rest =>
      let (pairs, rest) ← flowPairs? handles fuel true rest
      return (.mapping p pairs, rest)
    | .blockEntry :: _ =>
      if aligned then
        let (items, rest) ← alignedItems? handles fuel ts
        return (.sequence p items, rest)
      else bare
    | .blockSequence :: rest =>
      if block then
        let (items, rest) ← items? handles fuel rest
        return (.sequence p items, rest)
      else bare
    | .blockMapping :: rest =>
      if block then
        let (pairs, rest) ← pairs? handles fuel rest
        return (.mapping p pairs, rest)
      else bare
    | _ => bare

/-- The node at the front of some tokens, which is left out if one of `ends` comes next. -/
def part? (handles : Handles) : Nat → Bool → Bool → List Token → List Token →
    Option (Node String × List Token)
  | 0, _, _, _, _ => none
  | fuel + 1, block, aligned, ends, ts =>
    if ts.head?.any ends.contains then some (.absent, ts) else node? handles fuel block aligned ts

def items? (handles : Handles) : Nat → List Token → Option (List (Node String) × List Token)
  | 0, _ => none
  | fuel + 1, .blockEntry :: rest => do
    let (item, rest) ← part? handles fuel true false itemEnds rest
    let (items, rest) ← items? handles fuel rest
    return (item :: items, rest)
  | _ + 1, .blockEnd :: rest => some ([], rest)
  | _ + 1, _ => none

def alignedItems? (handles : Handles) : Nat → List Token → Option (List (Node String) × List Token)
  | 0, _ => none
  | fuel + 1, .blockEntry :: rest => do
    let (item, rest) ← part? handles fuel true false alignedItemEnds rest
    let (items, rest) ← alignedItems? handles fuel rest
    return (item :: items, rest)
  | _ + 1, ts => some ([], ts)

def pairs? (handles : Handles) : Nat → List Token →
    Option (List (Node String × Node String) × List Token)
  | 0, _ => none
  | fuel + 1, .key :: rest => do
    let (key, rest) ← part? handles fuel true true blockPartEnds rest
    let (value, rest) ← value? handles fuel true blockPartEnds rest
    let (pairs, rest) ← pairs? handles fuel rest
    return ((key, value) :: pairs, rest)
  | _ + 1, .blockEnd :: rest => some ([], rest)
  | _ + 1, _ => none

/-- The value after a key. Without a colon it is left out. -/
def value? (handles : Handles) : Nat → Bool → List Token → List Token →
    Option (Node String × List Token)
  | 0, _, _, _ => none
  | fuel + 1, block, ends, .value :: rest => part? handles fuel block block ends rest
  | _ + 1, _, _, ts => some (.absent, ts)

/-- The items of a flow sequence. An item with a question mark or a colon is a mapping of one pair; if
its key is left out, the token after it is passed over. -/
def flowItems? (handles : Handles) : Nat → Bool → List Token →
    Option (List (Node String) × List Token)
  | 0, _, _ => none
  | _ + 1, _, .flowSequenceEnd :: rest => some ([], rest)
  | fuel + 1, first, ts => do
    match ← flowEntry? first ts with
    | .flowSequenceEnd :: rest => return ([], rest)
    | .key :: rest =>
      let (key, rest) ←
        if rest.head?.any (flowKeyEnds .flowSequenceEnd).contains then some (.absent, rest.drop 1)
        else node? handles fuel false false rest
      let (value, rest) ← value? handles fuel false (flowValueEnds .flowSequenceEnd) rest
      let (items, rest) ← flowItems? handles fuel false rest
      return (.mapping {} [(key, value)] :: items, rest)
    | ts =>
      let (item, rest) ← node? handles fuel false false ts
      let (items, rest) ← flowItems? handles fuel false rest
      return (item :: items, rest)

/-- The pairs of a flow mapping. A node that is not marked as a key has no value. -/
def flowPairs? (handles : Handles) : Nat → Bool → List Token →
    Option (List (Node String × Node String) × List Token)
  | 0, _, _ => none
  | _ + 1, _, .flowMappingEnd :: rest => some ([], rest)
  | fuel + 1, first, ts => do
    match ← flowEntry? first ts with
    | .flowMappingEnd :: rest => return ([], rest)
    | .key :: rest =>
      let (key, rest) ← part? handles fuel false false (flowKeyEnds .flowMappingEnd) rest
      let (value, rest) ← value? handles fuel false (flowValueEnds .flowMappingEnd) rest
      let (pairs, rest) ← flowPairs? handles fuel false rest
      return ((key, value) :: pairs, rest)
    | ts =>
      let (key, rest) ← node? handles fuel false false ts
      let (pairs, rest) ← flowPairs? handles fuel false rest
      return ((key, .absent) :: pairs, rest)

end

/-- The node at the front of some tokens, and what follows it. Each token is looked at by fewer than
three functions, one inside the other. -/
def Node.read? (handles : Handles) (ts : List Token) : Option (Node String × List Token) :=
  node? handles (3 * ts.length + 3) true false ts

/-- The anchors that were met so far. They are numbered in the order in which their nodes begin: the
number of an anchor is the number of different names before it, so an anchor that is declared again, and
the next one that is new, get one number. -/
structure Anchors where
  /-- The number of the last anchor of each name. -/
  numbers : Dictionary Nat := []
  /-- The nodes that numbers stand for. -/
  targets : List (Nat × Node Nat) := []

namespace Anchors

def forget (a : Anchors) (number : Nat) : Anchors :=
  { a with targets := a.targets.filter (·.1 ≠ number) }

/-- Takes a name in where a node begins: the number of the name. -/
def begin (a : Anchors) : Option String → Option Nat × Anchors
  | none => (none, a)
  | some name =>
    let number := a.numbers.length
    (some number, { a with numbers := a.numbers.put name number }.forget number)

/-- Takes a node in where it ends. A node inside of it that got the same number began later. -/
def finish (a : Anchors) (number : Option Nat) (node : Node Nat) : Anchors :=
  match number with
  | none => a
  | some number =>
    if (a.targets.lookup number).isSome then a
    else { a with targets := (number, node) :: a.targets }

end Anchors

mutual

/-- The node with numbers in its aliases. There is none if an alias comes before its anchor. -/
def Node.numbered? (a : Anchors) : Node String → Option (Node Nat × Anchors)
  | .alias name => (a.numbers.lookup name).map fun number => (.alias number, a)
  | .scalar p plain text =>
    let (number, a) := a.begin p.anchor
    let node := .scalar p plain text
    some (node, a.finish number node)
  | .sequence p items => do
    let (number, a) := a.begin p.anchor
    let (items, a) ← numberedItems? a items
    let node := .sequence p items
    return (node, a.finish number node)
  | .mapping p pairs => do
    let (number, a) := a.begin p.anchor
    let (pairs, a) ← numberedPairs? a pairs
    let node := .mapping p pairs
    return (node, a.finish number node)

def Node.numberedItems? (a : Anchors) : List (Node String) → Option (List (Node Nat) × Anchors)
  | [] => some ([], a)
  | item :: rest => do
    let (item, a) ← Node.numbered? a item
    let (rest, a) ← Node.numberedItems? a rest
    return (item :: rest, a)

def Node.numberedPairs? (a : Anchors) :
    List (Node String × Node String) → Option (List (Node Nat × Node Nat) × Anchors)
  | [] => some ([], a)
  | (key, value) :: rest => do
    let (key, a) ← Node.numbered? a key
    let (value, a) ← Node.numbered? a value
    let (rest, a) ← Node.numberedPairs? a rest
    return ((key, value) :: rest, a)

end

end Stencil.Yaml
