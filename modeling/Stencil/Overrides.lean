import Stencil.Failure
import Stencil.FileSystem
import Stencil.Json.Document
import Stencil.Text
import Stencil.Text.Letter
import Stencil.Value
import Stencil.Yaml.Document

namespace Stencil

/-- Names with values; no name stands twice. -/
abbrev Overrides := Dictionary String

namespace Overrides

/-- The values from several sources, later ones before earlier ones. -/
def merge (sources : List Overrides) : Overrides := sources.foldl Dictionary.putAll []

/-- The name and the value in an argument `name:value`, which is cut at its first colon. -/
def pairOfArgument (argument : String) : Except ConfigurationFault (String × String) :=
  match Text.splitAtFirst ':' argument.toList with
  | some (key, value) =>
    let name := Text.trim (String.ofList key)
    if name = "" then .error (.malformedPair argument) else .ok (name, String.ofList value)
  | none => .error (.malformedPair argument)

/-- A member of a document as a value for a variable. -/
def ofMember (member : String × Value) : Except ConfigurationFault (String × String) :=
  match member.2.text? with
  | some text => .ok (member.1, text)
  | none => .error (.nestedValue member.1)

/-- The members of a document. What is no JSON is taken for YAML. -/
def members? (document : String) : Option (List (String × Value)) :=
  Json.members? document <|> Yaml.members? document

/-- The values in a document. An empty one gives none. -/
def parse (document : String) : Except ConfigurationFault Overrides :=
  if Text.isBlankText document then .ok []
  else match members? document with
    | none => .error .malformedDocument
    | some members => (Dictionary.ofPairs members).mapM ofMember

def load (fs : FileSystem) (path : Path) : Except Failure Overrides := do
  let document ← (fs.readText path).mapError .file
  (parse document).mapError .configuration

end Overrides

/-- The arguments after the destination, sorted. -/
structure Trailing where
  solution : Option Path := none
  overrides : Overrides := []
deriving DecidableEq, Repr

namespace Trailing

/-- Whether an argument is the path of a solution: its file name ends in `.sln`, in any case. -/
def isSolution (argument : String) : Bool :=
  match (Path.mk argument).extension? with
  | some extension => Text.sameWord extension "sln"
  | none => false

def add (t : Trailing) (argument : String) : Except ConfigurationFault Trailing :=
  if isSolution argument then
    match t.solution with
    | some _ => .error (.secondSolution argument)
    | none => .ok { t with solution := some ⟨argument⟩ }
  else do
    let (name, value) ← Overrides.pairOfArgument argument
    return { t with overrides := t.overrides.put name value }

def classify (arguments : List String) : Except ConfigurationFault Trailing :=
  arguments.foldlM add {}

end Trailing

end Stencil
