import Stencil.Journal
import Stencil.Scanner
import Stencil.Template
import Stencil.Text

/-!
Texts with tokens. A token stands between a pair of opening and a pair of closing braces; it names a
variable, or with a `#` in front a function. A text is first cut into fragments, which depends on the
text alone, and the fragments are then expanded one after the other.
-/

namespace Stencil

/-- The lowest `digits` hexadecimal digits of a number. -/
def hexDigits : Nat → Nat → List Char
  | 0, _ => []
  | digits + 1, n => hexDigits digits (n / 16) ++ [Nat.digitChar (n % 16)]

/-- An identifier, given by its free bits. -/
structure Guid where
  bits : Nat
deriving DecidableEq, Repr

/-- The identifier as text, in lower case. The digit 4 stands for the version and the two highest
bits of the digit after the third dash for the variant. -/
def Guid.text (g : Guid) : String :=
  String.ofList (
    hexDigits 8 (g.bits >>> 90) ++ ['-'] ++ hexDigits 4 (g.bits >>> 74) ++ ['-', '4'] ++
    hexDigits 3 (g.bits >>> 62) ++ ['-'] ++ hexDigits 1 (8 + (g.bits >>> 60) % 4) ++
    hexDigits 3 (g.bits >>> 48) ++ ['-'] ++ hexDigits 12 g.bits)

/-- Where identifiers come from: a start that is chosen anew for each run, and the number of those
already given out. -/
structure GuidSource where
  seed : Nat
  drawn : Nat := 0
deriving DecidableEq, Repr

namespace GuidSource

/-- The distance between two identifiers given out one after the other. It is odd, so all of the
2 ^ 122 identifiers come before one is repeated. -/
def stride : Nat := 0x2B7E151628AED2A6ABF7158809CF4F3

def next (s : GuidSource) : Guid := ⟨(s.seed + s.drawn * stride) % Nat.pow 2 122⟩

def advance (s : GuidSource) : GuidSource := { s with drawn := s.drawn + 1 }

end GuidSource

def tokenOpen : List Char := ['{', '{']

def tokenClose : List Char := ['}', '}']

inductive Fragment where
  | literal (text : String)
  /-- What stands between the braces, without white space around it, and where the token starts. -/
  | token (body : String) (place : Place)
  /-- A token that never ends; it is the last fragment. -/
  | unclosed (place : Place)
deriving DecidableEq, Repr

/-- The fragments of what a scanner has yet to read. -/
def Scanner.fragments (s : Scanner) : List Fragment :=
  let opening := s.readTo tokenOpen
  let literal := Fragment.literal (String.ofList opening.before)
  if _ : opening.found then
    let closing := opening.after.readTo tokenClose
    let place := opening.after.mark
    if _ : closing.found then
      literal :: .token (String.ofList (Text.trimChars closing.before)) place ::
        closing.after.fragments
    else [literal, .unclosed place]
  else [literal]
termination_by s.rest.length
decreasing_by
  have first : (s.readTo tokenOpen).after.rest.length + 2 ≤ s.rest.length :=
    Scanner.length_readTo (by assumption)
  have second : ((s.readTo tokenOpen).after.readTo tokenClose).after.rest.length + 2 ≤
      (s.readTo tokenOpen).after.rest.length := Scanner.length_readTo (by assumption)
  omega

def Fragment.ofText (text : String) : List Fragment := (Scanner.ofText text).fragments

/-- What tokens expand to. -/
inductive Expander where
  /-- The values themselves. -/
  | values
  /-- Parameters that a development environment fills in later, where it has one for the purpose. -/
  | parameters
deriving DecidableEq, Repr

/-- The parameter that stands for a role of a variable. -/
def reservedParameter? : String → Option String
  | "projectName" => some "safeprojectname"
  | "organization" => some "registeredorganization"
  | _ => none

def parameter (name : String) : String := "$" ++ name ++ "$"

/-- The number of the first identifier that is left to the development environment. -/
def firstNumber : Fin UInt32.size := 1

/-- The number behind another one. Numbers wrap around. -/
def numberAfter (number : Fin UInt32.size) : Fin UInt32.size := number + 1

/-- What expanding changes: the journal, the source of identifiers, and the number of the next
identifier that is left to the development environment. -/
structure Expansion where
  journal : Journal
  guids : GuidSource
  nextParameter : Fin UInt32.size := firstNumber
deriving Repr

namespace Expansion

/-- A step that changes the journal only. -/
def journaled {α : Type} (x : Attempt Journal α) : Attempt Expansion α :=
  x.onPart (·.journal) fun journal e => { e with journal }

def sayAt (level : Level) (location : Location) (message : String) : Attempt Expansion Unit :=
  journaled (Journal.sayAt level location message)

def say (level : Level) (message : String) : Attempt Expansion Unit :=
  journaled (Journal.say level message)

/-- Fails with an error that ends one entry. -/
def reported {α : Type} (location : Location) (message : String) : Attempt Expansion α :=
  journaled (Journal.reported (some location) message)

end Expansion

/-- What texts are expanded against. -/
structure Renderer where
  store : VariableStore
  expander : Expander
  unresolved : UnresolvedPolicy
  /-- The current year. -/
  year : Nat
deriving DecidableEq, Repr

namespace Renderer

def newGuid (r : Renderer) : Attempt Expansion String := fun e =>
  match r.expander with
  | .values => .ok e.guids.next.text { e with guids := e.guids.advance }
  | .parameters =>
    .ok (parameter s!"guid{e.nextParameter}") { e with nextParameter := numberAfter e.nextParameter }

def yearText (r : Renderer) : String :=
  match r.expander with
  | .values => toString r.year
  | .parameters => parameter "year"

def function (r : Renderer) (location : Location) (token : String) : Attempt Expansion String :=
  match token with
  | "#newGuid" => do
    let guid ← r.newGuid
    Expansion.sayAt .verbose location s!"Generated Guid '{guid}'."
    return guid
  | "#year" => return r.yearText
  | _ => do
    Expansion.sayAt .warning location s!"Unknown function '{token}'."
    return ""

/-- The expansion of a reference to an undeclared variable. -/
def undeclared (r : Renderer) (location : Location) (token : String) :
    Attempt Expansion String := do
  let message := s!"Variable '{token}' does not exist."
  match r.unresolved with
  | .proceed =>
    Expansion.sayAt .error location message
    return ""
  | .skipFile => Expansion.reported location message

def valueOf (location : Location) (token : String) (v : Variable) : Attempt Expansion String := do
  if v.value = "" then
    Expansion.sayAt .warning location s!"Variable '{token}' not set."
    return ""
  else
    Expansion.sayAt .verbose location s!"Replaced variable '{token}' with '{v.value}'."
    return v.value

def parameterFor (location : Location) (v : Variable) (role : String) :
    Attempt Expansion String :=
  match reservedParameter? role with
  | some name => return parameter name
  | none => do
    Expansion.sayAt .error location s!"Unknown semantic '{role}' on variable '{v.name}'."
    return ""

def declared (r : Renderer) (location : Location) (token : String) (v : Variable) :
    Attempt Expansion String :=
  match r.expander, v.role? with
  | .parameters, some role => parameterFor location v role
  | _, _ => valueOf location token v

def token (r : Renderer) (location : Location) (token : String) : Attempt Expansion String :=
  if token = "" then do
    Expansion.sayAt .warning location "Empty token."
    return ""
  else if token.toList.head? = some '#' then r.function location token
  else match r.store.get? token with
    | none => r.undeclared location token
    | some v => r.declared location token v

/-- The expansion of a fragment of a file's text that starts at `origin`. -/
def fragment (r : Renderer) (file : Path) (origin : Position) : Fragment →
    Attempt Expansion String
  | .literal text => return text
  | .token body place => r.token ⟨file, origin.offset place.line place.column⟩ body
  | .unclosed place =>
    Expansion.reported ⟨file, origin.offset place.line place.column⟩ "No matching block end."

/-- The expansion of a text that starts at a position of a file. -/
def renderAt (r : Renderer) (file : Path) (origin : Position) (text : String) :
    Attempt Expansion String := do
  return String.join (← (Fragment.ofText text).mapM (r.fragment file origin))

def render (r : Renderer) (file : Path) (text : String) : Attempt Expansion String :=
  r.renderAt file .start text

end Renderer

end Stencil
