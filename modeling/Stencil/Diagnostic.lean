import Stencil.Path

namespace Stencil

/-- A line and a column, both counted from one. -/
structure Position where
  line : Nat
  column : Nat
deriving DecidableEq, Repr, Inhabited

namespace Position

def start : Position := ⟨1, 1⟩

/-- The position that lies some lines and columns into a fragment which starts here. Columns of the
fragment's first line continue the line that the fragment starts in. -/
def offset (p : Position) (lines columns : Nat) : Position :=
  if lines = 0 then ⟨p.line, p.column + columns⟩ else ⟨p.line + lines, columns + 1⟩

end Position

structure Location where
  file : Path
  position : Position
deriving DecidableEq, Repr

/-- The location as text: `file (line,column)`. -/
def Location.text (l : Location) : String :=
  s!"{l.file.text} ({l.position.line},{l.position.column})"

/-- The weight of a diagnostic. As a threshold, `none` lets nothing pass. -/
inductive Level where
  | verbose | info | warning | error | none
deriving DecidableEq, Repr, Inhabited

namespace Level

def rank : Level → Nat
  | verbose => 0
  | info => 1
  | warning => 2
  | error => 3
  | none => 4

instance : LE Level := ⟨fun a b => a.rank ≤ b.rank⟩

instance : LT Level := ⟨fun a b => a.rank < b.rank⟩

instance (a b : Level) : Decidable (a ≤ b) := inferInstanceAs (Decidable (a.rank ≤ b.rank))

instance (a b : Level) : Decidable (a < b) := inferInstanceAs (Decidable (a.rank < b.rank))

def name : Level → String
  | verbose => "Verbose"
  | info => "Info"
  | warning => "Warning"
  | error => "Error"
  | none => "None"

end Level

structure Diagnostic where
  level : Level
  message : String
  location : Option Location
deriving DecidableEq, Repr

/-- The diagnostic as one text: the message, after its place if it has one. -/
def Diagnostic.text (d : Diagnostic) : String :=
  match d.location with
  | some location => s!"{location.text}: {d.message}"
  | none => d.message

end Stencil
