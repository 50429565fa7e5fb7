import Stencil.Diagnostic
import Stencil.Text
import Stencil.Text.Letter

namespace Stencil

inductive Language where
  | cSharp | fSharp | visualBasic
deriving DecidableEq, Repr, Inhabited

namespace Language

def all : List Language := [cSharp, fSharp, visualBasic]

def name : Language → String
  | cSharp => "CSharp"
  | fSharp => "FSharp"
  | visualBasic => "VisualBasic"

def sourceExtension : Language → String
  | cSharp => "cs"
  | fSharp => "fs"
  | visualBasic => "vb"

def projectExtension : Language → String
  | cSharp => "csproj"
  | fSharp => "fsproj"
  | visualBasic => "vbproj"

/-- What a solution calls the type of the language's projects. -/
def projectType : Language → String
  | cSharp => "FAE04EC0-301F-11D3-BF4B-00C04F79EFBC"
  | fSharp => "F2A71F9B-5D33-465A-A702-920D77279786"
  | visualBasic => "F184B08F-C81C-45F6-A57F-5ABD9991F28F"

/-- The language of a project file with an extension, in any case. -/
def ofProjectExtension? (extension : String) : Option Language :=
  all.find? fun language => Text.sameWord language.projectExtension extension

end Language

/-- What a variable is meant to hold. Values are texts all the same. -/
inductive VariableType where
  | string | boolean
deriving DecidableEq, Repr, Inhabited

def VariableType.name : VariableType → String
  | .string => "String"
  | .boolean => "Boolean"

/-- The variable type that a word names, in any case. -/
def VariableType.ofName? (word : String) : Option VariableType :=
  if Text.sameWord word "string" then some .string
  else if Text.sameWord word "boolean" then some .boolean
  else none

structure Variable where
  name : String
  description : Option String := none
  value : String
  /-- The role in a development environment that the variable stands for. -/
  semantic : Option String := none
  type : VariableType := .string
  hidden : Bool := false
deriving DecidableEq, Repr

/-- The role of a variable, if it has one. -/
def Variable.role? (v : Variable) : Option String := v.semantic.filter (· ≠ "")

/-- Whether a value says no: `false` in any case, or `0`. -/
def deniesText (value : String) : Bool := Text.sameWord value "false" || value == "0"

/-- Whether a flag is set. An absent or empty one is not, nor is one that says no. -/
def isTrue : Option String → Bool
  | none => false
  | some value => value ≠ "" && !deniesText value

/-- The variables of a template in the order of their first declaration. -/
structure VariableStore where
  toList : List Variable := []
deriving DecidableEq, Repr, Inhabited

namespace VariableStore

def get? (store : VariableStore) (name : String) : Option Variable :=
  store.toList.find? (·.name = name)

def contains (store : VariableStore) (name : String) : Bool := (store.get? name).isSome

def value? (store : VariableStore) (name : String) : Option String :=
  (store.get? name).map (·.value)

/-- Declares a variable, in the place of an earlier one of that name if there is one. -/
def declare (store : VariableStore) (v : Variable) : VariableStore :=
  if store.contains v.name then
    ⟨store.toList.map fun old => if old.name = v.name then v else old⟩
  else ⟨store.toList ++ [v]⟩

/-- Gives a declared variable a value; other names are ignored. -/
def set (store : VariableStore) (name value : String) : VariableStore :=
  ⟨store.toList.map fun v => if v.name = name then { v with value } else v⟩

/-- Whether a name is declared with a value that does not say no. An empty value says yes. -/
def isTruthy (store : VariableStore) (name : String) : Bool :=
  match store.get? name with
  | none => false
  | some v => !deniesText v.value

/-- Gives values to those names that are declared, in order. -/
def withValues (store : VariableStore) (values : List (String × String)) : VariableStore :=
  values.foldl (fun store (name, value) => store.set name value) store

end VariableStore

/-- A file to be made. -/
structure Entry where
  /-- The source, relative to the source directories; it may hold tokens. -/
  source : String
  /-- The source in each source directory, in the order of those. -/
  candidates : List String
  /-- The destination, relative to the output; it may hold tokens. -/
  destination : String
  /-- Whether the file is copied as it is. -/
  raw : Bool
  position : Position
deriving DecidableEq, Repr

/-- A project file and the files that belong to it. -/
structure Project where
  entry : Entry
  files : List Entry
deriving DecidableEq, Repr

/-- The entries of a project, the project file first. -/
def Project.entries (p : Project) : List Entry := p.entry :: p.files

/-- Where sources lie, which variables there are, and which files each project consists of. -/
structure Template where
  path : Path
  name : Option String
  description : Option String
  icon : Option String
  preview : Option String
  sourceDirectories : List Path
  store : VariableStore
  projects : List Project
deriving DecidableEq, Repr

namespace Template

/-- The directory that holds the template's description. -/
def directory (t : Template) : Path := t.path.directory

/-- The number of entries, project files included. -/
def entryCount (t : Template) : Nat := (t.projects.flatMap (·.entries)).length

end Template

end Stencil

namespace Stencil.Listing

/-- The cells of a line. -/
abbrev Row := List String

def header : Row := ["Name", "Type", "Default", "Semantic"]

def rowOf (v : Variable) : Row := [v.name, v.type.name, v.value, v.semantic.getD ""]

/-- The lines for the variables that are not hidden. -/
def rows (t : Template) : List Row := (t.store.toList.filter (!·.hidden)).map rowOf

/-- The widths that hold the cells of a line too. -/
def widen (widths : List Nat) (row : Row) : List Nat :=
  List.zipWith (fun width cell => max width cell.length) widths row

def widths (rows : List Row) : List Nat := rows.foldl widen (header.map String.length)

def pad (width : Nat) (cell : String) : String :=
  cell ++ String.ofList (List.replicate (width - cell.length) ' ')

/-- A line of the table, without white space at its end. -/
def line (widths : List Nat) (row : Row) : String :=
  Text.trimEnd ("  ".intercalate (List.zipWith pad widths row)) ++ "\n"

/-- The table of variables. Each column is as wide as its longest cell, and two spaces stand between
columns. -/
def table (t : Template) : String :=
  let rows := rows t
  if rows = [] then "This template declares no variables.\n"
  else String.join ((header :: rows).map (line (widths rows)))

/-- A line of its own for a text that may be absent. -/
def heading (text : Option String) : String := (text.map (· ++ "\n")).getD ""

/-- Name and description of a template and the table of its variables. -/
def text (t : Template) : String := heading t.name ++ heading t.description ++ table t

end Stencil.Listing
