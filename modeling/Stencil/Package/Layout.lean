import Stencil.Path

namespace Stencil

/-- A file of a package: where its contents come from, and whether they are taken as they are. -/
structure PackageFile where
  source : Path
  raw : Bool
deriving DecidableEq, Repr

/-- A file, or a directory with its entries in the order of their insertion. -/
inductive PackageNode where
  | file (file : PackageFile)
  | directory (entries : List (String × PackageNode))
deriving Repr

abbrev PackageEntries := List (String × PackageNode)

/-- Why a file cannot be inserted. -/
inductive InsertFault where
  | duplicate (path : Path)
  | invalidPath (text : String)
  /-- A directory on the way is a file. -/
  | notADirectory (path : Path)
deriving DecidableEq, Repr

def InsertFault.message : InsertFault → String
  | .duplicate path => s!"'{path.text}' is already part of the template"
  | .invalidPath text => s!"invalid path '{text}'"
  | .notADirectory path => s!"'{path.text}' is a file, not a directory"

/-- The path that names on the way from the root spell. -/
def pathOfNames (names : List String) : Path := ⟨"/".intercalate names⟩

namespace PackageEntries

/-- The names that a path consists of, with either slash between them. Empty names and single points
are dropped; a path that leads upwards, or nowhere, has none. -/
def namesOf? (text : String) : Option (List String) :=
  let names := (Text.split (fun c => c = '/' || c = '\\') text).filter
    fun name => name ≠ "" && name ≠ "."
  if names = [] ∨ names.contains ".." then none else some names

def replace (name : String) (node : PackageNode) : PackageEntries → PackageEntries
  | [] => []
  | (other, old) :: rest =>
    if other = name then (name, node) :: rest else (other, old) :: replace name node rest

/-- Inserts a file at the end of a list of names; `trail` holds the names that led here. -/
def insertAt (file : PackageFile) (trail : List String) (entries : PackageEntries) :
    List String → Except InsertFault PackageEntries
  | [] => .error (.invalidPath (pathOfNames trail).text)
  | [name] => match entries.lookup name with
    | some _ => .error (.duplicate (pathOfNames (trail ++ [name])))
    | none => .ok (entries ++ [(name, .file file)])
  | name :: rest => match entries.lookup name with
    | some (.file _) => .error (.notADirectory (pathOfNames (trail ++ [name])))
    | some (.directory inner) => do
      let grown ← insertAt file (trail ++ [name]) inner rest
      return replace name (.directory grown) entries
    | none => do
      let grown ← insertAt file (trail ++ [name]) [] rest
      return entries ++ [(name, .directory grown)]

/-- Inserts a file at a path: the grown entries, and the names that the path stands for. Directories on
the way are made as they are needed, and within a directory every name is taken at most once. -/
def insert (entries : PackageEntries) (path : String) (file : PackageFile) :
    Except InsertFault (PackageEntries × List String) :=
  match namesOf? path with
  | none => .error (.invalidPath path)
  | some names => (insertAt file [] entries names).map (·, names)

def directory? (entries : PackageEntries) : List String → Option PackageEntries
  | [] => some entries
  | name :: rest => match entries.lookup name with
    | some (.directory inner) => directory? inner rest
    | _ => none

/-- The directory at a path: the names that lead to it, and its entries. -/
def find? (entries : PackageEntries) (path : Path) : Option (List String × PackageEntries) :=
  let names := path.components.map Component.text
  (directory? entries names).map (names, ·)

end PackageEntries

mutual

/-- The files of a node with the names that lead to them, in the order of a walk that goes through a
directory where it stands. -/
def PackageNode.files (trail : List String) : PackageNode → List (List String × PackageFile)
  | .file file => [(trail, file)]
  | .directory entries => PackageEntries.filesFrom trail entries

def PackageEntries.filesFrom (trail : List String) :
    List (String × PackageNode) → List (List String × PackageFile)
  | [] => []
  | (name, node) :: rest =>
    node.files (trail ++ [name]) ++ PackageEntries.filesFrom trail rest

end

def PackageEntries.files (entries : PackageEntries) : List (List String × PackageFile) :=
  PackageEntries.filesFrom [] entries

end Stencil
