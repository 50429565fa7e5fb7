import Stencil.FileSystem.Node
import Stencil.Path

/-!
A file system in memory, without links and permissions. A path is resolved step by step from the root
or the working directory: each step must lead from a directory that exists, and `..` leads to the
directory above, whatever the path looks like as a text. What a path resolves to is a list of names
from the root, and two paths denote the same thing exactly if these lists are equal.
-/

namespace Stencil

/-- All directories and files, and the directory that relative paths start from. -/
structure FileSystem where
  root : Node := .directory []
  workingDirectory : List String := []

/-- A step that changes files and may fail. It leaves what it did before it failed. -/
abbrev FileStep (α : Type) := EStateM FileFault FileSystem α

namespace FileSystem

/-- The longest name that an entry can have, and the length that a path must not reach, in bytes. -/
def nameLimit : Nat := 255
def pathLimit : Nat := 4096

def workingPath (fs : FileSystem) : Path := ⟨"/" ++ "/".intercalate fs.workingDirectory⟩

/-- The steps that a path consists of: its segments, without empty ones. -/
def stepsOf (p : Path) : List String := p.segments.filter (· ≠ "")

/-- Whether a path ends with a slash, and so can only denote a directory. -/
def endsInSlash (p : Path) : Bool := p.text.toList.getLast? = some '/'

def startOf (fs : FileSystem) (p : Path) : List String :=
  if p.isRooted then [] else fs.workingDirectory

/-- Refuses texts that cannot be paths at all. -/
def check (p : Path) : Except FileFault Unit :=
  if p.text.toList.contains '\x00' then .error .nulInName
  else if p.text = "" then .error .notFound
  else if pathLimit ≤ p.text.utf8ByteSize then .error .nameTooLong
  else .ok ()

def directoryAt (fs : FileSystem) (place : List String) : Except FileFault Node :=
  match fs.root.get? place with
  | some node => if node.isDirectory then .ok node else .error .notADirectory
  | none => .error .notFound

def stepFrom (fs : FileSystem) (place : List String) (step : String) :
    Except FileFault (List String) := do
  let directory ← fs.directoryAt place
  if step = "." then return place
  else if step = ".." then return place.dropLast
  else if nameLimit < step.utf8ByteSize then throw .nameTooLong
  else match directory.child? step with
    | some _ => return place ++ [step]
    | none => throw .notFound

def walk (fs : FileSystem) (place : List String) (steps : List String) :
    Except FileFault (List String) := steps.foldlM fs.stepFrom place

/-- What a path denotes: the names from the root, and the node there. -/
def resolve (fs : FileSystem) (p : Path) : Except FileFault (List String × Node) := do
  check p
  let steps := stepsOf p ++ if endsInSlash p then ["."] else []
  let place ← fs.walk (fs.startOf p) steps
  match fs.root.get? place with
  | some node => return (place, node)
  | none => throw .notFound

/-- Whether a path denotes anything. -/
def has (fs : FileSystem) (p : Path) : Bool := (fs.resolve p).isOk

def isFile (fs : FileSystem) (p : Path) : Bool :=
  match fs.resolve p with
  | .ok (_, .file _) => true
  | _ => false

def isDirectory (fs : FileSystem) (p : Path) : Bool :=
  match fs.resolve p with
  | .ok (_, .directory _) => true
  | _ => false

def names (fs : FileSystem) (p : Path) : Except FileFault (List String) := do
  match ← fs.resolve p with
  | (_, .directory entries) => return entries.map (·.1)
  | (_, .file _) => throw .notADirectory

def read (fs : FileSystem) (p : Path) : Except FileFault ByteArray := do
  match ← fs.resolve p with
  | (_, .file content) => return content
  | (_, .directory _) => throw .isADirectory

def readText (fs : FileSystem) (p : Path) : Except FileFault String := do
  match String.fromUTF8? (← fs.read p) with
  | some text => return text
  | none => throw .notText

/-- The directory that holds what a path denotes, whether or not that exists, with the last step of
the path. None for the root, which nothing holds. -/
def holder (fs : FileSystem) (p : Path) : Except FileFault (Option (List String × Node × String)) :=
  do
  check p
  match (stepsOf p).getLast? with
  | none => return none
  | some last =>
    let place ← fs.walk (fs.startOf p) (stepsOf p).dropLast
    let directory ← fs.directoryAt place
    return some (place, directory, last)

def newDirectoryPlace (fs : FileSystem) (p : Path) : Except FileFault (List String) := do
  match ← fs.holder p with
  | none => throw .exists
  | some (place, directory, last) =>
    if last = "." ∨ last = ".." then throw .exists
    else if nameLimit < last.utf8ByteSize then throw .nameTooLong
    else match directory.child? last with
      | some _ => throw .exists
      | none => return place ++ [last]

/-- The place of a file that is to be written: one that exists, or a free one. -/
def filePlace (fs : FileSystem) (p : Path) : Except FileFault (List String) := do
  match ← fs.holder p with
  | none => throw .isADirectory
  | some (place, directory, last) =>
    if last = "." ∨ last = ".." ∨ endsInSlash p then throw .isADirectory
    else if nameLimit < last.utf8ByteSize then throw .nameTooLong
    else match directory.child? last with
      | some (.directory _) => throw .isADirectory
      | _ => return place ++ [last]

def put (fs : FileSystem) (place : List String) (node : Node) : FileSystem :=
  { fs with root := fs.root.set node place }

/-- Makes a directory in one that exists. -/
def makeDirectory (p : Path) : FileStep Unit := fun fs =>
  match fs.newDirectoryPlace p with
  | .ok place => .ok () (fs.put place (.directory []))
  | .error fault => .error fault fs

/-- Writes a file, in the place of an earlier one if there is one. -/
def write (p : Path) (content : ByteArray) : FileStep Unit := fun fs =>
  match fs.filePlace p with
  | .ok place => .ok () (fs.put place (.file content))
  | .error fault => .error fault fs

def writeText (p : Path) (text : String) : FileStep Unit := write p text.toUTF8

/-- Copies a file. The target is emptied before the source is read, so a file that is copied onto
itself ends up empty. -/
def copy (source target : Path) : FileStep Unit := fun fs =>
  match fs.resolve source with
  | .error fault => .error fault fs
  | .ok (_, .directory _) => .error .notAFile fs
  | .ok (origin, .file content) => match fs.filePlace target with
    | .error fault => .error fault fs
    | .ok place => .ok () (fs.put place (.file (if place = origin then .empty else content)))

/-- The paths of a list of ancestors, longest first, at which directories are missing. The first
that can be made is made, and the first that exists ends the search. -/
def climb : List Path → FileStep (List Path)
  | [] => pure []
  | p :: above => fun fs =>
    if p.text = "" ∨ p.parent?.isNone then .ok [] fs
    else match makeDirectory p fs with
      | .ok () made => .ok [] made
      | .error .notFound same => match climb above same with
        | .ok missing made => .ok (p :: missing) made
        | .error fault made => .error fault made
      | .error .exists same => if same.isDirectory p then .ok [] same else .error .exists same
      | .error fault same => .error fault same

/-- Makes a directory unless it exists. -/
def ensureDirectory (p : Path) : FileStep Unit := fun fs =>
  match makeDirectory p fs with
  | .error .exists same => if same.isDirectory p then .ok () same else .error .exists same
  | result => result

/-- Makes a directory and those above it, as far as they are missing. -/
def createDirectories (p : Path) : FileStep Unit := do
  if p.text = "" ∨ p.parent?.isNone then return ()
  let missing ← climb p.ancestors
  missing.reverse.forM ensureDirectory

/-- Removes a file, or a directory with everything in it. -/
def remove (p : Path) : FileStep Unit := fun fs =>
  match fs.resolve p with
  | .ok (place, _) => .ok () { fs with root := fs.root.erase place }
  | .error fault => .error fault fs

/-- Everything below a directory, with paths relative to it: the contents of files, and none for
directories, whose paths end in a slash. -/
def descendants (fs : FileSystem) (p : Path) : List (String × Option ByteArray) :=
  match fs.resolve p with
  | .ok (_, node) => node.descendants ""
  | .error _ => []

end FileSystem

end Stencil
