import Std.Time.Format
import Stencil.CommandLine.Console
import Stencil.CommandLine.Options

namespace Stencil.Disk

/-- How deep directories are read. A link that leads back to a directory above it ends there. -/
def depthLimit : Nat := 64

def readNode : Nat → IO.FS.DirEntry → IO (Option Node)
  | 0, _ => return none
  | depth + 1, entry => do
    let path := entry.path
    if ← path.isDir then
      let children ← (← path.readDir).toList.filterMapM fun child => do
        return (← readNode depth child).map (child.fileName, ·)
      return some (.directory children)
    else if ← path.pathExists then
      return some (.file (← IO.FS.readBinFile path))
    else return none

/-- The node at a path of the disk, with at most so many directories below each other. -/
def nodeAt (depth : Nat) (p : Path) : IO (Option Node) :=
  match p.fileName? with
  | some name => readNode depth ⟨p.directory.text, name⟩
  | none => readNode depth ⟨p.text, "."⟩

/-- The files with a node added at an absolute path, and the directories above it. -/
def mount (fs : FileSystem) (p : Path) (node : Node) : FileSystem :=
  let names := FileSystem.stepsOf p
  let above := (List.range names.length).map names.take
  let rooted := above.foldl (fun (fs : FileSystem) place =>
    if (fs.root.get? place).isSome then fs else fs.put place (.directory [])) fs
  rooted.put names node

/-- The files with what the disk holds at a path. Where it holds nothing, it only counts what the
nearest path above is. -/
def load (fs : FileSystem) (p : Path) : IO FileSystem := do
  match ← nodeAt depthLimit p with
  | some node => return mount fs p node
  | none =>
    match ← p.ancestors.findSomeM? fun above => return (← nodeAt 1 above).map (above, ·) with
    | none => return fs
    | some (above, node) =>
      if fs.has above then return fs else return mount fs above node

def loadAll (fs : FileSystem) (paths : List Path) : IO FileSystem :=
  (paths.filterMap (·.absolute? fs.workingPath)).foldlM load fs

def namedPaths (o : Options) : List Path :=
  [o.template.directory] ++ o.destination.toList ++ o.variablesFile.toList ++
    (o.rest.filter Trailing.isSolution).map Path.mk

/-- The source directories that the template of a command line names. -/
def sourceDirectories (o : Options) (fs : FileSystem) : List Path :=
  match fs.readText o.template with
  | .error _ => []
  | .ok source => match Markup.Element.ofText source with
    | .error _ => []
    | .ok root => (Template.sourceDirectoriesOf o.template root).map (·.1)

/-- The files that a command line can touch. -/
def snapshot (o : Options) : IO FileSystem := do
  let place := FileSystem.stepsOf ⟨toString (← IO.currentDir)⟩
  let start : FileSystem := { workingDirectory := place }
  let start := mount start ⟨"/" ++ "/".intercalate place⟩ (.directory [])
  let named ← loadAll start (namedPaths o)
  loadAll named (sourceDirectories o named)

def isChanged (earlier : Option Node) : Option ByteArray → Bool
  | none => earlier.isNone
  | some content => match earlier with
    | some (.file old) => old.data != content.data
    | _ => true

/-- Writes to the disk what is new or different. -/
def store (earlier later : FileSystem) : IO Unit :=
  (later.root.descendants "/").forM fun (path, content) => do
    if isChanged (earlier.root.get? (FileSystem.stepsOf ⟨path⟩)) content then
      match content with
      | none => IO.FS.createDirAll path
      | some bytes => IO.FS.writeBinFile path bytes

end Stencil.Disk

open Stencil in
/-- Runs the program with its arguments; the exit code says how it went. The part of the disk that the
command line can touch is read into memory, and what is new or different afterwards is written back. -/
def main (arguments : List String) : IO UInt32 := do
  match Options.parse arguments with
  | .error fault =>
    IO.print (Usage.output fault)
    IO.eprint (Usage.complaint fault)
    return fault.exitCode.toUInt32
  | .ok o =>
    let files ← Disk.snapshot o
    let input ← if o.has .stdin then (← IO.getStdin).readBinToEnd else pure .empty
    let today ← Std.Time.PlainDate.now
    let seed ← IO.rand 0 (Nat.pow 2 122 - 1)
    let ending := o.run files input today.year.toNat ⟨seed, 0⟩
    Disk.store files ending.files
    IO.print ending.output
    IO.eprint ending.errorText
    return ending.exitCode.toUInt32
