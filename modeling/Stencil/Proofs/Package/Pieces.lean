import Stencil.Package

namespace Stencil

/-- A directory or a file of a package, with the names that lead to it. -/
abbrev PackagePiece := List String × Option PackageFile

mutual

def PackageNode.pieces (trail : List String) : PackageNode → List PackagePiece
  | .file file => [(trail, some file)]
  | .directory entries => (trail, none) :: PackageEntries.piecesFrom trail entries

def PackageEntries.piecesFrom (trail : List String) :
    List (String × PackageNode) → List PackagePiece
  | [] => []
  | (name, node) :: rest =>
    node.pieces (trail ++ [name]) ++ PackageEntries.piecesFrom trail rest

end

namespace Package

/-- Makes a directory, or tries a file. -/
def writePiece (r : Renderer) (output : Path) : PackagePiece → Attempt Run Unit
  | (trail, some file) => tryFile r file (output.join (pathOfNames trail))
  | (trail, none) => Run.onFiles (FileSystem.createDirectories (output.join (pathOfNames trail)))

mutual

theorem writeNode_eq_forM (r : Renderer) (output : Path) (trail : List String) :
    (node : PackageNode) →
      writeNode r output trail node = (node.pieces trail).forM (writePiece r output)
  | .file file => by
    unfold writeNode PackageNode.pieces
    exact (bind_pure (tryFile r file (output.join (pathOfNames trail)))).symm
  | .directory entries => by
    unfold writeNode PackageNode.pieces
    rw [writeEntries_eq_forM r output trail entries]
    rfl

theorem writeEntries_eq_forM (r : Renderer) (output : Path) (trail : List String) :
    (entries : List (String × PackageNode)) →
      writeEntries r output trail entries =
        (PackageEntries.piecesFrom trail entries).forM (writePiece r output)
  | [] => by
    unfold writeEntries PackageEntries.piecesFrom
    rfl
  | (name, node) :: rest => by
    unfold writeEntries PackageEntries.piecesFrom
    rw [writeNode_eq_forM r output (trail ++ [name]) node, writeEntries_eq_forM r output trail rest]
    exact List.forM_append.symm

end

/-- Where a package goes, its layout, and the names of its project file. -/
abbrev Plan := Path × PackageEntries × List String

def plan (t : Template) (settings : Settings) (year : Nat) (q : ExportRequest) : Attempt Run Plan := do
  let output ← Run.destination settings q.output
  Run.journaled (t.mentionIgnored q.values)
  Run.detail s!"Exporting Visual Studio template to {output.text}"
  let project ← onlyProject t
  let (entries, names) ←
    Run.expanding (layOutProject (← Run.currentFiles) (renderer t settings year q) t project)
  return (output, entries, names)

def writeOut (t : Template) (r : Renderer) (language : Language) : Plan → Attempt Run Unit
  | (output, entries, names) => do
    writeNode r output [] (.directory entries)
    copyAsset t output t.icon
    copyAsset t output t.preview
    warnOfOutsiders entries names
    writeDescriptor t language output entries names

/-- An export plans everything before it writes anything. -/
theorem steps_eq (t : Template) (settings : Settings) (year : Nat) (q : ExportRequest) :
    steps t settings year q =
      plan t settings year q >>= writeOut t (renderer t settings year q) q.language := by
  simp only [steps, plan, writeOut, bind_assoc, pure_bind]

/-- What is done between the pieces of the layout and the descriptor. -/
def besides (t : Template) (output : Path) (entries : PackageEntries) (project : List String) :
    Attempt Run Unit := do
  copyAsset t output t.icon
  copyAsset t output t.preview
  warnOfOutsiders entries project

/-- What is written into the output once that is made. -/
def fill (t : Template) (r : Renderer) (language : Language) : Plan → Attempt Run Unit
  | (output, entries, names) => do
    (PackageEntries.piecesFrom [] entries).forM (writePiece r output)
    besides t output entries names
    writeDescriptor t language output entries names

/-- The output itself is made first. -/
theorem writeOut_eq (t : Template) (r : Renderer) (language : Language) (p : Plan) :
    writeOut t r language p =
      Run.onFiles (FileSystem.createDirectories (p.1.join (pathOfNames []))) >>= fun _ =>
        fill t r language p := by
  obtain ⟨output, entries, names⟩ := p
  have hnode : writeNode r output [] (.directory entries) =
      Run.onFiles (FileSystem.createDirectories (output.join (pathOfNames []))) >>= fun _ =>
        (PackageEntries.piecesFrom [] entries).forM (writePiece r output) := by
    rw [writeNode_eq_forM]
    rfl
  simp only [writeOut, fill, besides, hnode, bind_assoc]

end Package

end Stencil
