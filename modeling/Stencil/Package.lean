import Stencil.Package.Descriptor
import Stencil.Run

/-!
Packages: a template with a single project, written out for a development environment. All entries
are resolved and laid out before the first file is written. Functions and variables with a role
expand to parameters that the environment fills in.
-/

namespace Stencil

structure ExportRequest where
  output : Path
  values : List (String × String) := []
  language : Language := .cSharp
deriving DecidableEq, Repr

namespace Package

/-- The source and the destination of an entry; none if it was reported that one of them cannot be
had. -/
def resolve (fs : FileSystem) (r : Renderer) (t : Template) (e : Entry) :
    Attempt Expansion (Option (Path × String)) := do
  let both : Attempt Expansion (Path × String) := do
    let source ← e.resolveSource fs r t
    let relative ← e.resolveDestination r t
    return (source, relative)
  match ← both.caught with
  | .ok found => return some found
  | .error (.reported _) => return none
  | .error failure => throw failure

/-- The level of an insertion fault. A path that is taken already is no error. -/
def levelOf : InsertFault → Level
  | .duplicate _ => .warning
  | _ => .error

/-- Lays out an entry: the grown layout, and the names of the entry's place if it got one. -/
def layOut (fs : FileSystem) (r : Renderer) (t : Template) (entries : PackageEntries) (e : Entry) :
    Attempt Expansion (PackageEntries × Option (List String)) := do
  match ← resolve fs r t e with
  | none => return (entries, none)
  | some (source, relative) =>
    match entries.insert relative ⟨source, e.raw⟩ with
    | .ok (grown, names) => return (grown, some names)
    | .error fault =>
      Expansion.sayAt (levelOf fault) ⟨t.path, e.position⟩ s!"Skipping entry: {fault.message}."
      return (entries, none)

def layOutProject (fs : FileSystem) (r : Renderer) (t : Template) (p : Project) :
    Attempt Expansion (PackageEntries × List String) := do
  match ← layOut fs r t [] p.entry with
  | (_, none) =>
    Expansion.journaled (Journal.fatal (some ⟨t.path, p.entry.position⟩)
      s!"Project file '{p.entry.source}' could not be resolved.")
  | (entries, some names) =>
    let full ← p.files.foldlM (fun entries e => do return (← layOut fs r t entries e).1) entries
    return (full, names)

/-- Writes a source to a target: as it is, or expanded. -/
def writeFile (r : Renderer) (file : PackageFile) (target : Path) : Attempt Run Unit := do
  if file.raw then Run.onFiles (FileSystem.copy file.source target)
  else
    let rendered ← Run.expandSource r file.source
    Run.onFiles (FileSystem.writeText target rendered)

/-- Writes a file, or reports why it cannot be written. -/
def tryFile (r : Renderer) (file : PackageFile) (target : Path) : Attempt Run Unit := do
  match ← (writeFile r file target).caught with
  | .ok () => Run.addWritten ⟨file.source, target⟩
  | .error (.reported _) => return ()
  | .error failure =>
    if failure.endsRun then throw failure
    else Run.say .error s!"Error writing '{target.text}': {failure.message}"

mutual

/-- Writes a node below the output; `trail` are the names that lead to it. -/
def writeNode (r : Renderer) (output : Path) (trail : List String) :
    PackageNode → Attempt Run Unit
  | .file file => tryFile r file (output.join (pathOfNames trail))
  | .directory entries => do
    Run.onFiles (FileSystem.createDirectories (output.join (pathOfNames trail)))
    writeEntries r output trail entries

def writeEntries (r : Renderer) (output : Path) (trail : List String) :
    List (String × PackageNode) → Attempt Run Unit
  | [] => return ()
  | (name, node) :: rest => do
    writeNode r output (trail ++ [name]) node
    writeEntries r output trail rest

end

/-- Copies an icon or a preview next to the descriptor. -/
def copyAsset (t : Template) (output : Path) (asset : Option String) : Attempt Run Unit := do
  match asset with
  | none => return ()
  | some asset =>
    let source := t.directory.join ⟨asset⟩
    match source.fileName? with
    | none => Run.say .error s!"Invalid asset path '{asset}'."
    | some name =>
      if (← Run.currentFiles).isFile source then
        match ← (Run.onFiles (FileSystem.copy source (output.join ⟨name⟩))).caught with
        | .error (.file fault) =>
          Run.say .error s!"Failed to copy '{source.text}': {fault.message}"
        | .error failure => throw failure
        | .ok () => return ()
      else Run.say .error s!"Asset not found at '{source.text}'."

/-- Warns of the files that lie outside the directory of the project file. -/
def warnOfOutsiders (entries : PackageEntries) (project : List String) : Attempt Run Unit :=
  entries.files.forM fun (names, _) =>
    if project.dropLast.isPrefixOf names then pure ()
    else
      let path := "/".intercalate names
      Run.say .warning
        s!"'{path}' is outside the project directory and is not listed in the descriptor."

def writeDescriptor (t : Template) (language : Language) (output : Path) (entries : PackageEntries)
    (project : List String) : Attempt Run Unit := do
  match entries.files.lookup project with
  | none => throw (.template .projectNotPlaced)
  | some file =>
    Run.onFiles (FileSystem.writeText (output.join ⟨Descriptor.fileName⟩)
      (Descriptor.text t language entries project file))
    Run.say .info s!"Wrote Visual Studio template to '{output.text}'."

/-- The only project of a template. -/
def onlyProject (t : Template) : Attempt Run Project :=
  match t.projects with
  | [project] => return project
  | [] => Run.journaled (Journal.fatal none "Template does not contain a project to export.")
  | projects => Run.journaled (Journal.fatal none
      s!"VS templates with more than 1 project are not supported, found {projects.length}.")

def renderer (t : Template) (settings : Settings) (year : Nat) (q : ExportRequest) : Renderer :=
  { store := t.variablesFor q.language q.values
    expander := .parameters
    unresolved := settings.unresolved
    year }

def steps (t : Template) (settings : Settings) (year : Nat) (q : ExportRequest) :
    Attempt Run Unit := do
  let output ← Run.destination settings q.output
  Run.journaled (t.mentionIgnored q.values)
  Run.detail s!"Exporting Visual Studio template to {output.text}"
  let r := renderer t settings year q
  let project ← onlyProject t
  -- all entries have their places before the first directory is made
  let (entries, names) ← Run.expanding (layOutProject (← Run.currentFiles) r t project)
  writeNode r output [] (.directory entries)
  copyAsset t output t.icon
  copyAsset t output t.preview
  warnOfOutsiders entries names
  writeDescriptor t q.language output entries names

end Package

/-- Exports a template as a package: the report, and the state that the run ends in. -/
def exportPackage (t : Template) (settings : Settings) (year : Nat) (q : ExportRequest)
    (files : FileSystem) (guids : GuidSource) : Report × Run :=
  Run.finish (Package.steps t settings year q) (Run.start files guids settings)

end Stencil
