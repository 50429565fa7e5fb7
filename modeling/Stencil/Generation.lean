import Stencil.Run
import Stencil.Solution

/-!
Generation: each entry of a template is written below a destination, and the project files among them
are added to a solution. What goes wrong with one entry is reported and the next is taken up; only a
destination that may not be written to, or a strict journal, ends the run.
-/

namespace Stencil

structure GenerationRequest where
  destination : Path
  solution : Option Path := none
  values : List (String × String) := []
  language : Language := .cSharp
deriving DecidableEq, Repr

/-- Whether a path follows the convention for project files. -/
def isProjectFile (p : Path) : Bool :=
  match p.extension? with
  | some extension => "proj".toList.isSuffixOf (extension.toList.map Char.toLower)
  | none => false

namespace Generation

/-- Writes a source to a target: as it is, or expanded. -/
def writeEntry (r : Renderer) (raw : Bool) (source target : Path) : Attempt Run Unit := do
  if raw then
    Run.say .info s!"Copying file '{source.text}' to '{target.text}'."
    Run.onFiles (FileSystem.copy source target)
  else
    Run.say .info s!"Rendering file '{source.text}'."
    let rendered ← Run.expandSource r source
    Run.detail s!"Writing file '{source.text}' to '{target.text}'"
    Run.onFiles (FileSystem.writeText target rendered)

/-- Writes the target of an entry, tells of it and notes it. -/
def writeTarget (r : Renderer) (e : Entry) (source target : Path) : Attempt Run (Option Path) := do
  writeEntry r e.raw source target
  Run.announce ⟨source, target⟩
  Run.addWritten ⟨source, target⟩
  return some target

/-- Fills a target that is free, with the directory above it made first. -/
def fillTarget (r : Renderer) (e : Entry) (source target : Path) : Attempt Run (Option Path) := do
  match target.parent? with
  | some parent => Run.onFiles (FileSystem.createDirectories parent)
  | none => pure ()
  writeTarget r e source target

/-- A target is filled by writing it, maybe after making the directory above it. -/
theorem fillTarget_cases {p : Attempt Run (Option Path) → Prop} {r : Renderer} {e : Entry}
    {source target : Path}
    (hmade : ∀ parent, target.parent? = some parent → p (do
      Run.onFiles (FileSystem.createDirectories parent)
      writeTarget r e source target))
    (hwrite : target.parent? = none → p (writeTarget r e source target)) :
    p (fillTarget r e source target) := by
  unfold fillTarget
  split
  · next parent hparent => exact hmade parent hparent
  · next hparent => exact hwrite hparent

/-- Makes the file of an entry from a source. There is none if the target exists. -/
def makeFrom (r : Renderer) (t : Template) (destination : Path) (e : Entry) (source : Path) :
    Attempt Run (Option Path) := do
  let relative ← Run.expanding (e.resolveDestination r t)
  let target := destination.join ⟨relative⟩
  -- the answer is taken before any directory on the way is made
  if (← Run.currentFiles).has target then
    Run.sayAt .warning ⟨t.path, e.position⟩
      (s!"Tried to render file to '{target.text}', but file exists. " ++
        "Check the template file for duplicate dst attributes.")
    return none
  else fillTarget r e source target

/-- Makes the file of an entry. -/
def makeEntry (r : Renderer) (t : Template) (destination : Path) (e : Entry) :
    Attempt Run (Option Path) := do
  let source ← Run.expanding (e.resolveSource (← Run.currentFiles) r t)
  makeFrom r t destination e source

/-- Makes the file of an entry, or reports why it cannot be made. -/
def tryEntry (r : Renderer) (t : Template) (destination : Path) (e : Entry) :
    Attempt Run (Option Path) := do
  match ← (makeEntry r t destination e).caught with
  | .ok target => return target
  | .error (.reported _) => return none
  | .error failure =>
    if failure.endsRun then throw failure
    else
      Run.sayAt .error ⟨t.path, e.position⟩
        s!"Error rendering '{e.source}': {failure.message}"
      return none

/-- Says that the file of an entry was made, and notes it if it is a project file. -/
def noteTarget (kind : String) (e : Entry) (target : Path) : Attempt Run Unit := do
  Run.say .info s!"Rendered {kind} '{e.source}' to '{target.text}'."
  if isProjectFile target then Run.addProject target

def addEntry (r : Renderer) (t : Template) (destination : Path) (kind : String) (e : Entry) :
    Attempt Run Unit := do
  match ← tryEntry r t destination e with
  | none => return ()
  | some target => noteTarget kind e target

def addProject (r : Renderer) (t : Template) (destination : Path) (p : Project) :
    Attempt Run Unit := do
  addEntry r t destination "project" p.entry
  p.files.forM (addEntry r t destination "file")

/-- Adds a project file to a solution and says what became of it. -/
def registerProject (name : String) (s : Solution) (project : Path) : Attempt Run Solution := do
  let workingDirectory := (← Run.currentFiles).workingPath
  let projectName := project.fileName?.getD ""
  match s.addProject workingDirectory (← Run.nextGuid) project with
  | .ok (grown, true) =>
    Run.drawGuid
    Run.say .info s!"Added project '{projectName}' to solution '{name}'."
    return grown
  | .ok (same, false) =>
    Run.detail s!"Project '{s.projectPath workingDirectory project}' already in solution"
    Run.say .warning s!"Project '{projectName}' is already part of solution '{name}'."
    return same
  | .error fault =>
    Run.say .error
      (s!"Could not add project '{projectName}' to solution '{name}': " ++
        (Failure.solution fault).message)
    return s

def assembleSolution (path : Path) (projects : List Path) : Attempt Run Unit := do
  let (solution, created) ← Attempt.ofExcept (Solution.loadOrCreate (← Run.currentFiles) path)
  let name := path.fileName?.getD ""
  if created then Run.say .info s!"Created solution '{name}'."
  let full ← projects.foldlM (registerProject name) solution
  Run.onFiles full.save

def trySolution (path : Path) (projects : List Path) : Attempt Run Unit := do
  match ← (assembleSolution path projects).caught with
  | .ok () => return ()
  | .error failure =>
    if failure.endsRun then throw failure
    else Run.say .error s!"Failed to update solution '{path.text}': {failure.message}"

def renderer (t : Template) (settings : Settings) (year : Nat) (q : GenerationRequest) : Renderer :=
  { store := t.variablesFor q.language q.values
    expander := .values
    unresolved := settings.unresolved
    year }

def steps (t : Template) (settings : Settings) (year : Nat) (q : GenerationRequest) :
    Attempt Run Unit := do
  let destination ← Run.destination settings q.destination
  Run.journaled (t.mentionIgnored q.values)
  Run.onFiles (FileSystem.createDirectories destination)
  t.projects.forM (addProject (renderer t settings year q) t destination)
  match q.solution with
  | some path => trySolution path (← get).projects
  | none => return ()

end Generation

/-- Generates the files of a template: the report, and the state that the run ends in. -/
def generate (t : Template) (settings : Settings) (year : Nat) (q : GenerationRequest)
    (files : FileSystem) (guids : GuidSource) : Report × Run :=
  Run.finish (Generation.steps t settings year q) (Run.start files guids settings)

end Stencil
