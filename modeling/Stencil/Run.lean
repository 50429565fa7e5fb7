import Stencil.FileSystem
import Stencil.Journal
import Stencil.Substitution
import Stencil.Template.Description

namespace Stencil

/-- What a run works on: the files, what expanding texts needs, and what the report will say. -/
structure Run where
  files : FileSystem
  expansion : Expansion
  written : List WrittenFile := []
  projects : List Path := []
  /-- The files that whoever watches the run was told of. -/
  observed : List WrittenFile := []

namespace Run

def start (files : FileSystem) (guids : GuidSource) (settings : Settings) : Run :=
  { files, expansion := { journal := settings.journal, guids } }

/-- A step of expanding texts. -/
def expanding {α : Type} (x : Attempt Expansion α) : Attempt Run α :=
  x.onPart (·.expansion) fun expansion r => { r with expansion }

/-- A step that only speaks. -/
def journaled {α : Type} (x : Attempt Journal α) : Attempt Run α := expanding (Expansion.journaled x)

def say (level : Level) (message : String) : Attempt Run Unit := journaled (Journal.say level message)

def sayAt (level : Level) (location : Location) (message : String) : Attempt Run Unit :=
  journaled (Journal.sayAt level location message)

def detail (message : String) : Attempt Run Unit := journaled (Journal.detail message)

/-- A step that changes files. -/
def onFiles {α : Type} (x : FileStep α) : Attempt Run α := fun r =>
  match x r.files with
  | .ok a files => .ok a { r with files }
  | .error fault files => .error (.file fault) { r with files }

/-- The files as they are now. -/
def currentFiles : Attempt Run FileSystem := fun r => .ok r.files r

/-- A look at the files that may fail. -/
def looking {α : Type} (x : FileSystem → Except FileFault α) : Attempt Run α := fun r =>
  match x r.files with
  | .ok a => .ok a r
  | .error fault => .error (.file fault) r

def addWritten (file : WrittenFile) : Attempt Run Unit := fun r =>
  .ok () { r with written := r.written ++ [file] }

/-- Tells whoever watches the run of a file that was written. -/
def announce (file : WrittenFile) : Attempt Run Unit := fun r =>
  .ok () { r with observed := r.observed ++ [file] }

def addProject (path : Path) : Attempt Run Unit := fun r =>
  .ok () { r with projects := r.projects ++ [path] }

def nextGuid : Attempt Run Guid := fun r => .ok r.expansion.guids.next r

/-- Gives out an identifier. -/
def drawGuid : Attempt Run Unit := fun r =>
  .ok () { r with expansion := { r.expansion with guids := r.expansion.guids.advance } }

def expandSource (r : Renderer) (source : Path) : Attempt Run String := do
  let text ← looking (·.readText source)
  expanding (r.render source text)

/-- Checks that a run may write to a destination: no file, and no directory that holds anything
unless it may be written into. -/
def checkDestination (fs : FileSystem) (destination : Path) (overwrite : Bool) :
    Except Failure Unit :=
  if fs.isFile destination then .error (.validation (.destinationIsFile destination))
  else if fs.isDirectory destination && !overwrite then
    match fs.names destination with
    | .ok [] => .ok ()
    | .ok (_ :: _) => .error (.occupied destination.text)
    | .error fault => .error (.file fault)
  else .ok ()

/-- The destination of a run as an absolute path, if the run may write there. -/
def destination (settings : Settings) (destination : Path) : Attempt Run Path := fun r =>
  match checkDestination r.files destination settings.overwrite with
  | .error failure => .error failure r
  | .ok () => match destination.absolute? r.files.workingPath with
    | some path => .ok path r
    | none => .error (.file .emptyPath) r

/-- The report of a run that ended with a result, and the final state of the run. -/
def finish (x : Attempt Run Unit) (r : Run) : Report × Run :=
  let (result, last) := x.outcome r
  let (outcome, closed) := last.expansion.journal.close result
  (⟨outcome, closed.records, last.written, last.projects⟩,
    { last with expansion := { last.expansion with journal := closed } })

end Run

/-- The variables of a template with the extension of a language and with given values. A value given
for the extension wins over the language. -/
def Template.variablesFor (t : Template) (language : Language) (values : List (String × String)) :
    VariableStore :=
  (t.store.set sourceExtensionName language.sourceExtension).withValues values

/-- The names that values are given for although the template does not declare them. -/
def Template.undeclaredNames (t : Template) (values : List (String × String)) : List String :=
  (values.map (·.1)).filter fun name => !t.store.contains name

def Template.mentionIgnored (t : Template) (values : List (String × String)) :
    Attempt Journal Unit :=
  (t.undeclaredNames values).forM fun name =>
    Journal.detail s!"Ignoring override for undeclared variable '{name}'"

namespace Entry

/-- The first candidate that is a file once it is expanded. -/
def firstSource (fs : FileSystem) (r : Renderer) (t : Template) (e : Entry) :
    List String → Attempt Expansion Path
  | [] => Expansion.reported ⟨t.path, e.position⟩ s!"Source file '{e.source}' not found."
  | candidate :: rest => do
    let path : Path := ⟨← r.renderAt t.path e.position candidate⟩
    if fs.isFile path then return path else firstSource fs r t e rest

def resolveSource (fs : FileSystem) (r : Renderer) (t : Template) (e : Entry) :
    Attempt Expansion Path := do
  let places := ", ".intercalate e.candidates
  Expansion.say .verbose s!"Looking for {e.source} at {places}"
  firstSource fs r t e e.candidates

/-- The destination of an entry, relative to the output. -/
def resolveDestination (r : Renderer) (t : Template) (e : Entry) : Attempt Expansion String := do
  let relative ← r.renderAt t.path e.position e.destination
  if Text.isBlankText relative || (Path.mk relative).isRooted then
    Expansion.reported ⟨t.path, e.position⟩
      (s!"Destination '{e.destination}' rendered to an empty or rooted path " ++
        s!"'{relative}'.")
  else return relative

end Entry

end Stencil
