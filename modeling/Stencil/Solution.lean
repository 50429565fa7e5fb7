import Stencil.FileSystem
import Stencil.Journal
import Stencil.Substitution
import Stencil.Template
import Stencil.Text

/-!
Solution files: a header, a block of lines for each project, and a global section that is kept as it
is. Projects are only ever added, and each file only once.
-/

namespace Stencil

structure SolutionProject where
  typeGuid : String
  name : String
  /-- The way from the solution's directory, with `\` between components. -/
  path : String
  guid : String
  /-- The lines of the project's block. -/
  lines : List String
deriving DecidableEq, Repr

structure Solution where
  path : Path
  formatVersion : String
  minimumVersion : Option String
  header : List String
  projects : List SolutionProject
  globalSection : List String
deriving DecidableEq, Repr

namespace Solution

def create (path : Path) : Solution :=
  { path
    formatVersion := "12.00"
    minimumVersion := some "10.0.40219.1"
    header := []
    projects := []
    globalSection := [] }

/-- What stands before the version in the first line of the header. -/
def formatHeader : String := "Microsoft Visual Studio Solution File, Format Version "

def minimumVersionKey : String := "MinimumVisualStudioVersion"

/-- The global section of a solution that has none yet. -/
def defaultGlobalSection : List String :=
  ["Global",
    "\tGlobalSection(SolutionProperties) = preSolution",
    "\t\tHideSolutionNode = FALSE",
    "\tEndGlobalSection",
    "EndGlobal"]

def textLines (s : Solution) : List String :=
  ["", formatHeader ++ s.formatVersion] ++ s.header ++
    (s.minimumVersion.toList.map fun version => s!"{minimumVersionKey} = {version}") ++
    s.projects.flatMap (·.lines) ++
    if s.globalSection = [] then defaultGlobalSection else s.globalSection

def text (s : Solution) : String := String.join (s.textLines.map (· ++ "\r\n"))

/-- What stands between quotes at the front, and what follows them. -/
def quoted? : List Char → Option (List Char × List Char)
  | '"' :: rest => Text.splitAtFirst '"' rest
  | _ => none

/-- What follows a character that may have white space around it. -/
def afterMark? (mark : Char) (cs : List Char) : Option (List Char) :=
  match Text.dropBlank cs with
  | c :: rest => if c = mark then some (Text.dropBlank rest) else none
  | [] => none

/-- An identifier in braces, with what follows the closing one. -/
def braced? (cs : List Char) : Option (String × List Char) :=
  match Text.splitAtFirst '}' cs with
  | some (body@(_ :: _), rest) => some (String.ofList body, rest)
  | _ => none

/-- The project that the first line of a block declares, the line being the whole block so far. The
line reads `Project("{type}") = "name", "path", "{guid}"`. -/
def projectOfLine? (line : String) : Option SolutionProject := do
  let rest ← Text.afterStart "Project(\"\x7b".toList (Text.trimChars line.toList)
  let (typeGuid, rest) ← braced? rest
  let rest ← Text.afterStart "\")".toList rest
  let rest ← afterMark? '=' rest
  let (name, rest) ← quoted? rest
  let rest ← afterMark? ',' rest
  let (path, rest) ← quoted? rest
  let rest ← afterMark? ',' rest
  let rest ← Text.afterStart "\"\x7b".toList rest
  let (guid, rest) ← braced? rest
  if rest = ['"'] then
    some ⟨typeGuid, String.ofList name, String.ofList path, guid, [line]⟩
  else none

/-- What the lines read so far amount to. -/
structure Reading where
  formatVersion : Option String := none
  minimumVersion : Option String := none
  header : List String := []
  projects : List SolutionProject := []
  globalSection : List String := []
  /-- The project whose block is not yet complete. -/
  openProject : Option SolutionProject := none

namespace Reading

def addHeaderLine (r : Reading) (trimmed : String) : Reading :=
  match Text.splitAtFirst '=' trimmed.toList with
  | some (key, value) =>
    if Text.trim (String.ofList key) = minimumVersionKey then
      { r with minimumVersion := some (Text.trim (String.ofList value)) }
    else { r with header := r.header ++ [trimmed] }
  | none => if trimmed = "" then r else { r with header := r.header ++ [trimmed] }

def addOuterLine (path : Path) (r : Reading) (line : String) : Except SolutionFault Reading :=
  let trimmed := Text.trim line
  match Text.afterStart formatHeader.toList trimmed.toList with
  | some version => .ok { r with formatVersion := some (Text.trim (String.ofList version)) }
  | none => match projectOfLine? line with
    | some project => .ok { r with openProject := some project }
    | none =>
      if "Project(".isPrefixOf trimmed then .error (.malformedProject path trimmed)
      else if trimmed = "Global" then .ok { r with globalSection := [line] }
      else .ok (r.addHeaderLine trimmed)

def addProjectLine (r : Reading) (project : SolutionProject) (line : String) : Reading :=
  let grown := { project with lines := project.lines ++ [line] }
  if Text.trim line = "EndProject" then
    { r with projects := r.projects ++ [grown], openProject := none }
  else { r with openProject := some grown }

def addLine (path : Path) (r : Reading) (line : String) : Except SolutionFault Reading :=
  -- the global section never ends: all that follows its first line belongs to it
  if r.globalSection ≠ [] then .ok { r with globalSection := r.globalSection ++ [line] }
  else match r.openProject with
    | some project => .ok (r.addProjectLine project line)
    | none => r.addOuterLine path line

/-- The solution that a complete reading stands for. -/
def finish (path : Path) (r : Reading) : Except SolutionFault Solution :=
  match r.openProject, r.formatVersion with
  | some _, _ => .error (.unfinishedProject path)
  | none, none => .error (.noHeader path)
  | none, some formatVersion =>
    .ok ⟨path, formatVersion, r.minimumVersion, r.header, r.projects, r.globalSection⟩

end Reading

/-- A line without the carriage returns at its end. -/
def dropReturns (line : String) : String :=
  String.ofList (line.toList.reverse.dropWhile (· = '\r')).reverse

def linesOf (content : String) : List String :=
  (Text.lines (String.ofList (content.toList.dropWhile (· = '\uFEFF')))).map dropReturns

/-- The solution that a text at a path stands for. -/
def parse (path : Path) (content : String) : Except SolutionFault Solution := do
  (← (linesOf content).foldlM (Reading.addLine path) {}).finish path

def load (fs : FileSystem) (path : Path) : Except Failure Solution :=
  match fs.readText path with
  | .error fault => .error (.file fault)
  | .ok content => (parse path content).mapError .solution

/-- Loads the solution at a path, or creates one if there is no file. The flag tells whether it was
created. -/
def loadOrCreate (fs : FileSystem) (path : Path) : Except Failure (Solution × Bool) :=
  if fs.isFile path then (load fs path).map (·, false) else .ok (create path, true)

/-- The directory that the paths of projects start from. -/
def directory (s : Solution) (workingDirectory : Path) : Path :=
  (((s.path.absolute? workingDirectory).getD s.path).parent?).getD ⟨""⟩

/-- The path of a project file as it stands in the solution. -/
def projectPath (s : Solution) (workingDirectory project : Path) : String :=
  let relative := (s.directory workingDirectory).relativeTo project
  relative.text.map fun c => if c = '/' then '\\' else c

/-- Whether a project's path is in the solution, in any case. -/
def hasProject (s : Solution) (path : String) : Bool :=
  s.projects.any fun project => Text.sameWord project.path path

def newProject (language : Language) (name path guid : String) : SolutionProject :=
  let line := s!"Project(\"\x7b{language.projectType}\x7d\") = \"{name}\", \"{path}\", " ++
    s!"\"\x7b{guid}\x7d\""
  ⟨language.projectType, name, path, guid, [line, "EndProject"]⟩

/-- Adds a project file. The flag tells whether it was added: a file that is there already is not. -/
def addProject (s : Solution) (workingDirectory : Path) (guid : Guid) (project : Path) :
    Except SolutionFault (Solution × Bool) :=
  match Language.ofProjectExtension? (project.extension?.getD "") with
  | none => .error (.unsupportedProject project)
  | some language =>
    let path := s.projectPath workingDirectory project
    if s.hasProject path then .ok (s, false)
    else
      let added := newProject language (project.stem?.getD "") path
        (guid.text.map Char.toUpper)
      .ok ({ s with projects := s.projects ++ [added] }, true)

def save (s : Solution) : FileStep Unit := do
  match s.path.parent?.filter (·.text ≠ "") with
  | some parent => FileSystem.createDirectories parent
  | none => pure ()
  FileSystem.writeText s.path s.text

end Solution

end Stencil
