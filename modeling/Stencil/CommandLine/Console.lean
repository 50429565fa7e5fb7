import Stencil.CommandLine.Options
import Stencil.Generation
import Stencil.Overrides
import Stencil.Package
import Stencil.Template
import Stencil.Template.Description

namespace Stencil

/-- The state of a command line that is being run. -/
structure Console where
  files : FileSystem
  guids : GuidSource
  /-- What was handed to the log. -/
  log : List (Level × String) := []
  output : String := ""

/-- What a command line leaves behind. -/
structure Ending where
  exitCode : Nat
  output : String
  /-- The log and the error that ended the run. -/
  errorText : String
  files : FileSystem

namespace Console

abbrev Step (α : Type) := Attempt Console α

def mention (level : Level) (text : String) : Step Unit :=
  modify fun c => { c with log := c.log ++ [(level, text)] }

def print (text : String) : Step Unit := modify fun c => { c with output := c.output ++ text }

def printLine (text : String) : Step Unit := print (text ++ "\n")

/-- A step that speaks through a journal of its own. -/
def journaled {α : Type} (settings : Settings) (x : Attempt Journal α) : Step α := do
  let (result, journal) := x.outcome settings.journal
  modify fun c => { c with log := c.log ++ journal.log }
  Attempt.ofExcept result

/-- Takes over what a run leaves: files, identifiers and what it handed to the log. -/
def adopt (run : Run) : Step Unit :=
  modify fun c => { c with
    files := run.files
    guids := run.expansion.guids
    log := c.log ++ run.expansion.journal.log }

/-- The values from the file with variables, if there is one. -/
def fileValues (o : Options) : Step (List Overrides) := do
  match o.variablesFile with
  | none => return []
  | some path =>
    mention .verbose s!"Loading variable overrides from {path.text}"
    return [← Attempt.ofExcept (Overrides.load (← get).files path)]

/-- The values on the standard input, if they are asked for. -/
def inputValues (o : Options) (input : ByteArray) : Step (List Overrides) := do
  if o.has .stdin then
    match String.fromUTF8? input with
    | none => throw (.file .notText)
    | some document => return [← Attempt.ofExcept ((Overrides.parse document).mapError .configuration)]
  else return []

/-- The values from all sources: the file, then the standard input, then the arguments. -/
def allValues (o : Options) (input : ByteArray) (arguments : Overrides) : Step Overrides := do
  let fromFile ← fileValues o
  let fromInput ← inputValues o input
  return Overrides.merge (fromFile ++ fromInput ++ [arguments])

/-- The line that says how a run ended. A run that ended with a fatal error has none. -/
def summary? (activity : String) (destination : Path) (report : Report) : Option String :=
  match report.outcome with
  | .success => some s!"{activity} completed successfully in {destination.text}."
  | .incomplete =>
    some s!"{activity} completed in {destination.text} with {report.errors.length} error(s)."
  | .fatal => none

def summarize (activity : String) (destination : Path) (report : Report) : Step Outcome := do
  (summary? activity destination report).toList.forM printLine
  return report.outcome

/-- Exports a template. A solution is of no use there. -/
def exportTemplate (o : Options) (t : Template) (year : Nat) (destination : Path)
    (solution : Option Path) (values : Overrides) : Step Outcome := do
  match solution with
  | some path => mention .warning s!"Ignoring solution '{path.text}' when exporting a template."
  | none => pure ()
  let c ← get
  let (report, run) := exportPackage t o.settings year ⟨destination, values, o.language⟩ c.files c.guids
  adopt run
  report.written.forM fun file => printLine s!"Exported: '{file.destination.text}'"
  summarize "Template export" destination report

def generateTemplate (o : Options) (t : Template) (year : Nat) (destination : Path)
    (solution : Option Path) (values : Overrides) : Step Outcome := do
  let c ← get
  let (report, run) :=
    generate t o.settings year ⟨destination, solution, values, o.language⟩ c.files c.guids
  adopt run
  run.observed.forM fun file => printLine s!"Rendered: '{file.destination.text}'"
  report.projects.forM fun project => mention .verbose s!"Generated project {project.text}"
  summarize "Template generation" destination report

/-- Without a destination the variables of the template are listed; otherwise the template is generated or
exported there. -/
def steps (o : Options) (year : Nat) (input : ByteArray) : Step Outcome := do
  let t ← journaled o.settings (Template.load (← get).files o.template)
  match o.destination with
  | none =>
    print (Listing.text t)
    return .success
  | some destination =>
    let trailing ← Attempt.ofExcept ((Trailing.classify o.rest).mapError .configuration)
    let values ← allValues o input trailing.overrides
    if o.has .package then exportTemplate o t year destination trailing.solution values
    else generateTemplate o t year destination trailing.solution values

def mark : Level → String
  | .verbose => "DEBUG"
  | .info => "INFO "
  | .warning => "WARN "
  | .error => "ERROR"
  | .none => "OFF  "

/-- A text whose lines after the first are indented. -/
def indentLines (text : String) : String := "\n    ".intercalate (Text.split (· == '\n') text)

def logLine (entry : Level × String) : String :=
  s!"[{mark entry.1}] {indentLines entry.2}\n"

/-- The part of the log that is not below a level, as text. -/
def logText (threshold : Level) (log : List (Level × String)) : String :=
  String.join ((log.filter fun entry => !(entry.1 < threshold)).map logLine)

def exitCode : Except Failure Outcome → Nat
  | .ok .fatal => 1
  | .ok _ => 0
  | .error _ => 1

/-- What is said of a failure at the end, if the log does not say it. -/
def complaint : Except Failure Outcome → String
  | .ok _ => ""
  | .error (.fatal _) | .error (.raised _) => ""
  | .error failure => failure.message ++ "\n"

end Console

def Options.run (o : Options) (files : FileSystem) (input : ByteArray) (year : Nat)
    (guids : GuidSource) : Ending :=
  let (result, last) := (Console.steps o year input).outcome { files, guids }
  { exitCode := Console.exitCode result
    output := last.output
    errorText := Console.logText o.threshold last.log ++ Console.complaint result
    files := last.files }

end Stencil
