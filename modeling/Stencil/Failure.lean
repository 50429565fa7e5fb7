import Stencil.Diagnostic
import Stencil.FileSystem.Node
import Stencil.Markup.Fault

namespace Stencil

inductive TemplateFault where
  | nesting (fault : Markup.NestingFault)
  | projectNotPlaced
  | other (reason : String)
deriving DecidableEq, Repr

def TemplateFault.message : TemplateFault → String
  | .nesting fault => fault.message
  | .projectNotPlaced => "project file missing from tree"
  | .other reason => reason

inductive SolutionFault where
  | malformedProject (path : Path) (line : String)
  | unfinishedProject (path : Path)
  | noHeader (path : Path)
  | unsupportedProject (project : Path)
  | other (reason : String)
deriving DecidableEq, Repr

def SolutionFault.message : SolutionFault → String
  | .malformedProject path line =>
    s!"Invalid solution `{path.text}`. Malformed project line '{line}'"
  | .unfinishedProject path =>
    s!"Invalid solution `{path.text}`. Project block is missing 'EndProject'"
  | .noHeader path => s!"Invalid solution `{path.text}`. File header is missing"
  | .unsupportedProject project => s!"Unsupported project type '{project.text}'"
  | .other reason => reason

inductive ConfigurationFault where
  | malformedPair (argument : String)
  | secondSolution (argument : String)
  | malformedDocument
  | nestedValue (name : String)
  | other (reason : String)
deriving DecidableEq, Repr

def ConfigurationFault.message : ConfigurationFault → String
  | .malformedPair argument =>
    s!"Invalid variable override '{argument}', expected <key>:<value>"
  | .secondSolution argument => s!"Only one solution file may be given, found '{argument}'"
  | .malformedDocument => "Invalid overrides format"
  | .nestedValue name => s!"Variable '{name}' must be a scalar value"
  | .other reason => reason

inductive ValidationFault where
  | destinationIsFile (destination : Path)
  | other (reason : String)
deriving DecidableEq, Repr

def ValidationFault.message : ValidationFault → String
  | .destinationIsFile destination => s!"The destination '{destination.text}' is an existing file"
  | .other reason => reason

/-- Why an operation did not succeed. Three failures carry a diagnostic that was recorded when they
arose: a fatal one ends the whole run, a raised one does so because the journal is strict, and a reported
one ends only the entry that it is about. -/
inductive Failure where
  | file (fault : FileFault)
  | markup (fault : Markup.Fault)
  | template (fault : TemplateFault)
  | occupied (destination : String)
  | solution (fault : SolutionFault)
  | configuration (fault : ConfigurationFault)
  | validation (fault : ValidationFault)
  | fatal (diagnostic : Diagnostic)
  | raised (diagnostic : Diagnostic)
  | reported (diagnostic : Diagnostic)
deriving DecidableEq, Repr

namespace Failure

def message : Failure → String
  | file fault => s!"IO error: {fault.message}."
  | markup fault => s!"XML error: {fault.message}."
  | template fault => s!"Template error: {fault.message}."
  | occupied destination =>
    s!"The destination directory '{destination}' already exists and is not empty. " ++
      "Use --force to write anyway."
  | solution fault => s!"Solution error: {fault.message}."
  | configuration fault => s!"Configuration error: {fault.message}."
  | validation fault => s!"Validation error: {fault.message}."
  | fatal diagnostic => diagnostic.text
  | raised diagnostic => diagnostic.text
  | reported diagnostic => diagnostic.text

/-- Whether the failure ends the whole run and not just one entry. -/
def endsRun : Failure → Bool
  | fatal _ | raised _ | occupied _ => true
  | _ => false

/-- Whether the failure was recorded when it arose. -/
def isRecorded : Failure → Bool
  | fatal _ | raised _ | reported _ => true
  | _ => false

end Failure

end Stencil
