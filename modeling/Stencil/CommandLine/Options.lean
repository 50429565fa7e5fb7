import Stencil.Journal
import Stencil.Template

/-!
The options and arguments of the command line. Arguments are taken in one by one. What takes a value is
pending until the next argument shows that it has all its values; only then its value is looked at, so
that of two faults the one that is noticed first is reported.
-/

namespace Stencil

/-- An option without a value. -/
inductive Flag where
  | package | force | verbose | quiet | strict | skipUnresolved | stdin | help | version
deriving DecidableEq, Repr

namespace Flag

def all : List Flag :=
  [package, force, verbose, quiet, strict, skipUnresolved, stdin, help, version]

/-- What follows the two dashes of a flag. -/
def longName : Flag → String
  | package => "vs"
  | force => "force"
  | verbose => "verbose"
  | quiet => "quiet"
  | strict => "strict"
  | skipUnresolved => "skip-unresolved"
  | stdin => "stdin"
  | help => "help"
  | version => "version"

/-- The letter that stands for a flag after a single dash. -/
def letter? : Flag → Option Char
  | force => some 'f'
  | verbose => some 'v'
  | quiet => some 'q'
  | help => some 'h'
  | version => some 'V'
  | _ => none

end Flag

/-- What takes values: two options and the arguments at their positions. -/
inductive Parameter where
  | language | variablesFile | template | destination | rest
deriving DecidableEq, Repr

namespace Parameter

def options : List Parameter := [language, variablesFile]

def longName? : Parameter → Option String
  | language => some "lang"
  | variablesFile => some "vars-file"
  | _ => none

def letter? : Parameter → Option Char
  | language => some 'l'
  | _ => none

end Parameter

/-- Why a command line is not run. -/
inductive UsageFault where
  /-- Two options exclude each other, or one is given twice. -/
  | conflict
  | missingTemplate
  | unknownOption
  | badValue
  | unwantedValue
  | helpAsked
  | versionAsked
deriving DecidableEq, Repr

def UsageFault.exitCode : UsageFault → Nat
  | .helpAsked | .versionAsked => 0
  | .missingTemplate => 1
  | _ => 2

/-- A command line that can be run. -/
structure Options where
  template : Path
  destination : Option Path := none
  /-- The arguments after the destination. -/
  rest : List String := []
  flags : List Flag := []
  language : Language := .cSharp
  variablesFile : Option Path := none
deriving DecidableEq, Repr

namespace Options

def has (o : Options) (f : Flag) : Bool := o.flags.contains f

/-- The level below which nothing is said. -/
def threshold (o : Options) : Level :=
  if o.has .verbose then .verbose else if o.has .quiet then .warning else .info

def settings (o : Options) : Settings :=
  { overwrite := o.has .force
    strict := o.has .strict
    threshold := o.threshold
    unresolved := if o.has .skipUnresolved then .skipFile else .proceed }

/-- A command line as far as it was read. -/
structure Reading where
  flags : List Flag := []
  language : Option Language := none
  variablesFile : Option Path := none
  template : Option Path := none
  destination : Option Path := none
  rest : List String := []
  /-- What may still get a value, and the values that it has. -/
  pending : Option (Parameter × List String) := none
  /-- What the next argument that is no option is. -/
  position : Parameter := .template
  optionsOver : Bool := false
deriving Repr

namespace Reading

def path? (value : String) : Except UsageFault Path :=
  if value = "" then .error .badValue else .ok ⟨value⟩

def language? (value : String) : Except UsageFault Language :=
  match Language.all.find? (·.sourceExtension = value) with
  | some language => .ok language
  | none => .error .badValue

/-- Refuses what was given before. -/
def once {α : Type} (earlier : Option α) : Except UsageFault Unit :=
  if earlier.isSome then .error .conflict else .ok ()

def assign (r : Reading) (p : Parameter) (values : List String) : Except UsageFault Reading :=
  match p, values with
  | .rest, _ => .ok { r with rest := r.rest ++ values }
  | _, [] => .error .badValue
  | .language, value :: _ => do
    once r.language
    return { r with language := some (← language? value) }
  | .variablesFile, value :: _ => do
    once r.variablesFile
    return { r with variablesFile := some (← path? value) }
  | .template, value :: _ => do return { r with template := some (← path? value) }
  | .destination, value :: _ => do return { r with destination := some (← path? value) }

/-- Gives what is pending its values. -/
def settle (r : Reading) : Except UsageFault Reading :=
  match r.pending with
  | none => .ok r
  | some (p, values) => { r with pending := none }.assign p values

def raise (r : Reading) (f : Flag) : Except UsageFault Reading := do
  let r ← r.settle
  match f with
  | .help => throw .helpAsked
  | .version => throw .versionAsked
  | f => if r.flags.contains f then throw .conflict else return { r with flags := r.flags ++ [f] }

/-- Takes in an option that takes a value, which may be attached to it. -/
def take (r : Reading) (p : Parameter) (attached : Option String) : Except UsageFault Reading := do
  let r ← r.settle
  match attached with
  | some value => r.assign p [value]
  | none => return { r with pending := some (p, []) }

/-- Takes in what follows two dashes: a name, and a value after an equals sign. -/
def long (r : Reading) (body : List Char) : Except UsageFault Reading :=
  let (name, value) := match Text.splitAtFirst '=' body with
    | some (name, value) => (String.ofList name, some (String.ofList value))
    | none => (String.ofList body, none)
  match Flag.all.find? (·.longName = name), Parameter.options.find? (·.longName? = some name) with
  | some f, _ => if value.isSome then .error .unwantedValue else r.raise f
  | none, some p => r.take p value
  | none, none => .error .unknownOption

/-- The value that is attached to a letter. An equals sign may stand in front of it. -/
def attached? : List Char → Option String
  | [] => none
  | '=' :: value => some (String.ofList value)
  | value => some (String.ofList value)

/-- Takes in the letters after a single dash. What follows the letter of an option is its value. -/
def short (r : Reading) : List Char → Except UsageFault Reading
  | [] => .ok r
  | c :: more =>
    match Flag.all.find? (·.letter? = some c), Parameter.options.find? (·.letter? = some c) with
    | some f, _ => do (← r.raise f).short more
    | none, some p => r.take p (attached? more)
    | none, none => .error .unknownOption

/-- Takes in an argument that is no option. -/
def positional (r : Reading) (argument : String) : Except UsageFault Reading :=
  match r.position, r.pending with
  | .rest, some (.rest, values) => .ok { r with pending := some (.rest, values ++ [argument]) }
  | p, _ => do
    let r ← r.settle
    return { r with
      pending := some (p, [argument])
      position := if p = .template then .destination else .rest }

/-- Takes in a value if an option waits for one, and otherwise an argument that is no option. -/
def plain (r : Reading) (argument : String) : Except UsageFault Reading :=
  match r.pending with
  | some (p, []) => .ok { r with pending := some (p, [argument]) }
  | _ => r.positional argument

def step (r : Reading) (argument : String) : Except UsageFault Reading :=
  if r.optionsOver then r.positional argument
  else match argument.toList with
    | ['-', '-'] => .ok { r with optionsOver := true }
    | '-' :: '-' :: body => r.long body
    | '-' :: c :: letters => r.short (c :: letters)
    | _ => r.plain argument

def hasConflict (r : Reading) : Bool := r.flags.contains .verbose && r.flags.contains .quiet

def finish (r : Reading) : Except UsageFault Options := do
  let r ← r.settle
  -- of two faults at the end, a conflict is reported before a missing argument
  if r.hasConflict then throw .conflict
  match r.template with
  | none => throw .missingTemplate
  | some template =>
    return { template
             destination := r.destination
             rest := r.rest
             flags := r.flags
             language := r.language.getD .cSharp
             variablesFile := r.variablesFile }

end Reading

def parse (arguments : List String) : Except UsageFault Options := do
  (← arguments.foldlM Reading.step {}).finish

end Options

end Stencil

namespace Stencil.Usage

def version : String := "stencil 0.3.1\n"

def help : String :=
  "stencil: template-driven project generator\n\n" ++
  "Usage: stencil [OPTIONS] <TEMPLATE> [DESTINATION] [ARGS]...\n\n" ++
  "Arguments:\n" ++
  "  <TEMPLATE>     Path to the template description file\n" ++
  "  [DESTINATION]  Directory where the project will be generated. Lists the\n" ++
  "                 template's variables when omitted\n" ++
  "  [ARGS]...      Variable overrides as <key>:<value>, and optionally one\n" ++
  "                 solution file (*.sln) to add the generated projects to\n\n" ++
  "Options:\n" ++
  "      --vs                Export a Visual Studio project template\n" ++
  "  -f, --force             Write into an existing, non-empty directory\n" ++
  "  -v, --verbose           Enable verbose logging output\n" ++
  "  -q, --quiet             Only report warnings and errors\n" ++
  "      --strict            Stop at the first error\n" ++
  "      --skip-unresolved   Skip files that reference undeclared variables\n" ++
  "  -l, --lang <LANG>       Source language: cs, fs or vb\n" ++
  "      --vars-file <FILE>  JSON or YAML file with variable overrides\n" ++
  "      --stdin             Read variable overrides from the standard input\n" ++
  "  -h, --help              Print help\n" ++
  "  -V, --version           Print version\n"

def complaint : UsageFault → String
  | .conflict => "error: an option is given twice or cannot be used with another one\n"
  | .unknownOption => "error: unexpected option\n"
  | .badValue => "error: a value is missing or not allowed\n"
  | .unwantedValue => "error: an option does not take a value\n"
  | .missingTemplate | .helpAsked | .versionAsked => ""

/-- What is written to the output. -/
def output : UsageFault → String
  | .helpAsked | .missingTemplate => help
  | .versionAsked => version
  | _ => ""

end Stencil.Usage
