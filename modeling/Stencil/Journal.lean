import Stencil.Failure

/-!
Steps that change a state and may fail, and the journal that they change. A step that fails leaves the
state as far as it came, so what was recorded or written before a failure is not lost.
-/

namespace Stencil

/-- A step on a state that gives a value or fails. -/
abbrev Attempt (σ α : Type) := EStateM Failure σ α

namespace Attempt

variable {σ τ α β : Type}

/-- A step on a part of a larger state. -/
def onPart (get : σ → τ) (set : τ → σ → σ) (x : Attempt τ α) : Attempt σ α := fun s =>
  match x (get s) with
  | .ok a t => .ok a (set t s)
  | .error e t => .error e (set t s)

/-- The outcome of a step as a value, which then cannot fail. -/
def caught (x : Attempt σ α) : Attempt σ (Except Failure α) := fun s =>
  match x s with
  | .ok a t => .ok (.ok a) t
  | .error e t => .ok (.error e) t

/-- A step that only looks at the state. -/
def ofExcept (x : Except Failure α) : Attempt σ α := fun s =>
  match x with
  | .ok a => .ok a s
  | .error e => .error e s

/-- The outcome of a step and the state that it leaves. -/
def outcome (x : Attempt σ α) (s : σ) : Except Failure α × σ :=
  match x s with
  | .ok a t => (.ok a, t)
  | .error e t => (.error e, t)

end Attempt

/-- What a run has said so far. Errors count whether or not the threshold lets them pass. -/
structure Journal where
  /-- Diagnostics below this level are dropped. -/
  threshold : Level := .info
  /-- Whether an error becomes a failure. -/
  strict : Bool := false
  errors : Nat := 0
  records : List Diagnostic := []
  /-- What was handed to the log: a level and a text each. -/
  log : List (Level × String) := []
deriving Repr

namespace Journal

/-- Whether an error was reported, recorded or not. -/
def hasErrors (j : Journal) : Bool := 0 < j.errors

def count (j : Journal) (level : Level) : Nat := (j.records.filter (·.level = level)).length

def clear (j : Journal) : Journal := { j with records := [] }

/-- Records a diagnostic without handing it to the log. -/
def record (j : Journal) (d : Diagnostic) : Journal := { j with records := j.records ++ [d] }

/-- Hands a text to the log without recording it. -/
def mention (j : Journal) (level : Level) (text : String) : Journal :=
  { j with log := j.log ++ [(level, text)] }

/-- Records a diagnostic and hands it to the log. -/
def publish (j : Journal) (d : Diagnostic) : Journal := (j.record d).mention d.level d.text

def countError (j : Journal) : Journal := { j with errors := j.errors + 1 }

/-- Publishes a diagnostic unless it is too light. -/
def publishFrom (j : Journal) (d : Diagnostic) : Journal :=
  if d.level < j.threshold then j else j.publish d

/-- Takes a diagnostic in. A strict journal records an error and fails with it. -/
def emit (d : Diagnostic) : Attempt Journal Unit := fun j =>
  match d.level with
  | .none => .ok () j
  | .error =>
    if j.strict then .error (.raised d) (j.countError.record d)
    else .ok () (j.countError.publishFrom d)
  | _ => .ok () (j.publishFrom d)

def say (level : Level) (message : String) : Attempt Journal Unit :=
  emit ⟨level, message, none⟩

def sayAt (level : Level) (location : Location) (message : String) : Attempt Journal Unit :=
  emit ⟨level, message, some location⟩

/-- Hands a text to the log at the level of details that only the log gets. -/
def detail (message : String) : Attempt Journal Unit := fun j => .ok () (j.mention .verbose message)

/-- Publishes an error that ends the run, whatever the threshold. -/
def publishFatal (j : Journal) (d : Diagnostic) : Journal := j.countError.publish d

/-- Fails with an error that ends the run. -/
def fatal {α : Type} (location : Option Location) (message : String) : Attempt Journal α := fun j =>
  let d : Diagnostic := ⟨.error, message, location⟩
  .error (.fatal d) (j.publishFatal d)

/-- Fails with an error that ends one entry, or the run if the journal is strict. -/
def reported {α : Type} (location : Option Location) (message : String) : Attempt Journal α := do
  let d : Diagnostic := ⟨.error, message, location⟩
  emit d
  throw (.reported d)

end Journal

/-- What becomes of a text that refers to an undeclared variable, once that is reported. -/
inductive UnresolvedPolicy where
  /-- The reference stands for nothing and the rest of the text is still expanded. -/
  | proceed
  /-- The text is given up. -/
  | skipFile
deriving DecidableEq, Repr, Inhabited

structure Settings where
  /-- Whether to write into a directory that is not empty. -/
  overwrite : Bool := false
  /-- Whether the first error ends the run. -/
  strict : Bool := false
  /-- The level below which diagnostics are dropped. -/
  threshold : Level := .info
  unresolved : UnresolvedPolicy := .proceed
deriving DecidableEq, Repr

def Settings.journal (settings : Settings) : Journal :=
  { threshold := settings.threshold, strict := settings.strict }

/-- How a run ended. -/
inductive Outcome where
  | success
  /-- The run came to its end, but some entry failed and was skipped. -/
  | incomplete
  | fatal
deriving DecidableEq, Repr

/-- A file that was written and the file that it came from. -/
structure WrittenFile where
  source : Path
  destination : Path
deriving DecidableEq, Repr

structure Report where
  outcome : Outcome
  diagnostics : List Diagnostic
  written : List WrittenFile
  projects : List Path
deriving Repr

/-- The journal at the end of a run and how the run ended. A failure that no one recorded yet is
recorded now. -/
def Journal.close (j : Journal) : Except Failure Unit → Outcome × Journal
  | .ok () => (if j.hasErrors then .incomplete else .success, j)
  | .error failure =>
    (.fatal, if failure.isRecorded then j else j.publishFatal ⟨.error, failure.message, none⟩)

namespace Report

def ofRun (result : Except Failure Unit) (journal : Journal) (written : List WrittenFile)
    (projects : List Path) : Report :=
  let (outcome, closed) := journal.close result
  ⟨outcome, closed.records, written, projects⟩

def errors (r : Report) : List Diagnostic := r.diagnostics.filter (.error ≤ ·.level)

def warnings (r : Report) : List Diagnostic := r.diagnostics.filter (·.level = .warning)

end Report

end Stencil
