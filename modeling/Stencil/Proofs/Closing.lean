import Stencil.Proofs.Comparison.Journal
import Stencil.Run

namespace Stencil

namespace Journal

variable {j : Journal} {e : Failure}

/-- A failure that was recorded adds nothing when the run is closed. -/
theorem close_recorded (h : e.isRecorded = true) : j.close (.error e) = (.fatal, j) := by
  simp [close, h]

theorem close_unrecorded (h : e.isRecorded = false) :
    j.close (.error e) = (.fatal, j.publishFatal ⟨.error, e.message, none⟩) := by
  simp [close, h]

theorem close_fatal_iff {result : Except Failure Unit} :
    (j.close result).1 = .fatal ↔ ∃ e, result = .error e := by
  cases result with
  | ok _ =>
    simp only [close]
    split <;> simp
  | error e => simp [close]

/-- Nothing is taken back when a run is closed. -/
theorem onward_close (j : Journal) (result : Except Failure Unit) :
    Onward j (j.close result).2 := by
  cases result with
  | ok _ => exact Onward.refl j
  | error e =>
    cases hrecorded : e.isRecorded with
    | true =>
      rw [close_recorded hrecorded]
      exact Onward.refl j
    | false =>
      rw [close_unrecorded hrecorded]
      exact Onward.publishFatal j _

/-- A run with errors is no success. -/
theorem close_of_errors (h : 0 < j.errors) (result : Except Failure Unit) :
    (j.close result).1 ≠ .success := by
  cases result with
  | ok _ => simp [close, hasErrors, h]
  | error e => exact nofun

end Journal

namespace Run

theorem finish_eq (x : Attempt Run Unit) (r : Run) :
    finish x r =
      ⟨⟨((x.outcome r).2.expansion.journal.close (x.outcome r).1).1,
          ((x.outcome r).2.expansion.journal.close (x.outcome r).1).2.records,
          (x.outcome r).2.written, (x.outcome r).2.projects⟩,
        { (x.outcome r).2 with
          expansion := { (x.outcome r).2.expansion with
            journal := ((x.outcome r).2.expansion.journal.close (x.outcome r).1).2 } }⟩ := rfl

/-- A run is fatal exactly if it ends with a failure. -/
theorem finish_fatal_iff {x : Attempt Run Unit} {r : Run} :
    (finish x r).1.outcome = .fatal ↔ ∃ e, (x.outcome r).1 = .error e := by
  rw [finish_eq]
  exact Journal.close_fatal_iff

/-- A run that is not fatal came to its end. -/
theorem exists_of_not_fatal {x : Attempt Run Unit} {r : Run} (h : (finish x r).1.outcome ≠ .fatal) :
    ∃ last, x.outcome r = (.ok (), last) := by
  rw [ne_eq, finish_fatal_iff] at h
  generalize x.outcome r = ended at h
  obtain ⟨result, last⟩ := ended
  cases result with
  | ok _ => exact ⟨last, rfl⟩
  | error e => exact absurd ⟨e, rfl⟩ h

/-- A run that comes to its end has nothing more to say when it is closed. -/
theorem diagnostics_finish {x : Attempt Run Unit} {r s : Run} (h : x.outcome r = (.ok (), s)) :
    (finish x r).1.diagnostics = s.expansion.journal.records := by
  rw [finish_eq, h]
  rfl

section

variable {x : Attempt Run Unit} {r s : Run} {result : Except Failure Unit}
  (h : x.outcome r = (result, s))
include h

theorem files_finish : (finish x r).2.files = s.files := by rw [finish_eq, h]

theorem written_finish : (finish x r).1.written = s.written := by rw [finish_eq, h]

end

end Run

end Stencil
