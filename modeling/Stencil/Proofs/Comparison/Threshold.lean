import Stencil.Proofs.Closing
import Stencil.Proofs.Comparison.Generation
import Stencil.Proofs.Comparison.Package

namespace Stencil

namespace Journal

/-- A journal beside one with another threshold. -/
structure Sifted (low high : Level) (j k : Journal) : Prop where
  lower : j.threshold = low
  higher : k.threshold = high
  strict : k.strict = j.strict
  errors : k.errors = j.errors
  records : low ≤ high → high ≤ .error → k.records = j.records.filter (high ≤ ·.level)

/-- Journals of two thresholds. Neither run is ever cut off. -/
def thresholds (low high : Level) : Comparison Journal := ⟨Sifted low high, fun _ _ => False⟩

variable {low high : Level} {j k : Journal} {d : Diagnostic}

theorem Sifted.countError (h : Sifted low high j k) : Sifted low high j.countError k.countError :=
  ⟨h.lower, h.higher, h.strict, congrArg (· + 1) h.errors, h.records⟩

/-- An error that is recorded whatever the threshold. -/
theorem Sifted.record (h : Sifted low high j k) (hd : d.level = .error) :
    Sifted low high (j.record d) (k.record d) := by
  refine ⟨h.lower, h.higher, h.strict, h.errors, fun hle herror => ?_⟩
  have hkeep : [d].filter (high ≤ ·.level) = [d] := by simp [hd, herror]
  change k.records ++ [d] = (j.records ++ [d]).filter _
  rw [List.filter_append, hkeep, h.records hle herror]

theorem Sifted.publishFrom (h : Sifted low high j k) (d : Diagnostic) :
    Sifted low high (j.publishFrom d) (k.publishFrom d) := by
  have hkept (j : Journal) : (j.publishFrom d).threshold = j.threshold ∧
      (j.publishFrom d).strict = j.strict ∧ (j.publishFrom d).errors = j.errors ∧
      (j.publishFrom d).records = j.records ++ [d].filter (j.threshold ≤ ·.level) := by
    unfold Journal.publishFrom
    split
    · next hlight => simp [Level.not_le.mpr hlight]
    · next hheavy => simp [publish, mention, Journal.record, Level.not_lt.mp hheavy]
  obtain ⟨hlower, hstrict, herrors, hrecords⟩ := hkept j
  obtain ⟨hhigher, hstrict', herrors', hrecords'⟩ := hkept k
  refine ⟨hlower.trans h.lower, hhigher.trans h.higher, ?_, ?_, fun hle herror => ?_⟩
  · rw [hstrict', hstrict, h.strict]
  · rw [herrors', herrors, h.errors]
  · -- what passes the higher threshold passes the lower one
    have hpass : ∀ d : Diagnostic, (high ≤ d.level ∧ low ≤ d.level) ↔ high ≤ d.level :=
      fun d => and_iff_left_of_imp (Level.le_trans hle)
    rw [hrecords', hrecords, List.filter_append, h.records hle herror, List.filter_filter, h.higher,
      h.lower]
    simp only [← Bool.decide_and, hpass]

theorem Sifted.publishFatal (h : Sifted low high j k) (hd : d.level = .error) :
    Sifted low high (j.publishFatal d) (k.publishFatal d) := by
  have hrecorded := h.countError.record hd
  exact ⟨hrecorded.lower, hrecorded.higher, hrecorded.strict, hrecorded.errors, hrecorded.records⟩

theorem sifted_emit (d : Diagnostic) :
    Matched (thresholds low high) (Halting fun e => e.isRecorded = true) (emit d) := by
  refine Matched.of_ends (fun _ _ => id) fun j k (h : Sifted low high j k) => ?_
  rw [outcome_emit, outcome_emit, h.strict]
  split
  · exact .value h
  · split
    · next herror =>
      split
      · exact .failure ⟨rfl, rfl⟩ (h.countError.record herror)
      · exact .value (h.countError.publishFrom d)
    · exact .value (h.publishFrom d)

theorem sifted_reported {α : Type} (location : Option Location) (message : String) :
    Matched (thresholds low high) (fun e => e.isRecorded = true)
      (reported location message : Attempt Journal α) := by
  refine Matched.of_ends (fun _ _ => id) fun j k (h : Sifted low high j k) => ?_
  rw [outcome_reported, outcome_reported, h.strict]
  split
  · exact .failure rfl (h.countError.record rfl)
  · exact .failure rfl (h.countError.publishFrom _)

theorem sifted_fatal {α : Type} (location : Option Location) (message : String) :
    Matched (thresholds low high) (Halting fun e => e.isRecorded = true)
      (fatal location message : Attempt Journal α) := by
  refine Matched.of_ends (fun _ _ => id) fun j k (h : Sifted low high j k) => ?_
  rw [outcome_fatal, outcome_fatal]
  exact .failure ⟨rfl, rfl⟩ (h.publishFatal rfl)

theorem spoken_thresholds : Spoken (thresholds low high) fun e => e.isRecorded = true where
  recorded := fun _ => id
  emit := sifted_emit
  reported := sifted_reported
  detail := fun _ => Matched.of_ends (fun _ _ => id) fun _ _ (h : Sifted low high _ _) =>
    .value ⟨h.lower, h.higher, h.strict, h.errors, h.records⟩

/-- The two journals are closed alike. -/
theorem Sifted.close (h : Sifted low high j k) (result : Except Failure Unit) :
    (k.close result).1 = (j.close result).1 ∧
      Sifted low high (j.close result).2 (k.close result).2 := by
  cases result with
  | ok _ => simp [Journal.close, hasErrors, h.errors, h]
  | error e =>
    cases hrecorded : e.isRecorded with
    | true =>
      rw [close_recorded hrecorded, close_recorded hrecorded]
      exact ⟨rfl, h⟩
    | false =>
      rw [close_unrecorded hrecorded, close_unrecorded hrecorded]
      exact ⟨rfl, h.publishFatal rfl⟩

end Journal

/-- Two runs that produced the same. What the second has to say is what the first says from a level
on, if the first says no less. -/
structure Quieter (low high : Level) (first second : Report × Run) : Prop where
  files : second.2.files = first.2.files
  outcome : second.1.outcome = first.1.outcome
  written : second.1.written = first.1.written
  projects : second.1.projects = first.1.projects
  diagnostics : low ≤ high → high ≤ .error →
    second.1.diagnostics = first.1.diagnostics.filter (high ≤ ·.level)

theorem quieter_of_matched {low high : Level} {x : Attempt Run Unit} {G : Failure → Prop}
    (hx : Matched (Journal.thresholds low high).ofRuns G x) (settings : Settings)
    (files : FileSystem) (guids : GuidSource) :
    Quieter low high (Run.finish x (Run.start files guids { settings with threshold := low }))
      (Run.finish x (Run.start files guids { settings with threshold := high })) := by
  have hends := hx.ends (Run.start files guids { settings with threshold := low })
    (Run.start files guids { settings with threshold := high })
    ⟨_, rfl, rfl, rfl, rfl, rfl, fun _ _ => rfl⟩
  have hclosed {result : Except Failure Unit} {s : Run} {k : Journal}
      (h : Journal.Sifted low high s.expansion.journal k) :
      (k.close result).1 = (s.expansion.journal.close result).1 ∧
        (low ≤ high → high ≤ .error → (k.close result).2.records =
          (s.expansion.journal.close result).2.records.filter (high ≤ ·.level)) :=
    ⟨(h.close result).1, (h.close result).2.records⟩
  rw [Run.finish_eq, Run.finish_eq]
  generalize x.outcome (Run.start files guids { settings with threshold := low }) = left,
    x.outcome (Run.start files guids { settings with threshold := high }) = right at hends
  cases hends with
  | value h =>
    obtain ⟨k, rfl, hk⟩ := h
    exact ⟨rfl, (hclosed hk).1, rfl, rfl, (hclosed hk).2⟩
  | failure _ h =>
    obtain ⟨k, rfl, hk⟩ := h
    exact ⟨rfl, (hclosed hk).1, rfl, rfl, (hclosed hk).2⟩
  | cut _ _ h => exact h.1.elim

/-- The threshold decides on nothing but which diagnostics are kept. -/
theorem threshold_only_sifts (t : Template) (settings : Settings) (low high : Level) (year : Nat)
    (q : GenerationRequest) (q' : ExportRequest) (files : FileSystem) (guids : GuidSource) :
    Quieter low high (generate t { settings with threshold := low } year q files guids)
        (generate t { settings with threshold := high } year q files guids) ∧
      Quieter low high (exportPackage t { settings with threshold := low } year q' files guids)
        (exportPackage t { settings with threshold := high } year q' files guids) :=
  ⟨quieter_of_matched (Generation.matched_steps Journal.spoken_thresholds t settings year q)
      settings files guids,
    quieter_of_matched
      (Package.matched_steps Journal.spoken_thresholds t Journal.sifted_fatal settings year q')
      settings files guids⟩

end Stencil
