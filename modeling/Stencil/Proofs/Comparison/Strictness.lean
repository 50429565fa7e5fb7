import Stencil.Proofs.Closing
import Stencil.Proofs.Comparison.Generation
import Stencil.Proofs.Comparison.Package

namespace Stencil

/-- Diagnostics that end with the first error of others. -/
def EndsAtError (short full : List Diagnostic) : Prop :=
  ∃ before d after, full = before ++ d :: after ∧ (∀ b ∈ before, b.level < .error) ∧
    d.level = .error ∧ short = before ++ [d]

theorem EndsAtError.extend {short full longer : List Diagnostic} (h : EndsAtError short full)
    (hlonger : full <+: longer) : EndsAtError short longer := by
  obtain ⟨before, d, after, rfl, hbefore, hd, rfl⟩ := h
  obtain ⟨more, rfl⟩ := hlonger
  exact ⟨before, d, after ++ more, by simp, hbefore, hd, rfl⟩

/-- Both lists end with an error that is the first. -/
theorem EndsAtError.concat {records : List Diagnostic} (h : ∀ b ∈ records, b.level < .error)
    {d : Diagnostic} (hd : d.level = .error) : EndsAtError (records ++ [d]) (records ++ [d]) :=
  ⟨records, d, [], rfl, h, hd, rfl⟩

namespace Journal

/-- A strict journal beside a lenient one, before the first error. -/
structure Untroubled (θ : Level) (j k : Journal) : Prop where
  eq : j = { k with strict := true }
  threshold : k.threshold = θ
  lenient : k.strict = false
  errors : k.errors = 0
  records : ∀ d ∈ k.records, d.level < .error

/-- A strict journal that ended with the first error of a lenient one. -/
structure Overtaken (θ : Level) (j k : Journal) : Prop where
  errors : 0 < k.errors
  records : θ ≤ .error → EndsAtError j.records k.records

/-- Strict journals compared with lenient ones of the same threshold. -/
def strictness (θ : Level) : Comparison Journal := ⟨Untroubled θ, Overtaken θ⟩

variable {θ : Level} {j k k' : Journal} {d : Diagnostic}

theorem Overtaken.onward (h : Overtaken θ j k) (hk : Onward k k') : Overtaken θ j k' :=
  ⟨Nat.lt_of_lt_of_le h.errors hk.errors, fun hθ => (h.records hθ).extend hk.records⟩

theorem Untroubled.publishFrom (h : Untroubled θ j k) (hd : d.level < .error) :
    Untroubled θ (j.publishFrom d) (k.publishFrom d) := by
  obtain ⟨rfl, rfl, hlenient, herrors, hrecords⟩ := h
  unfold Journal.publishFrom
  simp only
  split
  · exact ⟨rfl, rfl, hlenient, herrors, hrecords⟩
  · refine ⟨rfl, rfl, hlenient, herrors, fun b hb => ?_⟩
    rcases List.mem_append.mp hb with hb | hb
    · exact hrecords b hb
    · exact List.mem_singleton.mp hb ▸ hd

/-- With the first error the strict journal is overtaken. -/
theorem Untroubled.overtaken (h : Untroubled θ j k) (hd : d.level = .error) :
    Overtaken θ (j.countError.record d) (k.countError.publishFrom d) := by
  obtain ⟨rfl, rfl, -, -, hrecords⟩ := h
  constructor
  · exact Nat.lt_of_lt_of_le (Nat.succ_pos k.errors) (Onward.publishFrom k.countError d).errors
  · intro hthreshold
    rw [records_publishFrom (j := k.countError) (hd.symm ▸ hthreshold)]
    exact EndsAtError.concat hrecords hd

theorem Untroubled.fatal (h : Untroubled θ j k) (hd : d.level = .error) :
    Overtaken θ (j.publishFatal d) (k.publishFatal d) := by
  obtain ⟨rfl, -, -, -, hrecords⟩ := h
  exact ⟨Nat.succ_pos _, fun _ => EndsAtError.concat hrecords hd⟩

theorem matched_emit (d : Diagnostic) : Matched (strictness θ) (Halting fun _ => False) (emit d) := by
  refine ⟨fun j k (h : Untroubled θ j k) => ?_,
    fun j k (h : Overtaken θ j k) => h.onward (Onward.emit k d)⟩
  have hstrict : j.strict = true := by rw [h.eq]
  rw [outcome_emit, outcome_emit, hstrict, h.lenient]
  cases hd : d.level with
  | none => exact .value h
  | error => exact .cut rfl rfl (h.overtaken hd)
  | verbose => exact .value (h.publishFrom (by rw [hd]; decide))
  | info => exact .value (h.publishFrom (by rw [hd]; decide))
  | warning => exact .value (h.publishFrom (by rw [hd]; decide))

theorem matched_reported {α : Type} (location : Option Location) (message : String) :
    Matched (strictness θ) (fun _ => False) (reported location message : Attempt Journal α) := by
  refine ⟨fun j k (h : Untroubled θ j k) => ?_,
    fun j k (h : Overtaken θ j k) => h.onward (Onward.reported k location message)⟩
  have hstrict : j.strict = true := by rw [h.eq]
  rw [outcome_reported, outcome_reported, hstrict, h.lenient]
  exact .cut rfl rfl (h.overtaken rfl)

/-- No failure of speaking leaves a strict run beside a lenient one. -/
theorem spoken_strictness : Spoken (strictness θ) fun _ => False where
  recorded := fun _ h => h.elim
  emit := matched_emit
  reported := matched_reported
  detail := fun _ =>
    ⟨fun j k (h : Untroubled θ j k) =>
        .value ⟨by rw [h.eq]; rfl, h.threshold, h.lenient, h.errors, h.records⟩,
      fun j k (h : Overtaken θ j k) => h.onward (Onward.mention k _ _)⟩

theorem matched_fatal {α : Type} (location : Option Location) (message : String) :
    Matched (strictness θ) (Halting fun _ => False) (fatal location message : Attempt Journal α) := by
  refine ⟨fun j k (h : Untroubled θ j k) => ?_,
    fun j k (h : Overtaken θ j k) => h.onward (Onward.publishFatal k _)⟩
  rw [outcome_fatal, outcome_fatal]
  exact .cut rfl rfl (h.fatal rfl)

end Journal

/-- A strict run is a lenient one up to its first error. -/
structure CutShort (threshold : Level) (strict lenient : Report × Run) : Prop where
  success : lenient.1.outcome = .success →
    strict.1 = lenient.1 ∧ strict.2.files = lenient.2.files
  failure : lenient.1.outcome ≠ .success →
    strict.1.outcome = .fatal ∧ strict.1.written <+: lenient.1.written ∧
      (threshold ≤ .error → EndsAtError strict.1.diagnostics lenient.1.diagnostics)

/-- A strict run and a lenient one start abreast. -/
theorem Run.abreast_start (settings : Settings) (files : FileSystem) (guids : GuidSource) :
    (Journal.strictness settings.threshold).ofRuns.abreast
      (Run.start files guids { settings with strict := true })
      (Run.start files guids { settings with strict := false }) :=
  ⟨_, rfl, rfl, rfl, rfl, rfl, fun _ hd => absurd hd List.not_mem_nil⟩

theorem cutShort_of_matched {settings : Settings} {x : Attempt Run Unit}
    (hx : Matched (Journal.strictness settings.threshold).ofRuns (Unreported fun _ => False) x)
    (files : FileSystem) (guids : GuidSource) :
    CutShort settings.threshold (Run.finish x (Run.start files guids { settings with strict := true }))
      (Run.finish x (Run.start files guids { settings with strict := false })) := by
  have hends := hx.ends _ _ (Run.abreast_start settings files guids)
  rw [Run.finish_eq, Run.finish_eq]
  generalize x.outcome (Run.start files guids { settings with strict := true }) = left,
    x.outcome (Run.start files guids { settings with strict := false }) = right at hends
  cases hends with
  | @value _ s t h =>
    -- no error was met, so both succeed
    obtain ⟨k, rfl, hk : Journal.Untroubled _ _ k⟩ := h
    have hlenient : k.hasErrors = false := by simp [Journal.hasErrors, hk.errors]
    have hstrict : s.expansion.journal.hasErrors = false := by rw [hk.eq]; exact hlenient
    have hrecords : s.expansion.journal.records = k.records := by rw [hk.eq]
    constructor
    · intro _
      simp [Run.under, Expansion.under, Journal.close, hlenient, hstrict, hrecords]
    · intro hfailed
      simp [Run.under, Expansion.under, Journal.close, hlenient] at hfailed
  | @failure e s t he h =>
    -- both record the failure when they are closed
    obtain ⟨k, rfl, hk : Journal.Untroubled _ _ k⟩ := h
    have hrecorded : e.isRecorded = false := he.resolve_left fun h => h.1
    constructor
    · intro hsuccess
      simp [Run.under, Expansion.under, Journal.close_unrecorded hrecorded] at hsuccess
    · intro _
      rw [Journal.close_unrecorded hrecorded]
      refine ⟨rfl, List.prefix_refl _, fun hthreshold => ?_⟩
      have hfatal := (hk.fatal (d := ⟨.error, e.message, none⟩) rfl).records hthreshold
      simpa [Run.under, Expansion.under, Journal.close_unrecorded hrecorded] using hfatal
  | @cut e s t result hends hrecorded h =>
    obtain ⟨hpassed : Journal.Overtaken _ _ _, hwritten⟩ := h
    constructor
    · exact fun hsuccess => absurd hsuccess (Journal.close_of_errors hpassed.errors result)
    · intro _
      rw [Journal.close_recorded hrecorded]
      exact ⟨rfl, hwritten, (hpassed.onward (Journal.onward_close _ result)).records⟩

/-- A strict generation, and a strict export, is the lenient one cut at its first error. -/
theorem strict_run_cut_at_error (t : Template) (settings : Settings) (year : Nat)
    (q : GenerationRequest) (q' : ExportRequest) (files : FileSystem) (guids : GuidSource) :
    CutShort settings.threshold
        (generate t { settings with strict := true } year q files guids)
        (generate t { settings with strict := false } year q files guids) ∧
      CutShort settings.threshold
        (exportPackage t { settings with strict := true } year q' files guids)
        (exportPackage t { settings with strict := false } year q' files guids) :=
  ⟨cutShort_of_matched (Generation.matched_steps Journal.spoken_strictness t settings year q)
      files guids,
    cutShort_of_matched
      (Package.matched_steps Journal.spoken_strictness t Journal.matched_fatal settings year q')
      files guids⟩

end Stencil
