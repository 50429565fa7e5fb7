import Stencil.Proofs.Closing
import Stencil.Proofs.Comparison.Lifting

namespace Stencil

variable {α : Type}

/-- A journal beside itself, as long as something holds of it. -/
def Comparison.alone (I : Journal → Prop) : Comparison Journal :=
  ⟨fun j k => k = j ∧ I j, fun _ _ => False⟩

/-- The failures that end one entry. -/
def IsReported (e : Failure) : Prop := ∃ d, e = .reported d

/-- A lenient journal. If its threshold lets errors pass, those that it counted are on record. -/
structure Journal.Lenient (j : Journal) : Prop where
  lenient : j.strict = false
  told : j.threshold ≤ .error → (0 < j.errors ↔ ∃ d ∈ j.records, d.level = .error)

namespace Journal

variable {j : Journal} {d : Diagnostic}

theorem Lenient.publishFrom (h : Lenient j) (hd : d.level ≠ .error) : Lenient (j.publishFrom d) := by
  unfold Journal.publishFrom
  split
  · exact h
  · refine ⟨h.lenient, fun hthreshold => (h.told hthreshold).trans ?_⟩
    simp [publish, mention, record, hd]

theorem Lenient.publishError (h : Lenient j) (hd : d.level = .error) :
    Lenient (j.countError.publishFrom d) := by
  have hcounted : 0 < j.countError.errors := Nat.succ_pos _
  refine ⟨?_, fun hthreshold => ?_⟩
  · rw [(Onward.publishFrom j.countError d).strict]
    exact h.lenient
  · rw [(Onward.publishFrom j.countError d).threshold] at hthreshold
    rw [records_publishFrom (hd.symm ▸ hthreshold)]
    refine iff_of_true (Nat.lt_of_lt_of_le hcounted (Onward.publishFrom _ d).errors) ⟨d, ?_, hd⟩
    exact List.mem_append_right _ List.mem_cons_self

theorem Lenient.start (files : FileSystem) (guids : GuidSource) (settings : Settings) :
    Lenient (Run.start files guids { settings with strict := false }).expansion.journal :=
  ⟨rfl, fun _ => iff_of_false (Nat.lt_irrefl 0) (by rintro ⟨_, hd, -⟩; cases hd)⟩

theorem lenient_emit (d : Diagnostic) :
    Matched (Comparison.alone Lenient) (Halting IsReported) (emit d) := by
  refine Matched.of_ends (fun _ _ => id) fun j k (h : k = j ∧ Lenient j) => ?_
  obtain ⟨rfl, hj⟩ := h
  rw [outcome_emit, hj.lenient]
  split
  · exact .value ⟨rfl, hj⟩
  · split
    · next herror => exact .value ⟨rfl, hj.publishError herror⟩
    · next herror => exact .value ⟨rfl, hj.publishFrom herror⟩

theorem lenient_reported (location : Option Location) (message : String) :
    Matched (Comparison.alone Lenient) IsReported (reported location message : Attempt Journal α) := by
  refine Matched.of_ends (fun _ _ => id) fun j k (h : k = j ∧ Lenient j) => ?_
  obtain ⟨rfl, hj⟩ := h
  rw [outcome_reported, hj.lenient]
  exact .failure ⟨_, rfl⟩ ⟨rfl, hj.publishError rfl⟩

theorem spoken_lenient : Spoken (Comparison.alone Lenient) IsReported where
  recorded := by
    rintro _ ⟨d, rfl⟩
    rfl
  emit := lenient_emit
  reported := lenient_reported
  detail := fun _ => Matched.of_ends (fun _ _ => id) fun j k (h : k = j ∧ Lenient j) =>
    .value ⟨by rw [h.1], h.2.lenient, h.2.told⟩

/-- A failure that ends the run is recorded like an error. -/
theorem lenient_fatal (location : Option Location) (message : String) :
    Matched (Comparison.alone Lenient) (Halting fun e => e.isRecorded = true)
      (fatal location message : Attempt Journal α) := by
  refine Matched.of_ends (fun _ _ => id) fun j k (h : k = j ∧ Lenient j) => ?_
  obtain ⟨rfl, hj⟩ := h
  rw [outcome_fatal]
  refine .failure ⟨rfl, rfl⟩ ⟨rfl, hj.lenient, fun _ => iff_of_true ?_ ?_⟩
  · simp [publishFatal, publish, mention, record, countError]
  · exact ⟨⟨.error, message, location⟩, by simp [publishFatal, publish, mention, record], rfl⟩

end Journal

/-- What is reported of an entry does not end the run. -/
theorem not_halting_isReported (e : Failure) : ¬ Halting IsReported e := by
  rintro ⟨⟨d, rfl⟩, hends⟩
  cases hends

namespace Matched

variable {I : Journal → Prop} {F : Failure → Prop} {x : Attempt Run α} {s : Run}

/-- How a run ends that is looked at alone. -/
theorem outcome_alone (h : Matched (Comparison.alone I).ofRuns F x) (hs : I s.expansion.journal) :
    I (x.outcome s).2.expansion.journal ∧ ∀ e, (x.outcome s).1 = .error e → F e := by
  have hends := h.ends s s ⟨s.expansion.journal, rfl, rfl, hs⟩
  generalize hx : x.outcome s = left at hends
  cases hends with
  | value h =>
    obtain ⟨_, -, -, hI⟩ := h
    exact ⟨hI, nofun⟩
  | failure he h =>
    obtain ⟨_, -, -, hI⟩ := h
    exact ⟨hI, by rintro _ ⟨⟩; exact he⟩
  | cut _ _ h => exact h.1.elim

/-- How a step of expanding ends that is looked at alone. -/
theorem outcome_alone_expansion {y : Attempt Expansion α}
    (h : Matched (Comparison.alone I).ofExpansions F y) {before : Expansion} (hs : I before.journal) :
    I (y.outcome before).2.journal ∧ ∀ e, (y.outcome before).1 = .error e → F e := by
  let s : Run := { files := ⟨.directory [], []⟩, expansion := before }
  have hrun := h.expanding.outcome_alone (s := s) hs
  rwa [Run.outcome_expanding] at hrun

/-- A step that nothing can halt comes to its end in a lenient run. -/
theorem outcome_lenient (h : Matched (Comparison.alone Journal.Lenient).ofRuns (Halting IsReported) x)
    (hs : s.expansion.journal.Lenient) :
    ∃ a t, x.outcome s = (.ok a, t) ∧ t.expansion.journal.Lenient := by
  obtain ⟨hlenient, hfails⟩ := h.outcome_alone hs
  generalize x.outcome s = left at hlenient hfails
  obtain ⟨result, t⟩ := left
  cases result with
  | ok a => exact ⟨a, t, rfl, hlenient⟩
  | error e => exact absurd (hfails e rfl) (not_halting_isReported e)

end Matched

/-- Only that a journal goes on is asked of a run. -/
def Journal.onwardness : Comparison Journal := ⟨fun _ _ => False, Journal.Onward⟩

theorem Journal.spoken_onward : Spoken Journal.onwardness fun _ => False where
  recorded := fun _ h => h.elim
  emit := fun d => ⟨fun _ _ h => h.elim, fun _ k (h : Onward _ k) => h.trans (Onward.emit k d)⟩
  reported := fun location message =>
    ⟨fun _ _ h => h.elim, fun _ k (h : Onward _ k) => h.trans (Onward.reported k location message)⟩
  detail := fun _ => ⟨fun _ _ h => h.elim, fun _ k (h : Onward _ k) => h.trans (Onward.mention k _ _)⟩

theorem Journal.onward_fatal (location : Option Location) (message : String) :
    Matched Journal.onwardness (Halting fun _ => False)
      (Journal.fatal location message : Attempt Journal α) :=
  ⟨fun _ _ h => h.elim, fun _ k (h : Onward _ k) => h.trans (Onward.publishFatal k _)⟩

theorem Matched.onward {F : Failure → Prop} {x : Attempt Run α}
    (h : Matched Journal.onwardness.ofRuns F x) (s : Run) :
    Journal.Onward s.expansion.journal (x.outcome s).2.expansion.journal :=
  (h.ahead s s ⟨Journal.Onward.refl _, List.prefix_refl _⟩).1

end Stencil
