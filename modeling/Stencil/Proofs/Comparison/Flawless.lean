import Stencil.Proofs.Comparison.Lenience
import Stencil.Proofs.Comparison.Strictness

namespace Stencil

variable {α β : Type} {P : Run → Prop} {R : β → Run → Prop} {s : Run}

def Run.Strict (s : Run) : Prop := s.expansion.journal.strict = true

/-- The failures that a strict journal makes of errors. -/
def IsRaised (e : Failure) : Prop := ∃ d, e = .raised d

namespace Journal

theorem strict_publishFrom {j : Journal} (h : j.strict = true) (d : Diagnostic) :
    (j.publishFrom d).strict = true := (Onward.publishFrom j d).strict.trans h

theorem strict_emit (d : Diagnostic) :
    Matched (Comparison.alone (·.strict = true)) (Halting IsRaised) (emit d) := by
  refine Matched.of_ends (fun _ _ => id) fun j k (h : k = j ∧ j.strict = true) => ?_
  obtain ⟨rfl, hstrict⟩ := h
  rw [outcome_emit, hstrict]
  split
  · exact .value ⟨rfl, hstrict⟩
  · split
    · exact .failure ⟨⟨d, rfl⟩, rfl⟩ ⟨rfl, hstrict⟩
    · exact .value ⟨rfl, strict_publishFrom hstrict d⟩

theorem strict_reported {α : Type} (location : Option Location) (message : String) :
    Matched (Comparison.alone (·.strict = true)) IsRaised
      (reported location message : Attempt Journal α) := by
  refine Matched.of_ends (fun _ _ => id) fun j k (h : k = j ∧ j.strict = true) => ?_
  obtain ⟨rfl, hstrict⟩ := h
  rw [outcome_reported, hstrict]
  exact .failure ⟨_, rfl⟩ ⟨rfl, hstrict⟩

theorem spoken_strict : Spoken (Comparison.alone (·.strict = true)) IsRaised where
  recorded := by
    rintro _ ⟨d, rfl⟩
    rfl
  emit := strict_emit
  reported := strict_reported
  detail := fun _ => Matched.of_ends (fun _ _ => id) fun j k (h : k = j ∧ j.strict = true) =>
    .value ⟨by rw [h.1], h.2⟩

end Journal

/-- No step changes whether a run is strict. -/
theorem Matched.steady {F : Failure → Prop} {x : Attempt Run α} {Q : α → Run → Prop}
    {E : Run → Prop} (hm : Matched Journal.onwardness.ofRuns F x) (h : Triple P x Q E)
    {strict : Bool} :
    Triple (fun s => P s ∧ s.expansion.journal.strict = strict) x
      (fun a s => Q a s ∧ s.expansion.journal.strict = strict)
      (fun s => E s ∧ s.expansion.journal.strict = strict) := by
  rintro s ⟨hs, hstrict⟩
  have ht := h s hs
  have honward := (hm.onward s).strict
  unfold Attempt.outcome at honward
  split at ht
  · next hx =>
    rw [hx] at honward
    exact ⟨ht, honward.trans hstrict⟩
  · next hx =>
    rw [hx] at honward
    exact ⟨ht, honward.trans hstrict⟩

/-- A strict run stays strict, and what a step does it also does there. -/
theorem Matched.strictly {F : Failure → Prop} {x : Attempt Run α} {Q : α → Run → Prop}
    {E : Run → Prop} (hm : Matched Journal.onwardness.ofRuns F x) (h : Triple P x Q E) :
    Triple (fun s => s.Strict ∧ P s) x (fun a s => s.Strict ∧ Q a s) fun _ => True :=
  (hm.steady h).mono (fun _ h => h.symm) (fun _ _ h => h.symm) fun _ _ => trivial

/-- A strict run does not get past an error. -/
theorem Run.strict_error {d : Diagnostic} (hd : d.level = .error) :
    Triple Run.Strict (Run.journaled (Journal.emit d)) (fun _ _ => False) fun _ => True := by
  intro s (hs : s.expansion.journal.strict = true)
  have hout : ((Run.journaled (Journal.emit d)).outcome s).1 = .error (.raised d) := by
    unfold Run.journaled
    rw [Run.outcome_expanding, Expansion.outcome_journaled, Journal.outcome_emit, hd, hs]
    rfl
  unfold Attempt.outcome at hout
  split
  · next hx =>
    rw [hx] at hout
    cases hout
  · trivial

theorem Run.strict_say (message : String) :
    Triple Run.Strict (Run.say .error message) (fun _ _ => False) fun _ => True :=
  Run.strict_error (d := ⟨.error, message, none⟩) rfl

theorem Run.strict_sayAt (location : Location) (message : String) :
    Triple Run.Strict (Run.sayAt .error location message) (fun _ _ => False) fun _ => True :=
  Run.strict_error (d := ⟨.error, message, some location⟩) rfl

/-- What a strict run catches was not reported: what is raised would end it, and all else fails
without a word. -/
theorem Triple.caught_strict {x : Attempt Run α} {Q : α → Run → Prop} {E E' : Run → Prop}
    {strict : Bool}
    (hm : Matched (Comparison.alone (·.strict = true)).ofRuns (Failing IsRaised) x)
    (hx : Triple P x Q E) (hP : ∀ s, P s → s.expansion.journal.strict = strict) :
    Triple P x.caught (fun result s => match result with
      | .ok a => Q a s
      | .error e => E s ∧ (strict = true → s.Strict ∧ ¬ IsReported e)) E' := by
  intro s hs
  have hresult := (Triple.caught_result hx : Triple P x.caught _ fun _ => True) s hs
  have halone := fun hstrict => hm.outcome_alone (s := s) ((hP s hs).trans hstrict)
  unfold Attempt.outcome at halone
  unfold Attempt.caught at hresult ⊢
  cases hrun : x s with
  | ok a t =>
    rw [hrun] at hresult
    exact hresult
  | error e t =>
    rw [hrun] at hresult halone
    refine ⟨hresult, fun hstrict => ?_⟩
    obtain ⟨hleft, hfails⟩ := halone hstrict
    refine ⟨hleft, ?_⟩
    rintro ⟨d, rfl⟩
    rcases hfails _ rfl with ⟨d', hraised⟩ | hplain
    · cases hraised
    · cases hplain.1

/-- Where a strict run gets past a handler that goes on after no failure but a reported one, nothing
has failed. -/
theorem Triple.strictly_caught {x : Attempt Run α} {f : Except Failure α → Attempt Run β}
    {Q : α → Run → Prop}
    (hm : Matched (Comparison.alone (·.strict = true)).ofRuns (Failing IsRaised) x)
    (hx : Triple (fun s => s.Strict ∧ P s) x (fun a s => s.Strict ∧ Q a s) fun _ => True)
    (hok : ∀ a, Triple (fun s => s.Strict ∧ Q a s) (f (.ok a)) R fun _ => True)
    (herror : ∀ e, ¬ IsReported e → Triple Run.Strict (f (.error e)) (fun _ _ => False) fun _ => True) :
    Triple (fun s => s.Strict ∧ P s) (x.caught >>= f) R fun _ => True := by
  refine (Triple.caught_strict hm hx fun s hs => hs.1).bind fun result => ?_
  cases result with
  | ok a => exact hok a
  | error e =>
    rintro s ⟨-, h⟩
    obtain ⟨hstrict, hreported⟩ := h rfl
    exact ((herror e hreported).mono (fun _ h => h) (fun _ _ h => h.elim) fun _ h => h) s hstrict

/-- What a strict generation gets past is the making of an entry's file: nothing has failed. -/
theorem Generation.strictly_tryEntry {r : Renderer} {t : Template} {base : Path} {e : Entry}
    {Q : Option Path → Run → Prop} (h : Triple P (makeEntry r t base e) Q fun _ => True) :
    Triple (fun s => s.Strict ∧ P s) (tryEntry r t base e) (fun result s => s.Strict ∧ Q result s)
      fun _ => True := by
  unfold tryEntry
  refine Triple.strictly_caught (matched_makeEntry Journal.spoken_strict r t base e)
    ((matched_makeEntry Journal.spoken_onward r t base e).strictly h)
    (fun target => Triple.pure fun _ h => h) fun failure hreported => ?_
  split
  · next h => cases h
  · -- a failure that was reported has ended a strict run
    next d h => exact absurd ⟨d, Except.error.inj h⟩ hreported
  · refine Triple.ite (fun _ _ _ => trivial) fun _ => ?_
    exact (Run.strict_sayAt _ _).bind fun _ _ h => h.elim

/-- What a step of a strict run gives it gives in any run from the same start. -/
theorem Run.value_of_strict {settings : Settings} {x : Attempt Run α} {F : Failure → Prop}
    (hx : Matched (Journal.strictness settings.threshold).ofRuns F x) {files : FileSystem}
    {guids : GuidSource} {a : α} {t : Run}
    (h : x.outcome (Run.start files guids { settings with strict := true }) = (.ok a, t)) :
    (x.outcome (Run.start files guids settings)).1 = .ok a := by
  obtain ⟨overwrite, strict, threshold, unresolved⟩ := settings
  cases strict with
  | true => exact congrArg Prod.fst h
  | false =>
    have hends := hx.ends _ _
      (Run.abreast_start ⟨overwrite, false, threshold, unresolved⟩ files guids)
    generalize x.outcome (Run.start files guids ⟨overwrite, false, threshold, unresolved⟩) = right
      at hends
    simp only at h
    rw [h] at hends
    cases hends
    rfl

/-- A run that succeeds is under a strict journal one that comes to its end, with the same files
written and the same files left. -/
theorem Run.finish_success {settings : Settings} {x : Attempt Run Unit}
    (hx : Matched (Journal.strictness settings.threshold).ofRuns (Unreported fun _ => False) x)
    {files : FileSystem} {guids : GuidSource}
    (h : (Run.finish x (Run.start files guids settings)).1.outcome = .success) :
    ∃ t, x.outcome (Run.start files guids { settings with strict := true }) = (.ok (), t) ∧
      (Run.finish x (Run.start files guids settings)).1.written = t.written ∧
      (Run.finish x (Run.start files guids settings)).2.files = t.files := by
  have hends {y : Report × Run}
      (hy : y = Run.finish x (Run.start files guids { settings with strict := true }))
      (hsuccess : y.1.outcome = .success) :
      ∃ t, x.outcome (Run.start files guids { settings with strict := true }) = (.ok (), t) ∧
        y.1.written = t.written ∧ y.2.files = t.files := by
    subst hy
    cases hrun : x.outcome (Run.start files guids { settings with strict := true }) with
    | mk result t =>
      cases result with
      | ok _ => exact ⟨t, rfl, Run.written_finish hrun, Run.files_finish hrun⟩
      | error e =>
        have hfatal := Run.finish_fatal_iff.mpr ⟨e, congrArg Prod.fst hrun⟩
        cases hsuccess.symm.trans hfatal
  -- a success has no error that a strict journal could have stopped at
  obtain ⟨overwrite, strict, threshold, unresolved⟩ := settings
  cases strict with
  | true => exact hends rfl h
  | false =>
    obtain ⟨hreport, hfiles⟩ := (cutShort_of_matched hx files guids).success h
    obtain ⟨t, hrun, hwritten, hleft⟩ := hends rfl (hreport ▸ h)
    exact ⟨t, hrun, (congrArg Report.written hreport).symm.trans hwritten, hfiles.symm.trans hleft⟩

/-- A strict run that comes to its end shows what any run from the same start reports. -/
theorem Run.finish_of_strict {settings : Settings} {x : Attempt Run Unit}
    (hx : Matched (Journal.strictness settings.threshold).ofRuns (Unreported fun _ => False) x)
    {files : FileSystem} {guids : GuidSource} {t : Run}
    (h : x.outcome (Run.start files guids { settings with strict := true }) = (.ok (), t)) :
    (Run.finish x (Run.start files guids settings)).1 =
        ⟨.success, t.expansion.journal.records, t.written, t.projects⟩ ∧
      (Run.finish x (Run.start files guids settings)).2.files = t.files := by
  have hcut := cutShort_of_matched hx files guids
  have hended : (Run.finish x (Run.start files guids { settings with strict := true })).1.outcome ≠
      .fatal := by
    rw [ne_eq, Run.finish_fatal_iff, h]
    rintro ⟨e, he⟩
    cases he
  have hsuccess : (Run.finish x
      (Run.start files guids { settings with strict := false })).1.outcome = .success :=
    Decidable.byContradiction fun hfailed => hended (hcut.failure hfailed).1
  obtain ⟨hreport, hfiles⟩ := hcut.success hsuccess
  -- no error was met, so the strict run is a success too
  have hstrict : (Run.finish x (Run.start files guids { settings with strict := true })).1 =
      ⟨.success, t.expansion.journal.records, t.written, t.projects⟩ := by
    have houtcome := (congrArg Report.outcome hreport).trans hsuccess
    rw [Run.finish_eq, h] at houtcome ⊢
    exact congrArg (Report.mk · _ _ _) houtcome
  obtain ⟨overwrite, strict, threshold, unresolved⟩ := settings
  cases strict with
  | true => exact ⟨hstrict, Run.files_finish h⟩
  | false => exact ⟨hreport.symm.trans hstrict, hfiles.symm.trans (Run.files_finish h)⟩

end Stencil
