import Stencil.Proofs.Comparison.Rules
import Stencil.Run

namespace Stencil

variable {α β : Type} {F G : Failure → Prop}

/-- A failure that was not recorded and ends no more than one entry. -/
def Plain (e : Failure) : Prop := e.isRecorded = false ∧ e.endsRun = false

/-- Those of some failures that end the run. -/
def Halting (F : Failure → Prop) (e : Failure) : Prop := F e ∧ e.endsRun = true

/-- The failures of speaking, and plain ones. -/
def Failing (F : Failure → Prop) (e : Failure) : Prop := F e ∨ Plain e

/-- The failures of speaking that end the run, and those that were not recorded. -/
def Unreported (F : Failure → Prop) (e : Failure) : Prop := Halting F e ∨ e.isRecorded = false

/-- Journals are compared in such a way that speaking keeps two runs together; what it may fail with
is among `F`. -/
structure Spoken (C : Comparison Journal) (F : Failure → Prop) : Prop where
  recorded : ∀ e, F e → e.isRecorded = true
  emit : ∀ d, Matched C (Halting F) (Journal.emit d)
  reported : ∀ {α : Type} location message,
    Matched C F (Journal.reported location message : Attempt Journal α)
  detail : ∀ message, Matched C (Halting F) (Journal.detail message)

def Expansion.under (e : Expansion) (j : Journal) : Expansion := { e with journal := j }

def Run.under (r : Run) (j : Journal) : Run := { r with expansion := r.expansion.under j }

namespace Comparison

/-- States of expanding compared by their journals. -/
def ofExpansions (C : Comparison Journal) : Comparison Expansion where
  abreast s t := ∃ j, t = s.under j ∧ C.abreast s.journal j
  passed s t := C.passed s.journal t.journal

/-- Runs compared by their journals. -/
def ofRuns (C : Comparison Journal) : Comparison Run where
  abreast s t := ∃ j, t = s.under j ∧ C.abreast s.expansion.journal j
  passed s t := C.passed s.expansion.journal t.expansion.journal ∧ s.written <+: t.written

end Comparison

theorem Expansion.outcome_journaled (x : Attempt Journal α) (e : Expansion) :
    (Expansion.journaled x).outcome e =
      ((x.outcome e.journal).1, e.under (x.outcome e.journal).2) := by
  unfold Attempt.outcome Expansion.journaled Attempt.onPart
  cases x e.journal <;> rfl

namespace Run

theorem outcome_expanding (x : Attempt Expansion α) (r : Run) :
    (Run.expanding x).outcome r =
      ((x.outcome r.expansion).1, { r with expansion := (x.outcome r.expansion).2 }) := by
  unfold Attempt.outcome Run.expanding Attempt.onPart
  cases x r.expansion <;> rfl

theorem outcome_expanding_eq_ok_iff {x : Attempt Expansion α} {a : α} {r s : Run} :
    (Run.expanding x).outcome r = (.ok a, s) ↔
      ∃ after, x.outcome r.expansion = (.ok a, after) ∧ s = { r with expansion := after } := by
  rw [outcome_expanding]
  constructor
  · intro h
    obtain ⟨hvalue, rfl⟩ := Prod.mk.inj h
    exact ⟨_, Prod.ext hvalue rfl, rfl⟩
  · rintro ⟨after, hx, rfl⟩
    rw [hx]

theorem outcome_onFiles (x : FileStep α) (r : Run) :
    (Run.onFiles x).outcome r = match x r.files with
      | .ok a files => (.ok a, { r with files })
      | .error fault files => (.error (.file fault), { r with files }) := by
  unfold Attempt.outcome Run.onFiles
  cases x r.files <;> rfl

/-- Where a run may write, as an absolute path, or why it may not write there. -/
def target (settings : Settings) (destination : Path) (files : FileSystem) : Except Failure Path :=
  match checkDestination files destination settings.overwrite with
  | .error failure => .error failure
  | .ok () => match destination.absolute? files.workingPath with
    | some path => .ok path
    | none => .error (.file .emptyPath)

theorem outcome_destination (settings : Settings) (destination : Path) (s : Run) :
    (Run.destination settings destination).outcome s = (target settings destination s.files, s) := by
  unfold Attempt.outcome Run.destination target
  cases checkDestination s.files destination settings.overwrite with
  | error failure => rfl
  | ok _ => cases destination.absolute? s.files.workingPath <;> rfl

theorem isRecorded_of_target {settings : Settings} {destination : Path} {files : FileSystem}
    {e : Failure} (h : target settings destination files = .error e) : e.isRecorded = false := by
  have hcheck {failure : Failure}
      (hc : checkDestination files destination settings.overwrite = .error failure) :
      failure.isRecorded = false := by
    unfold checkDestination at hc
    split at hc
    · cases hc
      rfl
    · split at hc
      · split at hc <;> cases hc <;> rfl
      · cases hc
  unfold target at h
  split at h
  · next failure hc =>
    cases h
    exact hcheck hc
  · split at h <;> cases h
    rfl

end Run

namespace Matched

variable {C : Comparison Journal}

/-- A step on journals, taken while expanding. -/
theorem journaled {x : Attempt Journal α} (h : Matched C F x) :
    Matched C.ofExpansions F (Expansion.journaled x) := by
  constructor
  · rintro s _ ⟨j, rfl, hj⟩
    have hends := h.ends s.journal j hj
    rw [Expansion.outcome_journaled, Expansion.outcome_journaled]
    change C.ofExpansions.Ends F _ ((x.outcome j).1, s.under (x.outcome j).2)
    generalize x.outcome s.journal = left, x.outcome j = right at hends
    cases hends with
    | value h => exact .value ⟨_, rfl, h⟩
    | failure he h => exact .failure he ⟨_, rfl, h⟩
    | cut hends hrecorded h => exact .cut hends hrecorded h
  · intro s t hst
    rw [Expansion.outcome_journaled]
    exact h.ahead s.journal t.journal hst

/-- A step of expanding, taken during a run. -/
theorem expanding {x : Attempt Expansion α} (h : Matched C.ofExpansions F x) :
    Matched C.ofRuns F (Run.expanding x) := by
  constructor
  · rintro s _ ⟨j, rfl, hj⟩
    have hends := h.ends s.expansion (s.expansion.under j) ⟨j, rfl, hj⟩
    rw [Run.outcome_expanding, Run.outcome_expanding]
    change C.ofRuns.Ends F _ ((x.outcome (s.expansion.under j)).1,
      { s with expansion := (x.outcome (s.expansion.under j)).2 })
    generalize x.outcome s.expansion = left, x.outcome (s.expansion.under j) = right at hends
    cases hends with
    | value h =>
      obtain ⟨j', rfl, hj'⟩ := h
      exact .value ⟨j', rfl, hj'⟩
    | failure he h =>
      obtain ⟨j', rfl, hj'⟩ := h
      exact .failure he ⟨j', rfl, hj'⟩
    | cut hends hrecorded h => exact .cut hends hrecorded ⟨h, List.prefix_refl _⟩
  · intro s t hst
    rw [Run.outcome_expanding]
    exact ⟨h.ahead s.expansion t.expansion hst.1, hst.2⟩

/-- A step that neither reads nor changes the journal. -/
theorem of_blind {x : Attempt Run α}
    (hblind : ∀ s j, x.outcome (s.under j) = ((x.outcome s).1, (x.outcome s).2.under j))
    (hjournal : ∀ s, (x.outcome s).2.expansion.journal = s.expansion.journal)
    (hwritten : ∀ s, s.written <+: (x.outcome s).2.written)
    (hF : ∀ s e, (x.outcome s).1 = .error e → F e) : Matched C.ofRuns F x := by
  constructor
  · rintro s _ ⟨j, rfl, hj⟩
    have hafter : C.abreast (x.outcome s).2.expansion.journal j := by rwa [hjournal]
    rw [hblind]
    generalize hx : x.outcome s = left at hafter
    obtain ⟨result, s'⟩ := left
    cases result with
    | ok a => exact .value ⟨j, rfl, hafter⟩
    | error e => exact .failure (hF s e (by rw [hx])) ⟨j, rfl, hafter⟩
  · rintro s t ⟨hpassed, hprefix⟩
    exact ⟨by rwa [hjournal], hprefix.trans (hwritten t)⟩

theorem currentFiles : Matched C.ofRuns F Run.currentFiles :=
  of_blind (fun _ _ => rfl) (fun _ => rfl) (fun _ => List.prefix_refl _) fun _ _ h => nomatch h

theorem nextGuid : Matched C.ofRuns F Run.nextGuid :=
  of_blind (fun _ _ => rfl) (fun _ => rfl) (fun _ => List.prefix_refl _) fun _ _ h => nomatch h

theorem drawGuid : Matched C.ofRuns F Run.drawGuid :=
  of_blind (fun _ _ => rfl) (fun _ => rfl) (fun _ => List.prefix_refl _) fun _ _ h => nomatch h

theorem announce (file : WrittenFile) : Matched C.ofRuns F (Run.announce file) :=
  of_blind (fun _ _ => rfl) (fun _ => rfl) (fun _ => List.prefix_refl _) fun _ _ h => nomatch h

theorem addWritten (file : WrittenFile) : Matched C.ofRuns F (Run.addWritten file) :=
  of_blind (fun _ _ => rfl) (fun _ => rfl) (fun _ => List.prefix_append _ _) fun _ _ h => nomatch h

theorem addProject (path : Path) : Matched C.ofRuns F (Run.addProject path) :=
  of_blind (fun _ _ => rfl) (fun _ => rfl) (fun _ => List.prefix_refl _) fun _ _ h => nomatch h

/-- A step that reads and changes nothing but the files. -/
theorem of_files {x : Attempt Run α} (g : FileSystem → Except Failure α × FileSystem)
    (hout : ∀ s, x.outcome s = ((g s.files).1, { s with files := (g s.files).2 }))
    (hF : ∀ files e, (g files).1 = .error e → F e) : Matched C.ofRuns F x := by
  apply of_blind
  · intro s j
    rw [hout, hout]
    rfl
  · intro s
    rw [hout]
  · intro s
    have hsame : (x.outcome s).2.written = s.written := by rw [hout]
    exact hsame.symm ▸ List.prefix_refl s.written
  · intro s e he
    rw [hout] at he
    exact hF s.files e he

theorem onFiles {x : FileStep α} (hF : ∀ fault, F (.file fault)) :
    Matched C.ofRuns F (Run.onFiles x) := by
  let g (files : FileSystem) : Except Failure α × FileSystem := match x files with
    | .ok a files => (.ok a, files)
    | .error fault files => (.error (.file fault), files)
  apply of_files g
  · intro s
    simp only [Attempt.outcome, Run.onFiles, g]
    cases x s.files <;> rfl
  · intro files e he
    simp only [g] at he
    split at he
    · cases he
    · next fault _ _ =>
      cases he
      exact hF fault

theorem looking {x : FileSystem → Except FileFault α} (hF : ∀ fault, F (.file fault)) :
    Matched C.ofRuns F (Run.looking x) := by
  apply of_files fun files => ((x files).mapError .file, files)
  · intro s
    simp only [Attempt.outcome, Run.looking]
    cases x s.files <;> rfl
  · intro files e he
    cases hx : x files with
    | ok a =>
      rw [hx] at he
      cases he
    | error fault =>
      rw [hx] at he
      cases he
      exact hF fault

theorem destination (settings : Settings) (destination : Path) :
    Matched C.ofRuns (fun e => e.isRecorded = false) (Run.destination settings destination) :=
  of_files (fun files => (Run.target settings destination files, files))
    (Run.outcome_destination settings destination) fun _ _ h => Run.isRecorded_of_target h

theorem failing {σ : Type} {D : Comparison σ} {x : Attempt σ α} (h : Matched D (Halting F) x) :
    Matched D (Failing F) x := h.mono fun _ he => Or.inl he.1

theorem unreported {σ : Type} {D : Comparison σ} {x : Attempt σ α} (h : Matched D (Halting F) x) :
    Matched D (Unreported F) x := h.mono fun _ he => Or.inl he

/-- Only failures that end the run get past a handler that passes these on and reports the others. -/
theorem caught_reporting {x : Attempt Run α} {f : Except Failure α → Attempt Run β}
    (hx : Matched C.ofRuns (Failing F) x)
    (hf : ∀ result, Matched C.ofRuns
      (fun e => Halting F e ∨ result = .error e ∧ e.endsRun = true) (f result))
    (hthrow : ∀ e, e.endsRun = true → f (.error e) = MonadExcept.throw e) :
    Matched C.ofRuns (Halting F) (x.caught >>= f) := by
  refine caught_bind hx hf (fun result hresult e he => ?_) hthrow
  rcases he with he | ⟨hcaught, hends⟩
  · exact he
  · -- a plain failure does not end the run
    rcases hresult e hcaught with hF | hplain
    · exact ⟨hF, hends⟩
    · rw [hplain.2] at hends
      cases hends

/-- What depends on the projects noted so far. -/
theorem get_projects {f : List Path → Attempt Run α} (h : ∀ projects, Matched C.ofRuns F (f projects)) :
    Matched C.ofRuns F (get >>= fun r => f r.projects) := by
  have hout (s : Run) : (get >>= fun r => f r.projects : Attempt Run α).outcome s =
      (f s.projects).outcome s := by
    rw [Attempt.outcome_bind]
    rfl
  constructor
  · rintro s _ ⟨j, rfl, hj⟩
    rw [hout, hout]
    exact (h s.projects).ends s _ ⟨j, rfl, hj⟩
  · intro s t hst
    rw [hout]
    exact (h t.projects).ahead s t hst

end Matched

namespace Spoken

variable {C : Comparison Journal} (h : Spoken C F)
include h

theorem mono {G : Failure → Prop} (hF : ∀ e, F e → G e) (hG : ∀ e, G e → e.isRecorded = true) :
    Spoken C G where
  recorded := hG
  emit := fun d => (h.emit d).mono fun e he => ⟨hF e he.1, he.2⟩
  reported := fun location message => (h.reported location message).mono hF
  detail := fun message => (h.detail message).mono fun e he => ⟨hF e he.1, he.2⟩

theorem expansion_say (level : Level) (message : String) :
    Matched C.ofExpansions (Halting F) (Expansion.say level message) := (h.emit _).journaled

theorem expansion_sayAt (level : Level) (location : Location) (message : String) :
    Matched C.ofExpansions (Halting F) (Expansion.sayAt level location message) :=
  (h.emit _).journaled

theorem say (level : Level) (message : String) :
    Matched C.ofRuns (Halting F) (Run.say level message) := (h.emit _).journaled.expanding

theorem sayAt (level : Level) (location : Location) (message : String) :
    Matched C.ofRuns (Halting F) (Run.sayAt level location message) := (h.emit _).journaled.expanding

theorem run_detail (message : String) : Matched C.ofRuns (Halting F) (Run.detail message) :=
  (h.detail message).journaled.expanding

end Spoken

end Stencil
