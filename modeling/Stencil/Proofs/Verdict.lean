import Stencil.Proofs.Candor
import Stencil.Proofs.Comparison.Threshold

namespace Stencil

variable {α β : Type} {settings : Settings}

open Diagnostic (Passing Ending)

namespace Run

section

variable {level : Level} {location : Location} {message : String}

theorem candid_say (h : Passing ⟨level, message, none⟩) : Run.Candid settings (say level message) :=
  (Candid.emit h).journaled.expanding

theorem candid_sayAt (h : Passing ⟨level, message, some location⟩) :
    Run.Candid settings (sayAt level location message) :=
  (Candid.emit h).journaled.expanding

end

theorem candid_detail (message : String) : Run.Candid settings (detail message) :=
  (Candid.detail message).journaled.expanding

theorem candid_onFiles (x : FileStep α) : Run.Candid settings (onFiles x) := by
  intro r hr
  rw [outcome_onFiles]
  cases x r.files with
  | ok a files => exact .value hr
  | error fault files => exact .plain rfl hr

/-- Of changing files only a fault of the files is caught. -/
theorem candid_onFiles_caught {x : FileStep α} {f : Except Failure α → Attempt Run β}
    (hvalue : ∀ a, Run.Candid settings (f (.ok a)))
    (hfault : ∀ fault, Run.Candid settings (f (.error (.file fault)))) :
    Run.Candid settings ((onFiles x).caught >>= f) := by
  intro r hr
  rw [Attempt.outcome_bind, Attempt.outcome_caught, outcome_onFiles]
  cases x r.files with
  | ok a files => exact hvalue a _ hr
  | error fault files => exact hfault fault _ hr

theorem candid_looking (x : FileSystem → Except FileFault α) : Run.Candid settings (looking x) := by
  intro r hr
  unfold looking Attempt.outcome
  dsimp only
  cases x r.files with
  | ok a => exact .value hr
  | error fault => exact .plain rfl hr

theorem candid_currentFiles : Run.Candid settings currentFiles := fun _ h => .value h

theorem candid_destination (destination : Path) :
    Run.Candid settings (Run.destination settings destination) := by
  intro r hr
  rw [outcome_destination]
  cases h : target settings destination r.files with
  | ok path => exact .value hr
  | error e => exact .plain (isRecorded_of_target h) hr

theorem candid_expandSource (r : Renderer) (source : Path) :
    Run.Candid settings (expandSource r source) :=
  (candid_looking _).bind fun _ => (r.candid_renderAt _ _ _).expanding

theorem candid_mentionIgnored (t : Template) (values : List (String × String)) :
    Run.Candid settings (journaled (t.mentionIgnored values)) := by
  unfold Template.mentionIgnored
  exact (Candid.forM (fun _ => Candid.detail _) _).journaled.expanding

end Run

open Run (candid_say candid_sayAt candid_detail candid_onFiles candid_onFiles_caught
  candid_currentFiles candid_destination candid_expandSource candid_mentionIgnored)

namespace Generation

variable (r : Renderer) (t : Template) (destination : Path)

theorem candid_writeEntry (raw : Bool) (source target : Path) :
    Run.Candid settings (writeEntry r raw source target) := by
  have hinfo {message : String} : Run.Candid settings (Run.say .info message) :=
    candid_say (.of_ne (by decide))
  unfold writeEntry
  refine Candid.ite (fun _ => hinfo.bind fun _ => candid_onFiles _) fun _ => hinfo.bind fun _ => ?_
  exact (candid_expandSource r source).bind fun _ => (candid_detail _).bind fun _ =>
    candid_onFiles _

theorem candid_makeFrom (e : Entry) (source : Path) :
    Run.Candid settings (makeFrom r t destination e source) := by
  have hwrite (target : Path) : Run.Candid settings (writeTarget r e source target) := by
    unfold writeTarget
    exact (candid_writeEntry r e.raw source target).bind fun _ _ h => .value h
  unfold makeFrom
  refine (e.candid_resolveDestination r t).expanding.bind fun _ => candid_currentFiles.bind fun _ => ?_
  refine Candid.ite (fun _ => ?_) fun _ => ?_
  · exact (candid_sayAt (.of_ne (by decide))).bind fun _ => Candid.pure _
  · exact fillTarget_cases (fun _ _ => (candid_onFiles _).bind fun _ => hwrite _) fun _ => hwrite _

theorem candid_makeEntry (e : Entry) : Run.Candid settings (makeEntry r t destination e) := by
  unfold makeEntry
  exact candid_currentFiles.bind fun fs => (e.candid_resolveSource r t fs).expanding.bind fun source =>
    candid_makeFrom r t destination e source

/-- What an entry fails with is on record, or it is put there, unless it ends the run. -/
theorem candid_tryEntry (e : Entry) : Run.Candid settings (tryEntry r t destination e) := by
  unfold tryEntry
  refine Candid.caught_bind (candid_makeEntry r t destination e) (fun result hresult => ?_)
    fun e' he' => ?_
  · split
    · exact Candid.pure _
    · exact Candid.pure _
    · next failure _ =>
      -- a failure that ends the run was passed on
      refine Candid.ite (fun hends => absurd hends (hresult failure rfl)) fun _ => ?_
      exact (candid_sayAt (.of_front (by decide)
        ((((Text.Starts.refl "Error rendering '").append _).append _).append _))).bind
        fun _ => Candid.pure _
  · exact Failure.ending_cases he' (fun _ => rfl) (fun _ => rfl) fun _ => rfl

theorem candid_addEntry (kind : String) (e : Entry) :
    Run.Candid settings (addEntry r t destination kind e) := by
  unfold addEntry
  refine (candid_tryEntry r t destination e).bind fun result => ?_
  split
  · exact Candid.pure _
  · refine (candid_say (.of_ne (by decide))).bind fun _ => ?_
    exact Candid.ite (fun _ _ h => .value h) fun _ => Candid.pure _

theorem candid_addProject (p : Project) : Run.Candid settings (addProject r t destination p) :=
  (candid_addEntry r t destination _ p.entry).bind fun _ =>
    Candid.forM (fun e => candid_addEntry r t destination _ e) _

theorem candid_registerProject (name : String) (s : Solution) (project : Path) :
    Run.Candid settings (registerProject name s project) := by
  have hdrawn {x : Attempt Run Solution} (hx : Run.Candid settings x) :
      Run.Candid settings (Run.drawGuid >>= fun _ => x) :=
    Candid.bind (fun _ h => .value h) fun _ => hx
  unfold registerProject
  refine candid_currentFiles.bind fun fs => Candid.bind (fun _ h => .value h) fun guid => ?_
  split
  · exact hdrawn ((candid_say (.of_ne (by decide))).bind fun _ => Candid.pure _)
  · exact (candid_detail _).bind fun _ => (candid_say (.of_ne (by decide))).bind fun _ => Candid.pure _
  · exact (candid_say (.of_front (by decide)
      ((((((Text.Starts.refl "Could not add project '").append _).append _).append _).append _).append
        _))).bind fun _ => Candid.pure _

theorem candid_assembleSolution (path : Path) (projects : List Path) :
    Run.Candid settings (assembleSolution path projects) := by
  have hload {fs : FileSystem} :
      Run.Candid settings (Attempt.ofExcept (Solution.loadOrCreate fs path)) := by
    cases hloaded : Solution.loadOrCreate fs path with
    | ok loaded => exact Candid.pure _
    | error e => exact Candid.throw (plain_of_loadOrCreate hloaded).1
  have hassemble (name : String) (solution : Solution) : Run.Candid settings (do
      let full ← projects.foldlM (registerProject name) solution
      Run.onFiles full.save) :=
    (Candid.foldlM (fun s p => candid_registerProject name s p) _ _).bind fun full => candid_onFiles _
  unfold assembleSolution
  refine candid_currentFiles.bind fun fs => hload.bind fun loaded => ?_
  obtain ⟨solution, created⟩ := loaded
  refine Candid.ite (fun _ => ?_) fun _ => hassemble _ solution
  exact (candid_say (.of_ne (by decide))).bind fun _ => hassemble _ solution

theorem candid_trySolution (path : Path) (projects : List Path) :
    Run.Candid settings (trySolution path projects) := by
  unfold trySolution
  refine Candid.caught_bind (candid_assembleSolution path projects) (fun result hresult => ?_)
    fun e' he' => by simp only [he', if_true]
  split
  · exact Candid.pure _
  · next failure =>
    refine Candid.ite (fun hends => absurd hends (hresult failure rfl)) fun _ => ?_
    exact candid_say (.of_front (by decide)
      ((((Text.Starts.refl "Failed to update solution '").append _).append _).append _))

theorem candid_steps (settings : Settings) (year : Nat) (q : GenerationRequest) :
    Run.Candid settings (steps t settings year q) := by
  unfold steps
  refine (candid_destination _).bind fun destination => (candid_mentionIgnored t _).bind fun _ => ?_
  refine (candid_onFiles _).bind fun _ => ?_
  refine (Candid.forM (fun p => candid_addProject _ t destination p) _).bind fun _ => ?_
  split
  · exact Candid.bind (fun _ h => .value h) fun now => candid_trySolution _ now.projects
  · exact Candid.pure _

end Generation

namespace Package

variable (r : Renderer) (t : Template)

/-- What neither was reported nor ends the run is not on record. -/
theorem isRecorded_of_silent {e : Failure} (hends : ¬ e.endsRun = true)
    (hne : ∀ d, e ≠ .reported d) : e.isRecorded = false := by
  cases e with
  | fatal d => exact absurd rfl hends
  | raised d => exact absurd rfl hends
  | reported d => exact absurd rfl (hne d)
  | _ => rfl

theorem candid_resolve (fs : FileSystem) (e : Entry) :
    Expansion.Candid settings (resolve fs r t e) := by
  have hboth : Expansion.Candid settings (do
      let source ← e.resolveSource fs r t
      let relative ← e.resolveDestination r t
      return (source, relative)) :=
    (e.candid_resolveSource r t fs).bind fun _ => (e.candid_resolveDestination r t).bind fun _ =>
      Candid.pure _
  unfold resolve
  refine Candid.caught_bind hboth (fun result hresult => ?_) fun e' he' => ?_
  · split
    · exact Candid.pure _
    · exact Candid.pure _
    · next failure hne => exact Candid.throw (isRecorded_of_silent (hresult failure rfl) hne)
  · exact Failure.ending_cases he' (fun _ => rfl) (fun _ => rfl) fun _ => rfl

theorem candid_layOut (fs : FileSystem) (entries : PackageEntries) (e : Entry) :
    Expansion.Candid settings (layOut fs r t entries e) := by
  unfold layOut
  refine (candid_resolve r t fs e).bind fun found => ?_
  split
  · exact Candid.pure _
  · split
    · exact Candid.pure _
    · exact Expansion.candid_sayAt (.of_front (by decide)
        (((Text.Starts.refl "Skipping entry: ").append _).append _)) _

theorem candid_layOutProject (fs : FileSystem) (p : Project) :
    Expansion.Candid settings (layOutProject fs r t p) := by
  have hends : Ending ⟨.error, s!"Project file '{p.entry.source}' could not be resolved.",
      some ⟨t.path, p.entry.position⟩⟩ :=
    ⟨rfl, _, by decide, ((Text.Starts.refl "Project file '").append _).append _⟩
  unfold layOutProject
  refine (candid_layOut r t fs [] p.entry).bind fun found => ?_
  split
  · exact (Candid.fatal hends).journaled
  · refine (Candid.foldlM (fun entries e => ?_) _ _).bind fun _ => Candid.pure _
    exact (candid_layOut r t fs entries e).bind fun _ => Candid.pure _

theorem candid_onlyProject : Run.Candid settings (onlyProject t) := by
  unfold onlyProject Run.journaled
  split
  · exact Candid.pure _
  · exact (Candid.fatal ⟨rfl, _, by decide, .refl _⟩).journaled.expanding
  · exact (Candid.fatal ⟨rfl, _, by decide, ((Text.Starts.refl
      "VS templates with more than 1 project are not supported, found ").append
        _).append _⟩).journaled.expanding

theorem candid_plan (settings : Settings) (year : Nat) (q : ExportRequest) :
    Run.Candid settings (plan t settings year q) := by
  unfold plan
  refine (candid_destination _).bind fun _ => (candid_mentionIgnored t _).bind fun _ => ?_
  refine (candid_detail _).bind fun _ => (candid_onlyProject t).bind fun project => ?_
  refine candid_currentFiles.bind fun files => ?_
  exact (candid_layOutProject _ t files project).expanding.bind fun _ => Candid.pure _

theorem candid_writeFile (file : PackageFile) (target : Path) :
    Run.Candid settings (writeFile r file target) := by
  unfold writeFile
  refine Candid.ite (fun _ => candid_onFiles _) fun _ => ?_
  exact (candid_expandSource r file.source).bind fun _ => candid_onFiles _

theorem candid_tryFile (file : PackageFile) (target : Path) :
    Run.Candid settings (tryFile r file target) := by
  unfold tryFile
  refine Candid.caught_bind (candid_writeFile r file target) (fun result hresult => ?_)
    fun e' he' => ?_
  · split
    · exact fun _ h => .value h
    · exact Candid.pure _
    · next failure _ =>
      refine Candid.ite (fun hends => absurd hends (hresult failure rfl)) fun _ => ?_
      exact candid_say (.of_front (by decide)
        ((((Text.Starts.refl "Error writing '").append _).append _).append _))
  · exact Failure.ending_cases he' (fun _ => rfl) (fun _ => rfl) fun _ => rfl

theorem candid_writePiece (output : Path) (piece : PackagePiece) :
    Run.Candid settings (writePiece r output piece) := by
  obtain ⟨trail, file⟩ := piece
  cases file with
  | some file => exact candid_tryFile r file _
  | none => exact candid_onFiles _

theorem candid_writeNode (output : Path) (trail : List String) (node : PackageNode) :
    Run.Candid settings (writeNode r output trail node) := by
  rw [writeNode_eq_forM]
  exact Candid.forM (candid_writePiece r output) _

theorem candid_copyAsset (output : Path) (asset : Option String) :
    Run.Candid settings (copyAsset t output asset) := by
  unfold copyAsset
  split
  · exact Candid.pure _
  simp only
  split
  · exact candid_say (.of_front (by decide)
      (((Text.Starts.refl "Invalid asset path '").append _).append _))
  refine candid_currentFiles.bind fun files => Candid.ite (fun _ => ?_) fun _ => ?_
  · refine candid_onFiles_caught (fun _ => Candid.pure _) fun fault => ?_
    exact candid_say (.of_front (by decide)
      ((((Text.Starts.refl "Failed to copy '").append _).append _).append _))
  · exact candid_say (.of_front (by decide)
      (((Text.Starts.refl "Asset not found at '").append _).append _))

theorem candid_warnOfOutsiders (entries : PackageEntries) (project : List String) :
    Run.Candid settings (warnOfOutsiders entries project) :=
  Candid.forM (fun _ => Candid.ite (fun _ => Candid.pure _) fun _ =>
    candid_say (.of_ne (by decide))) _

theorem candid_writeDescriptor (language : Language) (output : Path) (entries : PackageEntries)
    (project : List String) :
    Run.Candid settings (writeDescriptor t language output entries project) := by
  unfold writeDescriptor
  split
  · exact Candid.throw rfl
  · exact (candid_onFiles _).bind fun _ => candid_say (.of_ne (by decide))

theorem candid_writeOut (language : Language) (p : Plan) :
    Run.Candid settings (writeOut t r language p) := by
  obtain ⟨output, entries, names⟩ := p
  unfold writeOut
  refine (candid_writeNode r output [] _).bind fun _ => ?_
  refine (candid_copyAsset t output _).bind fun _ => (candid_copyAsset t output _).bind fun _ => ?_
  exact (candid_warnOfOutsiders entries names).bind fun _ =>
    candid_writeDescriptor t language output entries names

theorem candid_steps (settings : Settings) (year : Nat) (q : ExportRequest) :
    Run.Candid settings (steps t settings year q) := by
  rw [steps_eq]
  exact (candid_plan t settings year q).bind fun p => candid_writeOut _ t q.language p

end Package

theorem Failure.diagnostic_of_unrecorded {e : Failure} (h : e.isRecorded = false) :
    e.diagnostic = ⟨.error, e.message, none⟩ := by
  cases e with
  | fatal d => cases h
  | raised d => cases h
  | reported d => cases h
  | _ => rfl

namespace Journal

variable {j : Journal} {e : Failure}

/-- A success shows no error. -/
theorem Faithful.silent (h : j.Faithful settings) (hnone : j.errors = 0) :
    j.records.filter (.error ≤ ·.level) = [] := by
  refine List.filter_eq_nil_iff.mpr fun d hd => ?_
  have hsaid : d.level ≠ .none := h.levels d hd
  have hcounted : d.level ≠ .error := fun he => absurd (h.counted d hd he) (by omega)
  cases hlevel : d.level with
  | error => exact absurd hlevel hcounted
  | none => exact absurd hlevel hsaid
  | verbose => decide
  | info => decide
  | warning => decide

/-- A journal that ended with a failure shows it once when it is closed, as an error and at the end. -/
theorem Leaving.once {result : Except Failure Unit} (h : Leaving settings result j)
    (he : result = .error e) (hreported : ∀ d, e ≠ .reported d) :
    e.diagnostic.level = .error ∧
      ∃ earlier, (j.close result).2.records = earlier ++ [e.diagnostic] ∧ e.diagnostic ∉ earlier ∧
        j.records = if e.isRecorded then earlier ++ [e.diagnostic] else earlier := by
  subst he
  cases h with
  | plain hplain hj =>
    -- closing records the failure, and nothing on record reads like it
    have hends := Failure.ending_of_unrecorded hplain
    refine ⟨hends.level, j.records, ?_, fun hd => hends.not_passing (hj.passing _ hd), ?_⟩
    · rw [close_unrecorded hplain, Failure.diagnostic_of_unrecorded hplain]
      rfl
    · rw [hplain]
      rfl
  | @reported d => exact absurd rfl (hreported d)
  | @raised d _ hstrict hlevel hj =>
    obtain ⟨before, hbefore, hrecords⟩ := hj
    refine ⟨hlevel, before.records, hrecords, fun hd => ?_, hrecords⟩
    -- a strict journal has no error but the one that stopped it
    exact absurd (hbefore.counted d hd hlevel) (by rw [hbefore.patient hstrict]; exact Nat.lt_irrefl 0)
  | @fatal d _ hends hj =>
    -- it may come after errors that the run went on from, which read differently
    obtain ⟨before, hbefore, hrecords⟩ := hj
    exact ⟨hends.level, before.records, hrecords, fun hd => hends.not_passing (hbefore.passing d hd),
      hrecords⟩

end Journal

/-- How a run ended agrees with what its report says of errors. The steps of the run ended as `ended`,
and `full` is the report of the same run that drops nothing of what is said. -/
structure Verdict (settings : Settings) (ended : Except Failure Unit × Run)
    (report full : Report) : Prop where
  fatal : report.outcome = .fatal → ∃ d ∈ report.diagnostics, d.level = .error
  success : report.outcome = .success → report.errors = []
  incomplete : report.outcome = .incomplete → settings.strict = false ∧ ended.1 = .ok () ∧
    (∃ d ∈ full.diagnostics, d.level = .error) ∧
    (settings.threshold ≠ .none → ∃ d ∈ report.diagnostics, d.level = .error)
  /-- The failure that ended a run is on record once and last. If it was there when the steps ended,
  closing the run adds nothing, and otherwise closing adds just that. -/
  once : ∀ e, ended.1 = .error e → ∃ earlier, report.diagnostics = earlier ++ [e.diagnostic] ∧
    e.diagnostic ∉ earlier ∧
    ended.2.expansion.journal.records = if e.isRecorded then report.diagnostics else earlier

section

variable {x : Attempt Run Unit} {files : FileSystem} {guids : GuidSource}

/-- A success counted no error, so that none is on record. -/
theorem errors_of_success (h : Run.Candid settings x)
    (hout : (Run.finish x (Run.start files guids settings)).1.outcome = .success) :
    (Run.finish x (Run.start files guids settings)).1.errors = [] := by
  obtain ⟨last, hx⟩ := Run.exists_of_not_fatal (by rw [hout]; nofun)
  have hleft := h (Run.start files guids settings) (.start settings)
  rw [hx] at hleft
  cases hleft with
  | value hj =>
    unfold Report.errors
    rw [Run.diagnostics_finish hx]
    refine hj.silent (Nat.eq_zero_of_not_pos fun hcounted => ?_)
    rw [Run.finish_eq, hx] at hout
    exact Journal.close_of_errors hcounted _ hout

/-- An incomplete run came to its end, in a lenient journal that counted errors. -/
theorem exists_of_incomplete (h : Run.Candid settings x)
    (hout : (Run.finish x (Run.start files guids settings)).1.outcome = .incomplete) :
    settings.strict = false ∧ (x.outcome (Run.start files guids settings)).1 = .ok () ∧
      (settings.threshold ≤ .error →
        ∃ d ∈ (Run.finish x (Run.start files guids settings)).1.diagnostics, d.level = .error) := by
  obtain ⟨last, hx⟩ := Run.exists_of_not_fatal (by rw [hout]; nofun)
  have hleft := h (Run.start files guids settings) (.start settings)
  rw [hx] at hleft
  cases hleft with
  | value hj =>
    have hcounted : 0 < last.expansion.journal.errors := by
      refine Nat.pos_of_ne_zero fun hnone => ?_
      simp [Run.finish_eq, hx, Journal.close, Journal.hasErrors, hnone] at hout
    rw [Run.diagnostics_finish hx, hx]
    refine ⟨Bool.eq_false_iff.mpr fun hstrict => ?_, rfl, fun hthreshold => hj.told hthreshold hcounted⟩
    exact Nat.ne_of_gt hcounted (hj.patient hstrict)

/-- No failure that ends only an entry ends the run. -/
theorem not_reported_of_matched
    (hx : Matched (Journal.thresholds settings.threshold settings.threshold).ofRuns
      (Unreported fun e => e.isRecorded = true) x) {e : Failure}
    (he : (x.outcome (Run.start files guids settings)).1 = .error e) (d : Diagnostic) :
    e ≠ .reported d := by
  rintro rfl
  have hends := hx.ends (Run.start files guids settings) (Run.start files guids settings)
    ⟨_, rfl, rfl, rfl, rfl, rfl, fun _ _ => rfl⟩
  generalize x.outcome (Run.start files guids settings) = left at he hends
  cases hends with
  | value _ => cases he
  | failure hreported _ =>
    cases he
    rcases hreported with ⟨-, hends⟩ | hrecorded
    · cases hends
    · cases hrecorded
  | cut _ _ h => exact h.1.elim

/-- The failure that ended a run is shown once. -/
theorem once_of_candid (h : Run.Candid settings x) {e : Failure}
    (he : (x.outcome (Run.start files guids settings)).1 = .error e)
    (hreported : ∀ d, e ≠ .reported d) :
    e.diagnostic.level = .error ∧
      ∃ earlier, (Run.finish x (Run.start files guids settings)).1.diagnostics =
          earlier ++ [e.diagnostic] ∧ e.diagnostic ∉ earlier ∧
        (x.outcome (Run.start files guids settings)).2.expansion.journal.records =
          if e.isRecorded then earlier ++ [e.diagnostic] else earlier :=
  (h (Run.start files guids settings) (.start settings)).once he hreported

theorem verdict_of_candid (hcandid : ∀ threshold, Run.Candid { settings with threshold } x)
    (hmatched : ∀ low high, Matched (Journal.thresholds low high).ofRuns
      (Unreported fun e => e.isRecorded = true) x) (files : FileSystem) (guids : GuidSource) :
    Verdict settings (x.outcome (Run.start files guids settings))
      (Run.finish x (Run.start files guids settings)).1
      (Run.finish x (Run.start files guids { settings with threshold := .verbose })).1 := by
  have hleft : Run.Candid settings x := hcandid settings.threshold
  have honce (e : Failure) (he : (x.outcome (Run.start files guids settings)).1 = .error e) :=
    once_of_candid hleft he (not_reported_of_matched (hmatched _ _) he)
  refine ⟨fun hout => ?_, errors_of_success hleft, fun hout => ?_, fun e he => ?_⟩
  · obtain ⟨e, he⟩ := Run.finish_fatal_iff.mp hout
    obtain ⟨hlevel, earlier, hrecords, -⟩ := honce e he
    rw [hrecords]
    exact ⟨e.diagnostic, List.mem_append_right _ List.mem_cons_self, hlevel⟩
  · obtain ⟨hlenient, hended, htold⟩ := exists_of_incomplete hleft hout
    -- the run that drops nothing is incomplete as well
    have hquieter := quieter_of_matched (hmatched settings.threshold .verbose) settings files guids
    have hfull := (exists_of_incomplete (hcandid .verbose) (hquieter.outcome.trans hout)).2.2
    refine ⟨hlenient, hended, hfull (Nat.zero_le _), fun hthreshold => htold ?_⟩
    cases h : settings.threshold with
    | none => exact absurd h hthreshold
    | _ => decide
  · obtain ⟨-, earlier, hrecords, hnew, hlast⟩ := honce e he
    refine ⟨earlier, hrecords, hnew, ?_⟩
    rw [hrecords]
    exact hlast

end

/-- The verdict of every report agrees with its diagnostics, whatever the settings. -/
theorem report_verdict (t : Template) (settings : Settings) (year : Nat) (q : GenerationRequest)
    (q' : ExportRequest) (files : FileSystem) (guids : GuidSource) :
    Verdict settings
        ((Generation.steps t settings year q).outcome (Run.start files guids settings))
        (generate t settings year q files guids).1
        (generate t { settings with threshold := .verbose } year q files guids).1 ∧
      Verdict settings
        ((Package.steps t settings year q').outcome (Run.start files guids settings))
        (exportPackage t settings year q' files guids).1
        (exportPackage t { settings with threshold := .verbose } year q' files guids).1 :=
  ⟨verdict_of_candid (fun _ => Generation.candid_steps t _ year q)
      (fun _ _ => Generation.matched_steps Journal.spoken_thresholds t settings year q) files guids,
    verdict_of_candid (fun _ => Package.candid_steps t _ year q')
      (fun _ _ => Package.matched_steps Journal.spoken_thresholds t Journal.sifted_fatal settings year q')
      files guids⟩

end Stencil
