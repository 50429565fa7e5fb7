import Stencil.Proofs.Lookup
import Stencil.Proofs.Picking
import Stencil.Proofs.Solution.Growth

namespace Stencil.Generation

open Solution (Addition)

variable {s : Solution} {r r' : Run} {name : String} {project : Path} {projects : List Path}

/-- The calls that are made for projects, each with the solution that it meets. -/
def calls (workingDirectory : Path) : Solution → GuidSource → List Path → List (Solution × Addition)
  | _, _, [] => []
  | s, guids, project :: rest =>
    let a : Addition := ⟨workingDirectory, guids.next, project⟩
    (s, a) :: calls workingDirectory (s.after a)
      (if s.answer a = .ok true then guids.advance else guids) rest

/-- What is said of a call that adds a project to a solution of a name. -/
def remark (name : String) (call : Solution × Addition) : Diagnostic :=
  let projectName := call.2.project.fileName?.getD ""
  match call.1.answer call.2 with
  | .ok true => ⟨.info, s!"Added project '{projectName}' to solution '{name}'.", none⟩
  | .ok false => ⟨.warning, s!"Project '{projectName}' is already part of solution '{name}'.", none⟩
  | .error fault => ⟨.error, s!"Could not add project '{projectName}' to solution '{name}': " ++
    (Failure.solution fault).message, none⟩

/-- The call that is made for a project next. -/
def nextCall (s : Solution) (r : Run) (project : Path) : Solution × Addition :=
  (s, ⟨r.files.workingPath, r.expansion.guids.next, project⟩)

theorem level_remark (name : String) (call : Solution × Addition) : (remark name call).level =
    match call.1.answer call.2 with
    | .ok true => .info
    | .ok false => .warning
    | .error _ => .error := by
  unfold remark
  split <;> rfl

/-- A run that has gone on with the same files, whose journal has taken something in. -/
structure Speaks (r r' : Run) (said : List Diagnostic) : Prop where
  files : r'.files = r.files
  onward : Journal.Onward r.expansion.journal r'.expansion.journal
  records : r'.expansion.journal.records = r.expansion.journal.records ++ said

theorem Speaks.trans {r r' r'' : Run} {said more : List Diagnostic} (h : Speaks r r' said)
    (h' : Speaks r' r'' more) : Speaks r r'' (said ++ more) :=
  ⟨h'.files.trans h.files, h.onward.trans h'.onward, by
    rw [h'.records, h.records, List.append_assoc]⟩

section Say

variable {level : Level} {message : String}

theorem outcome_say (level : Level) (message : String) (r : Run) :
    (Run.say level message).outcome r =
      (((Journal.emit ⟨level, message, none⟩).outcome r.expansion.journal).1,
        r.under ((Journal.emit ⟨level, message, none⟩).outcome r.expansion.journal).2) := by
  unfold Run.say Run.journaled
  rw [Run.outcome_expanding, Expansion.outcome_journaled]
  rfl

/-- A diagnostic that does not end the run is recorded as far as it passes. -/
theorem outcome_say_taken (hnone : level ≠ .none)
    (h : r.expansion.journal.strict = true → level ≠ .error) :
    ∃ r', (Run.say level message).outcome r = (.ok (), r') ∧ r'.expansion.guids = r.expansion.guids ∧
      Speaks r r' (r.expansion.journal.threshold.passing [⟨level, message, none⟩]) := by
  have honward := Journal.Onward.emit r.expansion.journal ⟨level, message, none⟩
  rw [outcome_say]
  refine ⟨_, Prod.ext ?_ rfl, rfl, rfl, honward, ?_⟩
  · -- only an error in a strict run would be raised
    rw [Journal.outcome_emit, if_neg hnone]
    split
    · next herror => rw [if_neg fun hstrict => h hstrict herror]
    · rfl
  · change ((Journal.emit _).outcome r.expansion.journal).2.records = _
    rw [Journal.outcome_emit, if_neg hnone]
    split
    · next herror =>
      rw [if_neg fun hstrict => h hstrict herror]
      exact Journal.records_publishFrom_passing r.expansion.journal.countError _
    · exact Journal.records_publishFrom_passing r.expansion.journal _

/-- A strict run ends with an error, which is on record whatever the threshold. -/
theorem outcome_say_raised (hstrict : r.expansion.journal.strict = true) :
    ∃ r', (Run.say .error message).outcome r = (.error (.raised ⟨.error, message, none⟩), r') ∧
      Speaks r r' [⟨.error, message, none⟩] := by
  have honward := Journal.Onward.emit r.expansion.journal ⟨.error, message, none⟩
  rw [outcome_say]
  refine ⟨_, Prod.ext ?_ rfl, rfl, honward, ?_⟩
  · rw [Journal.outcome_emit, if_neg nofun, if_pos rfl, if_pos hstrict]
  · change ((Journal.emit _).outcome r.expansion.journal).2.records = _
    rw [Journal.outcome_emit, if_neg nofun, if_pos rfl, if_pos hstrict]
    rfl

end Say

/-- A call draws an identifier if it adds the project, and then says what it came to. -/
theorem outcome_registerProject (name : String) (s : Solution) (r : Run) (project : Path) :
    ∃ begun, Speaks r begun [] ∧
      begun.expansion.guids = (if s.answer (nextCall s r project).2 = .ok true then
        r.expansion.guids.advance else r.expansion.guids) ∧
      (registerProject name s project).outcome r = (do
        Run.say (remark name (nextCall s r project)).level (remark name (nextCall s r project)).message
        return s.after (nextCall s r project).2 : Attempt Run Solution).outcome begun := by
  have hfiles : Run.currentFiles.outcome r = (.ok r.files, r) := rfl
  have hnext : Run.nextGuid.outcome r = (.ok r.expansion.guids.next, r) := rfl
  have hcall : nextCall s r project = (s, ⟨r.files.workingPath, r.expansion.guids.next, project⟩) := rfl
  have hnothing (r' : Run) (hfiles : r'.files = r.files)
      (honward : r.expansion.journal.Onward r'.expansion.journal)
      (hrecords : r'.expansion.journal.records = r.expansion.journal.records) : Speaks r r' [] :=
    ⟨hfiles, honward, by rw [hrecords, List.append_nil]⟩
  rw [hcall]
  unfold registerProject remark Solution.answer Solution.after
  -- the remark and the solution behind the call depend on the same result
  rw [Attempt.outcome_bind, hfiles]
  dsimp only
  rw [Attempt.outcome_bind, hnext]
  dsimp only
  generalize r.expansion.guids.next = guid
  cases s.addProject r.files.workingPath guid project with
  | error fault => exact ⟨r, hnothing r rfl (.refl _) rfl, rfl, rfl⟩
  | ok answered =>
    obtain ⟨grown, added⟩ := answered
    cases added with
    | true =>
      exact ⟨{ r with expansion := { r.expansion with guids := r.expansion.guids.advance } },
        hnothing _ rfl (.refl _) rfl, rfl, rfl⟩
    | false =>
      exact ⟨r.under (r.expansion.journal.mention .verbose
        s!"Project '{s.projectPath r.files.workingPath project}' already in solution"),
        hnothing _ rfl (.mention _ _ _) rfl, rfl, rfl⟩

theorem level_remark_ne_none (name : String) (call : Solution × Addition) :
    (remark name call).level ≠ .none := by
  rw [level_remark]
  split <;> nofun

theorem location_remark (name : String) (call : Solution × Addition) :
    remark name call = ⟨(remark name call).level, (remark name call).message, none⟩ := by
  unfold remark
  split <;> rfl

/-- A call that does not end the run hands on the solution behind it, and its remark is recorded as far as
it passes. -/
theorem registerProject_taken (h : r.expansion.journal.strict = true →
      (remark name (nextCall s r project)).level ≠ .error) :
    ∃ r', (registerProject name s project).outcome r =
        (.ok (s.after (nextCall s r project).2), r') ∧
      r'.expansion.guids = (if s.answer (nextCall s r project).2 = .ok true then
        r.expansion.guids.advance else r.expansion.guids) ∧
      Speaks r r' (r.expansion.journal.threshold.passing [remark name (nextCall s r project)]) := by
  obtain ⟨begun, hbegun, hguids, houtcome⟩ := outcome_registerProject name s r project
  obtain ⟨r', hsay, hguids', hspeaks⟩ := outcome_say_taken
    (level_remark_ne_none name (nextCall s r project)) fun hstrict => h (hbegun.onward.strict ▸ hstrict)
  refine ⟨r', ?_, hguids'.trans hguids, ?_⟩
  · rw [houtcome, Attempt.outcome_bind, hsay]
    rfl
  · rw [hbegun.onward.threshold, ← location_remark] at hspeaks
    exact hbegun.trans hspeaks

/-- An error ends a strict run. -/
theorem registerProject_raised (hstrict : r.expansion.journal.strict = true)
    (h : (remark name (nextCall s r project)).level = .error) :
    ∃ r', (registerProject name s project).outcome r =
        (.error (.raised (remark name (nextCall s r project))), r') ∧
      Speaks r r' [remark name (nextCall s r project)] := by
  obtain ⟨begun, hbegun, -, houtcome⟩ := outcome_registerProject name s r project
  obtain ⟨r', hsay, hspeaks⟩ := @outcome_say_raised begun
    (remark name (nextCall s r project)).message (hbegun.onward.strict.trans hstrict)
  rw [← h, ← location_remark] at hsay hspeaks
  refine ⟨r', ?_, hbegun.trans hspeaks⟩
  rw [houtcome, Attempt.outcome_bind, hsay]

/-- The calls that a run makes for projects. -/
def callsFrom (s : Solution) (r : Run) (projects : List Path) : List (Solution × Addition) :=
  calls r.files.workingPath s r.expansion.guids projects

/-- Behind the first call, a run goes on with the calls for the other projects. -/
theorem callsFrom_cons {next : Run} {project : Path} (hfiles : next.files = r.files)
    (hguids : next.expansion.guids = if s.answer (nextCall s r project).2 = .ok true then
      r.expansion.guids.advance else r.expansion.guids) (rest : List Path) :
    callsFrom s r (project :: rest) = nextCall s r project ::
      callsFrom (s.after (nextCall s r project).2) next rest := by
  rw [callsFrom, calls, callsFrom, hfiles, hguids]
  rfl

theorem projects_calls (workingDirectory : Path) (s : Solution) (guids : GuidSource)
    (projects : List Path) :
    (calls workingDirectory s guids projects).map (·.2.project) = projects := by
  induction projects generalizing s guids with
  | nil => rfl
  | cons project rest ih =>
    rw [calls, List.map_cons, ih]

/-- The calls meet the solutions that those before them leave. -/
theorem answers_calls (workingDirectory : Path) (s : Solution) (guids : GuidSource)
    (projects : List Path) :
    (calls workingDirectory s guids projects).map (fun call => call.1.answer call.2) =
      s.answers ((calls workingDirectory s guids projects).map (·.2)) := by
  induction projects generalizing s guids with
  | nil => rfl
  | cons project rest ih =>
    rw [calls, List.map_cons, ih]
    rfl

/-- Calls of which none ends the run are all made, and each is told of. -/
theorem foldlM_registerProject (h : r.expansion.journal.strict = true →
      ∀ call ∈ callsFrom s r projects, (remark name call).level ≠ .error) :
    ∃ r', (projects.foldlM (registerProject name) s).outcome r =
        (.ok (s.afterAll ((callsFrom s r projects).map (·.2))), r') ∧
      Speaks r r' (r.expansion.journal.threshold.passing
        ((callsFrom s r projects).map (remark name))) := by
  induction projects generalizing s r with
  | nil => exact ⟨r, rfl, rfl, .refl _, (List.append_nil _).symm⟩
  | cons project rest ih =>
    have hfirst : r.expansion.journal.strict = true →
        (remark name (nextCall s r project)).level ≠ .error :=
      fun hstrict => h hstrict _ List.mem_cons_self
    obtain ⟨next, hnext, hguids, hspeaks⟩ := registerProject_taken hfirst
    rw [callsFrom_cons hspeaks.files hguids] at h ⊢
    obtain ⟨last, hlast, hmore⟩ := ih fun hstrict call hcall =>
      h (hspeaks.onward.strict ▸ hstrict) call (List.mem_cons_of_mem _ hcall)
    refine ⟨last, ?_, ?_⟩
    · rw [List.foldlM_cons, Attempt.outcome_bind, hnext]
      exact hlast
    · have hwhole := hspeaks.trans hmore
      rw [hspeaks.onward.threshold, ← Level.passing_append] at hwhole
      exact hwhole

/-- In a strict run the first error ends the calls. -/
theorem foldlM_registerProject_raised (hstrict : r.expansion.journal.strict = true)
    {before later : List (Solution × Addition)} {call : Solution × Addition}
    (hsplit : callsFrom s r projects = before ++ call :: later)
    (hbefore : ∀ earlier ∈ before, (remark name earlier).level ≠ .error)
    (hcall : (remark name call).level = .error) :
    ∃ r', (projects.foldlM (registerProject name) s).outcome r =
        (.error (.raised (remark name call)), r') ∧
      Speaks r r' (r.expansion.journal.threshold.passing (before.map (remark name)) ++
        [remark name call]) := by
  induction projects generalizing s r before with
  | nil => exact absurd hsplit.symm (by simp [callsFrom, calls])
  | cons project rest ih =>
    -- the first call either is the one that fails, or comes before it and is taken
    have hhead : ∃ others, callsFrom s r (project :: rest) = nextCall s r project :: others := ⟨_, rfl⟩
    cases before with
    | nil =>
      obtain ⟨others, hothers⟩ := hhead
      obtain rfl := (List.cons.inj (hothers.symm.trans hsplit)).1
      obtain ⟨last, hlast, hspeaks⟩ := registerProject_raised hstrict hcall
      refine ⟨last, ?_, hspeaks⟩
      rw [List.foldlM_cons, Attempt.outcome_bind, hlast]
    | cons earlier before =>
      obtain ⟨others, hothers⟩ := hhead
      obtain rfl := (List.cons.inj (hothers.symm.trans hsplit)).1
      obtain ⟨next, hnext, hguids, hspeaks⟩ :=
        registerProject_taken fun _ => hbefore _ List.mem_cons_self
      rw [callsFrom_cons hspeaks.files hguids] at hsplit
      obtain ⟨last, hlast, hmore⟩ := ih (hspeaks.onward.strict.trans hstrict)
        (List.cons.inj hsplit).2 fun other hother => hbefore other (List.mem_cons_of_mem _ hother)
      refine ⟨last, ?_, ?_⟩
      · rw [List.foldlM_cons, Attempt.outcome_bind, hnext]
        exact hlast
      · have hwhole := hspeaks.trans hmore
        rw [hspeaks.onward.threshold, ← List.append_assoc, ← Level.passing_append] at hwhole
        exact hwhole

theorem level_remark_eq_error {call : Solution × Addition} :
    (remark name call).level = .error ↔ call.2.language? = none := by
  rw [level_remark]
  have hcall := call.1.answered call.2
  generalize call.1.answer call.2 = result, call.1.after call.2 = grown at hcall
  cases hcall with
  | added language hlanguage => simp [hlanguage]
  | present language hlanguage => simp [hlanguage]
  | unsupported hnone => simp [hnone]

/-- The name that a solution is spoken of by. -/
def solutionName (path : Path) : String := path.fileName?.getD ""

/-- What is said before any project is added. -/
def openingRemarks (path : Path) (created : Bool) : List Diagnostic :=
  if created then [⟨.info, s!"Created solution '{solutionName path}'.", none⟩] else []

/-- What is said of the projects that are added to a solution, which is `s` at first. -/
def remarks (path : Path) (s : Solution) (r : Run) (projects : List Path) : List Diagnostic :=
  (callsFrom s r projects).map (remark (solutionName path))

/-- How a solution is assembled. There is one call for each project and one remark for each call, which
tells what the call came to, unless a strict run ends with the first error. -/
structure Assembles (path : Path) (projects : List Path) (r : Run) (s : Solution) (created : Bool) :
    Prop where
  one : (callsFrom s r projects).map (·.2.project) = projects
  inTurn : (callsFrom s r projects).map (fun call => call.1.answer call.2) =
    s.answers ((callsFrom s r projects).map (·.2))
  tells : ∀ call ∈ callsFrom s r projects,
    ((remark (solutionName path) call).level = .info ↔ call.1.answer call.2 = .ok true) ∧
      ((remark (solutionName path) call).level = .warning ↔ call.1.answer call.2 = .ok false) ∧
      ((remark (solutionName path) call).level = .error ↔ call.2.language? = none)
  whole : (r.expansion.journal.strict = true →
      ∀ call ∈ callsFrom s r projects, call.2.language? ≠ none) →
    ∃ registered, Speaks r registered (r.expansion.journal.threshold.passing
        (openingRemarks path created ++ remarks path s r projects)) ∧
      (assembleSolution path projects).outcome r = (Run.onFiles
        (s.afterAll ((callsFrom s r projects).map (·.2))).save).outcome registered
  raised : r.expansion.journal.strict = true → ∀ before call later,
    callsFrom s r projects = before ++ call :: later →
    (∀ earlier ∈ before, earlier.2.language? ≠ none) → call.2.language? = none →
      ∃ last, (assembleSolution path projects).outcome r =
          (.error (.raised (remark (solutionName path) call)), last) ∧
        Speaks r last (r.expansion.journal.threshold.passing
            (openingRemarks path created ++ before.map (remark (solutionName path))) ++
          [remark (solutionName path) call])

variable {path : Path} {created : Bool}

/-- Behind the remark on a new solution, the projects are added and the solution is saved. -/
theorem outcome_assembleSolution (hs : Solution.loadOrCreate r.files path = .ok (s, created)) :
    ∃ begun, Speaks r begun (r.expansion.journal.threshold.passing (openingRemarks path created)) ∧
      begun.expansion.guids = r.expansion.guids ∧
      (assembleSolution path projects).outcome r = (do
        let full ← projects.foldlM (registerProject (solutionName path)) s
        Run.onFiles full.save : Attempt Run Unit).outcome begun := by
  have hfiles : Run.currentFiles.outcome r = (.ok r.files, r) := rfl
  have hload : (Attempt.ofExcept (Solution.loadOrCreate r.files path) :
      Attempt Run (Solution × Bool)).outcome r = (.ok (s, created), r) := by
    rw [hs]
    rfl
  unfold assembleSolution
  rw [Attempt.outcome_bind, hfiles]
  dsimp only
  rw [Attempt.outcome_bind, hload]
  cases created with
  | false =>
    exact ⟨r, ⟨rfl, .refl _, (List.append_nil _).symm⟩, rfl, rfl⟩
  | true =>
    obtain ⟨begun, hsay, hguids, hspeaks⟩ := @outcome_say_taken r .info
      s!"Created solution '{solutionName path}'." nofun fun _ => nofun
    refine ⟨begun, hspeaks, hguids, ?_⟩
    simp only [if_true]
    rw [Attempt.outcome_bind]
    unfold solutionName at hsay
    rw [hsay]
    rfl

theorem assembles (hs : Solution.loadOrCreate r.files path = .ok (s, created))
    (projects : List Path) : Assembles path projects r s created := by
  obtain ⟨begun, hbegun, hguids, houtcome⟩ := @outcome_assembleSolution s r projects path created hs
  have hcalls : callsFrom s begun projects = callsFrom s r projects := by
    rw [callsFrom, callsFrom, hbegun.files, hguids]
  refine ⟨projects_calls _ _ _ _, answers_calls _ _ _ _, fun call _ => ?_, fun h => ?_,
    fun hstrict before call later hsplit hbefore hcall => ?_⟩
  · rw [level_remark_eq_error, level_remark]
    cases call.1.answer call.2 with
    | error fault => exact ⟨⟨nofun, nofun⟩, ⟨nofun, nofun⟩, Iff.rfl⟩
    | ok added => cases added <;> simp
  · obtain ⟨registered, hfold, hspeaks⟩ := @foldlM_registerProject s begun (solutionName path) projects
      fun hstrict call hcall hlevel => h (hbegun.onward.strict ▸ hstrict) call (hcalls ▸ hcall)
        (level_remark_eq_error.mp hlevel)
    rw [hcalls] at hfold hspeaks
    rw [hbegun.onward.threshold] at hspeaks
    refine ⟨registered, ?_, ?_⟩
    · have hwhole := hbegun.trans hspeaks
      rw [← Level.passing_append] at hwhole
      exact hwhole
    · rw [houtcome, Attempt.outcome_bind, hfold]
  -- a strict run is raised within the fold, so the solution is never saved
  · rw [← hcalls] at hsplit
    obtain ⟨last, hfold, hspeaks⟩ := foldlM_registerProject_raised
      (hbegun.onward.strict.trans hstrict) hsplit
      (fun earlier hearlier hlevel => hbefore earlier hearlier (level_remark_eq_error.mp hlevel))
      (level_remark_eq_error.mpr hcall)
    rw [hbegun.onward.threshold] at hspeaks
    refine ⟨last, ?_, ?_⟩
    · rw [houtcome, Attempt.outcome_bind, hfold]
    · have hwhole := hbegun.trans hspeaks
      rw [← List.append_assoc, ← Level.passing_append] at hwhole
      exact hwhole

/-- What is said if a solution cannot be updated. -/
def complaints (path : Path) : Except Failure Unit → List Diagnostic
  | .ok () => []
  | .error failure =>
    [⟨.error, s!"Failed to update solution '{path.text}': {failure.message}", none⟩]

/-- What is said once a run that makes all its calls turns to a solution. -/
def account (path : Path) (projects : List Path) (r : Run) : List Diagnostic :=
  match Solution.loadOrCreate r.files path with
  | .error failure => complaints path (.error failure)
  | .ok (s, created) =>
    openingRemarks path created ++ remarks path s r projects ++ complaints path
      ((Run.onFiles (s.afterAll ((callsFrom s r projects).map (·.2))).save).outcome r).1

theorem exists_first_unsupported {made : List (Solution × Addition)}
    (h : ∃ call ∈ made, call.2.language? = none) : ∃ before call later,
      made = before ++ call :: later ∧ call.2.language? = none ∧
        ∀ earlier ∈ before, earlier.2.language? ≠ none := by
  cases hfind : made.find? (·.2.language?.isNone) with
  | none =>
    obtain ⟨call, hcall, hnone⟩ := h
    exact absurd (List.find?_eq_none.mp hfind call hcall) (by simp [hnone])
  | some call =>
    obtain ⟨hnone, before, later, hsplit, hbefore⟩ := List.find?_eq_some_iff_append.mp hfind
    exact ⟨before, call, later, hsplit, Option.isNone_iff_eq_none.mp hnone,
      fun earlier hearlier hnone => by simpa [hnone] using hbefore earlier hearlier⟩

/-- A run goes on behind a solution that cannot be updated once it has said so. -/
theorem complains {result : Except Failure Unit} {behind last : Run}
    (hassembled : (assembleSolution path projects).outcome r = (result, behind))
    (h : (trySolution path projects).outcome r = (.ok (), last)) :
    (∀ failure, result = .error failure → failure.endsRun = false) ∧
      last.expansion.journal.records = behind.expansion.journal.records ++
        behind.expansion.journal.threshold.passing (complaints path result) := by
  unfold trySolution at h
  rw [Attempt.outcome_bind, Attempt.outcome_caught, hassembled] at h
  dsimp only at h
  cases result with
  | ok _ =>
    cases h
    exact ⟨nofun, (List.append_nil _).symm⟩
  | error failure =>
    dsimp only at h
    split at h
    · cases h
    · next hends =>
      refine ⟨fun _ hfailure => Except.error.inj hfailure ▸ Bool.eq_false_iff.mpr hends, ?_⟩
      by_cases hstrict : behind.expansion.journal.strict = true
      · obtain ⟨_, hraised, -⟩ := @outcome_say_raised behind
          s!"Failed to update solution '{path.text}': {failure.message}" hstrict
        rw [hraised] at h
        cases h
      · obtain ⟨_, hsay, -, hspeaks⟩ := @outcome_say_taken behind .error
          s!"Failed to update solution '{path.text}': {failure.message}" nofun
          fun h => absurd h hstrict
        rw [hsay] at h
        cases h
        exact hspeaks.records

/-- A run that goes on behind its solution has given its whole account. -/
theorem trySolution_account {last : Run}
    (h : (trySolution path projects).outcome r = (.ok (), last)) :
    last.expansion.journal.records = r.expansion.journal.records ++
      r.expansion.journal.threshold.passing (account path projects r) := by
  unfold account
  cases hs : Solution.loadOrCreate r.files path with
  | error failure =>
    have hassembled : (assembleSolution path projects).outcome r = (.error failure, r) := by
      have hfiles : Run.currentFiles.outcome r = (.ok r.files, r) := rfl
      unfold assembleSolution
      rw [Attempt.outcome_bind, hfiles]
      dsimp only
      rw [Attempt.outcome_bind, hs]
      rfl
    exact (complains hassembled h).2
  | ok loaded =>
    obtain ⟨s, created⟩ := loaded
    have hassembles := assembles hs projects
    have hall : r.expansion.journal.strict = true →
        ∀ call ∈ callsFrom s r projects, call.2.language? ≠ none := by
      intro hstrict
      by_contra! hsome
      -- the first call that cannot be made would have ended the run
      obtain ⟨before, call, later, hsplit, hcall, hbefore⟩ := exists_first_unsupported hsome
      obtain ⟨_, hraised, -⟩ := hassembles.raised hstrict before call later hsplit hbefore hcall
      exact absurd ((complains hraised h).1 _ rfl) Bool.true_eq_false.mp
    obtain ⟨registered, hspeaks, hassembled⟩ := hassembles.whole hall
    have hsame : ∀ x : FileStep Unit,
        ((Run.onFiles x).outcome registered).1 = ((Run.onFiles x).outcome r).1 := by
      intro x
      rw [Run.outcome_onFiles, Run.outcome_onFiles, hspeaks.files]
      cases x r.files <;> rfl
    have hquiet : ∀ x : FileStep Unit,
        ((Run.onFiles x).outcome registered).2.expansion = registered.expansion :=
      fun x => Leaves.onFiles (fun _ _ => rfl) x registered
    dsimp only
    rw [(complains (hassembled.trans (Prod.eta _).symm) h).2, hquiet, hsame,
      hspeaks.onward.threshold, hspeaks.records, List.append_assoc, ← Level.passing_append]

/-- The states in which a generation turns to its solution. -/
def TurnsTo (t : Template) (settings : Settings) (year : Nat) (q : GenerationRequest)
    (files : FileSystem) (guids : GuidSource) (turned : Run) : Prop :=
  ∃ base begun,
    (opening t settings q).outcome (Run.start files guids settings) = (.ok base, begun) ∧
      ((tasks t.projects).forM fun task =>
        addEntry (renderer t settings year q) t base task.1 task.2).outcome begun = (.ok (), turned)

section

variable {t : Template} {settings : Settings} {year : Nat} {q : GenerationRequest} {files : FileSystem}
  {guids : GuidSource}

theorem TurnsTo.threshold {turned : Run} (h : TurnsTo t settings year q files guids turned) :
    turned.expansion.journal.threshold = settings.threshold := by
  obtain ⟨base, begun, hopening, hloop⟩ := h
  have hbegun := opening_onward t settings q (Run.start files guids settings)
  rw [hopening] at hbegun
  have hturned := (Matched.forM (fun task : String × Entry => matched_addEntry Journal.spoken_onward
    (renderer t settings year q) t base task.1 task.2) (tasks t.projects)).onward begun
  rw [hloop] at hturned
  exact hturned.threshold.trans hbegun.threshold

/-- A generation that is not fatal ends with the account of its solution. -/
theorem exists_turnsTo (hq : q.solution = some path)
    (h : (generate t settings year q files guids).1.outcome ≠ .fatal) :
    ∃ turned, TurnsTo t settings year q files guids turned ∧
      (generate t settings year q files guids).1.projects = turned.projects ∧
      (generate t settings year q files guids).1.diagnostics =
        turned.expansion.journal.records ++
          settings.threshold.passing (account path turned.projects turned) := by
  obtain ⟨last, hrun⟩ := Run.exists_of_not_fatal h
  have hdiagnostics := Run.diagnostics_finish hrun
  have hreport : (generate t settings year q files guids).1.projects = last.projects := by
    unfold generate
    rw [Run.finish_eq, hrun]
  rw [steps_eq_opening] at hrun
  obtain ⟨base, begun, hopening, hrun⟩ := Attempt.outcome_bind_eq_ok_iff.mp hrun
  obtain ⟨_, turned, hloop, hrun⟩ := Attempt.outcome_bind_eq_ok_iff.mp hrun
  have hturns : TurnsTo t settings year q files guids turned := ⟨base, begun, hopening, hloop⟩
  unfold closing at hrun
  rw [hq] at hrun
  have hclosing : (trySolution path turned.projects).outcome turned = (.ok (), last) := hrun
  have hnotes := (leaves_trySolution path turned.projects).of_outcome hclosing
  refine ⟨turned, hturns, hreport.trans (Prod.mk.inj (Prod.mk.inj hnotes).2).2, ?_⟩
  rw [← hturns.threshold, ← trySolution_account hclosing]
  exact hdiagnostics

end

/-- Adding projects only appends to a solution. A generation makes one call for each project file that it
wrote and tells what the call came to, unless a strict run ends with the first that cannot be added. -/
theorem solution_registers :
    (∀ (s : Solution) (additions : List Addition), s.Apart → s.Growth additions) ∧
    (∀ (path : Path) (projects : List Path) (r : Run) (s : Solution) (created : Bool),
      Solution.loadOrCreate r.files path = .ok (s, created) →
      Assembles path projects r s created) ∧
    ∀ (t : Template) (settings : Settings) (year : Nat) (q : GenerationRequest) (files : FileSystem)
      (guids : GuidSource) (path : Path), q.solution = some path →
      (generate t settings year q files guids).1.outcome ≠ .fatal →
      ∃ turned, TurnsTo t settings year q files guids turned ∧
        (generate t settings year q files guids).1.projects = turned.projects ∧
        (generate t settings year q files guids).1.diagnostics =
          turned.expansion.journal.records ++
            settings.threshold.passing (account path turned.projects turned) :=
  ⟨fun _ additions h => Solution.growth h additions, fun _ projects _ _ _ h => assembles h projects,
    fun _ _ _ _ _ _ _ hq h => exists_turnsTo hq h⟩

/-- Of three project files one is added and one is of no language; the third is the first, in another
case. -/
theorem solution_registers_each :
    let files : FileSystem := ⟨.directory [("work", .directory [
      ("a.csproj", .file "a".toUTF8), ("b.vcxproj", .file "b".toUTF8)])], ["work"]⟩
    let q : GenerationRequest := ⟨⟨"out"⟩, some ⟨"App.sln"⟩, [], .cSharp⟩
    let s := Solution.create ⟨"App.sln"⟩
    let additions : List Addition := ["a.csproj", "b.vcxproj", "A.CSProj"].map fun name =>
      ⟨⟨"/work"⟩, GuidSource.next ⟨0, 0⟩, ⟨"/work/out/" ++ name⟩⟩
    (s.Apart ∧ s.Growth additions ∧
      s.answers additions = [.ok true, .error (.unsupportedProject ⟨"/work/out/b.vcxproj"⟩), .ok false]) ∧
    (Solution.loadOrCreate files ⟨"App.sln"⟩ = .ok (s, true) ∧
      Assembles ⟨"App.sln"⟩ (additions.map (·.project)) (Run.start files ⟨0, 0⟩ {}) s true) ∧
    ∃ t, ((Template.parse files ⟨"/work/t.xml"⟩ ("<Template><Project src=\"a.csproj\">" ++
        "<File src=\"b.vcxproj\"/></Project></Template>")).outcome {}).1.toOption = some t ∧
      (generate t {} 2031 q files ⟨0, 0⟩).1.outcome = .incomplete ∧
      ∃ turned, TurnsTo t {} 2031 q files ⟨0, 0⟩ turned ∧
        turned.projects = [⟨"/work/out/a.csproj"⟩, ⟨"/work/out/b.vcxproj"⟩] ∧
        (generate t {} 2031 q files ⟨0, 0⟩).1.diagnostics = turned.expansion.journal.records ++
          Level.passing .info (account ⟨"App.sln"⟩ turned.projects turned) := by
  intro files q s additions
  have hapart : s.Apart := by decide +kernel
  have hload : Solution.loadOrCreate files ⟨"App.sln"⟩ = .ok (s, true) := by decide +kernel
  let t : Template := ⟨⟨"/work/t.xml"⟩, none, none, none, none, [⟨"/work"⟩],
    ⟨[⟨"_sourceExt", some "Extension of source files.", "cs", none, .string, true⟩]⟩,
    [⟨⟨"a.csproj", ["/work/a.csproj"], "a.csproj", false, ⟨1, 11⟩⟩,
      [⟨"b.vcxproj", ["/work/b.vcxproj"], "b.vcxproj", false, ⟨1, 35⟩⟩]⟩]⟩
  have hprojects : (generate t {} 2031 q files ⟨0, 0⟩).1.projects =
      [⟨"/work/out/a.csproj"⟩, ⟨"/work/out/b.vcxproj"⟩] := by decide +kernel
  have houtcome : (generate t {} 2031 q files ⟨0, 0⟩).1.outcome = .incomplete := by decide +kernel
  obtain ⟨turned, hturns, hsame, hdiagnostics⟩ :=
    solution_registers.2.2 t {} 2031 q files ⟨0, 0⟩ ⟨"App.sln"⟩ rfl (by rw [houtcome]; nofun)
  refine ⟨⟨hapart, solution_registers.1 s additions hapart, by decide +kernel⟩,
    ⟨hload, solution_registers.2.1 _ _ _ _ _ hload⟩, t, by decide +kernel, houtcome, turned, hturns,
    hsame.symm.trans hprojects, hdiagnostics⟩

/-- A strict run that gives no remark on the second of two project files. -/
theorem solution_registers_first :
    let files : FileSystem := ⟨.directory [("work", .directory [
      ("a.vcxproj", .file "a".toUTF8), ("b.csproj", .file "b".toUTF8)])], ["work"]⟩
    let q : GenerationRequest := ⟨⟨"out"⟩, some ⟨"App.sln"⟩, [], .cSharp⟩
    ∃ t, ((Template.parse files ⟨"/work/t.xml"⟩ ("<Template><Project src=\"a.vcxproj\">" ++
        "<File src=\"b.csproj\"/></Project></Template>")).outcome {}).1.toOption = some t ∧
      (generate t { strict := true } 2031 q files ⟨0, 0⟩).1.projects =
        [⟨"/work/out/a.vcxproj"⟩, ⟨"/work/out/b.csproj"⟩] ∧
      (generate t { strict := true } 2031 q files ⟨0, 0⟩).1.diagnostics.map
          (fun d => (d.level, d.message)) =
        [(.info, "Rendering file '/work/a.vcxproj'."),
          (.info, "Rendered project 'a.vcxproj' to '/work/out/a.vcxproj'."),
          (.info, "Rendering file '/work/b.csproj'."),
          (.info, "Rendered file 'b.csproj' to '/work/out/b.csproj'."),
          (.info, "Created solution 'App.sln'."),
          (.error, "Could not add project 'a.vcxproj' to solution 'App.sln': " ++
            "Solution error: Unsupported project type '/work/out/a.vcxproj'.")] := by
  intro files q
  exact ⟨⟨⟨"/work/t.xml"⟩, none, none, none, none, [⟨"/work"⟩],
    ⟨[⟨"_sourceExt", some "Extension of source files.", "cs", none, .string, true⟩]⟩,
    [⟨⟨"a.vcxproj", ["/work/a.vcxproj"], "a.vcxproj", false, ⟨1, 11⟩⟩,
      [⟨"b.csproj", ["/work/b.csproj"], "b.csproj", false, ⟨1, 36⟩⟩]⟩]⟩, by decide +kernel,
    by decide +kernel, by decide +kernel⟩

end Stencil.Generation
