import Stencil.Proofs.Comparison.Generation
import Stencil.Proofs.Comparison.Lenience
import Stencil.Proofs.Comparison.Threshold
import Stencil.Proofs.FileSystem.Making
import Stencil.Proofs.Generation.Course

namespace Stencil

open FileSystem (Grown createDirectories)

/-- What is said first of an entry that is taken up. -/
def Entry.search (e : Entry) : Diagnostic :=
  let places := ", ".intercalate e.candidates
  ⟨.verbose, s!"Looking for {e.source} at {places}", none⟩

/-- Lines are on record, in their order, in a journal that lets everything pass. -/
structure Journal.Hears (lines : List Diagnostic) (j : Journal) : Prop where
  threshold : j.threshold = .verbose
  lenient : j.strict = false
  lines : lines.Sublist j.records

def Run.Hears (lines : List Diagnostic) (s : Run) : Prop := s.expansion.journal.Hears lines

theorem Journal.Hears.onward {lines : List Diagnostic} {j k : Journal} (h : j.Hears lines)
    (hk : Onward j k) : k.Hears lines :=
  ⟨hk.threshold.trans h.threshold, hk.strict.trans h.lenient, h.lines.trans hk.records.sublist⟩

/-- What was heard stays heard. -/
theorem Matched.hears {α : Type} {F : Failure → Prop} {x : Attempt Run α}
    (h : Matched Journal.onwardness.ofRuns F x) (lines : List Diagnostic) :
    Triple (Run.Hears lines) x (fun _ => Run.Hears lines) (Run.Hears lines) := by
  intro s hs
  have honward : Run.Hears lines (x.outcome s).2 := hs.onward (h.onward s)
  unfold Attempt.outcome at honward
  split
  · next hx => rwa [hx] at honward
  · next hx => rwa [hx] at honward

theorem Run.expanding_bind {α β : Type} (x : Attempt Expansion α)
    (f : α → Attempt Expansion β) :
    Run.expanding (x >>= f) = Run.expanding x >>= fun a => Run.expanding (f a) := by
  funext s
  simp only [Run.expanding, Attempt.onPart, Bind.bind, EStateM.bind]
  cases x s.expansion <;> rfl

namespace Generation

variable {r : Renderer} {t : Template} {destination : Path} {lines : List Diagnostic}

theorem say_hears (message : String) :
    Triple (Run.Hears lines) (Run.say .verbose message)
      (fun _ => Run.Hears (lines ++ [⟨.verbose, message, none⟩]))
      (Run.Hears (lines ++ [⟨.verbose, message, none⟩])) := by
  intro s hs
  have hrecords := Journal.records_publishFrom (j := s.expansion.journal)
    (d := ⟨.verbose, message, none⟩) (hs.threshold.symm ▸ Level.le_refl _)
  have hkept := Journal.Onward.publishFrom s.expansion.journal ⟨.verbose, message, none⟩
  refine ⟨hkept.threshold.trans hs.threshold, hkept.strict.trans hs.lenient, ?_⟩
  exact hrecords ▸ hs.lines.append (List.Sublist.refl _)

theorem resolveSource_hears (fs : FileSystem) (e : Entry) :
    Triple (Run.Hears lines) (Run.expanding (e.resolveSource fs r t))
      (fun _ => Run.Hears (lines ++ [e.search])) (Run.Hears (lines ++ [e.search])) := by
  unfold Entry.resolveSource
  rw [Run.expanding_bind]
  refine (say_hears _).bind fun _ => ?_
  exact (e.matched_firstSource Journal.spoken_onward r t fs e.candidates).expanding.hears _

/-- An entry that is tried is heard of, whatever becomes of it. -/
theorem tryEntry_hears (e : Entry) :
    Triple (Run.Hears lines) (tryEntry r t destination e)
      (fun _ => Run.Hears (lines ++ [e.search])) (Run.Hears (lines ++ [e.search])) := by
  have hmake : Triple (Run.Hears lines) (makeEntry r t destination e)
      (fun _ => Run.Hears (lines ++ [e.search])) (Run.Hears (lines ++ [e.search])) := by
    unfold makeEntry
    refine Triple.bind (Q := fun _ => Run.Hears lines) (fun _ hs => hs) fun fs => ?_
    refine (resolveSource_hears fs e).bind fun source => ?_
    exact (matched_makeFrom Journal.spoken_onward r t destination e source).hears _
  unfold tryEntry
  refine hmake.caught.bind fun result => ?_
  split
  · exact Triple.pure fun _ hs => hs
  · exact Triple.pure fun _ hs => hs
  · refine Triple.ite (fun _ _ hs => hs) fun _ => ?_
    exact ((Journal.spoken_onward.sayAt _ _ _).hears _).bind fun _ => Triple.pure fun _ hs => hs

theorem addEntry_hears (kind : String) (e : Entry) :
    Triple (Run.Hears lines) (addEntry r t destination kind e)
      (fun _ => Run.Hears (lines ++ [e.search])) (Run.Hears (lines ++ [e.search])) := by
  unfold addEntry
  refine (tryEntry_hears e).bind fun result => ?_
  split
  · exact Triple.pure fun _ hs => hs
  · unfold noteTarget
    refine ((Journal.spoken_onward.say _ _).hears _).bind fun _ => ?_
    exact Triple.ite (fun _ _ hs => hs) fun _ => Triple.pure fun _ hs => hs

/-- Steps that are each heard of are heard of in their order. -/
theorem forM_hears {γ : Type} {f : γ → Attempt Run PUnit} {told : γ → List Diagnostic}
    (h : ∀ lines c, Triple (Run.Hears lines) (f c) (fun _ => Run.Hears (lines ++ told c))
      fun _ => True) (l : List γ) :
    Triple (Run.Hears lines) (l.forM f) (fun _ => Run.Hears (lines ++ l.flatMap told))
      fun _ => True := by
  have hrounds := Triple.forM_done (I := fun done => Run.Hears (lines ++ done.flatMap told))
    (l := l) (f := f) (E := fun _ => True) (fun done c _ => by
      simpa using h (lines ++ done.flatMap told) c) []
  simpa using hrounds

theorem addProject_hears (p : Project) :
    Triple (Run.Hears lines) (addProject r t destination p)
      (fun _ => Run.Hears (lines ++ p.entries.map Entry.search)) fun _ => True := by
  have hentry (lines : List Diagnostic) (kind : String) (e : Entry) :
      Triple (Run.Hears lines) (addEntry r t destination kind e)
        (fun _ => Run.Hears (lines ++ [e.search])) fun _ => True :=
    (addEntry_hears kind e).mono_error fun _ _ => trivial
  have hfiles : Triple (Run.Hears (lines ++ [p.entry.search]))
      (p.files.forM (addEntry r t destination "file"))
      (fun _ => Run.Hears (lines ++ [p.entry.search] ++ p.files.flatMap fun e => [e.search]))
      fun _ => True := forM_hears (fun lines e => hentry lines "file" e) p.files
  unfold addProject
  refine (hentry lines "project" p.entry).bind fun _ => ?_
  rw [← List.map_eq_flatMap] at hfiles
  simpa [Project.entries] using hfiles

/-- A generation that comes to its end is heard to look for all sources, in the order of their
declaration. -/
theorem steps_hears (settings : Settings) (year : Nat) (q : GenerationRequest) :
    Triple (Run.Hears []) (steps t settings year q)
      (fun _ => Run.Hears ((t.projects.flatMap Project.entries).map Entry.search))
      fun _ => True := by
  have hkeep {α : Type} {F : Failure → Prop} {x : Attempt Run α} {lines : List Diagnostic}
      (h : Matched Journal.onwardness.ofRuns F x) :
      Triple (Run.Hears lines) x (fun _ => Run.Hears lines) fun _ => True :=
    (h.hears lines).mono_error fun _ _ => trivial
  unfold steps
  refine (hkeep (Matched.destination _ _)).bind fun destination => ?_
  refine (hkeep (t.matched_mentionIgnored Journal.spoken_onward _)).bind fun _ => ?_
  refine (hkeep (Matched.onFiles (F := fun _ => True) fun _ => trivial)).bind fun _ => ?_
  refine (forM_hears (fun lines p => addProject_hears p) t.projects).bind fun _ => ?_
  rw [List.nil_append, ← List.map_flatMap]
  split
  · exact hkeep (Matched.get_projects fun projects =>
      matched_trySolution Journal.spoken_onward _ projects)
  · exact Triple.pure fun _ hs => hs

/-- How a lenient generation ends: before it has touched a file, with its destination half made, or
with all done that there was to do. -/
inductive LenientEnd (settings : Settings) (q : GenerationRequest) (s : Run) :
    Except Failure Unit × Run → Prop
  | barred {e : Failure} (h : Run.target settings q.destination s.files = .error e) :
    LenientEnd settings q s (.error e, s)
  | unmade {base : Path} {fault : FileFault} {made : FileSystem} {j : Journal}
    (hbase : Run.target settings q.destination s.files = .ok base)
    (hmake : createDirectories base s.files = .error fault made) :
    LenientEnd settings q s (.error (.file fault), { s.under j with files := made })
  | completed {base : Path} {made : FileSystem} {last : Run}
    (hbase : Run.target settings q.destination s.files = .ok base)
    (hmake : createDirectories base s.files = .ok () made) (h : last.expansion.journal.Lenient) :
    LenientEnd settings q s (.ok (), last)

/-- Once the destination is made nothing halts the run. -/
theorem LenientEnd.of_matched {settings : Settings} {q : GenerationRequest} {s r : Run} {base : Path}
    {made : FileSystem} {x : Attempt Run Unit}
    (hbase : Run.target settings q.destination s.files = .ok base)
    (hmake : createDirectories base s.files = .ok () made) (hr : r.expansion.journal.Lenient)
    (hx : Matched (Comparison.alone Journal.Lenient).ofRuns (Halting IsReported) x) :
    LenientEnd settings q s (x.outcome r) := by
  obtain ⟨_, last, hlast, hlenient⟩ := hx.outcome_lenient hr
  rw [hlast]
  exact .completed hbase hmake hlenient

theorem lenientEnd_steps (t : Template) (settings : Settings) (year : Nat) (q : GenerationRequest)
    {s : Run} (hs : s.expansion.journal.Lenient) :
    LenientEnd settings q s ((steps t settings year q).outcome s) := by
  unfold steps
  rw [Attempt.outcome_bind, Run.outcome_destination]
  cases htarget : Run.target settings q.destination s.files with
  | error e => exact .barred htarget
  | ok base =>
    simp only
    rw [Attempt.outcome_bind]
    obtain ⟨_, s₁, hmention, hs₁⟩ :=
      (t.matched_mentionIgnored Journal.spoken_lenient q.values).outcome_lenient hs
    -- what is said before the destination is made leaves the files as they are
    have hunder : ∃ j, s₁ = s.under j := by
      rw [Run.journaled, Run.outcome_expanding, Expansion.outcome_journaled] at hmention
      exact ⟨_, (Prod.mk.inj hmention).2.symm⟩
    rw [hmention]
    simp only
    rw [Attempt.outcome_bind, Run.outcome_onFiles, show s₁.files = s.files by
      obtain ⟨j, rfl⟩ := hunder
      rfl]
    cases hmake : createDirectories base s.files with
    | error fault made =>
      obtain ⟨j, rfl⟩ := hunder
      exact .unmade htarget hmake
    | ok _ made =>
      refine .of_matched htarget hmake hs₁ ?_
      refine (Matched.forM (fun p => matched_addProject Journal.spoken_lenient _ t base p) _).bind
        fun _ => ?_
      split
      · exact Matched.get_projects fun projects =>
          matched_trySolution Journal.spoken_lenient _ projects
      · exact Matched.pure _

end Generation

variable {settings : Settings} {q : GenerationRequest} {files : FileSystem}

/-- The destination is refused, cannot be made absolute, or cannot be made. -/
def Barred (settings : Settings) (q : GenerationRequest) (files : FileSystem) : Prop :=
  (∃ e, Run.checkDestination files q.destination settings.overwrite = .error e) ∨
  q.destination.absolute? files.workingPath = none ∨
  ∃ base fault made, q.destination.absolute? files.workingPath = some base ∧
    createDirectories base files = .error fault made

/-- All that a generation has to say, whatever its threshold lets pass. -/
def everythingSaid (t : Template) (settings : Settings) (year : Nat) (q : GenerationRequest)
    (files : FileSystem) (guids : GuidSource) : List Diagnostic :=
  (generate t { settings with threshold := .verbose } year q files guids).1.diagnostics

theorem Run.target_eq_ok_iff {destination base : Path} :
    Run.target settings destination files = .ok base ↔
      Run.checkDestination files destination settings.overwrite = .ok () ∧
        destination.absolute? files.workingPath = some base := by
  unfold Run.target
  cases Run.checkDestination files destination settings.overwrite with
  | error e => simp
  | ok _ => cases destination.absolute? files.workingPath <;> simp

theorem barred_iff : Barred settings q files ↔
    (∃ e, Run.target settings q.destination files = .error e) ∨
      ∃ base fault made, Run.target settings q.destination files = .ok base ∧
        createDirectories base files = .error fault made := by
  simp only [Barred, Run.target_eq_ok_iff]
  unfold Run.target
  cases Run.checkDestination files q.destination settings.overwrite with
  | error e => simp
  | ok _ => cases q.destination.absolute? files.workingPath <;> simp

/-- What a lenient generation gets done. -/
structure Completion (t : Template) (settings : Settings) (q : GenerationRequest)
    (files : FileSystem) (said : List Diagnostic) (run : Report × Run) : Prop where
  fatal_iff : run.1.outcome = .fatal ↔ Barred settings q files
  nothing : run.1.outcome = .fatal → run.1.written = [] ∧ run.1.projects = [] ∧
    ∀ place content, run.2.files.at? place = some (some content) ↔
      files.at? place = some (some content)
  untouched_iff : run.1.outcome = .fatal → files.workingPath.Descends files.workingDirectory →
    .up ∉ q.destination.moves → (run.2.files = files ↔
      ¬ ∃ base, Run.target settings q.destination files = .ok base ∧ files.Overreaches base)
  everything : run.1.outcome ≠ .fatal →
    ((t.projects.flatMap Project.entries).map Entry.search).Sublist said
  incomplete_iff : run.1.outcome ≠ .fatal →
    (run.1.outcome = .incomplete ↔ ∃ d ∈ said, d.level = .error)

namespace Generation

/-- How the run ends that makes a lenient generation. -/
theorem lenientEnd_start (t : Template) (settings : Settings) (year : Nat) (q : GenerationRequest)
    (files : FileSystem) (guids : GuidSource) :
    LenientEnd settings q (Run.start files guids { settings with strict := false })
      ((steps t { settings with strict := false } year q).outcome
        (Run.start files guids { settings with strict := false })) := by
  have hend := lenientEnd_steps t { settings with strict := false } year q
    (Journal.Lenient.start files guids settings)
  generalize (steps t { settings with strict := false } year q).outcome
    (Run.start files guids { settings with strict := false }) = left at hend
  cases hend with
  | barred h => exact .barred h
  | unmade hbase hmake => exact .unmade hbase hmake
  | completed hbase hmake h => exact .completed hbase hmake h

end Generation

/-- Once its destination is made, a generation is heard to look for all sources, and it is incomplete
if it is heard to report an error. -/
theorem said_of_made (t : Template) (year : Nat) (guids : GuidSource) {base : Path}
    {made : FileSystem} (hbase : Run.target settings q.destination files = .ok base)
    (hmake : createDirectories base files = .ok () made) :
    ((t.projects.flatMap Project.entries).map Entry.search).Sublist
        (everythingSaid t { settings with strict := false } year q files guids) ∧
      ((generate t { settings with strict := false, threshold := .verbose } year q files
          guids).1.outcome = .incomplete ↔
        ∃ d ∈ everythingSaid t { settings with strict := false } year q files guids,
          d.level = .error) := by
  have hend := Generation.lenientEnd_start t { settings with threshold := .verbose } year q files guids
  -- the remarks on the sources are verbose, so only a run at this threshold keeps them all
  have hhears := Generation.steps_hears (t := t) { settings with strict := false, threshold := .verbose }
    year q
  unfold everythingSaid generate
  rw [Run.finish_eq]
  generalize hrun : (Generation.steps t { settings with strict := false, threshold := .verbose }
    year q).outcome (Run.start files guids { settings with strict := false, threshold := .verbose }) =
    left at hend
  cases hend with
  | barred h =>
    have hsame := h.symm.trans hbase
    cases hsame
  | unmade hbase' hmake' =>
    cases hbase'.symm.trans hbase
    cases hmake'.symm.trans hmake
  | @completed _ _ last _ _ h =>
    have hlines := hhears.of_outcome ⟨rfl, rfl, List.Sublist.refl _⟩ hrun
    refine ⟨hlines.lines, ?_⟩
    have htold := h.told (hlines.threshold.symm ▸ by decide)
    simp only [Journal.close, Journal.hasErrors]
    rw [← htold]
    by_cases herrors : 0 < last.expansion.journal.errors <;> simp [herrors]

/-- A lenient generation is fatal exactly if it is barred from its destination. It has then written
nothing, and a destination without `..` was left as it was unless a directory above a name that is too
long could be made. Otherwise it takes up all entries, and it is incomplete if it reports an error. -/
theorem completion_generate (t : Template) (settings : Settings) (year : Nat) (q : GenerationRequest)
    (files : FileSystem) (guids : GuidSource) :
    Completion t settings q files (everythingSaid t { settings with strict := false } year q files guids)
      (generate t { settings with strict := false } year q files guids) := by
  have hend := Generation.lenientEnd_start t settings year q files guids
  -- the outcome does not depend on the threshold, so the run that says everything decides it
  have hquiet : (generate t { settings with strict := false } year q files guids).1.outcome =
      (generate t { settings with strict := false, threshold := .verbose } year q files
        guids).1.outcome := by
    have hmatched : Matched (Journal.thresholds .verbose settings.threshold).ofRuns _
        (Generation.steps t { settings with strict := false } year q) :=
      Generation.matched_steps Journal.spoken_thresholds t { settings with strict := false } year q
    exact (quieter_of_matched hmatched { settings with strict := false } files guids).outcome
  generalize hrun : generate t { settings with strict := false } year q files guids = run at hquiet
  unfold generate at hrun
  rw [Run.finish_eq] at hrun
  generalize (Generation.steps t { settings with strict := false } year q).outcome
    (Run.start files guids { settings with strict := false }) = left at hend hrun
  subst hrun
  cases hend with
  | barred h =>
    have hbarred := barred_iff.mpr (Or.inl ⟨_, h⟩)
    refine ⟨iff_of_true rfl hbarred, fun _ => ⟨rfl, rfl, fun _ _ => Iff.rfl⟩,
      fun _ _ _ => iff_of_true rfl ?_, absurd rfl, absurd rfl⟩
    rintro ⟨base, hbase, -⟩
    cases h.symm.trans hbase
  | @unmade base fault made j hbase hmake =>
    have hbarred := barred_iff.mpr (Or.inr ⟨base, fault, made, hbase, hmake⟩)
    have hmake' : createDirectories base files = .error fault made := hmake
    have hgrown := FileSystem.createDirectories_triple files base files (Grown.refl files)
    rw [hmake'] at hgrown
    refine ⟨iff_of_true rfl hbarred, fun _ => ⟨rfl, rfl, fun _ _ => hgrown.file_iff⟩,
      fun _ hwork hup => ?_, absurd rfl, absurd rfl⟩
    obtain ⟨names, hdescends⟩ := Path.descends_absolute hwork hup (Run.target_eq_ok_iff.mp hbase).2
    have hsame : made = files ↔ ¬ files.Overreaches base := by
      rw [← FileSystem.ne_iff_overreaches hdescends hmake', not_not]
    refine hsame.trans (not_congr ⟨fun h => ⟨base, hbase, h⟩, ?_⟩)
    rintro ⟨base', hbase', h⟩
    cases hbase.symm.trans hbase'
    exact h
  | @completed base made last hbase hmake h =>
    obtain ⟨hlines, herrors⟩ := said_of_made t year guids hbase hmake
    have hopen : ¬ Barred settings q files := by
      rw [barred_iff]
      rintro (⟨e, htarget⟩ | ⟨base', fault, made', htarget, hmake'⟩)
      · cases htarget.symm.trans hbase
      · cases htarget.symm.trans hbase
        cases hmake'.symm.trans hmake
    have hends : (last.expansion.journal.close (.ok ())).1 ≠ .fatal := by
      rw [ne_eq, Journal.close_fatal_iff]
      simp
    exact ⟨iff_of_false hends hopen, fun h => absurd h hends, fun h => absurd h hends,
      fun _ => hlines, fun _ => hquiet ▸ herrors⟩

/-- A path whose first step fails leads nowhere. -/
theorem FileSystem.resolve_ne_ok {p : Path} {step : String} {rest : List String} {fault : FileFault}
    (hsteps : stepsOf p = step :: rest) (h : files.stepFrom (files.startOf p) step = .error fault)
    (found : List String × Node) : files.resolve p ≠ .ok found := by
  intro hresolve
  obtain ⟨-, hwalk, -⟩ := denotes_iff.mp ⟨found.2, hresolve⟩
  rw [hsteps, List.cons_append, walk, List.foldlM_cons, h] at hwalk
  cases hwalk

/-- A destination that leads nowhere is free. -/
theorem Run.checkDestination_of_missing {p : Path} {overwrite : Bool}
    (h : ∀ found, files.resolve p ≠ .ok found) :
    checkDestination files p overwrite = .ok () := by
  unfold checkDestination FileSystem.isFile FileSystem.isDirectory
  cases hresolve : files.resolve p with
  | ok found => exact absurd hresolve (h found)
  | error fault => rfl

/-- A generation into a destination that overreaches is fatal, and leaves a directory behind. -/
theorem generate_overreaching (t : Template) (settings : Settings) (year : Nat) (guids : GuidSource)
    {base : Path} {names : List String} (hbase : Run.target settings q.destination files = .ok base)
    (hdescends : base.Descends names) (hover : files.Overreaches base) :
    (generate t { settings with strict := false } year q files guids).1.outcome = .fatal ∧
      ∃ place, files.at? place = none ∧
        (generate t { settings with strict := false } year q files guids).2.files.at? place =
          some none := by
  obtain ⟨fault, made, hmake, place, hfree, hplace⟩ := hover.createDirectories hdescends
  have hend := Generation.lenientEnd_start t settings year q files guids
  unfold generate
  rw [Run.finish_eq]
  generalize (Generation.steps t { settings with strict := false } year q).outcome
    (Run.start files guids { settings with strict := false }) = left at hend
  cases hend with
  | barred h => cases h.symm.trans hbase
  | unmade hbase' hmake' =>
    cases hbase'.symm.trans hbase
    cases hmake'.symm.trans hmake
    exact ⟨rfl, place, hfree, hplace⟩
  | completed hbase' hmake' =>
    cases hbase'.symm.trans hbase
    cases hmake'.symm.trans hmake

section Below

/-! A destination in a directory that is missing, seen from the working directory `/work`. -/

variable {name : String}

theorem segments_out (h : Path.Written (.name name)) :
    (Path.mk ("out/" ++ name)).segments = ["out", name] := by
  have hjoined : "/".intercalate ["out", name] = "out/" ++ name := by simp
  rw [← hjoined]
  refine Path.segments_intercalate (by simp) fun n hn => ?_
  rcases List.mem_cons.mp hn with rfl | hn
  · decide
  · exact List.mem_singleton.mp hn ▸ h.2

theorem moves_out (h : Path.Written (.name name)) :
    (Path.mk ("out/" ++ name)).moves = [.name "out", .name name] := by
  have hstep := h.1
  simp only [Component.text] at hstep
  rw [Path.moves, segments_out h]
  simp [hstep, show Path.step? "out" = some (.name "out") from rfl]

theorem stepsOf_out (h : Path.Written (.name name)) :
    FileSystem.stepsOf ⟨"out/" ++ name⟩ = ["out", name] := by
  have hname : name ≠ "" := by
    rintro rfl
    cases h.1
  rw [FileSystem.stepsOf, segments_out h]
  simp [hname]

theorem absolute?_out (h : Path.Written (.name name)) :
    (Path.mk ("out/" ++ name)).absolute? ⟨"/work"⟩ = some ⟨"/work/" ++ ("out/" ++ name)⟩ := by
  have hof : Path.ofComponents [.name "out", .name name] = ⟨"out/" ++ name⟩ := by
    simp [Path.ofComponents, Component.text]
  rw [← hof]
  refine Path.absolute?_ofComponents (fun c hc => ?_) (List.cons_ne_nil _ _) (by decide) (by decide)
  rcases List.mem_cons.mp hc with rfl | hc
  · exact ⟨by decide, by decide⟩
  · exact List.mem_singleton.mp hc ▸ h

theorem descends_out (h : Path.Written (.name name)) :
    Path.Descends ⟨"/work/" ++ ("out/" ++ name)⟩ ["work", "out", name] := by
  have hsegments : (Path.mk ("/work/" ++ ("out/" ++ name))).segments = ["", "work", "out", name] := by
    rw [show "/work/" = "/work" ++ "/" from rfl, Path.segments_slash, segments_out h]
    rfl
  refine ⟨Path.isRooted_append (by decide), ?_, ?_⟩
  · rw [hsegments]
    intro hpoint
    have hfront : "." ∉ ["", "work", "out"] := by decide
    have hname : name = "." := by
      rcases List.mem_append.mp (show "." ∈ ["", "work", "out"] ++ [name] from hpoint) with h | h
      · exact absurd h hfront
      · exact (List.mem_singleton.mp h).symm
    subst hname
    cases h.1
  · rw [show "/work/" = "/work" ++ "/" from rfl, Path.moves_slash, moves_out h]
    rfl

end Below

/-- A name that no entry can have. -/
def longName : String := String.ofList (List.replicate 256 'x')

theorem toList_longName : longName.toList = List.replicate 256 'x' := String.toList_ofList

theorem utf8ByteSize_longName : longName.utf8ByteSize = 256 := by
  have hsize (n : Nat) : (String.ofList (List.replicate n 'x')).utf8ByteSize = n := by
    induction n with
    | zero => rfl
    | succ n ih =>
      rw [List.replicate_succ', String.ofList_append, String.utf8ByteSize_append, ih]
      rfl
  exact hsize 256

theorem written_longName : Path.Written (.name longName) := by
  have hsize {name : String} (h : name.utf8ByteSize < 256) : longName ≠ name := by
    rintro rfl
    exact absurd utf8ByteSize_longName (Nat.ne_of_lt h)
  refine ⟨?_, fun hslash => ?_⟩
  · have hempty : longName ≠ "" := hsize (by decide)
    have hpoint : longName ≠ "." := hsize (by decide)
    have hup : longName ≠ ".." := hsize (by decide)
    rw [Component.text, Path.step?, if_neg (not_or.mpr ⟨hempty, hpoint⟩), if_neg hup]
  · cases List.eq_of_mem_replicate (toList_longName ▸ hslash)

/-- A name that is too long, behind a directory that is missing: the generation is fatal, and a
directory is there that was not before. -/
theorem generate_leaves_directory :
    ∃ (files : FileSystem) (t : Template) (run : Report × Run),
      files = ⟨.directory [("work", .directory [("a.txt", .file "a".toUTF8)])], ["work"]⟩ ∧
      ((Template.parse files ⟨"/work/t.xml"⟩ "<Template><Project src=\"a.txt\"/></Template>").outcome
        {}).1.toOption = some t ∧
      .up ∉ (Path.mk ("out/" ++ longName)).moves ∧
      generate t {} 2031 ⟨⟨"out/" ++ longName⟩, none, [], .cSharp⟩ files ⟨0, 0⟩ = run ∧
      run.1.outcome = .fatal ∧
      ∃ place, files.at? place = none ∧ run.2.files.at? place = some none := by
  let files : FileSystem := ⟨.directory [("work", .directory [("a.txt", .file "a".toUTF8)])], ["work"]⟩
  let t : Template := ⟨⟨"/work/t.xml"⟩, none, none, none, none, [⟨"/work"⟩],
    ⟨[⟨"_sourceExt", some "Extension of source files.", "cs", none, .string, true⟩]⟩,
    [⟨⟨"a.txt", ["/work/a.txt"], "a.txt", false, ⟨1, 11⟩⟩, []⟩]⟩
  have hwork : files.workingPath = ⟨"/work"⟩ := by decide
  have hdescends := descends_out written_longName
  have hfirst : files.stepFrom (files.startOf ⟨"out/" ++ longName⟩) "out" = .error .notFound := by
    rw [FileSystem.startOf, Path.isRooted_append_of_ne (by decide) (by decide)]
    rfl
  have hmissing := FileSystem.resolve_ne_ok (stepsOf_out written_longName) hfirst
  have htarget : Run.target {} ⟨"out/" ++ longName⟩ files =
      .ok ⟨"/work/" ++ ("out/" ++ longName)⟩ := by
    refine Run.target_eq_ok_iff.mpr ⟨?_, hwork ▸ absolute?_out written_longName⟩
    exact Run.checkDestination_of_missing hmissing
  have hover : files.Overreaches ⟨"/work/" ++ ("out/" ++ longName)⟩ := by
    refine ⟨?_, ["work"], "out", [longName], hdescends.placeFrom _, ?_, longName, ?_, ?_⟩
    · refine FileSystem.check_eq_ok_iff.mpr ⟨?_, by simp, ?_⟩
      · simp only [String.toList_append, toList_longName, List.mem_append, List.mem_replicate]
        decide
      · simp only [String.utf8ByteSize_append, utf8ByteSize_longName]
        decide
    · exact ⟨by decide, by decide, by decide⟩
    · exact List.mem_singleton_self _
    · rw [utf8ByteSize_longName]
      decide
  have hleft := generate_overreaching (q := ⟨⟨"out/" ++ longName⟩, none, [], .cSharp⟩) t {} 2031
    ⟨0, 0⟩ htarget hdescends hover
  dsimp only at hleft
  generalize hrun : generate t {} 2031 ⟨⟨"out/" ++ longName⟩, none, [], .cSharp⟩ files ⟨0, 0⟩ =
    run at hleft
  have hdown : Component.up ∉ (Path.mk ("out/" ++ longName)).moves := by
    simp [moves_out written_longName]
  exact ⟨files, t, run, rfl, by decide +kernel, hdown, hrun, hleft⟩

end Stencil
