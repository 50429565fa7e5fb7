import Stencil.Proofs.Generation.Completion
import Stencil.Proofs.Package.Completion

/-! The guard of a destination. It looks at the destination before anything is made on the way there.
What it finds is the directory that will be written into, so one that holds something is refused; where
it finds nothing, it lets the run pass, also if the way leads to such a directory once it is made. -/

namespace Stencil

open FileSystem (Grown Denotes createDirectories nameLimit)

variable {files : FileSystem} {destination base : Path} {place : List String} {settings : Settings}
  {guids : GuidSource}

/-- The directory that a run at a destination writes into is there already, and holds something. -/
def Occupied (files : FileSystem) (destination : Path) : Prop :=
  ∃ base, destination.absolute? files.workingPath = some base ∧
    files.at? (base.placeFrom []) = some none ∧
    ∃ name, (files.at? (base.placeFrom [] ++ [name])).isSome = true

theorem checkDestination_of_denotes (h : files.Denotes destination place)
    (hdir : files.at? place = some none)
    (hfull : ∃ name, (files.at? (place ++ [name])).isSome = true) :
    Run.checkDestination files destination false = .error (.occupied destination.text) := by
  obtain ⟨node, hnode⟩ := h
  obtain ⟨entries, hentries⟩ := FileSystem.at?_eq_directory_iff.mp hdir
  have hget := FileSystem.get?_of_resolve hnode
  obtain rfl : node = .directory entries := Option.some.inj (hget.symm.trans hentries)
  obtain ⟨name, hname⟩ := hfull
  rw [FileSystem.at?_concat_isSome, hget, Option.bind_some] at hname
  cases entries with
  | nil => cases hname
  | cons entry rest =>
    simp [Run.checkDestination, FileSystem.isFile, FileSystem.isDirectory, FileSystem.names, hnode,
      bind, Except.bind, pure, Except.pure]

theorem checkDestination_of_not_has {overwrite : Bool} (h : files.has destination = false) :
    Run.checkDestination files destination overwrite = .ok () := by
  apply Run.checkDestination_of_missing
  intro found hfound
  simp [FileSystem.has, hfound, Except.isOk, Except.toBool] at h

/-- A destination that denotes something before the run denotes what the run will write into. -/
theorem placeFrom_of_denotes (hwork : files.workingPath.Descends files.workingDirectory)
    (hbase : destination.absolute? files.workingPath = some base)
    (h : files.Denotes destination place) : place = base.placeFrom [] := by
  rw [Path.placeFrom_absolute (Generation.isRooted_workingPath files) hbase, hwork.placeFrom]
  exact h.eq_placeFrom

/-- The guard refuses an occupied destination exactly if it finds anything. -/
theorem checkDestination_of_occupied (hwork : files.workingPath.Descends files.workingDirectory)
    (h : Occupied files destination) : Run.checkDestination files destination false =
      if files.has destination = true then .error (.occupied destination.text) else .ok () := by
  obtain ⟨base, hbase, hdir, hfull⟩ := h
  split
  · next hhas =>
    obtain ⟨place, hdenotes⟩ := FileSystem.has_iff.mp hhas
    obtain rfl := placeFrom_of_denotes hwork hbase hdenotes
    exact checkDestination_of_denotes hdenotes hdir hfull
  · next hhas => exact checkDestination_of_not_has (by simpa using hhas)

/-- An occupied destination is found if its path goes straight down and is short enough. -/
theorem has_of_occupied (hwork : files.workingPath.Descends files.workingDirectory)
    (h : Occupied files destination) (hcheck : FileSystem.check destination = .ok ())
    (hup : .up ∉ destination.moves)
    (hshort : ∀ name, .name name ∈ destination.moves → ¬ nameLimit < name.utf8ByteSize) :
    files.has destination = true := by
  obtain ⟨base, hbase, hdir, -⟩ := h
  rw [Path.placeFrom_absolute (Generation.isRooted_workingPath files) hbase, hwork.placeFrom] at hdir
  exact FileSystem.has_iff.mpr ⟨_, FileSystem.denotes_of_down hcheck hup hshort hdir⟩

/-- A run that was turned away before it did anything. -/
structure Refused (failure : Failure) (files : FileSystem) (run : Report × Run) : Prop where
  report : run.1 = ⟨.fatal, [⟨.error, failure.message, none⟩], [], []⟩
  observed : run.2.observed = []
  files : run.2.files = files

theorem refused_of_target {rest : Path → Attempt Run Unit} {failure : Failure}
    (h : Run.target settings destination files = .error failure) :
    Refused failure files (Run.finish (Run.destination settings destination >>= rest)
      (Run.start files guids settings)) := by
  have hrecorded := Run.isRecorded_of_target h
  have hout : (Run.destination settings destination >>= rest).outcome
      (Run.start files guids settings) = (.error failure, Run.start files guids settings) := by
    rw [Attempt.outcome_bind, Run.outcome_destination,
      show (Run.start files guids settings).files = files from rfl, h]
  rw [Run.finish_eq, hout, Journal.close_unrecorded hrecorded]
  exact ⟨rfl, rfl, rfl⟩

/-- Where the guard lets a run pass, it is the run without the guard. -/
theorem finish_of_unguarded {rest : Path → Attempt Run Unit}
    (h : Run.checkDestination files destination settings.overwrite = .ok ()) :
    Run.finish (Run.destination settings destination >>= rest) (Run.start files guids settings) =
      Run.finish (Run.destination { settings with overwrite := true } destination >>= rest)
        (Run.start files guids { settings with overwrite := true }) := by
  have hopen : Run.checkDestination files destination true = .ok () := by
    unfold Run.checkDestination at h ⊢
    split
    · next hfile =>
      rw [if_pos hfile] at h
      cases h
    · simp
  have htarget : Run.target settings destination files =
      Run.target { settings with overwrite := true } destination files := by
    simp only [Run.target, h, hopen]
  have hfiles : (Run.start files guids settings).files = files := rfl
  have hout : (Run.destination settings destination >>= rest).outcome
      (Run.start files guids settings) =
        (Run.destination { settings with overwrite := true } destination >>= rest).outcome
          (Run.start files guids settings) := by
    rw [Attempt.outcome_bind, Attempt.outcome_bind, Run.outcome_destination, Run.outcome_destination,
      hfiles, htarget]
  rw [Run.finish_eq, hout]
  rfl

/-- What becomes of runs into an occupied destination that were not told to write over anything. -/
structure Guard (t : Template) (settings : Settings) (year : Nat) (q : GenerationRequest)
    (q' : ExportRequest) (files : FileSystem) (guids : GuidSource) : Prop where
  refused : files.has q.destination = true →
    Refused (.occupied q.destination.text) files
        (generate t { settings with overwrite := false } year q files guids) ∧
      Refused (.occupied q.destination.text) files
        (exportPackage t { settings with overwrite := false } year q' files guids)
  unseen : files.has q.destination = false →
    generate t { settings with overwrite := false } year q files guids =
        generate t { settings with overwrite := true } year q files guids ∧
      exportPackage t { settings with overwrite := false } year q' files guids =
        exportPackage t { settings with overwrite := true } year q' files guids
  fatal_iff :
    (generate t { settings with overwrite := false, strict := false } year q files guids).1.outcome =
        .fatal ↔
      files.has q.destination = true ∨
        ∃ base fault made, q.destination.absolute? files.workingPath = some base ∧
          createDirectories base files = .error fault made
  unmade : ∀ base fault made, q.destination.absolute? files.workingPath = some base →
    createDirectories base files = .error fault made →
      (generate t { settings with overwrite := false } year q files guids).1.outcome = .fatal ∧
        (generate t { settings with overwrite := false } year q files guids).1.written = [] ∧
        ∀ place content,
          (generate t { settings with overwrite := false } year q files guids).2.files.at? place =
            some (some content) ↔ files.at? place = some (some content)
  straight : FileSystem.check q.destination = .ok () → .up ∉ q.destination.moves →
    (∀ name, .name name ∈ q.destination.moves → ¬ nameLimit < name.utf8ByteSize) →
      files.has q.destination = true

/-- A generation whose destination cannot be made writes nothing. -/
theorem Generation.steps_unmade (t : Template) (settings : Settings) (year : Nat)
    (q : GenerationRequest) {fault : FileFault} {made : FileSystem}
    (hbase : q.destination.absolute? files.workingPath = some base)
    (hmake : createDirectories base files = .error fault made) :
    Triple (fun s => s.files = files ∧ s.written = []) (steps t settings year q)
      (fun _ _ => False) (fun s => Grown files s.files ∧ s.written = []) := by
  have hstill {s : Run} (h : s.files = files ∧ s.written = []) :
      Grown files s.files ∧ s.written = [] := ⟨h.1.symm ▸ Grown.refl _, h.2⟩
  have hfail : Triple (· = files) (createDirectories base) (fun _ _ => False) (Grown files) := by
    rintro fs rfl
    have hgrown := FileSystem.createDirectories_triple fs base fs (Grown.refl fs)
    rw [hmake] at hgrown ⊢
    exact hgrown
  unfold steps
  refine ((destination_triple files [] settings q.destination).mono_error
    fun _ h => hstill h).bind fun base' => ?_
  refine Triple.of_and fun hbase' => ?_
  obtain rfl := Option.some.inj (hbase.symm.trans hbase')
  refine (((Quiet.expanding _).triple (P := fun fs w => fs = files ∧ w = [])).mono_error
    fun _ h => hstill h).bind fun _ => ?_
  exact (Run.onFiles_triple hfail []).bind fun _ _ h => h.1.elim

/-- A generation whose destination cannot be made is fatal, and all files stay as they were. -/
theorem generate_unmade (t : Template) (settings : Settings) (year : Nat) (q : GenerationRequest)
    (guids : GuidSource) {fault : FileFault} {made : FileSystem}
    (hbase : q.destination.absolute? files.workingPath = some base)
    (hmake : createDirectories base files = .error fault made) :
    (generate t settings year q files guids).1.outcome = .fatal ∧
      (generate t settings year q files guids).1.written = [] ∧
      ∀ place content, (generate t settings year q files guids).2.files.at? place =
        some (some content) ↔ files.at? place = some (some content) := by
  have hrun := Generation.steps_unmade t settings year q hbase hmake
  cases hsteps : (Generation.steps t settings year q).outcome (Run.start files guids settings) with
  | mk result last =>
    cases result with
    | ok _ => exact (hrun.of_outcome ⟨rfl, rfl⟩ hsteps).elim
    | error failure =>
      obtain ⟨hgrown, hwritten⟩ := hrun.of_outcome_error ⟨rfl, rfl⟩ hsteps
      have hleft : (generate t settings year q files guids).2.files = last.files :=
        Run.files_finish hsteps
      rw [hleft]
      exact ⟨Run.finish_fatal_iff.mpr ⟨failure, congrArg Prod.fst hsteps⟩,
        (Run.written_finish hsteps).trans hwritten, fun place content => hgrown.file_iff⟩

/-- A lenient generation into an occupied destination is fatal only if it is refused or the destination
cannot be made. -/
theorem fatal_iff_of_occupied (t : Template) (settings : Settings) (year : Nat)
    (q : GenerationRequest) (guids : GuidSource)
    (hwork : files.workingPath.Descends files.workingDirectory)
    (hoccupied : Occupied files q.destination) :
    (generate t { settings with overwrite := false, strict := false } year q files guids).1.outcome =
        .fatal ↔
      files.has q.destination = true ∨
        ∃ base fault made, q.destination.absolute? files.workingPath = some base ∧
          createDirectories base files = .error fault made := by
  have hcheck := checkDestination_of_occupied hwork hoccupied
  have hend := Generation.lenientEnd_start t { settings with overwrite := false } year q files guids
  unfold generate
  rw [Run.finish_fatal_iff]
  generalize (Generation.steps t { settings with overwrite := false, strict := false } year
    q).outcome (Run.start files guids { settings with overwrite := false, strict := false }) = left
    at hend
  cases hend with
  | @barred failure h =>
    -- what bars the run is the guard: there is an absolute path
    refine iff_of_true ⟨failure, rfl⟩ (Or.inl ?_)
    obtain ⟨base, hbase, -⟩ := hoccupied
    by_contra hnone
    cases h.symm.trans (Run.target_eq_ok_iff.mpr ⟨hcheck.trans (if_neg hnone), hbase⟩)
  | @unmade base fault made _ hbase hmake =>
    have habsolute := (Run.target_eq_ok_iff.mp hbase).2
    exact iff_of_true ⟨.file fault, rfl⟩ (Or.inr ⟨base, fault, made, habsolute, hmake⟩)
  | @completed base made last hbase hmake _ =>
    obtain ⟨hpassed, habsolute⟩ := Run.target_eq_ok_iff.mp hbase
    refine iff_of_false (by simp) ?_
    rintro (h | ⟨base', fault, made', hbase', hmake'⟩)
    · cases (hcheck.trans (if_pos h)).symm.trans hpassed
    · obtain rfl := Option.some.inj (habsolute.symm.trans hbase')
      cases hmake.symm.trans hmake'

/-- An occupied destination is refused exactly if it denotes something before the run; then a run has
done nothing. Otherwise the guard changes nothing, and a lenient generation is fatal only if the
destination cannot be made. A path that goes straight down always denotes what is there. -/
theorem guard_of_occupied (t : Template) (settings : Settings) (year : Nat) (q : GenerationRequest)
    (values : List (String × String)) (language : Language) (files : FileSystem) (guids : GuidSource)
    (hwork : files.workingPath.Descends files.workingDirectory)
    (hoccupied : Occupied files q.destination) :
    Guard t settings year q ⟨q.destination, values, language⟩ files guids := by
  have hcheck := checkDestination_of_occupied hwork hoccupied
  refine ⟨fun h => ?_, fun h => ?_, fatal_iff_of_occupied t settings year q guids hwork hoccupied,
    fun base fault made => generate_unmade t { settings with overwrite := false } year q guids,
    has_of_occupied hwork hoccupied⟩
  · have htarget (strict : Bool) (threshold : Level) (unresolved : UnresolvedPolicy) :
        Run.target ⟨false, strict, threshold, unresolved⟩ q.destination files =
          .error (.occupied q.destination.text) := by
      simp only [Run.target, hcheck.trans (if_pos h)]
    exact ⟨refused_of_target (htarget _ _ _), refused_of_target (htarget _ _ _)⟩
  · have hfree : Run.checkDestination files q.destination false = .ok () :=
      hcheck.trans (if_neg (by simp [h]))
    exact ⟨finish_of_unguarded hfree, finish_of_unguarded hfree⟩

/-- A path that goes straight down to a directory that holds something is refused. -/
theorem guard_of_straight :
    ∃ (files : FileSystem) (t : Template),
      files = ⟨.directory [("work", .directory [("a.txt", .file "a".toUTF8),
        ("full", .directory [("keep.txt", .file "mine".toUTF8)])])], ["work"]⟩ ∧
      files.workingPath.Descends files.workingDirectory ∧ Occupied files ⟨"./full"⟩ ∧
      Guard t {} 2031 ⟨⟨"./full"⟩, none, [], .cSharp⟩ ⟨⟨"./full"⟩, [], .cSharp⟩ files ⟨0, 0⟩ ∧
      (generate t {} 2031 ⟨⟨"./full"⟩, none, [], .cSharp⟩ files ⟨0, 0⟩).1.outcome = .fatal := by
  let files : FileSystem := ⟨.directory [("work", .directory [("a.txt", .file "a".toUTF8),
    ("full", .directory [("keep.txt", .file "mine".toUTF8)])])], ["work"]⟩
  let t : Template := ⟨⟨"/work/t.xml"⟩, none, none, none, none, [⟨"/work"⟩], ⟨[]⟩,
    [⟨⟨"a.txt", ["/work/a.txt"], "a.txt", false, ⟨1, 11⟩⟩, []⟩]⟩
  have hwork : files.workingPath.Descends files.workingDirectory :=
    ⟨by decide +kernel, by decide +kernel, by decide +kernel⟩
  have hoccupied : Occupied files ⟨"./full"⟩ :=
    ⟨⟨"/work/full"⟩, by decide +kernel, by decide +kernel, "keep.txt", by decide +kernel⟩
  have hguard := guard_of_occupied t {} 2031 ⟨⟨"./full"⟩, none, [], .cSharp⟩ [] .cSharp files ⟨0, 0⟩
    hwork hoccupied
  obtain ⟨hrefused, -⟩ := hguard.refused (by decide +kernel)
  exact ⟨files, t, rfl, hwork, hoccupied, hguard, congrArg Report.outcome hrefused.report⟩

/-- A path that leads to such a directory once what is missing on the way was made: files are written
beside those that are there. -/
theorem guard_passed_behind_missing :
    ∃ (files : FileSystem) (t : Template) (run : Report × Run),
      files = ⟨.directory [("work", .directory [("a.txt", .file "a".toUTF8),
        ("full", .directory [("keep.txt", .file "mine".toUTF8)])])], ["work"]⟩ ∧
      ((Template.parse files ⟨"/work/t.xml"⟩ "<Template><Project src=\"a.txt\"/></Template>").outcome
        {}).1.toOption = some t ∧
      Occupied files ⟨"new/../full"⟩ ∧
      generate t {} 2031 ⟨⟨"new/../full"⟩, none, [], .cSharp⟩ files ⟨0, 0⟩ = run ∧
      run.1.outcome = .success ∧ files.at? ["work", "full", "a.txt"] = none ∧
      run.2.files.at? ["work", "full", "a.txt"] = some (some "a".toUTF8) := by
  let files : FileSystem := ⟨.directory [("work", .directory [("a.txt", .file "a".toUTF8),
    ("full", .directory [("keep.txt", .file "mine".toUTF8)])])], ["work"]⟩
  let t : Template := ⟨⟨"/work/t.xml"⟩, none, none, none, none, [⟨"/work"⟩],
    ⟨[⟨"_sourceExt", some "Extension of source files.", "cs", none, .string, true⟩]⟩,
    [⟨⟨"a.txt", ["/work/a.txt"], "a.txt", false, ⟨1, 11⟩⟩, []⟩]⟩
  refine ⟨files, t, _, rfl, by decide +kernel, ?_, rfl, ?_⟩
  · exact ⟨⟨"/work/new/../full"⟩, by decide +kernel, by decide +kernel, "keep.txt", by decide +kernel⟩
  · decide +kernel

end Stencil
