import Stencil.Proofs.Closing
import Stencil.Proofs.Generation.Filing
import Stencil.Proofs.Leaving

namespace Stencil

open FileSystem (Grown Wrote Passes Retains)

variable {α : Type} {fs fs' files : FileSystem} {place : List String} {r : Renderer} {t : Template}
  {base : Path} {e : Entry} {s s' : Run}

/-- Whoever watches was told of what was written, and its project files were noted. -/
structure Run.Balanced (s : Run) : Prop where
  observed : s.observed = s.written
  projects : s.projects = (s.written.map (·.destination)).filter isProjectFile

/-- The three lists of what was written. -/
def Run.notes (s : Run) : List WrittenFile × List WrittenFile × List Path :=
  (s.written, s.observed, s.projects)

theorem Run.Balanced.of_notes (h : s.Balanced) (hs : s'.notes = s.notes) : s'.Balanced := by
  simp only [Run.notes, Prod.mk.injEq] at hs
  obtain ⟨hwritten, hobserved, hprojects⟩ := hs
  exact ⟨by rw [hobserved, hwritten, h.observed], by rw [hprojects, hwritten, h.projects]⟩

theorem Run.Grows.notes (h : s.Grows s') : s'.notes = s.notes := by
  obtain ⟨expansion, files, -, rfl⟩ := h
  rfl

theorem Filed.balanced (h : Filed r t base e s s') (hs : s.Balanced) : s'.Balanced := by
  cases h with
  | left h => exact hs.of_notes h.notes
  | made h hwritten hobserved hprojects =>
    refine ⟨by rw [hobserved, hwritten, hs.observed], ?_⟩
    rw [hprojects, hwritten, hs.projects, List.map_append, List.filter_append]
    simp [List.filter_cons]

/-- The files are those of the start and those that were written, which are all found. -/
structure Covers (files fs : FileSystem) (written : List WrittenFile) : Prop where
  retains : Retains files fs
  found : ∀ w ∈ written, ∃ place, fs.Denotes w.destination place ∧ fs.FileAt place
  covered : ∀ place, fs.FileAt place →
    files.FileAt place ∨ ∃ w ∈ written, fs.Denotes w.destination place

namespace Covers

variable {written : List WrittenFile}

theorem start (h : Grown files fs) : Covers files fs [] :=
  ⟨h.retains, by simp, fun _ hp => Or.inl (h.fileAt_iff.mp hp)⟩

theorem grow (h : Covers files fs written) (hg : Grown fs fs') : Covers files fs' written where
  retains := h.retains.trans hg.retains
  found := fun w hw => by
    obtain ⟨place, hdenotes, hfile⟩ := h.found w hw
    exact ⟨place, hdenotes.mono hg.retains, hg.fileAt_iff.mpr hfile⟩
  covered := fun place hp =>
    (h.covered place (hg.fileAt_iff.mp hp)).imp_right fun ⟨w, hw, hdenotes⟩ =>
      ⟨w, hw, hdenotes.mono hg.retains⟩

theorem write (h : Covers files fs written) {w : WrittenFile} {content : ByteArray}
    (hwrote : Wrote fs w.destination place content fs') : Covers files fs' (written ++ [w]) where
  retains := h.retains.trans hwrote.retains
  found := fun v hv => by
    rcases List.mem_append.mp hv with hv | hv
    · obtain ⟨place, hdenotes, hfile⟩ := h.found v hv
      exact ⟨place, hdenotes.mono hwrote.retains, hwrote.retains.fileAt hfile⟩
    · obtain rfl := List.mem_singleton.mp hv
      exact ⟨place, hwrote.denotes, hwrote.fileAt_iff.mpr (Or.inr rfl)⟩
  covered := fun q hq => by
    rcases hwrote.fileAt_iff.mp hq with hq | rfl
    · refine (h.covered q hq).imp_right fun ⟨v, hv, hdenotes⟩ => ?_
      exact ⟨v, List.mem_append_left _ hv, hdenotes.mono hwrote.retains⟩
    · exact Or.inr ⟨w, List.mem_append_right _ List.mem_cons_self, hwrote.denotes⟩

/-- What a written file's path denotes is a file. -/
theorem fileAt (h : Covers files fs written) {w : WrittenFile} (hw : w ∈ written)
    (hdenotes : fs.Denotes w.destination place) : fs.FileAt place := by
  obtain ⟨found, hfound, hfile⟩ := h.found w hw
  rwa [hdenotes.eq_placeFrom, ← hfound.eq_placeFrom]

end Covers

theorem Filed.retains (h : Filed r t base e s s') : Retains s.files s'.files := by
  cases h with
  | left h =>
    obtain ⟨expansion, files, hgrown, rfl⟩ := h
    exact hgrown.retains
  | made h =>
    obtain ⟨made, place, content, hgrown, -, hwrote⟩ := h.wrote
    exact hgrown.retains.trans hwrote.retains

theorem Filed.covers (h : Filed r t base e s s') (hs : Covers files s.files s.written) :
    Covers files s'.files s'.written := by
  cases h with
  | left h =>
    obtain ⟨expansion, files, hgrown, rfl⟩ := h
    exact hs.grow hgrown
  | made h hwritten =>
    obtain ⟨made, place, content, hgrown, -, hwrote⟩ := h.wrote
    rw [hwritten]
    exact (hs.grow hgrown).write hwrote

namespace Generation

/-- The entries of projects in the order in which they are taken up, with the kind of each. -/
def tasks (projects : List Project) : List (String × Entry) :=
  projects.flatMap fun p => ("project", p.entry) :: p.files.map ("file", ·)

theorem map_tasks (projects : List Project) :
    (tasks projects).map (·.2) = projects.flatMap Project.entries := by
  simp only [tasks, List.map_flatMap, List.map_cons, List.map_map, Function.comp_def, List.map_id']
  rfl

/-- Taking up projects is taking up their entries. -/
theorem addProjects_eq (projects : List Project) :
    projects.forM (addProject r t base) =
      (tasks projects).forM fun task => addEntry r t base task.1 task.2 := by
  induction projects with
  | nil => rfl
  | cons p projects ih =>
    have hfiles : (p.files.map ("file", ·)).forM (fun task => addEntry r t base task.1 task.2) =
        p.files.forM (addEntry r t base "file") := List.forM_map
    calc (p :: projects).forM (addProject r t base)
        = (do addProject r t base p; projects.forM (addProject r t base)) := rfl
      _ = (do
            (("project", p.entry) :: p.files.map ("file", ·)).forM
              fun task => addEntry r t base task.1 task.2
            (tasks projects).forM fun task => addEntry r t base task.1 task.2) := by
          rw [ih, addProject, ← hfiles]
          rfl
      _ = (tasks (p :: projects)).forM fun task => addEntry r t base task.1 task.2 :=
          List.forM_append.symm

/-- The entries are taken up one after the other, some or all of them. -/
theorem addProjects_linked (projects : List Project) (hb : base.isRooted = true)
    (hbase : s.files.Passes [] base.moves) :
    Triple (· = s) (projects.forM (addProject r t base))
      (fun _ => Linked (Filed r t base) (projects.flatMap Project.entries) s)
      (fun s' => ∃ taken, taken <+: projects.flatMap Project.entries ∧
        Linked (Filed r t base) taken s s') := by
  -- what is on the way to the destination stays, so each entry finds it there
  have hfiled {taken : List (String × Entry)} {s' : Run}
      (h : Linked (fun task => (addEntry r t base task.1 task.2).Runs) taken s s') :
      Linked (Filed r t base) (taken.map (·.2)) s s' := by
    refine (Linked.mono_kept (I := fun s => s.files.Passes [] base.moves) h hbase
      fun task _ s₁ s₂ hbase hruns => ?_).1.of_map
    obtain ⟨result, hrun⟩ := hruns
    have hstep := (addEntry_filed r t task.1 task.2 hb hbase).after (s := s₁) rfl
    rw [hrun] at hstep
    exact ⟨hstep, hbase.mono hstep.retains⟩
  rw [addProjects_eq, ← map_tasks]
  refine (Triple.forM_linked (tasks projects) _ s).mono (fun _ h => h) (fun _ _ h => hfiled h)
    fun s' h => ?_
  obtain ⟨taken, hprefix, hlinked⟩ := h
  exact ⟨taken.map (·.2), hprefix.map _, hfiled hlinked⟩

end Generation

namespace Generation

theorem leaves_registerProject (name : String) (s : Solution) (project : Path) :
    Leaves Run.notes (registerProject name s project) := by
  have hguid : Leaves Run.notes Run.nextGuid := fun _ => rfl
  have hdraw : Leaves Run.notes Run.drawGuid := fun _ => rfl
  have hsay (level : Level) (message : String) : Leaves Run.notes (Run.say level message) :=
    Leaves.say (fun _ _ => rfl) level message
  unfold registerProject
  refine Leaves.currentFiles.bind fun files => hguid.bind fun guid => ?_
  split
  · exact hdraw.bind fun _ => (hsay _ _).bind fun _ => Leaves.pure _
  · exact (Leaves.detail (fun _ _ => rfl) _).bind fun _ => (hsay _ _).bind fun _ => Leaves.pure _
  · exact (hsay _ _).bind fun _ => Leaves.pure _

/-- Adding projects to a solution notes nothing. -/
theorem leaves_trySolution (path : Path) (projects : List Path) :
    Leaves Run.notes (trySolution path projects) := by
  have hsay (level : Level) (message : String) : Leaves Run.notes (Run.say level message) :=
    Leaves.say (fun _ _ => rfl) level message
  have hassemble : Leaves Run.notes (assembleSolution path projects) := by
    unfold assembleSolution
    refine Leaves.currentFiles.bind fun files => (Leaves.ofExcept _).bind fun loaded => ?_
    obtain ⟨solution, created⟩ := loaded
    have hrest : Leaves Run.notes (do
        let full ← projects.foldlM (registerProject (path.fileName?.getD "")) solution
        Run.onFiles full.save) :=
      (Leaves.foldlM (leaves_registerProject _) _ _).bind fun full =>
        Leaves.onFiles (fun _ _ => rfl) _
    simp only
    split
    · exact (hsay _ _).bind fun _ => hrest
    · exact hrest
  unfold trySolution
  refine hassemble.caught.bind fun result => ?_
  split
  · exact Leaves.pure _
  · split
    · exact Leaves.throw _
    · exact hsay _ _

end Generation

/-- What a generation did when it ended: it took up entries, and may have saved the solution. -/
structure Passed (t : Template) (settings : Settings) (year : Nat) (q : GenerationRequest)
    (files : FileSystem) (taken : List Entry) (last : Run) : Prop where
  rounds : ∃ base begun turned,
    (taken ≠ [] → q.destination.absolute? files.workingPath = some base) ∧
      Grown files begun.files ∧ begun.notes = ([], [], []) ∧
      Linked (Filed (Generation.renderer t settings year q) t base) taken begun turned ∧
      last.notes = turned.notes ∧ (last.files = turned.files ∨
        ∃ path ∈ q.solution, Solution.Saves path turned.files last.files)

namespace Generation

variable {settings : Settings} {year : Nat} {q : GenerationRequest} {guids : GuidSource}

theorem leaves_destination (destination : Path) :
    Leaves Run.notes (Run.destination settings destination) := by
  intro s
  unfold Attempt.outcome Run.destination
  cases Run.checkDestination s.files destination settings.overwrite with
  | error failure => rfl
  | ok _ =>
    simp only
    cases destination.absolute? s.files.workingPath <;> rfl

theorem passed_idle {last : Run} (hgrown : Grown files last.files) (hn : last.notes = ([], [], [])) :
    Passed t settings year q files [] last :=
  ⟨⟨⟨""⟩, last, last, fun h => absurd rfl h, hgrown, hn, .nil, rfl, Or.inl rfl⟩⟩

/-- A generation that comes to its end takes up all entries, and one that fails some of the first. -/
theorem steps_passed (t : Template) (settings : Settings) (year : Nat) (q : GenerationRequest)
    (files : FileSystem) :
    Triple (fun s => s.files = files ∧ s.notes = ([], [], [])) (steps t settings year q)
      (fun _ => Passed t settings year q files (t.projects.flatMap Project.entries))
      (fun s => ∃ taken, taken <+: t.projects.flatMap Project.entries ∧
        Passed t settings year q files taken s) := by
  have hidle {s : Run} (h : Grown files s.files ∧ s.notes = ([], [], [])) :
      ∃ taken, taken <+: t.projects.flatMap Project.entries ∧
        Passed t settings year q files taken s :=
    ⟨[], List.nil_prefix, passed_idle h.1 h.2⟩
  have hstill {s : Run} (h : s.files = files ∧ s.notes = ([], [], [])) := hidle (s := s)
    ⟨h.1 ▸ Grown.refl _, h.2⟩
  have hwritten {s : Run} (h : s.notes = ([], [], [])) : s.written = [] := congrArg Prod.fst h
  unfold steps
  refine ((((destination_triple files [] settings q.destination).and
    ((leaves_destination q.destination).triple ([], [], []))).mono
    (fun s h => ⟨⟨h.1, hwritten h.2⟩, h.2⟩)
    (fun base s h => (⟨⟨h.1.1.1, h.2⟩, h.1.2⟩ :
      (s.files = files ∧ s.notes = ([], [], [])) ∧ _))
    fun s h => hstill ⟨h.1.1, h.2⟩)).bind fun base => Triple.of_and fun hbase => ?_
  refine Triple.bind (Q := fun _ s => s.files = files ∧ s.notes = ([], [], [])) ?_ fun _ => ?_
  · refine (Run.expanding_keeps _ fun _ _ h => h).mono_error fun _ h => hstill h
  refine Triple.bind (Q := fun _ s => (Grown files s.files ∧ _) ∧ s.notes = ([], [], []))
    (((Run.onFiles_triple (FileSystem.createDirectories_triple files base) []).and
      ((Leaves.onFiles (fun _ _ => rfl) _).triple ([], [], []))).mono
      (fun s h => ⟨⟨h.1 ▸ Grown.refl _, hwritten h.2⟩, h.2⟩) (fun _ s h => ⟨h.1.1, h.2⟩)
      fun s h => hidle ⟨h.1.1, h.2⟩) fun _ => ?_
  -- the destination is there from here on, and this state is where the entries are taken up
  rintro begun ⟨⟨hgrown, hmade⟩, hnotes⟩
  have hb := isRooted_absolute hbase
  have hpasses := passes_of_made hb hmade
  refine (((addProjects_linked t.projects hb hpasses).mono_error fun s h => ?_).bind fun _ => ?_ :
    Triple (· = begun) _ _ _) begun rfl
  · obtain ⟨taken, hprefix, hlinked⟩ := h
    exact ⟨taken, hprefix, ⟨base, begun, s, fun _ => hbase, hgrown, hnotes, hlinked, rfl, Or.inl rfl⟩⟩
  · intro turned hlinked
    have hend {last : Run} (hn : last.notes = turned.notes) (hfiles : last.files = turned.files ∨
        ∃ path ∈ q.solution, Solution.Saves path turned.files last.files) :
        Passed t settings year q files (t.projects.flatMap Project.entries) last :=
      ⟨base, begun, turned, fun _ => hbase, hgrown, hnotes, hlinked, hn, hfiles⟩
    cases hsolution : q.solution with
    | none => exact hend rfl (Or.inl rfl)
    | some path =>
      have hsave (full : Solution) (hfull : full.path = path) :
          Triple (· = turned.files) full.save (fun _ => Solution.Saves path turned.files)
            (Solution.Saves path turned.files) :=
        hfull ▸ full.save_saves.mono (fun _ h => h ▸ Grown.refl _) (fun _ _ h => h) fun _ h => h
      have hstay : Solution.Saves path turned.files turned.files :=
        ⟨_, Grown.refl _, Or.inl rfl⟩
      have hfiles : Triple (fun s : Run => s.files = turned.files ∧ s.written = turned.written) _ _ _ :=
        trySolution_triple hsave hstay turned.projects
      refine ((hfiles.and ((leaves_trySolution path turned.projects).triple turned.notes)).mono
        (fun _ h => h) (fun _ last h => ?_) fun last h => ?_) turned ⟨⟨rfl, rfl⟩, rfl⟩
      · exact hend h.2 (Or.inr ⟨path, hsolution, h.1.1⟩)
      · exact ⟨_, List.prefix_refl _, hend h.2 (Or.inr ⟨path, hsolution, h.1.1⟩)⟩

end Generation

/-- A path denotes a file that holds a solution of this path. -/
def HoldsSolution (fs : FileSystem) (path : Path) (place : List String) : Prop :=
  fs.Denotes path place ∧
    ∃ s : Solution, s.path = path ∧ fs.at? place = some (some s.text.toUTF8)

theorem Covers.fileAt_iff_of_saves {written : List WrittenFile} {solution : Option Path}
    (h : Covers files fs written)
    (hsaved : fs' = fs ∨ ∃ path ∈ solution, Solution.Saves path fs fs') (place : List String) :
    fs'.FileAt place ↔ files.FileAt place ∨ (∃ w ∈ written, fs'.Denotes w.destination place) ∨
      ∃ path ∈ solution, HoldsSolution fs' path place := by
  have hiff {made : FileSystem} (h : Covers files made written) (q : List String) :
      made.FileAt q ↔ files.FileAt q ∨ ∃ w ∈ written, made.Denotes w.destination q :=
    ⟨h.covered q, fun hq => hq.elim h.retains.fileAt fun ⟨w, hw, hdenotes⟩ => h.fileAt hw hdenotes⟩
  have hsolution {made : FileSystem} (h : ∃ path ∈ solution, HoldsSolution made path place) :
      made.FileAt place := by
    obtain ⟨path, -, -, s, -, hs⟩ := h
    exact ⟨_, hs⟩
  have hplain {made : FileSystem} (h : Covers files made written) :
      made.FileAt place ↔ files.FileAt place ∨ (∃ w ∈ written, made.Denotes w.destination place) ∨
        ∃ path ∈ solution, HoldsSolution made path place := by
    rw [← or_assoc, ← hiff h]
    exact ⟨Or.inl, fun hp => hp.elim id hsolution⟩
  obtain rfl | ⟨path, hpath, made, hgrown, rfl | ⟨s, target, rfl, hwrote⟩⟩ := hsaved
  · exact hplain h
  · exact hplain (h.grow hgrown)
  -- the solution was written over what its directories had grown to
  · have hmade := h.grow hgrown
    rw [hwrote.fileAt_iff, hiff hmade]
    constructor
    · rintro ((hp | ⟨w, hw, hdenotes⟩) | rfl)
      · exact Or.inl hp
      · exact Or.inr (Or.inl ⟨w, hw, hdenotes.mono hwrote.retains⟩)
      · exact Or.inr (Or.inr ⟨s.path, hpath, hwrote.denotes, s, rfl, by rw [hwrote.at?, if_pos rfl]⟩)
    · rintro (hp | ⟨w, hw, hdenotes⟩ | hp)
      · exact Or.inl (Or.inl hp)
      · obtain ⟨found, hfound, hfile⟩ := hmade.found w hw
        have hplace := hdenotes.eq_placeFrom.trans (hfound.mono hwrote.retains).eq_placeFrom.symm
        exact Or.inl ((hiff hmade place).mp (hplace ▸ hfile))
      · exact ((hwrote.fileAt_iff).mp (hsolution hp)).imp_left (hiff hmade place).mp

/-- A report that accounts for what a generation did, and for all files that are there then. -/
structure Account (t : Template) (settings : Settings) (year : Nat) (q : GenerationRequest)
    (files : FileSystem) (report : Report) (last : Run) : Prop where
  written : last.written = report.written
  fileAt_iff : ∀ place, last.files.FileAt place ↔
    files.FileAt place ∨ (∃ w ∈ report.written, last.files.Denotes w.destination place) ∨
      ∃ path ∈ q.solution, HoldsSolution last.files path place
  passed : ∃ taken, taken <+: t.projects.flatMap Project.entries ∧
    (report.outcome ≠ .fatal → taken = t.projects.flatMap Project.entries) ∧
    Passed t settings year q files taken last
  observed : last.observed = report.written
  projects : report.projects = (report.written.map (·.destination)).filter isProjectFile

/-- What a run passed through is all that its report has to account for. -/
theorem Passed.account {settings : Settings} {year : Nat} {q : GenerationRequest}
    {taken : List Entry} {last : Run} (h : Passed t settings year q files taken last) :
    last.Balanced ∧ ∀ place, last.files.FileAt place ↔
      files.FileAt place ∨ (∃ w ∈ last.written, last.files.Denotes w.destination place) ∨
        ∃ path ∈ q.solution, HoldsSolution last.files path place := by
  obtain ⟨base, begun, turned, -, hgrown, hnotes, hlinked, hn, hfiles⟩ := h.rounds
  have hbegun : begun.Balanced ∧ Covers files begun.files begun.written := by
    simp only [Run.notes, Prod.mk.injEq] at hnotes
    obtain ⟨hwritten, hobserved, hprojects⟩ := hnotes
    refine ⟨⟨by rw [hobserved, hwritten], by rw [hprojects, hwritten]; rfl⟩, ?_⟩
    rw [hwritten]
    exact .start hgrown
  obtain ⟨hbalanced, hcovers⟩ := hlinked.keeps hbegun fun e _ s s' hs hfiled =>
    (⟨hfiled.balanced hs.1, hfiled.covers hs.2⟩ :
      s'.Balanced ∧ Covers files s'.files s'.written)
  refine ⟨hbalanced.of_notes hn, ?_⟩
  rw [show last.written = turned.written from congrArg Prod.fst hn]
  exact hcovers.fileAt_iff_of_saves hfiles

/-- The report of a generation accounts for every file, also if the run was cut short: for each entry
in turn only directories were made, or its file was filled from its source and noted. -/
theorem generate_accounts (t : Template) (settings : Settings) (year : Nat) (q : GenerationRequest)
    (files : FileSystem) (guids : GuidSource) :
    Account t settings year q files (generate t settings year q files guids).1
      (generate t settings year q files guids).2 := by
  have hpassed := (Generation.steps_passed t settings year q files).at_outcome
    (s := Run.start files guids settings) ⟨rfl, rfl⟩
  unfold generate
  cases hrun : (Generation.steps t settings year q).outcome (Run.start files guids settings) with
  | mk result last =>
    rw [hrun] at hpassed
    obtain ⟨taken, hprefix, hall, hpassed⟩ : ∃ taken,
        taken <+: t.projects.flatMap Project.entries ∧
        (¬ (∃ e, result = .error e) → taken = t.projects.flatMap Project.entries) ∧
        Passed t settings year q files taken last := by
      cases result with
      | ok _ => exact ⟨_, List.prefix_refl _, fun _ => rfl, hpassed⟩
      | error e =>
        obtain ⟨taken, hprefix, hpassed⟩ := hpassed
        exact ⟨taken, hprefix, fun h => absurd ⟨e, rfl⟩ h, hpassed⟩
    obtain ⟨hbalanced, hfileAt⟩ := hpassed.account
    have hfatal := Run.finish_fatal_iff (x := Generation.steps t settings year q)
      (r := Run.start files guids settings)
    rw [hrun] at hfatal
    rw [Run.finish_eq, hrun] at hfatal ⊢
    exact ⟨rfl, hfileAt, ⟨taken, hprefix, fun h => hall fun he => h (hfatal.mpr he), ⟨hpassed.rounds⟩⟩,
      hbalanced.observed, hbalanced.projects⟩

/-- A file that is copied to a target which leads to the file itself, behind a directory that is yet to
be made, ends up empty. -/
theorem generate_empties_source :
    ∃ (files : FileSystem) (t : Template) (report : Report) (last : Run),
      files = ⟨.directory [("work", .directory [("a.txt", .file "data".toUTF8)])], ["work"]⟩ ∧
      ((Template.parse files ⟨"/work/t.xml"⟩
        "<Template><Project src=\"a.txt\" dst=\"new/../../a.txt\" raw=\"true\"/></Template>").outcome
          {}).1.toOption = some t ∧
      generate t {} 2031 ⟨⟨"out"⟩, none, [], .cSharp⟩ files ⟨0, 0⟩ = (report, last) ∧
      report.outcome = .success ∧
      report.written = [⟨⟨"/work/a.txt"⟩, ⟨"/work/out/new/../../a.txt"⟩⟩] ∧
      files.read ⟨"/work/a.txt"⟩ = .ok "data".toUTF8 ∧
      last.files.read ⟨"/work/out/new/../../a.txt"⟩ = .ok .empty := by
  let files : FileSystem :=
    ⟨.directory [("work", .directory [("a.txt", .file "data".toUTF8)])], ["work"]⟩
  let t : Template := ⟨⟨"/work/t.xml"⟩, none, none, none, none, [⟨"/work"⟩],
    ⟨[⟨"_sourceExt", some "Extension of source files.", "cs", none, .string, true⟩]⟩,
    [⟨⟨"a.txt", ["/work/a.txt"], "new/../../a.txt", true, ⟨1, 11⟩⟩, []⟩]⟩
  exact ⟨files, t, _, _, rfl, by decide +kernel, rfl, by decide +kernel, by decide +kernel, rfl,
    by decide +kernel⟩

end Stencil
