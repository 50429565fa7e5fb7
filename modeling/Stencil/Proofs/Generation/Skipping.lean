import Stencil.Proofs.Generation.Again

namespace Stencil

open FileSystem (Gained Grown Passes createDirectories)

variable {t : Template} {settings : Settings} {year : Nat} {q : GenerationRequest}
  {files fs : FileSystem} {guids : GuidSource} {r : Renderer} {base : Path} {e : Entry} {s s' : Run}

/-- Whether there is no directory to be made: it is there, or it is above all others. -/
def FileSystem.Holds (fs : FileSystem) (p : Path) : Prop :=
  (p.text = "" ∨ p.parent?.isNone = true) ∨ fs.isDirectory p = true

/-- The source that is found for an entry, and its target. -/
def Entry.Leads (r : Renderer) (t : Template) (base : Path) (e : Entry) (s : Run)
    (source target : Path) : Prop :=
  ∃ relative after last, (e.resolveSource s.files r t).outcome s.expansion = (.ok source, after) ∧
    (e.resolveDestination r t).outcome after = (.ok relative, last) ∧ target = base.join ⟨relative⟩

/-- An entry leads to at most one target. -/
theorem Entry.Leads.unique {source source' target target' : Path}
    (h : e.Leads r t base s source target) (h' : e.Leads r t base s source' target') :
    target = target' := by
  obtain ⟨relative, after, last, hsource, hrelative, rfl⟩ := h
  obtain ⟨relative', after', last', hsource', hrelative', rfl⟩ := h'
  cases hsource.symm.trans hsource'
  cases hrelative.symm.trans hrelative'
  rfl

/-- How the files stand after an entry that is left out: as before, if there was no target to be written
or the directory above it was there or could not be begun; and otherwise with directories that were
missing above the target. -/
inductive Skipped (r : Renderer) (t : Template) (base : Path) (e : Entry) (s : Run) :
    FileSystem → Prop
  | untouched (h : ∀ source target parent, e.Leads r t base s source target →
      s.files.has target = false → target.parent? = some parent →
      s.files.Holds parent ∨ ∃ fault, createDirectories parent s.files = .error fault s.files) :
    Skipped r t base e s s.files
  | littered {source target parent : Path} {fs : FileSystem}
    (hleads : e.Leads r t base s source target) (hfree : s.files.has target = false)
    (hparent : target.parent? = some parent) (hmissing : ¬ s.files.Holds parent)
    (hmade : fs.isDirectory parent = true ∨ ∃ fault, createDirectories parent s.files = .error fault fs)
    (hne : fs ≠ s.files) (hgrown : Grown s.files fs)
    (hgained : Gained (parent.Passing s.files.workingDirectory) s.files fs) :
    Skipped r t base e s fs

namespace FileSystem

/-- A directory that is there is not made. -/
theorem Holds.createDirectories {p : Path} (h : fs.Holds p) :
    FileSystem.createDirectories p fs = .ok () fs :=
  createDirectories_again fun hne => h.resolve_left hne

end FileSystem

namespace Skipped

theorem of_target {source target : Path} (hleads : e.Leads r t base s source target)
    (h : ∀ parent, s.files.has target = false → target.parent? = some parent →
      s.files.Holds parent ∨ ∃ fault, createDirectories parent s.files = .error fault s.files) :
    Skipped r t base e s s.files := by
  refine .untouched fun source' target' parent hleads' hfree hparent => ?_
  obtain rfl := hleads.unique hleads'
  exact h parent hfree hparent

/-- However far the making of the directory above the target gets, the entry may be left out then. -/
theorem of_createDirectories {source target parent : Path}
    (hleads : e.Leads r t base s source target) (hfree : s.files.has target = false)
    (hparent : target.parent? = some parent) :
    Triple (· = s.files) (createDirectories parent) (fun _ => Skipped r t base e s)
      (Skipped r t base e s) := by
  rintro _ rfl
  have hgrown := FileSystem.createDirectories_triple s.files parent s.files (Grown.refl _)
  have hgaining : Triple (Gained (parent.Passing s.files.workingDirectory) s.files)
      (createDirectories parent) (fun _ => Gained (parent.Passing s.files.workingDirectory) s.files)
      (Gained (parent.Passing s.files.workingDirectory) s.files) :=
    FileSystem.createDirectories_gained fun _ h => h
  have hgained := hgaining s.files (Gained.refl _ _)
  by_cases hholds : s.files.Holds parent
  · rw [hholds.createDirectories]
    refine of_target hleads fun parent' _ hparent' => ?_
    cases hparent.symm.trans hparent'
    exact Or.inl hholds
  cases hmake : createDirectories parent s.files with
  | ok _ made =>
    rw [hmake] at hgrown hgained
    have hdir : made.isDirectory parent = true := hgrown.2 fun h => hholds (Or.inl h)
    refine .littered hleads hfree hparent hholds (Or.inl hdir) ?_ hgrown.1 hgained
    rintro rfl
    exact hholds (Or.inr hdir)
  | error fault made =>
    -- making the directory may fail at once, or with some of those above it made
    rw [hmake] at hgrown hgained
    by_cases hsame : made = s.files
    · subst hsame
      refine of_target hleads fun parent' _ hparent' => ?_
      cases hparent.symm.trans hparent'
      exact Or.inr ⟨fault, hmake⟩
    · exact .littered hleads hfree hparent hholds (Or.inr ⟨fault, hmake⟩) hsame hgrown hgained

end Skipped

namespace Generation

/-- An entry that cannot be written leaves the files as it found them; one that is written is noted. -/
theorem writeTarget_outcome (r : Renderer) (e : Entry) (source target : Path) (fs : FileSystem)
    (s : Run) :
    Triple (fun s' => s'.files = fs ∧ s'.written = s.written) (writeTarget r e source target)
      (fun result s' => result = some target ∧ s'.written = s.written ++ [⟨source, target⟩])
      (fun s' => s'.files = fs ∧ s'.written = s.written) := by
  have hquiet {α : Type} {x : Attempt Run α} (hx : Quiet x) :=
    hx.triple (P := fun files w => files = fs ∧ w = s.written)
  have hwrite {x : FileStep Unit} (hx : Triple (· = fs) x (fun _ _ => True) (· = fs)) :
      Triple (fun s' => s'.files = fs ∧ s'.written = s.written) (Run.onFiles x)
        (fun _ s' => s'.written = s.written) (fun s' => s'.files = fs ∧ s'.written = s.written) :=
    (Run.onFiles_triple hx s.written).mono (fun _ h => h) (fun _ _ h => h.2) fun _ h => h
  have hentry : Triple (fun s' => s'.files = fs ∧ s'.written = s.written)
      (writeEntry r e.raw source target) (fun _ s' => s'.written = s.written)
      (fun s' => s'.files = fs ∧ s'.written = s.written) := by
    unfold writeEntry
    refine Triple.ite (fun _ => ?_) fun _ => ?_
    · refine (hquiet (Quiet.say _ _)).bind fun _ => hwrite ?_
      exact (FileSystem.copy_triple fs source target).mono (fun _ h => h) (fun _ _ _ => trivial)
        fun _ h => h
    · refine (hquiet (Quiet.say _ _)).bind fun _ => (hquiet (Quiet.expandSource r source)).bind
        fun rendered => (hquiet (Quiet.detail _)).bind fun _ => hwrite ?_
      exact (FileSystem.write_triple fs target _).mono (fun _ h => h) (fun _ _ _ => trivial)
        fun _ h => h
  unfold writeTarget
  refine hentry.bind fun _ s' hs' => ?_
  exact ⟨rfl, congrArg (· ++ [_]) hs'⟩

/-- Filling a free target either writes it or leaves its entry out. -/
theorem skipped_of_fillTarget {source target : Path} {expansion : Expansion}
    {result : Except Failure (Option Path)}
    (hleads : e.Leads r t base s source target) (hfree : s.files.has target = false)
    (h : (fillTarget r e source target).outcome { s with expansion } = (result, s'))
    (hwritten : s'.written = s.written) : Skipped r t base e s s'.files := by
  -- what is left of writing the target, once the directories are made
  have hrest {made : FileSystem} (hskipped : Skipped r t base e s made)
      (h : (writeTarget r e source target).outcome { s with expansion, files := made } = (result, s')) :
      Skipped r t base e s s'.files := by
    have hrun := (writeTarget_outcome r e source target made s).at_outcome
      (s := { s with expansion, files := made }) ⟨rfl, rfl⟩
    rw [h] at hrun
    cases result with
    | ok _ => simp [hwritten] at hrun
    | error _ => exact hrun.1 ▸ hskipped
  unfold fillTarget at h
  split at h
  · next parent hparent =>
    rw [Attempt.outcome_bind, Run.outcome_onFiles] at h
    have hmade := Skipped.of_createDirectories hleads hfree hparent s.files rfl
    dsimp only at h
    split at hmade
    · next made hmake =>
      rw [hmake] at h
      exact hrest hmade h
    · next fault made hmake =>
      rw [hmake] at h
      cases h
      exact hmade
  · next hparent =>
    refine hrest (Skipped.of_target hleads fun parent _ hparent' => ?_) h
    rw [hparent] at hparent'
    cases hparent'

/-- Making the file of an entry notes it, or leaves the entry out. -/
theorem skipped_of_makeEntry {result : Except Failure (Option Path)}
    (h : (makeEntry r t base e).outcome s = (result, s')) (hwritten : s'.written = s.written) :
    Skipped r t base e s s'.files := by
  have hnowhere (h : ∀ source target, ¬ e.Leads r t base s source target) :
      Skipped r t base e s s.files :=
    .untouched fun source target _ hleads => absurd hleads (h source target)
  unfold makeEntry makeFrom at h
  rw [Attempt.outcome_bind] at h
  have hfiles : Run.currentFiles.outcome s = (.ok s.files, s) := rfl
  rw [hfiles] at h
  dsimp only at h
  rw [Attempt.outcome_bind, Run.outcome_expanding] at h
  cases hsource : (e.resolveSource s.files r t).outcome s.expansion with
  | mk found after =>
  rw [hsource] at h
  cases found with
  | error failure =>
    -- no source was found, so the entry leads nowhere
    cases h
    refine hnowhere fun source target hleads => ?_
    obtain ⟨_, _, _, hfound, -⟩ := hleads
    cases hsource.symm.trans hfound
  | ok source =>
  dsimp only at h
  rw [Attempt.outcome_bind, Run.outcome_expanding] at h
  dsimp only at h
  cases hrelative : (e.resolveDestination r t).outcome after with
  | mk led last =>
  rw [hrelative] at h
  cases led with
  | error failure =>
    -- there is a source, but no target
    cases h
    refine hnowhere fun source target hleads => ?_
    obtain ⟨_, _, _, hfound, hled, -⟩ := hleads
    cases hsource.symm.trans hfound
    cases hrelative.symm.trans hled
  | ok relative =>
  have hleads : e.Leads r t base s source (base.join ⟨relative⟩) :=
    ⟨relative, after, last, hsource, hrelative, rfl⟩
  dsimp only at h
  rw [Attempt.outcome_bind] at h
  have hnow : Run.currentFiles.outcome { s with expansion := last } =
    (.ok s.files, { s with expansion := last }) := rfl
  rw [hnow] at h
  dsimp only at h
  split at h
  · next hhas =>
    rw [Attempt.outcome_bind, Run.outcome_sayAt_warning] at h
    cases h
    -- a target that is taken is left alone, with all that is above it
    refine Skipped.of_target hleads fun parent hfree _ => ?_
    rw [hhas] at hfree
    cases hfree
  · next hfree =>
    exact skipped_of_fillTarget hleads (by simpa using hfree) h hwritten

/-- What is done for an entry whose file is not made leaves the entry out. -/
theorem skipped_of_addEntry (r : Renderer) (t : Template) (base : Path) (kind : String) (e : Entry)
    (s : Run) : Triple (· = s) (addEntry r t base kind e)
      (fun _ s' => s'.written = s.written → Skipped r t base e s s'.files)
      (fun s' => s'.written = s.written → Skipped r t base e s s'.files) := by
  refine addEntry_keeps (P := fun fs written => written = s.written → Skipped r t base e s fs) kind ?_
  intro start hstart
  subst hstart
  have hmake : ((makeEntry r t base e).outcome start).2.written = start.written →
      Skipped r t base e start ((makeEntry r t base e).outcome start).2.files :=
    skipped_of_makeEntry rfl
  unfold Attempt.outcome at hmake
  split
  · next h => rwa [h] at hmake
  · next h => rwa [h] at hmake

/-- What is done for an entry that is taken up: its file is made, or it is left out. -/
def Settled (r : Renderer) (t : Template) (base : Path) (e : Entry) (s s' : Run) : Prop :=
  Filed r t base e s s' ∧ (s'.written = s.written → Skipped r t base e s s'.files)

/-- A generation takes its entries up one after the other, and each is written or left out. -/
theorem settled_of_addEntries {tasks : List (String × Entry)} (hb : base.isRooted = true)
    (hbase : s.files.Passes [] base.moves)
    (h : (tasks.forM fun task => addEntry r t base task.1 task.2).outcome s = (.ok ⟨⟩, s')) :
    Linked (Settled r t base) (tasks.map (·.2)) s s' := by
  refine ((Linked.of_forM h).mono_kept (I := fun s => s.files.Passes [] base.moves) hbase
    fun task _ s₁ s₂ hbase hrun => ?_).1.of_map
  have hfiled := (addEntry_filed r t task.1 task.2 hb hbase).of_outcome rfl hrun
  exact ⟨⟨hfiled, (skipped_of_addEntry r t base task.1 task.2 s₁).of_outcome rfl hrun⟩,
    hbase.mono hfiled.retains⟩

/-- No entry halts a lenient generation. -/
theorem exists_turned (r : Renderer) (t : Template) (base : Path) (tasks : List (String × Entry))
    (hs : s.expansion.journal.Lenient) :
    ∃ turned, (tasks.forM fun task => addEntry r t base task.1 task.2).outcome s = (.ok ⟨⟩, turned) := by
  have hentry (task : String × Entry) : Matched (Comparison.alone Journal.Lenient).ofRuns
      (Halting IsReported) (addEntry r t base task.1 task.2) :=
    matched_addEntry Journal.spoken_lenient r t base _ _
  have hmatched := Matched.forM hentry tasks
  obtain ⟨_, turned, hturned, -⟩ := hmatched.outcome_lenient hs
  exact ⟨turned, hturned⟩

/-- What follows the entries does no more to the files than saving the solution. -/
theorem closing_files (q : GenerationRequest) (s : Run) :
    ((closing q).outcome s).2.files = s.files ∨
      ∃ path ∈ q.solution, Solution.Saves path s.files ((closing q).outcome s).2.files := by
  unfold closing
  cases hsolution : q.solution with
  | none => exact Or.inl rfl
  | some path =>
    have hsave (full : Solution) (hfull : full.path = path) :
        Triple (· = s.files) full.save (fun _ => Solution.Saves path s.files)
          (Solution.Saves path s.files) :=
      hfull ▸ full.save_saves.mono (fun _ h => h ▸ Grown.refl _) (fun _ _ h => h) fun _ h => h
    have hstay : Solution.Saves path s.files s.files := ⟨_, Grown.refl _, Or.inl rfl⟩
    have hfiles : Triple (fun s' : Run => s'.files = s.files ∧ s'.written = s.written) _ _ _ :=
      trySolution_triple hsave hstay s.projects
    exact Or.inr ⟨path, rfl, (hfiles.after ⟨rfl, rfl⟩).1⟩

end Generation

/-- A lenient generation that can make its destination takes up all entries. Each of them is written, or
it is left out and leaves at most directories that were missing above its target. -/
theorem generate_settles (t : Template) (settings : Settings) (year : Nat) (q : GenerationRequest)
    (files : FileSystem) (guids : GuidSource) :
    let lenient := { settings with strict := false }
    let opened := (Generation.opening t lenient q).outcome (Run.start files guids lenient)
    let last := (generate t lenient year q files guids).2
    (∃ failure, opened.1 = .error failure ∧ last.files = opened.2.files) ∨
      ∃ base turned, opened.1 = .ok base ∧
        Linked (Generation.Settled (Generation.renderer t lenient year q) t base)
          (t.projects.flatMap Project.entries) opened.2 turned ∧
        (last.files = turned.files ∨ ∃ path ∈ q.solution, Solution.Saves path turned.files last.files) := by
  intro lenient opened last
  have hlast : last.files =
      ((Generation.steps t lenient year q).outcome (Run.start files guids lenient)).2.files :=
    Run.files_finish rfl
  rw [hlast, Generation.steps_eq_opening, Attempt.outcome_bind]
  cases hopening : (Generation.opening t lenient q).outcome (Run.start files guids lenient) with
  | mk result begun =>
  have hopened : opened = (result, begun) := hopening
  rw [hopened]
  cases result with
  | error failure => exact Or.inl ⟨failure, rfl, rfl⟩
  | ok base =>
  refine Or.inr ⟨base, ?_⟩
  obtain ⟨habsolute, hpasses, -⟩ := (Generation.opening_triple files).of_outcome rfl hopening
  -- the opening leaves the journal lenient, so no entry halts the loop
  have hlenient := ((Generation.matched_opening Journal.spoken_lenient t lenient q).outcome_alone
    (Journal.Lenient.start files guids settings)).1
  rw [hopening] at hlenient
  obtain ⟨turned, hloop⟩ := Generation.exists_turned (Generation.renderer t lenient year q) t base
    (Generation.tasks t.projects) hlenient
  dsimp only
  rw [Attempt.outcome_bind, hloop]
  refine ⟨turned, rfl, ?_, Generation.closing_files q turned⟩
  rw [← Generation.map_tasks]
  exact Generation.settled_of_addEntries (Generation.isRooted_absolute habsolute) hpasses hloop

/-- Two entries, one below a directory and one with that directory for its target. The first cannot be
expanded and is left out, but the directory stays, and so the second is left out as well; it would have
been written from where the first one started. -/
theorem generate_litters :
    let files : FileSystem := ⟨.directory [("work", .directory [
      ("a.txt", .file "abc \x7b\x7bx".toUTF8), ("b.txt", .file "b".toUTF8)])], ["work"]⟩
    let q : GenerationRequest := ⟨⟨"out"⟩, none, [], .cSharp⟩
    ∃ (t : Template) (first second : Entry) (begun after : Run),
      ((Template.parse files ⟨"/work/t.xml"⟩ ("<Template><Project src=\"a.txt\" dst=\"sub/a.txt\">" ++
        "<File src=\"b.txt\" dst=\"sub\"/></Project></Template>")).outcome {}).1.toOption = some t ∧
      t.projects.flatMap Project.entries = [first, second] ∧
      begun = ((Generation.opening t {} q).outcome (Run.start files ⟨0, 0⟩ {})).2 ∧
      (let attempt := Generation.tryEntry (Generation.renderer t {} 2031 q) t ⟨"/work/out"⟩
      after = ((attempt first).outcome begun).2 ∧
        ((attempt first).outcome begun).1.toOption = some none ∧
        begun.files.at? ["work", "out", "sub"] = none ∧
        after.files.at? ["work", "out", "sub"] = some none ∧
        ((attempt second).outcome begun).1.toOption = some (some ⟨"/work/out/sub"⟩) ∧
        ((attempt second).outcome after).1.toOption = some none) ∧
      (generate t {} 2031 q files ⟨0, 0⟩).1.outcome = .incomplete ∧
      (generate t {} 2031 q files ⟨0, 0⟩).1.written = [] := by
  intro files q
  let first : Entry := ⟨"a.txt", ["/work/a.txt"], "sub/a.txt", false, ⟨1, 11⟩⟩
  let second : Entry := ⟨"b.txt", ["/work/b.txt"], "sub", false, ⟨1, 48⟩⟩
  let t : Template := ⟨⟨"/work/t.xml"⟩, none, none, none, none, [⟨"/work"⟩],
    ⟨[⟨"_sourceExt", some "Extension of source files.", "cs", none, .string, true⟩]⟩,
    [⟨first, [second]⟩]⟩
  let begun := ((Generation.opening t {} q).outcome (Run.start files ⟨0, 0⟩ {})).2
  refine ⟨t, first, second, begun, ((Generation.tryEntry (Generation.renderer t {} 2031 q) t
    ⟨"/work/out"⟩ first).outcome begun).2, ?_, rfl, rfl, ⟨rfl, ?_⟩, ?_⟩
  · decide +kernel
  · decide +kernel
  · decide +kernel

end Stencil
