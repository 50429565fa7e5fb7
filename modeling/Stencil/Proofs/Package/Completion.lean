import Stencil.Proofs.Generation.Course
import Stencil.Proofs.Package.Filling

namespace Stencil

open FileSystem (Grown Retains createDirectories)

variable {files : FileSystem} {names : List String} {output : Path} {entries : PackageEntries}

namespace Package

/-- What is known of a layout that is planned: it is proper, and the names lead to a file of it. -/
def Holds (entries : PackageEntries) (names : List String) : Prop :=
  PackageEntries.ProperFrom entries ∧ ∃ file, (names, file) ∈ entries.files

theorem layOut_triple (fs : FileSystem) (r : Renderer) (t : Template) (e : Entry)
    (hproper : PackageEntries.ProperFrom entries) :
    Triple (fun _ => True) (layOut fs r t entries e)
      (fun laid _ => PackageEntries.ProperFrom laid.1 ∧ entries.files ⊆ laid.1.files ∧
        ∀ names, laid.2 = some names → Holds laid.1 names)
      (fun _ => True) := by
  unfold layOut
  refine (Triple.trivial _ _).bind fun found => ?_
  split
  · exact Triple.pure fun _ _ => ⟨hproper, List.Subset.refl _, nofun⟩
  · next source relative =>
    split
    · next grown found hinsert =>
      obtain ⟨hgrown, hkept, hmem⟩ := PackageEntries.insert_eq_ok hinsert hproper
      refine Triple.pure fun _ _ => ⟨hgrown, hkept, fun names hnames => ?_⟩
      obtain rfl := Option.some.inj hnames
      exact ⟨hgrown, _, hmem⟩
    · refine (Triple.trivial _ _).bind fun _ => ?_
      exact Triple.pure fun _ _ => ⟨hproper, List.Subset.refl _, nofun⟩

/-- A layout that is handed on holds the project file. -/
theorem layOutProject_triple (fs : FileSystem) (r : Renderer) (t : Template) (p : Project) :
    Triple (fun _ => True) (layOutProject fs r t p) (fun laid _ => Holds laid.1 laid.2)
      (fun _ => True) := by
  unfold layOutProject
  have hnone : PackageEntries.ProperFrom [] := trivial
  refine (layOut_triple fs r t p.entry hnone).bind fun found => ?_
  obtain ⟨entries, place⟩ := found
  cases place with
  | none => exact fun _ _ => trivial
  | some names =>
    refine Triple.bind (Q := fun full _ => Holds full names) ?_ fun full => ?_
    · intro s hs
      have hstart := hs.2.2 names rfl
      refine Triple.foldlM (I := fun full _ => Holds full names) (E := fun _ => True)
        (fun full e _ => ?_) entries s hstart
      intro s' hfull
      refine ((layOut_triple fs r t e hfull.1).bind fun laid => ?_) s' trivial
      refine Triple.pure fun _ hlaid => ⟨hlaid.1, ?_⟩
      obtain ⟨file, hmem⟩ := hfull.2
      exact ⟨file, hlaid.2.1 hmem⟩
    · exact Triple.pure fun _ h => h

theorem quiet_plan (t : Template) (settings : Settings) (year : Nat) (q : ExportRequest) :
    Quiet (plan t settings year q) := by
  have hdestination : Quiet (Run.destination settings q.output) := by
    intro s
    rw [Run.outcome_destination]
    exact ⟨rfl, rfl⟩
  have honly : Quiet (onlyProject t) := by
    unfold onlyProject
    split
    · exact Quiet.pure _
    · exact Quiet.expanding _
    · exact Quiet.expanding _
  unfold plan
  refine hdestination.bind fun output => (Quiet.expanding _).bind fun _ => ?_
  refine (Quiet.detail _).bind fun _ => honly.bind fun project => ?_
  refine Quiet.currentFiles.bind fun files => (Quiet.expanding _).bind fun laid => ?_
  exact Quiet.pure _

/-- A plan is for the output that was asked for, and its layout holds the project file. -/
theorem plan_triple (files : FileSystem) (t : Template) (settings : Settings) (year : Nat)
    (q : ExportRequest) : Triple (fun s => s.files = files) (plan t settings year q)
      (fun p _ => q.output.absolute? files.workingPath = some p.1 ∧ Holds p.2.1 p.2.2)
      (fun _ => True) := by
  unfold plan
  intro s hs
  refine (((Generation.destination_triple files s.written settings q.output).mono_error
    fun _ _ => trivial).bind fun output => Triple.of_and fun habsolute => ?_) s ⟨hs, rfl⟩
  refine (Triple.trivial _ _).bind fun _ => (Triple.trivial _ _).bind fun _ => ?_
  refine (Triple.trivial _ _).bind fun project => (Triple.trivial _ _).bind fun fs => ?_
  refine ((Run.expanding_triple (P := fun _ _ => True)
    (layOutProject_triple fs (renderer t settings year q) t project)).mono_error
      fun _ h => h).bind fun laid => ?_
  exact Triple.pure fun _ h => ⟨habsolute, h.2⟩

/-- Planning keeps a run lenient. -/
theorem lenient_plan (t : Template) (settings : Settings) (year : Nat) (q : ExportRequest) {s : Run}
    (hs : s.expansion.journal.Lenient) :
    ((plan t settings year q).outcome s).2.expansion.journal.Lenient := by
  have hspoken : Spoken (Comparison.alone Journal.Lenient) fun e => e.isRecorded = true :=
    Journal.spoken_lenient.mono Journal.spoken_lenient.recorded fun _ h => h
  exact ((matched_plan hspoken t Journal.lenient_fatal settings year q).outcome_alone hs).1

/-- How a lenient export ends: without a plan, with its output half made, or with its output filled
as far as the layout fits. -/
inductive LenientEnd (plan : Except Failure Plan) (files : FileSystem) :
    Except Failure Unit × Run → Prop
  | unplanned {e : Failure} {last : Run} (hplan : plan = .error e) (hfiles : last.files = files)
    (hwritten : last.written = []) : LenientEnd plan files (.error e, last)
  | unmade {p : Plan} {fault : FileFault} {last : Run} (hplan : plan = .ok p)
    (hmake : createDirectories (p.1.join (pathOfNames [])) files = .error fault last.files)
    (hwritten : last.written = []) : LenientEnd plan files (.error (.file fault), last)
  | filled {p : Plan} {made : FileSystem} {result : Except Failure Unit} {last : Run}
    (hplan : plan = .ok p) (hrooted : p.1.isRooted = true)
    (hmake : createDirectories (p.1.join (pathOfNames [])) files = .ok () made)
    (hfits : result = .ok () ↔ Fits made p.1 p.2.1) (hretains : Retains made last.files) :
    LenientEnd plan files (result, last)

theorem lenientEnd_steps (t : Template) (settings : Settings) (year : Nat) (q : ExportRequest)
    {s : Run} (hs : s.expansion.journal.Lenient) (hwritten : s.written = []) :
    LenientEnd ((plan t settings year q).outcome s).1 s.files
      ((steps t settings year q).outcome s) := by
  have hlenient := lenient_plan t settings year q hs
  -- a plan touches no file, so a run that fails in it leaves all as it was
  obtain ⟨hfiles, hnothing⟩ := quiet_plan t settings year q s
  have hplanned := plan_triple s.files t settings year q
  rw [steps_eq, Attempt.outcome_bind]
  generalize hplan : (plan t settings year q).outcome s = left at hlenient hfiles hnothing
  obtain ⟨result, s'⟩ := left
  cases result with
  | error e => exact .unplanned rfl hfiles (hnothing.trans hwritten)
  | ok p =>
    obtain ⟨output, entries, names⟩ := p
    obtain ⟨habsolute, hproper, file, hproject⟩ := hplanned.of_outcome rfl hplan
    have hrooted : output.isRooted = true := Generation.isRooted_absolute habsolute
    have hlookup := PackageEntries.exists_lookup hproject
    simp only at hfiles
    simp only
    rw [writeOut_eq, Attempt.outcome_bind, Run.outcome_onFiles, hfiles]
    have hmade := FileSystem.createDirectories_triple s.files (output.join (pathOfNames [])) s.files
      (Grown.refl s.files)
    cases hmake : createDirectories (output.join (pathOfNames [])) s.files with
    | error fault made => exact .unmade rfl hmake (hnothing.trans hwritten)
    | ok _ made =>
      rw [hmake] at hmade
      have hfill : (∃ t', (fill t (renderer t settings year q) q.language
          (output, entries, names)).outcome { s' with files := made } = (.ok (), t')) ↔
            Fits made output entries :=
        fill_ok_iff hrooted hproper hlookup hlenient hmade.2
      have hretains : Retains made ((fill t (renderer t settings year q) q.language
          (output, entries, names)).outcome { s' with files := made }).2.files :=
        ((fill_triple t (renderer t settings year q) q.language output entries names).mono
          (fun _ h => h) (fun _ _ h => h.1) fun _ h => h).after (Retains.refl made)
      simp only
      generalize (fill t (renderer t settings year q) q.language (output, entries, names)).outcome
        { s' with files := made } = left at hfill hretains
      obtain ⟨result, last⟩ := left
      refine .filled rfl hrooted hmake (hfill.symm.trans ?_).symm hretains
      constructor
      · rintro ⟨t', h⟩
        exact (Prod.mk.inj h).1
      · rintro rfl
        exact ⟨last, rfl⟩

/-- The output of a plan can be made, and the layout fits into it. -/
def Lays (files : FileSystem) (p : Plan) : Prop :=
  ∃ made, createDirectories (p.1.join (pathOfNames [])) files = .ok () made ∧ Fits made p.1 p.2.1

/-- If the export is fatal, it has written nothing and left the files as they were. -/
def Traceless (files : FileSystem) (run : Report × Run) : Prop :=
  run.1.outcome = .fatal → run.1.written = [] ∧ run.2.files = files

/-- What a lenient export leaves that has a plan. -/
structure Completion (p : Plan) (files : FileSystem) (run : Report × Run) : Prop where
  fatal_iff : run.1.outcome = .fatal ↔ ¬ Lays files p
  unmade : ∀ fault made, createDirectories (p.1.join (pathOfNames [])) files = .error fault made →
    run.1.written = [] ∧ run.2.files = made
  kept : ∀ made, createDirectories (p.1.join (pathOfNames [])) files = .ok () made →
    Retains made run.2.files
  traceless_iff : files.at? (p.1.placeFrom []) = none → (Traceless files run ↔ Lays files p ∨
    ∃ fault, createDirectories (p.1.join (pathOfNames [])) files = .error fault files)

/-- Making an output that was missing leaves it. -/
theorem at?_of_createDirectories {made : FileSystem} (hrooted : output.isRooted = true)
    (hfree : files.at? (output.placeFrom []) = none)
    (hmake : createDirectories (output.join (pathOfNames [])) files = .ok () made) :
    made.at? (output.placeFrom []) = some none := by
  have hjoin := Path.isRooted_join hrooted (pathOfNames [])
  have hmoves : (output.join (pathOfNames [])).moves = output.moves := by
    rw [Path.moves_join output (by decide), show (pathOfNames []).moves = [] from rfl,
      List.append_nil]
  have hmade := FileSystem.createDirectories_triple files (output.join (pathOfNames [])) files
    (Grown.refl files)
  rw [hmake] at hmade
  have hdir := hmade.2 <| not_or.mpr ⟨Path.text_ne_empty hjoin, fun hparent => ?_⟩
  · have hopens := (FileSystem.opens_of_isDirectory hjoin hdir).of_join hrooted
    rw [← hopens.base_eq]
    exact hopens.directory
  · -- the root is never missing
    have hnil := Path.moves_eq_nil_of_parent (Option.isNone_iff_eq_none.mp hparent)
    rw [Path.placeFrom_eq, hrooted, ← hmoves, hnil] at hfree
    cases hfree

section

variable {p : Plan} {run : Report × Run}

theorem Completion.of_unmade {fault : FileFault}
    (hmake : createDirectories (p.1.join (pathOfNames [])) files = .error fault run.2.files)
    (hfatal : run.1.outcome = .fatal) (hwritten : run.1.written = []) : Completion p files run := by
  have hnone : ¬ Lays files p := by
    rintro ⟨made, hok, -⟩
    cases hmake.symm.trans hok
  refine ⟨iff_of_true hfatal hnone, fun fault' made hmake' => ?_, fun made hok => ?_, fun _ => ?_⟩
  · obtain ⟨-, rfl⟩ := EStateM.Result.error.inj (hmake.symm.trans hmake')
    exact ⟨hwritten, rfl⟩
  · cases hmake.symm.trans hok
  · constructor
    · intro htraceless
      obtain ⟨-, hsame⟩ := htraceless hfatal
      rw [hsame] at hmake
      exact Or.inr ⟨fault, hmake⟩
    · rintro (hlays | ⟨fault', hmake'⟩) _
      · exact absurd hlays hnone
      · exact ⟨hwritten, (EStateM.Result.error.inj (hmake.symm.trans hmake')).2⟩

theorem Completion.of_made {made : FileSystem} (hrooted : p.1.isRooted = true)
    (hmake : createDirectories (p.1.join (pathOfNames [])) files = .ok () made)
    (hfatal : run.1.outcome = .fatal ↔ ¬ Fits made p.1 p.2.1) (hretains : Retains made run.2.files) :
    Completion p files run := by
  have hlays : Lays files p ↔ Fits made p.1 p.2.1 := by
    constructor
    · rintro ⟨made', hmake', h⟩
      cases hmake.symm.trans hmake'
      exact h
    · exact fun h => ⟨made, hmake, h⟩
  refine ⟨hfatal.trans (not_congr hlays.symm), fun fault made' hmake' => ?_, fun made' hmake' => ?_,
    fun hfree => ?_⟩
  · cases hmake.symm.trans hmake'
  · cases hmake.symm.trans hmake'
    exact hretains
  · constructor
    · intro htraceless
      by_contra hnot
      obtain ⟨hopen, -⟩ := not_or.mp hnot
      -- the output was missing, and was made
      obtain ⟨-, hsame⟩ := htraceless (hfatal.mpr fun h => hopen (hlays.mpr h))
      have hthere := hretains.directory _ (at?_of_createDirectories hrooted hfree hmake)
      rw [hsame, hfree] at hthere
      cases hthere
    · rintro (h | ⟨fault, hmake'⟩) hends
      · exact absurd (hlays.mp h) (hfatal.mp hends)
      · cases hmake.symm.trans hmake'

end

end Package

/-- A lenient export without a plan is fatal and has touched nothing. With a plan it is fatal exactly
if its output cannot be made or the layout does not fit into it, and an output that was made stays. -/
theorem completion_exportPackage (t : Template) (settings : Settings) (year : Nat)
    (q : ExportRequest) (files : FileSystem) (guids : GuidSource) :
    let run := exportPackage t { settings with strict := false } year q files guids
    match ((Package.plan t { settings with strict := false } year q).outcome
      (Run.start files guids { settings with strict := false })).1 with
    | .error _ => run.1.outcome = .fatal ∧ run.1.written = [] ∧ run.2.files = files
    | .ok p => Package.Completion p files run := by
  have hend := Package.lenientEnd_steps t { settings with strict := false } year q
    (Journal.Lenient.start files guids settings) rfl
  unfold exportPackage
  rw [Run.finish_eq]
  generalize ((Package.plan t { settings with strict := false } year q).outcome
    (Run.start files guids { settings with strict := false })).1 = plan at hend
  generalize (Package.steps t { settings with strict := false } year q).outcome
    (Run.start files guids { settings with strict := false }) = left at hend
  cases hend with
  | unplanned hplan hfiles hwritten =>
    subst hplan
    exact ⟨rfl, hwritten, hfiles⟩
  | unmade hplan hmake hwritten =>
    subst hplan
    exact Package.Completion.of_unmade hmake rfl hwritten
  | @filled p made result last hplan hrooted hmake hfits hretains =>
    subst hplan
    refine Package.Completion.of_made hrooted hmake ?_ hretains
    rw [Journal.close_fatal_iff, ← hfits]
    cases result <;> simp

/-- A layout with a directory in the place of the descriptor: the export is fatal, and its output is
there with a file in it. -/
theorem exportPackage_leaves_output :
    ∃ (files : FileSystem) (t : Template) (run : Report × Run),
      files = ⟨.directory [("work", .directory [("a.txt", .file "a".toUTF8)])], ["work"]⟩ ∧
      ((Template.parse files ⟨"/work/t.xml"⟩
        "<Template><Project src=\"a.txt\" dst=\"template.vstemplate/a.txt\"/></Template>").outcome
          {}).1.toOption = some t ∧
      exportPackage t {} 2031 ⟨⟨"out"⟩, [], .cSharp⟩ files ⟨0, 0⟩ = run ∧
      run.1.outcome = .fatal ∧ run.1.written ≠ [] ∧
      files.at? ["work", "out"] = none ∧ run.2.files.at? ["work", "out"] = some none := by
  let files : FileSystem := ⟨.directory [("work", .directory [("a.txt", .file "a".toUTF8)])], ["work"]⟩
  let t : Template := ⟨⟨"/work/t.xml"⟩, none, none, none, none, [⟨"/work"⟩],
    ⟨[⟨"_sourceExt", some "Extension of source files.", "cs", none, .string, true⟩]⟩,
    [⟨⟨"a.txt", ["/work/a.txt"], "template.vstemplate/a.txt", false, ⟨1, 11⟩⟩, []⟩]⟩
  refine ⟨files, t, _, rfl, ?_, rfl, ?_⟩
  · decide +kernel
  · decide +kernel

end Stencil
