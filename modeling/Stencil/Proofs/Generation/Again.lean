import Stencil.Proofs.Generation.Completion
import Stencil.Proofs.Generation.Resting
import Stencil.Proofs.Lookup
import Stencil.Proofs.Picking

namespace Stencil

open FileSystem (Grown Retains Wrote)
open Expansion (Fixed)

variable {P : Diagnostic → Bool} {t : Template} {settings : Settings} {year : Nat}
  {q : GenerationRequest} {files fs fs' : FileSystem} {r : Renderer} {base : Path} {e : Entry}
  {s s' : Run}

/-- The warning that something is found at the target of an entry. -/
def existsRemark (t : Template) (e : Entry) (target : Path) : Diagnostic :=
  ⟨.warning, s!"Tried to render file to '{target.text}', but file exists. " ++
    "Check the template file for duplicate dst attributes.", some ⟨t.path, e.position⟩⟩

/-- Whether a diagnostic is such a warning. -/
def Diagnostic.tellsOfFile (d : Diagnostic) : Bool :=
  d.level = .warning && "Tried to render file to '".toList.isPrefixOf d.message.toList

theorem existsRemark_tellsOfFile (t : Template) (e : Entry) (target : Path) :
    (existsRemark t e target).tellsOfFile = true := by
  have hfront : "Tried to render file to '".toList <+:
      (existsRemark t e target).message.toList := by
    simp only [existsRemark, String.toList_append, List.append_assoc]
    exact List.prefix_append _ _
  unfold Diagnostic.tellsOfFile
  rw [List.isPrefixOf_iff_prefix.mpr hfront]
  rfl

/-- Expanding texts gives no such warning: those it gives start with other letters. -/
theorem Diagnostic.OfText.not_tellsOfFile (d : Diagnostic) (h : d.OfText) : d.tellsOfFile = false :=
  h.not_starting (c := 'T') rfl (by decide)

namespace Generation

/-- Making the file of an entry comes to its end with a remark, or with the target filled. -/
theorem makeEntry_eq_ok {result : Option Path}
    (h : (makeEntry r t base e).outcome s = (.ok result, s')) :
    ∃ source relative after last,
      (e.resolveSource s.files r t).outcome s.expansion = (.ok source, after) ∧
      (e.resolveDestination r t).outcome after = (.ok relative, last) ∧
      (s.files.has (base.join ⟨relative⟩) = true ∧ result = none ∧
          s' = ({ s with expansion := last } : Run).under
            (last.journal.publishFrom (existsRemark t e (base.join ⟨relative⟩))) ∨
        s.files.has (base.join ⟨relative⟩) = false ∧
          (fillTarget r e source (base.join ⟨relative⟩)).outcome { s with expansion := last } =
            (.ok result, s')) := by
  unfold makeEntry makeFrom at h
  obtain ⟨now, _, hnow, h⟩ := Attempt.outcome_bind_eq_ok_iff.mp h
  cases hnow
  obtain ⟨source, _, hlooked, h⟩ := Attempt.outcome_bind_eq_ok_iff.mp h
  obtain ⟨after, hsource, rfl⟩ := Run.outcome_expanding_eq_ok_iff.mp hlooked
  obtain ⟨relative, _, hled, h⟩ := Attempt.outcome_bind_eq_ok_iff.mp h
  obtain ⟨last, hrelative, rfl⟩ := Run.outcome_expanding_eq_ok_iff.mp hled
  refine ⟨source, relative, after, last, hsource, hrelative, ?_⟩
  obtain ⟨now, _, hnow, h⟩ := Attempt.outcome_bind_eq_ok_iff.mp h
  cases hnow
  by_cases hhas : s.files.has (base.join ⟨relative⟩) = true
  · rw [if_pos hhas] at h
    obtain ⟨_, told, htold, h⟩ := Attempt.outcome_bind_eq_ok_iff.mp h
    rw [Run.outcome_sayAt_warning] at htold
    cases h
    cases htold
    exact Or.inl ⟨hhas, rfl, rfl⟩
  · have hfree : s.files.has (base.join ⟨relative⟩) = false := by simpa using hhas
    rw [if_neg hhas] at h
    exact Or.inr ⟨hfree, h⟩

/-- What is filled is found, and nothing that was there is gone. -/
theorem fillTarget_triple (r : Renderer) (e : Entry) (source target : Path) (fs : FileSystem) :
    Triple (fun s => s.files = fs) (fillTarget r e source target)
      (fun _ s => Retains fs s.files ∧ s.files.has target = true) fun _ => True := by
  have hwrite (written : List WrittenFile) :
      Triple (fun s => Grown fs s.files ∧ s.written = written) (writeTarget r e source target)
        (fun _ s => Retains fs s.files ∧ s.files.has target = true) fun _ => True := by
    unfold writeTarget
    refine ((writeEntry_triple r e.raw source target).mono_error fun _ _ => trivial).bind fun _ => ?_
    rintro s ⟨⟨made, place, content, hgrown, hwrote⟩, -⟩
    exact ⟨hgrown.retains.trans hwrote.retains, FileSystem.has_iff.mpr ⟨place, hwrote.denotes⟩⟩
  have hfill (written : List WrittenFile) :
      Triple (fun s => Grown fs s.files ∧ s.written = written) (fillTarget r e source target)
        (fun _ s => Retains fs s.files ∧ s.files.has target = true) fun _ => True := by
    refine fillTarget_cases (p := fun x => Triple _ x _ _) (fun parent _ => ?_) fun _ => hwrite written
    have hmake := Run.onFiles_triple (FileSystem.createDirectories_triple fs parent) written
    refine (hmake.mono_error fun _ _ => trivial).bind fun _ => ?_
    exact (hwrite written).mono (fun _ h => ⟨h.1.1, h.2⟩) (fun _ _ h => h) fun _ h => h
  exact fun s hs => hfill s.written s ⟨hs ▸ Grown.refl _, rfl⟩

end Generation

/-- Whether an entry asks for no new identifier, neither for its source, wherever it is looked for, nor
for its destination. -/
structure Entry.Guidless (e : Entry) : Prop where
  candidates : ∀ candidate ∈ e.candidates, Renderer.Guidless candidate
  destination : Renderer.Guidless e.destination

/-- What is left of an entry that a run got past: a source for it, and something at its target. -/
structure Entry.Settled (e : Entry) (r : Renderer) (t : Template) (base : Path) (fs : FileSystem) :
    Prop where
  source : ∃ source, Expansion.Gives (e.resolveSource fs r t) source
  target : ∃ relative, Expansion.Gives (e.resolveDestination r t) relative ∧
    fs.has (base.join ⟨relative⟩) = true

/-- Where files are added, an entry still finds a source, though maybe another one. -/
theorem Entry.gives_source_mono (hguid : e.Guidless) (hr : Retains fs fs') {source : Path}
    (h : Expansion.Gives (e.resolveSource fs r t) source) :
    ∃ source', Expansion.Gives (e.resolveSource fs' r t) source' := by
  -- one strict state shows what is given in all of them
  let before : Expansion := { journal := { strict := true }, guids := ⟨0, 0⟩ }
  obtain ⟨after, hfound, -⟩ := h before rfl
  obtain ⟨source', after', hlater⟩ := Entry.resolveSource_mono (fun _ hfile => hr.isFile hfile) hfound
  have hgives := ((Entry.fixed_resolveSource hguid.candidates).gives rfl hlater).1
  exact ⟨source', hgives⟩

theorem Entry.Settled.mono (h : e.Settled r t base fs) (hguid : e.Guidless) (hr : Retains fs fs') :
    e.Settled r t base fs' := by
  obtain ⟨source, hsource⟩ := h.source
  obtain ⟨relative, hrelative, hhas⟩ := h.target
  exact ⟨Entry.gives_source_mono hguid hr hsource, relative, hrelative, hr.has hhas⟩

namespace Generation

/-- Making the file of an entry settles the entry, also where the file exists. -/
theorem makeEntry_settles (hguid : e.Guidless) (s : Run) :
    Triple (fun s' => s'.Strict ∧ s' = s) (makeEntry r t base e)
      (fun _ s' => Retains s.files s'.files ∧ e.Settled r t base s'.files) fun _ => True := by
  refine (Triple.ran _).mono (fun _ h => h) (fun result s' h => ?_) fun _ h => h
  obtain ⟨s, ⟨hstrict, rfl⟩, hrun⟩ := h
  obtain ⟨source, relative, after, last, hsource, hrelative, hend⟩ := makeEntry_eq_ok hrun
  -- both texts expand in one way only, so what they expanded to is what they always expand to
  have hfixed : Fixed (e.resolveSource s.files r t) := Entry.fixed_resolveSource hguid.candidates
  obtain ⟨hgives, hafter⟩ := hfixed.gives hstrict hsource
  have hleads := ((Entry.fixed_resolveDestination hguid.destination).gives hafter hrelative).1
  suffices hdone : Retains s.files s'.files ∧ s'.files.has (base.join ⟨relative⟩) = true from
    ⟨hdone.1, Entry.gives_source_mono hguid hdone.1 hgives, relative, hleads, hdone.2⟩
  rcases hend with ⟨hhas, -, rfl⟩ | ⟨-, hfilled⟩
  · exact ⟨Retains.refl _, hhas⟩
  · have hfill := fillTarget_triple r e source (base.join ⟨relative⟩) s.files
    have hs : ({ s with expansion := last } : Run).files = s.files := rfl
    have hdone := hfill.of_outcome hs hfilled
    exact hdone

/-- A strict run that gets past an entry has settled it. -/
theorem addEntry_settles (hguid : e.Guidless) (kind : String) (s : Run) :
    Triple (fun s' => s'.Strict ∧ s' = s) (addEntry r t base kind e)
      (fun _ s' => s'.Strict ∧ Retains s.files s'.files ∧ e.Settled r t base s'.files)
      fun _ => True := by
  have hquiet {α : Type} {F : Failure → Prop} {x : Attempt Run α}
      (hm : Matched Journal.onwardness.ofRuns F x) (hx : Quiet x) :=
    hm.strictly ((hx.triple (P := fun now _ => Retains s.files now ∧ e.Settled r t base now)).mono_error
      fun _ _ => trivial)
  unfold addEntry
  refine ((strictly_tryEntry (makeEntry_settles hguid s)).mono (fun _ h => ⟨h.1, h⟩) (fun _ _ h => h)
    fun _ h => h).bind fun result => ?_
  split
  · exact Triple.pure fun _ h => h
  · refine (hquiet (Journal.spoken_onward.say _ _) (Quiet.say _ _)).bind fun _ => ?_
    refine Triple.ite (fun _ => ?_) fun _ => Triple.pure fun _ h => h
    exact hquiet (Matched.addProject (F := fun _ => True) _) (Quiet.addProject _)

/-- A strict run that gets past entries has settled them all. -/
theorem forM_settles {entries : List (String × Entry)} (hguid : ∀ task ∈ entries, task.2.Guidless)
    (s : Run) :
    Triple (fun s' => s'.Strict ∧ s' = s) (entries.forM fun task => addEntry r t base task.1 task.2)
      (fun _ s' => s'.Strict ∧ Retains s.files s'.files ∧
        ∀ task ∈ entries, task.2.Settled r t base s'.files) fun _ => True := by
  -- later entries only add files, so what was settled stays so
  have hround (done : List (String × Entry)) (task : String × Entry) (htask : task ∈ entries) :
      Triple (fun s' => s'.Strict ∧ Retains s.files s'.files ∧ ∀ other ∈ done,
          other ∈ entries ∧ other.2.Settled r t base s'.files) (addEntry r t base task.1 task.2)
        (fun _ s' => s'.Strict ∧ Retains s.files s'.files ∧ ∀ other ∈ done ++ [task],
          other ∈ entries ∧ other.2.Settled r t base s'.files) fun _ => True := by
    rintro s₁ ⟨hstrict, hretains, hdone⟩
    refine ((addEntry_settles (hguid task htask) task.1 s₁).mono (fun _ h => h) (fun _ s₂ h => ?_)
      fun _ h => h) s₁ ⟨hstrict, rfl⟩
    obtain ⟨hstrict₂, hmore, hsettled⟩ := h
    refine ⟨hstrict₂, hretains.trans hmore, fun other hother => ?_⟩
    rcases List.mem_append.mp hother with hbefore | hnow
    · obtain ⟨hmem, hwas⟩ := hdone other hbefore
      exact ⟨hmem, hwas.mono (hguid other hmem) hmore⟩
    · rw [List.mem_singleton.mp hnow]
      exact ⟨htask, hsettled⟩
  have hall := Triple.forM_done (I := fun done (s' : Run) => s'.Strict ∧ Retains s.files s'.files ∧
    ∀ other ∈ done, other ∈ entries ∧ other.2.Settled r t base s'.files) hround []
  refine hall.mono (fun s' h => ?_) (fun _ s' h => ?_) fun _ h => h
  · obtain ⟨hstrict, rfl⟩ := h
    exact ⟨hstrict, Retains.refl _, by simp⟩
  · exact ⟨h.1, h.2.1, fun task htask => (h.2.2 task htask).2⟩

/-- What a generation finds at its destination, and what it leaves there before it takes up its
entries. -/
structure Opened (q : GenerationRequest) (files : FileSystem) (base : Path) (fs : FileSystem) :
    Prop where
  absolute : q.destination.absolute? files.workingPath = some base
  noFile : files.isFile q.destination = false
  retains : Retains files fs
  made : ¬ (base.text = "" ∨ base.parent?.isNone = true) → fs.isDirectory base = true

theorem Opened.mono (h : Opened q files base fs) (hr : Retains fs fs') : Opened q files base fs' :=
  ⟨h.absolute, h.noFile, h.retains.trans hr, fun hne => FileSystem.isDirectory_mono hr (h.made hne)⟩

/-- An opening that succeeds has made its destination, and done nothing else to the files. -/
theorem opening_eq_ok (h : (opening t settings q).outcome s = (.ok base, s')) :
    Run.target settings q.destination s.files = .ok base ∧
      FileSystem.createDirectories base s.files = .ok () s'.files ∧ s'.written = s.written := by
  unfold opening at h
  obtain ⟨found, s₁, hdestination, h⟩ := Attempt.outcome_bind_eq_ok_iff.mp h
  obtain ⟨_, s₂, hmention, h⟩ := Attempt.outcome_bind_eq_ok_iff.mp h
  obtain ⟨_, s₃, hmake, h⟩ := Attempt.outcome_bind_eq_ok_iff.mp h
  cases h
  rw [Run.outcome_destination] at hdestination
  obtain ⟨htarget, rfl⟩ := Prod.mk.inj hdestination
  unfold Run.journaled at hmention
  obtain ⟨after, -, rfl⟩ := Run.outcome_expanding_eq_ok_iff.mp hmention
  -- a destination that cannot be made ends the run
  rw [Run.outcome_onFiles] at hmake
  split at hmake
  · next made hcreate =>
    cases hmake
    exact ⟨htarget, hcreate, rfl⟩
  · cases hmake

theorem opened_of_opening (h : (opening t settings q).outcome s = (.ok base, s')) :
    Opened q s.files base s'.files := by
  obtain ⟨htarget, hmake, -⟩ := opening_eq_ok h
  obtain ⟨hcheck, habsolute⟩ := Run.target_eq_ok_iff.mp htarget
  have hmade := FileSystem.createDirectories_triple s.files base s.files (Grown.refl _)
  rw [hmake] at hmade
  obtain ⟨hgrown, hdirectory⟩ := hmade
  refine ⟨habsolute, ?_, hgrown.retains, hdirectory⟩
  -- a destination that is a file is refused
  unfold Run.checkDestination at hcheck
  split at hcheck
  · cases hcheck
  · next hfile => simpa using hfile

/-- What was a directory or nothing is no file once the destination was made. -/
theorem Opened.noFile_later (hwork : files.workingPath.Descends files.workingDirectory)
    (h : Opened q files base fs) : fs.isFile q.destination = false := by
  rw [Bool.eq_false_iff]
  intro hfile
  have hb := isRooted_absolute h.absolute
  obtain ⟨place, hdenotes, hat⟩ := FileSystem.isFile_iff.mp hfile
  -- the destination is the place of its absolute path, also later
  have hplace : place = base.placeFrom [] := by
    rw [Path.placeFrom_absolute (isRooted_workingPath files) h.absolute, hwork.placeFrom,
      ← h.retains.workingDirectory]
    exact hdenotes.eq_placeFrom
  by_cases hstop : base.text = "" ∨ base.parent?.isNone = true
  · -- the destination is the root, and that is a file only if it always was
    have hmoves : base.moves = [] := by
      rcases hstop with hempty | hparent
      · exact absurd hempty (Path.text_ne_empty hb)
      · exact Path.moves_eq_nil_of_parent (Option.isNone_iff_eq_none.mp hparent)
    have hroot : base.placeFrom [] = [] := by
      rw [placeFrom_of_isRooted hb, hmoves]
      rfl
    rw [hplace, hroot] at hat
    have hbefore := h.retains.isFile_of_root hat hfile
    rw [h.noFile] at hbefore
    cases hbefore
  · obtain ⟨other, hother, hdir⟩ := FileSystem.isDirectory_iff.mp (h.made hstop)
    have hsame : other = place := by
      rw [hplace, hother.eq_placeFrom, placeFrom_of_isRooted hb, placeFrom_of_isRooted hb]
    obtain ⟨content, hcontent⟩ := hat
    rw [hsame, hcontent] at hdir
    cases hdir

/-- What values are ignored is only mentioned. -/
theorem outcome_mentionIgnored (t : Template) (values : List (String × String)) (s : Run) :
    ∃ log, (Run.journaled (t.mentionIgnored values)).outcome s =
      (.ok (), s.under { s.expansion.journal with log }) := by
  have hnames (names : List String) (j : Journal) : ∃ log,
      Attempt.outcome (names.forM fun name =>
        Journal.detail s!"Ignoring override for undeclared variable '{name}'") j =
          (.ok (), { j with log }) := by
    induction names generalizing j with
    | nil => exact ⟨j.log, rfl⟩
    | cons name names ih =>
      obtain ⟨log, hrest⟩ :=
        ih (j.mention .verbose s!"Ignoring override for undeclared variable '{name}'")
      exact ⟨log, Attempt.outcome_bind_eq_ok_iff.mpr ⟨(), _, rfl, hrest⟩⟩
  obtain ⟨log, hlog⟩ := hnames (t.undeclaredNames values) s.expansion.journal
  refine ⟨log, ?_⟩
  unfold Run.journaled
  rw [Run.outcome_expanding, Expansion.outcome_journaled, Template.mentionIgnored, hlog]
  rfl

/-- A step of a strict run that changes nothing, and says some things of a kind. -/
structure Tells (P : Diagnostic → Bool) (ds : List Diagnostic) (s s' : Run) : Prop where
  alike : s.Alike s'
  strict : s'.Strict
  picked : s'.expansion.journal.picked P = (s.expansion.journal.threshold,
    s.expansion.journal.records.filter P ++ s.expansion.journal.threshold.passing ds)

theorem Tells.files_eq (h : Tells P ds s s') : s'.files = s.files := by
  obtain ⟨expansion, rfl⟩ := h.alike
  rfl

theorem Tells.trans {ds more : List Diagnostic} {s₁ s₂ s₃ : Run} (h : Tells P ds s₁ s₂)
    (h' : Tells P more s₂ s₃) : Tells P (ds ++ more) s₁ s₃ := by
  obtain ⟨⟨x₂, rfl⟩, -, hpicked⟩ := h
  obtain ⟨⟨x₃, rfl⟩, hstrict, hpicked'⟩ := h'
  refine ⟨⟨x₃, rfl⟩, hstrict, ?_⟩
  obtain ⟨hthreshold, hrecords⟩ := Prod.mk.inj hpicked
  rw [hpicked', hthreshold, hrecords, Level.passing_append, List.append_assoc]

/-- The destination is found as it was left. -/
theorem opening_again (t : Template) (settings : Settings)
    (hwork : files.workingPath.Descends files.workingDirectory)
    (h : Opened q files base s.files) (hs : s.Strict) :
    ∃ s', (opening t { settings with overwrite := true } q).outcome s = (.ok base, s') ∧
      Tells P [] s s' := by
  have htarget : Run.target { settings with overwrite := true } q.destination s.files = .ok base := by
    have habsolute := h.absolute
    rw [← show s.files.workingPath = files.workingPath by
      rw [FileSystem.workingPath, FileSystem.workingPath, h.retains.workingDirectory]] at habsolute
    refine Run.target_eq_ok_iff.mpr ⟨?_, habsolute⟩
    unfold Run.checkDestination
    rw [h.noFile_later hwork]
    simp
  -- making a directory that is there changes nothing, so the run goes on from the same files
  obtain ⟨log, hmention⟩ := outcome_mentionIgnored t q.values s
  have hmake : (Run.onFiles (FileSystem.createDirectories base)).outcome
      (s.under { s.expansion.journal with log }) =
        (.ok (), s.under { s.expansion.journal with log }) := by
    have hagain : FileSystem.createDirectories base s.files = .ok () s.files :=
      FileSystem.createDirectories_again h.made
    rw [Run.outcome_onFiles, show (s.under { s.expansion.journal with log }).files = s.files from rfl,
      hagain]
    rfl
  have hrun : (opening t { settings with overwrite := true } q).outcome s =
      (.ok base, s.under { s.expansion.journal with log }) := by
    unfold opening
    refine Attempt.outcome_bind_eq_ok_iff.mpr ⟨base, s, ?_, ?_⟩
    · rw [Run.outcome_destination, htarget]
    · exact Attempt.outcome_bind_eq_ok_iff.mpr ⟨(), _, hmention,
        Attempt.outcome_bind_eq_ok_iff.mpr ⟨(), _, hmake, rfl⟩⟩
  refine ⟨_, hrun, ⟨⟨_, rfl⟩, hs, ?_⟩⟩
  rw [Level.passing, List.filter_nil, List.append_nil]
  rfl

/-- A settled entry is left alone, with a remark that its file exists. -/
theorem makeEntry_again (h : e.Settled r t base s.files) (hs : s.Strict) :
    ∃ target s', s.files.has target = true ∧
      (makeEntry r t base e).outcome s = (.ok none, s') ∧
      Tells Diagnostic.tellsOfFile [existsRemark t e target] s s' := by
  obtain ⟨source, hsource⟩ := h.source
  obtain ⟨relative, hrelative, hhas⟩ := h.target
  obtain ⟨after, hlooked, hafter⟩ := hsource s.expansion hs
  obtain ⟨last, hled, hlast⟩ := hrelative after hafter
  set remark := existsRemark t e (base.join ⟨relative⟩) with hremark
  let s' := ({ s with expansion := last } : Run).under (last.journal.publishFrom remark)
  have hrun : (makeEntry r t base e).outcome s = (.ok none, s') := by
    unfold makeEntry makeFrom
    refine Attempt.outcome_bind_eq_ok_iff.mpr ⟨s.files, s, rfl, ?_⟩
    refine Attempt.outcome_bind_eq_ok_iff.mpr
      ⟨source, _, Run.outcome_expanding_eq_ok_iff.mpr ⟨after, hlooked, rfl⟩, ?_⟩
    refine Attempt.outcome_bind_eq_ok_iff.mpr
      ⟨relative, _, Run.outcome_expanding_eq_ok_iff.mpr ⟨last, hled, rfl⟩, ?_⟩
    refine Attempt.outcome_bind_eq_ok_iff.mpr ⟨s.files, { s with expansion := last }, rfl, ?_⟩
    rw [if_pos hhas]
    exact Attempt.outcome_bind_eq_ok_iff.mpr
      ⟨(), s', Run.outcome_sayAt_warning _ _ _, rfl⟩
  have hstrict : s'.Strict :=
    (Journal.Onward.publishFrom last.journal remark).strict.trans hlast
  refine ⟨base.join ⟨relative⟩, s', hhas, hrun, ⟨_, rfl⟩, hstrict, ?_⟩
  -- expanding the two texts says nothing of the kind
  have hspares := Diagnostic.OfText.not_tellsOfFile
  have hpicked : last.journal.picked Diagnostic.tellsOfFile =
      s.expansion.journal.picked Diagnostic.tellsOfFile :=
    ((e.spares_resolveDestination hspares r t).of_outcome hled).trans
      ((e.spares_resolveSource hspares r t s.files).of_outcome hlooked)
  obtain ⟨hthreshold, hrecords⟩ := Prod.mk.inj hpicked
  have htold : (last.journal.publishFrom remark).picked Diagnostic.tellsOfFile = _ :=
    Journal.picked_publishFrom_self (existsRemark_tellsOfFile t e _)
  rw [hthreshold, hrecords] at htold
  exact htold

theorem addEntry_again (kind : String) (h : e.Settled r t base s.files) (hs : s.Strict) :
    ∃ target s', s.files.has target = true ∧
      (addEntry r t base kind e).outcome s = (.ok (), s') ∧
      Tells Diagnostic.tellsOfFile [existsRemark t e target] s s' := by
  obtain ⟨target, s', hhas, hmake, htells⟩ := makeEntry_again h hs
  refine ⟨target, s', hhas, ?_, htells⟩
  have htry : (tryEntry r t base e).outcome s = (.ok none, s') := by
    unfold tryEntry
    refine Attempt.outcome_bind_eq_ok_iff.mpr ⟨.ok none, s', ?_, rfl⟩
    rw [Attempt.outcome_caught, hmake]
  unfold addEntry
  exact Attempt.outcome_bind_eq_ok_iff.mpr ⟨none, s', htry, rfl⟩

/-- A remark for each of the entries, in their order, each about something that is there. -/
def RemarksOn (t : Template) (fs : FileSystem) (entries : List Entry) (remarks : List Diagnostic) :
    Prop :=
  List.Forall₂ (fun e d => ∃ target, fs.has target = true ∧ d = existsRemark t e target) entries
    remarks

/-- Settled entries are left alone, with a remark for each. -/
theorem forM_again {tasks : List (String × Entry)} (hs : s.Strict)
    (h : ∀ task ∈ tasks, task.2.Settled r t base s.files) :
    ∃ remarks s', (tasks.forM fun task => addEntry r t base task.1 task.2).outcome s = (.ok (), s') ∧
      Tells Diagnostic.tellsOfFile remarks s s' ∧ RemarksOn t s.files (tasks.map (·.2)) remarks := by
  induction tasks generalizing s with
  | nil =>
    refine ⟨[], s, rfl, ⟨.refl s, hs, ?_⟩, .nil⟩
    rw [Level.passing, List.filter_nil, List.append_nil]
    rfl
  | cons task tasks ih =>
    obtain ⟨target, s₁, hhas, hfirst, htells⟩ :=
      addEntry_again task.1 (h task List.mem_cons_self) hs
    -- the first remark changes no file, so the other entries are settled still
    have hsettled : ∀ other ∈ tasks, other.2.Settled r t base s₁.files := fun other hother =>
      htells.files_eq ▸ h other (List.mem_cons_of_mem _ hother)
    obtain ⟨remarks, s₂, hrest, hmore, hremarks⟩ := ih htells.strict hsettled
    refine ⟨existsRemark t task.2 target :: remarks, s₂, ?_, htells.trans hmore, ?_⟩
    · exact Attempt.outcome_bind_eq_ok_iff.mpr ⟨(), s₁, hfirst, hrest⟩
    · exact .cons ⟨target, hhas, rfl⟩ (htells.files_eq ▸ hremarks)

end Generation

/-- A generation that finds all done: nothing changes, nothing is written, and of each entry it is
said that its file exists, as far as warnings are let pass. -/
structure Repeated (t : Template) (settings : Settings) (before : FileSystem) (again : Report × Run) :
    Prop where
  files : again.2.files = before
  success : again.1.outcome = .success
  written : again.1.written = []
  projects : again.1.projects = []
  remarks : ∃ remarks, Generation.RemarksOn t before (t.projects.flatMap Project.entries) remarks ∧
    again.1.diagnostics.filter Diagnostic.tellsOfFile =
      if settings.threshold ≤ .warning then remarks else []

namespace Generation

theorem RemarksOn.warnings {entries : List Entry} {remarks : List Diagnostic}
    (h : RemarksOn t fs entries remarks) : ∀ d ∈ remarks, d.level = .warning := by
  induction h with
  | nil => simp
  | cons hfirst _ ih =>
    obtain ⟨target, -, rfl⟩ := hfirst
    exact List.forall_mem_cons.mpr ⟨rfl, ih⟩

/-- What a strict generation that comes to its end leaves behind. -/
structure Finished (t : Template) (r : Renderer) (q : GenerationRequest) (files : FileSystem)
    (last : Run) : Prop where
  entries : ∃ base, Opened q files base last.files ∧
    ∀ task ∈ tasks t.projects, task.2.Settled r t base last.files
  solution : (q.solution = none ∨ ∀ p ∈ last.projects, Solution.Nameable p) →
    ∀ path ∈ q.solution, Solution.Rests path last.files

theorem finished_of_steps (hguid : ∀ task ∈ tasks t.projects, task.2.Guidless) (hs : s.Strict)
    {last : Run} (h : (steps t settings year q).outcome s = (.ok (), last)) :
    Finished t (renderer t settings year q) q s.files last := by
  rw [steps_eq_opening] at h
  obtain ⟨base, begun, hopening, h⟩ := Attempt.outcome_bind_eq_ok_iff.mp h
  obtain ⟨_, turned, hturned, hclosing⟩ := Attempt.outcome_bind_eq_ok_iff.mp h
  have hbegun : begun.Strict := by
    have honward := opening_onward t settings q s
    rw [hopening] at honward
    exact honward.strict.trans hs
  obtain ⟨hstrict, hretains, hsettled⟩ :=
    (forM_settles hguid begun).of_outcome ⟨hbegun, rfl⟩ hturned
  -- saving the solution takes nothing away, and notes nothing
  have hclosed : Retains turned.files last.files ∧ last.projects = turned.projects ∧
      ((q.solution = none ∨ ∀ p ∈ turned.projects, Solution.Nameable p) →
        ∀ path ∈ q.solution, Solution.Rests path last.files) := by
    unfold closing at hclosing
    cases hsolution : q.solution with
    | none =>
      rw [hsolution] at hclosing
      cases hclosing
      exact ⟨Retains.refl _, rfl, by simp⟩
    | some path =>
      rw [hsolution] at hclosing
      have hrun : (trySolution path turned.projects).outcome turned = (.ok (), last) := hclosing
      have hsave (full : Solution) (hfull : full.path = path) :
          Triple (· = turned.files) full.save (fun _ => Solution.Settles path turned.files)
            (Solution.Settles path turned.files) :=
        hfull ▸ full.save_triple.mono (fun _ h => h ▸ Grown.refl _) (fun _ _ h => h) fun _ h => h
      have hsaved : Triple (fun s : Run => s.files = turned.files ∧ s.written = turned.written) _ _ _ :=
        trySolution_triple hsave (Solution.Settles.refl path turned.files) turned.projects
      have hsettles := hsaved.of_outcome ⟨rfl, rfl⟩ hrun
      have hnotes := (leaves_trySolution path turned.projects).of_outcome hrun
      refine ⟨hsettles.1.retains, congrArg (·.2.2) hnotes, fun hplain other hother => ?_⟩
      obtain rfl := Option.some.inj hother
      have hnameable := hplain.resolve_left (by simp)
      exact (trySolution_rests hnameable).of_outcome hstrict hrun
  obtain ⟨hlast, hprojects, hrests⟩ := hclosed
  have hopened := (opened_of_opening hopening).mono (hretains.trans hlast)
  refine ⟨⟨base, hopened, fun task htask => ?_⟩, fun hplain => hrests (hprojects ▸ hplain)⟩
  exact (hsettled task htask).mono (hguid task htask) hlast

/-- Where all is done a strict generation comes to its end and changes nothing. -/
theorem steps_again (hwork : files.workingPath.Descends files.workingDirectory) {last : Run}
    (h : Finished t (renderer t settings year q) q files last)
    (hplain : q.solution = none ∨ ∀ p ∈ last.projects, Solution.Nameable p)
    (hs : s.Strict) (hfiles : s.files = last.files) (hprojects : s.projects = []) :
    ∃ remarks s', (steps t { settings with overwrite := true } year q).outcome s = (.ok (), s') ∧
      Tells Diagnostic.tellsOfFile remarks s s' ∧
      RemarksOn t last.files (t.projects.flatMap Project.entries) remarks := by
  obtain ⟨base, hopened, hsettled⟩ := h.entries
  rw [← hfiles] at hopened hsettled
  obtain ⟨begun, hopening, hbegun⟩ := opening_again (P := Diagnostic.tellsOfFile) t
    settings hwork hopened hs
  obtain ⟨remarks, turned, hturned, htold, hremarks⟩ :=
    forM_again hbegun.strict fun task htask => hbegun.files_eq ▸ hsettled task htask
  have htells := hbegun.trans htold
  -- no entry was written, so the solution is saved with no project to add, as it rests
  have hclosing : (closing q).outcome turned = (.ok (), turned) := by
    unfold closing
    cases hsolution : q.solution with
    | none => rfl
    | some path =>
      have hrests : Solution.Rests path turned.files := by
        rw [htells.files_eq, hfiles]
        exact h.solution hplain path hsolution
      have hnone : turned.projects = [] := by
        obtain ⟨expansion, rfl⟩ := htells.alike
        exact hprojects
      have hagain := trySolution_again hrests
      rw [← hnone] at hagain
      exact hagain
  refine ⟨remarks, turned, ?_, htells, ?_⟩
  · rw [steps_eq_opening]
    exact Attempt.outcome_bind_eq_ok_iff.mpr ⟨base, begun, hopening,
      Attempt.outcome_bind_eq_ok_iff.mpr ⟨(), turned, hturned, hclosing⟩⟩
  · rw [map_tasks, hbegun.files_eq, hfiles] at hremarks
    exact hremarks

end Generation

/-- Generating again into what a successful generation left changes nothing: no file is written, the
solution is saved as it was, and each entry is told to exist. No entry may ask for a new identifier,
and a solution names no project with a quote or a line feed. -/
theorem generate_again (t : Template) (settings : Settings) (year : Nat) (q : GenerationRequest)
    (files : FileSystem) (guids guids' : GuidSource)
    (hwork : files.workingPath.Descends files.workingDirectory)
    (hguid : ∀ e ∈ t.projects.flatMap Project.entries, e.Guidless)
    (hsuccess : (generate t settings year q files guids).1.outcome = .success)
    (hplain : q.solution = none ∨
      ∀ p ∈ (generate t settings year q files guids).1.projects, Solution.Nameable p) :
    Repeated t settings (generate t settings year q files guids).2.files
      (generate t { settings with overwrite := true } year q
        (generate t settings year q files guids).2.files guids') := by
  have htasks : ∀ task ∈ Generation.tasks t.projects, task.2.Guidless := fun task htask =>
    hguid task.2 (Generation.map_tasks t.projects ▸ List.mem_map_of_mem htask)
  have hmatched (settings : Settings) :
      Matched (Journal.strictness settings.threshold).ofRuns (Unreported fun _ => False)
        (Generation.steps t settings year q) :=
    Generation.matched_steps Journal.spoken_strictness t settings year q
  -- the first generation is a strict one that came to its end
  obtain ⟨last, hfirst, -, hlast⟩ := Run.finish_success (hmatched settings) hsuccess
  obtain ⟨hreport, -⟩ := Run.finish_of_strict (hmatched settings) hfirst
  have hstrict : (Run.start files guids { settings with strict := true }).Strict := rfl
  have hfinished := Generation.finished_of_steps htasks hstrict hfirst
  have hnamed : q.solution = none ∨ ∀ p ∈ last.projects, Solution.Nameable p := by
    rwa [generate, hreport] at hplain
  have hleft : (generate t settings year q files guids).2.files = last.files := hlast
  rw [hleft]
  -- so is the second one, which shows what it reports
  obtain ⟨remarks, s', hagain, htells, hremarks⟩ := Generation.steps_again hwork hfinished hnamed
    (s := Run.start last.files guids' { settings with overwrite := true, strict := true }) rfl rfl rfl
  obtain ⟨hreport', hfiles'⟩ :=
    Run.finish_of_strict (hmatched { settings with overwrite := true }) hagain
  obtain ⟨expansion, rfl⟩ := htells.alike
  refine ⟨hfiles', congrArg Report.outcome hreport', congrArg Report.written hreport',
    congrArg Report.projects hreport', remarks, hremarks, ?_⟩
  rw [generate, hreport', ← Level.passing_warnings _ hremarks.warnings]
  exact congrArg Prod.snd htells.picked

/-- A project file, a second entry with the same target, and a solution beside the output. -/
theorem generate_again_solution :
    ∃ (files : FileSystem) (t : Template) (report : Report) (last : Run),
      files = ⟨.directory [("work", .directory [("a.csproj", .file "data".toUTF8),
        ("b.txt", .file "text".toUTF8)])], ["work"]⟩ ∧
      ((Template.parse files ⟨"/work/t.xml"⟩
        ("<Template><Project src=\"a.csproj\"><File src=\"b.txt\"/>" ++
          "<File src=\"b.txt\" dst=\"./b.txt\"/></Project></Template>")).outcome {}).1.toOption =
            some t ∧
      generate t {} 2031 ⟨⟨"out"⟩, some ⟨"a.sln"⟩, [], .cSharp⟩ files ⟨0, 0⟩ = (report, last) ∧
      report.outcome = .success ∧ report.projects = [⟨"/work/out/a.csproj"⟩] ∧
      last.files.isFile ⟨"/work/a.sln"⟩ = true ∧
      Repeated t {} last.files (generate t { overwrite := true } 2031
        ⟨⟨"out"⟩, some ⟨"a.sln"⟩, [], .cSharp⟩ last.files ⟨7, 0⟩) := by
  let files : FileSystem := ⟨.directory [("work", .directory [("a.csproj", .file "data".toUTF8),
    ("b.txt", .file "text".toUTF8)])], ["work"]⟩
  let p : Entry := ⟨"a.csproj", ["/work/a.csproj"], "a.csproj", false, ⟨1, 11⟩⟩
  let f : Entry := ⟨"b.txt", ["/work/b.txt"], "b.txt", false, ⟨1, 35⟩⟩
  let g : Entry := ⟨"b.txt", ["/work/b.txt"], "./b.txt", false, ⟨1, 54⟩⟩
  let t : Template := ⟨⟨"/work/t.xml"⟩, none, none, none, none, [⟨"/work"⟩],
    ⟨[⟨"_sourceExt", some "Extension of source files.", "cs", none, .string, true⟩]⟩,
    [⟨p, [f, g]⟩]⟩
  let q : GenerationRequest := ⟨⟨"out"⟩, some ⟨"a.sln"⟩, [], .cSharp⟩
  have hsuccess : (generate t {} 2031 q files ⟨0, 0⟩).1.outcome = .success := by decide +kernel
  have hprojects : (generate t {} 2031 q files ⟨0, 0⟩).1.projects = [⟨"/work/out/a.csproj"⟩] := by
    decide +kernel
  have hfile : (generate t {} 2031 q files ⟨0, 0⟩).2.files.isFile ⟨"/work/a.sln"⟩ = true := by
    decide +kernel
  have hwork : files.workingPath.Descends files.workingDirectory :=
    ⟨by decide +kernel, by decide +kernel, by decide +kernel⟩
  have hliteral {text : String} (h : Fragment.ofText text = [.literal text]) :
      Renderer.Guidless text := by
    intro body place hbody
    rw [h] at hbody
    simp at hbody
  have hguid : ∀ e ∈ t.projects.flatMap Project.entries, e.Guidless := by
    have hentry {e : Entry} (hsource : ∀ candidate ∈ e.candidates,
        Fragment.ofText candidate = [.literal candidate])
        (hdestination : Fragment.ofText e.destination = [.literal e.destination]) : e.Guidless :=
      ⟨fun c hc => hliteral (hsource c hc), hliteral hdestination⟩
    have hp : p.Guidless := hentry (by decide +kernel) (by decide +kernel)
    have hf : f.Guidless := hentry (by decide +kernel) (by decide +kernel)
    have hg : g.Guidless := hentry (by decide +kernel) (by decide +kernel)
    intro e he
    have hmem : e ∈ [p, f, g] := he
    simp only [List.mem_cons, List.not_mem_nil, or_false] at hmem
    rcases hmem with rfl | rfl | rfl
    · exact hp
    · exact hf
    · exact hg
  have hnamed : ∀ p ∈ (generate t {} 2031 q files ⟨0, 0⟩).1.projects, Solution.Nameable p := by
    rw [hprojects]
    exact List.forall_mem_singleton.mpr ⟨by decide +kernel, by decide +kernel⟩
  exact ⟨files, t, _, _, rfl, by decide +kernel, rfl, hsuccess, hprojects, hfile,
    generate_again t {} 2031 q files ⟨0, 0⟩ ⟨7, 0⟩ hwork hguid hsuccess (Or.inr hnamed)⟩

end Stencil
