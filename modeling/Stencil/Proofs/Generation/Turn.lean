import Mathlib.Logic.Relation
import Stencil.Generation
import Stencil.Proofs.FileSystem.Writing
import Stencil.Proofs.Substitution.Meaning

namespace Stencil

open FileSystem (Grown Wrote)

variable {α β : Type} {P : FileSystem → List WrittenFile → Prop}

/-- A step that changes neither the files nor what is noted of them. -/
def Quiet (x : Attempt Run α) : Prop :=
  ∀ s, (x.outcome s).2.files = s.files ∧ (x.outcome s).2.written = s.written

namespace Quiet

/-- What holds of files and notes holds after a quiet step. -/
theorem triple {x : Attempt Run α} (h : Quiet x) :
    Triple (fun s => P s.files s.written) x (fun _ s => P s.files s.written)
      (fun s => P s.files s.written) := by
  intro s hs
  obtain ⟨hfiles, hwritten⟩ := h s
  unfold Attempt.outcome at hfiles hwritten
  cases hx : x s with
  | ok a t =>
    rw [hx] at hfiles hwritten
    change P t.files t.written
    rwa [show t.files = s.files from hfiles, show t.written = s.written from hwritten]
  | error e t =>
    rw [hx] at hfiles hwritten
    change P t.files t.written
    rwa [show t.files = s.files from hfiles, show t.written = s.written from hwritten]

theorem pure (a : α) : Quiet (Pure.pure a : Attempt Run α) := fun _ => ⟨rfl, rfl⟩

theorem throw (failure : Failure) : Quiet (MonadExcept.throw failure : Attempt Run α) :=
  fun _ => ⟨rfl, rfl⟩

theorem of_triple {x : Attempt Run α}
    (h : ∀ files written, Triple (fun s => s.files = files ∧ s.written = written) x
      (fun _ s => s.files = files ∧ s.written = written)
      (fun s => s.files = files ∧ s.written = written)) : Quiet x := by
  intro s
  have hs := h s.files s.written s ⟨rfl, rfl⟩
  unfold Attempt.outcome
  split at hs
  · next hx => rw [hx]; exact hs
  · next hx => rw [hx]; exact hs

theorem bind {x : Attempt Run α} {f : α → Attempt Run β} (hx : Quiet x) (hf : ∀ a, Quiet (f a)) :
    Quiet (x >>= f) :=
  of_triple fun files written =>
    (hx.triple (P := fun fs w => fs = files ∧ w = written)).bind fun a =>
      (hf a).triple (P := fun fs w => fs = files ∧ w = written)

theorem expanding (x : Attempt Expansion α) : Quiet (Run.expanding x) := by
  intro s
  unfold Attempt.outcome Run.expanding Attempt.onPart
  cases x s.expansion <;> exact ⟨rfl, rfl⟩

theorem say (level : Level) (message : String) : Quiet (Run.say level message) := expanding _

theorem sayAt (level : Level) (location : Location) (message : String) :
    Quiet (Run.sayAt level location message) := expanding _

theorem detail (message : String) : Quiet (Run.detail message) := by
  unfold Run.detail Run.journaled
  exact expanding _

theorem currentFiles : Quiet Run.currentFiles := fun _ => ⟨rfl, rfl⟩

theorem looking (x : FileSystem → Except FileFault α) : Quiet (Run.looking x) := by
  intro s
  unfold Attempt.outcome Run.looking
  cases x s.files <;> exact ⟨rfl, rfl⟩

theorem expandSource (r : Renderer) (source : Path) : Quiet (Run.expandSource r source) :=
  (looking _).bind fun _ => expanding _

theorem addProject (path : Path) : Quiet (Run.addProject path) := fun _ => ⟨rfl, rfl⟩

theorem nextGuid : Quiet Run.nextGuid := fun _ => ⟨rfl, rfl⟩

theorem drawGuid : Quiet Run.drawGuid := fun _ => ⟨rfl, rfl⟩

end Quiet

namespace Run

theorem onFiles_triple {x : FileStep α} {P E : FileSystem → Prop} {Q : α → FileSystem → Prop}
    (h : Triple P x Q E) (written : List WrittenFile) :
    Triple (fun s => P s.files ∧ s.written = written) (onFiles x)
      (fun a s => Q a s.files ∧ s.written = written)
      (fun s => E s.files ∧ s.written = written) := by
  rintro s ⟨hs, hwritten⟩
  have ht := h s.files hs
  unfold onFiles
  cases hx : x s.files with
  | ok a files =>
    rw [hx] at ht
    exact ⟨ht, hwritten⟩
  | error fault files =>
    rw [hx] at ht
    exact ⟨ht, hwritten⟩

theorem expanding_triple {x : Attempt Expansion α} {Q : α → Prop}
    (h : Triple (fun _ => True) x (fun a _ => Q a) fun _ => True) :
    Triple (fun s => P s.files s.written) (expanding x)
      (fun a s => P s.files s.written ∧ Q a) (fun s => P s.files s.written) := by
  intro s hs
  have ht := h s.expansion trivial
  unfold expanding Attempt.onPart
  cases hx : x s.expansion with
  | ok a e =>
    rw [hx] at ht
    exact ⟨hs, ht⟩
  | error failure e => exact hs

theorem looking_triple {files : FileSystem} {written : List WrittenFile}
    {x : FileSystem → Except FileFault α} :
    Triple (fun s => s.files = files ∧ s.written = written) (looking x)
      (fun a s => (s.files = files ∧ s.written = written) ∧ x files = .ok a)
      (fun s => s.files = files ∧ s.written = written) := by
  rintro s ⟨rfl, rfl⟩
  unfold looking
  cases x s.files with
  | ok a => exact ⟨⟨rfl, rfl⟩, rfl⟩
  | error fault => exact ⟨rfl, rfl⟩

theorem currentFiles_triple :
    Triple (fun s => P s.files s.written) currentFiles
      (fun files s => P s.files s.written ∧ files = s.files) (fun s => P s.files s.written) :=
  fun _ hs => ⟨hs, rfl⟩

end Run

/-- A destination that is found is never rooted. -/
theorem Entry.resolveDestination_triple (r : Renderer) (t : Template) (e : Entry) :
    Triple (fun _ => True) (e.resolveDestination r t)
      (fun relative _ => (Path.mk relative).isRooted = false) fun _ => True := by
  refine (Triple.trivial _ _).bind fun relative => ?_
  refine Triple.ite (fun _ => ?_) fun hgood => ?_
  · exact (Expansion.reported_triple _ _).mono (fun _ h => h) (fun _ _ h => h.elim) fun _ h => h
  · refine Triple.pure fun _ _ => ?_
    simp only [Bool.or_eq_true, not_or, Bool.not_eq_true] at hgood
    exact hgood.2

/-- What a turn does to the files and to what is noted of them: it makes directories, or it writes
one file below the destination, where nothing was found before. -/
inductive Turn (base : Path) :
    FileSystem × List WrittenFile → FileSystem × List WrittenFile → Prop
  | grow {fs fs' : FileSystem} {written : List WrittenFile} (h : Grown fs fs') :
    Turn base (fs, written) (fs', written)
  | write {fs made fs' : FileSystem} {written : List WrittenFile} {source relative : Path}
    {place : List String} {content : ByteArray} (hr : relative.isRooted = false)
    (hfree : fs.has (base.join relative) = false) (hgrown : Grown fs made)
    (hwrote : Wrote made (base.join relative) place content fs') :
    Turn base (fs, written) (fs', written ++ [⟨source, base.join relative⟩])

/-- The state of a run, as far as a turn changes it. -/
def Run.traces (s : Run) : FileSystem × List WrittenFile := (s.files, s.written)

/-- Only turns were taken since a start. -/
def Run.Follows (base : Path) (start : FileSystem × List WrittenFile) (s : Run) : Prop :=
  Relation.ReflTransGen (Turn base) start s.traces

namespace Generation

variable {r : Renderer} {t : Template} {base : Path} {fs : FileSystem} {written : List WrittenFile}

/-- Writing an entry fails without a trace, or writes its target and nothing else. -/
theorem writeEntry_triple (r : Renderer) (raw : Bool) (source target : Path) :
    Triple (fun s => Grown fs s.files ∧ s.written = written) (writeEntry r raw source target)
      (fun _ s => (∃ made place content, Grown fs made ∧ Wrote made target place content s.files) ∧
        s.written = written)
      (fun s => Grown fs s.files ∧ s.written = written) := by
  have hwrite {x : FileStep Unit} (hx : ∀ start, Triple (· = start) x
      (fun _ fs => ∃ place content, Wrote start target place content fs) (· = start)) :
      Triple (fun s => Grown fs s.files ∧ s.written = written) (Run.onFiles x)
        (fun _ s => (∃ made place content, Grown fs made ∧
          Wrote made target place content s.files) ∧ s.written = written)
        (fun s => Grown fs s.files ∧ s.written = written) := by
    rintro s ⟨hgrown, hs⟩
    refine ((Run.onFiles_triple (hx s.files) written).mono (fun _ h => h)
      (fun _ s' h => ?_) fun s' h => ?_) s ⟨rfl, hs⟩
    · obtain ⟨⟨place, content, hwrote⟩, hs'⟩ := h
      exact ⟨⟨s.files, place, content, hgrown, hwrote⟩, hs'⟩
    · exact ⟨h.1 ▸ hgrown, h.2⟩
  unfold writeEntry
  refine Triple.ite (fun _ => ?_) fun _ => ?_
  · refine ((Quiet.say _ _).triple (P := fun files w => Grown fs files ∧ w = written)).bind fun _ => ?_
    exact hwrite fun start => FileSystem.copy_triple start source target
  · refine ((Quiet.say _ _).triple (P := fun files w => Grown fs files ∧ w = written)).bind fun _ => ?_
    refine ((Quiet.expandSource r source).triple
      (P := fun files w => Grown fs files ∧ w = written)).bind fun rendered => ?_
    refine ((Quiet.detail _).triple
      (P := fun files w => Grown fs files ∧ w = written)).bind fun _ => ?_
    refine hwrite fun start => ?_
    exact (FileSystem.write_triple start target _).mono (fun _ h => h)
      (fun _ _ ⟨place, h⟩ => ⟨place, _, h⟩) fun _ h => h

/-- Making the file of an entry is a turn, whether or not it succeeds. -/
theorem makeEntry_triple (r : Renderer) (t : Template) (base : Path) (e : Entry) :
    Triple (fun s => s.files = fs ∧ s.written = written) (makeEntry r t base e)
      (fun _ s => Turn base (fs, written) s.traces) (fun s => Turn base (fs, written) s.traces) := by
  have hstill {s : Run} (h : s.files = fs ∧ s.written = written) :
      Turn base (fs, written) s.traces := by
    obtain ⟨rfl, rfl⟩ := h
    exact .grow (Grown.refl _)
  have hgrow {s : Run} (h : Grown fs s.files ∧ s.written = written) :
      Turn base (fs, written) s.traces := by
    obtain ⟨hgrown, rfl⟩ := h
    exact .grow hgrown
  have hquiet {α : Type} {x : Attempt Run α} (hx : Quiet x) :
      Triple (fun s => s.files = fs ∧ s.written = written) x
        (fun _ s => s.files = fs ∧ s.written = written)
        (fun s => Turn base (fs, written) s.traces) :=
    (hx.triple (P := fun files w => files = fs ∧ w = written)).mono_error fun _ h => hstill h
  unfold makeEntry makeFrom
  -- up to the look at the target nothing changes
  refine (hquiet Quiet.currentFiles).bind fun files => ?_
  refine (hquiet (Quiet.expanding _)).bind fun source => ?_
  refine ((Run.expanding_triple (P := fun files w => files = fs ∧ w = written)
    (Entry.resolveDestination_triple r t e)).mono_error fun _ h => hstill h).bind fun relative => ?_
  refine Triple.of_and fun hr => ?_
  refine ((Run.currentFiles_triple (P := fun files w => files = fs ∧ w = written)).mono
    (fun _ h => h) (fun now s h => (⟨h.1, h.2.trans h.1.1⟩ : _ ∧ now = fs))
    fun _ h => hstill h).bind fun now => ?_
  refine Triple.of_and fun hnow => ?_
  subst hnow
  refine Triple.ite (fun _ => ?_) fun hfree => ?_
  · refine (hquiet (Quiet.sayAt _ _ _)).bind fun _ => ?_
    exact Triple.pure fun _ h => hstill h
  · -- nothing is found: the directory above the target is made, and then the target is written
    have hwrite : Triple (fun s => Grown now s.files ∧ s.written = written)
        (writeTarget r e source (base.join ⟨relative⟩))
        (fun _ s => Turn base (now, written) s.traces) fun s => Turn base (now, written) s.traces := by
      unfold writeTarget
      refine ((writeEntry_triple r e.raw source (base.join ⟨relative⟩)).mono_error
        fun _ h => hgrow h).bind fun _ => ?_
      rintro s ⟨⟨made, place, content, hgrown, hwrote⟩, rfl⟩
      exact .write hr (by simpa using hfree) hgrown hwrote
    have hmake (parent : Path) : Triple (fun s => s.files = now ∧ s.written = written)
        (Run.onFiles (FileSystem.createDirectories parent))
        (fun _ s => Grown now s.files ∧ s.written = written)
        (fun s => Turn base (now, written) s.traces) :=
      (Run.onFiles_triple (FileSystem.createDirectories_triple now parent) written).mono
        (fun _ h => ⟨h.1 ▸ Grown.refl _, h.2⟩) (fun _ _ h => ⟨h.1.1, h.2⟩) fun _ h => hgrow h
    refine fillTarget_cases (p := fun x => Triple _ x _ _)
      (fun parent _ => (hmake parent).bind fun _ => hwrite) fun _ => ?_
    exact hwrite.mono (fun _ h => ⟨h.1 ▸ Grown.refl _, h.2⟩) (fun _ _ h => h) fun _ h => h

section

variable {e : Entry} {Q : Run → Prop}

/-- What holds once the file of an entry is made, whether or not that succeeds, holds when its failure
is reported. -/
theorem tryEntry_keeps (hmake : Triple Q (makeEntry r t base e) (fun _ s => P s.files s.written)
      fun s => P s.files s.written) :
    Triple Q (tryEntry r t base e) (fun _ s => P s.files s.written)
      fun s => P s.files s.written := by
  unfold tryEntry
  refine hmake.caught.bind fun result => ?_
  split
  · exact (Quiet.pure _).triple
  · exact (Quiet.pure _).triple
  · refine Triple.ite (fun _ => (Quiet.throw _).triple) fun _ => ?_
    exact ((Quiet.sayAt _ _ _).bind fun _ => Quiet.pure _).triple

theorem quiet_noteTarget (kind : String) (e : Entry) (target : Path) :
    Quiet (noteTarget kind e target) := by
  unfold noteTarget
  refine (Quiet.say _ _).bind fun _ => ?_
  split
  · exact Quiet.addProject target
  · exact Quiet.pure ()

theorem addEntry_keeps (kind : String) (hmake : Triple Q (makeEntry r t base e)
      (fun _ s => P s.files s.written) fun s => P s.files s.written) :
    Triple Q (addEntry r t base kind e) (fun _ s => P s.files s.written)
      fun s => P s.files s.written := by
  unfold addEntry
  refine (tryEntry_keeps hmake).bind fun result => ?_
  split
  · exact (Quiet.pure _).triple
  · exact (quiet_noteTarget kind e _).triple

/-- What making the file of any entry keeps is kept when all projects are taken up. -/
theorem addProjects_keeps {projects : List Project}
    (hmake : ∀ e ∈ projects.flatMap Project.entries,
      Triple (fun s => P s.files s.written) (makeEntry r t base e) (fun _ s => P s.files s.written)
        fun s => P s.files s.written) :
    Triple (fun s => P s.files s.written) (projects.forM (addProject r t base))
      (fun _ s => P s.files s.written) fun s => P s.files s.written := by
  refine Triple.forM fun p hp => ?_
  have hentry {e : Entry} (he : e ∈ p.entries) := hmake e (List.mem_flatMap_of_mem hp he)
  unfold addProject
  refine (addEntry_keeps _ (hentry List.mem_cons_self)).bind fun _ => ?_
  exact Triple.forM fun e he => addEntry_keeps _ (hentry (List.mem_cons_of_mem _ he))

end

/-- Taking up all projects is a sequence of turns: whatever a turn did, more turns may follow. -/
theorem addProjects_follows {start : FileSystem × List WrittenFile} (projects : List Project) :
    Triple (Run.Follows base start) (projects.forM (addProject r t base))
      (fun _ => Run.Follows base start) (Run.Follows base start) := by
  refine addProjects_keeps
    (P := fun files written => Relation.ReflTransGen (Turn base) start (files, written))
    fun e _ s hs => ?_
  exact ((makeEntry_triple r t base e).mono (fun _ h => h) (fun _ _ ht => hs.tail ht)
    fun _ ht => hs.tail ht) s ⟨rfl, rfl⟩

end Generation

end Stencil
