import Mathlib.Data.List.Infix
import Stencil.Proofs.Comparison.Flawless
import Stencil.Proofs.FileSystem.Along
import Stencil.Proofs.Generation.Preservation

/-! How far a generation reaches. All that is new lies in the destination, on the way there or to the
solution, or on the way to a target; and a target lies in the destination unless its relative path
rises above where it starts. -/

namespace Stencil

open FileSystem (Gained Wrote)

variable {files fs : FileSystem} {base target : Path} {written : List WrittenFile}
  {S : List String → Prop} {r : Renderer} {t : Template} {e : Entry}

theorem rise_le_of_prefix {front way : List Component} (h : front <+: way) : rise front ≤ rise way := by
  obtain ⟨rest, rfl⟩ := h
  induction front with
  | nil => exact Nat.zero_le _
  | cons c front ih =>
    cases c with
    | up => exact Nat.succ_le_succ ih
    | _ => exact Nat.sub_le_sub_right ih 1

theorem Path.passing_iff_of_isRooted {p : Path} (h : p.isRooted = true) (start place : List String) :
    p.Passing start place ↔ p.Passing [] place := by
  simp only [Path.Passing, h, if_true]

/-- What a target passes, its directory passes as well, or it lies behind that directory. -/
theorem passing_join {relative : Path} {place : List String} (hb : base.isRooted = true)
    (hr : relative.isRooted = false) (h : (base.join relative).Passing [] place) :
    base.Passing [] place ∨
      ∃ front, front <+: relative.moves ∧ place = leads (base.placeFrom []) front := by
  obtain ⟨front, hfront, rfl⟩ := h
  rw [Path.moves_join base hr] at hfront
  simp only [Path.isRooted_join hb relative, if_true]
  obtain ⟨rest, hrest⟩ := hfront
  rcases List.append_eq_append_iff.mp hrest with ⟨more, hmore, -⟩ | ⟨more, rfl, hmore⟩
  · exact Or.inl ⟨front, ⟨more, hmore.symm⟩, by simp only [hb, if_true]⟩
  · exact Or.inr ⟨more, ⟨rest, hmore.symm⟩, by rw [leads_append, placeFrom_of_isRooted hb]⟩

/-- A target whose relative path never rises above its start passes nothing outside its directory. -/
theorem inside_of_rise {relative : Path} {place : List String} (hb : base.isRooted = true)
    (hr : relative.isRooted = false) (hrise : rise relative.moves = 0)
    (h : (base.join relative).Passing [] place) :
    base.Passing [] place ∨ base.placeFrom [] <+: place := by
  rcases passing_join hb hr h with hbase | ⟨front, hfront, rfl⟩
  · exact Or.inl hbase
  · right
    have hmoving : Moving front := fun c hc => Path.moving_moves relative c (hfront.subset hc)
    have hlow : rise front = 0 := Nat.le_zero.mp (hrise ▸ rise_le_of_prefix hfront)
    rw [leads_eq_take hmoving, hlow, Nat.sub_zero, List.take_length]
    exact List.prefix_append _ _

/-- A relative path that the destination of an entry expands to. -/
def Entry.LeadsTo (e : Entry) (r : Renderer) (t : Template) (relative : String) : Prop :=
  ∃ before after, (e.resolveDestination r t).outcome before = (.ok relative, after)

theorem Entry.isRooted_of_leadsTo {relative : String} (h : e.LeadsTo r t relative) :
    (Path.mk relative).isRooted = false := by
  obtain ⟨before, after, hrun⟩ := h
  exact (e.resolveDestination_triple r t).of_outcome (s := before) trivial hrun

theorem Entry.leadsTo_triple (r : Renderer) (t : Template) (e : Entry) :
    Triple (fun _ => True) (e.resolveDestination r t) (fun relative _ => e.LeadsTo r t relative)
      (fun _ => True) :=
  (Triple.ran _).mono (fun _ h => h) (fun _ after ⟨before, _, h⟩ => ⟨before, after, h⟩) fun _ h => h

/-- What the targets of an entry pass. -/
def Entry.Tours (e : Entry) (r : Renderer) (t : Template) (base : Path) (place : List String) : Prop :=
  ∃ relative, e.LeadsTo r t relative ∧ (base.join ⟨relative⟩).Passing [] place

/-- The places that written files pass. -/
def Toured (written : List WrittenFile) (place : List String) : Prop :=
  ∃ w ∈ written, w.destination.Passing [] place

namespace Generation

/-- Writing an entry adds at most what its target passes. -/
theorem writeEntry_gained (r : Renderer) (raw : Bool) (source : Path) (ht : target.isRooted = true) :
    Triple (fun s => Gained (target.Passing []) fs s.files ∧ s.written = written)
      (writeEntry r raw source target)
      (fun _ s => Gained (target.Passing []) fs s.files ∧ s.written = written)
      (fun s => Gained (target.Passing []) fs s.files ∧ s.written = written) := by
  have hquiet {α : Type} {x : Attempt Run α} (hx : Quiet x) :=
    hx.triple (P := fun files w => Gained (target.Passing []) fs files ∧ w = written)
  have hS (place : List String) (hp : target.Passing fs.workingDirectory place) :
      target.Passing [] place := (Path.passing_iff_of_isRooted ht _ place).mp hp
  unfold writeEntry
  refine Triple.ite (fun _ => ?_) fun _ => ?_
  · refine (hquiet (Quiet.say _ _)).bind fun _ => ?_
    have hcopy := Gained.of_wrote (fun start => FileSystem.copy_triple start source target) hS
    exact Run.onFiles_triple hcopy written
  · refine (hquiet (Quiet.say _ _)).bind fun _ => ?_
    refine (hquiet (Quiet.expandSource r source)).bind fun rendered => ?_
    refine (hquiet (Quiet.detail _)).bind fun _ => ?_
    exact Run.onFiles_triple (FileSystem.write_gained _ hS) written

/-- Making an entry adds at most what its target passes, and then that target is noted unless nothing
was added. -/
theorem makeEntry_gained (r : Renderer) (t : Template) (hb : base.isRooted = true) (e : Entry) :
    Triple (fun s => s.files = fs ∧ s.written = written) (makeEntry r t base e)
      (fun _ s => Gained (e.Tours r t base) fs s.files ∧
        ∃ more, s.written = written ++ more ∧ Gained (Toured more) fs s.files)
      (fun s => Gained (e.Tours r t base) fs s.files) := by
  have hstill {s : Run} (h : s.files = fs ∧ s.written = written) :
      Gained (e.Tours r t base) fs s.files := h.1.symm ▸ Gained.refl _ _
  have hquiet {α : Type} {x : Attempt Run α} (hx : Quiet x) :
      Triple (fun s => s.files = fs ∧ s.written = written) x
        (fun _ s => s.files = fs ∧ s.written = written)
        (fun s => Gained (e.Tours r t base) fs s.files) :=
    (hx.triple (P := fun files w => files = fs ∧ w = written)).mono_error fun _ h => hstill h
  unfold makeEntry makeFrom
  -- up to the look at the target nothing changes
  refine (hquiet Quiet.currentFiles).bind fun files => ?_
  refine (hquiet (Quiet.expanding _)).bind fun source => ?_
  refine ((Run.expanding_triple (P := fun files w => files = fs ∧ w = written)
    (e.leadsTo_triple r t)).mono_error fun _ h => hstill h).bind fun relative => ?_
  refine Triple.of_and fun hleads => ?_
  refine (hquiet Quiet.currentFiles).bind fun now => ?_
  have ht := Path.isRooted_join hb ⟨relative⟩
  have htours {s : Run} (h : Gained ((base.join ⟨relative⟩).Passing []) fs s.files) :
      Gained (e.Tours r t base) fs s.files := h.mono fun place hplace => ⟨relative, hleads, hplace⟩
  refine Triple.ite (fun _ => ?_) fun _ => ?_
  · refine (hquiet (Quiet.sayAt _ _ _)).bind fun _ => ?_
    refine Triple.pure fun s h => ⟨hstill h, [], by simpa using h.2, ?_⟩
    exact h.1.symm ▸ Gained.refl _ _
  · -- the directory above the target is made, and then the target is written and noted
    have hwrite : Triple
        (fun s => Gained ((base.join ⟨relative⟩).Passing []) fs s.files ∧ s.written = written)
        (writeTarget r e source (base.join ⟨relative⟩))
        (fun _ s => Gained (e.Tours r t base) fs s.files ∧
          ∃ more, s.written = written ++ more ∧ Gained (Toured more) fs s.files)
        (fun s => Gained (e.Tours r t base) fs s.files) := by
      unfold writeTarget
      refine ((writeEntry_gained r e.raw source ht).mono_error fun _ h => htours h.1).bind fun _ => ?_
      rintro s ⟨hgained, rfl⟩
      exact ⟨htours hgained, [⟨source, base.join ⟨relative⟩⟩], rfl,
        hgained.mono fun place hplace => ⟨_, List.mem_cons_self, hplace⟩⟩
    have hstart (s : Run) (h : s.files = fs ∧ s.written = written) :
        Gained ((base.join ⟨relative⟩).Passing []) fs s.files ∧ s.written = written :=
      ⟨h.1.symm ▸ Gained.refl _ _, h.2⟩
    refine fillTarget_cases (p := fun x => Triple _ x _ _) (fun parent hparent => ?_) fun _ => ?_
    · have hmake : Triple (Gained ((base.join ⟨relative⟩).Passing []) fs)
          (FileSystem.createDirectories parent)
          (fun _ => Gained ((base.join ⟨relative⟩).Passing []) fs)
          (Gained ((base.join ⟨relative⟩).Passing []) fs) :=
        FileSystem.createDirectories_gained fun place hplace =>
          (Path.passing_iff_of_isRooted ht _ place).mp (hplace.of_parent hparent)
      exact ((Run.onFiles_triple hmake written).mono hstart (fun _ _ h => h)
        fun _ h => htours h.1).bind fun _ => hwrite
    · exact hwrite.mono hstart (fun _ _ h => h) fun _ h => h

/-- Taking up all projects adds at most what the targets of their entries pass. -/
theorem addProjects_gained (hb : base.isRooted = true) {projects : List Project}
    (hS : ∀ e ∈ projects.flatMap Project.entries, ∀ place, e.Tours r t base place → S place) :
    Triple (fun s => Gained S files s.files) (projects.forM (addProject r t base))
      (fun _ s => Gained S files s.files) (fun s => Gained S files s.files) := by
  refine addProjects_keeps (P := fun fs _ => Gained S files fs) fun e he s hs => ?_
  have hmore {s' : Run} (h : Gained (e.Tours r t base) s.files s'.files) : Gained S files s'.files :=
    hs.trans (h.mono (hS e he))
  exact ((makeEntry_gained r t hb e).mono (fun _ h => h) (fun _ _ h => hmore h.1)
    fun _ h => hmore h) s ⟨rfl, rfl⟩

/-- Saving a solution adds at most what its path passes. -/
theorem save_gained (s : Solution) (hS : ∀ place, s.path.Passing files.workingDirectory place → S place) :
    Triple (Gained S files) s.save (fun _ => Gained S files) (Gained S files) := by
  have hwrite : Triple (Gained S files) (FileSystem.writeText s.path s.text)
      (fun _ => Gained S files) (Gained S files) := FileSystem.write_gained _ hS
  unfold Solution.save
  split
  · next parent hparent =>
    have hr := (Option.filter_eq_some_iff.mp hparent).1
    exact (FileSystem.createDirectories_gained fun place hp => hS place (hp.of_parent hr)).bind
      fun _ => hwrite
  · exact hwrite

theorem trySolution_gained {path : Path} (projects : List Path)
    (hS : ∀ place, path.Passing files.workingDirectory place → S place) :
    Triple (fun s => Gained S files s.files ∧ s.written = written) (trySolution path projects)
      (fun _ s => Gained S files s.files ∧ s.written = written)
      (fun s => Gained S files s.files ∧ s.written = written) := by
  rintro s ⟨hs, hwritten⟩
  have hsave (full : Solution) (hfull : full.path = path) :
      Triple (· = s.files) full.save (fun _ => Gained S files) (Gained S files) :=
    (save_gained full (hfull.symm ▸ hS)).mono (fun _ h => h.symm ▸ hs) (fun _ _ h => h) fun _ h => h
  exact trySolution_triple hsave hs projects s ⟨rfl, hwritten⟩

end Generation

/-- The places where a request asks for something new: in its destination, on the way there, and on
the way to its solution. -/
def GenerationRequest.Grants (q : GenerationRequest) (files : FileSystem) (place : List String) :
    Prop :=
  (∃ base, q.destination.absolute? files.workingPath = some base ∧
    (base.Passing [] place ∨ base.placeFrom [] <+: place)) ∨
  ∃ path ∈ q.solution, path.Passing files.workingDirectory place

variable {q : GenerationRequest} {G : List String → Prop}

namespace Generation

/-- What the targets of a template pass. -/
def Strays (t : Template) (r : Renderer) (q : GenerationRequest) (files : FileSystem)
    (place : List String) : Prop :=
  ∃ base, q.destination.absolute? files.workingPath = some base ∧
    ∃ e ∈ t.projects.flatMap Project.entries, e.Tours r t base place

/-- However it ends, a generation adds at most what it was asked for and what its targets pass. -/
theorem steps_gained (t : Template) (settings : Settings) (year : Nat) (q : GenerationRequest)
    (hS : ∀ place, q.Grants files place ∨ Strays t (renderer t settings year q) q files place →
      S place) :
    Triple (fun s => s.files = files ∧ s.written = written) (steps t settings year q)
      (fun _ s => Gained S files s.files) (fun s => Gained S files s.files) := by
  have hstill {s : Run} (h : s.files = files ∧ s.written = written) : Gained S files s.files :=
    h.1.symm ▸ Gained.refl _ _
  unfold steps
  refine ((destination_triple files written settings q.destination).mono_error
    fun _ h => hstill h).bind fun base => ?_
  refine Triple.of_and fun hbase => ?_
  have hb := isRooted_absolute hbase
  have hmake : Triple (Gained S files) (FileSystem.createDirectories base)
      (fun _ => Gained S files) (Gained S files) :=
    FileSystem.createDirectories_gained fun place hp =>
      hS place (Or.inl (Or.inl ⟨base, hbase, Or.inl ((Path.passing_iff_of_isRooted hb _ place).mp hp)⟩))
  have htours : ∀ e ∈ t.projects.flatMap Project.entries, ∀ place,
      e.Tours (renderer t settings year q) t base place → S place :=
    fun e he place hp => hS place (Or.inr ⟨base, hbase, e, he, hp⟩)
  refine (((Quiet.expanding _).triple (P := fun fs w => fs = files ∧ w = written)).mono_error
    fun _ h => hstill h).bind fun _ => ?_
  refine ((Run.onFiles_triple hmake written).mono (fun _ h => ⟨hstill h, h.2⟩) (fun _ _ h => h.1)
    fun _ h => h.1).bind fun _ => (addProjects_gained hb htours).bind fun _ => ?_
  -- saving the solution starts from what the turns left
  cases hsolution : q.solution with
  | none => exact Triple.pure fun _ h => h
  | some path =>
    intro s hs
    refine ((trySolution_gained s.projects fun place hp => ?_).mono (fun _ h => h)
      (fun _ _ h => h.1) fun _ h => h.1) s ⟨hs, rfl⟩
    exact hS place (Or.inl (Or.inr ⟨path, hsolution, hp⟩))

/-- All that is new was asked for, or is passed by a file that was written. -/
def Accounted (q : GenerationRequest) (files : FileSystem) (s : Run) : Prop :=
  Gained (fun place => q.Grants files place ∨ Toured s.written place) files s.files

theorem Accounted.of_quiet {α : Type} {x : Attempt Run α} (hx : Quiet x) :
    Triple (Accounted q files) x (fun _ => Accounted q files) fun _ => True :=
  (hx.triple (P := fun fs w =>
    Gained (fun place => q.Grants files place ∨ Toured w place) files fs)).mono_error
      fun _ _ => trivial

theorem makeEntry_accounted (hb : base.isRooted = true) (e : Entry) :
    Triple (Accounted q files) (makeEntry r t base e) (fun _ => Accounted q files) fun _ => True := by
  intro s hs
  refine ((makeEntry_gained r t hb e).mono (fun _ h => h) (fun _ after h => ?_)
    fun _ _ => trivial) s ⟨rfl, rfl⟩
  -- what earlier files pass is still passed, and the target passes the rest
  obtain ⟨-, more, hwritten, hmore⟩ := h
  have hbefore := hs.mono (T := fun place => q.Grants files place ∨ Toured after.written place)
    fun place hplace => hplace.imp_right fun ⟨w, hw, hpass⟩ =>
      ⟨w, hwritten ▸ List.mem_append_left _ hw, hpass⟩
  refine hbefore.trans (hmore.mono fun place ⟨w, hw, hpass⟩ => Or.inr ⟨w, ?_, hpass⟩)
  exact hwritten ▸ List.mem_append_right _ hw

/-- An entry that a strict run gets past has accounted for what it added. -/
theorem addEntry_accounted (hb : base.isRooted = true) (kind : String) (e : Entry) :
    Triple (fun s => s.Strict ∧ Accounted q files s) (addEntry r t base kind e)
      (fun _ s => s.Strict ∧ Accounted q files s) fun _ => True := by
  unfold addEntry
  refine (strictly_tryEntry (makeEntry_accounted hb e)).bind fun result => ?_
  split
  · exact Triple.pure fun _ h => h
  · refine ((Journal.spoken_onward.say _ _).strictly (Accounted.of_quiet (Quiet.say _ _))).bind fun _ => ?_
    refine Triple.ite (fun _ => ?_) fun _ => Triple.pure fun _ h => h
    exact (Matched.addProject (F := fun _ => True) _).strictly (Accounted.of_quiet (Quiet.addProject _))

theorem addProjects_accounted (hb : base.isRooted = true) (projects : List Project) :
    Triple (fun s => s.Strict ∧ Accounted q files s) (projects.forM (addProject r t base))
      (fun _ s => s.Strict ∧ Accounted q files s) fun _ => True := by
  refine Triple.forM fun p _ => ?_
  unfold addProject
  refine (addEntry_accounted hb _ p.entry).bind fun _ => ?_
  exact Triple.forM fun e _ => addEntry_accounted hb _ e

/-- Making directories and saving a solution is accounted for where it was asked for. -/
theorem Accounted.of_gained {x : Attempt Run Unit}
    (hx : ∀ {S : List String → Prop} {written : List WrittenFile},
      (∀ place, q.Grants files place → S place) →
        Triple (fun s => Gained S files s.files ∧ s.written = written) x
          (fun _ s => Gained S files s.files ∧ s.written = written)
          (fun s => Gained S files s.files ∧ s.written = written)) :
    Triple (Accounted q files) x (fun _ => Accounted q files) fun _ => True := by
  intro s hs
  refine ((hx fun place hgrants => Or.inl hgrants).mono (fun _ h => h) (fun _ after h => ?_)
    fun _ _ => trivial) s ⟨hs, rfl⟩
  unfold Accounted
  rw [h.2]
  exact h.1

/-- What a strict generation that comes to its end has added was asked for, or is passed by what it
has written. -/
theorem steps_accounted (t : Template) (settings : Settings) (year : Nat) (q : GenerationRequest) :
    Triple (fun s => s.Strict ∧ (s.files = files ∧ s.written = written)) (steps t settings year q)
      (fun _ s => Accounted q files s) fun _ => True := by
  have hstart {s : Run} (h : s.files = files) : Accounted q files s := h.symm ▸ Gained.refl _ _
  have hkeep {α : Type} {F : Failure → Prop} {x : Attempt Run α}
      (hm : Matched Journal.onwardness.ofRuns F x)
      (hx : Triple (Accounted q files) x (fun _ => Accounted q files) fun _ => True) :
      Triple (fun s => s.Strict ∧ Accounted q files s) x
        (fun _ s => s.Strict ∧ Accounted q files s) fun _ => True := hm.strictly hx
  unfold steps
  refine ((Matched.destination settings q.destination).strictly
    (destination_triple files written settings q.destination)).bind fun base => ?_
  -- the destination is known from here on, and nothing is new yet
  rintro s ⟨hstrict, ⟨hfiles, -⟩, hbase⟩
  have hb := isRooted_absolute hbase
  have hmake : Triple (Accounted q files) (Run.onFiles (FileSystem.createDirectories base))
      (fun _ => Accounted q files) fun _ => True :=
    Accounted.of_gained fun hS => Run.onFiles_triple (FileSystem.createDirectories_gained
      fun place hp => hS place (Or.inl ⟨base, hbase,
        Or.inl ((Path.passing_iff_of_isRooted hb _ place).mp hp)⟩)) _
  refine ((hkeep (t.matched_mentionIgnored Journal.spoken_onward q.values)
    (Accounted.of_quiet (Quiet.expanding _))).bind fun _ => ?_) s ⟨hstrict, hstart hfiles⟩
  refine (hkeep (Matched.onFiles (F := fun _ => True) fun _ => trivial) hmake).bind fun _ => ?_
  refine (addProjects_accounted hb t.projects).bind fun _ => ?_
  cases hsolution : q.solution with
  | none => exact Triple.pure fun _ h => h.2
  | some path =>
    intro s hs
    exact Accounted.of_gained (fun hS => trySolution_gained s.projects fun place hp =>
      hS place (Or.inr ⟨path, hsolution, hp⟩)) s hs.2

end Generation

/-- Everything new stands where the request asks for something. -/
def Contained (q : GenerationRequest) (before after : FileSystem) : Prop :=
  ∀ place, before.at? place = none → (after.at? place).isSome = true → q.Grants before place

/-- How far a generation reaches. -/
structure Generation.Extent (t : Template) (r : Renderer) (q : GenerationRequest)
    (files : FileSystem) (run : Report × Run) : Prop where
  strays : ∀ place, files.at? place = none → (run.2.files.at? place).isSome = true →
    q.Grants files place ∨ ∃ base, q.destination.absolute? files.workingPath = some base ∧
      ∃ e ∈ t.projects.flatMap Project.entries, ∃ relative, e.LeadsTo r t relative ∧
        0 < rise (Path.mk relative).moves ∧ (base.join ⟨relative⟩).Passing [] place
  contained : (∀ e ∈ t.projects.flatMap Project.entries, ∀ relative, e.LeadsTo r t relative →
    rise (Path.mk relative).moves = 0) → Contained q files run.2.files
  toured : ∀ place, Toured run.1.written place → (run.2.files.at? place).isSome = true
  contained_iff : run.1.outcome = .success → (Contained q files run.2.files ↔
    ∀ place, Toured run.1.written place →
      q.Grants files place ∨ (files.at? place).isSome = true)

/-- All targets are below the destination in their text, so they are rooted. -/
theorem isRooted_of_turns (hb : base.isRooted = true) {first last : FileSystem × List WrittenFile}
    (h : Relation.ReflTransGen (Turn base) first last)
    (hfirst : ∀ w ∈ first.2, w.destination.isRooted = true) :
    ∀ w ∈ last.2, w.destination.isRooted = true := by
  induction h with
  | refl => exact hfirst
  | tail _ hturn ih =>
    cases hturn with
    | grow => exact ih
    | write =>
      intro w hw
      rcases List.mem_append.mp hw with hw | hw
      · exact ih w hw
      · rw [List.mem_singleton.mp hw]
        exact Path.isRooted_join hb _

theorem isRooted_of_course (h : Generation.Course q files (fs, written)) :
    ∀ w ∈ written, w.destination.isRooted = true := by
  cases h with
  | idle => exact nofun
  | turned hbase _ _ hturns =>
    exact isRooted_of_turns (Generation.isRooted_absolute hbase) hturns nofun
  | settled hbase _ _ hturns =>
    exact isRooted_of_turns (Generation.isRooted_absolute hbase) hturns nofun

/-- All on the way to a written file is there when the generation ends. -/
theorem isSome_of_toured (h : Generation.Course q files (fs, written)) {place : List String}
    (hp : Toured written place) : (fs.at? place).isSome = true := by
  obtain ⟨w, hw, front, hfront, rfl⟩ := hp
  have hpasses := ((ended_of_course h).found w hw).1.passes
  rw [startOf_of_isRooted (isRooted_of_course h w hw)] at hpasses
  simpa using hpasses front hfront

/-- What a generation adds and was not asked for is passed by a target that rises. -/
theorem granted_or_risen (t : Template) (settings : Settings) (year : Nat) (q : GenerationRequest)
    (guids : GuidSource) {place : List String} (hnone : files.at? place = none)
    (hsome : ((generate t settings year q files guids).2.files.at? place).isSome = true) :
    q.Grants files place ∨ ∃ base, q.destination.absolute? files.workingPath = some base ∧
      ∃ e ∈ t.projects.flatMap Project.entries, ∃ relative,
        e.LeadsTo (Generation.renderer t settings year q) t relative ∧
          0 < rise (Path.mk relative).moves ∧ (base.join ⟨relative⟩).Passing [] place := by
  have hgained : Gained
      (fun place => q.Grants files place ∨
        Generation.Strays t (Generation.renderer t settings year q) q files place)
      files (generate t settings year q files guids).2.files :=
    (Generation.steps_gained t settings year q fun _ h => h).after
      (s := Run.start files guids settings) ⟨rfl, rfl⟩
  rcases hgained.place place hnone hsome with hgrants | ⟨base, hbase, e, he, relative, hleads, hp⟩
  · exact Or.inl hgrants
  · -- a target that does not rise stays in the destination, which was asked for
    rcases Nat.eq_zero_or_pos (rise (Path.mk relative).moves) with hrise | hrise
    · have hb := Generation.isRooted_absolute hbase
      exact Or.inl (Or.inl ⟨base, hbase,
        inside_of_rise hb (Entry.isRooted_of_leadsTo hleads) hrise hp⟩)
    · exact Or.inr ⟨base, hbase, e, he, relative, hleads, hrise, hp⟩

/-- What a successful generation adds was asked for, or is passed by what it has written. -/
theorem granted_or_toured (t : Template) (settings : Settings) (year : Nat) (q : GenerationRequest)
    (guids : GuidSource) (hsuccess : (generate t settings year q files guids).1.outcome = .success)
    {place : List String} (hnone : files.at? place = none)
    (hsome : ((generate t settings year q files guids).2.files.at? place).isSome = true) :
    q.Grants files place ∨ Toured (generate t settings year q files guids).1.written place := by
  -- a successful run is a strict one that has accounted for all that it added
  obtain ⟨last, hrun, hwritten, hfiles⟩ := Run.finish_success
    (Generation.matched_steps Journal.spoken_strictness t settings year q) hsuccess
  have hstart : (Run.start files guids { settings with strict := true }).Strict := rfl
  have haccounted := (Generation.steps_accounted t settings year q).of_outcome
    ⟨hstart, rfl, rfl⟩ hrun
  rw [show (generate t settings year q files guids).2.files = last.files from hfiles] at hsome
  rw [show (generate t settings year q files guids).1.written = last.written from hwritten]
  exact haccounted.place place hnone hsome

/-- What a generation adds lies where it was asked to add something, or on the way to a target whose
relative path rises above the destination. All on the way to a written file is there afterwards, and a
successful generation adds nothing else outside. -/
theorem generate_extent (t : Template) (settings : Settings) (year : Nat) (q : GenerationRequest)
    (files : FileSystem) (guids : GuidSource) :
    Generation.Extent t (Generation.renderer t settings year q) q files
      (generate t settings year q files guids) := by
  have htoured (place : List String)
      (hp : Toured (generate t settings year q files guids).1.written place) :
      ((generate t settings year q files guids).2.files.at? place).isSome = true :=
    isSome_of_toured (course_generate t settings year q files guids) hp
  refine ⟨fun place => granted_or_risen t settings year q guids, fun hrise place hnone hsome => ?_,
    htoured, fun hsuccess => ⟨fun hcontained place hp => ?_, fun hall place hnone hsome => ?_⟩⟩
  · rcases granted_or_risen t settings year q guids hnone hsome with
      hgrants | ⟨_, -, e, he, relative, hleads, hpos, -⟩
    · exact hgrants
    · rw [hrise e he relative hleads] at hpos
      cases hpos
  · cases hat : files.at? place with
    | none => exact Or.inl (hcontained place hat (htoured place hp))
    | some kind => exact Or.inr rfl
  · rcases granted_or_toured t settings year q guids hsuccess hnone hsome with hgrants | hp
    · exact hgrants
    · rcases hall place hp with hgrants | hthere
      · exact hgrants
      · simp [hnone] at hthere

/-- A target with a step upwards that is written beside the destination. -/
theorem generate_strays :
    ∃ (files : FileSystem) (t : Template) (run : Report × Run),
      files = ⟨.directory [("work", .directory [("a.txt", .file "a".toUTF8)])], ["work"]⟩ ∧
      ((Template.parse files ⟨"/work/t.xml"⟩
        "<Template><Project src=\"a.txt\" dst=\"../x.txt\"/></Template>").outcome {}).1.toOption =
          some t ∧
      generate t {} 2031 ⟨⟨"out"⟩, none, [], .cSharp⟩ files ⟨0, 0⟩ = run ∧
      run.1.outcome = .success ∧ files.at? ["work", "x.txt"] = none ∧
      run.2.files.at? ["work", "x.txt"] = some (some "a".toUTF8) ∧
      ¬ Contained ⟨⟨"out"⟩, none, [], .cSharp⟩ files run.2.files := by
  let files : FileSystem := ⟨.directory [("work", .directory [("a.txt", .file "a".toUTF8)])], ["work"]⟩
  let t : Template := ⟨⟨"/work/t.xml"⟩, none, none, none, none, [⟨"/work"⟩],
    ⟨[⟨"_sourceExt", some "Extension of source files.", "cs", none, .string, true⟩]⟩,
    [⟨⟨"a.txt", ["/work/a.txt"], "../x.txt", false, ⟨1, 11⟩⟩, []⟩]⟩
  have hafter : (generate t {} 2031 ⟨⟨"out"⟩, none, [], .cSharp⟩ files ⟨0, 0⟩).2.files.at?
      ["work", "x.txt"] = some (some "a".toUTF8) := by decide +kernel
  have hout : (Path.mk "out").absolute? files.workingPath = some ⟨"/work/out"⟩ := by decide +kernel
  have hmoves : (Path.mk "/work/out").moves = [.name "work", .name "out"] := by decide +kernel
  have hplaces : ∀ front ∈ [Component.name "work", .name "out"].inits,
      leads [] front ≠ ["work", "x.txt"] := by decide
  refine ⟨files, t, _, rfl, by decide +kernel, rfl, by decide +kernel, rfl, hafter, fun h => ?_⟩
  rcases h ["work", "x.txt"] rfl (Option.isSome_of_eq_some hafter) with
    ⟨base, hbase, hnear⟩ | ⟨path, hpath, -⟩
  · obtain rfl := Option.some.inj (hout.symm.trans hbase)
    rcases hnear with ⟨front, hfront, hplace⟩ | hinside
    · rw [hmoves] at hfront
      exact hplaces front ((List.mem_inits _ _).mpr hfront) (by simpa using hplace.symm)
    · exact absurd hinside (by decide +kernel)
  · cases hpath

end Stencil
