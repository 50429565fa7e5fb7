import Stencil.Proofs.FileSystem.View
import Stencil.Proofs.Path.Absolute
import Stencil.Proofs.Triple

namespace Stencil.FileSystem

open Stencil.Path (step?)

variable {fs fs' : FileSystem} {place q : List String} {step : String} {steps : List String} {p : Path}

/-- A path denotes a place, whatever stands there. -/
def Denotes (fs : FileSystem) (p : Path) (place : List String) : Prop :=
  ∃ node, fs.resolve p = .ok (place, node)

theorem directoryAt_eq_ok {node : Node} (h : fs.directoryAt place = .ok node) :
    fs.root.get? place = some node ∧ fs.at? place = some none := by
  unfold directoryAt at h
  split at h
  · next hfound =>
    split at h
    · next hdir =>
      cases h
      cases node with
      | file content => cases hdir
      | directory entries => exact ⟨hfound, at?_eq_directory_iff.mpr ⟨entries, hfound⟩⟩
    · cases h
  · cases h

theorem directoryAt_of_at? (h : fs.at? place = some none) :
    ∃ node, fs.directoryAt place = .ok node ∧ fs.root.get? place = some node := by
  obtain ⟨entries, hget⟩ := at?_eq_directory_iff.mp h
  exact ⟨_, by simp [directoryAt, hget, Node.isDirectory], hget⟩

/-- A step leads from a directory: it stays, goes up, or goes down to something that exists. -/
inductive Reaches (fs : FileSystem) (place : List String) : String → List String → Prop
  | stay (h : fs.at? place = some none) : Reaches fs place "." place
  | up (h : fs.at? place = some none) : Reaches fs place ".." place.dropLast
  | down {name : String} (h : fs.at? place = some none) (hstay : name ≠ ".") (hup : name ≠ "..")
    (hlimit : ¬ nameLimit < name.utf8ByteSize) (hfound : (fs.at? (place ++ [name])).isSome = true) :
    Reaches fs place name (place ++ [name])

theorem stepFrom_eq_ok_iff : fs.stepFrom place step = .ok q ↔ fs.Reaches place step q := by
  constructor
  · intro h
    obtain ⟨node, hdir, h⟩ := bind_eq_ok_iff.mp h
    obtain ⟨hget, hat⟩ := directoryAt_eq_ok hdir
    split at h
    · next hstay =>
      cases h
      subst hstay
      exact .stay hat
    · next hstay =>
      split at h
      · next hup =>
        cases h
        subst hup
        exact .up hat
      · next hup =>
        split at h
        · cases h
        · next hlimit =>
          split at h
          · next child hchild =>
            cases h
            refine .down hat hstay hup hlimit ?_
            rw [at?_concat_isSome, hget, Option.bind_some, hchild]
            rfl
          · cases h
  -- a step can only be taken in a directory, whichever of the three it is
  · intro h
    have hdir (hat : fs.at? place = some none) := directoryAt_of_at? hat
    cases h with
    | stay hat =>
      obtain ⟨node, hnode, -⟩ := hdir hat
      simp [stepFrom, hnode, bind, Except.bind, pure, Except.pure]
    | up hat =>
      obtain ⟨node, hnode, -⟩ := hdir hat
      simp [stepFrom, hnode, bind, Except.bind, pure, Except.pure]
    | down hat hstay hup hlimit hfound =>
      obtain ⟨node, hnode, hget⟩ := hdir hat
      rw [at?_concat_isSome, hget, Option.bind_some] at hfound
      obtain ⟨child, hchild⟩ := Option.isSome_iff_exists.mp hfound
      simp [stepFrom, hnode, bind, Except.bind, pure, Except.pure, hstay, hup, hlimit, hchild]

theorem walk_cons_eq_ok_iff : fs.walk place (step :: steps) = .ok q ↔
    ∃ next, fs.Reaches place step next ∧ fs.walk next steps = .ok q := by
  unfold walk
  rw [List.foldlM_cons, bind_eq_ok_iff]
  simp only [stepFrom_eq_ok_iff]

theorem walk_concat_eq_ok_iff : fs.walk place (steps ++ [step]) = .ok q ↔
    ∃ above, fs.walk place steps = .ok above ∧ fs.Reaches above step q := by
  induction steps generalizing place with
  | nil =>
    rw [List.nil_append, walk_cons_eq_ok_iff]
    constructor
    · rintro ⟨next, hstep, h⟩
      cases h
      exact ⟨place, rfl, hstep⟩
    · rintro ⟨above, h, hstep⟩
      cases h
      exact ⟨q, hstep, rfl⟩
  | cons first steps ih =>
    rw [List.cons_append, walk_cons_eq_ok_iff]
    constructor
    · rintro ⟨next, hfirst, h⟩
      obtain ⟨above, hwalk, hstep⟩ := ih.mp h
      exact ⟨above, walk_cons_eq_ok_iff.mpr ⟨next, hfirst, hwalk⟩, hstep⟩
    · rintro ⟨above, h, hstep⟩
      obtain ⟨next, hfirst, hwalk⟩ := walk_cons_eq_ok_iff.mp h
      exact ⟨next, hfirst, ih.mpr ⟨above, hwalk, hstep⟩⟩

/-- The way that steps describe. -/
def wayOf (steps : List String) : List Component := steps.filterMap step?

theorem Reaches.eq_leads (h : fs.Reaches place step q) (hne : step ≠ "") :
    q = leads place (wayOf [step]) := by
  cases h with
  | stay => rfl
  | up => rfl
  | down _ hstay hup _ _ => simp [wayOf, step?, hne, hstay, hup, Component.lead]

/-- A walk ends where its steps lead. -/
theorem eq_leads_of_walk (hne : "" ∉ steps) (h : fs.walk place steps = .ok q) :
    q = leads place (wayOf steps) := by
  induction steps generalizing place with
  | nil =>
    cases h
    rfl
  | cons step steps ih =>
    obtain ⟨next, hstep, hwalk⟩ := walk_cons_eq_ok_iff.mp h
    have hfirst := hstep.eq_leads fun he => hne (he ▸ List.mem_cons_self)
    rw [ih (fun he => hne (List.mem_cons_of_mem _ he)) hwalk, hfirst, ← leads_append]
    congr 1
    exact (List.filterMap_append (l := [step])).symm

/-- What existed is still there: directories are directories, and files are files, whatever they
hold. -/
structure Retains (fs fs' : FileSystem) : Prop where
  workingDirectory : fs'.workingDirectory = fs.workingDirectory
  directory : ∀ place, fs.at? place = some none → fs'.at? place = some none
  file : ∀ place content, fs.at? place = some (some content) →
    ∃ content', fs'.at? place = some (some content')

/-- Nothing changed but for directories where nothing was. -/
structure Grown (fs fs' : FileSystem) : Prop where
  workingDirectory : fs'.workingDirectory = fs.workingDirectory
  place : ∀ place, fs'.at? place = fs.at? place ∨ fs.at? place = none ∧ fs'.at? place = some none

theorem Retains.isSome (h : Retains fs fs') (hp : (fs.at? place).isSome = true) :
    (fs'.at? place).isSome = true := by
  cases hat : fs.at? place with
  | none => simp [hat] at hp
  | some kind =>
    cases kind with
    | none => exact Option.isSome_of_eq_some (h.directory place hat)
    | some content =>
      obtain ⟨content', hc⟩ := h.file place content hat
      exact Option.isSome_of_eq_some hc

theorem Retains.refl (fs : FileSystem) : Retains fs fs := ⟨rfl, fun _ h => h, fun _ c h => ⟨c, h⟩⟩

theorem Retains.trans {fs₁ fs₂ fs₃ : FileSystem} (h : Retains fs₁ fs₂) (h' : Retains fs₂ fs₃) :
    Retains fs₁ fs₃ := by
  refine ⟨h'.workingDirectory.trans h.workingDirectory,
    fun place hd => h'.directory place (h.directory place hd), fun place c hc => ?_⟩
  obtain ⟨c', hc'⟩ := h.file place c hc
  exact h'.file place c' hc'

theorem Retains.fileAt (h : Retains fs fs') (hp : fs.FileAt place) : fs'.FileAt place := by
  obtain ⟨content, hc⟩ := hp
  exact h.file place content hc

theorem Grown.refl (fs : FileSystem) : Grown fs fs := ⟨rfl, fun _ => Or.inl rfl⟩

theorem Grown.trans {fs₁ fs₂ fs₃ : FileSystem} (h : Grown fs₁ fs₂) (h' : Grown fs₂ fs₃) :
    Grown fs₁ fs₃ := by
  refine ⟨h'.workingDirectory.trans h.workingDirectory, fun place => ?_⟩
  rcases h.place place with hp | ⟨hnone, hdir⟩
  · rw [← hp]
    exact h'.place place
  · right
    refine ⟨hnone, ?_⟩
    rcases h'.place place with hp | ⟨habsurd, -⟩
    · rw [hp, hdir]
    · rw [hdir] at habsurd
      cases habsurd

theorem Grown.eq_of_isSome (h : Grown fs fs') (hp : (fs.at? place).isSome = true) :
    fs'.at? place = fs.at? place := by
  rcases h.place place with hsame | ⟨hnone, -⟩
  · exact hsame
  · simp [hnone] at hp

theorem Grown.retains (h : Grown fs fs') : Retains fs fs' :=
  ⟨h.workingDirectory, fun place hd => by rw [h.eq_of_isSome (Option.isSome_of_eq_some hd), hd],
    fun place c hc => ⟨c, by rw [h.eq_of_isSome (Option.isSome_of_eq_some hc), hc]⟩⟩

/-- Growing adds no file. -/
theorem Grown.file_iff (h : Grown fs fs') {content : ByteArray} :
    fs'.at? place = some (some content) ↔ fs.at? place = some (some content) := by
  constructor
  · intro hc
    rcases h.place place with hsame | ⟨-, hdir⟩
    · rw [← hsame, hc]
    · rw [hdir] at hc
      cases hc
  · intro hc
    rw [h.eq_of_isSome (Option.isSome_of_eq_some hc), hc]

theorem Grown.fileAt_iff (h : Grown fs fs') : fs'.FileAt place ↔ fs.FileAt place :=
  exists_congr fun _ => h.file_iff

theorem Reaches.mono (h : Retains fs fs') (hr : fs.Reaches place step q) :
    fs'.Reaches place step q := by
  cases hr with
  | stay hd => exact .stay (h.directory _ hd)
  | up hd => exact .up (h.directory _ hd)
  | down hd hstay hup hlimit hfound =>
    exact .down (h.directory _ hd) hstay hup hlimit (h.isSome hfound)

theorem walk_mono (h : Retains fs fs') (hw : fs.walk place steps = .ok q) :
    fs'.walk place steps = .ok q := by
  induction steps generalizing place with
  | nil => exact hw
  | cons step steps ih =>
    obtain ⟨next, hstep, hrest⟩ := walk_cons_eq_ok_iff.mp hw
    exact walk_cons_eq_ok_iff.mpr ⟨next, hstep.mono h, ih hrest⟩

/-- Whether all that a way passes exists. -/
def Passes (fs : FileSystem) (place : List String) (way : List Component) : Prop :=
  ∀ front, front <+: way → (fs.at? (leads place front)).isSome = true

theorem wayOf_cons (step : String) (steps : List String) :
    wayOf (step :: steps) = wayOf [step] ++ wayOf steps :=
  List.filterMap_append (l := [step])

theorem Passes.mono (h : Retains fs fs') {way : List Component} (hp : fs.Passes place way) :
    fs'.Passes place way := fun front hf => h.isSome (hp front hf)

/-- All that a walk passes exists. -/
theorem passes_of_walk (hne : "" ∉ steps) (hw : fs.walk place steps = .ok q)
    (hq : (fs.at? q).isSome = true) : fs.Passes place (wayOf steps) := by
  induction steps generalizing place with
  | nil =>
    cases hw
    intro front hf
    rw [List.prefix_nil.mp hf]
    exact hq
  | cons step steps ih =>
    obtain ⟨next, hstep, hrest⟩ := walk_cons_eq_ok_iff.mp hw
    have hnext := hstep.eq_leads fun he => hne (he ▸ List.mem_cons_self)
    have hpasses := ih (fun he => hne (List.mem_cons_of_mem _ he)) hrest
    have hhere : (fs.at? place).isSome = true := by
      cases hstep with
      | stay hd => exact Option.isSome_of_eq_some hd
      | up hd => exact Option.isSome_of_eq_some hd
      | down hd _ _ _ _ => exact Option.isSome_of_eq_some hd
    intro front hf
    rw [wayOf_cons] at hf
    cases front with
    | nil => exact hhere
    | cons c front =>
      -- a step adds one component or none to the way
      cases hway : wayOf [step] with
      | nil =>
        rw [hway] at hf hnext
        rw [← show next = place from hnext]
        exact hpasses _ hf
      | cons d rest =>
        have hrestnil : rest = [] := by
          have hlen := List.length_filterMap_le step? [step]
          rw [show List.filterMap step? [step] = d :: rest from hway] at hlen
          exact List.eq_nil_of_length_eq_zero (by simpa using hlen)
        subst hrestnil
        rw [hway] at hf hnext
        obtain ⟨rfl, hfront⟩ := List.cons_prefix_cons.mp hf
        rw [leads_cons, ← show next = c.lead place from hnext]
        exact hpasses _ hfront

theorem moving_wayOf (steps : List String) : Moving (wayOf steps) := by
  intro c hc
  obtain ⟨step, -, hstep⟩ := List.mem_filterMap.mp hc
  exact Path.eq_up_or_name_of_step hstep

/-- A way that only goes down starts at a directory if it ends at one. -/
theorem directory_of_down {way : List Component} (hmoving : Moving way) (hup : .up ∉ way)
    (hdir : fs.at? (leads place way) = some none) : fs.at? place = some none := by
  obtain ⟨names, hnames, -⟩ := leads_eq_append hmoving hup place
  rw [hnames] at hdir
  cases names with
  | nil => rwa [List.append_nil] at hdir
  | cons name names => exact (at?_of_append (Option.isSome_of_eq_some hdir)).2 (List.cons_ne_nil _ _)

/-- Steps that only go down lead to a directory that is there. -/
theorem walk_of_down (hne : "" ∉ steps) (hup : .up ∉ wayOf steps)
    (hshort : ∀ name, .name name ∈ wayOf steps → ¬ nameLimit < name.utf8ByteSize)
    (hdir : fs.at? (leads place (wayOf steps)) = some none) :
    fs.walk place steps = .ok (leads place (wayOf steps)) := by
  induction steps generalizing place with
  | nil => rfl
  | cons step steps ih =>
    have hhere := directory_of_down (moving_wayOf _) hup hdir
    rw [wayOf_cons] at hup hshort hdir ⊢
    rw [leads_append] at hdir ⊢
    have hrest := ih (fun h => hne (List.mem_cons_of_mem _ h))
      (fun h => hup (List.mem_append_right _ h))
      (fun name h => hshort name (List.mem_append_right _ h)) hdir
    have hthere := directory_of_down (moving_wayOf _) (fun h => hup (List.mem_append_right _ h)) hdir
    refine walk_cons_eq_ok_iff.mpr ⟨_, ?_, hrest⟩
    have hempty : step ≠ "" := fun h => hne (h ▸ List.mem_cons_self)
    by_cases hpoint : step = "."
    · subst hpoint
      exact .stay hhere
    · by_cases hrise : step = ".."
      · subst hrise
        exact absurd (List.mem_append_left _ List.mem_cons_self) hup
      · have hname : wayOf [step] = [.name step] := by simp [wayOf, step?, hempty, hpoint, hrise]
        rw [hname] at hshort hthere ⊢
        exact .down hhere hpoint hrise (hshort step List.mem_cons_self)
          (Option.isSome_of_eq_some hthere)

/-- What has become of a directory or a file is of the same kind. -/
theorem Retains.directory_of (h : Retains fs fs') (hp : (fs.at? place).isSome = true)
    (hd : fs'.at? place = some none) : fs.at? place = some none := by
  cases hat : fs.at? place with
  | none => simp [hat] at hp
  | some kind =>
    cases kind with
    | none => rfl
    | some content =>
      obtain ⟨content', hc⟩ := h.file place content hat
      rw [hd] at hc
      cases hc

/-- A walk in a later file system was possible before if all that it passes existed. -/
theorem walk_of_retained (h : Retains fs fs') (hne : "" ∉ steps) (hw : fs'.walk place steps = .ok q)
    (hp : fs.Passes place (wayOf steps)) : fs.walk place steps = .ok q := by
  induction steps generalizing place with
  | nil => exact hw
  | cons step steps ih =>
    obtain ⟨next, hstep, hrest⟩ := walk_cons_eq_ok_iff.mp hw
    have hway := wayOf_cons step steps
    have hnext := hstep.eq_leads fun he => hne (he ▸ List.mem_cons_self)
    -- both ends of the step existed, so they are of the kind they were
    have hhere : (fs.at? place).isSome = true := hp [] List.nil_prefix
    have hthere : (fs.at? next).isSome = true := by
      rw [hnext]
      apply hp
      rw [hway]
      exact List.prefix_append _ _
    apply walk_cons_eq_ok_iff.mpr
    refine ⟨next, ?_, ih (fun he => hne (List.mem_cons_of_mem _ he)) hrest fun front hf => ?_⟩
    · cases hstep with
      | stay hd => exact .stay (h.directory_of hhere hd)
      | up hd => exact .up (h.directory_of hhere hd)
      | down hd hstay hup hlimit _ => exact .down (h.directory_of hhere hd) hstay hup hlimit hthere
    · rw [hnext, ← leads_append]
      apply hp
      rw [hway]
      exact (List.prefix_append_right_inj _).mpr hf

end Stencil.FileSystem
