import Stencil.Proofs.FileSystem.Writing

namespace Stencil

/-- The places that a path passes for a program that runs in a place. -/
def Path.Passing (p : Path) (start place : List String) : Prop :=
  ∃ front, front <+: p.moves ∧ place = leads (if p.isRooted then [] else start) front

theorem Path.passing_placeFrom (p : Path) (start : List String) :
    p.Passing start (p.placeFrom start) :=
  ⟨p.moves, List.prefix_refl _, Path.placeFrom_eq p start⟩

/-- A parent passes nothing else. -/
theorem Path.Passing.of_parent {p r : Path} {start place : List String} (hr : p.parent? = some r)
    (h : r.Passing start place) : p.Passing start place := by
  obtain ⟨front, hfront, rfl⟩ := h
  rw [Path.moves_parent hr] at hfront
  rw [Path.isRooted_parent hr]
  exact ⟨front, hfront.trans (List.dropLast_prefix _), rfl⟩

theorem Path.Passing.of_ancestor {p q : Path} {start place : List String} (hq : q ∈ p.ancestors)
    (h : q.Passing start place) : p.Passing start place := by
  have hupTo (n : Nat) : ∀ p : Path, q ∈ p.ancestorsUpTo n → p.Passing start place := by
    induction n with
    | zero =>
      intro p hq
      rwa [← List.mem_singleton.mp hq]
    | succ n ih =>
      intro p hq
      unfold Path.ancestorsUpTo at hq
      split at hq
      · next r hr =>
        rcases List.mem_cons.mp hq with rfl | hq
        · exact h
        · exact (ih r hq).of_parent hr
      · rwa [← List.mem_singleton.mp hq]
  exact hupTo _ p hq

namespace FileSystem

variable {S T : List String → Prop} {start fs fs' : FileSystem} {p : Path}

/-- All that is new stands at some of the places `S`. -/
structure Gained (S : List String → Prop) (fs fs' : FileSystem) : Prop where
  workingDirectory : fs'.workingDirectory = fs.workingDirectory
  place : ∀ place, fs.at? place = none → (fs'.at? place).isSome = true → S place

namespace Gained

theorem refl (S : List String → Prop) (fs : FileSystem) : Gained S fs fs :=
  ⟨rfl, fun place hnone hsome => by simp [hnone] at hsome⟩

theorem trans {fs₁ fs₂ fs₃ : FileSystem} (h : Gained S fs₁ fs₂) (h' : Gained S fs₂ fs₃) :
    Gained S fs₁ fs₃ := by
  refine ⟨h'.workingDirectory.trans h.workingDirectory, fun place hnone hsome => ?_⟩
  cases hbetween : fs₂.at? place with
  | none => exact h'.place place hbetween hsome
  | some kind => exact h.place place hnone (Option.isSome_of_eq_some hbetween)

theorem mono (h : Gained S fs fs') (hST : ∀ place, S place → T place) : Gained T fs fs' :=
  ⟨h.workingDirectory, fun place hnone hsome => hST place (h.place place hnone hsome)⟩

end Gained

/-- A step that makes or writes something at one place adds nothing else. -/
theorem gained_of_at? {q : List String} {kind : Option ByteArray}
    (hwd : fs'.workingDirectory = fs.workingDirectory)
    (hat : ∀ place, fs'.at? place = if place = q then some kind else fs.at? place) (hq : S q) :
    Gained S fs fs' := by
  refine ⟨hwd, fun place hnone hsome => ?_⟩
  rw [hat] at hsome
  split at hsome
  · next heq => exact heq ▸ hq
  · simp [hnone] at hsome

theorem Wrote.gained {place : List String} {content : ByteArray} (h : Wrote fs p place content fs') :
    Gained (p.Passing fs.workingDirectory) fs fs' :=
  gained_of_at? h.workingDirectory h.at? (h.place_eq ▸ p.passing_placeFrom _)

/-- A step that writes its target or fails without a trace adds at most what the target passes. -/
theorem Gained.of_wrote {x : FileStep Unit}
    (hx : ∀ fs, Triple (· = fs) x (fun _ fs' => ∃ place content, Wrote fs p place content fs') (· = fs))
    (hS : ∀ place, p.Passing start.workingDirectory place → S place) :
    Triple (Gained S start) x (fun _ => Gained S start) (Gained S start) := by
  intro fs hfs
  refine ((hx fs).mono (fun _ h => h) (fun _ fs' h => ?_) fun fs' h => ?_) fs rfl
  · obtain ⟨place, content, hwrote⟩ := h
    exact hfs.trans (hwrote.gained.mono fun place hp => hS place (hfs.workingDirectory ▸ hp))
  · exact h.symm ▸ hfs

/-- Writing a file adds at most what its path passes. -/
theorem write_gained (content : ByteArray)
    (hS : ∀ place, p.Passing start.workingDirectory place → S place) :
    Triple (Gained S start) (write p content) (fun _ => Gained S start) (Gained S start) :=
  Gained.of_wrote (fun fs => (write_triple fs p content).mono (fun _ h => h)
    (fun _ _ ⟨place, hwrote⟩ => ⟨place, _, hwrote⟩) fun _ h => h) hS

theorem makeDirectory_gained (h : makeDirectory p fs = .ok () fs') :
    Gained (p.Passing fs.workingDirectory) fs fs' := by
  unfold makeDirectory at h
  split at h
  · next place hplace =>
    cases h
    obtain ⟨above, last, hsite, rfl, hfree⟩ := newDirectoryPlace_eq_ok hplace
    have hne : fs.at? (above ++ [last]) ≠ some none := by simp [hfree]
    have hat := at?_put hsite.directory hne (rfl : (Node.directory []).entries = [])
    exact gained_of_at? rfl hat (hsite.place_eq ▸ p.passing_placeFrom _)
  · cases h

/-- One attempt at a directory, in a file system that gained nothing else before. -/
theorem Gained.makeDirectory (hS : ∀ place, p.Passing start.workingDirectory place → S place)
    (h : Gained S start fs) (hmake : FileSystem.makeDirectory p fs = .ok () fs') :
    Gained S start fs' :=
  h.trans ((makeDirectory_gained hmake).mono fun place hp => hS place (h.workingDirectory ▸ hp))

theorem ensureDirectory_gained (hS : ∀ place, p.Passing start.workingDirectory place → S place) :
    Triple (Gained S start) (ensureDirectory p) (fun _ => Gained S start) (Gained S start) := by
  intro fs hfs
  unfold ensureDirectory
  cases hmake : makeDirectory p fs with
  | ok _ made => exact hfs.makeDirectory hS hmake
  | error fault same =>
    rw [makeDirectory_error hmake]
    cases fault with
    | «exists» => by_cases hdir : fs.isDirectory p = true <;> simpa [hdir] using hfs
    | _ => exact hfs

/-- A climb gains at most what one of its paths passes, and leaves only some of these paths. -/
theorem climb_gained {paths : List Path}
    (hS : ∀ p ∈ paths, ∀ place, p.Passing start.workingDirectory place → S place) :
    Triple (Gained S start) (climb paths)
      (fun missing fs => Gained S start fs ∧ missing ⊆ paths) (Gained S start) := by
  induction paths with
  | nil => exact fun fs hfs => ⟨hfs, List.Subset.refl _⟩
  | cons p above ih =>
    intro fs hfs
    have hpass := hS p List.mem_cons_self
    unfold climb
    by_cases hstop : p.text = "" ∨ p.parent?.isNone = true
    · simp only [hstop, if_true]
      exact ⟨hfs, List.nil_subset _⟩
    · simp only [hstop, if_false]
      cases hmake : makeDirectory p fs with
      | ok _ made => exact ⟨hfs.makeDirectory hpass hmake, List.nil_subset _⟩
      | error fault same =>
        obtain rfl := makeDirectory_error hmake
        have hrest := ih (fun q hq => hS q (List.mem_cons_of_mem _ hq)) same hfs
        cases fault with
        -- only a missing parent sends the climb on; every other fault ends it here
        | notFound =>
          simp only
          cases hclimb : climb above same with
          | ok missing made =>
            rw [hclimb] at hrest
            exact ⟨hrest.1, List.cons_subset_cons p hrest.2⟩
          | error fault made =>
            rw [hclimb] at hrest
            exact hrest
        | «exists» =>
          by_cases hdir : same.isDirectory p = true
          · simp only [hdir, if_true]
            exact ⟨hfs, List.nil_subset _⟩
          · simp only [hdir]
            exact hfs
        | _ => exact hfs

/-- However far the making of a directory gets, it adds at most what the path passes. -/
theorem createDirectories_gained (hS : ∀ place, p.Passing start.workingDirectory place → S place) :
    Triple (Gained S start) (createDirectories p) (fun _ => Gained S start) (Gained S start) := by
  have hancestors : ∀ q ∈ p.ancestors, ∀ place, q.Passing start.workingDirectory place → S place :=
    fun q hq place hplace => hS place (hplace.of_ancestor hq)
  unfold createDirectories
  refine Triple.ite (fun _ => Triple.pure fun _ hfs => hfs) fun _ => ?_
  refine (climb_gained hancestors).bind fun missing => ?_
  refine Triple.of_and fun hmissing => ?_
  refine Triple.forM fun q hq => ensureDirectory_gained (hancestors q (hmissing ?_))
  exact List.mem_reverse.mp hq

end FileSystem

open FileSystem (Gained Passes Retains)

variable {files fs : FileSystem} {path base : Path} {place : List String}

/-- The places that making a directory and filling it are about: on the way to it, and inside. -/
def Path.Near (base : Path) (place : List String) : Prop :=
  base.Passing [] place ∨ base.placeFrom [] <+: place

/-- A path leads nowhere inside a directory, and where it goes up it leaves a directory that is there
anyhow. -/
structure Path.Avoids (path : Path) (files : FileSystem) (base : Path) : Prop where
  outside : ¬ base.placeFrom [] <+: path.placeFrom files.workingDirectory
  rising : ∀ front, front ++ [.up] <+: path.moves →
    base.Near (leads (files.startOf path) front) →
    (files.at? (leads (files.startOf path) front)).isSome = true

/-- A directory was at most made and filled. -/
structure FileSystem.FilledIn (base : Path) (files fs : FileSystem) : Prop where
  retains : Retains files fs
  gained : Gained base.Near files fs
  inside : ∀ place, fs.FileAt place → files.FileAt place ∨ base.placeFrom [] <+: place

namespace FileSystem.FilledIn

/-- All that such a path passes was there before, if the path leads to a file. -/
theorem passes (h : FilledIn base files fs) (havoids : path.Avoids files base)
    (hp : fs.Passes (files.startOf path) path.moves)
    (hend : (files.at? (leads (files.startOf path) path.moves)).isSome = true) :
    files.Passes (files.startOf path) path.moves := by
  -- from the end backwards: what is above something that was there was there as well
  have hback (rest : List Component) : ∀ front, front ++ rest = path.moves →
      (files.at? (leads (files.startOf path) front)).isSome = true := by
    induction rest with
    | nil =>
      intro front hfront
      rwa [← hfront, List.append_nil] at hend
    | cons c rest ih =>
      intro front hfront
      have hnext : (front ++ [c]) ++ rest = path.moves := by rw [← hfront, List.append_assoc]; rfl
      have hthere := ih (front ++ [c]) hnext
      rcases Path.moving_moves path c (hfront ▸ by simp) with rfl | ⟨name, rfl⟩
      · cases hhere : files.at? (leads (files.startOf path) front) with
        | some kind => rfl
        | none =>
          have hnow := hp front ⟨_, hfront⟩
          rw [← hhere]
          exact havoids.rising front ⟨rest, hnext⟩ (h.gained.place _ hhere hnow)
      · rw [leads_append] at hthere
        exact at?_of_prefix hthere (List.prefix_append _ [name])
  rintro front ⟨rest, hrest⟩
  exact hback rest front hrest

/-- Whether such a path leads to a file does not change. -/
theorem isFile_iff (h : FilledIn base files fs) (havoids : path.Avoids files base) :
    fs.isFile path = true ↔ files.isFile path = true := by
  rw [FileSystem.isFile_iff, FileSystem.isFile_iff]
  constructor
  · rintro ⟨place, hdenotes, hfile⟩
    have hplace : place = path.placeFrom files.workingDirectory := by
      rw [hdenotes.eq_placeFrom, h.retains.workingDirectory]
    have hbefore : files.FileAt place :=
      (h.inside place hfile).resolve_right fun hin => havoids.outside (hplace ▸ hin)
    have hpasses := hdenotes.passes
    rw [startOf_eq h.retains.workingDirectory] at hpasses
    have hend : (files.at? (leads (files.startOf path) path.moves)).isSome = true := by
      rw [leads_startOf, ← hplace]
      obtain ⟨content, hc⟩ := hbefore
      exact Option.isSome_of_eq_some hc
    exact ⟨place, hdenotes.of_retained h.retains (h.passes havoids hpasses hend), hbefore⟩
  · rintro ⟨place, hdenotes, hfile⟩
    exact ⟨place, hdenotes.mono h.retains, h.retains.fileAt hfile⟩

end FileSystem.FilledIn

end Stencil
