import Stencil.Proofs.FileSystem.Along
import Stencil.Proofs.FileSystem.Standing

namespace Stencil.FileSystem

variable {fs made : FileSystem} {p : Path} {place : List String}

/-- Whether a directory is empty once it and the way to it are made. A path that goes up again may
lead into a directory that holds what was made on the way: once `new/x/..` is made, `new` holds
`x`. -/
def Fresh (fs : FileSystem) (p : Path) : Prop :=
  ∀ made, createDirectories p fs = .ok () made → made.names p = .ok []

/-- A directory has no entries exactly if nothing stands below it. -/
theorem entries_eq_nil_iff {entries : List (String × Node)}
    (h : fs.root.get? place = some (.directory entries)) :
    entries = [] ↔ ∀ name, fs.at? (place ++ [name]) = none := by
  have hname (name : String) : fs.at? (place ++ [name]) = none ↔ entries.lookup name = none := by
    have hsome := at?_concat_isSome fs place name
    rw [h, Option.bind_some] at hsome
    rw [← Option.not_isSome_iff_eq_none, ← Option.not_isSome_iff_eq_none, hsome]
    rfl
  constructor
  · rintro rfl name
    exact (hname name).mpr rfl
  · intro hnone
    cases entries with
    | nil => rfl
    | cons entry rest =>
      obtain ⟨name, node⟩ := entry
      have hfirst := (hname name).mp (hnone name)
      simp at hfirst

/-- A path leads to an empty directory exactly if it leads to a directory with nothing below it. -/
theorem names_eq_nil_iff (hp : p.isRooted = true) : fs.names p = .ok [] ↔
    fs.isDirectory p = true ∧ ∀ name, fs.at? (p.placeFrom [] ++ [name]) = none := by
  -- a rooted path leads to the same place from everywhere
  have hnames {place : List String} {entries : List (String × Node)}
      (h : fs.resolve p = .ok (place, .directory entries)) :
      fs.names p = .ok (entries.map (·.1)) ∧ place = p.placeFrom [] := by
    refine ⟨by simp [names, h, bind, Except.bind, pure, Except.pure], ?_⟩
    have hdenotes : fs.Denotes p place := ⟨_, h⟩
    rw [hdenotes.eq_placeFrom, Path.placeFrom_eq, Path.placeFrom_eq, hp]
    rfl
  constructor
  · intro h
    obtain ⟨⟨place, node⟩, hresolve, hnode⟩ := bind_eq_ok_iff.mp h
    cases node with
    | file content => cases hnode
    | directory entries =>
      obtain ⟨hlisted, rfl⟩ := hnames hresolve
      have hempty : entries = [] := List.map_eq_nil_iff.mp (Except.ok.inj (hlisted.symm.trans h))
      refine ⟨by simp [isDirectory, hresolve], ?_⟩
      exact (entries_eq_nil_iff (get?_of_resolve hresolve)).mp hempty
  · rintro ⟨hdir, hnone⟩
    unfold isDirectory at hdir
    split at hdir
    · next place entries hresolve =>
      obtain ⟨hlisted, rfl⟩ := hnames hresolve
      have hempty := (entries_eq_nil_iff (get?_of_resolve hresolve)).mpr hnone
      rw [hlisted, hempty]
      rfl
    · cases hdir

/-- Nothing stands anywhere below an empty directory. -/
theorem at?_of_names_eq_nil (hp : p.isRooted = true) (h : fs.names p = .ok []) {names : List String}
    (hne : names ≠ []) : fs.at? (p.placeFrom [] ++ names) = none := by
  obtain ⟨name, rest, rfl⟩ := List.exists_cons_of_ne_nil hne
  have hnone := ((names_eq_nil_iff hp).mp h).2 name
  rw [← Option.not_isSome_iff_eq_none]
  intro hsome
  have hprefix : p.placeFrom [] ++ [name] <+: p.placeFrom [] ++ name :: rest := ⟨rest, by simp⟩
  have hfirst := at?_of_prefix hsome hprefix
  rw [hnone] at hfirst
  cases hfirst

/-- Where nothing stands at a path that never goes up, what is made there is fresh. -/
theorem fresh_of_missing (hp : p.isRooted = true) (hup : .up ∉ p.moves)
    (hfree : fs.at? (p.placeFrom []) = none) : fs.Fresh p := by
  intro made hmake
  have hstart : p.placeFrom [] = leads [] p.moves := by rw [Path.placeFrom_eq, if_pos hp]
  have hdir : made.isDirectory p = true := by
    have hmade := createDirectories_triple fs p fs (Grown.refl fs)
    rw [hmake] at hmade
    refine hmade.2 (not_or.mpr ⟨Path.text_ne_empty hp, fun hparent => ?_⟩)
    -- the root is not missing
    have hmoves := Path.moves_eq_nil_of_parent (Option.isNone_iff_eq_none.mp hparent)
    rw [hstart, hmoves] at hfree
    cases hfree
  refine (names_eq_nil_iff hp).mpr ⟨hdir, fun name => ?_⟩
  -- nothing was below the place before, so what is below it now was made
  have hbefore : fs.at? (p.placeFrom [] ++ [name]) = none := by
    rw [← Option.not_isSome_iff_eq_none]
    intro hsome
    have habove := (at?_of_append hsome).1
    rw [hfree] at habove
    cases habove
  rw [← Option.not_isSome_iff_eq_none]
  intro hsome
  have hgained := createDirectories_gained (S := p.Passing fs.workingDirectory) (fun _ h => h) fs
    (Gained.refl _ fs)
  rw [hmake] at hgained
  obtain ⟨front, hfront, heq⟩ := hgained.place _ hbefore hsome
  -- what the path passes is no longer than where it leads
  rw [if_pos hp] at heq
  obtain ⟨rest, hrest⟩ := hfront
  have hrestUp : .up ∉ rest := fun h => hup (hrest ▸ List.mem_append_right _ h)
  have hmoving : Moving rest := fun c hc =>
    Path.moving_moves p c (hrest ▸ List.mem_append_right _ hc)
  obtain ⟨names, hnames, -⟩ := leads_eq_append hmoving hrestUp (leads [] front)
  have hlength : (p.placeFrom []).length = (p.placeFrom [] ++ [name]).length + names.length := by
    rw [heq, ← List.length_append, ← hnames, ← leads_append, hrest, hstart]
  rw [List.length_append, List.length_singleton] at hlength
  omega

end Stencil.FileSystem
