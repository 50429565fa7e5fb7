import Stencil.Proofs.FileSystem.Fresh
import Stencil.Proofs.Generation.Extent
import Stencil.Proofs.Package.Places

namespace Stencil

open FileSystem (Gained Grown Passes Retains Wrote)

variable {fs fs' made : FileSystem} {entries grown : PackageEntries} {place names : List String}
  {base : Path} {relative : Path} {file : PackageFile} {trail : List String}

/-- Below a place there are the directories and the files of a layout, and nothing else. -/
def PackageEntries.Mirrors (entries : PackageEntries) (fs : FileSystem) (place : List String) : Prop :=
  ∀ names, (fs.at? (place ++ names)).map Option.isSome = (entries.at? names).map Option.isSome

namespace PackageEntries.Mirrors

theorem isSome_iff (h : entries.Mirrors fs place) (names : List String) :
    (fs.at? (place ++ names)).isSome = (entries.at? names).isSome := by
  have hkind := congrArg Option.isSome (h names)
  rwa [Option.isSome_map, Option.isSome_map] at hkind

/-- An empty directory is mirrored by an empty layout. -/
theorem empty (hp : base.isRooted = true) (h : fs.names base = .ok []) :
    Mirrors [] fs (base.placeFrom []) := by
  intro names
  by_cases hnames : names = []
  · obtain ⟨place, hdenotes, hdir⟩ :=
      FileSystem.isDirectory_iff.mp ((FileSystem.names_eq_nil_iff hp).mp h).1
    have hplace : place = base.placeFrom [] := by
      rw [hdenotes.eq_placeFrom, Path.placeFrom_eq, Path.placeFrom_eq, hp]
      rfl
    rw [hnames, List.append_nil, ← hplace, hdir, at?_nil]
    rfl
  · rw [FileSystem.at?_of_names_eq_nil hp h hnames, at?_empty hnames]
    rfl

/-- Where a file was added, and nothing besides but directories above it, the layout mirrors this with
that file inserted. -/
theorem insert (h : entries.Mirrors fs place) (hretains : Retains fs fs')
    (hgained : ∀ others, fs.at? (place ++ others) = none →
      (fs'.at? (place ++ others)).isSome = true → others <+: names)
    (hfile : fs'.FileAt (place ++ names))
    (hinsert : insertAt file trail entries names = .ok grown) : grown.Mirrors fs' place := by
  intro others
  obtain ⟨content, hcontent⟩ := hfile
  rw [(enters_of_insertAt hinsert).at?_eq]
  split
  · next heq =>
    rw [heq, hcontent]
    rfl
  · next hne =>
    split
    · next hprefix =>
      -- what stands above a file is a directory
      obtain ⟨more, rfl⟩ := hprefix
      have hmore : more ≠ [] := by
        rintro rfl
        exact hne (List.append_nil _).symm
      rw [← List.append_assoc] at hcontent
      rw [(FileSystem.at?_of_append (Option.isSome_of_eq_some hcontent)).2 hmore]
      rfl
    · next hbeside =>
      rw [← h others]
      -- off the way to the file nothing was added, and what was there is kept
      cases hat : fs.at? (place ++ others) with
      | none =>
        have hnone : fs'.at? (place ++ others) = none := by
          rw [← Option.not_isSome_iff_eq_none]
          exact fun hsome => hbeside (hgained others hat hsome)
        rw [hnone]
      | some kind =>
        cases kind with
        | none => rw [hretains.directory _ hat]
        | some content' =>
          obtain ⟨content'', hlater⟩ := hretains.file _ content' hat
          rw [hlater]
          rfl

end PackageEntries.Mirrors

section

variable (hb : base.isRooted = true) (hr : relative.isRooted = false)
  (hmoves : relative.moves = names.map .name)
include hb hr hmoves

/-- Where a target leads whose relative path spells names. -/
theorem placeFrom_target (start : List String) :
    (base.join relative).placeFrom start = base.placeFrom [] ++ names := by
  have ht := Path.isRooted_join hb relative
  rw [placeFrom_of_isRooted ht, Path.moves_join base hr, hmoves, leads_append, Path.leads_map_name,
    placeFrom_of_isRooted hb]

theorem components_target :
    (base.join relative).components = base.components ++ names.map .name := by
  rw [Path.components_of_isRooted (Path.isRooted_join hb relative), Path.components_of_isRooted hb,
    Path.moves_join base hr, hmoves, List.cons_append]

/-- What a target adds stands above it in the destination. -/
theorem prefix_of_gained (hbase : fs.Passes [] base.moves)
    (hgained : Gained ((base.join relative).Passing []) fs fs') {others : List String}
    (hnone : fs.at? (base.placeFrom [] ++ others) = none)
    (hsome : (fs'.at? (base.placeFrom [] ++ others)).isSome = true) : others <+: names := by
  rcases passing_join hb hr (hgained.place _ hnone hsome) with hpassing | ⟨front, hfront, heq⟩
  · -- what the destination passes was there
    obtain ⟨front, hfront, heq⟩ := hpassing
    rw [if_pos hb] at heq
    have hthere := hbase front hfront
    rw [← heq, hnone] at hthere
    cases hthere
  · rw [hmoves] at hfront
    obtain ⟨rest, hrest⟩ := hfront
    obtain ⟨others', rest', rfl, rfl, -⟩ := List.map_eq_append_iff.mp hrest.symm
    rw [Path.leads_map_name] at heq
    rw [List.append_cancel_left heq]
    exact List.prefix_append _ _

/-- Nothing stands where a target is found to be free and is then written. -/
theorem free_of_written (hbase : fs.Passes [] base.moves)
    (hfree : fs.has (base.join relative) = false) (hgrown : Grown fs made) {target : List String}
    {content : ByteArray} (hwrote : Wrote made (base.join relative) target content fs') :
    fs.at? (base.placeFrom [] ++ names) = none := by
  rw [← Option.not_isSome_iff_eq_none]
  intro hsome
  -- if something stood there, the target would pass only what is there, and would be found
  have hpasses : fs.Passes [] (base.join relative).moves := by
    have hup : .up ∉ relative.moves.dropWhile (· = .up) := by
      intro hmem
      have hname := List.dropWhile_subset _ hmem
      simp [hmoves] at hname
    rw [Path.moves_join base hr]
    refine passes_append hbase (passes_of_straight (Path.moving_moves relative) hup
      (hbase _ (List.prefix_refl _)) ?_)
    rwa [hmoves, Path.leads_map_name, ← placeFrom_of_isRooted hb []]
  rw [has_of_passes (Path.isRooted_join hb relative) hgrown hwrote hpasses] at hfree
  cases hfree

end

end Stencil
