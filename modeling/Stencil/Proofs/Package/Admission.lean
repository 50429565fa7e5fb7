import Stencil.Proofs.Package.Insertion
import Stencil.Proofs.Package.Places

namespace Stencil.PackageEntries

variable {entries grown : PackageEntries} {names front trail parts : List String} {name path : String}
  {file : PackageFile} {place : Path}

/-- The parts of a path with either slash between them, without empty parts and single points. -/
def partsOf (path : String) : List String :=
  (Text.split (fun c => c = '/' || c = '\\') path).filter fun name => name ≠ "" && name ≠ "."

/-- Parts that lead somewhere, and never upwards. -/
def Leading (parts : List String) : Prop := parts ≠ [] ∧ ".." ∉ parts

/-- A file stands on the way to the end of a list of names. -/
def Blocks (entries : PackageEntries) (front names : List String) : Prop :=
  front <+: names ∧ front ≠ names ∧ ∃ file, entries.at? front = some (some file)

/-- What a layout has to be like for a file to find its place at the end of a list of names. -/
structure Admits (entries : PackageEntries) (names : List String) : Prop where
  leading : Leading names
  free : entries.at? names = none
  unblocked : ∀ front, ¬ entries.Blocks front names

theorem namesOf?_eq (path : String) :
    namesOf? path = if partsOf path = [] ∨ ".." ∈ partsOf path then none else some (partsOf path) :=
  if_congr (or_congr Iff.rfl List.contains_iff_mem) rfl rfl

theorem namesOf?_eq_none_iff : namesOf? path = none ↔ ¬ Leading (partsOf path) := by
  rw [namesOf?_eq, Leading]
  by_cases h : partsOf path = [] ∨ ".." ∈ partsOf path
  · simp only [h, if_true, true_iff, not_and, not_not]
    exact fun hne => h.resolve_left hne
  · rw [if_neg h]
    simpa [not_or] using h

theorem namesOf?_of_leading (h : Leading (partsOf path)) : namesOf? path = some (partsOf path) := by
  rw [namesOf?_eq, if_neg (not_or.mpr h)]

/-- Nothing stands behind a file. -/
theorem at?_behind_file (hfile : entries.at? front = some (some file)) (hstarts : front <+: names)
    (hne : front ≠ names) : entries.at? names = none := by
  induction front generalizing entries names with
  | nil =>
    rw [at?_nil] at hfile
    cases hfile
  | cons first front ih =>
    obtain ⟨rest, rfl, hrest⟩ : ∃ rest, names = first :: rest ∧ front <+: rest := by
      obtain ⟨more, rfl⟩ := hstarts
      exact ⟨front ++ more, rfl, List.prefix_append _ _⟩
    have hbehind : front ≠ rest := fun heq => hne (heq ▸ rfl)
    rw [at?] at hfile ⊢
    split at hfile
    · cases hfile
    · -- the file is the first name's, so that nothing of the way is left
      split at hfile
      · next hnil =>
        rw [if_neg]
        exact fun hrestnil => hbehind (hnil.trans hrestnil.symm)
      · cases hfile
    · exact ih hfile hrest hbehind

/-- On the way to one place there is one file at most. -/
theorem Blocks.unique {other : List String} (h : entries.Blocks front names)
    (h' : entries.Blocks other names) : front = other := by
  obtain ⟨hstarts, -, file, hfile⟩ := h
  obtain ⟨hstarts', -, file', hfile'⟩ := h'
  by_contra hne
  rcases List.prefix_or_prefix_of_prefix hstarts hstarts' with hshort | hshort
  · have hnone := at?_behind_file hfile hshort hne
    rw [hfile'] at hnone
    cases hnone
  · have hnone := at?_behind_file hfile' hshort (Ne.symm hne)
    rw [hfile] at hnone
    cases hnone

/-- Where a file is in the way nothing stands at the place itself. -/
theorem Blocks.free (h : entries.Blocks front names) : entries.at? names = none := by
  obtain ⟨hstarts, hne, file, hfile⟩ := h
  exact at?_behind_file hfile hstarts hne

/-- Where the files behind a name are those of a directory, so is what is in the way there. -/
theorem blocks_cons_iff {inner : PackageEntries}
    (h : ∀ rest file, entries.at? (name :: rest) = some (some file) ↔ inner.at? rest = some (some file)) :
    entries.Blocks front (name :: names) ↔ ∃ rest, front = name :: rest ∧ inner.Blocks rest names := by
  constructor
  · rintro ⟨hstarts, hne, file, hfile⟩
    cases front with
    | nil =>
      rw [at?_nil] at hfile
      cases hfile
    | cons first rest =>
      obtain ⟨rfl, hrest⟩ := List.cons_prefix_cons.mp hstarts
      exact ⟨rest, rfl, hrest, fun heq => hne (heq ▸ rfl), file, (h rest file).mp hfile⟩
  · rintro ⟨rest, rfl, hrest, hne, file, hfile⟩
    exact ⟨List.cons_prefix_cons.mpr ⟨rfl, hrest⟩, fun heq => hne (List.cons.inj heq).2, file,
      (h rest file).mpr hfile⟩

/-- In a directory without entries no file stands. -/
theorem at?_empty_ne_file (names : List String) : at? [] names ≠ some (some file) := by
  cases names with
  | nil => simp
  | cons name rest =>
    rw [at?_empty (List.cons_ne_nil name rest)]
    nofun

/-- What becomes of a file at the end of a list of names, below a trail. -/
inductive Fate (entries : PackageEntries) (trail names : List String) :
    Except InsertFault PackageEntries → Prop
  | blocked (front : List String) (h : entries.Blocks front names) :
    Fate entries trail names (.error (.notADirectory (pathOfNames (trail ++ front))))
  | taken (h : (entries.at? names).isSome = true) :
    Fate entries trail names (.error (.duplicate (pathOfNames (trail ++ names))))
  | placed (grown : PackageEntries) (hfree : entries.at? names = none)
    (hopen : ∀ front, ¬ entries.Blocks front names) : Fate entries trail names (.ok grown)

/-- A fate in the directory of the first name is one of the whole way. -/
theorem Fate.cons {inner : PackageEntries} {result : Except InsertFault PackageEntries}
    (h : Fate inner (trail ++ [name]) names result) (put : PackageEntries → PackageEntries)
    (hat : entries.at? (name :: names) = inner.at? names)
    (hfiles : ∀ rest file,
      entries.at? (name :: rest) = some (some file) ↔ inner.at? rest = some (some file)) :
    Fate entries trail (name :: names) (result >>= fun grown => pure (put grown)) := by
  have htrail (rest : List String) : trail ++ [name] ++ rest = trail ++ name :: rest := by simp
  cases h with
  | blocked front h =>
    rw [htrail]
    exact .blocked (name :: front) ((blocks_cons_iff hfiles).mpr ⟨front, rfl, h⟩)
  | taken h =>
    rw [htrail]
    exact .taken (hat ▸ h)
  | placed grown hfree hopen =>
    refine .placed _ (hat.trans hfree) fun front hfront => ?_
    obtain ⟨rest, -, hrest⟩ := (blocks_cons_iff hfiles).mp hfront
    exact hopen rest hrest

/-- What an insertion comes to is told by what stands on its way and at its end. -/
theorem fate_of_insertAt (file : PackageFile) (trail : List String) (entries : PackageEntries)
    (hnames : names ≠ []) : Fate entries trail names (insertAt file trail entries names) := by
  -- one directory for each name but the last
  induction names generalizing trail entries with
  | nil => exact absurd rfl hnames
  | cons name rest ih =>
    -- behind a name that is free there is nothing, as in a directory that is made for it
    have hmade (hlookup : entries.lookup name = none) (rest : List String) (file : PackageFile) :
        entries.at? (name :: rest) = some (some file) ↔ at? [] rest = some (some file) := by
      rw [at?_of_none hlookup]
      exact iff_of_false nofun (at?_empty_ne_file rest)
    cases rest with
    | nil =>
      unfold insertAt
      cases hlookup : entries.lookup name with
      | some node =>
        refine .taken ?_
        cases node <;> simp [at?, hlookup]
      | none =>
        refine .placed _ (at?_of_none hlookup []) fun front hfront => ?_
        obtain ⟨rest, -, -, -, file, hfile⟩ := (blocks_cons_iff (hmade hlookup)).mp hfront
        exact at?_empty_ne_file rest hfile
    | cons next rest =>
      have hmore : next :: rest ≠ [] := List.cons_ne_nil next rest
      unfold insertAt
      cases hlookup : entries.lookup name with
      | none =>
        refine (ih (trail ++ [name]) [] hmore).cons _ ?_ (hmade hlookup)
        rw [at?_of_none hlookup, at?_empty hmore]
      | some node =>
        cases node with
        | file other =>
          refine .blocked [name] ⟨⟨next :: rest, rfl⟩, by simp, other, ?_⟩
          simp [at?, hlookup]
        | directory inner =>
          exact (ih (trail ++ [name]) inner hmore).cons _ (at?_of_directory hlookup _)
            fun rest _ => by rw [at?_of_directory hlookup]

/-- A file is inserted only where nothing stands. -/
theorem at?_of_insertAt (hinsert : insertAt file trail entries names = .ok grown) :
    entries.at? names = none := by
  have hfate := fate_of_insertAt file trail entries (enters_of_insertAt hinsert).ne_nil
  rw [hinsert] at hfate
  cases hfate with
  | placed _ hfree _ => exact hfree

/-- A duplicate is reported only where something stands. -/
theorem at?_of_duplicate (hinsert : insertAt file trail entries names = .error (.duplicate place)) :
    (entries.at? names).isSome = true := by
  have hnames : names ≠ [] := by
    rintro rfl
    cases hinsert
  have hfate := fate_of_insertAt file trail entries hnames
  rw [hinsert] at hfate
  cases hfate with
  | taken h => exact h

/-- Joining name after name gives the path that the names spell. -/
theorem pathOfNames_eq_foldl (hnames : ∀ n ∈ names, PlainName n) :
    pathOfNames names = names.foldl (fun here name => here.join ⟨name⟩) ⟨""⟩ := by
  induction names using List.reverseRecOn with
  | nil => rfl
  | append_singleton front last ih =>
    have hfront : ∀ n ∈ front, PlainName n := fun n hn => hnames n (List.mem_append_left _ hn)
    have hlast : PlainName last := hnames last (by simp)
    rw [List.foldl_append, ← ih hfront, pathOfNames_concat hfront hlast]
    rfl

/-- The four ends of an insertion in place, each with what is there afterwards. -/
theorem insertInPlace_cases (entries : PackageEntries) (path : String) (file : PackageFile) :
    (¬ Leading (partsOf path) ∧ entries.insertInPlace path file = (.error (.invalidPath path), entries)) ∨
    (∃ front, Leading (partsOf path) ∧ entries.Blocks front (partsOf path) ∧
      entries.insertInPlace path file = (.error (.notADirectory (pathOfNames front)), entries)) ∨
    (Leading (partsOf path) ∧ (entries.at? (partsOf path)).isSome = true ∧
      entries.insertInPlace path file = (.error (.duplicate (pathOfNames (partsOf path))), entries)) ∨
    (Admits entries (partsOf path) ∧ ∃ grown, insertAt file [] entries (partsOf path) = .ok grown ∧
      entries.insertInPlace path file = (.ok (), grown)) := by
  by_cases hlead : Leading (partsOf path)
  · have hplace : entries.insertInPlace path file = descend file [] entries (partsOf path) := by
      rw [insertInPlace, namesOf?_of_leading hlead]
    have hfate := fate_of_insertAt file [] entries hlead.1
    rw [hplace, descend_eq]
    cases hinsert : insertAt file [] entries (partsOf path) with
    | error fault =>
      rw [hinsert] at hfate
      cases hfate with
      | blocked front h => exact .inr (.inl ⟨front, hlead, h, rfl⟩)
      | taken h => exact .inr (.inr (.inl ⟨hlead, h, rfl⟩))
    | ok grown =>
      rw [hinsert] at hfate
      cases hfate with
      | placed _ hfree hopen => exact .inr (.inr (.inr ⟨⟨hlead, hfree, hopen⟩, grown, rfl, rfl⟩))
  · refine .inl ⟨hlead, ?_⟩
    rw [insertInPlace, namesOf?_eq_none_iff.mpr hlead]

/-- What an insertion does to a layout, and when it does so. -/
structure ExactInsertion (entries : PackageEntries) (path : String) (file : PackageFile) : Prop where
  /-- The file finds its place exactly if the layout admits it. -/
  succeeds : (entries.insertInPlace path file).1 = .ok () ↔ Admits entries (partsOf path)
  invalid (text : String) : (entries.insertInPlace path file).1 = .error (.invalidPath text) ↔
    ¬ Leading (partsOf path) ∧ text = path
  blocked (place : Path) : (entries.insertInPlace path file).1 = .error (.notADirectory place) ↔
    Leading (partsOf path) ∧ ∃ front, entries.Blocks front (partsOf path) ∧ place = pathOfNames front
  taken (place : Path) : (entries.insertInPlace path file).1 = .error (.duplicate place) ↔
    Leading (partsOf path) ∧ (entries.at? (partsOf path)).isSome = true ∧
      place = pathOfNames (partsOf path)
  /-- A failure leaves the whole layout as it was. -/
  restored (fault : InsertFault) : (entries.insertInPlace path file).1 = .error fault →
    (entries.insertInPlace path file).2 = entries ∧ entries.insert path file = .error fault
  /-- The parts of the path are what is returned; their path is the one that joining them gives. -/
  returned : Admits entries (partsOf path) →
    entries.insert path file = .ok ((entries.insertInPlace path file).2, partsOf path) ∧
      pathOfNames (partsOf path) = (partsOf path).foldl (fun here name => here.join ⟨name⟩) ⟨""⟩
  /-- The files are those from before, in their order, and the one that is new. -/
  gained : Admits entries (partsOf path) → partsOf path ∉ entries.files.map Prod.fst ∧
    ∃ front back, entries.files = front ++ back ∧
      (entries.insertInPlace path file).2.files = front ++ (partsOf path, file) :: back
  /-- Beside the file only the directories above it can be new. -/
  elsewhere : Admits entries (partsOf path) → ∀ names,
    (entries.insertInPlace path file).2.at? names =
      if names = partsOf path then some (some file)
      else if names <+: partsOf path then some none else entries.at? names

/-- A failure in place leaves the layout as it was. -/
theorem insertInPlace_error {fault : InsertFault}
    (h : (entries.insertInPlace path file).1 = .error fault) :
    (entries.insertInPlace path file).2 = entries ∧ entries.insert path file = .error fault := by
  rw [insertInPlace_eq] at h ⊢
  cases hinsert : entries.insert path file with
  | ok result =>
    rw [hinsert] at h
    cases h
  | error other =>
    rw [hinsert] at h
    cases h
    exact ⟨rfl, rfl⟩

/-- An insertion that is refused is exact if it is refused for the reason that is given. -/
theorem ExactInsertion.of_refused {fault : InsertFault}
    (hplace : entries.insertInPlace path file = (.error fault, entries))
    (hrefused : ¬ Admits entries (partsOf path))
    (hinvalid : ∀ text, fault = .invalidPath text ↔ ¬ Leading (partsOf path) ∧ text = path)
    (hblocked : ∀ place, fault = .notADirectory place ↔ Leading (partsOf path) ∧
      ∃ front, entries.Blocks front (partsOf path) ∧ place = pathOfNames front)
    (htaken : ∀ place, fault = .duplicate place ↔ Leading (partsOf path) ∧
      (entries.at? (partsOf path)).isSome = true ∧ place = pathOfNames (partsOf path)) :
    ExactInsertion entries path file where
  succeeds := by
    rw [hplace]
    exact iff_of_false nofun hrefused
  invalid text := by
    rw [hplace, Except.error.injEq, hinvalid]
  blocked place := by
    rw [hplace, Except.error.injEq, hblocked]
  taken place := by
    rw [hplace, Except.error.injEq, htaken]
  restored _ := insertInPlace_error
  returned h := absurd h hrefused
  gained h := absurd h hrefused
  elsewhere h := absurd h hrefused

/-- An insertion that goes through is exact: what is new is the file, and the directories above it. -/
theorem ExactInsertion.of_placed (hadmits : Admits entries (partsOf path))
    (hinsert : insertAt file [] entries (partsOf path) = .ok grown)
    (hplace : entries.insertInPlace path file = (.ok (), grown)) (hproper : ProperFrom grown) :
    ExactInsertion entries path file where
  succeeds := by
    rw [hplace]
    exact iff_of_true rfl hadmits
  invalid text := by
    rw [hplace]
    exact iff_of_false nofun fun h => h.1 hadmits.leading
  blocked place := by
    rw [hplace]
    refine iff_of_false nofun ?_
    rintro ⟨-, front, hblocks, -⟩
    exact hadmits.unblocked front hblocks
  taken place := by
    rw [hplace]
    refine iff_of_false nofun ?_
    rintro ⟨-, hsome, -⟩
    rw [hadmits.free] at hsome
    cases hsome
  restored _ := insertInPlace_error
  returned _ := by
    have hnames := namesOf?_of_leading hadmits.leading
    rw [hplace]
    exact ⟨insert_ok_iff.mpr ⟨hnames, hinsert⟩, pathOfNames_eq_foldl (plain_of_namesOf hnames)⟩
  gained _ := by
    obtain ⟨front, back, hold, hnew⟩ := (enters_of_insertAt hinsert).files_split []
    have hdistinct := nodup_filesFrom [] grown hproper
    rw [hnew, List.map_append, List.map_cons, List.nodup_append_comm, List.cons_append,
      List.nodup_cons, ← List.map_append, List.nil_append] at hdistinct
    refine ⟨fun hmem => hdistinct.1 ?_, front, back, hold, ?_⟩
    · -- the file stands apart from all others, whichever side of it they are on
      have hall : entries.files = front ++ back := hold
      rw [hall, List.map_append] at hmem
      rw [List.map_append]
      exact List.mem_append.mpr (List.mem_append.mp hmem).symm
    · rw [hplace]
      exact hnew
  elsewhere _ names := by
    rw [hplace]
    exact (enters_of_insertAt hinsert).at?_eq names

/-- Insertion into a layout is exact, and all or nothing. -/
theorem insertion_exact (calls : List (String × PackageFile)) (path : String) (file : PackageFile) :
    ExactInsertion (afterInserting calls) path file := by
  have hsound := (sound_afterInserting calls).insertInPlace path file
  rcases insertInPlace_cases (afterInserting calls) path file with
    ⟨hlead, hplace⟩ | ⟨front, hlead, hblocks, hplace⟩ | ⟨hlead, htaken, hplace⟩ |
      ⟨hadmits, grown, hinsert, hplace⟩
  · refine .of_refused hplace (fun h => hlead h.leading) (fun text => ?_)
      (fun place => iff_of_false nofun fun h => hlead h.1)
      (fun place => iff_of_false nofun fun h => hlead h.1)
    rw [InsertFault.invalidPath.injEq, eq_comm]
    exact (and_iff_right hlead).symm
  · refine .of_refused hplace (fun h => h.unblocked front hblocks)
      (fun text => iff_of_false nofun fun h => h.1 hlead) (fun place => ?_)
      (fun place => iff_of_false nofun fun h => ?_)
    · rw [InsertFault.notADirectory.injEq]
      constructor
      · rintro rfl
        exact ⟨hlead, front, hblocks, rfl⟩
      · rintro ⟨-, other, hother, rfl⟩
        rw [hblocks.unique hother]
    · -- behind a file nothing can be taken
      have hsome := h.2.1
      rw [hblocks.free] at hsome
      cases hsome
  · refine .of_refused hplace (fun h => ?_) (fun text => iff_of_false nofun fun h => h.1 hlead)
      (fun place => iff_of_false nofun ?_) (fun place => ?_)
    · rw [h.free] at htaken
      cases htaken
    · rintro ⟨-, front, hblocks, -⟩
      rw [hblocks.free] at htaken
      cases htaken
    · rw [InsertFault.duplicate.injEq, eq_comm]
      exact ⟨fun h => ⟨hlead, htaken, h⟩, fun h => h.2.2⟩
  · rw [hplace] at hsound
    exact .of_placed hadmits hinsert hplace hsound.proper

end Stencil.PackageEntries
