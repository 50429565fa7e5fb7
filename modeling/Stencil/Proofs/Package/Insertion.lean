import Stencil.Proofs.FileSystem.Below
import Stencil.Proofs.Package.Readback

namespace Stencil

open FileSystem (ne_empty_of_written pathOfNames_eq stepsOf_pathOfNames)
open Stencil.Path (Written)

namespace PackageEntries

variable {entries grown : PackageEntries} {name path : String} {node : PackageNode}
  {names trail : List String} {file : PackageFile}

/-- Walks down to where a file belongs and puts it there. Directories that are missing are made on
the way, and what was made stays, whether or not the file finds its place. -/
def descend (file : PackageFile) (trail : List String) (entries : PackageEntries) :
    List String → Except InsertFault Unit × PackageEntries
  | [] => (.error (.invalidPath (pathOfNames trail).text), entries)
  | [name] => match entries.lookup name with
    | some _ => (.error (.duplicate (pathOfNames (trail ++ [name]))), entries)
    | none => (.ok (), entries ++ [(name, .file file)])
  | name :: rest =>
    let made : PackageEntries := match entries.lookup name with
      | some _ => entries
      | none => entries ++ [(name, .directory [])]
    match made.lookup name with
    | some (.directory inner) =>
      let below := descend file (trail ++ [name]) inner rest
      (below.1, replace name (.directory below.2) made)
    | _ => (.error (.notADirectory (pathOfNames (trail ++ [name]))), made)

/-- Inserts a file at a path in place: whether it found its place, and what is there afterwards. -/
def insertInPlace (entries : PackageEntries) (path : String) (file : PackageFile) :
    Except InsertFault Unit × PackageEntries :=
  match namesOf? path with
  | none => (.error (.invalidPath path), entries)
  | some names => descend file [] entries names

theorem replace_self (h : entries.lookup name = some node) : replace name node entries = entries := by
  induction entries with
  | nil => rfl
  | cons entry rest ih =>
    obtain ⟨first, old⟩ := entry
    simp only [replace]
    rw [List.lookup_cons] at h
    split
    · next heq =>
      subst heq
      rw [beq_self_eq_true] at h
      rw [Option.some.inj h]
    · next hne =>
      rw [beq_eq_false_iff_ne.mpr (Ne.symm hne)] at h
      rw [ih h]

theorem replace_append (h : entries.lookup name = none) (old node : PackageNode) :
    replace name node (entries ++ [(name, old)]) = entries ++ [(name, node)] := by
  induction entries with
  | nil => simp [replace]
  | cons entry rest ih =>
    obtain ⟨first, other⟩ := entry
    rw [List.lookup_cons] at h
    split at h
    · cases h
    · next hne =>
      have hne' : first ≠ name := fun heq => by simp [heq] at hne
      simp only [List.cons_append, replace, if_neg hne', ih h]

/-- Nothing is in the way in a directory that was made for the file. -/
theorem insertAt_empty (file : PackageFile) (trail : List String) (hnames : names ≠ []) :
    ∃ grown, insertAt file trail [] names = .ok grown := by
  induction names generalizing trail with
  | nil => exact absurd rfl hnames
  | cons name rest ih =>
    cases rest with
    | nil => exact ⟨_, rfl⟩
    | cons next rest =>
      obtain ⟨inner, hinner⟩ := ih (trail ++ [name]) (by simp)
      exact ⟨[(name, .directory inner)], by simp [insertAt, hinner, bind, Except.bind]; rfl⟩

/-- In place, an insertion leaves what it gives, and one that fails leaves all as it was. -/
theorem descend_eq : descend file trail entries names = match insertAt file trail entries names with
    | .ok grown => (.ok (), grown)
    | .error fault => (.error fault, entries) := by
  induction names generalizing trail entries with
  | nil => rfl
  | cons name rest ih =>
    cases rest with
    | nil =>
      unfold descend insertAt
      cases entries.lookup name <;> rfl
    | cons next rest =>
      unfold descend insertAt
      cases hlookup : entries.lookup name with
      | none =>
        -- a directory that was just made takes the file, so no failure leaves it behind
        obtain ⟨inner, hinner⟩ := insertAt_empty file (trail ++ [name])
          (List.cons_ne_nil next rest)
        have hmade : (entries ++ [(name, PackageNode.directory [])]).lookup name =
            some (.directory []) := by
          simp [List.lookup_append, hlookup]
        simp only [hmade, ih, hinner, replace_append hlookup]
        rfl
      | some found =>
        cases found with
        | file other => simp only [hlookup]
        | directory inner =>
          simp only [hlookup, ih]
          cases hinner : insertAt file (trail ++ [name]) inner (next :: rest) with
          | ok inside => rfl
          | error fault =>
            -- what is put back after a failure is what was there
            simp only [replace_self hlookup]
            rfl

theorem insertInPlace_eq : insertInPlace entries path file = match insert entries path file with
    | .ok (grown, _) => (.ok (), grown)
    | .error fault => (.error fault, entries) := by
  unfold insertInPlace insert
  cases namesOf? path with
  | none => rfl
  | some names =>
    simp only [descend_eq]
    cases insertAt file [] entries names <;> rfl

/-- The layout after insertions one after the other, from an empty one. -/
def afterInserting (calls : List (String × PackageFile)) : PackageEntries :=
  calls.foldl (fun entries call => (entries.insertInPlace call.1 call.2).2) []

/-- A name that an entry can have. -/
structure PlainName (name : String) : Prop where
  ne_empty : name ≠ ""
  ne_here : name ≠ "."
  ne_up : name ≠ ".."
  slash_free : '/' ∉ name.toList
  backslash_free : '\\' ∉ name.toList

/-- What holds of a directory at a trail of names, and of every directory below it. -/
inductive Sound : List String → PackageEntries → Prop
  | intro {trail : List String} {entries : PackageEntries}
    (distinct : (entries.map Prod.fst).Nodup)
    (plain : ∀ name ∈ entries.map Prod.fst, PlainName name)
    (path : ∀ name ∈ entries.map Prod.fst,
      pathOfNames (trail ++ [name]) = (pathOfNames trail).join ⟨name⟩)
    (filled : ∀ name inner, (name, PackageNode.directory inner) ∈ entries →
      filesFrom (trail ++ [name]) inner ≠ [])
    (below : ∀ name inner, (name, PackageNode.directory inner) ∈ entries →
      Sound (trail ++ [name]) inner) :
    Sound trail entries

theorem PlainName.written (h : PlainName name) : Written (.name name) := by
  refine ⟨?_, h.slash_free⟩
  simp [Path.step?, Component.text, h.ne_empty, h.ne_here, h.ne_up]

theorem plain_of_namesOf (h : namesOf? path = some names) : ∀ name ∈ names, PlainName name := by
  intro name hname
  have hwritten := (written_of_namesOf h).2 name hname
  obtain ⟨hhere, hup⟩ := Path.named_of_written hwritten
  exact ⟨ne_empty_of_written hwritten, hhere, hup, hwritten.2, (free_of_namesOf h hname).2⟩

theorem intercalate_concat (first : String) (rest : List String) (last : String) :
    "/".intercalate (first :: rest ++ [last]) = "/".intercalate (first :: rest) ++ "/" ++ last := by
  induction rest generalizing first with
  | nil => simp
  | cons second rest ih =>
    have hrest := ih second
    rw [List.cons_append] at hrest
    rw [List.cons_append, List.cons_append, String.intercalate_cons_cons, hrest,
      String.intercalate_cons_cons]
    simp only [String.append_assoc]

/-- The path of an entry is the one of its directory with its name behind. -/
theorem pathOfNames_concat (htrail : ∀ n ∈ trail, PlainName n) (hname : PlainName name) :
    pathOfNames (trail ++ [name]) = (pathOfNames trail).join ⟨name⟩ := by
  have hone : ∀ n ∈ [name], Written (.name n) := by simpa using hname.written
  have hrooted : (Path.mk name).isRooted = false := by
    simpa [pathOfNames] using (stepsOf_pathOfNames hone).2.1
  cases trail with
  | nil => simp [Path.join, hrooted, pathOfNames]
  | cons first rest =>
    have hway : ∀ c ∈ (first :: rest).map Component.name, Written c := by
      intro c hc
      obtain ⟨n, hn, rfl⟩ := List.mem_map.mp hc
      exact (htrail n hn).written
    obtain ⟨hempty, hlast⟩ := Path.text_ofComponents hway (by simp)
    rw [← pathOfNames_eq] at hempty hlast
    rw [Path.join, if_neg (by simp [hrooted]), if_neg (by simp [hempty, hlast])]
    exact congrArg Path.mk (intercalate_concat first rest name)

theorem map_fst_replace (name : String) (node : PackageNode) (entries : PackageEntries) :
    (replace name node entries).map Prod.fst = entries.map Prod.fst := by
  induction entries with
  | nil => rfl
  | cons entry rest ih =>
    obtain ⟨first, old⟩ := entry
    simp only [replace]
    split
    · next heq => simp [heq]
    · simp [ih]

theorem mem_of_mem_replace {entry : String × PackageNode} (h : entry ∈ replace name node entries) :
    entry = (name, node) ∨ entry ∈ entries := by
  induction entries with
  | nil => exact .inr h
  | cons first rest ih =>
    obtain ⟨other, old⟩ := first
    simp only [replace] at h
    split at h
    · rcases List.mem_cons.mp h with rfl | h
      · exact .inl rfl
      · exact .inr (List.mem_cons_of_mem _ h)
    · rcases List.mem_cons.mp h with rfl | h
      · exact .inr List.mem_cons_self
      · exact (ih h).imp id (List.mem_cons_of_mem _)

theorem mem_of_lookup_eq (h : entries.lookup name = some node) : (name, node) ∈ entries := by
  obtain ⟨front, rest, rfl, -⟩ := List.lookup_eq_some_iff.mp h
  simp

theorem Sound.nil (trail : List String) : Sound trail [] :=
  .intro List.nodup_nil (by simp) (by simp) (by simp) (by simp)

/-- A new entry goes to the end. -/
theorem Sound.append (h : Sound trail entries) (htrail : ∀ n ∈ trail, PlainName n)
    (hname : PlainName name) (hfree : entries.lookup name = none)
    (hfilled : ∀ inner, node = .directory inner → filesFrom (trail ++ [name]) inner ≠ [])
    (hbelow : ∀ inner, node = .directory inner → Sound (trail ++ [name]) inner) :
    Sound trail (entries ++ [(name, node)]) := by
  obtain ⟨distinct, plain, path, filled, below⟩ := h
  have hnew : name ∉ entries.map Prod.fst := by
    intro hmem
    obtain ⟨entry, hentry, rfl⟩ := List.mem_map.mp hmem
    simpa using List.lookup_eq_none_iff.mp hfree entry hentry
  refine .intro ?_ ?_ ?_ ?_ ?_
  · rw [List.map_append]
    exact distinct.append (List.nodup_singleton _) (by simpa using hnew)
  · simpa [or_imp, forall_and] using ⟨by simpa using plain, hname⟩
  · simpa [or_imp, forall_and] using ⟨by simpa using path, pathOfNames_concat htrail hname⟩
  · intro other inner hmem
    rcases List.mem_append.mp hmem with hmem | hmem
    · exact filled other inner hmem
    · obtain ⟨rfl, rfl⟩ := Prod.mk.inj (List.mem_singleton.mp hmem)
      exact hfilled inner rfl
  · intro other inner hmem
    rcases List.mem_append.mp hmem with hmem | hmem
    · exact below other inner hmem
    · obtain ⟨rfl, rfl⟩ := Prod.mk.inj (List.mem_singleton.mp hmem)
      exact hbelow inner rfl

/-- A directory takes the place of the one that was there. -/
theorem Sound.replace {inside : PackageEntries} (h : Sound trail entries)
    (hfilled : filesFrom (trail ++ [name]) inside ≠ []) (hbelow : Sound (trail ++ [name]) inside) :
    Sound trail (replace name (.directory inside) entries) := by
  obtain ⟨distinct, plain, path, filled, below⟩ := h
  refine .intro ?_ ?_ ?_ ?_ ?_
  · rwa [map_fst_replace]
  · rwa [map_fst_replace]
  · rwa [map_fst_replace]
  · intro other inner hmem
    rcases mem_of_mem_replace hmem with heq | hmem
    · cases heq
      exact hfilled
    · exact filled other inner hmem
  · intro other inner hmem
    rcases mem_of_mem_replace hmem with heq | hmem
    · cases heq
      exact hbelow
    · exact below other inner hmem

/-- One insertion keeps a layout sound, whichever directories it goes through or makes. -/
theorem Sound.enters (h : Sound trail entries) (htrail : ∀ n ∈ trail, PlainName n)
    (hnames : ∀ n ∈ names, PlainName n) (henters : Enters file entries names grown) :
    Sound trail grown := by
  -- the trail to a directory below grows by the name that leads into it
  have hdown {name : String} {rest : List String} {trail : List String}
      (htrail : ∀ n ∈ trail, PlainName n) (hnames : ∀ n ∈ name :: rest, PlainName n) :
      ∀ n ∈ trail ++ [name], PlainName n := by
    simpa [or_imp, forall_and] using ⟨htrail, hnames name List.mem_cons_self⟩
  -- the file itself shows that a directory on its way is not without files
  have hfilled {trail : List String} {entries grown : PackageEntries} {names : List String}
      (h : Enters file entries names grown) : filesFrom trail grown ≠ [] :=
    List.ne_nil_of_mem (h.mem_files trail)
  induction henters generalizing trail with
  | last hfree => exact h.append htrail (hnames _ List.mem_cons_self) hfree (by simp) (by simp)
  | @inside entries inner grown name rest hlookup hinside ih =>
    have hinner : Sound (trail ++ [name]) inner := by
      obtain ⟨-, -, -, -, below⟩ := h
      exact below name inner (mem_of_lookup_eq hlookup)
    exact h.replace (hfilled hinside) (ih hinner (hdown htrail hnames)
      fun n hn => hnames n (List.mem_cons_of_mem _ hn))
  | @beyond entries grown name rest hfree hinside ih =>
    refine h.append htrail (hnames _ List.mem_cons_self) hfree ?_ ?_
    · rintro inner ⟨⟩
      exact hfilled hinside
    · rintro inner ⟨⟩
      exact ih (.nil _) (hdown htrail hnames) fun n hn => hnames n (List.mem_cons_of_mem _ hn)

theorem Sound.insertInPlace (h : Sound [] entries) (path : String) (file : PackageFile) :
    Sound [] (entries.insertInPlace path file).2 := by
  rw [insertInPlace_eq]
  cases hinsert : entries.insert path file with
  | error fault => exact h
  | ok result =>
    obtain ⟨hnames, hat⟩ := insert_ok_iff.mp hinsert
    exact h.enters (by simp) (plain_of_namesOf hnames) (enters_of_insertAt hat)

theorem sound_afterInserting (calls : List (String × PackageFile)) : Sound [] (afterInserting calls) := by
  induction calls using List.reverseRecOn with
  | nil => exact .nil []
  | append_singleton calls call ih =>
    simp only [afterInserting, List.foldl_append, List.foldl_cons, List.foldl_nil]
    exact ih.insertInPlace call.1 call.2

theorem properFrom_of (hdistinct : (entries.map Prod.fst).Nodup)
    (hwritten : ∀ name ∈ entries.map Prod.fst, Written (.name name))
    (hbelow : ∀ name inner, (name, PackageNode.directory inner) ∈ entries → ProperFrom inner) :
    ProperFrom entries := by
  induction entries with
  | nil => trivial
  | cons entry rest ih =>
    obtain ⟨name, node⟩ := entry
    rw [List.map_cons] at hdistinct hwritten
    obtain ⟨hnew, hrest⟩ := List.nodup_cons.mp hdistinct
    refine ⟨hwritten name List.mem_cons_self, ?_, ?_, ih hrest
      (fun n hn => hwritten n (List.mem_cons_of_mem _ hn))
      fun n inner hn => hbelow n inner (List.mem_cons_of_mem _ hn)⟩
    · cases node with
      | file file => trivial
      | directory inner => exact hbelow name inner List.mem_cons_self
    · refine List.lookup_eq_none_iff.mpr fun other hother => ?_
      -- names are distinct, so none of the later entries has this one
      have hne : name ≠ other.1 := fun heq =>
        hnew (List.mem_map.mpr ⟨other, hother, heq.symm⟩)
      simpa using hne

theorem Sound.proper (h : Sound trail entries) : ProperFrom entries := by
  induction h with
  | intro distinct plain _ _ _ ih =>
    exact properFrom_of distinct (fun name hname => (plain name hname).written) ih

/-- Names that can be names of entries are told by the path that they spell. -/
theorem pathOfNames_inj {others : List String} (hnames : ∀ n ∈ names, Written (.name n))
    (hothers : ∀ n ∈ others, Written (.name n)) (h : pathOfNames names = pathOfNames others) :
    names = others := by
  have hsteps := (stepsOf_pathOfNames hnames).1
  rw [h, (stepsOf_pathOfNames hothers).1] at hsteps
  exact hsteps.symm

theorem dropIdle_written (h : ∀ n ∈ names, Written (.name n)) : Path.dropIdle names = names := by
  rcases names.eq_nil_or_concat with rfl | ⟨front, last, rfl⟩
  · rfl
  · have hlast : Path.step? last = some (.name last) := (h last (by simp)).1
    simp [Path.dropIdle_concat, hlast]

theorem head?_written (h : ∀ n ∈ names, Written (.name n)) : names.head? ≠ some "." := by
  cases names with
  | nil => simp
  | cons first rest => simpa using (Path.named_of_written (h first List.mem_cons_self)).1

theorem parent_pathOfNames (h : ∀ n ∈ trail ++ [name], Written (.name n)) :
    (pathOfNames (trail ++ [name])).parent? = some (pathOfNames trail) := by
  have hsegments : (pathOfNames (trail ++ [name])).segments = trail ++ [name] :=
    Path.segments_intercalate (by simp) fun n hn => (h n hn).2
  have htrail : ∀ n ∈ trail, Written (.name n) := fun n hn => h n (List.mem_append_left _ hn)
  have hhead : (pathOfNames (trail ++ [name])).segments.head? ≠ some "." := by
    rw [hsegments]
    exact head?_written h
  rw [Path.parent?_of_bare (stepsOf_pathOfNames h).2.1 hhead, hsegments, dropIdle_written h,
    List.dropLast_concat, dropIdle_written htrail, if_neg (by simp)]
  rfl

theorem components_pathOfNames (h : ∀ n ∈ names, Written (.name n)) :
    (pathOfNames names).components = names.map .name := by
  obtain ⟨-, hrooted, hmoves⟩ := stepsOf_pathOfNames h
  have hhead : (pathOfNames names).segments.head? ≠ some "." := by
    cases names with
    | nil => decide
    | cons first rest =>
      have hsegments : (pathOfNames (first :: rest)).segments = first :: rest :=
        Path.segments_intercalate (by simp) fun n hn => (h n hn).2
      rw [hsegments]
      exact head?_written h
  simp only [Path.components, hrooted, hhead, Bool.false_eq_true, if_false, List.nil_append]
  exact hmoves

/-- The parent of a file is found, and the file stands in it. -/
theorem Sound.find_parent (h : Sound [] entries) (hmem : (names, file) ∈ entries.files) :
    ∃ above name inner, names = above ++ [name] ∧
      (pathOfNames names).parent? = some (pathOfNames above) ∧
      entries.find? (pathOfNames above) = some (above, inner) ∧
      inner.lookup name = some (.file file) := by
  have hproper := h.proper
  have hwritten := written_of_mem_files hproper hmem
  obtain ⟨first, more, hnames, -⟩ := names_of_mem_filesFrom hproper hmem
  rcases names.eq_nil_or_concat with rfl | ⟨above, name, rfl⟩
  · simp at hnames
  have habove : ∀ n ∈ above, Written (.name n) := fun n hn => hwritten n (by simp [hn])
  obtain ⟨inner, haround⟩ := exists_around hproper (by simpa using hmem)
  have hcomponents : (pathOfNames above).components.map Component.text = above := by
    simp [components_pathOfNames habove, Function.comp_def, Component.text]
  refine ⟨above, name, inner, by simp, by simpa using parent_pathOfNames (by simpa using hwritten),
    ?_, haround.entry⟩
  simp only [find?, hcomponents, haround.found]
  rfl

/-- What every sequence of insertions leaves, whether they fail or not. -/
theorem layout_of_insertions (calls : List (String × PackageFile)) :
    Sound [] (afterInserting calls) ∧
      ((afterInserting calls).files.map fun file => pathOfNames file.1).Nodup ∧
      (∀ names file, (names, file) ∈ (afterInserting calls).files →
        ∃ above name inner, names = above ++ [name] ∧
          (pathOfNames names).parent? = some (pathOfNames above) ∧
          (afterInserting calls).find? (pathOfNames above) = some (above, inner) ∧
          inner.lookup name = some (.file file)) ∧
      ∃ pieces : List PackagePiece,
        pieces.filterMap PackagePiece.file? = (afterInserting calls).files ∧
          ∀ r output, Package.writeNode r output [] (.directory (afterInserting calls)) =
            pieces.forM fun
              | (names, some file) => Package.tryFile r file (output.join (pathOfNames names))
              | (names, none) =>
                Run.onFiles (FileSystem.createDirectories (output.join (pathOfNames names))) := by
  have hsound := sound_afterInserting calls
  have hproper := hsound.proper
  refine ⟨hsound, ?_, fun names file hmem => hsound.find_parent hmem,
    (PackageNode.directory (afterInserting calls)).pieces [],
    (PackageNode.files_eq [] _).symm, fun r output => ?_⟩
  · have hnames := nodup_filesFrom [] (afterInserting calls) hproper
    have hpaths : (afterInserting calls).files.map (fun file => pathOfNames file.1) =
        ((afterInserting calls).files.map Prod.fst).map pathOfNames := by simp
    -- distinct lists of names spell distinct paths, as long as they can be names of entries
    have hwritten : ∀ names ∈ (afterInserting calls).files.map Prod.fst,
        ∀ n ∈ names, Written (.name n) := by
      intro names hmem
      obtain ⟨⟨_, file⟩, hfile, rfl⟩ := List.mem_map.mp hmem
      exact written_of_mem_files hproper hfile
    rw [hpaths]
    exact hnames.map_on fun names hmem others hother =>
      pathOfNames_inj (hwritten names hmem) (hwritten others hother)
  · exact Package.writeNode_eq_forM r output [] _

end PackageEntries
end Stencil
