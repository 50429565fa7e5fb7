import Mathlib.Data.List.Nodup
import Stencil.Proofs.Package.Pieces
import Stencil.Proofs.Path.Absolute
import Stencil.Proofs.Triple

namespace Stencil

open Stencil.Path (Written)

mutual

/-- All names can be names of entries, and no directory has two entries of one name. -/
def PackageNode.Proper : PackageNode → Prop
  | .file _ => True
  | .directory entries => PackageEntries.ProperFrom entries

def PackageEntries.ProperFrom : List (String × PackageNode) → Prop
  | [] => True
  | (name, node) :: rest =>
    Written (.name name) ∧ node.Proper ∧ rest.lookup name = none ∧ PackageEntries.ProperFrom rest

end

namespace PackageEntries

variable {entries grown rest : PackageEntries} {name other text : String} {node : PackageNode}
  {names trail : List String} {file : PackageFile}

/-- The names that a path stands for are its parts that name something, and no step leads upwards. -/
theorem namesOf_eq_some (h : namesOf? text = some names) : names ≠ [] ∧ ".." ∉ names ∧
    names = (Text.split (fun c => c = '/' || c = '\\') text).filter
      fun name => name ≠ "" && name ≠ "." := by
  unfold namesOf? at h
  simp only at h
  split at h
  · cases h
  · next hgood =>
    rw [not_or, List.contains_iff_mem] at hgood
    obtain rfl := Option.some.inj h
    exact ⟨hgood.1, hgood.2, rfl⟩

/-- A name that a path stands for has neither slash. -/
theorem free_of_namesOf (h : namesOf? text = some names) {name : String} (hname : name ∈ names) :
    '/' ∉ name.toList ∧ '\\' ∉ name.toList := by
  obtain ⟨-, -, rfl⟩ := namesOf_eq_some h
  obtain ⟨part, hsplit, rfl⟩ := List.mem_map.mp (List.mem_filter.mp hname).1
  have hfree := Text.free_of_mem_splitChars hsplit
  rw [String.toList_ofList]
  exact ⟨fun hslash => by simpa using hfree _ hslash, fun hslash => by simpa using hfree _ hslash⟩

theorem written_of_namesOf (h : namesOf? text = some names) :
    names ≠ [] ∧ ∀ name ∈ names, Written (.name name) := by
  obtain ⟨hne, hupwards, hnames⟩ := namesOf_eq_some h
  refine ⟨hne, fun name hname => ?_⟩
  have hkept := (List.mem_filter.mp (hnames ▸ hname)).2
  obtain ⟨hempty, hpoint⟩ : name ≠ "" ∧ name ≠ "." := by simpa using hkept
  have hup : name ≠ ".." := fun heq => hupwards (heq ▸ hname)
  exact ⟨by simp [Path.step?, Component.text, hempty, hpoint, hup], (free_of_namesOf h hname).1⟩

theorem lookup_replace_of_ne (h : other ≠ name) (node : PackageNode) (entries : PackageEntries) :
    (replace name node entries).lookup other = entries.lookup other := by
  induction entries with
  | nil => rfl
  | cons entry rest ih =>
    obtain ⟨first, old⟩ := entry
    simp only [replace]
    split
    · next hfirst => simp [List.lookup_cons, hfirst, beq_eq_false_iff_ne.mpr h]
    · simp only [List.lookup_cons, ih]

theorem ProperFrom.append (h : ProperFrom entries) (hname : Written (.name name))
    (hnode : node.Proper) (hfree : entries.lookup name = none) :
    ProperFrom (entries ++ [(name, node)]) := by
  induction entries with
  | nil => exact ⟨hname, hnode, rfl, trivial⟩
  | cons entry rest ih =>
    obtain ⟨first, old⟩ := entry
    obtain ⟨hfirst, hold, hunique, hrest⟩ := h
    rw [List.lookup_cons] at hfree
    split at hfree
    · cases hfree
    · next hne =>
      refine ⟨hfirst, hold, ?_, ih hrest hfree⟩
      have hne' : (first == name) = false := by
        rw [beq_eq_false_iff_ne] at hne ⊢
        exact hne.symm
      simp [List.lookup_append, hunique, List.lookup_cons, hne']

theorem ProperFrom.replace (h : ProperFrom entries) (hnode : node.Proper) :
    ProperFrom (replace name node entries) := by
  induction entries with
  | nil => exact h
  | cons entry rest ih =>
    obtain ⟨first, old⟩ := entry
    obtain ⟨hfirst, hold, hunique, hrest⟩ := h
    simp only [PackageEntries.replace]
    split
    · next heq => exact ⟨heq ▸ hfirst, hnode, heq ▸ hunique, hrest⟩
    · next hne =>
      exact ⟨hfirst, hold, by rwa [lookup_replace_of_ne hne], ih hrest⟩

theorem ProperFrom.of_lookup (h : ProperFrom entries) (hlookup : entries.lookup name = some node) :
    node.Proper := by
  induction entries with
  | nil => cases hlookup
  | cons entry rest ih =>
    obtain ⟨first, old⟩ := entry
    obtain ⟨-, hold, -, hrest⟩ := h
    rw [List.lookup_cons] at hlookup
    split at hlookup
    · cases hlookup
      exact hold
    · exact ih hrest hlookup

/-- How a file goes into a directory: behind its entries, into a directory that it has on the way, or into
one that is made for it. -/
inductive Enters (file : PackageFile) :
    PackageEntries → List String → PackageEntries → Prop
  | last {entries : PackageEntries} {name : String} (hfree : entries.lookup name = none) :
    Enters file entries [name] (entries ++ [(name, .file file)])
  | inside {entries inner grown : PackageEntries} {name : String} {rest : List String}
    (hlookup : entries.lookup name = some (.directory inner)) (h : Enters file inner rest grown) :
    Enters file entries (name :: rest) (replace name (.directory grown) entries)
  | beyond {entries grown : PackageEntries} {name : String} {rest : List String}
    (hfree : entries.lookup name = none) (h : Enters file [] rest grown) :
    Enters file entries (name :: rest) (entries ++ [(name, .directory grown)])

theorem enters_of_insertAt (hinsert : insertAt file trail entries names = .ok grown) :
    Enters file entries names grown := by
  induction names generalizing trail entries grown with
  | nil => cases hinsert
  | cons name rest ih =>
    cases rest with
    | nil =>
      unfold insertAt at hinsert
      split at hinsert
      · cases hinsert
      · next hfree =>
        cases hinsert
        exact .last hfree
    | cons next rest =>
      unfold insertAt at hinsert
      split at hinsert
      · cases hinsert
      · next inner hlookup =>
        obtain ⟨inside, hinside, hgrown⟩ := bind_eq_ok_iff.mp hinsert
        cases hgrown
        exact .inside hlookup (ih hinside)
      · next hfree =>
        obtain ⟨inside, hinside, hgrown⟩ := bind_eq_ok_iff.mp hinsert
        cases hgrown
        exact .beyond hfree (ih hinside)

/-- Inserting a file keeps a layout proper. -/
theorem Enters.proper (h : Enters file entries names grown) (hproper : ProperFrom entries)
    (hnames : ∀ name ∈ names, Written (.name name)) : ProperFrom grown := by
  induction h with
  | last hfree => exact hproper.append (hnames _ List.mem_cons_self) trivial hfree
  | inside hlookup _ ih =>
    have hinner : (PackageNode.directory _).Proper := hproper.of_lookup hlookup
    have hgrown : (PackageNode.directory _).Proper :=
      ih hinner fun n hn => hnames n (List.mem_cons_of_mem _ hn)
    exact hproper.replace hgrown
  | beyond hfree _ ih =>
    have hgrown : (PackageNode.directory _).Proper :=
      ih (show ProperFrom [] from trivial) fun n hn => hnames n (List.mem_cons_of_mem _ hn)
    exact hproper.append (hnames _ List.mem_cons_self) hgrown hfree

theorem filesFrom_append (trail : List String) (a b : PackageEntries) :
    filesFrom trail (a ++ b) = filesFrom trail a ++ filesFrom trail b := by
  induction a with
  | nil => rfl
  | cons entry a ih =>
    obtain ⟨name, node⟩ := entry
    simp [filesFrom, ih]

/-- What a directory holds more of is all that its own holds more of. -/
theorem filesFrom_replace_split {old new : PackageNode} {extra : List String × PackageFile}
    (hlookup : entries.lookup name = some old)
    (hmore : ∃ front back, old.files (trail ++ [name]) = front ++ back ∧
      new.files (trail ++ [name]) = front ++ extra :: back) :
    ∃ front back, filesFrom trail entries = front ++ back ∧
      filesFrom trail (replace name new entries) = front ++ extra :: back := by
  induction entries with
  | nil => cases hlookup
  | cons entry rest ih =>
    obtain ⟨first, node⟩ := entry
    rw [List.lookup_cons] at hlookup
    simp only [replace]
    split
    · next heq =>
      subst heq
      rw [beq_self_eq_true] at hlookup
      obtain rfl := Option.some.inj hlookup
      obtain ⟨front, back, hold, hnew⟩ := hmore
      refine ⟨front, back ++ filesFrom trail rest, ?_, ?_⟩
      · simp only [filesFrom, hold, List.append_assoc]
      · simp only [filesFrom, hnew, List.append_assoc, List.cons_append]
    · next hne =>
      rw [beq_eq_false_iff_ne.mpr (Ne.symm hne)] at hlookup
      obtain ⟨front, back, hold, hnew⟩ := ih hlookup
      refine ⟨node.files (trail ++ [first]) ++ front, back, ?_, ?_⟩
      · simp only [filesFrom, hold, List.append_assoc]
      · simp only [filesFrom, hnew, List.append_assoc]

/-- The file that is inserted comes between files that stay in their order. -/
theorem Enters.files_split (h : Enters file entries names grown) (trail : List String) :
    ∃ front back, filesFrom trail entries = front ++ back ∧
      filesFrom trail grown = front ++ (trail ++ names, file) :: back := by
  induction h generalizing trail with
  | @last entries name hfree =>
    exact ⟨filesFrom trail entries, [], by simp, by simp [filesFrom_append, filesFrom, PackageNode.files]⟩
  | @inside entries inner grown name rest hlookup _ ih =>
    rw [List.append_cons]
    exact filesFrom_replace_split hlookup (ih (trail ++ [name]))
  | @beyond entries grown name rest hfree _ ih =>
    obtain ⟨front, back, hnone, hnew⟩ := ih (trail ++ [name])
    -- the directory that is made comes last, with the one file
    obtain ⟨rfl, rfl⟩ := List.append_eq_nil_iff.mp hnone.symm
    refine ⟨filesFrom trail entries, [], by simp, ?_⟩
    rw [filesFrom_append, List.append_cons trail]
    simp only [filesFrom, PackageNode.files, hnew, List.nil_append, List.append_nil]

/-- A file that is inserted is the only one that is new. -/
theorem Enters.files_perm (h : Enters file entries names grown) (trail : List String) :
    (filesFrom trail grown).Perm (filesFrom trail entries ++ [(trail ++ names, file)]) := by
  obtain ⟨front, back, hold, hnew⟩ := h.files_split trail
  rw [hold, hnew]
  exact List.perm_middle.trans (List.perm_append_singleton _ _).symm

theorem Enters.mem_files (h : Enters file entries names grown) (trail : List String) :
    (trail ++ names, file) ∈ filesFrom trail grown :=
  (h.files_perm trail).mem_iff.mpr (List.mem_append_right _ List.mem_cons_self)

theorem insert_ok_iff {result : PackageEntries × List String} :
    insert entries text file = .ok result ↔ namesOf? text = some result.2 ∧
      insertAt file [] entries result.2 = .ok result.1 := by
  obtain ⟨grown, names⟩ := result
  unfold insert
  cases hnames : namesOf? text with
  | none => simp
  | some found =>
    simp only [Option.some.injEq]
    constructor
    · intro h
      cases hinsert : insertAt file [] entries found with
      | error fault =>
        rw [hinsert] at h
        cases h
      | ok grown' =>
        rw [hinsert] at h
        cases h
        exact ⟨rfl, hinsert⟩
    · rintro ⟨rfl, hinsert⟩
      rw [hinsert]
      rfl

/-- Inserting a file at a path keeps a layout proper and all its files. -/
theorem insert_eq_ok (h : insert entries text file = .ok (grown, names)) (hproper : ProperFrom entries) :
    ProperFrom grown ∧ entries.files ⊆ grown.files ∧ (names, file) ∈ grown.files := by
  obtain ⟨hnames, hinsert⟩ := insert_ok_iff.mp h
  have henters := enters_of_insertAt hinsert
  exact ⟨henters.proper hproper (written_of_namesOf hnames).2,
    fun f hf => (henters.files_perm []).mem_iff.mpr (List.mem_append_left _ hf),
    henters.mem_files []⟩

theorem mem_of_lookup (h : entries.files.lookup names = some file) : (names, file) ∈ entries.files := by
  obtain ⟨front, rest, heq, -⟩ := List.lookup_eq_some_iff.mp h
  simp [heq]

theorem exists_lookup (h : (names, file) ∈ entries.files) :
    ∃ file', entries.files.lookup names = some file' := by
  cases hlookup : entries.files.lookup names with
  | some file' => exact ⟨file', rfl⟩
  | none => simpa using List.lookup_eq_none_iff.mp hlookup _ h

end PackageEntries

/-- Each piece lies in a directory that comes before it. -/
def Descending (done : List PackagePiece) : List PackagePiece → Prop
  | [] => True
  | piece :: rest =>
    (∃ above name, piece.1 = above ++ [name] ∧ (above, none) ∈ done) ∧
      Descending (done ++ [piece]) rest

theorem Descending.mono {done more pieces : List PackagePiece} (h : Descending done pieces)
    (hmore : done ⊆ more) : Descending more pieces := by
  induction pieces generalizing done more with
  | nil => trivial
  | cons piece rest ih =>
    obtain ⟨⟨above, name, heq, hmem⟩, hrest⟩ := h
    refine ⟨⟨above, name, heq, hmore hmem⟩, ih hrest ?_⟩
    exact List.append_subset.mpr ⟨fun x hx => List.mem_append_left _ (hmore hx),
      List.subset_append_right _ _⟩

theorem Descending.append {done pieces more : List PackagePiece} (h : Descending done pieces)
    (hmore : Descending (done ++ pieces) more) : Descending done (pieces ++ more) := by
  induction pieces generalizing done with
  | nil => simpa using hmore
  | cons piece rest ih => exact ⟨h.1, ih h.2 (by simpa using hmore)⟩

mutual

theorem PackageNode.descending_pieces (trail : List String) (name : String)
    (done : List PackagePiece) (hdone : (trail, none) ∈ done) :
    (node : PackageNode) → Descending done (node.pieces (trail ++ [name]))
  | .file _ => ⟨⟨trail, name, rfl, hdone⟩, trivial⟩
  | .directory entries =>
    ⟨⟨trail, name, rfl, hdone⟩, PackageEntries.descending_piecesFrom (trail ++ [name]) _
      (List.mem_append_right _ List.mem_cons_self) entries⟩

theorem PackageEntries.descending_piecesFrom (trail : List String) (done : List PackagePiece)
    (hdone : (trail, none) ∈ done) :
    (entries : List (String × PackageNode)) → Descending done (PackageEntries.piecesFrom trail entries)
  | [] => trivial
  | (name, node) :: rest => by
    unfold PackageEntries.piecesFrom
    refine (node.descending_pieces trail name done hdone).append ?_
    exact (PackageEntries.descending_piecesFrom trail done hdone rest).mono
      (List.subset_append_left _ _)

end

mutual

/-- The names of pieces below a node, and below the entries of a directory. -/
theorem PackageNode.names_of_mem_pieces {trail : List String} {piece : PackagePiece} :
    (node : PackageNode) → node.Proper → piece ∈ node.pieces trail →
      ∃ more, piece.1 = trail ++ more ∧ ∀ name ∈ more, Written (.name name)
  | .file file, _, h => by
    unfold PackageNode.pieces at h
    rw [List.mem_singleton.mp h]
    exact ⟨[], by simp, by simp⟩
  | .directory entries, hproper, h => by
    unfold PackageNode.pieces at h
    rcases List.mem_cons.mp h with rfl | h
    · exact ⟨[], by simp, by simp⟩
    · obtain ⟨name, more, hname, -, hwritten⟩ :=
        PackageEntries.names_of_mem_piecesFrom entries hproper h
      exact ⟨name :: more, hname, hwritten⟩

theorem PackageEntries.names_of_mem_piecesFrom {trail : List String} {piece : PackagePiece} :
    (entries : List (String × PackageNode)) → PackageEntries.ProperFrom entries →
      piece ∈ PackageEntries.piecesFrom trail entries →
      ∃ name more, piece.1 = trail ++ name :: more ∧ entries.lookup name ≠ none ∧
        ∀ n ∈ name :: more, Written (.name n)
  | [], _, h => nomatch h
  | (name, node) :: rest, hproper, h => by
    obtain ⟨hname, hnode, hunique, hrest⟩ := hproper
    unfold PackageEntries.piecesFrom at h
    rcases List.mem_append.mp h with h | h
    · obtain ⟨more, heq, hwritten⟩ := node.names_of_mem_pieces hnode h
      refine ⟨name, more, by simp [heq], by simp, ?_⟩
      intro n hn
      rcases List.mem_cons.mp hn with rfl | hn
      · exact hname
      · exact hwritten n hn
    · obtain ⟨other, more, heq, hlookup, hwritten⟩ :=
        PackageEntries.names_of_mem_piecesFrom rest hrest h
      refine ⟨other, more, heq, ?_, hwritten⟩
      rw [List.lookup_cons]
      split
      · simp
      · exact hlookup

end

/-- The first name behind the trail tells what is below one entry from what is below the others. -/
theorem PackageEntries.apart {trail names : List String} {name : String} {node : PackageNode}
    {rest : List (String × PackageNode)} {kind kind' : Option PackageFile} (hnode : node.Proper)
    (hunique : rest.lookup name = none) (hrest : PackageEntries.ProperFrom rest)
    (h : (names, kind) ∈ node.pieces (trail ++ [name])) :
    (names, kind') ∉ PackageEntries.piecesFrom trail rest := by
  intro h'
  obtain ⟨more, hmore, -⟩ := node.names_of_mem_pieces hnode h
  obtain ⟨other, more', hother, hlookup, -⟩ := PackageEntries.names_of_mem_piecesFrom rest hrest h'
  have hsame : name :: more = other :: more' := by
    have heq := hmore.symm.trans hother
    simpa using heq
  exact hlookup ((List.cons.inj hsame).1 ▸ hunique)

mutual

/-- No names lead to a file and to a directory. -/
theorem PackageNode.no_both {trail names : List String} {file : PackageFile} :
    (node : PackageNode) → node.Proper → (names, none) ∈ node.pieces trail →
      (names, some file) ∉ node.pieces trail
  | .file f, _, hnone, _ => by simp [PackageNode.pieces] at hnone
  | .directory entries, hproper, hnone, hsome => by
    unfold PackageNode.pieces at hnone hsome
    rcases List.mem_cons.mp hsome with heq | hsome
    · cases heq
    · rcases List.mem_cons.mp hnone with heq | hnone
      · -- what lies in a directory has one name more
        cases heq
        obtain ⟨name, more, hnames, -⟩ := PackageEntries.names_of_mem_piecesFrom entries hproper hsome
        simp at hnames
      · exact PackageEntries.no_both entries hproper hnone hsome

theorem PackageEntries.no_both {trail names : List String} {file : PackageFile} :
    (entries : List (String × PackageNode)) → PackageEntries.ProperFrom entries →
      (names, none) ∈ PackageEntries.piecesFrom trail entries →
      (names, some file) ∉ PackageEntries.piecesFrom trail entries
  | [], _, hnone, _ => nomatch hnone
  | (name, node) :: rest, hproper, hnone, hsome => by
    obtain ⟨-, hnode, hunique, hrest⟩ := hproper
    unfold PackageEntries.piecesFrom at hnone hsome
    rcases List.mem_append.mp hnone with hnone | hnone
    · rcases List.mem_append.mp hsome with hsome | hsome
      · exact node.no_both hnode hnone hsome
      · exact PackageEntries.apart hnode hunique hrest hnone hsome
    · rcases List.mem_append.mp hsome with hsome | hsome
      · exact PackageEntries.apart hnode hunique hrest hsome hnone
      · exact PackageEntries.no_both rest hrest hnone hsome

end

/-- The file that a piece is, if it is one. -/
def PackagePiece.file? (piece : PackagePiece) : Option (List String × PackageFile) :=
  piece.2.map (piece.1, ·)

mutual

theorem PackageNode.files_eq (trail : List String) :
    (node : PackageNode) → node.files trail = (node.pieces trail).filterMap PackagePiece.file?
  | .file _ => rfl
  | .directory entries => by
    unfold PackageNode.files PackageNode.pieces
    rw [PackageEntries.filesFrom_eq trail entries]
    rfl

/-- The files of a layout are the files among its pieces. -/
theorem PackageEntries.filesFrom_eq (trail : List String) :
    (entries : List (String × PackageNode)) → PackageEntries.filesFrom trail entries =
      (PackageEntries.piecesFrom trail entries).filterMap PackagePiece.file?
  | [] => rfl
  | (name, node) :: rest => by
    unfold PackageEntries.filesFrom PackageEntries.piecesFrom
    rw [node.files_eq, PackageEntries.filesFrom_eq trail rest, List.filterMap_append]

end

theorem PackagePiece.mem_of_mem_files {pieces : List PackagePiece} {names : List String}
    {file : PackageFile} (h : (names, file) ∈ pieces.filterMap PackagePiece.file?) :
    (names, some file) ∈ pieces := by
  obtain ⟨⟨front, kind⟩, hmem, hfile⟩ := List.mem_filterMap.mp h
  obtain ⟨found, rfl, heq⟩ := Option.map_eq_some_iff.mp hfile
  cases heq
  exact hmem

mutual

theorem PackageNode.nodup_files (trail : List String) :
    (node : PackageNode) → node.Proper → ((node.files trail).map Prod.fst).Nodup
  | .file _, _ => List.nodup_singleton _
  | .directory entries, hproper => PackageEntries.nodup_filesFrom trail entries hproper

/-- No two files of a layout have the same names. -/
theorem PackageEntries.nodup_filesFrom (trail : List String) :
    (entries : List (String × PackageNode)) → PackageEntries.ProperFrom entries →
      ((PackageEntries.filesFrom trail entries).map Prod.fst).Nodup
  | [], _ => List.nodup_nil
  | (name, node) :: rest, hproper => by
    obtain ⟨-, hnode, hunique, hrest⟩ := hproper
    unfold PackageEntries.filesFrom
    rw [List.map_append]
    refine List.Nodup.append (node.nodup_files _ hnode)
      (PackageEntries.nodup_filesFrom trail rest hrest) fun names hhere hthere => ?_
    obtain ⟨⟨_, file⟩, hfile, rfl⟩ := List.mem_map.mp hhere
    obtain ⟨⟨_, file'⟩, hfile', heq⟩ := List.mem_map.mp hthere
    obtain rfl := heq
    rw [node.files_eq] at hfile
    rw [PackageEntries.filesFrom_eq] at hfile'
    exact PackageEntries.apart hnode hunique hrest (PackagePiece.mem_of_mem_files hfile)
      (PackagePiece.mem_of_mem_files hfile')

end

namespace PackageEntries

variable {entries inner : PackageEntries} {trail names directory : List String} {name : String}
  {file : PackageFile}

/-- The names of a file lead from the trail down to it, and can be names of entries. -/
theorem names_of_mem_filesFrom (hproper : ProperFrom entries)
    (h : (names, file) ∈ filesFrom trail entries) :
    ∃ name more, names = trail ++ name :: more ∧ ∀ n ∈ name :: more, Written (.name n) := by
  rw [filesFrom_eq] at h
  obtain ⟨name, more, heq, -, hwritten⟩ :=
    names_of_mem_piecesFrom entries hproper (PackagePiece.mem_of_mem_files h)
  exact ⟨name, more, heq, hwritten⟩

theorem written_of_mem_files (hproper : ProperFrom entries) (h : (names, file) ∈ entries.files) :
    ∀ n ∈ names, Written (.name n) := by
  obtain ⟨name, more, rfl, hwritten⟩ := names_of_mem_filesFrom hproper h
  exact hwritten

/-- A file lies below one of the entries. -/
theorem mem_filesFrom_iff (hproper : ProperFrom entries) : (names, file) ∈ filesFrom trail entries ↔
    ∃ name node, entries.lookup name = some node ∧ (names, file) ∈ node.files (trail ++ [name]) := by
  induction entries with
  | nil => simp [filesFrom]
  | cons entry rest ih =>
    obtain ⟨first, node⟩ := entry
    obtain ⟨-, -, hunique, hrest⟩ := hproper
    simp only [filesFrom]
    rw [List.mem_append, ih hrest]
    constructor
    · rintro (h | ⟨name, found, hlookup, h⟩)
      · exact ⟨first, node, by simp, h⟩
      · have hne : name ≠ first := by
          rintro rfl
          cases hunique.symm.trans hlookup
        exact ⟨name, found, by simpa [List.lookup_cons, beq_eq_false_iff_ne.mpr hne], h⟩
    · rintro ⟨name, found, hlookup, h⟩
      rw [List.lookup_cons] at hlookup
      split at hlookup
      · next heq =>
        obtain rfl := eq_of_beq heq
        cases hlookup
        exact Or.inl h
      · exact Or.inr ⟨name, found, hlookup, h⟩

theorem trail_prefix_of_mem_files {node : PackageNode} (hnode : node.Proper)
    (h : (names, file) ∈ node.files trail) : trail <+: names := by
  rw [node.files_eq] at h
  obtain ⟨more, heq, -⟩ := node.names_of_mem_pieces hnode (PackagePiece.mem_of_mem_files h)
  exact ⟨more, heq.symm⟩

/-- A file with a name behind those of an entry lies below that entry, which is a directory. -/
theorem exists_directory (hproper : ProperFrom entries)
    (h : (trail ++ name :: directory, file) ∈ filesFrom trail entries) (hne : directory ≠ []) :
    ∃ inner, entries.lookup name = some (.directory inner) ∧ ProperFrom inner ∧
      (trail ++ name :: directory, file) ∈ filesFrom (trail ++ [name]) inner := by
  obtain ⟨other, node, hlookup, hmem⟩ := (mem_filesFrom_iff hproper).mp h
  have hnode := hproper.of_lookup hlookup
  obtain ⟨more, hmore⟩ := trail_prefix_of_mem_files hnode hmem
  obtain ⟨rfl, rfl⟩ : other = name ∧ more = directory := by simpa using hmore
  cases node with
  | directory inner => exact ⟨inner, hlookup, hnode, hmem⟩
  | file found =>
    have hnames := (Prod.mk.inj (List.mem_singleton.mp hmem)).1
    exact absurd (by simpa using hnames) hne

/-- The directory of a file is one of the layout, and what lies below it are the files whose names
begin with its own. -/
theorem directory?_of_mem_files {last : String} (hproper : ProperFrom entries)
    (h : (trail ++ directory ++ [last], file) ∈ filesFrom trail entries) :
    ∃ inner, directory? entries directory = some inner ∧
      ∀ names file', (names, file') ∈ filesFrom (trail ++ directory) inner ↔
        (names, file') ∈ filesFrom trail entries ∧ trail ++ directory <+: names := by
  induction directory generalizing trail entries with
  | nil =>
    refine ⟨entries, rfl, fun names file' => ?_⟩
    rw [List.append_nil]
    refine ⟨fun hmem => ⟨hmem, ?_⟩, And.left⟩
    obtain ⟨name, more, rfl, -⟩ := names_of_mem_filesFrom hproper hmem
    exact List.prefix_append _ _
  | cons name directory ih =>
    have hnames : trail ++ name :: directory ++ [last] = trail ++ name :: (directory ++ [last]) := by
      simp
    rw [hnames] at h
    obtain ⟨below, hlookup, hbelow, hmem⟩ := exists_directory hproper h (by simp)
    have htrail : trail ++ name :: directory = trail ++ [name] ++ directory := by simp
    rw [← hnames, htrail] at hmem
    obtain ⟨inner, hinner, hfiles⟩ := ih hbelow hmem
    refine ⟨inner, by simp only [directory?, hlookup, hinner], fun names file' => ?_⟩
    rw [htrail, hfiles names file']
    constructor
    · rintro ⟨hmem', hprefix⟩
      exact ⟨(mem_filesFrom_iff hproper).mpr ⟨name, _, hlookup, hmem'⟩, hprefix⟩
    · rintro ⟨hmem', hprefix⟩
      refine ⟨?_, hprefix⟩
      obtain ⟨other, node, hother, hnode⟩ := (mem_filesFrom_iff hproper).mp hmem'
      -- the entry that the file lies below is the one that its names go through
      obtain ⟨more, hmore⟩ := trail_prefix_of_mem_files (hproper.of_lookup hother) hnode
      obtain ⟨more', hmore'⟩ := hprefix
      have hsame : other :: more = name :: (directory ++ more') := by
        have heq := hmore.trans hmore'.symm
        simpa using heq
      obtain rfl := (List.cons.inj hsame).1
      rw [hlookup] at hother
      cases hother
      exact hnode

end PackageEntries

end Stencil
