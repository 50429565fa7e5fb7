import Stencil.Proofs.Generation.Preservation
import Stencil.Proofs.Package.Loading

namespace Stencil

open Markup (Tree)
open Stencil.Path (Written)

namespace Descriptor

mutual

/-- An item stands for a file of its folder, and a folder for all that is in it. -/
def itemsOf (trail : List String) : Tree → List (List String)
  | .leaf name _ text => if name = "ProjectItem" then [trail ++ [text]] else []
  | .branch name attributes children =>
    if name = "Folder" then itemsIn (trail ++ (attributes.lookup "Name").toList) children else []

def itemsIn (trail : List String) : List Tree → List (List String)
  | [] => []
  | tree :: rest => itemsOf trail tree ++ itemsIn trail rest

end

/-- A project element stands for its file and for the items in the directory of that file. -/
def filesOf : Tree → List (List String)
  | .leaf _ _ _ => []
  | .branch name attributes children =>
    if name = "Project" then
      let project := (Path.mk ((attributes.lookup "File").getD "")).segments
      project :: itemsIn project.dropLast children
    else []

def children : Tree → List Tree
  | .leaf _ _ _ => []
  | .branch _ _ children => children

/-- The files that a descriptor refers to, with the names that lead to them from the descriptor. -/
def references (descriptor : Tree) : List (List String) :=
  (children descriptor).flatMap fun part => (children part).flatMap filesOf

theorem itemsIn_append (trail : List String) (a b : List Tree) :
    itemsIn trail (a ++ b) = itemsIn trail a ++ itemsIn trail b := by
  induction a with
  | nil => rfl
  | cons tree a ih => simp [itemsIn, ih]

mutual

theorem itemsIn_nodeElements (project : List String) (name : String) (trail : List String) :
    (node : PackageNode) → itemsIn trail (nodeElements project name (trail ++ [name]) node) =
      ((node.files (trail ++ [name])).map Prod.fst).filter (· ≠ project)
  | .file file => by
    unfold nodeElements PackageNode.files
    by_cases h : trail ++ [name] = project
    · simp [h, itemsIn]
    · simp [h, itemsIn, itemsOf]
  | .directory entries => by
    unfold nodeElements PackageNode.files
    rw [← itemsIn_entryElements project (trail ++ [name]) entries]
    simp [itemsIn, itemsOf]

/-- All files of a directory are listed but the project file. -/
theorem itemsIn_entryElements (project : List String) (trail : List String) :
    (entries : List (String × PackageNode)) → itemsIn trail (entryElements project trail entries) =
      ((PackageEntries.filesFrom trail entries).map Prod.fst).filter (· ≠ project)
  | [] => rfl
  | (name, node) :: rest => by
    unfold entryElements PackageEntries.filesFrom
    rw [itemsIn_append, itemsIn_nodeElements project name trail node,
      itemsIn_entryElements project trail rest, List.map_append, List.filter_append]

end

theorem filesOf_dataElements (t : Template) (language : Language) :
    (dataElements t language).flatMap filesOf = [] := by
  refine List.flatMap_eq_nil_iff.mpr fun tree htree => ?_
  obtain ⟨name, text, rfl⟩ : ∃ name text, tree = textElement name text := by
    simp only [dataElements, List.mem_append, List.mem_cons, List.not_mem_nil, or_false,
      Option.mem_toList, Option.map_eq_some_iff] at htree
    rcases htree with (hfixed | ⟨text, -, rfl⟩) | ⟨text, -, rfl⟩
    · rcases hfixed with rfl | rfl | rfl | rfl | rfl <;> exact ⟨_, _, rfl⟩
    · exact ⟨_, _, rfl⟩
    · exact ⟨_, _, rfl⟩
  rfl

/-- A descriptor refers to the project file, and to all other files in the directory of that file. -/
theorem references_tree {entries inner : PackageEntries} {directory : List String} {last : String}
    {file : PackageFile} (hnames : ∀ name ∈ directory ++ [last], Written (.name name))
    (hinner : entries.directory? directory = some inner) (t : Template) (language : Language) :
    references (tree t language entries (directory ++ [last]) file) =
      (directory ++ [last]) :: ((PackageEntries.filesFrom directory inner).map Prod.fst).filter
        (· ≠ directory ++ [last]) := by
  have hsegments : (Path.mk ("/".intercalate (directory ++ [last]))).segments = directory ++ [last] :=
    Path.segments_intercalate (by simp) fun name hname => (hnames name hname).2
  have hlookup : ([("File", "/".intercalate (directory ++ [last])), ("TargetFileName",
      (directory ++ [last]).getLast?.getD ""), ("ReplaceParameters", flag (!file.raw))] :
        List (String × String)).lookup "File" = some ("/".intercalate (directory ++ [last])) := rfl
  rw [← itemsIn_entryElements]
  simp only [references, tree, children, List.flatMap_cons, List.flatMap_nil, List.append_nil,
    filesOf_dataElements, projectElement, filesOf, List.nil_append, if_true, hlookup,
    Option.getD_some, hsegments, List.dropLast_concat, hinner]

/-- A descriptor refers to the files of the layout in the directory of the project file. -/
theorem mem_references_iff {entries : PackageEntries} {project names : List String}
    {file : PackageFile} (hproper : PackageEntries.ProperFrom entries)
    (hproject : (project, file) ∈ entries.files) (t : Template) (language : Language) :
    names ∈ references (tree t language entries project file) ↔
      (∃ file, (names, file) ∈ entries.files) ∧ project.dropLast <+: names := by
  have hwritten := PackageEntries.written_of_mem_files hproper hproject
  obtain ⟨directory, last, rfl⟩ : ∃ directory last, project = directory ++ [last] := by
    obtain ⟨first, more, hnames, -⟩ := PackageEntries.names_of_mem_filesFrom hproper hproject
    exact ⟨_, _, (List.dropLast_append_getLast (by simp [hnames])).symm⟩
  obtain ⟨inner, hinner, hfiles⟩ := PackageEntries.directory?_of_mem_files hproper
    (show ([] ++ directory ++ [last], file) ∈ PackageEntries.filesFrom [] entries from hproject)
  have hbelow : (∃ file, (names, file) ∈ PackageEntries.filesFrom directory inner) ↔
      (∃ file, (names, file) ∈ entries.files) ∧ directory <+: names :=
    (exists_congr (hfiles names)).trans exists_and_right
  have hitem : names ∈ ((PackageEntries.filesFrom directory inner).map Prod.fst).filter
      (· ≠ directory ++ [last]) ↔ ((∃ file, (names, file) ∈ entries.files) ∧ directory <+: names) ∧
        names ≠ directory ++ [last] := by
    rw [← hbelow]
    simp
  rw [references_tree hwritten hinner, List.dropLast_concat, List.mem_cons, hitem]
  constructor
  · rintro (rfl | h)
    · exact ⟨⟨file, hproject⟩, List.prefix_append _ _⟩
    · exact h.1
  · intro h
    by_cases hself : names = directory ++ [last]
    · exact Or.inl hself
    · exact Or.inr ⟨h, hself⟩

end Descriptor

/-- What the descriptor of an export refers to, and which of it is there when the export ends. -/
structure Package.Listing (t : Template) (p : Plan) (descriptor : Tree) (files : FileSystem)
    (run : Report × Run) : Prop where
  written : run.2.files.at? (p.1.placeFrom [] ++ [Descriptor.fileName]) =
    some (some descriptor.document.toUTF8)
  mem_iff : ∀ names, names ∈ Descriptor.references descriptor ↔
    (∃ file, (names, file) ∈ p.2.1.files) ∧ p.2.2.dropLast <+: names
  found_iff : ∃ copied : List Path, copied.Sublist (assets t) ∧ ∀ names,
    (∃ content, run.2.files.at? (p.1.placeFrom [] ++ names) = some (some content)) ↔
      (∃ w ∈ run.1.written, w.place = p.1.placeFrom [] ++ names) ∨
      (∃ source ∈ copied, names = [source.fileName?.getD ""]) ∨ names = [Descriptor.fileName] ∨
      ∃ content, files.at? (p.1.placeFrom [] ++ names) = some (some content)
  complete : run.1.outcome = .success → ∀ names ∈ Descriptor.references descriptor,
    ∃ content, run.2.files.at? (p.1.placeFrom [] ++ names) = some (some content)

/-- What an export that came to its end has loaded is what it left, and a successful one has loaded
everything. -/
theorem Package.listing_of_loaded {r : Renderer} {t : Template} {p : Plan} {language : Language}
    {project : PackageFile} {files : FileSystem} {strict : Bool} {run : Report × Run} {last : Run}
    {laid : List (List String × PackageFile)} {copied : List Path}
    (hrooted : p.1.isRooted = true) (hproper : PackageEntries.ProperFrom p.2.1)
    (hproject : p.2.1.files.lookup p.2.2 = some project)
    (hloaded : Loaded t r p (Descriptor.text t language p.2.1 p.2.2 project) files strict laid copied
      last)
    (hwritten : run.1.written = last.written) (hfiles : run.2.files = last.files)
    (hall : run.1.outcome = .success → ∀ f ∈ p.2.1.files,
      ∃ content, run.2.files.at? (p.1.placeFrom [] ++ f.1) = some (some content)) :
    Listing t p (Descriptor.tree t language p.2.1 p.2.2 project) files run := by
  have hmem (names : List String) :
      names ∈ Descriptor.references (Descriptor.tree t language p.2.1 p.2.2 project) ↔
        (∃ file, (names, file) ∈ p.2.1.files) ∧ p.2.2.dropLast <+: names :=
    Descriptor.mem_references_iff hproper (PackageEntries.mem_of_lookup hproject) t language
  refine ⟨?_, hmem, ⟨copied, hloaded.sublist_assets, fun names => ?_⟩, fun hsuccess names hnames => ?_⟩
  · rw [hfiles]
    exact descriptor_of_packed hloaded.packed
  · rw [hfiles, hwritten]
    exact found_of_packed hloaded.packed hrooted (fun f hf =>
      PackageEntries.written_of_mem_files hproper (hloaded.sublist.subset hf)) names
  · obtain ⟨⟨file, hlisted⟩, -⟩ := (hmem names).mp hnames
    exact hall hsuccess (names, file) hlisted

/-- A successful export has put every file of its layout there. -/
theorem Package.present_of_success {t : Template} {settings : Settings} {year : Nat}
    {q : ExportRequest} {files : FileSystem} {guids : GuidSource} {p : Plan}
    (hplan : ((plan t settings year q).outcome (Run.start files guids settings)).1 = .ok p)
    (hsuccess : (exportPackage t settings year q files guids).1.outcome = .success) :
    ∀ f ∈ p.2.1.files, ∃ content, (exportPackage t settings year q files guids).2.files.at?
      (p.1.placeFrom [] ++ f.1) = some (some content) := by
  intro f hf
  obtain ⟨p', hplan', -, -, _, -, last, hpacked, -, hfiles⟩ := exists_packed hsuccess
  obtain rfl := Except.ok.inj (hplan.symm.trans hplan')
  have hpart : Part.file f.1 f.2 ∈ contents p.2.1.files (assets t) :=
    List.mem_append_left _ (List.mem_map.mpr ⟨f, hf, rfl⟩)
  rw [hfiles]
  exact hpacked.shipped.present (List.mem_append_left _ hpart)

/-- A descriptor refers to the files of the layout in the directory of the project file. Such a file is
there exactly if the export has written it, if it was there before, or if an asset or the descriptor
has its name; after a successful export all of them are there. -/
theorem exportPackage_listing (t : Template) (settings : Settings) (year : Nat) (q : ExportRequest)
    (files : FileSystem) (guids : GuidSource) :
    (exportPackage t settings year q files guids).1.outcome = .fatal ∨
      ∃ p file, ((Package.plan t settings year q).outcome (Run.start files guids settings)).1 = .ok p ∧
        p.2.1.files.lookup p.2.2 = some file ∧
        Package.Listing t p (Descriptor.tree t q.language p.2.1 p.2.2 file) files
          (exportPackage t settings year q files guids) := by
  cases hsteps : (Package.steps t settings year q).outcome (Run.start files guids settings) with
  | mk result last =>
    cases result with
    | error e => exact Or.inl (Run.finish_fatal_iff.mpr ⟨e, congrArg Prod.fst hsteps⟩)
    | ok _ =>
      obtain ⟨p, hplan, habsolute, hproper, file, hfile, laid, copied, hloaded⟩ :=
        Package.exists_loaded hsteps
      have hrooted : p.1.isRooted = true := Generation.isRooted_absolute habsolute
      have hlisting := Package.listing_of_loaded hrooted hproper hfile hloaded
        (Run.written_finish hsteps) (Run.files_finish hsteps) (Package.present_of_success hplan)
      exact Or.inr ⟨p, file, hplan, hfile, hlisting⟩

/-- A file whose text cannot be expanded: it is listed, and is not there. -/
theorem exportPackage_lists_missing :
    ∃ (files : FileSystem) (t : Template) (run : Report × Run) (p : Package.Plan) (file : PackageFile),
      files = ⟨.directory [("work", .directory [("a.txt", .file "a".toUTF8),
        ("b.txt", .file "\x7b\x7bx".toUTF8)])], ["work"]⟩ ∧
      ((Template.parse files ⟨"/work/t.xml"⟩
        "<Template><Project src=\"a.txt\"><File src=\"b.txt\"/></Project></Template>").outcome
          {}).1.toOption = some t ∧
      exportPackage t {} 2031 ⟨⟨"out"⟩, [], .cSharp⟩ files ⟨0, 0⟩ = run ∧ run.1.outcome = .incomplete ∧
      ((Package.plan t {} 2031 ⟨⟨"out"⟩, [], .cSharp⟩).outcome
        (Run.start files ⟨0, 0⟩ {})).1.toOption = some p ∧
      p.2.1.files.lookup p.2.2 = some file ∧
      ["b.txt"] ∈ Descriptor.references (Descriptor.tree t .cSharp p.2.1 p.2.2 file) ∧
      run.2.files.at? (p.1.placeFrom [] ++ ["b.txt"]) = none := by
  let files : FileSystem := ⟨.directory [("work", .directory [("a.txt", .file "a".toUTF8),
    ("b.txt", .file "\x7b\x7bx".toUTF8)])], ["work"]⟩
  let t : Template := ⟨⟨"/work/t.xml"⟩, none, none, none, none, [⟨"/work"⟩],
    ⟨[⟨"_sourceExt", some "Extension of source files.", "cs", none, .string, true⟩]⟩,
    [⟨⟨"a.txt", ["/work/a.txt"], "a.txt", false, ⟨1, 11⟩⟩,
      [⟨"b.txt", ["/work/b.txt"], "b.txt", false, ⟨1, 32⟩⟩]⟩]⟩
  let plan := ((Package.plan t {} 2031 ⟨⟨"out"⟩, [], .cSharp⟩).outcome
    (Run.start files ⟨0, 0⟩ {})).1.toOption
  let p : Package.Plan := plan.get (by decide +kernel)
  refine ⟨files, t, _, p, ⟨⟨"/work/a.txt"⟩, false⟩, rfl, ?_, rfl, ?_, (Option.some_get _).symm, ?_⟩
  · decide +kernel
  · decide +kernel
  · decide +kernel

end Stencil
