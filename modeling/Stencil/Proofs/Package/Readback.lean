import Stencil.Markup.Element
import Stencil.Proofs.Markup.Reading
import Stencil.Proofs.Package.Layout

namespace Stencil

open Markup (Tree Element IsName Attributes)

/-- Layouts that come from inserting files one after the other. -/
inductive PackageEntries.Inserted : PackageEntries → Prop
  | empty : Inserted []
  | insert {entries grown : PackageEntries} {path : String} {file : PackageFile} {names : List String}
    (before : Inserted entries) (hinsert : entries.insert path file = .ok (grown, names)) :
    Inserted grown

theorem PackageEntries.Inserted.proper {entries : PackageEntries} (h : entries.Inserted) :
    PackageEntries.ProperFrom entries := by
  induction h with
  | empty => trivial
  | insert _ hinsert ih => exact (insert_eq_ok hinsert ih).1

namespace Descriptor

/-- What is told of an entry: of a file its name and whether parameters are filled in in it. -/
inductive Item where
  | file (name : String) (replaced : Bool)
  | folder (name : String) (items : List Item)

mutual

def item (name : String) : PackageNode → Item
  | .file file => .file name (!file.raw)
  | .directory entries => .folder name (items entries)

/-- What is to be told of a directory. -/
def items : List (String × PackageNode) → List Item
  | [] => []
  | (name, node) :: rest => item name node :: items rest

end

mutual

/-- The names that lead to the files of which items tell. -/
def Item.places (trail : List String) : Item → List (List String)
  | .file name _ => [trail ++ [name]]
  | .folder name items => Item.allPlaces (trail ++ [name]) items

def Item.allPlaces (trail : List String) : List Item → List (List String)
  | [] => []
  | told :: rest => told.places trail ++ Item.allPlaces trail rest

end

def flag? (text : String) : Option Bool :=
  if text = "true" then some true else if text = "false" then some false else none

mutual

/-- What an element tells: a folder has its name twice, and so has an item. -/
def item? : Element → Option Item
  | ⟨kind, attributes, text, children, _⟩ => do
    if kind = "Folder" then
      let name ← attributes.lookup "Name"
      if attributes = [("Name", name), ("TargetFolderName", name)] then
        return .folder name (← items? children)
      else none
    else
      let replaced ← (← attributes.lookup "ReplaceParameters") |> flag?
      if kind = "ProjectItem" ∧
          attributes = [("ReplaceParameters", flag replaced), ("TargetFileName", text)] then
        return .file text replaced
      else none

def items? : List Element → Option (List Item)
  | [] => some []
  | e :: rest => do return (← item? e) :: (← items? rest)

end

/-- The file name of an asset: what stands last between the slashes, empty parts and points left out.
Where nothing is left, or two points are last, there is none. -/
def assetText? (asset : Option String) : Option String :=
  asset.bind fun text =>
    ((Text.split (· == '/') text).filter fun part => part ≠ "" ∧ part ≠ ".").getLast?.filter (· ≠ "..")

/-- The letters, digits and underscores of the template's name; without any the name of a project. -/
def defaultText (t : Template) : String :=
  match (t.name.getD "").toList.filter fun c => Text.isAlphanumeric c ∨ c = '_' with
  | [] => "Project"
  | cs => String.ofList cs

/-- The texts about the template, each behind the name that it is filed under. -/
def dataTexts (t : Template) (language : Language) : List (String × String) :=
  [("Name", t.name.getD ""), ("Description", t.description.getD ""), ("ProjectType", language.name),
    ("NumberOfParentCategoriesToRollUp", "1"), ("DefaultName", defaultText t)] ++
  ((assetText? t.icon).map ("Icon", ·)).toList ++
  ((assetText? t.preview).map ("PreviewImage", ·)).toList

/-- The element of a project in a descriptor that was read, and what is around it. -/
structure Restated (t : Template) (language : Language) (project : List String) (file : PackageFile)
    (listed : List Item) (root data content p : Element) : Prop where
  parts : root.children = [data, content]
  projects : content.children = [p]
  kinds : [root, data, content, p].map (·.name) =
    ["VSTemplate", "TemplateData", "TemplateContent", "Project"]
  texts : data.children.map (fun e => (e.name, e.text)) = dataTexts t language
  path : p.attribute? "File" = some ("/".intercalate project)
  name : p.attribute? "TargetFileName" = project.getLast?
  flag : p.attribute? "ReplaceParameters" = some (flag (!file.raw))
  items : items? p.children = some listed

/-- Attributes are sound as soon as their names are; the values may be any texts. -/
theorem attributes_of_keys {attributes : List (String × String)} (keys : List String)
    (h : attributes.map Prod.fst = keys) (hkeys : (∀ key ∈ keys, IsName key) ∧ keys.Nodup) :
    Attributes attributes where
  names := fun _ hpair => hkeys.1 _ (h ▸ List.mem_map_of_mem hpair)
  distinct := h ▸ hkeys.2

theorem allSound_of_forall {trees : List Tree} (h : ∀ tree ∈ trees, tree.Sound) :
    Tree.AllSound trees := by
  induction trees with
  | nil => trivial
  | cons tree trees ih =>
    exact ⟨h tree List.mem_cons_self, ih fun t ht => h t (List.mem_cons_of_mem _ ht)⟩

theorem filterMap_step? (segments : List String) :
    segments.filterMap Path.step? = (segments.filter fun part => part ≠ "" ∧ part ≠ ".").map
      fun part => if part = ".." then .up else .name part := by
  induction segments with
  | nil => rfl
  | cons part rest ih =>
    by_cases hidle : part = "" ∨ part = "."
    · rw [List.filterMap_cons_none (by simp [Path.step?, hidle]), ih,
        List.filter_cons_of_neg (by simpa [imp_iff_not_or] using hidle)]
    · have hstands := not_or.mp hidle
      rw [List.filterMap_cons_some (b := if part = ".." then .up else .name part)
        (by simp only [Path.step?, hidle, if_false]; split <;> rfl), ih,
        List.filter_cons_of_pos (by simpa using hstands), List.map_cons]

theorem assetName?_eq (asset : Option String) : assetName? asset = assetText? asset := by
  cases asset with
  | none => rfl
  | some text =>
    ext name
    have hmoves : (Path.mk text).moves = (Text.split (· == '/') text).filterMap Path.step? := rfl
    simp only [assetName?, assetText?, Option.bind_some]
    rw [Path.fileName?_eq_some_iff, hmoves, filterMap_step?, List.getLast?_map]
    cases ((Text.split (· == '/') text).filter fun part => part ≠ "" ∧ part ≠ ".").getLast? with
    | none => simp
    | some last => by_cases hup : last = ".." <;> simp [hup, Option.filter]

theorem defaultName_eq (t : Template) : defaultName t = defaultText t := by
  have hempty (cs : List Char) : String.ofList cs = "" ↔ cs = [] := String.ofList_eq_empty_iff
  unfold defaultName defaultText
  simp only [hempty, Bool.decide_or, Bool.decide_eq_true]
  cases (t.name.getD "").toList.filter fun c => Text.isAlphanumeric c || decide (c = '_') <;> rfl

theorem dataElements_eq (t : Template) (language : Language) :
    dataElements t language = (dataTexts t language).map fun pair => textElement pair.1 pair.2 := by
  simp only [dataElements, dataTexts, List.map_append, List.map_cons, List.map_nil, assetName?_eq,
    defaultName_eq]
  congr 1
  · congr 1
    cases assetText? t.icon <;> rfl
  · cases assetText? t.preview <;> rfl

theorem isName_of_mem_dataTexts {t : Template} {language : Language} {pair : String × String}
    (h : pair ∈ dataTexts t language) : IsName pair.1 := by
  have hkey : pair.1 ∈ ["Name", "Description", "ProjectType", "NumberOfParentCategoriesToRollUp",
      "DefaultName", "Icon", "PreviewImage"] := by
    simp only [dataTexts, List.mem_append, List.mem_cons, List.not_mem_nil, or_false,
      Option.mem_toList, Option.map_eq_some_iff] at h
    rcases h with ((rfl | rfl | rfl | rfl | rfl) | ⟨_, -, rfl⟩) | ⟨_, -, rfl⟩ <;> simp
  have hnames : ∀ key ∈ ["Name", "Description", "ProjectType", "NumberOfParentCategoriesToRollUp",
      "DefaultName", "Icon", "PreviewImage"], IsName key := by decide
  exact hnames _ hkey

mutual

theorem sound_nodeElements (project : List String) (name : String) (trail : List String) :
    (node : PackageNode) → ∀ tree ∈ nodeElements project name trail node, tree.Sound
  | .directory entries => by
    unfold nodeElements
    intro tree htree
    obtain rfl := List.mem_singleton.mp htree
    exact ⟨by decide, attributes_of_keys ["Name", "TargetFolderName"] rfl (by decide),
      allSound_of_forall (sound_entryElements project trail entries)⟩
  | .file file => by
    unfold nodeElements
    intro tree htree
    split at htree
    · cases htree
    · obtain rfl := List.mem_singleton.mp htree
      exact ⟨by decide, attributes_of_keys ["ReplaceParameters", "TargetFileName"] rfl (by decide)⟩

theorem sound_entryElements (project : List String) (trail : List String) :
    (entries : List (String × PackageNode)) →
      ∀ tree ∈ entryElements project trail entries, tree.Sound
  | [] => by simp [entryElements]
  | (name, node) :: rest => by
    unfold entryElements
    intro tree htree
    rcases List.mem_append.mp htree with htree | htree
    · exact sound_nodeElements project name (trail ++ [name]) node tree htree
    · exact sound_entryElements project trail rest tree htree

end

/-- Whatever the names and texts are, a descriptor is a sound document. -/
theorem sound_tree (t : Template) (language : Language) (entries : PackageEntries)
    (project : List String) (file : PackageFile) : (tree t language entries project file).Sound := by
  have hdata : Tree.AllSound (dataElements t language) := by
    refine allSound_of_forall fun element helement => ?_
    rw [dataElements_eq] at helement
    obtain ⟨pair, hpair, rfl⟩ := List.mem_map.mp helement
    exact ⟨isName_of_mem_dataTexts hpair, attributes_of_keys [] rfl (by simp)⟩
  have hproject : (projectElement entries project file).Sound := by
    refine ⟨by decide,
      attributes_of_keys ["File", "TargetFileName", "ReplaceParameters"] rfl (by decide),
      allSound_of_forall ?_⟩
    split
    · exact sound_entryElements project _ _
    · simp
  refine ⟨by decide, attributes_of_keys ["Version", "Type", "xmlns"] rfl (by decide), ?_, ?_, trivial⟩
  · exact ⟨by decide, attributes_of_keys [] rfl (by decide), hdata⟩
  · exact ⟨by decide, attributes_of_keys [] rfl (by decide), hproject, trivial⟩

@[simp]
theorem flag?_flag (value : Bool) : flag? (flag value) = some value := by
  cases value <;> rfl

theorem item?_file {name : String} {replaced : Bool} {e : Element}
    (h : (Tree.leaf "ProjectItem" [("ReplaceParameters", flag replaced), ("TargetFileName", name)]
      name).Mirrors e) : item? e = some (.file name replaced) := by
  obtain ⟨kind, attributes, text, children, position⟩ := e
  obtain ⟨rfl, rfl, htext, rfl⟩ := h
  obtain rfl : text = name := htext
  simp [item?]

theorem item?_folder {name : String} {children : List Tree} {e : Element} {listed : List Item}
    (h : (Tree.branch "Folder" [("Name", name), ("TargetFolderName", name)] children).Mirrors e)
    (hchildren : ∀ es, Tree.AllMirror children es → items? es = some listed) :
    item? e = some (.folder name listed) := by
  obtain ⟨kind, attributes, text, inner, position⟩ := e
  obtain ⟨rfl, rfl, hinner⟩ := h
  simp [item?, hchildren inner hinner]

/-- One element more. -/
theorem items?_cons {tree : Tree} {trees : List Tree} {told : Item} {listed : List Item}
    {es : List Element} (h : Tree.AllMirror (tree :: trees) es)
    (htree : ∀ e, tree.Mirrors e → item? e = some told)
    (htrees : ∀ es, Tree.AllMirror trees es → items? es = some listed) :
    items? es = some (told :: listed) := by
  obtain ⟨e, rest, rfl, hhead, htail⟩ := Tree.allMirror_cons.mp h
  simp [items?, htree e hhead, htrees rest htail]

mutual

/-- Only the project file is not told. -/
theorem item?_nodeElements (project trail : List String) (name : String)
    (hlong : project.length ≤ trail.length) (hne : trail ≠ project) :
    (node : PackageNode) → ∃ tree, nodeElements project name trail node = [tree] ∧
      ∀ e, tree.Mirrors e → item? e = some (item name node)
  | .directory entries => by
    unfold nodeElements item
    exact ⟨_, rfl, fun e he => item?_folder he (items?_entryElements hlong entries)⟩
  | .file file => by
    unfold nodeElements item
    exact ⟨_, if_neg hne, fun e he => item?_file he⟩

/-- Below the directory of the project file every entry is told. -/
theorem items?_entryElements {project : List String} {trail : List String}
    (hlong : project.length ≤ trail.length) :
    (entries : List (String × PackageNode)) → ∀ es,
      Tree.AllMirror (entryElements project trail entries) es → items? es = some (items entries)
  | [], es, h => by
    obtain rfl := Tree.allMirror_nil.mp h
    rfl
  | (name, node) :: rest, es, h => by
    have hlonger : project.length < (trail ++ [name]).length := by
      rw [List.length_append]
      exact Nat.lt_succ_of_le hlong
    have hne : trail ++ [name] ≠ project := fun heq => Nat.ne_of_lt hlonger (heq ▸ rfl)
    obtain ⟨tree, htree, htold⟩ := item?_nodeElements _ _ name (Nat.le_of_lt hlonger) hne node
    unfold entryElements at h
    rw [htree] at h
    exact items?_cons h htold (items?_entryElements hlong rest)

end

/-- Where the project file lies, it is the only entry that is not told. -/
theorem items?_directory {directory : List String} {last : String} {inner : PackageEntries}
    (hproper : PackageEntries.ProperFrom inner)
    (hfile : ∀ node, inner.lookup last = some node → ∃ file, node = .file file) {es : List Element}
    (h : Tree.AllMirror (entryElements (directory ++ [last]) directory inner) es) :
    items? es = some (items (inner.filter (·.1 ≠ last))) := by
  induction inner generalizing es with
  | nil =>
    obtain rfl := Tree.allMirror_nil.mp h
    rfl
  | cons entry rest ih =>
    obtain ⟨name, node⟩ := entry
    obtain ⟨-, -, hunique, hrest⟩ := hproper
    unfold entryElements at h
    by_cases hname : name = last
    · -- the project file has no element, and no other entry has its name
      subst hname
      obtain ⟨file, rfl⟩ := hfile node (by simp)
      rw [nodeElements, if_pos rfl, List.nil_append] at h
      rw [List.filter_cons_of_neg (by simp)]
      exact ih hrest (fun node hnode => by rw [hunique] at hnode; cases hnode) h
    · have hother : ∀ node, rest.lookup last = some node → ∃ file, node = .file file := by
        intro found hfound
        refine hfile found ?_
        rwa [List.lookup_cons, beq_false_of_ne (Ne.symm hname)]
      obtain ⟨tree, htree, htold⟩ := item?_nodeElements (directory ++ [last]) (directory ++ [name])
        name (by simp) (by simpa using hname) node
      rw [htree] at h
      rw [List.filter_cons_of_pos (by simpa using hname)]
      exact items?_cons h htold fun es hes => ih hrest hother hes

end Descriptor

namespace PackageEntries

variable {entries inner : PackageEntries} {directory trail : List String} {last : String}
  {file : PackageFile}

theorem ProperFrom.directory? (h : ProperFrom entries)
    (hinner : directory? entries directory = some inner) : ProperFrom inner := by
  induction directory generalizing entries with
  | nil =>
    obtain rfl := Option.some.inj hinner
    exact h
  | cons name directory ih =>
    rw [PackageEntries.directory?] at hinner
    split at hinner
    · next below hlookup => exact ih (h.of_lookup hlookup) hinner
    · cases hinner

/-- A file in a directory, not below another directory in it, is one of its entries. -/
theorem lookup_of_mem_filesFrom (hproper : ProperFrom entries)
    (h : (trail ++ [last], file) ∈ filesFrom trail entries) :
    entries.lookup last = some (.file file) := by
  obtain ⟨name, node, hlookup, hmem⟩ := (mem_filesFrom_iff hproper).mp h
  cases node with
  | file found =>
    obtain ⟨hnames, rfl⟩ := Prod.mk.inj (List.mem_singleton.mp hmem)
    obtain rfl : last = name := by simpa using hnames
    exact hlookup
  | directory below =>
    obtain ⟨other, more, hnames, -⟩ := names_of_mem_filesFrom (hproper.of_lookup hlookup) hmem
    simp at hnames

/-- The directory of a file: it is proper, the file is one of its entries, and what lies below it are
the files whose names begin with its own. -/
structure Around (entries inner : PackageEntries) (directory : List String) (last : String)
    (file : PackageFile) : Prop where
  found : directory? entries directory = some inner
  proper : ProperFrom inner
  entry : inner.lookup last = some (.file file)
  mem_iff : ∀ names file', (names, file') ∈ filesFrom directory inner ↔
    (names, file') ∈ entries.files ∧ directory <+: names

theorem exists_around (hproper : ProperFrom entries) (h : (directory ++ [last], file) ∈ entries.files) :
    ∃ inner, Around entries inner directory last file := by
  obtain ⟨inner, hinner, hfiles⟩ := directory?_of_mem_files hproper
    (show ([] ++ directory ++ [last], file) ∈ filesFrom [] entries from h)
  have hbelow := hproper.directory? hinner
  have hmem : (directory ++ [last], file) ∈ filesFrom directory inner :=
    (hfiles _ _).mpr ⟨h, List.prefix_append _ _⟩
  exact ⟨inner, hinner, hbelow, lookup_of_mem_filesFrom hbelow hmem, hfiles⟩

theorem lookup_filter_of_ne {name : String} (h : name ≠ last) (entries : PackageEntries) :
    (entries.filter (·.1 ≠ last)).lookup name = entries.lookup name := by
  induction entries with
  | nil => rfl
  | cons entry rest ih =>
    obtain ⟨first, node⟩ := entry
    by_cases hfirst : first = last
    · rw [List.filter_cons_of_neg (by simpa using hfirst), ih, List.lookup_cons,
        beq_false_of_ne (hfirst ▸ h)]
    · rw [List.filter_cons_of_pos (by simpa using hfirst), List.lookup_cons, List.lookup_cons, ih]

theorem lookup_filter_self (last : String) (entries : PackageEntries) :
    (entries.filter (·.1 ≠ last)).lookup last = none := by
  refine List.lookup_eq_none_iff.mpr fun entry hentry => ?_
  have hne : entry.1 ≠ last := by simpa using (List.mem_filter.mp hentry).2
  exact bne_iff_ne.mpr (Ne.symm hne)

theorem ProperFrom.filter (h : ProperFrom entries) (last : String) :
    ProperFrom (entries.filter (·.1 ≠ last)) := by
  induction entries with
  | nil => trivial
  | cons entry rest ih =>
    obtain ⟨first, node⟩ := entry
    obtain ⟨hname, hnode, hunique, hrest⟩ := h
    by_cases hfirst : first = last
    · rw [List.filter_cons_of_neg (by simpa using hfirst)]
      exact ih hrest
    · rw [List.filter_cons_of_pos (by simpa using hfirst)]
      exact ⟨hname, hnode, by rwa [lookup_filter_of_ne hfirst], ih hrest⟩

/-- Without one of its files a directory has all others. -/
theorem mem_filesFrom_filter_iff (hproper : ProperFrom inner)
    (hfile : inner.lookup last = some (.file file)) {names : List String} {found : PackageFile} :
    (names, found) ∈ filesFrom trail (inner.filter (·.1 ≠ last)) ↔
      (names, found) ∈ filesFrom trail inner ∧ names ≠ trail ++ [last] := by
  rw [mem_filesFrom_iff (hproper.filter last), mem_filesFrom_iff hproper]
  constructor
  · -- no entry of another name leads to the file that is left out
    rintro ⟨name, node, hlookup, hmem⟩
    have hname : name ≠ last := by
      rintro rfl
      rw [lookup_filter_self] at hlookup
      cases hlookup
    rw [lookup_filter_of_ne hname] at hlookup
    refine ⟨⟨name, node, hlookup, hmem⟩, ?_⟩
    rintro rfl
    obtain ⟨more, hmore⟩ := trail_prefix_of_mem_files (hproper.of_lookup hlookup) hmem
    have hsame : name :: more = [last] := by simpa using hmore
    exact hname (List.cons.inj hsame).1
  · rintro ⟨⟨name, node, hlookup, hmem⟩, hne⟩
    have hname : name ≠ last := by
      rintro rfl
      obtain rfl := Option.some.inj (hfile.symm.trans hlookup)
      exact hne (Prod.mk.inj (List.mem_singleton.mp hmem)).1
    exact ⟨name, node, by rwa [lookup_filter_of_ne hname], hmem⟩

end PackageEntries

namespace Descriptor

mutual

theorem places_item (trail : List String) (name : String) :
    (node : PackageNode) → (item name node).places trail = (node.files (trail ++ [name])).map Prod.fst
  | .file file => by
    unfold item Item.places PackageNode.files
    rfl
  | .directory entries => by
    unfold item Item.places PackageNode.files
    exact allPlaces_items (trail ++ [name]) entries

/-- All files of a directory are told of. -/
theorem allPlaces_items (trail : List String) :
    (entries : List (String × PackageNode)) →
      Item.allPlaces trail (items entries) = (PackageEntries.filesFrom trail entries).map Prod.fst
  | [] => rfl
  | (name, node) :: rest => by
    unfold items Item.allPlaces PackageEntries.filesFrom
    rw [places_item trail name node, allPlaces_items trail rest, List.map_append]

end

/-- A file is the project file, or it is told of once, or it lies outside the project's directory. -/
theorem count_places {entries inner : PackageEntries} {directory names : List String} {last : String}
    {file found : PackageFile} (h : entries.Around inner directory last file)
    (hfound : (names, found) ∈ entries.files) :
    (Item.allPlaces directory (items (inner.filter (·.1 ≠ last)))).count names =
      if directory <+: names ∧ names ≠ directory ++ [last] then 1 else 0 := by
  have hmem : names ∈ Item.allPlaces directory (items (inner.filter (·.1 ≠ last))) ↔
      directory <+: names ∧ names ≠ directory ++ [last] := by
    rw [allPlaces_items, List.mem_map]
    constructor
    · rintro ⟨⟨_, f⟩, hf, rfl⟩
      obtain ⟨hin, hne⟩ := (PackageEntries.mem_filesFrom_filter_iff h.proper h.entry).mp hf
      exact ⟨((h.mem_iff _ _).mp hin).2, hne⟩
    · rintro ⟨hwithin, hne⟩
      exact ⟨(names, found), (PackageEntries.mem_filesFrom_filter_iff h.proper h.entry).mpr
        ⟨(h.mem_iff _ _).mpr ⟨hfound, hwithin⟩, hne⟩, rfl⟩
  have hnodup : (Item.allPlaces directory (items (inner.filter (·.1 ≠ last)))).Nodup := by
    rw [allPlaces_items]
    exact PackageEntries.nodup_filesFrom directory _ (h.proper.filter last)
  split
  · next hlisted => exact List.count_eq_one_of_mem hnodup (hmem.mpr hlisted)
  · next hlisted => exact List.count_eq_zero_of_not_mem fun hn => hlisted (hmem.mp hn)

end Descriptor

theorem Descriptor.texts_of_mirror {pairs : List (String × String)} {es : List Element}
    (h : Tree.AllMirror (pairs.map fun pair => textElement pair.1 pair.2) es) :
    es.map (fun e => (e.name, e.text)) = pairs := by
  induction pairs generalizing es with
  | nil =>
    obtain rfl := Tree.allMirror_nil.mp h
    rfl
  | cons pair pairs ih =>
    obtain ⟨e, rest, rfl, ⟨hname, -, htext, -⟩, hrest⟩ := Tree.allMirror_cons.mp h
    rw [List.map_cons, ih hrest, hname, htext]

/-- Reading a descriptor back gives what was written: the texts about the template, the project file,
and all that is in its directory. -/
theorem Descriptor.exists_restated {entries inner : PackageEntries} {directory : List String}
    {last : String} {file : PackageFile} (h : entries.Around inner directory last file) (t : Template)
    (language : Language) : ∃ root data content p,
      Element.ofText (text t language entries (directory ++ [last]) file) = .ok root ∧
      Restated t language (directory ++ [last]) file (items (inner.filter (·.1 ≠ last)))
        root data content p := by
  obtain ⟨root, hread, hkind, -, hparts⟩ := Tree.ofText_document _
    (sound_tree t language entries (directory ++ [last]) file)
  -- the element has the parts of the tree, one by one
  obtain ⟨data, _, hroot, ⟨hdata, -, htexts⟩, hcontents⟩ := Tree.allMirror_cons.mp hparts
  obtain ⟨content, _, rfl, ⟨hcontent, -, hprojects⟩, hnone⟩ := Tree.allMirror_cons.mp hcontents
  obtain rfl := Tree.allMirror_nil.mp hnone
  obtain ⟨p, _, hp, ⟨hproject, hattributes, hlisted⟩, hnone⟩ := Tree.allMirror_cons.mp hprojects
  obtain rfl := Tree.allMirror_nil.mp hnone
  rw [dataElements_eq] at htexts
  simp only [List.dropLast_concat, h.found] at hlisted
  refine ⟨root, data, content, p, hread, ?_⟩
  exact {
    parts := hroot
    projects := hp
    kinds := by simp only [List.map_cons, List.map_nil, hkind, hdata, hcontent, hproject]
    texts := texts_of_mirror htexts
    path := by rw [Element.attribute?, hattributes]; rfl
    name := by rw [Element.attribute?, hattributes, List.getLast?_concat]; rfl
    flag := by rw [Element.attribute?, hattributes]; rfl
    items := items?_directory h.proper
      (fun node hnode => ⟨file, Option.some.inj (hnode.symm.trans h.entry)⟩) hlisted }

end Stencil
