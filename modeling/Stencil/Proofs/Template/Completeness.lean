import Mathlib.Data.List.Forall2
import Stencil.Proofs.Comparison.Journal
import Stencil.Proofs.Text.Trimmed
import Stencil.Template.Description

namespace Stencil

open Markup (Element)

namespace Journal

variable {j j₁ j₂ : Journal} {m n : Nat} {d : Diagnostic}

/-- A later journal with `n` more errors, all of which are recorded. -/
structure Further (n : Nat) (j j' : Journal) : Prop where
  onward : Onward j j'
  errors : j'.errors = j.errors + n
  count : j'.count .error = j.count .error + n

theorem count_publish (d : Diagnostic) (level : Level) :
    (j.publish d).count level = j.count level + if d.level = level then 1 else 0 := by
  have hrecords : (j.publish d).records = j.records ++ [d] := rfl
  rw [count, count, hrecords, List.filter_append, List.length_append]
  split <;> simp [*]

namespace Further

theorem refl (j : Journal) : Further 0 j j := ⟨Onward.refl j, rfl, rfl⟩

theorem trans (h : Further m j j₁) (h' : Further n j₁ j₂) : Further (m + n) j j₂ where
  onward := h.onward.trans h'.onward
  errors := by rw [h'.errors, h.errors, Nat.add_assoc]
  count := by rw [h'.count, h.count, Nat.add_assoc]

theorem patient (h : Further n j j₁) (hstrict : j.strict = false) (hthreshold : j.threshold ≤ .error) :
    j₁.strict = false ∧ j₁.threshold ≤ .error :=
  ⟨h.onward.strict.trans hstrict, h.onward.threshold ▸ hthreshold⟩

theorem publishFrom (h : d.level ≠ .error) : Further 0 j (j.publishFrom d) := by
  refine ⟨Onward.publishFrom j d, ?_, ?_⟩ <;> unfold Journal.publishFrom <;> split
  · rfl
  · rfl
  · rfl
  · rw [count_publish, if_neg h]

theorem error (hthreshold : j.threshold ≤ .error) (h : d.level = .error) :
    Further 1 j (j.countError.publishFrom d) := by
  have hpublish : j.countError.publishFrom d = j.countError.publish d :=
    if_neg (Level.not_lt.mpr (h ▸ hthreshold))
  refine ⟨(Onward.countError j).trans (Onward.publishFrom _ d), ?_, ?_⟩ <;> rw [hpublish]
  · rfl
  · rw [count_publish, if_pos h]
    rfl

end Further

end Journal

/-- A step that a patient journal does not stop: it ends with a value as described, and `n` errors are
reported. -/
def Reports {α : Type} (x : Attempt Journal α) (Q : α → Prop) (n : Nat) : Prop :=
  ∀ j : Journal, j.strict = false → j.threshold ≤ .error →
    ∃ a j', x.outcome j = (.ok a, j') ∧ Q a ∧ j.Further n j'

namespace Reports

variable {α β : Type} {x : Attempt Journal α} {f : α → Attempt Journal β} {Q : α → Prop} {R : β → Prop}
  {m n : Nat} {level : Level}

theorem pure {a : α} (h : Q a) : Reports (Pure.pure a) Q 0 :=
  fun j _ _ => ⟨a, j, rfl, h, .refl j⟩

theorem mono {P : α → Prop} (h : Reports x P n) (hQ : ∀ a, P a → Q a) : Reports x Q n := by
  intro j hstrict hthreshold
  obtain ⟨a, j', hx, ha, hfurther⟩ := h j hstrict hthreshold
  exact ⟨a, j', hx, hQ a ha, hfurther⟩

theorem bind (hx : Reports x Q m) (hf : ∀ a, Q a → Reports (f a) R n) :
    Reports (x >>= f) R (m + n) := by
  intro j hstrict hthreshold
  obtain ⟨a, j₁, hxj, ha, h₁⟩ := hx j hstrict hthreshold
  obtain ⟨hstrict, hthreshold⟩ := h₁.patient hstrict hthreshold
  obtain ⟨b, j₂, hfj, hb, h₂⟩ := hf a ha j₁ hstrict hthreshold
  exact ⟨b, j₂, Attempt.outcome_bind_eq_ok_iff.mpr ⟨a, j₁, hxj, hfj⟩, hb, h₁.trans h₂⟩

/-- A value made from that of a step. -/
theorem map (hx : Reports x Q n) {g : α → β} (hg : ∀ a, Q a → R (g a)) :
    Reports (x >>= fun a => Pure.pure (g a)) R n :=
  hx.bind fun a ha => .pure (hg a ha)

theorem detail (message : String) : Reports (Journal.detail message) (fun _ => True) 0 :=
  fun j _ _ => ⟨(), _, rfl, trivial, Journal.Onward.mention j _ _, rfl, rfl⟩

theorem say_info (message : String) : Reports (Journal.say .info message) (fun _ => True) 0 :=
  fun _ _ _ => ⟨(), _, Journal.outcome_emit _ _, trivial, .publishFrom nofun⟩

theorem sayAt_warning (location : Location) (message : String) :
    Reports (Journal.sayAt .warning location message) (fun _ => True) 0 :=
  fun _ _ _ => ⟨(), _, Journal.outcome_emit _ _, trivial, .publishFrom nofun⟩

theorem sayAt_error (location : Location) (message : String) :
    Reports (Journal.sayAt .error location message) (fun _ => True) 1 := by
  intro j hstrict hthreshold
  refine ⟨(), _, ?_, trivial, .error (d := ⟨.error, message, some location⟩) hthreshold rfl⟩
  rw [Journal.sayAt, Journal.outcome_emit, hstrict]
  rfl

/-- What is known of a step whose outcome is at hand. -/
theorem of_outcome (h : Reports x Q n) {j j' : Journal} {a : α} (hstrict : j.strict = false)
    (hthreshold : j.threshold ≤ .error) (hx : x.outcome j = (.ok a, j')) : Q a ∧ j.Further n j' := by
  obtain ⟨b, j₁, hb, hQ, hfurther⟩ := h j hstrict hthreshold
  cases hb.symm.trans hx
  exact ⟨hQ, hfurther⟩

end Reports

namespace VariableStore

variable {store : VariableStore} {v : Variable}

/-- A store with distinct names, none of them empty or with white space around it, that holds the
extension of source files. -/
structure Tidy (store : VariableStore) : Prop where
  distinct : (store.toList.map (·.name)).Nodup
  nonempty : ∀ v ∈ store.toList, v.name ≠ ""
  trimmed : ∀ v ∈ store.toList, Text.trim v.name = v.name
  sourceExtension : store.contains Template.sourceExtensionName = true

theorem contains_iff {name : String} :
    store.contains name = true ↔ ∃ v ∈ store.toList, v.name = name := by
  simp [contains, get?]

theorem names_declare (store : VariableStore) (v : Variable) :
    (store.declare v).toList.map (·.name) =
      store.toList.map (·.name) ++ if store.contains v.name then [] else [v.name] := by
  unfold declare
  split
  · rw [List.map_map, List.append_nil]
    refine List.map_congr_left fun old _ => ?_
    rw [Function.comp_apply]
    split
    · next h => exact h.symm
    · rfl
  · rw [List.map_append, List.map_singleton]

/-- A declaration adds nothing but its variable. -/
theorem mem_declare {w : Variable} (h : w ∈ (store.declare v).toList) : w = v ∨ w ∈ store.toList := by
  unfold declare at h
  split at h
  · obtain ⟨old, hold, rfl⟩ := List.mem_map.mp h
    split
    · exact Or.inl rfl
    · exact Or.inr hold
  · exact (List.mem_append.mp h).symm.imp_left List.mem_singleton.mp

theorem Tidy.declare (h : store.Tidy) (hname : v.name ≠ "") (htrim : Text.trim v.name = v.name) :
    (store.declare v).Tidy where
  distinct := by
    rw [names_declare]
    split
    · rw [List.append_nil]
      exact h.distinct
    · next hnew =>
      refine List.nodup_append.mpr ⟨h.distinct, List.pairwise_singleton _ _, fun a ha b hb hab => ?_⟩
      obtain ⟨w, hw, rfl⟩ := List.mem_map.mp ha
      exact hnew (contains_iff.mpr ⟨w, hw, hab.trans (List.mem_singleton.mp hb)⟩)
  nonempty w hw := (mem_declare hw).elim (· ▸ hname) (h.nonempty w)
  trimmed w hw := (mem_declare hw).elim (· ▸ htrim) (h.trimmed w)
  sourceExtension := by
    -- the names of the store stay
    obtain ⟨w, hw, hext⟩ := contains_iff.mp h.sourceExtension
    have hmem : Template.sourceExtensionName ∈ (store.declare v).toList.map (·.name) := by
      rw [names_declare, ← hext]
      exact List.mem_append_left _ (List.mem_map.mpr ⟨w, hw, rfl⟩)
    obtain ⟨w', hw', hname'⟩ := List.mem_map.mp hmem
    exact contains_iff.mpr ⟨w', hw', hname'⟩

/-- The store that the reading of variables starts from. -/
theorem tidy_sourceExtension : (declare {} Template.sourceExtension).Tidy := by
  refine ⟨?_, ?_, ?_, ?_⟩ <;> decide

end VariableStore

namespace Template

variable {path : Path} {directories : List Path}

/-- A variable element with a name, and with a type that is none. -/
def Mistyped (e : Element) : Prop :=
  Text.trim ((e.attribute? "name").getD "") ≠ "" ∧
    (e.attribute? "type").any (fun word => (VariableType.ofName? word).isNone) = true

instance (e : Element) : Decidable (Mistyped e) := inferInstanceAs (Decidable (_ ∧ _))

theorem reports_typeOf (location : Location) (word : Option String) :
    Reports (typeOf location word) (fun _ => True)
      (if word.any (fun word => (VariableType.ofName? word).isNone) then 1 else 0) := by
  cases word with
  | none => exact .pure trivial
  | some word =>
    unfold typeOf
    dsimp only
    cases h : VariableType.ofName? word with
    | none =>
      simp only [Option.any_some, h, Option.isNone_none, if_true]
      exact (Reports.sayAt_error _ _).map fun _ _ => trivial
    | some type =>
      simp only [Option.any_some, h, Option.isNone_some]
      exact .pure trivial

theorem reports_addVariable {store : VariableStore} (hstore : store.Tidy) (e : Element) :
    Reports (addVariable path store e) VariableStore.Tidy (if Mistyped e then 1 else 0) := by
  unfold addVariable
  dsimp only
  split
  · next hname =>
    rw [if_neg fun h : Mistyped e => h.1 hname]
    exact (Reports.sayAt_warning _ _).map fun _ _ => hstore
  · next hname =>
    have htype := reports_typeOf ⟨path, e.position⟩ (e.attribute? "type")
    simp only [Mistyped, ne_eq, hname, not_false_eq_true, true_and]
    refine htype.map fun type _ => hstore.declare ?_ ?_
    · exact hname
    · exact Text.trim_trim _

theorem reports_variables (elements : List Element) {store : VariableStore} (hstore : store.Tidy) :
    Reports (elements.foldlM (addVariable path) store) VariableStore.Tidy
      (elements.countP (Mistyped ·)) := by
  induction elements generalizing store with
  | nil => exact .pure hstore
  | cons e rest ih =>
    rw [List.foldlM_cons, List.countP_cons, Nat.add_comm]
    simp only [decide_eq_true_eq]
    exact (reports_addVariable hstore e).bind fun _ h => ih h

/-- An element whose source and destination can stand below a directory. -/
def Usable (e : Element) : Prop :=
  ∃ source ∈ e.attribute? "src", isRelative source = true ∧
    isRelative ((e.attribute? "dst").getD source) = true

instance (e : Element) : Decidable (Usable e) := inferInstanceAs (Decidable (∃ _ ∈ _, _))

/-- An entry that says what an element does. -/
structure Describes (e : Element) (entry : Entry) : Prop where
  source : e.attribute? "src" = some entry.source
  destination : entry.destination = (e.attribute? "dst").getD entry.source
  raw : entry.raw = isTrue (e.attribute? "raw")
  position : entry.position = e.position

/-- An entry with paths that are not empty and not rooted, and with its source in each source
directory. -/
structure WellFormed (directories : List Path) (entry : Entry) : Prop where
  source : entry.source ≠ "" ∧ (Path.mk entry.source).isRooted = false
  destination : entry.destination ≠ "" ∧ (Path.mk entry.destination).isRooted = false
  candidates :
    entry.candidates = directories.map fun directory => (directory.join ⟨entry.source⟩).text

theorem isRelative_iff {text : String} :
    isRelative text = true ↔ text ≠ "" ∧ (Path.mk text).isRooted = false := by
  simp [isRelative]

theorem reports_entryOf_of_usable {e : Element} (h : Usable e) :
    Reports (entryOf path directories e)
      (fun entry? => ∃ entry, entry? = some entry ∧ Describes e entry ∧ WellFormed directories entry)
      0 := by
  obtain ⟨source, hsource, hrelative, hdestination⟩ := h
  have hfilter : (e.attribute? "src").filter isRelative = some source := by
    rw [Option.mem_def.mp hsource, Option.filter_some, if_pos hrelative]
  unfold entryOf
  dsimp only
  rw [hfilter]
  dsimp only
  rw [if_pos hdestination]
  exact .pure ⟨_, rfl, ⟨hsource, rfl, rfl, rfl⟩,
    ⟨isRelative_iff.mp hrelative, isRelative_iff.mp hdestination, rfl⟩⟩

theorem reports_entryOf_of_not_usable {e : Element} (h : ¬ Usable e) :
    Reports (entryOf path directories e) (· = none) 1 := by
  unfold entryOf
  dsimp only
  split
  · exact (Reports.sayAt_error _ _).map fun _ _ => rfl
  · next source hfilter =>
    obtain ⟨hsource, hrelative⟩ := Option.filter_eq_some_iff.mp hfilter
    rw [if_neg fun hdestination => h ⟨source, hsource, hrelative, hdestination⟩]
    exact (Reports.sayAt_error _ _).map fun _ _ => rfl

/-- Entries for those of the elements that are usable, in their order. -/
structure Entries (directories : List Path) (elements : List Element) (entries : List Entry) :
    Prop where
  describes : List.Forall₂ Describes (elements.filter (Usable ·)) entries
  wellFormed : ∀ entry ∈ entries, WellFormed directories entry

section

variable {e : Element} {rest : List Element} {entry : Entry} {entries : List Entry}

theorem filter_of_usable (h : Usable e) (rest : List Element) :
    (e :: rest).filter (Usable ·) = e :: rest.filter (Usable ·) := by
  rw [List.filter_cons, if_pos (decide_eq_true h)]

theorem filter_of_not_usable (h : ¬ Usable e) (rest : List Element) :
    (e :: rest).filter (Usable ·) = rest.filter (Usable ·) := by
  rw [List.filter_cons, if_neg fun hd => h (of_decide_eq_true hd)]

theorem Entries.cons (h : Usable e) (hentry : Describes e entry ∧ WellFormed directories entry)
    (hrest : Entries directories rest entries) : Entries directories (e :: rest) (entry :: entries) where
  describes := filter_of_usable h rest ▸ .cons hentry.1 hrest.describes
  wellFormed := List.forall_mem_cons.mpr ⟨hentry.2, hrest.wellFormed⟩

theorem Entries.skip (h : ¬ Usable e) (hrest : Entries directories rest entries) :
    Entries directories (e :: rest) entries where
  describes := filter_of_not_usable h rest ▸ hrest.describes
  wellFormed := hrest.wellFormed

end

theorem reports_entriesOf (elements : List Element) :
    Reports (entriesOf path directories elements) (Entries directories elements)
      (elements.countP (¬ Usable ·)) := by
  induction elements with
  | nil => exact .pure ⟨.nil, nofun⟩
  | cons e rest ih =>
    unfold entriesOf
    rw [List.countP_cons, Nat.add_comm]
    by_cases h : Usable e
    · simp only [h, not_true_eq_false, decide_false, Bool.false_eq_true, if_false]
      refine (reports_entryOf_of_usable h).bind ?_
      rintro _ ⟨entry, rfl, hentry⟩
      exact ih.map fun _ hentries => hentries.cons h hentry
    · simp only [h, not_false_eq_true, decide_true, if_true]
      refine (reports_entryOf_of_not_usable h).bind ?_
      rintro _ rfl
      exact ih.map fun _ hentries => hentries.skip h

/-- A project for each usable element, in their order, with the entries of its file elements. -/
structure Projects (directories : List Path) (elements : List Element) (projects : List Project) :
    Prop where
  describes : List.Forall₂ (fun e p => Describes e p.entry ∧
    List.Forall₂ Describes ((e.childrenNamed "File").filter (Usable ·)) p.files)
    (elements.filter (Usable ·)) projects
  wellFormed : ∀ p ∈ projects, ∀ entry ∈ p.entries, WellFormed directories entry

section

variable {e : Element} {rest : List Element} {entry : Entry} {files : List Entry}
  {projects : List Project}

theorem Projects.cons (h : Usable e) (hentry : Describes e entry ∧ WellFormed directories entry)
    (hfiles : Entries directories (e.childrenNamed "File") files)
    (hrest : Projects directories rest projects) :
    Projects directories (e :: rest) (⟨entry, files⟩ :: projects) where
  describes := filter_of_usable h rest ▸ .cons ⟨hentry.1, hfiles.describes⟩ hrest.describes
  wellFormed := List.forall_mem_cons.mpr
    ⟨List.forall_mem_cons.mpr ⟨hentry.2, hfiles.wellFormed⟩, hrest.wellFormed⟩

theorem Projects.skip (h : ¬ Usable e) (hrest : Projects directories rest projects) :
    Projects directories (e :: rest) projects where
  describes := filter_of_not_usable h rest ▸ hrest.describes
  wellFormed := hrest.wellFormed

end

/-- The number of project elements that are not usable, and of file elements that are not in those that
are. -/
def unusable (elements : List Element) : Nat :=
  elements.countP (¬ Usable ·) +
    ((elements.filter (Usable ·)).flatMap (·.childrenNamed "File")).countP (¬ Usable ·)

theorem unusable_cons_of_usable {e : Element} (h : Usable e) (rest : List Element) :
    unusable (e :: rest) = (e.childrenNamed "File").countP (¬ Usable ·) + unusable rest := by
  rw [unusable, filter_of_usable h, List.countP_cons, if_neg (by simpa using h), List.flatMap_cons,
    List.countP_append, unusable]
  omega

theorem unusable_cons_of_not_usable {e : Element} (h : ¬ Usable e) (rest : List Element) :
    unusable (e :: rest) = 1 + unusable rest := by
  rw [unusable, filter_of_not_usable h, List.countP_cons, if_pos (by simpa using h), unusable]
  omega

theorem reports_projectsOf (elements : List Element) :
    Reports (projectsOf path directories elements) (Projects directories elements)
      (unusable elements) := by
  induction elements with
  | nil => exact .pure ⟨.nil, nofun⟩
  | cons e rest ih =>
    unfold projectsOf
    by_cases h : Usable e
    · rw [unusable_cons_of_usable h, ← Nat.zero_add (_ + _), ← Nat.zero_add (unusable rest)]
      refine (reports_entryOf_of_usable h).bind ?_
      rintro _ ⟨entry, rfl, hentry⟩
      refine (reports_entriesOf _).bind fun files hfiles => (Reports.detail _).bind fun _ _ => ?_
      exact ih.map fun _ hprojects => hprojects.cons h hentry hfiles
    · rw [unusable_cons_of_not_usable h]
      refine (reports_entryOf_of_not_usable h).bind ?_
      rintro _ rfl
      exact ih.mono fun _ hprojects => hprojects.skip h

/-- What is wrong with single elements of a description: unusable projects and files, and variables of
an unknown type. -/
def faults (root : Element) : Nat :=
  (root.childrenNamed "Var").countP (Mistyped ·) + unusable (root.childrenNamed "Project")

/-- A template that holds all that is usable of a description, and nothing else. -/
structure Complete (t : Template) (fs : FileSystem) (path : Path) (root : Element) : Prop where
  sourceDirectories : t.sourceDirectories =
    if root.childrenNamed "SrcFolder" = [] then [path.directory]
    else (root.childrenNamed "SrcFolder").map fun e => path.directory.join ⟨Text.trim e.text⟩
  nonempty : t.sourceDirectories ≠ []
  present : ∀ directory ∈ t.sourceDirectories, fs.isDirectory directory = true
  tidy : t.store.Tidy
  projects : Projects t.sourceDirectories (root.childrenNamed "Project") t.projects

theorem sourceDirectoriesOf_eq (path : Path) (root : Element) :
    (sourceDirectoriesOf path root).map (·.1) =
      if root.childrenNamed "SrcFolder" = [] then [path.directory]
      else (root.childrenNamed "SrcFolder").map fun e => path.directory.join ⟨Text.trim e.text⟩ := by
  unfold sourceDirectoriesOf
  split
  · next h => rw [if_pos h, List.map_singleton]
  · next h =>
    simp only [if_neg h, List.map_map, Function.comp_def]

theorem sourceDirectoriesOf_ne_nil (path : Path) (root : Element) :
    (sourceDirectoriesOf path root).map (·.1) ≠ [] := by
  rw [sourceDirectoriesOf_eq]
  split
  · exact List.cons_ne_nil _ _
  · next h => exact fun hnil => h (List.map_eq_nil_iff.mp hnil)

/-- The check of the source directories is silent, and goes through if they all are there. -/
theorem checkDirectories_eq_ok {fs : FileSystem} {placed : List (Path × Position)} {j j' : Journal}
    (h : (checkDirectories fs path placed).outcome j = (.ok (), j')) :
    j' = j ∧ ∀ directory ∈ placed.map (·.1), fs.isDirectory directory = true := by
  induction placed with
  | nil =>
    cases h
    exact ⟨rfl, nofun⟩
  | cons place rest ih =>
    unfold checkDirectories at h
    split at h
    · next hdirectory =>
      obtain ⟨hj, hrest⟩ := ih h
      exact ⟨hj, List.forall_mem_cons.mpr ⟨hdirectory, hrest⟩⟩
    · cases h

/-- A template that a patient journal lets pass holds all that is usable of its description, and
nothing else; what is not usable is reported, each element once. -/
theorem parse_complete {fs : FileSystem} {path : Path} {source : String} {t : Template}
    {j j' : Journal} (hstrict : j.strict = false) (hthreshold : j.threshold ≤ .error)
    (h : (parse fs path source).outcome j = (.ok t, j')) :
    ∃ root, Element.ofText source = .ok root ∧ root.name = "Template" ∧ t.Complete fs path root ∧
      j.Further (faults root) j' := by
  unfold parse at h
  split at h
  · cases h
  · next root hroot =>
    refine ⟨root, hroot, ?_⟩
    unfold ofElement at h
    dsimp only at h
    split at h
    · cases h
    · next hname =>
      -- each part of the reading starts from the journal that the one before it left
      obtain ⟨_, j₁, hsay, h⟩ := Attempt.outcome_bind_eq_ok_iff.mp h
      obtain ⟨_, j₂, hcheck, h⟩ := Attempt.outcome_bind_eq_ok_iff.mp h
      obtain ⟨store, j₃, hstore, h⟩ := Attempt.outcome_bind_eq_ok_iff.mp h
      obtain ⟨projects, j₄, hprojects, h⟩ := Attempt.outcome_bind_eq_ok_iff.mp h
      cases h
      obtain ⟨rfl, hpresent⟩ := checkDirectories_eq_ok hcheck
      obtain ⟨-, hsaid⟩ := (Reports.say_info _).of_outcome hstrict hthreshold hsay
      obtain ⟨hstrict, hthreshold⟩ := hsaid.patient hstrict hthreshold
      obtain ⟨htidy, hvariables⟩ := (reports_variables _ VariableStore.tidy_sourceExtension).of_outcome
        hstrict hthreshold hstore
      obtain ⟨hstrict, hthreshold⟩ := hvariables.patient hstrict hthreshold
      obtain ⟨hread, hentries⟩ := (reports_projectsOf _).of_outcome hstrict hthreshold hprojects
      have hfurther := hsaid.trans (hvariables.trans hentries)
      rw [Nat.zero_add] at hfurther
      exact ⟨not_not.mp hname, ⟨sourceDirectoriesOf_eq path root, sourceDirectoriesOf_ne_nil path root,
        hpresent, htidy, hread⟩, hfurther⟩

/-- A document with a faulty element of each kind. -/
theorem parse_complete_faulty :
    let files : FileSystem := ⟨.directory [("work", .directory [("src", .directory [])])], ["work"]⟩
    let source := "<Template><SrcFolder> src </SrcFolder>" ++
      "<Project dst=\"b.txt\"><File src=\"x\"/></Project>" ++
      "<Var name=\" A \" type=\"number\">1</Var><Var>2</Var><Project src=\"a.txt\">" ++
      "<File dst=\"b.txt\"/><File src=\"c.txt\"/><File src=\"/d.txt\"/></Project></Template>"
    ∃ t j', (parse files ⟨"/work/t.xml"⟩ source).outcome {} = (.ok t, j') ∧
      ({} : Journal).strict = false ∧ ({} : Journal).threshold ≤ .error ∧
      (∃ root, Element.ofText source = .ok root ∧ root.name = "Template" ∧
        t.Complete files ⟨"/work/t.xml"⟩ root ∧ Journal.Further (faults root) {} j') ∧
      t.sourceDirectories = [⟨"/work/src"⟩] ∧ t.store.toList.map (·.name) = ["_sourceExt", "A"] ∧
      (t.projects.map fun p => p.entries.map (·.source)) = [["a.txt", "c.txt"]] ∧
      j'.count .error = 4 := by
  intro files source
  -- all that is to be read off the outcome, in one evaluation
  have hread : let parsed := (parse files ⟨"/work/t.xml"⟩ source).outcome {}
      (parsed.1.toOption.map fun t => (t.sourceDirectories, t.store.toList.map (·.name),
        t.projects.map fun p => p.entries.map (·.source), parsed.2.count .error)) =
          some ([⟨"/work/src"⟩], ["_sourceExt", "A"], [["a.txt", "c.txt"]], 4) := by
    decide +kernel
  generalize hparsed : (parse files ⟨"/work/t.xml"⟩ source).outcome {} = parsed at hread
  obtain ⟨result, j'⟩ := parsed
  cases result with
  | error e => cases hread
  | ok t =>
    refine ⟨t, j', rfl, rfl, by decide, parse_complete rfl (by decide) hparsed, ?_⟩
    simpa only [Except.toOption, Option.map_some, Option.some.injEq, Prod.mk.injEq] using hread

end Template

end Stencil
