import Stencil.CommandLine.Console
import Stencil.Proofs.Comparison.Rules

namespace Stencil

namespace Dictionary

variable {α β : Type} {entries : Dictionary α}

/-- No name stands twice. -/
def Distinct (entries : Dictionary α) : Prop := (entries.map (·.1)).Nodup

instance (entries : Dictionary α) : Decidable entries.Distinct :=
  inferInstanceAs (Decidable (entries.map (·.1)).Nodup)

theorem lookup_cons (first : String) (value : α) (rest : Dictionary α) (name : String) :
    List.lookup name ((first, value) :: rest) =
      if name = first then some value else rest.lookup name := by
  by_cases h : name = first
  · rw [if_pos h, h, List.lookup_cons_self]
  · rw [if_neg h, List.lookup_cons, beq_false_of_ne h]

theorem lookup_put (entries : Dictionary α) (name : String) (value : α) (other : String) :
    (entries.put name value).lookup other =
      if other = name then some value else entries.lookup other := by
  induction entries with
  | nil => rw [put, lookup_cons]
  | cons entry rest ih =>
    obtain ⟨first, old⟩ := entry
    rw [put, lookup_cons]
    by_cases hfirst : first = name
    · rw [if_pos hfirst, lookup_cons, hfirst]
      split <;> rfl
    · rw [if_neg hfirst, lookup_cons, ih]
      by_cases h : other = name
      · rw [if_neg (h ▸ Ne.symm hfirst), if_pos h, if_pos h]
      · rw [if_neg h, if_neg h]

/-- The last value that is put for a name is found. -/
theorem lookup_putAll (entries : Dictionary α) (pairs : List (String × α)) (name : String) :
    (entries.putAll pairs).lookup name = (pairs.reverse.lookup name).or (entries.lookup name) := by
  -- the pairs are put from the front, so those behind the first count before it
  induction pairs generalizing entries with
  | nil => rfl
  | cons pair rest ih =>
    obtain ⟨other, value⟩ := pair
    have hcons : entries.putAll ((other, value) :: rest) = (entries.put other value).putAll rest := rfl
    rw [hcons, ih, lookup_put, List.reverse_cons, List.lookup_append, Option.or_assoc, lookup_cons]
    split <;> rfl

theorem lookup_ofPairs (pairs : List (String × α)) (name : String) :
    (ofPairs pairs).lookup name = pairs.reverse.lookup name := by
  rw [ofPairs, lookup_putAll, List.lookup_nil, Option.or_none]

theorem mem_names_put {name other : String} {value : α}
    (h : other ∈ (entries.put name value).map (·.1)) : other = name ∨ other ∈ entries.map (·.1) := by
  induction entries with
  | nil => exact Or.inl (List.mem_singleton.mp h)
  | cons entry rest ih =>
    rw [put] at h
    split at h
    · exact (List.mem_cons.mp h).imp_right (List.mem_cons_of_mem _)
    · rcases List.mem_cons.mp h with h | h
      · exact Or.inr (List.mem_cons.mpr (Or.inl h))
      · exact (ih h).imp_right (List.mem_cons_of_mem _)

theorem Distinct.put (h : Distinct entries) (name : String) (value : α) :
    Distinct (entries.put name value) := by
  induction entries with
  | nil => exact List.nodup_cons.mpr ⟨List.not_mem_nil, List.nodup_nil⟩
  | cons entry rest ih =>
    obtain ⟨hfirst, hrest⟩ := List.nodup_cons.mp h
    rw [Dictionary.put]
    split
    · next hsame => exact List.nodup_cons.mpr ⟨hsame ▸ hfirst, hrest⟩
    · next hother =>
      refine List.nodup_cons.mpr ⟨fun hmem => ?_, ih hrest⟩
      exact (mem_names_put hmem).elim hother hfirst

theorem Distinct.putAll (h : Distinct entries) (pairs : List (String × α)) :
    Distinct (entries.putAll pairs) := by
  induction pairs generalizing entries with
  | nil => exact h
  | cons pair rest ih => exact ih (h.put pair.1 pair.2)

theorem distinct_nil : Distinct ([] : Dictionary α) := List.nodup_nil

theorem distinct_ofPairs (pairs : List (String × α)) : Distinct (ofPairs pairs) :=
  distinct_nil.putAll pairs

/-- Where no name stands twice, the first value of a name is the last. -/
theorem Distinct.lookup_reverse (h : Distinct entries) (name : String) :
    entries.reverse.lookup name = entries.lookup name := by
  induction entries with
  | nil => rfl
  | cons entry rest ih =>
    obtain ⟨first, value⟩ := entry
    obtain ⟨hfirst, hrest⟩ := List.nodup_cons.mp h
    rw [List.reverse_cons, List.lookup_append, ih hrest, lookup_cons, lookup_cons, List.lookup_nil]
    by_cases hname : name = first
    · -- the name does not stand in the rest as well
      have hnone : rest.lookup name = none := by
        refine List.lookup_eq_none_iff.mpr fun pair hpair => bne_iff_ne.mpr fun hsame => ?_
        exact hfirst (List.mem_map.mpr ⟨pair, hpair, hsame.symm.trans hname⟩)
      rw [hnone, if_pos hname, Option.none_or]
    · rw [if_neg hname, if_neg hname, Option.or_none]

/-- Leaving out other names changes nothing for a name. -/
theorem lookup_filter {keeps : String → Bool} {name : String} (h : keeps name = true) :
    (entries.filter fun entry => keeps entry.1).lookup name = entries.lookup name := by
  induction entries with
  | nil => rfl
  | cons entry rest ih =>
    obtain ⟨first, value⟩ := entry
    rw [List.filter_cons, lookup_cons]
    by_cases hkept : keeps first = true
    · rw [if_pos hkept, lookup_cons, ih]
    · rw [if_neg hkept, ih, if_neg fun hname : name = first => hkept (hname ▸ h)]

end Dictionary

open Dictionary (Distinct)

namespace Overrides

theorem distinct_merge (sources : List Overrides) : Distinct (merge sources) := by
  have hfold : ∀ (sources : List Overrides) (start : Overrides), Distinct start →
      Distinct (sources.foldl Dictionary.putAll start) := by
    intro sources
    induction sources with
    | nil => exact fun _ h => h
    | cons source rest ih => exact fun start h => ih _ (h.putAll source)
  exact hfold sources [] List.nodup_nil

/-- Of three sources a later one counts before an earlier one. -/
theorem lookup_merge {first second third : Overrides} (hfirst : Distinct first)
    (hsecond : Distinct second) (hthird : Distinct third) (name : String) :
    (merge [first, second, third]).lookup name =
      (third.lookup name).or ((second.lookup name).or (first.lookup name)) := by
  have hmerge : merge [first, second, third] =
      ((Dictionary.putAll [] first).putAll second).putAll third := rfl
  rw [hmerge, Dictionary.lookup_putAll, Dictionary.lookup_putAll, Dictionary.lookup_putAll,
    hthird.lookup_reverse, hsecond.lookup_reverse, hfirst.lookup_reverse, List.lookup_nil,
    Option.or_none]

/-- Reading the members of a document keeps their names. -/
theorem names_of_mapM {members : List (String × Value)} {values : Overrides}
    (h : members.mapM ofMember = .ok values) : values.map (·.1) = members.map (·.1) := by
  induction members generalizing values with
  | nil =>
    cases h
    rfl
  | cons member rest ih =>
    rw [List.mapM_cons] at h
    obtain ⟨value, hvalue, h⟩ := bind_eq_ok_iff.mp h
    obtain ⟨others, hothers, h⟩ := bind_eq_ok_iff.mp h
    cases h
    have hname : value.1 = member.1 := by
      unfold ofMember at hvalue
      split at hvalue <;> cases hvalue
      rfl
    rw [List.map_cons, List.map_cons, ih hothers, hname]

/-- No name stands twice in what is read from a document. -/
theorem distinct_of_parse {document : String} {values : Overrides} (h : parse document = .ok values) :
    Distinct values := by
  unfold parse at h
  split at h
  · cases h
    exact List.nodup_nil
  · split at h
    · cases h
    · next members _ =>
      have hnames := names_of_mapM h
      unfold Distinct
      rw [hnames]
      exact Dictionary.distinct_ofPairs members

end Overrides

namespace Trailing

/-- The pairs among the arguments after the destination, in their order. -/
def pairs (arguments : List String) : List (String × String) :=
  (arguments.filter fun argument => !isSolution argument).filterMap fun argument =>
    (Overrides.pairOfArgument argument).toOption

/-- An argument adds its pair if it is no solution. -/
theorem overrides_of_add {before after : Trailing} {argument : String}
    (h : before.add argument = .ok after) :
    after.overrides = before.overrides.putAll (pairs [argument]) := by
  unfold add at h
  by_cases hsolution : isSolution argument = true
  · rw [if_pos hsolution] at h
    split at h <;> cases h
    simp [pairs, hsolution, Dictionary.putAll]
  · rw [if_neg hsolution] at h
    obtain ⟨⟨name, value⟩, hpair, h⟩ := bind_eq_ok_iff.mp h
    cases h
    simp [pairs, hsolution, hpair, Except.toOption, Dictionary.putAll]

theorem overrides_of_classify {arguments : List String} {trailing : Trailing}
    (h : classify arguments = .ok trailing) :
    trailing.overrides = Dictionary.ofPairs (pairs arguments) := by
  have hfold : ∀ (arguments : List String) (before : Trailing),
      arguments.foldlM add before = .ok trailing →
        trailing.overrides = before.overrides.putAll (pairs arguments) := by
    intro arguments
    induction arguments with
    | nil =>
      intro before h
      cases h
      rfl
    | cons argument rest ih =>
      intro before h
      rw [List.foldlM_cons] at h
      obtain ⟨next, hadd, h⟩ := bind_eq_ok_iff.mp h
      have hsplit : pairs (argument :: rest) = pairs [argument] ++ pairs rest := by
        rw [pairs, pairs, pairs, ← List.filterMap_append, ← List.filter_append,
          List.singleton_append]
      rw [ih next h, overrides_of_add hadd, hsplit, Dictionary.putAll, Dictionary.putAll,
        Dictionary.putAll, List.foldl_append]
  exact hfold arguments {} h

end Trailing

namespace VariableStore

/-- Giving values changes the values of declared variables and nothing else; of several values for a
variable the last one counts. -/
theorem toList_withValues (store : VariableStore) (values : List (String × String)) :
    (store.withValues values).toList = store.toList.map fun v =>
      { v with value := (values.reverse.lookup v.name).getD v.value } := by
  induction values generalizing store with
  | nil => simp [withValues]
  | cons pair rest ih =>
    obtain ⟨name, value⟩ := pair
    have hcons : store.withValues ((name, value) :: rest) = (store.set name value).withValues rest := rfl
    rw [hcons, ih, set, List.map_map]
    refine List.map_congr_left fun v _ => ?_
    rw [Function.comp_apply, List.reverse_cons, List.lookup_append, Dictionary.lookup_cons,
      List.lookup_nil]
    by_cases hname : v.name = name
    · rw [if_pos hname, if_pos hname]
      cases rest.reverse.lookup v.name <;> rfl
    · rw [if_neg hname, if_neg hname, Option.or_none]

end VariableStore

/-- The value of a variable for which none is given. -/
def Variable.preset (v : Variable) (language : Language) : String :=
  if v.name = Template.sourceExtensionName then language.sourceExtension else v.value

theorem Template.toList_variablesFor (t : Template) (language : Language)
    (values : List (String × String)) :
    (t.variablesFor language values).toList = t.store.toList.map fun v =>
      { v with value := (values.reverse.lookup v.name).getD (v.preset language) } := by
  rw [variablesFor, VariableStore.toList_withValues, VariableStore.set, List.map_map]
  refine List.map_congr_left fun v _ => ?_
  by_cases hname : v.name = sourceExtensionName <;> simp [Variable.preset, hname]

/-- What is given for names that are not declared might as well be left out. -/
theorem Template.variablesFor_declared (t : Template) (language : Language)
    (values : List (String × String)) :
    t.variablesFor language (values.filter fun value => t.store.contains value.1) =
      t.variablesFor language values := by
  suffices h : (t.variablesFor language (values.filter fun value => t.store.contains value.1)).toList =
      (t.variablesFor language values).toList from congrArg VariableStore.mk h
  rw [toList_variablesFor, toList_variablesFor]
  refine List.map_congr_left fun v hv => ?_
  -- a variable of the template is declared, so what is given for it is not left out
  have hdeclared : t.store.contains v.name = true := by
    rw [VariableStore.contains, VariableStore.get?, List.find?_isSome]
    exact ⟨v, hv, decide_eq_true rfl⟩
  rw [← List.filter_reverse, Dictionary.lookup_filter hdeclared]

/-- The value given for a name: by the last pair for it, or else on the standard input, or else in the
file. -/
def Overrides.given? (pairs : List (String × String)) (fromInput fromFile : Overrides)
    (name : String) : Option String :=
  (pairs.reverse.lookup name).or ((fromInput.lookup name).or (fromFile.lookup name))

/-- A generation and an export work on the variables of the template, in their order and with all that
is said of them. Each has the value given for it, and without one its preset; what is given for names
that are not declared might as well be left out. -/
theorem Template.store_by_precedence (t : Template) (language : Language)
    {fromFile fromInput : Overrides} (hfile : Distinct fromFile) (hinput : Distinct fromInput)
    {arguments : List String} {trailing : Trailing}
    (hclassify : Trailing.classify arguments = .ok trailing) (settings : Settings) (year : Nat)
    (destination output : Path) (solution : Option Path) :
    let values := Overrides.merge [fromFile, fromInput, trailing.overrides]
    let given := Overrides.given? (Trailing.pairs arguments) fromInput fromFile
    let store :=
      (Generation.renderer t settings year ⟨destination, solution, values, language⟩).store
    (Package.renderer t settings year ⟨output, values, language⟩).store = store ∧
      store.toList = (t.store.toList.map fun v =>
        { v with value := (given v.name).getD (v.preset language) }) ∧
      t.variablesFor language (values.filter fun value => t.store.contains value.1) = store := by
  intro values given store
  have hstore : store = t.variablesFor language values := rfl
  -- the arguments were put in their order when they were classified, the other sources were not
  have hvalues (name : String) : values.reverse.lookup name = given name := by
    have hpairs := Trailing.overrides_of_classify hclassify
    have hdistinct : Distinct trailing.overrides := hpairs ▸ Dictionary.distinct_ofPairs _
    rw [(Overrides.distinct_merge _).lookup_reverse,
      Overrides.lookup_merge hfile hinput hdistinct, hpairs, Dictionary.lookup_ofPairs]
    rfl
  refine ⟨rfl, ?_, t.variablesFor_declared language values⟩
  rw [hstore, toList_variablesFor]
  exact List.map_congr_left fun v _ => by rw [hvalues]

/-- A template that declares the extension itself, with values from all sources: the last of two pairs
counts before the standard input, and this before the file; the language counts where nothing is given. -/
theorem Template.store_by_precedence_layered :
    let t : Template := ⟨⟨"/t.xml"⟩, none, none, none, none, [⟨"/"⟩],
      ⟨[⟨"_sourceExt", none, "txt", none, .string, false⟩, ⟨"A", none, "a", none, .string, false⟩,
        ⟨"B", none, "b", some "projectName", .string, false⟩,
        ⟨"C", none, "c", none, .boolean, true⟩, ⟨"D", none, "d", none, .string, false⟩]⟩, []⟩
    let fromFile : Overrides := [("A", "file"), ("B", "file"), ("C", "file"), ("X", "file")]
    let fromInput : Overrides := [("B", "input"), ("A", "input")]
    let arguments := ["A:first", "App.sln", " A :second:third", "Y:none"]
    Distinct fromFile ∧ Distinct fromInput ∧
      (∃ trailing, Trailing.classify arguments = .ok trailing ∧
        let values := Overrides.merge [fromFile, fromInput, trailing.overrides]
        (Generation.renderer t {} 2031 ⟨⟨"out"⟩, none, values, .fSharp⟩).store.toList.map
            (fun v => (v.name, v.value)) =
          [("_sourceExt", "fs"), ("A", "second:third"), ("B", "input"), ("C", "file"), ("D", "d")]) := by
  intro t fromFile fromInput arguments
  have hfile : Distinct fromFile := by decide
  have hinput : Distinct fromInput := by decide
  obtain ⟨trailing, hclassify⟩ : ∃ trailing, Trailing.classify arguments = .ok trailing :=
    ⟨⟨some ⟨"App.sln"⟩, [("A", "second:third"), ("Y", "none")]⟩, by rfl⟩
  refine ⟨hfile, hinput, trailing, hclassify, ?_⟩
  have hstore := (t.store_by_precedence .fSharp hfile hinput hclassify {} 2031 ⟨"out"⟩ ⟨"out"⟩ none).2.1
  dsimp only at hstore ⊢
  rw [hstore]
  decide +kernel

namespace Overrides

theorem distinct_of_mapError {document : String} {values : Overrides}
    (h : (parse document).mapError Failure.configuration = .ok values) : Distinct values := by
  cases hparse : parse document with
  | error fault =>
    rw [hparse] at h
    cases h
  | ok parsed =>
    rw [hparse] at h
    cases h
    exact distinct_of_parse hparse

/-- No name stands twice in what is read from a file. -/
theorem distinct_of_load {fs : FileSystem} {path : Path} {values : Overrides}
    (h : load fs path = .ok values) : Distinct values := by
  obtain ⟨_, -, hparse⟩ := bind_eq_ok_iff.mp h
  exact distinct_of_mapError hparse

end Overrides

namespace Console

variable {o : Options} {input : ByteArray} {arguments values : Overrides} {sources : List Overrides}
  {c c' : Console}

theorem eq_of_ofExcept {α : Type} {x : Except Failure α} {a : α}
    (h : (Attempt.ofExcept x : Step α).outcome c = (.ok a, c')) : x = .ok a := by
  cases x with
  | error failure => cases h
  | ok value =>
    cases h
    rfl

theorem fileValues_eq_ok (h : (fileValues o).outcome c = (.ok sources, c')) :
    sources = [] ∨ ∃ values, Distinct values ∧ sources = [values] := by
  unfold fileValues at h
  split at h
  · cases h
    exact Or.inl rfl
  · obtain ⟨_, _, -, h⟩ := Attempt.outcome_bind_eq_ok_iff.mp h
    obtain ⟨_, _, -, h⟩ := Attempt.outcome_bind_eq_ok_iff.mp h
    obtain ⟨values, _, hload, h⟩ := Attempt.outcome_bind_eq_ok_iff.mp h
    cases h
    exact Or.inr ⟨values, Overrides.distinct_of_load (eq_of_ofExcept hload), rfl⟩

theorem inputValues_eq_ok (h : (inputValues o input).outcome c = (.ok sources, c')) :
    sources = [] ∨ ∃ values, Distinct values ∧ sources = [values] := by
  unfold inputValues at h
  split at h
  · split at h
    · cases h
    · obtain ⟨values, _, hparse, h⟩ := Attempt.outcome_bind_eq_ok_iff.mp h
      cases h
      exact Or.inr ⟨values, Overrides.distinct_of_mapError (eq_of_ofExcept hparse), rfl⟩
  · cases h
    exact Or.inl rfl

/-- The values that a command line works with are those of a file, of the standard input and of its
arguments, with no name twice in any of these. -/
theorem allValues_eq_ok (h : (allValues o input arguments).outcome c = (.ok values, c')) :
    ∃ fromFile fromInput, Distinct fromFile ∧ Distinct fromInput ∧
      values = Overrides.merge [fromFile, fromInput, arguments] := by
  obtain ⟨filed, _, hfiled, h⟩ := Attempt.outcome_bind_eq_ok_iff.mp h
  obtain ⟨typed, _, htyped, h⟩ := Attempt.outcome_bind_eq_ok_iff.mp h
  cases h
  have hnil : Distinct ([] : Overrides) := Dictionary.distinct_nil
  rcases fileValues_eq_ok hfiled with rfl | ⟨fromFile, hfile, rfl⟩ <;>
    rcases inputValues_eq_ok htyped with rfl | ⟨fromInput, hinput, rfl⟩
  · exact ⟨[], [], hnil, hnil, rfl⟩
  · exact ⟨[], fromInput, hnil, hinput, rfl⟩
  · exact ⟨fromFile, [], hfile, hnil, rfl⟩
  · exact ⟨fromFile, fromInput, hfile, hinput, rfl⟩

end Console

end Stencil
