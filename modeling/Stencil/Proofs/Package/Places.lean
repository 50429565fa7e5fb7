import Mathlib.Data.List.Perm.Basic
import Stencil.Proofs.Package.Layout

namespace Stencil.PackageEntries

variable {entries grown inner : PackageEntries} {name : String} {node : PackageNode}
  {names others trail : List String} {file : PackageFile} {path : Path} {text : String}

/-- What stands at the end of a list of names: nothing, a directory, or a file. -/
def at? : PackageEntries → List String → Option (Option PackageFile)
  | _, [] => some none
  | entries, name :: rest => match entries.lookup name with
    | none => none
    | some (.file file) => if rest = [] then some (some file) else none
    | some (.directory inner) => at? inner rest

@[simp] theorem at?_nil (entries : PackageEntries) : entries.at? [] = some none := by
  unfold at?
  rfl

/-- What stands behind a name is told by the node of that name. -/
theorem at?_congr (h : entries.lookup name = grown.lookup name) (rest : List String) :
    entries.at? (name :: rest) = grown.at? (name :: rest) := by
  simp only [at?, h]

theorem at?_of_none (h : entries.lookup name = none) (rest : List String) :
    entries.at? (name :: rest) = none := by
  simp only [at?, h]

theorem at?_of_directory (h : entries.lookup name = some (.directory inner)) (rest : List String) :
    entries.at? (name :: rest) = inner.at? rest := by
  simp only [at?, h]

theorem at?_empty (h : names ≠ []) : at? [] names = none := by
  obtain ⟨name, rest, rfl⟩ := List.exists_cons_of_ne_nil h
  exact at?_of_none rfl rest

theorem lookup_concat_self (h : entries.lookup name = none) (node : PackageNode) :
    (entries ++ [(name, node)]).lookup name = some node := by
  simp [List.lookup_append, h]

theorem lookup_concat_of_ne {other : String} (h : other ≠ name) (node : PackageNode) :
    (entries ++ [(name, node)]).lookup other = entries.lookup other := by
  simp [List.lookup_append, List.lookup_cons, beq_eq_false_iff_ne.mpr h]

theorem lookup_replace_self {old : PackageNode} (h : entries.lookup name = some old)
    (node : PackageNode) : (replace name node entries).lookup name = some node := by
  induction entries with
  | nil => cases h
  | cons entry rest ih =>
    obtain ⟨first, kept⟩ := entry
    simp only [replace]
    split
    · simp
    · next hne =>
      have hne' : (name == first) = false := beq_eq_false_iff_ne.mpr (Ne.symm hne)
      rw [List.lookup_cons, hne'] at h ⊢
      exact ih h

theorem Enters.ne_nil (h : Enters file entries names grown) : names ≠ [] := by
  cases h <;> nofun

/-- What stands where once a file is inserted: the file, directories on the way, and what stood there
before. -/
theorem Enters.at?_eq (h : Enters file entries names grown) (others : List String) :
    grown.at? others =
      if others = names then some (some file)
      else if others <+: names then some none else entries.at? others := by
  -- behind another name nothing changes, and what does change is told by the node of this name
  have hbeside {entries grown : PackageEntries} {name other : String} {rest more : List String}
      (hother : other ≠ name) (hsame : grown.lookup other = entries.lookup other) :
      grown.at? (other :: more) =
        if other :: more = name :: rest then some (some file)
        else if other :: more <+: name :: rest then some none else entries.at? (other :: more) := by
    rw [if_neg fun h => hother (List.cons.inj h).1,
      if_neg fun h => hother (List.cons_prefix_cons.mp h).1]
    exact at?_congr hsame more
  -- in a directory that the file goes through, all is as below it
  have hthrough {entries grown inner inside : PackageEntries} {name : String} {rest more : List String}
      (hlookup : grown.lookup name = some (.directory inside)) (hrest : rest ≠ [])
      (hinside : inside.at? more = if more = rest then some (some file)
        else if more <+: rest then some none else inner.at? more)
      (hbefore : more ≠ [] → entries.at? (name :: more) = inner.at? more) :
      grown.at? (name :: more) =
        if name :: more = name :: rest then some (some file)
        else if name :: more <+: name :: rest then some none else entries.at? (name :: more) := by
    rw [at?_of_directory hlookup]
    by_cases hmore : more = []
    · simp [hmore, Ne.symm hrest]
    · simp only [hinside, List.cons.injEq, true_and, List.cons_prefix_cons, hbefore hmore]
  induction h generalizing others with
  | @last entries name hfree =>
    cases others with
    | nil => simp
    | cons other more =>
      by_cases hother : other = name
      · subst hother
        rw [at?, lookup_concat_self hfree, at?_of_none hfree]
        by_cases hmore : more = [] <;> simp [hmore]
      · exact hbeside hother (lookup_concat_of_ne hother _)
  | @inside entries inner grown name rest hlookup h ih =>
    cases others with
    | nil => simp
    | cons other more =>
      by_cases hother : other = name
      · subst hother
        exact hthrough (lookup_replace_self hlookup _) h.ne_nil (ih more) fun _ =>
          at?_of_directory hlookup more
      · exact hbeside hother (lookup_replace_of_ne hother _ _)
  | @beyond entries grown name rest hfree h ih =>
    cases others with
    | nil => simp
    | cons other more =>
      by_cases hother : other = name
      · subst hother
        exact hthrough (lookup_concat_self hfree _) h.ne_nil (ih more) fun hmore =>
          (at?_of_none hfree more).trans (at?_empty hmore).symm
      · exact hbeside hother (lookup_concat_of_ne hother _)

theorem insert_duplicate (h : insert entries text file = .error (.duplicate path)) :
    ∃ names, namesOf? text = some names ∧
      insertAt file [] entries names = .error (.duplicate path) := by
  unfold insert at h
  cases hnames : namesOf? text with
  | none =>
    rw [hnames] at h
    cases h
  | some names =>
    rw [hnames] at h
    refine ⟨names, rfl, ?_⟩
    simp only at h
    cases hinsert : insertAt file [] entries names with
    | ok grown =>
      rw [hinsert] at h
      cases h
    | error fault =>
      rw [hinsert] at h
      cases h
      rfl

/-- Where no backslash separates anything, the names of a path are the steps that it takes. -/
theorem moves_of_namesOf (h : namesOf? text = some names) (hslash : '\\' ∉ text.toList) :
    (Path.mk text).moves = names.map .name := by
  -- without backslashes both separators cut the same segments
  have hsegments : Text.split (fun c => c = '/' || c = '\\') text = (Path.mk text).segments := by
    have hsame : ∀ c ∈ text.toList, (c = '/' || c = '\\' : Bool) = (c == '/') := by
      intro c hc
      have hne : c ≠ '\\' := fun heq => hslash (heq ▸ hc)
      rw [decide_eq_false hne, Bool.or_false]
      rfl
    unfold Path.segments Text.split
    rw [Text.splitChars_congr hsame]
  obtain ⟨-, hup, rfl⟩ := namesOf_eq_some h
  rw [hsegments] at hup ⊢
  exact Path.moves_of_up_notMem fun hmem => hup (by simpa using hmem)

end Stencil.PackageEntries
