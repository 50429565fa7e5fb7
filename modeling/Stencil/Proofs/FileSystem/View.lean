import Stencil.FileSystem

namespace Stencil

/-- What a file holds; none for a directory. -/
def Node.content? : Node → Option ByteArray
  | .file content => some content
  | .directory _ => none

namespace Node

theorem get?_append (n : Node) (front more : List String) :
    n.get? (front ++ more) = (n.get? front).bind (·.get? more) := by
  induction front generalizing n with
  | nil => rfl
  | cons name front ih =>
    simp only [List.cons_append, get?]
    cases n.child? name with
    | none => rfl
    | some child => exact ih child

theorem content?_setChild (n : Node) (name : String) (child : Node) :
    (n.setChild name child).content? = n.content? := by
  cases n <;> rfl

theorem child?_setChild_of_ne {n : Node} {name other : String} (h : other ≠ name) (child : Node) :
    (n.setChild name child).child? other = n.child? other := by
  cases n with
  | file content => rfl
  | directory entries => exact lookup_putEntry_of_ne h child entries

/-- Putting a node at a place changes nothing that is not at or below this place. -/
theorem content?_get?_set {names place : List String} (h : ¬ names <+: place) (n new : Node) :
    ((n.set new names).get? place).map content? = (n.get? place).map content? := by
  induction names generalizing n place with
  | nil => exact absurd (List.nil_prefix) h
  | cons name rest ih =>
    -- the place is above the first name, below it, or beside it
    cases place with
    | nil =>
      simp only [set, get?, Option.map_some]
      split
      · rw [content?_setChild]
      · split
        · rw [content?_setChild]
        · rfl
    | cons other place =>
      by_cases hname : other = name
      · subst hname
        have hrest : ¬ rest <+: place := fun hp => h (List.cons_prefix_cons.mpr ⟨rfl, hp⟩)
        cases hchild : n.child? other with
        | none =>
          have hne : rest ≠ [] := fun hnil => hrest (hnil ▸ List.nil_prefix)
          simp only [set, hchild, hne, if_false]
        | some child =>
          have hnew : (n.setChild other (child.set new rest)).child? other =
              some (child.set new rest) := by
            cases n with
            | file content => cases hchild
            | directory entries => exact lookup_putEntry_self _ _ _
          simp only [set, hchild, get?, hnew, Option.bind_some]
          exact ih hrest child
      · simp only [set, get?]
        split
        · rw [child?_setChild_of_ne hname]
        · split
          · rw [child?_setChild_of_ne hname]
          · rfl

end Node

namespace FileSystem

variable {fs : FileSystem} {place above : List String} {name : String}

/-- What stands at a place: nothing, a directory, or a file with its contents. -/
def at? (fs : FileSystem) (place : List String) : Option (Option ByteArray) :=
  (fs.root.get? place).map Node.content?

/-- Whether a file stands at a place. -/
def FileAt (fs : FileSystem) (place : List String) : Prop :=
  ∃ content, fs.at? place = some (some content)

theorem at?_eq_directory_iff :
    fs.at? place = some none ↔ ∃ entries, fs.root.get? place = some (.directory entries) := by
  unfold at?
  cases fs.root.get? place with
  | none => simp
  | some node => cases node <;> simp [Node.content?]

theorem at?_eq_file_iff {content : ByteArray} :
    fs.at? place = some (some content) ↔ fs.root.get? place = some (.file content) := by
  unfold at?
  cases fs.root.get? place with
  | none => simp
  | some node => cases node <;> simp [Node.content?]

theorem at?_concat_isSome (fs : FileSystem) (above : List String) (name : String) :
    (fs.at? (above ++ [name])).isSome =
      ((fs.root.get? above).bind (·.child? name)).isSome := by
  unfold at?
  rw [Node.get?_append, Option.isSome_map]
  cases fs.root.get? above with
  | none => rfl
  | some node =>
    simp only [Option.bind_some, Node.get?]
    cases node.child? name <;> rfl

/-- What stands below a place stands in a directory. -/
theorem at?_of_append {more : List String} (h : (fs.at? (place ++ more)).isSome = true) :
    (fs.at? place).isSome = true ∧ (more ≠ [] → fs.at? place = some none) := by
  unfold at? at h ⊢
  rw [Node.get?_append, Option.isSome_map] at h
  cases hnode : fs.root.get? place with
  | none => simp [hnode] at h
  | some node =>
    refine ⟨rfl, fun hne => ?_⟩
    obtain ⟨name, rest, rfl⟩ := List.exists_cons_of_ne_nil hne
    cases node with
    | directory entries => rfl
    | file content => simp [hnode, Node.get?, Node.child?, Node.entries] at h

theorem at?_of_prefix {front : List String} (h : (fs.at? place).isSome = true)
    (hp : front <+: place) : (fs.at? front).isSome = true := by
  obtain ⟨more, rfl⟩ := hp
  exact (at?_of_append h).1

/-- A node without entries that is put into a directory, where no directory was, is the only thing
that changes. -/
theorem at?_put (habove : fs.at? above = some none) (hfree : fs.at? (above ++ [name]) ≠ some none)
    {new : Node} (hnew : new.entries = []) (q : List String) :
    (fs.put (above ++ [name]) new).at? q =
      if q = above ++ [name] then some new.content? else fs.at? q := by
  obtain ⟨entries, hget⟩ := at?_eq_directory_iff.mp habove
  have hself : (fs.root.set new (above ++ [name])).get? (above ++ [name]) = some new :=
    Node.get?_set_self new hget rfl
  split
  · next hq =>
    subst hq
    simp only [at?, put, hself, Option.map_some]
  · next hq =>
    by_cases hp : above ++ [name] <+: q
    · obtain ⟨more, rfl⟩ := hp
      have hmore : more ≠ [] := by
        rintro rfl
        exact hq (List.append_nil _)
      obtain ⟨first, rest, rfl⟩ := List.exists_cons_of_ne_nil hmore
      -- nothing is below the new node, and nothing was below what it takes the place of
      have hbelow : (fs.put (above ++ [name]) new).at? (above ++ [name] ++ first :: rest) = none := by
        simp only [at?, put]
        rw [Node.get?_append, hself]
        simp [Node.get?, Node.child?, hnew]
      rw [hbelow]
      cases hold : fs.at? (above ++ [name] ++ first :: rest) with
      | none => rfl
      | some kind =>
        exact absurd ((at?_of_append (Option.isSome_of_eq_some hold)).2 hmore) hfree
    · exact Node.content?_get?_set hp fs.root new

end FileSystem

end Stencil
