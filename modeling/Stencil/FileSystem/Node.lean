namespace Stencil

inductive FileFault where
  | notFound
  | exists
  | notADirectory
  | isADirectory
  | nameTooLong
  | notText
  /-- The path has a character that no name may have. -/
  | nulInName
  | emptyPath
  /-- Only a file can be copied. -/
  | notAFile
deriving DecidableEq, Repr

/-- The wording of a file fault, with the number that the system gives it. -/
def FileFault.message : FileFault → String
  | .notFound => "No such file or directory (os error 2)"
  | .exists => "File exists (os error 17)"
  | .notADirectory => "Not a directory (os error 20)"
  | .isADirectory => "Is a directory (os error 21)"
  | .nameTooLong => "File name too long (os error 36)"
  | .notText => "stream did not contain valid UTF-8"
  | .nulInName => "file name contained an unexpected NUL byte"
  | .emptyPath => "cannot make an empty path absolute"
  | .notAFile => "the source path is neither a regular file nor a symlink to a regular file"

/-- A file with its contents, or a directory with its entries in the order of their making. -/
inductive Node where
  | file (content : ByteArray)
  | directory (entries : List (String × Node))

namespace Node

def isDirectory : Node → Bool
  | directory _ => true
  | file _ => false

/-- The entries of a directory; a file has none. -/
def entries : Node → List (String × Node)
  | directory entries => entries
  | file _ => []

def child? (n : Node) (name : String) : Option Node := n.entries.lookup name

/-- Entries with one of them replaced, or added at the end. -/
def putEntry (name : String) (child : Node) : List (String × Node) → List (String × Node)
  | [] => [(name, child)]
  | (other, node) :: rest =>
    if name = other then (name, child) :: rest else (other, node) :: putEntry name child rest

/-- A directory with one entry replaced or added; a file stays as it is. -/
def setChild (n : Node) (name : String) (child : Node) : Node :=
  match n with
  | directory entries => directory (putEntry name child entries)
  | file content => file content

def get? (n : Node) : List String → Option Node
  | [] => some n
  | name :: rest => (n.child? name).bind (·.get? rest)

/-- The tree with the node at the end of a list of names replaced. A node is added where only the
last name is missing; where more are missing nothing changes. -/
def set (n new : Node) : List String → Node
  | [] => new
  | name :: rest => match n.child? name with
    | some child => n.setChild name (child.set new rest)
    | none => if rest = [] then n.setChild name new else n

def erase (n : Node) : List String → Node
  | [] => n
  | [name] => match n with
    | directory entries => directory (entries.filter (·.1 ≠ name))
    | file content => file content
  | name :: rest => match n.child? name with
    | some child => n.setChild name (child.erase rest)
    | none => n

mutual

/-- Everything below a node, with the path from there: the contents of files, and none for
directories. -/
def descendants (path : String) : Node → List (String × Option ByteArray)
  | file _ => []
  | directory entries => descendantsOf path entries

def descendantsOf (path : String) : List (String × Node) → List (String × Option ByteArray)
  | [] => []
  | (name, file content) :: rest => (path ++ name, some content) :: descendantsOf path rest
  | (name, directory entries) :: rest =>
    (path ++ name ++ "/", none) :: descendantsOf (path ++ name ++ "/") entries ++
      descendantsOf path rest

end

theorem lookup_putEntry_self (name : String) (child : Node) (entries : List (String × Node)) :
    (putEntry name child entries).lookup name = some child := by
  induction entries with
  | nil => simp [putEntry]
  | cons entry rest ih =>
    obtain ⟨other, node⟩ := entry
    simp only [putEntry]
    split
    · simp
    · next different =>
      rw [List.lookup_cons, beq_eq_false_iff_ne.mpr different]
      exact ih

theorem lookup_putEntry_of_ne {name other : String} (h : other ≠ name) (child : Node)
    (entries : List (String × Node)) :
    (putEntry name child entries).lookup other = entries.lookup other := by
  induction entries with
  | nil => simp [putEntry, List.lookup_cons, beq_eq_false_iff_ne.mpr h]
  | cons entry rest ih =>
    obtain ⟨first, node⟩ := entry
    simp only [putEntry]
    split
    · next same => simp [List.lookup_cons, beq_eq_false_iff_ne.mpr h, ← same]
    · simp only [List.lookup_cons, ih]

/-- What is put at a list of names is found there, if the directory that is to hold it exists. -/
theorem get?_set_self {n parent : Node} {names : List String} {name : String} (new : Node)
    (found : n.get? names = some parent) (isDirectory : parent.isDirectory = true) :
    (n.set new (names ++ [name])).get? (names ++ [name]) = some new := by
  induction names generalizing n with
  | nil =>
    simp only [get?, Option.some.injEq] at found
    subst found
    cases n with
    | file content => simp [Node.isDirectory] at isDirectory
    | directory entries =>
      simp only [List.nil_append, set, if_true]
      split <;> simp [setChild, get?, child?, Node.entries, lookup_putEntry_self]
  | cons first rest ih =>
    simp only [get?] at found
    obtain ⟨child, isChild, below⟩ := Option.bind_eq_some_iff.1 found
    simp only [List.cons_append, set, isChild]
    cases n with
    | file content => simp [child?, Node.entries] at isChild
    | directory entries =>
      simp only [setChild, get?, child?, Node.entries, lookup_putEntry_self, Option.bind_some]
      exact ih below

end Node

end Stencil
