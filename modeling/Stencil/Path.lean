import Stencil.Text

/-!
Paths as they are written, with `/` between components. Everything here looks at the text alone: a
path is taken apart, joined and made absolute without asking whether anything exists there.
-/

namespace Stencil

/-- A path as written. -/
structure Path where
  text : String
deriving DecidableEq, Repr, Inhabited

inductive Component where
  /-- The `/` at the front of a rooted path. -/
  | root
  /-- A `.` at the front of a path that is not rooted. -/
  | here
  /-- A `..`. -/
  | up
  /-- Any other component. -/
  | name (text : String)
deriving DecidableEq, Repr

def Component.text : Component → String
  | .root => "/"
  | .here => "."
  | .up => ".."
  | .name text => text

namespace Path

def isRooted (p : Path) : Bool := p.text.toList.head? = some '/'

/-- What stands between the slashes of a path, empty parts included. -/
def segments (p : Path) : List String := Text.split (· == '/') p.text

/-- A segment that names a step: empty ones and single points are none. -/
def step? (segment : String) : Option Component :=
  if segment = "" ∨ segment = "." then none
  else if segment = ".." then some .up
  else some (.name segment)

/-- The components of a path. A single point counts only in front of a path that is not rooted. -/
def components (p : Path) : List Component :=
  let front := if p.isRooted then [.root] else if p.segments.head? = some "." then [.here] else []
  front ++ p.segments.filterMap step?

/-- The path that the components of a relative path spell. -/
def ofComponents (components : List Component) : Path :=
  ⟨"/".intercalate (components.map Component.text)⟩

/-- Appends a path; a rooted one takes the place of the whole. -/
def join (p q : Path) : Path :=
  if q.isRooted then q
  else if p.text = "" ∨ p.text.toList.getLast? = some '/' then ⟨p.text ++ q.text⟩
  else ⟨p.text ++ "/" ++ q.text⟩

/-- Segments without those at the end that name no step. -/
def dropIdle (segments : List String) : List String :=
  (segments.reverse.dropWhile fun segment => (step? segment).isNone).reverse

/-- The path without its last component; none for the root and for the empty path. -/
def parent? (p : Path) : Option Path :=
  let front := if p.isRooted then "/" else if p.segments.head? = some "." then "." else ""
  let rest := dropIdle (if front = "" then p.segments else p.segments.tail)
  if rest = [] then
    if front = "." then some ⟨""⟩ else none
  else
    let kept := dropIdle rest.dropLast
    let body := "/".intercalate kept
    some ⟨if front = "." ∧ kept ≠ [] then "./" ++ body else front ++ body⟩

/-- The path itself and what remains when components are taken off its end one by one, as far as a
bound on their number allows. -/
def ancestorsUpTo : Nat → Path → List Path
  | 0, p => [p]
  | n + 1, p => match p.parent? with
    | some parent => p :: ancestorsUpTo n parent
    | none => [p]

def ancestors (p : Path) : List Path := ancestorsUpTo p.segments.length p

def fileName? (p : Path) : Option String :=
  match p.components.getLast? with
  | some (.name text) => some text
  | _ => none

/-- A file name at its last point: what stands before and after it. A name that has no point but
the one in front has no such parts. -/
def splitName (name : String) : Option (String × String) :=
  match Text.splitAtFirst '.' name.toList.reverse with
  | some (after, before@(_ :: _)) => some (String.ofList before.reverse, String.ofList after.reverse)
  | _ => none

def extension? (p : Path) : Option String := p.fileName?.bind fun name => (splitName name).map (·.2)

def stem? (p : Path) : Option String :=
  p.fileName?.map fun name => ((splitName name).map (·.1)).getD name

/-- Whether the components of one path begin another. -/
def startsWith (p start : Path) : Bool := start.components.isPrefixOf p.components

/-- The directory that holds the path: its parent, or `.` for a bare name. -/
def directory (p : Path) : Path :=
  match p.parent? with
  | some parent => if parent.text = "" then ⟨"."⟩ else parent
  | none => ⟨"."⟩

/-- The path seen from the root, for a program that runs in `workingDirectory`. Points and doubled
slashes go, `..` stays, and so does a slash at the end. A path that starts with exactly two slashes
keeps both. The empty path names nothing. -/
def absolute? (p workingDirectory : Path) : Option Path :=
  if p.text = "" then none
  else
    let doubled := "//".isPrefixOf p.text && !"///".isPrefixOf p.text
    let start := if doubled then ⟨"//"⟩ else if p.isRooted then ⟨"/"⟩ else workingDirectory
    let whole := (p.segments.filterMap step?).foldl (fun q c => q.join ⟨c.text⟩) start
    some (if p.text.toList.getLast? = some '/' then whole.join ⟨""⟩ else whole)

def commonLength : List Component → List Component → Nat
  | a :: as, b :: bs => if a = b then commonLength as bs + 1 else 0
  | _, _ => 0

/-- The way from a directory to a target: up once for each component of the directory that the
target does not share, then down. Paths that share nothing leave the target as it is. -/
def relativeTo (base target : Path) : Path :=
  let common := commonLength base.components target.components
  if common = 0 then target
  else ofComponents (List.replicate (base.components.length - common) .up ++
    target.components.drop common)

end Path

end Stencil
