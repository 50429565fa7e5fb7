import Stencil.FileSystem
import Stencil.Journal
import Stencil.Markup.Element
import Stencil.Template

/-!
Template descriptions: markup documents that templates are read from. A fault of a single element is
reported and the element dropped; a fault of the document, or a source directory that does not exist,
is fatal.
-/

namespace Stencil.Template

open Markup (Element)

/-- The hidden variable that holds the extension of source files. -/
def sourceExtensionName : String := "_sourceExt"

/-- The variable for the extension of source files, before a language is chosen. -/
def sourceExtension : Variable :=
  { name := sourceExtensionName
    description := some "Extension of source files."
    value := (default : Language).sourceExtension
    hidden := true }

/-- The type that a variable element names; an unknown one is reported and taken as text. -/
def typeOf (location : Location) (word : Option String) : Attempt Journal VariableType :=
  match word with
  | none => return .string
  | some word => match VariableType.ofName? word with
    | some type => return type
    | none => do
      Journal.sayAt .error location s!"Invalid variable type '{word}'."
      return .string

def addVariable (path : Path) (store : VariableStore) (e : Element) :
    Attempt Journal VariableStore := do
  let location : Location := ⟨path, e.position⟩
  let name := Text.trim ((e.attribute? "name").getD "")
  if name = "" then
    Journal.sayAt .warning location "Variable is missing 'name' attribute."
    return store
  else
    let type ← typeOf location (e.attribute? "type")
    return store.declare
      { name
        description := e.attribute? "description"
        value := e.text
        semantic := (e.attribute? "semantic").filter (· ≠ "")
        type
        hidden := isTrue (e.attribute? "hidden") }

/-- Whether a text can stand for a path below a directory. -/
def isRelative (text : String) : Bool := text ≠ "" && !(Path.mk text).isRooted

/-- The entry that an element describes; a faulty one is reported. -/
def entryOf (path : Path) (sourceDirectories : List Path) (e : Element) :
    Attempt Journal (Option Entry) := do
  let location : Location := ⟨path, e.position⟩
  match (e.attribute? "src").filter isRelative with
  | none =>
    Journal.sayAt .error location
      s!"{e.name} elements must have a 'src' attribute which may not be a rooted path."
    return none
  | some source =>
    let destination := (e.attribute? "dst").getD source
    if isRelative destination then
      return some
        { source
          candidates := sourceDirectories.map fun directory => (directory.join ⟨source⟩).text
          destination
          raw := isTrue (e.attribute? "raw")
          position := e.position }
    else
      Journal.sayAt .error location "The 'dst' attribute may not be empty or a rooted path."
      return none

/-- The entries that elements describe, without the faulty ones. -/
def entriesOf (path : Path) (sourceDirectories : List Path) :
    List Element → Attempt Journal (List Entry)
  | [] => return []
  | e :: rest => do
    let entry ← entryOf path sourceDirectories e
    let entries ← entriesOf path sourceDirectories rest
    return entry.toList ++ entries

/-- The projects that elements describe. The files of a faulty project are not looked at. -/
def projectsOf (path : Path) (sourceDirectories : List Path) :
    List Element → Attempt Journal (List Project)
  | [] => return []
  | e :: rest => do
    match ← entryOf path sourceDirectories e with
    | none => projectsOf path sourceDirectories rest
    | some entry =>
      let files ← entriesOf path sourceDirectories (e.childrenNamed "File")
      Journal.detail s!"Parsed project '{entry.source}' with {files.length} file(s)"
      let projects ← projectsOf path sourceDirectories rest
      return ⟨entry, files⟩ :: projects

/-- The source directories that a description names, with the places where it does. Without any, the
description's own directory is the only one. -/
def sourceDirectoriesOf (path : Path) (root : Element) : List (Path × Position) :=
  match root.childrenNamed "SrcFolder" with
  | [] => [(path.directory, root.position)]
  | folders => folders.map fun folder =>
    (path.directory.join ⟨Text.trim folder.text⟩, folder.position)

/-- Fails at the first source directory that does not exist. -/
def checkDirectories (fs : FileSystem) (path : Path) :
    List (Path × Position) → Attempt Journal Unit
  | [] => return ()
  | (directory, position) :: rest =>
    if fs.isDirectory directory then checkDirectories fs path rest
    else Journal.fatal (some ⟨path, position⟩) s!"Source folder not found at '{directory.text}'."

def ofElement (fs : FileSystem) (path : Path) (root : Element) : Attempt Journal Template := do
  if root.name ≠ "Template" then
    Journal.fatal (some ⟨path, root.position⟩)
      "Template file does not have a 'Template' element."
  else
    let placed := sourceDirectoriesOf path root
    let sourceDirectories := placed.map (·.1)
    let listed := ", ".intercalate (sourceDirectories.map (·.text))
    Journal.say .info s!"Using source folders '{listed}'"
    checkDirectories fs path placed
    let store ← (root.childrenNamed "Var").foldlM (addVariable path)
      (VariableStore.declare {} sourceExtension)
    let projects ← projectsOf path sourceDirectories (root.childrenNamed "Project")
    return {
      path
      name := root.childText? "Name"
      description := root.childText? "Description"
      icon := (root.childText? "Icon").filter (· ≠ "")
      preview := (root.childText? "PreviewImage").filter (· ≠ "")
      sourceDirectories
      store
      projects }

/-- Reads the description that lies at a path. -/
def parse (fs : FileSystem) (path : Path) (source : String) : Attempt Journal Template :=
  match Element.ofText source with
  | .error failure =>
    Journal.fatal none s!"Failed to parse template '{path.text}': {failure.message}"
  | .ok root => ofElement fs path root

def load (fs : FileSystem) (path : Path) : Attempt Journal Template := do
  if fs.isFile path then
    match path.absolute? fs.workingPath with
    | none => throw (.file .emptyPath)
    | some whole => match fs.readText whole with
      | .error fault => throw (.file fault)
      | .ok source => parse fs whole source
  else
    Journal.fatal none s!"Template file not found at '{path.text}'."

end Stencil.Template
