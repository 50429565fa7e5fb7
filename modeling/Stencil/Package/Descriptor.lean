import Stencil.Markup.Element
import Stencil.Package.Layout
import Stencil.Template
import Stencil.Text.Letter

namespace Stencil.Descriptor

open Markup (Tree)

def vocabulary : String := "http://schemas.microsoft.com/developer/vstemplate/2005"

def fileName : String := "template.vstemplate"

def flag (value : Bool) : String := if value then "true" else "false"

def textElement (name text : String) : Tree := .leaf name [] text

def assetName? (asset : Option String) : Option String :=
  asset.bind fun text => (Path.mk text).fileName?

/-- The template's name, reduced to characters that a project name can have. -/
def defaultName (t : Template) : String :=
  let name := String.ofList ((t.name.getD "").toList.filter fun c =>
    Text.isAlphanumeric c || c = '_')
  if name = "" then "Project" else name

/-- What a descriptor says about the template. -/
def dataElements (t : Template) (language : Language) : List Tree :=
  [textElement "Name" (t.name.getD ""),
    textElement "Description" (t.description.getD ""),
    textElement "ProjectType" language.name,
    textElement "NumberOfParentCategoriesToRollUp" "1",
    textElement "DefaultName" (defaultName t)] ++
  ((assetName? t.icon).map (textElement "Icon")).toList ++
  ((assetName? t.preview).map (textElement "PreviewImage")).toList

mutual

/-- The element for a node, unless it is the project file. `trail` are the names that lead to it. -/
def nodeElements (project : List String) (name : String) (trail : List String) :
    PackageNode → List Tree
  | .directory entries =>
    [.branch "Folder" [("Name", name), ("TargetFolderName", name)]
      (entryElements project trail entries)]
  | .file file =>
    if trail = project then []
    else [.leaf "ProjectItem"
      [("ReplaceParameters", flag (!file.raw)), ("TargetFileName", name)] name]

def entryElements (project : List String) (trail : List String) :
    List (String × PackageNode) → List Tree
  | [] => []
  | (name, node) :: rest =>
    nodeElements project name (trail ++ [name]) node ++ entryElements project trail rest

end

/-- The element for a project file and what lies in its directory. The rest of the layout is not told. -/
def projectElement (entries : PackageEntries) (project : List String) (file : PackageFile) : Tree :=
  let directory := project.dropLast
  .branch "Project"
    [("File", "/".intercalate project), ("TargetFileName", project.getLast?.getD ""),
      ("ReplaceParameters", flag (!file.raw))]
    (match entries.directory? directory with
      | some inner => entryElements project directory inner
      | none => [])

def tree (t : Template) (language : Language) (entries : PackageEntries) (project : List String)
    (file : PackageFile) : Tree :=
  .branch "VSTemplate" [("Version", "3.0.0"), ("Type", "Project"), ("xmlns", vocabulary)]
    [.branch "TemplateData" [] (dataElements t language),
      .branch "TemplateContent" [] [projectElement entries project file]]

def text (t : Template) (language : Language) (entries : PackageEntries) (project : List String)
    (file : PackageFile) : String := (tree t language entries project file).document

end Stencil.Descriptor
