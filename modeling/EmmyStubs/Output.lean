import EmmyStubs.Files.Tree
import EmmyStubs.Index
import EmmyStubs.Stub.Printer
import EmmyStubs.Template

/-! # Stub files

    Every namespace of an assembly has a file, in directories named by its segments below one
    named for the assembly; one more file holds the index of all namespaces.  A directory of
    templates may say what stands in them. -/

namespace EmmyStubs.Output

open EmmyStubs.Files

/-! ## §1. Paths -/

/-- The file of a namespace, below the directory of its assembly. -/
def spacePath (space : Option String) : String :=
  let base := match space with
    | some s =>
      if s = "" then Lua.noNamespace
      else String.ofList (s.toList.map fun c => if c = '.' then '/' else c)
    | none => Lua.noNamespace
  base ++ ".lua"

/-- The path of the file of a namespace. -/
def namespacePath (output : Path) (assembly : String) (space : Option String) : Path :=
  (output.child assembly).child (spacePath space)

/-- The path of the index. -/
def indexPath (output : Path) : Path :=
  output.child "global.lua"

/-! ## §2. Texts -/

/-- What a namespace file is written with. -/
def namespaceTemplateName : String := "namespace_file.lua.j2"

def namespaceTemplate : String :=
  "---@meta\n---Auto-generated from \x7b\x7b assembly_name \x7d\x7d\n"
    ++ "\x7b\x7b namespace_block \x7d\x7d\n"

/-- What the index is written with. -/
def indexTemplateName : String := "global.lua.j2"

def indexTemplate : String :=
  "---@meta\n\x7b\x7b tree \x7d\x7d"

/-- The text of a template: of the file in the directory of templates, or else the default. -/
def templateText (tree : Tree) (directory : Option Path) (name default : String) : String :=
  match directory with
  | none => default
  | some dir =>
    match tree.read (dir.child name) with
    | .ok text => text
    | .error _ => default

/-- The text of a namespace file. -/
def namespaceText (template : String) (assembly : String) (space : Option String)
    (declarations : List Stub.Rendered) : String :=
  Template.fill template
    [("assembly_name", assembly),
     ("namespace_block", Stub.namespaceBlock space (declarations.map (·.text)))]

/-- The text of the index. -/
def indexText (template : String) (spaces : List (Option String)) : String :=
  Template.fill template [("tree", (Index.ofSpaces spaces).text)]

end EmmyStubs.Output
