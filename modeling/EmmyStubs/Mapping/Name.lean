import EmmyStubs.Graph.Shape
import EmmyStubs.Lua
import EmmyStubs.Session.Action

/-! # Qualified names

    A type is called by its namespace, the names of the types around it and its own name,
    joined by points.  A generic type has no name in the annotation language. -/

namespace EmmyStubs

/-- The namespace of a type, as long as it is not empty. -/
def Descriptor.space? (d : Descriptor) : Option String :=
  d.space.filter (· != "")

/-- The qualified name of a type. -/
def Graph.qualifiedName (g : Graph) (d : Descriptor) : String :=
  if d.isGeneric then Lua.userdata
  else ".".intercalate (d.space?.toList ++ (g.declaringChain d).map (·.name) ++ [d.name])

/-- The qualified name of a type, kept in the cache of names. -/
def resolve (g : Graph) (d : Descriptor) : Action String := do
  match ← Action.request (.name (.get d.identity)) with
  | some name => return name
  | none =>
    Action.request (.name .miss)
    Action.request (.name (.store d.identity (g.qualifiedName d)))

end EmmyStubs
