import EmmyStubs.Graph.Basic
import EmmyStubs.Stub.Signature

/-! # Signatures

    The parameters of a method as they are annotated: a name that is no reserved word, and the
    mapped type.  A variadic parameter is annotated with the type of its elements. -/

namespace EmmyStubs

/-- The type that a parameter is annotated with. -/
def Graph.annotatedType (g : Graph) (p : Descriptor.Parameter) : Identity :=
  match g.find? p.type with
  | some d =>
    if p.isVariadic && d.kind == .array then d.element.getD p.type else p.type
  | none => p.type

/-- The name that a parameter is annotated with. -/
def Descriptor.Parameter.stubName (p : Descriptor.Parameter) : String :=
  Lua.escapeKeyword (match p.name with
    | some n => if n = "" then "arg" else n
    | none => "arg")

/-- The annotated parameters, `text` giving the text of a type. -/
def stubParameters {m : Type → Type} [Monad m] (g : Graph) (text : Identity → m String) :
    List Descriptor.Parameter → m (List Stub.Parameter)
  | [] => return []
  | p :: ps => do
    let type ← text (g.annotatedType p)
    let rest ← stubParameters g text ps
    return ⟨p.stubName, type, p.isOptional, p.isVariadic⟩ :: rest

/-- The text of a return type; a method without one returns nothing. -/
def returnText {m : Type → Type} [Monad m] (text : Identity → m String) :
    Option Identity → m String
  | none => return Lua.void
  | some type => text type

end EmmyStubs
