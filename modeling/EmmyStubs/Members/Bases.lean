import EmmyStubs.Members.Methods

/-! # Base types of a class

    A class names its base class, or the root of all classes, its interfaces that are not
    generic, the token of the primitive it is, and a table for each public indexer. -/

namespace EmmyStubs.Members

/-- The base class of a type, where it is not the root of all classes. -/
def ownBase? (g : Graph) (d : Descriptor) : Option Descriptor :=
  (d.base.bind g.find?).filter (·.identity != Shape.object)

/-- The tables that the public indexers of a type stand for. -/
def indexerTables (g : Graph) (o : Options) : List Descriptor.Property → Action (List String)
  | [] => return []
  | p :: ps => do
    match p.isPublicIndexer, p.indexParameters with
    | true, i :: _ =>
      let key ← typeText g o false i.type
      let value ← typeText g o false p.type
      let rest ← indexerTables g o ps
      return Lua.tableType key value :: rest
    | _, _ => indexerTables g o ps

/-- The base types that a class is declared with, each once, and whether its base class has no
    name. -/
def baseTypes (g : Graph) (o : Options) (d : Descriptor) : Action (List String × Bool) := do
  let (first, unnamed) ←
    match ownBase? g d with
    | some b => do
      let name ← resolve g b
      pure ([name], name == Lua.userdata)
    | none =>
      pure (if d.kind != .interface && d.identity != Shape.object then [Shape.object] else [],
        false)
  let interfaces ← resolveAll g ((g.findAll d.interfaces).filter (!·.isGeneric))
  let tables ← indexerTables g o d.properties
  return (unique (first ++ interfaces ++ (Lua.primitive? d.identity).toList ++ tables), unnamed)

end EmmyStubs.Members
