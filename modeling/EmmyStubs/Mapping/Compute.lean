import EmmyStubs.Mapping.Name
import EmmyStubs.Mapping.Options
import EmmyStubs.Mapping.Signature
import EmmyStubs.Mapping.Union

/-! # The expression of one type

    `compute` says how the expression of a type is made from those of the types it depends on.
    It knows nothing of caches or of the types being mapped: the surroundings give it names and
    the expressions of other types, in any monad. -/

namespace EmmyStubs

/-- What the mapping of a type needs: the graph, the options, and a way to name a type and to
    map another one. -/
structure Surroundings (m : Type → Type) where
  graph : Graph
  options : Options
  resolve : Descriptor → m String
  map : Identity → m TypeExpr

namespace Surroundings

variable {m : Type → Type} [Monad m]

/-- The text of another type, as a part of a larger expression or on its own. -/
def text (e : Surroundings m) (asPart : Bool) (id : Identity) : m String := do
  let t ← e.map id
  return t.render asPart

/-! ## §1. Functions -/

/-- A delegate is the function that it calls. -/
def delegate (e : Surroundings m) (d : Descriptor) : m TypeExpr :=
  match d.invoke with
  | none => return ⟨Stub.functionType [] Lua.void, true⟩
  | some i => do
    let ps ← stubParameters e.graph (e.text true) i.parameters
    let result ← returnText (e.text false) i.returnType
    return ⟨Stub.functionType ps result, true⟩

/-! ## §2. Types without a name -/

/-- The tables that public indexers of a type stand for, those of base types included. -/
def indexers (e : Surroundings m) : List Descriptor.Property → m (List TypeExpr)
  | [] => return []
  | p :: ps => do
    match p.isPublicIndexer, p.indexParameters with
    | true, i :: _ =>
      let key ← e.text false i.type
      let value ← e.text false p.type
      let rest ← e.indexers ps
      return ⟨Lua.tableType key value, false⟩ :: rest
    | _, _ => e.indexers ps

/-- What a sequence of some items is written as. -/
def sequence (style : EnumerableStyle) (item : String) : TypeExpr :=
  match style with
  | .table => ⟨Lua.tableType "nil" item, false⟩
  | .function => ⟨"fun(): " ++ item, true⟩

/-- The iteration that a type offers by implementing one of `shapes`. -/
def iteration (e : Surroundings m) (shapes : List Identity) (d : Descriptor) :
    m (List TypeExpr) :=
  match (e.graph.implementation? shapes d).bind (·.genericArguments.head?) with
  | none => return []
  | some argument => do
    let item ← e.text false argument
    return [sequence e.options.style item]

/-- A type without a name is a value of unknown shape, or anything that can be told of it. -/
def composite (e : Surroundings m) (d : Descriptor) : m TypeExpr := do
  let tables ← e.indexers ((e.graph.hierarchy d).flatMap (·.properties))
  let items ← e.iteration Shape.enumerables d
  let steps ← e.iteration Shape.enumerators d
  return (Union.empty.addAll (⟨Lua.userdata, false⟩ :: tables ++ items ++ steps)).toExpr

/-! ## §3. All types -/

/-- A type that is named, or else described. -/
def named (e : Surroundings m) (d : Descriptor) : m TypeExpr := do
  let name ← e.resolve d
  if name = Lua.userdata then e.composite d else return ⟨name, false⟩

/-- A generic type of a known shape, or else a named one. -/
def instantiation (e : Surroundings m) (d : Descriptor) : m TypeExpr :=
  match d.genericArguments with
  | [] => e.named d
  | a :: rest =>
    if e.options.isList d then do
      let item ← e.text true a
      return ⟨item ++ "[]", false⟩
    else
      match rest with
      | [] => e.named d
      | b :: _ =>
        if e.options.isDictionary d then do
          let key ← e.text false a
          let value ← e.text false b
          return ⟨Lua.tableType key value, false⟩
        else e.named d

/-- The expression of a type. -/
def compute (e : Surroundings m) (d : Descriptor) : m TypeExpr :=
  if d.kind = .void then return ⟨Lua.void, false⟩
  else
    match Lua.primitive? d.identity with
    | some token => return ⟨token, false⟩
    | none =>
      if d.isGenericMethodParameter then return ⟨d.name, false⟩
      else
        match d.kind with
        | .enum => do
          let name ← e.resolve d
          return ⟨name, false⟩
        | .array =>
          match d.element with
          | none => return ⟨Lua.userdata ++ "[]", false⟩
          | some el => do
            let item ← e.text true el
            return ⟨item ++ "[]", false⟩
        | .byRef =>
          match d.element with
          | none => return ⟨Lua.userdata, false⟩
          | some el => e.map el
        | _ =>
          if d.kind = .delegate ∧ d.identity ∉ Shape.delegateRoots then e.delegate d
          else
            match d.nullableUnderlying? with
            | some u => do
              let t ← e.text true u
              return ⟨t ++ "|nil", true⟩
            | none => e.instantiation d

end Surroundings

end EmmyStubs
