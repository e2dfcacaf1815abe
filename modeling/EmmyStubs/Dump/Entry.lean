import EmmyStubs.Dump.Reference
import EmmyStubs.Text.Fold

/-! # Entries of a dump

    An entry is read twice.  `outline` takes what stands for itself: identity, name, namespace
    and kind.  `complete` adds the members and all links, once the identities of all entries
    are known.  Both report the first fault in the order in which the keys are documented. -/

namespace EmmyStubs.Dump

open EmmyStubs.Text

/-- The entries of a map, in order. -/
abbrev Entries := List (Value × Value)

/-! ## §1. Outlines -/

def kindOf (id : Identity) (given : Value) : Except Error TypeKind :=
  match TypeKind.ofName? (lower given.text) with
  | some kind => return kind
  | none => throw ⟨some id, .unknownKind given⟩

/-- The name of an entry, by default the one that its identity spells. -/
def nameOf (id : Identity) (given : Value) : Except Error String :=
  let check (name : String) : Except Error String :=
    if name = "" then throw ⟨some id, .badName⟩ else return name
  match given with
  | .null => check (String.ofList (simpleName (shapeOf id.toList)))
  | .str name => check name
  | _ => throw ⟨some id, .badName⟩

/-- The namespace of an entry, by default the one that its identity spells. -/
def spaceIn (id : Identity) (given : Option Value) : Except Error (Option String) :=
  match given with
  | none => return spaceOf (shapeOf id.toList)
  | some .null => return none
  | some (.str space) => return if space = "" then none else some space
  | some _ => throw ⟨some id, .badNamespace⟩

/-- What an entry says of a type without looking at other entries. -/
def outline (entry : Value) : Except Error (Entries × Descriptor) :=
  match entry.entries? with
  | some es => do
    let id ← match Value.field es "id" with
      | .str id => if id = "" then throw ⟨none, .missingId⟩ else pure id
      | _ => throw ⟨none, .missingId⟩
    let name ← nameOf id (Value.field es "name")
    let space ← spaceIn id (Value.lookup es "namespace")
    let kind ← kindOf id ((Value.lookup es "kind").getD (.str "class"))
    return (es, { identity := id, name, space, kind })
  | none => throw ⟨none, .entryNotMap entry⟩

/-- The outlines of some entries; no identity in `seen`, or of an earlier entry, may occur. -/
def outlines (seen : List Identity) : List Value → Except Error (List (Entries × Descriptor))
  | [] => return []
  | entry :: rest => do
    let (es, d) ← outline entry
    if d.identity ∈ seen then throw ⟨some d.identity, .duplicate⟩
    let ds ← outlines (d.identity :: seen) rest
    return (es, d) :: ds

/-! ## §2. References and flags -/

/-- The identities that are described, and the type that is being read. -/
structure Scope where
  described : List Identity
  owner : Identity

namespace Scope

variable {α : Type}

def fail (s : Scope) (flaw : Flaw) : Except Error α :=
  throw ⟨some s.owner, flaw⟩

def reference (s : Scope) : Value → Except Error Identity
  | .str id => do
    let _ ← expand s.described s.owner id
    return id
  | given => s.fail (.invalidReference given)

def optional (s : Scope) : Value → Except Error (Option Identity)
  | .null => return none
  | given => return some (← s.reference given)

def required (s : Scope) (what : String) : Value → Except Error Identity
  | .null => s.fail (.missingReference what)
  | given => s.reference given

/-- A list that may be left out. -/
def listOf (s : Scope) (what : String) (given : Value) : Except Error (List Value) :=
  match given.items? with
  | some items => return items
  | none => if given.isNull then return [] else s.fail (.notList what)

def references (s : Scope) (given : Value) : Except Error (List Identity) := do
  let items ← s.listOf "type references" given
  items.mapM s.reference

/-- The entries of a member. -/
def member (s : Scope) (what : String) (raw : Value) : Except Error Entries :=
  match raw.entries? with
  | some es => return es
  | none => s.fail (.memberNotMap what)

def memberName (s : Scope) (what : String) (es : Entries) : Except Error String :=
  match Value.field es "name" with
  | .str name => if name = "" then s.fail (.missingName what) else return name
  | _ => s.fail (.missingName what)

end Scope

/-- Whether a key holds a value that counts as true. -/
def flag (es : Entries) (key : String) : Bool :=
  (Value.field es key).truthy

/-! ## §3. Members -/

/-- The words for access, and what they mean to the target language. -/
def accessWords : List (String × Access) :=
  [("public", .public), ("private", .private), ("protected", .protected), ("family", .protected),
   ("package", .package), ("internal", .package), ("assembly", .package), ("unknown", .unknown)]

def accessOf? (word : String) : Option Access :=
  (accessWords.find? (·.1 == word)).map (·.2)

namespace Scope

def access (s : Scope) : Value → Except Error Access
  | .null => return .unknown
  | given =>
    match accessOf? (lower (String.ofList (strip given.text.toList))) with
    | some a => return a
    | none => s.fail (.unknownAccess given)

def parameter (s : Scope) (raw : Value) : Except Error Descriptor.Parameter := do
  let es ← s.member "parameter" raw
  let name ← match Value.field es "name" with
    | .null => pure none
    | .str name => pure (if name = "" then none else some name)
    | _ => s.fail .badParameterName
  let type ← s.required "parameter type" (Value.field es "type")
  return ⟨name, type, flag es "optional", flag es "variadic"⟩

def parameters (s : Scope) (what : String) (es : Entries) :
    Except Error (List Descriptor.Parameter) := do
  let items ← s.listOf what (Value.field es what)
  items.mapM s.parameter

def field (s : Scope) (raw : Value) : Except Error Descriptor.Field := do
  let es ← s.member "field" raw
  let name ← s.memberName "field" es
  let type ← s.required "field type" (Value.field es "type")
  let access ← s.access (Value.field es "access")
  return ⟨name, type, access, flag es "static", flag es "compiler_generated",
    flag es "special_name"⟩

/-- Whether a property takes the place of an inherited one. -/
def hidesBase (es : Entries) : Bool :=
  ((Value.lookup es "overrides").getD (Value.field es "hides_base")).truthy

def property (s : Scope) (raw : Value) : Except Error Descriptor.Property := do
  let es ← s.member "property" raw
  let name ← s.memberName "property" es
  let type ← s.required "property type" (Value.field es "type")
  let access ← s.access (Value.field es "access")
  let index ← s.parameters "index_parameters" es
  return ⟨name, type, access, flag es "static", index, hidesBase es, flag es "compiler_generated",
    flag es "special_name"⟩

/-- A method; one without a name takes the default, where there is one. -/
def method (s : Scope) (defaultName : Option String) (raw : Value) :
    Except Error Descriptor.Method := do
  let es ← s.member "method" raw
  let name ← match defaultName, Value.lookup es "name" with
    | some name, none => pure name
    | _, _ => s.memberName "method" es
  let parameters ← s.parameters "parameters" es
  let returnType ← s.optional (Value.field es "return_type")
  let access ← s.access (Value.field es "access")
  let generics ← s.references (Value.field es "generic_arguments")
  return {
    name, parameters, returnType, access
    isStatic := flag es "static"
    isSpecialName := flag es "special_name"
    isCompilerGenerated := flag es "compiler_generated"
    isAsyncStateMachine := flag es "async_state_machine"
    genericArguments := generics
    containsGenericParameters := flag es "contains_generic_parameters" }

/-- A named value of an enumeration, which has to be an integer. -/
def constant (s : Scope) : Value × Value → Except Error Descriptor.Constant
  | (.str name, value) =>
    if name = "" then s.fail (.missingName "enum value")
    else
      match value with
      | .int n => return ⟨name, .int n⟩
      | _ => s.fail (.badConstant name)
  | _ => s.fail (.missingName "enum value")

/-- The values of an enumeration, from a map or from a list of named ones.  The whole list is
    checked for its shape before the first value is looked at. -/
def constants (s : Scope) (given : Value) : Except Error (List Descriptor.Constant) :=
  match given.opened with
  | .null => return []
  | .map es => es.mapM s.constant
  | .list items => do
    let pairs ← items.mapM fun raw => do
      let es ← s.member "enum value" raw
      return (Value.field es "name", Value.field es "value")
    pairs.mapM s.constant
  | _ => s.fail .badConstants

/-! ## §4. Whole types -/

/-- What an entry says of a generic parameter: whether it is one of a method, its constraints,
    and whether it has to be a reference type. -/
def genericParameter (s : Scope) (given : Value) :
    Except Error (Bool × List Identity × Bool) :=
  match given.entries? with
  | some es => do
    let constraints ← s.references (Value.field es "constraints")
    return (flag es "method", constraints, flag es "reference_type")
  | none =>
    if given.isNull then return (false, [], false) else s.fail (.notMap "generic_parameter")

/-- The members that a list holds. -/
def members {α : Type} (s : Scope) (what : String) (read : Value → Except Error α)
    (es : Entries) : Except Error (List α) := do
  let items ← s.listOf what (Value.field es what)
  items.mapM read

end Scope

/-- Whether a type is generic: as its entry says, else by its arguments or its name. -/
def isGeneric (es : Entries) (definition : Option Identity) (arguments : List Identity)
    (name : String) : Bool :=
  match Value.lookup es "is_generic" with
  | some given => given.truthy
  | none => definition.isSome || !arguments.isEmpty || name.toList.contains '\x60'

/-- The type that an entry describes. -/
def complete (described : List Identity) (es : Entries) (d : Descriptor) :
    Except Error Descriptor := do
  let s : Scope := ⟨described, d.identity⟩
  let declaring ← s.optional (Value.field es "declaring_type")
  let element ← s.optional (Value.field es "element_type")
  let definition ← s.optional (Value.field es "generic_definition")
  let arguments ← s.references (Value.field es "generic_arguments")
  let base ← s.optional (Value.field es "base_type")
  let interfaces ← s.references (Value.field es "interfaces")
  let (isMethodParameter, constraints, isReference) ←
    s.genericParameter (Value.field es "generic_parameter")
  let fields ← s.members "fields" s.field es
  let properties ← s.members "properties" s.property es
  let methods ← s.members "methods" (s.method none) es
  let constructors ← s.members "constructors" (s.method (some ".ctor")) es
  let invoke ← match Value.field es "invoke" with
    | .null => pure none
    | raw => some <$> s.method (some "Invoke") raw
  let constants ← s.constants (Value.field es "enum_values")
  return { d with
    declaring, element, definition
    genericArguments := arguments
    isGeneric := isGeneric es definition arguments d.name
    base, interfaces, fields, properties, methods, constructors, constants, invoke
    isCompilerGenerated := flag es "compiler_generated"
    isSpecialName := flag es "special_name"
    isGeneratedCode := flag es "generated_code"
    isMethodParameter, constraints
    hasReferenceTypeConstraint := isReference }

end EmmyStubs.Dump
