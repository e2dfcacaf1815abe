import EmmyStubs.Value

/-! # Descriptors

    A descriptor says what is known of one type: its name, its kind, its members, and its
    links to other types.  Types are told apart by identity alone, so a link is the identity
    of the type it leads to. -/

namespace EmmyStubs

/-- The text that tells a type apart from all others. -/
abbrev Identity := String

/-! ## §1. Kinds and access -/

inductive TypeKind where
  | cls
  | struct
  | interface
  | enum
  | delegate
  | array
  | byRef
  | nullable
  | genericParameter
  | void
  deriving DecidableEq, Repr

namespace TypeKind

def name : TypeKind → String
  | .cls => "class"
  | .struct => "struct"
  | .interface => "interface"
  | .enum => "enum"
  | .delegate => "delegate"
  | .array => "array"
  | .byRef => "byref"
  | .nullable => "nullable"
  | .genericParameter => "generic_parameter"
  | .void => "void"

def all : List TypeKind :=
  [.cls, .struct, .interface, .enum, .delegate, .array, .byRef, .nullable, .genericParameter,
   .void]

/-- The kind that a word names. -/
def ofName? (word : String) : Option TypeKind :=
  all.find? (·.name == word)

/-- A kind of type that gets a declaration of its own. -/
def isDeclarable : TypeKind → Bool
  | .cls | .struct | .interface | .enum | .delegate => true
  | _ => false

end TypeKind

/-- Who may use a member. -/
inductive Access where
  | unknown
  | «public»
  | «private»
  | «protected»
  | package
  deriving DecidableEq, Repr

namespace Access

def name : Access → String
  | .unknown => "unknown"
  | .public => "public"
  | .private => "private"
  | .protected => "protected"
  | .package => "package"

/-- Access that has to be written at a member. -/
def isRestricted : Access → Bool
  | .private | .protected | .package => true
  | _ => false

end Access

/-! ## §2. Members -/

namespace Descriptor

structure Parameter where
  name : Option String
  type : Identity
  isOptional : Bool := false
  isVariadic : Bool := false
  deriving Repr

structure Field where
  name : String
  type : Identity
  access : Access := .unknown
  isStatic : Bool := false
  isCompilerGenerated : Bool := false
  isSpecialName : Bool := false
  deriving Repr

structure Property where
  name : String
  type : Identity
  access : Access := .unknown
  isStatic : Bool := false
  indexParameters : List Parameter := []
  hidesBase : Bool := false
  isCompilerGenerated : Bool := false
  isSpecialName : Bool := false
  deriving Repr

structure Method where
  name : String
  parameters : List Parameter := []
  returnType : Option Identity := none
  access : Access := .unknown
  isStatic : Bool := false
  isSpecialName : Bool := false
  isCompilerGenerated : Bool := false
  isAsyncStateMachine : Bool := false
  genericArguments : List Identity := []
  containsGenericParameters : Bool := false
  deriving Repr

/-- A method that is generic itself, or whose signature is. -/
def Method.isGeneric (m : Method) : Bool :=
  !m.genericArguments.isEmpty || m.containsGenericParameters

/-- A property that is read and written with one index between brackets. -/
def Property.isPublicIndexer (p : Property) : Bool :=
  !p.isStatic && p.access == .public && p.indexParameters.length == 1

/-- A named value of an enumeration. -/
structure Constant where
  name : String
  value : Value
  deriving Repr

end Descriptor

/-! ## §3. Types -/

/-- What is known of one type.  `isExternal` marks a type that a dump refers to but does not
    describe. -/
structure Descriptor where
  identity : Identity
  name : String
  space : Option String := none
  kind : TypeKind := .cls
  declaring : Option Identity := none
  element : Option Identity := none
  definition : Option Identity := none
  genericArguments : List Identity := []
  isGeneric : Bool := false
  base : Option Identity := none
  interfaces : List Identity := []
  fields : List Descriptor.Field := []
  properties : List Descriptor.Property := []
  methods : List Descriptor.Method := []
  constructors : List Descriptor.Method := []
  constants : List Descriptor.Constant := []
  invoke : Option Descriptor.Method := none
  isCompilerGenerated : Bool := false
  isSpecialName : Bool := false
  isGeneratedCode : Bool := false
  isMethodParameter : Bool := false
  constraints : List Identity := []
  hasReferenceTypeConstraint : Bool := false
  isExternal : Bool := false
  deriving Repr

namespace Descriptor

def isGenericParameter (d : Descriptor) : Bool :=
  d.kind == .genericParameter

/-- A generic parameter of a method. -/
def isGenericMethodParameter (d : Descriptor) : Bool :=
  d.isGenericParameter && d.isMethodParameter

/-- A generic parameter of a type. -/
def isGenericTypeParameter (d : Descriptor) : Bool :=
  d.isGenericParameter && !d.isMethodParameter

/-- A reference type that is no interface. -/
def isClass (d : Descriptor) : Bool :=
  d.kind == .cls || d.kind == .delegate || d.kind == .array

/-! ## §4. Links -/

def Parameter.links (p : Parameter) : List Identity :=
  [p.type]

def Field.links (f : Field) : List Identity :=
  [f.type]

def Property.links (p : Property) : List Identity :=
  p.type :: p.indexParameters.flatMap Parameter.links

def Method.links (m : Method) : List Identity :=
  m.parameters.flatMap Parameter.links ++ m.returnType.toList ++ m.genericArguments

/-- Every type that a descriptor refers to, in any role. -/
def links (d : Descriptor) : List Identity :=
  d.declaring.toList ++ d.element.toList ++ d.definition.toList ++ d.genericArguments
    ++ d.base.toList ++ d.interfaces ++ d.constraints
    ++ d.fields.flatMap Field.links ++ d.properties.flatMap Property.links
    ++ d.methods.flatMap Method.links ++ d.constructors.flatMap Method.links
    ++ d.invoke.toList.flatMap Method.links

end Descriptor

end EmmyStubs
