import EmmyStubs.Graph.Basic

/-! # Shapes of types

    Some generic types are known by the identity of their definition: lists, dictionaries,
    sequences that can be iterated, results that are awaited.  This module recognises them, and
    tells which methods are asynchronous and which generic ones can be annotated. -/

namespace EmmyStubs

/-! ## §1. Known identities -/

namespace Shape

/-- The root of all classes. -/
def object : Identity := "System.Object"

def nullable : Identity := "System.Nullable`1"

def lists : List Identity :=
  ["System.Collections.Generic.List`1", "System.Collections.Generic.IList`1",
   "System.Collections.Generic.IReadOnlyList`1"]

def dictionaries : List Identity :=
  ["System.Collections.Generic.Dictionary`2", "System.Collections.Generic.IDictionary`2",
   "System.Collections.Generic.IReadOnlyDictionary`2"]

def enumerables : List Identity :=
  ["System.Collections.Generic.IEnumerable`1"]

def enumerators : List Identity :=
  ["System.Collections.Generic.IEnumerator`1"]

def awaitables : List Identity :=
  ["System.Threading.Tasks.Task", "System.Threading.Tasks.Task`1",
   "System.Threading.Tasks.ValueTask", "System.Threading.Tasks.ValueTask`1"]

/-- The roots of all delegates, which are classes like any other. -/
def delegateRoots : List Identity :=
  ["System.Delegate", "System.MulticastDelegate"]

/-- Whether an instantiation of one of `shapes` is given. -/
def isOneOf (shapes : List Identity) (d : Descriptor) : Bool :=
  match d.definition with
  | some s => shapes.contains s
  | none => false

end Shape

/-- The type that a nullable type adds null to. -/
def Descriptor.nullableUnderlying? (d : Descriptor) : Option Identity :=
  if d.kind = .nullable then d.element
  else if d.definition = some Shape.nullable then d.genericArguments.head?
  else none

namespace Graph

/-! ## §2. Implementations -/

/-- The first instantiation of one of `shapes` that a type is or implements, base types
    included. -/
def implementation? (g : Graph) (shapes : List Identity) (d : Descriptor) : Option Descriptor :=
  (g.hierarchy d).findSome? fun current =>
    (current :: g.findAll current.interfaces).find? (Shape.isOneOf shapes)

/-- Whether a type is awaited: it, or a base type, is a task. -/
def isAwaitable (g : Graph) (type : Option Identity) : Bool :=
  match type.bind g.find? with
  | none => false
  | some d =>
    (g.hierarchy d).any fun current =>
      Shape.awaitables.contains current.identity || Shape.isOneOf Shape.awaitables current

/-! ## §3. Methods -/

def isAsync (g : Graph) (m : Descriptor.Method) : Bool :=
  g.isAwaitable m.returnType || m.isAsyncStateMachine

/-- Whether a generic argument can be annotated: it is no parameter of the type around it, it
    is bound to classes only, and some parameter of the method has it as its type. -/
def isAnnotatable (g : Graph) (parameterTypes : List Descriptor) (argument : Descriptor) : Bool :=
  !argument.isGenericTypeParameter
    && (g.findAll argument.constraints).all (·.isClass)
    && (!argument.constraints.isEmpty || argument.hasReferenceTypeConstraint)
    && parameterTypes.any fun p => p.isGenericMethodParameter && p.name == argument.name

/-- Whether a method is generic and all its generic arguments can be annotated.  A parameter
    whose type is a parameter of the type around the method rules it out. -/
def isSupportedGeneric (g : Graph) (m : Descriptor.Method) : Bool :=
  let parameterTypes := g.findAll (m.parameters.map (·.type))
  m.isGeneric
    && !parameterTypes.any (·.isGenericTypeParameter)
    && (g.findAll m.genericArguments).all (g.isAnnotatable parameterTypes)

end Graph

end EmmyStubs
