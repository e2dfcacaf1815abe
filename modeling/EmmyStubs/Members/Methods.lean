import EmmyStubs.Members.Fields

/-! # Operators, methods and constructors of a class

    Methods that agree in name, access, instance and asynchrony form one group, the first of
    them being its signature and the others its overloads.  A generic method stands alone, and
    only where its generic arguments can be annotated. -/

namespace EmmyStubs.Members

/-! ## §1. Operators -/

/-- Whether a method may be an operator of a type: it is special, and its first operand is of
    that type. -/
def isOperator (d : Descriptor) (m : Descriptor.Method) : Bool :=
  m.isSpecialName && !m.isGeneric && !m.isCompilerGenerated
    && (m.parameters.head?.map (·.type)) == some d.identity

/-- The operator that a method stands for.  A binary one without a second operand is none. -/
def operatorOf (g : Graph) (o : Options) (m : Descriptor.Method) :
    Action (List Stub.Operator) :=
  match Lua.operator? m.name with
  | none => return []
  | some (name, binary) => do
    let result ← returnText (typeText g o false) m.returnType
    if !binary then return [⟨name, result, false, ""⟩]
    else
      match m.parameters with
      | _ :: second :: _ =>
        let operand ← typeText g o false second.type
        return [⟨name, result, true, operand⟩]
      | _ => return []

def operatorsOf (g : Graph) (o : Options) : List Descriptor.Method → Action (List Stub.Operator)
  | [] => return []
  | m :: ms => do
    let first ← operatorOf g o m
    let rest ← operatorsOf g o ms
    return first ++ rest

def operators (g : Graph) (o : Options) (d : Descriptor) : Action (List Stub.Operator) :=
  operatorsOf g o (d.methods.filter (isOperator d))

/-! ## §2. Method groups -/

/-- What the methods of a group agree in. -/
structure GroupKey where
  name : String
  access : Access
  isInstance : Bool
  isAsync : Bool
  deriving DecidableEq, Repr

def groupKey (g : Graph) (m : Descriptor.Method) : GroupKey :=
  ⟨simpleName m.name, m.access, !m.isStatic, g.isAsync m⟩

/-- The methods that are grouped. -/
def isGrouped (m : Descriptor.Method) : Bool :=
  !m.isGeneric && !m.isCompilerGenerated

/-- Puts a method behind those with its key; a new key goes last. -/
def insertMethod (key : GroupKey) (m : Descriptor.Method) :
    List (GroupKey × List Descriptor.Method) → List (GroupKey × List Descriptor.Method)
  | [] => [(key, [m])]
  | (k, ms) :: rest =>
    if k = key then (k, ms ++ [m]) :: rest else (k, ms) :: insertMethod key m rest

/-- The groups of some methods, in the order in which their keys first occur. -/
def groups (g : Graph) (ms : List Descriptor.Method) : List (GroupKey × List Descriptor.Method) :=
  ms.foldl (fun acc m => insertMethod (groupKey g m) m acc) []

/-- The parameters and the return text of a method. -/
def signature (g : Graph) (o : Options) (m : Descriptor.Method) :
    Action (List Stub.Parameter × String) := do
  let ps ← stubParameters g (typeText g o false) m.parameters
  let result ← returnText (typeText g o false) m.returnType
  return (ps, result)

def overloadsOf (g : Graph) (o : Options) : List Descriptor.Method → Action (List Stub.Overload)
  | [] => return []
  | m :: ms => do
    let (ps, result) ← signature g o m
    let rest ← overloadsOf g o ms
    return ⟨!m.isStatic, ps, result⟩ :: rest

def groupRecords (g : Graph) (o : Options) (className : String) :
    List (GroupKey × List Descriptor.Method) → Action (List Stub.MethodGroup)
  | [] => return []
  | (_, []) :: rest => groupRecords g o className rest
  | (k, first :: others) :: rest => do
    let (ps, result) ← signature g o first
    let overloads ← overloadsOf g o others
    let records ← groupRecords g o className rest
    return ⟨className, k.name, k.isInstance, k.isAsync, k.access, ps, result, overloads⟩ :: records

/-- The methods of the candidate types, in order. -/
def candidateMethods (g : Graph) (d : Descriptor) (ancestors : Bool) : List Descriptor.Method :=
  (candidates g d ancestors).flatMap (·.methods)

def methods (g : Graph) (o : Options) (d : Descriptor) (ancestors : Bool) :
    Action (List Stub.MethodGroup) := do
  let className ← resolve g d
  groupRecords g o className (groups g ((candidateMethods g d ancestors).filter isGrouped))

/-! ## §3. Generic methods -/

/-- The names of some types. -/
def resolveAll (g : Graph) : List Descriptor → Action (List String)
  | [] => return []
  | d :: ds => do
    let name ← resolve g d
    let names ← resolveAll g ds
    return name :: names

/-- The annotation of a generic argument: bound to the types it is constrained to, or to any
    object where it has to be a reference. -/
def genericParameter (g : Graph) (d : Descriptor) : Action Stub.GenericParameter :=
  if d.constraints.isEmpty then
    return ⟨d.name, if d.hasReferenceTypeConstraint then some Shape.object else none⟩
  else do
    let names ← resolveAll g (g.findAll d.constraints)
    return ⟨d.name, some (", ".intercalate names)⟩

def genericParameters (g : Graph) : List Descriptor → Action (List Stub.GenericParameter)
  | [] => return []
  | d :: ds => do
    let p ← genericParameter g d
    let ps ← genericParameters g ds
    return p :: ps

def genericRecords (g : Graph) (o : Options) (className : String) :
    List Descriptor.Method → Action (List Stub.GenericMethod)
  | [] => return []
  | m :: ms => do
    let gs ← genericParameters g (g.findAll m.genericArguments)
    let (ps, result) ← signature g o m
    let rest ← genericRecords g o className ms
    return ⟨className, simpleName m.name, !m.isStatic, g.isAsync m, m.access, gs, ps, result⟩
      :: rest

def genericMethods (g : Graph) (o : Options) (d : Descriptor) (ancestors : Bool) :
    Action (List Stub.GenericMethod) := do
  let className ← resolve g d
  genericRecords g o className ((candidateMethods g d ancestors).filter fun m =>
    !m.isCompilerGenerated && g.isSupportedGeneric m)

/-! ## §4. Constructors -/

/-- Further constructors, each giving the class. -/
def constructorOverloads (g : Graph) (o : Options) (className : String) :
    List Descriptor.Method → Action (List Stub.Overload)
  | [] => return []
  | m :: ms => do
    let ps ← stubParameters g (typeText g o false) m.parameters
    let rest ← constructorOverloads g o className ms
    return ⟨false, ps, className⟩ :: rest

/-- The constructor of a type, the first one with the others as overloads. -/
def constructor? (g : Graph) (o : Options) (d : Descriptor) :
    Action (Option Stub.Constructor) :=
  match d.constructors.filter fun c => !c.isStatic && !c.isCompilerGenerated with
  | [] => return none
  | first :: others => do
    let className ← resolve g d
    let ps ← stubParameters g (typeText g o false) first.parameters
    let overloads ← constructorOverloads g o className others
    return some ⟨className, first.access, ps, overloads⟩

end EmmyStubs.Members
