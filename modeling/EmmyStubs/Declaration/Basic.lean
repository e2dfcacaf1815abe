import EmmyStubs.Members.Bases
import EmmyStubs.Stub.Printer
import EmmyStubs.Declaration.Failure

/-! # The declaration of a type

    An enumeration is declared with its values, every other type as a class with its members.
    A class repeats the members of its base types when the options say so, or when its base
    class has no name that it could refer to. -/

namespace EmmyStubs

/-! ## §1. Members -/

/-- The members of a class by kind. -/
structure MemberList where
  fields : List Stub.Field
  operators : List Stub.Operator
  methods : List Stub.MethodGroup
  genericMethods : List Stub.GenericMethod
  constructor : Option Stub.Constructor
  deriving Repr

/-- All members of a type, those of its base types included where `ancestors` says so. -/
def allMembers (g : Graph) (o : Options) (d : Descriptor) (ancestors : Bool) :
    Action MemberList := do
  let fields ← Members.fields g o d ancestors
  let operators ← Members.operators g o d
  let methods ← Members.methods g o d ancestors
  let genericMethods ← Members.genericMethods g o d ancestors
  let constructor ← Members.constructor? g o d
  return ⟨fields, operators, methods, genericMethods, constructor⟩

/-! ## §2. Declarations -/

/-- The members of an enumeration; the first value that is no integer refuses it. -/
def enumMembers (identity : Identity) :
    List Descriptor.Constant → Except DeclarationError (List Stub.EnumMember)
  | [] => return []
  | c :: cs =>
    match c.value with
    | .int n => do
      let rest ← enumMembers identity cs
      return ⟨c.name, n⟩ :: rest
    | value => throw ⟨identity, .nonInteger c.name value⟩

def classDeclaration (g : Graph) (o : Options) (d : Descriptor) :
    Action Stub.ClassDeclaration := do
  let (bases, unnamed) ← Members.baseTypes g o d
  let ancestors := o.flatten || unnamed
  if ancestors then
    Action.report .debug .synthesis ("Flattening ancestors into " ++ d.identity)
  let ms ← allMembers g o d ancestors
  let name ← resolve g d
  return {
    name
    baseTypes := bases
    fields := ms.fields
    operators := ms.operators
    methods := ms.methods.map .group ++ ms.genericMethods.map .generic
    constructor := ms.constructor }

/-- The declaration of a type. -/
def declaration (g : Graph) (o : Options) (d : Descriptor) :
    Action (Except DeclarationError Stub.Declaration) :=
  if d.kind = .enum then
    match enumMembers d.identity d.constants with
    | .error e => return .error e
    | .ok members => do
      let name ← resolve g d
      return .ok (.enum ⟨name, members⟩)
  else do
    let c ← classDeclaration g o d
    return .ok (.cls c)

/-- The declaration of a type with its text, if it has one. -/
def printed (d : Descriptor) (c : Stub.Declaration) : Except DeclarationError Stub.Rendered :=
  match c.text? with
  | some text => .ok ⟨d.identity, c.name, d.space, text, false⟩
  | none => .error ⟨d.identity, .excess⟩

/-- The text of the declaration of a type. -/
def renderType (g : Graph) (o : Options) (d : Descriptor) :
    Action (Except DeclarationError Stub.Rendered) := do
  match ← declaration g o d with
  | .ok c => return printed d c
  | .error e => return .error e

end EmmyStubs
