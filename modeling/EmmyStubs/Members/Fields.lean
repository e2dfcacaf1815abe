import EmmyStubs.Mapping.Walk
import EmmyStubs.Members.Name

/-! # Fields of a class

    Properties and plain fields become field lines.  All properties of the candidate types come
    first, then all plain fields, each from the most derived type up; of several with one name
    the first is kept.  A name that an earlier property hides is passed over in silence, any
    other repetition is reported. -/

namespace EmmyStubs.Members

/-- The types whose members a class shows: itself, or also its base types. -/
def candidates (g : Graph) (d : Descriptor) (ancestors : Bool) : List Descriptor :=
  if ancestors then g.hierarchy d else [d]

/-! ## §1. Visible members -/

/-- A property without index or a plain field, as far as its line needs it. -/
structure Visible where
  name : String
  type : Identity
  access : Access
  isStatic : Bool
  isProperty : Bool
  hides : Bool
  deriving Repr

def visibleProperties (d : Descriptor) : List Visible :=
  (d.properties.filter fun p =>
      p.indexParameters.isEmpty && !p.isCompilerGenerated && !p.isSpecialName).map fun p =>
    ⟨p.name, p.type, p.access, p.isStatic, true, p.hidesBase⟩

def visibleFields (d : Descriptor) : List Visible :=
  (d.fields.filter fun f => !f.isCompilerGenerated && !f.isSpecialName).map fun f =>
    ⟨f.name, f.type, f.access, f.isStatic, false, false⟩

/-- The visible members of some types in the order in which they are considered. -/
def visibleMembers (ds : List Descriptor) : List Visible :=
  ds.flatMap visibleProperties ++ ds.flatMap visibleFields

/-! ## §2. Field lines -/

/-- Reports a member whose name is taken. -/
def reportDuplicate (name : String) : Action Unit :=
  Action.report .debug .collect
    ("Skipping duplicate member " ++ name ++ "; keeping the most-derived entry")

/-- The field of a visible member. -/
def fieldOf (g : Graph) (o : Options) (v : Visible) : Action Stub.Field := do
  let type ← typeText g o false v.type
  return ⟨keyName v.name, type, v.access, v.isStatic⟩

/-- The fields of some visible members; `taken` are the names that have a field, `hidden` those
    that a property hides. -/
def fieldsOf (g : Graph) (o : Options) (taken hidden : List String) :
    List Visible → Action (List Stub.Field)
  | [] => return []
  | v :: vs => do
    let hidden' := if v.hides then v.name :: hidden else hidden
    if v.isProperty && hidden.contains v.name then fieldsOf g o taken hidden vs
    else if taken.contains v.name then
      reportDuplicate v.name
      fieldsOf g o taken hidden' vs
    else
      let f ← fieldOf g o v
      let fs ← fieldsOf g o (v.name :: taken) hidden' vs
      return f :: fs

def fields (g : Graph) (o : Options) (d : Descriptor) (ancestors : Bool) :
    Action (List Stub.Field) :=
  fieldsOf g o [] [] (visibleMembers (candidates g d ancestors))

end EmmyStubs.Members
