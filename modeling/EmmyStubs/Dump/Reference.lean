import EmmyStubs.Dump.Error
import EmmyStubs.Dump.Identity

/-! # References

    A dump describes some types and refers to many more.  What is not described is an external
    type, and all that is known of it stands in its identity.  `expand` gives the external types
    that a reference brings in: the type itself behind those that it is made of.  An external
    type depends on its identity alone, never on when it was met. -/

namespace EmmyStubs.Dump

open EmmyStubs.Text

/-! ## §1. External types -/

/-- The descriptor of a type of which only the identity is known. -/
def Form.descriptor (form : Form) (id : Identity) : Descriptor :=
  let s := id.toList
  let name := String.ofList (simpleName (shapeOf s))
  let space := spaceOf (shapeOf s)
  let isGeneric := s.contains '\x60'
  match form with
  | .void =>
    { identity := id, name := "Void", space := some "System", kind := .void, isExternal := true }
  | .byRef element =>
    { identity := id, name := String.ofList (simpleName s), kind := .byRef,
      element := some element, isExternal := true }
  | .array element rank =>
    { identity := id
      name := String.ofList (simpleName (shapeOf element.toList) ++ '[' :: rank ++ [']'])
      kind := .array, element := some element, isExternal := true }
  | .named outer =>
    { identity := id, name, space, declaring := outer, isGeneric, isExternal := true }
  | .instantiation outer definition arguments =>
    { identity := id, name, space, declaring := outer, definition := some definition,
      genericArguments := arguments, isGeneric, isExternal := true }

/-- The descriptor of an external type. -/
def external (id : Identity) : Descriptor :=
  (Form.ofIdentity id).descriptor id

/-! ## §2. Expansion -/

/-- The external types that a reference brings in, given the identities that are described; a
    reference that spells no type is the fault of `owner`. -/
def expand (described : List Identity) (owner id : Identity) : Except Error (List Descriptor) :=
  if id = "" then throw ⟨some owner, .invalidReference (.str "")⟩
  else if id ∈ described then return []
  else do
    let frame ← (Form.ofIdentity id).frame.attach.mapM fun x => expand described id x.1
    if "" ∈ (Form.ofIdentity id).arguments then throw ⟨some id, .emptyArgument⟩
    let arguments ← (Form.ofIdentity id).arguments.attach.mapM fun x => expand described id x.1
    return frame.flatten ++ arguments.flatten ++ [external id]
termination_by id.toList.length
decreasing_by
  · exact Form.length_frame_lt x.2
  · exact Form.length_arguments_lt x.2

/-- The descriptors of a list, one for every identity, in the order of first occurrence. -/
def distinct (ds : List Descriptor) : List Descriptor :=
  (ds.foldl (fun acc d => if acc.any (·.identity == d.identity) then acc else d :: acc) []).reverse

end EmmyStubs.Dump
