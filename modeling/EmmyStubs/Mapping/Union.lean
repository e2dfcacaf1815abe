import EmmyStubs.Lua
import EmmyStubs.Stub.Basic

/-! # Unions of type expressions

    A type without a name of its own is described by alternatives: each text once, in the
    order in which it was added. -/

namespace EmmyStubs

/-- The alternatives of a union; their texts differ. -/
structure Union where
  parts : List TypeExpr
  deriving DecidableEq, Repr

namespace Union

def empty : Union :=
  ⟨[]⟩

/-- Adds an alternative unless its text is there. -/
def add (u : Union) (t : TypeExpr) : Union :=
  if u.parts.any (·.text == t.text) then u else ⟨u.parts ++ [t]⟩

def addAll (u : Union) (ts : List TypeExpr) : Union :=
  ts.foldl add u

def size (u : Union) : Nat :=
  u.parts.length

/-- The expression of a union: the only alternative, or all of them between bars. -/
def toExpr (u : Union) : TypeExpr :=
  match u.parts with
  | [] => ⟨Lua.userdata, false⟩
  | [t] => t
  | ts => ⟨" | ".intercalate (ts.map (·.render true)), true⟩

end Union

end EmmyStubs
