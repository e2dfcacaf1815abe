import EmmyStubs.Number.Residue
import EmmyStubs.Value

/-! # The order of sets

    A set does not keep the order in which its members were written.  They are put into a
    table, each at the first free place of a path that its residue lays through the table, and
    read off it from the first place on.  Only numbers and what is empty have residues; a set
    with any other member is kept as it was written. -/

namespace EmmyStubs.Yaml.SetOrder

open EmmyStubs.Number

/-! ## §1. Residues of members -/

/-- The residue of a member, if it has one. -/
def residue? (v : Value) : Option Int :=
  match v with
  | .str "" | .octets [] => some 0
  | _ =>
    match v.numeric? with
    | some (.int n) => some (intResidue n)
    | some (.float x) => x.residue?
    | none => none

/-! ## §2. The table -/

/-- The number of places for `n` members: eight as long as they are few, and else the least
    power of two above twice their number. -/
def places (n : Nat) : Nat :=
  if n < 5 then 8 else Nat.pow 2 (Nat.log2 (2 * n) + 1)

/-- The places that are tried one after another from place `i` on: ten, unless the table ends
    before. -/
def window (size i : Nat) : List Nat :=
  if i + 9 < size then List.range' i 10 else [i]

/-- The first free place of a path that stands at place `i`.  Behind each window the path
    leaps; `rest` is what is left of the residue to make different paths part.  When nothing is
    left the leaps lead to every place, so `fuel` need not exceed the size of the table by more
    than the digits of a residue. -/
def free? (table : Array (Option Value)) : Nat → Nat → Nat → Option Nat
  | 0, _, _ => none
  | fuel + 1, i, rest =>
    match (window table.size i).find? fun j => (table[j]?).join.isNone with
    | some j => some j
    | none => free? table fuel ((5 * i + 1 + rest / 32) % table.size) (rest / 32)

/-- Puts a member into the table. -/
def put (table : Array (Option Value)) (v : Value) (residue : Int) : Array (Option Value) :=
  let start := (residue % Nat.pow 2 64).toNat
  match free? table (table.size + 64) (start % table.size) start with
  | some j => table.setIfInBounds j (some v)
  | none => table

/-- The members of a set in the order in which they are shown. -/
def arrange (members : List Value) : List Value :=
  match members.mapM residue? with
  | none => members
  | some residues =>
    let table := (members.zip residues).foldl (fun t m => put t m.1 m.2)
      (Array.replicate (places members.length) none)
    table.toList.filterMap id

example : (arrange [.bool true, .int 9, .int (-1), .int 3]).map Value.shown
    = ["True", "3", "9", "-1"] := by decide +kernel

end EmmyStubs.Yaml.SetOrder
