/-! # The limit on decimal digits

    An integer and its decimal text are turned into one another only up to a number of digits;
    both ways it is an error to ask for more.  Texts in another base have no such limit. -/

namespace EmmyStubs.Number

/-- The number of decimal digits that are read or written. -/
def digitLimit : Nat := 4300

/-- What goes beyond the limit: a text with so many digits, or an integer that is written. -/
inductive Excess where
  | reading (digits : Nat)
  | writing
  deriving DecidableEq, Repr

def Excess.message (e : Excess) : String :=
  "Exceeds the limit (" ++ Nat.repr digitLimit ++ " digits) for integer string conversion"
    ++ (match e with
      | .reading digits => ": value has " ++ Nat.repr digits ++ " digits"
      | .writing => "")
    ++ "; use sys.set_int_max_str_digits() to increase the limit"

/-- Whether an integer has no more digits than are written; its sign does not count.  The bound is
    not to be computed where terms are compared. -/
@[irreducible] def isWritable (n : Int) : Bool :=
  decide (n.natAbs < Nat.pow 10 digitLimit)

/-- The decimal text of an integer, if it is not too long. -/
def decimalText? (n : Int) : Option String :=
  if isWritable n then some (toString n) else none

theorem decimalText?_eq_some_iff {n : Int} {t : String} :
    decimalText? n = some t ↔ isWritable n = true ∧ toString n = t := by
  unfold decimalText?
  split <;> simp_all

theorem decimalText?_eq_none_iff {n : Int} : decimalText? n = none ↔ isWritable n = false := by
  unfold decimalText?
  split <;> simp_all

end EmmyStubs.Number
