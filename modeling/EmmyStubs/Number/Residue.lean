import EmmyStubs.Number.Binary

/-! # Residues of numbers

    A number that is no infinity has a residue modulo the prime `2 ^ 61 - 1`, which keeps its
    sign.  Two is invertible there, so the residue of a ratio with a power of two below is
    defined, and equal numbers have equal residues, whether they were written with a fraction
    or without. -/

namespace EmmyStubs.Number

/-- The modulus, a prime. -/
def residueModulus : Nat := Nat.pow 2 61 - 1

/-- A natural number with a sign as a residue; minus one gives way to minus two. -/
def signedResidue (negative : Bool) (n : Nat) : Int :=
  let r : Int := (n % residueModulus : Nat)
  if !negative then r else if r = 1 then -2 else -r

/-- The residue of an integer. -/
def intResidue (n : Int) : Int :=
  signedResidue (n < 0) n.natAbs

/-- The residue of a value; infinities have one by convention, a non-number has none.  The
    powers of two repeat after 61 steps, so every exponent stands for one from 0 to 60. -/
def Binary.residue? : Binary → Option Int
  | .nan => none
  | .infinite negative => some (if negative then -314159 else 314159)
  | .finite negative m q => some (signedResidue negative (m * Nat.pow 2 (q % 61).toNat))

example : (Binary.ofRatio false 7 1).residue? = some (intResidue 7) := by decide +kernel
example : (Binary.ofRatio true 1 2).residue? = some (-(2 ^ 60)) := by decide +kernel
example : intResidue (-1) = -2 ∧ intResidue (2 ^ 61) = 1 := by decide +kernel

end EmmyStubs.Number
