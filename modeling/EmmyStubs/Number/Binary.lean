/-! # Binary floating-point numbers

    A number with a fraction is held to fifty-three binary digits with exponents from -1074
    to 971.  Every operation computes the exact result as a ratio of naturals and rounds it
    once, to nearest with ties to even. -/

namespace EmmyStubs.Number

/-! ## §1. Values -/

/-- Not a number, an infinity, or `±mantissa · 2 ^ exponent`.  A rounded finite value has a
    mantissa below `2 ^ 53`, and one below `2 ^ 52` only with the least exponent. -/
inductive Binary where
  | nan
  | infinite (negative : Bool)
  | finite (negative : Bool) (mantissa : Nat) (exponent : Int)
  deriving DecidableEq, Repr

namespace Binary

/-- The least exponent of a finite value. -/
def minExponent : Int := -1074

/-- The greatest exponent of a finite value. -/
def maxExponent : Int := 971

def zero (negative : Bool) : Binary :=
  .finite negative 0 minExponent

/-- Whether the value is zero of either sign. -/
def isZero : Binary → Bool
  | .finite _ m _ => m == 0
  | _ => false

/-- The value with its sign turned. -/
def neg : Binary → Binary
  | .nan => .nan
  | .infinite s => .infinite (!s)
  | .finite s m q => .finite (!s) m q

/-! ## §2. Rounding -/

/-- The natural number nearest to `num / den`; of two the even one. -/
def roundDiv (num den : Nat) : Nat :=
  let q := num / den
  let r := num % den
  if 2 * r < den then q
  else if den < 2 * r then q + 1
  else if q % 2 = 0 then q else q + 1

/-- The numerator and denominator of `num / den / 2 ^ q`. -/
def scaled (num den : Nat) (q : Int) : Nat × Nat :=
  (num * Nat.pow 2 (-q).toNat, den * Nat.pow 2 q.toNat)

/-- The value nearest to `num / den`. -/
def ofRatio (negative : Bool) (num den : Nat) : Binary :=
  if num = 0 then zero negative
  else
    let low : Int := (num.log2 : Int) - (den.log2 : Int) - 53
    let wide := scaled num den low
    let q := max minExponent (if wide.1 / wide.2 < Nat.pow 2 53 then low else low + 1)
    let fit := scaled num den q
    let m := roundDiv fit.1 fit.2
    let (m, q) := if m = Nat.pow 2 53 then (Nat.pow 2 52, q + 1) else (m, q)
    if maxExponent < q then .infinite negative else .finite negative m q

/-- The value nearest to `digits · 10 ^ exponent`.  Powers of ten far outside the range are
    not computed. -/
def ofDecimal (negative : Bool) (digits : Nat) (exponent : Int) : Binary :=
  if digits = 0 then zero negative
  else if 400 < exponent then .infinite negative
  else if (digits.log2 : Int) + 400 < -exponent then zero negative
  else ofRatio negative (digits * Nat.pow 10 exponent.toNat) (Nat.pow 10 (-exponent).toNat)

/-! ## §3. Arithmetic -/

/-- Whether the sign of the value is a minus, that of a zero included. -/
def isNegative : Binary → Bool
  | .nan => false
  | .infinite s => s
  | .finite s _ _ => s

/-- The exact ratio of a finite value without its sign. -/
def ratio (m : Nat) (q : Int) : Nat × Nat :=
  (m * Nat.pow 2 q.toNat, Nat.pow 2 (-q).toNat)

/-- The product of two values, rounded once. -/
def mul : Binary → Binary → Binary
  | .finite s m q, .finite s' m' q' =>
    let (a, b) := ratio m q
    let (c, d) := ratio m' q'
    ofRatio (s != s') (a * c) (b * d)
  | .nan, _ | _, .nan => .nan
  | x, y => if x.isZero || y.isZero then .nan else .infinite (x.isNegative != y.isNegative)

/-- The sum of two values, rounded once.  Opposite values add up to the zero without a
    minus. -/
def add : Binary → Binary → Binary
  | .finite s m q, .finite s' m' q' =>
    let (a, b) := ratio m q
    let (c, d) := ratio m' q'
    let sum := (if s then -1 else 1) * ((a * d : Nat) : Int)
      + (if s' then -1 else 1) * ((c * b : Nat) : Int)
    if sum = 0 then zero (s && s') else ofRatio (sum < 0) sum.natAbs (b * d)
  | .nan, _ | _, .nan => .nan
  | .infinite s, .infinite s' => if s = s' then .infinite s else .nan
  | .infinite s, _ | _, .infinite s => .infinite s

/-! ## §4. Comparison with integers -/

/-- The integer that a value is equal to, if any. -/
def toInt? : Binary → Option Int
  | .finite s m q =>
    let (a, b) := ratio m q
    if a % b = 0 then some (if s then -((a / b : Nat) : Int) else ((a / b : Nat) : Int)) else none
  | _ => none

/-- Whether two values denote the same number; the two zeros do, and so do two non-numbers. -/
def same : Binary → Binary → Bool
  | .nan, .nan => true
  | .infinite s, .infinite s' => s == s'
  | .finite s m q, .finite s' m' q' => (m == 0 && m' == 0) || (s == s' && m == m' && q == q')
  | _, _ => false

example : ofDecimal false 1 (-1) = .finite false 7205759403792794 (-56) := by decide +kernel
example : ofDecimal true 15 (-1) = .finite true (3 * 2 ^ 51) (-52) := by decide +kernel
example : ofDecimal false 17976931348623159 292 = .infinite false := by decide +kernel
example : ofDecimal false 5 (-324) = .finite false 1 (-1074) := by decide +kernel

end Binary

end EmmyStubs.Number
