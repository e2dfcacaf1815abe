import EmmyStubs.Number.Binary

/-! # Shortest decimal text

    A number is written with the fewest decimal digits that read back to it, and of those with
    the nearest.  Digits are selected by exact comparison with the two ends of the interval of
    reals that round to the number; §3 fixes how they are laid out. -/

namespace EmmyStubs.Number

/-! ## §1. The interval -/

/-- A decimal, `digits · 10 ^ exponent`. -/
structure Decimal where
  digits : Nat
  exponent : Int
  deriving DecidableEq, Repr

/-- Compares `a · 10 ^ i` with `n · 2 ^ j`. -/
def compareScaled (a : Nat) (i : Int) (n : Nat) (j : Int) : Ordering :=
  compare (a * Nat.pow 10 i.toNat * Nat.pow 2 (-j).toNat)
    (n * Nat.pow 2 j.toNat * Nat.pow 10 (-i).toNat)

/-- Whether a decimal lies among the reals that round to `m · 2 ^ q`: from halfway to the
    neighbour below to halfway to the neighbour above, ends included when `m` is even.  Below
    a power of two the neighbour is half as far. -/
def Decimal.readsBack (d : Decimal) (m : Nat) (q : Int) : Bool :=
  let narrow := m = Nat.pow 2 52 ∧ Binary.minExponent < q
  let low := if narrow then 4 * m - 1 else 4 * m - 2
  let atLow := compareScaled d.digits d.exponent low (q - 2)
  let atHigh := compareScaled d.digits d.exponent (4 * m + 2) (q - 2)
  let even := m % 2 == 0
  (atLow == .gt || (even && atLow == .eq)) && (atHigh == .lt || (even && atHigh == .eq))

/-! ## §2. Selection -/

/-- The least `k` with `m · 2 ^ q < 10 ^ k`, found upwards from a low estimate. -/
def leastPower (m : Nat) (q : Int) : Int :=
  let estimate := ((m.log2 : Int) + q) * 30103 / 100000 - 1
  match (List.range 4).find? fun (i : Nat) => compareScaled 1 (estimate + i) m q == .gt with
  | some i => estimate + i
  | none => estimate + 4

/-- The decimal nearest to `m · 2 ^ q` among those that read back to it and have `n` digits
    below `10 ^ k`; of two equally near ones the one with the even last digit. -/
def nearestWith (m : Nat) (q k : Int) (n : Nat) : Option Decimal :=
  let e := k - n
  let num := m * Nat.pow 2 q.toNat * Nat.pow 10 (-e).toNat
  let den := Nat.pow 2 (-q).toNat * Nat.pow 10 e.toNat
  let below : Decimal := ⟨num / den, e⟩
  let above : Decimal := ⟨num / den + 1, e⟩
  match below.readsBack m q, above.readsBack m q with
  | true, true => some ⟨Binary.roundDiv num den, e⟩
  | true, false => some below
  | false, true => some above
  | false, false => none

/-- Moves trailing zeros of the digits into the exponent, at most `fuel` of them. -/
def dropZeros : Nat → Decimal → Decimal
  | 0, d => d
  | fuel + 1, d =>
    if d.digits ≠ 0 ∧ d.digits % 10 = 0 then dropZeros fuel ⟨d.digits / 10, d.exponent + 1⟩ else d

/-- The shortest decimal of `m · 2 ^ q` with `m` positive.  Seventeen digits always suffice;
    the exact value stands behind them. -/
def shortest (m : Nat) (q : Int) : Decimal :=
  let k := leastPower m q
  match (List.range 17).findSome? fun n => nearestWith m q k (n + 1) with
  | some d => dropZeros 20 d
  | none => if 0 ≤ q then ⟨m * Nat.pow 2 q.toNat, 0⟩ else ⟨m * Nat.pow 5 (-q).toNat, q⟩

/-! ## §3. Layout -/

/-- The decisions of a number format: which exponents of the leading digit are written
    positionally, the mark of an exponent and its least width, and the special texts. -/
structure Layout where
  plainFrom : Int
  plainBelow : Int
  mark : String
  width : Nat
  nan : String
  infinite : String

/-- Numbers are written positionally from `1e-4` up to below `1e16`, with at least one digit
    behind the point; otherwise with a signed exponent of at least two digits. -/
def layout : Layout where
  plainFrom := -4
  plainBelow := 16
  mark := "e"
  width := 2
  nan := "nan"
  infinite := "inf"

/-- A run of `n` zeros. -/
def zeros (n : Nat) : String :=
  String.ofList (List.replicate n '0')

/-- A decimal laid out as `l` says. -/
def Layout.place (l : Layout) (d : Decimal) : String :=
  let ds := Nat.toDigits 10 d.digits
  let point : Int := ds.length + d.exponent
  if l.plainFrom ≤ point - 1 ∧ point - 1 < l.plainBelow then
    if point ≤ 0 then "0." ++ zeros (-point).toNat ++ String.ofList ds
    else if (ds.length : Int) ≤ point then
      String.ofList ds ++ zeros (point - ds.length).toNat ++ ".0"
    else
      String.ofList (ds.take point.toNat) ++ "." ++ String.ofList (ds.drop point.toNat)
  else
    let lead := String.ofList (ds.take 1)
    let rest := ds.drop 1
    let fraction := if rest.isEmpty then "" else "." ++ String.ofList rest
    let e := Nat.toDigits 10 (point - 1).natAbs
    let sign := if point - 1 < 0 then "-" else "+"
    lead ++ fraction ++ l.mark ++ sign ++ zeros (l.width - e.length) ++ String.ofList e

/-- The text of a number. -/
def Layout.render (l : Layout) : Binary → String
  | .nan => l.nan
  | .infinite s => (if s then "-" else "") ++ l.infinite
  | .finite s m q =>
    let sign := if s then "-" else ""
    if m = 0 then sign ++ "0.0" else sign ++ l.place (shortest m q)

example : layout.place ⟨1, 16⟩ = "1e+16" ∧ layout.place ⟨15, -8⟩ = "1.5e-07" := by decide +kernel
example : shortest 7205759403792794 (-56) = ⟨1, -1⟩ := by decide +kernel

end EmmyStubs.Number
