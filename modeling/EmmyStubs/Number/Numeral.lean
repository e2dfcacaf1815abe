import EmmyStubs.Number.Binary
import EmmyStubs.Number.Limit
import EmmyStubs.Text.Blank
import EmmyStubs.Text.DecimalDigit

/-! # Numbers read from text

    A number may be surrounded by blanks other than separators and signed, and its digits may
    be of any script.  §1 integers in a base, whose digits may be grouped by single
    underscores, and of which there is a limit in base ten; §2 numbers with a point or an
    exponent, and the words for infinity and for no number at all. -/

namespace EmmyStubs.Number

open EmmyStubs.Text

/-! ## §1. Integers -/

/-- The value of a letter as a digit of base sixteen. -/
def letterValue? (c : Char) : Option Nat :=
  if 'a' ≤ c ∧ c ≤ 'f' then some (c.toNat - 87)
  else if 'A' ≤ c ∧ c ≤ 'F' then some (c.toNat - 55)
  else none

/-- The value of a digit of a base up to sixteen. -/
def digitIn? (base : Nat) (c : Char) : Option Nat :=
  (digitValue? c <|> letterValue? c).filter (· < base)

/-- The value of digits with single underscores between them, `acc` being what was read and
    `afterDigit` telling whether a digit stands right before. -/
def digitsValue? (base acc : Nat) (afterDigit : Bool) : List Char → Option Nat
  | [] => if afterDigit then some acc else none
  | c :: cs =>
    if c = '_' then if afterDigit then digitsValue? base acc false cs else none
    else (digitIn? base c).bind fun d => digitsValue? base (base * acc + d) true cs

/-- A blank that may surround a number; the information separators may not. -/
def isPadding (c : Char) : Bool :=
  isBlank c && !(0x1C ≤ c.toNat && c.toNat ≤ 0x1F)

/-- A sign in front of a number, and what is left. -/
def splitSign : List Char → Bool × List Char
  | '-' :: rest => (true, rest)
  | '+' :: rest => (false, rest)
  | rest => (false, rest)

/-- The letter that may stand behind a zero to announce a base. -/
def announces (base : Nat) (c : Char) : Bool :=
  match base with
  | 2 => c == 'b' || c == 'B'
  | 8 => c == 'o' || c == 'O'
  | 16 => c == 'x' || c == 'X'
  | _ => false

/-- Digits without the announcement of their base, which an underscore may follow. -/
def dropAnnouncement (base : Nat) : List Char → List Char
  | z :: c :: ds =>
    if digitValue? z = some 0 ∧ announces base c then
      match ds with
      | '_' :: ds => ds
      | ds => ds
    else z :: c :: ds
  | ds => ds

/-- The number of digits up to the first character that is neither a digit nor an underscore;
    `none` where an underscore does not stand between two digits. -/
def digitCount? (base : Nat) (afterDigit : Bool) : List Char → Option Nat
  | [] => if afterDigit then some 0 else none
  | c :: cs =>
    if c = '_' then if afterDigit then digitCount? base false cs else none
    else if (digitIn? base c).isSome then (digitCount? base true cs).map (· + 1)
    else if afterDigit then some 0 else none

/-- Why a text gives no integer: it spells none, or it begins with more decimal digits than are
    read. -/
inductive Unread where
  | malformed
  | excess (digits : Nat)
  deriving DecidableEq, Repr

/-- The integer that a text spells in a base.  Decimal digits are counted before it is looked at
    what follows them. -/
def integerIn (base : Nat) (s : List Char) : Except Unread Int :=
  let (negative, ds) := splitSign (trim isPadding s)
  let ds := dropAnnouncement base ds
  let count := (digitCount? base false ds).getD 0
  if base = 10 ∧ digitLimit < count then .error (.excess count)
  else
    match digitsValue? base 0 false ds with
    | some n => .ok (if negative then -(n : Int) else n)
    | none => .error .malformed

/-- The decimal integer that a text spells, if any. -/
def integer? (s : String) : Option Int :=
  (integerIn 10 s.toList).toOption

example : integer? " -1_0 " = some (-10) ∧ integer? "1__0" = none ∧ integer? "٣" = some 3 := by
  decide +kernel
example : (integerIn 16 "0x_1F".toList).toOption = some 31
    ∧ (integerIn 8 "08".toList).toOption = none := by
  decide +kernel

/-! ## §2. Numbers with a fraction -/

/-- A decimal digit of any script as the digit of the same value from `0` to `9`. -/
def plainDigit (c : Char) : Char :=
  match digitValue? c with
  | some d => Char.ofNat (48 + d)
  | none => c

/-- The number that some digits from `0` to `9` spell. -/
def decimalValue (ds : List Char) : Nat :=
  ds.foldl (fun acc c => 10 * acc + (c.toNat - 48)) 0

/-- A whole exponent with its mark; nothing is exponent zero. -/
def exponentOf? : List Char → Option Int
  | [] => some 0
  | e :: rest =>
    let (negative, ds) := splitSign rest
    if (e == 'e' || e == 'E') && !ds.isEmpty && ds.all Char.isDigit then
      some ((if negative then -1 else 1) * decimalValue ds)
    else none

/-- The number that a text spells with digits, at most one point among them, and perhaps an
    exponent, or with a word. -/
def float? (s : List Char) : Option Binary :=
  let (negative, t) := splitSign ((trim isPadding s).map plainDigit)
  let word := String.ofList (t.map Char.toLower)
  if word = "inf" ∨ word = "infinity" then some (.infinite negative)
  else if word = "nan" then some .nan
  else
    let (whole, rest) := t.span Char.isDigit
    let (fraction, rest) : List Char × List Char := match rest with
      | '.' :: rest => rest.span Char.isDigit
      | rest => ([], rest)
    if (whole ++ fraction).isEmpty then none
    else
      (exponentOf? rest).map fun e =>
        .ofDecimal negative (decimalValue (whole ++ fraction)) (e - fraction.length)

example : float? " 1.5e0 ".toList = some (.finite false (3 * 2 ^ 51) (-52)) := by decide +kernel
example : float? ".".toList = none ∧ float? "1e".toList = none ∧ float? "-Inf".toList =
    some (.infinite true) := by decide +kernel

end EmmyStubs.Number
