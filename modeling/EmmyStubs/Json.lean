import EmmyStubs.Value

/-! # Reading JSON

    A reader takes the characters left and returns a value with what is left after it.  Next
    to standard JSON it accepts the words `NaN`, `Infinity` and `-Infinity`; a number with a
    fraction or an exponent is a float, any other an integer.  Control characters inside
    texts are refused, and so is half of a surrogate pair, which is no character. -/

namespace EmmyStubs.Json

/-- Why a text has no value: it is no JSON, it has an integer with too many digits, or it has
    half of a surrogate pair in it. -/
inductive Fault where
  | malformed
  | excess (digits : Nat)
  | surrogate
  deriving DecidableEq, Repr

/-- A part of the document, and the characters left. -/
abbrev Parsed (α : Type) := α × List Char

/-! ## §1. Blanks and texts -/

/-- Drops the white space that may stand between tokens. -/
def skipBlank (s : List Char) : List Char :=
  s.dropWhile fun c => c == ' ' || c == '\t' || c == '\n' || c == '\r'

/-- The value of a hexadecimal digit. -/
def hexValue? (c : Char) : Option Nat :=
  if '0' ≤ c ∧ c ≤ '9' then some (c.toNat - 48)
  else if 'a' ≤ c ∧ c ≤ 'f' then some (c.toNat - 87)
  else if 'A' ≤ c ∧ c ≤ 'F' then some (c.toNat - 55)
  else none

/-- The number that some hexadecimal digits spell. -/
def hexNumber? (ds : List Char) : Option Nat :=
  ds.foldlM (fun acc c => (hexValue? c).map (16 * acc + ·)) 0

/-- What a one-letter escape stands for. -/
def escape? : Char → Option Char
  | '"' => some '"'
  | '\\' => some '\\'
  | '/' => some '/'
  | 'b' => some '\x08'
  | 'f' => some '\x0c'
  | 'n' => some '\n'
  | 'r' => some '\r'
  | 't' => some '\t'
  | _ => none

/-- The code points and 16-bit units of a text up to its closing quote. -/
def units : List Char → Option (List Nat × List Char)
  | [] => none
  | '"' :: rest => some ([], rest)
  | '\\' :: 'u' :: a :: b :: c :: d :: rest => do
    let n ← hexNumber? [a, b, c, d]
    let (us, rest) ← units rest
    return (n :: us, rest)
  | '\\' :: e :: rest => do
    let c ← escape? e
    let (us, rest) ← units rest
    return (c.toNat :: us, rest)
  | c :: rest =>
    if c.toNat < 0x20 || c == '\\' then none
    else (units rest).map fun (us, rest) => (c.toNat :: us, rest)

/-- Joins surrogate pairs; a surrogate may not stand alone. -/
def joinUnits? : List Nat → Option (List Char)
  | [] => some []
  | h :: l :: rest =>
    if 0xD800 ≤ h ∧ h < 0xDC00 ∧ 0xDC00 ≤ l ∧ l < 0xE000 then
      (joinUnits? rest).map (Char.ofNat (0x10000 + (h - 0xD800) * 0x400 + (l - 0xDC00)) :: ·)
    else if 0xD800 ≤ h ∧ h < 0xE000 then none
    else (joinUnits? (l :: rest)).map (Char.ofNat h :: ·)
  | [h] => if 0xD800 ≤ h ∧ h < 0xE000 then none else some [Char.ofNat h]

/-- A text, its opening quote being read. -/
def text (s : List Char) : Except Fault (Parsed String) :=
  match units s with
  | none => throw .malformed
  | some (us, rest) =>
    match joinUnits? us with
    | some cs => return (String.ofList cs, rest)
    | none => throw .surrogate

/-! ## §2. Numbers -/

def isDigit (c : Char) : Bool :=
  decide ('0' ≤ c) && decide (c ≤ '9')

/-- The number that some decimal digits spell. -/
def decimal (ds : List Char) : Nat :=
  ds.foldl (fun acc c => 10 * acc + (c.toNat - 48)) 0

/-- The digits behind a point, when there are any. -/
def fraction? : List Char → Option (List Char × List Char)
  | '.' :: d :: rest =>
    if isDigit d then some ((d :: rest).takeWhile isDigit, (d :: rest).dropWhile isDigit) else none
  | _ => none

/-- An exponent with digits, when there is one. -/
def exponent? (s : List Char) : Option (Int × List Char) :=
  let digits (sign : Int) (ds : List Char) : Option (Int × List Char) :=
    match ds with
    | d :: _ =>
      if isDigit d then some (sign * decimal (ds.takeWhile isDigit), ds.dropWhile isDigit) else none
    | [] => none
  match s with
  | e :: rest =>
    if e == 'e' || e == 'E' then
      match rest with
      | '-' :: ds => digits (-1) ds
      | '+' :: ds => digits 1 ds
      | ds => digits 1 ds
    else none
  | [] => none

/-- A number from its first digit on.  A zero stands alone in front of the point. -/
def number (negative : Bool) (s : List Char) : Except Fault (Parsed Value) :=
  match s with
  | [] => throw .malformed
  | d :: rest =>
    if !isDigit d then throw .malformed
    else
      let whole := if d == '0' then ['0'] else s.takeWhile isDigit
      let rest := if d == '0' then rest else s.dropWhile isDigit
      let frac := fraction? rest
      let afterFrac := (frac.map (·.2)).getD rest
      let expo := exponent? afterFrac
      let left := (expo.map (·.2)).getD afterFrac
      if frac.isNone && expo.isNone then
        let n : Int := decimal whole
        if Number.digitLimit < whole.length then throw (.excess whole.length)
        else return (.int (if negative then -n else n), left)
      else
        let fracDigits := (frac.map (·.1)).getD []
        let digits := decimal (whole ++ fracDigits)
        let e := (expo.map (·.1)).getD 0 - fracDigits.length
        return (.float (.ofDecimal negative digits e), left)

/-! ## §3. Values -/

/-- Drops a word from the front, when it stands there. -/
def word? (w : String) (s : List Char) : Option (List Char) :=
  if w.toList.isPrefixOf s then some (s.drop w.length) else none

/-- A value that is no list and no map. -/
def scalar (s : List Char) : Except Fault (Parsed Value) :=
  match s with
  | '"' :: rest => (text rest).map fun (t, rest) => (.str t, rest)
  | '-' :: rest =>
    match word? "Infinity" rest with
    | some rest => return (.float (.infinite true), rest)
    | none => number true rest
  | _ =>
    let named : Option (Value × List Char) :=
      (word? "null" s).map (.null, ·)
      <|> (word? "true" s).map (.bool true, ·)
      <|> (word? "false" s).map (.bool false, ·)
      <|> (word? "NaN" s).map (.float .nan, ·)
      <|> (word? "Infinity" s).map (.float (.infinite false), ·)
    match named with
    | some v => return v
    | none => number false s

mutual
/-- A value; `fuel` bounds the nesting and the number of parts, and twice the length of the
    text is enough. -/
def value : Nat → List Char → Except Fault (Parsed Value)
  | 0, _ => throw .malformed
  | fuel + 1, s =>
    match s with
    | '[' :: rest =>
      match skipBlank rest with
      | ']' :: rest => return (.list [], rest)
      | rest => (items fuel rest).map fun (vs, rest) => (.list vs, rest)
    | '{' :: rest =>
      match skipBlank rest with
      | '}' :: rest => return (.map [], rest)
      | rest => (members fuel rest).map fun (es, rest) => (.ofEntries es, rest)
    | s => scalar s

/-- The values of a list from the first one to the closing bracket. -/
def items : Nat → List Char → Except Fault (Parsed (List Value))
  | 0, _ => throw .malformed
  | fuel + 1, s => do
    let (v, rest) ← value fuel s
    match skipBlank rest with
    | ']' :: rest => return ([v], rest)
    | ',' :: rest => (items fuel (skipBlank rest)).map fun (vs, rest) => (v :: vs, rest)
    | _ => throw .malformed

/-- The entries of a map from the first one to the closing brace. -/
def members : Nat → List Char → Except Fault (Parsed (List (Value × Value)))
  | 0, _ => throw .malformed
  | fuel + 1, s => do
    match s with
    | '"' :: rest =>
      let (k, rest) ← text rest
      match skipBlank rest with
      | ':' :: rest =>
        let (v, rest) ← value fuel (skipBlank rest)
        match skipBlank rest with
        | '}' :: rest => return ([(.str k, v)], rest)
        | ',' :: rest =>
          (members fuel (skipBlank rest)).map fun (es, rest) => ((.str k, v) :: es, rest)
        | _ => throw .malformed
      | _ => throw .malformed
    | _ => throw .malformed
end

/-- The value that a whole text spells; nothing but white space may stand around it. -/
def read (s : String) : Except Fault Value := do
  let cs := s.toList
  let (v, rest) ← value (2 * cs.length + 2) (skipBlank cs)
  if (skipBlank rest).isEmpty then return v else throw .malformed

end EmmyStubs.Json
