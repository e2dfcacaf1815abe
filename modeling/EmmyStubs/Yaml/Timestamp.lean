import EmmyStubs.Json

/-! # Timestamps

    A timestamp is a day, or a day with a time behind a letter or blanks, and behind that
    perhaps a fraction of the second and the distance to universal time.  Month, day and hours
    may have one digit. -/

namespace EmmyStubs.Yaml

/-! ## §1. Parts -/

/-- The time of day in a timestamp; `offset` is in minutes. -/
structure Timestamp.Time where
  hour : Nat
  minute : Nat
  second : Nat
  micro : Nat
  offset : Option Int
  deriving DecidableEq, Repr

/-- The parts of a timestamp, in range or not; `full` tells whether month and day have both
    of their digits. -/
structure Timestamp where
  year : Nat
  month : Nat
  day : Nat
  full : Bool
  time : Option Timestamp.Time
  deriving DecidableEq, Repr

namespace Timestamp

/-! ## §2. Reading -/

/-- A number of at least `least` and at most `most` digits, and what follows. -/
def digits? (least most : Nat) (s : List Char) : Option (List Char × List Char) :=
  let ds := (s.take most).takeWhile Json.isDigit
  if least ≤ ds.length then some (ds, s.drop ds.length) else none

/-- What follows a character, where it stands. -/
def behind? (c : Char) : List Char → Option (List Char)
  | d :: rest => if c = d then some rest else none
  | [] => none

def isSpace (c : Char) : Bool :=
  c == ' ' || c == '\t'

/-- The microseconds that the digits behind a point spell; those beyond the sixth are cut
    off. -/
def microsOf (ds : List Char) : Nat :=
  Json.decimal ((ds ++ List.replicate 6 '0').take 6)

/-- The distance to universal time that ends a timestamp. -/
def offset? (s : List Char) : Option (Option Int) :=
  if s.isEmpty then some none
  else
    match s.dropWhile isSpace with
    | ['Z'] => some (some 0)
    | sign :: rest =>
      if sign = '+' ∨ sign = '-' then do
        let (hour, rest) ← digits? 1 2 rest
        let minute ← match rest with
          | [] => some []
          | ':' :: rest => do
            let (minute, rest) ← digits? 2 2 rest
            if rest.isEmpty then some minute else none
          | _ => none
        let span : Int := 60 * Json.decimal hour + Json.decimal minute
        return some (if sign = '-' then -span else span)
      else none
    | [] => none

/-- The time that follows a day. -/
def time? (s : List Char) : Option Time := do
  let rest ← match s with
    | c :: rest =>
      if c = 'T' ∨ c = 't' then some rest
      else if isSpace c then some (rest.dropWhile isSpace)
      else none
    | [] => none
  let (hour, rest) ← digits? 1 2 rest
  let (minute, rest) ← digits? 2 2 (← behind? ':' rest)
  let (second, rest) ← digits? 2 2 (← behind? ':' rest)
  let (fraction, rest) := match rest with
    | '.' :: rest => rest.span Json.isDigit
    | rest => ([], rest)
  let offset ← offset? rest
  return ⟨Json.decimal hour, Json.decimal minute, Json.decimal second, microsOf fraction, offset⟩

/-- The timestamp that a text spells. -/
def ofChars? (s : List Char) : Option Timestamp := do
  let (year, rest) ← digits? 4 4 s
  let (month, rest) ← digits? 1 2 (← behind? '-' rest)
  let (day, rest) ← digits? 1 2 (← behind? '-' rest)
  let time ← if rest.isEmpty then some none else (time? rest).map some
  return ⟨Json.decimal year, Json.decimal month, Json.decimal day,
    month.length == 2 && day.length == 2, time⟩

/-- Whether a timestamp is known as one without a tag. -/
def isPlain (t : Timestamp) : Bool :=
  t.time.isSome || t.full

/-! ## §3. Values -/

/-- The day or moment that a timestamp names.  The distance to universal time is checked first,
    then the day, then the time of day. -/
def value (t : Timestamp) : Except Calendar.Fault Value :=
  match t.time with
  | none => Value.date <$> Calendar.Date.check t.year t.month t.day
  | some time => do
    let offset ← time.offset.mapM Calendar.checkOffset
    let date ← Calendar.Date.check t.year t.month t.day
    let clock ← Calendar.Clock.check time.hour time.minute time.second time.micro
    return .moment ⟨date, clock, offset⟩

example : (ofChars? "2001-12-14t21:59:43.10-05:00".toList).map (·.time)
    = some (some ⟨21, 59, 43, 100000, some (-300)⟩) := by decide +kernel
example : (ofChars? "2001-1-1".toList).map isPlain = some false := by decide +kernel
example : ofChars? "2001-01-01 1:00".toList = none := by decide +kernel

end Timestamp

end EmmyStubs.Yaml
