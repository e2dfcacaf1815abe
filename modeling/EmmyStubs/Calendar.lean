/-! # Dates and times of day

    A day of the proleptic Gregorian calendar from year one to year 9999, and a time on such a
    day, whose distance to universal time may be known.  §2 checks the parts and names the
    first that is out of range; §4 has the two texts, the one shown inside messages and the
    plain one. -/

namespace EmmyStubs.Calendar

/-! ## §1. Values -/

structure Date where
  year : Nat
  month : Nat
  day : Nat
  deriving DecidableEq, Repr

structure Clock where
  hour : Nat
  minute : Nat
  second : Nat
  micro : Nat
  deriving DecidableEq, Repr

/-- A time on a day; `offset` tells how many minutes the clock is ahead of universal time. -/
structure Moment where
  date : Date
  clock : Clock
  offset : Option Int
  deriving DecidableEq, Repr

/-! ## §2. Ranges -/

/-- The part that is out of its range. -/
inductive Fault where
  | year (given : Nat)
  | month
  | day
  | hour
  | minute
  | second
  | offset (minutes : Int)
  deriving DecidableEq, Repr

def isLeap (year : Nat) : Bool :=
  year % 4 == 0 && (year % 100 != 0 || year % 400 == 0)

def daysIn (year month : Nat) : Nat :=
  if month = 2 then if isLeap year then 29 else 28
  else if month ∈ [4, 6, 9, 11] then 30
  else 31

/-- The day with these parts. -/
def Date.check (year month day : Nat) : Except Fault Date :=
  if year < 1 ∨ 9999 < year then throw (.year year)
  else if month < 1 ∨ 12 < month then throw .month
  else if day < 1 ∨ daysIn year month < day then throw .day
  else return ⟨year, month, day⟩

/-- The time of day with these parts. -/
def Clock.check (hour minute second micro : Nat) : Except Fault Clock :=
  if 23 < hour then throw .hour
  else if 59 < minute then throw .minute
  else if 59 < second then throw .second
  else return ⟨hour, minute, second, micro⟩

/-- A distance to universal time of less than a day. -/
def checkOffset (minutes : Int) : Except Fault Int :=
  if minutes.natAbs < 1440 then return minutes else throw (.offset minutes)

/-! ## §3. Order -/

/-- The number of days before a year. -/
def daysBeforeYear (year : Nat) : Nat :=
  let y := year - 1
  365 * y + y / 4 - y / 100 + y / 400

/-- The number of days before a date, from the first day of year one on. -/
def Date.daysBefore (d : Date) : Nat :=
  let months := (List.range d.month).drop 1
  daysBeforeYear d.year + months.foldl (fun days m => days + daysIn d.year m) 0 + (d.day - 1)

/-- The microseconds of a day before a time of day. -/
def Clock.micros (c : Clock) : Nat :=
  ((c.hour * 60 + c.minute) * 60 + c.second) * 1000000 + c.micro

/-- The microseconds from the start of year one up to a moment, as its own clock counts. -/
def Moment.micros (m : Moment) : Int :=
  (m.date.daysBefore * 86400000000 + m.clock.micros : Nat)

/-- Whether two moments are one.  With known distances to universal time they are compared
    there; one with and one without differ. -/
def Moment.same (m n : Moment) : Bool :=
  match m.offset, n.offset with
  | none, none => m.micros == n.micros
  | some a, some b => m.micros - a * 60000000 == n.micros - b * 60000000
  | _, _ => false

/-! ## §4. Texts -/

/-- A number with at least `width` digits. -/
def padded (width n : Nat) : String :=
  let ds := Nat.toDigits 10 n
  String.ofList (List.replicate (width - ds.length) '0' ++ ds)

/-- A span of minutes as shown inside messages: whole days, then seconds of a day. -/
def spanShown (minutes : Int) : String :=
  let days := minutes / 1440
  let seconds := minutes % 1440 * 60
  let parts := (if days = 0 then [] else ["days=" ++ toString days])
    ++ (if seconds = 0 then [] else ["seconds=" ++ toString seconds])
  "datetime.timedelta(" ++ (if parts.isEmpty then "0" else ", ".intercalate parts) ++ ")"

def Fault.message : Fault → String
  | .year n => "year " ++ Nat.repr n ++ " is out of range"
  | .month => "month must be in 1..12"
  | .day => "day is out of range for month"
  | .hour => "hour must be in 0..23"
  | .minute => "minute must be in 0..59"
  | .second => "second must be in 0..59"
  | .offset minutes =>
    "offset must be a timedelta strictly between -timedelta(hours=24) and timedelta(hours=24), "
      ++ "not " ++ spanShown minutes ++ "."

def offsetShown (minutes : Int) : String :=
  if minutes = 0 then "datetime.timezone.utc"
  else "datetime.timezone(" ++ spanShown minutes ++ ")"

def Date.shown (d : Date) : String :=
  "datetime.date(" ++ ", ".intercalate ([d.year, d.month, d.day].map Nat.repr) ++ ")"

/-- The seconds are left out when they and the microseconds are zero, the microseconds when
    they are. -/
def Moment.shown (m : Moment) : String :=
  let c := m.clock
  let fine :=
    if c.micro ≠ 0 then [c.second, c.micro] else if c.second ≠ 0 then [c.second] else []
  let parts := [m.date.year, m.date.month, m.date.day, c.hour, c.minute] ++ fine
  let offset := match m.offset with
    | some minutes => ", tzinfo=" ++ offsetShown minutes
    | none => ""
  "datetime.datetime(" ++ ", ".intercalate (parts.map Nat.repr) ++ offset ++ ")"

def Date.text (d : Date) : String :=
  padded 4 d.year ++ "-" ++ padded 2 d.month ++ "-" ++ padded 2 d.day

/-- The hours and minutes of a distance to universal time, with its sign. -/
def offsetText (minutes : Int) : String :=
  (if minutes < 0 then "-" else "+") ++ padded 2 (minutes.natAbs / 60) ++ ":"
    ++ padded 2 (minutes.natAbs % 60)

def Moment.text (m : Moment) : String :=
  let c := m.clock
  m.date.text ++ " " ++ padded 2 c.hour ++ ":" ++ padded 2 c.minute ++ ":" ++ padded 2 c.second
    ++ (if c.micro = 0 then "" else "." ++ padded 6 c.micro)
    ++ ((m.offset.map offsetText).getD "")

example : Moment.shown ⟨⟨2001, 12, 14⟩, ⟨21, 59, 0, 5⟩, some (-300)⟩
    = "datetime.datetime(2001, 12, 14, 21, 59, 0, 5, "
      ++ "tzinfo=datetime.timezone(datetime.timedelta(days=-1, seconds=68400)))" := by
  decide +kernel
example : Moment.text ⟨⟨2001, 2, 3⟩, ⟨4, 5, 6, 0⟩, some 0⟩ = "2001-02-03 04:05:06+00:00" := by
  decide +kernel
example : Moment.same ⟨⟨2001, 1, 1⟩, ⟨0, 30, 0, 0⟩, some 60⟩
    ⟨⟨2000, 12, 31⟩, ⟨23, 30, 0, 0⟩, some 0⟩ = true := by
  decide +kernel

end EmmyStubs.Calendar
