/-!
# Baseboard.Calendar

Seconds since 1970-01-01T00:00:00Z as a date and time of the proleptic
Gregorian calendar in UTC, where every day has 86400 seconds.

Years and months are found by taking whole years, then whole months, off a
count of days.
-/

namespace Baseboard

/-! ## Days, months and years -/

/-- Every fourth year is a leap year, except for the centuries that 400 does
not divide. -/
def isLeapYear (year : Nat) : Bool :=
  year % 4 == 0 && (year % 100 != 0 || year % 400 == 0)

/-- The days of a year. -/
def yearLength (year : Nat) : Nat := if isLeapYear year then 366 else 365

/-- The days of the months of a year, January first. -/
def monthLengths (year : Nat) : List Nat :=
  [31, if isLeapYear year then 29 else 28, 31, 30, 31, 30, 31, 31, 30, 31, 30, 31]

theorem yearLength_pos (year : Nat) : 0 < yearLength year := by
  unfold yearLength
  split <;> decide

/-- The year that holds the day `days` days after the start of `year`, and how
many days of it are past. -/
def yearOfDay (year days : Nat) : Nat × Nat :=
  if days < yearLength year then (year, days)
  else yearOfDay (year + 1) (days - yearLength year)
termination_by days
decreasing_by
  have := yearLength_pos year
  omega

/-- The month, counted on from `month`, that holds the day `days` days after the
start of the first of the months listed, and how many days of it are past. -/
def monthOfDay (month : Nat) : List Nat → Nat → Nat × Nat
  | [], days => (month, days)
  | length :: rest, days =>
    if days < length then (month, days) else monthOfDay (month + 1) rest (days - length)

/-- A date and time of day.  Months and days count from 1. -/
structure DateTime where
  year : Nat
  month : Nat
  day : Nat
  hour : Nat
  minute : Nat
  second : Nat
  deriving DecidableEq, Repr

/-- The decimal digits of `n` below `10 ^ width`, with leading zeros. -/
def decimal : Nat → Nat → List Char
  | 0, _ => []
  | width + 1, n => decimal width (n / 10) ++ [Char.ofNat (0x30 + n % 10)]

namespace DateTime

/-- The date and time `seconds` after the start of 1970. -/
def ofUnix (seconds : Nat) : DateTime :=
  let (year, dayOfYear) := yearOfDay 1970 (seconds / 86400)
  let (month, dayOfMonth) := monthOfDay 1 (monthLengths year) dayOfYear
  { year, month, day := dayOfMonth + 1,
    hour := seconds % 86400 / 3600, minute := seconds % 3600 / 60, second := seconds % 60 }

/-- The characters of `YYYY-MM-DD HH:MM:SS`, for years of four digits. -/
def chars (t : DateTime) : List Char :=
  decimal 4 t.year ++ '-' :: decimal 2 t.month ++ '-' :: decimal 2 t.day ++
    ' ' :: decimal 2 t.hour ++ ':' :: decimal 2 t.minute ++ ':' :: decimal 2 t.second

/-- The text `YYYY-MM-DD HH:MM:SS`. -/
def text (t : DateTime) : String := String.ofList t.chars

end DateTime

end Baseboard
