import TableShift.Text.Numeral

/-! # Time stamps

The time of day and the date of the Gregorian calendar, extended to all years.
Stamps count on by seconds, and their written form sorts in order of time.
-/

namespace TableShift

/-- A date and a time of day. -/
structure Stamp where
  year : Int
  month : Nat
  day : Nat
  hour : Nat
  minute : Nat
  second : Nat
  deriving Repr, DecidableEq, BEq

namespace Stamp

/-- Whether a year has a leap day. -/
def isLeap (year : Int) : Bool :=
  year % 4 == 0 && (year % 100 != 0 || year % 400 == 0)

/-- The lengths of the months of a year. -/
def monthLengths (leap : Bool) : List Nat :=
  [31, if leap then 29 else 28, 31, 30, 31, 30, 31, 31, 30, 31, 30, 31]

/-- Days from the first day of year 1 to the first day of a year. -/
def daysBeforeYear (year : Int) : Int :=
  let y := year - 1
  365 * y + y / 4 - y / 100 + y / 400

/-- Days in the first `count` of some months, given their lengths. -/
def daysInMonths : (count : Nat) → List Nat → Nat
  | 0, _ | _, [] => 0
  | count + 1, length :: lengths => length + daysInMonths count lengths

/-- Days from the first day of year 1 to a date. -/
def dayNumber (s : Stamp) : Int :=
  let beforeMonth := daysInMonths (s.month - 1) (monthLengths (isLeap s.year))
  daysBeforeYear s.year + (beforeMonth + (s.day - 1) : Nat)

/-- Seconds from the beginning of year 1. -/
def seconds (s : Stamp) : Int :=
  s.dayNumber * 86400 + (s.hour * 3600 + s.minute * 60 + s.second : Nat)

/-- The year of a day, and the number of days before it in that year. Years come in
    spans of 400, 100, 4 and 1; the last of the four hundreds and of the four years is
    a day longer. -/
def yearOfDay (n : Int) : Int × Nat :=
  let span400 := n / 146097
  let n := (n % 146097).toNat
  let span100 := min (n / 36524) 3
  let n := n - span100 * 36524
  let span4 := n / 1461
  let n := n % 1461
  let span1 := min (n / 365) 3
  (span400 * 400 + (span100 * 100 + span4 * 4 + span1 : Nat) + 1, n - span1 * 365)

/-- The month and the day of the month, given the days before and the lengths of the
    months from `month` on. -/
def monthOfDay (month n : Nat) : List Nat → Nat × Nat
  | [] => (month, n + 1)
  | length :: lengths => if n < length then (month, n + 1) else monthOfDay (month + 1) (n - length) lengths

/-- The stamp at a number of seconds from the beginning of year 1. -/
def ofSeconds (n : Int) : Stamp :=
  let (year, dayOfYear) := yearOfDay (n / 86400)
  let (month, day) := monthOfDay 1 dayOfYear (monthLengths (isLeap year))
  let second := (n % 86400).toNat
  ⟨year, month, day, second / 3600, second / 60 % 60, second % 60⟩

/-- The stamp some seconds later, or earlier if their number is negative. -/
def addSeconds (s : Stamp) (n : Int) : Stamp :=
  ofSeconds (s.seconds + n)

/-- A year in four digits or more; with a sign if it is before 0 or after 9999. -/
def yearText (year : Int) : String :=
  let sign := if year < 0 then "-" else if 9999 < year then "+" else ""
  sign ++ paddedDecimal 4 year.natAbs

/-- The form of a stamp in file names. -/
def text (s : Stamp) : String :=
  yearText s.year ++ "_" ++ paddedDecimal 2 s.month ++ "_" ++ paddedDecimal 2 s.day ++ "_" ++
    paddedDecimal 2 s.hour ++ paddedDecimal 2 s.minute ++ paddedDecimal 2 s.second

end Stamp

end TableShift
