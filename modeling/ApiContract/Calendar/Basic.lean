/-!
# Calendar dates and clock times

Dates of the Gregorian calendar with years from 1 to 9999, and dates with a time of day and an
optional distance from universal time.
-/

namespace ApiContract

/-- A calendar date. -/
structure Date where
  year : Nat
  month : Nat
  day : Nat
  deriving DecidableEq, Repr, Inhabited

/-- A date with a time of day; `offset` is the distance from universal time in seconds. -/
structure DateTime where
  date : Date
  hour : Nat
  minute : Nat
  second : Nat
  microsecond : Nat
  offset : Option Int
  deriving DecidableEq, Repr, Inhabited

namespace Date

def isLeapYear (year : Nat) : Bool := year % 4 == 0 && (year % 100 != 0 || year % 400 == 0)

/-- The number of days of a month, zero for a month that does not exist. -/
def daysInMonth (year month : Nat) : Nat :=
  match month with
  | 1 | 3 | 5 | 7 | 8 | 10 | 12 => 31
  | 4 | 6 | 9 | 11 => 30
  | 2 => if isLeapYear year then 29 else 28
  | _ => 0

/-- Why three numbers are no date. -/
inductive Defect where
  | year (given : Nat)
  | month
  | day
  deriving DecidableEq

/-- The first of the three numbers that is out of range, if one is. -/
def defect? (year month day : Nat) : Option Defect :=
  if year < 1 ∨ 9999 < year then some (.year year)
  else if month < 1 ∨ 12 < month then some .month
  else if day < 1 ∨ daysInMonth year month < day then some .day
  else none

/-- The date with these three numbers, if it exists. -/
def make? (year month day : Nat) : Option Date :=
  if (defect? year month day).isNone then some ⟨year, month, day⟩ else none

/-- Days from the first of January of year 1, which is day 1. -/
def ordinal (d : Date) : Nat :=
  let y := d.year - 1
  let months := (List.range (d.month - 1)).map fun m => daysInMonth d.year (m + 1)
  y * 365 + y / 4 - y / 100 + y / 400 + months.foldl (· + ·) 0 + d.day

/-- Day of the week, Monday being zero. -/
def weekday (d : Date) : Nat := (d.ordinal + 6) % 7

/-- Whether a year has a 53rd week: weeks begin on Monday and belong to the year of their Thursday. -/
def hasLongYear (year : Nat) : Bool :=
  let first := weekday ⟨year, 1, 1⟩
  first == 3 || (first == 2 && isLeapYear year)

/-- Whether a week number and a day of the week (1 to 7) exist in a year. -/
def isWeekDate (year week day : Nat) : Bool :=
  1 ≤ week && (week ≤ 52 || (week == 53 && hasLongYear year)) && 1 ≤ day && day ≤ 7

/-- The ordinal of the Monday of a year's first week. -/
def firstMonday (year : Nat) : Int :=
  let first : Date := ⟨year, 1, 1⟩
  let monday := (first.ordinal : Int) - first.weekday
  if 3 < first.weekday then monday + 7 else monday

example : weekday ⟨2024, 2, 29⟩ = 3 := by decide +kernel
example : make? 2023 2 29 = none := by decide

end Date

namespace DateTime

/-- Microseconds of the local clock since the first of January of year 1. -/
def localMicroseconds (t : DateTime) : Int :=
  (((t.date.ordinal * 24 + t.hour) * 60 + t.minute) * 60 + t.second : Nat) * 1000000 + t.microsecond

/-- Microseconds of universal time, a time without offset being taken as it stands. -/
def instant (t : DateTime) : Int := t.localMicroseconds - t.offset.getD 0 * 1000000

end DateTime

end ApiContract
