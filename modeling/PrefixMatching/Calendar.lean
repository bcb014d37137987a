/-!
# Dates

The proleptic Gregorian calendar. Days are counted from 1970-01-01, and a date is found from its
day in the cycle of 400 years that begins on the first of March of a year divisible by 400: counted
from March, the leap day is the last day of its year.
-/

namespace PrefixMatching

/-- A date. -/
structure Date where
  year : Int
  month : Nat
  day : Nat
deriving DecidableEq, Repr

namespace Date

/-- Whether a year has a leap day. -/
def isLeap (year : Int) : Bool := year % 4 = 0 && (year % 100 ≠ 0 || year % 400 = 0)

/-- How many days a month has. -/
def daysInMonth (year : Int) : Nat → Nat
  | 2 => if isLeap year then 29 else 28
  | 4 | 6 | 9 | 11 => 30
  | _ => 31

/-- Whether a date is in the calendar. -/
def isValid (date : Date) : Bool :=
  1 ≤ date.month && date.month ≤ 12 && 1 ≤ date.day &&
    date.day ≤ daysInMonth date.year date.month

/-- Days in 400 years. -/
def daysPerCycle : Nat := 146097

/-- Days from the first of March of the year 0 to 1970-01-01. -/
def epochDay : Nat := 719468

/-- The year in its cycle, counted from March, of a day in its cycle: every 4 years, 100 years and
400 years a leap day or its absence shifts the count. -/
def yearOfCycle (day : Nat) : Nat := (day - day / 1460 + day / 36524 - day / 146096) / 365

/-- The day, counted from the first of March, on which a year of a cycle begins. -/
def yearStart (year : Nat) : Nat := 365 * year + year / 4 - year / 100

/-- The month, counted from March, of a day of the year. Five months have 153 days. -/
def monthOfYear (day : Nat) : Nat := (5 * day + 2) / 153

/-- The day of the year on which a month begins, both counted from March. -/
def monthStart (month : Nat) : Nat := (153 * month + 2) / 5

/-- The date so many days after 1970-01-01. -/
def ofDays (days : Int) : Date :=
  let cycle := (days + epochDay) / daysPerCycle
  let dayOfCycle := ((days + epochDay) % daysPerCycle).toNat
  let year := yearOfCycle dayOfCycle
  let dayOfYear := dayOfCycle - yearStart year
  let month := monthOfYear dayOfYear
  let day := dayOfYear - monthStart month + 1
  -- January and February belong to the next year
  if month < 10 then ⟨400 * cycle + year, month + 3, day⟩
  else ⟨400 * cycle + year + 1, month - 9, day⟩

/-- How many days after 1970-01-01 a date is. -/
def toDays (date : Date) : Int :=
  let year := if date.month ≤ 2 then date.year - 1 else date.year
  let month := if date.month ≤ 2 then date.month + 9 else date.month - 3
  let dayOfCycle := yearStart (year % 400).toNat + monthStart month + (date.day - 1)
  daysPerCycle * (year / 400) + dayOfCycle - epochDay

end Date
end PrefixMatching
