/-!
# Days of the calendar

The Gregorian calendar, extended to all years, with days numbered from 1970-01-01. Year 0 comes
before year 1. Dates are kept from the year -262143 to the year 262142.
-/

namespace FormulaSheet.Calendar

/-- A date. Months and days count from 1. -/
structure Date where
  year : Int
  month : Nat
  day : Nat
deriving DecidableEq, Repr

def isLeap (year : Int) : Bool := year % 4 = 0 && (year % 100 != 0 || year % 400 = 0)

def monthLengths (leap : Bool) : List Nat :=
  [31, if leap then 29 else 28, 31, 30, 31, 30, 31, 31, 30, 31, 30, 31]

/-- The number of days from 0000-01-01 to the beginning of a year. -/
def daysBeforeYear (year : Int) : Int :=
  365 * year + (year - 1) / 4 - (year - 1) / 100 + (year - 1) / 400 + 1

/-- The number of 1970-01-01, counted from 0000-01-01. -/
def epochDay : Int := 719528

/-- The days of a year before the first of a month. -/
def daysBeforeMonth (leap : Bool) (month : Nat) : Nat :=
  ((monthLengths leap).take (month - 1)).foldl (· + ·) 0

namespace Date

def yearInRange (year : Int) : Bool := -262143 ≤ year && year ≤ 262142

/-- A day that the calendar has, in a year in which dates are kept. -/
def isValid (d : Date) : Bool :=
  yearInRange d.year && 1 ≤ d.month && 1 ≤ d.day &&
    match (monthLengths (isLeap d.year))[d.month - 1]? with
    | some length => d.day ≤ length
    | none => false

def dayNumber (d : Date) : Int :=
  daysBeforeYear d.year + daysBeforeMonth (isLeap d.year) d.month + (d.day - 1 : Nat) - epochDay

end Date

/-- The year of a day counted from 0000-01-01: an estimate by the mean length of a year is at most
one year off. -/
def yearOf (day : Int) : Int :=
  let guess := day * 400 / 146097
  if day < daysBeforeYear guess then guess - 1
  else if daysBeforeYear (guess + 1) ≤ day then guess + 1
  else guess

/-- The month and the day in it, both from 0, of a day counted from 0 in months of given lengths. -/
def splitMonths : List Nat → Nat → Nat × Nat
  | [], day => (0, day)
  | length :: rest, day =>
    if day < length then (0, day)
    else
      let (month, day) := splitMonths rest (day - length)
      (month + 1, day)

def Date.ofDayNumber (n : Int) : Date :=
  let day := n + epochDay
  let year := yearOf day
  let (month, dayOfMonth) :=
    splitMonths (monthLengths (isLeap year)) (day - daysBeforeYear year).toNat
  ⟨year, month + 1, dayOfMonth + 1⟩

/-- The day of the week of a day number, from Sunday as 0. -/
def weekday (n : Int) : Nat := ((n + 4) % 7).toNat

example : (Date.mk 1970 1 1).dayNumber = 0 ∧ (Date.mk 2000 3 1).dayNumber = 11017 ∧
    (Date.mk 0 1 1).dayNumber = -719528 := by decide +kernel

example : Date.ofDayNumber 11016 = ⟨2000, 2, 29⟩ ∧ Date.ofDayNumber (-1) = ⟨1969, 12, 31⟩ ∧
    Date.ofDayNumber (-719529) = ⟨-1, 12, 31⟩ := by decide +kernel

end FormulaSheet.Calendar
