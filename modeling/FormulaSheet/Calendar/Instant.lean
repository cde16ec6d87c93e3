import FormulaSheet.Calendar.Day
import FormulaSheet.Decimal.Layout

/-!
# Instants

An instant is a number of milliseconds since 1970-01-01T00:00:00Z. All dates and times of day are
those of UTC, so that no result depends on where it is computed.
-/

namespace FormulaSheet.Calendar

def dayMillis : Int := 86400000

/-- A date and a time of day, which may have a second 60. -/
structure DateTime where
  date : Date
  hour : Nat
  minute : Nat
  second : Nat
  millisecond : Nat
deriving DecidableEq, Repr

namespace DateTime

/-- A date of the calendar and a time that a clock shows. -/
def isValid (t : DateTime) : Bool :=
  t.date.isValid && t.hour ≤ 23 && t.minute ≤ 59 && t.second ≤ 60

def instant (t : DateTime) : Int :=
  t.date.dayNumber * dayMillis +
    (((t.hour * 60 + t.minute) * 60 + t.second) * 1000 + t.millisecond : Nat)

def ofInstant (ms : Int) : DateTime :=
  let time := (ms % dayMillis).toNat
  { date := Date.ofDayNumber (ms / dayMillis)
    hour := time / 3600000
    minute := time / 60000 % 60
    second := time / 1000 % 60
    millisecond := time % 1000 }

/-- The date and time of an instant, in the years in which dates are kept. -/
def ofInstant? (ms : Int) : Option DateTime :=
  let t := ofInstant ms
  if Date.yearInRange t.date.year then some t else none

end DateTime

/-! ### Texts -/

/-- A number with zeros before it up to a width. -/
def padded (width n : Nat) : String :=
  let ds := Nat.toDigits 10 n
  String.ofList (List.replicate (width - ds.length) '0' ++ ds)

/-- A year in four digits, or with a sign outside of 0 to 9999. -/
def yearText (year : Int) : String :=
  if 0 ≤ year ∧ year ≤ 9999 then padded 4 year.toNat
  else (if year < 0 then "-" else "+") ++ padded 4 year.natAbs

/-- The names of the days of the week, from Sunday. -/
def weekdayNames : List String := ["Sun", "Mon", "Tue", "Wed", "Thu", "Fri", "Sat"]

def monthNames : List String :=
  ["Jan", "Feb", "Mar", "Apr", "May", "Jun", "Jul", "Aug", "Sep", "Oct", "Nov", "Dec"]

namespace DateTime

/-- The time of day with two digits for each part. -/
def clockText (t : DateTime) : String :=
  padded 2 t.hour ++ ":" ++ padded 2 t.minute ++ ":" ++ padded 2 t.second

/-- Year, month and day, then the time of day with milliseconds: `2024-01-02T03:04:05.006Z`. -/
def isoText (t : DateTime) : String :=
  yearText t.date.year ++ "-" ++ padded 2 t.date.month ++ "-" ++ padded 2 t.date.day ++ "T" ++
    t.clockText ++ "." ++ padded 3 t.millisecond ++ "Z"

/-- Month, day and year: `1/2/2024`. -/
def dateText (t : DateTime) : String :=
  Decimal.digitsText t.date.month ++ "/" ++ Decimal.digitsText t.date.day ++ "/" ++
    yearText t.date.year

/-- The time of day by a clock of twelve hours: `3:04:05 AM`. -/
def timeText (t : DateTime) : String :=
  Decimal.digitsText (if t.hour % 12 = 0 then 12 else t.hour % 12) ++ ":" ++
    padded 2 t.minute ++ ":" ++ padded 2 t.second ++ (if t.hour < 12 then " AM" else " PM")

/-- Date and time: `1/2/2024, 3:04:05 AM`. -/
def dateTimeText (t : DateTime) : String := t.dateText ++ ", " ++ t.timeText

/-- Weekday, date, time and zone: `Tue Jan 02 2024 03:04:05 GMT+0000 (Coordinated Universal
Time)`. -/
def longText (t : DateTime) : String :=
  weekdayNames.getD (weekday t.date.dayNumber) "" ++ " " ++ monthNames.getD (t.date.month - 1) "" ++
    " " ++ padded 2 t.date.day ++ " " ++ yearText t.date.year ++ " " ++ t.clockText ++
    " GMT+0000 (Coordinated Universal Time)"

end DateTime

end FormulaSheet.Calendar
