import FormulaSheet.Builtin.Basic
import FormulaSheet.Calendar.Reader
import FormulaSheet.Decimal.Binary
import FormulaSheet.Value.Coerce

/-!
# The namespace `Date`

Instants are numbers of milliseconds since 1970. Functions that take an instant also take a text
that writes one.
-/

namespace FormulaSheet.Builtin.Date

open Calendar

/-- An instant of up to 8.64 · 10¹⁵ milliseconds before or after 1970, its fraction dropped;
not-a-number for anything beyond. -/
def timeClip (x : Float) : Float :=
  if !x.isFinite || 8.64e15 < x.abs then notANumber else Decimal.truncate x

/-- The instant that a text writes, as a number. -/
def parseText (s : String) : Float :=
  match readInstant? s with
  | some ms => timeClip (Decimal.ofInt ms)
  | none => notANumber

def instantArg (args : List Value) : Float :=
  match arg args 0 with
  | .text s => parseText s
  | v => timeClip v.toNumber

def dateTimeArg? (args : List Value) : Option DateTime :=
  let x := instantArg args
  if x.isNaN then none else DateTime.ofInstant? (Decimal.wholePart x)

/-- The number of the first day of a month, if dates are kept in its year. -/
def firstDay? (year : Float) (month : Nat) : Option Int :=
  if 400000 < year.abs then none
  else
    let date : Calendar.Date := ⟨Decimal.wholePart year, month, 1⟩
    if date.isValid then some date.dayNumber else none

/-- The parts of a date and time from their numbers: what exceeds a part is carried over, months
count from 0, and the years 0 to 99 are those of the twentieth century. -/
def utc (year month day hours minutes seconds millis : Float) : Float :=
  let year := if 0 ≤ year && year ≤ 99 then year + 1900 else year
  match firstDay? (year + (month / 12).floor) ((Decimal.wholePart month % 12).toNat + 1) with
  | none => notANumber
  | some first =>
    timeClip ((Decimal.ofInt first + day - 1) * 86400000 + hours * 3600000 + minutes * 60000 +
      seconds * 1000 + millis)

/-- The whole part of an argument, or what stands for an argument that was not passed. -/
def part (args : List Value) (i : Nat) (missing : Float) : Float :=
  match args[i]? with
  | some v => if v.toNumber.isFinite then Decimal.truncate v.toNumber else v.toNumber
  | none => missing

/-- The instant of a date and time given by its parts. -/
def utcOf (args : List Value) : Float :=
  let parts := [part args 0 notANumber, part args 1 0, part args 2 1, part args 3 0, part args 4 0,
    part args 5 0, part args 6 0]
  if parts.all Float.isFinite then
    utc (part args 0 notANumber) (part args 1 0) (part args 2 1) (part args 3 0) (part args 4 0)
      (part args 5 0) (part args 6 0)
  else notANumber

/-- A text of a date and time, or that there is none. -/
def textOr (write : DateTime → String) (args : List Value) : Except FormulaError Value :=
  .ok (.text (((dateTimeArg? args).map write).getD "Invalid Date"))

/-- The text of an instant with year, month, day and time in this order. -/
def toISOString (args : List Value) : Except FormulaError Value :=
  match dateTimeArg? args with
  | some t => .ok (.text t.isoText)
  | none => .error (.invalidArgument "Invalid time value")

def ofInstant (name : String) (run : List Value → Except FormulaError Value) : Builtin :=
  ⟨"Date", name, 1, some 1, run, false⟩

/-- The functions in the order in which the namespace lists them. -/
def functions (ambient : Ambient) : List Builtin :=
  [⟨"Date", "now", 0, some 0, fun _ => .ok (.number ambient.now), true⟩,
   ofInstant "parse" fun args => .ok (.number (parseText (arg args 0).toText)),
   ⟨"Date", "UTC", 1, some 7, fun args => .ok (.number (utcOf args)), false⟩,
   ofInstant "toISOString" toISOString,
   ofInstant "toLocaleString" (textOr DateTime.dateTimeText),
   ofInstant "toLocaleDateString" (textOr DateTime.dateText),
   ofInstant "toLocaleTimeString" (textOr DateTime.timeText),
   ofInstant "toString" (textOr DateTime.longText),
   ofInstant "valueOf" fun args => .ok (.number (instantArg args))]

end FormulaSheet.Builtin.Date
