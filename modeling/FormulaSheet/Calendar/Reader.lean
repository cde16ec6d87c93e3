import FormulaSheet.Calendar.Instant
import FormulaSheet.Decimal.Reader
import FormulaSheet.Text.Blank

/-!
# Reading dates

A text is read as an instant in the first of three ways that fits all of it: as an internet
timestamp (`2024-01-02T03:04:05.006Z`), as the date of a mail (`Tue, 2 Jan 2024 03:04:05 +0000`), or
as a date with or without a time in UTC, whose numbers may be short and have blanks before them.
-/

namespace FormulaSheet.Calendar

/-- A step of reading: a result and the characters left, if the text fits. -/
abbrev Read := StateT (List Char) Option

namespace Read

def fail {α : Type} : Read α := fun _ => none

def char (c : Char) : Read Unit
  | d :: rest => if d = c then some ((), rest) else none
  | [] => none

/-- Passes one of some characters, and returns it. -/
def oneOf (cs : List Char) : Read Char
  | d :: rest => if cs.contains d then some (d, rest) else none
  | [] => none

/-- Passes blank characters, if there are any. -/
def blanks : Read Unit := fun cs => some ((), cs.dropWhile Text.isBlank)

def someBlanks : Read Unit
  | c :: cs => if Text.isBlank c then some ((), cs.dropWhile Text.isBlank) else none
  | [] => none

/-- Reads at least `least` digits, and no more than `most` where that is given, as a number. The
number of digits read comes with it. -/
def digits (least : Nat) (most? : Option Nat) : Read (Nat × Nat) := fun cs =>
  let ds := cs.takeWhile Char.isDigit
  let ds := match most? with
    | some most => ds.take most
    | none => ds
  if ds.length < least then none else some ((Decimal.natOfDigits ds, ds.length), cs.drop ds.length)

/-- Reads exactly `width` digits as a number. -/
def number (width : Nat) : Read Nat := do return (← digits width (some width)).1

/-- Reads a number of one or more digits, up to a width, after blanks. -/
def shortNumber (width : Nat) : Read Nat := do
  blanks
  return (← digits 1 (some width)).1

/-- Reads a year of up to four digits, or of any number of digits after a sign, after blanks. -/
def shortYear : Read Int := do
  blanks
  match (← get).head? with
  | some '-' => char '-'; return -((← digits 1 none).1 : Int)
  | some '+' => char '+'; return (← digits 1 none).1
  | _ => return (← digits 1 (some 4)).1

/-- Reads the digits after a point, if there is one, as milliseconds; what is finer is dropped. -/
def fraction : Read Nat := do
  match (← get).head? with
  | some '.' =>
    char '.'
    let ds := (← get).takeWhile Char.isDigit
    let _ ← digits 1 none
    return Decimal.natOfDigits ((ds ++ ['0', '0', '0']).take 3)
  | _ => return 0

/-- A name of a list at the beginning of the text, in any case of letters, as its place. -/
def nameIndex (names : List String) : Read Nat := fun cs =>
  let word := (cs.take 3).map Char.toLower
  (names.findIdx? fun name => name.toList.map Char.toLower = word).map fun i => (i, cs.drop 3)

def finish : Read Unit := fun cs => if cs.isEmpty then some ((), cs) else none

end Read

open Read

/-- The instant of a date and time that is so many minutes ahead of UTC. -/
def checkedInstant (t : DateTime) (ahead : Int) : Read Int := fun cs =>
  let ms := t.instant - ahead * 60000
  if t.isValid && (DateTime.ofInstant? (ms - if t.second = 60 then 1000 else 0)).isSome then
    some (ms, cs)
  else none

/-- Reads hours and minutes ahead of UTC, with what stands between them; `minus` are the signs of
the west. -/
def zoneOffset (minus : List Char) (between : Read Unit) : Read Int := do
  let sign ← oneOf ('+' :: minus)
  let hours ← number 2
  between
  let minutes ← number 2
  if hours ≤ 23 ∧ minutes ≤ 59 then
    let ahead : Int := (hours * 60 + minutes : Nat)
    return if sign = '+' then ahead else -ahead
  else fail

/-! ### Internet timestamps -/

/-- Reads a zone: `Z`, or hours and minutes with a colon. The minus sign may be U+2212. -/
def timestampZone : Read Int := do
  match (← get).head? with
  | some 'Z' | some 'z' => let _ ← oneOf ['Z', 'z']; return 0
  | _ => zoneOffset ['-', '\u2212'] (char ':')

def timestamp : Read Int := do
  let year ← number 4
  char '-'
  let month ← number 2
  char '-'
  let day ← number 2
  let _ ← oneOf ['T', 't', ' ']
  let hour ← number 2
  char ':'
  let minute ← number 2
  char ':'
  let second ← number 2
  let millisecond ← fraction
  let ahead ← timestampZone
  finish
  checkedInstant ⟨⟨year, month, day⟩, hour, minute, second, millisecond⟩ ahead

/-! ### Dates of mails -/

/-- The hours ahead of UTC of a named zone. A single letter other than J counts as UTC. -/
def namedZone? (name : List Char) : Option Int :=
  let hours := [("gmt", 0), ("ut", 0), ("edt", -4), ("est", -5), ("cdt", -5), ("cst", -6),
    ("mdt", -6), ("mst", -7), ("pdt", -7), ("pst", -8)]
  let lower := name.map Char.toLower
  match hours.lookup (String.ofList lower) with
  | some h => some h
  | none => if lower.length = 1 ∧ lower ≠ ['j'] then some 0 else none

/-- Reads a zone: a name, or hours and minutes without a colon. -/
def mailZone : Read Int := do
  match (← get).takeWhile Char.isAlpha with
  | [] => zoneOffset ['-'] (pure ())
  | name =>
    match namedZone? name with
    | some hours => set ((← get).drop name.length); return hours * 60
    | none => fail

/-- The characters after a comment of which `depth` parentheses are still open. A backslash takes
the character after it into the comment. -/
def afterComment? : List Char → (depth : Nat) → (escaped : Bool) → Option (List Char)
  | [], _, _ => none
  | _ :: cs, depth, true => afterComment? cs depth false
  | c :: cs, depth, false =>
    if c = '\\' then afterComment? cs depth true
    else if c = '(' then afterComment? cs (depth + 1) false
    else if c = ')' then if depth ≤ 1 then some cs else afterComment? cs (depth - 1) false
    else afterComment? cs depth false

/-- Passes comments, each with blanks before it. -/
def comments : Nat → Read Unit
  | 0 => pure ()
  | fuel + 1 => do
    match (← get).dropWhile Text.isBlank with
    | '(' :: cs =>
      match afterComment? cs 1 false with
      | some rest => set rest; comments fuel
      | none => pure ()
    | _ => pure ()

/-- Reads a weekday and its comma, if there is one. -/
def mailWeekday : Read (Option Nat) := do
  match nameIndex weekdayNames (← get) with
  | some (i, rest) => set rest; char ','; return some i
  | none => return none

/-- A year as mails write it: two digits lie between 1950 and 2049, three digits count from
1900. -/
def mailYear (digits year : Nat) : Nat :=
  if digits = 2 then if year ≤ 49 then 2000 + year else 1900 + year
  else if digits = 3 then 1900 + year
  else year

/-- Reads the seconds, if there are any. Blanks may stand before their colon only. -/
def mailSecond : Read Nat := do
  match (← get).dropWhile Text.isBlank with
  | ':' :: cs => set cs; number 2
  | _ => return 0

/-- Reads the date of a mail. A weekday has to be that of the date. -/
def mailDate : Read Int := do
  blanks
  let weekday? ← mailWeekday
  blanks
  let (day, _) ← digits 1 (some 2)
  someBlanks
  let month ← nameIndex monthNames
  someBlanks
  let (year, count) ← digits 2 none
  someBlanks
  let hour ← number 2
  blanks
  char ':'
  blanks
  let minute ← number 2
  let second ← mailSecond
  someBlanks
  let ahead ← mailZone
  comments ((← get).length + 1)
  finish
  let date : Date := ⟨mailYear count year, month + 1, day⟩
  if weekday?.all (· = weekday date.dayNumber) then
    checkedInstant ⟨date, hour, minute, second, 0⟩ ahead
  else fail

/-! ### Dates without a zone -/

def plainDate : Read Date := do
  let year ← shortYear
  char '-'
  let month ← shortNumber 2
  char '-'
  let day ← shortNumber 2
  return ⟨year, month, day⟩

/-- Reads a date, what stands before the time, hours and minutes, and where `seconds` says so
seconds with a fraction. -/
def plainDateTime (between : Read Unit) (seconds : Bool) : Read Int := do
  let date ← plainDate
  between
  let hour ← shortNumber 2
  char ':'
  let minute ← shortNumber 2
  let (second, millisecond) ← do
    if seconds then
      char ':'
      let second ← shortNumber 2
      pure (second, ← fraction)
    else pure (0, 0)
  finish
  checkedInstant ⟨date, hour, minute, second, millisecond⟩ 0

def plainDay : Read Int := do
  let date ← plainDate
  finish
  checkedInstant ⟨date, 0, 0, 0, 0⟩ 0

/-- The instant that a text writes, blank characters at its ends aside. -/
def readInstant? (text : String) : Option Int :=
  let cs := Text.trim text.toList
  let readers :=
    [timestamp, mailDate, plainDateTime (char 'T') true, plainDateTime (char 'T') false,
     plainDateTime blanks true, plainDay]
  (readers.findSome? fun read => read cs).map Prod.fst

example : readInstant? "2024-01-02T03:04:05.006Z" = some 1704164645006 := by decide +kernel

end FormulaSheet.Calendar
