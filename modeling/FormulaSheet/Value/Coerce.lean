import FormulaSheet.Text.Blank
import FormulaSheet.Decimal.Layout
import FormulaSheet.Decimal.Reader
import FormulaSheet.Value.Basic

/-!
# Coercions

Every value can be read as a text and as a number. A list reads as its items' texts with commas
between them; a text reads as the number it writes, and as not-a-number where it writes none.
-/

namespace FormulaSheet

/-- The radix that a text's first two characters announce, and what follows them. -/
def radixMark? : List Char → Option (Nat × List Char)
  | '0' :: c :: rest =>
    if c = 'x' ∨ c = 'X' then some (16, rest)
    else if c = 'o' ∨ c = 'O' then some (8, rest)
    else if c = 'b' ∨ c = 'B' then some (2, rest)
    else none
  | _ => none

/-- The number that digits of a radix write, after an optional plus sign; there is none from 2⁶⁴
on. -/
def radixNumber? (radix : Nat) (cs : List Char) : Option Float :=
  let digits := match cs with
    | '+' :: rest => rest
    | _ => cs
  match Decimal.readRadix? radix digits with
  | some n => if n < UInt64.size then some (Float.ofNat n) else none
  | none => none

def notANumber : Float := 0.0 / 0.0

def infinity : Float := 1.0 / 0.0

/-- The number that a text writes, blank characters at its ends aside: nothing is zero, the name of
infinity and the digits of a marked radix are known, anything else has to be a decimal. -/
def numberOfChars (cs : List Char) : Float :=
  let cs := Text.trim cs
  if cs.isEmpty then 0
  else if cs = "Infinity".toList ∨ cs = "+Infinity".toList then infinity
  else if cs = "-Infinity".toList then -infinity
  else match radixMark? cs with
    | some (radix, digits) => (radixNumber? radix digits).getD notANumber
    | none => (Decimal.readNumber? cs).getD notANumber

namespace Value

mutual
def toText : Value → String
  | absent => "undefined"
  | null => "null"
  | boolean b => if b then "true" else "false"
  | number x => Decimal.cellText x
  | text s => s
  | array items => ",".intercalate (itemTexts items)
  | object _ => "[object Object]"
  | callable c => "function " ++ c.name ++ "() \x7b [native code] \x7d"

/-- The texts of a list's items, where nothing is the empty text. -/
def itemTexts : List Value → List String
  | [] => []
  | v :: rest => (if v.isNullish then "" else v.toText) :: itemTexts rest
end

def toNumber : Value → Float
  | absent => notANumber
  | null => 0
  | boolean b => if b then 1 else 0
  | number x => x
  | text s => numberOfChars s.toList
  | array items => numberOfChars (toText (.array items)).toList
  | object _ | callable _ => notANumber

/-- Lists, objects and functions take part in `+` and in comparisons as their text. -/
def toPrimitive : Value → Value
  | v@(array _) | v@(object _) | v@(callable _) => .text v.toText
  | v => v

end Value

end FormulaSheet
