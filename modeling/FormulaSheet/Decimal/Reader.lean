/-!
# Reading decimals

A decimal literal is a run of digits with at most one point among or around them and an optional
exponent: `12`, `12.`, `.5`, `1.5e-3`. Its value is the number nearest to the decimal it writes, a
tie going to the even neighbour.
-/

namespace FormulaSheet.Decimal

def digitValue (c : Char) : Nat := c.toNat - '0'.toNat

/-- The natural number that a list of decimal digits writes. -/
def natOfDigits (ds : List Char) : Nat := ds.foldl (fun n c => 10 * n + digitValue c) 0

/-- The number nearest to `digits · 10 ^ exponent`. -/
def nearest (digits : Nat) (exponent : Int) : Float :=
  if 0 ≤ exponent then Float.ofScientific digits false exponent.toNat
  else Float.ofScientific digits true (-exponent).toNat

/-- A decimal literal in its parts, the digits as written. -/
structure Literal where
  whole : List Char
  fraction : List Char
  exponent : Int
deriving DecidableEq, Repr

namespace Literal

/-- The number nearest to the decimal that the literal writes. -/
def value (l : Literal) : Float :=
  nearest (natOfDigits (l.whole ++ l.fraction)) (l.exponent - l.fraction.length)

end Literal

/-- The exponent at the beginning of a text: `e` or `E`, an optional sign and at least one digit.
Returns its value and the rest. -/
def readExponent? : List Char → Option (Int × List Char)
  | c :: rest =>
    if c = 'e' ∨ c = 'E' then
      let (negative, rest) := match rest with
        | '-' :: rest => (true, rest)
        | '+' :: rest => (false, rest)
        | rest => (false, rest)
      match rest.takeWhile Char.isDigit with
      | [] => none
      | ds =>
        some (if negative then -(natOfDigits ds : Int) else natOfDigits ds,
          rest.dropWhile Char.isDigit)
    else none
  | [] => none

/-- The longest decimal literal, without a sign, at the beginning of a text, and the rest. An
exponent mark without digits is left in the rest. -/
def readLiteral? (cs : List Char) : Option (Literal × List Char) :=
  let whole := cs.takeWhile Char.isDigit
  let (fraction, rest) := match cs.dropWhile Char.isDigit with
    | '.' :: rest => (rest.takeWhile Char.isDigit, rest.dropWhile Char.isDigit)
    | rest => ([], rest)
  if whole.isEmpty && fraction.isEmpty then none
  else match readExponent? rest with
    | some (exponent, rest) => some (⟨whole, fraction, exponent⟩, rest)
    | none => some (⟨whole, fraction, 0⟩, rest)

/-- A sign at the beginning of a text: whether it is a minus, and the rest. -/
def readSign : List Char → Bool × List Char
  | '-' :: rest => (true, rest)
  | '+' :: rest => (false, rest)
  | rest => (false, rest)

/-- The number that a whole text writes as a decimal literal with an optional sign. -/
def readNumber? (cs : List Char) : Option Float :=
  let (negative, rest) := readSign cs
  match readLiteral? rest with
  | some (l, []) => some (if negative then -l.value else l.value)
  | _ => none

/-- The value of a digit in a radix up to 36, letters of either case standing for 10 to 35. -/
def radixDigit? (radix : Nat) (c : Char) : Option Nat :=
  let value? :=
    if c.isDigit then some (c.toNat - '0'.toNat)
    else if c.isLower then some (c.toNat - 'a'.toNat + 10)
    else if c.isUpper then some (c.toNat - 'A'.toNat + 10)
    else none
  value?.filter (· < radix)

/-- The natural number that a list of digits writes in a radix. -/
def readRadix? (radix : Nat) : List Char → Option Nat
  | [] => none
  | cs => cs.foldlM (fun n c => (radixDigit? radix c).map (radix * n + ·)) 0

example : readNumber? "-1.5e3".toList = some (-1500.0) ∧ readNumber? ".".toList = none ∧
    readNumber? "5.".toList = some 5.0 ∧ readNumber? "1e".toList = none := by decide +kernel

end FormulaSheet.Decimal
