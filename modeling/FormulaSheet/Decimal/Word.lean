import FormulaSheet.Decimal.Reader

/-!
# Decimals kept in a word

A decimal can be read with little work: its digits are kept in a word of 64 bits, those that do not
fit are left out, and the number nearest to the word is multiplied or divided by a power of ten that
is a number itself. The word, the power and the result are each rounded, so that the number read may
lie beside the one that is nearest to the decimal. It is that number where the word is below 2⁵³ and
the power at most 10²², because then only the result is rounded.
-/

namespace FormulaSheet.Decimal

/-- The decimal `word · 10 ^ exponent`. -/
structure WordDecimal where
  word : Nat
  exponent : Int
deriving DecidableEq, Repr

/-- Writes digits behind those of a word as long as it fits into 64 bits. Returns the word and the
number of digits left out. -/
def keepDigits : Nat → List Char → Nat × Nat
  | word, [] => (word, 0)
  | word, d :: ds =>
    let next := 10 * word + digitValue d
    if next < UInt64.size then keepDigits next ds else (word, ds.length + 1)

/-- The decimal of a literal in a word. The digits left out of the whole part count as zeros; digits
of the fraction may follow where they still fit. -/
def Literal.toWord (l : Literal) : WordDecimal :=
  let (whole, leftOfWhole) := keepDigits 0 l.whole
  let (word, leftOfFraction) := keepDigits whole l.fraction
  ⟨word, l.exponent + leftOfWhole - (l.fraction.length - leftOfFraction : Nat)⟩

/-- The greatest power of ten that is a number. -/
def greatestPower : Nat := 308

def powerOfTen (n : Nat) : Float := Float.ofScientific 1 false n

/-- A number multiplied by a power of ten; there is none beyond the greatest number. -/
def raise? (x : Float) (n : Nat) : Option Float :=
  if n ≤ greatestPower then
    let y := x * powerOfTen n
    if y.isInf then none else some y
  else if x == 0 then some 0
  else none

/-- A number below 2⁶⁴ divided by a power of ten, in two steps where the power is no number. Two
steps by the greatest power leave nothing. -/
def lower (x : Float) (n : Nat) : Float :=
  if n ≤ greatestPower then x / powerOfTen n
  else if n ≤ 2 * greatestPower then x / powerOfTen greatestPower / powerOfTen (n - greatestPower)
  else 0

namespace WordDecimal

/-- The number that is read for the decimal, unless it is out of range. -/
def value? (d : WordDecimal) : Option Float :=
  if 0 ≤ d.exponent then raise? (Float.ofNat d.word) d.exponent.toNat
  else some (lower (Float.ofNat d.word) (-d.exponent).toNat)

end WordDecimal

example : (Literal.mk "15".toList "25".toList 3).toWord = ⟨1525, 1⟩ ∧
    (Literal.mk "18446744073709551619".toList "3".toList 0).toWord = ⟨18446744073709551613, 0⟩ := by
  decide +kernel

example : (WordDecimal.mk 1525 1).value? = some 15250 ∧
    (WordDecimal.mk 1602176634 (-28)).value? = some 1.6021766340000001e-19 ∧
    (WordDecimal.mk 1 (-700)).value? = some 0 ∧ (WordDecimal.mk 1 309).value? = none := by
  decide +kernel

end FormulaSheet.Decimal
