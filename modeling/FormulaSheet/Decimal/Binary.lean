/-!
# Numbers taken apart

Every number of a sheet is a binary64 number. A finite one is `± mantissa · 2 ^ exponent` with
natural `mantissa`, which is read off its bits here. On that form the whole part, the test for a
whole number and the remainder of a division are exact integer arithmetic.
-/

namespace FormulaSheet.Decimal

/-- The magnitude `mantissa · 2 ^ exponent`. -/
structure Dyadic where
  mantissa : Nat
  exponent : Int
deriving DecidableEq, Repr

/-- The sign bit, which is also set for negative zero. -/
def isNegative (x : Float) : Bool := x.toBits >>> 63 == 1

/-- The magnitude of a finite number: a fraction of 52 bits, with a leading bit above it unless the
biased exponent is zero. -/
def magnitude (x : Float) : Dyadic :=
  let bits : Nat := x.toBits.toNat
  let fraction : Nat := bits % Nat.pow 2 52
  let biased : Nat := bits / Nat.pow 2 52 % Nat.pow 2 11
  if biased = 0 then ⟨fraction, -1074⟩ else ⟨Nat.pow 2 52 + fraction, (biased : Int) - 1075⟩

namespace Dyadic

/-- The greatest natural number not above the magnitude. -/
def floor (d : Dyadic) : Nat :=
  if 0 ≤ d.exponent then d.mantissa * Nat.pow 2 d.exponent.toNat
  else d.mantissa / Nat.pow 2 (-d.exponent).toNat

def isWhole (d : Dyadic) : Bool :=
  0 ≤ d.exponent || d.mantissa % Nat.pow 2 (-d.exponent).toNat == 0

/-- The number nearest to the magnitude; exact for the magnitude of a binary64 number. -/
def toFloat (d : Dyadic) : Float :=
  if 0 ≤ d.exponent then Float.ofNat (d.mantissa * Nat.pow 2 d.exponent.toNat)
  else
    let places := (-d.exponent).toNat
    Float.ofScientific (d.mantissa * Nat.pow 5 places) true places

/-- What is left of `d` after taking away the greatest multiple of `e`, whose mantissa is not
zero. -/
def remainder (d e : Dyadic) : Dyadic :=
  let low := min d.exponent e.exponent
  let dividend := d.mantissa * Nat.pow 2 (d.exponent - low).toNat
  ⟨dividend % (e.mantissa * Nat.pow 2 (e.exponent - low).toNat), low⟩

end Dyadic

/-- The number with the sign bit set or cleared. -/
def withSign (negative : Bool) (x : Float) : Float :=
  if negative then -x else x

def isWhole (x : Float) : Bool := x.isFinite && (magnitude x).isWhole

/-- The whole part of a finite number, its fraction dropped. -/
def wholePart (x : Float) : Int :=
  let n := ((magnitude x).floor : Int)
  if isNegative x then -n else n

/-- A finite number without its fraction; a negative fraction leaves negative zero. -/
def truncate (x : Float) : Float :=
  withSign (isNegative x) (Float.ofNat (magnitude x).floor)

/-- The number nearest to an integer, a tie to the even neighbour. -/
def ofInt (n : Int) : Float := Float.ofInt n

/-- The remainder of the division `x / y` rounded toward zero; exact, with the sign of `x`. -/
def remainder (x y : Float) : Float :=
  if x.isNaN || y.isNaN || x.isInf || y == 0 then 0.0 / 0.0
  else if y.isInf then x
  else withSign (isNegative x) ((magnitude x).remainder (magnitude y)).toFloat

example : wholePart (-2.5) = -2 ∧ isWhole 4503599627370495.5 = false ∧ isWhole 1e300 = true := by
  decide +kernel

example : remainder 5.5 2 = 1.5 ∧ remainder (-7) 2 = -1 ∧ isNegative (remainder (-4) 2) = true := by
  decide +kernel

end FormulaSheet.Decimal
