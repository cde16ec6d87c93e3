import FormulaSheet.Decimal.Shortest

/-!
# Number texts

How the digits of a number are laid out as text. A layout says which numbers are written
positionally, and how the others carry their exponent.
-/

namespace FormulaSheet.Decimal

/-- The decisions of a number text. -/
structure Layout where
  /-- Numbers from `10 ^ positionalFrom` on are written positionally, … -/
  positionalFrom : Int
  /-- … up to but not including `10 ^ positionalBelow`. -/
  positionalBelow : Int
  /-- What follows the digits of a whole number written positionally. -/
  wholeEnd : String
  /-- Which of two equally near shortest decimals is written. -/
  tie : Tie

def digitsText (n : Nat) : String := String.ofList (Nat.toDigits 10 n)

def intText (n : Int) : String :=
  if n < 0 then "-" ++ digitsText n.natAbs else digitsText n.natAbs

namespace Layout

def positional (layout : Layout) (d : Scaled) : String :=
  let ds := Nat.toDigits 10 d.digits
  if 0 ≤ d.exponent then
    String.ofList (ds ++ List.replicate d.exponent.toNat '0') ++ layout.wholeEnd
  else
    let places := (-d.exponent).toNat
    if places < ds.length then
      String.ofList (ds.take (ds.length - places) ++ '.' :: ds.drop (ds.length - places))
    else
      String.ofList ('0' :: '.' :: (List.replicate (places - ds.length) '0' ++ ds))

/-- A decimal written with one digit before the point and the power of ten after `e`, whose sign is
always written. -/
def scientific (d : Scaled) : String :=
  let ds := Nat.toDigits 10 d.digits
  let power := d.exponent + (ds.length - 1 : Nat)
  let mark := if power < 0 then "e-" else "e+"
  let body := match ds with
    | [] => []
    | [c] => [c]
    | c :: rest => c :: '.' :: rest
  String.ofList body ++ mark ++ digitsText power.natAbs

/-- The text of a finite number other than zero. -/
def write (layout : Layout) (x : Float) : String :=
  let d := shortest layout.tie x
  let power := d.exponent + (digitCount d.digits - 1 : Nat)
  let body :=
    if layout.positionalFrom ≤ power ∧ power < layout.positionalBelow then layout.positional d
    else scientific d
  if isNegative x then "-" ++ body else body

end Layout

/-- Numbers in a cell are written positionally from a millionth to below 10²¹, whole ones without a
point, and a tie goes to the greater decimal. -/
def cellLayout : Layout := ⟨-6, 21, "", .up⟩

/-- Numbers in JSON are written positionally from 10⁻⁵ to below 10¹⁶, whole ones with `.0`, and a
tie goes to the even decimal. -/
def jsonLayout : Layout := ⟨-5, 16, ".0", .toEven⟩

/-- The text of any number in a cell; both zeros are `0`. -/
def cellText (x : Float) : String :=
  if x.isNaN then "NaN"
  else if x.isInf then (if isNegative x then "-Infinity" else "Infinity")
  else if x == 0 then "0"
  else cellLayout.write x

/-- Bounds are written positionally, whatever their size. -/
def plainLayout : Layout := ⟨-400, 400, "", .up⟩

/-- The text of any number without an exponent; zero keeps its sign. -/
def plainText (x : Float) : String :=
  if x.isNaN then "NaN"
  else if x.isInf then (if isNegative x then "-inf" else "inf")
  else if x == 0 then (if isNegative x then "-0" else "0")
  else plainLayout.write x

example : cellText 1e21 = "1e+21" ∧ cellText 1.5e-7 = "1.5e-7" ∧ cellText 123.25 = "123.25" := by
  decide +kernel

example :
    jsonLayout.write 1e16 = "1e+16" ∧ jsonLayout.write 9007199254740992 = "9007199254740992.0" := by
  decide +kernel

end FormulaSheet.Decimal
