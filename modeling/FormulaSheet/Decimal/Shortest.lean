import FormulaSheet.Decimal.Binary

/-!
# Shortest decimals

A number is written with the fewest digits that read back to it. The decimals that read back to
`m · 2 ^ q` are those of an interval around it, whose ends belong to it exactly when `m` is even.
Grids of 1, 2, 3, … significant digits are tried in turn: the first grid that has a point in the
interval gives the digits, and of two such points the one nearer to the number.
-/

namespace FormulaSheet.Decimal

/-- The decimal `digits · 10 ^ exponent`. -/
structure Scaled where
  digits : Nat
  exponent : Int
deriving DecidableEq, Repr

/-- Which of two decimals equally near to a number is taken. -/
inductive Tie where
  | up
  | toEven
deriving DecidableEq, Repr

/-- A number between the ends of the interval that rounds to it, as numerators over one
denominator. -/
structure Surroundings where
  low : Nat
  value : Nat
  high : Nat
  denominator : Nat
  closed : Bool
deriving Repr

/-- The surroundings of a magnitude. The neighbour below a power of two is half as far away as the
one above it, unless that power is the least normal one. -/
def Dyadic.surroundings (d : Dyadic) : Surroundings :=
  let below := if d.mantissa = Nat.pow 2 52 ∧ d.exponent ≠ -1074 then 1 else 2
  let q := d.exponent - 2
  let scale := if 0 ≤ q then Nat.pow 2 q.toNat else 1
  { low := (4 * d.mantissa - below) * scale
    value := 4 * d.mantissa * scale
    high := (4 * d.mantissa + 2) * scale
    denominator := if 0 ≤ q then 1 else Nat.pow 2 (-q).toNat
    closed := d.mantissa % 2 == 0 }

/-- The number of decimal digits of a natural number, at least 1. -/
def digitCount (n : Nat) : Nat := (Nat.toDigits 10 n).length

namespace Surroundings

/-- The exponent `p` with `10 ^ p ≤ value / denominator < 10 ^ (p + 1)`, for a value that is not
zero. -/
def leadingExponent (s : Surroundings) : Int :=
  let guess := (digitCount s.value : Int) - digitCount s.denominator
  let reaches : Bool :=
    if 0 ≤ guess then s.denominator * Nat.pow 10 guess.toNat ≤ s.value
    else s.denominator ≤ s.value * Nat.pow 10 (-guess).toNat
  if reaches then guess else guess - 1

/-- The multiple `n` of `up / down` lies in the interval. -/
def admits (s : Surroundings) (up down n : Nat) : Bool :=
  let point := n * up * s.denominator
  let low := s.low * down
  let high := s.high * down
  if s.closed then low ≤ point && point ≤ high else low < point && point < high

/-- The point of the grid of the multiples of `10 ^ g` that lies in the interval and is nearest to
the value, if there is one. -/
def nearestOn? (s : Surroundings) (tie : Tie) (g : Int) : Option Nat :=
  let up := if 0 ≤ g then Nat.pow 10 g.toNat else 1
  let down := if 0 ≤ g then 1 else Nat.pow 10 (-g).toNat
  let n := s.value * down / (up * s.denominator)
  let rest := 2 * (s.value * down % (up * s.denominator))
  let step := up * s.denominator
  match s.admits up down n, s.admits up down (n + 1) with
  | true, true =>
    if rest < step then some n
    else if step < rest then some (n + 1)
    else match tie with
      | .up => some (n + 1)
      | .toEven => some (if n % 2 = 0 then n else n + 1)
  | true, false => some n
  | false, true => some (n + 1)
  | false, false => none

/-- The first of the grids `10 ^ g`, `10 ^ (g - 1)`, … with a point in the interval. -/
def search (s : Surroundings) (tie : Tie) : Nat → Int → Scaled
  | 0, g => ⟨s.value / s.denominator, max g 0⟩
  | fuel + 1, g =>
    match s.nearestOn? tie g with
    | some n => ⟨n, g⟩
    | none => search s tie fuel (g - 1)

end Surroundings

/-- The decimal without zeros at the end of its digits, when there are at most `fuel` of them. -/
def Scaled.stripped : Nat → Scaled → Scaled
  | 0, d => d
  | fuel + 1, d =>
    if d.digits ≠ 0 ∧ d.digits % 10 = 0 then stripped fuel ⟨d.digits / 10, d.exponent + 1⟩ else d

/-- The shortest decimal that reads back to a finite number other than zero, sign aside. Seventeen
digits tell any two numbers apart, so the search ends before its fuel. -/
def shortest (tie : Tie) (x : Float) : Scaled :=
  let s := (magnitude x).surroundings
  (s.search tie 17 s.leadingExponent).stripped 17

example : shortest .up 0.3 = ⟨3, -1⟩ ∧ shortest .up (0.1 + 0.2) = ⟨30000000000000004, -17⟩ := by
  decide +kernel

example : shortest .up (Float.ofBits 1) = ⟨5, -324⟩ ∧
    shortest .up (Float.ofBits 0x44b52d02c7e14af6) = ⟨1, 23⟩ := by decide +kernel

end FormulaSheet.Decimal
