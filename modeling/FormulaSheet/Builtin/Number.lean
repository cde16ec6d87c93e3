import FormulaSheet.Builtin.Basic
import FormulaSheet.Decimal.Binary
import FormulaSheet.Value.Coerce

/-!
# The namespace `Number`

The tests answer `false` for anything that is not a number. The readers take the longest number at
the beginning of a text, after blank characters.
-/

namespace FormulaSheet.Builtin.Number

def test (name : String) (p : Float → Bool) : Builtin :=
  ⟨"Number", name, 0, some 1,
    fun args => .ok (.boolean (((arg args 0).asNumber?.map p).getD false)), false⟩

/-- The text starts with the name of infinity. -/
def startsInfinity (cs : List Char) : Bool := "Infinity".toList.isPrefixOf cs

/-- The longest decimal number, or infinity, at the beginning of a text. -/
def leadingFloat (cs : List Char) : Float :=
  let (negative, rest) := Decimal.readSign cs
  let magnitude :=
    if startsInfinity rest then infinity
    else match Decimal.readLiteral? rest with
      | some (l, _) => l.value
      | none => notANumber
  Decimal.withSign negative magnitude

/-- The radix and the digits of a text that is to be read in a requested radix, where 0 requests
none: `0x` goes with radix 16, and without a request decides for it. -/
def radixDigits (requested : Int) (cs : List Char) : Nat × List Char :=
  match requested, cs with
  | 0, '0' :: 'x' :: rest => (16, rest)
  | 0, '0' :: 'X' :: rest => (16, rest)
  | 16, '0' :: 'x' :: rest => (16, rest)
  | 16, '0' :: 'X' :: rest => (16, rest)
  | 0, cs => (10, cs)
  | radix, cs => (radix.toNat, cs)

/-- The number that the digits at the beginning of a text write in a radix, rounded after each
digit. -/
def leadingDigits (radix : Nat) (cs : List Char) : Option Float :=
  let digits := (cs.takeWhile fun c => (Decimal.radixDigit? radix c).isSome).filterMap
    (Decimal.radixDigit? radix)
  if digits.isEmpty then none
  else some (digits.foldl (fun x d => x * Float.ofNat radix + Float.ofNat d) 0)

/-- The longest whole number at the beginning of a text, in a radix from 2 to 36. -/
def leadingInt (cs : List Char) (radix : Float) : Float :=
  let (negative, rest) := Decimal.readSign cs
  let requested := if radix.isFinite then Decimal.wholePart radix else 0
  if requested ≠ 0 ∧ (requested < 2 ∨ 36 < requested) then notANumber
  else
    let (radix, digits) := radixDigits requested rest
    match leadingDigits radix digits with
    | some x => (if negative then -1 else 1) * x
    | none => notANumber

/-- An argument as a text without the blank characters at its beginning. -/
def textArg (args : List Value) : List Char := (arg args 0).toText.toList.dropWhile Text.isBlank

/-- The functions in the order in which the namespace lists them. -/
def functions : List Builtin :=
  [test "isFinite" Float.isFinite, test "isInteger" Decimal.isWhole, test "isNaN" Float.isNaN,
   ⟨"Number", "parseFloat", 0, some 1, fun args => .ok (.number (leadingFloat (textArg args))),
     false⟩,
   ⟨"Number", "parseInt", 0, some 2,
     fun args => .ok (.number (leadingInt (textArg args) (arg args 1).toNumber)), false⟩]

end FormulaSheet.Builtin.Number
