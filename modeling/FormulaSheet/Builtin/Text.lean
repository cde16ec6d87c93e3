import FormulaSheet.Builtin.Basic
import FormulaSheet.Decimal.Binary
import FormulaSheet.Text.Units
import FormulaSheet.Value.Coerce

/-!
# The namespaces `String` and `Array`
-/

namespace FormulaSheet.Builtin.Text

/-- The UTF-16 unit of a number: its whole part modulo 2¹⁶, zero where it has none. -/
def unitOf (x : Float) : Nat :=
  if x.isFinite then (Decimal.wholePart x % 65536).toNat else 0

/-- The text of UTF-16 units given by number. -/
def fromCharCode (args : List Value) : Except FormulaError Value :=
  .ok (.text (Text.ofUnits (args.map fun v => unitOf v.toNumber)))

/-- The character of a code point given by number; half of a surrogate pair is U+FFFD. -/
def codePoint (v : Value) : Except FormulaError Char :=
  let x := v.toNumber
  if Decimal.isWhole x && 0 ≤ Decimal.wholePart x && Decimal.wholePart x ≤ 0x10FFFF then
    .ok (Text.charOfCode (Decimal.wholePart x).toNat)
  else .error (.invalidArgument ("Invalid code point " ++ v.toText))

def fromCodePoint (args : List Value) : Except FormulaError Value := do
  return .text (String.ofList (← args.mapM codePoint))

def isArray (args : List Value) : Except FormulaError Value :=
  .ok (.boolean ((arg args 0).kind = .array))

/-- The functions in the order in which the namespaces list them. -/
def functions : List Builtin :=
  [⟨"String", "fromCharCode", 0, none, fromCharCode, false⟩,
   ⟨"String", "fromCodePoint", 0, none, fromCodePoint, false⟩,
   ⟨"Array", "isArray", 0, some 1, isArray, false⟩]

end FormulaSheet.Builtin.Text
