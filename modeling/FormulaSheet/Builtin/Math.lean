import FormulaSheet.Builtin.Basic
import FormulaSheet.Decimal.Binary
import FormulaSheet.Value.Coerce

/-!
# The namespace `Math`
-/

namespace FormulaSheet.Builtin.Math

def numberArg (args : List Value) (i : Nat) : Float := (arg args i).toNumber

def unary (name : String) (f : Float → Float) : Builtin :=
  ⟨"Math", name, 0, some 1, fun args => .ok (.number (f (numberArg args 0))), false⟩

def binary (name : String) (f : Float → Float → Float) : Builtin :=
  ⟨"Math", name, 0, some 2, fun args => .ok (.number (f (numberArg args 0) (numberArg args 1))),
    false⟩

/-- The number of a list that goes before all others, beginning with `start`; not-a-number where
the list has one. -/
def extreme (before : Float → Float → Bool) (start : Float) (xs : List Float) : Float :=
  if xs.any Float.isNaN then notANumber
  else xs.foldl (fun best x => if before x best then x else best) start

/-- A function that picks one of its arguments. -/
def picking (name : String) (before : Float → Float → Bool) (start : Float) : Builtin :=
  ⟨"Math", name, 0, none,
    fun args => .ok (.number (extreme before start (args.map Value.toNumber))), false⟩

/-- Powers. An exponent that is not a number gives none, nor does one raised to an infinite
power. -/
def power (base exponent : Float) : Float :=
  if exponent.isNaN || (base.abs == 1 && exponent.isInf) then notANumber
  else Float.pow base exponent

/-- The nearest whole number, a half going up. -/
def round (x : Float) : Float :=
  if !x.isFinite || Decimal.isWhole x then x
  else
    let low := x.floor
    if x - low ≥ 0.5 then low + 1 else low

/-- The functions in the order in which the namespace lists them. -/
def functions (ambient : Ambient) : List Builtin :=
  [unary "abs" Float.abs, unary "acos" Float.acos, unary "asin" Float.asin,
   unary "atan" Float.atan, binary "atan2" Float.atan2, unary "ceil" Float.ceil,
   unary "cos" Float.cos, unary "exp" Float.exp, unary "floor" Float.floor,
   unary "log" Float.log, picking "max" (fun x best => x > best) (-infinity),
   picking "min" (fun x best => x < best) infinity, binary "pow" power,
   ⟨"Math", "random", 0, some 0, fun _ => .ok (.number ambient.random), true⟩,
   unary "round" round, unary "sin" Float.sin, unary "sqrt" Float.sqrt, unary "tan" Float.tan]

end FormulaSheet.Builtin.Math
