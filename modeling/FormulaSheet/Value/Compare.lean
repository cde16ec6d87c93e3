import FormulaSheet.Text.Units
import FormulaSheet.Value.Coerce

/-!
# Equality and order of values

Strict equality asks for the same kind and the same contents; as numbers, zero equals negative zero
and not-a-number equals nothing. Loose equality coerces values of different kinds first. The order
compares texts by their UTF-16 units and everything else as numbers.
-/

namespace FormulaSheet.Value

mutual
def strictEquals : Value → Value → Bool
  | absent, absent => true
  | null, null => true
  | boolean a, boolean b => a == b
  | number x, number y => x == y
  | text s, text t => s == t
  | callable c, callable d => c == d
  | array items, array items' => itemsEqual items items'
  | object fields, object fields' =>
    fields.length == fields'.length && fieldsEqual fields fields'
  | _, _ => false

/-- Two lists with equal items in the same places. -/
def itemsEqual : List Value → List Value → Bool
  | [], [] => true
  | v :: vs, w :: ws => strictEquals v w && itemsEqual vs ws
  | _, _ => false

/-- Every field of the first list has its equal under the same name in the second one. -/
def fieldsEqual : List (String × Value) → List (String × Value) → Bool
  | [], _ => true
  | (k, v) :: rest, fields' =>
    (match Fields.get? fields' k with
      | some w => strictEquals v w
      | none => false) && fieldsEqual rest fields'
end

/-- The value is a list, an object or a function. -/
def isCompound : Value → Bool
  | array _ | object _ | callable _ => true
  | _ => false

/-- What one round of loose equality comes to: an answer, or two values that have to be compared in
place of the first ones. -/
inductive LooseStep where
  | decided (equal : Bool)
  | coerced (v w : Value)

/-- One round of loose equality. Nothing equals nothing only. Two numbers, texts or
booleans, and two compound values, are compared strictly, a number and a text by number. A
boolean beside something else is turned into its number first, and a compound value beside a
number or text into its text. -/
def looseStep (v w : Value) : LooseStep :=
  if v.isNullish || w.isNullish then .decided (v.isNullish && w.isNullish)
  else match v, w with
    | number _, number _ | text _, text _ | boolean _, boolean _ => .decided (strictEquals v w)
    | boolean _, _ => .coerced (number v.toNumber) w
    | _, boolean _ => .coerced v (number w.toNumber)
    | number x, text _ => .decided (x == w.toNumber)
    | text _, number y => .decided (v.toNumber == y)
    | _, _ =>
      if v.isCompound && !w.isCompound then .coerced v.toPrimitive w
      else if w.isCompound && !v.isCompound then .coerced v w.toPrimitive
      else .decided (strictEquals v w)

/-- How many coercions a value can go through: a boolean turns into a number and a compound value
into a text, and both are what they are from then on. -/
def coercions : Value → Nat
  | boolean _ | array _ | object _ | callable _ => 1
  | _ => 0

/-- Every coercion uses up one of those that are left. -/
theorem coercions_lt {v w v' w' : Value} (h : looseStep v w = .coerced v' w') :
    v'.coercions + w'.coercions < v.coercions + w.coercions := by
  cases v <;> cases w <;> cases h <;> simp [coercions, toPrimitive]

/-- Loose equality: rounds of coercion up to one that decides. -/
def looseEquals (v w : Value) : Bool :=
  match _h : looseStep v w with
  | .decided equal => equal
  | .coerced v' w' => looseEquals v' w'
termination_by v.coercions + w.coercions
decreasing_by exact coercions_lt _h

/-- The order of two numbers; there is none when one of them is not a number. -/
def compareNumbers (x y : Float) : Option Ordering :=
  if x < y then some .lt
  else if y < x then some .gt
  else if x == y then some .eq
  else none

/-- The order of two values, if they have one. -/
def compare? (v w : Value) : Option Ordering :=
  match v.toPrimitive, w.toPrimitive with
  | text s, text t => some (Text.compareUnits s t)
  | v, w => compareNumbers v.toNumber w.toNumber

end FormulaSheet.Value
