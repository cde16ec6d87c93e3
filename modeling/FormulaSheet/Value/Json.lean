import FormulaSheet.Decimal.Binary
import FormulaSheet.Json.Basic
import FormulaSheet.Value.Coerce

/-!
# Values as JSON

JSON has no text for an absent value or a function: inside a list they turn into `null`, inside an
object their fields are left out, and on their own they have no JSON at all. Whole numbers within
the range where every integer is a binary64 number are JSON integers; infinities and not-a-number
are `null`.
-/

namespace FormulaSheet.Value

/-- The greatest integer up to which all integers are binary64 numbers. -/
def maxSafeInteger : Int := 9007199254740991

def numberToJson (x : Float) : Json :=
  if !x.isFinite then .null
  else if Decimal.isWhole x && (Decimal.wholePart x).natAbs ≤ maxSafeInteger.natAbs then
    .int (Decimal.wholePart x)
  else .float x

mutual
def toJson? : Value → Option Json
  | absent | callable _ => none
  | null => some .null
  | boolean b => some (.bool b)
  | number x => some (numberToJson x)
  | text s => some (.str s)
  | array items => some (.arr (itemsToJson items))
  | object fields => some (.obj (fieldsToJson fields))

/-- The items of a list, those without JSON as `null`. -/
def itemsToJson : List Value → List Json
  | [] => []
  | v :: rest => (toJson? v).getD .null :: itemsToJson rest

def fieldsToJson : List (String × Value) → List (String × Json)
  | [] => []
  | (k, v) :: rest =>
    match toJson? v with
    | some j => (k, j) :: fieldsToJson rest
    | none => fieldsToJson rest
end

/-- The JSON of a value, `null` where it has none. -/
def toJson (v : Value) : Json := v.toJson?.getD .null

mutual
def ofJson : Json → Value
  | .null => null
  | .bool b => boolean b
  | .int n => number (Decimal.ofInt n)
  | .float x => number x
  | .str s => text s
  | .arr items => array (itemsOfJson items)
  | .obj members => object (membersOfJson members)

def itemsOfJson : List Json → List Value
  | [] => []
  | j :: rest => ofJson j :: itemsOfJson rest

def membersOfJson : List (String × Json) → List (String × Value)
  | [] => []
  | (k, j) :: rest => (k, ofJson j) :: membersOfJson rest
end

end FormulaSheet.Value
