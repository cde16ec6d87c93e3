/-!
# JSON trees

A JSON document as a tree. Whole numbers written without a fraction stay integers; all others are
binary64 numbers. The members of an object keep their order, and their names differ.
-/

namespace FormulaSheet

/-- A JSON document. -/
inductive Json where
  | null
  | bool (b : Bool)
  | int (n : Int)
  | float (x : Float)
  | str (s : String)
  | arr (items : List Json)
  | obj (members : List (String × Json))
deriving Repr

instance : Inhabited Json := ⟨.null⟩

def Json.asNumber? : Json → Option Float
  | int n => some (Float.ofInt n)
  | float x => some x
  | _ => none

end FormulaSheet
