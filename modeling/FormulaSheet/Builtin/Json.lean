import FormulaSheet.Builtin.Basic
import FormulaSheet.Json.Printer
import FormulaSheet.Json.Reader
import FormulaSheet.Value.Json

/-!
# The namespace `JSON`
-/

namespace FormulaSheet.Builtin.Json

def parse (args : List Value) : Except FormulaError Value :=
  match FormulaSheet.Json.parse (arg args 0).toText with
  | .ok j => .ok (Value.ofJson j)
  | .error e => .error (.invalidArgument ("Invalid JSON: " ++ e.message))

/-- The indent of a level: up to ten blanks, or up to ten characters of a text. -/
def indentOf : Value → String
  | .number x =>
    if x ≥ 1 then
      let n := if x ≥ 10 then 10 else (Decimal.wholePart x).toNat
      String.ofList (List.replicate n ' ')
    else ""
  | .text s => String.ofList (s.toList.take 10)
  | _ => ""

/-- The JSON text of a value; absent where it has none. The second argument is not used. -/
def stringify (args : List Value) : Except FormulaError Value :=
  match (arg args 0).toJson? with
  | none => .ok .absent
  | some j =>
    let indent := indentOf (arg args 2)
    .ok (.text (if indent = "" then j.compact else j.indented indent))

/-- The functions in the order in which the namespace lists them. -/
def functions : List Builtin :=
  [⟨"JSON", "parse", 1, some 1, parse, false⟩, ⟨"JSON", "stringify", 1, some 3, stringify, false⟩]

end FormulaSheet.Builtin.Json
