import FormulaSheet.Graph
import FormulaSheet.Input
import FormulaSheet.Value.Json

/-!
# Records

A document in the flat form in which it is stored: one row for each cell. An absent value, a missing
input and a missing error are left out of the JSON of a row.
-/

namespace FormulaSheet

/-- A cell in stored form. The expression of a cell with an input is empty; `dependencies` are the
cells that the expression reads. -/
structure Row where
  id : CellId
  name : String
  expr : String
  value : Value
  input? : Option Input
  dependencies : List CellId
  tags : List String
  error? : Option String

/-- A document in stored form. -/
structure Record where
  rows : List Row

def Input.toJson (i : Input) : Json :=
  .obj [("type", .str i.kind), ("props", .obj (i.props.map fun p => (p.1, p.2.toJson)))]

def Json.texts (xs : List String) : Json := .arr (xs.map .str)

def Row.toJson (r : Row) : Json :=
  .obj <|
    [("id", .str r.id), ("name", .str r.name), ("expr", .str r.expr)] ++
    (if r.value.isAbsent then [] else [("value", r.value.toJson)]) ++
    (r.input?.map fun i => ("input", i.toJson)).toList ++
    [("dependencies", Json.texts r.dependencies), ("tags", Json.texts r.tags)] ++
    (r.error?.map fun e => ("error", Json.str e)).toList

namespace Record

def toJson (r : Record) : Json := .obj [("rows", .arr (r.rows.map Row.toJson))]

def row? (r : Record) (id : CellId) : Option Row := r.rows.find? fun row => row.id == id

end Record

end FormulaSheet
