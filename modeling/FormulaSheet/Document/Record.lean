import FormulaSheet.Document.Operations
import FormulaSheet.Json.Printer
import FormulaSheet.Record.Reader
import FormulaSheet.Value.Compare

/-!
# Documents and records

A document is stored as a record, and rebuilt from one by adding its rows and recomputing once. The
values and errors of a record are not taken over; an input starts with the value that its cell had.
-/

namespace FormulaSheet

namespace Record

/-- Equality of two inputs, in which not-a-number equals nothing. -/
def sameInput : Option Input → Option Input → Bool
  | none, none => true
  | some i, some j => i.kind == j.kind && Value.strictEquals (.object i.props) (.object j.props)
  | _, _ => false

/-- Equality of two rows, in which not-a-number equals nothing. -/
def sameRow (r s : Row) : Bool :=
  r.id == s.id && r.name == s.name && r.expr == s.expr && r.value.strictEquals s.value &&
    sameInput r.input? s.input? && r.dependencies == s.dependencies && r.tags == s.tags &&
    r.error? == s.error?

/-- Equality of two records, in which not-a-number equals nothing. -/
def same (r s : Record) : Bool :=
  r.rows.length == s.rows.length && (r.rows.zip s.rows).all fun p => sameRow p.1 p.2

end Record

namespace Document

/-- The row of a cell. Its dependencies are the cells that its names resolve to, each once. -/
def row (d : Document) (c : Cell) : Row :=
  { id := c.id
    name := c.name
    expr := c.expression
    value := c.value
    input? := c.input?.map fun i => i.withStart c.value
    dependencies := ((c.dependencies d.engine).filterMap d.resolve?).foldl addNew []
    tags := c.tags
    error? := c.error?.map FormulaError.message }

def record (d : Document) : Record := ⟨d.cellList.map d.row⟩

/-- The JSON text of a document, one item per line. -/
def toJson (d : Document) : String := d.record.toJson.pretty

def rowOptions (r : Row) : CellOptions :=
  ⟨some r.id, r.name, if r.input?.isSome then "" else r.expr, r.input?, r.tags⟩

def ofRecord (engine : Engine) (context : Fields Value) (r : Record) :
    Except SheetError Document := do
  let d ← r.rows.foldlM (fun d row => Prod.snd <$> d.insertCell row.id (rowOptions row))
    (create engine context)
  return d.recompute

def ofJson (engine : Engine) (context : Fields Value) (text : String) :
    Except SheetError Document := do
  match Record.parse text with
  | .ok r => ofRecord engine context r
  | .error e => .error (.json e)

end Document

end FormulaSheet
