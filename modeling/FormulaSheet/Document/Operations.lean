import FormulaSheet.Document.Recompute
import FormulaSheet.Expr.Rename

/-!
# Operations on documents

Every operation runs to its end, with the recomputation it calls for, or fails and leaves the
document as it was. It answers the document after it with what the listeners were told; the
document's own listeners are told once of each recomputation.
-/

namespace FormulaSheet.Document

/-- The cell of an id, or the error that there is none. -/
def find (d : Document) (id : CellId) : Except SheetError Cell :=
  match d.cell? id with
  | some c => .ok c
  | none => .error (.cellNotFound id)

/-- Adds a cell with an id that no cell has, and listens to it. -/
def insertNew (d : Document) (id : CellId) (o : CellOptions) : Document :=
  let c := Cell.create d.engine id o
  { d with
    cells := Fields.insert d.cells id c.subscribe
    graph := d.graph.addNode id
    subscriptions := Fields.insert d.subscriptions id c.listeners.next }

/-- Adds a cell without a recomputation; `fresh` is the id of a cell that is given none. -/
def insertCell (d : Document) (fresh : CellId) (o : CellOptions) :
    Except SheetError (CellId × Document) :=
  let id := o.id?.getD fresh
  if Fields.contains d.cells id then .error (.duplicateId id) else .ok (id, d.insertNew id o)

/-- Adds a cell; `fresh` is the id of a cell that is given none. -/
def addCell (d : Document) (fresh : CellId) (o : CellOptions) :
    Except SheetError (CellId × Progress) := do
  let (id, d) ← d.insertCell fresh o
  return (id, d.begin.recompute)

/-- Takes a cell out. Names that referred to it may resolve to nothing. -/
def removeCell (d : Document) (id : CellId) : Except SheetError Progress := do
  let c ← d.find id
  let p := d.begin.take c.remove
  let d := p.document
  let p : Progress :=
    ⟨{ d with
        cells := Fields.erase d.cells id
        graph := d.graph.removeNode id
        subscriptions := Fields.erase d.subscriptions id }, p.notices⟩
  return p.flush

def changeCell (d : Document) (id : CellId) (f : Cell → Change) : Except SheetError Progress := do
  let c ← d.find id
  return (d.begin.take (f c)).flush

/-- The new spelling of a name that resolves to a cell which is renamed. -/
def renamed? (d : Document) (id : CellId) (old new name : String) : Option String :=
  if d.resolve? name = some id then Expr.renamedReference old new name else none

/-- The cells that refer to a cell which is renamed, with their new expressions. -/
def renamedExpressions (d : Document) (id : CellId) (old new : String) : List (CellId × String) :=
  (d.cellList.filter fun c => (c.dependencies d.engine).any fun n => d.resolve? n == some id).map
    fun c => (c.id, Expr.renameIn (d.renamed? id old new) c.expression c.expr)

/-- Renames a cell, and every reference to it in the expressions. The name has to be one that
expressions can refer to, and no other cell may have it. -/
def renameCell (d : Document) (id : CellId) (name : String) : Except SheetError Progress := do
  let c ← d.find id
  if c.name = name then return d.begin
  if !d.engine.isValidName name then throw (.invalidName name)
  if (d.named? name).any (· != id) then throw (.nameTaken name)
  let p := d.begin.change id (Cell.rename name)
  let p := (d.renamedExpressions id c.name name).foldl
    (fun p r => p.change r.1 (Cell.updateExpression d.engine r.2)) p
  return p.flush

def updateExpression (d : Document) (id : CellId) (source : String) : Except SheetError Progress :=
  d.changeCell id (Cell.updateExpression d.engine source)

/-- Replaces the expression of a cell by a function of its text. -/
def transformExpression (d : Document) (id : CellId) (f : String → String) :
    Except SheetError Progress :=
  d.changeCell id (Cell.transformExpression d.engine f)

def setInput (d : Document) (id : CellId) (i : Input) : Except SheetError Progress :=
  d.changeCell id (Cell.setInput i)

def clearInput (d : Document) (id : CellId) : Except SheetError Progress :=
  d.changeCell id Cell.clearInput

def setValue (d : Document) (id : CellId) (v : Value) : Except SheetError Progress :=
  d.changeCell id (Cell.setValue v)

/-- Gives a cell with an input a value that the input takes. -/
def setInputValue (d : Document) (id : CellId) (v : Value) : Except SheetError Progress := do
  let c ← d.find id
  match c.input? with
  | none => throw (.invalidInputValue (.noInput id))
  | some i =>
    match i.fault? v with
    | some fault => throw (.invalidInputValue fault)
    | none => d.changeCell id (Cell.setValue v)

/-- Gives a cell tags in place of those it has. -/
def setTags (d : Document) (id : CellId) (tags : List String) : Except SheetError Progress :=
  d.changeCell id (Cell.setTags tags)

/-- Adds a tag to a cell, and answers whether it is new. -/
def addTag (d : Document) (id : CellId) (tag : String) : Except SheetError (Bool × Progress) := do
  let c ← d.find id
  let p ← d.changeCell id (Cell.addTag tag)
  return (!c.tags.contains tag, p)

/-- Takes a tag from a cell, and answers whether it was there. -/
def removeTag (d : Document) (id : CellId) (tag : String) :
    Except SheetError (Bool × Progress) := do
  let c ← d.find id
  let p ← d.changeCell id (Cell.removeTag tag)
  return (c.tags.contains tag, p)

def setContext (d : Document) (name : String) (v : Value) : Progress :=
  Progress.recompute (begin { d with context := Fields.insert d.context name v })

def recomputeAll (d : Document) : Stats × Progress :=
  let p := d.begin.recompute
  (p.document.stats, p)

def onChange (d : Document) : ListenerId × Document :=
  (d.listeners.next, { d with listeners := d.listeners.add })

/-- Takes a listener of the document out, and answers whether it was there. -/
def removeListener (d : Document) (l : ListenerId) : Bool × Document :=
  (d.listeners.contains l, { d with listeners := d.listeners.remove l })

def subscribe (d : Document) (id : CellId) : Except SheetError (ListenerId × Document) := do
  let c ← d.find id
  return (c.listeners.next, d.putCell c.subscribe)

/-- Takes a listener of a cell out, and answers whether it was there. The document's own listener
stays. -/
def unsubscribe (d : Document) (id : CellId) (l : ListenerId) :
    Except SheetError (Bool × Document) := do
  if Fields.get? d.subscriptions id = some l then return (false, d)
  let c ← d.find id
  return (c.listeners.contains l, d.putCell (c.unsubscribe l))

end FormulaSheet.Document
