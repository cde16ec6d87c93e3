import FormulaSheet.Document.Record

/-!
# Documents with an index of their names

What a name refers to is looked up in an index of the names of all cells. The index is made when a
name is first looked up, and kept for the lookups that follow. It is dropped when a cell comes or
goes, and when the inbox is emptied of the event of a new name; between the new name and that
moment it is out of date. Operations on an `IndexedDocument` ask the index wherever those on a
`Document` go through the cells.
-/

namespace FormulaSheet

/-- A document in the course of an operation, with the index of its names if there is one. -/
structure IndexedDocument extends Document.Progress where
  index? : Option (Fields CellId)

/-- The event is that of a new name. -/
def CellEvent.isRenamed : CellEvent → Bool
  | renamed _ _ => true
  | _ => false

namespace Document

/-- The cells by their names. Of the cells of one name the index has the first. -/
def nameIndex (d : Document) : Fields CellId :=
  d.cellList.foldl (fun index c =>
    if Fields.contains index c.name then index else Fields.insert index c.name c.id) []

/-- The cell that a name refers to by an index of names. -/
def resolveIn (index : Fields CellId) (name : String) : Option CellId :=
  Fields.get? index name <|> (bareName? name).bind (Fields.get? index)

/-- Gives a cell its value in a scope, or none where it has no scope. -/
def settleCell (d : Document) (c : Cell) : Option Scope → Document
  | none =>
    let d := d.putCell (c.setComputed .absent)
    { d with stats := { d.stats with absent := d.stats.absent + 1 } }
  | some scope =>
    let d := { d with stats := { d.stats with evaluated := d.stats.evaluated + 1 } }
    match c.evaluate d.engine scope with
    | (.ok _, c) => d.putCell c
    | (.error e, c) => d.putCell (c.fail e)

end Document

namespace IndexedDocument

open Document

/-- A step of a document with an index. -/
abbrev Work := StateM IndexedDocument

/-- A step that may fail. What it has made of the index stays. -/
abbrev Attempt := ExceptT SheetError Work

/-- The document at the beginning of an operation. -/
def begin (m : IndexedDocument) : IndexedDocument := ⟨m.document.begin, m.index?⟩

def current : Work Document := do return (← get).document

/-- Goes on with the operation, without a look at the index. -/
def advance (f : Progress → Progress) : Work Unit :=
  modify fun m => { m with toProgress := f m.toProgress }

def modifyDocument (f : Document → Document) : Work Unit :=
  advance fun p => ⟨f p.document, p.notices⟩

/-! ### Lookups -/

/-- The index of the names, which is made if there is none. -/
def index : Work (Fields CellId) := do
  let m ← get
  let index := m.index?.getD m.document.nameIndex
  set { m with index? := some index }
  return index

def dropIndex : Work Unit := modify fun m => { m with index? := none }

/-- A change by which cells come or go. The index is dropped with it. -/
def changeCells (f : Document → Document) : Work Unit := do
  modifyDocument f
  dropIndex

/-- The cell that a name refers to. -/
def resolve (name : String) : Work (Option CellId) := do return resolveIn (← index) name

def cellNamed? (name : String) : Work (Option Cell) := do
  let id? ← resolve name
  return id?.bind (← current).cell?

/-! ### Recomputation -/

/-- The graph of the references that resolve to cells. -/
def buildGraph : Work Graph := do
  let d ← current
  let nodes := d.cells.foldl (fun g p => g.addNode p.1) Graph.empty
  d.cells.foldlM (fun g p => (p.2.dependencies d.engine).foldlM (fun g name => do
    match ← resolve name with
    | some id => return g.addEdge id p.1
    | none => return g) g) nodes

/-- The value that a name stands for: that of the cell it refers to, or else of the context. -/
def valueOf? (name : String) : Work (Option Value) := do
  match ← cellNamed? name with
  | some c => return some c.value
  | none => return Fields.get? (← current).context name

/-- The values of the names that an expression reads, up to one that has none. -/
def readings? : List String → Work (Option (Fields Value))
  | [] => return some []
  | name :: rest => do
    match ← valueOf? name with
    | none => return none
    | some v => if v.isAbsent then return none else return (← readings? rest).map ((name, v) :: ·)

def scopeOf? (c : Cell) : Work (Option Scope) := do
  let d ← current
  let readings? ← readings? (c.dependencies d.engine)
  return readings?.map fun readings =>
    readings.foldl (fun scope p => Fields.insert scope p.1 p.2) d.context

/-- Gives a cell its value from the values of the cells before it. -/
def visitOrdered (id : CellId) : Work Unit := do
  match (← current).cell? id with
  | none => return
  | some c =>
    if !c.isSafe || c.input?.isSome then return
    else
      let scope? ← scopeOf? c
      modifyDocument (·.settleCell c scope?)

/-- A pass, told to the listeners of the document. They are told last, so that what they look up is
looked up in the document after the operation. -/
def recompute : Work Unit := do
  let graph ← buildGraph
  modifyDocument fun d => { d with graph := graph, stats := ⟨0, 0, 0, 0⟩ }
  modifyDocument fun d => graph.order.blocked.foldl visitBlocked d
  graph.order.ordered.forM visitOrdered
  modifyDocument fun d => { d with stats := { d.stats with errors := d.errorCount } }
  advance Progress.notify

/-- Empties the inbox. The index is dropped if a cell has a new name, and a pass is made
if an event asks for one. -/
def flush : Work Unit := do
  let events := (← current).inbox
  modifyDocument ({ · with inbox := [] })
  if events.any fun e => e.2.isRenamed then dropIndex
  if events.any fun e => e.2.requiresRecompute then recompute

/-! ### Operations -/

def find (id : CellId) : Attempt Cell := do ofExcept ((← current).find id)

/-- Adds a cell without a recomputation; a name that is in use already is only warned of. -/
def insertCell (fresh : CellId) (o : CellOptions) : Attempt CellId := do
  let id := o.id?.getD fresh
  if Fields.contains (← current).cells id then throw (.duplicateId id)
  let _ ← index
  changeCells (·.insertNew id o)
  return id

def addCell (fresh : CellId) (o : CellOptions) : Attempt CellId := do
  let id ← insertCell fresh o
  recompute
  return id

def removeCell (id : CellId) : Attempt Unit := do
  let c ← find id
  advance (·.take c.remove)
  changeCells fun d =>
    { d with
      cells := Fields.erase d.cells id
      graph := d.graph.removeNode id
      subscriptions := Fields.erase d.subscriptions id }
  flush

def changeCell (id : CellId) (f : Cell → Change) : Attempt Unit := do
  let c ← find id
  advance (·.take (f c))
  flush

/-- The expression of the cell reads a name that refers to the cell `id`. -/
def refers (id : CellId) (c : Cell) : Work Bool := do
  (c.dependencies (← current).engine).anyM fun name => do return (← resolve name) == some id

/-- The cells that refer to a cell which is renamed, with their new expressions. -/
def renamedExpressions (id : CellId) (old new : String) : List Cell → Work (List (CellId × String))
  | [] => return []
  | c :: cs => do
    if ← refers id c then
      let index ← index
      let renamed? := fun name =>
        if resolveIn index name = some id then Expr.renamedReference old new name else none
      return (c.id, Expr.renameIn renamed? c.expression c.expr) ::
        (← renamedExpressions id old new cs)
    else renamedExpressions id old new cs

/-- What a rename changes: the name of the cell, and then the expressions that refer to it. -/
def renameSteps (id : CellId) (old new : String) : Work (List (CellId × (Cell → Change))) := do
  let d ← current
  let texts ← renamedExpressions id old new d.cellList
  return (id, Cell.rename new) :: texts.map fun r => (r.1, Cell.updateExpression d.engine r.2)

/-- Changes of cells, one after the other. -/
def makeChanges (steps : List (CellId × (Cell → Change))) : Work Unit :=
  steps.forM fun s => advance (·.change s.1 s.2)

/-- Refuses a name for a cell that expressions could not refer to, or that another cell has. -/
def checkName (id : CellId) (name : String) : Attempt Unit := do
  if !(← current).engine.isValidName name then throw (.invalidName name)
  if (Fields.get? (← index) name).any (· != id) then throw (.nameTaken name)

/-- Renames a cell, and every reference to it in the expressions. All of the new expressions are
worked out before the cell has its new name. -/
def renameCell (id : CellId) (name : String) : Attempt Unit := do
  let c ← find id
  if c.name ≠ name then
    checkName id name
    let steps ← renameSteps id c.name name
    makeChanges steps
    flush

/-- Gives a cell with an input a value that the input takes. -/
def setInputValue (id : CellId) (v : Value) : Attempt Unit := do
  let c ← find id
  match c.input? with
  | none => throw (.invalidInputValue (.noInput id))
  | some i =>
    match i.fault? v with
    | some fault => throw (.invalidInputValue fault)
    | none => changeCell id (Cell.setValue v)

/-- Gives a cell a tag, and answers whether it did not have it yet. -/
def addTag (id : CellId) (tag : String) : Attempt Bool := do
  let c ← find id
  changeCell id (Cell.addTag tag)
  return !c.tags.contains tag

/-- Takes a tag from a cell, and answers whether it was there. -/
def removeTag (id : CellId) (tag : String) : Attempt Bool := do
  let c ← find id
  changeCell id (Cell.removeTag tag)
  return c.tags.contains tag

def setContext (name : String) (v : Value) : Work Unit := do
  modifyDocument fun d => { d with context := Fields.insert d.context name v }
  recompute

/-- An operation that has nothing to do with names. -/
def plainly {α : Type} (f : Document → Except SheetError (α × Document)) : Attempt α := do
  let (a, d) ← ofExcept (f (← current))
  modifyDocument fun _ => d
  return a

/-! ### Records -/

/-- The row of a cell. -/
def row (c : Cell) : Work Row := do
  let d ← current
  let dependencies ← (c.dependencies d.engine).foldlM (fun ids name => do
    match ← resolve name with
    | some id => return addNew ids id
    | none => return ids) []
  return { d.row c with dependencies := dependencies }

def record : Work Record := do return ⟨← (← current).cellList.mapM row⟩

def create (engine : Engine) (context : Fields Value) : IndexedDocument :=
  ⟨(Document.create engine context).begin, none⟩

/-- Adds the rows of a record one after the other. -/
def insertRows : List Row → Attempt Unit
  | [] => return
  | row :: rows => do
    let _ ← insertCell row.id (rowOptions row)
    insertRows rows

/-- Adds the rows of a record, and makes one pass. -/
def load (rows : List Row) : Attempt Unit := do
  insertRows rows
  recompute

def ofRecord (engine : Engine) (context : Fields Value) (r : Record) :
    Except SheetError IndexedDocument :=
  match (load r.rows).run (create engine context) with
  | (.ok (), m) => .ok m
  | (.error e, _) => .error e

end IndexedDocument

end FormulaSheet
