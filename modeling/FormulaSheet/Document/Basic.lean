import FormulaSheet.Cell
import FormulaSheet.SheetError

/-!
# Documents

A document is an ordered set of cells whose expressions refer to each other by name, and to the
entries of a context. It listens to its own cells: their events wait in an inbox until the operation
that caused them is done.
-/

namespace FormulaSheet

/-- Counts of a recomputation: cells whose expression was evaluated, cells left without a value
because something they read has none, cells with an error afterwards, and cells on a cycle. -/
structure Stats where
  evaluated : Nat
  absent : Nat
  errors : Nat
  cycles : Nat
deriving DecidableEq, Repr

/-- A document. `subscriptions` are the document's own listeners in the lists of its cells, `graph`
and `stats` those of the last recomputation. -/
structure Document where
  engine : Engine
  context : Fields Value
  cells : Fields Cell
  graph : Graph
  subscriptions : Fields ListenerId
  inbox : List (CellId × CellEvent)
  listeners : Listeners
  stats : Stats

/-- What a listener of a document or of one of its cells is told. -/
inductive Notice where
  | cell (id : CellId) (listener : ListenerId) (event : CellEvent)
  | changed (listener : ListenerId) (stats : Stats)
deriving Repr

namespace Document

def create (engine : Engine) (context : Fields Value) : Document :=
  ⟨engine, context, [], Graph.empty, [], [], Listeners.empty, ⟨0, 0, 0, 0⟩⟩

/-- The cells in the order in which they were added. -/
def cellList (d : Document) : List Cell := d.cells.map Prod.snd

def cell? (d : Document) (id : CellId) : Option Cell := Fields.get? d.cells id

def named? (d : Document) (name : String) : Option CellId :=
  (d.cells.find? fun p => p.2.name == name).map Prod.fst

/-- The name without the dollar sign at its beginning, if it has one. -/
def bareName? (name : String) : Option String :=
  match name.toList with
  | '$' :: cs => some (String.ofList cs)
  | _ => none

/-- The cell that a name refers to: the first one of this name, or else of the name without its
dollar sign. -/
def resolve? (d : Document) (name : String) : Option CellId :=
  d.named? name <|> (bareName? name).bind d.named?

/-- The cells whose expressions call volatile functions. -/
def volatileCells (d : Document) : List CellId :=
  (d.cells.filter fun p => p.2.isVolatile d.engine).map Prod.fst

def putCell (d : Document) (c : Cell) : Document := { d with cells := Fields.insert d.cells c.id c }

/-- The document and what was told so far in the course of an operation. -/
structure Progress where
  document : Document
  notices : List Notice

def begin (d : Document) : Progress := ⟨d, []⟩

/-- Takes a change of a cell over. The document's own listener puts the event into the inbox, all
others are told at once. -/
def Progress.take (p : Progress) (change : Change) : Progress :=
  let d := p.document.putCell change.cell
  match change.event? with
  | none => ⟨d, p.notices⟩
  | some e =>
    let id := change.cell.id
    let own? := Fields.get? d.subscriptions id
    let others := change.heard.filter fun l => own? != some l
    let mine := change.heard.filter fun l => own? == some l
    ⟨{ d with inbox := d.inbox ++ mine.map fun _ => (id, e) },
      p.notices ++ others.map fun l => .cell id l e⟩

def Progress.change (p : Progress) (id : CellId) (f : Cell → Change) : Progress :=
  match p.document.cell? id with
  | some c => p.take (f c)
  | none => p

/-- Tells the listeners of the document of a recomputation. -/
def Progress.notify (p : Progress) : Progress :=
  ⟨p.document, p.notices ++ p.document.listeners.ids.map fun l => .changed l p.document.stats⟩

end Document

end FormulaSheet
