import FormulaSheet.Document.Basic

/-!
# Recomputation

One pass over a document gives every cell its value. The graph of the references that resolve to
cells is built and ordered. Cells on a cycle get an error, and cells behind one no value. The others
are visited in order: a cell that reads something without a value gets none either and is not
evaluated, and any other is evaluated in the context together with what it reads. Cells with an
input, and cells whose expression has offenses, keep what they have.
-/

namespace FormulaSheet.Document

/-- The graph of the references that resolve to cells. -/
def buildGraph (d : Document) : Graph :=
  let nodes := d.cells.foldl (fun g p => g.addNode p.1) Graph.empty
  d.cells.foldl (fun g p =>
    ((p.2.dependencies d.engine).filterMap d.resolve?).foldl (fun g id => g.addEdge id p.1) g) nodes

/-- The value that a name stands for: that of the cell it resolves to, or else of the context. -/
def valueOf? (d : Document) (name : String) : Option Value :=
  match (d.resolve? name).bind d.cell? with
  | some c => some c.value
  | none => Fields.get? d.context name

/-- The values of the names that an expression reads, unless one of them has none. -/
def readings? (d : Document) : List String → Option (Fields Value)
  | [] => some []
  | name :: rest =>
    match d.valueOf? name with
    | none => none
    | some v => if v.isAbsent then none else (readings? d rest).map ((name, v) :: ·)

/-- The scope of a cell: the context, with the values of the names it reads on top. -/
def scopeOf? (d : Document) (c : Cell) : Option Scope :=
  (d.readings? (c.dependencies d.engine)).map fun readings =>
    readings.foldl (fun scope p => Fields.insert scope p.1 p.2) d.context

/-- Deals with a cell that has no place in the order. -/
def visitBlocked (d : Document) (id : CellId) : Document :=
  match d.cell? id with
  | none => d
  | some c =>
    if !c.isSafe then d
    else if d.graph.isCircular id then
      let d := d.putCell (c.fail .circularReference)
      { d with stats := { d.stats with cycles := d.stats.cycles + 1 } }
    else
      let d := d.putCell (c.setComputed .absent)
      { d with stats := { d.stats with absent := d.stats.absent + 1 } }

/-- Gives a cell its value from the values of the cells before it. -/
def visitOrdered (d : Document) (id : CellId) : Document :=
  match d.cell? id with
  | none => d
  | some c =>
    if !c.isSafe || c.input?.isSome then d
    else match d.scopeOf? c with
      | none =>
        let d := d.putCell (c.setComputed .absent)
        { d with stats := { d.stats with absent := d.stats.absent + 1 } }
      | some scope =>
        let d := { d with stats := { d.stats with evaluated := d.stats.evaluated + 1 } }
        match c.evaluate d.engine scope with
        | (.ok _, c) => d.putCell c
        | (.error e, c) => d.putCell (c.fail e)

def errorCount (d : Document) : Nat := (d.cellList.filter fun c => c.error?.isSome).length

def recompute (d : Document) : Document :=
  let d := { d with graph := d.buildGraph, stats := ⟨0, 0, 0, 0⟩ }
  let order := d.graph.order
  let d := order.blocked.foldl visitBlocked d
  let d := order.ordered.foldl visitOrdered d
  { d with stats := { d.stats with errors := d.errorCount } }

/-- A pass in the course of an operation, told to the listeners of the document. -/
def Progress.recompute (p : Progress) : Progress :=
  Progress.notify ⟨p.document.recompute, p.notices⟩

/-- Empties the inbox, and makes a pass where one of its events asks for it. -/
def Progress.flush (p : Progress) : Progress :=
  let events := p.document.inbox
  let p : Progress := ⟨{ p.document with inbox := [] }, p.notices⟩
  if events.any fun e => e.2.requiresRecompute then p.recompute else p

end FormulaSheet.Document
