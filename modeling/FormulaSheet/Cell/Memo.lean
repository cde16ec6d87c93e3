import FormulaSheet.Cell

/-!
# Cells that remember what they read

The names that an expression reads are worked out when they are first asked for. A `MemoCell` is a
cell with the names worked out so far; whatever gives the cell another expression makes it forget
them. A cell on its own lives through calls in any order (`MemoCell.run`).
-/

namespace FormulaSheet

/-- Evaluates the expression in a scope and keeps its value or its error. -/
def Cell.settle (eng : Engine) (scope : Scope) (c : Cell) : Cell :=
  match c.evaluate eng scope with
  | (.ok _, c) => c
  | (.error e, c) => c.fail e

/-- A call of a cell, with its arguments. -/
inductive CellCall where
  | updateExpression (source : String)
  | transformExpression (f : String → String)
  | setInput (i : Input)
  | clearInput
  | setValue (v : Value)
  | rename (name : String)
  | setTags (tags : List String)
  | addTag (tag : String)
  | removeTag (tag : String)
  /-- The error of the evaluation is only answered. -/
  | evaluate (scope : Scope)
  /-- The error of the evaluation is kept. -/
  | settle (scope : Scope)
  | remove
  | subscribe
  | unsubscribe (id : ListenerId)
  /-- The question which names the expression reads. -/
  | dependencies

namespace CellCall

/-- What a call makes of a cell. -/
def change (eng : Engine) (c : Cell) : CellCall → Change
  | updateExpression source => c.updateExpression eng source
  | transformExpression f => c.transformExpression eng f
  | setInput i => c.setInput i
  | clearInput => c.clearInput
  | setValue v => c.setValue v
  | rename name => c.rename name
  | setTags tags => c.setTags tags
  | addTag tag => c.addTag tag
  | removeTag tag => c.removeTag tag
  | evaluate scope => (c.evaluate eng scope).2.unchanged
  | settle scope => (c.settle eng scope).unchanged
  | remove => c.remove
  | subscribe => c.subscribe.unchanged
  | unsubscribe id => (c.unsubscribe id).unchanged
  | dependencies => c.unchanged

/-- The call reads a text for the cell, or clears its expression. -/
def replacesExpression (c : Cell) : CellCall → Bool
  | updateExpression _ | transformExpression _ => c.input?.isNone
  | setInput _ => true
  | clearInput => c.input?.isSome
  | _ => false

end CellCall

/-- A cell, and the names that its expression reads once they have been asked for. -/
structure MemoCell where
  cell : Cell
  names? : Option (List String)

namespace MemoCell

def create (eng : Engine) (id : CellId) (o : CellOptions) : MemoCell := ⟨Cell.create eng id o, none⟩

/-- The names that the expression reads, as they are remembered, or else as they are found in it. -/
def dependencies (eng : Engine) (m : MemoCell) : List String :=
  m.names?.getD (eng.freeNames m.cell.expr)

/-- The cell after a call. -/
def perform (eng : Engine) (m : MemoCell) (call : CellCall) : MemoCell where
  cell := (call.change eng m.cell).cell
  names? :=
    match call with
    | .dependencies => some (m.dependencies eng)
    | call => if call.replacesExpression m.cell then none else m.names?

/-- The cell after calls one after the other. -/
def run (eng : Engine) (m : MemoCell) (calls : List CellCall) : MemoCell :=
  calls.foldl (perform eng) m

end MemoCell

end FormulaSheet
