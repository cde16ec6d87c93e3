import FormulaSheet.Engine
import FormulaSheet.Input
import FormulaSheet.Graph
import FormulaSheet.Listeners

/-!
# Cells

A cell is a named row. It holds an expression, or an input that gives it its value from outside; a
cell with an input has the empty expression. Every change that can be seen from outside emits one
event, which the listeners registered at that time hear. Values that are computed are stored without
an event.
-/

namespace FormulaSheet

/-- A change of a cell. -/
inductive CellEvent where
  | expressionChanged
  | inputSet
  | inputCleared
  | valueChanged
  | renamed (old new : String)
  | tagsChanged
  /-- The cell goes away. It is the last event of its listeners. -/
  | removed
deriving DecidableEq, Repr

def CellEvent.requiresRecompute : CellEvent → Bool
  | expressionChanged | inputSet | inputCleared | valueChanged | removed => true
  | renamed _ _ | tagsChanged => false

/-- What a cell is made from. An input goes before an expression. -/
structure CellOptions where
  id? : Option CellId
  name : String
  expression : String
  input? : Option Input
  tags : List String

/-- A cell. The compile error is that of its present expression, the evaluation error that of the
last evaluation. -/
structure Cell where
  id : CellId
  name : String
  expression : String
  expr : Expr
  offenses : List Offense
  compileError? : Option FormulaError
  evalError? : Option FormulaError
  input? : Option Input
  value : Value
  tags : List String
  listeners : Listeners

/-- A cell after an operation, the event that the operation emitted, and who heard it. -/
structure Change where
  cell : Cell
  event? : Option CellEvent
  heard : List ListenerId

namespace Cell

/-! ### What a cell shows -/

/-- The compile error, or else the evaluation error. -/
def error? (c : Cell) : Option FormulaError := c.compileError? <|> c.evalError?

def kind (c : Cell) : Kind := if c.error?.isSome then .error else c.value.kind

def isSafe (c : Cell) : Bool := c.offenses.isEmpty

def dependencies (eng : Engine) (c : Cell) : List String := eng.freeNames c.expr

/-- The expression calls a volatile function. -/
def isVolatile (eng : Engine) (c : Cell) : Bool := c.input?.isNone && eng.isVolatile c.expr

/-! ### Expression and value -/

/-- The cell with the empty expression and no errors. -/
def clearExpression (c : Cell) : Cell :=
  { c with
    expression := "", expr := .empty, offenses := [], compileError? := none, evalError? := none }

/-- The cell with an expression. A text that cannot be read, or has offenses, leaves the cell
without a value. -/
def compile (eng : Engine) (c : Cell) (source : String) : Cell :=
  let c := { c with expression := source, evalError? := none }
  match eng.compile source with
  | .ok compiled =>
    { c with
      expr := compiled.expr
      offenses := compiled.offenses
      compileError? := compiled.disallowed?
      value := if compiled.isSafe then c.value else .absent }
  | .error e => { c with expr := .empty, offenses := [], compileError? := some e, value := .absent }

def setComputed (c : Cell) (v : Value) : Cell := { c with value := v, evalError? := none }

def fail (c : Cell) (e : FormulaError) : Cell := { c with value := .absent, evalError? := some e }

/-- Evaluates the expression in a scope and keeps its value. An input keeps the value it has, and a
compile error leaves none. The error of an evaluation is only answered. -/
def evaluate (eng : Engine) (scope : Scope) (c : Cell) : Except FormulaError Value × Cell :=
  if c.input?.isSome then (.ok c.value, c)
  else
    let c := { c with evalError? := none }
    if c.compileError?.isSome then (.ok .absent, { c with value := .absent })
    else match eng.eval scope c.expr with
      | .ok v => (.ok v, { c with value := v })
      | .error e => (.error e, c)

def create (eng : Engine) (id : CellId) (o : CellOptions) : Cell :=
  let c : Cell :=
    { id := id, name := o.name, expression := "", expr := .empty, offenses := [],
      compileError? := none, evalError? := none, input? := none, value := .absent,
      tags := o.tags.foldl addNew [], listeners := Listeners.empty }
  match o.input? with
  | some i => { c with input? := some i, value := i.startValue }
  | none => c.compile eng o.expression

/-! ### Changes -/

def announce (c : Cell) (e : CellEvent) : Change := ⟨c, some e, c.listeners.ids⟩

def unchanged (c : Cell) : Change := ⟨c, none, []⟩

/-- Replaces the expression, unless the cell has an input. -/
def updateExpression (eng : Engine) (source : String) (c : Cell) : Change :=
  if c.input?.isSome then c.unchanged else (c.compile eng source).announce .expressionChanged

/-- Replaces the expression by a function of its text. -/
def transformExpression (eng : Engine) (f : String → String) (c : Cell) : Change :=
  c.updateExpression eng (f c.expression)

/-- Gives the cell an input in place of its expression. -/
def setInput (i : Input) (c : Cell) : Change :=
  announce { c.clearExpression with value := i.startValue, input? := some i } .inputSet

/-- Takes the input away, if there is one, and with it the value. -/
def clearInput (c : Cell) : Change :=
  if c.input?.isSome then
    announce { c.clearExpression with input? := none, value := .absent } .inputCleared
  else c.unchanged

def setValue (v : Value) (c : Cell) : Change := announce { c with value := v } .valueChanged

/-- Gives the cell another name. The expressions of other cells are not touched. -/
def rename (name : String) (c : Cell) : Change :=
  if name = c.name then c.unchanged else announce { c with name := name } (.renamed c.name name)

/-- Gives the cell tags, each once, in place of those it has. -/
def setTags (tags : List String) (c : Cell) : Change :=
  announce { c with tags := tags.foldl addNew [] } .tagsChanged

def addTag (tag : String) (c : Cell) : Change :=
  if c.tags.contains tag then c.unchanged
  else announce { c with tags := c.tags ++ [tag] } .tagsChanged

def removeTag (tag : String) (c : Cell) : Change :=
  if c.tags.contains tag then announce { c with tags := c.tags.filter (· != tag) } .tagsChanged
  else c.unchanged

/-- Tells the listeners that the cell goes away, and lets them go. -/
def remove (c : Cell) : Change :=
  ⟨{ c with listeners := c.listeners.clear }, some .removed, c.listeners.ids⟩

def subscribe (c : Cell) : Cell := { c with listeners := c.listeners.add }

def unsubscribe (id : ListenerId) (c : Cell) : Cell := { c with listeners := c.listeners.remove id }

end Cell

end FormulaSheet
