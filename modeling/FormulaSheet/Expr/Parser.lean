import FormulaSheet.Decimal.Layout
import FormulaSheet.Expr.Basic
import FormulaSheet.Expr.Token

/-!
# Reading expressions

Expressions are read from tokens by one function for each precedence level, from the loosest to the
tightest: conditional, `??`, `||`, `&&`, equality, relation, sum, product, power, unary, postfix,
primary. A run of operators of one level is read by a loop. Everything that nests goes through
`descend`, which counts the room for nesting down: the branches of a conditional, the right side of
a power, the operand of a unary operator, what stands in brackets, and each link of a chain of
accesses and calls.
-/

namespace FormulaSheet.Expr

/-- The tokens still to be read, and where the last token read stopped. -/
structure Reading where
  tokens : Tokens
  stop : Nat

abbrev Parser := StateT Reading (Except SyntaxError)

namespace Parser

def failAt {α : Type} (fault : SyntaxFault) (position : Nat) : Parser α := fun _ =>
  .error ⟨fault, position⟩

/-- The lexeme to be read next; there is none at the end of the text. -/
def next? : Parser (Option Lexeme) := fun r =>
  match r.tokens with
  | .next l _ => .ok (some l, r)
  | _ => .ok (none, r)

/-- Where the next token starts; at the end of the text, that end. -/
def position : Parser Nat := fun r =>
  match r.tokens with
  | .next l _ => .ok (l.start, r)
  | .finish position => .ok (position, r)
  | .broken e => .ok (e.position, r)

def token? : Parser (Option Token) := do return (← next?).map Lexeme.token

/-- Passes the next token. The token after it has to be readable. -/
def pass : Parser Unit := fun r =>
  match r.tokens with
  | .next _ (.broken e) => .error e
  | .next l rest => .ok ((), ⟨rest, l.stop⟩)
  | _ => .ok ((), r)

def lastStop : Parser Nat := fun r => .ok (r.stop, r)

/-- A bound for the number of tokens that can still be passed. -/
def left : Parser Nat := fun r => .ok (r.tokens.length, r)

/-- Stops at the next token, which is none that can stand here. -/
def unexpected {α : Type} : Parser α := do
  match ← next? with
  | none => failAt .unexpectedEnd (← position)
  | some l =>
    match l.token with
    | .keyword word => failAt (.unexpectedKeyword word) l.start
    | _ => failAt (.unexpectedToken l.text) l.start

/-- Whether the next token is a given symbol. -/
def at? (s : Symbol) : Parser Bool := do return (← token?) = some (.symbol s)

def expect (s : Symbol) : Parser Unit := do
  if ← at? s then pass else unexpected

end Parser

open FormulaSheet.Expr.Parser

/-- What can be read one level deeper. -/
inductive Production where
  | conditional
  | power
  | unary
  /-- A link of a chain: the expression so far, and where its first token starts. -/
  | link (start : Nat) (target : Expr)

/-- The word that a token stands for as the name of a property. -/
def propertyName? : Token → Option String
  | .name s => some s
  | .keyword word => some word
  | .trueWord => some "true"
  | .falseWord => some "false"
  | .nullWord => some "null"
  | .typeofWord => some "typeof"
  | _ => none

/-! ### Operators of the levels -/

/-- `==`, `!=`, `===` and `!==`. -/
def equalityOp? : Symbol → Option BinaryOp
  | .equal => some .equal
  | .notEqual => some .notEqual
  | .strictEqual => some .strictEqual
  | .strictNotEqual => some .strictNotEqual
  | _ => none

/-- `<`, `<=`, `>` and `>=`. -/
def relationOp? : Symbol → Option BinaryOp
  | .less => some .less
  | .lessEqual => some .lessEqual
  | .greater => some .greater
  | .greaterEqual => some .greaterEqual
  | _ => none

/-- `+` and `-` between two operands. -/
def sumOp? : Symbol → Option BinaryOp
  | .plus => some .add
  | .minus => some .subtract
  | _ => none

/-- `*`, `/` and `%`. -/
def productOp? : Symbol → Option BinaryOp
  | .star => some .multiply
  | .slash => some .divide
  | .percent => some .remainder
  | _ => none

/-- `-`, `+`, `!` and `typeof` before an operand. -/
def unaryOp? : Token → Option UnaryOp
  | .symbol .minus => some .negate
  | .symbol .plus => some .plus
  | .symbol .bang => some .not
  | .typeofWord => some .typeOf
  | _ => none

def nextOp? (op? : Symbol → Option BinaryOp) : Parser (Option BinaryOp) := do
  match ← token? with
  | some (.symbol s) => return op? s
  | _ => return none

section Levels

variable (deeper : Production → Parser Expr)

/-! ### Lists -/

/-- Reads expressions with commas between them up to a closing symbol that is left unread. A comma
may follow the last one. -/
def items (close : Symbol) : Nat → Parser (List Expr)
  | 0 => pure []
  | fuel + 1 => do
    if ← at? close then return []
    let e ← deeper .conditional
    if ← at? .comma then
      pass
      return e :: (← items close fuel)
    else return [e]

/-- Reads a list up to its closing symbol. Every item takes a token. -/
def list (close : Symbol) : Parser (List Expr) := do
  let es ← items deeper close ((← left) + 1)
  expect close
  return es

/-- Reads an entry of an object: a name, text or number, and the value after a colon; a name alone
is a reference as well. -/
def entry : Parser (EntryKey × Expr) := do
  match ← next? with
  | none => unexpected
  | some l =>
    let key? := match l.token with
      | .text s => some s
      | .number x => some (Decimal.cellText x)
      | t => propertyName? t
    match key? with
    | none => unexpected
    | some key =>
      pass
      if ← at? .colon then
        pass
        return (⟨key, false⟩, ← deeper .conditional)
      else match l.token with
        | .name s => return (⟨key, true⟩, ident s ⟨l.start, l.stop⟩)
        | _ => unexpected

/-- Reads entries with commas between them up to a closing brace that is left unread. -/
def entries : Nat → Parser (List (EntryKey × Expr))
  | 0 => pure []
  | fuel + 1 => do
    if ← at? .braceClose then return []
    let e ← entry deeper
    if ← at? .comma then
      pass
      return e :: (← entries fuel)
    else return [e]

/-! ### Levels, from the tightest -/

/-- The expression of a name: a literal for three of them, a reference for all others. -/
def ofName (name : String) (span : Span) : Expr :=
  if name = "undefined" then undefined
  else if name = "NaN" then number (0.0 / 0.0)
  else if name = "Infinity" then number (1.0 / 0.0)
  else ident name span

/-- Literals, names, groups, lists and objects. -/
def primary : Parser Expr := do
  match ← next? with
  | none => unexpected
  | some l =>
    match l.token with
    | .number x => pass; return number x
    | .text s => pass; return text s
    | .trueWord => pass; return boolean true
    | .falseWord => pass; return boolean false
    | .nullWord => pass; return null
    | .name s => pass; return ofName s ⟨l.start, l.stop⟩
    | .symbol .parenOpen =>
      pass
      let e ← deeper .conditional
      expect .parenClose
      return e
    | .symbol .bracketOpen => pass; return array (← list deeper .bracketClose)
    | .symbol .braceOpen =>
      pass
      let es ← entries deeper ((← left) + 1)
      expect .braceClose
      return object es
    | _ => unexpected

/-- Goes on with a chain where a link follows. -/
def chain (start : Nat) (e : Expr) : Parser Expr := do
  match ← token? with
  | some (.symbol .dot) | some (.symbol .bracketOpen) | some (.symbol .parenOpen) =>
    deeper (.link start e)
  | _ => return e

/-- Reads a link of a chain, and the rest of the chain after it. -/
def link (start : Nat) (target : Expr) : Parser Expr := do
  match ← token? with
  | some (.symbol .dot) =>
    pass
    match (← token?).bind propertyName? with
    | none => unexpected
    | some property =>
      pass
      chain deeper start (member target property ⟨start, ← lastStop⟩)
  | some (.symbol .bracketOpen) =>
    pass
    let key ← deeper .conditional
    expect .bracketClose
    chain deeper start (index target key)
  | _ =>
    pass
    let args ← list deeper .parenClose
    chain deeper start (call target args)

/-- A primary expression with the accesses and calls that follow it. -/
def chained : Parser Expr := do
  let start ← position
  chain deeper start (← primary deeper)

def signed : Parser Expr := do
  match (← token?).bind unaryOp? with
  | some op =>
    pass
    return unary op (← deeper .unary)
  | none => chained deeper

/-- A power, grouped to the right. Its base may not begin with a unary operator. -/
def power : Parser Expr := do
  let startsUnary := ((← token?).bind unaryOp?).isSome
  let base ← signed deeper
  if ← at? .starStar then
    if startsUnary then failAt .unaryBeforePower (← position)
    else
      pass
      return binary base [(.power, ← deeper .power)]
  else return base

/-- The operators and operands that follow the first operand of a run. -/
def runRest (op? : Symbol → Option BinaryOp) (operand : Parser Expr) :
    Nat → Parser (List (BinaryOp × Expr))
  | 0 => pure []
  | fuel + 1 => do
    match ← nextOp? op? with
    | none => return []
    | some op =>
      pass
      let e ← operand
      return (op, e) :: (← runRest op? operand fuel)

def run (op? : Symbol → Option BinaryOp) (operand : Parser Expr) : Parser Expr := do
  let first ← operand
  match ← runRest op? operand ((← left) + 1) with
  | [] => return first
  | rest => return binary first rest

/-- The operands that follow the first one of a run of a logical operator. -/
def logicalRest (s : Symbol) (operand : Parser Expr) : Nat → Parser (List Expr)
  | 0 => pure []
  | fuel + 1 => do
    if ← at? s then
      pass
      let e ← operand
      return e :: (← logicalRest s operand fuel)
    else return []

def logicalRun (s : Symbol) (op : LogicalOp) (operand : Parser Expr) : Parser Expr := do
  let first ← operand
  match ← logicalRest s operand ((← left) + 1) with
  | [] => return first
  | rest => return logical op (first :: rest)

def product : Parser Expr := run productOp? (power deeper)

def sum : Parser Expr := run sumOp? (product deeper)

def relation : Parser Expr := run relationOp? (sum deeper)

def equality : Parser Expr := run equalityOp? (relation deeper)

def conjunction : Parser Expr := logicalRun .andAnd .and (equality deeper)

def disjunction : Parser Expr := logicalRun .orOr .or (conjunction deeper)

/-- Runs of `??`. -/
def coalescence : Parser Expr := logicalRun .nullish .nullish (disjunction deeper)

def choice : Parser Expr := do
  let test ← coalescence deeper
  if ← at? .question then
    pass
    let consequent ← deeper .conditional
    expect .colon
    let alternate ← deeper .conditional
    return conditional test consequent alternate
  else return test

def produce : Production → Parser Expr
  | .conditional => choice deeper
  | .power => power deeper
  | .unary => signed deeper
  | .link start target => link deeper start target

end Levels

/-- Reads a production where there is room for one more level of nesting. -/
def descend (limit : Nat) : Nat → Production → Parser Expr
  | 0, _ => do failAt (.tooDeep limit) (← position)
  | room + 1, p => produce (descend limit room) p

/-- Reads a text as an expression in which at most `limit` levels nest. Blank text is the empty
expression. -/
def parse (limit : Nat) (source : String) : Except SyntaxError Expr :=
  let cs := source.toList
  if Text.allBlank cs then .ok empty
  else
    match Tokens.ofText cs with
    | .broken e => .error e
    | tokens =>
      let whole : Parser Expr := do
        let e ← descend limit limit .conditional
        match ← next? with
        | none => return e
        | some _ => unexpected
      (whole ⟨tokens, 0⟩).map Prod.fst

end FormulaSheet.Expr
