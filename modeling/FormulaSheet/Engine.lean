import FormulaSheet.Eval
import FormulaSheet.Expr.Parser
import FormulaSheet.Expr.Safety

/-!
# Engines

An engine reads, checks and evaluates expressions under one policy, one registry of functions and
one pair of limits.
-/

namespace FormulaSheet

/-- What expressions are read, checked and evaluated with. -/
structure Engine where
  policy : Policy
  registry : Registry
  limits : Limits

/-- An expression that was read and checked. -/
structure Compiled where
  expr : Expr
  offenses : List Offense

namespace Compiled

def isSafe (c : Compiled) : Bool := c.offenses.isEmpty

/-- The error of an expression with offenses, which names each of them once. -/
def disallowed? (c : Compiled) : Option FormulaError :=
  if c.isSafe then none else some (.disallowed ((c.offenses.map Offense.name).foldl addNew []))

end Compiled

namespace Engine

/-- Reads and checks a text. Only the reading can fail. -/
def compile (eng : Engine) (source : String) : Except FormulaError Compiled :=
  match Expr.parse eng.limits.maxDepth source with
  | .error e => .error (.malformed e)
  | .ok e => .ok ⟨e, e.offenses eng.policy⟩

/-- Evaluates an expression that was found safe. -/
def eval (eng : Engine) (scope : Scope) (e : Expr) : Except FormulaError Value :=
  e.eval eng.registry eng.limits scope

/-- Reads a text, refuses it where it has offenses, and evaluates it. -/
def run (eng : Engine) (scope : Scope) (source : String) : Except FormulaError Value := do
  let c ← eng.compile source
  match c.disallowed? with
  | some e => .error e
  | none => eng.eval scope c.expr

/-- A name that a row can take: expressions can refer to it, and it hides no namespace and no
denied name. -/
def isValidName (eng : Engine) (name : String) : Bool :=
  Token.isIdentifier name && !eng.policy.isSpace name && !eng.policy.isDenied name

/-- The names that an expression reads, each once, in the order in which they first occur.
Namespaces of the policy are not among them. -/
def freeNames (eng : Engine) (e : Expr) : List String :=
  ((e.identifiers.map Prod.fst).filter fun name => !eng.policy.isSpace name).foldl addNew []

/-- A call of a volatile function of a namespace. -/
def callsVolatile (eng : Engine) : Expr → Bool
  | .call (.member (.ident space _) name _) _ =>
    ((eng.registry.get? space name).map Builtin.volatile).getD false
  | _ => false

/-- The expression calls a volatile function somewhere. -/
def isVolatile (eng : Engine) (e : Expr) : Bool := e.nodes.any eng.callsVolatile

end Engine

end FormulaSheet
