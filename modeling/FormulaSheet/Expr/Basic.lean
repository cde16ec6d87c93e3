/-!
# Expressions

The tree of an expression. A run of operators of one precedence level is a single node, so that a
long sum is not deep. Names and property accesses keep the byte range they were read from.
-/

namespace FormulaSheet

/-- The bytes from `start` up to but not including `stop`. -/
structure Span where
  start : Nat
  stop : Nat
deriving DecidableEq, Repr, Inhabited

/-- The operators with one operand. -/
inductive UnaryOp where
  | negate | plus | not | typeOf
deriving DecidableEq, Repr

/-- The operators with two operands that are always evaluated. -/
inductive BinaryOp where
  | add | subtract | multiply | divide | remainder | power
  | equal | notEqual | strictEqual | strictNotEqual
  | less | lessEqual | greater | greaterEqual
deriving DecidableEq, Repr

/-- The operators that evaluate no further than the operand that decides. -/
inductive LogicalOp where
  | and | or | nullish
deriving DecidableEq, Repr

/-- The name of an object entry; `shorthand` when the entry is written as its name alone. -/
structure EntryKey where
  name : String
  shorthand : Bool
deriving DecidableEq, Repr

/-- An expression. -/
inductive Expr where
  | empty
  | number (x : Float)
  | text (s : String)
  | boolean (b : Bool)
  | null
  /-- The literal `undefined`. -/
  | undefined
  | ident (name : String) (span : Span)
  | unary (op : UnaryOp) (operand : Expr)
  /-- `first op₁ e₁ op₂ e₂ …`, grouped to the left. A run of `**` has one operator, and its operand
  may be such a run again. -/
  | binary (first : Expr) (rest : List (BinaryOp × Expr))
  | logical (op : LogicalOp) (operands : List Expr)
  | conditional (test consequent alternate : Expr)
  /-- `target.property`; the span covers both. -/
  | member (target : Expr) (property : String) (span : Span)
  | index (target key : Expr)
  | call (callee : Expr) (args : List Expr)
  | array (items : List Expr)
  | object (entries : List (EntryKey × Expr))
deriving Repr

instance : Inhabited Expr := ⟨.empty⟩

namespace Expr

mutual
/-- The nodes of a tree: every node before its children, and these from left to right. -/
def nodes : Expr → List Expr
  | e@(unary _ operand) => e :: nodes operand
  | e@(binary first rest) => e :: (nodes first ++ runNodes rest)
  | e@(logical _ operands) => e :: listNodes operands
  | e@(conditional test consequent alternate) =>
    e :: (nodes test ++ nodes consequent ++ nodes alternate)
  | e@(member target _ _) => e :: nodes target
  | e@(index target key) => e :: (nodes target ++ nodes key)
  | e@(call callee args) => e :: (nodes callee ++ listNodes args)
  | e@(array items) => e :: listNodes items
  | e@(object entries) => e :: entryNodes entries
  | e => [e]

def listNodes : List Expr → List Expr
  | [] => []
  | e :: rest => nodes e ++ listNodes rest

def runNodes : List (BinaryOp × Expr) → List Expr
  | [] => []
  | (_, e) :: rest => nodes e ++ runNodes rest

def entryNodes : List (EntryKey × Expr) → List Expr
  | [] => []
  | (_, e) :: rest => nodes e ++ entryNodes rest
end

mutual
/-- The number of nodes on the longest path from the root. -/
def height : Expr → Nat
  | unary _ operand => height operand + 1
  | binary first rest => max (height first) (runHeight rest) + 1
  | logical _ operands => listHeight operands + 1
  | conditional test consequent alternate =>
    max (height test) (max (height consequent) (height alternate)) + 1
  | member target _ _ => height target + 1
  | index target key => max (height target) (height key) + 1
  | call callee args => max (height callee) (listHeight args) + 1
  | array items => listHeight items + 1
  | object entries => entryHeight entries + 1
  | _ => 1

/-- The height of the highest tree of a list. -/
def listHeight : List Expr → Nat
  | [] => 0
  | e :: rest => max (height e) (listHeight rest)

/-- The height of the highest operand of a run. -/
def runHeight : List (BinaryOp × Expr) → Nat
  | [] => 0
  | (_, e) :: rest => max (height e) (runHeight rest)

/-- The height of the highest value of entries. -/
def entryHeight : List (EntryKey × Expr) → Nat
  | [] => 0
  | (_, e) :: rest => max (height e) (entryHeight rest)
end

def ident? : Expr → Option (String × Span)
  | ident name span => some (name, span)
  | _ => none

/-- The free names in source order, each as often as it occurs. -/
def identifiers (e : Expr) : List (String × Span) := e.nodes.filterMap ident?

def isEmpty : Expr → Bool
  | empty => true
  | _ => false

end Expr

end FormulaSheet
