import FormulaSheet.Builtin.Math
import FormulaSheet.Expr.Basic
import FormulaSheet.Value.Compare

/-!
# Evaluating expressions

An expression is evaluated in a scope of named values. A free name is looked up in the scope, then
among the namespaces of the registry; nothing else is within reach. The depth of the node is passed
down, and the nodes visited are counted: both have a limit.
-/

namespace FormulaSheet

/-- Limits of the work on one expression: how deep it may nest, both when read and when evaluated,
and how many nodes an evaluation may visit. -/
structure Limits where
  maxDepth : Nat
  maxSteps : Nat
deriving DecidableEq, Repr

/-- The limits of a sheet that is given no others. -/
def Limits.default : Limits := ⟨256, 100000⟩

/-- The values that an expression can refer to by name. -/
abbrev Scope := Fields Value

/-- What an evaluation depends on. -/
structure Env where
  registry : Registry
  limits : Limits
  scope : Scope

/-- An evaluation that counts the nodes it visits. -/
abbrev Eval := StateT Nat (Except FormulaError)

namespace Eval

def fail {α : Type} (e : FormulaError) : Eval α := fun _ => .error e

def ofExcept {α : Type} (r : Except FormulaError α) : Eval α := fun steps =>
  match r with
  | .ok a => .ok (a, steps)
  | .error e => .error e

def visit (limits : Limits) (depth : Nat) : Eval Unit := fun steps =>
  if limits.maxSteps < steps + 1 then .error (.stepBudgetExceeded limits.maxSteps)
  else if limits.maxDepth ≤ depth then .error (.depthExceeded limits.maxDepth)
  else .ok ((), steps + 1)

end Eval

namespace Value

/-- The index that a value addresses: a whole number from zero on, or its usual text. -/
def arrayIndex? : Value → Option Nat
  | number x =>
    if Decimal.isWhole x && 0 ≤ x && x < 18446744073709551616 then some (Decimal.wholePart x).toNat
    else none
  | text s =>
    let cs := s.toList
    if !cs.isEmpty && cs.all Char.isDigit then
      let n := Decimal.natOfDigits cs
      if n < UInt64.size && Decimal.digitsText n = s then some n else none
    else none
  | _ => none

/-- A property of a value. Reading one of nothing is an error; a value without the property has it
absent. -/
def property (target : Value) (name : String) : Except FormulaError Value :=
  match target with
  | absent => .error (.propertyOfNothing false name)
  | null => .error (.propertyOfNothing true name)
  | object fields => .ok ((Fields.get? fields name).getD .absent)
  | array items => .ok (if name = "length" then number (Float.ofNat items.length) else .absent)
  | text s => .ok (if name = "length" then number (Float.ofNat (Text.units s).length) else .absent)
  | callable c => .ok (if name = "name" then text c.name else .absent)
  | boolean _ | number _ => .ok .absent

/-- The item of a list, the UTF-16 unit of a text or a property, as a key addresses it. -/
def item (target key : Value) : Except FormulaError Value :=
  match target, key.arrayIndex? with
  | array items, some i => .ok (items.getD i .absent)
  | text s, some i => .ok (((Text.unit? s i).map Value.text).getD .absent)
  | _, _ => target.property key.toText

/-- The sum of two numbers, or the join of two texts where one of the values is a text. -/
def add (v w : Value) : Value :=
  match v.toPrimitive, w.toPrimitive with
  | text s, w => text (s ++ w.toText)
  | v, text t => text (v.toText ++ t)
  | v, w => number (v.toNumber + w.toNumber)

end Value

def BinaryOp.apply (op : BinaryOp) (v w : Value) : Value :=
  match op with
  | add => v.add w
  | subtract => .number (v.toNumber - w.toNumber)
  | multiply => .number (v.toNumber * w.toNumber)
  | divide => .number (v.toNumber / w.toNumber)
  | remainder => .number (Decimal.remainder v.toNumber w.toNumber)
  | power => .number (Builtin.Math.power v.toNumber w.toNumber)
  | equal => .boolean (v.looseEquals w)
  | notEqual => .boolean (!v.looseEquals w)
  | strictEqual => .boolean (v.strictEquals w)
  | strictNotEqual => .boolean (!v.strictEquals w)
  | less => .boolean (v.compare? w = some .lt)
  | lessEqual => .boolean (v.compare? w = some .lt || v.compare? w = some .eq)
  | greater => .boolean (v.compare? w = some .gt)
  | greaterEqual => .boolean (v.compare? w = some .gt || v.compare? w = some .eq)

def UnaryOp.apply (op : UnaryOp) (v : Value) : Value :=
  match op with
  | negate => .number (-v.toNumber)
  | plus => .number v.toNumber
  | not => .boolean (!v.isTruthy)
  | typeOf => .text v.typeOf

/-- The operand's value decides a run of the operator. -/
def LogicalOp.decides (op : LogicalOp) (v : Value) : Bool :=
  match op with
  | and => !v.isTruthy
  | or => v.isTruthy
  | nullish => !v.isNullish

namespace Expr

def calleeName : Expr → String
  | ident name _ => name
  | member target property _ => calleeName target ++ "." ++ property
  | index target _ => calleeName target ++ "[...]"
  | _ => "(intermediate value)"

end Expr

namespace Env

def binds (env : Env) (name : String) : Bool :=
  Fields.contains env.scope name || env.registry.hasSpace name

def lookup (env : Env) (name : String) : Except FormulaError Value :=
  match Fields.get? env.scope name with
  | some v => .ok v
  | none =>
    match env.registry.spaceValue? name with
    | some v => .ok v
    | none => .error (.undefinedName name)

/-- The function that a called value stands for, with the number of arguments it is called with. -/
def callee (env : Env) (e : Expr) (v : Value) (count : Nat) : Except FormulaError Builtin :=
  match v with
  | .callable c =>
    match env.registry.get? c.space c.name with
    | none => .error (.notCallable c.qualifiedName)
    | some f =>
      match f.arityFault? count with
      | some arity => .error (.argumentCount c.qualifiedName arity count)
      | none => .ok f
  | _ => .error (.notCallable e.calleeName)

end Env

namespace Expr

/-- The operand of a `typeof` is a name that refers to nothing. -/
def isUnbound (env : Env) (op : UnaryOp) : Expr → Bool
  | ident name _ => op = .typeOf && !env.binds name
  | _ => false

mutual
def evalAt (env : Env) (depth : Nat) (e : Expr) : Eval Value := do
  Eval.visit env.limits depth
  match e with
  | empty | undefined => return .absent
  | number x => return .number x
  | text s => return .text s
  | boolean b => return .boolean b
  | null => return .null
  | ident name _ => Eval.ofExcept (env.lookup name)
  | unary op operand =>
    if isUnbound env op operand then return .text "undefined"
    else return op.apply (← evalAt env (depth + 1) operand)
  | binary first rest => evalRun env (depth + 1) (← evalAt env (depth + 1) first) rest
  | logical op operands => evalLogical env (depth + 1) op operands .absent
  | conditional test consequent alternate =>
    if (← evalAt env (depth + 1) test).isTruthy then evalAt env (depth + 1) consequent
    else evalAt env (depth + 1) alternate
  | member target property _ =>
    Eval.ofExcept ((← evalAt env (depth + 1) target).property property)
  | index target key =>
    let v ← evalAt env (depth + 1) target
    Eval.ofExcept (v.item (← evalAt env (depth + 1) key))
  | call callee args =>
    let v ← evalAt env (depth + 1) callee
    let f ← Eval.ofExcept (env.callee callee v args.length)
    Eval.ofExcept (f.run (← evalList env (depth + 1) args))
  | array items => return .array (← evalList env (depth + 1) items)
  | object entries => return .object (← evalEntries env (depth + 1) entries [])

/-- Evaluates the items of a list from left to right. -/
def evalList (env : Env) (depth : Nat) : List Expr → Eval (List Value)
  | [] => return []
  | e :: rest => do
    let v ← evalAt env depth e
    return v :: (← evalList env depth rest)

/-- Evaluates the rest of a run of operators after the value reached so far. -/
def evalRun (env : Env) (depth : Nat) (v : Value) : List (BinaryOp × Expr) → Eval Value
  | [] => return v
  | (op, e) :: rest => do
    let w ← evalAt env depth e
    evalRun env depth (op.apply v w) rest

/-- Evaluates the operands of a logical run up to the one that decides. -/
def evalLogical (env : Env) (depth : Nat) (op : LogicalOp) : List Expr → Value → Eval Value
  | [], v => return v
  | e :: rest, _ => do
    let v ← evalAt env depth e
    if op.decides v then return v else evalLogical env depth op rest v

/-- Evaluates the entries of an object after the fields so far. -/
def evalEntries (env : Env) (depth : Nat) :
    List (EntryKey × Expr) → Fields Value → Eval (Fields Value)
  | [], fields => return fields
  | (key, e) :: rest, fields => do
    let v ← evalAt env depth e
    evalEntries env depth rest (Fields.insert fields key.name v)
end

def eval (registry : Registry) (limits : Limits) (scope : Scope) (e : Expr) :
    Except FormulaError Value :=
  (evalAt ⟨registry, limits, scope⟩ 0 e 0).map Prod.fst

end Expr

end FormulaSheet
