import FormulaSheet.Expr.SyntaxError

/-!
# Errors of expressions

What can go wrong when an expression is read, checked or evaluated.
-/

namespace FormulaSheet

/-- How many arguments a call should have had. -/
inductive Arity where
  | atLeast (n : Nat)
  | atMost (n : Nat)
deriving DecidableEq, Repr

def Arity.message : Arity → String
  | atLeast n => "at least " ++ toString n
  | atMost n => "at most " ++ toString n

/-- An error of an expression. -/
inductive FormulaError where
  | malformed (e : SyntaxError)
  | disallowed (names : List String)
  | undefinedName (name : String)
  | notCallable (name : String)
  /-- A property was read of null, or of no value at all. -/
  | propertyOfNothing (ofNull : Bool) (property : String)
  | argumentCount (function : String) (expected : Arity) (actual : Nat)
  | invalidArgument (message : String)
  | depthExceeded (limit : Nat)
  | stepBudgetExceeded (limit : Nat)
  | circularReference
deriving DecidableEq, Repr

/-- The kinds of errors of expressions. -/
inductive ErrorKind where
  | malformed | disallowed | runtime | circular
deriving DecidableEq, Repr

namespace FormulaError

def kind : FormulaError → ErrorKind
  | malformed _ => .malformed
  | disallowed _ => .disallowed
  | circularReference => .circular
  | _ => .runtime

def message : FormulaError → String
  | malformed e => e.message
  | disallowed names => "You are not allowed to use these functions: " ++ ", ".intercalate names
  | undefinedName name => name ++ " is not defined"
  | notCallable name => name ++ " is not a function"
  | propertyOfNothing ofNull property =>
    "Cannot read properties of " ++ (if ofNull then "null" else "undefined") ++
      " (reading '" ++ property ++ "')"
  | argumentCount function expected actual =>
    "Wrong number of arguments for " ++ function ++ ": expected " ++ expected.message ++
      ", got " ++ toString actual
  | invalidArgument message => "Invalid argument: " ++ message
  | depthExceeded limit => "Expression nested too deeply (limit " ++ toString limit ++ ")"
  | stepBudgetExceeded limit => "Evaluation exceeded the step budget of " ++ toString limit
  | circularReference => "Circular reference detected"

end FormulaError

end FormulaSheet
