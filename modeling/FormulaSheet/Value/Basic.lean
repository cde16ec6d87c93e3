import FormulaSheet.Fields

/-!
# Values

What a cell or a name of a scope can hold. `absent` stands for no value at all, `null` for a value
that was given and is nothing.
-/

namespace FormulaSheet

/-- A handle on a builtin function, such as `Math.max`; it need not exist. -/
structure Callable where
  space : String
  name : String
deriving DecidableEq, Repr

def Callable.qualifiedName (c : Callable) : String := c.space ++ "." ++ c.name

/-- A value. -/
inductive Value where
  | absent
  | null
  | boolean (b : Bool)
  | number (x : Float)
  | text (s : String)
  | array (items : List Value)
  | object (fields : List (String × Value))
  | callable (c : Callable)
deriving Repr

instance : Inhabited Value := ⟨.absent⟩

/-- The shape of what a cell shows; an error goes before the shape of the value. -/
inductive Kind where
  | number | text | boolean | null | absent | object | callable | array | error
deriving DecidableEq, Repr

def Kind.label : Kind → String
  | number => "number"
  | text => "text"
  | boolean => "boolean"
  | null => "null"
  | absent => "absent"
  | object => "object"
  | callable => "callable"
  | array => "array"
  | error => "error"

namespace Value

def kind : Value → Kind
  | absent => .absent
  | null => .null
  | boolean _ => .boolean
  | number _ => .number
  | text _ => .text
  | array _ => .array
  | object _ => .object
  | callable _ => .callable

def isAbsent : Value → Bool
  | absent => true
  | _ => false

def isNullish : Value → Bool
  | absent | null => true
  | _ => false

def asNumber? : Value → Option Float
  | number x => some x
  | _ => none

def asText? : Value → Option String
  | text s => some s
  | _ => none

/-- What counts as true in a condition: all but nothing, false, zero, not-a-number and the empty
text. -/
def isTruthy : Value → Bool
  | absent | null => false
  | boolean b => b
  | number x => x != 0 && !x.isNaN
  | text s => s != ""
  | array _ | object _ | callable _ => true

/-- What `typeof` answers. -/
def typeOf : Value → String
  | absent => "undefined"
  | null | array _ | object _ => "object"
  | boolean _ => "boolean"
  | number _ => "number"
  | text _ => "string"
  | callable _ => "function"

end Value

end FormulaSheet
