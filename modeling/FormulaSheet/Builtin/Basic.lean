import FormulaSheet.FormulaError
import FormulaSheet.Value.Basic

/-!
# Builtin functions

A builtin function maps argument values to a value or an error and lives in a namespace. A registry
holds the functions that expressions can reach, the namespaces and the functions of each in the
order of their registration.
-/

namespace FormulaSheet

/-- A builtin function. A volatile one may answer differently from one run to the next. -/
structure Builtin where
  space : String
  name : String
  minArgs : Nat
  maxArgs? : Option Nat
  run : List Value → Except FormulaError Value
  volatile : Bool

/-- The number of arguments does not suit the function. -/
def Builtin.arityFault? (f : Builtin) (count : Nat) : Option Arity :=
  if count < f.minArgs then some (.atLeast f.minArgs)
  else match f.maxArgs? with
    | some most => if most < count then some (.atMost most) else none
    | none => none

/-- The functions within reach, by namespace and name. -/
structure Registry where
  spaces : Fields (Fields Builtin)

namespace Registry

def empty : Registry := ⟨[]⟩

/-- Adds a function, in place of an earlier one of the same name. -/
def register (r : Registry) (f : Builtin) : Registry :=
  ⟨Fields.insert r.spaces f.space (Fields.insert ((Fields.get? r.spaces f.space).getD []) f.name f)⟩

def ofList (fs : List Builtin) : Registry := fs.foldl register empty

def get? (r : Registry) (space name : String) : Option Builtin :=
  (Fields.get? r.spaces space).bind (Fields.get? · name)

def hasSpace (r : Registry) (name : String) : Bool := Fields.contains r.spaces name

/-- The namespaces in the order of registration. -/
def spaceNames (r : Registry) : List String := Fields.keys r.spaces

/-- What a namespace evaluates to: an object with a handle for each of its functions. -/
def spaceValue? (r : Registry) (name : String) : Option Value :=
  (Fields.get? r.spaces name).map fun functions =>
    .object (functions.map fun p => (p.1, .callable ⟨p.2.space, p.2.name⟩))

end Registry

namespace Builtin

/-- What the functions know of the world: the time in milliseconds since 1970, and a number drawn
from the numbers from 0 to below 1. All calls in one pass over a document find the same; from one
pass to the next both may change. -/
structure Ambient where
  now : Float
  random : Float

/-- An argument, absent where fewer were passed. -/
def arg (args : List Value) (i : Nat) : Value := args.getD i .absent

end Builtin

end FormulaSheet
