import FormulaSheet.FormulaError
import FormulaSheet.SheetError

/-!
# Failures

A failure says what could not be done, and below it why: one cause, or several where each is behind
the one before it and all are numbered.
-/

namespace FormulaSheet.CommandLine

/-- What could not be done, and why. -/
structure Failure where
  message : String
  causes : List String
deriving DecidableEq, Repr

/-- A text in which every line but the first is moved to the right. -/
def hanging (indent text : String) : String :=
  String.ofList (text.toList.flatMap fun c => if c = '\n' then '\n' :: indent.toList else [c])

/-- A number of at most five characters, moved to the right. -/
def numbered (i : Nat) : String :=
  let digits := toString i
  String.ofList (List.replicate (5 - digits.length) ' ') ++ digits ++ ": "

/-- The lines of the causes. Every line of a cause is indented. -/
def causeLines : List String → List String
  | [] => []
  | [cause] => ["    " ++ hanging "    " cause]
  | causes => causes.zipIdx.map fun p => numbered p.2 ++ hanging "       " p.1

def Failure.report (f : Failure) : String :=
  "Error: " ++ f.message ++
    (if f.causes.isEmpty then ""
      else "\n\nCaused by:\n" ++ "\n".intercalate (causeLines f.causes)) ++
    "\n"

/-- The failure of what an expression error prevented. -/
def Failure.ofFormula (message : String) (e : FormulaError) : Failure := ⟨message, [e.message]⟩

/-- The failure of what a sheet error prevented. Behind a fault in a JSON text stands the fault on
its own. -/
def Failure.ofSheet (message : String) (e : SheetError) : Failure :=
  match e with
  | .json fault => ⟨message, [e.message, fault.message]⟩
  | _ => ⟨message, [e.message]⟩

end FormulaSheet.CommandLine
