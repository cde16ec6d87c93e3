import FormulaSheet.Builtin.Date
import FormulaSheet.Builtin.Json
import FormulaSheet.Builtin.Math
import FormulaSheet.Builtin.Number
import FormulaSheet.Builtin.Text

/-!
# All builtin functions
-/

namespace FormulaSheet

/-- The builtin functions in the order of their namespaces. -/
def Builtin.all (ambient : Builtin.Ambient) : List Builtin :=
  Builtin.Math.functions ambient ++ Builtin.Number.functions ++ Builtin.Text.functions ++
    Builtin.Date.functions ambient ++ Builtin.Json.functions

def Registry.builtins (ambient : Builtin.Ambient) : Registry :=
  Registry.ofList (Builtin.all ambient)

end FormulaSheet
