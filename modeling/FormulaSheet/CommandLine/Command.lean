import FormulaSheet.CommandLine.Arguments

/-!
# Commands

The commands of the program, the form of each, and how they are read from arguments.
-/

namespace FormulaSheet.CommandLine

/-- How the rows of a document are printed. -/
inductive Format where
  | table
  | json
deriving DecidableEq, Repr

/-- A command. Bindings and context entries are texts `NAME=JSON`. -/
inductive Command where
  /-- Recomputes a document and prints its rows, and with `write` puts it back into its file. -/
  | eval (file : String) (context : List String) (format : Format) (write : Bool)
  /-- Checks an expression against the capabilities it may use. -/
  | check (expression : String)
  | run (expression : String) (bindings : List String)
  | info (file : String)
deriving DecidableEq, Repr

namespace Command

def contextSwitch : Switch := ⟨'c', "context", some "NAME=JSON", [], true⟩

def formatSwitch : Switch := ⟨'f', "format", some "FORMAT", ["table", "json"], false⟩

def writeSwitch : Switch := ⟨'w', "write", none, [], false⟩

def setSwitch : Switch := ⟨'s', "set", some "NAME=JSON", [], true⟩

/-- The form of `eval`. -/
def evalForm : Form := ⟨"eval", "INPUT", false, [contextSwitch, formatSwitch, writeSwitch]⟩

/-- The form of `check`. -/
def checkForm : Form := ⟨"check", "EXPRESSION", true, []⟩

/-- The form of `run`. -/
def runForm : Form := ⟨"run", "EXPRESSION", true, [setSwitch]⟩

/-- The form of `info`. -/
def infoForm : Form := ⟨"info", "INPUT", false, []⟩

/-- The format that was asked for, the table if none was. -/
def formatOf (g : Given) : Format :=
  if (g.values formatSwitch).contains "json" then .json else .table

def ofArguments : List String → Except UsageFault Command
  | [] => .error .missingCommand
  | "eval" :: args => do
    let (file, g) ← evalForm.read args
    return .eval file (g.values contextSwitch) (formatOf g) (g.has writeSwitch)
  | "check" :: args => do return .check (← checkForm.read args).1
  | "run" :: args => do
    let (expression, g) ← runForm.read args
    return .run expression (g.values setSwitch)
  | "info" :: args => do return .info (← infoForm.read args).1
  | name :: _ =>
    if looksLikeOption name then .error (.unexpected name false generalUsage)
    else .error (.unknownCommand name)

def file? : Command → Option String
  | eval file _ _ _ | info file => some file
  | check _ | run _ _ => none

end Command

end FormulaSheet.CommandLine
