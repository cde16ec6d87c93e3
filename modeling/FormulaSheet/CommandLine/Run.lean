import FormulaSheet.Builtin.All
import FormulaSheet.CommandLine.Command
import FormulaSheet.CommandLine.Failure
import FormulaSheet.CommandLine.Table
import FormulaSheet.Document.Record
import FormulaSheet.Json.Printer
import FormulaSheet.Json.Reader

/-!
# What commands do

A command reads at most one file. What it prints, how it ends and what it wants to write is an
outcome; the reading and the writing itself is left to the caller.
-/

namespace FormulaSheet.CommandLine

/-- A document to be put back into its file, and the number of its rows. -/
structure Save where
  file : String
  text : String
  rows : Nat
deriving DecidableEq, Repr

/-- What is printed once the document is written. -/
def Save.report (s : Save) : String :=
  "Wrote " ++ toString s.rows ++ " rows to '" ++ s.file ++ "'\n"

/-- What is printed where it cannot be written. -/
def Save.failure (s : Save) (cause : String) : Failure :=
  ⟨"Failed to write '" ++ s.file ++ "'", [cause]⟩

/-- How a command ends: its exit code, the texts for the two streams, and what is to be written
after that. -/
structure Outcome where
  code : Nat
  out : String
  err : String
  save? : Option Save
deriving DecidableEq, Repr

/-- A command that did what it was asked for. -/
def Outcome.done (out : String) : Outcome := ⟨0, out, "", none⟩

def Outcome.failed (f : Failure) : Outcome := ⟨1, "", f.report, none⟩

def Outcome.ofExcept : Except Failure Outcome → Outcome
  | .ok o => o
  | .error f => failed f

def ticked (s : String) : String := "'" ++ s ++ "'"

def engine (ambient : Builtin.Ambient) : Engine :=
  ⟨Policy.default, Registry.builtins ambient, Limits.default⟩

/-- A binding `NAME=JSON`. A text that is no JSON stands for itself. -/
def binding (pair : String) : Except Failure (String × Value) :=
  let cs := pair.toList
  match cs.dropWhile (· != '=') with
  | [] => .error ⟨"Expected NAME=JSON, got " ++ ticked pair, []⟩
  | _ :: rest =>
    let name := String.ofList (Text.trim (cs.takeWhile (· != '=')))
    if name.isEmpty then .error ⟨"Missing name in " ++ ticked pair, []⟩
    else
      let raw := String.ofList rest
      match Json.parse raw with
      | .ok j => .ok (name, Value.ofJson j)
      | .error _ => .ok (name, .text raw)

/-- The bindings, in which a later one of a name goes before an earlier one. -/
def bindings (pairs : List String) : Except Failure (Fields Value) :=
  Fields.ofList <$> pairs.mapM binding

def display (v : Value) : String :=
  match v with
  | .absent => "undefined"
  | .callable c => "[Function " ++ c.qualifiedName ++ "]"
  | .array _ | .object _ => v.toJson.compact
  | _ => v.toText

/-- The names in a row, or that there are none. -/
def namesOrNone (names : List String) : String :=
  if names.isEmpty then "none" else ", ".intercalate names

def cellRow (c : Cell) : List String :=
  [c.name, c.kind.label, display c.value, (c.error?.map FormulaError.message).getD ""]

def documentTable (d : Document) : String :=
  Table.render ["NAME", "KIND", "VALUE", "ERROR"] (d.cellList.map cellRow)

def summary (d : Document) : String :=
  "Recomputed " ++ toString d.cells.length ++ " rows (" ++ toString d.stats.evaluated ++
    " evaluated, " ++ toString d.stats.errors ++ " errors, " ++ toString d.stats.cycles ++
    " in cycles)\n"

/-- The document in a file, of which `content` is the text, or why it cannot be read. -/
def openDocument (eng : Engine) (context : Fields Value) (file : String)
    (content : Except String String) : Except Failure Document :=
  match content with
  | .error cause => .error ⟨"Failed to open " ++ ticked file, [cause]⟩
  | .ok text =>
    match Document.ofJson eng context text with
    | .error e => .error (.ofSheet ("Failed to load document " ++ ticked file) e)
    | .ok d => .ok d

/-- What `eval` does. The bindings are read before the file. -/
def evalDocument (eng : Engine) (file : String) (context : List String) (format : Format)
    (write : Bool) (content : Except String String) : Except Failure Outcome := do
  let context ← bindings context
  let d ← openDocument eng context file content
  let text := d.toJson
  let out := match format with
    | .json => text ++ "\n"
    | .table => documentTable d
  return ⟨0, out, summary d, if write then some ⟨file, text, d.cells.length⟩ else none⟩

/-- What `info` does. -/
def showInfo (eng : Engine) (file : String) (content : Except String String) :
    Except Failure Outcome := do
  let d ← openDocument eng [] file content
  let cells := d.cellList
  let names (p : Cell → Bool) := namesOrNone ((cells.filter p).map Cell.name)
  return .done <| String.join
    ["File: ", file, "\n",
     "Rows: ", toString cells.length, "\n",
     "Inputs: ", toString (cells.countP fun c => c.input?.isSome), "\n",
     "Rejected: ", names fun c => !c.isSafe, "\n",
     "Volatile: ", names (Cell.isVolatile eng), "\n",
     "Cycles: ", toString d.stats.cycles, "\n"]

/-- What `check` does. The offenses are listed before the failure. -/
def checkExpression (eng : Engine) (source : String) : Outcome :=
  match eng.compile source with
  | .error e => .failed (.ofFormula ("Failed to parse " ++ ticked source) e)
  | .ok c =>
    match c.disallowed? with
    | some e =>
      let lines :=
        c.offenses.map fun o => "  " ++ o.name ++ " at offset " ++ toString o.position ++ "\n"
      ⟨1, "", String.join lines ++ (Failure.mk e.message []).report, none⟩
    | none =>
      let names := eng.freeNames c.expr
      .done ("ok\n" ++
        (if names.isEmpty then "" else "reads: " ++ ", ".intercalate names ++ "\n") ++
        (if eng.isVolatile c.expr then "volatile: yes\n" else ""))

/-- What `run` does. The bindings are read before the expression. -/
def runExpression (eng : Engine) (source : String) (pairs : List String) :
    Except Failure Outcome := do
  let scope ← bindings pairs
  match eng.run scope source with
  | .error e => throw (.ofFormula ("Failed to evaluate " ++ ticked source) e)
  | .ok v => return .done (display v ++ "\n")

/-- What a command does. `content` is the text of the file that it reads, if it reads one, or why
that cannot be read. -/
def Command.perform (ambient : Builtin.Ambient) (content : Except String String) :
    Command → Outcome
  | .eval file context format write =>
    .ofExcept (evalDocument (engine ambient) file context format write content)
  | .check source => checkExpression (engine ambient) source
  | .run source pairs => .ofExcept (runExpression (engine ambient) source pairs)
  | .info file => .ofExcept (showInfo (engine ambient) file content)

/-- What the program does with its arguments; `read` gives the text of a file. -/
def perform (ambient : Builtin.Ambient) (read : String → Except String String)
    (args : List String) : Outcome :=
  match Command.ofArguments args with
  | .error fault => ⟨2, "", fault.message, none⟩
  | .ok command =>
    command.perform ambient (match command.file? with
      | some file => read file
      | none => .ok "")

/-- What stands in place of the text of a file that is not there. -/
def noSuchFile : String := "No such file or directory (os error 2)"

end FormulaSheet.CommandLine
