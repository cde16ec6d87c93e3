import FormulaSheet.CommandLine.Run
import Std.Time.DateTime.Timestamp

/-!
# The program

Reads the file that the command asks for, prints the outcome, and writes a document back.
-/

namespace FormulaSheet

/-- The words for a fault of the file system. -/
def systemFault : IO.Error → String
  | .noFileOrDirectory _ _ _ => CommandLine.noSuchFile
  | .permissionDenied _ code _ => "Permission denied (os error " ++ toString code ++ ")"
  | e => toString e

/-- The text of a file, or why it cannot be read. -/
def readText (file : String) : IO (Except String String) := do
  try return .ok (← IO.FS.readFile file)
  catch e => return .error (systemFault e)

/-- Writes a document, and tells how that went. -/
def writeBack (s : CommandLine.Save) : IO UInt32 := do
  try
    IO.FS.writeFile s.file s.text
    IO.eprint s.report
    return 0
  catch e =>
    IO.eprint (s.failure (systemFault e)).report
    return 1

/-- The present time in milliseconds, and a number from 0 to below 1. -/
def surroundings : IO Builtin.Ambient := do
  let now ← Std.Time.Timestamp.now
  let draw ← IO.rand 0 (Nat.pow 2 30 - 1)
  return ⟨Float.ofInt now.toMillisecondsSinceUnixEpoch.val, draw.toFloat / (Nat.pow 2 30).toFloat⟩

/-- Runs the program with its arguments, and returns its exit code. -/
def runProgram (args : List String) : IO UInt32 := do
  let file? := (CommandLine.Command.ofArguments args).toOption.bind CommandLine.Command.file?
  let content ← match file? with
    | some file => readText file
    | none => pure (.ok "")
  let outcome := CommandLine.perform (← surroundings) (fun _ => content) args
  IO.print outcome.out
  IO.eprint outcome.err
  match outcome.save? with
  | some s => writeBack s
  | none => return outcome.code.toUInt32

end FormulaSheet

def main (args : List String) : IO UInt32 := FormulaSheet.runProgram args
