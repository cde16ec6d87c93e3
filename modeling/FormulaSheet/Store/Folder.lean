import FormulaSheet.Json.Printer
import FormulaSheet.Record.Reader
import FormulaSheet.SheetError

/-!
# Documents in files

A document is a file `<id>.json` in a folder. A new text is first written beside it as
`<id>.json.tmp`, which then takes its place, so that the document is there whole at any time.
-/

namespace FormulaSheet

/-- What stands under a name in a folder. -/
inductive FolderEntry where
  | file (text : String)
  | folder
deriving DecidableEq, Repr

/-- A folder. -/
structure Folder where
  entries : Fields FolderEntry

namespace Folder

def empty : Folder := ⟨[]⟩

def read? (f : Folder) (name : String) : Option String :=
  match Fields.get? f.entries name with
  | some (.file text) => some text
  | _ => none

/-- Writes a file, unless a folder has its name. -/
def write? (f : Folder) (name text : String) : Option Folder :=
  match Fields.get? f.entries name with
  | some .folder => none
  | _ => some ⟨Fields.insert f.entries name (.file text)⟩

/-- Makes a folder in the folder, unless the name is taken. -/
def makeFolder? (f : Folder) (name : String) : Option Folder :=
  if Fields.contains f.entries name then none else some ⟨Fields.insert f.entries name .folder⟩

/-- Gives a file another name, in place of a file of that name; a folder stays. -/
def rename? (f : Folder) (old new : String) : Option Folder :=
  match f.read? old, Fields.get? f.entries new with
  | none, _ | _, some .folder => none
  | some text, _ => some ⟨Fields.insert (Fields.erase f.entries old) new (.file text)⟩

def fileName (id : String) : String := id ++ ".json"

/-- The file in which the text of a document is first written. -/
def draftName (id : String) : String := fileName id ++ ".tmp"

/-- The record of a document, if there is one. -/
def load (f : Folder) (id : String) : Except SheetError (Option Record) :=
  if !isDocumentId id then .error (.invalidDocumentId id)
  else match Fields.get? f.entries (fileName id) with
    | none => .ok none
    | some .folder => .error (.storage "Is a directory (os error 21)")
    | some (.file text) =>
      match Record.parse text with
      | .ok r => .ok (some r)
      | .error e => .error (.json e)

/-- Stores a record under an id, in place of an earlier one. Where the draft cannot take its place
it is left in the folder. -/
def replace (f : Folder) (id : String) (r : Record) : Except SheetError Unit × Folder :=
  if !isDocumentId id then (.error (.invalidDocumentId id), f)
  else match f.write? (draftName id) r.toJson.pretty with
    | none => (.error (.storage "Is a directory (os error 21)"), f)
    | some f =>
      match f.rename? (draftName id) (fileName id) with
      | none => (.error (.storage "Is a directory (os error 21)"), f)
      | some f => (.ok (), f)

/-- The names in the folder, in the order of their characters. -/
def names (f : Folder) : List String := (Fields.keys f.entries).mergeSort fun a b => a ≤ b

end Folder

end FormulaSheet
