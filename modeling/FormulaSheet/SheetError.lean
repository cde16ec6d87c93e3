import FormulaSheet.Graph
import FormulaSheet.Input
import FormulaSheet.Json.Cursor

/-!
# Errors of sheets

What can go wrong when a sheet is changed, read or stored.
-/

namespace FormulaSheet

/-- An error of a sheet. -/
inductive SheetError where
  | cellNotFound (id : CellId)
  | duplicateId (id : CellId)
  | nameTaken (name : String)
  | invalidName (name : String)
  | invalidInputValue (fault : InputFault)
  | invalidDocumentId (id : String)
  | json (e : Json.ReadError)
  /-- The place where documents are kept failed, with the system's words for it. -/
  | storage (message : String)

def SheetError.message : SheetError → String
  | cellNotFound id => "Cell not found: " ++ id
  | duplicateId id => "Duplicate cell id: " ++ id
  | nameTaken name => "Cell name already in use: " ++ name
  | invalidName name => "Invalid cell name: " ++ name
  | invalidInputValue fault => "Invalid input value: " ++ fault.message
  | invalidDocumentId id => "Invalid document id: " ++ id
  | json e => "JSON error: " ++ e.message
  | storage message => "IO error: " ++ message

/-- A text under which a document can be stored: letters, digits, `_` and `-`. -/
def isDocumentId (id : String) : Bool :=
  !id.isEmpty && id.toList.all fun c => c.isAlphanum || c = '_' || c = '-'

end FormulaSheet
