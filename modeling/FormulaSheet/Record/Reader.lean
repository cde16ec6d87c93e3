import FormulaSheet.Json.Shape
import FormulaSheet.Record.Basic

/-!
# Reading records

The shapes of records, rows and inputs. Only the rows of a record, the id and the name of a row and
the kind of an input have to be there.
-/

namespace FormulaSheet

open Json

/-- Reads a value; lists and objects in it may nest as far as the limit allows behind `outer` of
them. -/
def Value.read (outer : Nat) : Read Value := Value.ofJson <$> tree (nestingLimit - outer)

/-- An input. It stands inside of a row, so that four lists and objects are around its members. -/
def Input.shape : Shape Input :=
  { name := "InputDescriptor"
    members :=
      [⟨"type", true, (fun kind i => { i with kind := kind }) <$> stringValue⟩,
       ⟨"props", false, (fun props i => { i with props := props }) <$> mapOf (Value.read 5)⟩]
    start := ⟨"", []⟩ }

/-- A row. It stands in the list of a record. -/
def Row.shape : Shape Row :=
  { name := "RowRecord"
    members :=
      [⟨"id", true, (fun id r => { r with id := id }) <$> stringValue⟩,
       ⟨"name", true, (fun name r => { r with name := name }) <$> stringValue⟩,
       ⟨"expr", false, (fun expr r => { r with expr := expr }) <$> stringValue⟩,
       ⟨"value", false, (fun value r => { r with value := value }) <$> Value.read 3⟩,
       ⟨"input", false,
         (fun input? r => { r with input? := input? }) <$> optional Input.shape.read⟩,
       ⟨"dependencies", false,
         (fun ids r => { r with dependencies := ids }) <$> listOf stringValue⟩,
       ⟨"tags", false, (fun tags r => { r with tags := tags }) <$> listOf stringValue⟩,
       ⟨"error", false, (fun error? r => { r with error? := error? }) <$> optional stringValue⟩]
    start := ⟨"", "", "", .absent, none, [], [], none⟩ }

def Record.shape : Shape Record :=
  { name := "DocumentRecord"
    members := [⟨"rows", true, (fun rows _ => ⟨rows⟩) <$> listOf Row.shape.read⟩]
    start := ⟨[]⟩ }

def Record.parse (text : String) : Except ReadError Record := Read.whole Record.shape.read text

end FormulaSheet
