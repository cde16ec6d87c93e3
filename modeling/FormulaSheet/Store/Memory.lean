import FormulaSheet.Record.Basic
import FormulaSheet.SheetError

/-!
# Documents in memory
-/

namespace FormulaSheet

/-- Records by document id. -/
structure MemoryStore where
  records : Fields Record

namespace MemoryStore

def empty : MemoryStore := ⟨[]⟩

/-- The record stored under an id, if there is one. -/
def load (s : MemoryStore) (id : String) : Except SheetError (Option Record) :=
  if isDocumentId id then .ok (Fields.get? s.records id) else .error (.invalidDocumentId id)

/-- Stores a record under an id, in place of an earlier one. -/
def replace (s : MemoryStore) (id : String) (r : Record) : Except SheetError MemoryStore :=
  if isDocumentId id then .ok ⟨Fields.insert s.records id r⟩ else .error (.invalidDocumentId id)

end MemoryStore

end FormulaSheet
