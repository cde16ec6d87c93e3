import FormulaSheet.Text.Blank

/-!
# Tables of text

Columns are as wide as their widest field, counted in characters, and two spaces apart. Lines have
no blanks at their end.
-/

namespace FormulaSheet.CommandLine.Table

def widen (widths : List Nat) (row : List String) : List Nat :=
  List.zipWith (fun w field => max w field.length) widths row

/-- The widths of the columns under a header. -/
def widths (header : List String) (rows : List (List String)) : List Nat :=
  rows.foldl widen (header.map String.length)

def padded (width : Nat) (field : String) : String :=
  field ++ String.ofList (List.replicate (width - field.length) ' ')

def line (widths : List Nat) (row : List String) : String :=
  String.ofList (Text.trimRight ("  ".intercalate (List.zipWith padded widths row)).toList)

/-- A table, each line with a line break at its end. -/
def render (header : List String) (rows : List (List String)) : String :=
  let ws := widths header rows
  String.join ((header :: rows).map fun row => line ws row ++ "\n")

end FormulaSheet.CommandLine.Table
