import FormulaSheet.Expr.Basic
import FormulaSheet.Text.Bytes

/-!
# Renaming in the text of an expression

The free names of an expression are replaced in its text, at the places they were read from.
Property names, keys of objects, quoted texts and blanks stay as they are. An entry `{ x }` whose
name is replaced by `y` turns into `{ x: y }`.
-/

namespace FormulaSheet

/-- A new text for a byte range. -/
structure Edit where
  span : Span
  text : List Char
deriving DecidableEq, Repr

namespace Expr

variable (rename : String → Option String)

def nameEdits (name : String) (span : Span) : List Edit :=
  match rename name with
  | some new => [⟨span, new.toList⟩]
  | none => []

/-- The edit of an entry written as its name alone, which keeps its key. -/
def shorthandEdits (key name : String) (span : Span) : List Edit :=
  match rename name with
  | some new => [⟨span, key.toList ++ [':', ' '] ++ new.toList⟩]
  | none => []

mutual
/-- The edits of the free names of an expression, in source order. -/
def edits : Expr → List Edit
  | ident name span => nameEdits rename name span
  | unary _ operand => edits operand
  | binary first rest => edits first ++ runEdits rest
  | logical _ operands => listEdits operands
  | conditional test consequent alternate => edits test ++ edits consequent ++ edits alternate
  | member target _ _ => edits target
  | index target key => edits target ++ edits key
  | call callee args => edits callee ++ listEdits args
  | array items => listEdits items
  | object entries => entryEdits entries
  | _ => []

def listEdits : List Expr → List Edit
  | [] => []
  | e :: rest => edits e ++ listEdits rest

def runEdits : List (BinaryOp × Expr) → List Edit
  | [] => []
  | (_, e) :: rest => edits e ++ runEdits rest

def entryEdits : List (EntryKey × Expr) → List Edit
  | [] => []
  | (key, e) :: rest =>
    (match key.shorthand, e with
      | true, ident name span => shorthandEdits rename key.name name span
      | _, e => edits e) ++ entryEdits rest
end

/-- A text that begins at a byte offset, with edits made at its places one after the other. An edit
that begins before the place reached, or ends behind the text, is left out. -/
def splice : List Char → Nat → List Edit → List Char
  | cs, _, [] => cs
  | cs, offset, e :: rest =>
    if e.span.start < offset || offset + Text.byteSize cs < e.span.stop then splice cs offset rest
    else
      Text.takeBytes cs (e.span.start - offset) ++ e.text ++
        splice (Text.dropBytes cs (e.span.stop - offset)) e.span.stop rest

/-- The text of an expression with its free names replaced. -/
def renameIn (source : String) (e : Expr) : String :=
  String.ofList (splice source.toList 0 (e.edits rename))

/-- The new spelling of a name that refers to a row `old`, as it is or with a dollar sign before
it. -/
def renamedReference (old new name : String) : Option String :=
  if name = old then some new
  else if name.toList = '$' :: old.toList then some ("$" ++ new)
  else none

/-- The text of an expression with the references to `old` replaced by references to `new`. -/
def renameReferences (source : String) (e : Expr) (old new : String) : String :=
  renameIn (renamedReference old new) source e

end Expr

end FormulaSheet
