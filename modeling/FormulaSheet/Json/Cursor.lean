import FormulaSheet.Text.Bytes

/-!
# Reading positions

A JSON text is read from left to right by a cursor that counts the bytes it has passed. What stops
the reading is a fault at a byte position, reported by line and column.
-/

namespace FormulaSheet.Json

/-- Why a text is no JSON document. -/
inductive Grammar where
  | eofInValue | eofInList | eofInObject | eofInString
  | expectedValue | expectedIdent | expectedColon
  | expectedListCommaOrEnd | expectedObjectCommaOrEnd
  | keyNotString | trailingComma | trailingCharacters
  | invalidEscape | invalidNumber | numberOutOfRange
  | loneSurrogate | unfinishedSurrogate | controlCharacter
  | tooDeep
deriving DecidableEq, Repr

/-- Why a document does not have the shape of what is to be read. -/
inductive Misfit where
  | missingField (name : String)
  | duplicateField (name : String)
  | wrongType (found wanted : String)
  | wrongLength (length : Nat) (wanted : String)
deriving DecidableEq, Repr

/-- Why the reading stopped. -/
inductive Cause where
  | grammar (g : Grammar)
  | misfit (m : Misfit)
deriving DecidableEq, Repr

/-- A cause and the number of bytes up to and including where it was met. -/
structure Fault where
  cause : Cause
  offset : Nat
deriving DecidableEq, Repr

def Grammar.message : Grammar → String
  | eofInValue => "EOF while parsing a value"
  | eofInList => "EOF while parsing a list"
  | eofInObject => "EOF while parsing an object"
  | eofInString => "EOF while parsing a string"
  | expectedValue => "expected value"
  | expectedIdent => "expected ident"
  | expectedColon => "expected `:`"
  | expectedListCommaOrEnd => "expected `,` or `]`"
  | expectedObjectCommaOrEnd => "expected `,` or `\x7d`"
  | keyNotString => "key must be a string"
  | trailingComma => "trailing comma"
  | trailingCharacters => "trailing characters"
  | invalidEscape => "invalid escape"
  | invalidNumber => "invalid number"
  | numberOutOfRange => "number out of range"
  | loneSurrogate => "lone leading surrogate in hex escape"
  | unfinishedSurrogate => "unexpected end of hex escape"
  | controlCharacter => "control character (\\u0000-\\u001F) found while parsing a string"
  | tooDeep => "recursion limit exceeded"

def Misfit.message : Misfit → String
  | missingField name => "missing field `" ++ name ++ "`"
  | duplicateField name => "duplicate field `" ++ name ++ "`"
  | wrongType found wanted => "invalid type: " ++ found ++ ", expected " ++ wanted
  | wrongLength length wanted => "invalid length " ++ toString length ++ ", expected " ++ wanted

/-- The wording of a cause, without a position. -/
def Cause.message : Cause → String
  | grammar g => g.message
  | misfit m => m.message

/-- The line, counted from 1, and the column of a byte position: the column is the number of bytes
since the last line break before the position. -/
def lineColumn : List Char → Nat → Nat × Nat → Nat × Nat
  | [], offset, (line, column) => (line, column + offset)
  | c :: rest, offset, (line, column) =>
    if offset < c.utf8Size then (line, column + offset)
    else if c = '\n' then lineColumn rest (offset - 1) (line + 1, 0)
    else lineColumn rest (offset - c.utf8Size) (line, column + c.utf8Size)

/-- A cause with its place in the text that was read. -/
structure ReadError where
  cause : Cause
  line : Nat
  column : Nat
deriving DecidableEq, Repr

def ReadError.message (e : ReadError) : String :=
  e.cause.message ++ " at line " ++ toString e.line ++ " column " ++ toString e.column

/-- The document does not fit what is to be read, although it may be JSON. -/
def ReadError.isMisfit (e : ReadError) : Bool :=
  match e.cause with
  | .misfit _ => true
  | .grammar _ => false

def Fault.locate (text : String) (f : Fault) : ReadError :=
  let (line, column) := lineColumn text.toList f.offset (1, 0)
  ⟨f.cause, line, column⟩

/-- What is still to be read, and the number of bytes passed. -/
structure Cursor where
  rest : List Char
  offset : Nat
deriving Repr

def Cursor.start (text : String) : Cursor := ⟨text.toList, 0⟩

/-- A step of reading: a result and the cursor after it, or a fault. -/
abbrev Read := StateT Cursor (Except Fault)

namespace Read

variable {α : Type}

def fail (g : Grammar) : Read α := fun cur => .error ⟨.grammar g, cur.offset⟩

/-- Stops at the byte to be read next, or at the end of the text. -/
def failNext (g : Grammar) : Read α := fun cur =>
  .error ⟨.grammar g, if cur.rest.isEmpty then cur.offset else cur.offset + 1⟩

/-- Stops because of the shape of what was read. -/
def misfit (m : Misfit) : Read α := fun cur => .error ⟨.misfit m, cur.offset⟩

def next? : Read (Option Char) := fun cur => .ok (cur.rest.head?, cur)

def pass : Read Unit := fun cur =>
  match cur.rest with
  | [] => .ok ((), cur)
  | c :: rest => .ok ((), ⟨rest, cur.offset + c.utf8Size⟩)

/-- Passes characters as long as they have a property, and returns them. -/
def passWhile (p : Char → Bool) : Read (List Char) := fun cur =>
  let taken := cur.rest.takeWhile p
  .ok (taken, ⟨cur.rest.dropWhile p, cur.offset + Text.byteSize taken⟩)

/-- The number of characters left, a bound for what can still be read. -/
def left : Read Nat := fun cur => .ok (cur.rest.length, cur)

/-- Passes blanks and line breaks, and returns the character after them. -/
def nextSolid? : Read (Option Char) := do
  let _ ← passWhile fun c => c = ' ' || c = '\n' || c = '\t' || c = '\r'
  next?

/-- Reads a whole text: nothing but blanks may follow. -/
def whole (read : Read α) (text : String) : Except ReadError α :=
  let run : Read α := do
    let a ← read
    match ← nextSolid? with
    | none => pure a
    | some _ => failNext .trailingCharacters
  match run (Cursor.start text) with
  | .ok (a, _) => .ok a
  | .error f => .error (f.locate text)

end Read

end FormulaSheet.Json
