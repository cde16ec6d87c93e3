import FormulaSheet.Json.Printer
import FormulaSheet.Json.Reader
import FormulaSheet.Text.GraphemeExtend
import FormulaSheet.Text.Printable

/-!
# Reading documents of a known shape

Readers for texts, lists, maps and structures. A structure is an object with known members, in any
order and with unknown ones passed over, or a list of its members in order. What does not fit is
reported where it is met, before anything after it is read.
-/

namespace FormulaSheet.Json

open Read

/-- A character inside quotes in a report. One that could not be seen there, because it is not
printable or joins the one before it, is written by its code. -/
def reportedChar (c : Char) : List Char :=
  if c = '"' then ['\\', '"']
  else if c = '\\' then ['\\', '\\']
  else if c = '\n' then ['\\', 'n']
  else if c = '\r' then ['\\', 'r']
  else if c = '\t' then ['\\', 't']
  else if c = '\x00' then ['\\', '0']
  else if Text.extendsGrapheme c || !Text.isPrintable c then
    ['\\', 'u', '\x7b'] ++ Nat.toDigits 16 c.toNat ++ ['\x7d']
  else [c]

/-- How a report names a value that does not fit. -/
def describe : Json → String
  | .null => "null"
  | .bool b => if b then "boolean `true`" else "boolean `false`"
  | .int n => "integer `" ++ Decimal.intText n ++ "`"
  | .float x => "floating point `" ++ floatText x ++ "`"
  | .str s => "string \"" ++ String.ofList (s.toList.flatMap reportedChar) ++ "\""
  | .arr _ => "sequence"
  | .obj _ => "map"

/-- Reports that the value which begins with `c` is not what is wanted. A value that is no list or
object has to be well formed itself. -/
def unwanted {α : Type} (wanted : String) (c : Char) : Read α := do
  let found ←
    if c = '[' then pure "sequence"
    else if c = '\x7b' then pure "map"
    else describe <$> scalar c
  misfit (.wrongType found wanted)

/-- Reads a value that has to begin with one of some characters, which is then next. -/
def beginning {α : Type} (wanted : String) (starts : Char → Bool) (read : Char → Read α) :
    Read α := do
  match ← nextSolid? with
  | none => failNext .eofInValue
  | some c => if starts c then read c else unwanted wanted c

def stringValue : Read String := beginning "a string" (· = '"') fun _ => quotedText

def listOf {α : Type} (item : Read α) : Read (List α) :=
  beginning "a sequence" (· = '[') fun _ => do
    pass
    let items ← many (listItem item)
    pass
    return items

/-- Reads an object with members of one kind. -/
def mapOf {α : Type} (item : Read α) : Read (List (String × α)) :=
  beginning "a map" (· = '\x7b') fun _ => do
    pass
    let members ← many (objectMember item)
    pass
    return Fields.ofList members

/-- Reads a value, or `null` for none. -/
def optional {α : Type} (item : Read α) : Read (Option α) := do
  if (← nextSolid?) = some 'n' then
    pass
    word ['u', 'l', 'l']
    return none
  else some <$> item

/-- A member of a structure: whether it has to be there, and how its value is taken over. -/
structure Member (σ : Type) where
  name : String
  required : Bool
  read : Read (σ → σ)

/-- A structure as reports name it, its members in order, and what it is without them. -/
structure Shape (σ : Type) where
  name : String
  members : List (Member σ)
  start : σ

namespace Shape

variable {σ : Type}

/-- What a report wants in place of the structure. -/
def wanted (shape : Shape σ) : String := "struct " ++ shape.name

/-- What a report wants in place of a list that is too short. -/
def wantedLength (shape : Shape σ) : String :=
  let n := shape.members.length
  shape.wanted ++ " with " ++ toString n ++ (if n = 1 then " element" else " elements")

/-- Reads the members of an object up to its closing brace, which is left unread; `seen` are the
names of those read before. -/
def namedMembers (shape : Shape σ) : Nat → Bool → List String → σ → Read (List String × σ)
  | 0, _, seen, s => pure (seen, s)
  | fuel + 1, first, seen, s => do
    if ← nameFollows first then
      let name ← quotedText
      match shape.members.find? fun m => m.name == name with
      | none =>
        colon
        skip
        namedMembers shape fuel false seen s
      | some m =>
        if seen.contains name then misfit (.duplicateField name)
        else
          colon
          let put ← m.read
          namedMembers shape fuel false (name :: seen) (put s)
    else return (seen, s)

def ofObject (shape : Shape σ) : Read σ := do
  pass
  let (seen, s) ← namedMembers shape ((← left) + 1) true [] shape.start
  match shape.members.find? fun m => m.required && !seen.contains m.name with
  | some m => misfit (.missingField m.name)
  | none =>
    pass
    return s

/-- Reads members in order from a list, as long as it has items; `i` members were read before. -/
def orderedMembers (shape : Shape σ) : List (Member σ) → Nat → σ → Read σ
  | [], _, s => pure s
  | m :: rest, i, s => do
    if ← itemFollows (i == 0) then
      let put ← m.read
      orderedMembers shape rest (i + 1) (put s)
    else if (m :: rest).any Member.required then
      let missing := (m :: rest).takeWhile fun m => !m.required
      misfit (.wrongLength (i + missing.length) shape.wantedLength)
    else return s

/-- Passes the bracket after the last member. -/
def closeList : Read Unit := do
  match ← nextSolid? with
  | none => failNext .eofInList
  | some ']' => pass
  | some ',' =>
    pass
    if (← nextSolid?) = some ']' then failNext .trailingComma else failNext .trailingCharacters
  | some _ => failNext .trailingCharacters

def read (shape : Shape σ) : Read σ :=
  beginning shape.wanted (fun c => c = '[' || c = '\x7b') fun c => do
    if c = '[' then
      pass
      let s ← orderedMembers shape shape.members 0 shape.start
      closeList
      return s
    else shape.ofObject

end Shape

end FormulaSheet.Json
