import FormulaSheet.Proofs.Expr.Lexing
import FormulaSheet.Proofs.Text.Slices

/-!
# Tokens read by byte offsets

The tokens of a text can be read without taking the text apart: a byte offset moves over it, and
what is looked at is a slice from this offset on or between two offsets that were passed. A slice
that the text does not have leaves the whole reading without a result, so that a result tells that
no slice lies outside of the text or begins inside a character.
-/

namespace FormulaSheet.Scanner

/-- A step of reading at a byte offset. It has no result where it takes a slice that the text does
not have. -/
abbrev Scan := StateT Nat (ExceptT SyntaxError Option)

def failAt {α : Type} (fault : SyntaxFault) (position : Nat) : Scan α := fun _ =>
  some (.error ⟨fault, position⟩)

section Steps

variable (text : List Char)

/-! ### Looking and moving -/

/-- The text from the offset on. -/
def rest : Scan (List Char) := fun pos => (Text.from? text pos).map fun cs => .ok (cs, pos)

/-- What stands between two offsets. -/
def slice (start stop : Nat) : Scan (List Char) := fun pos =>
  (Text.slice? text start stop).map fun w => .ok (w, pos)

def peek : Scan (Option Char) := do return (← rest text).head?

def peekAt (i : Nat) : Scan (Option Char) := do return (← rest text)[i]?

/-- Whether the next character is of a kind. -/
def nextIs (p : Char → Bool) : Scan Bool := do return (← peek text).any p

/-- Passes the next character; at the end of the text nothing. -/
def advance : Scan Unit := do
  match ← peek text with
  | some c => modify (· + c.utf8Size)
  | none => pure ()

/-- Passes a given character, if it comes next. -/
def eat (c : Char) : Scan Bool := do
  if ← nextIs text (· == c) then
    advance text
    return true
  else return false

/-- Passes the characters of a kind that come next, `fuel` at most. -/
def skipWhile (p : Char → Bool) : (fuel : Nat) → Scan Unit
  | 0 => pure ()
  | fuel + 1 => do
    if ← nextIs text p then
      advance text
      skipWhile p fuel
    else pure ()

/-- Passes all characters of a kind that come next, and returns them. -/
def run (p : Char → Bool) : Scan (List Char) := do
  let start ← get
  skipWhile text p text.length
  slice text start (← get)

/-! ### Quoted texts -/

/-- The number that the next bytes write as hexadecimal digits. Where they do not, nothing is
passed; that these bytes may end inside a character does no harm. -/
def readHex (count : Nat) : Scan (Option Nat) := do
  let start ← get
  match (Text.slice? text start (start + count)).bind (Decimal.readRadix? 16) with
  | some code =>
    set (start + count)
    return some code
  | none => return none

/-- Reads the second half of a surrogate pair. Where there is none, the offset goes back to where it
was. -/
def readLowSurrogate : Scan (Option Nat) := do
  let save ← get
  match ← rest text with
  | '\\' :: 'u' :: _ =>
    advance text
    advance text
    match (← readHex text 4).filter Text.isLowSurrogate with
    | some low => return some low
    | none =>
      set save
      return none
  | _ => return none

/-- Reads a code in braces, from behind the opening one. -/
def bracedCode : Scan Char := do
  let start ← get
  match (Decimal.readRadix? 16 (← run text fun c => (Decimal.radixDigit? 16 c).isSome)).filter
    (· < UInt32.size) with
  | none => failAt .invalidUnicodeEscape start
  | some code =>
    if ← eat text '\x7d' then
      if code.isValidChar then return Char.ofNat code
      else failAt .invalidUnicodeEscape start
    else failAt .invalidUnicodeEscape (← get)

def unicodeEscape : Scan Char := do
  if ← eat text '\x7b' then bracedCode text
  else match ← readHex text 4 with
    | none => failAt .invalidUnicodeEscape (← get)
    | some code =>
      if Text.isHighSurrogate code then
        match ← readLowSurrogate text with
        | some low => return Text.charOfCode (0x10000 + (code - 0xD800) * 0x400 + (low - 0xDC00))
        | none => return Text.charOfCode code
      else return Text.charOfCode code

/-- Reads an escape from behind its backslash, in the text that was opened at `start`. -/
def escape (start : Nat) : Scan (Option Char) := do
  match ← peek text with
  | none => failAt .unterminatedText start
  | some c =>
    advance text
    if c = 'n' then return some '\n'
    else if c = 't' then return some '\t'
    else if c = 'r' then return some '\r'
    else if c = 'b' then return some '\x08'
    else if c = 'f' then return some '\x0c'
    else if c = 'v' then return some '\x0b'
    else if c = '0' then return some '\x00'
    else if c = 'x' then
      match ← readHex text 2 with
      | some code => return some (Text.charOfCode code)
      | none => failAt .invalidHexEscape (← get)
    else if c = 'u' then return some (← unicodeEscape text)
    else if c = '\n' then return none
    else return some c

/-- Reads up to the closing quote, `fuel` characters and escapes at most. -/
def quotedRest (quote : Char) (start : Nat) : (fuel : Nat) → Scan (List Char)
  | 0 => failAt .unterminatedText start
  | fuel + 1 => do
    match ← peek text with
    | none => failAt .unterminatedText start
    | some c =>
      advance text
      if c = quote then return []
      else if c = '\n' ∨ c = '\r' then failAt .unterminatedText start
      else if c = '\\' then
        let d? ← escape text start
        return d?.toList ++ (← quotedRest quote start fuel)
      else return c :: (← quotedRest quote start fuel)

def quotedText (quote : Char) : Scan Token := do
  let start ← get
  advance text
  return .text (String.ofList (← quotedRest text quote start (text.length + 1)))

/-! ### Numbers -/

/-- A number that no character of a name follows. -/
def finishNumber (x : Float) : Scan Token := do
  if ← nextIs text Token.isNameChar then failAt .nameAfterNumber (← get)
  else return .number x

def radixNumber (radix start : Nat) : Scan Token := do
  advance text
  advance text
  match (Decimal.readRadix? radix (← run text fun c => (Decimal.radixDigit? radix c).isSome)).filter
      (· < UInt64.size) with
  | some n => finishNumber text (Float.ofNat n)
  | none => failAt .invalidNumber start

/-- Passes a point and the digits behind it. -/
def skipFraction : Scan Unit := do
  if ← nextIs text (· == '.') then
    advance text
    skipWhile text Char.isDigit text.length
  else pure ()

/-- Passes an exponent, if digits follow its mark and its sign. -/
def skipExponent : Scan Unit := do
  if ← nextIs text fun c => c == 'e' || c == 'E' then
    if (← peekAt text 1).any fun c => c == '+' || c == '-' then
      if (← peekAt text 2).any Char.isDigit then
        advance text
        advance text
        skipWhile text Char.isDigit text.length
      else pure ()
    else if (← peekAt text 1).any Char.isDigit then
      advance text
      skipWhile text Char.isDigit text.length
    else pure ()
  else pure ()

def skipDecimal : Scan Unit := do
  skipWhile text Char.isDigit text.length
  skipFraction text
  skipExponent text

/-- Reads a decimal literal: its extent first, and then its value off what was passed. -/
def decimalNumber (start : Nat) : Scan Token := do
  skipDecimal text
  match Decimal.readNumber? (← slice text start (← get)) with
  | some x => finishNumber text x
  | none => failAt .invalidNumber start

def number : Scan Token := do
  let start ← get
  match Token.radixMark? (← rest text) with
  | some radix => radixNumber text radix start
  | none => decimalNumber text start

/-! ### Symbols -/

/-- The symbols that begin no other symbol. -/
def single? : Char → Option Symbol
  | '(' => some .parenOpen
  | ')' => some .parenClose
  | '[' => some .bracketOpen
  | ']' => some .bracketClose
  | '{' => some .braceOpen
  | '}' => some .braceClose
  | ',' => some .comma
  | ':' => some .colon
  | '+' => some .plus
  | '-' => some .minus
  | '/' => some .slash
  | '%' => some .percent
  | _ => none

/-- A symbol that is another one where a character follows. -/
def either (more : Char) (long short : Symbol) : Scan Symbol := do
  if ← eat text more then return long
  else return short

/-- A symbol of two equal characters, of which one alone is none. -/
def doubled (c : Char) (s : Symbol) : Scan (Option Symbol) := do
  if (← peekAt text 1) = some c then
    advance text
    advance text
    return some s
  else return none

/-- Reads a symbol other than a point, the next character being `c`. -/
def symbol (c : Char) : Scan (Option Symbol) := do
  let start ← get
  match single? c with
  | some s =>
    advance text
    return some s
  | none =>
    if c = '*' then
      advance text
      return some (← either text '*' .starStar .star)
    else if c = '!' then
      advance text
      if ← eat text '=' then return some (← either text '=' .strictNotEqual .notEqual)
      else return some .bang
    else if c = '=' then
      advance text
      if ← eat text '=' then return some (← either text '=' .strictEqual .equal)
      else failAt .assignment start
    else if c = '<' then
      advance text
      return some (← either text '=' .lessEqual .less)
    else if c = '>' then
      advance text
      return some (← either text '=' .greaterEqual .greater)
    else if c = '&' then doubled text '&' .andAnd
    else if c = '|' then doubled text '|' .orOr
    else if c = '?' then
      advance text
      return some (← either text '?' .nullish .question)
    else return none

/-! ### Tokens -/

/-- Reads the token that begins at the offset; there is none at the end of the text. -/
def token : Scan (Option Token) := do
  match ← peek text with
  | none => return none
  | some c =>
    match ← symbol text c with
    | some s => return some (.symbol s)
    | none =>
      if c = '"' ∨ c = '\'' then return some (← quotedText text c)
      else if Token.startsNumber (← rest text) then return some (← number text)
      else if c = '.' then
        advance text
        return some (.symbol .dot)
      else if Token.isNameStart c then
        return some (Token.ofWord (String.ofList (← run text Token.isNameChar)))
      else failAt (.unexpectedCharacter c) (← get)

/-- Passes blanks and reads the token behind them, which comes with the offset at which it
starts. -/
def next : Scan (Nat × Option Token) := do
  skipWhile text Text.isBlank text.length
  return (← get, ← token text)

/-- The tokens from an offset on, `fuel` at most. -/
def tokens : (fuel pos : Nat) → Option Tokens
  | 0, _ => none
  | fuel + 1, pos =>
    match next text pos with
    | none => none
    | some (.error e) => some (.broken e)
    | some (.ok ((start, none), _)) => some (.finish start)
    | some (.ok ((start, some token), stop)) => do
      let used ← Text.slice? text start stop
      return .next ⟨token, String.ofList used, start, stop⟩ (← tokens fuel stop)

end Steps

/-- The tokens of a text, if no slice is taken that the text does not have. -/
def ofText (text : List Char) : Option Tokens := tokens text (text.length + 1) 0

end FormulaSheet.Scanner
