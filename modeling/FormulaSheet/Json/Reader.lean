import FormulaSheet.Decimal.Word
import FormulaSheet.Fields
import FormulaSheet.Json.Basic
import FormulaSheet.Json.Cursor

/-!
# Reading JSON

The reader of JSON trees, and a reader that passes over a value without keeping it. Lists and
objects may nest up to a limit in a tree that is kept. A name that an object gives twice keeps its
first place and its last value.
-/

namespace FormulaSheet.Json

open Read

/-- How many lists and objects may stand inside one another. -/
def nestingLimit : Nat := 127

/-! ### Words -/

/-- Reads the rest of a word whose first letter was passed. -/
def word : List Char → Read Unit
  | [] => pure ()
  | c :: cs => do
    match ← next? with
    | none => fail .eofInValue
    | some d => if d = c then pass; word cs else failNext .expectedIdent

/-! ### Texts -/

def hexValue? (c : Char) : Option Nat := Decimal.radixDigit? 16 c

/-- Reads the four digits of a `\u` escape. Where they are no digits, the fault is at the fourth
byte, or at the end of a text that is too short. -/
def hexUnit : Read Nat := fun cur =>
  match cur.rest with
  | a :: b :: c :: d :: rest =>
    match hexValue? a, hexValue? b, hexValue? c, hexValue? d with
    | some w, some x, some y, some z =>
      .ok (((w * 16 + x) * 16 + y) * 16 + z, ⟨rest, cur.offset + 4⟩)
    | _, _, _, _ => .error ⟨.grammar .invalidEscape, cur.offset + 4⟩
  | short =>
    let size := Text.byteSize short
    if size < 4 then .error ⟨.grammar .eofInString, cur.offset + size⟩
    else .error ⟨.grammar .invalidEscape, cur.offset + 4⟩

/-- Passes one given character in the second half of a surrogate pair. -/
def surrogateMark (c : Char) : Read Unit := do
  match ← next? with
  | none => fail .eofInString
  | some d => if d = c then pass else failNext .unfinishedSurrogate

def pairChar (high low : Nat) : Char :=
  Char.ofNat (0x10000 + (high - 0xD800) * 0x400 + (low - 0xDC00))

/-- Reads the character of a `\u` escape after its mark, with the second escape of a surrogate
pair. -/
def unicodeEscape : Read Char := do
  let unit ← hexUnit
  if 0xDC00 ≤ unit && unit < 0xE000 then fail .loneSurrogate
  else if 0xD800 ≤ unit && unit < 0xDC00 then
    surrogateMark '\\'
    surrogateMark 'u'
    let low ← hexUnit
    if 0xDC00 ≤ low && low < 0xE000 then pure (pairChar unit low) else fail .loneSurrogate
  else pure (Char.ofNat unit)

/-- The character that a short escape stands for. -/
def shortEscape? (c : Char) : Option Char :=
  if c = '"' ∨ c = '\\' ∨ c = '/' then some c
  else if c = 'b' then some '\x08'
  else if c = 'f' then some '\x0c'
  else if c = 'n' then some '\n'
  else if c = 'r' then some '\r'
  else if c = 't' then some '\t'
  else none

/-- Reads one character of a quoted text, or its closing quote; `unicode` reads a `\u` escape. -/
def quotedStep (unicode : Read Char) : Read (Option Char) := do
  match ← next? with
  | none => fail .eofInString
  | some '"' => pass; pure none
  | some '\\' =>
    pass
    match ← next? with
    | none => fail .eofInString
    | some 'u' => pass; some <$> unicode
    | some c =>
      match shortEscape? c with
      | some d => pass; pure (some d)
      | none => failNext .invalidEscape
  | some c => if c.toNat < 0x20 then failNext .controlCharacter else pass; pure (some c)

/-- Reads characters up to the closing quote. -/
def quotedRest (step : Read (Option Char)) : Nat → Read (List Char)
  | 0 => fail .eofInString
  | fuel + 1 => do
    match ← step with
    | none => pure []
    | some c => (c :: ·) <$> quotedRest step fuel

/-- Reads a text whose opening quote is next. -/
def quotedText : Read String := do
  pass
  String.ofList <$> quotedRest (quotedStep unicodeEscape) ((← left) + 1)

/-! ### Numbers -/

/-- The exponent that the digits after `e` write, or a fault where a number other than zero leaves
the range of exponents upwards. -/
def exponentDigits (zero negative : Bool) : Read Int := fun cur =>
  let ds := cur.rest.takeWhile Char.isDigit
  let n := Decimal.natOfDigits ds
  if n ≤ 2147483647 || negative || zero then
    .ok (if negative then -(n : Int) else n,
      ⟨cur.rest.dropWhile Char.isDigit, cur.offset + ds.length⟩)
  else
    let fits := (List.range ds.length).takeWhile fun k =>
      Decimal.natOfDigits (ds.take (k + 1)) ≤ 2147483647
    .error ⟨.grammar .numberOutOfRange, cur.offset + fits.length + 1⟩

/-- Reads an exponent whose mark is next, if there is one. -/
def exponentPart (zero : Bool) : Read (Option Int) := do
  match ← next? with
  | some c =>
    if c = 'e' ∨ c = 'E' then
      pass
      let negative ← do
        match ← next? with
        | some '-' => pass; pure true
        | some '+' => pass; pure false
        | _ => pure false
      match ← next? with
      | none => fail .eofInValue
      | some d =>
        if d.isDigit then some <$> exponentDigits zero negative else failNext .invalidNumber
    else pure none
  | none => pure none

/-- Reads the digits after a decimal point that is next, if there is one. -/
def fractionPart : Read (Option (List Char)) := do
  match ← next? with
  | some '.' =>
    pass
    match ← passWhile Char.isDigit with
    | [] => if (← next?).isNone then failNext .eofInValue else failNext .invalidNumber
    | ds => pure (some ds)
  | _ => pure none

/-- Reads the digits of a whole part: a single zero, or digits without a leading zero. -/
def wholePart : Read (List Char) := do
  match ← next? with
  | none => fail .eofInValue
  | some '0' =>
    pass
    if ((← next?).map Char.isDigit).getD false then failNext .invalidNumber else pure ['0']
  | some c => if c.isDigit then passWhile Char.isDigit else failNext .invalidNumber

/-- An integer that fits into 64 bits, with or without a sign. -/
def wordInt? (negative : Bool) (n : Nat) : Option Int :=
  if negative then (if 0 < n ∧ n ≤ Nat.pow 2 63 then some (-(n : Int)) else none)
  else if n < UInt64.size then some n
  else none

/-- Reads a number after its sign. What is no integer is read with its digits kept in a word. -/
def unsignedNumber (negative : Bool) : Read Json := do
  let whole ← wholePart
  let fraction ← fractionPart
  let digits := Decimal.natOfDigits (whole ++ fraction.getD [])
  let exponent ← exponentPart (digits == 0)
  match fraction, exponent, wordInt? negative digits with
  | none, none, some n => pure (.int n)
  | _, _, _ =>
    let literal : Decimal.Literal := ⟨whole, fraction.getD [], exponent.getD 0⟩
    match literal.toWord.value? with
    | some x => pure (.float (if negative then -x else x))
    | none => fail .numberOutOfRange

def number : Read Json := do
  match ← next? with
  | some '-' => pass; unsignedNumber true
  | _ => unsignedNumber false

/-! ### Lists and objects -/

/-- Reads items up to a closing bracket that is left unread; `readNext` reads an item or finds that
there is none, told whether it is the first. -/
def repeated {α : Type} (readNext : Bool → Read (Option α)) : Nat → Bool → Read (List α)
  | 0, _ => pure []
  | fuel + 1, first => do
    match ← readNext first with
    | none => pure []
    | some a => (a :: ·) <$> repeated readNext fuel false

/-- Reads as many items as there are; each takes at least one character. -/
def many {α : Type} (readNext : Bool → Read (Option α)) : Read (List α) := do
  repeated readNext ((← left) + 1) true

/-- Whether a list goes on with another item, whose first character is then next. -/
def itemFollows (first : Bool) : Read Bool := do
  match ← nextSolid? with
  | none => failNext .eofInList
  | some ']' => pure false
  | some c =>
    if first then pure true
    else if c = ',' then
      pass
      match ← nextSolid? with
      | none => failNext .eofInValue
      | some ']' => failNext .trailingComma
      | some _ => pure true
    else failNext .expectedListCommaOrEnd

/-- Whether an object goes on with another name, whose opening quote is then next. -/
def nameFollows (first : Bool) : Read Bool := do
  match ← nextSolid? with
  | none => failNext .eofInObject
  | some '\x7d' => pure false
  | some c =>
    if first then if c = '"' then pure true else failNext .keyNotString
    else if c = ',' then
      pass
      match ← nextSolid? with
      | none => failNext .eofInValue
      | some '"' => pure true
      | some '\x7d' => failNext .trailingComma
      | some _ => failNext .keyNotString
    else failNext .expectedObjectCommaOrEnd

def colon : Read Unit := do
  match ← nextSolid? with
  | none => failNext .eofInObject
  | some ':' => pass
  | some _ => failNext .expectedColon

/-- Reads an item of a list, if there is one. -/
def listItem {α : Type} (item : Read α) (first : Bool) : Read (Option α) := do
  if ← itemFollows first then some <$> item else pure none

/-- Reads a name and its value, if there is one. -/
def objectMember {α : Type} (item : Read α) (first : Bool) : Read (Option (String × α)) := do
  if ← nameFollows first then
    let name ← quotedText
    colon
    let a ← item
    pure (some (name, a))
  else pure none

/-! ### Trees -/

/-- Reads a value that is not a list or an object; `c` is the character that is next. -/
def scalar (c : Char) : Read Json :=
  if c = 'n' then do pass; word ['u', 'l', 'l']; pure .null
  else if c = 't' then do pass; word ['r', 'u', 'e']; pure (.bool true)
  else if c = 'f' then do pass; word ['a', 'l', 's', 'e']; pure (.bool false)
  else if c = '"' then .str <$> quotedText
  else if c = '-' ∨ c.isDigit then number
  else failNext .expectedValue

/-- Reads a tree in which lists and objects may nest `room` deep. -/
def tree : Nat → Read Json
  | 0 => do
    match ← nextSolid? with
    | none => failNext .eofInValue
    | some c => if c = '[' ∨ c = '\x7b' then failNext .tooDeep else scalar c
  | room + 1 => do
    match ← nextSolid? with
    | none => failNext .eofInValue
    | some '[' =>
      pass
      let items ← many (listItem (tree room))
      pass
      pure (.arr items)
    | some '\x7b' =>
      pass
      let members ← many (objectMember (tree room))
      pass
      pure (.obj (Fields.ofList members))
    | some c => scalar c

def parse (text : String) : Except ReadError Json := whole (tree nestingLimit) text

/-! ### Passing over a value -/

/-- Passes the digits that have to follow next. -/
def skipDigits : Read Unit := do
  if ((← next?).map Char.isDigit).getD false then let _ ← passWhile Char.isDigit
  else failNext .invalidNumber

def skipExponent : Read Unit := do
  if ((← next?).map fun c => c = 'e' || c = 'E').getD false then
    pass
    if ((← next?).map fun c => c = '+' || c = '-').getD false then pass
    skipDigits

def skipNumber : Read Unit := do
  if (← next?) = some '-' then pass
  match ← next? with
  | some '0' =>
    pass
    if ((← next?).map Char.isDigit).getD false then failNext .invalidNumber
  | _ => skipDigits
  if (← next?) = some '.' then
    pass
    skipDigits
  skipExponent

/-- Passes a text: its escapes have to be well formed, but surrogates need no partner. -/
def skipText : Read Unit := do
  pass
  let step : Read (Option Char) := do
    match ← next? with
    | some c =>
      if c.toNat < 0x20 then fail .controlCharacter else quotedStep ((fun _ => '?') <$> hexUnit)
    | none => fail .eofInString
  let _ ← quotedRest step ((← left) + 1)

/-- Passes an item of a list, if there is one. A comma has to be followed by an item. -/
def skipItem (skip : Read Unit) (first : Bool) : Read (Option Unit) := do
  match ← nextSolid? with
  | none => failNext .eofInList
  | some ']' => pure none
  | some c =>
    if first then some <$> skip
    else if c = ',' then pass; some <$> skip
    else failNext .expectedListCommaOrEnd

/-- Passes a name and its value, if there is one. A comma has to be followed by a name. -/
def skipMember (skip : Read Unit) (first : Bool) : Read (Option Unit) := do
  match ← nextSolid? with
  | none => failNext .eofInObject
  | some '\x7d' => pure none
  | some c =>
    if !first then if c = ',' then pass else failNext .expectedObjectCommaOrEnd
    match ← nextSolid? with
    | none => failNext .eofInObject
    | some '"' => skipText
    | some _ => failNext .keyNotString
    colon
    some <$> skip

/-- Passes a value in which lists and objects may nest `room` deep. -/
def skipValue : Nat → Read Unit
  | 0 => failNext .eofInValue
  | room + 1 => do
    match ← nextSolid? with
    | none => failNext .eofInValue
    | some '[' => pass; let _ ← many (skipItem (skipValue room)); pass
    | some '\x7b' => pass; let _ ← many (skipMember (skipValue room)); pass
    | some '"' => skipText
    | some c => if c = '-' ∨ c.isDigit then skipNumber else let _ ← scalar c

def skip : Read Unit := do skipValue ((← left) + 1)

end FormulaSheet.Json
