import FormulaSheet.Decimal.Reader
import FormulaSheet.Expr.SyntaxError
import FormulaSheet.Text.Blank
import FormulaSheet.Text.Bytes
import FormulaSheet.Text.Units

/-!
# Tokens

The text of an expression is cut into tokens with blank characters between them. A token is the
longest one that can be read at its place and reports how many characters it takes. The tokens of a
text end either at the end of the text or at the first place where no token can be read; that place
counts only for a reader who gets there.
-/

namespace FormulaSheet

/-- Operators and brackets. -/
inductive Symbol where
  | plus | minus | star | starStar | slash | percent | bang
  | equal | strictEqual | notEqual | strictNotEqual
  | less | lessEqual | greater | greaterEqual
  | andAnd | orOr | nullish | question | colon | comma | dot
  | parenOpen | parenClose | bracketOpen | bracketClose | braceOpen | braceClose
deriving DecidableEq, Repr

/-- A token. -/
inductive Token where
  | number (x : Float)
  | text (s : String)
  | name (s : String)
  /-- A reserved word that introduces nothing of the language. -/
  | keyword (word : String)
  | trueWord | falseWord | nullWord | typeofWord
  | symbol (s : Symbol)
deriving DecidableEq, Repr

/-- A token with the characters it was read from and their byte range. -/
structure Lexeme where
  token : Token
  text : String
  start : Nat
  stop : Nat
deriving DecidableEq, Repr

/-- The tokens of a text, up to its end or to the place where no token can be read. -/
inductive Tokens where
  | next (lexeme : Lexeme) (rest : Tokens)
  | finish (position : Nat)
  | broken (error : SyntaxError)
deriving Repr

def Tokens.length : Tokens → Nat
  | next _ rest => rest.length + 1
  | finish _ | broken _ => 0

namespace Token

/-! ### Words -/

def isNameStart (c : Char) : Bool := c.isAlpha || c = '_' || c = '$'

/-- A character of which the rest of a name can consist. -/
def isNameChar (c : Char) : Bool := c.isAlphanum || c = '_' || c = '$'

/-- The words that can never be names. None of the constructs they introduce is part of the
language. -/
def reservedWords : List String :=
  ["await", "break", "case", "catch", "class", "const", "continue", "debugger", "default",
   "delete", "do", "else", "enum", "export", "extends", "finally", "for", "function", "if", "in",
   "instanceof", "let", "new", "return", "super", "switch", "this", "throw", "try", "var",
   "void", "while", "with", "yield"]

/-- The names that are read as literals or operators, and not as references. -/
def literalNames : List String :=
  ["true", "false", "null", "typeof", "undefined", "NaN", "Infinity"]

def ofWord (word : String) : Token :=
  if word = "true" then trueWord
  else if word = "false" then falseWord
  else if word = "null" then nullWord
  else if word = "typeof" then typeofWord
  else if reservedWords.contains word then keyword word
  else name word

/-- The text is a name that is read back as a reference to itself. -/
def isIdentifier (s : String) : Bool :=
  match s.toList with
  | [] => false
  | c :: cs =>
    isNameStart c && cs.all isNameChar && !literalNames.contains s && !reservedWords.contains s

/-! ### Quoted texts -/

/-- The number that the next `count` characters write as hexadecimal digits. -/
def hexCode? (count : Nat) (cs : List Char) : Option Nat :=
  let digits := cs.take count
  if digits.length = count then Decimal.readRadix? 16 digits else none

/-- The second half of a surrogate pair, written as the escape that comes next. -/
def lowSurrogate? : List Char → Option Nat
  | '\\' :: 'u' :: cs => (hexCode? 4 cs).filter Text.isLowSurrogate
  | _ => none

/-- Reads a `\u` escape after its mark: the character, and how many characters it takes. A fault
comes with the number of characters before it. -/
def unicodeEscape : List Char → Except (SyntaxFault × Nat) (Char × Nat)
  | '{' :: cs =>
    let digits := cs.takeWhile fun c => (Decimal.radixDigit? 16 c).isSome
    match (Decimal.readRadix? 16 digits).filter (· < UInt32.size) with
    | none => .error (.invalidUnicodeEscape, 1)
    | some code =>
      match cs.drop digits.length with
      | '}' :: _ =>
        if code.isValidChar then .ok (Char.ofNat code, digits.length + 2)
        else .error (.invalidUnicodeEscape, 1)
      | _ => .error (.invalidUnicodeEscape, digits.length + 1)
  | cs =>
    match hexCode? 4 cs with
    | none => .error (.invalidUnicodeEscape, 0)
    | some code =>
      match if Text.isHighSurrogate code then lowSurrogate? (cs.drop 4) else none with
      | some low => .ok (Text.charOfCode (0x10000 + (code - 0xD800) * 0x400 + (low - 0xDC00)), 10)
      | none => .ok (Text.charOfCode code, 4)

/-- Reads an escape after its backslash: the character it stands for, if any, and how many
characters it takes. A backslash before a line break stands for nothing. -/
def escape : List Char → Except (SyntaxFault × Nat) (Option Char × Nat)
  | [] => .error (.unterminatedText, 0)
  | c :: cs =>
    if c = 'n' then .ok (some '\n', 1)
    else if c = 't' then .ok (some '\t', 1)
    else if c = 'r' then .ok (some '\r', 1)
    else if c = 'b' then .ok (some '\x08', 1)
    else if c = 'f' then .ok (some '\x0c', 1)
    else if c = 'v' then .ok (some '\x0b', 1)
    else if c = '0' then .ok (some '\x00', 1)
    else if c = 'x' then
      match hexCode? 2 cs with
      | some code => .ok (some (Text.charOfCode code), 3)
      | none => .error (.invalidHexEscape, 1)
    else if c = 'u' then
      match unicodeEscape cs with
      | .ok (d, n) => .ok (some d, n + 1)
      | .error (fault, n) => .error (fault, n + 1)
    else if c = '\n' then .ok (none, 1)
    else .ok (some c, 1)

/-- Reads the characters of a quoted text up to its closing quote, passing over the first `skip`
ones; `used` characters of the token were read before. Returns the text and the number of
characters of the whole token. -/
def quotedBody (quote : Char) : List Char → (skip used : Nat) →
    Except (SyntaxFault × Nat) (List Char × Nat)
  | [], _, _ => .error (.unterminatedText, 0)
  | _ :: cs, skip + 1, used => quotedBody quote cs skip (used + 1)
  | c :: cs, 0, used =>
    if c = quote then .ok ([], used + 1)
    else if c = '\n' ∨ c = '\r' then .error (.unterminatedText, 0)
    else if c = '\\' then
      match escape cs with
      | .error (.unterminatedText, _) => .error (.unterminatedText, 0)
      | .error (fault, n) => .error (fault, used + 1 + n)
      | .ok (d?, n) => do
        let (ds, total) ← quotedBody quote cs n (used + 1)
        pure (d?.toList ++ ds, total)
    else do
      let (ds, total) ← quotedBody quote cs 0 (used + 1)
      pure (c :: ds, total)

/-! ### Numbers -/

/-- The radix that `0x`, `0o` or `0b`, in either case, announces. -/
def radixMark? : List Char → Option Nat
  | '0' :: c :: _ =>
    if c = 'x' ∨ c = 'X' then some 16
    else if c = 'o' ∨ c = 'O' then some 8
    else if c = 'b' ∨ c = 'B' then some 2
    else none
  | _ => none

/-- A number of `n` characters, which no character of a name may follow. -/
def finishNumber (cs : List Char) (x : Float) (n : Nat) :
    Except (SyntaxFault × Nat) (Token × Nat) :=
  if ((cs.drop n).head?.map isNameChar).getD false then .error (.nameAfterNumber, n)
  else .ok (number x, n)

/-- Reads a number: digits of a marked radix below 2⁶⁴, or a decimal literal. -/
def readNumber (cs : List Char) : Except (SyntaxFault × Nat) (Token × Nat) :=
  match radixMark? cs with
  | some radix =>
    let digits := (cs.drop 2).takeWhile fun c => (Decimal.radixDigit? radix c).isSome
    match (Decimal.readRadix? radix digits).filter (· < UInt64.size) with
    | some n => finishNumber cs (Float.ofNat n) (2 + digits.length)
    | none => .error (.invalidNumber, 0)
  | none =>
    match Decimal.readLiteral? cs with
    | some (l, rest) => finishNumber cs l.value (cs.length - rest.length)
    | none => .error (.invalidNumber, 0)

/-! ### Symbols -/

/-- The symbol at the beginning of a text, and how many characters it takes. A single `=`, `&` or
`|` is none. -/
def readSymbol? : List Char → Option (Symbol × Nat)
  | '(' :: _ => some (.parenOpen, 1)
  | ')' :: _ => some (.parenClose, 1)
  | '[' :: _ => some (.bracketOpen, 1)
  | ']' :: _ => some (.bracketClose, 1)
  | '{' :: _ => some (.braceOpen, 1)
  | '}' :: _ => some (.braceClose, 1)
  | ',' :: _ => some (.comma, 1)
  | ':' :: _ => some (.colon, 1)
  | '+' :: _ => some (.plus, 1)
  | '-' :: _ => some (.minus, 1)
  | '/' :: _ => some (.slash, 1)
  | '%' :: _ => some (.percent, 1)
  | '*' :: '*' :: _ => some (.starStar, 2)
  | '*' :: _ => some (.star, 1)
  | '!' :: '=' :: '=' :: _ => some (.strictNotEqual, 3)
  | '!' :: '=' :: _ => some (.notEqual, 2)
  | '!' :: _ => some (.bang, 1)
  | '=' :: '=' :: '=' :: _ => some (.strictEqual, 3)
  | '=' :: '=' :: _ => some (.equal, 2)
  | '<' :: '=' :: _ => some (.lessEqual, 2)
  | '<' :: _ => some (.less, 1)
  | '>' :: '=' :: _ => some (.greaterEqual, 2)
  | '>' :: _ => some (.greater, 1)
  | '&' :: '&' :: _ => some (.andAnd, 2)
  | '|' :: '|' :: _ => some (.orOr, 2)
  | '?' :: '?' :: _ => some (.nullish, 2)
  | '?' :: _ => some (.question, 1)
  | '.' :: _ => some (.dot, 1)
  | _ => none

/-! ### Tokens of a text -/

/-- A number begins here: a digit, or a point with a digit after it. -/
def startsNumber : List Char → Bool
  | '.' :: c :: _ => c.isDigit
  | c :: _ => c.isDigit
  | [] => false

/-- Reads the token at the beginning of a text that is not blank there, and the number of
characters it takes. A fault comes with the number of characters before it. -/
def read (cs : List Char) : Except (SyntaxFault × Nat) (Token × Nat) :=
  if startsNumber cs then readNumber cs
  else match readSymbol? cs with
    | some (s, n) => .ok (symbol s, n)
    | none =>
      match cs with
      | [] => .error (.unexpectedEnd, 0)
      | c :: rest =>
        if c = '=' then .error (.assignment, 0)
        else if c = '"' ∨ c = '\'' then do
          let (ds, n) ← quotedBody c rest 0 1
          pure (text (String.ofList ds), n)
        else if isNameStart c then
          let word := cs.takeWhile isNameChar
          .ok (ofWord (String.ofList word), word.length)
        else .error (.unexpectedCharacter c, 0)

end Token

namespace Tokens

/-- The tokens of a text after passing over its first `skip` characters; the text begins at a byte
offset. -/
def scan : List Char → (skip offset : Nat) → Tokens
  | [], _, offset => finish offset
  | c :: cs, skip + 1, offset => scan cs skip (offset + c.utf8Size)
  | c :: cs, 0, offset =>
    if Text.isBlank c then scan cs 0 (offset + c.utf8Size)
    else match Token.read (c :: cs) with
      | .error (fault, n) => broken ⟨fault, offset + Text.byteSize ((c :: cs).take n)⟩
      | .ok (token, n) =>
        let used := (c :: cs).take n
        next ⟨token, String.ofList used, offset, offset + Text.byteSize used⟩
          (scan cs (n - 1) (offset + c.utf8Size))

def ofText (text : List Char) : Tokens := scan text 0 0

end Tokens

end FormulaSheet
