import FormulaSheet.Decimal.Layout
import FormulaSheet.Json.Basic

/-!
# JSON text

A tree is written on one line without blanks, or with one item per line, indented by a given text
for each level. A text is quoted with the short escapes where JSON has one and `\u00xx` for the
other control characters; everything else is written as it is.
-/

namespace FormulaSheet.Json

def hexDigit (n : Nat) : Char := Nat.digitChar (n % 16)

/-- A character as it stands inside a quoted text. -/
def quotedChar (c : Char) : List Char :=
  if c = '"' then ['\\', '"']
  else if c = '\\' then ['\\', '\\']
  else if c = '\x08' then ['\\', 'b']
  else if c = '\x0c' then ['\\', 'f']
  else if c = '\n' then ['\\', 'n']
  else if c = '\r' then ['\\', 'r']
  else if c = '\t' then ['\\', 't']
  else if c.toNat < 0x20 then ['\\', 'u', '0', '0', hexDigit (c.toNat / 16), hexDigit c.toNat]
  else [c]

def quoted (s : String) : String :=
  String.ofList ('"' :: (s.toList.flatMap quotedChar ++ ['"']))

/-- The text of a number that is written with a fraction. Zero keeps its sign; JSON has no text for
infinities and not-a-number, for which `null` stands. -/
def floatText (x : Float) : String :=
  if !x.isFinite then "null"
  else if x == 0 then (if Decimal.isNegative x then "-0.0" else "0.0")
  else Decimal.jsonLayout.write x

mutual
def compact : Json → String
  | null => "null"
  | bool b => if b then "true" else "false"
  | int n => Decimal.intText n
  | float x => floatText x
  | str s => quoted s
  | arr items => "[" ++ ",".intercalate (compactItems items) ++ "]"
  | obj members => "\x7b" ++ ",".intercalate (compactMembers members) ++ "\x7d"

def compactItems : List Json → List String
  | [] => []
  | j :: rest => compact j :: compactItems rest

/-- The members of an object, each on one line. -/
def compactMembers : List (String × Json) → List String
  | [] => []
  | (k, j) :: rest => (quoted k ++ ":" ++ compact j) :: compactMembers rest
end

def lineBreak (indent : String) (level : Nat) : String :=
  "\n" ++ String.join (List.replicate level indent)

/-- A list of texts between brackets, one a line, one level deeper than the brackets. -/
def bracketed (indent : String) (level : Nat) (opening closing : String) (items : List String) :
    String :=
  if items.isEmpty then opening ++ closing
  else
    opening ++ lineBreak indent (level + 1) ++
      ("," ++ lineBreak indent (level + 1)).intercalate items ++
      lineBreak indent level ++ closing

mutual
def indentedAt (indent : String) (level : Nat) : Json → String
  | arr items => bracketed indent level "[" "]" (indentedItems indent level items)
  | obj members => bracketed indent level "\x7b" "\x7d" (indentedMembers indent level members)
  | null => "null"
  | bool b => if b then "true" else "false"
  | int n => Decimal.intText n
  | float x => floatText x
  | str s => quoted s

def indentedItems (indent : String) (level : Nat) : List Json → List String
  | [] => []
  | j :: rest => indentedAt indent (level + 1) j :: indentedItems indent level rest

/-- The members of an object at one level more. -/
def indentedMembers (indent : String) (level : Nat) : List (String × Json) → List String
  | [] => []
  | (k, j) :: rest =>
    (quoted k ++ ": " ++ indentedAt indent (level + 1) j) :: indentedMembers indent level rest
end

def indented (indent : String) (j : Json) : String := indentedAt indent 0 j

/-- The tree with one item per line, two blanks for each level. -/
def pretty (j : Json) : String := indented "  " j

end FormulaSheet.Json
