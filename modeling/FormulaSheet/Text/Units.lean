/-!
# UTF-16 code units

Texts are measured, indexed and ordered by the 16-bit units of their UTF-16 form. A character up to
U+FFFF is one unit, any other one a high surrogate followed by a low surrogate.
-/

namespace FormulaSheet.Text

def charUnits (c : Char) : List Nat :=
  if c.toNat < 0x10000 then [c.toNat]
  else [0xD800 + (c.toNat - 0x10000) / 0x400, 0xDC00 + (c.toNat - 0x10000) % 0x400]

def units (s : String) : List Nat := s.toList.flatMap charUnits

/-- The character with a code, or the replacement character U+FFFD where there is none: for half of
a surrogate pair, and beyond U+10FFFF. -/
def charOfCode (code : Nat) : Char :=
  if h : code.isValidChar then Char.ofNatAux code h else '\uFFFD'

/-- A unit that is the first half of a surrogate pair. -/
def isHighSurrogate (unit : Nat) : Bool := 0xD800 ≤ unit && unit < 0xDC00

/-- A unit that is the second half of a surrogate pair. -/
def isLowSurrogate (unit : Nat) : Bool := 0xDC00 ≤ unit && unit < 0xE000

/-- The characters of a list of units. Half of a pair that stands alone turns into U+FFFD. -/
def charsOfUnits : List Nat → List Char
  | [] => []
  | [u] => [charOfCode u]
  | u :: v :: rest =>
    if isHighSurrogate u && isLowSurrogate v then
      charOfCode (0x10000 + (u - 0xD800) * 0x400 + (v - 0xDC00)) :: charsOfUnits rest
    else charOfCode u :: charsOfUnits (v :: rest)

def ofUnits (us : List Nat) : String := String.ofList (charsOfUnits us)

def unit? (s : String) (i : Nat) : Option String := (units s)[i]?.map fun u => ofUnits [u]

/-- The order of lists of units: by the first unit that differs, a proper beginning before its
continuations. -/
def compareUnitLists : List Nat → List Nat → Ordering
  | [], [] => .eq
  | [], _ :: _ => .lt
  | _ :: _, [] => .gt
  | a :: as, b :: bs => if a < b then .lt else if b < a then .gt else compareUnitLists as bs

/-- The order of texts by their UTF-16 code units, so that a character above U+FFFF sorts before
U+E000. -/
def compareUnits (s t : String) : Ordering := compareUnitLists (units s) (units t)

example : compareUnits "\uFFFF" "😀" = .gt := by decide +kernel

end FormulaSheet.Text
