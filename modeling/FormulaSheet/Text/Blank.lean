/-!
# Blank characters

The characters of the Unicode property `White_Space`, and trimming by it. Tokens of an expression
are separated by these characters, and coercing a text to a number ignores them at both ends. The
zero width space U+200B and the byte order mark U+FEFF are not among them.
-/

namespace FormulaSheet.Text

/-- The code points with the property `White_Space`, in increasing order. -/
def blankCodes : List Nat :=
  [0x09, 0x0A, 0x0B, 0x0C, 0x0D, 0x20, 0x85, 0xA0, 0x1680,
   0x2000, 0x2001, 0x2002, 0x2003, 0x2004, 0x2005, 0x2006, 0x2007, 0x2008, 0x2009, 0x200A,
   0x2028, 0x2029, 0x202F, 0x205F, 0x3000]

/-- A character with the property `White_Space`. -/
def isBlank (c : Char) : Bool := blankCodes.contains c.toNat

example : blankCodes.length = 25 := by decide

/-- No character of a kind is blank if none of the blank ones is of this kind. -/
theorem isBlank_eq_false {p : Char → Bool} (hblank : ∀ n ∈ blankCodes, p (Char.ofNat n) = false)
    {c : Char} (h : p c = true) : isBlank c = false := by
  rw [Bool.eq_false_iff]
  intro hc
  have hfalse := hblank c.toNat (List.contains_iff_mem.mp hc)
  rw [Char.ofNat_toNat, h] at hfalse
  cases hfalse

theorem isBlank_of_isDigit {c : Char} (h : c.isDigit = true) : isBlank c = false :=
  isBlank_eq_false (by decide) h

/-- A text that holds nothing but blank characters. -/
def allBlank (cs : List Char) : Bool := cs.all isBlank

/-- The characters without the blank ones at their end. -/
def trimRight (cs : List Char) : List Char := (cs.reverse.dropWhile isBlank).reverse

/-- The characters without the blank ones at both ends. -/
def trim (cs : List Char) : List Char := trimRight (cs.dropWhile isBlank)

end FormulaSheet.Text
