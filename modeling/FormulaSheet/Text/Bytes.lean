/-!
# Byte offsets

Positions in an expression are offsets into the UTF-8 form of its text. A character is the one at
an offset when the characters before it take that many bytes.
-/

namespace FormulaSheet.Text

/-- The number of bytes that characters take in UTF-8. -/
def byteSize (cs : List Char) : Nat := cs.foldr (·.utf8Size + ·) 0

@[simp] theorem byteSize_nil : byteSize [] = 0 := rfl

@[simp] theorem byteSize_cons (c : Char) (cs : List Char) :
    byteSize (c :: cs) = c.utf8Size + byteSize cs := rfl

@[simp] theorem byteSize_append (cs ds : List Char) :
    byteSize (cs ++ ds) = byteSize cs + byteSize ds := by
  induction cs with
  | nil => simp
  | cons c cs ih => rw [List.cons_append, byteSize_cons, byteSize_cons, ih, Nat.add_assoc]

/-- The characters that begin before a byte offset. -/
def takeBytes : List Char → Nat → List Char
  | [], _ => []
  | c :: cs, n => if n = 0 then [] else c :: takeBytes cs (n - c.utf8Size)

/-- The characters that begin at a byte offset or after it. -/
def dropBytes : List Char → Nat → List Char
  | [], _ => []
  | c :: cs, n => if n = 0 then c :: cs else dropBytes cs (n - c.utf8Size)

end FormulaSheet.Text
