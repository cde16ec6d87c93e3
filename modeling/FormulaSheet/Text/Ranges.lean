/-!
# Ranges of code points

A class of characters is written down as a list of ranges of code points, first and last, in
increasing order and apart from each other. Membership is what counts of such a list; the order
makes it one list for one class.
-/

namespace FormulaSheet.Text

/-- Code points from the first up to and including the second. -/
abbrev CodeRange := Nat × Nat

def inRanges (ranges : List CodeRange) (c : Char) : Bool :=
  ranges.any fun r => r.1 ≤ c.toNat && c.toNat ≤ r.2

/-- The ranges begin after a code point, increase, and leave a gap between any two. -/
def orderedAfter : Nat → List CodeRange → Bool
  | _, [] => true
  | n, r :: rest => n < r.1 && r.1 ≤ r.2 && orderedAfter (r.2 + 1) rest

end FormulaSheet.Text
