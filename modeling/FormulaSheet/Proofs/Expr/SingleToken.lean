import FormulaSheet.Proofs.Expr.FreeNames

/-!
# Texts that are one token

A text that is read as one token up to its end is parsed as what the token stands for, whatever the
limit on nesting (`Expr.parse_of_read`). So a text is an identifier exactly if it is parsed as the
reference to the name it spells, from its first byte to its last (`Expr.parse_eq_ident_iff`).
-/

namespace FormulaSheet.Expr

open Token

variable {limit : Nat}

/-- A text that is one token is parsed as what the token stands for. -/
theorem parse_of_read (hlimit : 0 < limit) {c : Char} {w : List Char} {t : Token} {e : Expr}
    (hblank : Text.isBlank c = false) (hread : Token.read (c :: w) = .ok (t, (c :: w).length))
    (hatom : IsAtom ⟨t, String.ofList (c :: w), 0, 0 + Text.byteSize (c :: w)⟩ e) :
    parse limit (String.ofList (c :: w)) = .ok e := by
  obtain ⟨room, rfl⟩ := Nat.exists_eq_succ_of_ne_zero (Nat.ne_of_gt hlimit)
  have hlexed : Lexed (c :: w ++ []) 0 [⟨t, String.ofList (c :: w), 0, 0 + Text.byteSize (c :: w)⟩]
      (0 + Text.byteSize (c :: w)) := Lexed.token hblank (by simpa using hread) Lexed.finish
  rw [List.append_nil] at hlexed
  have hderives : Derives (room + 1) .conditional
      [⟨t, String.ofList (c :: w), 0, 0 + Text.byteSize (c :: w)⟩] e := Choice.of_atom hatom
  have hnotBlank : Text.allBlank (c :: w) = false := by
    rw [Text.allBlank, List.all_cons, hblank, Bool.false_and]
  refine parse_eq_ok_iff.mpr (Or.inr ?_)
  rw [String.toList_ofList]
  exact ⟨hnotBlank, _, _, hlexed, hderives⟩

/-- **The identifiers are the texts that are parsed as references to themselves.** -/
theorem parse_eq_ident_iff (hlimit : 0 < limit) {name : String} :
    parse limit name = .ok (ident name ⟨0, Text.byteSize name.toList⟩) ↔
      isIdentifier name = true := by
  constructor
  · intro h
    rcases isIdentifier_or_shorthand h List.mem_cons_self with hidentifier | ⟨-, hshorthand⟩
    · exact hidentifier
    · -- a reference by itself has no entries
      cases hshorthand
  · intro h
    obtain ⟨c, w, hname, hstart, -⟩ := isIdentifier_iff.mp h
    have hread : Token.read (name.toList ++ []) = .ok (.name name, name.toList.length) :=
      read_of_isWord (isWord_of_isIdentifier h) (by simp)
    rw [List.append_nil, hname] at hread
    have hparse := parse_of_read hlimit (isBlank_of_isNameStart hstart) hread
      (.reference rfl (notMem_constantNames_of_isIdentifier h))
    rwa [← hname, String.ofList_toList, Nat.zero_add] at hparse

end FormulaSheet.Expr
