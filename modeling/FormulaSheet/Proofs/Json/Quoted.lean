import FormulaSheet.Json.Printer
import FormulaSheet.Proofs.Json.Outcome

/-!
# Quoted texts are read back

Every character of a quoted text is read back from what stands for it, so that every text is read
back from its quoted form (`Json.gives_quotedText`).
-/

namespace FormulaSheet.Json

open Read

theorem hexValue?_hexDigit (n : Nat) : hexValue? (hexDigit n) = some (n % 16) := by
  have hall : ∀ m < 16, hexValue? (Nat.digitChar m) = some m := by decide
  exact hall (n % 16) (Nat.mod_lt n (by decide))

/-- Two digits are enough for the code of a control character. -/
theorem gives_hexUnit {n : Nat} (hn : n < 256) (rest : List Char) :
    Gives hexUnit ('0' :: '0' :: hexDigit (n / 16) :: hexDigit n :: rest) (some (n, rest)) := by
  have hzero : hexValue? '0' = some 0 := by decide
  have hhigh : hexValue? (hexDigit (n / 16)) = some (n / 16) := by
    rw [hexValue?_hexDigit, Nat.mod_eq_of_lt (by omega)]
  intro offset
  simp only [outcome, hexUnit, hzero, hhigh, hexValue?_hexDigit]
  congr 2
  omega

theorem gives_unicodeEscape {c : Char} (hc : c.toNat < 0x20) (rest : List Char) :
    Gives unicodeEscape ('0' :: '0' :: hexDigit (c.toNat / 16) :: hexDigit c.toNat :: rest)
      (some (c, rest)) := by
  have hlow : ¬ (decide (0xDC00 ≤ c.toNat) && decide (c.toNat < 0xE000)) = true := by
    simp only [Bool.and_eq_true, decide_eq_true_eq]
    omega
  have hhigh : ¬ (decide (0xD800 ≤ c.toNat) && decide (c.toNat < 0xDC00)) = true := by
    simp only [Bool.and_eq_true, decide_eq_true_eq]
    omega
  apply (gives_hexUnit (by omega) rest).bind
  apply Gives.ite_neg hlow
  apply Gives.ite_neg hhigh
  rw [Char.ofNat_toNat]
  exact gives_pure c rest

/-- A character that stands for itself. -/
theorem gives_quotedStep_self {c : Char} (hquote : c ≠ '"') (hescape : c ≠ '\\')
    (hc : ¬ c.toNat < 0x20) (unicode : Read Char) (rest : List Char) :
    Gives (quotedStep unicode) (c :: rest) (some (some c, rest)) := by
  apply (gives_next (c :: rest)).bind
  rw [List.head?_cons]
  split
  · rename_i heq
    cases heq
  · rename_i heq
    exact absurd (Option.some.inj heq) hquote
  · rename_i heq
    exact absurd (Option.some.inj heq) hescape
  · rename_i heq
    rw [← Option.some.inj heq]
    apply Gives.ite_neg hc
    exact (gives_pass c rest).bind (gives_pure (some c) rest)

theorem gives_quotedStep_close (unicode : Read Char) (rest : List Char) :
    Gives (quotedStep unicode) ('"' :: rest) (some (none, rest)) := fun _ => rfl

/-- What stands for a character is read as this character. -/
theorem gives_quotedStep (c : Char) (rest : List Char) :
    Gives (quotedStep unicodeEscape) (quotedChar c ++ rest) (some (some c, rest)) := by
  unfold quotedChar
  -- the seven short escapes
  iterate 7
    split
    · rename_i h
      subst h
      exact fun _ => rfl
  split
  · rename_i hc
    have hescape := (gives_unicodeEscape hc rest).map some
    exact (gives_next _).bind
      ((gives_pass '\\' _).bind ((gives_next _).bind ((gives_pass 'u' _).bind hescape)))
  · rename_i hquote hbackslash _ _ _ _ _ hc
    exact gives_quotedStep_self hquote hbackslash hc unicodeEscape rest

theorem gives_quotedRest (cs rest : List Char) {fuel : Nat} (hfuel : cs.length < fuel) :
    Gives (quotedRest (quotedStep unicodeEscape) fuel) (cs.flatMap quotedChar ++ '"' :: rest)
      (some (cs, rest)) := by
  obtain ⟨fuel, rfl⟩ := Nat.exists_eq_succ_of_ne_zero (Nat.ne_of_gt (Nat.zero_lt_of_lt hfuel))
  induction cs generalizing fuel with
  | nil => exact (gives_quotedStep_close unicodeEscape rest).bind (gives_pure [] rest)
  | cons c cs ih =>
    have hpos : cs.length < fuel := Nat.lt_of_succ_lt_succ hfuel
    obtain ⟨fuel, rfl⟩ := Nat.exists_eq_succ_of_ne_zero (Nat.ne_of_gt (Nat.zero_lt_of_lt hpos))
    rw [List.flatMap_cons, List.append_assoc]
    apply (gives_quotedStep c _).bind
    exact (ih fuel hpos).map (c :: ·)

theorem length_le_flatMap_quotedChar (cs : List Char) :
    cs.length ≤ (cs.flatMap quotedChar).length := by
  induction cs with
  | nil => exact Nat.le_refl 0
  | cons c cs ih =>
    have hc : 1 ≤ (quotedChar c).length := by
      unfold quotedChar
      repeat' split
      all_goals simp
    rw [List.flatMap_cons, List.length_append, List.length_cons]
    omega

theorem toList_quoted (s : String) :
    (quoted s).toList = '"' :: (s.toList.flatMap quotedChar ++ ['"']) :=
  String.toList_ofList

/-- **A text is read back from its quoted form**, whatever follows. -/
theorem gives_quotedText (s : String) (rest : List Char) :
    Gives quotedText ((quoted s).toList ++ rest) (some (s, rest)) := by
  have htext : (quoted s).toList ++ rest = '"' :: (s.toList.flatMap quotedChar ++ '"' :: rest) := by
    rw [toList_quoted, List.cons_append, List.append_assoc, List.singleton_append]
  have hfuel : s.toList.length < (s.toList.flatMap quotedChar ++ '"' :: rest).length + 1 := by
    have := length_le_flatMap_quotedChar s.toList
    rw [List.length_append]
    omega
  have hrest := (gives_quotedRest s.toList rest hfuel).map String.ofList
  rw [Option.map_some, String.ofList_toList] at hrest
  rw [htext]
  apply (gives_pass '"' _).bind
  exact (gives_left _).bind hrest

end FormulaSheet.Json
