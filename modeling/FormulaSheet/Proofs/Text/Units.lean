import FormulaSheet.Text.Units
import Mathlib.Data.List.Lex

/-!
# Texts and their units

The units of a text determine it: no character is one of the two halves of a surrogate
pair, so the units are decoded one character after the other into the text that they stand
for (`Text.charsOfUnits_units`). The order of texts is the lexicographic one of their
units (`Text.compareUnits_eq_lt_iff`), and therefore exactly one of less, equal and
greater holds of two texts.
-/

namespace FormulaSheet.Text

/-! ### Codes -/

theorem isValidChar_toNat (c : Char) : c.toNat.isValidChar := c.valid

theorem charOfCode_toNat (c : Char) : charOfCode c.toNat = c := by
  rw [charOfCode, dif_pos (isValidChar_toNat c)]
  have hofNat : Char.ofNat c.toNat = Char.ofNatAux c.toNat (isValidChar_toNat c) :=
    dif_pos (isValidChar_toNat c)
  rw [← hofNat, Char.ofNat_toNat]

theorem isHighSurrogate_toNat (c : Char) : isHighSurrogate c.toNat = false := by
  rcases isValidChar_toNat c with h | h <;> simp [isHighSurrogate] <;> omega

/-- The halves of a surrogate pair, and the code that they stand for. -/
theorem charUnits_eq_pair {c : Char} {high low : Nat} (h : charUnits c = [high, low]) :
    isHighSurrogate high = true ∧ isLowSurrogate low = true ∧
      0x10000 + (high - 0xD800) * 0x400 + (low - 0xDC00) = c.toNat := by
  have hvalid : c.toNat < 0x110000 := by
    rcases isValidChar_toNat c with h | h <;> omega
  unfold charUnits at h
  split at h
  · cases h
  · rename_i hlarge
    obtain ⟨rfl, hlow⟩ := List.cons.inj h
    obtain rfl := List.head_eq_of_cons_eq hlow
    simp only [isHighSurrogate, isLowSurrogate, Bool.and_eq_true, decide_eq_true_eq]
    omega

/-- A character has one unit, its code, or the two of a surrogate pair. -/
theorem charUnits_cases (c : Char) :
    (c.toNat < 0x10000 ∧ charUnits c = [c.toNat]) ∨
      ∃ high low, 0x10000 ≤ c.toNat ∧ charUnits c = [high, low] := by
  unfold charUnits
  split
  · exact Or.inl ⟨‹_›, rfl⟩
  · exact Or.inr ⟨_, _, Nat.not_lt.mp ‹_›, rfl⟩

/-! ### Decoding -/

theorem charsOfUnits_cons {u : Nat} (h : isHighSurrogate u = false) (rest : List Nat) :
    charsOfUnits (u :: rest) = charOfCode u :: charsOfUnits rest := by
  cases rest with
  | nil => rfl
  | cons v rest => rw [charsOfUnits, h, Bool.false_and, if_neg Bool.false_ne_true]

theorem charsOfUnits_charUnits (c : Char) (rest : List Nat) :
    charsOfUnits (charUnits c ++ rest) = c :: charsOfUnits rest := by
  rcases charUnits_cases c with ⟨-, hc⟩ | ⟨high, low, -, hc⟩
  · rw [hc, List.singleton_append, charsOfUnits_cons (isHighSurrogate_toNat c), charOfCode_toNat]
  · obtain ⟨hhigh, hlow, hcode⟩ := charUnits_eq_pair hc
    rw [hc, List.cons_append, List.singleton_append, charsOfUnits, hhigh, hlow,
      Bool.and_self, if_pos rfl, hcode, charOfCode_toNat]

theorem charsOfUnits_flatMap (cs : List Char) : charsOfUnits (cs.flatMap charUnits) = cs := by
  induction cs with
  | nil => rfl
  | cons c cs ih => rw [List.flatMap_cons, charsOfUnits_charUnits, ih]

/-- **The units of a text are decoded into its characters.** -/
theorem charsOfUnits_units (s : String) : charsOfUnits (units s) = s.toList :=
  charsOfUnits_flatMap s.toList

/-- Texts with the same units are the same. -/
theorem units_injective : Function.Injective units := by
  intro s t h
  apply String.toList_inj.mp
  rw [← charsOfUnits_units s, h, charsOfUnits_units]

/-! ### Order -/

/-- Lists of units are compared lexicographically. -/
theorem compareUnitLists_eq (us vs : List Nat) :
    compareUnitLists us vs = if us < vs then .lt else if us = vs then .eq else .gt := by
  induction us generalizing vs with
  | nil =>
    cases vs with
    | nil => rfl
    | cons v vs => exact (if_pos (List.nil_lt_cons v vs)).symm
  | cons u us ih =>
    cases vs with
    | nil => exact ((if_neg (List.not_lt_nil _)).trans (if_neg (List.cons_ne_nil u us))).symm
    | cons v vs =>
      rw [compareUnitLists, ih]
      rcases Nat.lt_trichotomy u v with h | rfl | h
      · simp [List.cons_lt_cons_iff, h]
      · simp
      · simp [List.cons_lt_cons_iff, h, Nat.lt_asymm h, Nat.ne_of_gt h]

variable {s t : String}

/-- **The order of texts is the lexicographic order of their units.** -/
theorem compareUnits_eq_lt_iff : compareUnits s t = .lt ↔ units s < units t := by
  rw [compareUnits, compareUnitLists_eq]
  split_ifs with hlt <;> simp [hlt]

theorem compareUnits_eq_eq_iff : compareUnits s t = .eq ↔ s = t := by
  rw [compareUnits, compareUnitLists_eq, ← units_injective.eq_iff]
  split_ifs with hlt heq
  · exact iff_of_false nofun (ne_of_lt hlt)
  · exact iff_of_true rfl heq
  · exact iff_of_false nofun heq

theorem compareUnits_eq_gt_iff : compareUnits s t = .gt ↔ units t < units s := by
  rw [compareUnits, compareUnitLists_eq]
  split_ifs with hlt heq
  · exact iff_of_false nofun (lt_asymm hlt)
  · exact iff_of_false nofun (heq ▸ lt_irrefl _)
  · exact iff_of_true rfl (lt_of_le_of_ne (not_lt.mp hlt) (Ne.symm heq))

/-- A character above U+FFFF begins with half of a pair, and so it comes before the ones from U+E000
to U+FFFF. -/
theorem units_lt_of_above {c d : Char} (hc : 0xFFFF < c.toNat) (hlow : 0xE000 ≤ d.toNat)
    (hhigh : d.toNat ≤ 0xFFFF) (p cs ds : List Char) :
    units (String.ofList (p ++ c :: cs)) < units (String.ofList (p ++ d :: ds)) := by
  simp only [units, String.toList_ofList, List.flatMap_append, List.flatMap_cons]
  apply List.append_left_lt
  rcases charUnits_cases c with ⟨hsmall, -⟩ | ⟨high, low, -, hunits⟩
  · omega
  rcases charUnits_cases d with ⟨-, hunit⟩ | ⟨_, _, hlarge, -⟩
  · have hhalf := (charUnits_eq_pair hunits).1
    simp only [isHighSurrogate, Bool.and_eq_true, decide_eq_true_eq] at hhalf
    rw [hunits, hunit]
    exact List.cons_lt_cons_iff.mpr (Or.inl (by omega))
  · omega

end FormulaSheet.Text
