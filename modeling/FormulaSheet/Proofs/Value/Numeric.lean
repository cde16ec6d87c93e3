import FormulaSheet.Proofs.Decimal.NotANumber
import FormulaSheet.Proofs.Decimal.Numeral
import FormulaSheet.Value.Coerce

/-!
# Texts that are numbers

A numeral is nothing at all, infinity or a decimal with an optional sign, or digits of a radix
behind the mark of it. Coercing a text to a number departs from this in two ways, both behind a
mark: digits that write 2⁶⁴ or more are refused however regular they are, and a plus sign between
the mark and the digits is passed over (`Value.isNaN_toNumber_text`). Every other text is a number
exactly where it is a numeral.
-/

namespace FormulaSheet

open Decimal

/-! ### Numerals -/

/-- The letters that announce a radix behind a zero. -/
def radixMarks : List (Char × Nat) := [('x', 16), ('X', 16), ('o', 8), ('O', 8), ('b', 2), ('B', 2)]

/-- The text is `rest` behind the mark of a radix. -/
def IsMarked (radix : Nat) (rest cs : List Char) : Prop :=
  ∃ mark, (mark, radix) ∈ radixMarks ∧ cs = '0' :: mark :: rest

/-- A numeral: what a text without blank characters at its ends has to be in order to write a
number. -/
inductive IsNumeral : List Char → Prop where
  | empty : IsNumeral []
  | infinity {sign : List Char} (hsign : IsSign sign) : IsNumeral (sign ++ "Infinity".toList)
  | decimal {sign body : List Char} (hsign : IsSign sign) (hbody : IsDecimal body) :
      IsNumeral (sign ++ body)
  | marked {radix : Nat} {ds cs : List Char} (hmark : IsMarked radix ds cs)
      (hdigits : IsRadixText radix ds) : IsNumeral cs

/-- Digits behind a mark that write a number of more than 64 bits. -/
def IsTooLarge (cs : List Char) : Prop :=
  ∃ radix ds, IsMarked radix ds cs ∧ IsRadixText radix ds ∧ UInt64.size ≤ radixValue radix ds

/-- Digits behind a mark and a plus sign that write a number of at most 64 bits. -/
def IsPlusMarked (cs : List Char) : Prop :=
  ∃ radix ds, IsMarked radix ('+' :: ds) cs ∧ IsRadixText radix ds ∧
    radixValue radix ds < UInt64.size

variable {radix : Nat} {rest ds cs : List Char}

/-! ### Marks -/

theorem radixMark?_eq_some_iff : radixMark? cs = some (radix, rest) ↔ IsMarked radix rest cs := by
  constructor
  · unfold radixMark?
    split
    · rename_i c rest'
      split_ifs with hx ho hb
      · rintro ⟨⟩
        rcases hx with rfl | rfl
        · exact ⟨'x', by decide, rfl⟩
        · exact ⟨'X', by decide, rfl⟩
      · rintro ⟨⟩
        rcases ho with rfl | rfl
        · exact ⟨'o', by decide, rfl⟩
        · exact ⟨'O', by decide, rfl⟩
      · rintro ⟨⟩
        rcases hb with rfl | rfl
        · exact ⟨'b', by decide, rfl⟩
        · exact ⟨'B', by decide, rfl⟩
      · exact nofun
    · exact nofun
  · rintro ⟨mark, hmark, rfl⟩
    simp only [radixMarks, List.mem_cons, Prod.mk.injEq, List.not_mem_nil, or_false] at hmark
    rcases hmark with ⟨rfl, rfl⟩ | ⟨rfl, rfl⟩ | ⟨rfl, rfl⟩ | ⟨rfl, rfl⟩ | ⟨rfl, rfl⟩ | ⟨rfl, rfl⟩
    all_goals rfl

/-- A mark is read in one way only. -/
theorem IsMarked.unique {radix' : Nat} {rest' : List Char} (h : IsMarked radix rest cs)
    (h' : IsMarked radix' rest' cs) : radix = radix' ∧ rest = rest' := by
  rw [← radixMark?_eq_some_iff] at h h'
  exact Prod.mk.inj (Option.some.inj (h.symm.trans h'))

theorem IsMarked.mem_radix (h : IsMarked radix rest cs) : radix ∈ [2, 8, 16] := by
  obtain ⟨mark, hmark, -⟩ := h
  have hradix : ∀ p ∈ radixMarks, p.2 ∈ [2, 8, 16] := by decide
  exact hradix _ hmark

theorem IsMarked.not_sign_infinity {sign : List Char} (hsign : IsSign sign) :
    ¬ IsMarked radix rest (sign ++ "Infinity".toList) := by
  rintro ⟨mark, -, hcs⟩
  rcases hsign with rfl | rfl | rfl <;> simp at hcs

/-- The letter of a mark stands in no decimal. -/
theorem IsMarked.not_decimal {sign body : List Char} (hsign : IsSign sign)
    (hbody : IsDecimal body) : ¬ IsMarked radix rest (sign ++ body) := by
  rintro ⟨mark, hmark, hcs⟩
  have hletters : ∀ p ∈ radixMarks, ¬ (p.1.isDigit = true ∨ p.1 ∈ decimalMarks) := by decide
  refine hletters _ hmark ?_
  have hmem : mark ∈ sign ++ body := by
    rw [hcs]
    exact List.mem_cons_of_mem _ (List.mem_cons_self ..)
  rcases List.mem_append.mp hmem with hmem | hmem
  · exact Or.inr (hsign.mem hmem)
  · exact hbody.mem hmem

theorem plus_not_mem_radixDigits (hradix : radix ∈ [2, 8, 16]) : '+' ∉ radixDigits radix := by
  have hdigits : ∀ radix ∈ [2, 8, 16], '+' ∉ radixDigits radix := by decide +kernel
  exact hdigits radix hradix

/-- Behind a mark only digits of the radix make a numeral. -/
theorem IsMarked.isNumeral_iff (h : IsMarked radix rest cs) :
    IsNumeral cs ↔ IsRadixText radix rest := by
  refine ⟨fun hnumeral => ?_, .marked h⟩
  cases hnumeral with
  | empty => exact absurd h fun ⟨_, _, hnil⟩ => nomatch hnil
  | infinity hsign => exact absurd h (IsMarked.not_sign_infinity hsign)
  | decimal hsign hbody => exact absurd h (IsMarked.not_decimal hsign hbody)
  | marked hmark hdigits =>
    obtain ⟨rfl, rfl⟩ := h.unique hmark
    exact hdigits

theorem IsMarked.isTooLarge_iff (h : IsMarked radix rest cs) :
    IsTooLarge cs ↔ IsRadixText radix rest ∧ UInt64.size ≤ radixValue radix rest := by
  refine ⟨?_, fun hdigits => ⟨radix, rest, h, hdigits⟩⟩
  rintro ⟨radix', rest', hmark, hdigits⟩
  obtain ⟨rfl, rfl⟩ := h.unique hmark
  exact hdigits

theorem IsMarked.isPlusMarked_iff (h : IsMarked radix rest cs) :
    IsPlusMarked cs ↔ ∃ ds, rest = '+' :: ds ∧ IsRadixText radix ds ∧
    radixValue radix ds < UInt64.size := by
  constructor
  · rintro ⟨radix', ds, hmark, hdigits⟩
    obtain ⟨rfl, rfl⟩ := h.unique hmark
    exact ⟨ds, rfl, hdigits⟩
  · rintro ⟨ds, rfl, hdigits⟩
    exact ⟨radix, ds, h, hdigits⟩

theorem IsTooLarge.isNumeral (h : IsTooLarge cs) : IsNumeral cs := by
  obtain ⟨radix, ds, hmark, hdigits, -⟩ := h
  exact .marked hmark hdigits

theorem IsPlusMarked.not_isNumeral (h : IsPlusMarked cs) : ¬ IsNumeral cs := by
  obtain ⟨radix, ds, hmark, -⟩ := h
  rw [hmark.isNumeral_iff]
  exact fun hdigits =>
    plus_not_mem_radixDigits hmark.mem_radix (hdigits.digits _ (List.mem_cons_self ..))

/-! ### Reading numerals -/

/-- A text that may write a number is one exactly where it writes one. -/
theorem isNaN_getD {x? : Option Float} (h : ∀ x ∈ x?, x.isNaN = false) :
    (x?.getD notANumber).isNaN = false ↔ x?.isSome = true := by
  cases x? with
  | none => exact iff_of_false (by decide +kernel) Bool.false_ne_true
  | some x => exact iff_of_true (h x rfl) rfl

theorem isNaN_readNumber? : ∀ x ∈ readNumber? cs, x.isNaN = false := by
  intro x hx
  unfold readNumber? at hx
  dsimp only at hx
  split at hx
  · obtain rfl := Option.some.inj hx
    split
    · exact isNaN_neg (isNaN_nearest _ _)
    · exact isNaN_nearest _ _
  · cases hx

/-- The number that digits of a radix write, if it has 64 bits. -/
def wordNumber? (radix : Nat) (ds : List Char) : Option Float :=
  ((readRadix? radix ds).filter (· < UInt64.size)).map Float.ofNat

theorem match_readRadix?_eq (ds : List Char) :
    (match readRadix? radix ds with
      | some n => if n < UInt64.size then some (Float.ofNat n) else none
      | none => none) = wordNumber? radix ds := by
  unfold wordNumber?
  cases readRadix? radix ds with
  | none => rfl
  | some n =>
    by_cases hn : n < UInt64.size
    · simp [hn]
    · rw [Option.filter_some_neg (by simpa using hn)]
      exact if_neg hn

theorem radixNumber?_plus (ds : List Char) :
    radixNumber? radix ('+' :: ds) = wordNumber? radix ds :=
  match_readRadix?_eq ds

theorem radixNumber?_of_no_plus (h : ∀ ds, rest ≠ '+' :: ds) :
    radixNumber? radix rest = wordNumber? radix rest := by
  rw [← match_readRadix?_eq]
  unfold radixNumber?
  split
  · exact absurd rfl (h _)
  · rfl

theorem wordNumber?_eq_some_iff (hradix : radix ∈ [2, 8, 16]) {x : Float} :
    wordNumber? radix ds = some x ↔
      IsRadixText radix ds ∧ radixValue radix ds < UInt64.size ∧
      Float.ofNat (radixValue radix ds) = x := by
  unfold wordNumber?
  simp only [Option.map_eq_some_iff, Option.filter_eq_some_iff, decide_eq_true_eq,
    readRadix?_eq_some_iff hradix]
  constructor
  · rintro ⟨n, ⟨⟨hdigits, rfl⟩, hsize⟩, hx⟩
    exact ⟨hdigits, hsize, hx⟩
  · rintro ⟨hdigits, hsize, hx⟩
    exact ⟨_, ⟨⟨hdigits, rfl⟩, hsize⟩, hx⟩

/-- The digits that are read behind a mark: a plus sign may stand before them, and their number has
64 bits. -/
theorem radixNumber?_eq_some_iff (hradix : radix ∈ [2, 8, 16]) {x : Float} :
    radixNumber? radix rest = some x ↔
      ∃ ds, (rest = ds ∨ rest = '+' :: ds) ∧ IsRadixText radix ds ∧
        radixValue radix ds < UInt64.size ∧ Float.ofNat (radixValue radix ds) = x := by
  by_cases hplus : ∃ ds, rest = '+' :: ds
  · obtain ⟨ds, rfl⟩ := hplus
    rw [radixNumber?_plus, wordNumber?_eq_some_iff hradix]
    constructor
    · exact fun h => ⟨ds, Or.inr rfl, h⟩
    · rintro ⟨ds', rfl | hplus, h⟩
      · exact absurd (h.1.digits _ (List.mem_cons_self ..)) (plus_not_mem_radixDigits hradix)
      · rwa [(List.cons.inj hplus).2]
  · rw [radixNumber?_of_no_plus fun ds hds => hplus ⟨ds, hds⟩, wordNumber?_eq_some_iff hradix]
    constructor
    · exact fun h => ⟨rest, Or.inl rfl, h⟩
    · rintro ⟨ds', rfl | rfl, h⟩
      · exact h
      · exact absurd ⟨ds', rfl⟩ hplus

theorem isNaN_radixNumber? (hradix : radix ∈ [2, 8, 16]) :
    ∀ x ∈ radixNumber? radix rest, x.isNaN = false := by
  intro x hx
  obtain ⟨ds, -, -, -, rfl⟩ := (radixNumber?_eq_some_iff hradix).mp hx
  exact isNaN_ofNat _

theorem IsMarked.isNaN_iff (h : IsMarked radix rest cs) :
    ((radixNumber? radix rest).getD notANumber).isNaN = false ↔
      (IsNumeral cs ∧ ¬ IsTooLarge cs) ∨ IsPlusMarked cs := by
  rw [isNaN_getD (isNaN_radixNumber? h.mem_radix), h.isNumeral_iff, h.isTooLarge_iff,
    h.isPlusMarked_iff, Option.isSome_iff_exists]
  simp only [radixNumber?_eq_some_iff h.mem_radix]
  constructor
  · rintro ⟨x, ds, rfl | hplus, hdigits, hsize, -⟩
    · exact Or.inl ⟨hdigits, fun hlarge => absurd hsize (Nat.not_lt.mpr hlarge.2)⟩
    · exact Or.inr ⟨ds, hplus, hdigits, hsize⟩
  · rintro (⟨hdigits, hlarge⟩ | ⟨ds, hplus, hdigits, hsize⟩)
    · exact ⟨_, rest, Or.inl rfl, hdigits, Nat.lt_of_not_le fun hsize => hlarge ⟨hdigits, hsize⟩,
        rfl⟩
    · exact ⟨_, ds, Or.inr hplus, hdigits, hsize, rfl⟩

/-- Without a mark the numerals are nothing, infinity and the decimals. -/
theorem isNumeral_iff_of_radixMark?_eq_none (h : radixMark? cs = none) :
    IsNumeral cs ↔ cs = [] ∨ (∃ sign, IsSign sign ∧ cs = sign ++ "Infinity".toList) ∨
      (readNumber? cs).isSome = true := by
  rw [isSome_readNumber?_iff]
  constructor
  · rintro (_ | hsign | ⟨hsign, hbody⟩ | ⟨hmark, -⟩)
    · exact Or.inl rfl
    · exact Or.inr (Or.inl ⟨_, hsign, rfl⟩)
    · exact Or.inr (Or.inr ⟨_, _, hsign, hbody, rfl⟩)
    · rw [radixMark?_eq_some_iff.mpr hmark] at h
      cases h
  · rintro (rfl | ⟨sign, hsign, rfl⟩ | ⟨sign, body, hsign, hbody, rfl⟩)
    · exact .empty
    · exact .infinity hsign
    · exact .decimal hsign hbody

/-- A text is a number where it is a numeral of at most 64 bits, or has a plus sign behind a
mark. -/
theorem isNaN_numberOfChars :
    (numberOfChars cs).isNaN = false ↔
      (IsNumeral (Text.trim cs) ∧ ¬ IsTooLarge (Text.trim cs)) ∨ IsPlusMarked (Text.trim cs) := by
  unfold numberOfChars
  dsimp only
  generalize Text.trim cs = t
  cases hmark : radixMark? t with
  | some p =>
    obtain ⟨radix, rest⟩ := p
    rw [radixMark?_eq_some_iff] at hmark
    rw [← hmark.isNaN_iff]
    obtain ⟨mark, -, rfl⟩ := hmark
    simp
  | none =>
    have hunmarked : ∀ radix rest, ¬ IsMarked radix rest t := by
      intro radix rest h
      rw [radixMark?_eq_some_iff.mpr h] at hmark
      cases hmark
    have hlarge : ¬ IsTooLarge t := fun ⟨_, _, h, _⟩ => hunmarked _ _ h
    have hplus : ¬ IsPlusMarked t := fun ⟨_, _, h, _⟩ => hunmarked _ _ h
    rw [or_iff_left hplus, and_iff_left hlarge, isNumeral_iff_of_radixMark?_eq_none hmark]
    split_ifs with hempty hpositive hnegative
    · exact iff_of_true (by decide +kernel) (Or.inl (List.isEmpty_iff.mp hempty))
    · refine iff_of_true (by decide +kernel) (Or.inr (Or.inl ?_))
      rcases hpositive with rfl | rfl
      · exact ⟨[], Or.inl rfl, rfl⟩
      · exact ⟨['+'], Or.inr (Or.inl rfl), rfl⟩
    · exact iff_of_true (by decide +kernel)
        (Or.inr (Or.inl ⟨['-'], Or.inr (Or.inr rfl), hnegative⟩))
    · have hinfinity : ¬ ∃ sign, IsSign sign ∧ t = sign ++ "Infinity".toList := by
        rintro ⟨sign, rfl | rfl | rfl, rfl⟩
        · exact hpositive (Or.inl rfl)
        · exact hpositive (Or.inr rfl)
        · exact hnegative rfl
      rw [isNaN_getD isNaN_readNumber?,
        or_iff_right (fun hnil => hempty (List.isEmpty_iff.mpr hnil)), or_iff_right hinfinity]

namespace Value

/-- **Which texts are numbers.** With the blank characters at its ends taken off, a text is a number
exactly where it is a numeral whose marked digits fit into 64 bits, or has a plus sign between a
mark and such digits. So being a number and being a numeral come to the same except for these two
kinds of texts, and for them they never do. -/
theorem isNaN_toNumber_text (s : String) :
    ((text s).toNumber.isNaN = false ↔
      (IsNumeral (Text.trim s.toList) ∧ ¬ IsTooLarge (Text.trim s.toList)) ∨
      IsPlusMarked (Text.trim s.toList)) ∧
    (((text s).toNumber.isNaN = false ↔ IsNumeral (Text.trim s.toList)) ↔
      ¬ IsTooLarge (Text.trim s.toList) ∧ ¬ IsPlusMarked (Text.trim s.toList)) := by
  have hnumber : (text s).toNumber.isNaN = false ↔
      (IsNumeral (Text.trim s.toList) ∧ ¬ IsTooLarge (Text.trim s.toList)) ∨
      IsPlusMarked (Text.trim s.toList) :=
    isNaN_numberOfChars
  refine ⟨hnumber, ?_⟩
  rw [hnumber]
  by_cases hplus : IsPlusMarked (Text.trim s.toList)
  · simp [hplus, hplus.not_isNumeral]
  by_cases hlarge : IsTooLarge (Text.trim s.toList)
  · simp [hplus, hlarge, hlarge.isNumeral]
  · simp [hplus, hlarge]

/-- The text `0x+10` is a number and no numeral, and a one with sixteen zeros behind `0x` is
a numeral and no number. -/
theorem isNaN_toNumber_text_marked :
    ((text "0x+10").toNumber.isNaN = false ∧ ¬ IsNumeral (Text.trim "0x+10".toList)) ∧
    ((text "0x10000000000000000").toNumber.isNaN = true ∧
      IsNumeral (Text.trim "0x10000000000000000".toList)) := by
  have hplus : IsPlusMarked (Text.trim "0x+10".toList) := by
    have hdigits : IsRadixText 16 "10".toList :=
      ⟨by decide, List.all_iff_forall_prop.mp (by decide)⟩
    exact ⟨16, _, ⟨'x', by decide, by decide⟩, hdigits, by decide +kernel⟩
  have hlarge : IsTooLarge (Text.trim "0x10000000000000000".toList) := by
    have hdigits : IsRadixText 16 "10000000000000000".toList :=
      ⟨by decide, List.all_iff_forall_prop.mp (by decide)⟩
    exact ⟨16, _, ⟨'x', by decide, by decide⟩, hdigits, by decide +kernel⟩
  refine ⟨⟨(isNaN_toNumber_text "0x+10").1.mpr (Or.inr hplus), hplus.not_isNumeral⟩, ?_,
    hlarge.isNumeral⟩
  rw [← Bool.not_eq_false, (isNaN_toNumber_text "0x10000000000000000").1, not_or]
  exact ⟨fun h => h.2 hlarge, fun h => h.not_isNumeral hlarge.isNumeral⟩

end Value

end FormulaSheet
