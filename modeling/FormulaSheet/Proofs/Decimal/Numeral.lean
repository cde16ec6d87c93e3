import FormulaSheet.Proofs.Decimal.Literal

/-!
# Texts that write a number

A decimal is digits with an optional fraction, or a fraction alone, with an optional exponent; a
sign may stand before it. The whole text is read as a number exactly where it is of this form
(`Decimal.isSome_readNumber?_iff`). In a radix up to sixteen exactly the texts that hold digits of
the radix, and at least one, are read (`Decimal.readRadix?_eq_some_iff`).
-/

namespace FormulaSheet.Decimal

/-! ### Grammar -/

/-- A plus sign, a minus sign or nothing. -/
def IsSign (cs : List Char) : Prop := cs = [] ∨ cs = ['+'] ∨ cs = ['-']

/-- Decimal digits, of which there may be none. -/
def IsDigits (cs : List Char) : Prop := ∀ c ∈ cs, c.isDigit = true

/-- Nothing, or an `e` of either case with a sign and at least one digit behind it. -/
inductive IsExponent : List Char → Prop where
  | none : IsExponent []
  | mark {c : Char} {sign ds : List Char} (hmark : c = 'e' ∨ c = 'E') (hsign : IsSign sign)
      (hdigits : IsDigits ds) (hne : ds ≠ []) : IsExponent (c :: (sign ++ ds))

/-- A decimal without a sign: digits, or digits around a point, at least one of them, and an
exponent. -/
inductive IsDecimal : List Char → Prop where
  | whole {ds x : List Char} (hdigits : IsDigits ds) (hne : ds ≠ []) (hexponent : IsExponent x) :
      IsDecimal (ds ++ x)
  | point {ds fs x : List Char} (hdigits : IsDigits ds) (hfraction : IsDigits fs)
      (hne : ds ++ fs ≠ []) (hexponent : IsExponent x) : IsDecimal (ds ++ '.' :: (fs ++ x))

/-- The characters that a decimal is made of. -/
def decimalMarks : List Char := ['.', 'e', 'E', '+', '-']

variable {cs ds fs x sign : List Char}

/-! ### Signs and exponents -/

theorem exists_sign (cs : List Char) : ∃ sign, IsSign sign ∧ cs = sign ++ (readSign cs).2 := by
  unfold readSign
  split
  · exact ⟨['-'], Or.inr (Or.inr rfl), rfl⟩
  · exact ⟨['+'], Or.inr (Or.inl rfl), rfl⟩
  · exact ⟨[], Or.inl rfl, rfl⟩

/-- A sign is taken off before anything that does not begin with one itself. -/
theorem IsSign.readSign (h : IsSign sign) (hcs : ∀ c ∈ cs.head?, c ≠ '+' ∧ c ≠ '-') :
    (readSign (sign ++ cs)).2 = cs := by
  rcases h with rfl | rfl | rfl
  · rw [List.nil_append]
    unfold Decimal.readSign
    split
    · exact absurd rfl (hcs '-' rfl).2
    · exact absurd rfl (hcs '+' rfl).1
    · rfl
  · rfl
  · rfl

theorem IsDigits.ne_sign (h : IsDigits ds) : ∀ c ∈ ds.head?, c ≠ '+' ∧ c ≠ '-' := by
  intro c hc
  have hdigit := h c (List.mem_of_mem_head? hc)
  constructor <;> rintro rfl <;> exact absurd hdigit (by decide)

theorem IsDigits.takeWhile (h : IsDigits ds) : ds.takeWhile Char.isDigit = ds :=
  List.takeWhile_eq_self_iff.mpr h

theorem IsDigits.dropWhile (h : IsDigits ds) : ds.dropWhile Char.isDigit = [] :=
  List.dropWhile_eq_nil_iff.mpr h

theorem isDigits_takeWhile (cs : List Char) : IsDigits (cs.takeWhile Char.isDigit) :=
  fun _ hc => List.mem_takeWhile_imp hc

theorem IsExponent.head (h : IsExponent x) : ∀ c ∈ x.head?, c = 'e' ∨ c = 'E' := by
  intro c hc
  cases h with
  | none => cases hc
  | mark hmark => exact Option.some.inj hc ▸ hmark

theorem IsExponent.head_not_digit (h : IsExponent x) :
    ∀ c ∈ x.head?, c.isDigit = false ∧ c ≠ '.' := by
  intro c hc
  rcases h.head c hc with rfl | rfl <;> decide

theorem IsExponent.eq_nil_or_readExponent? (h : IsExponent x) :
    x = [] ∨ ∃ n, readExponent? x = some (n, []) := by
  cases h with
  | none => exact Or.inl rfl
  | mark hmark hsign hdigits hne =>
    right
    rw [readExponent?_cons, if_pos hmark, hsign.readSign hdigits.ne_sign, hdigits.takeWhile,
      hdigits.dropWhile]
    split
    · exact absurd rfl hne
    · exact ⟨_, rfl⟩

theorem isExponent_of_readExponent? {n : Int} (h : readExponent? x = some (n, [])) :
    IsExponent x := by
  cases x with
  | nil => exact .none
  | cons c cs =>
    rw [readExponent?_cons] at h
    split at h
    · rename_i hmark
      obtain ⟨sign, hsign, hcs⟩ := exists_sign cs
      have hsplit := List.takeWhile_append_dropWhile (p := Char.isDigit) (l := (readSign cs).2)
      split at h
      · cases h
      · rename_i hne
        have hrest : (readSign cs).2.dropWhile Char.isDigit = [] :=
          (Prod.mk.inj (Option.some.inj h)).2
        rw [hrest, List.append_nil] at hsplit
        rw [hcs, ← hsplit]
        exact .mark hmark hsign (isDigits_takeWhile _) hne
    · cases h

/-- What is left of a literal is nothing exactly where an exponent was left. -/
theorem finishLiteral_snd_eq_nil_iff (whole fraction : List Char) :
    (finishLiteral whole fraction x).2 = [] ↔ IsExponent x := by
  constructor
  · unfold finishLiteral
    split
    · rintro rfl
      exact isExponent_of_readExponent? ‹_›
    · rintro rfl
      exact .none
  · intro h
    rcases h.eq_nil_or_readExponent? with rfl | ⟨n, hn⟩
    · rfl
    · rw [finishLiteral, hn]

/-! ### Decimals -/

/-- **A text is a decimal literal to its end exactly where it is of the form of a decimal.** -/
theorem readLiteral?_iff_isDecimal : (∃ l, readLiteral? cs = some (l, [])) ↔ IsDecimal cs := by
  have hfinish : ∀ {w f y : List Char}, (∃ l, some (finishLiteral w f y) = some (l, [])) ↔
      IsExponent y := by
    intro w f y
    rw [← finishLiteral_snd_eq_nil_iff w f]
    constructor
    · rintro ⟨l, hl⟩
      rw [Option.some.inj hl]
    · intro hnil
      exact ⟨_, congrArg some (Prod.ext rfl hnil)⟩
  constructor
  · rintro ⟨l, hl⟩
    have hwhole := isDigits_takeWhile cs
    have hsplit := List.takeWhile_append_dropWhile (p := Char.isDigit) (l := cs)
    by_cases hpoint : ∃ t, cs.dropWhile Char.isDigit = '.' :: t
    · obtain ⟨t, ht⟩ := hpoint
      have htail := List.takeWhile_append_dropWhile (p := Char.isDigit) (l := t)
      rw [ht] at hsplit
      rw [← hsplit, readLiteral?_point hwhole] at hl
      split at hl
      · cases hl
      · rename_i hempty
        rw [← hsplit, ← htail]
        exact .point hwhole (isDigits_takeWhile t) (by simpa using hempty) (hfinish.mp ⟨l, hl⟩)
    · rw [← hsplit, readLiteral?_whole hwhole (head?_dropWhile_of_no_point hpoint)] at hl
      split at hl
      · cases hl
      · rename_i hempty
        rw [← hsplit]
        exact .whole hwhole (by simpa using hempty) (hfinish.mp ⟨l, hl⟩)
  · rintro (⟨hdigits, hne, hexponent⟩ | ⟨hdigits, hfraction, hne, hexponent⟩)
    · rw [readLiteral?_whole hdigits hexponent.head_not_digit, if_neg (by simpa using hne)]
      exact hfinish.mpr hexponent
    · have hhead := fun c hc => (hexponent.head_not_digit c hc).1
      rw [readLiteral?_point hdigits, Text.takeWhile_append hfraction hhead,
        Text.dropWhile_append hfraction hhead, if_neg (by simpa using hne)]
      exact hfinish.mpr hexponent

theorem IsSign.mem (h : IsSign sign) {c : Char} (hc : c ∈ sign) : c ∈ decimalMarks := by
  rcases h with rfl | rfl | rfl
  · cases hc
  · rw [List.mem_singleton.mp hc]
    decide
  · rw [List.mem_singleton.mp hc]
    decide

theorem IsExponent.mem (h : IsExponent x) {c : Char} (hc : c ∈ x) :
    c.isDigit = true ∨ c ∈ decimalMarks := by
  cases h with
  | none => cases hc
  | mark hmark hsign hdigits =>
    rcases List.mem_cons.mp hc with rfl | hc
    · right
      rcases hmark with rfl | rfl <;> decide
    · rcases List.mem_append.mp hc with hc | hc
      · exact Or.inr (hsign.mem hc)
      · exact Or.inl (hdigits c hc)

/-- A decimal holds digits and its marks only. -/
theorem IsDecimal.mem (h : IsDecimal cs) {c : Char} (hc : c ∈ cs) :
    c.isDigit = true ∨ c ∈ decimalMarks := by
  cases h with
  | whole hdigits _ hexponent =>
    rcases List.mem_append.mp hc with hc | hc
    · exact Or.inl (hdigits c hc)
    · exact hexponent.mem hc
  | point hdigits hfraction _ hexponent =>
    rcases List.mem_append.mp hc with hc | hc
    · exact Or.inl (hdigits c hc)
    rcases List.mem_cons.mp hc with rfl | hc
    · exact Or.inr (by decide)
    rcases List.mem_append.mp hc with hc | hc
    · exact Or.inl (hfraction c hc)
    · exact hexponent.mem hc

theorem IsDecimal.head (h : IsDecimal cs) : ∀ c ∈ cs.head?, c ≠ '+' ∧ c ≠ '-' := by
  have hhead : ∀ {ds y : List Char}, IsDigits ds → (ds = [] → ∀ c ∈ y.head?, c = '.') →
      ∀ c ∈ (ds ++ y).head?, c ≠ '+' ∧ c ≠ '-' := by
    intro ds y hds hy c hc
    cases ds with
    | nil =>
      rw [hy rfl c hc]
      decide
    | cons d ds => exact hds.ne_sign c hc
  cases h with
  | whole hdigits hne => exact hhead hdigits fun hnil => absurd hnil hne
  | point hdigits => exact hhead hdigits fun _ c hc => (Option.some.inj hc).symm

/-- **A whole text is read as a number exactly where it is a decimal with an optional sign.** -/
theorem isSome_readNumber?_iff :
    (readNumber? cs).isSome = true ↔ ∃ sign body, IsSign sign ∧ IsDecimal body ∧
    cs = sign ++ body := by
  have hread : (readNumber? cs).isSome = true ↔
      ∃ l, readLiteral? (readSign cs).2 = some (l, []) := by
    unfold readNumber?
    dsimp only
    split
    · rename_i l hl
      exact iff_of_true rfl ⟨l, hl⟩
    · rename_i hnone
      refine iff_of_false Bool.false_ne_true ?_
      rintro ⟨l, hl⟩
      exact hnone l hl
  rw [hread, readLiteral?_iff_isDecimal]
  constructor
  · intro h
    obtain ⟨sign, hsign, hcs⟩ := exists_sign cs
    exact ⟨sign, _, hsign, h, hcs⟩
  · rintro ⟨sign, body, hsign, hbody, rfl⟩
    rw [hsign.readSign hbody.head]
    exact hbody

/-! ### Digits of a radix -/

/-- The digits up to fifteen in their order. -/
def digitChars : List Char := "0123456789abcdef".toList

/-- The digits of a radix up to sixteen, letters in either case. -/
def radixDigits (radix : Nat) : List Char :=
  digitChars.take radix ++ (digitChars.take radix).map Char.toUpper

/-- The number that a list of digits writes in a radix. -/
def radixValue (radix : Nat) (ds : List Char) : Nat :=
  ds.foldl (fun n c => radix * n + digitChars.idxOf c.toLower) 0

/-- Digits of a radix, at least one. -/
structure IsRadixText (radix : Nat) (ds : List Char) : Prop where
  ne_nil : ds ≠ []
  digits : ∀ c ∈ ds, c ∈ radixDigits radix

theorem radixDigit?_of_not_ascii {c : Char} (hc : 128 ≤ c.toNat) (radix : Nat) :
    radixDigit? radix c = none := by
  have hlast : ∀ n : UInt32, n.toNat < 128 → ¬ c.val ≤ n := by
    intro n hn hle
    have hcode : c.toNat ≤ n.toNat := UInt32.le_iff_toNat_le.mp hle
    omega
  have hdigit : c.isDigit = false :=
    Bool.eq_false_iff.mpr fun h =>
      hlast '9'.val (by decide) (of_decide_eq_true (Bool.and_eq_true_iff.mp h).2)
  have hlower : c.isLower = false :=
    Bool.eq_false_iff.mpr fun h =>
      hlast 'z'.val (by decide) (of_decide_eq_true (Bool.and_eq_true_iff.mp h).2)
  have hupper : c.isUpper = false :=
    Bool.eq_false_iff.mpr fun h => hlast 'Z'.val (by decide) (of_decide_eq_true h).2
  simp [radixDigit?, hdigit, hlower, hupper]

variable {radix : Nat}

theorem radixDigit?_eq (hradix : radix ∈ [2, 8, 16]) (c : Char) :
    radixDigit? radix c =
      if c ∈ radixDigits radix then some (digitChars.idxOf c.toLower) else none := by
  have hascii : ∀ radix ∈ [2, 8, 16], ∀ n < 128, radixDigit? radix (Char.ofNat n) =
      if Char.ofNat n ∈ radixDigits radix then some (digitChars.idxOf (Char.ofNat n).toLower)
        else none := by
    decide +kernel
  have hdigits : ∀ radix ∈ [2, 8, 16], (radixDigits radix).all (·.toNat < 128) = true := by
    decide +kernel
  by_cases hc : c.toNat < 128
  · have hread := hascii radix hradix c.toNat hc
    rwa [Char.ofNat_toNat] at hread
  · rw [radixDigit?_of_not_ascii (by omega), if_neg fun hmem => hc ?_]
    exact of_decide_eq_true (List.all_eq_true.mp (hdigits radix hradix) c hmem)

theorem foldlM_radixDigit?_eq_some_iff (hradix : radix ∈ [2, 8, 16]) {n m : Nat} (ds : List Char) :
    ds.foldlM (fun n c => (radixDigit? radix c).map (radix * n + ·)) n = some m ↔
      (∀ c ∈ ds, c ∈ radixDigits radix) ∧
      ds.foldl (fun n c => radix * n + digitChars.idxOf c.toLower) n = m := by
  induction ds generalizing n with
  | nil => simp
  | cons c ds ih =>
    rw [List.foldlM_cons, radixDigit?_eq hradix, List.forall_mem_cons, List.foldl_cons]
    by_cases hc : c ∈ radixDigits radix
    · simp [hc, ih]
    · simp [hc]

/-- **A text is read in a radix exactly where it holds digits of the radix, at least
one, and nothing else.** -/
theorem readRadix?_eq_some_iff (hradix : radix ∈ [2, 8, 16]) {n : Nat} :
    readRadix? radix ds = some n ↔ IsRadixText radix ds ∧ radixValue radix ds = n := by
  cases ds with
  | nil => exact iff_of_false (by simp [readRadix?]) fun h => h.1.ne_nil rfl
  | cons c ds =>
    refine (foldlM_radixDigit?_eq_some_iff hradix (c :: ds)).trans (and_congr_left' ?_)
    exact ⟨fun hdigits => ⟨List.cons_ne_nil c ds, hdigits⟩, IsRadixText.digits⟩

end FormulaSheet.Decimal
