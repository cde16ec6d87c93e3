import FormulaSheet.Json.Printer
import FormulaSheet.Proofs.Json.Outcome

/-!
# Numbers are read in front of any end

The text of a number is put together from its digits before and behind the point and from its
exponent, and what is read from it is made from these parts alone, whatever ends it
(`Json.Numeral.Formed.gives_number`). An integer that fits into 64 bits is read back from its digits
(`Json.gives_number_intText`), and what is read from the text of another number is read from it
everywhere (`Json.gives_number_floatText`).
-/

namespace FormulaSheet.Json

open Read

variable {rest : List Char}

namespace Read

theorem Ends.not_digit (h : Ends rest) : ∀ c ∈ rest.head?, c.isDigit = false := by
  intro c hc
  rcases h c hc with rfl | rfl | rfl | rfl <;> rfl

theorem gives_digits {ds : List Char} (hds : ∀ c ∈ ds, c.isDigit = true)
    (hrest : ∀ c ∈ rest.head?, c.isDigit = false) :
    Gives (passWhile Char.isDigit) (ds ++ rest) (some (ds, rest)) := by
  have hgives := gives_passWhile Char.isDigit (ds ++ rest)
  rw [Text.takeWhile_append hds hrest, Text.dropWhile_append hds hrest] at hgives
  exact hgives

end Read

/-! ### The parts of a number -/

/-- The digits of a part of a number, of which there is at least one. -/
structure Digits (ds : List Char) : Prop where
  ne_nil : ds ≠ []
  isDigit : ∀ c ∈ ds, c.isDigit = true

theorem Digits.exists_cons {ds : List Char} (h : Digits ds) :
    ∃ c cs, ds = c :: cs ∧ c.isDigit = true := by
  obtain ⟨c, cs, rfl⟩ := List.exists_cons_of_ne_nil h.ne_nil
  exact ⟨c, cs, rfl, h.isDigit c List.mem_cons_self⟩

/-- A number as it is written: its sign, its digits before and behind the point, and its
exponent with a sign of its own. -/
structure Numeral where
  negative : Bool
  whole : List Char
  fraction? : Option (List Char)
  exponent? : Option (Bool × List Char)

/-- What is read from the digits before the point; a zero in front of others is refused. -/
def wholeValue? : List Char → Option (List Char)
  | '0' :: _ :: _ => none
  | ds => some ds

theorem gives_wholePart {ds : List Char} (hds : Digits ds)
    (hrest : ∀ c ∈ rest.head?, c.isDigit = false) :
    Gives wholePart (ds ++ rest) ((wholeValue? ds).map (·, rest)) := by
  obtain ⟨c, cs, rfl, hc⟩ := hds.exists_cons
  apply (gives_next _).bind
  by_cases hzero : c = '0'
  · subst hzero
    apply (gives_pass _ _).bind
    apply (gives_next _).bind
    cases cs with
    | nil =>
      apply Gives.ite_neg
      · cases rest with
        | nil => decide
        | cons d rest => simpa using hrest d rfl
      · exact gives_pure ['0'] rest
    | cons d cs =>
      apply Gives.ite_pos
      · exact hds.isDigit d (List.mem_cons_of_mem _ List.mem_cons_self)
      · exact gives_failNext _ _
  · have hvalue : wholeValue? (c :: cs) = some (c :: cs) := by
      unfold wholeValue?
      split
      · rename_i heq
        exact absurd (List.cons.inj heq).1 hzero
      · rfl
    rw [hvalue, List.cons_append, List.head?_cons]
    split
    · rename_i heq
      cases heq
    · rename_i heq
      exact absurd (Option.some.inj heq) hzero
    · rename_i heq
      rw [← Option.some.inj heq]
      exact Gives.ite_pos hc (gives_digits hds.isDigit hrest)

def fractionChars : Option (List Char) → List Char
  | none => []
  | some ds => '.' :: ds

theorem gives_fractionPart {fraction? : Option (List Char)}
    (hfraction : ∀ ds ∈ fraction?, Digits ds) (hdigit : ∀ c ∈ rest.head?, c.isDigit = false)
    (hpoint : '.' ∉ rest.head?) :
    Gives fractionPart (fractionChars fraction? ++ rest) (some (fraction?, rest)) := by
  apply (gives_next _).bind
  cases fraction? with
  | none =>
    split
    · rename_i heq
      exact absurd heq hpoint
    · exact gives_pure none rest
  | some ds =>
    have hds := hfraction ds rfl
    apply (gives_pass _ _).bind
    apply (gives_digits hds.isDigit hdigit).bind
    obtain ⟨c, cs, rfl, -⟩ := hds.exists_cons
    exact gives_pure (some (c :: cs)) rest

def exponentChars : Option (Bool × List Char) → List Char
  | none => []
  | some (negative, ds) => 'e' :: (if negative then '-' else '+') :: ds

/-- What is read from the digits of an exponent; a great one is refused where the number is not
zero. -/
def exponentOf? (zero negative : Bool) (ds : List Char) : Option Int :=
  if Decimal.natOfDigits ds ≤ 2147483647 || negative || zero then
    some (if negative then -(Decimal.natOfDigits ds : Int) else Decimal.natOfDigits ds)
  else none

def exponentValue? (zero : Bool) : Option (Bool × List Char) → Option (Option Int)
  | none => some none
  | some (negative, ds) => (exponentOf? zero negative ds).map some

theorem gives_exponentDigits {ds : List Char} (hds : ∀ c ∈ ds, c.isDigit = true)
    (hrest : ∀ c ∈ rest.head?, c.isDigit = false) (zero negative : Bool) :
    Gives (exponentDigits zero negative) (ds ++ rest)
      ((exponentOf? zero negative ds).map (·, rest)) := by
  intro n
  unfold outcome exponentDigits exponentOf?
  dsimp only
  rw [Text.takeWhile_append hds hrest, Text.dropWhile_append hds hrest]
  by_cases hfits : (decide (Decimal.natOfDigits ds ≤ 2147483647) || negative || zero) = true
  · rw [if_pos hfits, if_pos hfits]
    rfl
  · rw [if_neg hfits, if_neg hfits]
    rfl

theorem gives_exponentPart {exponent? : Option (Bool × List Char)}
    (hexponent : ∀ p ∈ exponent?, Digits p.2) (hrest : Ends rest) (zero : Bool) :
    Gives (exponentPart zero) (exponentChars exponent? ++ rest)
      ((exponentValue? zero exponent?).map (·, rest)) := by
  apply (gives_next _).bind
  cases exponent? with
  | none =>
    cases rest with
    | nil => exact gives_pure none []
    | cons c rest =>
      have hc : ¬ (c = 'e' ∨ c = 'E') := by
        rcases hrest c rfl with rfl | rfl | rfl | rfl <;> decide
      exact Gives.ite_neg hc (gives_pure none _)
  | some p =>
    obtain ⟨negative, ds⟩ := p
    have hds : Digits ds := hexponent (negative, ds) rfl
    have hdigits := (gives_exponentDigits hds.isDigit hrest.not_digit zero negative).map some
    rw [Option.map_map] at hdigits
    obtain ⟨c, cs, rfl, hc⟩ := hds.exists_cons
    apply Gives.ite_pos (Or.inl rfl)
    apply (gives_pass _ _).bind
    apply (gives_next _).bind
    rw [exponentValue?, Option.map_map]
    cases negative with
    | true =>
      apply (gives_pass _ _).bind
      apply (gives_pure true _).bind
      apply (gives_next _).bind
      exact Gives.ite_pos hc hdigits
    | false =>
      apply (gives_pass _ _).bind
      apply (gives_pure false _).bind
      apply (gives_next _).bind
      exact Gives.ite_pos hc hdigits

namespace Numeral

variable {t : Numeral}

def chars (t : Numeral) : List Char :=
  (if t.negative then ['-'] else []) ++
    (t.whole ++ (fractionChars t.fraction? ++ exponentChars t.exponent?))

/-- No part of the number is without digits. -/
structure Formed (t : Numeral) : Prop where
  whole : Digits t.whole
  fraction : ∀ ds ∈ t.fraction?, Digits ds
  exponent : ∀ p ∈ t.exponent?, Digits p.2

def digits (t : Numeral) : Nat := Decimal.natOfDigits (t.whole ++ t.fraction?.getD [])

/-- What is made of the parts: an integer where there is neither a point nor an exponent and it fits
into 64 bits, and else the number nearest to it. -/
def assemble? (t : Numeral) (exponent? : Option Int) : Option Json :=
  match t.fraction?, exponent?, wordInt? t.negative t.digits with
  | none, none, some n => some (.int n)
  | _, _, _ =>
    let literal : Decimal.Literal := ⟨t.whole, t.fraction?.getD [], exponent?.getD 0⟩
    literal.toWord.value?.map fun x => .float (if t.negative then -x else x)

/-- What is read from the text of the number. -/
def value? (t : Numeral) : Option Json :=
  (wholeValue? t.whole).bind fun _ => (exponentValue? (t.digits == 0) t.exponent?).bind t.assemble?

theorem wholeValue_eq {ds ds' : List Char} (h : wholeValue? ds = some ds') : ds' = ds := by
  unfold wholeValue? at h
  split at h
  · cases h
  · exact (Option.some.inj h).symm

theorem head?_exponentChars (hrest : Ends rest) (exponent? : Option (Bool × List Char)) :
    ∀ c ∈ (exponentChars exponent? ++ rest).head?, c.isDigit = false ∧ c ≠ '.' := by
  intro c hc
  cases exponent? with
  | none => rcases hrest c hc with rfl | rfl | rfl | rfl <;> decide
  | some p =>
    rw [← Option.some.inj hc]
    decide

theorem gives_literal (negative : Bool) (l : Decimal.Literal) (rest : List Char) :
    Gives
      (match l.toWord.value? with
      | some x => pure (float (if negative then -x else x))
      | none => fail .numberOutOfRange) rest
      ((l.toWord.value?.map fun x => float (if negative then -x else x)).map (·, rest)) := by
  cases l.toWord.value? with
  | none => exact fun _ => rfl
  | some x => exact gives_pure _ rest

theorem Formed.gives_unsignedNumber (h : t.Formed) (hrest : Ends rest) :
    Gives (unsignedNumber t.negative)
      (t.whole ++ (fractionChars t.fraction? ++ (exponentChars t.exponent? ++ rest)))
      (t.value?.map (·, rest)) := by
  have hexponent := head?_exponentChars hrest t.exponent?
  have hfraction : ∀ c ∈ (fractionChars t.fraction? ++ (exponentChars t.exponent? ++ rest)).head?,
      c.isDigit = false := by
    intro c hc
    cases hf : t.fraction? with
    | none =>
      rw [hf] at hc
      exact (hexponent c hc).1
    | some ds =>
      rw [hf] at hc
      rw [← Option.some.inj hc]
      rfl
  rw [value?, Option.map_bind]
  apply (gives_wholePart h.whole hfraction).bind_option
  intro whole hwhole
  rw [wholeValue_eq hwhole, Function.comp_apply, Option.map_bind]
  apply (gives_fractionPart h.fraction (fun c hc => (hexponent c hc).1) fun hc =>
    (hexponent '.' hc).2 rfl).bind
  apply (gives_exponentPart h.exponent hrest _).bind_option
  intro exponent _
  rw [Function.comp_apply]
  unfold assemble? digits
  cases t.fraction? with
  | some ds => exact gives_literal t.negative _ rest
  | none =>
    cases exponent with
    | some e => exact gives_literal t.negative _ rest
    | none =>
      cases wordInt? t.negative (Decimal.natOfDigits (t.whole ++ none.getD [])) with
      | none => exact gives_literal t.negative _ rest
      | some n => exact gives_pure _ rest

/-- **What is read from the text of a number** is made from its parts, whatever ends the text. -/
theorem Formed.gives_number (h : t.Formed) (hrest : Ends rest) :
    Gives number (t.chars ++ rest) (t.value?.map (·, rest)) := by
  have hunsigned := h.gives_unsignedNumber hrest
  have happend : t.chars ++ rest = (if t.negative then ['-'] else []) ++
      (t.whole ++ (fractionChars t.fraction? ++ (exponentChars t.exponent? ++ rest))) := by
    simp only [chars, List.append_assoc]
  rw [happend]
  apply (gives_next _).bind
  cases hnegative : t.negative with
  | true =>
    rw [hnegative] at hunsigned
    exact (gives_pass _ _).bind hunsigned
  | false =>
    rw [hnegative] at hunsigned
    obtain ⟨c, cs, hwhole, hc⟩ := h.whole.exists_cons
    rw [hwhole] at hunsigned ⊢
    split
    · rename_i heq
      rw [Option.some.inj heq] at hc
      cases hc
    · exact hunsigned

/-- A number begins with its sign or a digit. -/
theorem Formed.exists_chars_cons (h : t.Formed) :
    ∃ c cs, t.chars = c :: cs ∧ (c = '-' ∨ c.isDigit = true) := by
  obtain ⟨c, cs, hwhole, hc⟩ := h.whole.exists_cons
  unfold chars
  cases t.negative with
  | true => exact ⟨'-', _, rfl, Or.inl rfl⟩
  | false =>
    rw [hwhole]
    exact ⟨c, _, rfl, Or.inr hc⟩

end Numeral

/-! ### Integers -/

theorem head?_toDigits {n : Nat} (hn : 0 < n) : ∀ c ∈ (Nat.toDigits 10 n).head?, c ≠ '0' := by
  induction n using Nat.strongRecOn with
  | ind n ih =>
    intro c hc
    by_cases hlt : n < 10
    · rw [Nat.toDigits_of_lt_base hlt] at hc
      rw [← Option.some.inj hc]
      intro h
      exact Nat.ne_of_gt hn (Nat.digitChar_eq_zero.mp h)
    · rw [Nat.toDigits_of_base_le (by decide) (Nat.le_of_not_lt hlt)] at hc
      apply ih (n / 10) (by omega) (by omega) c
      cases hdigits : Nat.toDigits 10 (n / 10) with
      | nil => exact absurd hdigits Nat.toDigits_ne_nil
      | cons d ds =>
        rw [hdigits] at hc
        exact hc

theorem natOfDigits_toDigits (n : Nat) : Decimal.natOfDigits (Nat.toDigits 10 n) = n :=
  Nat.ofDigitChars_ten_toDigits

theorem digits_toDigits (n : Nat) : Digits (Nat.toDigits 10 n) :=
  ⟨Nat.toDigits_ne_nil, fun _ hc => Nat.isDigit_of_mem_toDigits (by decide) (by decide) hc⟩

theorem wholeValue_toDigits (n : Nat) :
    wholeValue? (Nat.toDigits 10 n) = some (Nat.toDigits 10 n) := by
  rcases Nat.eq_zero_or_pos n with rfl | hn
  · rfl
  · unfold wholeValue?
    split
    · rename_i heq
      exact absurd rfl (head?_toDigits hn '0' (by rw [heq]; rfl))
    · rfl

/-- An integer as it is written. -/
def Numeral.ofInt (i : Int) : Numeral := ⟨decide (i < 0), Nat.toDigits 10 i.natAbs, none, none⟩

theorem Numeral.formed_ofInt (i : Int) : (Numeral.ofInt i).Formed :=
  ⟨digits_toDigits _, by nofun, by nofun⟩

theorem Numeral.value_ofInt {i : Int} (hi : i.natAbs < Nat.pow 2 63) :
    (Numeral.ofInt i).value? = some (.int i) := by
  have hword : wordInt? (decide (i < 0)) i.natAbs = some i := by
    have hsize : Nat.pow 2 63 < UInt64.size := by decide
    unfold wordInt?
    by_cases hneg : i < 0
    · rw [if_pos (decide_eq_true hneg), if_pos (by omega)]
      congr 1
      omega
    · rw [if_neg (by simpa using hneg), if_pos (by omega)]
      congr 1
      omega
  have hdigits : (Numeral.ofInt i).digits = i.natAbs := by
    simp [Numeral.digits, Numeral.ofInt, natOfDigits_toDigits]
  have hassemble : (Numeral.ofInt i).assemble? none = some (.int i) := by
    unfold Numeral.assemble?
    rw [hdigits]
    simp only [Numeral.ofInt, hword]
  unfold Numeral.value?
  rw [show wholeValue? (Numeral.ofInt i).whole = _ from wholeValue_toDigits i.natAbs]
  exact hassemble

theorem toList_intText (i : Int) : (Decimal.intText i).toList = (Numeral.ofInt i).chars := by
  unfold Decimal.intText Decimal.digitsText Numeral.chars Numeral.ofInt
  split <;> rename_i hneg <;> simp [hneg, fractionChars, exponentChars]

/-- **An integer is read back from its text** in front of any end. -/
theorem gives_number_intText {i : Int} (hi : i.natAbs < Nat.pow 2 63) (hrest : Ends rest) :
    Gives number ((Decimal.intText i).toList ++ rest) (some (.int i, rest)) := by
  have hgives := (Numeral.formed_ofInt i).gives_number hrest
  rw [Numeral.value_ofInt hi, ← toList_intText] at hgives
  exact hgives

/-! ### Numbers with a fraction -/

/-- What is read from the text of a number. -/
def rereadFloat (x : Float) : Option Json :=
  match outcome number (Cursor.start (floatText x)) with
  | some (j, []) => some j
  | _ => none

theorem Digits.append_zeros {ds : List Char} (h : Digits ds) (n : Nat) :
    Digits (ds ++ List.replicate n '0') := by
  refine ⟨List.append_ne_nil_of_left_ne_nil h.ne_nil _, ?_⟩
  intro c hc
  rcases List.mem_append.mp hc with hc | hc
  · exact h.isDigit c hc
  · rw [List.eq_of_mem_replicate hc]
    rfl

theorem Digits.zeros_append {ds : List Char} (h : Digits ds) (n : Nat) :
    Digits (List.replicate n '0' ++ ds) := by
  refine ⟨List.append_ne_nil_of_right_ne_nil _ h.ne_nil, ?_⟩
  intro c hc
  rcases List.mem_append.mp hc with hc | hc
  · rw [List.eq_of_mem_replicate hc]
    rfl
  · exact h.isDigit c hc

/-- A number without its sign. -/
def Unsigned (text : List Char) : Prop :=
  ∃ t : Numeral, t.Formed ∧ t.negative = false ∧ text = t.chars

theorem unsigned_point {whole fraction : List Char} (hwhole : Digits whole)
    (hfraction : Digits fraction) : Unsigned (whole ++ '.' :: fraction) := by
  refine ⟨⟨false, whole, some fraction, none⟩, ⟨hwhole, ?_, by nofun⟩, rfl, ?_⟩
  · intro ds hds
    rw [← Option.some.inj hds]
    exact hfraction
  · simp [Numeral.chars, fractionChars, exponentChars]

theorem unsigned_positional (d : Decimal.Scaled) :
    Unsigned (Decimal.jsonLayout.positional d).toList := by
  have hds := digits_toDigits d.digits
  unfold Decimal.Layout.positional
  dsimp only
  split
  · rw [String.toList_append, String.toList_ofList]
    exact unsigned_point (hds.append_zeros _) (digits_toDigits 0)
  · split
    · rename_i hplaces
      rw [String.toList_ofList]
      apply unsigned_point
      · refine ⟨?_, fun c hc => hds.isDigit c (List.mem_of_mem_take hc)⟩
        rw [Ne, List.take_eq_nil_iff, not_or]
        exact ⟨by omega, hds.ne_nil⟩
      · refine ⟨?_, fun c hc => hds.isDigit c (List.mem_of_mem_drop hc)⟩
        rw [Ne, List.drop_eq_nil_iff]
        omega
    · rw [String.toList_ofList]
      exact unsigned_point (digits_toDigits 0) (hds.zeros_append _)

theorem unsigned_scientific (d : Decimal.Scaled) :
    Unsigned (Decimal.Layout.scientific d).toList := by
  have hds := digits_toDigits d.digits
  unfold Decimal.Layout.scientific
  dsimp only
  generalize Nat.toDigits 10 d.digits = ds at hds
  obtain ⟨c, cs, rfl, hc⟩ := hds.exists_cons
  generalize d.exponent + (((c :: cs).length - 1 : Nat) : Int) = power
  have hfirst : Digits [c] := by
    refine ⟨by simp, ?_⟩
    intro b hb
    rw [List.mem_singleton.mp hb]
    exact hc
  have hpower : ∀ p ∈ some (decide (power < 0), Nat.toDigits 10 power.natAbs), Digits p.2 := by
    intro p hp
    rw [← Option.some.inj hp]
    exact digits_toDigits _
  cases cs with
  | nil =>
    refine ⟨⟨false, [c], none, some (decide (power < 0), Nat.toDigits 10 power.natAbs)⟩,
      ⟨hfirst, by nofun, hpower⟩, rfl, ?_⟩
    by_cases hneg : power < 0 <;>
      simp [Numeral.chars, fractionChars, exponentChars, Decimal.digitsText, hneg]
  | cons b bs =>
    refine ⟨⟨false, [c], some (b :: bs), some (decide (power < 0), Nat.toDigits 10 power.natAbs)⟩,
      ⟨hfirst, ?_, hpower⟩, rfl, ?_⟩
    · intro fraction hfraction
      rw [← Option.some.inj hfraction]
      exact ⟨by simp, fun b hb => hds.isDigit b (List.mem_cons_of_mem c hb)⟩
    · by_cases hneg : power < 0 <;>
        simp [Numeral.chars, fractionChars, exponentChars, Decimal.digitsText, hneg]

theorem exists_numeral_signed {body : String} (h : Unsigned body.toList) (negative : Bool) :
    ∃ t : Numeral, t.Formed ∧ (if negative then "-" ++ body else body).toList = t.chars := by
  obtain ⟨t, ht, hnegative, hbody⟩ := h
  refine ⟨{ t with negative := negative }, ⟨ht.whole, ht.fraction, ht.exponent⟩, ?_⟩
  rw [Numeral.chars, hnegative] at hbody
  cases negative with
  | true => simpa [Numeral.chars] using hbody
  | false => exact hbody

/-- The text of a finite number is put together from the parts of one. -/
theorem exists_numeral {x : Float} (hx : x.isFinite = true) :
    ∃ t : Numeral, t.Formed ∧ (floatText x).toList = t.chars := by
  unfold floatText
  rw [hx, if_neg (by decide)]
  split
  · have hzero : Unsigned "0.0".toList := unsigned_point (digits_toDigits 0) (digits_toDigits 0)
    have hsigned := exists_numeral_signed hzero (Decimal.isNegative x)
    split <;> rename_i hnegative <;> simpa [hnegative] using hsigned
  · unfold Decimal.Layout.write
    dsimp only
    apply exists_numeral_signed
    split
    · exact unsigned_positional _
    · exact unsigned_scientific _

/-- **What is read from the text of a finite number is read from it in front of any end.** -/
theorem gives_number_floatText {x : Float} (hx : x.isFinite = true) (hrest : Ends rest) :
    Gives number ((floatText x).toList ++ rest) ((rereadFloat x).map (·, rest)) := by
  obtain ⟨t, ht, htext⟩ := exists_numeral hx
  have halone := ht.gives_number Ends.nil 0
  rw [List.append_nil, ← htext] at halone
  have hreread : rereadFloat x = t.value? := by
    unfold rereadFloat
    rw [Cursor.start, halone]
    cases t.value? <;> rfl
  rw [hreread, htext]
  exact ht.gives_number hrest

end FormulaSheet.Json
