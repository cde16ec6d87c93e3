import FormulaSheet.Proofs.Decimal.Comparison
import FormulaSheet.Proofs.Decimal.NotANumber
import FormulaSheet.Proofs.Decimal.Whole

/-!
# The order of integers

Integers of 53 bits or fewer are ordered as binary64 numbers as they are as integers
(`Decimal.ofNat_lt_ofNat_iff`), and their size and their whole part are what they are for integers.
-/

namespace FormulaSheet.Decimal

open Float.Model Float.Model.UnpackedFloat

variable {m n : Nat} {i : Int}

theorem lead_lt_lead_iff (hlog : m.log2 = n.log2) : lead m < lead n ↔ m < n := by
  rw [lead, lead, hlog]
  exact Nat.mul_lt_mul_right (Nat.two_pow_pos _)

theorem unpack_ofNat (hpos : 0 < n) (hn : n < 2 ^ 53) :
    (Float.ofNat n).toModel.unpack = .finite .positive (lead n) (n.log2 - 52) (lead_pos hpos) := by
  have hle := log2_le hn
  rw [ofNat_eq hpos hn]
  exact unpack_pack (log2_lead hpos hn) (lead_pos hpos) (by omega) (by omega) .positive

theorem unpack_ofNat_zero : (Float.ofNat 0).toModel.unpack = .zero .positive := by
  have hmodel : Float.ofNat 0 = .ofModel (pack (.zero .positive)) := rfl
  rw [hmodel]
  rfl

/-- The first bits of two numbers decide, and behind equal first bits the mantissas do. -/
theorem compare_lead_eq_lt_iff (hm : 0 < m) (hn : 0 < n) :
    (compare ((m.log2 : Int) - 52) (n.log2 - 52)).then (compare (lead m) (lead n)) = .lt ↔
      m < n := by
  rw [Ordering.then_eq_lt, compare_lt_iff_lt, compare_eq_iff_eq, compare_lt_iff_lt]
  have hmself := Nat.log2_self_le hm.ne'
  have hnlt : n < 2 ^ (n.log2 + 1) := Nat.lt_log2_self
  have hmlt : m < 2 ^ (m.log2 + 1) := Nat.lt_log2_self
  have hnself := Nat.log2_self_le hn.ne'
  rcases Nat.lt_trichotomy m.log2 n.log2 with hlog | hlog | hlog
  · have hpow : 2 ^ (m.log2 + 1) ≤ 2 ^ n.log2 := Nat.pow_le_pow_right (by decide) hlog
    exact iff_of_true (Or.inl (by omega)) (by omega)
  · rw [lead_lt_lead_iff hlog]
    omega
  · have hpow : 2 ^ (n.log2 + 1) ≤ 2 ^ m.log2 := Nat.pow_le_pow_right (by decide) hlog
    omega

/-- **Natural numbers are in order.** -/
theorem ofNat_lt_ofNat_iff (hm : m < 2 ^ 53) (hn : n < 2 ^ 53) :
    Float.ofNat m < Float.ofNat n ↔ m < n := by
  have hzero : (Float.ofNat 0).toModel.unpack = .zero .positive := unpack_ofNat_zero
  rw [lt_iff]
  rcases Nat.eq_zero_or_pos m with rfl | hmpos <;> rcases Nat.eq_zero_or_pos n with rfl | hnpos
  · rw [hzero]
    decide
  · rw [hzero, unpack_ofNat hnpos hn]
    exact iff_of_true rfl hnpos
  · rw [hzero, unpack_ofNat hmpos hm]
    exact iff_of_false (fun h => nomatch Option.some.inj h) (Nat.not_lt_zero m)
  · rw [unpack_ofNat hmpos hm, unpack_ofNat hnpos hn, ← compare_lead_eq_lt_iff hmpos hnpos]
    exact Option.some_inj

/-- **The size of an integer** is that of the integer. -/
theorem abs_ofInt (hi : i.natAbs < 2 ^ 53) : (ofInt i).abs = Float.ofNat i.natAbs := by
  by_cases hne : i = 0
  · subst hne
    rfl
  · have hpos := Int.natAbs_pos.mpr hne
    have hle := log2_le hi
    have hunpack := unpack_pack (log2_lead hpos hi) (lead_pos hpos) (e := i.natAbs.log2 - 52)
      (by omega) (by omega)
      (signOf i)
    rw [ofInt_eq hne hi, ofNat_eq hpos hi]
    exact congrArg (fun u => Float.ofModel (pack (UnpackedFloat.abs u))) hunpack

theorem isNaN_ofInt (i : Int) : (ofInt i).isNaN = false := by
  cases i with
  | ofNat n => exact isNaN_ofNat n
  | negSucc n => exact isNaN_neg (isNaN_ofNat (n + 1))

/-- **An integer has no fraction to be dropped.** -/
theorem truncate_ofInt (hi : i.natAbs < 2 ^ 53) : truncate (ofInt i) = ofInt i := by
  by_cases hne : i = 0
  · subst hne
    rw [truncate, magnitude_ofInt_zero, floor_zero]
    rfl
  · rw [truncate, isNegative_ofInt hne hi, magnitude_ofInt hne hi, (floor_lead hi).2, withSign]
    cases i with
    | ofNat n => rfl
    | negSucc n => exact if_pos (decide_eq_true (Int.negSucc_lt_zero n))

end FormulaSheet.Decimal
