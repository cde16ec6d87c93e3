import FormulaSheet.Decimal.Binary
import Mathlib

/-!
# Integers as binary64 numbers

An integer of 53 bits or fewer is a binary64 number, whose mantissa is the integer with its first
bit moved to the front (`Decimal.toBits_ofInt`).
-/

namespace FormulaSheet.Decimal

open Float.Model Float.Model.UnpackedFloat

/-! ### Rounding what needs no rounding -/

theorem shiftRight_exact (m k : Nat) :
    (⟨m * 2 ^ k, false, false⟩ : ExtendedMantissa) >>> k = ⟨m, false, false⟩ := by
  show Nat.repeat ExtendedMantissa.shiftRightOne k ⟨m * 2 ^ k, false, false⟩ = _
  induction k generalizing m with
  | zero => simp [Nat.repeat]
  | succ k ih =>
    have hsplit : m * 2 ^ (k + 1) = m * 2 * 2 ^ k := by ring
    rw [Nat.repeat, hsplit, ih]
    simp [ExtendedMantissa.shiftRightOne]

theorem log2_mul_two_pow {m : Nat} (hm : m ≠ 0) (k : Nat) : (m * 2 ^ k).log2 = m.log2 + k := by
  have hpos : 0 < 2 ^ k := Nat.two_pow_pos k
  rw [Nat.log2_eq_iff (Nat.mul_ne_zero hm hpos.ne'), pow_add, Nat.add_right_comm, pow_add]
  exact ⟨Nat.mul_le_mul_right _ (Nat.log2_self_le hm),
    Nat.mul_lt_mul_of_pos_right Nat.lt_log2_self hpos⟩

/-- Zeros behind a mantissa of 53 bits are dropped, and nothing else changes. -/
theorem shiftToTargetExponent_exact {m : Nat} (hm : m.log2 = 52) (hpos : m ≠ 0) {e : Int}
    (he : -1074 ≤ e) (k : Nat) :
    shiftToTargetExponent .binary64 (m * 2 ^ k) (e - k) .exact = (⟨m, false, false⟩, e) := by
  have htarget : Format.binary64.targetExponent (totalExponent (m * 2 ^ k) (e - k)) = e := by
    simp only [Format.targetExponent, totalExponent, log2_mul_two_pow hpos, hm, Format.mantissaBits,
      Format.minExponent]
    omega
  have hshift : (e - (e - k)).toNat = k := by omega
  have hsum : e - k + ((k : Nat) : Int) = e := by omega
  simp only [shiftToTargetExponent, shiftToExponent, htarget, hshift, hsum]
  exact congrArg (·, e) (shiftRight_exact m k)

theorem roundWithAccuracy_exact {m : Nat} (hm : m.log2 = 52) (hpos : 0 < m) {e : Int}
    (he : -1074 ≤ e) (s : Sign) (k : Nat) :
    roundWithAccuracy .binary64 s (m * 2 ^ k) (e - k) .exact = .finite s m e hpos := by
  have hfirst := shiftToTargetExponent_exact hm hpos.ne' he k
  have hagain := shiftToTargetExponent_exact hm hpos.ne' he 0
  simp only [pow_zero, Nat.mul_one, Nat.cast_zero, sub_zero] at hagain
  simp only [roundWithAccuracy, hfirst, ExtendedMantissa.roundedMantissa, ExtendedMantissa.accuracy,
    Accuracy.roundToNearestEven, hagain, dif_neg hpos.ne']

/-! ### Numbers of 53 bits -/

/-- A natural number of 53 bits or fewer with its first bit moved to the front of 53. -/
def lead (n : Nat) : Nat := n * 2 ^ (52 - n.log2)

variable {n m : Nat}

theorem log2_le (hn : n < 2 ^ 53) : n.log2 ≤ 52 := by
  rcases Nat.eq_zero_or_pos n with rfl | hpos
  · decide
  · exact Nat.le_of_lt_succ ((Nat.log2_lt hpos.ne').mpr hn)

theorem log2_lead (hpos : 0 < n) (hn : n < 2 ^ 53) : (lead n).log2 = 52 := by
  have hle := log2_le hn
  rw [lead, log2_mul_two_pow hpos.ne']
  omega

theorem lead_pos (hpos : 0 < n) : 0 < lead n := Nat.mul_pos hpos (Nat.two_pow_pos _)

theorem round_natural (hpos : 0 < n) (hn : n < 2 ^ 53) :
    UnpackedFloat.ofNat .binary64 n = .finite .positive (lead n) (n.log2 - 52) (lead_pos hpos) := by
  have hle := log2_le hn
  have hcompare : compare (n : Int) 0 = .gt := Int.compare_eq_gt.mpr (by omega)
  have htarget : Format.binary64.targetExponent (totalExponent n 0) = n.log2 - 52 := by
    simp only [Format.targetExponent, totalExponent, Format.mantissaBits, Format.minExponent]
    omega
  have hshift : ((0 : Int) - (n.log2 - 52)).toNat = 52 - n.log2 := by omega
  have hexponent : (0 : Int) - ((52 - n.log2 : Nat) : Int) = n.log2 - 52 := by omega
  have hround := roundWithAccuracy_exact (log2_lead hpos hn) (lead_pos hpos)
    (show (-1074 : Int) ≤ n.log2 - 52 by omega) .positive 0
  simp only [pow_zero, Nat.mul_one, Nat.cast_zero, sub_zero] at hround
  simp only [UnpackedFloat.ofNat, UnpackedFloat.ofInt, UnpackedFloat.normalize, hcompare,
    UnpackedFloat.round, decreaseExponent, Int.toNat_natCast, htarget, hshift, hexponent,
    Nat.shiftLeft_eq]
  exact hround

section Packing

variable {e : Int}

theorem pack_finite (hm : m.log2 = 52) (hpos : 0 < m) (hlow : -1074 ≤ e)
    (hhigh : e ≤ 971) (s : Sign) : UnpackedFloat.pack .binary64 (.finite s m e hpos) =
      packComponents .binary64 s (BitVec.ofNat 11 (e + 1075).toNat) (BitVec.ofNat 52 m) := by
  have hbiased :
      e + ((Format.binary64.exponentBias : Nat) : Int) + ((52 : Nat) : Int) = e + 1075 := by
    have hbias : Format.binary64.exponentBias = 1023 := rfl
    rw [hbias]
    omega
  have hfinite : ¬ 2 ^ 11 ≤ (e + 1075).toNat + 1 := by omega
  rw [UnpackedFloat.pack]
  simp only [hbiased, if_neg hfinite, hm, Format.mantissaBits]
  rfl

theorem bounds_of_log2 (hm : m.log2 = 52) : 2 ^ 52 ≤ m ∧ m < 2 ^ 53 := by
  have hpos : m ≠ 0 := by
    rintro rfl
    cases hm
  exact (Nat.log2_eq_iff hpos).mp hm

theorem unpack_pack (hm : m.log2 = 52) (hpos : 0 < m) (hlow : -1074 ≤ e)
    (hhigh : e ≤ 971) (s : Sign) :
    UnpackedFloat.unpack .binary64 (UnpackedFloat.pack .binary64 (.finite s m e hpos)) =
      .finite s m e hpos := by
  have hbounds := bounds_of_log2 hm
  have hbiased : (BitVec.ofNat 11 (e + 1075).toNat).toNat = (e + 1075).toNat := by
    rw [BitVec.toNat_ofNat]
    exact Nat.mod_eq_of_lt (by omega)
  have hnotOnes : BitVec.ofNat 11 (e + 1075).toNat ≠ -1#11 := by
    intro h
    have htoNat := congrArg BitVec.toNat h
    rw [hbiased] at htoNat
    simp at htoNat
    omega
  have hnotZero : BitVec.ofNat 11 (e + 1075).toNat ≠ 0#11 := by
    intro h
    have htoNat := congrArg BitVec.toNat h
    rw [hbiased] at htoNat
    simp at htoNat
    omega
  -- the first bit of the mantissa is not stored
  have hmantissa : (1#1 ++ BitVec.ofNat 52 m).toNat = m := by
    rw [BitVec.toNat_append, ← Nat.shiftLeft_add_eq_or_of_lt (BitVec.ofNat 52 m).isLt]
    simp only [BitVec.toNat_ofNat, Nat.shiftLeft_eq]
    omega
  have hexponent : (((e + 1075).toNat : Nat) : Int) -
      (((Format.binary64.exponentBias : Nat) : Int) + ((52 : Nat) : Int)) = e := by
    have hbias : Format.binary64.exponentBias = 1023 := rfl
    rw [hbias]
    omega
  rw [pack_finite hm hpos hlow hhigh, UnpackedFloat.unpack]
  simp only [unpackExponent_packComponents, unpackMantissa_packComponents,
    unpackSign_packComponents, Sign.ofBitVec_toBitVec, if_neg hnotOnes, if_neg hnotZero, hbiased,
    hmantissa, hexponent]

theorem toNat_pack (hm : m.log2 = 52) (hpos : 0 < m) (hlow : -1074 ≤ e)
    (hhigh : e ≤ 971) (s : Sign) : (UnpackedFloat.pack .binary64 (.finite s m e hpos)).toNat =
      s.toBitVec.toNat * 2 ^ 63 + (e + 1074).toNat * 2 ^ 52 + m := by
  have hbounds := bounds_of_log2 hm
  have hexponent : (e + 1075).toNat % 2 ^ 11 < 2 ^ 11 := Nat.mod_lt _ (Nat.two_pow_pos 11)
  have hfraction : m % 2 ^ 52 < 2 ^ 52 := Nat.mod_lt _ (Nat.two_pow_pos 52)
  rw [pack_finite hm hpos hlow hhigh, packComponents]
  simp only [BitVec.toNat_append, BitVec.toNat_ofNat]
  rw [← Nat.shiftLeft_add_eq_or_of_lt hexponent, ← Nat.shiftLeft_add_eq_or_of_lt hfraction]
  simp only [Nat.shiftLeft_eq]
  omega

end Packing

/-! ### Integers -/

/-- Multiplying by one rounds nothing. -/
theorem ofNat_eq (hpos : 0 < n) (hn : n < 2 ^ 53) :
    Float.ofNat n = .ofModel (pack (.finite .positive (lead n) (n.log2 - 52) (lead_pos hpos))) := by
  have hle := log2_le hn
  have hword : n.toUInt64.toNat = n := by
    rw [Nat.toUInt64_eq, UInt64.toNat_ofNat']
    exact Nat.mod_eq_of_lt (by omega)
  have hofNat : Float.ofNat n = n.toUInt64.toFloat * Float.ofBits 0x3FF0000000000000 := by
    have hsmall : n < 2 ^ 53 ∧ 0 ≤ 22 := ⟨hn, by decide⟩
    show Float.ofScientific n false 0 = _
    rw [Float.ofScientific, dif_pos hsmall]
    rfl
  have hone : (Float.ofBits 0x3FF0000000000000).toModel.unpack =
      .finite .positive (2 ^ 52) (-52) (by decide) := by
    rfl
  have hfactor : n.toUInt64.toFloat.toModel.unpack =
      .finite .positive (lead n) (n.log2 - 52) (lead_pos hpos) := by
    show UnpackedFloat.unpack .binary64
      (UnpackedFloat.pack .binary64 (UnpackedFloat.ofNat .binary64 n.toUInt64.toNat)) = _
    rw [hword, round_natural hpos hn]
    exact unpack_pack (log2_lead hpos hn) (lead_pos hpos) (by omega) (by omega) .positive
  have hproduct := roundWithAccuracy_exact (log2_lead hpos hn) (lead_pos hpos)
    (show (-1074 : Int) ≤ n.log2 - 52 by omega) (.positive * .positive) 52
  rw [hofNat]
  show Float.ofModel (pack (UnpackedFloat.mul .binary64 n.toUInt64.toFloat.toModel.unpack
    (Float.ofBits 0x3FF0000000000000).toModel.unpack)) = _
  rw [hone, hfactor]
  exact congrArg (fun u => Float.ofModel (pack u)) hproduct

theorem neg_pack (hm : m.log2 = 52) (hpos : 0 < m) {e : Int} (hlow : -1074 ≤ e)
    (hhigh : e ≤ 971) (s : Sign) :
    Float.neg (.ofModel (pack (.finite s m e hpos))) = .ofModel (pack (.finite (-s) m e hpos)) := by
  have hunpack := unpack_pack hm hpos hlow hhigh s
  exact congrArg (fun u => Float.ofModel (pack (UnpackedFloat.neg u))) hunpack

variable {i : Int}

def signOf (i : Int) : Sign := if i < 0 then .negative else .positive

theorem ofInt_eq (hne : i ≠ 0) (hi : i.natAbs < 2 ^ 53) :
    ofInt i = .ofModel (pack (.finite (signOf i) (lead i.natAbs) (i.natAbs.log2 - 52)
      (lead_pos (Int.natAbs_pos.mpr hne)))) := by
  have hpos := Int.natAbs_pos.mpr hne
  have hle := log2_le hi
  have hnat := ofNat_eq hpos hi
  cases i with
  | ofNat n => exact hnat
  | negSucc n =>
    have hofInt : ofInt (.negSucc n) = Float.neg (Float.ofNat (Int.negSucc n).natAbs) := rfl
    have hsign : signOf (.negSucc n) = -.positive := if_pos (Int.negSucc_lt_zero n)
    rw [hofInt, hsign, hnat]
    exact neg_pack (log2_lead hpos hi) (lead_pos hpos) (by omega) (by omega) .positive

/-- **The bits of an integer**: its sign, its size and its bits behind the first one. -/
theorem toBits_ofInt (hne : i ≠ 0) (hi : i.natAbs < 2 ^ 53) :
    (ofInt i).toBits.toNat =
      (if i < 0 then 2 ^ 63 else 0) + (i.natAbs.log2 + 1022) * 2 ^ 52 + lead i.natAbs := by
  have hpos := Int.natAbs_pos.mpr hne
  have hle := log2_le hi
  rw [ofInt_eq hne hi]
  show (UnpackedFloat.pack .binary64 _).toNat = _
  rw [toNat_pack (log2_lead hpos hi) (lead_pos hpos) (by omega) (by omega)]
  have hexponent : ((i.natAbs.log2 : Int) - 52 + 1074).toNat = i.natAbs.log2 + 1022 := by omega
  have hsign : (signOf i).toBitVec.toNat * 2 ^ 63 = if i < 0 then 2 ^ 63 else 0 := by
    unfold signOf
    split <;> rfl
  rw [hexponent, hsign]

theorem isFinite_ofInt (hi : i.natAbs < 2 ^ 53) : (ofInt i).isFinite = true := by
  by_cases hne : i = 0
  · subst hne
    rfl
  · have hpos := Int.natAbs_pos.mpr hne
    have hle := log2_le hi
    rw [ofInt_eq hne hi]
    show (UnpackedFloat.unpack .binary64 (UnpackedFloat.pack .binary64 _)).isFinite = true
    rw [unpack_pack (log2_lead hpos hi) (lead_pos hpos) (by omega) (by omega)]
    rfl

theorem isNegative_eq (x : Float) : isNegative x = decide (2 ^ 63 ≤ x.toBits.toNat) := by
  have hlt := x.toBits.toNat_lt
  have hshift : (x.toBits >>> 63).toNat = x.toBits.toNat / 2 ^ 63 := by
    rw [UInt64.toNat_shiftRight, Nat.shiftRight_eq_div_pow]
    rfl
  rw [isNegative, Bool.eq_iff_iff, beq_iff_eq, ← UInt64.toNat_inj, hshift, decide_eq_true_eq]
  show x.toBits.toNat / 2 ^ 63 = 1 ↔ _
  omega

theorem isNegative_ofInt (hne : i ≠ 0) (hi : i.natAbs < 2 ^ 53) :
    isNegative (ofInt i) = decide (i < 0) := by
  have hbounds := bounds_of_log2 (log2_lead (Int.natAbs_pos.mpr hne) hi)
  have hle := log2_le hi
  rw [isNegative_eq, toBits_ofInt hne hi, decide_eq_decide]
  split <;> omega

/-- The magnitude in terms of the three parts of the bits. -/
theorem magnitude_of_bits {x : Float} {sign biased fraction : Nat}
    (hbits : x.toBits.toNat = sign * 2 ^ 63 + biased * 2 ^ 52 + fraction)
    (hbiased : biased < 2 ^ 11) (hfraction : fraction < 2 ^ 52) :
    magnitude x =
      if biased = 0 then ⟨fraction, -1074⟩ else ⟨2 ^ 52 + fraction, (biased : Int) - 1075⟩ := by
  have hlow : x.toBits.toNat % Nat.pow 2 52 = fraction := by
    show x.toBits.toNat % 2 ^ 52 = fraction
    omega
  have hmiddle : x.toBits.toNat / Nat.pow 2 52 % Nat.pow 2 11 = biased := by
    show x.toBits.toNat / 2 ^ 52 % 2 ^ 11 = biased
    omega
  rw [magnitude, hlow, hmiddle]
  rfl

theorem magnitude_ofInt (hne : i ≠ 0) (hi : i.natAbs < 2 ^ 53) :
    magnitude (ofInt i) = ⟨lead i.natAbs, (i.natAbs.log2 : Int) - 52⟩ := by
  have hbounds := bounds_of_log2 (log2_lead (Int.natAbs_pos.mpr hne) hi)
  have hle := log2_le hi
  have hbits :
      (ofInt i).toBits.toNat = (if i < 0 then 1 else 0) * 2 ^ 63 + (i.natAbs.log2 + 1023) * 2 ^ 52 +
      (lead i.natAbs - 2 ^ 52) := by
    rw [toBits_ofInt hne hi]
    split <;> omega
  have hmantissa : 2 ^ 52 + (lead i.natAbs - 2 ^ 52) = lead i.natAbs := by omega
  have hexponent : ((i.natAbs.log2 + 1023 : Nat) : Int) - 1075 = i.natAbs.log2 - 52 := by omega
  rw [magnitude_of_bits hbits (by omega) (by omega), if_neg (by omega), hmantissa, hexponent]

/-- A magnitude of 53 bits with a whole number of units is whole, and its integer is that number. -/
theorem floor_lead (hn : n < 2 ^ 53) :
    (⟨lead n, (n.log2 : Int) - 52⟩ : Dyadic).isWhole = true ∧
    (⟨lead n, (n.log2 : Int) - 52⟩ : Dyadic).floor = n := by
  have hle := log2_le hn
  have hplaces : (-((n.log2 : Int) - 52)).toNat = 52 - n.log2 := by omega
  have hunit : 0 < 2 ^ (52 - n.log2) := Nat.two_pow_pos _
  have hpow : Nat.pow 2 (52 - n.log2) = 2 ^ (52 - n.log2) := rfl
  constructor
  · simp [Dyadic.isWhole, lead]
  · unfold Dyadic.floor
    split
    · rename_i hnotNegative
      have hexponent : 0 ≤ (n.log2 : Int) - 52 := hnotNegative
      have hlog : n.log2 = 52 := by omega
      simp [lead, hlog]
    · simp only [hplaces, lead, hpow, Nat.mul_div_cancel _ hunit]

theorem magnitude_ofInt_zero : magnitude (ofInt 0) = ⟨0, -1074⟩ := by
  have hbits : (ofInt 0).toBits.toNat = 0 * 2 ^ 63 + 0 * 2 ^ 52 + 0 := rfl
  rw [magnitude_of_bits hbits (by decide) (by decide)]
  rfl

theorem floor_zero (e : Int) : (⟨0, e⟩ : Dyadic).floor = 0 := by
  unfold Dyadic.floor
  split
  · exact Nat.zero_mul _
  · exact Nat.zero_div _

theorem isWhole_zero (e : Int) : (⟨0, e⟩ : Dyadic).isWhole = true := by
  simp [Dyadic.isWhole]

theorem isWhole_ofInt (hi : i.natAbs < 2 ^ 53) : isWhole (ofInt i) = true := by
  by_cases hne : i = 0
  · subst hne
    rw [isWhole, magnitude_ofInt_zero, isWhole_zero]
    rfl
  · rw [isWhole, isFinite_ofInt hi, magnitude_ofInt hne hi, (floor_lead hi).1]
    rfl

theorem wholePart_eq (x : Float) :
    wholePart x = if isNegative x then -((magnitude x).floor : Int) else (magnitude x).floor := rfl

theorem wholePart_ofInt (hi : i.natAbs < 2 ^ 53) : wholePart (ofInt i) = i := by
  by_cases hne : i = 0
  · subst hne
    rw [wholePart_eq, magnitude_ofInt_zero, floor_zero]
    split <;> rfl
  · rw [wholePart_eq, magnitude_ofInt hne hi, isNegative_ofInt hne hi, (floor_lead hi).2]
    simp only [decide_eq_true_eq]
    omega

/-! ### Whole numbers -/

/-- The bits of a number are its sign, its exponent and its fraction. -/
theorem exists_bits (x : Float) : ∃ biased fraction : Nat, biased < 2 ^ 11 ∧ fraction < 2 ^ 52 ∧
    x.toBits.toNat = (if isNegative x then 1 else 0) * 2 ^ 63 + biased * 2 ^ 52 + fraction := by
  have hlt := x.toBits.toNat_lt
  refine ⟨x.toBits.toNat / 2 ^ 52 % 2 ^ 11, x.toBits.toNat % 2 ^ 52, by omega, by omega, ?_⟩
  rw [isNegative_eq]
  simp only [decide_eq_true_eq]
  split <;> omega

/-- A whole magnitude with a mantissa of 53 bits has the mantissa and the exponent of its
integer. -/
theorem lead_floor (hm : m.log2 = 52) {e : Int} (hwhole : (⟨m, e⟩ : Dyadic).isWhole = true)
    (hsmall : (⟨m, e⟩ : Dyadic).floor < 2 ^ 53) :
    0 < (⟨m, e⟩ : Dyadic).floor ∧ lead (⟨m, e⟩ : Dyadic).floor = m ∧
      ((⟨m, e⟩ : Dyadic).floor.log2 : Int) - 52 = e := by
  have hbounds := bounds_of_log2 hm
  by_cases he : 0 ≤ e
  · have hfloor : (⟨m, e⟩ : Dyadic).floor = m * 2 ^ e.toNat := if_pos he
    rw [hfloor] at hsmall ⊢
    have hexponent : e.toNat = 0 := by
      apply Nat.eq_zero_of_not_pos
      intro hpos
      have hdouble : m * 2 ^ 1 ≤ m * 2 ^ e.toNat :=
        Nat.mul_le_mul_left m (Nat.pow_le_pow_right (by decide) hpos)
      omega
    rw [hexponent, pow_zero, Nat.mul_one]
    refine ⟨by omega, ?_, by omega⟩
    rw [lead, hm, Nat.sub_self, pow_zero, Nat.mul_one]
  · have hfloor : (⟨m, e⟩ : Dyadic).floor = m / 2 ^ (-e).toNat := if_neg he
    have hdivides : 2 ^ (-e).toNat ∣ m := by
      apply Nat.dvd_of_mod_eq_zero
      rw [Dyadic.isWhole, Bool.or_eq_true, decide_eq_true_eq, beq_iff_eq] at hwhole
      exact hwhole.resolve_left he
    have hproduct : m / 2 ^ (-e).toNat * 2 ^ (-e).toNat = m := Nat.div_mul_cancel hdivides
    rw [hfloor] at hsmall ⊢
    have hpos : 0 < m / 2 ^ (-e).toNat := by
      apply Nat.pos_of_ne_zero
      intro hzero
      rw [hzero, Nat.zero_mul] at hproduct
      omega
    have hlog : (m / 2 ^ (-e).toNat).log2 + (-e).toNat = 52 := by
      rw [← log2_mul_two_pow hpos.ne', hproduct, hm]
    have hplaces : 52 - (m / 2 ^ (-e).toNat).log2 = (-e).toNat := by omega
    refine ⟨hpos, ?_, by omega⟩
    rw [lead, hplaces, hproduct]

/-- Nothing below the least number with a leading bit is whole, apart from zero. -/
theorem eq_zero_of_isWhole {fraction : Nat} (hfraction : fraction < 2 ^ 52)
    (hwhole : (⟨fraction, -1074⟩ : Dyadic).isWhole = true) : fraction = 0 := by
  have hlt : fraction < 2 ^ (-(-1074 : Int)).toNat :=
    Nat.lt_of_lt_of_le hfraction (Nat.pow_le_pow_right (by decide) (by decide))
  rw [Dyadic.isWhole, Bool.or_eq_true, decide_eq_true_eq, beq_iff_eq] at hwhole
  have hmod : fraction % 2 ^ (-(-1074 : Int)).toNat = 0 :=
    hwhole.resolve_left (show ¬ (0 : Int) ≤ -1074 by decide)
  rwa [Nat.mod_eq_of_lt hlt] at hmod

theorem eq_of_toBits {x y : Float} (h : x.toBits.toNat = y.toBits.toNat) : x = y :=
  Float.toBits_inj.mp (UInt64.toNat_inj.mp h)

theorem natAbs_wholePart (x : Float) : (wholePart x).natAbs = (magnitude x).floor := by
  rw [wholePart_eq]
  split <;> omega

theorem wholePart_neg_iff {x : Float} (hne : wholePart x ≠ 0) :
    wholePart x < 0 ↔ isNegative x = true := by
  rw [wholePart_eq] at hne ⊢
  split
  · rename_i hnegative
    rw [if_pos hnegative] at hne
    exact iff_of_true (by omega) hnegative
  · rename_i hnegative
    exact iff_of_false (by omega) hnegative

/-- **A whole number of 53 bits or fewer is its integer**, unless it is negative zero. -/
theorem ofInt_wholePart {x : Float} (hwhole : isWhole x = true)
    (hsmall : (wholePart x).natAbs < 2 ^ 53) (hzero : x ≠ -0.0) : ofInt (wholePart x) = x := by
  obtain ⟨biased, fraction, hbiased, hfraction, hbits⟩ := exists_bits x
  have hmagnitude := magnitude_of_bits hbits hbiased hfraction
  have hwhole : (magnitude x).isWhole = true := (Bool.and_eq_true _ _ ▸ hwhole).2
  have habs := natAbs_wholePart x
  by_cases hnormal : biased = 0
  · rw [if_pos hnormal] at hmagnitude
    rw [hmagnitude] at hwhole
    have hnone := eq_zero_of_isWhole hfraction hwhole
    cases hsign : isNegative x with
    | true =>
      rw [hsign, if_pos rfl, hnormal, hnone] at hbits
      have hnegative : (-0.0 : Float).toBits.toNat = 2 ^ 63 := rfl
      exact absurd (eq_of_toBits (hbits.trans hnegative.symm)) hzero
    | false =>
      rw [hsign, hnormal, hnone] at hbits
      have hpositive : (ofInt 0).toBits.toNat = 0 := rfl
      have hpart : wholePart x = 0 := by
        rw [← Int.natAbs_eq_zero, habs, hmagnitude, hnone, floor_zero]
      rw [hpart]
      exact eq_of_toBits (hpositive.trans hbits.symm)
  · rw [if_neg hnormal] at hmagnitude
    have hlog : (2 ^ 52 + fraction).log2 = 52 :=
      (Nat.log2_eq_iff (by omega)).mpr ⟨by omega, by omega⟩
    rw [hmagnitude] at hwhole habs
    obtain ⟨hpos, hlead, hexponent⟩ := lead_floor hlog hwhole (habs ▸ hsmall)
    rw [← habs] at hpos hlead hexponent
    have hne : wholePart x ≠ 0 := Int.natAbs_pos.mp hpos
    apply eq_of_toBits
    rw [toBits_ofInt hne hsmall, hbits, hlead]
    simp only [wholePart_neg_iff hne]
    split <;> omega

end FormulaSheet.Decimal
