import FormulaSheet.Decimal.Reader
import FormulaSheet.Proofs.Decimal.Whole

/-!
# Decimals are numbers

A product of finite numbers and a quotient by a finite number other than zero are numbers: rounding
can lead to an infinity or to zero, but never to not-a-number. The number nearest to a decimal is
made in one of these ways, so it is a number however long the decimal (`Decimal.isNaN_nearest`).
-/

namespace FormulaSheet.Decimal

open Float.Model Float.Model.UnpackedFloat

/-! ### Packing -/

theorem ofNat_ne_neg_one {biased : Nat} (h : ¬ 2 ^ 11 ≤ biased + 1) :
    BitVec.ofNat 11 biased ≠ -1#11 := by
  intro heq
  have htoNat := congrArg BitVec.toNat heq
  rw [BitVec.toNat_ofNat, Nat.mod_eq_of_lt (by omega)] at htoNat
  simp at htoNat
  omega

theorem isNaN_unpack_packComponents (s : Sign) {biased : BitVec 11} (h : biased ≠ -1#11)
    (fraction : BitVec 52) :
    (UnpackedFloat.unpack .binary64 (packComponents .binary64 s biased fraction)).isNaN =
      false := by
  rw [UnpackedFloat.unpack]
  simp only [unpackExponent_packComponents, unpackMantissa_packComponents, if_neg h]
  split
  · split <;> rfl
  · rfl

theorem isNaN_unpack_packedInfinity (s : Sign) :
    (UnpackedFloat.unpack .binary64 (packedInfinity .binary64 s)).isNaN = false := by
  rw [UnpackedFloat.unpack, packedInfinity]
  simp only [unpackExponent_packComponents, unpackMantissa_packComponents, if_pos]
  rfl

/-- What is a number is one in its bits. -/
theorem isNaN_pack {u : UnpackedFloat} (h : u.isNaN = false) :
    (Float.ofModel (pack u)).isNaN = false := by
  show (UnpackedFloat.unpack .binary64 (UnpackedFloat.pack .binary64 u)).isNaN = false
  cases u with
  | notANumber => cases h
  | infinity s => exact isNaN_unpack_packedInfinity s
  | zero s => exact isNaN_unpack_packComponents s (by decide) _
  | finite s m e =>
    rw [UnpackedFloat.pack]
    dsimp only
    split
    · exact isNaN_unpack_packedInfinity s
    · rename_i hbiased
      split
      · exact isNaN_unpack_packComponents s (ofNat_ne_neg_one hbiased) _
      · exact isNaN_unpack_packComponents s (by decide) _

/-! ### Products and quotients -/

/-- A finite number other than zero. -/
def isDivisor : UnpackedFloat → Bool
  | .finite _ _ _ _ => true
  | _ => false

theorem isFinite_of_isDivisor {u : UnpackedFloat} (h : isDivisor u = true) : u.isFinite = true := by
  cases u with
  | finite => rfl
  | infinity | notANumber | zero => cases h

theorem isNaN_roundWithAccuracy (s : Sign) (m : Nat) (e : Int) (a : Accuracy) :
    (roundWithAccuracy .binary64 s m e a).isNaN = false := by
  unfold roundWithAccuracy
  dsimp only
  split <;> rfl

theorem isNaN_mul {a b : UnpackedFloat} (ha : a.isFinite = true) (hb : b.isFinite = true) :
    (UnpackedFloat.mul .binary64 a b).isNaN = false := by
  cases a with
  | infinity | notANumber => cases ha
  | zero =>
    cases b with
    | infinity | notANumber => cases hb
    | zero | finite => rfl
  | finite =>
    cases b with
    | infinity | notANumber => cases hb
    | zero => rfl
    | finite => exact isNaN_roundWithAccuracy _ _ _ _

theorem isNaN_div {a b : UnpackedFloat} (ha : a.isFinite = true) (hb : isDivisor b = true) :
    (UnpackedFloat.div .binary64 a b).isNaN = false := by
  cases b with
  | infinity | notANumber | zero => cases hb
  | finite =>
    cases a with
    | infinity | notANumber => cases ha
    | zero => rfl
    | finite => exact isNaN_roundWithAccuracy _ _ _ _

/-! ### Decimals -/

theorem isFinite_toFloat {n : Nat} (hn : n < 2 ^ 53) :
    n.toUInt64.toFloat.toModel.unpack.isFinite = true := by
  rcases Nat.eq_zero_or_pos n with rfl | hpos
  · rfl
  have hle := log2_le hn
  have hword : n.toUInt64.toNat = n := by
    rw [Nat.toUInt64_eq, UInt64.toNat_ofNat']
    exact Nat.mod_eq_of_lt (by omega)
  show (UnpackedFloat.unpack .binary64
    (UnpackedFloat.pack .binary64 (UnpackedFloat.ofNat .binary64 n.toUInt64.toNat))).isFinite = true
  rw [hword, round_natural hpos hn,
    unpack_pack (log2_lead hpos hn) (lead_pos hpos) (by omega) (by omega)]
  rfl

theorem isDivisor_powerOfTen :
    ∀ x ∈ Float.exactlyRepresentablePowersOfTen, isDivisor x.toModel.unpack = true := by
  decide +kernel

theorem isNaN_rounded (m : Nat) (e : Int) :
    (UnpackedFloat.ofScientific .binary64 m e).isNaN = false := by
  unfold UnpackedFloat.ofScientific
  split
  · rfl
  split
  · rfl
  split
  · rfl
  split
  · exact isNaN_mul rfl rfl
  · exact isNaN_div rfl rfl

theorem isNaN_ofScientific (m : Nat) (small : Bool) (e : Nat) :
    (Float.ofScientific m small e).isNaN = false := by
  unfold Float.ofScientific
  split
  · -- a small decimal is one product or quotient of exact numbers
    rename_i hsmall
    have hm := isFinite_toFloat hsmall.1
    have hsize : e < Float.exactlyRepresentablePowersOfTen.size := Nat.lt_succ_of_le hsmall.2
    have hpower := isDivisor_powerOfTen _ (Array.getElem_mem hsize)
    dsimp only
    split
    · exact isNaN_pack (isNaN_div hm hpower)
    · exact isNaN_pack (isNaN_mul hm (isFinite_of_isDivisor hpower))
  · exact isNaN_pack (isNaN_rounded m _)

theorem isNaN_ofNat (n : Nat) : (Float.ofNat n).isNaN = false := isNaN_ofScientific n false 0

theorem isNaN_neg {x : Float} (h : x.isNaN = false) : (-x).isNaN = false := by
  change x.toModel.unpack.isNaN = false at h
  refine isNaN_pack ?_
  show x.toModel.unpack.neg.isNaN = false
  cases hx : x.toModel.unpack with
  | notANumber =>
    rw [hx] at h
    cases h
  | infinity | zero | finite => rfl

/-- **The number nearest to a decimal is a number.** -/
theorem isNaN_nearest (digits : Nat) (exponent : Int) :
    (nearest digits exponent).isNaN = false := by
  unfold nearest
  split <;> exact isNaN_ofScientific _ _ _

end FormulaSheet.Decimal
