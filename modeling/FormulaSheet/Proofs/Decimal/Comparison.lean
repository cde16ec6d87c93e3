import FormulaSheet.Decimal.Binary

/-!
# Comparing numbers

Two numbers compare as less, equal or greater unless one of them is not-a-number, and the other way
around they compare the other way. So equality goes both ways (`Decimal.beq_comm`), and what is not
less is at least as great or cannot be compared (`Decimal.not_lt_iff`).
-/

namespace FormulaSheet.Decimal

open Float.Model Float.Model.UnpackedFloat

theorem compare_sign_swap (s t : Sign) : compare s t = (compare t s).swap := by
  cases s <;> cases t <;> rfl

theorem compare_size_swap (e f : Int) (m n : Nat) :
    (compare e f).then (compare m n) = ((compare f e).then (compare n m)).swap := by
  rw [Ordering.swap_then, ← Std.OrientedCmp.eq_swap, ← Std.OrientedCmp.eq_swap]

theorem compare_swap (a b : UnpackedFloat) : a.compare b = (b.compare a).map Ordering.swap := by
  cases a with
  | notANumber => cases b <;> rfl
  | infinity s =>
    cases b with
    | infinity t => exact congrArg some (compare_sign_swap s t)
    | _ => cases s <;> rfl
  | zero s =>
    cases b with
    | notANumber | zero => rfl
    | infinity t | finite t => cases t <;> rfl
  | finite s m e =>
    cases b with
    | notANumber => rfl
    | infinity t => cases t <;> cases s <;> rfl
    | zero => cases s <;> rfl
    | finite t n f =>
      cases s <;> cases t
      case negative.negative => exact congrArg (fun o => some o.swap) (compare_size_swap e f m n)
      case positive.positive => exact congrArg some (compare_size_swap e f m n)
      all_goals rfl

/-- Two numbers always compare. -/
theorem isSome_compare {a b : UnpackedFloat} (ha : a.isNaN = false) (hb : b.isNaN = false) :
    (a.compare b).isSome = true := by
  cases a with
  | notANumber => cases ha
  | infinity s =>
    cases b with
    | notANumber => cases hb
    | infinity => rfl
    | zero | finite => cases s <;> rfl
  | zero s =>
    cases b with
    | notANumber => cases hb
    | zero => rfl
    | infinity t | finite t => cases t <;> rfl
  | finite s =>
    cases b with
    | notANumber => cases hb
    | infinity t => cases t <;> rfl
    | zero => cases s <;> rfl
    | finite t => cases s <;> cases t <;> rfl

theorem compare_eq_none_iff (a b : UnpackedFloat) :
    a.compare b = none ↔ a.isNaN = true ∨ b.isNaN = true := by
  cases ha : a.isNaN with
  | true =>
    refine iff_of_true ?_ (Or.inl rfl)
    cases a with
    | notANumber => rfl
    | infinity | zero | finite => cases ha
  | false =>
    cases hb : b.isNaN with
    | true =>
      refine iff_of_true ?_ (Or.inr rfl)
      cases b with
      | notANumber => cases a <;> rfl
      | infinity | zero | finite => cases hb
    | false =>
      refine iff_of_false (fun hnone => ?_) (by simp)
      have hsome := isSome_compare ha hb
      rw [hnone] at hsome
      cases hsome

variable {x y : Float}

/-- **Equality of numbers goes both ways.** -/
theorem beq_comm (x y : Float) : (x == y) = (y == x) := by
  show (x.toModel.unpack.compare y.toModel.unpack == some .eq) =
    (y.toModel.unpack.compare x.toModel.unpack == some .eq)
  rw [compare_swap]
  rcases y.toModel.unpack.compare x.toModel.unpack with _ | _ | _ | _ <;> rfl

theorem lt_iff : x < y ↔ x.toModel.unpack.compare y.toModel.unpack = some .lt := by
  rw [← beq_iff_eq]
  exact decide_eq_true_iff

theorem le_iff : x ≤ y ↔ (x.toModel.unpack.compare y.toModel.unpack).any Ordering.isLE = true :=
  decide_eq_true_iff

/-- Nothing compares with not-a-number. -/
theorem not_le_of_isNaN (h : x.isNaN = true ∨ y.isNaN = true) : ¬ x ≤ y := by
  rw [le_iff, (compare_eq_none_iff _ _).mpr h]
  exact Bool.false_ne_true

/-- **A number that is not below another one is at least as great, or one of the two is
not-a-number.** -/
theorem not_lt_iff : ¬ x < y ↔ y ≤ x ∨ x.isNaN = true ∨ y.isNaN = true := by
  have hnone := compare_eq_none_iff x.toModel.unpack y.toModel.unpack
  rw [lt_iff, le_iff, compare_swap y.toModel.unpack]
  cases hcompare : x.toModel.unpack.compare y.toModel.unpack with
  | none => exact iff_of_true (by simp) (Or.inr (hnone.mp hcompare))
  | some o =>
    have hnumbers : ¬ (x.isNaN = true ∨ y.isNaN = true) :=
      fun h => by simp [hnone.mpr h] at hcompare
    rw [or_iff_left hnumbers]
    cases o <;> decide

end FormulaSheet.Decimal
