import FormulaSheet.Eval
import FormulaSheet.Proofs.Text.Units

/-!
# The operators that compare texts

On two texts the operators `<` and `>` answer by the lexicographic order of their units, which is a
linear order, and `===` answers whether they are the same text. Since the units determine the text,
the operators together are a strict total order of all texts (`BinaryOp.text_order`).
-/

namespace FormulaSheet.BinaryOp

/-- The operator answers yes on two texts. -/
def Holds (op : BinaryOp) (s t : String) : Prop := op.apply (.text s) (.text t) = .boolean true

/-- The operator that holds of texts in an order. -/
def ofOrdering : Ordering → BinaryOp
  | .lt => less
  | .eq => strictEqual
  | .gt => greater

variable {s t : String}

theorem boolean_eq_true_iff {b : Bool} : Value.boolean b = .boolean true ↔ b = true :=
  ⟨Value.boolean.inj, congrArg Value.boolean⟩

theorem holds_less_iff : less.Holds s t ↔ Text.compareUnits s t = .lt := by
  rw [Holds, apply, boolean_eq_true_iff, decide_eq_true_iff]
  exact Option.some_inj

theorem holds_greater_iff : greater.Holds s t ↔ Text.compareUnits s t = .gt := by
  rw [Holds, apply, boolean_eq_true_iff, decide_eq_true_iff]
  exact Option.some_inj

/-- Two texts are the same where their units compare as equal. -/
theorem holds_strictEqual_iff : strictEqual.Holds s t ↔ Text.compareUnits s t = .eq := by
  rw [Holds, apply, boolean_eq_true_iff, Value.strictEquals, Text.compareUnits_eq_eq_iff]
  exact beq_iff_eq

theorem holds_lessEqual_iff :
    lessEqual.Holds s t ↔ Text.compareUnits s t = .lt ∨ Text.compareUnits s t = .eq := by
  rw [Holds, apply, boolean_eq_true_iff, Bool.or_eq_true, decide_eq_true_iff, decide_eq_true_iff]
  exact or_congr Option.some_inj Option.some_inj

theorem holds_iff_eq_ofOrdering {op : BinaryOp} (hop : op ∈ [less, strictEqual, greater]) :
    op.Holds s t ↔ op = ofOrdering (Text.compareUnits s t) := by
  simp only [List.mem_cons, List.not_mem_nil, or_false] at hop
  rcases hop with rfl | rfl | rfl
  · rw [holds_less_iff]
    cases Text.compareUnits s t <;> simp [ofOrdering]
  · rw [holds_strictEqual_iff]
    cases Text.compareUnits s t <;> simp [ofOrdering]
  · rw [holds_greater_iff]
    cases Text.compareUnits s t <;> simp [ofOrdering]

/-- Two texts have one order, and one operator for it. -/
theorem existsUnique_holds (s t : String) :
    ∃! op, op ∈ [less, strictEqual, greater] ∧ op.Holds s t := by
  have hmem : ofOrdering (Text.compareUnits s t) ∈ [less, strictEqual, greater] := by
    cases Text.compareUnits s t <;> decide
  refine ⟨_, ⟨hmem, (holds_iff_eq_ofOrdering hmem).mpr rfl⟩, ?_⟩
  rintro op ⟨hop, hholds⟩
  exact (holds_iff_eq_ofOrdering hop).mp hholds

/-- **Texts are strictly and totally ordered.** Exactly one of `<`, `===` and `>` holds of two
texts, `<` is transitive, `>` is `<` the other way around, `<=` is `<` or `===`, and the order is
the one of the units: where two texts first differ in a character above U+FFFF and one from U+E000
to U+FFFF, the former comes first. -/
theorem text_order (l m r : String) :
    (∃! op, op ∈ [less, strictEqual, greater] ∧ op.Holds l r) ∧
    (less.Holds l m → less.Holds m r → less.Holds l r) ∧
    (greater.Holds l r ↔ less.Holds r l) ∧
    (lessEqual.Holds l r ↔ less.Holds l r ∨ strictEqual.Holds l r) ∧
    (less.Holds l r ↔ Text.units l < Text.units r) ∧
    (∀ (p cs ds : List Char) (c d : Char), l = String.ofList (p ++ c :: cs) →
      r = String.ofList (p ++ d :: ds) →
      0xFFFF < c.toNat → 0xE000 ≤ d.toNat → d.toNat ≤ 0xFFFF → less.Holds l r) := by
  have hless : ∀ {s t : String}, less.Holds s t ↔ Text.units s < Text.units t :=
    holds_less_iff.trans Text.compareUnits_eq_lt_iff
  refine ⟨existsUnique_holds l r, ?_, ?_, ?_, hless, ?_⟩
  · rw [hless, hless, hless]
    exact lt_trans
  · rw [holds_greater_iff, Text.compareUnits_eq_gt_iff, hless]
  · rw [holds_lessEqual_iff, holds_less_iff, holds_strictEqual_iff]
  · rintro p cs ds c d rfl rfl hc hlow hhigh
    exact hless.mpr (Text.units_lt_of_above hc hlow hhigh p cs ds)

/-- The letter `a` comes before a character beyond U+FFFF, and this one before U+FFFF. -/
theorem text_order_beyond :
    less.Holds "a" "😀" ∧ less.Holds "😀" "\uFFFF" ∧ less.Holds "a" "\uFFFF" := by
  have hletter : less.Holds "a" "😀" := holds_less_iff.mpr (by decide)
  have hbeyond : less.Holds "😀" "\uFFFF" :=
    (text_order "😀" "a" "\uFFFF").2.2.2.2.2 [] [] [] '😀' '\uFFFF' rfl rfl (by decide)
      (by decide) (by decide)
  exact ⟨hletter, hbeyond, (text_order "a" "😀" "\uFFFF").2.1 hletter hbeyond⟩

end FormulaSheet.BinaryOp
