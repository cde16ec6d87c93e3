import FormulaSheet.Proofs.Expr.Offenses
import FormulaSheet.Proofs.Expr.TwoRuns

/-!
# What an expression reads of its scope

Two scopes with the same entries for the free names of an expression are the same to its evaluation,
short circuits, `typeof` and errors included. So an expression without offenses reads nothing that
the policy denies (`Expr.eval_reads_identifiers`).
-/

namespace FormulaSheet

/-- Scopes with the same entries for some names make the same environment as far as
these names are asked for. -/
theorem Env.agree_of_scopes (registry : Registry) (limits : Limits) {N : String → Prop}
    {scope scope' : Scope} (h : ∀ name, N name → Fields.get? scope' name = Fields.get? scope name) :
    Env.Agree (fun _ => False) (fun _ => True) N ⟨registry, limits, scope⟩
      ⟨registry, limits, scope'⟩ where
  visit := fun depth => Eval.agrees_self fun _ _ _ _ => trivial
  binds := by
    intro name hname
    rw [Env.binds, Env.binds, Fields.contains, Fields.contains, h name hname]
  lookup := by
    intro name hname
    rw [Env.lookup, Env.lookup, h name hname]
  holds := fun _ _ _ _ _ _ => trivial
  refused := fun _ _ _ _ _ herror => herror
  called := fun _ _ _ f _ hcallee => ⟨f, hcallee, fun _ _ => ⟨rfl, fun _ _ _ _ => trivial⟩⟩

namespace Expr

/-- **An expression reads its free names only.** Its result, a value or an error, is the same
in scopes that have the same entries for them; without offenses, it is the same in scopes
that differ in denied names. -/
theorem eval_reads_identifiers (e : Expr) (registry : Registry) (limits : Limits) :
    (∀ scope scope' : Scope, (∀ q ∈ e.identifiers, Fields.get? scope' q.1 = Fields.get? scope q.1) →
      e.eval registry limits scope' = e.eval registry limits scope) ∧
    ∀ p : Policy, e.offenses p = [] → ∀ scope scope' : Scope,
      (∀ name, p.isDenied name = false → Fields.get? scope' name = Fields.get? scope name) →
      e.eval registry limits scope' = e.eval registry limits scope := by
  have hreads : ∀ scope scope' : Scope,
      (∀ q ∈ e.identifiers, Fields.get? scope' q.1 = Fields.get? scope q.1) →
      e.eval registry limits scope' = e.eval registry limits scope := by
    intro scope scope' hscopes
    have hnames : ∀ name, (∃ q ∈ e.identifiers, q.1 = name) →
        Fields.get? scope' name = Fields.get? scope name := by
      rintro name ⟨q, hq, rfl⟩
      exact hscopes q hq
    exact (Env.agree_of_scopes registry limits hnames).eval_eq fun q hq => ⟨q, hq, rfl⟩
  refine ⟨hreads, fun p hclean scope scope' hscopes => hreads scope scope' fun q hq => ?_⟩
  exact hscopes q.1 ((offenses_eq_nil_iff.mp hclean).1 q hq)

/-- A name without a value and one with a value, beside an entry for a denied name. -/
theorem eval_beside_denied_entry : ∃ e : Expr, e.identifiers.map Prod.fst = ["x", "a"] ∧
    e.offenses Policy.default = [] ∧
    (∀ q ∈ e.identifiers, Fields.get? [("eval", .null), ("a", .text "b")] q.1 =
      Fields.get? [("a", Value.text "b")] q.1) ∧
    (∀ name, Policy.default.isDenied name = false →
      Fields.get? [("eval", .null), ("a", .text "b")] name =
      Fields.get? [("a", Value.text "b")] name) ∧
    e.eval Registry.empty Limits.default [("eval", .null), ("a", .text "b")] =
      e.eval Registry.empty Limits.default [("a", .text "b")] := by
  have hentry : ∀ name, name ≠ "eval" → Fields.get? [("eval", .null), ("a", .text "b")] name =
      Fields.get? [("a", Value.text "b")] name := by
    intro name hname
    rw [Fields.get?_cons, if_neg hname]
  set e := binary (unary .typeOf (ident "x" ⟨7, 8⟩)) [(.add, ident "a" ⟨11, 12⟩)] with he
  have hclean : e.offenses Policy.default = [] := by decide +kernel
  have hnames : ∀ q ∈ e.identifiers, q.1 ≠ "eval" := by decide +kernel
  have hallowed : ∀ name, Policy.default.isDenied name = false →
      Fields.get? [("eval", .null), ("a", .text "b")] name =
      Fields.get? [("a", Value.text "b")] name := by
    refine fun name hname => hentry name fun heval => ?_
    rw [heval] at hname
    exact absurd hname (by decide +kernel)
  refine ⟨e, rfl, hclean, fun q hq => hentry q.1 (hnames q hq), hallowed, ?_⟩
  exact (e.eval_reads_identifiers Registry.empty Limits.default).2 Policy.default
    hclean _ _ hallowed

end Expr

end FormulaSheet
