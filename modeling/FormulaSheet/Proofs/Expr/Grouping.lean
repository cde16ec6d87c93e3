import FormulaSheet.Proofs.Expr.Needs

/-!
# Runs and nested operators

A run of operators means what the operators mean when they are nested: a first part of a run of
binary operators can be grouped into a node of its own, and so can any part of a run of a logical
operator. A group is a node more to visit and a level more, so only the limits can tell the two
apart (`Expr.eval_grouped`). Behind the operand that decides a logical run nothing is evaluated.
-/

namespace FormulaSheet

namespace Eval

variable {α β : Type}

/-- Two evaluations come to the same result, whatever each of them needs for it. -/
def Same (x y : Limits → Nat → Eval α) : Prop :=
  ∃ result m k n l, Needs x result m k ∧ Needs y result n l

variable {Q : FormulaError → Prop} {x y : Limits → Nat → Eval α} {f g : α → Limits → Nat → Eval β}

theorem Bounded.same {visits levels : Nat} (h : Bounded Q x visits levels) : Same x x := by
  obtain ⟨result, m, k, hneeds, -⟩ := h
  exact ⟨result, m, k, m, k, hneeds, hneeds⟩

theorem Same.bind (hxy : Same x y) (hfg : ∀ a, Same (f a) (g a)) :
    Same (fun limits depth => x limits depth >>= fun a => f a limits depth)
      (fun limits depth => y limits depth >>= fun a => g a limits depth) := by
  obtain ⟨result, m, k, n, l, hx, hy⟩ := hxy
  cases result with
  | error e => exact ⟨.error e, m, k, n, l, hx.bind_error, hy.bind_error⟩
  | ok a =>
    obtain ⟨result, m', k', n', l', hf, hg⟩ := hfg a
    exact ⟨result, _, _, _, _, hx.bind_ok hf, hy.bind_ok hg⟩

theorem Same.ite (c : Prop) [Decidable c] {x' y' : Limits → Nat → Eval α} (hxy : Same x y)
    (hxy' : Same x' y') : Same (fun limits depth => if c then x limits depth else x' limits depth)
      (fun limits depth => if c then y limits depth else y' limits depth) := by
  by_cases hc : c
  · simpa only [if_pos hc] using hxy
  · simpa only [if_neg hc] using hxy'

theorem Same.visited (h : Same x y) :
    Same (fun limits depth => do Eval.visit limits depth; x limits (depth + 1))
      (fun limits depth => do Eval.visit limits depth; y limits (depth + 1)) := by
  obtain ⟨result, m, k, n, l, hx, hy⟩ := h
  exact ⟨result, _, _, _, _, hx.visited, hy.visited⟩

/-- A visit before one of two evaluations does not show in its result. -/
theorem Same.visited_right (h : Same x y) :
    Same x (fun limits depth => do Eval.visit limits depth; y limits (depth + 1)) := by
  obtain ⟨result, m, k, n, l, hx, hy⟩ := h
  exact ⟨result, _, _, _, _, hx, hy.visited⟩

end Eval

namespace Expr

open Eval

variable {registry : Registry} {scope : Scope}

/-- An evaluation that no limit ends has its result. -/
theorem eval_of_not_refused {e : Expr} {result : Except FormulaError Value} {visits levels : Nat}
    {limits : Limits}
    (h : Needs (fun limits depth => e.evalAt ⟨registry, limits, scope⟩ depth) result visits levels)
    (hrefused : ∀ error, limits.Refuses error → e.eval registry limits scope ≠ .error error) :
    e.eval registry limits scope = result := by
  by_cases hroom : visits ≤ limits.maxSteps ∧ levels ≤ limits.maxDepth
  · exact eval_of_enough h hroom.1 hroom.2
  · obtain ⟨error, hlimit, herror⟩ := eval_of_lacking h hroom
    exact absurd herror (hrefused error hlimit)

/-- Where no limit ends either of them, expressions with the same result are evaluated to the
same. -/
theorem eval_eq_of_same {e e' : Expr} {limits : Limits}
    (h : Same (fun limits depth => e.evalAt ⟨registry, limits, scope⟩ depth)
      (fun limits depth => e'.evalAt ⟨registry, limits, scope⟩ depth))
    (hrefused : ∀ error, limits.Refuses error → e.eval registry limits scope ≠ .error error)
    (hrefused' : ∀ error, limits.Refuses error → e'.eval registry limits scope ≠ .error error) :
    e.eval registry limits scope = e'.eval registry limits scope := by
  obtain ⟨result, m, k, n, l, hneeds, hneeds'⟩ := h
  rw [eval_of_not_refused hneeds hrefused, eval_of_not_refused hneeds' hrefused']

/-! ### Runs -/

theorem evalRun_append (env : Env) (depth : Nat) (v : Value) (xs ys : List (BinaryOp × Expr)) :
    evalRun env depth v (xs ++ ys) = evalRun env depth v xs >>= fun w =>
      evalRun env depth w ys := by
  induction xs generalizing v with
  | nil =>
    rw [List.nil_append, evalRun, pure_bind]
  | cons p xs ih =>
    obtain ⟨op, e⟩ := p
    rw [List.cons_append, evalRun, evalRun, bind_assoc]
    congr 1
    funext w
    exact ih (op.apply v w)

/-- The first operators of a run, grouped. -/
theorem same_binary (first : Expr) (xs ys : List (BinaryOp × Expr)) :
    Same (fun limits depth => (binary first (xs ++ ys)).evalAt ⟨registry, limits, scope⟩ depth)
      (fun limits depth =>
        (binary (binary first xs) ys).evalAt ⟨registry, limits, scope⟩ depth) := by
  have hxs := (bounded_evalAt registry scope first).bind fun v =>
    bounded_evalRun registry scope v xs
  have hbody := hxs.same.visited_right.bind fun w => (bounded_evalRun registry scope w ys).same
  simpa only [evalAt, evalRun_append, bind_assoc] using hbody.visited

/-! ### Logical runs -/

/-- A logical run evaluates its first operands, and the others unless one of these decides. -/
theorem evalLogical_append (env : Env) (depth : Nat) (op : LogicalOp) {ys : List Expr}
    (hys : ys ≠ []) (zs : List Expr) (v v' : Value) :
    evalLogical env depth op (ys ++ zs) v = evalLogical env depth op ys v' >>= fun w =>
      if op.decides w then pure w else evalLogical env depth op zs w := by
  induction ys generalizing v v' with
  | nil => exact absurd rfl hys
  | cons y ys ih =>
    rw [List.cons_append, evalLogical, evalLogical, bind_assoc]
    congr 1
    funext w
    by_cases hdecides : op.decides w = true
    · rw [if_pos hdecides, if_pos hdecides, pure_bind, if_pos hdecides]
    · rw [if_neg hdecides, if_neg hdecides]
      cases ys with
      | nil => rw [evalLogical, pure_bind, if_neg hdecides, List.nil_append]
      | cons y' ys => exact ih (List.cons_ne_nil y' ys) w w

/-- A part of a logical run, grouped. -/
theorem same_logical (op : LogicalOp) (xs : List Expr) {ys : List Expr} (hys : ys ≠ [])
    (zs : List Expr) :
    Same (fun limits depth => (logical op (xs ++ ys ++ zs)).evalAt ⟨registry, limits, scope⟩ depth)
      (fun limits depth =>
        (logical op (xs ++ [logical op ys] ++ zs)).evalAt ⟨registry, limits, scope⟩ depth) := by
  have hrest : ∀ v, Same
      (fun limits depth => evalLogical ⟨registry, limits, scope⟩ depth op (ys ++ zs) v)
      (fun limits depth =>
        evalLogical ⟨registry, limits, scope⟩ depth op (logical op ys :: zs) v) := by
    intro v
    -- the group decides exactly if its own run ends with an operand that does
    have hgroup :=
      (bounded_evalLogical registry scope op ys .absent).same.visited_right.bind fun w =>
        (bounded_pure (Q := fun _ => True) w).same.ite (op.decides w)
          (bounded_evalLogical registry scope op zs w).same
    simp only [evalLogical_append _ _ op hys zs v .absent]
    simpa only [evalLogical, evalAt] using hgroup
  have hrun : ∀ v, Same
      (fun limits depth => evalLogical ⟨registry, limits, scope⟩ depth op (xs ++ (ys ++ zs)) v)
      (fun limits depth =>
        evalLogical ⟨registry, limits, scope⟩ depth op (xs ++ logical op ys :: zs) v) := by
    induction xs with
    | nil => exact hrest
    | cons x xs ih =>
      intro v
      have hcons := (bounded_evalAt registry scope x).same.bind fun w =>
        (bounded_pure (Q := fun _ => True) w).same.ite (op.decides w) (ih w)
      simpa only [List.cons_append, evalLogical] using hcons
  have hbody := (hrun .absent).visited
  simpa only [evalAt, List.append_assoc, List.singleton_append] using hbody

/-- Once an operand decides a logical run, no node behind it is visited. -/
theorem evalAt_logical_of_decides {env : Env} {depth steps visits : Nat} {op : LogicalOp}
    {ys : List Expr} {v : Value} (hys : ys ≠ [])
    (h : (logical op ys).evalAt env depth steps = .ok (v, visits)) (hdecides : op.decides v = true)
    (zs : List Expr) : (logical op (ys ++ zs)).evalAt env depth steps = .ok (v, visits) := by
  unfold evalAt at h ⊢
  cases hvisit : Eval.visit env.limits depth steps with
  | error error =>
    rw [Eval.bind_error hvisit] at h
    cases h
  | ok a =>
    obtain ⟨_, visits'⟩ := a
    rw [Eval.bind_ok hvisit] at h ⊢
    dsimp only at h ⊢
    rw [evalLogical_append env (depth + 1) op hys zs .absent .absent, Eval.bind_ok h,
      if_pos hdecides]
    rfl

/-- **Runs mean what nested operators mean.** A part of a logical run can be grouped, and so can the
first operators of another run: the result is the same wherever no limit ends one of the two
evaluations. Behind the operand that decides a logical run nothing is evaluated. -/
theorem eval_grouped (registry : Registry) (limits : Limits) (scope : Scope) :
    (∀ op xs ys zs, ys ≠ [] →
      (∀ error, limits.Refuses error →
        (logical op (xs ++ ys ++ zs)).eval registry limits scope ≠ .error error ∧
          (logical op (xs ++ [logical op ys] ++ zs)).eval registry limits scope ≠ .error error) →
      (logical op (xs ++ ys ++ zs)).eval registry limits scope =
        (logical op (xs ++ [logical op ys] ++ zs)).eval registry limits scope) ∧
    (∀ first xs ys,
      (∀ error, limits.Refuses error →
        (binary first (xs ++ ys)).eval registry limits scope ≠ .error error ∧
          (binary (binary first xs) ys).eval registry limits scope ≠ .error error) →
      (binary first (xs ++ ys)).eval registry limits scope =
        (binary (binary first xs) ys).eval registry limits scope) ∧
    ∀ op ys zs depth steps v visits, ys ≠ [] →
      (logical op ys).evalAt ⟨registry, limits, scope⟩ depth steps = .ok (v, visits) →
      op.decides v = true →
      (logical op (ys ++ zs)).evalAt ⟨registry, limits, scope⟩ depth steps = .ok (v, visits) := by
  refine ⟨fun op xs ys zs hys hrefused => ?_, fun first xs ys hrefused => ?_, ?_⟩
  · exact eval_eq_of_same (same_logical op xs hys zs)
      (fun error herror => (hrefused error herror).1)
      fun error herror => (hrefused error herror).2
  · exact eval_eq_of_same (same_binary first xs ys) (fun error herror => (hrefused error herror).1)
      fun error herror => (hrefused error herror).2
  · intro op ys zs depth steps v visits hys h hdecides
    exact evalAt_logical_of_decides hys h hdecides zs

/-- The operand that decides stands in the group, and behind it one that would fail. -/
theorem eval_grouped_or :
    (logical .or ([text ""] ++ [null, text "x"] ++ [ident "y" ⟨0, 1⟩])).eval .empty .default [] =
      (logical .or ([text ""] ++ [logical .or [null, text "x"]] ++ [ident "y" ⟨0, 1⟩])).eval
        .empty .default [] ∧
    (binary (text "a") ([(.add, text "b")] ++ [(.strictEqual, text "ab")])).eval
        .empty .default [] =
      (binary (binary (text "a") [(.add, text "b")]) [(.strictEqual, text "ab")]).eval
        .empty .default [] ∧
    (logical .or ([text ""] ++ [null, text "x"] ++ [ident "y" ⟨0, 1⟩])).evalAt
      ⟨.empty, .default, []⟩ 0 0 = .ok (.text "x", 4) := by
  obtain ⟨hlogical, hbinary, hdecides⟩ := eval_grouped .empty .default []
  have hor :
      (logical .or ([text ""] ++ [null, text "x"] ++ [ident "y" ⟨0, 1⟩])).eval .empty .default [] =
      .ok (.text "x") := rfl
  have hor' :
      (logical .or ([text ""] ++ [logical .or [null, text "x"]] ++ [ident "y" ⟨0, 1⟩])).eval
        .empty .default [] = .ok (.text "x") := rfl
  have hadd : (binary (text "a") ([(.add, text "b")] ++ [(.strictEqual, text "ab")])).eval
      .empty .default [] = .ok (.boolean true) := rfl
  have hadd' : (binary (binary (text "a") [(.add, text "b")]) [(.strictEqual, text "ab")]).eval
      .empty .default [] = .ok (.boolean true) := rfl
  refine ⟨hlogical .or [text ""] [null, text "x"] [ident "y" ⟨0, 1⟩] (List.cons_ne_nil _ _) ?_, ?_,
    ?_⟩
  · intro error _
    rw [hor, hor']
    exact ⟨nofun, nofun⟩
  · apply hbinary
    intro error _
    rw [hadd, hadd']
    exact ⟨nofun, nofun⟩
  · exact hdecides .or [text "", null, text "x"] [ident "y" ⟨0, 1⟩] 0 0 (.text "x") 4
      (List.cons_ne_nil _ _) rfl rfl

end Expr

end FormulaSheet
