import FormulaSheet.Proofs.Expr.Errors

/-!
# What an evaluation needs of its limits

An evaluation comes to the same result whatever the limits are, with the same visits of nodes and on
the same levels. Where the limits have room for these visits and levels it ends with this result,
and where they have not, with the error of a limit (`Eval.Needs`). The visits are at most as many as
the expression has nodes, and the levels at most as many as it is high (`Expr.bounded_evalAt`).
-/

namespace FormulaSheet

/-- The error with which one of the limits ends an evaluation. -/
inductive Limits.Refuses (limits : Limits) : FormulaError → Prop where
  | steps : Limits.Refuses limits (.stepBudgetExceeded limits.maxSteps)
  | depth : Limits.Refuses limits (.depthExceeded limits.maxDepth)

namespace Eval

variable {α β : Type}

/-- The evaluation needs a number of visits and a number of levels to come to its result, and ends
with the error of a limit where there is no room for them. -/
structure Needs (x : Limits → Nat → Eval α) (result : Except FormulaError α)
    (visits levels : Nat) : Prop where
  enough :
    ∀ {limits depth steps}, steps + visits ≤ limits.maxSteps → depth + levels ≤ limits.maxDepth →
    x limits depth steps = result.map fun a => (a, steps + visits)
  lacking : ∀ {limits depth steps}, steps ≤ limits.maxSteps → depth ≤ limits.maxDepth →
    limits.maxSteps < steps + visits ∨ limits.maxDepth < depth + levels →
    ∃ e, limits.Refuses e ∧ x limits depth steps = .error e

section Needs

variable {x : Limits → Nat → Eval α} {f : α → Limits → Nat → Eval β}
    {result : Except FormulaError α}
  {m n k l : Nat}

theorem needs_ofExcept (r : Except FormulaError α) : Needs (fun _ _ => ofExcept r) r 0 0 where
  enough := by
    intro limits depth steps _ _
    cases r <;> rfl
  lacking := by
    intro limits depth steps hsteps hdepth h
    omega

theorem Needs.bind_ok {a : α} {result : Except FormulaError β} (hx : Needs x (.ok a) m k)
    (hf : Needs (f a) result n l) :
    Needs (fun limits depth => x limits depth >>= fun a => f a limits depth) result (m + n)
      (max k l) where
  enough := by
    intro limits depth steps hsteps hdepth
    have hok : x limits depth steps = .ok (a, steps + m) := hx.enough (by omega) (by omega)
    rw [Eval.bind_ok hok, hf.enough (by omega) (by omega), Nat.add_assoc]
  lacking := by
    intro limits depth steps hsteps hdepth h
    by_cases hroom : steps + m ≤ limits.maxSteps ∧ depth + k ≤ limits.maxDepth
    · -- the first part ends, so it is the second one that lacks room
      have hlacks : limits.maxSteps < steps + m + n ∨ limits.maxDepth < depth + l := by omega
      obtain ⟨e, he, hlacking⟩ := hf.lacking hroom.1 hdepth hlacks
      refine ⟨e, he, ?_⟩
      rw [Eval.bind_ok (hx.enough hroom.1 hroom.2)]
      exact hlacking
    · obtain ⟨e, he, hlacking⟩ := hx.lacking hsteps hdepth (by omega)
      exact ⟨e, he, bind_error hlacking _⟩

theorem Needs.bind_error {e : FormulaError} (hx : Needs x (.error e) m k) :
    Needs (fun limits depth => x limits depth >>= fun a => f a limits depth) (.error e) m k where
  enough := by
    intro limits depth steps hsteps hdepth
    exact Eval.bind_error (hx.enough hsteps hdepth) _
  lacking := by
    intro limits depth steps hsteps hdepth h
    obtain ⟨e, he, hlacking⟩ := hx.lacking hsteps hdepth h
    exact ⟨e, he, Eval.bind_error hlacking _⟩

/-- A visit of a node, and what is evaluated below it. -/
theorem Needs.visited (hx : Needs x result n k) :
    Needs (fun limits depth => do Eval.visit limits depth; x limits (depth + 1)) result (n + 1)
      (k + 1) where
  enough := by
    intro limits depth steps hsteps hdepth
    have hvisit : Eval.visit limits depth steps = .ok ((), steps + 1) := by
      rw [visit, if_neg (by omega), if_neg (by omega)]
    rw [Eval.bind_ok hvisit, hx.enough (by omega) (by omega), Nat.add_right_comm, Nat.add_assoc]
  lacking := by
    intro limits depth steps hsteps hdepth h
    by_cases hmax : limits.maxSteps < steps + 1
    · refine ⟨_, .steps, Eval.bind_error ?_ _⟩
      rw [visit, if_pos hmax]
    by_cases hdeep : limits.maxDepth ≤ depth
    · refine ⟨_, .depth, Eval.bind_error ?_ _⟩
      rw [visit, if_neg hmax, if_pos hdeep]
    have hvisit : Eval.visit limits depth steps = .ok ((), steps + 1) := by
      rw [visit, if_neg hmax, if_neg hdeep]
    rw [Eval.bind_ok hvisit]
    exact hx.lacking (by omega) (by omega) (by omega)

end Needs

/-- The evaluation needs no more than the visits and the levels, and if it fails, its error has a
property. -/
def Bounded (Q : FormulaError → Prop) (x : Limits → Nat → Eval α) (visits levels : Nat) : Prop :=
  ∃ result n k, Needs x result n k ∧ n ≤ visits ∧ k ≤ levels ∧ ∀ e, result = .error e → Q e

section Bounded

variable {Q : FormulaError → Prop} {x : Limits → Nat → Eval α} {f : α → Limits → Nat → Eval β}
  {m n k l : Nat}

theorem bounded_ofExcept {r : Except FormulaError α} (h : ∀ e, r = .error e → Q e) :
    Bounded Q (fun _ _ => ofExcept r) 0 0 :=
  ⟨r, 0, 0, needs_ofExcept r, Nat.le_refl 0, Nat.le_refl 0, h⟩

theorem bounded_pure (a : α) : Bounded Q (fun _ _ => pure a) 0 0 :=
  bounded_ofExcept (r := .ok a) fun _ => nofun

theorem Bounded.mono (h : Bounded Q x m k) (hvisits : m ≤ n) (hlevels : k ≤ l) :
    Bounded Q x n l := by
  obtain ⟨result, m', k', hneeds, hm, hk, hQ⟩ := h
  exact ⟨result, m', k', hneeds, Nat.le_trans hm hvisits, Nat.le_trans hk hlevels, hQ⟩

theorem Bounded.bind (hx : Bounded Q x m k) (hf : ∀ a, Bounded Q (f a) n l) :
    Bounded Q (fun limits depth => x limits depth >>= fun a => f a limits depth) (m + n)
      (max k l) := by
  obtain ⟨result, m', k', hneeds, hm, hk, hQ⟩ := hx
  cases result with
  | error e =>
    refine ⟨.error e, m', k', hneeds.bind_error, by omega, by omega, ?_⟩
    rintro _ ⟨⟩
    exact hQ e rfl
  | ok a =>
    obtain ⟨result, n', l', hneeds', hn, hl, hQ'⟩ := hf a
    exact ⟨result, m' + n', max k' l', hneeds.bind_ok hneeds', by omega, by omega, hQ'⟩

theorem Bounded.ite (c : Prop) [Decidable c] {y : Limits → Nat → Eval α} (hx : Bounded Q x m k)
    (hy : Bounded Q y n l) :
    Bounded Q (fun limits depth => if c then x limits depth else y limits depth) (max m n)
      (max k l) := by
  by_cases hc : c
  · simp only [if_pos hc]
    exact hx.mono (Nat.le_max_left m n) (Nat.le_max_left k l)
  · simp only [if_neg hc]
    exact hy.mono (Nat.le_max_right m n) (Nat.le_max_right k l)

theorem Bounded.visited (h : Bounded Q x n k) :
    Bounded Q (fun limits depth => do Eval.visit limits depth; x limits (depth + 1))
      (n + 1) (k + 1) := by
  obtain ⟨result, n', k', hneeds, hn, hk, hQ⟩ := h
  exact ⟨result, n' + 1, k' + 1, hneeds.visited, by omega, by omega, hQ⟩

end Bounded

end Eval

/-- A function of the registry answers the error to some arguments. -/
def Registry.Answers (registry : Registry) (error : FormulaError) : Prop :=
  ∃ space name f args, registry.get? space name = some f ∧ f.run args = .error error

/-- An error that an evaluation can end with where no limit ends it. -/
def Registry.Raises (registry : Registry) (error : FormulaError) : Prop :=
  (∀ limits : Limits, ¬ limits.Refuses error) ∨ registry.Answers error

namespace Expr

open Eval

variable {registry : Registry} (scope : Scope)

section Steps

theorem raises_of_lookup {limits : Limits} {name : String} {error : FormulaError}
    (h : Env.lookup ⟨registry, limits, scope⟩ name = .error error) : registry.Raises error := by
  unfold Env.lookup at h
  split at h
  · cases h
  · split at h
    · cases h
    · cases h
      exact Or.inl fun _ => nofun

theorem raises_of_property {v : Value} {name : String} {error : FormulaError}
    (h : v.property name = .error error) : registry.Raises error := by
  obtain ⟨ofNull, rfl⟩ := Value.error_of_property h
  exact Or.inl fun _ => nofun

theorem raises_of_item {v key : Value} {error : FormulaError} (h : v.item key = .error error) :
    registry.Raises error := by
  obtain ⟨ofNull, name, rfl⟩ := Value.error_of_item h
  exact Or.inl fun _ => nofun

/-- The arguments of a call are evaluated if there is a function to call. -/
theorem bounded_call (e : Expr) (v : Value) (count : Nat) {args : Limits → Nat → Eval (List Value)}
    {n k : Nat} (hargs : Bounded registry.Raises args n k) :
    Bounded registry.Raises (fun limits depth => do
      let f ← Eval.ofExcept (Env.callee ⟨registry, limits, scope⟩ e v count)
      Eval.ofExcept (f.run (← args limits depth))) n k := by
  -- which function is called does not depend on the limits
  cases hcallee : Env.callee ⟨registry, .default, scope⟩ e v count with
  | error error =>
    have hraises : registry.Raises error := by
      rcases Env.error_of_callee hcallee with ⟨name, rfl⟩ | ⟨name, arity, rfl⟩ <;>
        exact Or.inl fun _ => nofun
    have herror : Bounded registry.Raises (fun _ _ => Eval.ofExcept (.error error)) 0 0 :=
      bounded_ofExcept (α := Value) fun _ h => by cases h; exact hraises
    have hstops : ∀ limits, Env.callee ⟨registry, limits, scope⟩ e v count = .error error :=
      fun _ => hcallee
    simp only [hstops]
    exact herror.mono (Nat.zero_le n) (Nat.zero_le k)
  | ok f =>
    obtain ⟨space, name, hget⟩ := Env.get?_of_callee hcallee
    have hfound : ∀ limits, Env.callee ⟨registry, limits, scope⟩ e v count = .ok f :=
      fun _ => hcallee
    simp only [hfound]
    have hrun := hargs.bind fun vs => bounded_ofExcept (r := f.run vs) fun error herror =>
      Or.inr ⟨space, name, f, vs, hget, herror⟩
    exact hrun.mono (Nat.le_refl n) (by omega)

/-- Whether the operand of a `typeof` is bound does not depend on the limits. -/
theorem isUnbound_limits (limits : Limits) (op : UnaryOp) (e : Expr) :
    isUnbound ⟨registry, limits, scope⟩ op e = isUnbound ⟨registry, .default, scope⟩ op e := by
  cases e <;> rfl

end Steps

variable (registry)

mutual
/-- **An evaluation needs at most a visit of every node, and at most the height of the
expression.** -/
theorem bounded_evalAt (e : Expr) :
    Bounded registry.Raises (fun limits depth => e.evalAt ⟨registry, limits, scope⟩ depth)
    e.nodes.length
      e.height := by
  -- a visit comes first, whatever the expression is
  unfold Expr.evalAt
  match e with
  | .empty | .undefined | .null | .number _ | .text _ | .boolean _ => exact (bounded_pure _).visited
  | .ident name span =>
    -- what the name is read as does not depend on the limits
    have hraises : ∀ error, Env.lookup ⟨registry, .default, scope⟩ name = .error error →
        registry.Raises error :=
      fun _ => raises_of_lookup scope
    exact (bounded_ofExcept hraises).visited
  | .unary op operand =>
    simp only [isUnbound_limits scope]
    have hoperand := (bounded_evalAt operand).bind fun v => bounded_pure (op.apply v)
    have hbody :=
      (bounded_pure (Value.text "undefined")).ite (isUnbound ⟨registry, .default, scope⟩ op operand)
      hoperand
    exact hbody.visited.mono (by simp [nodes]) (by simp [height])
  | .binary first rest =>
    have hbody := (bounded_evalAt first).bind fun v => bounded_evalRun v rest
    exact hbody.visited.mono (by simp [nodes]) (by simp [height])
  | .logical op operands =>
    exact (bounded_evalLogical op operands .absent).visited.mono (by simp [nodes])
      (by simp [height])
  | .conditional test consequent alternate =>
    have hbody := (bounded_evalAt test).bind fun v =>
      (bounded_evalAt consequent).ite v.isTruthy (bounded_evalAt alternate)
    have hnodes : test.nodes.length + max consequent.nodes.length alternate.nodes.length + 1 ≤
        (Expr.conditional test consequent alternate).nodes.length := by
      simp only [nodes, List.length_cons, List.length_append]
      omega
    exact hbody.visited.mono hnodes (by simp [height])
  | .member target property span =>
    have hbody := (bounded_evalAt target).bind fun v =>
      bounded_ofExcept fun error (h : v.property property = _) => raises_of_property h
    exact hbody.visited.mono (by simp [nodes]) (by simp [height])
  | .index target key =>
    have hbody := (bounded_evalAt target).bind fun v => (bounded_evalAt key).bind fun k =>
      bounded_ofExcept fun error (h : v.item k = _) => raises_of_item h
    exact hbody.visited.mono (by simp [nodes]) (by simp [height])
  | .call callee args =>
    have hbody := (bounded_evalAt callee).bind fun v =>
      bounded_call scope callee v args.length (bounded_evalList args)
    exact hbody.visited.mono (by simp [nodes]) (by simp [height])
  | .array items =>
    have hbody := (bounded_evalList items).bind fun vs => bounded_pure (Value.array vs)
    exact hbody.visited.mono (by simp [nodes]) (by simp [height])
  | .object entries =>
    have hbody := (bounded_evalEntries entries []).bind fun fields =>
      bounded_pure (Value.object fields)
    exact hbody.visited.mono (by simp [nodes]) (by simp [height])

theorem bounded_evalList (es : List Expr) :
    Bounded registry.Raises (fun limits depth => evalList ⟨registry, limits, scope⟩ depth es)
      (listNodes es).length (listHeight es) := by
  unfold Expr.evalList
  match es with
  | [] => exact bounded_pure []
  | e :: rest =>
    have hbody := (bounded_evalAt e).bind fun v => (bounded_evalList rest).bind fun vs =>
      bounded_pure (v :: vs)
    exact hbody.mono (by simp [listNodes]) (by simp [listHeight])

theorem bounded_evalRun (v : Value) (rest : List (BinaryOp × Expr)) :
    Bounded registry.Raises (fun limits depth => evalRun ⟨registry, limits, scope⟩ depth v rest)
      (runNodes rest).length (runHeight rest) := by
  unfold Expr.evalRun
  match rest with
  | [] => exact bounded_pure v
  | (op, e) :: rest =>
    have hbody := (bounded_evalAt e).bind fun w => bounded_evalRun (op.apply v w) rest
    exact hbody.mono (by simp [runNodes]) (by simp [runHeight])

theorem bounded_evalLogical (op : LogicalOp) (es : List Expr) (v : Value) :
    Bounded registry.Raises
      (fun limits depth => evalLogical ⟨registry, limits, scope⟩ depth op es v)
      (listNodes es).length (listHeight es) := by
  unfold Expr.evalLogical
  match es with
  | [] => exact bounded_pure v
  | e :: rest =>
    have hbody := (bounded_evalAt e).bind fun w =>
      (bounded_pure w).ite (op.decides w) (bounded_evalLogical op rest w)
    exact hbody.mono (by simp [listNodes]) (by simp [listHeight])

theorem bounded_evalEntries (entries : List (EntryKey × Expr)) (fields : Fields Value) :
    Bounded registry.Raises
      (fun limits depth => evalEntries ⟨registry, limits, scope⟩ depth entries fields)
      (entryNodes entries).length (entryHeight entries) := by
  unfold Expr.evalEntries
  match entries with
  | [] => exact bounded_pure fields
  | (key, e) :: rest =>
    have hbody := (bounded_evalAt e).bind fun v =>
      bounded_evalEntries rest (Fields.insert fields key.name v)
    exact hbody.mono (by simp [entryNodes]) (by simp [entryHeight])
end

/-! ### Whole evaluations -/

variable {registry scope}
variable {limits : Limits} {e : Expr} {result : Except FormulaError Value} {visits levels : Nat}

theorem eval_of_evalAt {error : FormulaError}
    (h : e.evalAt ⟨registry, limits, scope⟩ 0 0 = .error error) :
    e.eval registry limits scope = .error error := by
  rw [Expr.eval, h]
  rfl

/-- Where there is room for what an evaluation needs, the limits do not show in its result. -/
theorem eval_of_enough
    (h : Needs (fun limits depth => e.evalAt ⟨registry, limits, scope⟩ depth) result visits levels)
    (hvisits : visits ≤ limits.maxSteps) (hlevels : levels ≤ limits.maxDepth) :
    e.eval registry limits scope = result := by
  have hevalAt : e.evalAt ⟨registry, limits, scope⟩ 0 0 = result.map fun v => (v, 0 + visits) :=
    h.enough (by omega) (by omega)
  rw [Expr.eval, hevalAt]
  cases result <;> rfl

theorem eval_of_lacking
    (h : Needs (fun limits depth => e.evalAt ⟨registry, limits, scope⟩ depth) result visits levels)
    (hroom : ¬ (visits ≤ limits.maxSteps ∧ levels ≤ limits.maxDepth)) :
    ∃ error, limits.Refuses error ∧ e.eval registry limits scope = .error error := by
  have hlacks : limits.maxSteps < 0 + visits ∨ limits.maxDepth < 0 + levels := by omega
  obtain ⟨error, herror, hevalAt⟩ := h.lacking (Nat.zero_le _) (Nat.zero_le _) hlacks
  exact ⟨error, herror, eval_of_evalAt hevalAt⟩

end Expr

end FormulaSheet
