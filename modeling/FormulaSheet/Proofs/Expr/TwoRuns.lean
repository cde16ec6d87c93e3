import FormulaSheet.Proofs.Expr.Handles
import FormulaSheet.Proofs.Expr.Nodes

/-!
# Two evaluations of one expression

An expression is evaluated in two environments that may differ in their scopes, registries or
limits. As long as the environments answer the same to what the expression asks them, both
evaluations visit the same nodes and end in the same way (`Env.AgreeOn.evalAt`). The environments
may be known to answer the same only where certain handles come up; so the handles in all values on
the way are followed, too. A name may be known to be read for some of its properties only
(`Expr.Asks`). Errors can be exempt: nothing is said about the second evaluation where the first one
fails with such an error.
-/

namespace FormulaSheet

/-- All handles in the value have a property. -/
def Value.Holds (P : Callable → Prop) (v : Value) : Prop := ∀ c ∈ v.handles, P c

namespace Eval

variable {α β : Type} {exempt : FormulaError → Prop} {P : α → Prop} {Q : β → Prop}

/-- The second evaluation ends as the first one does, and with an answer of which a property holds,
unless the first one fails with an error that is exempt. -/
def Agrees (exempt : FormulaError → Prop) (P : α → Prop) (x y : Eval α) : Prop :=
  ∀ steps, match x steps with
    | .ok (a, rest) => P a ∧ y steps = .ok (a, rest)
    | .error e => exempt e ∨ y steps = .error e

theorem Agrees.pure {a : α} (h : P a) : Agrees exempt P (Pure.pure a) (Pure.pure a) :=
  fun _ => ⟨h, rfl⟩

theorem agrees_self {x : Eval α} (h : ∀ steps a rest, x steps = .ok (a, rest) → P a) :
    Agrees exempt P x x := by
  intro steps
  cases hx : x steps with
  | ok r =>
    obtain ⟨a, rest⟩ := r
    exact ⟨h steps a rest hx, rfl⟩
  | error e => exact Or.inr rfl

theorem bind_ok {x : Eval α} {steps rest : Nat} {a : α} (h : x steps = .ok (a, rest))
    (f : α → Eval β) : (x >>= f) steps = f a rest := by
  show Except.bind (x steps) _ = _
  rw [h]
  rfl

theorem bind_error {x : Eval α} {steps : Nat} {e : FormulaError} (h : x steps = .error e)
    (f : α → Eval β) : (x >>= f) steps = .error e := by
  show Except.bind (x steps) _ = _
  rw [h]
  rfl

theorem Agrees.bind {x y : Eval α} {f g : α → Eval β} (h : Agrees exempt P x y)
    (hfg : ∀ a, P a → Agrees exempt Q (f a) (g a)) : Agrees exempt Q (x >>= f) (y >>= g) := by
  intro steps
  have hx := h steps
  cases hsteps : x steps with
  | ok r =>
    obtain ⟨a, rest⟩ := r
    rw [hsteps] at hx
    obtain ⟨ha, hy⟩ := hx
    rw [bind_ok hsteps, bind_ok hy]
    exact hfg a ha rest
  | error e =>
    rw [hsteps] at hx
    rw [bind_error hsteps]
    rcases hx with hexempt | hy
    · exact Or.inl hexempt
    · exact Or.inr (bind_error hy g)

theorem agrees_ofExcept {r r' : Except FormulaError α} (hr : r' = r) (h : ∀ a, r = .ok a → P a) :
    Agrees exempt P (ofExcept r) (ofExcept r') := by
  rw [hr]
  apply agrees_self
  intro steps a rest hok
  cases r with
  | ok b =>
    cases hok
    exact h a rfl
  | error e => cases hok

end Eval

/-- Two environments answer the same to an expression: to its visits, to the names that have the
property `N`, and to calls of handles that have the property `P`. -/
structure Env.Agree (exempt : FormulaError → Prop) (P : Callable → Prop) (N : String → Prop)
    (env env' : Env) : Prop where
  visit : ∀ depth, Eval.Agrees exempt (fun _ => True) (Eval.visit env.limits depth)
    (Eval.visit env'.limits depth)
  binds : ∀ name, N name → env'.binds name = env.binds name
  lookup : ∀ name, N name → env'.lookup name = env.lookup name
  holds : ∀ name v, N name → env.lookup name = .ok v → v.Holds P
  refused :
    ∀ e v n error, v.Holds P → env.callee e v n = .error error → env'.callee e v n = .error error
  called : ∀ e v n f, v.Holds P → env.callee e v n = .ok f → ∃ f', env'.callee e v n = .ok f' ∧
    ∀ args, (∀ w ∈ args, w.Holds P) → f'.run args = f.run args ∧ ∀ w, f.run args = .ok w → w.Holds P

/-- Every name that stands among some expressions has a property. -/
def NamesIn (N : String → Prop) (es : List Expr) : Prop :=
  ∀ name span, .ident name span ∈ es → N name

theorem NamesIn.mono {N : String → Prop} {es es' : List Expr} (h : NamesIn N es) (hsub : es' ⊆ es) :
    NamesIn N es' :=
  fun name span hmem => h name span (hsub hmem)

/-- The names that stand alone in an expression have the property `N`, and the other ones are only
there for accesses `name.property` that have the property `M`. -/
inductive Expr.Asks (N : String → Prop) (M : String → String → Prop) : Expr → Prop where
  | ident {name : String} {span : Span} (h : N name) : Expr.Asks N M (.ident name span)
  | access {name property : String} {span span' : Span} (h : M name property) :
      Expr.Asks N M (.member (.ident name span) property span')
  | node {e : Expr} (hident : e.ident? = none) (h : ∀ c ∈ e.children, Expr.Asks N M c) :
      Expr.Asks N M e

theorem NamesIn.asks {N : String → Prop} {M : String → String → Prop} {e : Expr}
    (h : NamesIn N e.nodes) : e.Asks N M := by
  induction e using Expr.induction_children with
  | h e ih =>
    have hchildren : ∀ c ∈ e.children, c.Asks N M := by
      intro c hc
      apply ih c hc
      apply h.mono
      apply Expr.nodes_subset
      rw [Expr.nodes_eq, List.mem_cons, List.mem_flatMap]
      exact Or.inr ⟨c, hc, c.self_mem_nodes⟩
    cases e with
    | ident name span => exact .ident (h name span (Expr.self_mem_nodes _))
    | _ => exact .node rfl hchildren

/-- Two environments answer the same to an expression whose accesses may have the property `M`: what
such an access reads are handles that have the property `P`. -/
structure Env.AgreeOn (exempt : FormulaError → Prop) (P : Callable → Prop) (N : String → Prop)
    (M : String → String → Prop) (env env' : Env) : Prop extends Env.Agree exempt P N env env' where
  access : ∀ name property, M name property → env'.lookup name = env.lookup name ∧
    ∀ v w, env.lookup name = .ok v → v.property property = .ok w → w.Holds P

namespace Env.AgreeOn

open FormulaSheet.Expr

variable {exempt : FormulaError → Prop} {P : Callable → Prop} {N : String → Prop}
  {M : String → String → Prop} {env env' : Env}

theorem isUnbound (h : Env.AgreeOn exempt P N M env env') (op : UnaryOp) {e : Expr}
    (hasks : e.Asks N M) : isUnbound env' op e = isUnbound env op e := by
  cases e with
  | ident name span =>
    cases hasks with
    | ident hname => simp only [Expr.isUnbound, h.binds name hname]
    | node hident _ => cases hident
  | _ => rfl

theorem call (h : Env.AgreeOn exempt P N M env env') {e : Expr} {v : Value}
    (hv : v.Holds P) {n : Nat} {args args' : Eval (List Value)}
    (hargs : Eval.Agrees exempt (fun vs => ∀ w ∈ vs, w.Holds P) args args') :
    Eval.Agrees exempt (Value.Holds P)
      (do let f ← Eval.ofExcept (env.callee e v n); Eval.ofExcept (f.run (← args)))
      (do let f ← Eval.ofExcept (env'.callee e v n); Eval.ofExcept (f.run (← args'))) := by
  cases hcallee : env.callee e v n with
  | error error =>
    rw [h.refused e v n error hv hcallee]
    exact fun _ => Or.inr rfl
  | ok f =>
    obtain ⟨f', hcallee', hrun⟩ := h.called e v n f hv hcallee
    rw [hcallee']
    intro steps
    exact (hargs.bind fun vs hvs => Eval.agrees_ofExcept ((hrun vs hvs).1 ▸ rfl) (hrun vs hvs).2)
      steps

/-- What is read by an access to a name of the namespaces. -/
theorem evalAt_access (h : Env.AgreeOn exempt P N M env env') (depth : Nat) {name property : String}
    {span : Span} (haccess : M name property) :
    Eval.Agrees exempt (Value.Holds P)
      (do Eval.ofExcept ((← (Expr.ident name span).evalAt env depth).property property))
      (do Eval.ofExcept ((← (Expr.ident name span).evalAt env' depth).property property)) := by
  obtain ⟨hlookup, hholds⟩ := h.access name property haccess
  have hident : Eval.Agrees exempt (fun v => ∀ w, v.property property = .ok w → w.Holds P)
      ((Expr.ident name span).evalAt env depth) ((Expr.ident name span).evalAt env' depth) := by
    unfold Expr.evalAt
    apply (h.visit depth).bind
    intro _ _
    exact Eval.agrees_ofExcept hlookup fun v hv w => hholds v w hv
  apply hident.bind
  intro v hv
  exact Eval.agrees_ofExcept rfl hv

/-! ### The evaluation of a tree -/

mutual
/-- **Environments that agree on what an expression asks them give it the same result.** -/
theorem evalAt (h : Env.AgreeOn exempt P N M env env') (depth : Nat) (e : Expr)
    (hasks : e.Asks N M) :
    Eval.Agrees exempt (Value.Holds P) (e.evalAt env depth) (e.evalAt env' depth) := by
  have hscalar : ∀ {v : Value}, v.handles = [] → v.Holds P := by
    intro v hv c hc
    rw [hv] at hc
    cases hc
  -- a visit comes first, whatever the expression is
  unfold Expr.evalAt
  apply (h.visit depth).bind
  intro _ _
  match e with
  | .empty | .undefined | .null | .number _ | .text _ | .boolean _ =>
    exact Eval.Agrees.pure (hscalar rfl)
  | .ident name span =>
    cases hasks with
    | ident hname =>
      apply Eval.agrees_ofExcept
      · exact h.lookup name hname
      · exact fun v => h.holds name v hname
    | node hident _ => cases hident
  | .unary op operand =>
    cases hasks with
    | node _ hchildren =>
      have hoperand : operand.Asks N M := hchildren operand (by simp [children])
      dsimp only
      rw [h.isUnbound op hoperand]
      split
      · exact Eval.Agrees.pure (hscalar rfl)
      · apply (evalAt h (depth + 1) operand hoperand).bind
        intro v _
        exact Eval.Agrees.pure (hscalar (Value.handles_unary op))
  | .binary first rest =>
    cases hasks with
    | node _ hchildren =>
      apply (evalAt h (depth + 1) first (hchildren first (by simp [children]))).bind
      intro v hv
      exact evalRun h (depth + 1) v hv rest fun p hp => hchildren p.2 (by
        rw [children]
        exact List.mem_cons_of_mem _ (List.mem_map_of_mem hp))
  | .logical op operands =>
    cases hasks with
    | node _ hchildren =>
      exact evalLogical h (depth + 1) op operands .absent (hscalar rfl) hchildren
  | .conditional test consequent alternate =>
    cases hasks with
    | node _ hchildren =>
      apply (evalAt h (depth + 1) test (hchildren test (by simp [children]))).bind
      intro v _
      split
      · exact evalAt h (depth + 1) consequent (hchildren consequent (by simp [children]))
      · exact evalAt h (depth + 1) alternate (hchildren alternate (by simp [children]))
  | .member target property span =>
    cases hasks with
    | access haccess => exact h.evalAt_access (depth + 1) haccess
    | node _ hchildren =>
      apply (evalAt h (depth + 1) target (hchildren target (by simp [children]))).bind
      intro v hv
      apply Eval.agrees_ofExcept rfl
      intro w hw c hc
      exact hv c (Value.handles_property hw hc)
  | .index target key =>
    cases hasks with
    | node _ hchildren =>
      apply (evalAt h (depth + 1) target (hchildren target (by simp [children]))).bind
      intro v hv
      apply (evalAt h (depth + 1) key (hchildren key (by simp [children]))).bind
      intro k _
      apply Eval.agrees_ofExcept rfl
      intro w hw c hc
      exact hv c (Value.handles_item hw hc)
  | .call callee args =>
    cases hasks with
    | node _ hchildren =>
      apply (evalAt h (depth + 1) callee (hchildren callee (by simp [children]))).bind
      intro v hv
      exact h.call hv (evalList h (depth + 1) args fun a ha => hchildren a (by simp [children, ha]))
  | .array items =>
    cases hasks with
    | node _ hchildren =>
      apply (evalList h (depth + 1) items hchildren).bind
      intro vs hvs
      apply Eval.Agrees.pure
      intro c hc
      obtain ⟨v, hv, hcv⟩ := Value.mem_itemHandles.mp hc
      exact hvs v hv c hcv
  | .object entries =>
    cases hasks with
    | node _ hchildren =>
      apply (evalEntries h (depth + 1) entries [] (fun _ hc => by cases hc)
        fun p hp => hchildren p.2 (List.mem_map_of_mem hp)).bind
      intro fields hfields
      exact Eval.Agrees.pure hfields

theorem evalList (h : Env.AgreeOn exempt P N M env env') (depth : Nat) (es : List Expr)
    (hasks : ∀ e ∈ es, e.Asks N M) :
    Eval.Agrees exempt (fun vs => ∀ w ∈ vs, w.Holds P) (Expr.evalList env depth es)
      (Expr.evalList env' depth es) := by
  match es with
  | [] =>
    unfold Expr.evalList
    exact Eval.Agrees.pure fun _ hw => by cases hw
  | e :: rest =>
    obtain ⟨he, hrest⟩ := List.forall_mem_cons.mp hasks
    unfold Expr.evalList
    apply (evalAt h depth e he).bind
    intro v hv
    apply (evalList h depth rest hrest).bind
    intro vs hvs
    apply Eval.Agrees.pure
    intro w hw
    rcases List.mem_cons.mp hw with rfl | hw
    · exact hv
    · exact hvs w hw

theorem evalRun (h : Env.AgreeOn exempt P N M env env') (depth : Nat) (v : Value) (hv : v.Holds P)
    (rest : List (BinaryOp × Expr)) (hasks : ∀ p ∈ rest, p.2.Asks N M) :
    Eval.Agrees exempt (Value.Holds P) (Expr.evalRun env depth v rest)
      (Expr.evalRun env' depth v rest) := by
  match rest with
  | [] =>
    unfold Expr.evalRun
    exact Eval.Agrees.pure hv
  | (op, e) :: rest =>
    obtain ⟨he, hrest⟩ := List.forall_mem_cons.mp hasks
    unfold Expr.evalRun
    apply (evalAt h depth e he).bind
    intro w _
    have hw : (op.apply v w).Holds P := by
      intro c hc
      rw [Value.handles_binary] at hc
      cases hc
    exact evalRun h depth _ hw rest hrest

theorem evalLogical (h : Env.AgreeOn exempt P N M env env') (depth : Nat) (op : LogicalOp)
    (es : List Expr) (v : Value) (hv : v.Holds P) (hasks : ∀ e ∈ es, e.Asks N M) :
    Eval.Agrees exempt (Value.Holds P) (Expr.evalLogical env depth op es v)
      (Expr.evalLogical env' depth op es v) := by
  match es with
  | [] =>
    unfold Expr.evalLogical
    exact Eval.Agrees.pure hv
  | e :: rest =>
    obtain ⟨he, hrest⟩ := List.forall_mem_cons.mp hasks
    unfold Expr.evalLogical
    apply (evalAt h depth e he).bind
    intro w hw
    split
    · exact Eval.Agrees.pure hw
    · exact evalLogical h depth op rest w hw hrest

theorem evalEntries (h : Env.AgreeOn exempt P N M env env') (depth : Nat)
    (entries : List (EntryKey × Expr)) (fields : Fields Value)
    (hfields : (Value.object fields).Holds P) (hasks : ∀ p ∈ entries, p.2.Asks N M) :
    Eval.Agrees exempt (fun fields => (Value.object fields).Holds P)
      (Expr.evalEntries env depth entries fields)
      (Expr.evalEntries env' depth entries fields) := by
  match entries with
  | [] =>
    unfold Expr.evalEntries
    exact Eval.Agrees.pure hfields
  | (key, e) :: rest =>
    obtain ⟨he, hrest⟩ := List.forall_mem_cons.mp hasks
    unfold Expr.evalEntries
    apply (evalAt h depth e he).bind
    intro v hv
    have hinsert : (Value.object (Fields.insert fields key.name v)).Holds P := by
      intro c hc
      rcases Value.fieldHandles_insert hc with hcv | hcf
      · exact hv c hcv
      · exact hfields c hcf
    exact evalEntries h depth rest _ hinsert hrest
end

/-- Where no errors are exempt, the expression comes to the same result. -/
theorem eval_eq {registry registry' : Registry} {limits limits' : Limits} {scope scope' : Scope}
    {e : Expr}
    (h : Env.AgreeOn (fun _ => False) P N M ⟨registry, limits, scope⟩ ⟨registry', limits', scope'⟩)
    (hasks : e.Asks N M) : e.eval registry' limits' scope' = e.eval registry limits scope := by
  have heval := h.evalAt 0 e hasks 0
  unfold Expr.eval
  cases hresult : e.evalAt ⟨registry, limits, scope⟩ 0 0 with
  | ok a =>
    rw [hresult] at heval
    rw [heval.2]
  | error error =>
    rw [hresult] at heval
    rcases heval with hfalse | herror
    · exact hfalse.elim
    · rw [herror]

end Env.AgreeOn

/-- Where no errors are exempt, an expression whose free names have the property comes to the same
result. -/
theorem Env.Agree.eval_eq {P : Callable → Prop} {N : String → Prop} {registry registry' : Registry}
    {limits limits' : Limits} {scope scope' : Scope} {e : Expr}
    (h : Env.Agree (fun _ => False) P N ⟨registry, limits, scope⟩ ⟨registry', limits', scope'⟩)
    (hnames : ∀ q ∈ e.identifiers, N q.1) :
    e.eval registry' limits' scope' = e.eval registry limits scope := by
  have hon : Env.AgreeOn (fun _ => False) P N (fun _ _ => False) ⟨registry, limits, scope⟩
      ⟨registry', limits', scope'⟩ := ⟨h, fun _ _ hfalse => hfalse.elim⟩
  have hin : NamesIn N e.nodes :=
    fun name span hmem => hnames (name, span) (Expr.mem_identifiers.mpr hmem)
  exact hon.eval_eq hin.asks

end FormulaSheet
