import FormulaSheet.Proofs.Expr.TwoRuns

/-!
# How an evaluation fails

An evaluation fails with an error of a visit, of a name that is looked up, of a property that is
read of nothing, of a call that is refused, or of a function that is called, and with no other one
(`Env.Errs.evalAt`). The builtin functions only ever find an argument invalid
(`Registry.refuses_builtins`). So the name of a failed lookup is one that the scope and the registry
do not have (`Expr.not_undefinedName`).
-/

namespace FormulaSheet

namespace Eval

variable {α β : Type} {Q : FormulaError → Prop}

/-- Every error of the evaluation has a property. -/
def Errs (Q : FormulaError → Prop) (x : Eval α) : Prop := ∀ steps e, x steps = .error e → Q e

theorem errs_pure (a : α) : Errs Q (Pure.pure a) := fun _ _ h => by cases h

theorem errs_ofExcept {r : Except FormulaError α} (h : ∀ e, r = .error e → Q e) :
    Errs Q (ofExcept r) := by
  intro steps e he
  cases r with
  | ok a => cases he
  | error e' =>
    cases he
    exact h e rfl

theorem errs_ofExcept_bind {r : Except FormulaError α} {f : α → Eval β}
    (h : ∀ e, r = .error e → Q e) (hf : ∀ a, r = .ok a → Errs Q (f a)) :
    Errs Q (ofExcept r >>= f) := by
  intro steps e he
  cases r with
  | ok a =>
    rw [bind_ok (a := a) rfl] at he
    exact hf a rfl steps e he
  | error e' =>
    rw [bind_error (e := e') rfl] at he
    cases he
    exact h e rfl

theorem Errs.bind {x : Eval α} {f : α → Eval β} (hx : Errs Q x) (hf : ∀ a, Errs Q (f a)) :
    Errs Q (x >>= f) := by
  intro steps e he
  cases hsteps : x steps with
  | ok r =>
    obtain ⟨a, rest⟩ := r
    rw [bind_ok hsteps] at he
    exact hf a rest e he
  | error e' =>
    rw [bind_error hsteps] at he
    cases he
    exact hx steps e hsteps

end Eval

/-- The errors that an environment can give to an expression have a property; of names, those with
the property `N` may be looked up. -/
structure Env.Errs (Q : FormulaError → Prop) (N : String → Prop) (env : Env) : Prop where
  visit : ∀ depth, Eval.Errs Q (Eval.visit env.limits depth)
  lookup : ∀ name e, N name → env.lookup name = .error e → Q e
  property : ∀ ofNull name, Q (.propertyOfNothing ofNull name)
  refused : ∀ e v n error, env.callee e v n = .error error → Q error
  called : ∀ e v n f args error, env.callee e v n = .ok f → f.run args = .error error → Q error

/-- A property can only be missing because there is nothing to have it. -/
theorem Value.error_of_property {v : Value} {name : String} {e : FormulaError}
    (h : v.property name = .error e) : ∃ ofNull, e = .propertyOfNothing ofNull name := by
  cases v with
  | absent =>
    cases h
    exact ⟨false, rfl⟩
  | null =>
    cases h
    exact ⟨true, rfl⟩
  | _ => cases h

theorem Value.error_of_item {v key : Value} {e : FormulaError} (h : v.item key = .error e) :
    ∃ ofNull name, e = .propertyOfNothing ofNull name := by
  unfold item at h
  split at h
  · cases h
  · cases h
  · obtain ⟨ofNull, he⟩ := error_of_property h
    exact ⟨ofNull, key.toText, he⟩

namespace Env.Errs

open FormulaSheet.Expr

variable {Q : FormulaError → Prop} {N : String → Prop} {env : Env}

theorem errs_property (h : env.Errs Q N) (v : Value) (name : String) :
    Eval.Errs Q (Eval.ofExcept (v.property name)) := by
  apply Eval.errs_ofExcept
  intro e he
  obtain ⟨ofNull, rfl⟩ := Value.error_of_property he
  exact h.property ofNull name

theorem errs_item (h : env.Errs Q N) (v key : Value) :
    Eval.Errs Q (Eval.ofExcept (v.item key)) := by
  apply Eval.errs_ofExcept
  intro e he
  obtain ⟨ofNull, name, rfl⟩ := Value.error_of_item he
  exact h.property ofNull name

theorem errs_call (h : env.Errs Q N) (e : Expr) (v : Value) (n : Nat) {args : Eval (List Value)}
    (hargs : Eval.Errs Q args) :
    Eval.Errs Q (do let f ← Eval.ofExcept (env.callee e v n); Eval.ofExcept (f.run (← args))) := by
  apply Eval.errs_ofExcept_bind (h.refused e v n)
  intro f hf
  apply hargs.bind
  intro vs
  exact Eval.errs_ofExcept fun error => h.called e v n f vs error hf

mutual
/-- **An expression fails only as its environment lets it fail.** -/
theorem evalAt (h : env.Errs Q N) (depth : Nat) (e : Expr) (hnames : NamesIn N e.nodes) :
    Eval.Errs Q (e.evalAt env depth) := by
  -- a visit comes first, whatever the expression is
  unfold Expr.evalAt
  apply (h.visit depth).bind
  intro _
  match e with
  | .empty | .undefined | .null | .number _ | .text _ | .boolean _ =>
    exact Eval.errs_pure _
  | .ident name span =>
    have hname : N name := hnames name span (by simp [nodes])
    exact Eval.errs_ofExcept fun e => h.lookup name e hname
  | .unary op operand =>
    dsimp only
    split
    · exact Eval.errs_pure _
    · apply (evalAt h (depth + 1) operand (hnames.mono (by simp [nodes]))).bind
      intro v
      exact Eval.errs_pure _
  | .binary first rest =>
    apply (evalAt h (depth + 1) first (hnames.mono (by simp [nodes]))).bind
    intro v
    exact evalRun h (depth + 1) v rest (hnames.mono (by simp [nodes]))
  | .logical op operands =>
    exact evalLogical h (depth + 1) op operands .absent (hnames.mono (by simp [nodes]))
  | .conditional test consequent alternate =>
    apply (evalAt h (depth + 1) test (hnames.mono (by simp [nodes]))).bind
    intro v
    split
    · exact evalAt h (depth + 1) consequent (hnames.mono fun _ hmem => by simp [nodes, hmem])
    · exact evalAt h (depth + 1) alternate (hnames.mono fun _ hmem => by simp [nodes, hmem])
  | .member target property span =>
    apply (evalAt h (depth + 1) target (hnames.mono (by simp [nodes]))).bind
    intro v
    exact h.errs_property v property
  | .index target key =>
    apply (evalAt h (depth + 1) target (hnames.mono (by simp [nodes]))).bind
    intro v
    apply (evalAt h (depth + 1) key (hnames.mono (by simp [nodes]))).bind
    intro k
    exact h.errs_item v k
  | .call callee args =>
    apply (evalAt h (depth + 1) callee (hnames.mono (by simp [nodes]))).bind
    intro v
    exact h.errs_call callee v args.length
      (evalList h (depth + 1) args (hnames.mono (by simp [nodes])))
  | .array items =>
    apply (evalList h (depth + 1) items (hnames.mono (by simp [nodes]))).bind
    intro vs
    exact Eval.errs_pure _
  | .object entries =>
    apply (evalEntries h (depth + 1) entries [] (hnames.mono (by simp [nodes]))).bind
    intro fields
    exact Eval.errs_pure _

theorem evalList (h : env.Errs Q N) (depth : Nat) (es : List Expr)
    (hnames : NamesIn N (listNodes es)) : Eval.Errs Q (Expr.evalList env depth es) := by
  match es with
  | [] =>
    unfold Expr.evalList
    exact Eval.errs_pure _
  | e :: rest =>
    unfold Expr.evalList
    apply (evalAt h depth e (hnames.mono (by simp [listNodes]))).bind
    intro v
    apply (evalList h depth rest (hnames.mono (by simp [listNodes]))).bind
    intro vs
    exact Eval.errs_pure _

theorem evalRun (h : env.Errs Q N) (depth : Nat) (v : Value) (rest : List (BinaryOp × Expr))
    (hnames : NamesIn N (runNodes rest)) : Eval.Errs Q (Expr.evalRun env depth v rest) := by
  match rest with
  | [] =>
    unfold Expr.evalRun
    exact Eval.errs_pure _
  | (op, e) :: rest =>
    unfold Expr.evalRun
    apply (evalAt h depth e (hnames.mono (by simp [runNodes]))).bind
    intro w
    exact evalRun h depth (op.apply v w) rest (hnames.mono (by simp [runNodes]))

theorem evalLogical (h : env.Errs Q N) (depth : Nat) (op : LogicalOp) (es : List Expr) (v : Value)
    (hnames : NamesIn N (listNodes es)) : Eval.Errs Q (Expr.evalLogical env depth op es v) := by
  match es with
  | [] =>
    unfold Expr.evalLogical
    exact Eval.errs_pure _
  | e :: rest =>
    unfold Expr.evalLogical
    apply (evalAt h depth e (hnames.mono (by simp [listNodes]))).bind
    intro w
    split
    · exact Eval.errs_pure _
    · exact evalLogical h depth op rest w (hnames.mono (by simp [listNodes]))

theorem evalEntries (h : env.Errs Q N) (depth : Nat) (entries : List (EntryKey × Expr))
    (fields : Fields Value) (hnames : NamesIn N (entryNodes entries)) :
    Eval.Errs Q (Expr.evalEntries env depth entries fields) := by
  match entries with
  | [] =>
    unfold Expr.evalEntries
    exact Eval.errs_pure _
  | (key, e) :: rest =>
    unfold Expr.evalEntries
    apply (evalAt h depth e (hnames.mono (by simp [entryNodes]))).bind
    intro v
    exact evalEntries h depth rest (Fields.insert fields key.name v)
      (hnames.mono (by simp [entryNodes]))
end

theorem eval {registry : Registry} {limits : Limits} {scope : Scope} {e : Expr}
    {error : FormulaError} (h : Env.Errs Q N ⟨registry, limits, scope⟩)
    (hnames : ∀ q ∈ e.identifiers, N q.1) (heval : e.eval registry limits scope = .error error) :
    Q error := by
  have herrs := h.evalAt 0 e fun name span hmem => hnames (name, span) (mem_identifiers.mpr hmem)
  unfold Expr.eval at heval
  cases hresult : e.evalAt ⟨registry, limits, scope⟩ 0 0 with
  | ok a =>
    rw [hresult] at heval
    cases heval
  | error error' =>
    rw [hresult] at heval
    cases heval
    exact herrs 0 error hresult

end Env.Errs

/-! ### Functions -/

/-- The function fails only because it finds an argument invalid. -/
def Builtin.Refuses (f : Builtin) : Prop :=
  ∀ args e, f.run args = .error e → ∃ message, e = .invalidArgument message

namespace Builtin

theorem refuses_math (ambient : Ambient) : ∀ f ∈ Math.functions ambient, f.Refuses := by
  intro f hf args e he
  simp only [Math.functions, List.mem_cons, List.not_mem_nil, or_false] at hf
  rcases hf with rfl | rfl | rfl | rfl | rfl | rfl | rfl | rfl | rfl | rfl | rfl | rfl |
    rfl | rfl | rfl | rfl | rfl | rfl <;> cases he

theorem refuses_number : ∀ f ∈ Number.functions, f.Refuses := by
  intro f hf args e he
  simp only [Number.functions, List.mem_cons, List.not_mem_nil, or_false] at hf
  rcases hf with rfl | rfl | rfl | rfl | rfl <;> cases he

theorem error_of_codePoints {args : List Value} {e : FormulaError}
    (h : args.mapM Text.codePoint = .error e) : ∃ message, e = .invalidArgument message := by
  induction args with
  | nil => cases h
  | cons v rest ih =>
    rw [List.mapM_cons] at h
    cases hpoint : Text.codePoint v with
    | error e' =>
      rw [hpoint] at h
      cases h
      unfold Text.codePoint at hpoint
      dsimp only at hpoint
      split at hpoint
      · cases hpoint
      · cases hpoint
        exact ⟨_, rfl⟩
    | ok c =>
      cases hrest : rest.mapM Text.codePoint with
      | error e' =>
        rw [hpoint, hrest] at h
        cases h
        exact ih hrest
      | ok cs =>
        rw [hpoint, hrest] at h
        cases h

theorem refuses_text : ∀ f ∈ Text.functions, f.Refuses := by
  intro f hf args e he
  simp only [Text.functions, List.mem_cons, List.not_mem_nil, or_false] at hf
  rcases hf with rfl | rfl | rfl
  · cases he
  · cases hpoints : args.mapM Text.codePoint with
    | error e' =>
      simp only [Text.fromCodePoint, hpoints] at he
      cases he
      exact error_of_codePoints hpoints
    | ok cs =>
      simp only [Text.fromCodePoint, hpoints] at he
      cases he
  · cases he

theorem refuses_date (ambient : Ambient) : ∀ f ∈ Date.functions ambient, f.Refuses := by
  intro f hf args e he
  simp only [Date.functions, List.mem_cons, List.not_mem_nil, or_false] at hf
  rcases hf with rfl | rfl | rfl | rfl | rfl | rfl | rfl | rfl | rfl
  case' inr.inr.inr.inl =>
    simp only [Date.ofInstant, Date.toISOString] at he
    split at he
  all_goals cases he
  exact ⟨_, rfl⟩

theorem refuses_json : ∀ f ∈ Json.functions, f.Refuses := by
  intro f hf args e he
  simp only [Json.functions, List.mem_cons, List.not_mem_nil, or_false] at hf
  rcases hf with rfl | rfl
  · simp only [Json.parse] at he
    split at he
    · cases he
    · cases he
      exact ⟨_, rfl⟩
  · simp only [Json.stringify] at he
    split at he <;> cases he

end Builtin

/-- **Builtin functions fail only because they find an argument invalid.** -/
theorem Registry.refuses_builtins {ambient : Builtin.Ambient} {space name : String} {f : Builtin}
    (h : (Registry.builtins ambient).get? space name = some f) : f.Refuses := by
  have hf := mem_of_get?_ofList h
  simp only [Builtin.all, List.mem_append] at hf
  rcases hf with (((hf | hf) | hf) | hf) | hf
  · exact Builtin.refuses_math ambient f hf
  · exact Builtin.refuses_number f hf
  · exact Builtin.refuses_text f hf
  · exact Builtin.refuses_date ambient f hf
  · exact Builtin.refuses_json f hf

/-! ### Names -/

namespace Env

variable {env : Env} {e : Expr} {v : Value} {n : Nat}

theorem error_of_callee {error : FormulaError} (h : env.callee e v n = .error error) :
    (∃ name, error = .notCallable name) ∨ ∃ name arity, error = .argumentCount name arity n := by
  unfold callee at h
  split at h
  · split at h
    · cases h
      exact Or.inl ⟨_, rfl⟩
    · split at h
      · cases h
        exact Or.inr ⟨_, _, rfl⟩
      · cases h
  · cases h
    exact Or.inl ⟨_, rfl⟩

theorem get?_of_callee {f : Builtin} (h : env.callee e v n = .ok f) :
    ∃ space name, env.registry.get? space name = some f := by
  unfold callee at h
  split at h
  · rename_i c
    split at h
    · cases h
    · rename_i f' hget
      split at h
      · cases h
      · cases h
        exact ⟨c.space, c.name, hget⟩
  · cases h

theorem error_of_lookup {name : String} {error : FormulaError}
    (h : env.lookup name = .error error) : env.binds name = false := by
  unfold lookup at h
  split at h
  · cases h
  · rename_i hscope
    split at h
    · cases h
    · rename_i hspace
      rw [Registry.spaceValue?, Option.map_eq_none_iff] at hspace
      simp [binds, Registry.hasSpace, Fields.contains, hscope, hspace]

theorem error_of_visit {limits : Limits} {depth steps : Nat} {error : FormulaError}
    (h : Eval.visit limits depth steps = .error error) :
    error = .stepBudgetExceeded limits.maxSteps ∨ error = .depthExceeded limits.maxDepth := by
  unfold Eval.visit at h
  split at h
  · cases h
    exact Or.inl rfl
  · split at h
    · cases h
      exact Or.inr rfl
    · cases h

end Env

/-- **An expression does not fail on a name where its environment binds all names that occur in
it**, and the functions fail only on their arguments. -/
theorem Expr.not_undefinedName {registry : Registry} {limits : Limits} {scope : Scope} {e : Expr}
    {error : FormulaError}
    (hfunctions : ∀ space name f, registry.get? space name = some f → f.Refuses)
    (hbinds : ∀ q ∈ e.identifiers, Env.binds ⟨registry, limits, scope⟩ q.1 = true)
    (heval : e.eval registry limits scope = .error error) (name : String) :
    error ≠ .undefinedName name := by
  have herrs : Env.Errs (fun error => error ≠ .undefinedName name)
      (fun n => Env.binds ⟨registry, limits, scope⟩ n = true) ⟨registry, limits, scope⟩ := by
    constructor
    case visit =>
      intro depth steps error' h
      rcases Env.error_of_visit h with rfl | rfl <;> exact FormulaError.noConfusion
    case lookup =>
      intro n error' hn h
      rw [Env.error_of_lookup h] at hn
      cases hn
    case property => exact fun _ _ => FormulaError.noConfusion
    case refused =>
      intro e' v n error' h
      rcases Env.error_of_callee h with ⟨s, rfl⟩ | ⟨s, arity, rfl⟩ <;>
        exact FormulaError.noConfusion
    case called =>
      intro e' v n f args error' hf h
      obtain ⟨space, s, hget⟩ := Env.get?_of_callee hf
      obtain ⟨message, rfl⟩ := hfunctions space s f hget args error' h
      exact FormulaError.noConfusion
  exact herrs.eval hbinds heval

end FormulaSheet
