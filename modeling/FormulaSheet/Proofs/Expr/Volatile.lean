import FormulaSheet.Engine
import FormulaSheet.Proofs.Expr.Confinement

/-!
# What the check for volatile functions reports

An engine reports an expression as volatile if a volatile function is called in it as a member of
its namespace. An expression that comes to the same result in whatever way the volatile functions
are run is steady (`Registry.Steady`). So one that is not reported is steady as long as it has no
other way to a volatile function (`Expr.Direct`). But a namespace is an object, and a key reads its
functions just as well: every volatile function can be called without being reported
(`Engine.isVolatile_misses_keys`).
-/

namespace FormulaSheet

namespace Registry

variable {r r' : Registry} {space name : String}

/-- There is a volatile function of this name. -/
def hasVolatile (r : Registry) (space name : String) : Bool :=
  ((r.get? space name).map Builtin.volatile).getD false

theorem hasVolatile_of_get? {f : Builtin} (h : r.get? space name = some f) :
    r.hasVolatile space name = f.volatile := by
  rw [hasVolatile, h]
  rfl

/-- The registries have the same volatile functions, and run the other ones in the same way. -/
def SameUpToVolatile (r r' : Registry) : Prop :=
  ∀ space name f f', r.get? space name = some f → r'.get? space name = some f' →
    f'.volatile = f.volatile ∧ (f.volatile = false → ∀ args, f'.run args = f.run args)

/-- The expression comes to the same result with every registry that has the same functions, in
whatever way it runs the volatile ones. -/
def Steady (r : Registry) (e : Expr) : Prop :=
  ∀ r' : Registry, r'.signature = r.signature → r.SameUpToVolatile r' →
    ∀ (limits : Limits) (scope : Scope), (∀ q ∈ scope, q.2.handles = []) →
      e.eval r' limits scope = e.eval r limits scope

/-- What is read of a namespace under a name has no handle but that of the function of this name. -/
theorem Filed.eq_of_property (hr : r.Filed) {v w : Value} (hv : r.spaceValue? space = some v)
    (hw : v.property name = .ok w) {c : Callable} (hc : c ∈ w.handles) : c = ⟨space, name⟩ := by
  obtain ⟨functions, hfunctions, rfl⟩ := Option.map_eq_some_iff.mp hv
  have hmap := Fields.get?_map functions (fun f : Builtin => Value.callable ⟨f.space, f.name⟩) name
  rw [Value.property, hmap, Except.ok.injEq] at hw
  subst hw
  cases hget : Fields.get? functions name with
  | none =>
    rw [hget] at hc
    cases hc
  | some f =>
    rw [hget] at hc
    obtain rfl := List.mem_singleton.mp hc
    have hfiled : f.space = space ∧ f.name = name :=
      hr.of_get? (by rw [get?, hfunctions]; exact hget)
    rw [hfiled.1, hfiled.2]

/-- Registries that are the same up to their volatile functions make the same environment where no
handle of a volatile function comes up. -/
theorem agreeOn_of_sameUpToVolatile (hfiled : r.Filed) (hplain : r.Plain)
    (hsignature : r'.signature = r.signature) (hsame : r.SameUpToVolatile r') (limits : Limits)
    {scope : Scope} (hscope : ∀ q ∈ scope, q.2.handles = []) :
    Env.AgreeOn (fun _ => False) (fun c => r.hasVolatile c.space c.name = false)
      (fun space => ∀ name, r.hasVolatile space name = false)
      (fun space name => r.hasVolatile space name = false) ⟨r, limits, scope⟩
      ⟨r', limits, scope⟩ where
  toAgree := by
    apply Env.agree_of_signature hplain hsignature limits hscope
    · intro space v hspace hv c hc
      rw [hfiled.space_of_handle hv hc]
      exact hspace c.name
    · intro c f f' n hvolatile hf hf' _
      rw [hasVolatile_of_get? hf] at hvolatile
      exact (hsame c.space c.name f f' hf hf').2 hvolatile
  access := by
    intro space name hname
    refine ⟨Env.lookup_congr hsignature limits scope space, fun v w hv hw c hc => ?_⟩
    rcases Env.lookup_cases hscope hv with hnone | hv
    · have hc' := Value.handles_property hw hc
      rw [hnone] at hc'
      cases hc'
    · rw [hfiled.eq_of_property hv hw hc]
      exact hname

/-- A registry with another implementation of a volatile function is the same up to its volatile
functions. -/
theorem sameUpToVolatile_withRun {f : Builtin} (hget : r.get? space name = some f)
    (hvolatile : f.volatile = true) (run : List Value → Except FormulaError Value) :
    r.SameUpToVolatile (r.withRun space name run) := by
  intro space' name' g g' hg hg'
  rw [get?_withRun] at hg'
  split at hg'
  · rename_i heq
    rw [heq.1, heq.2, hget, Option.some.injEq] at hg
    subst hg
    rw [heq.1, heq.2, hget, Option.map_some, Option.some.injEq] at hg'
    subst hg'
    refine ⟨rfl, fun hsteady => ?_⟩
    rw [hvolatile] at hsteady
    cases hsteady
  · rw [hg, Option.some.injEq] at hg'
    subst hg'
    exact ⟨rfl, fun _ _ => rfl⟩

/-- What a key reads out of a namespace can be called, so a call of a volatile function is not
steady. -/
theorem not_steady_keyCall (hfiled : r.Filed) {f : Builtin} {n : Nat}
    (hget : r.get? space name = some f) (hvolatile : f.volatile = true)
    (harity : f.arityFault? n = none) : ¬ r.Steady (Policy.keyCall space name n) := by
  intro h
  have hsame := sameUpToVolatile_withRun hget hvolatile (Policy.contrary f.run)
  have heval :=
    h _ (r.signature_withRun space name (Policy.contrary f.run)) hsame ⟨3, n + 4⟩ [] (by simp)
  exact Policy.eval_keyCall_withRun_ne hfiled hget harity heval

end Registry

/-- An expression has no other way to a volatile function than to call it as a member of its
namespace. -/
inductive Expr.Direct (r : Registry) : Expr → Prop where
  | ident {space : String} {span : Span} (h : ∀ name, r.hasVolatile space name = false) :
      Expr.Direct r (.ident space span)
  | access {space name : String} {span span' : Span} (h : r.hasVolatile space name = false) :
      Expr.Direct r (.member (.ident space span) name span')
  | call {space name : String} {span span' : Span} {args : List Expr}
      (h : ∀ a ∈ args, Expr.Direct r a) :
      Expr.Direct r (.call (.member (.ident space span) name span') args)
  | node {e : Expr} (hident : e.ident? = none) (h : ∀ c ∈ e.children, Expr.Direct r c) :
      Expr.Direct r e

namespace Engine

variable {eng : Engine} {e : Expr}

theorem isVolatile_eq (eng : Engine) (e : Expr) :
    eng.isVolatile e = (eng.callsVolatile e || e.children.any eng.isVolatile) := by
  rw [isVolatile, Expr.nodes_eq, List.any_cons, List.any_flatMap]
  rfl

theorem isVolatile_child (h : eng.isVolatile e = false) {c : Expr} (hc : c ∈ e.children) :
    eng.isVolatile c = false := by
  rw [isVolatile_eq, Bool.or_eq_false_iff, List.any_eq_false] at h
  exact Bool.eq_false_iff.mpr (h.2 c hc)

/-- A direct expression that is not reported reads no volatile function. -/
theorem asks_of_direct (he : e.Direct eng.registry) (h : eng.isVolatile e = false) :
    e.Asks (fun space => ∀ name, eng.registry.hasVolatile space name = false)
      (fun space name => eng.registry.hasVolatile space name = false) := by
  induction he with
  | ident hspace => exact .ident hspace
  | access hname => exact .access hname
  | call _ ih =>
    rename_i space name span span' args _
    have hname : eng.registry.hasVolatile space name = false := by
      rw [isVolatile_eq, Bool.or_eq_false_iff] at h
      exact h.1
    refine .node rfl fun c hc => ?_
    rcases List.mem_cons.mp hc with rfl | harg
    · exact .access hname
    · exact ih c harg (isVolatile_child h hc)
  | node hident _ ih => exact .node hident fun c hc => ih c hc (isVolatile_child h hc)

theorem isVolatile_keyCall (eng : Engine) (space name : String) (count : Nat) :
    eng.isVolatile (Policy.keyCall space name count) = false := by
  have hargs : (List.replicate count Expr.null).any eng.isVolatile = false := by
    rw [List.any_eq_false]
    intro a ha
    rw [List.eq_of_mem_replicate ha]
    exact Bool.false_ne_true
  rw [isVolatile_eq, Policy.keyCall, Expr.children, List.any_cons, hargs]
  rfl

/-- Without volatile functions that can be called, every expression is steady. -/
theorem steady_of_none (hplain : eng.registry.Plain)
    (hnone : ∀ space name f n, eng.registry.get? space name = some f → f.arityFault? n = none →
      f.volatile = false)
    (e : Expr) : eng.registry.Steady e := by
  intro r' hsignature hsame limits scope hscope
  have hagree :
      Env.Agree (fun _ => False) (fun _ => True) (fun _ => True) ⟨eng.registry, limits, scope⟩
        ⟨r', limits, scope⟩ := by
    apply Env.agree_of_signature hplain hsignature limits hscope
    · exact fun _ _ _ _ _ _ => trivial
    · intro c f f' n _ hf hf' harity
      exact (hsame c.space c.name f f' hf hf').2 (hnone c.space c.name f n hf harity)
  exact hagree.eval_eq fun _ _ => trivial

/-- **What it means that an expression is not reported as volatile.** It is steady if it has no
other way to a volatile function than calls of members. But any volatile function can be read out of
its namespace by a key, and its call is then neither reported nor steady. So all that is not
reported is steady only if there are no volatile functions to call. -/
theorem isVolatile_misses_keys (eng : Engine) (hfiled : eng.registry.Filed)
    (hplain : eng.registry.Plain) :
    (∀ e : Expr, e.Direct eng.registry → eng.isVolatile e = false → eng.registry.Steady e) ∧
    (∀ space name f n, eng.registry.get? space name = some f → f.arityFault? n = none →
      f.volatile = true → eng.isVolatile (Policy.keyCall space name n) = false ∧
        ¬ eng.registry.Steady (Policy.keyCall space name n)) ∧
    ((∀ e : Expr, eng.isVolatile e = false → eng.registry.Steady e) ↔
      ∀ space name f n, eng.registry.get? space name = some f → f.arityFault? n = none →
        f.volatile = false) := by
  have hkey : ∀ space name f n, eng.registry.get? space name = some f → f.arityFault? n = none →
      f.volatile = true → eng.isVolatile (Policy.keyCall space name n) = false ∧
        ¬ eng.registry.Steady (Policy.keyCall space name n) := by
    intro space name f n hget harity hvolatile
    exact ⟨isVolatile_keyCall eng space name n,
      Registry.not_steady_keyCall hfiled hget hvolatile harity⟩
  refine ⟨?_, hkey, ?_, ?_⟩
  · intro e hdirect hquiet r' hsignature hsame limits scope hscope
    have hagree := Registry.agreeOn_of_sameUpToVolatile hfiled hplain hsignature hsame limits hscope
    exact hagree.eval_eq (asks_of_direct hdirect hquiet)
  · intro hsound space name f n hget harity
    rw [Bool.eq_false_iff]
    intro hvolatile
    obtain ⟨hquiet, hnot⟩ := hkey space name f n hget harity hvolatile
    exact hnot (hsound _ hquiet)
  · exact fun hnone e _ => steady_of_none hplain hnone e

/-- A call of `Math.max` is steady, but one of `Math['random']` is not. -/
theorem isVolatile_misses_random :
    ∃ eng : Engine, eng.registry = Registry.builtins ⟨0, 0⟩ ∧
      eng.registry.Steady (.call (.member (.ident "Math" ⟨0, 4⟩) "max" ⟨5, 8⟩) [.null]) ∧
      eng.isVolatile (Policy.keyCall "Math" "random" 0) = false ∧
      ¬ eng.registry.Steady (Policy.keyCall "Math" "random" 0) := by
  set eng : Engine := ⟨Policy.default, Registry.builtins ⟨0, 0⟩, Limits.default⟩
  obtain ⟨hsteady, hkey, -⟩ := isVolatile_misses_keys eng (Registry.filed_builtins ⟨0, 0⟩)
    (Registry.plain_builtins ⟨0, 0⟩)
  refine ⟨eng, rfl, hsteady _ (.call fun a ha => ?_) rfl, hkey "Math" "random" _ 0 rfl rfl rfl⟩
  obtain rfl := List.mem_singleton.mp ha
  exact .node rfl fun _ hc => by cases hc

end Engine

end FormulaSheet
