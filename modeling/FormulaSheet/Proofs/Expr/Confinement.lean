import FormulaSheet.Proofs.Expr.Offenses
import FormulaSheet.Proofs.Expr.TwoRuns

/-!
# What the check of an expression confines

A policy confines the evaluation of expressions if an expression without offenses cannot tell apart
two registries that differ in functions the policy does not allow (`Policy.Confines`). The check
looks at property accesses, but a namespace is an object, and its functions can be read out of it by
a key just as well. So all functions of a namespace whose name is not denied are within reach, and a
policy confines evaluation exactly if it allows them all (`Policy.confines_iff`).
-/

namespace FormulaSheet

/-- What a registry shows of a function without calling it. -/
structure Signature where
  space : String
  name : String
  minArgs : Nat
  maxArgs? : Option Nat

def Builtin.signature (f : Builtin) : Signature := ⟨f.space, f.name, f.minArgs, f.maxArgs?⟩

theorem Builtin.arityFault?_congr {f f' : Builtin} (h : f'.signature = f.signature) (n : Nat) :
    f'.arityFault? n = f.arityFault? n := by
  simp only [signature, Signature.mk.injEq] at h
  simp only [arityFault?, h.2.2.1, h.2.2.2]

namespace Registry

variable {r r' : Registry} {space name : String}

def signatures (fs : Fields Builtin) : Fields Signature := fs.map fun p => (p.1, p.2.signature)

/-- The functions of a registry in their order, without what they do. -/
def signature (r : Registry) : Fields (Fields Signature) :=
  r.spaces.map fun q => (q.1, signatures q.2)

theorem get?_signature (r : Registry) (space : String) :
    Fields.get? r.signature space = (Fields.get? r.spaces space).map signatures :=
  Fields.get?_map r.spaces signatures space

theorem map_signature_get? (r : Registry) (space name : String) :
    (r.get? space name).map Builtin.signature =
      (Fields.get? r.signature space).bind fun fs => Fields.get? fs name := by
  rw [get?_signature, get?]
  cases Fields.get? r.spaces space with
  | none => rfl
  | some fs => exact (Fields.get?_map fs Builtin.signature name).symm

theorem hasSpace_congr (h : r'.signature = r.signature) (name : String) :
    r'.hasSpace name = r.hasSpace name := by
  have hspace : ∀ r : Registry, r.hasSpace name = (Fields.get? r.signature name).isSome := by
    intro r
    rw [get?_signature, Option.isSome_map]
    rfl
  rw [hspace r', hspace r, h]

theorem spaceValue?_congr (h : r'.signature = r.signature) (name : String) :
    r'.spaceValue? name = r.spaceValue? name := by
  have hvalue : ∀ r : Registry, r.spaceValue? name = (Fields.get? r.signature name).map fun fs =>
      .object (fs.map fun p => (p.1, .callable ⟨p.2.space, p.2.name⟩)) := by
    intro r
    rw [get?_signature, spaceValue?, Option.map_map]
    congr 1
    funext fs
    simp only [Function.comp_apply, signatures, List.map_map]
    rfl
  rw [hvalue r', hvalue r, h]

theorem get?_congr (h : r'.signature = r.signature) (space name : String) :
    (r'.get? space name).map Builtin.signature = (r.get? space name).map Builtin.signature := by
  rw [map_signature_get?, map_signature_get?, h]

/-- The handles that a namespace holds are those of its own functions. -/
theorem Filed.space_of_handle (hr : r.Filed) {v : Value} (hv : r.spaceValue? name = some v)
    {c : Callable} (hc : c ∈ v.handles) : c.space = name := by
  obtain ⟨functions, hfunctions, rfl⟩ := Option.map_eq_some_iff.mp hv
  obtain ⟨q, hq, hcq⟩ := Value.mem_fieldHandles.mp hc
  obtain ⟨p, hp, rfl⟩ := List.mem_map.mp hq
  rw [List.mem_singleton.mp hcq]
  exact (hr _ (Fields.mem_of_get? hfunctions) p hp).1

/-- The registry with another implementation of one function. -/
def withRun (r : Registry) (space name : String) (run : List Value → Except FormulaError Value) :
    Registry :=
  ⟨Fields.modify r.spaces space fun fs => Fields.modify fs name fun f => { f with run := run }⟩

theorem signature_withRun (r : Registry) (space name : String)
    (run : List Value → Except FormulaError Value) :
    (r.withRun space name run).signature = r.signature := by
  simp only [signature, signatures, withRun, Fields.modify, List.map_map]
  apply List.map_congr_left
  intro q _
  rw [Function.comp_apply]
  split
  · rw [List.map_map]
    refine congrArg (Prod.mk q.1) (List.map_congr_left fun p _ => ?_)
    rw [Function.comp_apply]
    split <;> rfl
  · rfl

theorem get?_withRun (r : Registry) (space name : String)
    (run : List Value → Except FormulaError Value) (space' name' : String) :
    (r.withRun space name run).get? space' name' =
      if space' = space ∧ name' = name then (r.get? space' name').map fun f => { f with run := run }
      else r.get? space' name' := by
  simp only [get?, withRun, Fields.get?_modify]
  by_cases hspace : space' = space
  · rw [if_pos hspace]
    cases Fields.get? r.spaces space' with
    | none => simp
    | some fs =>
      rw [Option.map_some, Option.bind_some, Option.bind_some, Fields.get?_modify]
      by_cases hname : name' = name <;> simp [hspace, hname]
  · rw [if_neg hspace, if_neg fun h => hspace h.1]

theorem Filed.withRun (h : r.Filed) (space name : String)
    (run : List Value → Except FormulaError Value) : (r.withRun space name run).Filed := by
  intro q hq p hp
  obtain ⟨q₀, hq₀, rfl⟩ := List.mem_map.mp hq
  split at hp
  · obtain ⟨p₀, hp₀, rfl⟩ := List.mem_map.mp hp
    have hfiled := h q₀ hq₀ p₀ hp₀
    split <;> exact hfiled
  · rename_i hne
    rw [if_neg hne]
    exact h q₀ hq₀ p hp

end Registry

theorem Env.lookup_congr {r r' : Registry} (h : r'.signature = r.signature) (limits : Limits)
    (scope : Scope) (name : String) :
    (Env.mk r' limits scope).lookup name = (Env.mk r limits scope).lookup name := by
  simp only [Env.lookup, Registry.spaceValue?_congr h]

/-- In a scope without handles, a name with handles is that of a namespace. -/
theorem Env.lookup_cases {r : Registry} {limits : Limits} {scope : Scope}
    (hscope : ∀ q ∈ scope, q.2.handles = []) {name : String} {v : Value}
    (h : (Env.mk r limits scope).lookup name = .ok v) :
    v.handles = [] ∨ r.spaceValue? name = some v := by
  simp only [Env.lookup] at h
  split at h
  · rename_i w hw
    cases h
    exact Or.inl (hscope _ (Fields.mem_of_get? hw))
  · split at h
    · rename_i w hw
      cases h
      exact Or.inr hw
    · cases h

/-- What a value is called as depends on the signature of the registry, up to what the function
does. -/
theorem Env.callee_cases {r r' : Registry} (h : r'.signature = r.signature) (limits : Limits)
    (scope : Scope) (e : Expr) (v : Value) (n : Nat) :
    (∃ error, (Env.mk r limits scope).callee e v n = .error error ∧
      (Env.mk r' limits scope).callee e v n = .error error) ∨
    ∃ c f f', v = .callable c ∧ r.get? c.space c.name = some f ∧ r'.get? c.space c.name = some f' ∧
      f.arityFault? n = none ∧ (Env.mk r limits scope).callee e v n = .ok f ∧
      (Env.mk r' limits scope).callee e v n = .ok f' := by
  cases v with
  | callable c =>
    have hget := Registry.get?_congr h c.space c.name
    simp only [Env.callee]
    cases hf : r.get? c.space c.name with
    | none =>
      rw [hf, Option.map_none, Option.map_eq_none_iff] at hget
      left
      exact ⟨_, rfl, by rw [hget]⟩
    | some f =>
      rw [hf, Option.map_some, Option.map_eq_some_iff] at hget
      obtain ⟨f', hf', hsignature⟩ := hget
      have harity := Builtin.arityFault?_congr hsignature n
      cases hfault : f.arityFault? n with
      | some arity =>
        left
        refine ⟨.argumentCount c.qualifiedName arity n, ?_, ?_⟩
        · simp only [hfault]
        · simp only [hf', harity, hfault]
      | none =>
        right
        refine ⟨c, f, f', rfl, hf, hf', hfault, ?_, ?_⟩
        · simp only [hfault]
        · simp only [hf', harity, hfault]
  | _ =>
    left
    exact ⟨_, rfl, rfl⟩

/-- Registries with the same functions make the same environment where the handles that come up are
those of functions that both registries run in the same way. -/
theorem Env.agree_of_signature {r r' : Registry} {P : Callable → Prop} {N : String → Prop}
    (hplain : r.Plain) (hsignature : r'.signature = r.signature) (limits : Limits) {scope : Scope}
    (hscope : ∀ q ∈ scope, q.2.handles = [])
    (hspace : ∀ name v, N name → r.spaceValue? name = some v → v.Holds P)
    (hrun : ∀ c f f' n, P c → r.get? c.space c.name = some f → r'.get? c.space c.name = some f' →
      f.arityFault? n = none → ∀ args, f'.run args = f.run args) :
    Env.Agree (fun _ => False) P N ⟨r, limits, scope⟩ ⟨r', limits, scope⟩ where
  visit := fun depth => Eval.agrees_self fun _ _ _ _ => trivial
  binds := by
    intro name _
    simp only [Env.binds, Registry.hasSpace_congr hsignature]
  lookup := by
    intro name _
    exact Env.lookup_congr hsignature limits scope name
  holds := by
    intro name v hname hv
    rcases Env.lookup_cases hscope hv with hnone | hv
    · intro c hc
      rw [hnone] at hc
      cases hc
    · exact hspace name v hname hv
  refused := by
    intro e v n error _ herror
    rcases Env.callee_cases hsignature limits scope e v n with ⟨error', h, h'⟩ |
        ⟨c, f, f', -, -, -, -, h, -⟩
    · rw [h] at herror
      rw [h', ← herror]
    · rw [h] at herror
      cases herror
  called := by
    intro e v n f hv hcallee
    rcases Env.callee_cases hsignature limits scope e v n with
      ⟨error, h, -⟩ | ⟨c, g, f', rfl, hg, hf', harity, h, h'⟩
    · rw [h] at hcallee
      cases hcallee
    · rw [h, Except.ok.injEq] at hcallee
      subst hcallee
      refine ⟨f', h', ?_⟩
      intro args hargs
      constructor
      · exact hrun c g f' n (hv c (List.mem_singleton_self c)) hg hf' harity args
      · intro w hw d hd
        obtain ⟨u, hu, hdu⟩ := Value.mem_itemHandles.mp (hplain c.space c.name g hg args w hw hd)
        exact hargs u hu d hdu

namespace Policy

variable {p : Policy} {r r' : Registry}

/-- The registries run the same functions where the policy allows them. -/
def SameAllowed (p : Policy) (r r' : Registry) : Prop :=
  ∀ space name f f', p.isAllowed space name = true → r.get? space name = some f →
    r'.get? space name = some f' → ∀ args, f'.run args = f.run args

/-- An expression without offenses comes to the same result with every registry that has the same
functions and runs those that the policy allows in the same way. -/
def Confines (p : Policy) (r : Registry) : Prop :=
  ∀ r' : Registry, r'.signature = r.signature → p.SameAllowed r r' →
    ∀ (limits : Limits) (scope : Scope) (e : Expr), (∀ q ∈ scope, q.2.handles = []) →
    e.offenses p = [] →
      e.eval r' limits scope = e.eval r limits scope

/-! ### What is confined -/

/-- What an expression without offenses names is not denied, and functions of such namespaces are
allowed. -/
theorem agree_of_allowed (hfiled : r.Filed) (hplain : r.Plain)
    (hallowed : ∀ space name f n, r.get? space name = some f → f.arityFault? n = none →
      p.isDenied space = false → p.isAllowed space name = true)
    (hsignature : r'.signature = r.signature) (hsame : p.SameAllowed r r') (limits : Limits)
    {scope : Scope} (hscope : ∀ q ∈ scope, q.2.handles = []) :
    Env.Agree (fun _ => False) (fun c => p.isDenied c.space = false)
      (fun name => p.isDenied name = false) ⟨r, limits, scope⟩ ⟨r', limits, scope⟩ := by
  apply Env.agree_of_signature hplain hsignature limits hscope
  · intro name v hname hv c hc
    rw [hfiled.space_of_handle hv hc]
    exact hname
  · intro c f f' n hdenied hf hf' harity
    exact hsame c.space c.name f f' (hallowed c.space c.name f n hf harity hdenied) hf hf'

theorem confines_of_allowed (hfiled : r.Filed) (hplain : r.Plain)
    (hallowed : ∀ space name f n, r.get? space name = some f → f.arityFault? n = none →
      p.isDenied space = false → p.isAllowed space name = true) : p.Confines r := by
  intro r' hsignature hsame limits scope e hscope hoffenses
  have hagree := agree_of_allowed hfiled hplain hallowed hsignature hsame limits hscope
  exact hagree.eval_eq (Expr.offenses_eq_nil_iff.mp hoffenses).1

/-- The default policy allows all builtin functions, so it confines their evaluation. -/
theorem default_confines_builtins (ambient : Builtin.Ambient) :
    Policy.default.Confines (Registry.builtins ambient) := by
  apply confines_of_allowed (Registry.filed_builtins ambient) (Registry.plain_builtins ambient)
  intro space name f n hget _ _
  obtain ⟨rfl, rfl⟩ := (Registry.filed_builtins ambient).of_get? hget
  have hnames : (Builtin.all ambient).map (fun f => (f.space, f.name)) =
      (Builtin.all ⟨0, 0⟩).map fun f => (f.space, f.name) := rfl
  have hallowed : ∀ q ∈ (Builtin.all ⟨0, 0⟩).map fun f => (f.space, f.name),
      Policy.default.isAllowed q.1 q.2 = true := by decide +kernel
  apply hallowed (f.space, f.name)
  rw [← hnames]
  exact List.mem_map.mpr ⟨f, Registry.mem_of_get?_ofList hget, rfl⟩

/-! ### What is not confined -/

/-- Reads a function out of its namespace by a key and calls it. -/
def keyCall (space name : String) (count : Nat) : Expr :=
  .call (.index (.ident space ⟨0, 0⟩) (.text name)) (List.replicate count .null)

theorem offenses_keyCall {space : String} (hspace : p.isDenied space = false) (name : String)
    (count : Nat) : (keyCall space name count).offenses p = [] := by
  have hargs : (Expr.listNodes (List.replicate count .null)).filterMap (Expr.offense? p) = [] := by
    induction count with
    | zero => rfl
    | succ count ih => exact ih
  simp only [Expr.offenses, keyCall, Expr.nodes, List.filterMap_append, List.filterMap_cons, hargs]
  simp [Expr.offense?, hspace]

theorem visit_ok {limits : Limits} {depth steps : Nat} (hdepth : depth < limits.maxDepth)
    (hsteps : steps < limits.maxSteps) : Eval.visit limits depth steps = .ok ((), steps + 1) := by
  have hsteps' : ¬ limits.maxSteps < steps + 1 := by omega
  have hdepth' : ¬ limits.maxDepth ≤ depth := by omega
  rw [Eval.visit, if_neg hsteps', if_neg hdepth']

private theorem visit_keyCall {depth steps : Nat} (count : Nat) (hdepth : depth < 3)
    (hsteps : steps < 4) : Eval.visit ⟨3, count + 4⟩ depth steps = .ok ((), steps + 1) := by
  apply visit_ok hdepth
  show steps < count + 4
  omega

theorem evalList_null (env : Env) {depth : Nat} (hdepth : depth < env.limits.maxDepth)
    (count steps : Nat) (hsteps : steps + count ≤ env.limits.maxSteps) :
    Expr.evalList env depth (List.replicate count .null) steps =
      .ok (List.replicate count .null, steps + count) := by
  induction count generalizing steps with
  | zero =>
    unfold Expr.evalList
    rfl
  | succ count ih =>
    have hnull : Expr.evalAt env depth .null steps = .ok (.null, steps + 1) := by
      unfold Expr.evalAt
      exact Eval.bind_ok (visit_ok hdepth (by omega)) _
    rw [List.replicate_succ, Expr.evalList, Eval.bind_ok hnull,
      Eval.bind_ok (ih (steps + 1) (by omega)), List.replicate_succ, Nat.add_right_comm,
      Nat.add_assoc]
    rfl

/-- What a namespace is read as. -/
def spaceObject (functions : Fields Builtin) : Value :=
  .object (functions.map fun p => (p.1, .callable ⟨p.2.space, p.2.name⟩))

theorem item_spaceObject {functions : Fields Builtin} {name : String} {f : Builtin}
    (hget : Fields.get? functions name = some f) :
    (spaceObject functions).item (.text name) = .ok (.callable ⟨f.space, f.name⟩) := by
  have hmap := Fields.get?_map functions (fun f : Builtin => Value.callable ⟨f.space, f.name⟩) name
  rw [hget, Option.map_some] at hmap
  have hproperty :
      (spaceObject functions).item (.text name) = (spaceObject functions).property name := by
    unfold Value.item spaceObject
    cases Value.arrayIndex? (.text name) <;> rfl
  rw [hproperty]
  simp only [spaceObject, Value.property, hmap, Option.getD_some]

/-- A namespace is an object with its functions, so a key reads them out of it. -/
theorem eval_keyCall {space name : String} {f : Builtin} {count : Nat} (hfiled : r.Filed)
    (hget : r.get? space name = some f) (harity : f.arityFault? count = none) :
    (keyCall space name count).eval r ⟨3, count + 4⟩ [] = f.run (List.replicate count .null) := by
  obtain ⟨functions, hspace, hname⟩ := Option.bind_eq_some_iff.mp hget
  obtain ⟨hfspace, hfname⟩ := hfiled.of_get? hget
  have hlookup : (Env.mk r ⟨3, count + 4⟩ []).lookup space = .ok (spaceObject functions) := by
    simp only [Env.lookup, Fields.get?_nil, Registry.spaceValue?, hspace,
      Option.map_some, spaceObject]
  have hident : Expr.evalAt ⟨r, ⟨3, count + 4⟩, []⟩ 2 (.ident space ⟨0, 0⟩) 2 =
      .ok (spaceObject functions, 3) := by
    unfold Expr.evalAt
    rw [Eval.bind_ok (visit_keyCall count (by decide) (by decide))]
    simp only [hlookup]
    rfl
  have htext : Expr.evalAt ⟨r, ⟨3, count + 4⟩, []⟩ 2 (.text name) 3 = .ok (.text name, 4) := by
    unfold Expr.evalAt
    exact Eval.bind_ok (visit_keyCall count (by decide) (by decide)) _
  have hindex :
      Expr.evalAt ⟨r, ⟨3, count + 4⟩, []⟩ 1 (.index (.ident space ⟨0, 0⟩) (.text name)) 1 =
      .ok (.callable ⟨space, name⟩, 4) := by
    unfold Expr.evalAt
    rw [Eval.bind_ok (visit_keyCall count (by decide) (by decide))]
    dsimp only
    rw [Eval.bind_ok hident, Eval.bind_ok htext, item_spaceObject hname, hfspace, hfname]
    rfl
  have hargs : Expr.evalList ⟨r, ⟨3, count + 4⟩, []⟩ 1 (List.replicate count .null) 4 =
      .ok (List.replicate count .null, 4 + count) := by
    apply evalList_null
    · show 1 < 3
      omega
    · show 4 + count ≤ count + 4
      omega
  have hcallee : (Env.mk r ⟨3, count + 4⟩ []).callee (.index (.ident space ⟨0, 0⟩) (.text name))
      (.callable ⟨space, name⟩) (List.replicate count Expr.null).length = .ok f := by
    simp only [Env.callee, hget, List.length_replicate, harity]
  have hcall : Expr.evalAt ⟨r, ⟨3, count + 4⟩, []⟩ 0 (keyCall space name count) 0 =
      (f.run (List.replicate count .null)).map fun v => (v, 4 + count) := by
    unfold keyCall Expr.evalAt
    rw [Eval.bind_ok (visit_keyCall count (by decide) (by decide))]
    dsimp only
    rw [Eval.bind_ok hindex, hcallee]
    show ((Expr.evalList _ 1 _ >>= fun vs => Eval.ofExcept (f.run vs)) : Eval Value) 4 = _
    rw [Eval.bind_ok hargs]
    cases f.run (List.replicate count .null) <;> rfl
  rw [Expr.eval, hcall]
  cases f.run (List.replicate count .null) <;> rfl

/-- A function that ends in another way than the given one, whatever it is called with. -/
def contrary (run : List Value → Except FormulaError Value) (args : List Value) :
    Except FormulaError Value :=
  match run args with
  | .ok _ => .error .circularReference
  | .error _ => .ok .null

theorem contrary_ne (run : List Value → Except FormulaError Value) (args : List Value) :
    contrary run args ≠ run args := by
  unfold contrary
  cases run args <;> simp

/-- Another implementation of a function shows where the function is called by a key. -/
theorem eval_keyCall_withRun_ne {space name : String} {f : Builtin} {count : Nat} (hfiled : r.Filed)
    (hget : r.get? space name = some f) (harity : f.arityFault? count = none) :
    (keyCall space name count).eval (r.withRun space name (contrary f.run)) ⟨3, count + 4⟩ [] ≠
      (keyCall space name count).eval r ⟨3, count + 4⟩ [] := by
  have hget' : (r.withRun space name (contrary f.run)).get? space name =
      some { f with run := contrary f.run } := by
    rw [Registry.get?_withRun, if_pos ⟨rfl, rfl⟩, hget]
    rfl
  rw [eval_keyCall hfiled hget harity, eval_keyCall (hfiled.withRun space name _) hget' harity]
  exact contrary_ne f.run _

theorem allowed_of_confines (hfiled : r.Filed) (h : p.Confines r) {space name : String}
    {f : Builtin} {n : Nat} (hget : r.get? space name = some f) (harity : f.arityFault? n = none)
    (hdenied : p.isDenied space = false) : p.isAllowed space name = true := by
  apply Decidable.byContradiction
  intro hnot
  have hsame : p.SameAllowed r (r.withRun space name (contrary f.run)) := by
    intro space' name' g g' hallowed hg hg' args
    rw [Registry.get?_withRun] at hg'
    split at hg'
    · rename_i heq
      rw [heq.1, heq.2] at hallowed
      exact absurd hallowed hnot
    · rw [hg, Option.some.injEq] at hg'
      rw [hg']
  have heval := h _ (r.signature_withRun space name (contrary f.run)) hsame ⟨3, n + 4⟩ []
    (keyCall space name n) (by simp) (offenses_keyCall hdenied name n)
  exact eval_keyCall_withRun_ne hfiled hget harity heval

/-- **Which policies confine evaluation:** those that allow every function that can be called in a
namespace whose name is not denied. -/
theorem confines_iff (hfiled : r.Filed) (hplain : r.Plain) :
    p.Confines r ↔ ∀ space name f n, r.get? space name = some f → f.arityFault? n = none →
      p.isDenied space = false → p.isAllowed space name = true := by
  constructor
  · intro h space name f n
    exact allowed_of_confines hfiled h
  · exact confines_of_allowed hfiled hplain

/-- A policy that allows `Math.abs` alone lets an expression call `Math.max`. -/
theorem not_confines_index :
    ¬ (Policy.empty.allow "Math" ["abs"]).Confines (Registry.builtins ⟨0, 0⟩) := by
  intro h
  have hallowed :=
    (confines_iff (Registry.filed_builtins ⟨0, 0⟩) (Registry.plain_builtins ⟨0, 0⟩)).mp h
    "Math" "max" _ 2 rfl rfl rfl
  exact absurd hallowed (by decide +kernel)

end Policy

end FormulaSheet
