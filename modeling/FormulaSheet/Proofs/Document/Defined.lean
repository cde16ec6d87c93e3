import FormulaSheet.Proofs.Document.References
import FormulaSheet.Proofs.Document.Tidy
import FormulaSheet.Proofs.Expr.Errors

/-!
# Undefined names

The names that a cell reads are looked up before its expression is evaluated, and a cell that reads
a name without a value is not evaluated. What is left out of these names are the namespaces of the
policy, which the registry has under the assumption made here. So no evaluation in a document fails
on a name (`Reachable.no_undefinedName`).
-/

namespace FormulaSheet

/-- No lookup of a name has to fail: the namespaces of the policy are among those of the registry,
and the functions fail only because of their arguments. -/
structure Engine.Grounded (eng : Engine) : Prop where
  spaces : ∀ name, eng.policy.isSpace name = true → eng.registry.hasSpace name = true
  functions : ∀ space name f, eng.registry.get? space name = some f → f.Refuses

namespace Cell

variable {eng : Engine} {c : Cell}

/-- The last evaluation of the cell did not fail on a name. -/
def Defined (c : Cell) : Prop := ∀ name, c.evalError? ≠ some (.undefinedName name)

theorem defined_of_none (h : c.evalError? = none) : c.Defined := by
  intro name
  rw [h]
  exact (Option.some_ne_none _).symm

theorem defined_compile (eng : Engine) (c : Cell) (s : String) : (c.compile eng s).Defined :=
  defined_of_none (evalError_compile eng c s)

theorem defined_create (eng : Engine) (id : CellId) (o : CellOptions) :
    (create eng id o).Defined := by
  unfold create
  split
  · exact defined_of_none rfl
  · exact defined_compile eng _ _

/-- The compile error of a cell is about its text. -/
theorem Faithful.compileError_ne_undefinedName (h : c.Faithful eng) (name : String) :
    c.compileError? ≠ some (.undefinedName name) := by
  cases hk : eng.compile c.expression with
  | error e =>
    rw [(h.error e hk).2.2]
    unfold Engine.compile at hk
    split at hk
    · cases hk
      simp
    · cases hk
  | ok k =>
    rw [(h.ok k hk).2.2, Compiled.disallowed?]
    split <;> simp

end Cell

namespace Document

variable {d d' : Document} {id : CellId} {c : Cell} {op : Operation} {f : Cell → Change}

def Defined (d : Document) : Prop := ∀ p ∈ d.cells, p.2.Defined

/-! ### Passes -/

/-- The scope of a cell binds all names in its expression, or they are namespaces. -/
theorem binds_of_scopeOf? (heng : d.engine.Grounded) {scope : Scope}
    (hscope : d.scopeOf? c = some scope) :
    ∀ q ∈ c.expr.identifiers, Env.binds ⟨d.engine.registry, d.engine.limits, scope⟩ q.1 = true := by
  intro q hq
  rw [Env.binds, Bool.or_eq_true]
  cases hspace : d.engine.policy.isSpace q.1 with
  | true => exact Or.inr (heng.spaces q.1 hspace)
  | false =>
    left
    have hdependency : q.1 ∈ c.dependencies d.engine :=
      Cell.mem_dependencies.mpr ⟨List.mem_map_of_mem hq, hspace⟩
    have hlacks : ¬ d.Lacks c := by
      rw [← scopeOf?_eq_none_iff, hscope]
      exact Option.some_ne_none scope
    have hvalue : d.valueOf? q.1 ≠ none := fun h => hlacks ⟨q.1, hdependency, Or.inl h⟩
    rw [Fields.contains, get?_of_scopeOf? hscope, if_pos hdependency]
    exact Option.isSome_iff_ne_none.mpr hvalue

theorem outcome_defined (heng : d.engine.Grounded) (hc : c.Defined) (name : String) :
    (d.outcome c).2 ≠ some (.undefinedName name) := by
  unfold outcome
  split
  · exact hc name
  · split
    · simp
    · rename_i scope hscope
      split
      · simp
      · split
        · simp
        · rename_i e he
          have hdefined :=
            Expr.not_undefinedName heng.functions (binds_of_scopeOf? heng hscope) he name
          simpa using hdefined

theorem blockedOutcome_defined {g : Graph} (hc : c.Defined) (name : String) :
    (blockedOutcome g c).2 ≠ some (.undefinedName name) := by
  unfold blockedOutcome
  split
  · exact hc name
  · split <;> simp

theorem Defined.recompute (h : d.Defined) (hd : d.Keyed) (heng : d.engine.Grounded) :
    d.recompute.Defined := by
  obtain ⟨hshape, -, hcells, -⟩ := hd.recompute_spec
  intro p hp
  have hcell' := (hshape.keyed hd).cell?_of_mem hp
  obtain ⟨r, hcell⟩ := hshape.symm.cell? hcell'
  have hresult := hcells p.1 _ hcell
  rw [hcell', Option.some.injEq] at hresult
  have hc := h _ (mem_of_cell? hcell)
  rw [hresult]
  intro name
  show (d.recompute.verdict (p.2.withResult r)).2 ≠ _
  rw [verdict]
  split
  · exact blockedOutcome_defined hc name
  · apply outcome_defined
    · rw [hshape.engine]
      exact heng
    · exact hc

/-! ### Runs -/

theorem Operation.defined {eng : Engine} (h : op.change? eng = some (id, f)) (hc : c.Defined) :
    (f c).cell.Defined := by
  have hmakes := Operation.makes_of_change? h c
  generalize (f c).cell = c' at hmakes
  cases hmakes with
  | compiled op hinput source => exact Cell.defined_compile eng c source
  | emptied => exact Cell.defined_of_none rfl
  | _ => exact hc

theorem Defined.insertNew (h : d.Defined) (id : CellId) (o : CellOptions) :
    (d.insertNew id o).Defined :=
  forall_cells_insertNew h (Cell.defined_create d.engine id o)

theorem Defined.edit (h : d.Defined) (op : Operation) : (d.edit op).Defined :=
  forall_cells_edit h (Cell.defined_create d.engine)
    (fun hchange _ hc => Operation.defined hchange hc)
    (fun _ _ hc => hc) (fun _ _ => Cell.defined_compile d.engine _ _)

theorem Defined.withRegistry (h : d.Defined) (r : Registry) : (d.withRegistry r).Defined := h

theorem grounded_of_withRegistry {r : Registry} (h : (d.withRegistry r).engine.Grounded)
    (hspaces : ∀ name, d.engine.registry.hasSpace name = r.hasSpace name)
    (hfunctions : ∀ space name f, d.engine.registry.get? space name = some f → f.Refuses) :
    d.engine.Grounded :=
  ⟨fun name hname => (hspaces name).trans (h.spaces name hname), hfunctions⟩

theorem Reachable.defined (h : d.Reachable) (heng : d.engine.Grounded) : d.Defined := by
  apply h.induct (P := fun d => d.engine.Grounded → d.Defined)
  case hcreate =>
    intro eng context _ p hp
    cases hp
  case hinsert =>
    intro d id _ hd _ o heng
    exact (hd heng).insertNew id o
  case hedit =>
    intro d _ hd op heng
    rw [engine_edit] at heng
    exact (hd heng).edit op
  case hpass =>
    intro d hvalid hd heng
    rw [hvalid.keyed.recompute_spec.1.engine] at heng
    exact (hd heng).recompute hvalid.keyed heng
  case hsurround =>
    intro d ambient hd hbuiltin ambient' heng
    -- whatever the surroundings are, the builtin functions fail only because of their arguments
    have hgrounded : d.engine.Grounded := by
      apply grounded_of_withRegistry heng
      · rw [hbuiltin]
        exact Registry.hasSpace_builtins ambient ambient'
      · rw [hbuiltin]
        exact fun _ _ f hf => Registry.refuses_builtins hf
    exact (hd hgrounded).withRegistry _
  case a => exact heng

/-- **No cell has an error about an undefined name.** The functions are the builtin ones, and
the namespaces of the policy are among theirs; nothing is asked of the context, of the limits
and of what was done before. -/
theorem Reachable.ne_undefinedName {ambient : Builtin.Ambient} (h : d.Reachable)
    (hregistry : d.engine.registry = .builtins ambient)
    (hspaces : ∀ space ∈ d.engine.policy.spaceNames, space ∈ (Registry.builtins ambient).spaceNames)
    (hc : d.cell? id = some c) (name : String) :
    c.compileError? ≠ some (.undefinedName name) ∧ c.evalError? ≠ some (.undefinedName name) := by
  have heng : d.engine.Grounded := by
    constructor
    case spaces =>
      intro space hspace
      rw [hregistry]
      exact Fields.contains_iff_mem_keys.mpr
        (hspaces space (Fields.contains_iff_mem_keys.mp hspace))
    case functions =>
      rw [hregistry]
      exact fun _ _ f hf => Registry.refuses_builtins hf
  exact ⟨(h.valid.faithful_of_cell? hc).compileError_ne_undefinedName name,
    h.defined heng _ (mem_of_cell? hc) name⟩

/-- The cell `b` reads a cell that is gone, and a namespace. -/
theorem ne_undefinedName_after_removal :
    let eng : Engine := ⟨.default, .builtins ⟨0, 0⟩, .default⟩
    let d := (create eng []).run
      [.addCell "a" ⟨none, "a", "null", none, []⟩,
        .addCell "b" ⟨none, "b", "Array.isArray(a)", none, []⟩, .removeCell "a"]
    ∃ c, d.cell? "b" = some c ∧ c.compileError? ≠ some (.undefinedName "a") ∧
      c.evalError? ≠ some (.undefinedName "a") := by
  intro eng d
  have hreachable : d.Reachable := (Initial.create eng []).reachable.run _
  have hengine : d.engine = eng := (valid_create eng []).engine_run _
  have hspaces :
      ∀ space ∈ d.engine.policy.spaceNames, space ∈ (Registry.builtins ⟨0, 0⟩).spaceNames := by
    rw [hengine]
    decide +kernel
  have hcell : (d.cell? "b").isSome = true := by decide +kernel
  obtain ⟨c, hc⟩ := Option.isSome_iff_exists.mp hcell
  exact ⟨c, hc, hreachable.ne_undefinedName (by rw [hengine]) hspaces hc "a"⟩

end Document

end FormulaSheet
