import FormulaSheet.Document.Operations
import FormulaSheet.Proofs.Document.Pass

/-!
# The meaning of a document

What a pass computes, said without its order of evaluation. A cell on a cycle of references fails. A
cell behind a cycle, or one that reads a name without a value, is absent and is not evaluated. Any
other one holds what its expression evaluates to where every name stands for its value after the
pass (`recompute_meaning`). Values from before the pass play no part in this, except those of inputs
and of cells with offenses. A cell whose text cannot be read has an expression that could be
evaluated, the empty one, but is absent without an evaluation; that shows under limits that allow no
step at all (`syntax_error_not_evaluated`).
-/

namespace FormulaSheet

/-- Writing pairs one after the other that agree with a function gives the values of the
function. -/
theorem Fields.get?_foldl_insert {α : Type} {f : String → Option α} {pairs : Fields α}
    (hpairs : ∀ p ∈ pairs, f p.1 = some p.2) (m : Fields α) (k : String) :
    (pairs.foldl (fun m p => m.insert p.1 p.2) m).get? k =
      if k ∈ pairs.keys then f k else m.get? k := by
  induction pairs generalizing m with
  | nil => rfl
  | cons p pairs ih =>
    have hp := hpairs p List.mem_cons_self
    rw [List.foldl_cons, ih fun q hq => hpairs q (List.mem_cons_of_mem _ hq), get?_insert]
    by_cases hk : k = p.1
    · subst hk
      simp [hp]
    · simp [hk]

namespace Document

open Relation

variable {d : Document} {id : CellId} {c : Cell} {n : String}

/-- The cell is on a cycle of references. -/
def OnCycle (d : Document) (id : CellId) : Prop := TransGen d.Reads id id

/-- The cell can be reached from a cycle of references. -/
def BehindCycle (d : Document) (id : CellId) : Prop := ∃ a, d.OnCycle a ∧ ReflTransGen d.Reads a id

/-- The expression of the cell reads a name without a value: it refers to no cell and to no entry of
the context, or what it refers to is absent. -/
def Lacks (d : Document) (c : Cell) : Prop :=
  ∃ n ∈ c.dependencies d.engine, d.valueOf? n = none ∨ d.valueOf? n = some .absent

/-! ### Cycles -/

theorem Keyed.edge_eq_reads (hd : d.Keyed) : d.buildGraph.Edge = d.Reads := by
  ext a b
  exact hd.edge_buildGraph

theorem Keyed.isCircular_buildGraph (hd : d.Keyed) :
    d.buildGraph.isCircular id = true ↔ d.OnCycle id := by
  rw [Graph.isCircular_iff, hd.edge_eq_reads, OnCycle]

theorem Keyed.mem_blocked_buildGraph (hd : d.Keyed) (hc : d.cell? id = some c) :
    id ∈ d.buildGraph.order.blocked ↔ d.BehindCycle id := by
  rw [hd.wellFormed_buildGraph.mem_blocked_iff (hd.mem_nodes_buildGraph.mpr ⟨c, hc⟩),
    hd.edge_eq_reads]
  rfl

/-! ### Scopes -/

theorem readings?_eq_none_iff {ns : List String} :
    d.readings? ns = none ↔ ∃ n ∈ ns, d.valueOf? n = none ∨ d.valueOf? n = some .absent := by
  induction ns with
  | nil => simp [readings?]
  | cons n ns ih =>
    simp only [readings?, List.mem_cons, exists_eq_or_imp, ← ih]
    cases hv : d.valueOf? n with
    | none => simp
    | some v => cases v <;> simp [Value.isAbsent]

theorem readings?_eq_some {ns : List String} {readings : Fields Value}
    (h : d.readings? ns = some readings) :
    Fields.keys readings = ns ∧ ∀ p ∈ readings, d.valueOf? p.1 = some p.2 := by
  induction ns generalizing readings with
  | nil =>
    rw [readings?, Option.some.injEq] at h
    subst h
    simp
  | cons n ns ih =>
    rw [readings?] at h
    cases hv : d.valueOf? n with
    | none => simp [hv] at h
    | some v =>
      cases habsent : v.isAbsent with
      | true => simp [hv, habsent] at h
      | false =>
        simp only [hv, habsent, Bool.false_eq_true, if_false, Option.map_eq_some_iff] at h
        obtain ⟨rest, hrest, rfl⟩ := h
        obtain ⟨hkeys, hvalues⟩ := ih hrest
        refine ⟨by rw [Fields.keys_cons, hkeys], fun p hp => ?_⟩
        rcases List.mem_cons.mp hp with rfl | hp
        · exact hv
        · exact hvalues p hp

theorem scopeOf?_eq_none_iff : d.scopeOf? c = none ↔ d.Lacks c := by
  rw [scopeOf?, Option.map_eq_none_iff, readings?_eq_none_iff, Lacks]

/-- In the scope of a cell the names that its expression reads stand for their values, and all other
names for their entries in the context. -/
theorem get?_of_scopeOf? {scope : Scope} (h : d.scopeOf? c = some scope) (n : String) :
    Fields.get? scope n =
      if n ∈ c.dependencies d.engine then d.valueOf? n else Fields.get? d.context n := by
  obtain ⟨readings, hreadings, rfl⟩ := Option.map_eq_some_iff.mp h
  obtain ⟨hkeys, hvalues⟩ := readings?_eq_some hreadings
  rw [Fields.get?_foldl_insert hvalues, hkeys]

/-! ### What a pass computes -/

/-- The result of a cell that is evaluated. -/
theorem outcome_of_scope {scope : Scope} (hsafe : c.isSafe = true) (hinput : c.input? = none)
    (hcompile : c.compileError? = none) (hscope : d.scopeOf? c = some scope) :
    d.outcome c = match d.engine.eval scope c.expr with
      | .ok v => (v, none)
      | .error e => (.absent, some e) := by
  simp only [outcome, hsafe, hinput, hcompile, hscope]
  rfl

/-- The result of a cell that is visited and not evaluated. -/
theorem outcome_of_not_evaluated (hsafe : c.isSafe = true) (hinput : c.input? = none)
    (h : d.Lacks c ∨ c.compileError? ≠ none) : d.outcome c = (.absent, none) := by
  rw [← scopeOf?_eq_none_iff] at h
  cases hscope : d.scopeOf? c with
  | none => simp [outcome, hsafe, hinput, hscope]
  | some scope =>
    have hcompile : c.compileError?.isSome = true := by
      simpa [hscope, Option.ne_none_iff_isSome] using h
    simp [outcome, hsafe, hinput, hscope, hcompile]

/-- **A pass computes the meaning of the document.** Let the cell have no input and no offenses. On
a cycle it is absent with a circular reference. Behind a cycle, or where it reads a name that has no
value after the pass, it is absent without an error, and not evaluated. Otherwise, if its text could
be read, it holds what its expression evaluates to in the context together with the values that the
names it reads have after the pass; and if not, it is absent without an evaluation. -/
theorem Keyed.recompute_meaning (hd : d.Keyed) (hc : d.cell? id = some c) (hsafe : c.isSafe = true)
    (hinput : c.input? = none) :
    ∃ c', d.recompute.cell? id = some c' ∧
      (d.OnCycle id → c'.value = .absent ∧ c'.evalError? = some .circularReference) ∧
      (¬ d.OnCycle id → d.BehindCycle id ∨ d.recompute.Lacks c →
        c'.value = .absent ∧ c'.evalError? = none ∧ id ∉ d.interpreted) ∧
      (¬ d.OnCycle id → ¬ d.BehindCycle id → ¬ d.recompute.Lacks c →
        (c.compileError? ≠ none →
          c'.value = .absent ∧ c'.evalError? = none ∧ id ∉ d.interpreted) ∧
        (c.compileError? = none → id ∈ d.interpreted ∧ ∃ scope : Scope,
          (∀ n, Fields.get? scope n = if n ∈ c.dependencies d.engine
            then d.recompute.valueOf? n else Fields.get? d.context n) ∧
          match d.engine.eval scope c.expr with
          | .ok v => c'.value = v ∧ c'.evalError? = none
          | .error e => c'.value = .absent ∧ c'.evalError? = some e)) := by
  obtain ⟨hshape, hgraph, hcells, hinterp⟩ := hd.recompute_spec
  have hid : c.id = id := hd.id_of_cell? hc
  have hblocked := hd.mem_blocked_buildGraph hc
  have hordered : id ∈ d.buildGraph.order.ordered → ¬ d.BehindCycle id := by
    intro hmem hbehind
    exact (Graph.mem_blocked.mp (hblocked.mpr hbehind)).2 hmem
  have hcycle_behind : d.OnCycle id → d.BehindCycle id := fun h => ⟨id, h, .refl⟩
  have hinterprets : d.recompute.interprets c = true ↔
      c.compileError? = none ∧ ¬ d.recompute.Lacks c := by
    rw [← scopeOf?_eq_none_iff]
    simp [interprets, hsafe, hinput, Option.isSome_iff_ne_none]
  have hverdict : d.recompute.verdict c = if id ∈ d.buildGraph.order.blocked
      then blockedOutcome d.buildGraph c else d.recompute.outcome c := by
    rw [verdict, hgraph, hid]
  refine ⟨_, hcells id c hc, fun hcycle => ?_, fun hcycle habsent => ?_,
    fun hcycle hbehind hlacks => ⟨fun hcompile => ?_, fun hcompile => ?_⟩⟩
  · rw [hverdict, if_pos (hblocked.mpr (hcycle_behind hcycle)), blockedOutcome, hid,
      hd.isCircular_buildGraph.mpr hcycle]
    simp [hsafe, Cell.withResult]
  · by_cases hbehind : d.BehindCycle id
    · have hcircular : d.buildGraph.isCircular id = false :=
        Bool.eq_false_iff.mpr (hd.isCircular_buildGraph.not.mpr hcycle)
      rw [hverdict, if_pos (hblocked.mpr hbehind), blockedOutcome, hid, hcircular, hinterp id c hc]
      simp only [hsafe, Cell.withResult]
      exact ⟨rfl, rfl, fun h => hordered h.1 hbehind⟩
    · have hlacks := habsent.resolve_left hbehind
      rw [hverdict, if_neg (hblocked.not.mpr hbehind),
        outcome_of_not_evaluated hsafe hinput (Or.inl hlacks), hinterp id c hc, hinterprets]
      exact ⟨rfl, rfl, fun h => h.2.2 hlacks⟩
  · rw [hverdict, if_neg (hblocked.not.mpr hbehind),
      outcome_of_not_evaluated hsafe hinput (Or.inr hcompile), hinterp id c hc, hinterprets]
    exact ⟨rfl, rfl, fun h => hcompile h.2.1⟩
  · have hmem : id ∈ d.buildGraph.order.ordered := by
      by_contra hnot
      exact hbehind (hblocked.mp
        (Graph.mem_blocked.mpr ⟨hd.mem_nodes_buildGraph.mpr ⟨c, hc⟩, hnot⟩))
    refine ⟨(hinterp id c hc).mpr ⟨hmem, hinterprets.mpr ⟨hcompile, hlacks⟩⟩, ?_⟩
    rw [← scopeOf?_eq_none_iff] at hlacks
    obtain ⟨scope, hscope⟩ := Option.ne_none_iff_exists'.mp hlacks
    refine ⟨scope, fun n => ?_, ?_⟩
    · rw [get?_of_scopeOf? hscope, hshape.engine, hshape.context]
    · rw [hverdict, if_neg (hblocked.not.mpr hbehind),
        outcome_of_scope hsafe hinput hcompile hscope, hshape.engine]
      cases d.engine.eval scope c.expr <;> exact ⟨rfl, rfl⟩

/-- A cell that reads the value of another one. -/
theorem recompute_meaning_reading :
    let eng : Engine := ⟨.empty, .empty, .default⟩
    let d := ((create eng []).insertNew "a" ⟨none, "a", "null", none, []⟩).insertNew "b"
      ⟨none, "b", "a", none, []⟩
    ∃ c', d.recompute.cell? "b" = some c' ∧ c'.value = .null ∧ c'.evalError? = none ∧
      "b" ∈ d.interpreted := by
  intro eng d
  let c : Cell := (Cell.create eng "b" ⟨none, "b", "a", none, []⟩).subscribe
  have hd : d.Keyed := ⟨by decide, by decide⟩
  have hc : d.cell? "b" = some c := rfl
  obtain ⟨c', hc', -, -, h⟩ := hd.recompute_meaning hc rfl rfl
  have hcycle : ¬ d.OnCycle "b" := hd.isCircular_buildGraph.not.mp (by decide +kernel)
  have hbehind : ¬ d.BehindCycle "b" := (hd.mem_blocked_buildGraph hc).not.mp (by decide +kernel)
  have hscope : (d.recompute.scopeOf? c).isSome = true := by decide +kernel
  have hlacks : ¬ d.recompute.Lacks c := by
    rw [← scopeOf?_eq_none_iff]
    exact Option.isSome_iff_ne_none.mp hscope
  obtain ⟨hinterpreted, scope, hscope, hvalue⟩ := (h hcycle hbehind hlacks).2 rfl
  have hexpr : c.expr = .ident "a" ⟨0, 1⟩ := by rfl
  have hkind : (d.recompute.valueOf? "a").map Value.kind = some .null := by decide +kernel
  obtain ⟨v, hv, hv_kind⟩ := Option.map_eq_some_iff.mp hkind
  have hnull : v = .null := by
    cases v <;> first | rfl | cases hv_kind
  have ha : Fields.get? scope "a" = some .null := by
    rw [hscope, if_pos (by decide +kernel), hv, hnull]
  have heval : d.engine.eval scope c.expr = .ok .null := by
    have heval : d.engine.eval scope (.ident "a" ⟨0, 1⟩) =
        (Eval.ofExcept ((⟨.empty, .default, scope⟩ : Env).lookup "a") 1).map Prod.fst := rfl
    rw [hexpr, heval, Env.lookup, ha]
    rfl
  rw [heval] at hvalue
  exact ⟨c', hc', hvalue.1, hvalue.2, hinterpreted⟩

/-- The empty expression of a cell whose text cannot be read would exceed a budget of no steps, but
the pass leaves the cell without an error. -/
theorem syntax_error_not_evaluated :
    let d := (create ⟨.empty, .empty, ⟨256, 0⟩⟩ []).insertNew "a" ⟨none, "a", ")", none, []⟩
    ∃ c c', d.cell? "a" = some c ∧ c.isSafe = true ∧ c.input? = none ∧
      ¬ d.OnCycle "a" ∧ ¬ d.BehindCycle "a" ∧ ¬ d.recompute.Lacks c ∧
      (∀ scope, d.engine.eval scope c.expr = .error (.stepBudgetExceeded 0)) ∧
      d.recompute.cell? "a" = some c' ∧ c'.evalError? = none := by
  intro d
  have hd : d.Keyed := ⟨by decide, by decide⟩
  let c : Cell := (Cell.create d.engine "a" ⟨none, "a", ")", none, []⟩).subscribe
  have hc : d.cell? "a" = some c := rfl
  have hcycle : ¬ d.OnCycle "a" := hd.isCircular_buildGraph.not.mp (by decide +kernel)
  have hbehind : ¬ d.BehindCycle "a" := (hd.mem_blocked_buildGraph hc).not.mp (by decide +kernel)
  have hlacks : ¬ d.recompute.Lacks c := by
    rw [← scopeOf?_eq_none_iff]
    exact Option.isSome_iff_ne_none.mp (by decide +kernel)
  exact ⟨c, c.withResult (.absent, none), hc, rfl, rfl, hcycle, hbehind, hlacks, fun _ => rfl,
    by with_unfolding_all rfl, rfl⟩
end Document

end FormulaSheet
