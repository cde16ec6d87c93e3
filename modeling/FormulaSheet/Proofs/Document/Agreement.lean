import FormulaSheet.Proofs.Document.Counts
import FormulaSheet.Proofs.Document.Gating
import FormulaSheet.Proofs.Document.Tidy

/-!
# Passes over the same cells

What a pass computes is the only solution of its equations, so it does not matter from which
values the pass sets out, nor in which order it visits the cells. Two documents in which names
refer to the same cells, and whose cells have the same expressions, end with the same values,
errors and counts (`Alike`).
-/

namespace FormulaSheet

/-- Two cells of which a pass makes the same: they have the same expression, and the same of
what passes leave alone. -/
structure Cell.Alike (c c' : Cell) : Prop where
  expr : c'.expr = c.expr
  safe : c'.isSafe = c.isSafe
  compileError : c'.compileError? = c.compileError?
  input : c'.input?.isSome = c.input?.isSome
  result : c.input?.isSome = true → c'.result = c.result
  value : c.isSafe = false → c'.value = c.value

/-- A pass evaluates both or none of them, as far as this does not depend on what they read. -/
theorem Cell.Alike.evaluates {c c' : Cell} (h : c.Alike c') :
    (c'.isSafe && c'.input?.isNone) = (c.isSafe && c.input?.isNone) := by
  have hinput := h.input
  rw [h.safe]
  cases hc : c.input? <;> cases hc' : c'.input? <;> simp_all

/-- Two results of a cell are the same. The error of the last evaluation does not count where the
cell has offenses: it is not evaluated, and shows its compile error. -/
def Cell.SameResult (c : Cell) (r r' : Value × Option FormulaError) : Prop :=
  r'.1 = r.1 ∧ (c.isSafe = true → r'.2 = r.2)

namespace Document

open Relation

variable {d d' : Document} {id a b : CellId} {c c' : Cell}

/-- Two documents in which a pass finds the same cells, in whatever order. -/
structure Alike (d d' : Document) : Prop where
  engine : d'.engine = d.engine
  context : d'.context = d.context
  keys : (Fields.keys d'.cells).Perm (Fields.keys d.cells)
  resolve? : ∀ n, d'.resolve? n = d.resolve? n
  cells : ∀ id c c', d.cell? id = some c → d'.cell? id = some c' → c.Alike c'

/-- Which cells show an error, told by their ids. -/
theorem Keyed.errorCount_eq (hd : d.Keyed) :
    d.errorCount = (Fields.keys d.cells).countP fun id =>
      ((d.cell? id).map Cell.error?).any Option.isSome := by
  rw [errorCount, cellList, Fields.keys, List.countP_map, List.filter_map, List.length_map,
    ← List.countP_eq_length_filter]
  apply List.countP_congr
  intro p hp
  rw [Function.comp_apply, Function.comp_apply, hd.cell?_of_mem hp]
  rfl

namespace Alike

theorem cell? (h : d.Alike d') (hc : d.cell? id = some c) :
    ∃ c', d'.cell? id = some c' ∧ c.Alike c' := by
  have hid : id ∈ Fields.keys d'.cells := h.keys.mem_iff.mpr (mem_keys_of_cell? hc)
  obtain ⟨c', hc'⟩ := exists_cell?_of_mem_keys hid
  exact ⟨c', hc', h.cells id c c' hc hc'⟩

theorem cell?_of_cell? (h : d.Alike d') (hc' : d'.cell? id = some c') :
    ∃ c, d.cell? id = some c ∧ c.Alike c' := by
  have hid : id ∈ Fields.keys d.cells := h.keys.mem_iff.mp (mem_keys_of_cell? hc')
  obtain ⟨c, hc⟩ := exists_cell?_of_mem_keys hid
  exact ⟨c, hc, h.cells id c c' hc hc'⟩

theorem cell?_eq_none (h : d.Alike d') (hc : d.cell? id = none) : d'.cell? id = none := by
  rw [cell?_eq_none_iff] at hc ⊢
  intro hid
  exact hc (h.keys.mem_iff.mp hid)

theorem dependencies (h : d.Alike d') (hc : c.Alike c') :
    c'.dependencies d'.engine = c.dependencies d.engine := by
  unfold Cell.dependencies
  rw [h.engine, hc.expr]

/-! ### The same graph up to order -/

theorem reads (h : d.Alike d') : d'.Reads = d.Reads := by
  funext a b
  apply propext
  constructor
  · rintro ⟨c', hc', n, hn, ha⟩
    obtain ⟨c, hc, halike⟩ := h.cell?_of_cell? hc'
    rw [h.dependencies halike] at hn
    rw [h.resolve?] at ha
    exact ⟨c, hc, n, hn, ha⟩
  · rintro ⟨c, hc, n, hn, ha⟩
    obtain ⟨c', hc', halike⟩ := h.cell? hc
    rw [← h.dependencies halike] at hn
    rw [← h.resolve?] at ha
    exact ⟨c', hc', n, hn, ha⟩

theorem isCircular (h : d.Alike d') (hd : d.Keyed) (hd' : d'.Keyed) (id : CellId) :
    d'.buildGraph.isCircular id = d.buildGraph.isCircular id := by
  rw [Bool.eq_iff_iff, hd'.isCircular_buildGraph, hd.isCircular_buildGraph, OnCycle,
    OnCycle, h.reads]

theorem mem_blocked (h : d.Alike d') (hd : d.Keyed) (hd' : d'.Keyed) :
    id ∈ d'.buildGraph.order.blocked ↔ id ∈ d.buildGraph.order.blocked := by
  cases hc : d.cell? id with
  | some c =>
    obtain ⟨c', hc', -⟩ := h.cell? hc
    rw [hd'.mem_blocked_buildGraph hc', hd.mem_blocked_buildGraph hc]
    simp only [BehindCycle, OnCycle, h.reads]
  | none =>
    constructor
    · intro hid
      obtain ⟨c', hc'⟩ := hd'.cell?_of_blocked hid
      obtain ⟨c, hc', -⟩ := h.cell?_of_cell? hc'
      rw [hc] at hc'
      cases hc'
    · intro hid
      obtain ⟨c, hc'⟩ := hd.cell?_of_blocked hid
      rw [hc] at hc'
      cases hc'

theorem mem_nodes (h : d.Alike d') (hd : d.Keyed) (hd' : d'.Keyed) :
    id ∈ d'.buildGraph.nodes ↔ id ∈ d.buildGraph.nodes := by
  rw [hd'.buildGraph_spec.2.1, hd.buildGraph_spec.2.1]
  exact h.keys.mem_iff

theorem mem_ordered (h : d.Alike d') (hd : d.Keyed) (hd' : d'.Keyed) :
    id ∈ d'.buildGraph.order.ordered ↔ id ∈ d.buildGraph.order.ordered := by
  have hmem : ∀ {d : Document}, d.Keyed →
      (id ∈ d.buildGraph.order.ordered ↔
        id ∈ d.buildGraph.nodes ∧ id ∉ d.buildGraph.order.blocked) := by
    intro d hd
    rw [Graph.mem_blocked]
    constructor
    · intro hid
      exact ⟨hd.wellFormed_buildGraph.ordered_subset hid, fun hblocked => hblocked.2 hid⟩
    · rintro ⟨hnode, hnot⟩
      by_contra hid
      exact hnot ⟨hnode, hid⟩
  rw [hmem hd', hmem hd, h.mem_nodes hd hd', h.mem_blocked hd hd']

/-! ### The same results -/

theorem context_recompute (h : d.Alike d') (hd : d.Keyed) (hd' : d'.Keyed) :
    d'.recompute.context = d.recompute.context := by
  rw [hd'.recompute_spec.1.context, h.context, hd.recompute_spec.1.context]

theorem engine_recompute (h : d.Alike d') (hd : d.Keyed) (hd' : d'.Keyed) :
    d'.recompute.engine = d.recompute.engine := by
  rw [hd'.recompute_spec.1.engine, h.engine, hd.recompute_spec.1.engine]

/-- Where what the expression of a cell reads has the same values after the passes, its scope is the
same. -/
theorem scopeOf?_recompute (h : d.Alike d') (hd : d.Keyed) (hd' : d'.Keyed) (halike : c.Alike c')
    (hvalues : ∀ n ∈ c.dependencies d.engine, ∀ a, d.resolve? n = some a →
      (d'.recompute.cell? a).map Cell.value = (d.recompute.cell? a).map Cell.value) :
    d'.recompute.scopeOf? c' = d.recompute.scopeOf? c := by
  have hdeps : c'.dependencies d'.recompute.engine = c.dependencies d'.recompute.engine := by
    rw [Cell.dependencies, Cell.dependencies, halike.expr]
  have hcell : d'.recompute.scopeOf? c' = d'.recompute.scopeOf? c := by
    simp only [scopeOf?, hdeps]
  rw [hcell]
  apply scopeOf?_congr (h.engine_recompute hd hd') (h.context_recompute hd hd')
  intro n hn
  rw [hd.recompute_spec.1.engine] at hn
  apply valueOf?_congr (h.context_recompute hd hd')
  · rw [hd'.recompute_spec.1.resolve?, h.resolve?, hd.recompute_spec.1.resolve?]
  · intro a ha
    rw [hd.recompute_spec.1.resolve?] at ha
    exact hvalues n hn a ha

theorem sameResult_blockedOutcome (h : d.Alike d') (hd : d.Keyed) (hd' : d'.Keyed)
    (halike : c.Alike c') (hid : c'.id = c.id) :
    c.SameResult (blockedOutcome d.buildGraph c) (blockedOutcome d'.buildGraph c') := by
  unfold blockedOutcome Cell.SameResult
  rw [halike.safe, hid, h.isCircular hd hd']
  cases hsafe : c.isSafe with
  | false => exact ⟨halike.value hsafe, fun hfalse => by cases hfalse⟩
  | true => exact ⟨rfl, fun _ => rfl⟩

theorem sameResult_outcome (h : d.Alike d') (hd : d.Keyed) (hd' : d'.Keyed) (halike : c.Alike c')
    (hscope : d'.recompute.scopeOf? c' = d.recompute.scopeOf? c) :
    c.SameResult (d.recompute.outcome c) (d'.recompute.outcome c') := by
  unfold outcome Cell.SameResult
  rw [halike.safe, halike.input, halike.compileError, halike.expr, hscope,
    h.engine_recompute hd hd']
  cases hsafe : c.isSafe with
  | false => exact ⟨halike.value hsafe, fun hfalse => by cases hfalse⟩
  | true =>
    cases hinput : c.input?.isSome with
    | false => exact ⟨rfl, fun _ => rfl⟩
    | true =>
      have hresult := halike.result hinput
      exact ⟨congrArg Prod.fst hresult, fun _ => congrArg Prod.snd hresult⟩

/-- **Passes over the same cells give the same results.** Blocked cells are the same in both graphs;
the others are taken in the order of the one graph, so that all they read was dealt with before. -/
theorem sameResult_verdict (h : d.Alike d') (hd : d.Keyed) (hd' : d'.Keyed)
    (hc : d.cell? id = some c) (hc' : d'.cell? id = some c') :
    c.SameResult (d.recompute.verdict c) (d'.recompute.verdict c') := by
  have hverdict : ∀ {d : Document} {id : CellId} {c : Cell}, d.Keyed → d.cell? id = some c →
      d.recompute.verdict c = if id ∈ d.buildGraph.order.blocked
        then blockedOutcome d.buildGraph c else d.recompute.outcome c := by
    intro d id c hd hc
    rw [verdict, hd.recompute_spec.2.1, hd.id_of_cell? hc]
  have hblocked : ∀ {id : CellId} {c c' : Cell}, d.cell? id = some c → d'.cell? id = some c' →
      id ∈ d.buildGraph.order.blocked →
      c.SameResult (d.recompute.verdict c) (d'.recompute.verdict c') := by
    intro id c c' hc hc' hid
    rw [hverdict hd hc, hverdict hd' hc', if_pos hid, if_pos ((h.mem_blocked hd hd').mpr hid)]
    apply h.sameResult_blockedOutcome hd hd' (h.cells id c c' hc hc')
    rw [hd'.id_of_cell? hc', hd.id_of_cell? hc]
  have hordered : ∀ b ∈ d.buildGraph.order.ordered, ∀ c c', d.cell? b = some c →
      d'.cell? b = some c' → c.SameResult (d.recompute.verdict c) (d'.recompute.verdict c') := by
    refine hd.wellFormed_buildGraph.ordered_induction (P := fun b => ∀ c c', d.cell? b = some c →
      d'.cell? b = some c' → c.SameResult (d.recompute.verdict c) (d'.recompute.verdict c')) ?_
    intro b hb hprecedents c c' hc hc'
    have hnot : b ∉ d.buildGraph.order.blocked := fun hmem => (Graph.mem_blocked.mp hmem).2 hb
    have hnot' : b ∉ d'.buildGraph.order.blocked := (h.mem_blocked hd hd').not.mpr hnot
    rw [hverdict hd hc, hverdict hd' hc', if_neg hnot, if_neg hnot']
    have halike := h.cells b c c' hc hc'
    apply h.sameResult_outcome hd hd' halike
    apply h.scopeOf?_recompute hd hd' halike
    intro n hn a ha
    have hreads : d.Reads a b := ⟨c, hc, n, hn, ha⟩
    obtain ⟨ca, hca⟩ := hd.cell?_of_resolve? ha
    obtain ⟨ca', hca', -⟩ := h.cell? hca
    rw [hd.recompute_spec.2.2.1 a ca hca, hd'.recompute_spec.2.2.1 a ca' hca']
    exact congrArg some (hprecedents a (hd.edge_buildGraph.mpr hreads) ca ca' hca hca').1
  by_cases hid : id ∈ d.buildGraph.order.blocked
  · exact hblocked hc hc' hid
  · have hnode : id ∈ d.buildGraph.nodes := hd.mem_nodes_buildGraph.mpr ⟨c, hc⟩
    have hmem : id ∈ d.buildGraph.order.ordered := by
      by_contra hnot
      exact hid (Graph.mem_blocked.mpr ⟨hnode, hnot⟩)
    exact hordered id hmem c c' hc hc'

theorem value_recompute (h : d.Alike d') (hd : d.Keyed) (hd' : d'.Keyed) (id : CellId) :
    (d'.recompute.cell? id).map Cell.value = (d.recompute.cell? id).map Cell.value := by
  rw [hd'.cell?_recompute, hd.cell?_recompute]
  cases hc : d.cell? id with
  | some c =>
    obtain ⟨c', hc', -⟩ := h.cell? hc
    have hvalue := (h.sameResult_verdict hd hd' hc hc').1
    rw [hc', Option.map_some, Option.map_some, Option.map_some, Option.map_some,
      Cell.value_withResult, Cell.value_withResult, hvalue]
  | none => simp only [h.cell?_eq_none hc, Option.map_none]

theorem error_recompute (h : d.Alike d') (hd : d.Keyed) (hd' : d'.Keyed)
    (hfaithful : ∀ p ∈ d.cells, p.2.Faithful d.engine) (id : CellId) :
    (d'.recompute.cell? id).map Cell.error? = (d.recompute.cell? id).map Cell.error? := by
  rw [hd'.cell?_recompute, hd.cell?_recompute]
  cases hc : d.cell? id with
  | some c =>
    obtain ⟨c', hc', halike⟩ := h.cell? hc
    have hresult := h.sameResult_verdict hd hd' hc hc'
    rw [hc', Option.map_some, Option.map_some, Option.map_some, Option.map_some,
      Cell.error?_withResult, Cell.error?_withResult, halike.compileError]
    cases hsafe : c.isSafe with
    | true => rw [hresult.2 hsafe]
    | false =>
      -- the compile error comes first
      rw [(hfaithful _ (mem_of_cell? hc)).compileError_of_not_safe hsafe]
      simp
  | none => simp only [h.cell?_eq_none hc, Option.map_none]

/-! ### The same counts -/

/-- What is the same for cells that are alike, whatever results they have, is the same after
passes. -/
theorem any_cell?_recompute (h : d.Alike d') (hd : d.Keyed) (hd' : d'.Keyed) {f f' : Cell → Bool}
    (hf : ∀ (c c' : Cell) (r r' : Value × Option FormulaError), c.Alike c' →
      f' (c'.withResult r') = f (c.withResult r)) (id : CellId) :
    (d'.recompute.cell? id).any f' = (d.recompute.cell? id).any f := by
  rw [hd'.cell?_recompute, hd.cell?_recompute]
  cases hc : d.cell? id with
  | some c =>
    obtain ⟨c', hc', halike⟩ := h.cell? hc
    simp only [hc', Option.map_some, Option.any_some]
    exact hf c c' _ _ halike
  | none => simp only [h.cell?_eq_none hc, Option.map_none, Option.any_none]

theorem countsCycle_recompute (h : d.Alike d') (hd : d.Keyed) (hd' : d'.Keyed) :
    d'.recompute.countsCycle = d.recompute.countsCycle := by
  funext id
  apply h.any_cell?_recompute hd hd'
  intro c c' r r' halike
  rw [hd'.recompute_spec.2.1, hd.recompute_spec.2.1, h.isCircular hd hd']
  exact congrArg (· && _) halike.safe

theorem countsBehind_recompute (h : d.Alike d') (hd : d.Keyed) (hd' : d'.Keyed) :
    d'.recompute.countsBehind = d.recompute.countsBehind := by
  funext id
  apply h.any_cell?_recompute hd hd'
  intro c c' r r' halike
  rw [hd'.recompute_spec.2.1, hd.recompute_spec.2.1, h.isCircular hd hd']
  exact congrArg (· && _) halike.safe

/-- The visits of two passes find the same to read. -/
theorem scopeOf?_withResult (h : d.Alike d') (hd : d.Keyed) (hd' : d'.Keyed) (halike : c.Alike c')
    (r r' : Value × Option FormulaError) :
    d'.recompute.scopeOf? (c'.withResult r') = d.recompute.scopeOf? (c.withResult r) := by
  have hsame : d'.recompute.scopeOf? c' = d.recompute.scopeOf? c :=
    h.scopeOf?_recompute hd hd' halike fun _ _ a _ => h.value_recompute hd hd' a
  exact hsame

theorem countsEvaluated_recompute (h : d.Alike d') (hd : d.Keyed) (hd' : d'.Keyed) :
    d'.recompute.countsEvaluated = d.recompute.countsEvaluated := by
  funext id
  apply h.any_cell?_recompute hd hd'
  intro c c' r r' halike
  rw [h.scopeOf?_withResult hd hd' halike r r']
  exact congrArg (· && _) halike.evaluates

theorem countsLacking_recompute (h : d.Alike d') (hd : d.Keyed) (hd' : d'.Keyed) :
    d'.recompute.countsLacking = d.recompute.countsLacking := by
  funext id
  apply h.any_cell?_recompute hd hd'
  intro c c' r r' halike
  rw [h.scopeOf?_withResult hd hd' halike r r']
  exact congrArg (· && _) halike.evaluates

theorem perm_ordered (h : d.Alike d') (hd : d.Keyed) (hd' : d'.Keyed) :
    d'.buildGraph.order.ordered.Perm d.buildGraph.order.ordered := by
  apply (List.perm_ext_iff_of_nodup hd'.wellFormed_buildGraph.nodup_ordered
    hd.wellFormed_buildGraph.nodup_ordered).mpr
  intro id
  exact h.mem_ordered hd hd'

theorem perm_blocked (h : d.Alike d') (hd : d.Keyed) (hd' : d'.Keyed) :
    d'.buildGraph.order.blocked.Perm d.buildGraph.order.blocked := by
  apply (List.perm_ext_iff_of_nodup hd'.wellFormed_buildGraph.nodup_blocked
    hd.wellFormed_buildGraph.nodup_blocked).mpr
  intro id
  exact h.mem_blocked hd hd'

theorem errorCount_recompute (h : d.Alike d') (hd : d.Keyed) (hd' : d'.Keyed)
    (hfaithful : ∀ p ∈ d.cells, p.2.Faithful d.engine) :
    d'.recompute.errorCount = d.recompute.errorCount := by
  have hkeyed : d.recompute.Keyed := hd.recompute_spec.1.keyed hd
  have hkeyed' : d'.recompute.Keyed := hd'.recompute_spec.1.keyed hd'
  rw [hkeyed'.errorCount_eq, hkeyed.errorCount_eq, hd'.recompute_spec.1.keys,
    hd.recompute_spec.1.keys, h.keys.countP_eq]
  apply List.countP_congr
  intro id _
  rw [h.error_recompute hd hd' hfaithful]

/-- **Passes over the same cells count the same.** -/
theorem stats_recompute (h : d.Alike d') (hd : d.Keyed) (hd' : d'.Keyed)
    (hfaithful : ∀ p ∈ d.cells, p.2.Faithful d.engine) :
    d'.recompute.stats = d.recompute.stats := by
  rw [hd'.stats_recompute, hd.stats_recompute, hd'.recompute_spec.2.1, hd.recompute_spec.2.1,
    h.countsEvaluated_recompute hd hd', h.countsBehind_recompute hd hd',
    h.countsLacking_recompute hd hd', h.countsCycle_recompute hd hd',
    h.errorCount_recompute hd hd' hfaithful, (h.perm_ordered hd hd').countP_eq,
    (h.perm_ordered hd hd').countP_eq, (h.perm_blocked hd hd').countP_eq,
    (h.perm_blocked hd hd').countP_eq]

end Alike

/-! ### Documents of the same content -/

/-- What holds of a document between operations, whatever results its expressions have. -/
structure Sound (d : Document) : Prop where
  keyed : d.Keyed
  faithful : ∀ p ∈ d.cells, p.2.Faithful d.engine
  inputs : ∀ p ∈ d.cells, p.2.input?.isSome = true → p.2.evalError? = none

theorem Reachable.sound (h : d.Reachable) : d.Sound := by
  constructor
  · exact h.valid.keyed
  · exact h.valid.faithful
  · intro p hp hinput
    exact (h.tidy p hp).evalError (Or.inl hinput)

def DistinctNames (d : Document) : Prop :=
  ∀ a b ca cb, d.cell? a = some ca → d.cell? b = some cb → ca.name = cb.name → a = b

/-- The same cells under the same ids, in whatever order they were added. Their inputs
have the same values; the values of expressions, all errors of evaluations, the graphs
and the counts may differ. -/
structure SameContent (d d' : Document) : Prop where
  engine : d'.engine = d.engine
  context : d'.context = d.context
  keys : (Fields.keys d'.cells).Perm (Fields.keys d.cells)
  name : ∀ id c c', d.cell? id = some c → d'.cell? id = some c' → c'.name = c.name
  expression : ∀ id c c', d.cell? id = some c → d'.cell? id = some c' → c'.expression = c.expression
  input : ∀ id c c', d.cell? id = some c → d'.cell? id = some c' → c'.input? = c.input?
  value : ∀ id c c', d.cell? id = some c → d'.cell? id = some c' → c.input?.isSome = true →
    c'.value = c.value

theorem Keyed.named?_eq_some_iff (hd : d.Keyed) (hnames : d.DistinctNames) {n : String} :
    d.named? n = some id ↔ ∃ c, d.cell? id = some c ∧ c.name = n := by
  constructor
  · exact hd.cell?_of_named?
  · rintro ⟨c, hc, hname⟩
    cases hnamed : d.named? n with
    | none => exact absurd hname (named?_eq_none_iff.mp hnamed _ (mem_of_cell? hc))
    | some a =>
      obtain ⟨ca, hca, hname'⟩ := hd.cell?_of_named? hnamed
      rw [hnames a id ca c hca hc (hname'.trans hname.symm)]

namespace SameContent

theorem exists_cell? (h : d.SameContent d') (hc' : d'.cell? id = some c') :
    ∃ c, d.cell? id = some c :=
  exists_cell?_of_mem_keys (h.keys.mem_iff.mp (mem_keys_of_cell? hc'))

theorem exists_cell?' (h : d.SameContent d') (hc : d.cell? id = some c) :
    ∃ c', d'.cell? id = some c' :=
  exists_cell?_of_mem_keys (h.keys.mem_iff.mpr (mem_keys_of_cell? hc))

theorem distinctNames (h : d.SameContent d') (hnames : d.DistinctNames) : d'.DistinctNames := by
  intro a b ca' cb' hca' hcb' heq
  obtain ⟨ca, hca⟩ := h.exists_cell? hca'
  obtain ⟨cb, hcb⟩ := h.exists_cell? hcb'
  apply hnames a b ca cb hca hcb
  rw [← h.name a ca ca' hca hca', ← h.name b cb cb' hcb hcb']
  exact heq

theorem named? (h : d.SameContent d') (hd : d.Keyed) (hd' : d'.Keyed) (hnames : d.DistinctNames)
    (n : String) : d'.named? n = d.named? n := by
  apply Option.ext
  intro id
  rw [hd'.named?_eq_some_iff (h.distinctNames hnames), hd.named?_eq_some_iff hnames]
  constructor
  · rintro ⟨c', hc', hname⟩
    obtain ⟨c, hc⟩ := h.exists_cell? hc'
    exact ⟨c, hc, (h.name id c c' hc hc').symm.trans hname⟩
  · rintro ⟨c, hc, hname⟩
    obtain ⟨c', hc'⟩ := h.exists_cell?' hc
    exact ⟨c', hc', (h.name id c c' hc hc').trans hname⟩

theorem alike (h : d.SameContent d') (hd : d.Sound) (hd' : d'.Sound) (hnames : d.DistinctNames)
    (hcleared : d.Cleared) (hcleared' : d'.Cleared) : d.Alike d' := by
  refine ⟨h.engine, h.context, h.keys, ?_, ?_⟩
  · intro n
    have hnamed : d'.named? = d.named? := funext (h.named? hd.keyed hd'.keyed hnames)
    simp only [resolve?, hnamed]
  · intro id c c' hc hc'
    have hmem := mem_of_cell? hc
    have hmem' := mem_of_cell? hc'
    have hfaithful' : c'.Faithful d.engine := h.engine ▸ hd'.faithful _ hmem'
    obtain ⟨hexpr, hoffenses, hcompile⟩ :=
      (hd.faithful _ hmem).same_reading hfaithful' (h.expression id c c' hc hc')
    have hsafe : c'.isSafe = c.isSafe := congrArg List.isEmpty hoffenses
    have hinput := h.input id c c' hc hc'
    refine ⟨hexpr, hsafe, hcompile, congrArg Option.isSome hinput, ?_, ?_⟩
    · intro hsome
      have hsome' : c'.input?.isSome = true := by rw [hinput, hsome]
      rw [Cell.result, Cell.result, h.value id c c' hc hc' hsome, hd.inputs _ hmem hsome,
        hd'.inputs _ hmem' hsome']
    · intro hoffends
      rw [hcleared _ hmem hoffends, hcleared' _ hmem' (hsafe.trans hoffends)]

/-- **What a pass makes of a document depends on its content alone**, not on the order in which the
cells were added, nor on the results, the graph and the counts from before. -/
theorem recompute_agrees (h : d.SameContent d') (hd : d.Sound) (hd' : d'.Sound)
    (hnames : d.DistinctNames) (hcleared : d.Cleared) (hcleared' : d'.Cleared) :
    (∀ id, (d'.recompute.cell? id).map Cell.value = (d.recompute.cell? id).map Cell.value ∧
      (d'.recompute.cell? id).map Cell.error? = (d.recompute.cell? id).map Cell.error?) ∧
      d'.recompute.stats = d.recompute.stats := by
  have halike := h.alike hd hd' hnames hcleared hcleared'
  constructor
  · intro id
    constructor
    · exact halike.value_recompute hd.keyed hd'.keyed id
    · exact halike.error_recompute hd.keyed hd'.keyed hd.faithful id
  · exact halike.stats_recompute hd.keyed hd'.keyed hd.faithful

/-- An input and a cell that reads it, and the same cells the other way round, where the second
one was left on a cycle. -/
theorem recompute_agrees_reversed :
    let eng : Engine := ⟨.empty, .empty, .default⟩
    let x := Cell.create eng "x" ⟨none, "x", "", some ⟨"text", []⟩, []⟩
    let y := Cell.create eng "y" ⟨none, "y", "x", none, []⟩
    let y' := y.withResult (.null, some .circularReference)
    let d := { create eng [] with cells := [("x", x), ("y", y)] }
    let d' :=
      { create eng [] with cells := [("y", y'), ("x", x)], graph := Graph.empty.addEdge "y" "y" }
    d.SameContent d' ∧ d'.recompute.stats = d.recompute.stats := by
  intro eng x y y' d d'
  have hcell : ∀ p ∈ d.cells, p = ("x", x) ∨ p = ("y", y) := by simp [d]
  have hcell' : ∀ p ∈ d'.cells, p = ("y", y') ∨ p = ("x", x) := by simp [d']
  have hpair : ∀ id c c', d.cell? id = some c → d'.cell? id = some c' → c = x ∧ c' = x ∨
      c = y ∧ c' = y' := by
    intro id c c' hc hc'
    rcases hcell _ (mem_of_cell? hc) with h | h <;>
        rcases hcell' _ (mem_of_cell? hc') with h' | h' <;>
      obtain ⟨rfl, rfl⟩ := Prod.mk.inj h <;> obtain ⟨heq, rfl⟩ := Prod.mk.inj h' <;> simp_all
  have hfaithful : x.Faithful eng ∧ y.Faithful eng :=
    ⟨Cell.faithful_create _ _ _, Cell.faithful_create _ _ _⟩
  have hfaithful' : y'.Faithful eng := hfaithful.2.congr rfl rfl rfl rfl rfl
  have hinput : y.input? = none := Cell.input_create eng "y" _
  have hinput' : y'.input? = none := hinput
  have hcontent : d.SameContent d' := by
    refine ⟨rfl, rfl, List.Perm.swap .., ?_, ?_, ?_, ?_⟩ <;> intro id c c' hc hc' <;>
      rcases hpair id c c' hc hc' with ⟨rfl, rfl⟩ | ⟨rfl, rfl⟩
    case' refine_4.inr => simp [hinput]
    all_goals intros; rfl
  have hsound : d.Sound := by
    refine ⟨⟨by simp [d, Fields.keys], ?_⟩, ?_, ?_⟩ <;> intro p hp <;>
      rcases hcell p hp with rfl | rfl
    · exact Cell.id_create eng "x" _
    · exact Cell.id_create eng "y" _
    · exact hfaithful.1
    · exact hfaithful.2
    · exact fun _ => rfl
    · simp [hinput]
  have hsound' : d'.Sound := by
    refine ⟨⟨by simp [d', Fields.keys], ?_⟩, ?_, ?_⟩ <;> intro p hp <;>
      rcases hcell' p hp with rfl | rfl
    · exact Cell.id_create eng "y" _
    · exact Cell.id_create eng "x" _
    · exact hfaithful'
    · exact hfaithful.1
    · simp [hinput']
    · exact fun _ => rfl
  have hsafe : x.isSafe = true ∧ y.isSafe = true := ⟨rfl, by decide +kernel⟩
  refine ⟨hcontent, (hcontent.recompute_agrees hsound hsound' ?_ ?_ ?_).2⟩
  · intro a b ca cb hca hcb hname
    rcases hcell _ (mem_of_cell? hca) with ha | ha <;>
        rcases hcell _ (mem_of_cell? hcb) with hb | hb <;>
      obtain ⟨rfl, rfl⟩ := Prod.mk.inj ha <;> obtain ⟨rfl, rfl⟩ := Prod.mk.inj hb <;>
      simp_all [x, y]
  · intro p hp hoffends
    rcases hcell p hp with rfl | rfl <;> simp_all
  · intro p hp hoffends
    have hsafe' : y'.isSafe = true := hsafe.2
    rcases hcell' p hp with rfl | rfl <;> simp_all

end SameContent

end Document

end FormulaSheet
