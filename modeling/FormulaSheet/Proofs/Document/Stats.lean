import FormulaSheet.Proofs.Document.Agreement
import Mathlib.Data.Set.Card

/-!
# What the statistics of a pass mean

The statistics of a pass are four numbers of cells. What they are meant to count can be said without
the pass: `meantStats`. They count just that, with two exceptions: a cell whose text cannot be read
counts as evaluated though its expression is not, and a cell with offenses does not count as a
member of the cycle it is on (`Reachable.stats_recomputeAll`). The idea: every count of a pass is
the number of cells of one kind in one part of the order of the graph, and what such a cell reads
stands in the document after the pass.
-/

namespace FormulaSheet

/-- The number of members of a list that pass a test, as the size of a set. -/
theorem countP_eq_ncard {α : Type} [DecidableEq α] {l : List α} (h : l.Nodup) (p : α → Bool) :
    l.countP p = {x | x ∈ l ∧ p x = true}.ncard := by
  rw [List.countP_eq_length_filter, ← List.toFinset_card_of_nodup (h.filter p),
    ← Set.ncard_coe_finset]
  congr 1
  ext x
  simp

namespace Document

variable {d : Document} {id : CellId} {c : Cell}

/-! ### Kinds of cells -/

/-- The text of the cell cannot be read. -/
def Unreadable (d : Document) (id : CellId) : Prop :=
  ∃ c, d.cell? id = some c ∧ ∃ e, d.engine.compile c.expression = .error e

/-- The expression of the cell has offenses. -/
def Offends (d : Document) (id : CellId) : Prop := ∃ c, d.cell? id = some c ∧ c.isSafe = false

/-- The cell shows an error. -/
def Fails (d : Document) (id : CellId) : Prop := ∃ c, d.cell? id = some c ∧ c.error? ≠ none

/-- A pass leaves the cell absent because something that its expression reads has no value. -/
def LeftAbsent (d : Document) (id : CellId) : Prop :=
  ∃ c, d.cell? id = some c ∧ c.isSafe = true ∧ c.input? = none ∧ ¬ d.OnCycle id ∧
    (d.BehindCycle id ∨ d.recompute.Lacks c)

/-- What the statistics of a pass are meant to be: how many cells the interpreter is run on,
how many are left absent without a run, how many show an error after the pass, and how many are
on a cycle of references. -/
noncomputable def meantStats (d : Document) : Stats :=
  ⟨{id | id ∈ d.interpreted}.ncard, {id | d.LeftAbsent id}.ncard, {id | d.recompute.Fails id}.ncard,
    {id | d.OnCycle id}.ncard⟩

/-- A document has finitely many cells. -/
theorem finite_of_cells {s : Set CellId} (h : ∀ id ∈ s, ∃ c, d.cell? id = some c) : s.Finite := by
  refine (List.finite_toSet (Fields.keys d.cells)).subset fun id hid => ?_
  obtain ⟨c, hc⟩ := h id hid
  exact mem_keys_of_cell? hc

theorem Unreadable.exists_cell (h : d.Unreadable id) : ∃ c, d.cell? id = some c := by
  obtain ⟨c, hc, -⟩ := h
  exact ⟨c, hc⟩

theorem OnCycle.exists_cell (h : d.OnCycle id) : ∃ c, d.cell? id = some c := by
  obtain ⟨a, -, c, hc, -⟩ := Relation.TransGen.tail'_iff.mp h
  exact ⟨c, hc⟩

theorem finite_unreadable (d : Document) : {id | d.Unreadable id}.Finite :=
  finite_of_cells fun _ => Unreadable.exists_cell

theorem finite_onCycle (d : Document) : {id | d.OnCycle id}.Finite :=
  finite_of_cells fun _ => OnCycle.exists_cell

/-! ### Cells whose text cannot be read -/

/-- Such a cell has the empty expression, and its error. -/
theorem Valid.of_unreadable (hd : d.Valid) (hc : d.cell? id = some c) (h : d.Unreadable id) :
    c.isSafe = true ∧ c.input? = none ∧ c.compileError? ≠ none ∧ c.dependencies d.engine = [] := by
  obtain ⟨c', hc', e, he⟩ := h
  obtain rfl := Option.some.inj (hc.symm.trans hc')
  have hfaithful := hd.faithful_of_cell? hc
  obtain ⟨hexpr, hoffenses, hcompile⟩ := hfaithful.error e he
  refine ⟨?_, ?_, ?_, Cell.dependencies_of_expr_empty hexpr⟩
  · rw [Cell.isSafe, hoffenses]
    rfl
  · by_contra hinput
    rw [hfaithful.input hinput, Cell.compile_blank] at he
    cases he
  · rw [hcompile]
    exact Option.some_ne_none e

/-- A cell without offenses that has an error of its text is one whose text cannot be read. -/
theorem Valid.unreadable_of_compileError (hd : d.Valid) (hc : d.cell? id = some c)
    (hsafe : c.isSafe = true) (h : c.compileError? ≠ none) : d.Unreadable id := by
  refine ⟨c, hc, ?_⟩
  cases hk : d.engine.compile c.expression with
  | error e => exact ⟨e, rfl⟩
  | ok k =>
    obtain ⟨-, hoffenses, hcompile⟩ := (hd.faithful_of_cell? hc).ok k hk
    rw [Cell.isSafe, hoffenses] at hsafe
    rw [hcompile, Compiled.disallowed?, Compiled.isSafe, if_pos hsafe] at h
    exact absurd rfl h

/-! ### Where the interpreter runs -/

theorem interpretedBy_subset (d : Document) (ids : List CellId) : d.interpretedBy ids ⊆ ids := by
  induction ids generalizing d with
  | nil => exact List.nil_subset []
  | cons x ids ih =>
    intro id hid
    rcases List.mem_append.mp hid with hid | hid
    · split at hid
      · obtain rfl := List.mem_singleton.mp hid
        exact List.mem_cons_self
      · cases hid
    · exact List.mem_cons_of_mem x (ih _ hid)

theorem interpreted_subset (d : Document) : d.interpreted ⊆ d.buildGraph.order.ordered :=
  interpretedBy_subset _ _

theorem Keyed.interprets_of_interpreted (hd : d.Keyed) (h : id ∈ d.interpreted) :
    ∃ c, d.cell? id = some c ∧ d.recompute.interprets c = true := by
  obtain ⟨c, hc⟩ := hd.cell?_of_ordered (d.interpreted_subset h)
  exact ⟨c, hc, ((hd.recompute_spec.2.2.2 id c hc).mp h).2⟩

/-! ### What the counts of a pass count -/

/-- What the visits find is told from the cells before the pass and what they read after it. -/
theorem Keyed.counts_recompute (hd : d.Keyed) (hc : d.cell? id = some c) :
    d.recompute.countsEvaluated id =
      (c.isSafe && c.input?.isNone && (d.recompute.scopeOf? c).isSome) ∧
      d.recompute.countsLacking id =
        (c.isSafe && c.input?.isNone && (d.recompute.scopeOf? c).isNone) ∧
      d.recompute.countsBehind id = (c.isSafe && !d.buildGraph.isCircular id) ∧
      d.recompute.countsCycle id = (c.isSafe && d.buildGraph.isCircular id) := by
  obtain ⟨-, hgraph, hcells, -⟩ := hd.recompute_spec
  simp only [countsEvaluated, countsLacking, countsBehind, countsCycle, hcells id c hc,
    Option.any_some, hgraph]
  exact ⟨rfl, rfl, rfl, rfl⟩

theorem Keyed.mem_ordered_buildGraph (hd : d.Keyed) (hc : d.cell? id = some c) :
    id ∈ d.buildGraph.order.ordered ↔ ¬ d.BehindCycle id := by
  have hnode := hd.mem_nodes_buildGraph.mpr ⟨c, hc⟩
  rw [← hd.mem_blocked_buildGraph hc, Graph.mem_blocked, not_and_not_right]
  exact ⟨fun h _ => h, fun h => h hnode⟩

theorem OnCycle.behindCycle (h : d.OnCycle id) : d.BehindCycle id := ⟨id, h, .refl⟩

theorem Valid.counts_evaluated_iff (hd : d.Valid) :
    id ∈ d.buildGraph.order.ordered ∧ d.recompute.countsEvaluated id = true ↔
      id ∈ d.interpreted ∨ d.Unreadable id := by
  have hspec := hd.keyed.recompute_spec.2.2.2
  constructor
  · rintro ⟨hordered, hcounts⟩
    obtain ⟨c, hc⟩ := hd.keyed.cell?_of_ordered hordered
    rw [(hd.keyed.counts_recompute hc).1, Bool.and_eq_true, Bool.and_eq_true] at hcounts
    obtain ⟨⟨hsafe, hinput⟩, hscope⟩ := hcounts
    cases hcompile : c.compileError? with
    | none =>
      left
      rw [hspec id c hc]
      simp [hordered, interprets, hsafe, hinput, hscope, hcompile]
    | some e =>
      right
      exact hd.unreadable_of_compileError hc hsafe (by simp [hcompile])
  · rintro (h | h)
    · obtain ⟨c, hc, hinterprets⟩ := hd.keyed.interprets_of_interpreted h
      refine ⟨d.interpreted_subset h, ?_⟩
      rw [(hd.keyed.counts_recompute hc).1]
      simp only [interprets, Bool.and_eq_true] at hinterprets ⊢
      exact ⟨hinterprets.1.1, hinterprets.2⟩
    · obtain ⟨c, hc⟩ := h.exists_cell
      obtain ⟨hsafe, hinput, -, hnone⟩ := hd.of_unreadable hc h
      have hlacks : ¬ d.recompute.Lacks c := by
        rintro ⟨n, hn, -⟩
        rw [hd.keyed.recompute_spec.1.engine, hnone] at hn
        cases hn
      rw [hd.keyed.mem_ordered_buildGraph hc, (hd.keyed.counts_recompute hc).1]
      rw [← scopeOf?_eq_none_iff, ← Ne, ← Option.isSome_iff_ne_none] at hlacks
      refine ⟨not_behindCycle_of_reads_nothing hc hnone, ?_⟩
      simp [hsafe, hinput, hlacks]

theorem Valid.not_unreadable_of_interpreted (hd : d.Valid) (h : id ∈ d.interpreted) :
    ¬ d.Unreadable id := by
  intro hunreadable
  obtain ⟨c, hc, hinterprets⟩ := hd.keyed.interprets_of_interpreted h
  simp only [interprets, Bool.and_eq_true, Option.isNone_iff_eq_none] at hinterprets
  exact (hd.of_unreadable hc hunreadable).2.2.1 hinterprets.1.2

theorem Valid.counts_absent_iff (hd : d.Valid) :
    id ∈ d.buildGraph.order.blocked ∧ d.recompute.countsBehind id = true ∨
      id ∈ d.buildGraph.order.ordered ∧ d.recompute.countsLacking id = true ↔ d.LeftAbsent id := by
  constructor
  · rintro (⟨hblocked, hcounts⟩ | ⟨hordered, hcounts⟩)
    · obtain ⟨c, hc⟩ := hd.keyed.cell?_of_blocked hblocked
      rw [(hd.keyed.counts_recompute hc).2.2.1, Bool.and_eq_true, Bool.not_eq_true',
        ← Bool.not_eq_true, hd.keyed.isCircular_buildGraph] at hcounts
      have hinput : c.input? = none := by
        by_contra hinput
        exact hd.not_mem_blocked_of_input hc hinput hblocked
      exact ⟨c, hc, hcounts.1, hinput, hcounts.2,
        Or.inl ((hd.keyed.mem_blocked_buildGraph hc).mp hblocked)⟩
    · obtain ⟨c, hc⟩ := hd.keyed.cell?_of_ordered hordered
      rw [(hd.keyed.counts_recompute hc).2.1, Bool.and_eq_true, Bool.and_eq_true,
        Option.isNone_iff_eq_none, Option.isNone_iff_eq_none, scopeOf?_eq_none_iff] at hcounts
      have hcycle : ¬ d.OnCycle id :=
        fun h => (hd.keyed.mem_ordered_buildGraph hc).mp hordered h.behindCycle
      exact ⟨c, hc, hcounts.1.1, hcounts.1.2, hcycle, Or.inr hcounts.2⟩
  · rintro ⟨c, hc, hsafe, hinput, hcycle, hreason⟩
    obtain ⟨-, hlacking, hbehind, -⟩ := hd.keyed.counts_recompute hc
    by_cases hbehindCycle : d.BehindCycle id
    · left
      rw [← hd.keyed.isCircular_buildGraph, Bool.not_eq_true] at hcycle
      exact ⟨(hd.keyed.mem_blocked_buildGraph hc).mpr hbehindCycle, by
        simp [hbehind, hsafe, hcycle]⟩
    · right
      have hnone := scopeOf?_eq_none_iff.mpr (hreason.resolve_left hbehindCycle)
      exact ⟨(hd.keyed.mem_ordered_buildGraph hc).mpr hbehindCycle, by
        simp [hlacking, hsafe, hinput, hnone]⟩

theorem Keyed.counts_cycle_iff (hd : d.Keyed) :
    id ∈ d.buildGraph.order.blocked ∧ d.recompute.countsCycle id = true ↔
      d.OnCycle id ∧ ¬ d.Offends id := by
  constructor
  · rintro ⟨hblocked, hcounts⟩
    obtain ⟨c, hc⟩ := hd.cell?_of_blocked hblocked
    rw [(hd.counts_recompute hc).2.2.2, Bool.and_eq_true, hd.isCircular_buildGraph] at hcounts
    refine ⟨hcounts.2, ?_⟩
    rintro ⟨c', hc', hoffends⟩
    obtain rfl := Option.some.inj (hc.symm.trans hc')
    rw [hcounts.1] at hoffends
    cases hoffends
  · rintro ⟨hcycle, hsafe⟩
    obtain ⟨c, hc⟩ := hcycle.exists_cell
    refine ⟨(hd.mem_blocked_buildGraph hc).mpr hcycle.behindCycle, ?_⟩
    rw [(hd.counts_recompute hc).2.2.2, Bool.and_eq_true, hd.isCircular_buildGraph]
    refine ⟨?_, hcycle⟩
    by_contra hoffends
    exact hsafe ⟨c, hc, Bool.not_eq_true _ ▸ hoffends⟩

theorem Keyed.errorCount_eq_ncard (hd : d.Keyed) : d.errorCount = {id | d.Fails id}.ncard := by
  rw [hd.errorCount_eq, countP_eq_ncard hd.nodup]
  congr 1
  ext id
  constructor
  · rintro ⟨hid, herror⟩
    obtain ⟨c, hc⟩ := exists_cell?_of_mem_keys hid
    rw [hc, Option.map_some, Option.any_some, Option.isSome_iff_ne_none] at herror
    exact ⟨c, hc, herror⟩
  · rintro ⟨c, hc, herror⟩
    refine ⟨mem_keys_of_cell? hc, ?_⟩
    rw [hc, Option.map_some, Option.any_some, Option.isSome_iff_ne_none]
    exact herror

/-! ### The statistics -/

/-- The statistics of a pass as sizes of sets. -/
theorem Valid.stats_eq (hd : d.Valid) :
    d.recompute.stats =
      ⟨{id | id ∈ d.interpreted}.ncard + {id | d.Unreadable id}.ncard, {id | d.LeftAbsent id}.ncard,
        {id | d.recompute.Fails id}.ncard, {id | d.OnCycle id ∧ ¬ d.Offends id}.ncard⟩ := by
  have hwf := hd.keyed.wellFormed_buildGraph
  have hkeyed : d.recompute.Keyed := hd.keyed.recompute_spec.1.keyed hd.keyed
  have hfinite : ∀ l : List CellId, ∀ p : CellId → Bool, {id | id ∈ l ∧ p id = true}.Finite :=
    fun l _ => (List.finite_toSet l).subset fun _ => And.left
  have hevaluated :
      {id | id ∈ d.buildGraph.order.ordered ∧ d.recompute.countsEvaluated id = true}.ncard =
      {id | id ∈ d.interpreted}.ncard + {id | d.Unreadable id}.ncard := by
    have hdisjoint : Disjoint {id | id ∈ d.interpreted} {id | d.Unreadable id} :=
      Set.disjoint_left.mpr fun _ => hd.not_unreadable_of_interpreted
    rw [← Set.ncard_union_eq hdisjoint (List.finite_toSet _) d.finite_unreadable]
    exact congrArg Set.ncard (Set.ext fun _ => hd.counts_evaluated_iff)
  have habsent : {id | id ∈ d.buildGraph.order.blocked ∧ d.recompute.countsBehind id = true}.ncard +
      {id | id ∈ d.buildGraph.order.ordered ∧ d.recompute.countsLacking id = true}.ncard =
        {id | d.LeftAbsent id}.ncard := by
    rw [← Set.ncard_union_eq _ (hfinite _ _) (hfinite _ _)]
    · exact congrArg Set.ncard (Set.ext fun _ => hd.counts_absent_iff)
    · exact Set.disjoint_left.mpr fun _ hblocked hordered =>
        (Graph.mem_blocked.mp hblocked.1).2 hordered.1
  have hcycles : {id | id ∈ d.buildGraph.order.blocked ∧ d.recompute.countsCycle id = true}.ncard =
      {id | d.OnCycle id ∧ ¬ d.Offends id}.ncard :=
    congrArg Set.ncard (Set.ext fun _ => hd.keyed.counts_cycle_iff)
  rw [hd.keyed.stats_recompute, hd.keyed.recompute_spec.2.1, countP_eq_ncard hwf.nodup_ordered,
    countP_eq_ncard hwf.nodup_blocked, countP_eq_ncard hwf.nodup_ordered,
    countP_eq_ncard hwf.nodup_blocked, hevaluated, habsent, hcycles, hkeyed.errorCount_eq_ncard]

/-- **What the statistics of a pass count.** They are what they are meant to be, except that
cells whose texts cannot be read count as evaluated and that cells with offenses do not count as
members of cycles. So they are what they are meant to be exactly if all texts can be read and no
cell on a cycle has offenses. -/
theorem Reachable.stats_recomputeAll (hd : d.Reachable) :
    d.recomputeAll.1 =
        ⟨{id | id ∈ d.interpreted}.ncard + {id | d.Unreadable id}.ncard,
          {id | d.LeftAbsent id}.ncard, {id | d.recompute.Fails id}.ncard,
          {id | d.OnCycle id ∧ ¬ d.Offends id}.ncard⟩ ∧
      (d.recomputeAll.1 = d.meantStats ↔ (∀ id, ¬ d.Unreadable id) ∧ ∀ id,
        d.OnCycle id → ¬ d.Offends id) := by
  have hstats : d.recomputeAll.1 = _ := hd.valid.stats_eq
  have hunreadable : {id | d.Unreadable id}.ncard = 0 ↔ ∀ id, ¬ d.Unreadable id := by
    rw [Set.ncard_eq_zero d.finite_unreadable, Set.eq_empty_iff_forall_notMem]
    rfl
  have hcycles : {id | d.OnCycle id ∧ ¬ d.Offends id}.ncard = {id | d.OnCycle id}.ncard ↔
      ∀ id, d.OnCycle id → ¬ d.Offends id := by
    have hsubset : {id | d.OnCycle id ∧ ¬ d.Offends id} ⊆ {id | d.OnCycle id} := fun id => And.left
    constructor
    · intro h id hid
      have hall := Set.eq_of_subset_of_ncard_le hsubset h.ge d.finite_onCycle
      have hmem : id ∈ {id | d.OnCycle id} := hid
      rw [← hall] at hmem
      exact hmem.2
    · intro h
      exact congrArg Set.ncard (Set.ext fun id => and_iff_left_of_imp (h id))
  refine ⟨hstats, ?_⟩
  rw [hstats, meantStats, Stats.mk.injEq, ← hunreadable, ← hcycles]
  simp

/-- A text that is no expression counts as evaluated, and a cell with an offense that reads itself
does not count as on a cycle. -/
theorem stats_recomputeAll_unreadable :
    let d := (create ⟨⟨["eval"], []⟩, .empty, .default⟩ []).run
      [.addCell "a" ⟨none, "a", ")", none, []⟩, .addCell "b" ⟨none, "b", "b + eval", none, []⟩]
    d.recomputeAll.1 = ⟨1, 0, 2, 0⟩ ∧ d.recomputeAll.1 ≠ d.meantStats ∧ d.interpreted = [] ∧
      d.OnCycle "b" := by
  intro d
  have hd : d.Reachable := (Initial.create _ _).reachable.run _
  have hcycle : d.OnCycle "b" := hd.valid.keyed.isCircular_buildGraph.mp (by decide +kernel)
  have hsafe : (d.cell? "b").map Cell.isSafe = some false := by decide +kernel
  refine ⟨by decide +kernel, fun hmeant => ?_, by decide +kernel, hcycle⟩
  exact (hd.stats_recomputeAll.2.mp hmeant).2 "b" hcycle (Option.map_eq_some_iff.mp hsafe)

end Document

end FormulaSheet
