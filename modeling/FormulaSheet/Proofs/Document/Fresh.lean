import FormulaSheet.Proofs.Document.Quiet

/-!
# Stale documents

A document is fresh if one more pass would change nothing. Every operation that makes a pass leaves
a fresh document, and every other one keeps a fresh document fresh, except for one case: the rename
of a cell to which no expression refers, to a name that some expression reads. The expression then
refers to the renamed cell, but no event tells of it (`Captures`). From such a rename on the
document is stale until an operation makes a pass, so a run ends in a fresh document exactly if a
pass follows each such rename (`Initial.fresh_run_iff`).
-/

namespace FormulaSheet.Document

variable {d d' : Document} {id : CellId} {c : Cell} {op : Operation} {ops : List Operation}

/-- One more pass changes no cell, no node and no edge. -/
structure Fresh (d : Document) : Prop where
  cells : d.recompute.cells = d.cells
  nodes : ∀ a, a ∈ d.recompute.graph.nodes ↔ a ∈ d.graph.nodes
  edges : ∀ a b, d.recompute.graph.Edge a b ↔ d.graph.Edge a b

/-- The operation renames a cell to which no expression refers, and after it some expression
does. -/
def Captures (d : Document) (op : Operation) : Prop :=
  ∃ id name, op = .renameCell id name ∧ (∀ b, ¬ d.Reads id b) ∧ ∃ b, (d.step op).Reads id b

/-- No operation of a run makes a pass. -/
def Passless (d : Document) (ops : List Operation) : Prop :=
  ∀ pre op post, ops = pre ++ op :: post → ¬ MakesPass (d.run pre) op

/-! ### Settled documents -/

/-- The graph is that of the references, and every cell has the result that the document calls
for. -/
structure Settled (d : Document) : Prop where
  graph : d.graph = d.buildGraph
  results : ∀ id c, d.cell? id = some c → c.result = d.verdict c

theorem Keyed.foldl_visitBlocked_of_results (hd : d.Keyed) (ids : List CellId)
    (hids : ∀ id ∈ ids, ∃ c, d.cell? id = some c ∧ blockedOutcome d.graph c = c.result) :
    ∃ s, ids.foldl Document.visitBlocked d = { d with stats := s } := by
  induction ids generalizing d with
  | nil => exact ⟨d.stats, rfl⟩
  | cons id ids ih =>
    obtain ⟨c, hc, hresult⟩ := hids id List.mem_cons_self
    obtain ⟨s, hvisit⟩ := hd.visitBlocked hc
    rw [hresult, hd.setResult_result hc] at hvisit
    rw [List.foldl_cons, hvisit]
    exact ih ⟨hd.nodup, hd.id_eq⟩ fun id' hid' => hids id' (List.mem_cons_of_mem id hid')

theorem Keyed.foldl_visitOrdered_of_results (hd : d.Keyed) (ids : List CellId)
    (hids : ∀ id ∈ ids, ∃ c, d.cell? id = some c ∧ d.outcome c = c.result) :
    ∃ s, ids.foldl Document.visitOrdered d = { d with stats := s } := by
  induction ids generalizing d with
  | nil => exact ⟨d.stats, rfl⟩
  | cons id ids ih =>
    obtain ⟨c, hc, hresult⟩ := hids id List.mem_cons_self
    obtain ⟨s, hvisit⟩ := hd.visitOrdered hc
    rw [hresult, hd.setResult_result hc] at hvisit
    rw [List.foldl_cons, hvisit]
    refine ih ⟨hd.nodup, hd.id_eq⟩ fun id' hid' => ?_
    obtain ⟨c', hc', hresult'⟩ := hids id' (List.mem_cons_of_mem id hid')
    refine ⟨c', hc', ?_⟩
    rw [← hresult']
    exact outcome_congr rfl rfl fun _ _ => rfl

/-- A pass over a settled document changes nothing but the counts. -/
theorem Settled.recompute_eq (h : d.Settled) (hd : d.Keyed) :
    ∃ s, d.recompute = { d with stats := s } := by
  have hwf := hd.wellFormed_buildGraph
  have hkeyed : ∀ s : Stats, ({ d with stats := s } : Document).Keyed :=
    fun _ => ⟨hd.nodup, hd.id_eq⟩
  have hstart : ({ d with graph := d.buildGraph, stats := ⟨0, 0, 0, 0⟩ } : Document) =
      { d with stats := ⟨0, 0, 0, 0⟩ } := by
    rw [← h.graph]
  obtain ⟨s₁, hblocked⟩ := (hkeyed ⟨0, 0, 0, 0⟩).foldl_visitBlocked_of_results
    d.graph.order.blocked fun id hid => by
      have hnode := (Graph.mem_blocked.mp hid).1
      rw [h.graph] at hnode
      obtain ⟨c, hc⟩ := hd.mem_nodes_buildGraph.mp hnode
      have hresult := h.results id c hc
      rw [verdict, hd.id_of_cell? hc, if_pos hid] at hresult
      exact ⟨c, hc, hresult.symm⟩
  obtain ⟨s₂, hordered⟩ := (hkeyed s₁).foldl_visitOrdered_of_results
    d.graph.order.ordered fun id hid => by
      have hnode : id ∈ d.graph.nodes := by
        rw [h.graph] at hid ⊢
        exact hwf.ordered_subset hid
      have hnot : id ∉ d.graph.order.blocked := fun hmem => (Graph.mem_blocked.mp hmem).2 hid
      rw [h.graph] at hnode
      obtain ⟨c, hc⟩ := hd.mem_nodes_buildGraph.mp hnode
      have hresult := h.results id c hc
      rw [verdict, hd.id_of_cell? hc, if_neg hnot] at hresult
      refine ⟨c, hc, ?_⟩
      rw [hresult]
      exact outcome_congr rfl rfl fun _ _ => rfl
  unfold recompute
  rw [hstart]
  simp only [hblocked, hordered]
  exact ⟨_, rfl⟩

theorem Settled.fresh (h : d.Settled) (hd : d.Keyed) : d.Fresh := by
  obtain ⟨s, hs⟩ := h.recompute_eq hd
  constructor
  · rw [hs]
  · intro a
    rw [hs]
  · intro a b
    rw [hs]

theorem verdict_withResult (d : Document) (c : Cell) :
    d.verdict (c.withResult (d.verdict c)) = d.verdict c := by
  by_cases hblocked : c.id ∈ d.graph.order.blocked
  · have hverdict : ∀ r, d.verdict (c.withResult r) = blockedOutcome d.graph (c.withResult r) :=
      fun _ => if_pos hblocked
    rw [hverdict, verdict, if_pos hblocked]
    cases hsafe : c.isSafe with
    | false =>
      have hoffends : blockedOutcome d.graph c = c.result := by simp [blockedOutcome, hsafe]
      rw [hoffends, Cell.withResult_result, hoffends]
    | true =>
      have hsafe' : ∀ r, (c.withResult r).isSafe = true := fun _ => hsafe
      simp only [blockedOutcome, hsafe, hsafe']
      rfl
  · have hverdict : ∀ r, d.verdict (c.withResult r) = d.outcome (c.withResult r) :=
      fun _ => if_neg hblocked
    rw [hverdict, verdict, if_neg hblocked]
    cases hskip : !c.isSafe || c.input?.isSome with
    | true =>
      have hkept : d.outcome c = c.result := by simp only [outcome, hskip, if_true]
      rw [hkept, Cell.withResult_result, hkept]
    | false =>
      have hskip' : ∀ r, (!(c.withResult r).isSafe || (c.withResult r).input?.isSome) = false :=
        fun _ => hskip
      simp only [outcome, hskip, hskip']
      rfl

/-- **A pass settles a document.** -/
theorem Keyed.settled_recompute (hd : d.Keyed) : d.recompute.Settled := by
  obtain ⟨hshape, hgraph, hcells, -⟩ := hd.recompute_spec
  constructor
  · rw [hgraph, hshape.buildGraph]
  · intro id c hc
    obtain ⟨r, hr⟩ := hshape.symm.cell? hc
    have hcell := hcells id _ hr
    rw [hc, Option.some.injEq, Cell.withResult_withResult] at hcell
    have hresult : c.result = d.recompute.verdict (c.withResult r) := by
      have h := congrArg Cell.result hcell
      rwa [Cell.result_withResult] at h
    have hverdict := verdict_withResult d.recompute (c.withResult r)
    rw [Cell.withResult_withResult, ← hresult, Cell.withResult_result] at hverdict
    exact hverdict.symm

/-! ### Operations without a pass -/

theorem Quiet.reads_iff (h : d.Quiet d') {a b : CellId} :
    d'.Reads a b ↔
      ∃ c, d.cell? b = some c ∧ ∃ n ∈ c.dependencies d.engine, d'.resolve? n = some a := by
  constructor
  · rintro ⟨c', hc', n, hn, ha⟩
    obtain ⟨c, hc, hcore⟩ := h.symm.cell? hc'
    rw [h.engine, ← dependencies_of_core hcore] at hn
    exact ⟨c, hc, n, hn, ha⟩
  · rintro ⟨c, hc, n, hn, ha⟩
    obtain ⟨c', hc', hcore⟩ := h.cell? hc
    rw [← dependencies_of_core hcore, ← h.engine] at hn
    exact ⟨c', hc', n, hn, ha⟩

/-- Where all names that are read refer to what they did, a settled document stays settled. -/
theorem Settled.of_quiet (h : d.Settled) (hquiet : d.Quiet d')
    (hresolve : ∀ b c n, d.cell? b = some c → n ∈ c.dependencies d.engine →
      d'.resolve? n = d.resolve? n) (hd : d.Keyed) : d'.Settled := by
  have hbuild : d'.buildGraph = d.buildGraph := by
    refine buildGraph_congr hquiet.readNames fun p hp n hn => ?_
    obtain ⟨q, hq, rfl⟩ := List.mem_map.mp hp
    exact hresolve q.1 q.2 n (hd.cell?_of_mem hq) hn
  constructor
  · rw [hquiet.graph, h.graph, hbuild]
  · intro id c' hc'
    obtain ⟨c, hc, hcore⟩ := hquiet.symm.cell? hc'
    have houtcome : d'.outcome c = d.outcome c := by
      refine outcome_congr hquiet.engine hquiet.context fun n hn => ?_
      refine valueOf?_congr hquiet.context (hresolve id c n hc hn) fun a ha => ?_
      obtain ⟨ca, hca⟩ := hd.cell?_of_resolve? ha
      obtain ⟨ca', hca', hcore'⟩ := hquiet.cell? hca
      rw [hca, hca', Option.map_some, Option.map_some, value_of_core hcore']
    have hcore_verdict : ∀ x : Cell, d'.verdict x = d'.verdict x.core := fun _ => rfl
    rw [← result_of_core hcore, h.results id c hc, hcore_verdict, ← hcore, ← hcore_verdict, verdict,
      verdict, hquiet.graph, houtcome]

/-- A pass would add an edge: either a name that is read is the very name of a cell from which no
edge starts, or all edges start from cells that are read and some other cell is read as well. -/
inductive Outdated (d : Document) : Prop
  | exact {b : CellId} {c : Cell} {n : String} {z : CellId} (hc : d.cell? b = some c)
      (hn : n ∈ c.dependencies d.engine) (hz : d.named? n = some z)
      (hstart : ∀ y, ¬ d.graph.Edge z y)
  | loose {z y : CellId} (hread : ∀ a b, d.graph.Edge a b → ∃ y, d.Reads a y) (hz : d.Reads z y)
      (hstart : ∀ y, ¬ d.graph.Edge z y)

theorem Outdated.not_fresh (h : d.Outdated) (hd : d.Keyed) : ¬ d.Fresh := by
  have hedge : ∃ z y, d.Reads z y ∧ ¬ d.graph.Edge z y := by
    rcases h with ⟨hc, hn, hz, hstart⟩ | ⟨-, hz, hstart⟩
    · exact ⟨_, _, ⟨_, hc, _, hn, resolve?_eq_some_iff.mpr (Or.inl hz)⟩, hstart _⟩
    · exact ⟨_, _, hz, hstart _⟩
  obtain ⟨z, y, hz, hno⟩ := hedge
  intro hfresh
  apply hno
  rw [← hfresh.edges, hd.recompute_spec.2.1]
  exact hd.edge_buildGraph.mpr hz

theorem Outdated.of_quiet (h : d.Outdated) (hquiet : d.Quiet d') (hnames : d'.names = d.names) :
    d'.Outdated := by
  have hreads : ∀ {a b}, d.Reads a b → d'.Reads a b := by
    rintro a b ⟨c, hc, n, hn, ha⟩
    exact hquiet.reads_iff.mpr ⟨c, hc, n, hn, (resolve?_congr hnames n).trans ha⟩
  rcases h with ⟨hc, hn, hz, hstart⟩ | ⟨hread, hz, hstart⟩
  · obtain ⟨c', hc', hcore⟩ := hquiet.cell? hc
    rw [← dependencies_of_core hcore, ← hquiet.engine] at hn
    rw [← named?_congr hnames] at hz
    rw [← hquiet.graph] at hstart
    exact .exact hc' hn hz hstart
  · rw [← hquiet.graph] at hread hstart
    refine .loose (fun a b hab => ?_) (hreads hz) hstart
    obtain ⟨y, hy⟩ := hread a b hab
    exact ⟨y, hreads hy⟩

section Renamed

variable {new : String} (hquiet : d.Quiet d')
  (hnames : d'.names = d.names.map fun p => if p.1 = id then (p.1, new) else p)
  (hid : id ∈ Fields.keys d.cells) (hnew : d.named? new = none) (hreads : ∀ b, ¬ d.Reads id b)

include hquiet hnames hid hnew hreads

/-- What is read is still read after the rename, unless a name that is read is the new one. -/
theorem reads_renamed {a b : CellId}
    (hno : ∀ b c, d.cell? b = some c → new ∉ c.dependencies d.engine) (h : d.Reads a b) :
    d'.Reads a b := by
  obtain ⟨c, hc, n, hn, ha⟩ := h
  have hne : d.resolve? n ≠ some id := fun he => hreads b ⟨c, hc, n, hn, he⟩
  refine hquiet.reads_iff.mpr ⟨c, hc, n, hn, ?_⟩
  rw [resolve?_renamed hnames hid hnew hne, if_neg, ha]
  rintro (rfl | ⟨-, hnone⟩)
  · exact hno b c hc hn
  · rw [ha] at hnone
    cases hnone

/-- A capture leaves the document outdated, and so does a rename in an outdated document. -/
theorem outdated_renamed (hstart : ∀ y, ¬ d.graph.Edge id y)
    (hread : ∀ a b, d.graph.Edge a b → ∃ y, d.Reads a y)
    (hmore : (∃ b, d'.Reads id b) ∨ ∃ z y, d.Reads z y ∧ ∀ y, ¬ d.graph.Edge z y) :
    d'.Outdated := by
  by_cases hno : ∀ b c, d.cell? b = some c → new ∉ c.dependencies d.engine
  · have hstill : ∀ {a b}, d.Reads a b → d'.Reads a b :=
      reads_renamed hquiet hnames hid hnew hreads hno
    rw [← hquiet.graph] at hstart hread hmore
    have hread' : ∀ a b, d'.graph.Edge a b → ∃ y, d'.Reads a y := by
      intro a b hab
      obtain ⟨y, hy⟩ := hread a b hab
      exact ⟨y, hstill hy⟩
    rcases hmore with ⟨b, hb⟩ | ⟨z, y, hz, hz_start⟩
    · exact .loose hread' hb hstart
    · exact .loose hread' (hstill hz) hz_start
  · push Not at hno
    obtain ⟨b, c, hc, hn⟩ := hno
    obtain ⟨c', hc', hcore⟩ := hquiet.cell? hc
    rw [← dependencies_of_core hcore, ← hquiet.engine] at hn
    rw [← hquiet.graph] at hstart
    exact .exact hc' hn (named?_renamed_new hnames hid hnew) hstart

theorem Outdated.renamed (h : d.Outdated) : d'.Outdated := by
  rcases h with @⟨b, c, n, z, hc, hn, hz, hstart⟩ | ⟨hread, hz, hstart⟩
  · have hne : d.named? n ≠ some id := fun he =>
      hreads b ⟨c, hc, n, hn, resolve?_eq_some_iff.mpr (Or.inl he)⟩
    have hn_new : n ≠ new := by
      rintro rfl
      rw [hnew] at hz
      cases hz
    obtain ⟨c', hc', hcore⟩ := hquiet.cell? hc
    rw [← dependencies_of_core hcore, ← hquiet.engine] at hn
    rw [← hquiet.graph] at hstart
    rw [← named?_renamed hnames hn_new hne] at hz
    exact .exact hc' hn hz hstart
  · refine outdated_renamed hquiet hnames hid hnew hreads (fun y hy => ?_) hread
      (Or.inr ⟨_, _, hz, hstart⟩)
    obtain ⟨y', hy'⟩ := hread id y hy
    exact hreads y' hy'

end Renamed

theorem Valid.step_rename (hd : d.Valid) {new : String} (hren : d.Renamable id new)
    (hreads : ∀ b, ¬ d.Reads id b) :
    d.Quiet (d.step (.renameCell id new)) ∧
      (d.step (.renameCell id new)).names =
        (d.names.map fun p => if p.1 = id then (p.1, new) else p) ∧
      id ∈ Fields.keys d.cells ∧ d.named? new = none := by
  have hstep := (hd.step_eq (.renameCell id new)).2 fun hpass => by
    obtain ⟨-, b, hb⟩ := hpass
    exact hreads b hb
  have hedit : ∀ {c}, d.cell? id = some c →
      d.edit (.renameCell id new) = d.renameCells id c.name new := by
    intro c hc
    simp only [Document.edit, hc, if_pos hren]
  obtain ⟨c, hc, -, -, hnew⟩ := hren
  rw [hstep, hedit hc]
  exact ⟨hd.keyed.quiet_renameCells hreads c.name new, names_renameCells hd.keyed id c.name new,
    mem_keys_of_cell? hc, hnew⟩

/-- **What an operation without a pass makes of a settled document, and of an outdated one.** -/
theorem Valid.step_of_not_makesPass (hd : d.Valid) (h : ¬ MakesPass d op) :
    (d.Settled → ¬ Captures d op → (d.step op).Settled) ∧
      (d.Settled → Captures d op → (d.step op).Outdated) ∧
      (d.Outdated → (d.step op).Outdated) := by
  have hstep := (hd.step_eq op).2 h
  obtain ⟨hquiet, hnames | ⟨id, new, c, rfl, hc, hren, hreads, -⟩⟩ := hd.quiet_edit h
  · rw [← hstep] at hquiet hnames
    have hresolve := resolve?_congr hnames
    refine ⟨fun hs _ => hs.of_quiet hquiet (fun _ _ n _ _ => hresolve n) hd.keyed, fun _ hcap => ?_,
      fun ho => ho.of_quiet hquiet hnames⟩
    obtain ⟨id, name, -, hnot, b, hb⟩ := hcap
    obtain ⟨c, hc, n, hn, ha⟩ := hquiet.reads_iff.mp hb
    exact absurd ⟨c, hc, n, hn, (hresolve n).symm.trans ha⟩ (hnot b)
  · obtain ⟨hquiet, hnames, hid, hnew⟩ := hd.step_rename hren hreads
    have hedge : d.Settled → ∀ {a b}, d.graph.Edge a b → d.Reads a b := by
      intro hs a b hab
      rw [hs.graph] at hab
      exact hd.keyed.edge_buildGraph.mp hab
    refine ⟨fun hs hcap => ?_, fun hs hcap => ?_,
      fun ho => ho.renamed hquiet hnames hid hnew hreads⟩
    · refine hs.of_quiet hquiet (fun b c n hc hn => ?_) hd.keyed
      have hne : d.resolve? n ≠ some id := fun he => hreads b ⟨c, hc, n, hn, he⟩
      have hformula := resolve?_renamed hnames hid hnew hne
      rw [hformula, if_neg]
      intro hcaptured
      rw [if_pos hcaptured] at hformula
      exact hcap ⟨id, new, rfl, hreads, b, hquiet.reads_iff.mpr ⟨c, hc, n, hn, hformula⟩⟩
    · obtain ⟨id', new', hop, -, hafter⟩ := hcap
      obtain ⟨rfl, rfl⟩ := Operation.renameCell.inj hop
      refine outdated_renamed hquiet hnames hid hnew hreads (fun y hy => hreads y (hedge hs hy))
        (fun a b hab => ⟨b, hedge hs hab⟩) (Or.inl hafter)

/-- A rename that captures makes no pass. -/
theorem not_makesPass_of_captures (h : Captures d op) : ¬ MakesPass d op := by
  obtain ⟨id, name, rfl, hreads, -⟩ := h
  rintro ⟨-, b, hb⟩
  exact hreads b hb

/-- **Which renames capture:** those of a cell that no expression refers to, to a name that some
expression reads, as it is or after a dollar sign where that refers to nothing. -/
theorem Valid.captures_iff (hd : d.Valid) {name : String} :
    Captures d (.renameCell id name) ↔ d.Renamable id name ∧ (∀ b, ¬ d.Reads id b) ∧
      ∃ b c n, d.cell? b = some c ∧ n ∈ c.dependencies d.engine ∧
        (n = name ∨ bareName? n = some name ∧ d.resolve? n = none) := by
  constructor
  · rintro ⟨id', name', hop, hreads, b, hb⟩
    obtain ⟨rfl, rfl⟩ := Operation.renameCell.inj hop
    by_cases hren : d.Renamable id name
    · obtain ⟨hquiet, hnames, hid, hnew⟩ := hd.step_rename hren hreads
      obtain ⟨c, hc, n, hn, ha⟩ := hquiet.reads_iff.mp hb
      have hne : d.resolve? n ≠ some id := fun he => hreads b ⟨c, hc, n, hn, he⟩
      refine ⟨hren, hreads, b, c, n, hc, hn, ?_⟩
      by_contra hno
      rw [resolve?_renamed hnames hid hnew hne, if_neg hno] at ha
      exact hne ha
    · have hstep := (hd.step_eq (.renameCell id name)).2 fun hpass => hren hpass.1
      have hedit : d.edit (.renameCell id name) = d := by
        simp only [Document.edit]
        split
        · rw [if_neg hren]
        · rfl
      rw [hstep, hedit] at hb
      exact absurd hb (hreads b)
  · rintro ⟨hren, hreads, b, c, n, hc, hn, hcaptured⟩
    obtain ⟨hquiet, hnames, hid, hnew⟩ := hd.step_rename hren hreads
    have hne : d.resolve? n ≠ some id := fun he => hreads b ⟨c, hc, n, hn, he⟩
    have ha := resolve?_renamed hnames hid hnew hne
    rw [if_pos hcaptured] at ha
    exact ⟨id, name, rfl, hreads, b, hquiet.reads_iff.mpr ⟨c, hc, n, hn, ha⟩⟩

theorem Valid.settled_step (hd : d.Valid) (h : MakesPass d op) : (d.step op).Settled := by
  rw [(hd.step_eq op).1 h]
  exact (hd.edit op).keyed.settled_recompute

/-! ### Runs -/

theorem Initial.settled (h : Initial d) : d.Settled := by
  obtain ⟨eng, context, rfl⟩ | ⟨d₀, hvalid, -, rfl⟩ :=
    h.cases_rows (P := fun _ => True) (fun _ _ => trivial) fun _ _ _ _ => trivial
  · refine ⟨rfl, fun id c hc => ?_⟩
    cases hc
  · exact hvalid.keyed.settled_recompute

theorem run_append (d : Document) (xs ys : List Operation) : d.run (xs ++ ys) = (d.run xs).run ys :=
  List.foldl_append

theorem passless_concat :
    Passless d (ops ++ [op]) ↔ Passless d ops ∧ ¬ MakesPass (d.run ops) op := by
  constructor
  · intro h
    refine ⟨fun pre op' post heq => h pre op' (post ++ [op]) ?_, h ops op [] rfl⟩
    rw [heq, List.append_assoc, List.cons_append]
  · rintro ⟨h, hlast⟩ pre op' post heq
    rcases List.eq_nil_or_concat post with rfl | ⟨post, last, rfl⟩
    · obtain ⟨rfl, hop⟩ := List.append_inj' heq rfl
      rw [← List.head_eq_of_cons_eq hop]
      exact hlast
    · rw [List.concat_eq_append, ← List.cons_append, ← List.append_assoc] at heq
      obtain ⟨heq, -⟩ := List.append_inj' heq rfl
      exact h pre op' post heq

/-- The run ends settled if a pass follows every capture, and outdated if not. -/
theorem Initial.settled_or_outdated (h : Initial d) (ops : List Operation) :
    (d.run ops).Settled ∧ (∀ pre op post, ops = pre ++ op :: post → Captures (d.run pre) op →
        ¬ Passless ((d.run pre).step op) post) ∨
      (d.run ops).Outdated ∧ ∃ pre op post, ops = pre ++ op :: post ∧ Captures (d.run pre) op ∧
        Passless ((d.run pre).step op) post := by
  induction ops using List.reverseRecOn with
  | nil =>
    refine Or.inl ⟨h.settled, fun pre op post heq => ?_⟩
    simp at heq
  | append_singleton ops op ih =>
    have hd : (d.run ops).Valid := h.valid.run ops
    have hrun : d.run (ops ++ [op]) = (d.run ops).step op := run_append d ops [op]
    -- a capture earlier in the run, with the operations after it up to the last one
    have hsplit : ∀ {pre op' post}, ops ++ [op] = pre ++ op' :: post →
        (pre = ops ∧ op' = op ∧ post = []) ∨ ∃ post', post = post' ++ [op] ∧
        ops = pre ++ op' :: post' := by
      intro pre op' post heq
      rcases List.eq_nil_or_concat post with rfl | ⟨post, last, rfl⟩
      · obtain ⟨rfl, hop⟩ := List.append_inj' heq rfl
        exact Or.inl ⟨rfl, (List.head_eq_of_cons_eq hop).symm, rfl⟩
      · rw [List.concat_eq_append, ← List.cons_append, ← List.append_assoc] at heq
        obtain ⟨heq, hlast⟩ := List.append_inj' heq rfl
        rw [List.concat_eq_append, List.head_eq_of_cons_eq hlast]
        exact Or.inr ⟨post, rfl, heq⟩
    have hmiddle : ∀ {pre op' post}, ops = pre ++ op' :: post →
        ((d.run pre).step op').run post = d.run ops := by
      intro pre op' post heq
      rw [heq, run_append]
      rfl
    rw [hrun]
    by_cases hpass : MakesPass (d.run ops) op
    · refine Or.inl ⟨hd.settled_step hpass, fun pre op' post heq hcap hpassless => ?_⟩
      rcases hsplit heq with ⟨rfl, rfl, rfl⟩ | ⟨post', rfl, heq'⟩
      · exact not_makesPass_of_captures hcap hpass
      · rw [passless_concat, hmiddle heq'] at hpassless
        exact hpassless.2 hpass
    · obtain ⟨hsettled, hcaptured, houtdated⟩ := hd.step_of_not_makesPass hpass
      rcases ih with ⟨hs, hall⟩ | ⟨ho, pre, op', post, heq, hcap, hpassless⟩
      · by_cases hcap : Captures (d.run ops) op
        · refine Or.inr ⟨hcaptured hs hcap, ops, op, [], rfl, hcap, fun pre op post heq => ?_⟩
          simp at heq
        · refine Or.inl ⟨hsettled hs hcap, fun pre op' post heq hcap' hpassless => ?_⟩
          rcases hsplit heq with ⟨rfl, rfl, rfl⟩ | ⟨post', rfl, heq'⟩
          · exact hcap hcap'
          · exact hall pre op' post' heq' hcap' (passless_concat.mp hpassless).1
      · refine Or.inr ⟨houtdated ho, pre, op', post ++ [op], ?_, hcap, ?_⟩
        · rw [heq, List.append_assoc, List.cons_append]
        · rw [passless_concat, hmiddle heq]
          exact ⟨hpassless, hpass⟩

/-- **A run ends in a fresh document exactly if a pass follows each capture.** -/
theorem Initial.fresh_run_iff (h : Initial d) (ops : List Operation) :
    (d.run ops).Fresh ↔ ∀ pre op post, ops = pre ++ op :: post → Captures (d.run pre) op →
      ¬ Passless ((d.run pre).step op) post := by
  have hd : (d.run ops).Keyed := (h.valid.run ops).keyed
  rcases h.settled_or_outdated ops with ⟨hs, hall⟩ | ⟨ho, pre, op, post, heq, hcap, hpassless⟩
  · exact ⟨fun _ => hall, fun _ => hs.fresh hd⟩
  · refine ⟨fun hfresh => absurd hfresh (ho.not_fresh hd), fun hall => ?_⟩
    exact absurd hpassless (hall pre op post heq hcap)

/-- A rename that gives a name to what another expression reads, and no pass after it. -/
theorem not_fresh_after_capture :
    ¬ ((create ⟨.empty, .empty, .default⟩ []).run
      [.addCell "a" ⟨none, "x", "null", none, []⟩, .addCell "b" ⟨none, "z", "y", none, []⟩,
        .renameCell "a" "y"]).Fresh := by
  intro hfresh
  have hinitial : Initial (create ⟨.empty, .empty, .default⟩ []) := .create _ _
  set d := (create ⟨.empty, .empty, .default⟩ []).run
    [.addCell "a" ⟨none, "x", "null", none, []⟩,
      .addCell "b" ⟨none, "z", "y", none, []⟩] with hd_def
  have hd : d.Valid := hinitial.valid.run _
  have hreads : ∀ b, ¬ d.Reads "a" b := by
    intro b hb
    have hdependents : d.buildGraph.dependents "a" = [] := by decide +kernel
    have hedge := hd.keyed.edge_buildGraph.mpr hb
    rw [Graph.Edge, hdependents] at hedge
    cases hedge
  have ha : (d.cell? "a").map Cell.name = some "x" := by decide +kernel
  have hb : (d.cell? "b").map (Cell.dependencies d.engine) = some ["y"] := by decide +kernel
  obtain ⟨a, ha, hname⟩ := Option.map_eq_some_iff.mp ha
  obtain ⟨b, hb, hnames⟩ := Option.map_eq_some_iff.mp hb
  have hrenamable : d.Renamable "a" "y" := by
    refine ⟨a, ha, ?_, by decide +kernel, by decide +kernel⟩
    rw [hname]
    decide
  have hcaptures : Captures d (.renameCell "a" "y") :=
    hd.captures_iff.mpr ⟨hrenamable, hreads, "b", b, "y", hb, by simp [hnames], Or.inl rfl⟩
  refine (hinitial.fresh_run_iff _).mp hfresh
    [.addCell "a" ⟨none, "x", "null", none, []⟩, .addCell "b" ⟨none, "z", "y", none, []⟩]
    (.renameCell "a" "y") [] rfl hcaptures ?_
  intro pre op post heq
  cases pre <;> cases heq

end FormulaSheet.Document
