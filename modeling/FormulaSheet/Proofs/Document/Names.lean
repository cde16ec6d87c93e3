import FormulaSheet.Document.Recompute
import FormulaSheet.Proofs.Graph.Order

/-!
# Cells and names of a document

A document files each of its cells once, under the cell's own id (`Keyed`). What a name
refers to is decided by the names of the cells in their order (`names`) and by nothing else.
The graph of a document has an edge exactly where a name that an expression reads refers to a
cell (`edge_buildGraph`).
-/

namespace FormulaSheet.Document

variable {d d' : Document} {id : CellId} {c : Cell} {n : String}

/-! ### Cells by id -/

/-- Each cell is filed once, under its own id. -/
structure Keyed (d : Document) : Prop where
  nodup : (Fields.keys d.cells).Nodup
  id_eq : ∀ p ∈ d.cells, p.2.id = p.1

theorem mem_of_cell? (h : d.cell? id = some c) : (id, c) ∈ d.cells := Fields.mem_of_get? h

theorem Keyed.cell?_of_mem (hd : d.Keyed) {p : CellId × Cell} (h : p ∈ d.cells) :
    d.cell? p.1 = some p.2 :=
  Fields.get?_of_mem hd.nodup h

theorem Keyed.id_of_cell? (hd : d.Keyed) (h : d.cell? id = some c) : c.id = id :=
  hd.id_eq _ (mem_of_cell? h)

theorem cell?_eq_none_iff : d.cell? id = none ↔ id ∉ Fields.keys d.cells := Fields.get?_eq_none_iff

theorem mem_keys_of_cell? (h : d.cell? id = some c) : id ∈ Fields.keys d.cells :=
  Fields.mem_keys_of_mem (mem_of_cell? h)

theorem exists_cell?_of_mem_keys (h : id ∈ Fields.keys d.cells) : ∃ c, d.cell? id = some c :=
  Option.isSome_iff_exists.mp (Fields.isSome_get?_iff.mpr h)

/-- In a keyed document a cell is replaced in its place. -/
theorem Keyed.cells_putCell (hd : d.Keyed) (h : d.cell? c.id ≠ none) :
    (d.putCell c).cells = Fields.modify d.cells c.id fun _ => c := by
  rw [ne_eq, cell?_eq_none_iff, not_not] at h
  exact Fields.insert_eq_modify hd.nodup h c

/-- Replacing one cell changes only what belongs to it. -/
theorem Keyed.map_cells_putCell (hd : d.Keyed) (hc : d.cell? id = some c) {c' : Cell}
    (hid : c'.id = id) {β : Type} {g g' : CellId × Cell → β} (hsame : g (id, c') = g' (id, c))
    (hother : ∀ p ∈ d.cells, p.1 ≠ id → g p = g' p) :
    (d.putCell c').cells.map g = d.cells.map g' := by
  have hput : (d.putCell c').cells = Fields.modify d.cells id fun _ => c' := by
    rw [← hid]
    apply hd.cells_putCell
    rw [hid, hc]
    exact Option.some_ne_none c
  rw [hput, Fields.modify, List.map_map]
  refine List.map_congr_left fun p hp => ?_
  rw [Function.comp_apply]
  by_cases hp1 : p.1 = id
  · have hcell := hd.cell?_of_mem hp
    rw [hp1, hc, Option.some.injEq] at hcell
    rw [if_pos hp1, hp1, hsame, hcell, ← hp1]
  · rw [if_neg hp1]
    exact hother p hp hp1

/-! ### What names refer to -/

/-- The names of the cells, in their order. -/
def names (d : Document) : List (CellId × String) := d.cells.map fun p => (p.1, p.2.name)

theorem named?_eq_find? : d.named? n = (d.names.find? fun p => p.2 == n).map Prod.fst := by
  simp only [named?, names, List.find?_map, Option.map_map]
  rfl

theorem named?_congr (h : d'.names = d.names) (n : String) : d'.named? n = d.named? n := by
  rw [named?_eq_find?, named?_eq_find?, h]

/-- What names refer to depends on the names of the cells only. -/
theorem resolve?_congr (h : d'.names = d.names) (n : String) : d'.resolve? n = d.resolve? n := by
  have hnamed : d'.named? = d.named? := funext (named?_congr h)
  simp only [resolve?, hnamed]

theorem named?_eq_none_iff : d.named? n = none ↔ ∀ p ∈ d.cells, p.2.name ≠ n := by
  simp [named?]

theorem Keyed.cell?_of_named? (hd : d.Keyed) (h : d.named? n = some id) :
    ∃ c, d.cell? id = some c ∧ c.name = n := by
  obtain ⟨p, hfind, rfl⟩ := Option.map_eq_some_iff.mp h
  refine ⟨p.2, hd.cell?_of_mem (List.mem_of_find?_eq_some hfind), ?_⟩
  simpa using List.find?_some hfind

theorem resolve?_eq_some_iff :
    d.resolve? n = some id ↔
      d.named? n = some id ∨ d.named? n = none ∧ (bareName? n).bind d.named? = some id := by
  simp [resolve?, Option.or_eq_some_iff]

/-- A name refers to a cell of the document. -/
theorem Keyed.cell?_of_resolve? (hd : d.Keyed) (h : d.resolve? n = some id) :
    ∃ c, d.cell? id = some c := by
  rcases resolve?_eq_some_iff.mp h with h | ⟨_, h⟩
  · obtain ⟨c, hc, _⟩ := hd.cell?_of_named? h
    exact ⟨c, hc⟩
  · obtain ⟨m, _, hm⟩ := Option.bind_eq_some_iff.mp h
    obtain ⟨c, hc, _⟩ := hd.cell?_of_named? hm
    exact ⟨c, hc⟩

/-- The expression of the cell `b` reads a name that refers to the cell `a`. -/
def Reads (d : Document) (a b : CellId) : Prop :=
  ∃ c, d.cell? b = some c ∧ ∃ n ∈ c.dependencies d.engine, d.resolve? n = some a

/-! ### The graph -/

/-- The names that the expressions of the cells read, in the order of the cells. -/
def readNames (d : Document) : List (CellId × List String) :=
  d.cells.map fun p => (p.1, p.2.dependencies d.engine)

/-- The graph depends on the names that the cells read, and on what these refer to. -/
theorem buildGraph_congr (hreads : d'.readNames = d.readNames)
    (hresolve : ∀ p ∈ d.readNames, ∀ n ∈ p.2, d'.resolve? n = d.resolve? n) :
    d'.buildGraph = d.buildGraph := by
  have hbuild : ∀ d : Document, d.buildGraph =
      d.readNames.foldl (fun g p => (p.2.filterMap d.resolve?).foldl (fun g a => g.addEdge a p.1) g)
        (d.readNames.foldl (fun g p => g.addNode p.1) Graph.empty) := by
    intro d
    simp only [buildGraph, readNames, List.foldl_map]
  rw [hbuild d', hbuild d, hreads]
  apply List.foldl_ext
  intro g p hp
  rw [List.filterMap_congr (hresolve p hp)]

section Build

variable {g : Graph}

private theorem nodes_foldl (cells : Fields Cell) (g : Graph) (hg : g.WellFormed) :
    (cells.foldl (fun g p => g.addNode p.1) g).WellFormed ∧
      (∀ a, a ∈ (cells.foldl (fun g p => g.addNode p.1) g).nodes ↔
        a ∈ g.nodes ∨ a ∈ Fields.keys cells) ∧
      ∀ a b, (cells.foldl (fun g p => g.addNode p.1) g).Edge a b ↔ g.Edge a b := by
  induction cells generalizing g with
  | nil => simpa using hg
  | cons p cells ih =>
    obtain ⟨hwf, hnodes, hedges⟩ := ih (g.addNode p.1) (hg.addNode p.1)
    refine ⟨hwf, fun a => ?_, hedges⟩
    rw [List.foldl_cons, hnodes, Graph.mem_nodes_addNode, Fields.keys_cons, List.mem_cons, or_assoc]

private theorem edges_foldl_row (froms : List CellId) (id : CellId) (g : Graph)
    (hg : g.WellFormed) : (froms.foldl (fun g a => g.addEdge a id) g).WellFormed ∧
      (∀ a, a ∈ (froms.foldl (fun g a => g.addEdge a id) g).nodes ↔
        a ∈ g.nodes ∨ a ∈ froms ∨ a = id ∧ froms ≠ []) ∧
      ∀ a b, (froms.foldl (fun g a => g.addEdge a id) g).Edge a b ↔
        g.Edge a b ∨ a ∈ froms ∧ b = id := by
  induction froms generalizing g with
  | nil => simpa using hg
  | cons x froms ih =>
    obtain ⟨hwf, hnodes, hedges⟩ := ih (g.addEdge x id) (hg.addEdge x id)
    refine ⟨hwf, fun a => ?_, fun a b => ?_⟩
    · rw [List.foldl_cons, hnodes, Graph.mem_nodes_addEdge]
      simp only [List.mem_cons, ne_eq, reduceCtorEq, not_false_eq_true, and_true]
      tauto
    · rw [List.foldl_cons, hedges, Graph.edge_addEdge]
      simp only [List.mem_cons]
      tauto

private theorem edges_foldl (froms : CellId × Cell → List CellId) (cells : Fields Cell) (g : Graph)
    (hg : g.WellFormed) (hends : ∀ p ∈ cells, p.1 ∈ g.nodes ∧ froms p ⊆ g.nodes) :
    (cells.foldl (fun g p => (froms p).foldl (fun g a => g.addEdge a p.1) g) g).WellFormed ∧
      (∀ a, a ∈ (cells.foldl (fun g p => (froms p).foldl (fun g a => g.addEdge a p.1) g) g).nodes ↔
        a ∈ g.nodes) ∧
      ∀ a b, (cells.foldl (fun g p => (froms p).foldl (fun g a => g.addEdge a p.1) g) g).Edge a b ↔
        g.Edge a b ∨ ∃ p ∈ cells, a ∈ froms p ∧ b = p.1 := by
  induction cells generalizing g with
  | nil => simpa using hg
  | cons p cells ih =>
    obtain ⟨hwf, hnodes, hedges⟩ := edges_foldl_row (froms p) p.1 g hg
    have hsame : ∀ a, a ∈ ((froms p).foldl (fun g a => g.addEdge a p.1) g).nodes ↔ a ∈ g.nodes := by
      intro a
      obtain ⟨hp, hfroms⟩ := hends p List.mem_cons_self
      rw [hnodes]
      refine ⟨?_, Or.inl⟩
      rintro (ha | ha | ⟨rfl, _⟩)
      · exact ha
      · exact hfroms ha
      · exact hp
    obtain ⟨hwf', hnodes', hedges'⟩ := ih _ hwf fun q hq => by
      obtain ⟨hq1, hq2⟩ := hends q (List.mem_cons_of_mem _ hq)
      exact ⟨(hsame _).mpr hq1, fun a ha => (hsame a).mpr (hq2 ha)⟩
    refine ⟨hwf', fun a => (hnodes' a).trans (hsame a), fun a b => ?_⟩
    rw [List.foldl_cons, hedges', hedges]
    simp only [List.mem_cons, exists_eq_or_imp]
    tauto

end Build

theorem Keyed.resolved_subset (hd : d.Keyed) (ns : List String) :
    ns.filterMap d.resolve? ⊆ Fields.keys d.cells := by
  intro a ha
  obtain ⟨n, _, hn⟩ := List.mem_filterMap.mp ha
  obtain ⟨c, hc⟩ := hd.cell?_of_resolve? hn
  exact mem_keys_of_cell? hc

theorem Keyed.buildGraph_spec (hd : d.Keyed) :
    d.buildGraph.WellFormed ∧ (∀ a, a ∈ d.buildGraph.nodes ↔ a ∈ Fields.keys d.cells) ∧
      ∀ a b, d.buildGraph.Edge a b ↔ d.Reads a b := by
  obtain ⟨hwf, hnodes, hedges⟩ := nodes_foldl d.cells Graph.empty Graph.WellFormed.empty
  have hnodes' : ∀ a, a ∈ (d.cells.foldl (fun g p => g.addNode p.1) Graph.empty).nodes ↔
      a ∈ Fields.keys d.cells := by
    intro a
    rw [hnodes]
    simp [Graph.empty]
  obtain ⟨hwf', hnodes'', hedges'⟩ := edges_foldl
    (fun p => (p.2.dependencies d.engine).filterMap d.resolve?) d.cells _ hwf fun p hp =>
      ⟨(hnodes' _).mpr (Fields.mem_keys_of_mem hp), fun a ha =>
        (hnodes' a).mpr (hd.resolved_subset _ ha)⟩
  refine ⟨hwf', fun a => (hnodes'' a).trans (hnodes' a), fun a b => ?_⟩
  have hnone : ¬ (d.cells.foldl (fun g p => g.addNode p.1) Graph.empty).Edge a b := by
    rw [hedges]
    exact Graph.not_edge_empty
  refine (hedges' a b).trans ⟨?_, ?_⟩
  · rintro (h | ⟨p, hp, ha, rfl⟩)
    · exact absurd h hnone
    · exact ⟨p.2, hd.cell?_of_mem hp, List.mem_filterMap.mp ha⟩
  · rintro ⟨c, hc, hn⟩
    exact Or.inr ⟨(b, c), mem_of_cell? hc, List.mem_filterMap.mpr hn, rfl⟩

theorem Keyed.wellFormed_buildGraph (hd : d.Keyed) : d.buildGraph.WellFormed := hd.buildGraph_spec.1

theorem Keyed.mem_nodes_buildGraph (hd : d.Keyed) :
    id ∈ d.buildGraph.nodes ↔ ∃ c, d.cell? id = some c := by
  rw [hd.buildGraph_spec.2.1]
  exact ⟨exists_cell?_of_mem_keys, fun ⟨_, hc⟩ => mem_keys_of_cell? hc⟩

/-- **The edges of the graph are the references that resolve.** -/
theorem Keyed.edge_buildGraph (hd : d.Keyed) {a b : CellId} : d.buildGraph.Edge a b ↔ d.Reads a b :=
  hd.buildGraph_spec.2.2 a b

end FormulaSheet.Document
