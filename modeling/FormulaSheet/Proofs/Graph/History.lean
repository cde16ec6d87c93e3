import FormulaSheet.Proofs.Graph.Order
import Mathlib.Data.List.Chain

/-!
# Graphs with a history

A graph comes about from the empty one by adding and removing nodes and edges and by clearing it, in
any order. Such graphs are well formed (`wellFormed_built`). So they can be put in order without
counting below zero, and the order and what is left over are told by the edges alone
(`order_built`); and the search for circular references finds exactly the cells with a path back to
themselves (`isCircular_built`).
-/

namespace FormulaSheet.Graph

open Relation

/-- An operation on a graph. -/
inductive Operation where
  | addNode (id : CellId)
  | addEdge (precedent dependent : CellId)
  | removeNode (id : CellId)
  | clear

def Operation.apply (g : Graph) : Operation → Graph
  | addNode id => g.addNode id
  | addEdge precedent dependent => g.addEdge precedent dependent
  | removeNode id => g.removeNode id
  | clear => empty

/-- The graph that operations make of the empty one. -/
def built (ops : List Operation) : Graph := ops.foldl Operation.apply empty

variable {g : Graph} {a b id : CellId}

theorem WellFormed.apply (h : g.WellFormed) (op : Operation) : (op.apply g).WellFormed := by
  cases op with
  | addNode id => exact h.addNode id
  | addEdge precedent dependent => exact h.addEdge precedent dependent
  | removeNode id => exact h.removeNode id
  | clear => exact WellFormed.empty

theorem wellFormed_built (ops : List Operation) : (built ops).WellFormed := by
  suffices h : ∀ g : Graph, g.WellFormed → (ops.foldl Operation.apply g).WellFormed from
    h empty WellFormed.empty
  induction ops with
  | nil => exact fun _ hg => hg
  | cons op ops ih => exact fun g hg => ih _ (hg.apply op)

/-! ### Order -/

/-- A path that begins at a node runs between nodes. -/
theorem WellFormed.mem_nodes_of_path (h : g.WellFormed) (hpath : ReflTransGen g.Edge a b)
    (ha : a ∈ g.nodes) : b ∈ g.nodes := by
  induction hpath with
  | refl => exact ha
  | tail _ hedge _ => exact (h.ends _ _ hedge).2

theorem WellFormed.mem_nodes_of_cycle (h : g.WellFormed) (hcycle : TransGen g.Edge a a) :
    a ∈ g.nodes := by
  obtain ⟨b, hedge, -⟩ := TransGen.head'_iff.mp hcycle
  exact (h.ends a b hedge).1

theorem WellFormed.perm_order (h : g.WellFormed) :
    (g.order.ordered ++ g.order.blocked).Perm g.nodes := by
  apply (List.perm_ext_iff_of_nodup ?_ h.nodup_nodes).mpr
  · intro id
    rw [List.mem_append, mem_blocked]
    constructor
    · rintro (hid | ⟨hid, -⟩)
      · exact h.ordered_subset hid
      · exact hid
    · intro hid
      by_cases hordered : id ∈ g.order.ordered
      · exact Or.inl hordered
      · exact Or.inr ⟨hid, hordered⟩
  · refine List.nodup_append.mpr ⟨h.nodup_ordered, h.nodup_blocked, ?_⟩
    rintro id hordered _ hblocked rfl
    exact (mem_blocked.mp hblocked).2 hordered

/-- **The order of a graph with any history.** It comes about without counting below zero. Each node
is ordered or left over, once; a cell comes after all it reads; the cells that are left over are
those that can be reached from a cell on a cycle, in the order of the nodes; and the order begins
with the cells that read nothing, in the order of the nodes. -/
theorem order_built (ops : List Operation) :
    let g := built ops
    g.order? = some g.order ∧
      (g.order.ordered ++ g.order.blocked).Nodup ∧
      (∀ id, id ∈ g.order.ordered ++ g.order.blocked ↔ id ∈ g.nodes) ∧
      (∀ pre b post, g.order.ordered = pre ++ b :: post → ∀ a ∈ g.precedents b, a ∈ pre) ∧
      (∀ b, b ∈ g.order.blocked ↔ ∃ a, TransGen g.Edge a a ∧ ReflTransGen g.Edge a b) ∧
      g.order.blocked.Sublist g.nodes ∧
      (g.nodes.filter fun id => (g.precedents id).isEmpty) <+: g.order.ordered := by
  intro g
  have h : g.WellFormed := wellFormed_built ops
  obtain ⟨horder, -, hsources⟩ := h.order?_spec
  refine ⟨horder, ?_, fun id => h.perm_order.mem_iff, ?_, ?_, ?_, hsources⟩
  · exact h.perm_order.nodup_iff.mpr h.nodup_nodes
  · intro pre b post heq a ha
    exact h.order_before heq ((h.mem_precedents a b).mp ha)
  · intro b
    constructor
    · exact h.exists_cycle_of_blocked
    · rintro ⟨a, hcycle, hpath⟩
      have hb : b ∈ g.nodes := h.mem_nodes_of_path hpath (h.mem_nodes_of_cycle hcycle)
      exact (h.mem_blocked_iff hb).mpr ⟨a, hcycle, hpath⟩
  · rw [blocked_order]
    exact List.filter_sublist

/-! ### Circular references -/

theorem transGen_iff_isChain {r : CellId → CellId → Prop} :
    TransGen r a b ↔ ∃ path, List.IsChain r (a :: path ++ [b]) := by
  constructor
  · intro h
    induction h using TransGen.head_induction_on with
    | single hedge => exact ⟨[], .cons_cons hedge (.singleton b)⟩
    | @head a c hedge _ ih =>
      obtain ⟨path, hpath⟩ := ih
      exact ⟨c :: path, .cons_cons hedge hpath⟩
  · rintro ⟨path, hpath⟩
    induction path generalizing a with
    | nil => exact .single (List.isChain_cons_cons.mp hpath).1
    | cons c path ih =>
      obtain ⟨hedge, hrest⟩ := List.isChain_cons_cons.mp hpath
      exact .head hedge (ih hrest)

/-- **A cell of a graph with any history is circular exactly when a path of one or more edges leads
from it back to itself**, whether the edges are read off the dependents or off the precedents. A
cell that is no node has no such path. -/
theorem isCircular_built (ops : List Operation) (id : CellId) :
    let g := built ops
    (g.isCircular id = true ↔
      ∃ path, List.IsChain (fun a b => b ∈ g.dependents a ∧ a ∈ g.precedents b)
        (id :: path ++ [id])) ∧
      (g.contains id = false → g.isCircular id = false) := by
  intro g
  have h : g.WellFormed := wellFormed_built ops
  have hedge : (fun a b => b ∈ g.dependents a ∧ a ∈ g.precedents b) = g.Edge := by
    funext a b
    rw [h.mem_precedents, mem_dependents, and_self]
  rw [hedge, ← transGen_iff_isChain]
  refine ⟨isCircular_iff, fun hnone => ?_⟩
  rw [← Bool.not_eq_true, isCircular_iff]
  intro hcycle
  rw [contains, List.contains_iff_mem.mpr (h.mem_nodes_of_cycle hcycle)] at hnone
  cases hnone

end FormulaSheet.Graph
