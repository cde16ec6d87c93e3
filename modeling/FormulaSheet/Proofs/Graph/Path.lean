import FormulaSheet.Graph
import Mathlib.Data.List.Nodup
import Mathlib.Logic.Relation

/-!
# Paths in dependency graphs

The edges of a graph as a relation, and the search for circular references read as a statement about
paths. A graph that is built up by adding and removing nodes and edges holds nothing twice, has
every edge filed on both sides, and its edges run between its nodes (`WellFormed`). The search
follows up every cell that it comes to, and so a cell is circular exactly when a path of one or more
edges leads from it back to itself (`isCircular_iff`).
-/

namespace FormulaSheet.Graph

open Relation

/-- There is an edge from `a` to `b`: the cell `b` reads the cell `a`. -/
def Edge (g : Graph) (a b : CellId) : Prop := b ∈ g.dependents a

/-- Nothing occurs twice, edges are filed on both sides, and they run between nodes. -/
structure WellFormed (g : Graph) : Prop where
  nodup_nodes : g.nodes.Nodup
  nodup_dependents : ∀ a, (g.dependents a).Nodup
  nodup_precedents : ∀ b, (g.precedents b).Nodup
  mem_precedents : ∀ a b, a ∈ g.precedents b ↔ g.Edge a b
  ends : ∀ a b, g.Edge a b → a ∈ g.nodes ∧ b ∈ g.nodes

variable {g : Graph} {a b id : CellId}

@[simp] theorem mem_dependents : b ∈ g.dependents a ↔ g.Edge a b := Iff.rfl

/-! ### Building graphs -/

@[simp] theorem not_edge_empty : ¬ empty.Edge a b := List.not_mem_nil

@[simp] theorem mem_nodes_addNode : a ∈ (g.addNode id).nodes ↔ a ∈ g.nodes ∨ a = id := mem_addNew

@[simp] theorem mem_nodes_addEdge {c : CellId} :
    c ∈ (g.addEdge a b).nodes ↔ c ∈ g.nodes ∨ c = a ∨ c = b := by
  rw [addEdge, mem_addNew, mem_addNew, or_assoc]

theorem dependents_addEdge (g : Graph) (a b c : CellId) :
    (g.addEdge a b).dependents c = if c = a then addNew (g.dependents a) b else g.dependents c :=
  Adjacency.row_link g.dependentsOf a b c

theorem precedents_addEdge (g : Graph) (a b c : CellId) :
    (g.addEdge a b).precedents c = if c = b then addNew (g.precedents b) a else g.precedents c :=
  Adjacency.row_link g.precedentsOf b a c

@[simp] theorem edge_addEdge {c d : CellId} :
    (g.addEdge a b).Edge c d ↔ g.Edge c d ∨ c = a ∧ d = b := by
  rw [Edge, dependents_addEdge]
  split <;> rename_i hc
  · subst hc
    simp [mem_addNew]
  · simp [hc]

theorem WellFormed.empty : Graph.empty.WellFormed :=
  ⟨List.nodup_nil, fun _ => List.nodup_nil, fun _ => List.nodup_nil,
    fun _ _ => iff_of_false List.not_mem_nil not_edge_empty, fun _ _ h => absurd h not_edge_empty⟩

theorem WellFormed.addNode (h : g.WellFormed) (id : CellId) : (g.addNode id).WellFormed :=
  ⟨nodup_addNew h.nodup_nodes id, h.nodup_dependents, h.nodup_precedents, h.mem_precedents,
    fun a b hab => (h.ends a b hab).imp (fun ha => mem_addNew.mpr (Or.inl ha))
      fun hb => mem_addNew.mpr (Or.inl hb)⟩

theorem WellFormed.addEdge (h : g.WellFormed) (a b : CellId) : (g.addEdge a b).WellFormed := by
  refine ⟨nodup_addNew (nodup_addNew h.nodup_nodes a) b, fun c => ?_, fun c => ?_, fun c d => ?_,
    fun c d hcd => ?_⟩
  · rw [dependents_addEdge]
    split
    · exact nodup_addNew (h.nodup_dependents a) b
    · exact h.nodup_dependents c
  · rw [precedents_addEdge]
    split
    · exact nodup_addNew (h.nodup_precedents b) a
    · exact h.nodup_precedents c
  · rw [precedents_addEdge, edge_addEdge]
    split <;> rename_i hd
    · subst hd
      simp [mem_addNew, h.mem_precedents]
    · simp [hd, h.mem_precedents]
  · rw [mem_nodes_addEdge, mem_nodes_addEdge]
    rcases edge_addEdge.mp hcd with hcd | ⟨rfl, rfl⟩
    · obtain ⟨hc, hd⟩ := h.ends c d hcd
      exact ⟨Or.inl hc, Or.inl hd⟩
    · exact ⟨Or.inr (Or.inl rfl), Or.inr (Or.inr rfl)⟩

/-! ### Removing nodes -/

theorem mem_nodes_removeNode {c : CellId} : c ∈ (g.removeNode id).nodes ↔ c ∈ g.nodes ∧ c ≠ id := by
  simp [removeNode]

theorem filter_ne_of_not_mem {xs : List CellId} (h : id ∉ xs) : xs.filter (· != id) = xs := by
  rw [List.filter_eq_self]
  intro x hx
  rw [bne_iff_ne]
  rintro rfl
  exact h hx

/-- The dependents of the precedents of a cell, without the cell. -/
private theorem WellFormed.row_unlinked (h : g.WellFormed) (id a : CellId) :
    Adjacency.row ((g.precedents id).foldl (fun m c => Adjacency.unlink m c id) g.dependentsOf) a =
      (g.dependents a).filter (· != id) := by
  rw [Adjacency.row_foldl_unlink]
  split <;> rename_i ha
  · rfl
  · exact (filter_ne_of_not_mem fun hid => ha ((h.mem_precedents a id).mpr hid)).symm

/-- The other cells keep their dependents in their order, without the cell that is taken out. -/
theorem WellFormed.dependents_removeNode (h : g.WellFormed) (id a : CellId) :
    (g.removeNode id).dependents a = if a = id then [] else (g.dependents a).filter (· != id) := by
  simp only [removeNode, dependents, Adjacency.row_erase, h.row_unlinked]

theorem WellFormed.precedents_removeNode (h : g.WellFormed) (id b : CellId) :
    (g.removeNode id).precedents b = if b = id then [] else (g.precedents b).filter (· != id) := by
  change Adjacency.row (List.foldl _ _ _) b = _
  rw [Adjacency.row_foldl_unlink, h.row_unlinked, Adjacency.row_erase]
  by_cases hb : b = id
  · simp [hb]
  · rw [if_neg hb, if_neg hb]
    split <;> rename_i hmem
    · rfl
    · refine (filter_ne_of_not_mem fun hid => hmem ?_).symm
      exact List.mem_filter.mpr ⟨(h.mem_precedents id b).mp hid, bne_iff_ne.mpr hb⟩

theorem WellFormed.edge_removeNode (h : g.WellFormed) :
    (g.removeNode id).Edge a b ↔ g.Edge a b ∧ a ≠ id ∧ b ≠ id := by
  rw [Edge, h.dependents_removeNode]
  split <;> rename_i ha
  · simp [ha]
  · simp [ha]

theorem WellFormed.removeNode (h : g.WellFormed) (id : CellId) : (g.removeNode id).WellFormed := by
  refine ⟨h.nodup_nodes.filter _, fun a => ?_, fun b => ?_, fun a b => ?_, fun a b hab => ?_⟩
  · rw [h.dependents_removeNode]
    split
    · exact List.nodup_nil
    · exact (h.nodup_dependents a).filter _
  · rw [h.precedents_removeNode]
    split
    · exact List.nodup_nil
    · exact (h.nodup_precedents b).filter _
  · rw [h.precedents_removeNode, h.edge_removeNode]
    split <;> rename_i hb
    · simp [hb]
    · simp [hb, h.mem_precedents]
  · obtain ⟨hab, ha, hb⟩ := h.edge_removeNode.mp hab
    obtain ⟨ha', hb'⟩ := h.ends a b hab
    exact ⟨mem_nodes_removeNode.mpr ⟨ha', ha⟩, mem_nodes_removeNode.mpr ⟨hb', hb⟩⟩

/-! ### The search for circular references -/

/-- A path leaves what was visited through the stack. -/
theorem exists_path_of_stack {target : CellId} {stack visited : List CellId}
    (htarget : target ∉ visited)
    (hclosed : ∀ a ∈ visited, ∀ b, g.Edge a b → b ∈ visited ∨ b ∈ stack)
    (hpath : ReflTransGen g.Edge a target) (ha : a ∈ visited) :
    ∃ c ∈ stack, ReflTransGen g.Edge c target := by
  induction hpath using ReflTransGen.head_induction_on with
  | refl => exact absurd ha htarget
  | @head a b hedge hpath ih =>
    rcases hclosed a ha b hedge with hb | hb
    · exact ih hb
    · exact ⟨b, hb, hpath⟩

/-- Going on from a stack finds the target if a path leads to it from the stack, as long
as the target was not visited, and all that leads on from what was visited was visited
itself or stands on the stack. -/
theorem finds_iff {target : CellId} {stack visited : List CellId} (htarget : target ∉ visited)
    (hclosed : ∀ a ∈ visited, ∀ b, g.Edge a b → b ∈ visited ∨ b ∈ stack) :
    g.finds target stack visited = true ↔ ∃ a ∈ stack, ReflTransGen g.Edge a target := by
  fun_induction finds g target stack visited with
  | case1 visited => simp
  | case2 visited stack => exact iff_of_true rfl ⟨target, List.mem_cons_self, .refl⟩
  | case3 visited next stack hnext hseen ih =>
    have hseen : next ∈ visited := List.contains_iff_mem.mp hseen
    have hclosed' : ∀ a ∈ visited, ∀ b, g.Edge a b → b ∈ visited ∨ b ∈ stack := by
      intro a ha b hab
      rcases hclosed a ha b hab with hb | hb
      · exact Or.inl hb
      · rcases List.mem_cons.mp hb with rfl | hb
        · exact Or.inl hseen
        · exact Or.inr hb
    rw [ih htarget hclosed']
    constructor
    · rintro ⟨a, ha, hpath⟩
      exact ⟨a, List.mem_cons_of_mem _ ha, hpath⟩
    · rintro ⟨a, ha, hpath⟩
      rcases List.mem_cons.mp ha with rfl | ha
      · exact exists_path_of_stack htarget hclosed' hpath hseen
      · exact ⟨a, ha, hpath⟩
  | case4 visited next stack hnext hseen _ ih =>
    have htarget' : target ∉ next :: visited := fun hmem =>
      (List.mem_cons.mp hmem).elim (fun he => hnext he.symm) htarget
    have hclosed' : ∀ a ∈ next :: visited, ∀ b, g.Edge a b →
        b ∈ next :: visited ∨ b ∈ (g.dependents next).reverse ++ stack := by
      intro a ha b hab
      rcases List.mem_cons.mp ha with rfl | ha
      · exact Or.inr (List.mem_append_left _ (List.mem_reverse.mpr hab))
      · rcases hclosed a ha b hab with hb | hb
        · exact Or.inl (List.mem_cons_of_mem _ hb)
        · rcases List.mem_cons.mp hb with rfl | hb
          · exact Or.inl List.mem_cons_self
          · exact Or.inr (List.mem_append_right _ hb)
    rw [ih htarget' hclosed']
    constructor
    · rintro ⟨a, ha, hpath⟩
      rcases List.mem_append.mp ha with ha | ha
      · exact ⟨next, List.mem_cons_self, hpath.head (List.mem_reverse.mp ha)⟩
      · exact ⟨a, List.mem_cons_of_mem _ ha, hpath⟩
    · rintro ⟨a, ha, hpath⟩
      rcases List.mem_cons.mp ha with rfl | ha
      · rcases ReflTransGen.cases_head hpath with he | ⟨b, hab, hpath⟩
        · exact absurd he hnext
        · exact ⟨b, List.mem_append_left _ (List.mem_reverse.mpr hab), hpath⟩
      · exact ⟨a, List.mem_append_right _ ha, hpath⟩

/-- **A cell is circular exactly when a path leads from it back to itself.** -/
theorem isCircular_iff : g.isCircular id = true ↔ TransGen g.Edge id id := by
  rw [isCircular, finds_iff List.not_mem_nil fun a ha => absurd ha List.not_mem_nil,
    TransGen.head'_iff]
  simp only [List.mem_reverse, mem_dependents]

end FormulaSheet.Graph
