import FormulaSheet.Proofs.Graph.History

/-!
# The edges of a graph with a history

An edge of a graph is told by the operations that made the graph: it was added, and neither of its
ends was removed after it was added for the last time (`edge_built_iff`). Both tables of a graph are
lists of its edges in an order of their own. A node is removed by leaving the edges that touch it
out of both lists, and the order of all that remains is the same as before (`representation_built`).
-/

namespace FormulaSheet

namespace Adjacency

/-- The cells of all lists of a table, each behind the cell under which its list is filed. -/
def pairs (m : Adjacency) : List (CellId × CellId) := m.flatMap fun p => p.2.map (p.1, ·)

variable {m : Adjacency} {id item : CellId} {e : CellId × CellId}

theorem pairs_cons (p : CellId × List CellId) (m : Adjacency) :
    pairs (p :: m) = p.2.map (p.1, ·) ++ pairs m := rfl

/-- Where a cell has one list only, this is its row. -/
theorem snd_mem_row_of_mem_pairs (hkeys : (Fields.keys m).Nodup) (he : e ∈ m.pairs) :
    e.2 ∈ m.row e.1 := by
  obtain ⟨p, hp, he⟩ := List.mem_flatMap.mp he
  obtain ⟨b, hb, rfl⟩ := List.mem_map.mp he
  have hget : Fields.get? m p.1 = some p.2 := Fields.get?_of_mem hkeys hp
  rw [row, hget]
  exact hb

theorem pairs_erase (m : Adjacency) (id : CellId) :
    pairs (Fields.erase m id) = m.pairs.filter fun e => e.1 != id := by
  induction m with
  | nil => rfl
  | cons p m ih =>
    rw [pairs_cons, List.filter_append, ← ih, List.filter_map]
    by_cases hp : p.1 = id
    · have herase : Fields.erase (p :: m) id = Fields.erase m id := by simp [Fields.erase, hp]
      rw [herase]
      simp [Function.comp_def, hp]
    · have herase : Fields.erase (p :: m) id = p :: Fields.erase m id := by simp [Fields.erase, hp]
      have hne : (p.1 == id) = false := beq_eq_false_iff_ne.mpr hp
      rw [herase, pairs_cons]
      simp [Function.comp_def, bne, hne]

theorem pairs_unlink (m : Adjacency) (id item : CellId) :
    (m.unlink id item).pairs = m.pairs.filter fun e => !(e.1 == id && e.2 == item) := by
  induction m with
  | nil => rfl
  | cons p m ih =>
    have hcons : unlink (p :: m) id item =
        (if p.1 = id then (p.1, p.2.filter (· != item)) else p) :: unlink m id item := rfl
    rw [hcons, pairs_cons, pairs_cons, List.filter_append, ← ih, List.filter_map]
    by_cases hp : p.1 = id
    · simp [Function.comp_def, hp, bne]
    · have hne : (p.1 == id) = false := beq_eq_false_iff_ne.mpr hp
      simp [Function.comp_def, hp, hne]

/-- Taking a cell from several lists leaves its pairs out. -/
theorem pairs_foldl_unlink (ids : List CellId) (m : Adjacency) (item : CellId) :
    pairs (ids.foldl (fun m id => unlink m id item) m) =
      m.pairs.filter fun e => !(ids.contains e.1 && e.2 == item) := by
  induction ids generalizing m with
  | nil => simp
  | cons id ids ih =>
    rw [List.foldl_cons, ih, pairs_unlink, List.filter_filter]
    refine List.filter_congr fun e _ => ?_
    rw [List.contains_cons]
    cases e.1 == id <;> cases ids.contains e.1 <;> cases e.2 == item <;> rfl

theorem keys_foldl_unlink (ids : List CellId) (m : Adjacency) (item : CellId) :
    Fields.keys (ids.foldl (fun m id => unlink m id item) m) = Fields.keys m := by
  induction ids generalizing m with
  | nil => rfl
  | cons id ids ih => rw [List.foldl_cons, ih, unlink, Fields.keys_modify]

end Adjacency

namespace Graph

variable {g : Graph} {a b x : CellId}

/-! ### Tables -/

/-- No cell has two lists in a table. -/
structure SingleRows (g : Graph) : Prop where
  dependents : (Fields.keys g.dependentsOf).Nodup
  precedents : (Fields.keys g.precedentsOf).Nodup

theorem SingleRows.removeNode (h : g.SingleRows) (id : CellId) : (g.removeNode id).SingleRows := by
  constructor
  · change (Fields.keys (Fields.erase _ id)).Nodup
    rw [Fields.keys_erase, Adjacency.keys_foldl_unlink]
    exact h.dependents.filter _
  · change (Fields.keys (List.foldl _ _ _)).Nodup
    rw [Adjacency.keys_foldl_unlink, Fields.keys_erase]
    exact h.precedents.filter _

theorem SingleRows.apply (h : g.SingleRows) (op : Operation) : (op.apply g).SingleRows := by
  cases op with
  | addNode id => exact ⟨h.dependents, h.precedents⟩
  | addEdge precedent dependent =>
    exact ⟨Fields.nodup_keys_insert h.dependents _ _, Fields.nodup_keys_insert h.precedents _ _⟩
  | removeNode id => exact h.removeNode id
  | clear => exact ⟨List.nodup_nil, List.nodup_nil⟩

theorem singleRows_built (ops : List Operation) : (built ops).SingleRows := by
  suffices h : ∀ g : Graph, g.SingleRows → (ops.foldl Operation.apply g).SingleRows from
    h empty ⟨List.nodup_nil, List.nodup_nil⟩
  induction ops with
  | nil => exact fun _ hg => hg
  | cons op ops ih => exact fun g hg => ih _ (hg.apply op)

/-- The edge does not touch a cell. -/
def avoids (x : CellId) (e : CellId × CellId) : Bool := e.1 != x && e.2 != x

/-- The table of the dependents without the edges that touch a node. -/
theorem WellFormed.pairs_dependentsOf_removeNode (h : g.WellFormed) (hg : g.SingleRows)
    (x : CellId) :
    (g.removeNode x).dependentsOf.pairs = g.dependentsOf.pairs.filter (avoids x) := by
  change Adjacency.pairs (Fields.erase _ x) = _
  rw [Adjacency.pairs_erase, Adjacency.pairs_foldl_unlink, List.filter_filter]
  refine List.filter_congr fun e he => ?_
  have hedge : g.Edge e.1 e.2 := Adjacency.snd_mem_row_of_mem_pairs hg.dependents he
  unfold avoids
  by_cases hsnd : e.2 = x
  · -- an edge that leads to the node is filed with one of its precedents
    have hfst : e.1 ∈ g.precedents x := (h.mem_precedents e.1 x).mpr (hsnd ▸ hedge)
    simp [hsnd, hfst]
  · have hne : (e.2 == x) = false := beq_eq_false_iff_ne.mpr hsnd
    simp [bne, hne]

/-- The table of the precedents without the edges that touch a node. A node that reads itself is by
then no dependent of its own, but the row in which it stands is its own and goes as a whole. -/
theorem WellFormed.pairs_precedentsOf_removeNode (h : g.WellFormed) (hg : g.SingleRows)
    (x : CellId) :
    (g.removeNode x).precedentsOf.pairs = g.precedentsOf.pairs.filter (avoids x) := by
  change Adjacency.pairs (List.foldl _ _ _) = _
  rw [Adjacency.pairs_foldl_unlink, Adjacency.pairs_erase, List.filter_filter]
  refine List.filter_congr fun e he => ?_
  have hedge : e.2 ∈ g.precedents e.1 := Adjacency.snd_mem_row_of_mem_pairs hg.precedents he
  unfold avoids
  by_cases hfst : e.1 = x
  · simp [hfst]
  · by_cases hsnd : e.2 = x
    · have hdependent : e.1 ∈ Adjacency.row
          ((g.precedents x).foldl (fun m c => Adjacency.unlink m c x) g.dependentsOf) x := by
        have hmem : e.1 ∈ g.dependents x := (h.mem_precedents x e.1).mp (hsnd ▸ hedge)
        rw [Adjacency.row_foldl_unlink]
        split
        · exact List.mem_filter.mpr ⟨hmem, bne_iff_ne.mpr hfst⟩
        · exact hmem
      simp [hsnd, hdependent]
    · have hne : (e.2 == x) = false := beq_eq_false_iff_ne.mpr hsnd
      simp [bne, hne]

/-! ### Edges and operations -/

/-- The operation takes a cell out of the graph. -/
def Operation.removes (id : CellId) : Operation → Prop
  | removeNode x => x = id
  | clear => True
  | addNode _ | addEdge _ _ => False

/-- An operation keeps the edges whose ends it does not remove, and may add one. -/
theorem WellFormed.edge_apply (h : g.WellFormed) (op : Operation) :
    (op.apply g).Edge a b ↔ op = .addEdge a b ∨ (¬ op.removes a ∧ ¬ op.removes b) ∧ g.Edge a b := by
  cases op with
  | addNode id =>
    have hkept : ((Operation.addNode id).apply g).Edge a b ↔ g.Edge a b := Iff.rfl
    simp [hkept, Operation.removes]
  | addEdge precedent dependent =>
    have hadded : ((Operation.addEdge precedent dependent).apply g).Edge a b ↔
        g.Edge a b ∨ a = precedent ∧ b = dependent := edge_addEdge
    rw [hadded, or_comm]
    simp [Operation.removes, eq_comm]
  | removeNode id =>
    have hremoved : ((Operation.removeNode id).apply g).Edge a b ↔ g.Edge a b ∧ a ≠ id ∧ b ≠ id :=
      h.edge_removeNode
    rw [hremoved, and_comm]
    simp [Operation.removes, eq_comm]
  | clear =>
    have hcleared : ¬ ((Operation.clear).apply g).Edge a b := not_edge_empty
    simp [hcleared, Operation.removes]

/-- Something is in a list for the last time, and all that follows it has a property. -/
def LastWith {α : Type} (P : α → Prop) (y : α) (xs : List α) : Prop :=
  ∃ pre post, xs = pre ++ y :: post ∧ y ∉ post ∧ ∀ z ∈ post, P z

theorem lastWith_concat {α : Type} {P : α → Prop} {y z : α} {xs : List α} :
    LastWith P y (xs ++ [z]) ↔ z = y ∨ P z ∧ LastWith P y xs := by
  constructor
  · rintro ⟨pre, post, heq, hlast, hpost⟩
    rcases List.eq_nil_or_concat post with rfl | ⟨post, w, rfl⟩
    · exact Or.inl (List.singleton_inj.mp (List.append_inj' heq rfl).2)
    · rw [List.concat_eq_append, ← List.cons_append, ← List.append_assoc] at heq
      rw [List.concat_eq_append] at hlast hpost
      obtain ⟨rfl, hw⟩ := List.append_inj' heq rfl
      obtain rfl := List.singleton_inj.mp hw
      exact Or.inr ⟨hpost z (by simp), pre, post, rfl, fun hy => hlast (List.mem_append_left _ hy),
        fun v hv => hpost v (List.mem_append_left _ hv)⟩
  · rintro (rfl | ⟨hz, pre, post, rfl, hlast, hpost⟩)
    · exact ⟨xs, [], rfl, List.not_mem_nil, fun v hv => absurd hv List.not_mem_nil⟩
    · by_cases hy : y = z
      · subst hy
        exact ⟨pre ++ y :: post, [], rfl, List.not_mem_nil, fun v hv => absurd hv List.not_mem_nil⟩
      · refine ⟨pre, post ++ [z], by simp, ?_, ?_⟩
        · simp [hlast, hy]
        · intro v hv
          rcases List.mem_append.mp hv with hv | hv
          · exact hpost v hv
          · exact List.mem_singleton.mp hv ▸ hz

/-- **The edges of a graph are the added ones** neither of whose ends was removed after they were
added for the last time. -/
theorem edge_built_iff (ops : List Operation) (a b : CellId) :
    (built ops).Edge a b ↔ LastWith (fun op => ¬ op.removes a ∧ ¬ op.removes b)
    (.addEdge a b) ops := by
  induction ops using List.reverseRecOn with
  | nil =>
    refine iff_of_false not_edge_empty ?_
    rintro ⟨pre, post, heq, -⟩
    simp at heq
  | append_singleton ops op ih =>
    have hbuilt : built (ops ++ [op]) = op.apply (built ops) := List.foldl_concat ..
    rw [hbuilt, (wellFormed_built ops).edge_apply op, lastWith_concat, ih]

/-- **What a graph with any history holds.** An edge is filed with the dependents of one end exactly
where it is filed with the precedents of the other one; its ends are nodes; and nothing is held
twice. There is an edge exactly if it was added and neither of its ends was removed after it was
added for the last time. Removing a node leaves the node and the edges that touch it out, and keeps
the order of all other nodes and edges. -/
theorem representation_built (ops : List Operation) (x : CellId) :
    let g := built ops
    let g' := g.removeNode x
    (∀ a b, b ∈ g.dependents a ↔ a ∈ g.precedents b) ∧
      (∀ a b, b ∈ g.dependents a → a ∈ g.nodes ∧ b ∈ g.nodes) ∧
      (g.nodes.Nodup ∧ (∀ a, (g.dependents a).Nodup) ∧ (∀ b, (g.precedents b).Nodup) ∧
        (Fields.keys g.dependentsOf).Nodup ∧ (Fields.keys g.precedentsOf).Nodup) ∧
      (∀ a b, b ∈ g.dependents a ↔ ∃ pre post, ops = pre ++ .addEdge a b :: post ∧
        .addEdge a b ∉ post ∧ ∀ op ∈ post, ¬ op.removes a ∧ ¬ op.removes b) ∧
      g'.nodes = g.nodes.filter (· != x) ∧
      (g'.dependentsOf.pairs = g.dependentsOf.pairs.filter (avoids x) ∧
        ∀ a, g'.dependents a = if a = x then [] else (g.dependents a).filter (· != x)) ∧
      (g'.precedentsOf.pairs = g.precedentsOf.pairs.filter (avoids x) ∧
        ∀ b, g'.precedents b = if b = x then [] else (g.precedents b).filter (· != x)) := by
  intro g g'
  have h : g.WellFormed := wellFormed_built ops
  have hg : g.SingleRows := singleRows_built ops
  refine ⟨fun a b => (h.mem_precedents a b).symm, h.ends, ?_, edge_built_iff ops, rfl, ?_, ?_⟩
  · exact ⟨h.nodup_nodes, h.nodup_dependents, h.nodup_precedents, hg.dependents, hg.precedents⟩
  · exact ⟨h.pairs_dependentsOf_removeNode hg x, h.dependents_removeNode x⟩
  · exact ⟨h.pairs_precedentsOf_removeNode hg x, h.precedents_removeNode x⟩

/-- A node that reads itself is removed and added again, without the edges that it had. -/
example :
    (built [.addEdge "a" "a", .addEdge "a" "b", .addEdge "c" "b", .removeNode "a", .addNode "a"]) =
    ⟨["b", "c", "a"], [("c", ["b"])], [("b", ["c"])]⟩ := by decide

end Graph

end FormulaSheet
