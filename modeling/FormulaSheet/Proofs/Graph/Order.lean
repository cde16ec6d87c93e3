import FormulaSheet.Proofs.Graph.Path
import Mathlib.Data.Fintype.Pigeonhole
import Mathlib.Logic.Function.Iterate

/-!
# The order of evaluation

Taking ready cells one after the other keeps one invariant (`OrderState`): what is done or ready is
exactly what reads only cells that are done. When nothing is ready any more, the cells that are done
are therefore closed in both directions, and every cell comes after all it reads
(`orderState_order`). A cell is left over exactly when it lies on a cycle or behind one
(`mem_blocked_iff`): going back from a left-over cell to a left-over cell that it reads, again and
again, has to come to a cell twice.
-/

namespace FormulaSheet.Graph

open Relation

variable {g : Graph} {ready done : List CellId} {a b id : CellId}

/-- The state of the ordering: `done` in order, `ready` still to be taken. -/
structure OrderState (g : Graph) (ready done : List CellId) : Prop where
  nodup : (done ++ ready).Nodup
  nodes : done ++ ready ⊆ g.nodes
  /-- What is done or ready is exactly what reads only cells that are done. -/
  mem_iff : ∀ b ∈ g.nodes, b ∈ done ++ ready ↔ ∀ a, g.Edge a b → a ∈ done
  /-- What a cell reads is done before it. -/
  before : ∀ pre b post, done = pre ++ b :: post → ∀ a, g.Edge a b → a ∈ pre

/-- The dependents of a cell that become ready with it: all they read is done. -/
def readyAfter (g : Graph) (done : List CellId) (id : CellId) : List CellId :=
  (g.dependents id).filter fun b => (g.precedents b).all done.contains

theorem WellFormed.mem_readyAfter (h : g.WellFormed) :
    b ∈ g.readyAfter done id ↔ g.Edge id b ∧ ∀ a, g.Edge a b → a ∈ done := by
  simp [readyAfter, h.mem_precedents]

/-- The cells that read nothing. -/
def sources (g : Graph) : List CellId := g.nodes.filter fun id => (g.precedents id).isEmpty

/-- At the beginning the cells that read nothing are ready. -/
theorem WellFormed.orderState_start (h : g.WellFormed) :
    g.OrderState g.sources [] := by
  have hready : ∀ b, b ∈ g.sources ↔ b ∈ g.nodes ∧ ∀ a, ¬ g.Edge a b := by
    intro b
    simp [sources, List.isEmpty_iff, List.eq_nil_iff_forall_not_mem, h.mem_precedents]
  refine ⟨by simpa [sources] using h.nodup_nodes.filter _, by simp [sources], ?_, by simp⟩
  intro b hb
  rw [List.nil_append, hready b]
  simp [hb]

/-- Taking a ready cell keeps the invariant. -/
theorem WellFormed.orderState_take (h : g.WellFormed) (ho : g.OrderState (id :: ready) done) :
    g.OrderState (ready ++ g.readyAfter (done ++ [id]) id) (done ++ [id]) := by
  have hnodup := ho.nodup
  rw [List.append_cons] at hnodup
  have hid : id ∉ done := fun hmem =>
    (List.nodup_append.mp ho.nodup).2.2 id hmem id List.mem_cons_self rfl
  have hid_reads : ∀ a, g.Edge a id → a ∈ done :=
    (ho.mem_iff id (ho.nodes (by simp))).mp (by simp)
  -- what becomes ready was neither done nor ready, since it reads `id`
  have hfresh : ∀ b ∈ g.readyAfter (done ++ [id]) id, b ∉ (done ++ [id]) ++ ready := by
    intro b hb hmem
    obtain ⟨hedge, _⟩ := h.mem_readyAfter.mp hb
    rw [← List.append_cons] at hmem
    exact hid ((ho.mem_iff b (h.ends id b hedge).2).mp hmem id hedge)
  have hsub : g.readyAfter (done ++ [id]) id ⊆ g.nodes := fun b hb =>
    (h.ends id b (h.mem_readyAfter.mp hb).1).2
  refine ⟨?_, ?_, ?_, ?_⟩
  · rw [← List.append_assoc]
    refine List.nodup_append.mpr ⟨hnodup, (h.nodup_dependents id).filter _, ?_⟩
    rintro x hx y hy rfl
    exact hfresh x hy hx
  · rw [← List.append_assoc, ← List.append_cons]
    exact List.append_subset.mpr ⟨ho.nodes, hsub⟩
  · intro b hb
    rw [← List.append_assoc, List.mem_append, ← List.append_cons, ho.mem_iff b hb, h.mem_readyAfter]
    constructor
    · rintro (hdone | ⟨_, hdone⟩) a hab
      · exact List.mem_append_left _ (hdone a hab)
      · exact hdone a hab
    · intro hdone
      by_cases hedge : g.Edge id b
      · exact Or.inr ⟨hedge, hdone⟩
      · refine Or.inl fun a hab => ?_
        rcases List.mem_append.mp (hdone a hab) with ha | ha
        · exact ha
        · exact absurd (List.mem_singleton.mp ha ▸ hab) hedge
  · intro pre b post heq a hab
    rcases List.eq_nil_or_concat post with rfl | ⟨post, c, rfl⟩
    · obtain ⟨rfl, hb⟩ := List.append_inj' heq rfl
      rw [← List.singleton_inj.mp hb] at hab
      exact hid_reads a hab
    · rw [List.concat_eq_append, ← List.cons_append, ← List.append_assoc] at heq
      obtain ⟨rfl, _⟩ := List.append_inj' heq rfl
      exact ho.before pre b post rfl a hab

/-! ### Counting down -/

/-- The table says for each node how many of its precedents are not done. -/
def Counts (g : Graph) (done : List CellId) (degrees : Fields Nat) : Prop :=
  ∀ b, Fields.get? degrees b =
    if b ∈ g.nodes then some ((g.precedents b).countP fun a => !done.contains a) else none

/-- Cells that wait for something can be counted down, each once. Those that waited for one cell
queue behind. -/
theorem foldlM_countDown {ids : List CellId} {s : Schedule} (hnodup : ids.Nodup)
    (hwaits : ∀ b ∈ ids, ∃ n, Fields.get? s.degrees b = some (n + 1)) :
    ∃ degrees, ids.foldlM Schedule.countDown s =
        some ⟨degrees, s.ready ++ ids.filter fun b => Fields.get? s.degrees b == some 1,
          s.ordered⟩ ∧
      ∀ b, Fields.get? degrees b =
        if b ∈ ids then (Fields.get? s.degrees b).map (· - 1) else Fields.get? s.degrees b := by
  induction ids generalizing s with
  | nil => exact ⟨s.degrees, by simp, by simp⟩
  | cons id ids ih =>
    obtain ⟨hid, hnodup⟩ := List.nodup_cons.mp hnodup
    obtain ⟨n, hn⟩ := hwaits id List.mem_cons_self
    set t : Schedule := ⟨Fields.insert s.degrees id n, if n = 0 then s.ready ++ [id] else s.ready,
      s.ordered⟩ with ht
    have hstep : s.countDown id = some t := by rw [Schedule.countDown, hn]
    have hget : ∀ b, b ≠ id → Fields.get? t.degrees b = Fields.get? s.degrees b := fun b hb => by
      rw [ht, Fields.get?_insert, if_neg hb]
    have hother : ∀ b ∈ ids, b ≠ id := fun b hb he => hid (he ▸ hb)
    obtain ⟨degrees, hfold, hdegrees⟩ := ih (s := t) hnodup fun b hb => by
      rw [hget b (hother b hb)]
      exact hwaits b (List.mem_cons_of_mem _ hb)
    refine ⟨degrees, ?_, fun b => ?_⟩
    · rw [List.foldlM_cons, hstep, Option.bind_eq_bind, Option.bind_some, hfold]
      have hfilter : ids.filter (fun b => Fields.get? t.degrees b == some 1) =
          ids.filter fun b => Fields.get? s.degrees b == some 1 :=
        List.filter_congr fun b hb => by rw [hget b (hother b hb)]
      rw [hfilter, List.filter_cons, hn]
      by_cases hzero : n = 0 <;> simp [ht, hzero]
    · rw [hdegrees]
      by_cases hb : b = id
      · subst hb
        simp [hid, ht, hn, Fields.get?_insert]
      · simp [hb, hget b hb]

/-- One more cell that is done is one less to count, where it is among the cells. -/
theorem countP_done {as : List CellId} (hnodup : as.Nodup) (hid : id ∉ done) :
    (as.countP fun a => !done.contains a) =
      (as.countP fun a => !(done ++ [id]).contains a) + if id ∈ as then 1 else 0 := by
  induction as with
  | nil => simp
  | cons a as ih =>
    obtain ⟨ha, hnodup⟩ := List.nodup_cons.mp hnodup
    rw [List.countP_cons, List.countP_cons, ih hnodup]
    by_cases he : a = id
    · subst he
      simp [ha, hid]
    · have he' : ¬ id = a := fun h => he h.symm
      by_cases hdone : a ∈ done <;> simp [hdone, he, he', Nat.add_right_comm]

/-- Taking a ready cell counts its dependents down, and what becomes ready queues behind. -/
theorem WellFormed.counts_take (h : g.WellFormed) {degrees : Fields Nat}
    (ho : g.OrderState (id :: ready) done) (hcounts : g.Counts done degrees) :
    ∃ degrees', (g.dependents id).foldlM Schedule.countDown ⟨degrees, ready, done ++ [id]⟩ =
        some ⟨degrees', ready ++ g.readyAfter (done ++ [id]) id, done ++ [id]⟩ ∧
      g.Counts (done ++ [id]) degrees' := by
  have hid : id ∉ done := fun hmem =>
    (List.nodup_append.mp ho.nodup).2.2 id hmem id List.mem_cons_self rfl
  have hcount : ∀ b, ((g.precedents b).countP fun a => !done.contains a) =
      ((g.precedents b).countP fun a => !(done ++ [id]).contains a) +
        if b ∈ g.dependents id then 1 else 0 := by
    intro b
    have hmem : id ∈ g.precedents b ↔ b ∈ g.dependents id := h.mem_precedents id b
    rw [countP_done (h.nodup_precedents b) hid]
    simp only [hmem]
  have hget : ∀ b ∈ g.dependents id, Fields.get? degrees b =
      some (((g.precedents b).countP fun a => !(done ++ [id]).contains a) + 1) := by
    intro b hb
    rw [hcounts b, if_pos (h.ends id b hb).2, hcount b, if_pos hb]
  obtain ⟨degrees', hfold, hdegrees⟩ := foldlM_countDown
    (s := ⟨degrees, ready, done ++ [id]⟩) (h.nodup_dependents id) fun b hb => ⟨_, hget b hb⟩
  refine ⟨degrees', ?_, fun b => ?_⟩
  · have hready : (g.dependents id).filter (fun b => Fields.get? degrees b == some 1) =
        g.readyAfter (done ++ [id]) id := by
      refine List.filter_congr fun b hb => ?_
      rw [hget b hb, Bool.eq_iff_iff]
      simp [or_iff_not_imp_left]
    rw [hfold, hready]
  · rw [hdegrees]
    dsimp only
    by_cases hb : b ∈ g.dependents id
    · rw [if_pos hb, hget b hb, if_pos (h.ends id b hb).2]
      rfl
    · rw [if_neg hb, hcounts b, hcount b, if_neg hb, Nat.add_zero]

/-- Taking ready cells until there are none comes to an end, and no number falls below zero on the
way. What is done or ready keeps its place. -/
theorem WellFormed.exists_drain (h : g.WellFormed) {s : Schedule}
    (ho : g.OrderState s.ready s.ordered) (hcounts : g.Counts s.ordered s.degrees) :
    ∃ ordered, g.drain s = some ordered ∧ g.OrderState [] ordered ∧
      s.ordered ++ s.ready <+: ordered := by
  fun_induction drain g s with
  | case1 degrees ordered => exact ⟨ordered, rfl, ho, by simp⟩
  | case2 degrees id ready ordered hnone =>
    obtain ⟨degrees', hfold, -⟩ := h.counts_take ho hcounts
    rw [hnone] at hfold
    cases hfold
  | case3 degrees id ready ordered s hfold _ ih =>
    obtain ⟨degrees', hfold', hcounts'⟩ := h.counts_take ho hcounts
    obtain rfl := Option.some.inj (hfold.symm.trans hfold')
    obtain ⟨all, hdrain, hall, hprefix⟩ := ih (h.orderState_take ho) hcounts'
    refine ⟨all, hdrain, hall, List.IsPrefix.trans ?_ hprefix⟩
    simp

theorem get?_start (ids : List CellId) (f : CellId → Nat) (b : CellId) :
    Fields.get? (ids.map fun id => (id, f id)) b = if b ∈ ids then some (f b) else none := by
  induction ids with
  | nil => rfl
  | cons id ids ih =>
    rw [List.map_cons, Fields.get?_cons, ih]
    by_cases hb : b = id <;> simp [hb]

theorem ready_start (g : Graph) : g.start.ready = g.sources := by
  refine List.filter_congr fun b hb => ?_
  rw [get?_start, if_pos hb, Bool.eq_iff_iff]
  simp

theorem counts_start (g : Graph) : g.Counts [] g.start.degrees := by
  intro b
  rw [start, get?_start]
  simp

/-- The cells can be put in order. The order begins with the cells that read nothing. -/
theorem WellFormed.order?_spec (h : g.WellFormed) :
    g.order? = some g.order ∧ g.OrderState [] g.order.ordered ∧ g.sources <+: g.order.ordered := by
  have ho : g.OrderState g.start.ready g.start.ordered := by
    rw [ready_start]
    exact h.orderState_start
  obtain ⟨ordered, hdrain, hordered, hprefix⟩ := h.exists_drain ho g.counts_start
  have horder : g.order? = some ⟨ordered, g.nodes.filter fun id => !ordered.contains id⟩ := by
    rw [order?, hdrain, Option.map_some]
  rw [order, horder, Option.getD_some]
  rw [ready_start] at hprefix
  exact ⟨rfl, hordered, hprefix⟩

theorem WellFormed.orderState_order (h : g.WellFormed) : g.OrderState [] g.order.ordered :=
  h.order?_spec.2.1

/-! ### What is ordered and what is not -/

theorem WellFormed.nodup_ordered (h : g.WellFormed) : g.order.ordered.Nodup := by
  simpa using h.orderState_order.nodup

theorem WellFormed.ordered_subset (h : g.WellFormed) : g.order.ordered ⊆ g.nodes := by
  simpa using h.orderState_order.nodes

theorem WellFormed.mem_ordered_iff (h : g.WellFormed) (hb : b ∈ g.nodes) :
    b ∈ g.order.ordered ↔ ∀ a, g.Edge a b → a ∈ g.order.ordered := by
  simpa using h.orderState_order.mem_iff b hb

theorem WellFormed.order_before (h : g.WellFormed) {pre post : List CellId}
    (heq : g.order.ordered = pre ++ b :: post) (hedge : g.Edge a b) : a ∈ pre :=
  h.orderState_order.before pre b post heq a hedge

/-- What holds of a cell as soon as it holds of all that leads to it, holds of all ordered cells. -/
theorem WellFormed.ordered_induction (h : g.WellFormed) {P : CellId → Prop}
    (hstep : ∀ b ∈ g.order.ordered, (∀ a, g.Edge a b → P a) → P b) :
    ∀ b ∈ g.order.ordered, P b := by
  have hprefix : ∀ pre post, g.order.ordered = pre ++ post → ∀ b ∈ pre, P b := by
    intro pre
    induction pre using List.reverseRecOn with
    | nil =>
      intro post _ b hb
      cases hb
    | append_singleton pre x ih =>
      intro post heq b hb
      rw [List.append_assoc] at heq
      have hpre := ih _ heq
      rcases List.mem_append.mp hb with hb | hb
      · exact hpre b hb
      · have hx : b = x := List.mem_singleton.mp hb
        subst hx
        apply hstep b
        · rw [heq]
          simp
        · intro a hedge
          exact hpre a (h.order_before heq hedge)
  exact hprefix _ [] (List.append_nil _).symm

/-- The cells that have no place are left over, in the order of the nodes. -/
theorem blocked_order (g : Graph) :
    g.order.blocked = g.nodes.filter fun id => !g.order.ordered.contains id := by
  rw [order, order?]
  cases g.drain g.start <;> simp

theorem mem_blocked : id ∈ g.order.blocked ↔ id ∈ g.nodes ∧ id ∉ g.order.ordered := by
  simp [blocked_order]

theorem WellFormed.nodup_blocked (h : g.WellFormed) : g.order.blocked.Nodup := by
  rw [blocked_order]
  exact h.nodup_nodes.filter _

/-- All that leads to an ordered cell is ordered, and before it. -/
theorem WellFormed.mem_before_of_path (h : g.WellFormed) (hpath : TransGen g.Edge a b)
    {pre post : List CellId} (heq : g.order.ordered = pre ++ b :: post) : a ∈ pre := by
  induction hpath generalizing pre post with
  | single hedge => exact h.order_before heq hedge
  | tail _ hedge ih =>
    have hmem := h.order_before heq hedge
    obtain ⟨pre', post', rfl⟩ := List.append_of_mem hmem
    rw [List.append_assoc, List.cons_append] at heq
    exact List.mem_append_left _ (ih heq)

/-- A cell on a cycle has no place in the order. -/
theorem WellFormed.not_mem_ordered_of_cycle (h : g.WellFormed) (hcycle : TransGen g.Edge a a) :
    a ∉ g.order.ordered := by
  intro hmem
  obtain ⟨pre, post, heq⟩ := List.append_of_mem hmem
  have hnodup := h.nodup_ordered
  rw [heq] at hnodup
  exact (List.nodup_append.mp hnodup).2.2 a (h.mem_before_of_path hcycle heq) a
    List.mem_cons_self rfl

/-- A cell that is left over reads one that is left over. -/
theorem WellFormed.exists_blocked_precedent (h : g.WellFormed) (hb : b ∈ g.order.blocked) :
    ∃ a ∈ g.order.blocked, g.Edge a b := by
  obtain ⟨hnode, hnot⟩ := mem_blocked.mp hb
  rw [h.mem_ordered_iff hnode] at hnot
  push Not at hnot
  obtain ⟨a, hedge, ha⟩ := hnot
  exact ⟨a, mem_blocked.mpr ⟨(h.ends a b hedge).1, ha⟩, hedge⟩

/-- Going back from a left-over cell along left-over cells comes to a cycle. -/
theorem WellFormed.exists_cycle_of_blocked (h : g.WellFormed) (hb : b ∈ g.order.blocked) :
    ∃ a, TransGen g.Edge a a ∧ ReflTransGen g.Edge a b := by
  choose back hback using fun x : {x // x ∈ g.order.blocked} => h.exists_blocked_precedent x.2
  let f : {x // x ∈ g.order.blocked} → {x // x ∈ g.order.blocked} :=
    fun x => ⟨back x, (hback x).1⟩
  have hf : ∀ x, g.Edge (f x).1 x.1 := fun x => (hback x).2
  have hwalk : ∀ k x, ReflTransGen g.Edge (f^[k] x).1 x.1 := by
    intro k
    induction k with
    | zero => exact fun x => .refl
    | succ k ih => exact fun x => (ih (f x)).tail (hf x)
  obtain ⟨m, n, hne, heq⟩ :=
    Finite.exists_ne_map_eq_of_infinite fun k : Nat => f^[k] ⟨b, hb⟩
  -- of the two visits, the longer way back starts at the shorter one
  have hcycle : ∀ i j, i < j → f^[i] ⟨b, hb⟩ = f^[j] ⟨b, hb⟩ →
      TransGen g.Edge (f^[i] ⟨b, hb⟩).1 (f^[i] ⟨b, hb⟩).1 := by
    intro i j hlt hij
    obtain ⟨k, rfl⟩ := Nat.exists_eq_add_of_lt hlt
    have hsplit : f^[i + k + 1] ⟨b, hb⟩ = f^[k] (f (f^[i] ⟨b, hb⟩)) := by
      rw [show i + k + 1 = (k + 1) + i by omega, Function.iterate_add_apply,
        Function.iterate_succ_apply]
    have hpath := TransGen.tail' (hwalk k (f (f^[i] ⟨b, hb⟩))) (hf (f^[i] ⟨b, hb⟩))
    rwa [← hsplit, ← hij] at hpath
  rcases Nat.lt_or_gt_of_ne hne with hlt | hlt
  · exact ⟨_, hcycle m n hlt heq, hwalk m _⟩
  · exact ⟨_, hcycle n m hlt heq.symm, hwalk n _⟩

/-- **The cells that are left over are those on a cycle and those behind one.** -/
theorem WellFormed.mem_blocked_iff (h : g.WellFormed) (hb : b ∈ g.nodes) :
    b ∈ g.order.blocked ↔ ∃ a, TransGen g.Edge a a ∧ ReflTransGen g.Edge a b := by
  refine ⟨h.exists_cycle_of_blocked, ?_⟩
  rintro ⟨a, hcycle, hpath⟩
  rw [mem_blocked]
  refine ⟨hb, fun hmem => ?_⟩
  rcases ReflTransGen.cases_tail hpath with rfl | ⟨c, hpath, hedge⟩
  · exact h.not_mem_ordered_of_cycle hcycle hmem
  · obtain ⟨pre, post, heq⟩ := List.append_of_mem hmem
    have ha : a ∈ pre := h.mem_before_of_path (TransGen.tail' hpath hedge) heq
    exact h.not_mem_ordered_of_cycle hcycle (heq ▸ List.mem_append_left _ ha)

end FormulaSheet.Graph
