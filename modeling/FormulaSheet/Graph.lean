import FormulaSheet.Distinct
import FormulaSheet.Fields

/-!
# Dependency graphs

An edge runs from a cell to a cell that reads it, and is filed on both sides: with the dependents of
the one and with the precedents of the other. Nodes and edges keep the order in which they were
added, and each occurs once, so that every traversal has one definite order.
-/

namespace FormulaSheet

abbrev CellId := String

/-- Lists of cells, each filed under a cell. -/
abbrev Adjacency := Fields (List CellId)

namespace Adjacency

/-- The list of a cell, which is empty where none is filed. -/
def row (m : Adjacency) (id : CellId) : List CellId := (Fields.get? m id).getD []

/-- Adds a cell to the list of another, unless it is there. -/
def link (m : Adjacency) (id item : CellId) : Adjacency :=
  Fields.insert m id (addNew (m.row id) item)

/-- Takes a cell from the list of another. -/
def unlink (m : Adjacency) (id item : CellId) : Adjacency :=
  Fields.modify m id (·.filter (· != item))

theorem row_link (m : Adjacency) (id item k : CellId) :
    (m.link id item).row k = if k = id then addNew (m.row id) item else m.row k := by
  simp only [row, link, Fields.get?_insert]
  split <;> rfl

theorem row_unlink (m : Adjacency) (id item k : CellId) :
    (m.unlink id item).row k = if k = id then (m.row k).filter (· != item) else m.row k := by
  simp only [row, unlink, Fields.get?_modify]
  split
  · cases Fields.get? m k <;> rfl
  · rfl

theorem row_erase (m : Adjacency) (id k : CellId) :
    row (Fields.erase m id) k = if k = id then [] else m.row k := by
  simp only [row, Fields.get?_erase]
  split <;> rfl

/-- Taking a cell from several lists. -/
theorem row_foldl_unlink (ids : List CellId) (m : Adjacency) (item k : CellId) :
    row (ids.foldl (fun m id => unlink m id item) m) k =
      if k ∈ ids then (m.row k).filter (· != item) else m.row k := by
  induction ids generalizing m with
  | nil => simp
  | cons id ids ih =>
    rw [List.foldl_cons, ih, row_unlink]
    by_cases hid : k = id <;> by_cases hk : k ∈ ids <;> simp [hid, hk]

/-- How many cells stand in the lists of the cells that were not visited. -/
def pending (m : Adjacency) (visited : List CellId) : Nat :=
  match m with
  | [] => 0
  | (id, items) :: m => (if visited.contains id then 0 else items.length) + pending m visited

theorem pending_cons_le (m : Adjacency) (id : CellId) (visited : List CellId) :
    m.pending (id :: visited) ≤ m.pending visited := by
  induction m with
  | nil => exact Nat.le_refl _
  | cons p m ih =>
    simp only [pending, List.contains_cons]
    cases p.1 == id with
    | true =>
      rw [Bool.true_or, if_pos rfl]
      omega
    | false =>
      rw [Bool.false_or]
      omega

/-- The list of a cell that is visited next is pending no longer. -/
theorem length_row_add_pending_le {m : Adjacency} {id : CellId} {visited : List CellId}
    (h : visited.contains id = false) :
    (m.row id).length + m.pending (id :: visited) ≤ m.pending visited := by
  induction m with
  | nil => exact Nat.le_refl _
  | cons p m ih =>
    have hcons : row (p :: m) id = if id = p.1 then p.2 else row m id := by
      unfold row
      rw [Fields.get?_cons]
      split <;> rfl
    rw [hcons]
    simp only [pending, List.contains_cons]
    by_cases hid : id = p.1
    · have hle := pending_cons_le m id visited
      subst hid
      simp only [beq_self_eq_true, Bool.true_or, if_true, h, Bool.false_eq_true, if_false]
      omega
    · have hne : (p.1 == id) = false := beq_eq_false_iff_ne.mpr fun he => hid he.symm
      rw [if_neg hid, hne, Bool.false_or]
      omega

end Adjacency

/-- Nodes, and the edges as they are filed under their precedents and under their dependents. -/
structure Graph where
  nodes : List CellId
  dependentsOf : Adjacency
  precedentsOf : Adjacency
deriving DecidableEq, Repr

namespace Graph

def empty : Graph := ⟨[], [], []⟩

def addNode (g : Graph) (id : CellId) : Graph := { g with nodes := addNew g.nodes id }

/-- Adds an edge and its ends, unless they are there. -/
def addEdge (g : Graph) (precedent dependent : CellId) : Graph :=
  ⟨addNew (addNew g.nodes precedent) dependent, g.dependentsOf.link precedent dependent,
    g.precedentsOf.link dependent precedent⟩

def contains (g : Graph) (id : CellId) : Bool := g.nodes.contains id

def dependents (g : Graph) (id : CellId) : List CellId := g.dependentsOf.row id

def precedents (g : Graph) (id : CellId) : List CellId := g.precedentsOf.row id

/-- Takes a cell out with all edges from it and to it. -/
def removeNode (g : Graph) (id : CellId) : Graph :=
  let dependentsOf := (g.precedents id).foldl (fun m a => Adjacency.unlink m a id) g.dependentsOf
  -- a cell that reads itself is by now no dependent of its own
  let precedentsOf :=
    (Adjacency.row dependentsOf id).foldl (fun m b => Adjacency.unlink m b id)
      (Fields.erase g.precedentsOf id)
  ⟨g.nodes.filter (· != id), Fields.erase dependentsOf id, precedentsOf⟩

/-! ### The order of evaluation -/

/-- The cells in the order of evaluation, and those that have none because they are on a cycle or
behind one. -/
structure Order where
  ordered : List CellId
  blocked : List CellId
deriving DecidableEq, Repr

/-- The ordering under way: how many of its precedents each cell waits for, the cells that are
ready, and those that have their place. -/
structure Schedule where
  degrees : Fields Nat
  ready : List CellId
  ordered : List CellId

namespace Schedule

/-- Counts down what a cell waits for, which makes it ready with the last one. For a cell that waits
for nothing there is no number below zero to count down to. -/
def countDown (s : Schedule) (id : CellId) : Option Schedule :=
  match Fields.get? s.degrees id with
  | none => some s
  | some 0 => none
  | some (n + 1) =>
    some ⟨Fields.insert s.degrees id n, if n = 0 then s.ready ++ [id] else s.ready, s.ordered⟩

/-- All that cells wait for. -/
def total : Fields Nat → Nat
  | [] => 0
  | p :: m => p.2 + total m

/-- Every step of the ordering makes this smaller. -/
def size (s : Schedule) : Nat := s.ready.length + total s.degrees

theorem total_insert {m : Fields Nat} {k : String} {n : Nat} (h : Fields.get? m k = some n)
    (v : Nat) : total (Fields.insert m k v) + n = total m + v := by
  induction m with
  | nil => cases h
  | cons p m ih =>
    rw [Fields.get?_cons] at h
    rw [Fields.insert]
    by_cases hk : k = p.1
    · rw [if_pos hk, Option.some.injEq] at h
      rw [if_pos hk.symm]
      simp only [total]
      omega
    · rw [if_neg hk] at h
      rw [if_neg fun he => hk he.symm]
      have := ih h
      simp only [total]
      omega

theorem size_countDown {s s' : Schedule} {id : CellId} (h : s.countDown id = some s') :
    s'.size ≤ s.size := by
  unfold countDown at h
  split at h
  · obtain rfl := Option.some.inj h
    exact Nat.le_refl _
  · cases h
  · rename_i n hget
    obtain rfl := Option.some.inj h
    have htotal := total_insert hget n
    simp only [size]
    split
    · rw [List.length_append, List.length_singleton]
      omega
    · omega

theorem size_foldlM {ids : List CellId} {s s' : Schedule} (h : ids.foldlM countDown s = some s') :
    s'.size ≤ s.size := by
  induction ids generalizing s with
  | nil =>
    obtain rfl := Option.some.inj h
    exact Nat.le_refl _
  | cons id ids ih =>
    rw [List.foldlM_cons] at h
    obtain ⟨t, ht, h⟩ := Option.bind_eq_some_iff.mp h
    exact Nat.le_trans (ih h) (size_countDown ht)

end Schedule

/-- At the beginning nothing has its place, and the cells that read nothing are ready. -/
def start (g : Graph) : Schedule :=
  let degrees := g.nodes.map fun id => (id, (g.precedents id).length)
  ⟨degrees, g.nodes.filter fun id => Fields.get? degrees id == some 0, []⟩

/-- Takes the cells that are ready one after the other. Their dependents wait for one cell less, and
queue behind when they become ready. -/
def drain (g : Graph) : Schedule → Option (List CellId)
  | ⟨_, [], ordered⟩ => some ordered
  | ⟨degrees, id :: ready, ordered⟩ =>
    match h : (g.dependents id).foldlM Schedule.countDown ⟨degrees, ready, ordered ++ [id]⟩ with
    | none => none
    | some s =>
      have := Schedule.size_foldlM h
      drain g s
termination_by s => s.size
decreasing_by
  simp only [Schedule.size, List.length_cons] at this ⊢
  omega

/-- The order of evaluation, unless a number of precedents would fall below zero. -/
def order? (g : Graph) : Option Order :=
  (g.drain g.start).map fun ordered => ⟨ordered, g.nodes.filter fun id => !ordered.contains id⟩

/-- The order of evaluation. Where edges are filed on both sides, there is one. -/
def order (g : Graph) : Order := g.order?.getD ⟨[], g.nodes⟩

/-! ### Circular references -/

/-- The target can be reached from the cells of a stack, whose top comes first. A cell is put on the
stack by every edge that leads to it, but is followed up only once. -/
def finds (g : Graph) (target : CellId) (stack visited : List CellId) : Bool :=
  match stack with
  | [] => false
  | next :: stack =>
    if next = target then true
    else if h : visited.contains next then g.finds target stack visited
    else
      have := Adjacency.length_row_add_pending_le (m := g.dependentsOf) (Bool.eq_false_iff.mpr h)
      g.finds target ((g.dependents next).reverse ++ stack) (next :: visited)
termination_by stack.length + g.dependentsOf.pending visited
decreasing_by
  · simp
  · simp only [dependents, List.length_append, List.length_reverse, List.length_cons]
    omega

def isCircular (g : Graph) (id : CellId) : Bool := g.finds id (g.dependents id).reverse []

end Graph

end FormulaSheet
