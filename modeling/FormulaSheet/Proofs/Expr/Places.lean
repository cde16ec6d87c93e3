import FormulaSheet.Proofs.Expr.Nodes
import Mathlib.Data.List.Basic

/-!
# Places in an expression

A place in a tree is the list of the turns taken on the way down from the root. What stands at a
place is found without a walk over the tree (`Expr.nodeAt?`). The places of a tree come in the order
in which a text is read, each once (`Expr.sorted_places`), there is something at them and nothing
anywhere else (`Expr.mem_places_iff`), and what stands at them is the nodes of the tree
(`Expr.map_nodeAt_places`).
-/

namespace FormulaSheet.Expr

/-- What stands at a place: each step goes to a child, counted from the left. -/
def nodeAt? (e : Expr) : List Nat → Option Expr
  | [] => some e
  | i :: path => e.children[i]?.bind fun c => c.nodeAt? path

/-- The places of a tree: every place before those below it, and these from left to right. -/
def places (e : Expr) : List (List Nat) :=
  [] :: e.children.attach.zipIdx.flatMap fun c => (places c.1.1).map (c.2 :: ·)
termination_by sizeOf e
decreasing_by exact sizeOf_lt_of_mem_children c.1.2

variable {e v : Expr} {path : List Nat}

@[simp] theorem nodeAt_nil (e : Expr) : e.nodeAt? [] = some e := rfl

theorem nodeAt_cons (e : Expr) (i : Nat) (path : List Nat) :
    e.nodeAt? (i :: path) = e.children[i]?.bind fun c => c.nodeAt? path := rfl

theorem places_eq (e : Expr) :
    e.places = [] :: e.children.zipIdx.flatMap fun c => c.1.places.map (c.2 :: ·) := by
  have hattach : e.children.zipIdx = e.children.attach.zipIdx.map fun c => (c.1.1, c.2) :=
    calc e.children.zipIdx
        = (e.children.attach.map Subtype.val).zipIdx := by rw [List.attach_map_subtype_val]
      _ = e.children.attach.zipIdx.map (Prod.map Subtype.val id) := List.zipIdx_map ..
  rw [places, hattach, List.flatMap_map]

/-- There is something at the places of a tree and nowhere else. -/
theorem mem_places_iff : path ∈ e.places ↔ ∃ v, e.nodeAt? path = some v := by
  induction path generalizing e with
  | nil =>
    rw [places_eq]
    exact ⟨fun _ => ⟨e, rfl⟩, fun _ => List.mem_cons_self⟩
  | cons i path ih =>
    rw [places_eq, List.mem_cons, List.mem_flatMap, nodeAt_cons]
    constructor
    · rintro (h | ⟨⟨c, j⟩, hc, hpath⟩)
      · cases h
      · obtain ⟨path', hpath', hcons⟩ := List.mem_map.mp hpath
        obtain ⟨rfl, rfl⟩ := List.cons.inj hcons
        rw [List.mk_mem_zipIdx_iff_getElem?.mp hc]
        exact ih.mp hpath'
    · rintro ⟨v, hv⟩
      obtain ⟨c, hc, hat⟩ := Option.bind_eq_some_iff.mp hv
      exact Or.inr ⟨(c, i), List.mk_mem_zipIdx_iff_getElem?.mpr hc,
        List.mem_map_of_mem (ih.mpr ⟨v, hat⟩)⟩

/-- The places of a tree come in the order in which its text is read, none of them twice. -/
theorem sorted_places (e : Expr) : e.places.Pairwise (· < ·) := by
  induction e using induction_children with
  | h e ih =>
    rw [places_eq, List.pairwise_cons, List.pairwise_flatMap]
    refine ⟨fun path hpath => ?_, fun c hc => ?_, ?_⟩
    · obtain ⟨c, -, hmem⟩ := List.mem_flatMap.mp hpath
      obtain ⟨below, -, rfl⟩ := List.mem_map.mp hmem
      exact List.nil_lt_cons _ _
    · rw [List.pairwise_map]
      have hchild : c.1 ∈ e.children := List.fst_mem_of_mem_zipIdx hc
      exact (ih c.1 hchild).imp fun hlt => List.cons_lt_cons_self.mpr hlt
    · -- the places of a child come before those of the next ones
      have hindices : (e.children.zipIdx.map Prod.snd).Pairwise (· < ·) := by
        rw [List.zipIdx_map_snd]
        exact List.pairwise_lt_range'
      refine (List.pairwise_map.mp hindices).imp fun hlt path hpath path' hpath' => ?_
      obtain ⟨below, -, rfl⟩ := List.mem_map.mp hpath
      obtain ⟨below', -, rfl⟩ := List.mem_map.mp hpath'
      exact List.Lex.rel hlt

/-- What stands at the places of a tree is its nodes. -/
theorem map_nodeAt_places (e : Expr) : e.places.map e.nodeAt? = e.nodes.map some := by
  induction e using induction_children with
  | h e ih =>
    have hbelow : ∀ c ∈ e.children.zipIdx,
        (c.1.places.map (c.2 :: ·)).map e.nodeAt? = (c.1.nodes.map some) := by
      intro c hc
      have hat : e.nodeAt? ∘ (c.2 :: ·) = c.1.nodeAt? := by
        funext path
        rw [Function.comp_apply, nodeAt_cons, List.mem_zipIdx_iff_getElem?.mp hc, Option.bind_some]
      rw [List.map_map, hat, ih c.1 (List.fst_mem_of_mem_zipIdx hc)]
    have hchildren : e.children.flatMap (fun c => c.nodes.map some) =
        e.children.zipIdx.flatMap fun c => c.1.nodes.map some :=
      calc e.children.flatMap (fun c => c.nodes.map some)
          = (e.children.zipIdx.map Prod.fst).flatMap fun c => c.nodes.map some := by
            rw [List.zipIdx_map_fst]
        _ = e.children.zipIdx.flatMap fun c => c.1.nodes.map some := List.flatMap_map ..
    rw [places_eq, nodes_eq, List.map_cons, List.map_cons, List.map_flatMap,
      List.map_flatMap, nodeAt_nil, List.flatMap_congr hbelow, hchildren]

theorem mem_nodes_iff : v ∈ e.nodes ↔ ∃ path, e.nodeAt? path = some v := by
  have hmem : v ∈ e.nodes ↔ some v ∈ e.places.map e.nodeAt? := by
    rw [map_nodeAt_places, List.mem_map]
    simp
  rw [hmem, List.mem_map]
  constructor
  · rintro ⟨path, -, hat⟩
    exact ⟨path, hat⟩
  · rintro ⟨path, hat⟩
    exact ⟨path, mem_places_iff.mpr ⟨v, hat⟩, hat⟩

end FormulaSheet.Expr
