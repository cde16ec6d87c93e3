import FormulaSheet.Listeners

/-!
# Listeners in order

The numbers of registered listeners grow in the order of their registration, and no number is handed
out twice (`Listeners.Ordered`).
-/

namespace FormulaSheet.Listeners

variable {l : Listeners}

/-- Listeners stand in the order of their registration: the numbers grow, and the next one is
new. -/
structure Ordered (l : Listeners) : Prop where
  sorted : l.ids.Pairwise (· < ·)
  fresh : ∀ id ∈ l.ids, id < l.next

theorem ordered_empty : empty.Ordered := ⟨List.Pairwise.nil, fun _ h => by cases h⟩

theorem Ordered.add (h : l.Ordered) : l.add.Ordered := by
  constructor
  · apply List.pairwise_append.mpr
    refine ⟨h.sorted, List.pairwise_singleton _ _, ?_⟩
    intro a ha b hb
    rw [List.mem_singleton.mp hb]
    exact h.fresh a ha
  · intro id hid
    rcases List.mem_append.mp hid with hid | hid
    · exact Nat.lt_succ_of_lt (h.fresh id hid)
    · rw [List.mem_singleton.mp hid]
      exact Nat.lt_succ_self l.next

theorem Ordered.remove (h : l.Ordered) (id : ListenerId) : (l.remove id).Ordered :=
  ⟨h.sorted.filter _, fun _ hid => h.fresh _ (List.mem_filter.mp hid).1⟩

theorem Ordered.clear (_ : l.Ordered) : l.clear.Ordered :=
  ⟨List.Pairwise.nil, fun _ h => by cases h⟩

end FormulaSheet.Listeners
