/-!
# Lists without repetition

A list that is built by adding items only where they are new holds each of them once, in the order
in which they first came.
-/

namespace FormulaSheet

/-- Adds an item at the end of a list that does not have it. -/
def addNew (xs : List String) (x : String) : List String := if xs.contains x then xs else xs ++ [x]

/-- An item is added at most once. -/
theorem mem_addNew {xs : List String} {x y : String} : y ∈ addNew xs x ↔ y ∈ xs ∨ y = x := by
  unfold addNew
  split <;> rename_i h
  · simp only [List.contains_iff_mem] at h
    exact ⟨Or.inl, fun h' => h'.elim id fun e => e ▸ h⟩
  · simp

theorem nodup_addNew {xs : List String} (h : xs.Nodup) (x : String) : (addNew xs x).Nodup := by
  unfold addNew
  split
  · exact h
  · rename_i hnew
    rw [List.contains_iff_mem] at hnew
    apply List.nodup_append.mpr
    refine ⟨h, by simp, ?_⟩
    intro a ha b hb hab
    rw [List.mem_singleton.mp hb] at hab
    exact hnew (hab ▸ ha)

theorem mem_foldl_addNew {ns acc : List String} {n : String} :
    n ∈ ns.foldl addNew acc ↔ n ∈ acc ∨ n ∈ ns := by
  induction ns generalizing acc with
  | nil => simp
  | cons m ns ih =>
    rw [List.foldl_cons, ih, mem_addNew, List.mem_cons, or_assoc]

theorem nodup_foldl_addNew {acc : List String} (h : acc.Nodup) (xs : List String) :
    (xs.foldl addNew acc).Nodup := by
  induction xs generalizing acc with
  | nil => exact h
  | cons x xs ih => exact ih (nodup_addNew h x)

/-- Strings that are new, each once, are all added. -/
theorem foldl_addNew_of_nodup {acc xs : List String} (h : (acc ++ xs).Nodup) :
    xs.foldl addNew acc = acc ++ xs := by
  induction xs generalizing acc with
  | nil => simp
  | cons x xs ih =>
    have hnew : x ∉ acc := by
      intro hx
      exact (List.nodup_append.mp h).2.2 x hx x List.mem_cons_self rfl
    have hadd : addNew acc x = acc ++ [x] := by simp [addNew, hnew]
    rw [List.foldl_cons, hadd, ih]
    · simp
    · simpa using h

end FormulaSheet
