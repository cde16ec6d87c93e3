import FormulaSheet.Proofs.Json.Tree
import FormulaSheet.Value.Json

/-!
# The JSON of a value

A value and its JSON nest equally deep, because what has no JSON is no list or object, and all
numbers in its JSON have texts of their own kind.
-/

namespace FormulaSheet.Value

open Json (NumberInRange leavesOfItems leavesOfMembers nestingOfItems nestingOfMembers)

mutual
/-- How many lists and objects stand inside one another. -/
def nesting : Value → Nat
  | array items => itemNesting items + 1
  | object fields => fieldNesting fields + 1
  | _ => 0

def itemNesting : List Value → Nat
  | [] => 0
  | v :: rest => max (nesting v) (itemNesting rest)

def fieldNesting : List (String × Value) → Nat
  | [] => 0
  | (_, v) :: rest => max (nesting v) (fieldNesting rest)
end

mutual
theorem nesting_toJson : ∀ v : Value, v.toJson.nesting = v.nesting
  | absent | null | boolean _ | text _ | callable _ => by
    simp [toJson, toJson?, Json.nesting, nesting]
  | number x => by
    simp only [toJson, toJson?, Option.getD_some, nesting, numberToJson]
    split
    · rfl
    · split <;> rfl
  | array items => by
    simp only [toJson, toJson?, Option.getD_some, Json.nesting, nesting]
    rw [nestingOfItems_itemsToJson items]
  | object fields => by
    simp only [toJson, toJson?, Option.getD_some, Json.nesting, nesting]
    rw [nestingOfMembers_fieldsToJson fields]

theorem nestingOfItems_itemsToJson : ∀ items : List Value,
    nestingOfItems (itemsToJson items) = itemNesting items
  | [] => rfl
  | v :: rest => by
    have hv := nesting_toJson v
    unfold toJson at hv
    rw [itemsToJson, nestingOfItems, itemNesting, hv, nestingOfItems_itemsToJson rest]

theorem nestingOfMembers_fieldsToJson : ∀ fields : List (String × Value),
    nestingOfMembers (fieldsToJson fields) = fieldNesting fields
  | [] => rfl
  | (k, v) :: rest => by
    have hv := nesting_toJson v
    have hrest := nestingOfMembers_fieldsToJson rest
    unfold toJson at hv
    rw [fieldNesting, ← hv]
    cases hjson : v.toJson? with
    | none => simp [fieldsToJson, hjson, hrest, Json.nesting]
    | some j => simp [fieldsToJson, hjson, hrest, nestingOfMembers]
end

theorem inRange_numberToJson (x : Float) : (numberToJson x).InRange := by
  unfold numberToJson
  intro leaf hleaf
  split at hleaf
  · rw [List.mem_singleton.mp hleaf]
    trivial
  · rename_i hfinite
    split at hleaf
    · rename_i hsafe
      rw [Bool.and_eq_true, decide_eq_true_eq] at hsafe
      rw [List.mem_singleton.mp hleaf]
      exact Nat.lt_of_le_of_lt hsafe.2 (by decide)
    · rw [List.mem_singleton.mp hleaf]
      simpa [NumberInRange] using hfinite

mutual
/-- All integers in the JSON of a value are in the range where every integer is a number, and all
other numbers are finite. -/
theorem inRange_toJson : ∀ v : Value, v.toJson.InRange
  | absent | null | boolean _ | text _ | callable _ => by
    intro leaf hleaf
    rw [List.mem_singleton.mp hleaf]
    trivial
  | number x => inRange_numberToJson x
  | array items => inRange_itemsToJson items
  | object fields => inRange_fieldsToJson fields

theorem inRange_itemsToJson :
    ∀ (items : List Value), ∀ leaf ∈ leavesOfItems (itemsToJson items), leaf.NumberInRange
  | [], leaf, h => by simp [itemsToJson, leavesOfItems] at h
  | v :: rest, leaf, h => by
    rw [itemsToJson, leavesOfItems, List.mem_append] at h
    rcases h with h | h
    · exact inRange_toJson v leaf h
    · exact inRange_itemsToJson rest leaf h

theorem inRange_fieldsToJson : ∀ (fields : List (String × Value)),
    ∀ leaf ∈ leavesOfMembers (fieldsToJson fields), leaf.NumberInRange
  | [], leaf, h => by simp [fieldsToJson, leavesOfMembers] at h
  | (k, v) :: rest, leaf, h => by
    rw [fieldsToJson] at h
    split at h
    · rename_i j hjson
      rw [leavesOfMembers, List.mem_append] at h
      rcases h with h | h
      · apply inRange_toJson v leaf
        rw [toJson, hjson]
        exact h
      · exact inRange_fieldsToJson rest leaf h
    · exact inRange_fieldsToJson rest leaf h
end

end FormulaSheet.Value
