/-!
# Named fields in order

Objects, contexts and rows keep what they hold by name, in the order in which the names first
came. Writing a name again changes its value and keeps its place. Lookup finds the first entry of a
name; every collection built by `insert` has just one (`keys_insert`).
-/

namespace FormulaSheet

/-- Values by name, in the order of first insertion. -/
abbrev Fields (α : Type) := List (String × α)

namespace Fields

variable {α β : Type}

def keys (m : Fields α) : List String := m.map Prod.fst

def get? (m : Fields α) (k : String) : Option α := List.lookup k m

def contains (m : Fields α) (k : String) : Bool := (m.get? k).isSome

/-- Gives a name a value: in place where the name is known, otherwise at the end. -/
def insert : Fields α → String → α → Fields α
  | [], k, v => [(k, v)]
  | (k', v') :: rest, k, v => if k' = k then (k, v) :: rest else (k', v') :: insert rest k v

/-- Takes a name out; the others keep their order. -/
def erase (m : Fields α) (k : String) : Fields α := m.filter (·.1 != k)

/-- The fields after inserting pairs one after the other. -/
def ofList (pairs : List (String × α)) : Fields α := pairs.foldl (fun m p => m.insert p.1 p.2) []

/-- Applies a function to the value under a name. -/
def modify (m : Fields α) (k : String) (f : α → α) : Fields α :=
  m.map fun p => if p.1 = k then (p.1, f p.2) else p

@[simp] theorem get?_nil (k : String) : get? ([] : Fields α) k = none := rfl

theorem get?_cons (p : String × α) (m : Fields α) (k : String) :
    get? (p :: m) k = if k = p.1 then some p.2 else get? m k := by
  obtain ⟨k', v⟩ := p
  simp only [get?, List.lookup_cons]
  by_cases h : k = k'
  · rw [beq_iff_eq.mpr h, if_pos h]
  · rw [beq_eq_false_iff_ne.mpr h, if_neg h]

/-- A name reads back what was last written under it, and other names are not touched. -/
theorem get?_insert (m : Fields α) (k k' : String) (v : α) :
    (m.insert k v).get? k' = if k' = k then some v else m.get? k' := by
  induction m with
  | nil => simp [insert, get?_cons]
  | cons p m ih =>
    by_cases h : p.1 = k
    · simp only [insert, h, if_true, get?_cons]
      by_cases h' : k' = k <;> simp [h']
    · simp only [insert, h, if_false, get?_cons, ih]
      by_cases h' : k' = p.1
      · simp [h', h]
      · simp [h']

/-- Inserting adds a name at the end exactly when it is new. -/
theorem keys_insert (m : Fields α) (k : String) (v : α) :
    (m.insert k v).keys = if k ∈ m.keys then m.keys else m.keys ++ [k] := by
  induction m with
  | nil => simp [insert, keys]
  | cons p m ih =>
    by_cases h : p.1 = k
    · simp [insert, keys, h]
    · have h' : ¬ k = p.1 := fun e => h e.symm
      simp only [insert, h, if_false]
      show p.1 :: keys (insert m k v) = _
      rw [ih]
      by_cases hm : k ∈ keys m <;> simp_all [keys]

/-! ### Lookup and membership -/

@[simp] theorem keys_nil : keys ([] : Fields α) = [] := rfl

@[simp] theorem keys_cons (p : String × α) (m : Fields α) : keys (p :: m) = p.1 :: keys m := rfl

theorem get?_eq_none_iff {m : Fields α} {k : String} : m.get? k = none ↔ k ∉ m.keys := by
  induction m with
  | nil => simp
  | cons p m ih =>
    rw [get?_cons, keys_cons, List.mem_cons]
    by_cases h : k = p.1
    · simp [h]
    · simp [h, ih]

theorem isSome_get?_iff {m : Fields α} {k : String} : (m.get? k).isSome = true ↔ k ∈ m.keys := by
  rw [← Decidable.not_iff_not, ← get?_eq_none_iff]
  cases m.get? k <;> simp

theorem contains_iff_mem_keys {m : Fields α} {k : String} : m.contains k = true ↔ k ∈ m.keys :=
  isSome_get?_iff

theorem mem_of_get? {m : Fields α} {k : String} {v : α} (h : m.get? k = some v) : (k, v) ∈ m := by
  induction m with
  | nil => simp at h
  | cons p m ih =>
    rw [get?_cons] at h
    by_cases hk : k = p.1
    · rw [if_pos hk, Option.some.injEq] at h
      subst hk h
      exact List.mem_cons_self
    · rw [if_neg hk] at h
      exact List.mem_cons_of_mem _ (ih h)

theorem mem_keys_of_mem {m : Fields α} {p : String × α} (h : p ∈ m) : p.1 ∈ m.keys :=
  List.mem_map.mpr ⟨p, h, rfl⟩

/-- Where no name comes twice, what stands under a name is what is found. -/
theorem get?_of_mem {m : Fields α} (hnodup : m.keys.Nodup) {p : String × α} (h : p ∈ m) :
    m.get? p.1 = some p.2 := by
  induction m with
  | nil => cases h
  | cons q m ih =>
    rw [keys_cons, List.nodup_cons] at hnodup
    rw [get?_cons]
    rcases List.mem_cons.mp h with rfl | h
    · rw [if_pos rfl]
    · have hne : ¬ p.1 = q.1 := fun he => hnodup.1 (he ▸ mem_keys_of_mem h)
      rw [if_neg hne, ih hnodup.2 h]

theorem keys_map (m : Fields α) (f : α → β) : keys (m.map fun p => (p.1, f p.2)) = m.keys := by
  simp [keys, Function.comp_def]

/-- Looking up commutes with a function on all values. -/
theorem get?_map (m : Fields α) (f : α → β) (k : String) :
    get? (m.map fun p => (p.1, f p.2)) k = (m.get? k).map f := by
  induction m with
  | nil => rfl
  | cons p m ih =>
    rw [List.map_cons, get?_cons, get?_cons, ih]
    split <;> rfl

/-! ### Changes -/

@[simp] theorem keys_modify (m : Fields α) (k : String) (f : α → α) :
    (m.modify k f).keys = m.keys := by
  simp only [keys, modify, List.map_map]
  refine List.map_congr_left fun p _ => ?_
  simp only [Function.comp_apply]
  split <;> rfl

theorem get?_modify (m : Fields α) (k k' : String) (f : α → α) :
    (m.modify k f).get? k' = if k' = k then (m.get? k').map f else m.get? k' := by
  induction m with
  | nil => simp [modify]
  | cons p m ih =>
    have hcons : modify (p :: m) k f = (if p.1 = k then (p.1, f p.2) else p) :: modify m k f := rfl
    rw [hcons, get?_cons, get?_cons, ih]
    by_cases hp : p.1 = k
    · subst hp
      by_cases hk : k' = p.1 <;> simp [hk]
    · by_cases hk : k' = p.1
      · simp [hk, hp]
      · simp [hk, hp]

/-- Writing a name that is known is a change in place. -/
theorem insert_eq_modify {m : Fields α} (hnodup : m.keys.Nodup) {k : String}
    (hk : k ∈ m.keys) (v : α) : m.insert k v = m.modify k fun _ => v := by
  induction m with
  | nil => cases hk
  | cons p m ih =>
    rw [keys_cons, List.nodup_cons] at hnodup
    by_cases hp : p.1 = k
    · have htail : modify m k (fun _ => v) = m := by
        refine (List.map_congr_left fun q hq => ?_).trans (List.map_id m)
        have hq : ¬ q.1 = k := fun he => hnodup.1 ((hp.trans he.symm) ▸ mem_keys_of_mem hq)
        simp [hq]
      have hcons : modify (p :: m) k (fun _ => v) = (p.1, v) :: modify m k fun _ => v := by
        simp [modify, hp]
      rw [hcons, htail, insert, if_pos hp, hp]
    · have hcons : modify (p :: m) k (fun _ => v) = p :: modify m k fun _ => v := by
        simp [modify, hp]
      have hmem : k ∈ keys m := (List.mem_cons.mp hk).resolve_left fun he => hp he.symm
      rw [hcons, insert, if_neg hp, ih hnodup.2 hmem]

/-- Writing a new name puts it at the end. -/
theorem insert_of_not_mem {m : Fields α} {k : String} (hk : k ∉ m.keys) (v : α) :
    m.insert k v = m ++ [(k, v)] := by
  induction m with
  | nil => rfl
  | cons p m ih =>
    rw [keys_cons, List.mem_cons, not_or] at hk
    have hp : ¬ p.1 = k := fun he => hk.1 he.symm
    rw [insert, if_neg hp, ih hk.2, List.cons_append]

theorem mem_insert {m : Fields α} {k : String} {v : α} {p : String × α} (h : p ∈ m.insert k v) :
    p = (k, v) ∨ p ∈ m := by
  induction m with
  | nil => exact Or.inl (List.mem_singleton.mp h)
  | cons q m ih =>
    unfold insert at h
    split at h
    · rcases List.mem_cons.mp h with h | h
      · exact Or.inl h
      · exact Or.inr (List.mem_cons_of_mem q h)
    · rcases List.mem_cons.mp h with rfl | h
      · exact Or.inr List.mem_cons_self
      · exact (ih h).imp_right (List.mem_cons_of_mem q)

theorem nodup_keys_insert {m : Fields α} (h : m.keys.Nodup) (k : String) (v : α) :
    (m.insert k v).keys.Nodup := by
  rw [keys_insert]
  split
  · exact h
  · rename_i hk
    rw [List.nodup_append]
    refine ⟨h, by simp, ?_⟩
    rintro a ha b hb rfl
    exact hk (List.mem_singleton.mp hb ▸ ha)

theorem nodup_keys_ofList (pairs : List (String × α)) : (ofList pairs).keys.Nodup := by
  suffices h : ∀ m : Fields α, m.keys.Nodup →
      (pairs.foldl (fun m p => m.insert p.1 p.2) m).keys.Nodup from
    h [] List.nodup_nil
  induction pairs with
  | nil => exact fun _ hm => hm
  | cons p pairs ih => exact fun m hm => ih (m.insert p.1 p.2) (nodup_keys_insert hm p.1 p.2)

/-- Pairs in which no name comes twice are fields as they are. -/
theorem ofList_of_nodup {pairs : List (String × α)} (h : (keys pairs).Nodup) :
    ofList pairs = pairs := by
  suffices hrest : ∀ m : Fields α, (m.keys ++ keys pairs).Nodup →
      pairs.foldl (fun m p => m.insert p.1 p.2) m = m ++ pairs from hrest [] h
  clear h
  induction pairs with
  | nil => exact fun m _ => (List.append_nil m).symm
  | cons p pairs ih =>
    intro m hm
    have hnew : p.1 ∉ m.keys := fun hmem =>
      (List.nodup_append.mp hm).2.2 p.1 hmem p.1 List.mem_cons_self rfl
    have hinsert : m.insert p.1 p.2 = m ++ [p] := insert_of_not_mem hnew p.2
    rw [List.foldl_cons, hinsert, ih (m ++ [p]), List.append_assoc]
    · rfl
    · simpa [keys] using hm

theorem keys_erase (m : Fields α) (k : String) : (m.erase k).keys = m.keys.filter (· != k) := by
  simp [keys, erase, List.filter_map, Function.comp_def]

theorem erase_of_not_mem {m : Fields α} {k : String} (hk : k ∉ m.keys) : m.erase k = m := by
  apply List.filter_eq_self.mpr
  intro p hp
  rw [bne_iff_ne]
  rintro rfl
  exact hk (mem_keys_of_mem hp)

theorem erase_insert (m : Fields α) (k : String) (v : α) : (m.insert k v).erase k = m.erase k := by
  induction m with
  | nil => simp [insert, erase]
  | cons p m ih =>
    by_cases hp : p.1 = k
    · simp [insert, erase, hp]
    · have hinsert : insert (p :: m) k v = p :: insert m k v := if_neg hp
      have hcons : ∀ m : Fields α, erase (p :: m) k = p :: erase m k := by
        intro m
        simp [erase, hp]
      rw [hinsert, hcons, hcons, ih]

theorem erase_erase (m : Fields α) (k : String) : (m.erase k).erase k = m.erase k := by
  simp [erase]

theorem get?_erase (m : Fields α) (k k' : String) :
    (m.erase k).get? k' = if k' = k then none else m.get? k' := by
  induction m with
  | nil => simp [erase]
  | cons p m ih =>
    by_cases hp : p.1 = k
    · have hcons : erase (p :: m) k = erase m k := by simp [erase, hp]
      rw [hcons, ih, get?_cons, hp]
      split <;> rfl
    · have hcons : erase (p :: m) k = p :: erase m k := by simp [erase, hp]
      rw [hcons, get?_cons, get?_cons, ih]
      by_cases hk : k' = p.1
      · simp [hk, hp]
      · simp [hk]

end Fields

end FormulaSheet
