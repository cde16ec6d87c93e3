import FormulaSheet.Builtin.All
import FormulaSheet.Eval

/-!
# Handles on functions

A handle on a function is a value like any other: it can be kept in lists and objects, read out of
them and handed to functions. Nothing in the language makes a handle out of other values, so all
handles of a result come from the scope and the namespaces; functions hand on what they are given at
most (`Builtin.Plain`, `Registry.plain_builtins`).
-/

namespace FormulaSheet

namespace Value

variable {v w : Value} {items : List Value} {fields : Fields Value} {c : Callable}

mutual
/-- The handles that a value holds, at any depth. -/
def handles : Value → List Callable
  | callable c => [c]
  | array items => itemHandles items
  | object fields => fieldHandles fields
  | absent | null | boolean _ | number _ | text _ => []

def itemHandles : List Value → List Callable
  | [] => []
  | v :: rest => handles v ++ itemHandles rest

def fieldHandles : List (String × Value) → List Callable
  | [] => []
  | (_, v) :: rest => handles v ++ fieldHandles rest
end

theorem mem_itemHandles : c ∈ itemHandles items ↔ ∃ v ∈ items, c ∈ v.handles := by
  induction items with
  | nil => simp [itemHandles]
  | cons v rest ih => simp [itemHandles, ih]

theorem mem_fieldHandles : c ∈ fieldHandles fields ↔ ∃ p ∈ fields, c ∈ p.2.handles := by
  induction fields with
  | nil => simp [fieldHandles]
  | cons p rest ih => simp [fieldHandles, ih]

theorem handles_property {name : String} (h : v.property name = .ok w) : w.handles ⊆ v.handles := by
  intro c hc
  cases v with
  | absent => cases h
  | null => cases h
  | object fields =>
    cases h
    cases hget : Fields.get? fields name with
    | none =>
      rw [hget] at hc
      cases hc
    | some u =>
      rw [hget] at hc
      exact mem_fieldHandles.mpr ⟨(name, u), Fields.mem_of_get? hget, hc⟩
  | array items =>
    simp only [property, Except.ok.injEq] at h
    subst h
    split at hc <;> cases hc
  | text s =>
    simp only [property, Except.ok.injEq] at h
    subst h
    split at hc <;> cases hc
  | callable f =>
    simp only [property, Except.ok.injEq] at h
    subst h
    split at hc <;> cases hc
  | boolean b =>
    cases h
    cases hc
  | number x =>
    cases h
    cases hc

theorem handles_item {key : Value} (h : v.item key = .ok w) : w.handles ⊆ v.handles := by
  unfold item at h
  split at h
  · rename_i items i _
    cases h
    intro c hc
    rw [List.getD_eq_getElem?_getD] at hc
    cases hget : items[i]? with
    | none =>
      rw [hget] at hc
      cases hc
    | some u =>
      rw [hget] at hc
      exact mem_itemHandles.mpr ⟨u, List.mem_of_getElem? hget, hc⟩
  · rename_i s i _
    cases h
    intro c hc
    cases hunit : Text.unit? s i <;> rw [hunit] at hc <;> cases hc
  · exact handles_property h

theorem fieldHandles_insert {k : String} (hc : c ∈ fieldHandles (Fields.insert fields k v)) :
    c ∈ v.handles ∨ c ∈ fieldHandles fields := by
  obtain ⟨p, hp, hcp⟩ := mem_fieldHandles.mp hc
  rcases Fields.mem_insert hp with rfl | hp
  · exact Or.inl hcp
  · exact Or.inr (mem_fieldHandles.mpr ⟨p, hp, hcp⟩)

theorem handles_add : (v.add w).handles = [] := by
  unfold add
  split <;> rfl

theorem handles_binary (op : BinaryOp) : (op.apply v w).handles = [] := by
  cases op <;> first
    | exact handles_add
    | rfl

theorem handles_unary (op : UnaryOp) : (op.apply v).handles = [] := by
  cases op <;> rfl

mutual
theorem handles_ofJson : ∀ j : Json, (ofJson j).handles = []
  | .null | .bool _ | .int _ | .float _ | .str _ => by simp [ofJson, handles]
  | .arr items => by
    simp only [ofJson, handles]
    exact itemHandles_ofJson items
  | .obj members => by
    simp only [ofJson, handles]
    exact fieldHandles_ofJson members

theorem itemHandles_ofJson : ∀ items : List Json, itemHandles (itemsOfJson items) = []
  | [] => by simp [itemsOfJson, itemHandles]
  | j :: rest => by
    simp only [itemsOfJson, itemHandles, List.append_eq_nil_iff]
    exact ⟨handles_ofJson j, itemHandles_ofJson rest⟩

theorem fieldHandles_ofJson :
    ∀ members : List (String × Json), fieldHandles (membersOfJson members) = []
  | [] => by simp [membersOfJson, fieldHandles]
  | (_, j) :: rest => by
    simp only [membersOfJson, fieldHandles, List.append_eq_nil_iff]
    exact ⟨handles_ofJson j, fieldHandles_ofJson rest⟩
end

end Value

/-! ### Functions -/

/-- The function answers no handles but those that it is given. -/
def Builtin.Plain (f : Builtin) : Prop :=
  ∀ args v, f.run args = .ok v → v.handles ⊆ Value.itemHandles args

namespace Registry

variable {r : Registry} {fs : List Builtin} {f : Builtin} {space name : String}

def Plain (r : Registry) : Prop := ∀ space name f, r.get? space name = some f → f.Plain

/-- Every function is filed under its own namespace and name. -/
def Filed (r : Registry) : Prop := ∀ q ∈ r.spaces, ∀ p ∈ q.2, p.2.space = q.1 ∧ p.2.name = p.1

theorem Filed.of_get? (h : r.Filed) (hget : r.get? space name = some f) :
    f.space = space ∧ f.name = name := by
  obtain ⟨functions, hspace, hname⟩ := Option.bind_eq_some_iff.mp hget
  exact h _ (Fields.mem_of_get? hspace) _ (Fields.mem_of_get? hname)

theorem Filed.register (h : r.Filed) (f : Builtin) : (r.register f).Filed := by
  intro q hq p hp
  rcases Fields.mem_insert hq with rfl | hq
  · rcases Fields.mem_insert hp with rfl | hp
    · exact ⟨rfl, rfl⟩
    · cases hspace : Fields.get? r.spaces f.space with
      | none =>
        rw [hspace] at hp
        cases hp
      | some functions =>
        rw [hspace] at hp
        exact h _ (Fields.mem_of_get? hspace) p hp
  · exact h q hq p hp

theorem filed_ofList (fs : List Builtin) : (ofList fs).Filed := by
  have hfold : ∀ r : Registry, r.Filed → (fs.foldl Registry.register r).Filed := by
    induction fs with
    | nil => exact fun _ h => h
    | cons f fs ih => exact fun r h => ih (r.register f) (h.register f)
  apply hfold
  intro q hq
  cases hq

theorem get?_register (r : Registry) (f : Builtin) (space name : String) :
    (r.register f).get? space name =
      if space = f.space ∧ name = f.name then some f else r.get? space name := by
  simp only [get?, register, Fields.get?_insert]
  by_cases hspace : space = f.space
  · subst hspace
    rw [if_pos rfl, Option.bind_some, Fields.get?_insert]
    by_cases hname : name = f.name
    · simp [hname]
    · cases hget : Fields.get? r.spaces f.space <;> simp [hname]
  · simp [hspace]

theorem mem_of_get?_foldl_register (h : (fs.foldl Registry.register r).get? space name = some f) :
    f ∈ fs ∨ r.get? space name = some f := by
  induction fs generalizing r with
  | nil => exact Or.inr h
  | cons g fs ih =>
    rcases ih h with hmem | hget
    · exact Or.inl (List.mem_cons_of_mem g hmem)
    · rw [get?_register] at hget
      split at hget
      · cases hget
        exact Or.inl List.mem_cons_self
      · exact Or.inr hget

theorem mem_of_get?_ofList (h : (ofList fs).get? space name = some f) : f ∈ fs := by
  rcases mem_of_get?_foldl_register h with hmem | hempty
  · exact hmem
  · cases hempty

theorem hasSpace_register (r : Registry) (f : Builtin) (name : String) :
    (r.register f).hasSpace name = true ↔ name = f.space ∨ r.hasSpace name = true := by
  rw [hasSpace, hasSpace, register, Fields.contains, Fields.contains, Fields.get?_insert]
  split
  · rename_i hname
    simp [hname]
  · rename_i hname
    simp [hname]

theorem hasSpace_foldl_register {name : String} :
    (fs.foldl Registry.register r).hasSpace name = true ↔
      name ∈ fs.map Builtin.space ∨ r.hasSpace name = true := by
  induction fs generalizing r with
  | nil => simp
  | cons f fs ih =>
    rw [List.foldl_cons, ih, hasSpace_register, List.map_cons, List.mem_cons,
      or_left_comm, or_assoc]

/-- The namespaces are those of the functions. -/
theorem hasSpace_ofList {name : String} :
    (ofList fs).hasSpace name = true ↔ name ∈ fs.map Builtin.space := by
  rw [ofList, hasSpace_foldl_register]
  exact or_iff_left Bool.false_ne_true

theorem plain_ofList (h : ∀ f ∈ fs, f.Plain) : (ofList fs).Plain :=
  fun _ _ f hf => h f (mem_of_get?_ofList hf)

end Registry

/-! ### The builtin functions -/

namespace Builtin

/-- A function whose answers hold no handles. -/
theorem plain_of_handles {f : Builtin} (h : ∀ args v, f.run args = .ok v → v.handles = []) :
    f.Plain := by
  intro args v hv
  rw [h args v hv]
  exact List.nil_subset _

theorem plain_math (ambient : Ambient) : ∀ f ∈ Math.functions ambient, f.Plain := by
  intro f hf
  apply plain_of_handles
  intro args v hv
  simp only [Math.functions, List.mem_cons, List.not_mem_nil, or_false] at hf
  rcases hf with rfl | rfl | rfl | rfl | rfl | rfl | rfl | rfl | rfl | rfl | rfl | rfl |
    rfl | rfl | rfl | rfl | rfl | rfl <;> cases hv <;> rfl

theorem plain_number : ∀ f ∈ Number.functions, f.Plain := by
  intro f hf
  apply plain_of_handles
  intro args v hv
  simp only [Number.functions, List.mem_cons, List.not_mem_nil, or_false] at hf
  rcases hf with rfl | rfl | rfl | rfl | rfl <;> cases hv <;> rfl

theorem plain_text : ∀ f ∈ Text.functions, f.Plain := by
  intro f hf
  apply plain_of_handles
  intro args v hv
  simp only [Text.functions, List.mem_cons, List.not_mem_nil, or_false] at hf
  rcases hf with rfl | rfl | rfl
  · cases hv
    rfl
  · cases hpoints : args.mapM Text.codePoint with
    | error e =>
      simp only [Text.fromCodePoint, hpoints] at hv
      cases hv
    | ok cs =>
      simp only [Text.fromCodePoint, hpoints] at hv
      cases hv
      rfl
  · cases hv
    rfl

theorem plain_date (ambient : Ambient) : ∀ f ∈ Date.functions ambient, f.Plain := by
  intro f hf
  apply plain_of_handles
  intro args v hv
  simp only [Date.functions, List.mem_cons, List.not_mem_nil, or_false] at hf
  rcases hf with rfl | rfl | rfl | rfl | rfl | rfl | rfl | rfl | rfl
  case' inr.inr.inr.inl =>
    simp only [Date.ofInstant, Date.toISOString] at hv
    split at hv
  all_goals cases hv
  all_goals rfl

theorem plain_json : ∀ f ∈ Json.functions, f.Plain := by
  intro f hf
  apply plain_of_handles
  intro args v hv
  simp only [Json.functions, List.mem_cons, List.not_mem_nil, or_false] at hf
  rcases hf with rfl | rfl
  · simp only [Json.parse] at hv
    split at hv
    · cases hv
      exact Value.handles_ofJson _
    · cases hv
  · simp only [Json.stringify] at hv
    split at hv <;> cases hv <;> rfl

end Builtin

theorem Registry.filed_builtins (ambient : Builtin.Ambient) : (Registry.builtins ambient).Filed :=
  filed_ofList _

/-- The builtin functions have the same namespaces in all surroundings. -/
theorem Registry.hasSpace_builtins (ambient ambient' : Builtin.Ambient) (name : String) :
    (Registry.builtins ambient).hasSpace name = (Registry.builtins ambient').hasSpace name := by
  have hspaces :
      (Builtin.all ambient).map Builtin.space = (Builtin.all ambient').map Builtin.space := rfl
  rw [Bool.eq_iff_iff, builtins, builtins, hasSpace_ofList, hasSpace_ofList, hspaces]

/-- **No builtin function makes a handle.** -/
theorem Registry.plain_builtins (ambient : Builtin.Ambient) :
    (Registry.builtins ambient).Plain := by
  apply plain_ofList
  intro f hf
  simp only [Builtin.all, List.mem_append] at hf
  rcases hf with (((hf | hf) | hf) | hf) | hf
  · exact Builtin.plain_math ambient f hf
  · exact Builtin.plain_number f hf
  · exact Builtin.plain_text f hf
  · exact Builtin.plain_date ambient f hf
  · exact Builtin.plain_json f hf

end FormulaSheet
