import FormulaSheet.Expr.Basic

/-!
# The nodes of an expression

The nodes of a tree are the tree itself and the nodes of its children (`Expr.nodes_eq`), and a tree
is one node higher than the highest of its children (`Expr.height_eq`). So what is said about all
nodes is proved by one induction over the children (`Expr.induction_children`), and the free names
of an expression are those of its children one after the other.
-/

namespace FormulaSheet.Expr

/-- The parts of an expression, in source order. -/
def children : Expr → List Expr
  | unary _ operand => [operand]
  | binary first rest => first :: rest.map Prod.snd
  | logical _ operands => operands
  | conditional test consequent alternate => [test, consequent, alternate]
  | member target _ _ => [target]
  | index target key => [target, key]
  | call callee args => callee :: args
  | array items => items
  | object entries => entries.map Prod.snd
  | _ => []

theorem listNodes_eq_flatMap (es : List Expr) : listNodes es = es.flatMap nodes := by
  induction es with
  | nil => rfl
  | cons e es ih => rw [listNodes, ih, List.flatMap_cons]

theorem runNodes_eq_flatMap (es : List (BinaryOp × Expr)) :
    runNodes es = (es.map Prod.snd).flatMap nodes := by
  induction es with
  | nil => rfl
  | cons p es ih => rw [runNodes, ih, List.map_cons, List.flatMap_cons]

theorem entryNodes_eq_flatMap (es : List (EntryKey × Expr)) :
    entryNodes es = (es.map Prod.snd).flatMap nodes := by
  induction es with
  | nil => rfl
  | cons p es ih => rw [entryNodes, ih, List.map_cons, List.flatMap_cons]

/-- The nodes of a tree are the tree itself and the nodes of its children. -/
theorem nodes_eq (e : Expr) : e.nodes = e :: e.children.flatMap nodes := by
  cases e <;>
    simp [nodes, children, listNodes_eq_flatMap, runNodes_eq_flatMap, entryNodes_eq_flatMap]

theorem sizeOf_lt_of_mem_children {e c : Expr} (h : c ∈ e.children) : sizeOf c < sizeOf e := by
  have hmap : ∀ {α : Type} [SizeOf α] {es : List (α × Expr)}, c ∈ es.map Prod.snd →
      sizeOf c < sizeOf es := by
    intro α _ es hc
    obtain ⟨p, hp, rfl⟩ := List.mem_map.mp hc
    have hlt := List.sizeOf_lt_of_mem hp
    have hsnd : sizeOf p = 1 + sizeOf p.1 + sizeOf p.2 := rfl
    omega
  cases e with
  | unary op operand =>
    obtain rfl := List.mem_singleton.mp h
    rw [unary.sizeOf_spec]
    omega
  | member target property span =>
    obtain rfl := List.mem_singleton.mp h
    rw [member.sizeOf_spec]
    omega
  | binary first rest =>
    rw [children, List.mem_cons] at h
    rw [binary.sizeOf_spec]
    rcases h with rfl | h
    · omega
    · have hlt := hmap h
      omega
  | logical op operands =>
    have hlt := List.sizeOf_lt_of_mem h
    rw [logical.sizeOf_spec]
    rw [children] at hlt
    omega
  | conditional test consequent alternate =>
    simp only [children, List.mem_cons, List.not_mem_nil, or_false] at h
    rw [conditional.sizeOf_spec]
    rcases h with rfl | rfl | rfl <;> omega
  | index target key =>
    simp only [children, List.mem_cons, List.not_mem_nil, or_false] at h
    rw [index.sizeOf_spec]
    rcases h with rfl | rfl <;> omega
  | call callee args =>
    rw [children, List.mem_cons] at h
    rw [call.sizeOf_spec]
    rcases h with rfl | h
    · omega
    · have hlt := List.sizeOf_lt_of_mem h
      omega
  | array items =>
    have hlt := List.sizeOf_lt_of_mem h
    rw [array.sizeOf_spec]
    rw [children] at hlt
    omega
  | object entries =>
    have hlt := hmap h
    rw [object.sizeOf_spec]
    omega
  | _ => cases h

/-- What holds of a tree if it holds of its children holds of all trees. -/
theorem induction_children {P : Expr → Prop} (h : ∀ e, (∀ c ∈ e.children, P c) → P e) (e : Expr) :
    P e :=
  h e fun c hc =>
    have := sizeOf_lt_of_mem_children hc
    induction_children h c
termination_by sizeOf e

theorem self_mem_nodes (e : Expr) : e ∈ e.nodes := by
  rw [nodes_eq]
  exact List.mem_cons_self

/-- The nodes of a node are nodes of the tree. -/
theorem nodes_subset {e v : Expr} (h : v ∈ e.nodes) : v.nodes ⊆ e.nodes := by
  induction e using induction_children with
  | h e ih =>
    rw [nodes_eq e, List.mem_cons, List.mem_flatMap] at h
    rcases h with rfl | ⟨c, hc, hv⟩
    · exact List.Subset.refl _
    · intro w hw
      rw [nodes_eq e, List.mem_cons, List.mem_flatMap]
      exact Or.inr ⟨c, hc, ih c hc hv hw⟩

/-- What is found at the nodes of an expression is found at itself and at the nodes of its
children. -/
theorem filterMap_nodes {α : Type} (f : Expr → Option α) (e : Expr) :
    e.nodes.filterMap f = (f e).toList ++ e.children.flatMap fun c => c.nodes.filterMap f := by
  rw [nodes_eq, List.filterMap_cons, List.filterMap_flatMap]
  cases f e <;> rfl

/-! ### Height -/

theorem runHeight_eq (es : List (BinaryOp × Expr)) :
    runHeight es = listHeight (es.map Prod.snd) := by
  induction es with
  | nil => rfl
  | cons p es ih => rw [runHeight, ih, List.map_cons, listHeight]

theorem entryHeight_eq (es : List (EntryKey × Expr)) :
    entryHeight es = listHeight (es.map Prod.snd) := by
  induction es with
  | nil => rfl
  | cons p es ih => rw [entryHeight, ih, List.map_cons, listHeight]

/-- A tree is one node higher than the highest of its children. -/
theorem height_eq (e : Expr) : e.height = listHeight e.children + 1 := by
  cases e <;> simp [height, children, listHeight, runHeight_eq, entryHeight_eq]

theorem listHeight_le {n : Nat} {es : List Expr} (h : ∀ e ∈ es, e.height ≤ n) :
    listHeight es ≤ n := by
  induction es with
  | nil => exact Nat.zero_le n
  | cons e es ih =>
    obtain ⟨he, hes⟩ := List.forall_mem_cons.mp h
    exact Nat.max_le.mpr ⟨he, ih hes⟩

theorem height_le_succ {n : Nat} {e : Expr} (h : ∀ c ∈ e.children, c.height ≤ n) :
    e.height ≤ n + 1 := by
  rw [height_eq]
  exact Nat.succ_le_succ (listHeight_le h)

/-! ### Free names -/

theorem mem_identifiers {e : Expr} {q : String × Span} :
    q ∈ e.identifiers ↔ ident q.1 q.2 ∈ e.nodes := by
  rw [identifiers, List.mem_filterMap]
  constructor
  · rintro ⟨v, hv, hq⟩
    cases v with
    | ident name span =>
      obtain rfl := Option.some.inj hq
      exact hv
    | _ => cases hq
  · exact fun h => ⟨_, h, rfl⟩

/-- The free names of an expression are those of its children, unless it is a name itself. -/
theorem identifiers_eq (e : Expr) :
    e.identifiers = e.ident?.toList ++ e.children.flatMap identifiers :=
  filterMap_nodes ident? e

section Names

variable (e target key : Expr) (es : List Expr)

@[simp] theorem identifiers_unary (op : UnaryOp) : (unary op e).identifiers = e.identifiers := by
  rw [identifiers_eq]
  exact List.append_nil _

@[simp] theorem identifiers_binary (rest : List (BinaryOp × Expr)) :
    (binary e rest).identifiers = e.identifiers ++ rest.flatMap fun p => p.2.identifiers := by
  rw [identifiers_eq, children, List.flatMap_cons, List.flatMap_map]
  rfl

@[simp] theorem identifiers_conditional (test consequent alternate : Expr) :
    (conditional test consequent alternate).identifiers =
      test.identifiers ++ consequent.identifiers ++ alternate.identifiers := by
  rw [identifiers_eq]
  simp [ident?, children]

@[simp] theorem identifiers_member (property : String) (span : Span) :
    (member target property span).identifiers = target.identifiers := by
  rw [identifiers_eq]
  exact List.append_nil _

@[simp] theorem identifiers_index :
    (index target key).identifiers = target.identifiers ++ key.identifiers := by
  rw [identifiers_eq]
  simp [ident?, children]

@[simp] theorem identifiers_call :
    (call e es).identifiers = e.identifiers ++ es.flatMap identifiers :=
  identifiers_eq _

@[simp] theorem identifiers_array : (array es).identifiers = es.flatMap identifiers :=
  identifiers_eq _

@[simp] theorem identifiers_object (entries : List (EntryKey × Expr)) :
    (object entries).identifiers = entries.flatMap fun p => p.2.identifiers := by
  rw [identifiers_eq, children, List.flatMap_map]
  rfl

end Names

end FormulaSheet.Expr
