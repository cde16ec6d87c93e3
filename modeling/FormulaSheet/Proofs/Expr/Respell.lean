import FormulaSheet.Expr.Rename
import FormulaSheet.Proofs.Expr.Nodes
import Mathlib.Data.List.Forall2

/-!
# Expressions with other names

An expression is respelled when its free names are replaced. The places it was read from do not
belong to it then; an entry `{ x }` whose name is replaced is no longer written as its name alone.
The free names of the respelled expression are the new spellings of the free names, one by one
(`Expr.Respells.map_identifiers`).
-/

namespace FormulaSheet.Expr

variable (rename : String → Option String)

/-- The new spelling of a name. -/
def newName (n : String) : String := (rename n).getD n

/-- The key of an entry whose value is respelled: the name alone is no longer written once it is
replaced. -/
def respellKey (key : EntryKey) : Expr → EntryKey
  | ident name _ => ⟨key.name, key.shorthand && (rename name).isNone⟩
  | _ => key

mutual
/-- An expression with its free names replaced and without the places it was read from. -/
def respell : Expr → Expr
  | ident name _ => ident (newName rename name) ⟨0, 0⟩
  | unary op operand => unary op (respell operand)
  | binary first rest => binary (respell first) (respellRun rest)
  | logical op operands => logical op (respellList operands)
  | conditional test consequent alternate =>
    conditional (respell test) (respell consequent) (respell alternate)
  | member target property _ => member (respell target) property ⟨0, 0⟩
  | index target key => index (respell target) (respell key)
  | call callee args => call (respell callee) (respellList args)
  | array items => array (respellList items)
  | object entries => object (respellEntries entries)
  | e => e

/-- The expressions of a list with their free names replaced. -/
def respellList : List Expr → List Expr
  | [] => []
  | e :: rest => respell e :: respellList rest

/-- The operands of a run with their free names replaced. -/
def respellRun : List (BinaryOp × Expr) → List (BinaryOp × Expr)
  | [] => []
  | (op, e) :: rest => (op, respell e) :: respellRun rest

/-- Entries with the free names of their values replaced. -/
def respellEntries : List (EntryKey × Expr) → List (EntryKey × Expr)
  | [] => []
  | (key, e) :: rest => (respellKey rename key e, respell e) :: respellEntries rest
end

/-- An expression without the places it was read from. -/
def bare (e : Expr) : Expr := e.respell fun _ => none

/-- The edits of an entry. -/
def entryEdit : EntryKey × Expr → List Edit
  | (⟨key, true⟩, ident name span) => shorthandEdits rename key name span
  | (_, e) => e.edits rename

variable {rename}

theorem listEdits_eq_flatMap (es : List Expr) :
    listEdits rename es = es.flatMap (edits rename) := by
  induction es with
  | nil => rfl
  | cons e es ih => rw [listEdits, ih, List.flatMap_cons]

theorem runEdits_eq_flatMap (es : List (BinaryOp × Expr)) :
    runEdits rename es = es.flatMap fun p => p.2.edits rename := by
  induction es with
  | nil => rfl
  | cons e es ih => rw [runEdits, ih, List.flatMap_cons]

theorem entryEdits_eq_flatMap (es : List (EntryKey × Expr)) :
    entryEdits rename es = es.flatMap (entryEdit rename) := by
  induction es with
  | nil => rfl
  | cons e es ih =>
    obtain ⟨⟨key, _ | _⟩, e⟩ := e <;> rw [List.flatMap_cons, ← ih] <;> cases e <;> rfl

/-! ### Respelled values -/

variable (rename) in
/-- `e'` is `e` with its free names replaced, read from other places. -/
def Respells (e e' : Expr) : Prop := e'.bare = e.respell rename

variable (rename) in
/-- The entry `q` is `p` with the free names of its value replaced. -/
def RespellsEntry (p q : EntryKey × Expr) : Prop :=
  respellKey (fun _ => none) q.1 q.2 = respellKey rename p.1 p.2 ∧ Respells rename p.2 q.2

variable (rename) in
/-- The operator and operand `q` are `p` with the free names replaced. -/
def RespellsOperand (p q : BinaryOp × Expr) : Prop := q.1 = p.1 ∧ Respells rename p.2 q.2

theorem respellList_congr {es es' : List Expr} (h : List.Forall₂ (Respells rename) es es') :
    respellList (fun _ => none) es' = respellList rename es := by
  induction h with
  | nil => rfl
  | cons he _ ih =>
    rw [respellList, respellList, ih]
    exact congrArg (· :: _) he

theorem respellRun_congr {es es' : List (BinaryOp × Expr)}
    (h : List.Forall₂ (RespellsOperand rename) es es') :
    respellRun (fun _ => none) es' = respellRun rename es := by
  induction h with
  | nil => rfl
  | @cons p q _ _ he _ ih =>
    obtain ⟨op, e⟩ := p
    obtain ⟨op', e'⟩ := q
    obtain ⟨hop, he⟩ := he
    rw [respellRun, respellRun, ih]
    exact congrArg₂ (fun a b => (a, b) :: _) hop he

theorem respellEntries_congr {es es' : List (EntryKey × Expr)}
    (h : List.Forall₂ (RespellsEntry rename) es es') :
    respellEntries (fun _ => none) es' = respellEntries rename es := by
  induction h with
  | nil => rfl
  | @cons p q _ _ he _ ih =>
    obtain ⟨key, e⟩ := p
    obtain ⟨key', e'⟩ := q
    obtain ⟨hkey, he⟩ := he
    rw [respellEntries, respellEntries, ih]
    exact congrArg₂ (fun a b => (a, b) :: _) hkey he

/-! ### Nodes -/

theorem respellList_eq_map (es : List Expr) : respellList rename es = es.map (respell rename) := by
  induction es with
  | nil => rfl
  | cons e es ih => rw [respellList, ih, List.map_cons]

theorem map_snd_respellRun (es : List (BinaryOp × Expr)) :
    (respellRun rename es).map Prod.snd = (es.map Prod.snd).map (respell rename) := by
  induction es with
  | nil => rfl
  | cons p es ih => rw [respellRun, List.map_cons, ih, List.map_cons, List.map_cons]

theorem map_snd_respellEntries (es : List (EntryKey × Expr)) :
    (respellEntries rename es).map Prod.snd = (es.map Prod.snd).map (respell rename) := by
  induction es with
  | nil => rfl
  | cons p es ih => rw [respellEntries, List.map_cons, ih, List.map_cons, List.map_cons]

theorem children_respell (e : Expr) :
    (e.respell rename).children = e.children.map (respell rename) := by
  cases e <;>
    simp [respell, children, respellList_eq_map, map_snd_respellRun, map_snd_respellEntries]

/-- The nodes of a respelled expression are the respelled nodes. -/
theorem nodes_respell (e : Expr) : (e.respell rename).nodes = e.nodes.map (respell rename) := by
  induction e using induction_children with
  | h e ih =>
    have hchildren : (e.children.map (respell rename)).flatMap nodes =
        (e.children.flatMap nodes).map (respell rename) := by
      rw [List.flatMap_map, List.map_flatMap]
      exact List.flatMap_congr ih
    rw [nodes_eq, children_respell, hchildren, nodes_eq e, List.map_cons]

theorem Respells.map_nodes {e e' : Expr} (h : Respells rename e e') :
    e'.nodes.map bare = e.nodes.map (respell rename) := by
  rw [← nodes_respell, ← h]
  exact (nodes_respell e').symm

theorem map_fst_ident?_respell (es : List Expr) :
    ((es.map (respell rename)).filterMap ident?).map Prod.fst =
      ((es.filterMap ident?).map Prod.fst).map (newName rename) := by
  have hname : ∀ e : Expr,
      (e.respell rename).ident?.map Prod.fst = (e.ident?.map Prod.fst).map (newName rename) := by
    intro e
    cases e <;> rfl
  simp only [List.filterMap_map, List.map_filterMap, Function.comp_def, hname]

/-- The free names of a respelled expression are the new spellings of the free names, one by one. -/
theorem Respells.map_identifiers {e e' : Expr} (h : Respells rename e e') :
    e'.identifiers.map Prod.fst = (e.identifiers.map Prod.fst).map (newName rename) := by
  have hbare : ((e'.nodes.map bare).filterMap ident?).map Prod.fst = e'.identifiers.map Prod.fst :=
    (map_fst_ident?_respell e'.nodes).trans (List.map_id _)
  rw [← hbare, h.map_nodes, map_fst_ident?_respell, ← identifiers]

end FormulaSheet.Expr
