import FormulaSheet.Proofs.Json.Items
import FormulaSheet.Proofs.Json.Number

/-!
# A written tree is read back as deep as there is room

A tree whose integers fit into 64 bits and whose other numbers are finite is read from its
indented text leaf by leaf (`Json.readsAs_tree`). Where the reader takes each of the
numbers again, this stops only at lists and objects that nest deeper than the reader has
room for (`Json.isSome_reread`).
-/

namespace FormulaSheet.Json

open Read

mutual
/-- The values of a tree that are no list or object. -/
def leaves : Json → List Json
  | arr items => leavesOfItems items
  | obj members => leavesOfMembers members
  | leaf => [leaf]

def leavesOfItems : List Json → List Json
  | [] => []
  | j :: rest => leaves j ++ leavesOfItems rest

def leavesOfMembers : List (String × Json) → List Json
  | [] => []
  | (_, j) :: rest => leaves j ++ leavesOfMembers rest
end

mutual
/-- How many lists and objects stand inside one another. -/
def nesting : Json → Nat
  | arr items => nestingOfItems items + 1
  | obj members => nestingOfMembers members + 1
  | _ => 0

def nestingOfItems : List Json → Nat
  | [] => 0
  | j :: rest => max (nesting j) (nestingOfItems rest)

def nestingOfMembers : List (String × Json) → Nat
  | [] => 0
  | (_, j) :: rest => max (nesting j) (nestingOfMembers rest)
end

/-- What is read back of a value that is no list or object. -/
def rereadLeaf : Json → Option Json
  | arr _ | obj _ => none
  | float x => rereadFloat x
  | leaf => some leaf

/-- What is read back of a tree where lists and objects may nest `room` deep. -/
def reread : Nat → Json → Option Json
  | room + 1, arr items => (items.mapM (reread room)).map arr
  | room + 1, obj members =>
    (members.mapM fun p => (reread room p.2).map (p.1, ·)).map fun members =>
      obj (Fields.ofList members)
  | _, j => j.rereadLeaf

/-- A number that is read from its text again; other values are always. -/
def NumberAccepted : Json → Prop
  | int i => i.natAbs < Nat.pow 2 63
  | float x => (rereadFloat x).isSome = true
  | _ => True

instance : DecidablePred NumberAccepted
  | int i => inferInstanceAs (Decidable (i.natAbs < Nat.pow 2 63))
  | float x => inferInstanceAs (Decidable ((rereadFloat x).isSome = true))
  | null | bool _ | str _ | arr _ | obj _ => .isTrue trivial

/-- All numbers of a tree are read again. -/
def Accepted (j : Json) : Prop := ∀ leaf ∈ j.leaves, leaf.NumberAccepted

/-- A number that has a text of its own kind: an integer of 64 bits, or a finite number. -/
def NumberInRange : Json → Prop
  | int i => i.natAbs < Nat.pow 2 63
  | float x => x.isFinite = true
  | _ => True

/-- All numbers of a tree have a text of their own kind. -/
def InRange (j : Json) : Prop := ∀ leaf ∈ j.leaves, leaf.NumberInRange

variable {indent : String} {j : Json} {items : List Json} {members : List (String × Json)}

theorem mem_leavesOfItems {leaf : Json} :
    leaf ∈ leavesOfItems items ↔ ∃ j ∈ items, leaf ∈ j.leaves := by
  induction items with
  | nil => simp [leavesOfItems]
  | cons j items ih => simp [leavesOfItems, ih]

theorem mem_leavesOfMembers {leaf : Json} :
    leaf ∈ leavesOfMembers members ↔ ∃ p ∈ members, leaf ∈ p.2.leaves := by
  induction members with
  | nil => simp [leavesOfMembers]
  | cons p members ih => simp [leavesOfMembers, ih]

theorem nestingOfItems_le {n : Nat} : nestingOfItems items ≤ n ↔ ∀ j ∈ items, j.nesting ≤ n := by
  induction items with
  | nil => simp [nestingOfItems]
  | cons j items ih => rw [nestingOfItems, Nat.max_le, ih, List.forall_mem_cons]

theorem nestingOfMembers_le {n : Nat} :
    nestingOfMembers members ≤ n ↔ ∀ p ∈ members, p.2.nesting ≤ n := by
  induction members with
  | nil => simp [nestingOfMembers]
  | cons p members ih => rw [nestingOfMembers, Nat.max_le, ih, List.forall_mem_cons]

theorem Accepted.item (h : (arr items).Accepted) (hj : j ∈ items) : j.Accepted := by
  intro leaf hleaf
  apply h
  exact mem_leavesOfItems.mpr ⟨j, hj, hleaf⟩

theorem Accepted.member (h : (obj members).Accepted) {p : String × Json} (hp : p ∈ members) :
    p.2.Accepted := by
  intro leaf hleaf
  apply h
  exact mem_leavesOfMembers.mpr ⟨p, hp, hleaf⟩

theorem inRange_arr (h : ∀ j ∈ items, j.InRange) : (arr items).InRange := by
  intro leaf hleaf
  obtain ⟨j, hj, hleaf⟩ := mem_leavesOfItems.mp hleaf
  exact h j hj leaf hleaf

theorem inRange_obj (h : ∀ p ∈ members, p.2.InRange) : (obj members).InRange := by
  intro leaf hleaf
  obtain ⟨p, hp, hleaf⟩ := mem_leavesOfMembers.mp hleaf
  exact h p hp leaf hleaf

theorem inRange_str (s : String) : (str s).InRange := by
  intro leaf hleaf
  rw [List.mem_singleton.mp hleaf]
  trivial

theorem InRange.item (h : (arr items).InRange) (hj : j ∈ items) : j.InRange := by
  intro leaf hleaf
  apply h
  exact mem_leavesOfItems.mpr ⟨j, hj, hleaf⟩

theorem InRange.member (h : (obj members).InRange) {p : String × Json} (hp : p ∈ members) :
    p.2.InRange := by
  intro leaf hleaf
  apply h
  exact mem_leavesOfMembers.mpr ⟨p, hp, hleaf⟩

theorem indentedItems_eq_map (level : Nat) :
    indentedItems indent level items = items.map (indentedAt indent (level + 1)) := by
  induction items with
  | nil => rfl
  | cons j items ih => rw [indentedItems, ih, List.map_cons]

theorem indentedMembers_eq_map (level : Nat) :
    indentedMembers indent level members =
      members.map fun p => quoted p.1 ++ ": " ++ indentedAt indent (level + 1) p.2 := by
  induction members with
  | nil => rfl
  | cons p members ih => rw [indentedMembers, ih, List.map_cons]

theorem toList_member (name : String) (text : String) :
    (quoted name ++ ": " ++ text).toList = memberText name text.toList := by
  simp [memberText]

/-! ### Leaves -/

theorem gives_word (cs rest : List Char) : Gives (word cs) (cs ++ rest) (some ((), rest)) := by
  induction cs with
  | nil => exact gives_pure () rest
  | cons c cs ih =>
    apply (gives_next _).bind
    exact Gives.ite_pos rfl ((gives_pass c _).bind ih)

/-- A piece of text that is read as a value which is no list or object. -/
structure ReadsLeaf (text : List Char) (o : Option Json) : Prop where
  reads : ∃ c t, text = c :: t ∧ isBlank c = false ∧ c ≠ ']' ∧ c ≠ '[' ∧ c ≠ '\x7b' ∧
    ∀ rest, Ends rest → Gives (scalar c) (c :: (t ++ rest)) (o.map (·, rest))

theorem ReadsLeaf.solid {text : List Char} {o : Option Json} (h : ReadsLeaf text o) :
    Solid text := by
  obtain ⟨c, t, rfl, hblank, hclose, -⟩ := h.reads
  exact ⟨c, t, rfl, hblank, hclose⟩

theorem ReadsLeaf.tree {text : List Char} {o : Option Json} (h : ReadsLeaf text o) (room : Nat) :
    ReadsAs (tree room) text o := by
  obtain ⟨c, t, rfl, hblank, -, hlist, hobject, hscalar⟩ := h.reads
  cases room with
  | zero =>
    apply readsAs_nextSolid hblank
    intro rest hrest
    apply Gives.ite_neg
    · exact not_or.mpr ⟨hlist, hobject⟩
    · exact hscalar rest hrest
  | succ room =>
    apply readsAs_nextSolid hblank
    intro rest hrest
    split
    · rename_i heq
      cases heq
    · rename_i heq
      exact absurd (Option.some.inj heq) hlist
    · rename_i heq
      exact absurd (Option.some.inj heq) hobject
    · rename_i heq
      rw [← Option.some.inj heq]
      exact hscalar rest hrest

/-- A sign or a digit is no blank and no bracket, and a number begins with it. -/
theorem readsLeaf_number {text : List Char} {o : Option Json}
    (hhead : ∃ c t, text = c :: t ∧ (c = '-' ∨ c.isDigit = true))
    (h : ∀ rest, Ends rest → Gives number (text ++ rest) (o.map (·, rest))) : ReadsLeaf text o := by
  obtain ⟨c, t, rfl, hc⟩ := hhead
  have hne : ∀ d : Char, d ≠ '-' → d.isDigit = false → c ≠ d := by
    rintro d hminus hdigit rfl
    rcases hc with hc | hc
    · exact hminus hc
    · rw [hdigit] at hc
      cases hc
  have hblank : isBlank c = false := by
    simp only [isBlank, hne ' ' (by decide) rfl, hne '\n' (by decide) rfl, hne '\t' (by decide) rfl,
      hne '\r' (by decide) rfl, decide_false, Bool.or_self]
  refine ⟨c, t, rfl, hblank, hne ']' (by decide) rfl, hne '[' (by decide) rfl,
    hne '\x7b' (by decide) rfl, ?_⟩
  intro rest hrest
  unfold scalar
  apply Gives.ite_neg (hne 'n' (by decide) rfl)
  apply Gives.ite_neg (hne 't' (by decide) rfl)
  apply Gives.ite_neg (hne 'f' (by decide) rfl)
  apply Gives.ite_neg (hne '"' (by decide) rfl)
  apply Gives.ite_pos hc
  exact h rest hrest

theorem readsLeaf_quoted (s : String) : ReadsLeaf (quoted s).toList (some (.str s)) := by
  constructor
  rw [toList_quoted]
  refine ⟨'"', _, rfl, by decide, by decide, by decide, by decide, ?_⟩
  intro rest _
  have htext := (gives_quotedText s rest).map Json.str
  rw [toList_quoted] at htext
  exact htext

/-- A value that is no list or object is read from its text. -/
theorem readsLeaf_indentedAt (indent : String) (level : Nat) (hlist : ∀ items, j ≠ arr items)
    (hobject : ∀ members, j ≠ obj members) (hj : j.InRange) :
    ReadsLeaf (indentedAt indent level j).toList j.rereadLeaf := by
  have hnumber : j.NumberInRange := by
    apply hj
    cases j with
    | arr items => exact absurd rfl (hlist items)
    | obj members => exact absurd rfl (hobject members)
    | _ => simp [leaves]
  cases j with
  | arr items => exact absurd rfl (hlist items)
  | obj members => exact absurd rfl (hobject members)
  | null =>
    refine ⟨'n', ['u', 'l', 'l'], by simp [indentedAt], by decide, by decide, by decide,
      by decide, ?_⟩
    intro rest _
    exact (gives_pass 'n' _).bind ((gives_word ['u', 'l', 'l'] rest).bind (gives_pure _ rest))
  | bool b =>
    cases b with
    | true =>
      refine ⟨'t', ['r', 'u', 'e'], by simp [indentedAt], by decide, by decide, by decide,
        by decide, ?_⟩
      intro rest _
      exact (gives_pass 't' _).bind ((gives_word ['r', 'u', 'e'] rest).bind (gives_pure _ rest))
    | false =>
      refine ⟨'f', ['a', 'l', 's', 'e'], by simp [indentedAt], by decide, by decide, by decide,
        by decide, ?_⟩
      intro rest _
      exact (gives_pass 'f' _).bind
        ((gives_word ['a', 'l', 's', 'e'] rest).bind (gives_pure _ rest))
  | str s =>
    rw [indentedAt]
    exact readsLeaf_quoted s
  | int i =>
    rw [indentedAt, toList_intText]
    apply readsLeaf_number (Numeral.formed_ofInt i).exists_chars_cons
    intro rest hrest
    rw [← toList_intText]
    exact gives_number_intText hnumber hrest
  | float x =>
    rw [indentedAt]
    obtain ⟨t, ht, htext⟩ := exists_numeral hnumber
    apply readsLeaf_number
    · rw [htext]
      exact ht.exists_chars_cons
    · intro rest hrest
      exact gives_number_floatText hnumber hrest

/-! ### Reading back -/

theorem solid_indentedAt (indent : String) (level : Nat) (hj : j.InRange) :
    Solid (indentedAt indent level j).toList := by
  cases j with
  | arr items =>
    rw [indentedAt]
    obtain ⟨t, ht⟩ := exists_toList_bracketed indent level String.toList_ofList "]"
      (indentedItems indent level items)
    exact ⟨'[', t, ht, by decide, by decide⟩
  | obj members =>
    rw [indentedAt]
    obtain ⟨t, ht⟩ :=
      exists_toList_bracketed indent level String.toList_ofList "\x7d"
        (indentedMembers indent level members)
    exact ⟨'\x7b', t, ht, by decide, by decide⟩
  | _ =>
    apply ReadsLeaf.solid
    exact readsLeaf_indentedAt indent level (by nofun) (by nofun) hj

/-- **A written tree is read leaf by leaf.** The reading stops at a number that is not read again,
and where lists and objects nest deeper than there is room. -/
theorem readsAs_tree (hindent : Blank indent.toList) (room level : Nat) (hj : j.InRange) :
    ReadsAs (tree room) (indentedAt indent level j).toList (reread room j) := by
  -- the reader goes down with the room, one list or object at a time
  induction room generalizing j level with
  | zero =>
    cases j with
    | arr items =>
      rw [indentedAt]
      obtain ⟨t, ht⟩ :=
        exists_toList_bracketed indent level String.toList_ofList "]"
          (indentedItems indent level items)
      rw [ht]
      apply readsAs_nextSolid rfl
      intro rest _
      exact gives_failNext _ _
    | obj members =>
      rw [indentedAt]
      obtain ⟨t, ht⟩ :=
        exists_toList_bracketed indent level String.toList_ofList "\x7d"
          (indentedMembers indent level members)
      rw [ht]
      apply readsAs_nextSolid rfl
      intro rest _
      exact gives_failNext _ _
    | _ => exact (readsLeaf_indentedAt indent level (by nofun) (by nofun) hj).tree 0
  | succ room ih =>
    cases j with
    | arr items =>
      have hnext : ∀ item ∈ items,
          NextReads (listItem (tree room)) (indentedAt indent (level + 1) item).toList
            (reread room item) := by
        intro item hitem
        apply nextReads_listItem
        · exact solid_indentedAt indent (level + 1) (hj.item hitem)
        · exact ih (level + 1) (hj.item hitem)
      rw [indentedAt, indentedItems_eq_map, reread]
      exact readsAs_bracketed hindent String.toList_ofList String.toList_ofList rfl
        (nextEnds_listItem (tree room)) hnext rfl
    | obj members =>
      have hnext : ∀ p ∈ members, NextReads (objectMember (tree room))
          (quoted p.1 ++ ": " ++ indentedAt indent (level + 1) p.2).toList
            ((reread room p.2).map (p.1, ·)) := by
        intro p hp
        rw [toList_member]
        apply nextReads_objectMember
        exact ih (level + 1) (hj.member hp)
      rw [indentedAt, indentedMembers_eq_map, reread]
      exact readsAs_bracketed hindent String.toList_ofList String.toList_ofList rfl
        (nextEnds_objectMember (tree room)) hnext rfl
    | _ => exact (readsLeaf_indentedAt indent level (by nofun) (by nofun) hj).tree (room + 1)

theorem blank_twoSpaces : Blank "  ".toList := by
  intro c hc
  have hc : c = ' ' := by simpa using hc
  rw [hc]
  rfl

theorem toOption_parse_pretty (hj : j.InRange) :
    (parse j.pretty).toOption = reread nestingLimit j :=
  (readsAs_tree blank_twoSpaces nestingLimit 0 hj).toOption_whole

/-! ### How deep a tree is read -/

/-- Where numbers have texts of their own kind, only those with a fraction can be refused by the
reader. -/
theorem InRange.accepted (hj : j.InRange)
    (h : ∀ x, float x ∈ j.leaves → (rereadFloat x).isSome = true) : j.Accepted := by
  intro leaf hleaf
  cases leaf with
  | int i => exact hj (int i) hleaf
  | float x => exact h x hleaf
  | _ => trivial

theorem mapM_eq_map {α β : Type} {f : α → Option β} {g : α → β} {xs : List α}
    (h : ∀ x ∈ xs, f x = some (g x)) : xs.mapM f = some (xs.map g) := by
  induction xs with
  | nil => rfl
  | cons x xs ih =>
    rw [List.mapM_cons, h x List.mem_cons_self, ih fun y hy => h y (List.mem_cons_of_mem x hy)]
    rfl

theorem isSome_mapM {α β : Type} {f : α → Option β} {xs : List α} :
    (xs.mapM f).isSome = true ↔ ∀ x ∈ xs, (f x).isSome = true := by
  induction xs with
  | nil => simp
  | cons x xs ih =>
    rw [List.mapM_cons, List.forall_mem_cons, ← ih]
    cases f x with
    | none => simp
    | some b => cases xs.mapM f <;> simp

theorem isSome_rereadLeaf (hj : j.Accepted) : j.rereadLeaf.isSome = true ↔ j.nesting = 0 := by
  cases j with
  | float x =>
    have hx : (rereadFloat x).isSome = true := hj (float x) (by simp [leaves])
    simp [rereadLeaf, nesting, hx]
  | _ => simp [rereadLeaf, nesting]

/-- What is too deep is all that is not read back. -/
theorem isSome_reread {room : Nat} (hj : j.Accepted) :
    (reread room j).isSome = true ↔ j.nesting ≤ room := by
  induction room generalizing j with
  | zero =>
    have hleaf : reread 0 j = j.rereadLeaf := by cases j <;> rfl
    rw [hleaf, isSome_rereadLeaf hj, Nat.le_zero]
  | succ room ih =>
    cases j with
    | arr items =>
      have hitems : (∀ item ∈ items, (reread room item).isSome = true) ↔
          ∀ item ∈ items, item.nesting ≤ room :=
        forall₂_congr fun item hitem => ih (hj.item hitem)
      rw [reread, Option.isSome_map, isSome_mapM, hitems, nesting, Nat.succ_le_succ_iff,
        nestingOfItems_le]
    | obj members =>
      have hmembers : (∀ p ∈ members, ((reread room p.2).map (p.1, ·)).isSome = true) ↔
          ∀ p ∈ members, p.2.nesting ≤ room := by
        apply forall₂_congr
        intro p hp
        rw [Option.isSome_map]
        exact ih (hj.member hp)
      rw [reread, Option.isSome_map, isSome_mapM, hmembers, nesting, Nat.succ_le_succ_iff,
        nestingOfMembers_le]
    | _ => exact iff_of_true ((isSome_rereadLeaf hj).mpr rfl) (Nat.zero_le (room + 1))

end FormulaSheet.Json
