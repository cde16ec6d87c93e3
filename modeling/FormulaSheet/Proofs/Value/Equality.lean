import FormulaSheet.Proofs.Decimal.Comparison
import FormulaSheet.Value.Compare
import Mathlib.Data.List.Perm.Subperm

/-!
# Laws of equality

Strict equality goes both ways although it looks only for the fields of the first object in the
second one: where no object holds a name twice, as many names on the left as on the right that all
occur there are the names on the right (`Value.strictEquals_comm`). Loose equality is decided after
at most two rounds of coercion, and the other way around each round is the same with its two values
exchanged, so it goes both ways too (`Value.looseEquals_comm`).
-/

namespace FormulaSheet.Value

/-! ### Values with distinct names -/

mutual
/-- No object in the value, however deep, holds a name twice. Objects are built by `Fields.insert`,
which keeps it so (`Fields.nodup_keys_insert`). -/
def Unambiguous : Value → Prop
  | array items => UnambiguousItems items
  | object fields => (Fields.keys fields).Nodup ∧ UnambiguousFields fields
  | absent | null | boolean _ | number _ | text _ | callable _ => True

def UnambiguousItems : List Value → Prop
  | [] => True
  | v :: rest => Unambiguous v ∧ UnambiguousItems rest

def UnambiguousFields : List (String × Value) → Prop
  | [] => True
  | (_, v) :: rest => Unambiguous v ∧ UnambiguousFields rest
end

theorem UnambiguousFields.mem {fields : List (String × Value)} (h : UnambiguousFields fields)
    {p : String × Value} (hp : p ∈ fields) : p.2.Unambiguous := by
  induction fields with
  | nil => cases hp
  | cons q rest ih =>
    rcases List.mem_cons.mp hp with rfl | hp
    · exact h.1
    · exact ih h.2 hp

/-! ### Strict equality -/

theorem fieldsEqual_iff {fields fields' : List (String × Value)} :
    fieldsEqual fields fields' = true ↔
      ∀ p ∈ fields, ∃ w, Fields.get? fields' p.1 = some w ∧ strictEquals p.2 w = true := by
  induction fields with
  | nil => exact iff_of_true rfl nofun
  | cons p rest ih =>
    obtain ⟨k, v⟩ := p
    rw [fieldsEqual, Bool.and_eq_true, ih, List.forall_mem_cons]
    refine and_congr_left' ?_
    dsimp only
    cases Fields.get? fields' k with
    | none => simp
    | some w => simp

/-- Distinct names that all occur among names that are no more of them are all of these. -/
theorem keys_subset_of_length_eq {fields fields' : List (String × Value)}
    (hnodup : (Fields.keys fields).Nodup) (hsubset : Fields.keys fields ⊆ Fields.keys fields')
    (hlength : fields.length = fields'.length) : Fields.keys fields' ⊆ Fields.keys fields := by
  have hkeys : (Fields.keys fields').length ≤ (Fields.keys fields).length := by
    simp [Fields.keys, hlength]
  exact ((hnodup.subperm hsubset).perm_of_length_le hkeys).symm.subset

/-- The fields on the right have their equals on the left, if the values on the left are equal both
ways. -/
theorem fieldsEqual_symm {fields fields' : List (String × Value)}
    (h : fieldsEqual fields fields' = true) (hlength : fields.length = fields'.length)
    (hnodup : (Fields.keys fields).Nodup) (hnodup' : (Fields.keys fields').Nodup)
    (hsymm : ∀ p ∈ fields, ∀ q ∈ fields',
      strictEquals p.2 q.2 = true → strictEquals q.2 p.2 = true) :
    fieldsEqual fields' fields = true := by
  rw [fieldsEqual_iff] at h ⊢
  have hsubset : Fields.keys fields ⊆ Fields.keys fields' := by
    intro k hk
    obtain ⟨p, hp, rfl⟩ := List.mem_map.mp hk
    obtain ⟨w, hw, -⟩ := h p hp
    exact Fields.isSome_get?_iff.mp (Option.isSome_iff_exists.mpr ⟨w, hw⟩)
  intro q hq
  have hkey := keys_subset_of_length_eq hnodup hsubset hlength (Fields.mem_keys_of_mem hq)
  obtain ⟨p, hp, hpq⟩ := List.mem_map.mp hkey
  obtain ⟨w, hw, hequal⟩ := h p hp
  rw [hpq, Fields.get?_of_mem hnodup' hq] at hw
  obtain rfl := Option.some.inj hw
  exact ⟨p.2, hpq ▸ Fields.get?_of_mem hnodup hp, hsymm p hp q hq hequal⟩

mutual
theorem strictEquals_symm : ∀ v w : Value, v.Unambiguous → w.Unambiguous → strictEquals v w = true →
    strictEquals w v = true
  | absent, absent, _, _, h | null, null, _, _, h => h
  | number x, number y, _, _, h => (Decimal.beq_comm y x).trans h
  | boolean _, boolean _, _, _, h | text _, text _, _, _, h | callable _, callable _, _, _, h => by
    simp only [strictEquals, beq_iff_eq] at h ⊢
    exact h.symm
  | array items, array items', hv, hw, h => itemsEqual_symm items items' hv hw h
  | object fields, object fields', hv, hw, h => by
    simp only [strictEquals, Bool.and_eq_true, beq_iff_eq] at h ⊢
    refine ⟨h.1.symm, fieldsEqual_symm h.2 h.1 hv.1 hw.1 ?_⟩
    intro p hp q hq
    exact fieldEquals_symm fields hv.2 p hp q.2 (hw.2.mem hq)

theorem itemsEqual_symm :
    ∀ items items' : List Value, UnambiguousItems items → UnambiguousItems items' →
    itemsEqual items items' = true → itemsEqual items' items = true
  | [], [], _, _, h => h
  | v :: rest, w :: rest', hv, hw, h => by
    rw [itemsEqual, Bool.and_eq_true] at h ⊢
    exact ⟨strictEquals_symm v w hv.1 hw.1 h.1, itemsEqual_symm rest rest' hv.2 hw.2 h.2⟩

theorem fieldEquals_symm :
    ∀ fields : List (String × Value), UnambiguousFields fields → ∀ p ∈ fields, ∀ w : Value,
    w.Unambiguous → strictEquals p.2 w = true → strictEquals w p.2 = true
  | (k, v) :: rest, hfields, p, hp, w, hw, h => by
    rcases List.mem_cons.mp hp with rfl | hp
    · exact strictEquals_symm v w hfields.1 hw h
    · exact fieldEquals_symm rest hfields.2 p hp w hw h
end

/-- **Strict equality goes both ways.** -/
theorem strictEquals_comm {v w : Value} (hv : v.Unambiguous) (hw : w.Unambiguous) :
    strictEquals v w = strictEquals w v :=
  Bool.eq_iff_iff.mpr ⟨strictEquals_symm v w hv hw, strictEquals_symm w v hw hv⟩

/-! ### Rounds of coercion -/

namespace LooseStep

/-- The round with its two values exchanged. -/
def swap : LooseStep → LooseStep
  | decided equal => decided equal
  | coerced v w => coerced w v

end LooseStep

variable {v w v' w' : Value}

/-- **The other way around a round is the same, with its values exchanged.** -/
theorem looseStep_swap (hv : v.Unambiguous) (hw : w.Unambiguous) :
    looseStep w v = (looseStep v w).swap := by
  have hstrict := congrArg LooseStep.decided (strictEquals_comm hw hv)
  have hnumber := fun x y : Float => congrArg LooseStep.decided (Decimal.beq_comm x y)
  cases v <;> cases w
  all_goals first | rfl | exact hstrict | exact hnumber _ _

/-- Coercions leave numbers, texts and what was there before. -/
theorem unambiguous_of_coerced (hv : v.Unambiguous) (hw : w.Unambiguous)
    (h : looseStep v w = .coerced v' w') : v'.Unambiguous ∧ w'.Unambiguous := by
  cases v <;> cases w <;> cases h
  all_goals first | exact ⟨trivial, hw⟩ | exact ⟨hv, trivial⟩

theorem looseEquals_of_decided {equal : Bool} (h : looseStep v w = .decided equal) :
    looseEquals v w = equal := by
  unfold looseEquals
  split
  · rename_i hstep
    exact LooseStep.decided.inj (hstep.symm.trans h)
  · rename_i hstep
    cases hstep.symm.trans h

theorem looseEquals_of_coerced (h : looseStep v w = .coerced v' w') :
    looseEquals v w = looseEquals v' w' := by
  rw [looseEquals.eq_def v w]
  split
  · rename_i hstep
    cases hstep.symm.trans h
  · rename_i hstep
    obtain ⟨rfl, rfl⟩ := LooseStep.coerced.inj (hstep.symm.trans h)
    rfl

/-- The values are compared in some rounds of coercion and one that decides. -/
inductive LooseRun : Nat → Value → Value → Bool → Prop where
  | decided {v w : Value} {equal : Bool} (h : looseStep v w = .decided equal) : LooseRun 0 v w equal
  | coerced {n : Nat} {v w v' w' : Value} {equal : Bool} (h : looseStep v w = .coerced v' w')
      (hrest : LooseRun n v' w' equal) : LooseRun (n + 1) v w equal

namespace LooseRun

variable {n : Nat} {equal : Bool}

theorem looseEquals_eq (h : LooseRun n v w equal) : looseEquals v w = equal := by
  induction h with
  | decided h => exact looseEquals_of_decided h
  | coerced h _ ih => exact (looseEquals_of_coerced h).trans ih

theorem swap (h : LooseRun n v w equal) (hv : v.Unambiguous) (hw : w.Unambiguous) :
    LooseRun n w v equal := by
  induction h with
  | decided h => exact decided (by rw [looseStep_swap hv hw, h]; rfl)
  | coerced h _ ih =>
    obtain ⟨hv', hw'⟩ := unambiguous_of_coerced hv hw h
    exact coerced (by rw [looseStep_swap hv hw, h]; rfl) (ih hv' hw')

end LooseRun

/-- **Loose equality ends**, after as many rounds as there are coercions at most. -/
theorem exists_looseRun (v w : Value) :
    ∃ n ≤ v.coercions + w.coercions, LooseRun n v w (looseEquals v w) := by
  fun_induction looseEquals v w with
  | case1 v w equal h => exact ⟨0, Nat.zero_le _, .decided h⟩
  | case2 v w v' w' h ih =>
    obtain ⟨n, hn, hrun⟩ := ih
    exact ⟨n + 1, Nat.lt_of_le_of_lt hn (coercions_lt h), .coerced h hrun⟩

theorem coercions_le_one (v : Value) : v.coercions ≤ 1 := by
  cases v <;> simp [coercions]

/-- **Loose equality goes both ways.** -/
theorem looseEquals_comm (hv : v.Unambiguous) (hw : w.Unambiguous) :
    looseEquals v w = looseEquals w v := by
  obtain ⟨n, -, hrun⟩ := exists_looseRun v w
  exact (hrun.swap hv hw).looseEquals_eq.symm

/-- What is strictly equal is of one kind, where loose equality asks for nothing else. -/
theorem looseEquals_of_strictEquals (h : strictEquals v w = true) : looseEquals v w = true := by
  apply looseEquals_of_decided
  cases v <;> cases w <;> try cases h
  case absent.absent | null.null => rfl
  all_goals exact congrArg LooseStep.decided h

/-! ### Compound values -/

theorem looseStep_of_isCompound (hv : v.isCompound = true) :
    (∀ x, looseStep v (number x) = .coerced (text v.toText) (number x)) ∧
    (∀ s, looseStep v (text s) = .coerced (text v.toText) (text s)) ∧
    (∀ b, looseStep v (boolean b) = .coerced v (number (boolean b).toNumber)) := by
  cases v with
  | array | object | callable => exact ⟨fun _ => rfl, fun _ => rfl, fun _ => rfl⟩
  | _ => cases hv

/-- A compound value is compared with a number, text or boolean as its text is. -/
theorem looseEquals_toText (hv : v.isCompound = true) (hw : w.kind ∈ [.number, .text, .boolean]) :
    looseEquals v w = looseEquals (text v.toText) w := by
  obtain ⟨hnumber, htext, hboolean⟩ := looseStep_of_isCompound hv
  cases w with
  | number x => exact looseEquals_of_coerced (hnumber x)
  | text s => exact looseEquals_of_coerced (htext s)
  | boolean b =>
    -- the boolean turns into its number first, on both sides of the equation
    have hcoerced : looseStep (text v.toText) (boolean b) =
        .coerced (text v.toText) (number (boolean b).toNumber) := rfl
    rw [looseEquals_of_coerced (hboolean b), looseEquals_of_coerced (hnumber _),
      looseEquals_of_coerced hcoerced]
  | _ => simp [kind] at hw

/-! ### The laws -/

/-- **The laws of equality.** On values whose objects hold each name once, strict and loose
equality go both ways. Strict equality implies loose equality, which ends after at most two
rounds of coercion, and a compound value is loosely equal to the numbers, texts and
booleans to which its text is. -/
theorem equality_laws (v w : Value) :
    (v.Unambiguous → w.Unambiguous →
      strictEquals v w = strictEquals w v ∧ looseEquals v w = looseEquals w v) ∧
    (strictEquals v w = true → looseEquals v w = true) ∧
    (∃ n ≤ 2, LooseRun n v w (looseEquals v w)) ∧
    (v.isCompound = true → w.kind ∈ [.number, .text, .boolean] →
      looseEquals v w = looseEquals (text v.toText) w) := by
  refine ⟨fun hv hw => ⟨strictEquals_comm hv hw, looseEquals_comm hv hw⟩,
    looseEquals_of_strictEquals, ?_, looseEquals_toText⟩
  obtain ⟨n, hn, hrun⟩ := exists_looseRun v w
  have hv := coercions_le_one v
  have hw := coercions_le_one w
  exact ⟨n, by omega, hrun⟩

/-- Two lists around objects with the same fields in another order are equal both ways, and loosely
equal to the text of such a list. -/
theorem equality_laws_reordered :
    let v := array [object [("a", number 1), ("b", array [text "x"])], null]
    let w := array [object [("b", array [text "x"]), ("a", number 1)], null]
    strictEquals v w = true ∧ strictEquals w v = true ∧ looseEquals w v = true ∧
      looseEquals v (text "[object Object],") = true := by
  intro v w
  have hv : v.Unambiguous := by
    simp [v, Unambiguous, UnambiguousItems, UnambiguousFields, Fields.keys]
  have hw : w.Unambiguous := by
    simp [w, Unambiguous, UnambiguousItems, UnambiguousFields, Fields.keys]
  have hstrict : strictEquals v w = true := by decide +kernel
  have hstrict' : strictEquals w v = true := ((equality_laws v w).1 hv hw).1.symm.trans hstrict
  have htext : looseEquals (text v.toText) (text "[object Object],") = true :=
    (equality_laws _ _).2.1 (by decide +kernel)
  exact ⟨hstrict, hstrict', (equality_laws w v).2.1 hstrict',
    ((equality_laws v (text "[object Object],")).2.2.2 rfl (by decide)).trans htext⟩

end FormulaSheet.Value
