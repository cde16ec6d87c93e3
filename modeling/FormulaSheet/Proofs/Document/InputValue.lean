import FormulaSheet.Proofs.Decimal.Comparison
import FormulaSheet.Proofs.Document.Notices
import FormulaSheet.Proofs.Document.Tidy

/-!
# Values given through inputs

A stepper is for the numbers within its bounds, a selector for the texts among its options, and any
other input for every value (`Input.Admits`). A value is refused where it crosses a bound, and
not-a-number crosses none. So beside the values that an input is for, a stepper takes not-a-number,
and any number where a bound is not-a-number (`Input.Escapes`). These are the only ones, and what is
refused leaves the document as it was (`Reachable.setInputValue_iff`).
-/

namespace FormulaSheet

namespace Input

/-- The number keeps to the bounds of a stepper, so far as it has any. -/
def Within (le : Float → Float → Prop) (i : Input) (x : Float) : Prop :=
  (∀ least, i.numberProp? "min" = some least → le least x) ∧
    ∀ most, i.numberProp? "max" = some most → le x most

/-- A stepper asks for a number that keeps to its bounds, a selector for a text among its
options, if they are a list. -/
def AdmitsBy (le : Float → Float → Prop) (i : Input) (v : Value) : Prop :=
  (i.kind = numberKind → ∃ x, v = .number x ∧ i.Within le x) ∧
  (i.kind = selectKind → ∃ s, v = .text s ∧
    ∀ options, Fields.get? i.props "options" = some (.array options) → .text s ∈ options)

/-- The value is one of those that the input is for. -/
def Admits (i : Input) (v : Value) : Prop := i.AdmitsBy (· ≤ ·) v

/-- One of the two is not-a-number, so that they have no order. -/
def Incomparable (x y : Float) : Prop := x.isNaN = true ∨ y.isNaN = true

/-- The value is one of those that the input takes: a bound which has no order with the number does
not count. -/
def Takes (i : Input) (v : Value) : Prop := i.AdmitsBy (fun x y => x ≤ y ∨ Incomparable x y) v

/-- The value is taken, and there is a bound that has no order with it. -/
def Escapes (i : Input) (v : Value) : Prop :=
  i.Takes v ∧ i.kind = numberKind ∧ ∃ x bound, v = .number x ∧ Incomparable x bound ∧
    (i.numberProp? "min" = some bound ∨ i.numberProp? "max" = some bound)

variable {i : Input} {v : Value} {x y : Float}

/-! ### What inputs take -/

theorem numberFault?_eq_none_iff :
    i.numberFault? v = none ↔
      ∃ x, v = .number x ∧ i.Within (fun x y => x ≤ y ∨ Incomparable x y) x := by
  cases v with
  | number x =>
    have hleast : (i.numberProp? "min").filter (x < ·) = none ↔
        ∀ least, i.numberProp? "min" = some least → least ≤ x ∨ Incomparable least x := by
      simp only [Option.filter_eq_none_iff, decide_eq_true_eq, Decimal.not_lt_iff]
      exact forall₂_congr fun least _ => or_congr_right or_comm
    have hmost : (i.numberProp? "max").filter (· < x) = none ↔
        ∀ most, i.numberProp? "max" = some most → x ≤ most ∨ Incomparable x most := by
      simp only [Option.filter_eq_none_iff, decide_eq_true_eq, Decimal.not_lt_iff]
      exact forall₂_congr fun most _ => or_congr_right or_comm
    have hnumber :
        (∃ y, Value.number x = .number y ∧ i.Within (fun x y => x ≤ y ∨ Incomparable x y) y) ↔
        i.Within (fun x y => x ≤ y ∨ Incomparable x y) x := by simp
    rw [hnumber, Within, ← hleast, ← hmost, numberFault?]
    split <;> simp_all
  | _ => simp [numberFault?]

theorem any_asText?_iff {options : List Value} {s : String} :
    (options.any fun o => o.asText? = some s) = true ↔ .text s ∈ options := by
  rw [List.any_eq_true]
  constructor
  · rintro ⟨o, ho, htext⟩
    cases o with
    | text t =>
      obtain rfl := Option.some.inj (of_decide_eq_true htext)
      exact ho
    | _ => cases of_decide_eq_true htext
  · intro hs
    exact ⟨_, hs, decide_eq_true rfl⟩

theorem selectFault?_eq_none_iff :
    i.selectFault? v = none ↔ ∃ s, v = .text s ∧
      ∀ options, Fields.get? i.props "options" = some (.array options) → .text s ∈ options := by
  cases v with
  | text s =>
    have htext : (∃ t, Value.text s = .text t ∧
        ∀ options, Fields.get? i.props "options" = some (.array options) → .text t ∈ options) ↔
        ∀ options, Fields.get? i.props "options" = some (.array options) → .text s ∈ options := by
      simp
    rw [htext, selectFault?]
    split
    · rename_i options hoptions
      rw [hoptions, ite_eq_left_iff, any_asText?_iff]
      simp
    · rename_i hnone
      exact iff_of_true rfl fun options hoptions => absurd hoptions (hnone options)
  | _ => simp [selectFault?]

/-- **What an input takes.** -/
theorem fault?_eq_none_iff : i.fault? v = none ↔ i.Takes v := by
  have hkinds : numberKind ≠ selectKind := by decide
  unfold fault?
  split_ifs with hnumber hselect
  · rw [numberFault?_eq_none_iff]
    exact ⟨fun h => ⟨fun _ => h, fun hselect => absurd (hnumber.symm.trans hselect) hkinds⟩,
      fun h => h.1 hnumber⟩
  · rw [selectFault?_eq_none_iff]
    exact ⟨fun h => ⟨fun hnumber' => absurd hnumber' hnumber, fun _ => h⟩, fun h => h.2 hselect⟩
  · exact iff_of_true rfl ⟨fun h => absurd h hnumber, fun h => absurd h hselect⟩

/-- An input is for the values that it takes, but for those that escape its bounds. -/
theorem admits_iff : i.Admits v ↔ i.Takes v ∧ ¬ i.Escapes v := by
  constructor
  · rintro ⟨hnumber, hselect⟩
    refine ⟨⟨fun hkind => ?_, hselect⟩, ?_⟩
    · obtain ⟨x, hx, hleast, hmost⟩ := hnumber hkind
      exact ⟨x, hx, fun least h => Or.inl (hleast least h), fun most h => Or.inl (hmost most h)⟩
    · rintro ⟨-, hkind, x, bound, rfl, hincomparable, hbound⟩
      obtain ⟨y, hy, hleast, hmost⟩ := hnumber hkind
      obtain rfl := Value.number.inj hy
      rcases hbound with hbound | hbound
      · exact Decimal.not_le_of_isNaN hincomparable.symm (hleast bound hbound)
      · exact Decimal.not_le_of_isNaN hincomparable (hmost bound hbound)
  · rintro ⟨htakes, hescapes⟩
    refine ⟨fun hkind => ?_, htakes.2⟩
    obtain ⟨x, rfl, hleast, hmost⟩ := htakes.1 hkind
    refine ⟨x, rfl, fun least h => ?_, fun most h => ?_⟩
    · refine (hleast least h).resolve_right fun hincomparable => hescapes ?_
      exact ⟨htakes, hkind, x, least, rfl, hincomparable.symm, Or.inl h⟩
    · refine (hmost most h).resolve_right fun hincomparable => hescapes ?_
      exact ⟨htakes, hkind, x, most, rfl, hincomparable, Or.inr h⟩

end Input

namespace Document

variable {d : Document} {id : CellId} {c : Cell} {i : Input} {v : Value} {p : Progress}

/-! ### Giving values -/

theorem setInputValue_of_input (hc : d.cell? id = some c) (hinput : c.input? = some i) (v : Value) :
    d.setInputValue id v = match i.fault? v with
      | some fault => .error (.invalidInputValue fault)
      | none => .ok (d.begin.take (c.setValue v)).flush := by
  simp only [setInputValue, find_of_cell? hc, hinput, bind, Except.bind]
  cases i.fault? v with
  | some fault => rfl
  | none => exact changeCell_of_cell? hc _

theorem setInputValue_of_no_input (h : ∀ c, d.cell? id = some c → c.input? = none) (v : Value) :
    ∃ e, d.setInputValue id v = .error e := by
  cases hc : d.cell? id with
  | none => exact ⟨_, by simp only [setInputValue, find_of_none hc]; rfl⟩
  | some c =>
    exact ⟨_, by simp only [setInputValue, find_of_cell? hc, bind, Except.bind, h c hc]; rfl⟩

/-- A value is taken exactly where the input of the cell takes it. -/
theorem exists_setInputValue_iff (hc : d.cell? id = some c) (hinput : c.input? = some i) :
    (∃ p, d.setInputValue id v = .ok p) ↔ i.Takes v := by
  rw [setInputValue_of_input hc hinput, ← Input.fault?_eq_none_iff]
  cases i.fault? v <;> simp

theorem input_of_setInputValue (h : d.setInputValue id v = .ok p) :
    ∃ c i, d.cell? id = some c ∧ c.input? = some i ∧ p = (d.begin.take (c.setValue v)).flush := by
  by_cases hnone : ∀ c, d.cell? id = some c → c.input? = none
  · obtain ⟨e, he⟩ := setInputValue_of_no_input hnone v
    cases he.symm.trans h
  · push Not at hnone
    obtain ⟨c, hc, hinput⟩ := hnone
    obtain ⟨i, hi⟩ := Option.ne_none_iff_exists'.mp hinput
    refine ⟨c, i, hc, hi, ?_⟩
    rw [setInputValue_of_input hc hi] at h
    split at h
    · cases h
    · exact (Except.ok.inj h).symm

/-- The pass that follows keeps the value, because a cell with an input is not evaluated. -/
theorem Valid.cell?_of_setInputValue (hd : d.Valid) (h : d.setInputValue id v = .ok p) :
    ∃ c, d.cell? id = some c ∧ p.document.cell? id = some { c with value := v } := by
  obtain ⟨c, i, hc, hinput, rfl⟩ := input_of_setInputValue h
  refine ⟨c, hc, ?_⟩
  have hid : c.id = id := hd.keyed.id_of_cell? hc
  have hput : (d.putCell { c with value := v }).Valid :=
    hd.putCell_same hc rfl (fun _ _ hl => hl) ((hd.faithful_of_cell? hc).congr rfl rfl rfl rfl rfl)
  have hcell : (d.putCell { c with value := v }).cell? id = some { c with value := v } := by
    rw [cell?_putCell, if_pos hid.symm]
  have hkept : Option.isSome ({ c with value := v } : Cell).input? = true := by
    rw [hinput]
    rfl
  rw [hd.document_flush_take hc (Cell.of_setValue v c)]
  show (d.putCell { c with value := v }).recompute.cell? id = _
  rw [hput.keyed.cell?_recompute, hcell, Option.map_some,
    hput.verdict_of_skipped hcell (Or.inl hkept), Cell.withResult_result]

/-- What the listeners are told in the course of an operation; one that fails tells them nothing. -/
def Operation.told (d : Document) (op : Operation) : List Notice :=
  (op.course d).toOption.elim [] Progress.notices

/-- **Which values can be given through an input.** A cell with an input takes the values that its
input takes, and these are the ones that the input is for exactly where none escapes its bounds.
What is taken becomes the value of the cell, which stays the same otherwise. Every other value, and
every value for a cell without an input, is refused, and then the document stays as it is and
nobody is told anything. -/
theorem Reachable.setInputValue_iff (h : d.Reachable) (id : CellId) (v : Value) :
    (∀ c i, d.cell? id = some c → c.input? = some i →
      ((∃ p, d.setInputValue id v = .ok p) ↔ i.Takes v) ∧
      (((∃ p, d.setInputValue id v = .ok p) ↔ i.Admits v) ↔ ¬ i.Escapes v)) ∧
    (∀ p, d.setInputValue id v = .ok p → d.step (.setInputValue id v) = p.document ∧
      ∃ c, d.cell? id = some c ∧ p.document.cell? id = some { c with value := v }) ∧
    ((∀ c, d.cell? id = some c → c.input? = none) → ∃ e, d.setInputValue id v = .error e) ∧
    (∀ e, d.setInputValue id v = .error e →
      d.step (.setInputValue id v) = d ∧ Operation.told d (.setInputValue id v) = []) := by
  refine ⟨fun c i hc hinput => ?_, fun p hp => ?_, fun hnone => setInputValue_of_no_input hnone v,
    fun e he => ?_⟩
  · have htakes := exists_setInputValue_iff (v := v) hc hinput
    refine ⟨htakes, ?_⟩
    rw [htakes, Input.admits_iff]
    refine ⟨fun hsame hescapes => (hsame.mp hescapes.1).2 hescapes, fun hescapes => ?_⟩
    exact (and_iff_left hescapes).symm
  · exact ⟨Operation.step_of_course hp, h.valid.cell?_of_setInputValue hp⟩
  · refine ⟨Operation.step_of_course_error he, ?_⟩
    rw [Operation.told, Operation.course, he]
    rfl

/-- A stepper from 0 to 10 takes not-a-number, which it is not for. -/
theorem setInputValue_iff_stepper :
    let d := (create ⟨.empty, .empty, .default⟩ []).run
      [.addCell "a" ⟨none, "a", "", some (Input.number 0 10 1 0), []⟩]
    d.Reachable ∧ ∃ c i p, d.cell? "a" = some c ∧ c.input? = some i ∧
      d.setInputValue "a" (.number notANumber) = .ok p ∧ ¬ i.Admits (.number notANumber) := by
  intro d
  have hreachable : d.Reachable := (Initial.create _ _).reachable.run _
  have hok : (d.setInputValue "a" (.number notANumber)).toOption.isSome = true := by decide +kernel
  have hstepper : ((d.cell? "a").bind Cell.input?).any (fun i =>
      i.kind == Input.numberKind && (i.numberProp? "min").isSome) = true := by decide +kernel
  cases hp : d.setInputValue "a" (.number notANumber) with
  | error e =>
    rw [hp] at hok
    cases hok
  | ok p =>
    obtain ⟨c, i, hc, hinput, -⟩ := input_of_setInputValue hp
    rw [hc, Option.bind_some, hinput, Option.any_some, Bool.and_eq_true, beq_iff_eq] at hstepper
    obtain ⟨least, hleast⟩ := Option.isSome_iff_exists.mp hstepper.2
    obtain ⟨htakes, hadmits⟩ :=
      (hreachable.setInputValue_iff "a" (.number notANumber)).1 c i hc hinput
    have hescapes : i.Escapes (.number notANumber) :=
      ⟨htakes.mp ⟨p, hp⟩, hstepper.1, notANumber, least, rfl, Or.inl (by decide +kernel),
        Or.inl hleast⟩
    refine ⟨hreachable, c, i, p, hc, hinput, rfl, fun hadmitted => ?_⟩
    exact hadmits.mp (iff_of_true ⟨p, hp⟩ hadmitted) hescapes

end Document

end FormulaSheet
