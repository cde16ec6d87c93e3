import FormulaSheet.Proofs.Document.Notices
import FormulaSheet.Proofs.Document.References

/-!
# Names in the order in which the cells were added

The names of the cells stand in the order in which the cells were added: they begin in the order of
the rows of a record (`names_of_ofRecord`), a new cell comes last, a cell that is removed leaves the
order of the others, and a renamed cell keeps its place (`Valid.names_of_course`). A name refers to
the first cell that has it, or if there is none to the first one that has it without its dollar sign
(`resolve?_eq_some_iff_refersTo`).
-/

namespace FormulaSheet.Document

variable {d : Document} {n : String} {id : CellId} {op : Operation} {p : Progress}

/-! ### What names refer to -/

/-- The cell is the first one that has the name. -/
def FirstNamed (d : Document) (n : String) (id : CellId) : Prop :=
  ∃ before after, d.names = before ++ (id, n) :: after ∧ ∀ q ∈ before, q.2 ≠ n

/-- The name refers to the cell. -/
def RefersTo (d : Document) (n : String) (id : CellId) : Prop :=
  d.FirstNamed n id ∨ (∀ q ∈ d.names, q.2 ≠ n) ∧ ∃ bare, n = "$" ++ bare ∧ d.FirstNamed bare id

theorem named?_eq_some_iff_firstNamed : d.named? n = some id ↔ d.FirstNamed n id := by
  rw [named?_eq_find?, FirstNamed]
  simp only [Option.map_eq_some_iff, List.find?_eq_some_iff_append, beq_iff_eq, Bool.not_eq_true',
    beq_eq_false_iff_ne]
  constructor
  · rintro ⟨⟨id, n⟩, ⟨rfl, before, after, hnames, hbefore⟩, rfl⟩
    exact ⟨before, after, hnames, hbefore⟩
  · rintro ⟨before, after, hnames, hbefore⟩
    exact ⟨(id, n), ⟨rfl, before, after, hnames, hbefore⟩, rfl⟩

theorem named?_eq_none_iff_names : d.named? n = none ↔ ∀ q ∈ d.names, q.2 ≠ n := by
  rw [named?_eq_none_iff, names, List.forall_mem_map]

theorem resolve?_eq_some_iff_refersTo : d.resolve? n = some id ↔ d.RefersTo n id := by
  rw [resolve?_eq_some_iff, named?_eq_some_iff_firstNamed, named?_eq_none_iff_names, RefersTo]
  refine or_congr_right (and_congr_right fun _ => ?_)
  rw [Option.bind_eq_some_iff]
  constructor
  · rintro ⟨bare, hbare, hnamed⟩
    exact ⟨bare, eq_dollar_of_bareName? hbare, named?_eq_some_iff_firstNamed.mp hnamed⟩
  · rintro ⟨bare, rfl, hfirst⟩
    exact ⟨bare, bareName?_dollar bare, named?_eq_some_iff_firstNamed.mpr hfirst⟩

/-! ### What operations do to names -/

/-- The names of the cells after an operation that succeeds. -/
def namesAfter (d : Document) : Operation → List (CellId × String)
  | .addCell fresh o => d.names ++ [(o.id?.getD fresh, o.name)]
  | .removeCell id => d.names.filter (·.1 != id)
  | .renameCell id name => d.names.map fun q => if q.1 = id then (q.1, name) else q
  | _ => d.names

theorem names_insertNew (hnew : Fields.contains d.cells id = false) (o : CellOptions) :
    (d.insertNew id o).names = d.names ++ [(id, o.name)] := by
  have hkey : id ∉ Fields.keys d.cells := by
    rw [← Fields.contains_iff_mem_keys, hnew]
    exact Bool.false_ne_true
  have hcells :
      (d.insertNew id o).cells = d.cells ++ [(id, (Cell.create d.engine id o).subscribe)] :=
    Fields.insert_of_not_mem hkey _
  have hname : (Cell.create d.engine id o).subscribe.name = o.name := Cell.name_create d.engine id o
  rw [names, hcells, List.map_append, List.map_singleton, hname, names]

theorem names_eraseCell (d : Document) (id : CellId) :
    (d.eraseCell id).names = d.names.filter (·.1 != id) := by
  rw [names, names, List.filter_map]
  rfl

/-- A cell that is given the name that it has. -/
theorem Keyed.names_map_same (hd : d.Keyed) {c : Cell} (hc : d.cell? id = some c) :
    (d.names.map fun q => if q.1 = id then (q.1, c.name) else q) = d.names := by
  rw [names, List.map_map]
  refine List.map_congr_left fun q hq => ?_
  rw [Function.comp_apply]
  split
  · rename_i hid
    have hcell := hd.cell?_of_mem hq
    rw [show q.1 = id from hid, hc, Option.some.injEq] at hcell
    rw [hcell]
  · rfl

theorem Valid.names_of_course (hd : d.Valid) (h : op.course d = .ok p) :
    p.document.names = d.namesAfter op := by
  have hstep : p.document.names = (d.edit op).names := by
    rw [← Operation.step_of_course h]
    obtain ⟨hpass, hquiet⟩ := hd.step_eq op
    by_cases hmakes : MakesPass d op
    · rw [hpass hmakes]
      exact (hd.edit op).keyed.recompute_spec.1.names
    · rw [hquiet hmakes]
  rw [hstep]
  cases hchange : op.change? d.engine with
  | some change =>
    obtain ⟨id, f⟩ := change
    have hafter : d.namesAfter op = d.names := by cases op <;> first | rfl | cases hchange
    rw [hafter, (edit_of_change? hchange).1]
    cases hc : d.cell? id with
    | none => rfl
    | some c =>
      have hname := (Operation.makes_of_change? hchange c).name_eq
      exact hd.keyed.names_putCell hc (Operation.of_change? hchange c).id hname
  | none =>
    cases op <;> simp only [Operation.change?, reduceCtorEq] at hchange
    case addCell fresh o =>
      have hnew : Fields.contains d.cells (o.id?.getD fresh) = false := (course_addCell h).1
      have hedit : d.edit (.addCell fresh o) = d.insertNew (o.id?.getD fresh) o := by
        simp [Document.edit, hnew]
      rw [hedit]
      exact names_insertNew hnew o
    case removeCell id =>
      cases hc : d.cell? id with
      | none =>
        rw [Operation.course, removeCell, find_of_none hc] at h
        cases h
      | some c =>
        have hedit : d.edit (.removeCell id) = d.eraseCell id := by simp [Document.edit, hc]
        rw [hedit]
        exact names_eraseCell d id
    case renameCell id name =>
      cases hc : d.cell? id with
      | none =>
        rw [Operation.course, renameCell, find_of_none hc] at h
        cases h
      | some c =>
        by_cases hname : c.name = name
        · have hdocument := renameCell_of_same hc hname h
          rw [← hstep, hdocument, ← hname]
          exact (hd.keyed.names_map_same hc).symm
        · have hren := renamable_of_renameCell hd.keyed hc hname h
          have hedit : d.edit (.renameCell id name) = d.renameCells id c.name name := by
            simp [Document.edit, hc, hren]
          rw [hedit]
          exact names_renameCells hd.keyed id c.name name
    case setContext => rfl
    case recomputeAll => rfl
    case onChange => rfl
    case removeListener => rfl
    case subscribe id =>
      cases hc : d.cell? id with
      | none => simp [Document.edit, hc, namesAfter]
      | some c =>
        simp only [Document.edit, hc]
        exact hd.keyed.names_putCell hc rfl rfl
    case unsubscribe id l =>
      cases hc : d.cell? id with
      | none => simp [Document.edit, hc, namesAfter]
      | some c =>
        simp only [Document.edit, hc]
        split
        · rfl
        · exact hd.keyed.names_putCell hc rfl rfl

/-! ### Records -/

theorem names_of_rows {d' : Document} {rows : List Row}
    (h : rows.foldlM (fun d row => Prod.snd <$> d.insertCell row.id (rowOptions row)) d = .ok d') :
    d'.names = d.names ++ rows.map fun row => (row.id, row.name) := by
  induction rows generalizing d with
  | nil =>
    rw [List.foldlM_nil] at h
    cases h
    exact (List.append_nil _).symm
  | cons row rows ih =>
    rw [List.foldlM_cons] at h
    cases hcontains : Fields.contains d.cells row.id with
    | true =>
      have herror : d.insertCell row.id (rowOptions row) = .error (.duplicateId row.id) :=
        if_pos hcontains
      rw [herror] at h
      cases h
    | false =>
      have hok : d.insertCell row.id (rowOptions row) =
          .ok (row.id, d.insertNew row.id (rowOptions row)) :=
        if_neg (Bool.eq_false_iff.mp hcontains)
      rw [hok] at h
      rw [ih h, names_insertNew hcontains, List.append_assoc]
      rfl

/-- The cells of a record are added in the order of its rows. -/
theorem names_of_ofRecord {eng : Engine} {context : Fields Value} {r : Record}
    (h : ofRecord eng context r = .ok d) : d.names = r.rows.map fun row => (row.id, row.name) := by
  unfold ofRecord at h
  cases hrows : r.rows.foldlM (fun d row => Prod.snd <$> d.insertCell row.id (rowOptions row))
      (create eng context) with
  | error e =>
    rw [hrows] at h
    cases h
  | ok d₀ =>
    rw [hrows] at h
    cases h
    obtain ⟨hvalid, -⟩ := foldlM_insertCell (P := fun _ => True) (fun _ _ _ _ => trivial)
      (valid_create eng context) trivial hrows
    exact hvalid.keyed.recompute_spec.1.names.trans (names_of_rows hrows)

end FormulaSheet.Document
