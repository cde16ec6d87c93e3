import FormulaSheet.Proofs.Document.Agreement

/-!
# Reading a document back from its record

The record of a document has a row for each cell, and the document that is made from it has the same
cells: their names, texts and tags are taken over, and their inputs start with the values they had.
The pass that follows finds the same cells as a pass over the document itself
(`Keyed.alike_reload`), and so gives them the same results (`Reachable.ofRecord_record`).
-/

namespace FormulaSheet

namespace Input

/-- The second input is the first one starting with a value: no other property differs, and there is
no start where the value is absent. -/
structure StartsWith (v : Value) (i i' : Input) : Prop where
  kind : i'.kind = i.kind
  props : Fields.erase i'.props defaultProp = Fields.erase i.props defaultProp
  start : Fields.get? i'.props defaultProp = if v.isAbsent then none else some v

theorem startsWith_withStart (v : Value) (i : Input) : StartsWith v i (i.withStart v) := by
  unfold withStart withProp
  cases hv : v.isAbsent with
  | true =>
    constructor
    · rfl
    · simp only [if_true, Fields.erase_erase]
    · simp only [if_true, Fields.get?_erase, hv]
  | false =>
    constructor
    · rfl
    · simp only [Bool.false_eq_true, if_false, Fields.erase_insert]
    · simp only [Bool.false_eq_true, if_false, Fields.get?_insert, if_true, hv]

theorem startValue_withStart (v : Value) (i : Input) : (i.withStart v).startValue = v := by
  rw [startValue, (startsWith_withStart v i).start]
  cases v <;> rfl

end Input

namespace Document

variable {d d' : Document} {id : CellId} {c : Cell}

/-! ### Rows -/

/-- The cell that is added for a row. -/
def cellOfRow (eng : Engine) (r : Row) : CellId × Cell :=
  (r.id, (Cell.create eng r.id (rowOptions r)).subscribe)

/-- Rows with ids of their own are all added, in their order. -/
theorem foldlM_insertCell_eq {rows : List Row}
    (hnodup : (Fields.keys d.cells ++ rows.map Row.id).Nodup) :
    ∃ d', rows.foldlM (fun d row => Prod.snd <$> d.insertCell row.id (rowOptions row)) d = .ok d' ∧
      d'.engine = d.engine ∧ d'.context = d.context ∧
      d'.cells = d.cells ++ rows.map (cellOfRow d.engine) := by
  induction rows generalizing d with
  | nil => exact ⟨d, rfl, rfl, rfl, (List.append_nil _).symm⟩
  | cons row rows ih =>
    have hnew : row.id ∉ Fields.keys d.cells := by
      intro hmem
      exact (List.nodup_append.mp hnodup).2.2 row.id hmem row.id List.mem_cons_self rfl
    have hcontains : ¬ Fields.contains d.cells row.id = true := by
      rw [Fields.contains_iff_mem_keys]
      exact hnew
    have hinsert : d.insertCell row.id (rowOptions row) =
        .ok (row.id, d.insertNew row.id (rowOptions row)) := if_neg hcontains
    have hcells :
        (d.insertNew row.id (rowOptions row)).cells = d.cells ++ [cellOfRow d.engine row] :=
      Fields.insert_of_not_mem hnew _
    have hrest :
        (Fields.keys (d.insertNew row.id (rowOptions row)).cells ++ rows.map Row.id).Nodup := by
      rw [hcells]
      simpa [Fields.keys, cellOfRow] using hnodup
    obtain ⟨d', hd', hengine, hcontext, hcells'⟩ := ih hrest
    refine ⟨d', ?_, hengine, hcontext, ?_⟩
    · rw [List.foldlM_cons, hinsert]
      exact hd'
    · rw [hcells', hcells, List.append_assoc]
      rfl

/-- A cell of the document as it is read back, before the pass. -/
def restored (d : Document) (c : Cell) : Cell :=
  (Cell.create d.engine c.id (rowOptions (d.row c))).subscribe

theorem expression_restored (hfaithful : c.Faithful d.engine) :
    (d.restored c).expression = c.expression := by
  have hoptions : (rowOptions (d.row c)).expression = c.expression := by
    cases hinput : c.input? with
    | none => simp [rowOptions, row, hinput]
    | some i =>
      have hempty := hfaithful.input (by simp [hinput])
      simp [rowOptions, row, hinput, hempty]
  refine (Cell.expression_create d.engine c.id ?_).trans hoptions
  intro hinput
  rw [hoptions]
  apply hfaithful.input
  intro hnone
  simp [rowOptions, row, hnone] at hinput

theorem input_restored (d : Document) (c : Cell) :
    (d.restored c).input? = c.input?.map fun i => i.withStart c.value :=
  Cell.input_create d.engine c.id (rowOptions (d.row c))

theorem tags_restored (htidy : c.Tidy) : (d.restored c).tags = c.tags := by
  refine (Cell.tags_create d.engine c.id (rowOptions (d.row c))).trans ?_
  apply foldl_addNew_of_nodup
  exact htidy.tags

theorem faithful_restored (d : Document) (c : Cell) : (d.restored c).Faithful d.engine :=
  (Cell.faithful_create d.engine c.id (rowOptions (d.row c))).congr rfl rfl rfl rfl rfl

theorem tidy_restored (d : Document) (c : Cell) : (d.restored c).Tidy :=
  (Cell.tidy_create d.engine c.id (rowOptions (d.row c))).congr rfl rfl rfl rfl

theorem value_restored_of_input {i : Input} (hinput : c.input? = some i) :
    (d.restored c).value = c.value := by
  have hrow : (rowOptions (d.row c)).input? = some (i.withStart c.value) := by
    simp [rowOptions, row, hinput]
  exact (Cell.value_create d.engine c.id hrow).trans (Input.startValue_withStart c.value i)

theorem value_restored_of_not_safe (hoffends : (d.restored c).isSafe = false) :
    (d.restored c).value = .absent := by
  unfold restored Cell.create at hoffends ⊢
  cases hinput : (rowOptions (d.row c)).input? with
  | some i =>
    rw [hinput] at hoffends
    cases hoffends
  | none =>
    rw [hinput] at hoffends
    exact Cell.value_compile_of_not_safe hoffends

/-- A pass makes the same of a cell and of the cell that is read back. -/
theorem alike_restored (hfaithful : c.Faithful d.engine) (htidy : c.Tidy)
    (hcleared : c.isSafe = false → c.value = .absent) : c.Alike (d.restored c) := by
  obtain ⟨hexpr, hoffenses, hcompile⟩ :=
    hfaithful.same_reading (faithful_restored d c) (expression_restored hfaithful)
  have hsafe : (d.restored c).isSafe = c.isSafe := congrArg List.isEmpty hoffenses
  have hinput : (d.restored c).input?.isSome = c.input?.isSome := by
    rw [input_restored, Option.isSome_map]
  refine ⟨hexpr, hsafe, hcompile, hinput, ?_, ?_⟩
  · intro hsome
    obtain ⟨i, hi⟩ := Option.isSome_iff_exists.mp hsome
    rw [Cell.result, Cell.result, value_restored_of_input hi, htidy.evalError (Or.inl hsome),
      (tidy_restored d c).evalError (Or.inl (hinput.trans hsome))]
  · intro hoffends
    rw [hcleared hoffends]
    exact value_restored_of_not_safe (hsafe.trans hoffends)

/-! ### Documents -/

theorem Keyed.ids_record (hd : d.Keyed) : d.record.rows.map Row.id = Fields.keys d.cells := by
  simp only [record, cellList, List.map_map, Fields.keys]
  apply List.map_congr_left
  intro p hp
  exact hd.id_eq p hp

/-- Reading the record of a document succeeds, up to the pass, with the cells read back one by
one. -/
theorem Keyed.rows_record (hd : d.Keyed) :
    ∃ d₀, d.record.rows.foldlM (fun d row => Prod.snd <$> d.insertCell row.id (rowOptions row))
        (create d.engine d.context) = .ok d₀ ∧
      d₀.engine = d.engine ∧ d₀.context = d.context ∧
      d₀.cells = d.cells.map fun p => (p.1, d.restored p.2) := by
  have hnodup :
      (Fields.keys (create d.engine d.context).cells ++ d.record.rows.map Row.id).Nodup := by
    rw [hd.ids_record]
    exact hd.nodup
  obtain ⟨d₀, hd₀, hengine, hcontext, hcells⟩ := foldlM_insertCell_eq hnodup
  refine ⟨d₀, hd₀, hengine, hcontext, ?_⟩
  rw [hcells]
  simp only [create, List.nil_append, record, cellList, List.map_map]
  apply List.map_congr_left
  intro p hp
  rw [← hd.id_eq p hp]
  rfl

theorem Valid.alike_of_cells (hd : d.Valid) (htidy : d.Tidy) (hcleared : d.Cleared)
    (hengine : d'.engine = d.engine) (hcontext : d'.context = d.context)
    (hcells : d'.cells = d.cells.map fun p => (p.1, d.restored p.2)) : d.Alike d' := by
  have hnames : d'.names = d.names := by
    simp only [names, hcells, List.map_map]
    apply List.map_congr_left
    intro p _
    exact congrArg (Prod.mk p.1) (Cell.name_create d.engine p.2.id (rowOptions (d.row p.2)))
  refine ⟨hengine, hcontext, ?_, resolve?_congr hnames, ?_⟩
  · rw [hcells, Fields.keys_map d.cells d.restored]
  · intro id c c' hc hc'
    have hmem := mem_of_cell? hc
    rw [cell?, hcells, Fields.get?_map d.cells d.restored,
      show Fields.get? d.cells id = some c from hc, Option.map_some, Option.some.injEq] at hc'
    rw [← hc']
    exact alike_restored (hd.faithful _ hmem) (htidy _ hmem) (hcleared _ hmem)

/-- **A document is read back from its record.** The copy has the same cells in the same order, each
with its name, text and tags and with its input starting with the value of the cell, and their
values and errors are those that a pass gives the document itself. -/
theorem Reachable.ofRecord_record (h : d.Reachable) (hcleared : d.Cleared) :
    ∃ d', ofRecord d.engine d.context d.record = .ok d' ∧
      Fields.keys d'.cells = Fields.keys d.cells ∧
      ∀ id c, d.cell? id = some c → ∃ c' cr, d'.cell? id = some c' ∧
        d.recompute.cell? id = some cr ∧
        c'.name = c.name ∧ c'.expression = c.expression ∧ c'.tags = c.tags ∧
        Option.Rel (Input.StartsWith c.value) c.input? c'.input? ∧
        c'.value = cr.value ∧ c'.compileError? = cr.compileError? ∧
        c'.evalError? = cr.evalError? := by
  have hd := h.valid
  obtain ⟨d₀, hrows, hengine, hcontext, hcells⟩ := hd.keyed.rows_record
  have hrecord : ofRecord d.engine d.context d.record = .ok d₀.recompute := by
    rw [ofRecord, hrows]
    rfl
  have halike := hd.alike_of_cells h.tidy hcleared hengine hcontext hcells
  have hd₀ : d₀.Keyed := (foldlM_insertCell (P := fun _ => True) (fun _ _ _ _ => trivial)
    (valid_create d.engine d.context) trivial hrows).1.keyed
  refine ⟨d₀.recompute, hrecord, ?_, ?_⟩
  · rw [hd₀.recompute_spec.1.keys, hcells, Fields.keys_map d.cells d.restored]
  · intro id c hc
    have hmem := mem_of_cell? hc
    have hc₀ : d₀.cell? id = some (d.restored c) := by
      rw [cell?, hcells, Fields.get?_map d.cells d.restored,
        show Fields.get? d.cells id = some c from hc]
      rfl
    have hsame := halike.sameResult_verdict hd.keyed hd₀ hc hc₀
    have hcompile := (halike.cells id c _ hc hc₀).compileError
    have hsafe := (halike.cells id c _ hc hc₀).safe
    have hcopy := hd₀.recompute_spec.2.2.1 id _ hc₀
    have hresult := hd.keyed.recompute_spec.2.2.1 id c hc
    refine ⟨_, _, hcopy, hresult, ?_, expression_restored (hd.faithful _ hmem),
      tags_restored (h.tidy _ hmem), ?_, hsame.1, hcompile, ?_⟩
    · exact Cell.name_create d.engine c.id (rowOptions (d.row c))
    · show Option.Rel _ c.input? (d.restored c).input?
      rw [input_restored]
      cases c.input? with
      | none => exact .none
      | some i => exact .some (Input.startsWith_withStart c.value i)
    · cases hoffends : c.isSafe with
      | true => exact hsame.2 hoffends
      | false =>
        -- no pass has evaluated either of them
        have htidy := (h.tidy.recompute hd) _ (mem_of_cell? hresult)
        have htidy' := (Initial.ofRecord hrecord).tidy _ (mem_of_cell? hcopy)
        rw [htidy.evalError (Or.inr hoffends), htidy'.evalError (Or.inr (hsafe.trans hoffends))]

/-- An input that was given a value, and a cell that reads it. -/
theorem ofRecord_record_input :
    let d := (create ⟨.empty, .empty, .default⟩ []).run
      [.addCell "i" ⟨none, "x", "", some ⟨"select", []⟩, ["t"]⟩,
        .addCell "k" ⟨none, "y", "[x, 1]", none, []⟩, .setValue "i" (.text "v")]
    d.Reachable ∧ d.Cleared ∧ ∃ d', ofRecord d.engine d.context d.record = .ok d' ∧
      Fields.keys d'.cells = Fields.keys d.cells := by
  intro d
  have hreachable : d.Reachable := (Initial.create _ _).reachable.run _
  have hsafe : ∀ p ∈ d.cells, p.2.isSafe = true := by decide +kernel
  have hcleared : d.Cleared := by
    intro p hp hoffends
    rw [hsafe p hp] at hoffends
    cases hoffends
  obtain ⟨d', hd', hkeys, -⟩ := hreachable.ofRecord_record hcleared
  exact ⟨hreachable, hcleared, d', hd', hkeys⟩

end Document

end FormulaSheet
