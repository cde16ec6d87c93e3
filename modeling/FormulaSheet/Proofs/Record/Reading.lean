import FormulaSheet.Proofs.Json.Shape
import FormulaSheet.Proofs.Value.Json
import FormulaSheet.Record.Reader

/-!
# A written record is read back as deep as there is room

The text of a record is read as the record with its values read back
(`Record.toOption_parse_pretty`). All else is read back as it was. A value of a row is read back
where it nests no deeper than the limit behind the three lists and objects around it, and a property
of an input behind the five around it (`Record.isSome_reread`).
-/

namespace FormulaSheet

open Json Json.Read

variable {indent : String} {level : Nat}

/-! ### Values and inputs -/

/-- What is read back of a value that stands inside of `outer` lists and objects. -/
def Value.reread (outer : Nat) (v : Value) : Option Value :=
  (Json.reread (nestingLimit - outer) v.toJson).map Value.ofJson

theorem Value.readsAs_read (hindent : Blank indent.toList) (outer : Nat) (v : Value) :
    ReadsAs (Value.read outer) (indentedAt indent level v.toJson).toList (v.reread outer) :=
  (readsAs_tree hindent (nestingLimit - outer) level v.inRange_toJson).map Value.ofJson

theorem Value.isSome_reread {outer : Nat} {v : Value} (hv : v.toJson.Accepted) :
    (v.reread outer).isSome = true ↔ v.nesting ≤ nestingLimit - outer := by
  rw [Value.reread, Option.isSome_map, Json.isSome_reread hv, Value.nesting_toJson]

namespace Input

variable {i : Input}

def propsJson (i : Input) : Json := .obj (i.props.map fun p => (p.1, p.2.toJson))

/-- What is read back of the properties of an input inside of a row. -/
def rereadProps (i : Input) : Option (Fields Value) :=
  (i.props.mapM fun p : String × Value => (p.2.reread 5).map (p.1, ·)).map Fields.ofList

def reread (i : Input) : Option Input := i.rereadProps.map fun props => ⟨i.kind, props⟩

def written (i : Input) : List (Shape.Written Input) :=
  [⟨"type", .str i.kind, some fun j => { j with kind := i.kind }⟩,
   ⟨"props", i.propsJson, i.rereadProps.map fun props j => { j with props := props }⟩]

theorem toJson_eq_written (i : Input) : i.toJson = .obj (i.written.map fun y => (y.name, y.json)) :=
  rfl

theorem putAll_written (i : Input) : Shape.putAll shape.start i.written = i.reread := by
  unfold written reread
  simp only [Shape.putAll_cons]
  cases i.rereadProps <;> rfl

theorem inRange_toJson (i : Input) : i.toJson.InRange := by
  apply inRange_obj
  intro p hp
  rcases List.mem_cons.mp hp with rfl | hp
  · exact inRange_str i.kind
  · rw [List.mem_singleton.mp hp]
    apply inRange_obj
    intro q hq
    obtain ⟨prop, _, rfl⟩ := List.mem_map.mp hq
    exact prop.2.inRange_toJson

theorem accepted_prop (hi : i.toJson.Accepted) {p : String × Value} (hp : p ∈ i.props) :
    p.2.toJson.Accepted := by
  have hprops : i.propsJson.Accepted :=
    hi.member (p := ("props", i.propsJson)) (List.mem_cons_of_mem _ List.mem_cons_self)
  exact hprops.member (p := (p.1, p.2.toJson)) (List.mem_map.mpr ⟨p, hp, rfl⟩)

theorem readsAs_read (hindent : Blank indent.toList) (i : Input) :
    ReadsAs shape.read (indentedAt indent level i.toJson).toList i.reread := by
  have hprops : ReadsAs (mapOf (Value.read 5)) (indentedAt indent (level + 1) i.propsJson).toList
      i.rereadProps := by
    apply readsAs_mapOf hindent
    intro p hp
    exact Value.readsAs_read hindent 5 p.2
  rw [toJson_eq_written, ← putAll_written]
  apply Shape.readsAs_read hindent
  · intro y hy
    rcases List.mem_cons.mp hy with rfl | hy
    · exact ⟨_, rfl, (readsAs_stringValue i.kind).map _⟩
    · rw [List.mem_singleton.mp hy]
      exact ⟨_, rfl, hprops.map _⟩
  · simp
  · simp [shape]

theorem isSome_reread (hi : i.toJson.Accepted) :
    i.reread.isSome = true ↔ ∀ p ∈ i.props, p.2.nesting ≤ nestingLimit - 5 := by
  rw [reread, rereadProps, Option.isSome_map, Option.isSome_map, isSome_mapM]
  apply forall₂_congr
  intro p hp
  rw [Option.isSome_map]
  exact Value.isSome_reread (accepted_prop hi hp)

end Input

/-! ### Rows -/

namespace Row

variable {r : Row}

/-- What is read back of the value of a row inside of a record. -/
def rereadValue (r : Row) : Option Value :=
  if r.value.isAbsent then some .absent else r.value.reread 3

/-- What is read back of the input of a row, if it has one. -/
def rereadInput (r : Row) : Option (Option Input) :=
  match r.input? with
  | none => some none
  | some i => i.reread.map some

/-- What is read back of a row: the row with its values read back. -/
def reread (r : Row) : Option Row :=
  r.rereadValue.bind fun v => r.rereadInput.map fun i => { r with value := v, input? := i }

def writtenValue (r : Row) : List (Shape.Written Row) :=
  if r.value.isAbsent then []
  else [⟨"value", r.value.toJson, (r.value.reread 3).map fun v s => { s with value := v }⟩]

def writtenInput (r : Row) : List (Shape.Written Row) :=
  match r.input? with
  | none => []
  | some i => [⟨"input", i.toJson, (i.reread.map some).map fun i s => { s with input? := i }⟩]

def writtenError (r : Row) : List (Shape.Written Row) :=
  match r.error? with
  | none => []
  | some e => [⟨"error", .str e, some fun s => { s with error? := some e }⟩]

def written (r : Row) : List (Shape.Written Row) :=
  ⟨"id", .str r.id, some fun s => { s with id := r.id }⟩ ::
  ⟨"name", .str r.name, some fun s => { s with name := r.name }⟩ ::
  ⟨"expr", .str r.expr, some fun s => { s with expr := r.expr }⟩ ::
    (r.writtenValue ++ (r.writtenInput ++
      ⟨"dependencies", texts r.dependencies,
        some fun s => { s with dependencies := r.dependencies }⟩ ::
      ⟨"tags", texts r.tags, some fun s => { s with tags := r.tags }⟩ :: r.writtenError))

theorem toJson_eq_written (r : Row) :
    r.toJson = .obj (r.written.map fun y => (y.name, y.json)) := by
  unfold toJson written writtenValue writtenInput writtenError
  cases r.value.isAbsent <;> cases r.input? <;> cases r.error? <;> rfl

theorem putAll_writtenValue (s : Row) (hs : s.value = .absent) :
    Shape.putAll s r.writtenValue = r.rereadValue.map fun v => { s with value := v } := by
  unfold writtenValue rereadValue
  split
  · have hsame : { s with value := .absent } = s := by rw [← hs]
    rw [Option.map_some, hsame]
    rfl
  · rw [Shape.putAll_cons]
    cases r.value.reread 3 <;> rfl

theorem putAll_writtenInput (s : Row) (hs : s.input? = none) :
    Shape.putAll s r.writtenInput = r.rereadInput.map fun i => { s with input? := i } := by
  unfold writtenInput rereadInput
  cases r.input? with
  | none =>
    have hsame : { s with input? := none } = s := by rw [← hs]
    rw [Option.map_some, hsame]
    rfl
  | some i =>
    dsimp only
    rw [Shape.putAll_cons]
    cases i.reread <;> rfl

theorem putAll_writtenError (s : Row) (hs : s.error? = none) :
    Shape.putAll s r.writtenError = some { s with error? := r.error? } := by
  unfold writtenError
  cases r.error? with
  | none =>
    have hsame : { s with error? := none } = s := by rw [← hs]
    rw [hsame]
    rfl
  | some e => rfl

theorem putAll_written (r : Row) : Shape.putAll shape.start r.written = r.reread := by
  unfold written reread
  simp only [Shape.putAll_cons, Shape.putAll_append, Option.bind_some]
  rw [putAll_writtenValue _ rfl]
  cases r.rereadValue with
  | none => rfl
  | some v =>
    rw [Option.map_some, Option.bind_some, putAll_writtenInput _ rfl]
    cases r.rereadInput with
    | none => rfl
    | some i =>
      rw [Option.map_some, Option.bind_some, putAll_writtenError _ rfl]
      rfl

theorem reads_writtenValue (hindent : Blank indent.toList) {y : Shape.Written Row}
    (hy : y ∈ r.writtenValue) :
    shape.Reads y.name (indentedAt indent level y.json).toList y.put := by
  unfold writtenValue at hy
  split at hy
  · cases hy
  · rw [List.mem_singleton.mp hy]
    exact ⟨_, rfl, (Value.readsAs_read hindent 3 r.value).map _⟩

theorem reads_writtenInput (hindent : Blank indent.toList) {y : Shape.Written Row}
    (hy : y ∈ r.writtenInput) :
    shape.Reads y.name (indentedAt indent level y.json).toList y.put := by
  unfold writtenInput at hy
  split at hy
  · cases hy
  · rename_i i _
    rw [List.mem_singleton.mp hy]
    have hread : ReadsAs (optional Input.shape.read) (indentedAt indent level i.toJson).toList
        (i.reread.map some) := by
      have hinput : ReadsAs Input.shape.read (indentedAt indent level i.toJson).toList i.reread :=
        Input.readsAs_read hindent i
      obtain ⟨t, ht⟩ : ∃ t, (indentedAt indent level i.toJson).toList = '\x7b' :: t := by
        rw [Input.toJson, indentedAt]
        exact exists_toList_bracketed indent level String.toList_ofList _ _
      rw [ht] at hinput ⊢
      exact readsAs_optional rfl (by decide) hinput
    exact ⟨_, rfl, hread.map _⟩

theorem reads_writtenError {y : Shape.Written Row} (hy : y ∈ r.writtenError) :
    shape.Reads y.name (indentedAt indent level y.json).toList y.put := by
  unfold writtenError at hy
  split at hy
  · cases hy
  · rename_i e _
    rw [List.mem_singleton.mp hy]
    have hread : ReadsAs (optional stringValue) (quoted e).toList (some (some e)) := by
      have htext := readsAs_stringValue e
      rw [toList_quoted] at htext ⊢
      exact readsAs_optional rfl (by decide) htext
    exact ⟨_, rfl, hread.map _⟩

theorem readsAs_read (hindent : Blank indent.toList) (r : Row) :
    ReadsAs shape.read (indentedAt indent level r.toJson).toList r.reread := by
  rw [toJson_eq_written, ← putAll_written]
  apply Shape.readsAs_read hindent
  · intro y hy
    simp only [List.mem_cons, List.mem_append] at hy
    rcases hy with rfl | rfl | rfl | hy | hy | rfl | rfl | hy
    · exact ⟨_, rfl, (readsAs_stringValue r.id).map _⟩
    · exact ⟨_, rfl, (readsAs_stringValue r.name).map _⟩
    · exact ⟨_, rfl, (readsAs_stringValue r.expr).map _⟩
    · exact reads_writtenValue hindent hy
    · exact reads_writtenInput hindent hy
    · exact ⟨_, rfl, (readsAs_texts hindent r.dependencies).map _⟩
    · exact ⟨_, rfl, (readsAs_texts hindent r.tags).map _⟩
    · exact reads_writtenError hy
  · unfold writtenValue writtenInput writtenError
    cases r.value.isAbsent <;> cases r.input? <;> cases r.error? <;> simp
  · simp [shape]

theorem accepted_value (hr : r.toJson.Accepted) (hvalue : r.value.isAbsent = false) :
    r.value.toJson.Accepted := by
  apply hr.member (p := ("value", r.value.toJson))
  simp [hvalue]

theorem accepted_input (hr : r.toJson.Accepted) {i : Input} (hi : r.input? = some i) :
    i.toJson.Accepted := by
  apply hr.member (p := ("input", i.toJson))
  simp [hi]

/-- A row is read back exactly where nothing in it is too deep. -/
theorem isSome_reread (hr : r.toJson.Accepted) :
    r.reread.isSome = true ↔ r.value.nesting ≤ nestingLimit - 3 ∧
      ∀ i, r.input? = some i → ∀ p ∈ i.props, p.2.nesting ≤ nestingLimit - 5 := by
  have hvalue : r.rereadValue.isSome = true ↔ r.value.nesting ≤ nestingLimit - 3 := by
    unfold rereadValue
    split
    · rename_i habsent
      have hv : r.value = .absent := by
        cases hv : r.value <;> simp [hv, Value.isAbsent] at habsent ⊢
      simp [hv, Value.nesting]
    · rename_i hpresent
      exact Value.isSome_reread (accepted_value hr (Bool.eq_false_iff.mpr hpresent))
  have hinput : r.rereadInput.isSome = true ↔
      ∀ i, r.input? = some i → ∀ p ∈ i.props, p.2.nesting ≤ nestingLimit - 5 := by
    unfold rereadInput
    cases hi : r.input? with
    | none => simp
    | some i =>
      have hread := Input.isSome_reread (accepted_input hr hi)
      simp [hread]
  rw [← hvalue, ← hinput, reread]
  cases r.rereadValue <;> cases r.rereadInput <;> simp

theorem id_of_reread {r' : Row} (h : r.reread = some r') : r'.id = r.id := by
  unfold reread at h
  obtain ⟨v, _, h⟩ := Option.bind_eq_some_iff.mp h
  obtain ⟨i, _, rfl⟩ := Option.map_eq_some_iff.mp h
  rfl

theorem inRange_texts (xs : List String) : (texts xs).InRange := by
  apply inRange_arr
  intro j hj
  obtain ⟨s, _, rfl⟩ := List.mem_map.mp hj
  exact inRange_str s

theorem inRange_toJson (r : Row) : r.toJson.InRange := by
  rw [toJson_eq_written]
  apply inRange_obj
  intro p hp
  obtain ⟨y, hy, rfl⟩ := List.mem_map.mp hp
  simp only [written, List.mem_cons, List.mem_append] at hy
  rcases hy with rfl | rfl | rfl | hy | hy | rfl | rfl | hy
  · exact inRange_str r.id
  · exact inRange_str r.name
  · exact inRange_str r.expr
  · unfold writtenValue at hy
    split at hy
    · cases hy
    · rw [List.mem_singleton.mp hy]
      exact r.value.inRange_toJson
  · unfold writtenInput at hy
    split at hy
    · cases hy
    · rename_i i _
      rw [List.mem_singleton.mp hy]
      exact i.inRange_toJson
  · exact inRange_texts r.dependencies
  · exact inRange_texts r.tags
  · unfold writtenError at hy
    split at hy
    · cases hy
    · rename_i e _
      rw [List.mem_singleton.mp hy]
      exact inRange_str e

end Row

/-! ### Records -/

namespace Record

variable {r : Record}

/-- What is read back of a record: its rows with their values read back. -/
def reread (r : Record) : Option Record := (r.rows.mapM Row.reread).map Record.mk

def written (r : Record) : List (Shape.Written Record) :=
  [⟨"rows", .arr (r.rows.map Row.toJson), (r.rows.mapM Row.reread).map fun rows _ => ⟨rows⟩⟩]

theorem toJson_eq_written (r : Record) :
    r.toJson = .obj (r.written.map fun y => (y.name, y.json)) := rfl

theorem putAll_written (r : Record) : Shape.putAll shape.start r.written = r.reread := by
  unfold written reread
  rw [Shape.putAll_cons]
  cases r.rows.mapM Row.reread <;> rfl

theorem accepted_row (hr : r.toJson.Accepted) {row : Row} (hrow : row ∈ r.rows) :
    row.toJson.Accepted := by
  have hrows : (Json.arr (r.rows.map Row.toJson)).Accepted :=
    hr.member (p := ("rows", .arr (r.rows.map Row.toJson))) List.mem_cons_self
  exact hrows.item (List.mem_map_of_mem hrow)

theorem readsAs_read (hindent : Blank indent.toList) (r : Record) :
    ReadsAs shape.read (indentedAt indent level r.toJson).toList r.reread := by
  have hrows :
      ReadsAs (listOf Row.shape.read)
        (indentedAt indent (level + 1) (.arr (r.rows.map Row.toJson))).toList
      (r.rows.mapM Row.reread) := by
    apply readsAs_listOf hindent
    · intro row _
      exact solid_indentedAt indent _ row.inRange_toJson
    · intro row _
      exact Row.readsAs_read hindent row
  rw [toJson_eq_written, ← putAll_written]
  apply Shape.readsAs_read hindent
  · intro y hy
    rw [List.mem_singleton.mp hy]
    exact ⟨_, rfl, hrows.map _⟩
  · simp
  · simp [shape]

/-- **A record is read back from its text**, where no value in it is too deep and no number is
refused. -/
theorem toOption_parse_pretty (r : Record) : (parse r.toJson.pretty).toOption = r.reread := by
  have htext : ReadsAs shape.read r.toJson.pretty.toList r.reread := readsAs_read blank_twoSpaces r
  exact htext.toOption_whole

theorem inRange_toJson (r : Record) : r.toJson.InRange := by
  apply inRange_obj
  intro p hp
  rw [List.mem_singleton.mp hp]
  apply inRange_arr
  intro j hj
  obtain ⟨row, _, rfl⟩ := List.mem_map.mp hj
  exact row.inRange_toJson

theorem ids_of_reread {r' : Record} (h : r.reread = some r') :
    r'.rows.map Row.id = r.rows.map Row.id := by
  obtain ⟨rows, hrows, rfl⟩ := Option.map_eq_some_iff.mp h
  obtain ⟨rs⟩ := r
  dsimp only at hrows ⊢
  clear h
  induction rs generalizing rows with
  | nil =>
    cases hrows
    rfl
  | cons row rs ih =>
    rw [List.mapM_cons] at hrows
    obtain ⟨row', hrow, hrows⟩ := Option.bind_eq_some_iff.mp hrows
    obtain ⟨rows', hrest, hrows⟩ := Option.bind_eq_some_iff.mp hrows
    cases hrows
    rw [List.map_cons, List.map_cons, Row.id_of_reread hrow, ih rows' hrest]

theorem isSome_reread (hr : r.toJson.Accepted) :
    r.reread.isSome = true ↔ ∀ row ∈ r.rows, row.value.nesting ≤ nestingLimit - 3 ∧
      ∀ i, row.input? = some i → ∀ p ∈ i.props, p.2.nesting ≤ nestingLimit - 5 := by
  rw [reread, Option.isSome_map, isSome_mapM]
  exact forall₂_congr fun row hrow => Row.isSome_reread (accepted_row hr hrow)

end Record

end FormulaSheet
