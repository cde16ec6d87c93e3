import FormulaSheet.Proofs.Record.Reading
import FormulaSheet.Proofs.Value.Normal

/-!
# Records and their JSON trees

A record is taken from a JSON tree by the shapes by which it is read from a text. Every record is
written as a tree from which a record with the same tree is taken, and one whose values are plain is
taken as it was (`Record.ofJson_toJson`).
-/

namespace FormulaSheet

namespace Json

variable {α σ : Type}

/-! ### Taking structures from trees -/

def text? : Json → Option String
  | str s => some s
  | _ => none

def list? (item : Json → Option α) : Json → Option (List α)
  | arr items => items.mapM item
  | _ => none

/-- An object with members of one kind. -/
def map? (item : Json → Option α) : Json → Option (Fields α)
  | obj members => members.mapM fun p => (item p.2).map (p.1, ·)
  | _ => none

/-- A value, or `null` for none. -/
def optional? (item : Json → Option α) : Json → Option (Option α)
  | null => some none
  | j => (item j).map some

/-- The structure in a tree. `take` says how a member changes the structure, if its value fits. In
an object unknown members are passed over, and all that are required have to be there; in a list the
members stand in their order, and those at the end that are not required may be missing. -/
def Shape.take? (shape : Shape σ) (take : String → Json → Option (σ → σ)) : Json → Option σ
  | obj members =>
    if shape.members.all fun m => !m.required || Fields.contains members m.name then
      members.foldlM (fun s p =>
        if shape.members.any fun m => m.name == p.1 then (take p.1 p.2).map (· s) else some s)
          shape.start
    else none
  | arr items =>
    if items.length ≤ shape.members.length &&
        (shape.members.drop items.length).all fun m => !m.required then
      (shape.members.zip items).foldlM (fun s p => (take p.1.name p.2).map (· s)) shape.start
    else none
  | _ => none

end Json

open Json

def Input.takeMember : String → Json → Option (Input → Input)
  | "type", j => j.text?.map fun kind i => { i with kind := kind }
  | "props", j => (j.map? fun j => some (Value.ofJson j)).map fun props i =>
    { i with props := props }
  | _, _ => none

/-- The input in a tree. -/
def Input.ofJson? : Json → Option Input := Input.shape.take? Input.takeMember

def Row.takeMember : String → Json → Option (Row → Row)
  | "id", j => j.text?.map fun id r => { r with id := id }
  | "name", j => j.text?.map fun name r => { r with name := name }
  | "expr", j => j.text?.map fun expr r => { r with expr := expr }
  | "value", j => some fun r => { r with value := Value.ofJson j }
  | "input", j => (j.optional? Input.ofJson?).map fun input? r => { r with input? := input? }
  | "dependencies", j => (j.list? text?).map fun ids r => { r with dependencies := ids }
  | "tags", j => (j.list? text?).map fun tags r => { r with tags := tags }
  | "error", j => (j.optional? text?).map fun error? r => { r with error? := error? }
  | _, _ => none

/-- The row in a tree. -/
def Row.ofJson? : Json → Option Row := Row.shape.take? Row.takeMember

def Record.takeMember : String → Json → Option (Record → Record)
  | "rows", j => (j.list? Row.ofJson?).map fun rows _ => ⟨rows⟩
  | _, _ => none

/-- The record in a tree. -/
def Record.ofJson? : Json → Option Record := Record.shape.take? Record.takeMember

/-! ### Normal forms -/

def Input.normal (i : Input) : Input := ⟨i.kind, i.props.map fun p => (p.1, p.2.normal)⟩

/-- A row with its values as they are read back; an absent value is not written, and is absent
again. -/
def Row.normal (r : Row) : Row :=
  { r with
    value := if r.value.isAbsent then .absent else r.value.normal
    input? := r.input?.map Input.normal }

def Record.normal (r : Record) : Record := ⟨r.rows.map Row.normal⟩

theorem Input.toJson_normal (i : Input) : i.normal.toJson = i.toJson := by
  simp only [Input.toJson, Input.normal, List.map_map, Function.comp_def, Value.toJson_normal]

theorem Row.value_normal_of_absent {r : Row} (h : r.value.isAbsent = true) :
    r.normal.value = .absent := if_pos h

theorem Row.value_normal {r : Row} (h : r.value.isAbsent = false) :
    r.normal.value = r.value.normal := by
  simp [normal, h]

theorem Row.isAbsent_normal (r : Row) : r.normal.value.isAbsent = r.value.isAbsent := by
  cases h : r.value.isAbsent with
  | true =>
    rw [value_normal_of_absent h]
    rfl
  | false => rw [value_normal h, r.value.isAbsent_normal]

theorem Row.toJson_normal (r : Row) : r.normal.toJson = r.toJson := by
  have hinput : (r.normal.input?.map fun i => ("input", i.toJson)) =
      r.input?.map fun i => ("input", i.toJson) := by
    simp only [normal, Option.map_map, Function.comp_def, Input.toJson_normal]
  unfold toJson
  rw [r.isAbsent_normal, hinput]
  cases h : r.value.isAbsent with
  | true => rfl
  | false =>
    rw [value_normal h, r.value.toJson_normal]
    rfl

theorem Record.toJson_normal (r : Record) : r.normal.toJson = r.toJson := by
  simp only [Record.toJson, Record.normal, List.map_map, Function.comp_def, Row.toJson_normal]

/-! ### Taking what was written -/

theorem mapM_map_some {α β γ : Type} {take : β → Option γ} (write : α → β) (normal : α → γ)
    (h : ∀ x, take (write x) = some (normal x)) (xs : List α) :
    (xs.map write).mapM take = some (xs.map normal) := by
  rw [List.mapM_map]
  exact mapM_eq_map fun x _ => h x

theorem Json.list_texts (xs : List String) : (texts xs).list? text? = some xs := by
  have h : (xs.map Json.str).mapM text? = some (xs.map id) :=
    mapM_map_some Json.str id (fun _ => rfl) xs
  rw [List.map_id] at h
  exact h

theorem Input.map_propsJson (i : Input) :
    i.propsJson.map? (fun j => some (Value.ofJson j)) = some i.normal.props :=
  mapM_map_some (fun p : String × Value => (p.1, p.2.toJson)) (fun p => (p.1, p.2.normal))
    (fun _ => rfl) i.props

/-- An input is taken from its tree in normal form. -/
theorem Input.take_toJson (i : Input) : Input.ofJson? i.toJson = some i.normal := by
  have hprops := i.map_propsJson
  unfold propsJson at hprops
  simp [Input.ofJson?, toJson, Shape.take?, shape, takeMember, text?, hprops, Fields.contains,
    Fields.get?_cons]
  rfl

theorem Input.optional_toJson (i : Input) :
    i.toJson.optional? Input.ofJson? = some (some i.normal) :=
  congrArg (Option.map some) i.take_toJson

theorem Json.optional_text (s : String) : (Json.str s).optional? text? = some (some s) := rfl

/-- A row is taken from its tree in normal form, whichever of its optional members are written. -/
theorem Row.take_toJson (r : Row) : Row.ofJson? r.toJson = some r.normal := by
  obtain ⟨id, name, expr, value, input?, dependencies, tags, error?⟩ := r
  cases hvalue : value.isAbsent <;> cases input? <;> cases error? <;>
    simp [ofJson?, toJson, hvalue, Shape.take?, shape, takeMember, text?, Json.list_texts,
      Input.optional_toJson, Json.optional_text, Fields.contains, Fields.get?_cons,
      normal, Value.normal]

/-- A record is taken from its tree in normal form. -/
theorem Record.take_toJson (r : Record) : Record.ofJson? r.toJson = some r.normal := by
  have hrows :
      (Json.arr (r.rows.map Row.toJson)).list? Row.ofJson? = some (r.rows.map Row.normal) :=
    mapM_map_some Row.toJson Row.normal Row.take_toJson r.rows
  simp [ofJson?, toJson, Shape.take?, shape, takeMember, hrows, normal, Fields.contains,
    Fields.get?_cons]

/-! ### Plain records -/

theorem Input.normal_of_plain {i : Input} (h : ∀ p ∈ i.props, p.2.Plain) : i.normal = i := by
  have hprops : i.props.map (fun p => (p.1, p.2.normal)) = i.props := by
    refine (List.map_congr_left fun p hp => ?_).trans (List.map_id i.props)
    rw [Value.normal_of_plain p.2 (h p hp)]
    rfl
  rw [normal, hprops]

/-- All values of a row are plain, except that the cell may have none. -/
structure Row.Plain (r : Row) : Prop where
  value : r.value = .absent ∨ r.value.Plain
  props : ∀ i, r.input? = some i → ∀ p ∈ i.props, p.2.Plain

theorem Row.normal_of_plain {r : Row} (h : r.Plain) : r.normal = r := by
  have hvalue : r.normal.value = r.value := by
    rcases h.value with habsent | hplain
    · rw [value_normal_of_absent (by rw [habsent]; rfl), habsent]
    · rw [value_normal hplain.isAbsent, Value.normal_of_plain r.value hplain]
  have hinput : r.normal.input? = r.input? := by
    cases hi : r.input? with
    | none => simp [normal, hi]
    | some i => simp [normal, hi, Input.normal_of_plain (h.props i hi)]
  calc
    r.normal = { r with value := r.normal.value, input? := r.normal.input? } := rfl
    _ = r := by rw [hvalue, hinput]

def Record.Plain (r : Record) : Prop := ∀ row ∈ r.rows, row.Plain

theorem Record.normal_of_plain {r : Record} (h : r.Plain) : r.normal = r := by
  have hrows : r.rows.map Row.normal = r.rows :=
    (List.map_congr_left fun row hrow => Row.normal_of_plain (h row hrow)).trans
      (List.map_id r.rows)
  rw [normal, hrows]

/-! ### Trees and texts -/

theorem mapM_self {α : Type} {f : α → Option α} {xs : List α} (h : xs.mapM f = some xs) :
    ∀ x ∈ xs, f x = some x := by
  induction xs with
  | nil => exact fun x hx => nomatch hx
  | cons x xs ih =>
    rw [List.mapM_cons] at h
    obtain ⟨y, hy, h⟩ := Option.bind_eq_some_iff.mp h
    obtain ⟨ys, hys, h⟩ := Option.bind_eq_some_iff.mp h
    cases h
    exact List.forall_mem_cons.mpr ⟨hy, ih hys⟩

namespace Json

variable {room : Nat} {items : List Json} {members : List (String × Json)}

theorem reread_items (h : reread (room + 1) (arr items) = some (arr items)) :
    ∀ j ∈ items, reread room j = some j := by
  rw [reread] at h
  obtain ⟨items', hitems, heq⟩ := Option.map_eq_some_iff.mp h
  cases heq
  exact mapM_self hitems

theorem keys_of_mapM {f : Json → Option Json} {members members' : List (String × Json)}
    (h : members.mapM (fun p => (f p.2).map (p.1, ·)) = some members') :
    Fields.keys members' = Fields.keys members := by
  induction members generalizing members' with
  | nil =>
    cases h
    rfl
  | cons p members ih =>
    rw [List.mapM_cons] at h
    obtain ⟨q, hq, h⟩ := Option.bind_eq_some_iff.mp h
    obtain ⟨rest, hrest, h⟩ := Option.bind_eq_some_iff.mp h
    obtain ⟨j, _, rfl⟩ := Option.map_eq_some_iff.mp hq
    cases h
    rw [Fields.keys_cons, Fields.keys_cons, ih hrest]

/-- In an object that is read back as it was no name comes twice. -/
theorem reread_members (h : reread (room + 1) (obj members) = some (obj members)) :
    (Fields.keys members).Nodup ∧ ∀ p ∈ members, reread room p.2 = some p.2 := by
  rw [reread] at h
  obtain ⟨members', hmembers, heq⟩ := Option.map_eq_some_iff.mp h
  have hfields : Fields.ofList members' = members := by
    cases heq
    rfl
  have hnodup : (Fields.keys members).Nodup := hfields ▸ Fields.nodup_keys_ofList members'
  have hsame : members' = members := by
    rw [← hfields]
    exact (Fields.ofList_of_nodup (keys_of_mapM hmembers ▸ hnodup)).symm
  refine ⟨hnodup, ?_⟩
  intro p hp
  rw [hsame] at hmembers
  have hp := mapM_self hmembers p hp
  obtain ⟨j, hj, heq⟩ := Option.map_eq_some_iff.mp hp
  rw [hj, ← heq]

/-- The text of the tree is read as the tree. -/
def ReadsBack (j : Json) : Prop := parse j.pretty = .ok j

theorem readsBack_iff {j : Json} (hj : j.InRange) :
    j.ReadsBack ↔ reread nestingLimit j = some j := by
  rw [ReadsBack, ← toOption_parse_pretty hj]
  cases parse j.pretty <;> simp [Except.toOption]

end Json

theorem Value.reread_eq_normal {v : Value} {outer : Nat}
    (h : Json.reread (nestingLimit - outer) v.toJson = some v.toJson) :
    v.reread outer = some v.normal := by
  rw [reread, h]
  rfl

theorem Input.reread_eq_normal {i : Input}
    (h : Json.reread (nestingLimit - 3) i.toJson = some i.toJson) : i.reread = some i.normal := by
  have hprops : Json.reread (nestingLimit - 4) i.propsJson = some i.propsJson :=
    (reread_members h).2 ("props", i.propsJson) (List.mem_cons_of_mem _ List.mem_cons_self)
  obtain ⟨hnodup, hmembers⟩ := reread_members hprops
  have hall : i.props.mapM (fun p => (p.2.reread 5).map (p.1, ·)) =
      some (i.props.map fun p => (p.1, p.2.normal)) := by
    apply mapM_eq_map
    intro p hp
    rw [Value.reread_eq_normal (hmembers (p.1, p.2.toJson) (List.mem_map.mpr ⟨p, hp, rfl⟩))]
    rfl
  have hkeys : (Fields.keys (i.props.map fun p => (p.1, p.2.normal))).Nodup := by
    rw [Fields.keys_map i.props Value.normal]
    rwa [Fields.keys_map i.props Value.toJson] at hnodup
  rw [reread, rereadProps, hall, Option.map_some, Fields.ofList_of_nodup hkeys]
  rfl

theorem Row.reread_eq_normal {r : Row}
    (h : Json.reread (nestingLimit - 2) r.toJson = some r.toJson) : r.reread = some r.normal := by
  have hmembers := (reread_members h).2
  have hvalue : r.rereadValue = some r.normal.value := by
    unfold rereadValue
    cases habsent : r.value.isAbsent with
    | true => rw [if_pos rfl, value_normal_of_absent habsent]
    | false =>
      rw [if_neg Bool.false_ne_true, value_normal habsent]
      apply Value.reread_eq_normal
      exact hmembers ("value", r.value.toJson) (by simp [habsent])
  have hinput : r.rereadInput = some r.normal.input? := by
    unfold rereadInput normal
    cases hi : r.input? with
    | none => rfl
    | some i =>
      dsimp only
      rw [Input.reread_eq_normal (hmembers ("input", i.toJson) (by simp [hi]))]
      rfl
  rw [reread, hvalue, hinput]
  rfl

/-- **A record whose tree is read back from its text** is read from the text as it is taken from the
tree. -/
theorem Record.parse_pretty {r : Record} (h : r.toJson.ReadsBack) :
    parse r.toJson.pretty = .ok r.normal := by
  have hrecord : r.reread = some r.normal := by
    have htree := (readsBack_iff r.inRange_toJson).mp h
    have hrows :=
      reread_items
        ((reread_members htree).2 ("rows", .arr (r.rows.map Row.toJson)) List.mem_cons_self)
    have hall : r.rows.mapM Row.reread = some (r.rows.map Row.normal) := by
      apply mapM_eq_map
      intro row hrow
      exact Row.reread_eq_normal (hrows row.toJson (List.mem_map_of_mem hrow))
    rw [reread, hall]
    rfl
  have hparse := r.toOption_parse_pretty
  rw [hrecord] at hparse
  cases hread : parse r.toJson.pretty with
  | error e =>
    rw [hread] at hparse
    cases hparse
  | ok r' =>
    rw [hread] at hparse
    rw [← Option.some.inj hparse]

/-! ### The codec -/

/-- **Records are carried by their JSON trees.** From the tree of a record a record with the same
tree is taken, and it is the record itself where all values are plain. The text of the record, where
it is read back as the tree that was written, is read as the record that is taken from the tree. -/
theorem Record.ofJson_toJson (r : Record) :
    (∃ r', ofJson? r.toJson = some r' ∧ r'.toJson = r.toJson ∧
      (r.toJson.ReadsBack → parse r.toJson.pretty = .ok r')) ∧
    (r.Plain → ofJson? r.toJson = some r) := by
  refine ⟨⟨r.normal, r.take_toJson, r.toJson_normal, parse_pretty⟩, ?_⟩
  intro hplain
  rw [r.take_toJson, normal_of_plain hplain]

/-- A cell without a value, a cell that holds `null` in an object, and an input with a property in
two lists. -/
def sampleRecord : Record :=
  ⟨[⟨"a", "x", "1 +", .absent, none, [], ["t"], some "Unexpected end of input"⟩,
    ⟨"b", "y", "", .object [("k", .null), ("j", .number 2.5)],
      some ⟨"select", [("options", .array [.array [.text "u", .number (-3)]])]⟩, ["a"], [], none⟩]⟩

theorem reread_sample :
    Json.reread nestingLimit sampleRecord.toJson = some sampleRecord.toJson := by rfl

/-- The sample is plain, and it is taken from its tree and read from its text as it was. -/
theorem Record.ofJson_toJson_sample :
    sampleRecord.Plain ∧ sampleRecord.toJson.ReadsBack ∧
      ofJson? sampleRecord.toJson = some sampleRecord ∧
      parse sampleRecord.toJson.pretty = .ok sampleRecord := by
  have hplain : sampleRecord.Plain := by
    have hfraction : (Value.number 2.5).Plain := ⟨by decide +kernel, by decide +kernel⟩
    have hwhole : (Value.number (-3)).Plain := ⟨by decide +kernel, by decide +kernel⟩
    have hobject : (Value.object [("k", .null), ("j", .number 2.5)]).Plain :=
      ⟨trivial, hfraction, trivial⟩
    have hlists : (Value.array [.array [.text "u", .number (-3)]]).Plain :=
      ⟨⟨trivial, hwhole, trivial⟩, trivial⟩
    intro row hrow
    rcases List.mem_cons.mp hrow with rfl | hrow
    · exact ⟨Or.inl rfl, by nofun⟩
    · rw [List.mem_singleton.mp hrow]
      refine ⟨Or.inr hobject, ?_⟩
      intro i hi p hp
      cases hi
      rw [List.mem_singleton.mp hp]
      exact hlists
  have hreads := (readsBack_iff sampleRecord.inRange_toJson).mpr reread_sample
  obtain ⟨⟨r', htaken, -, hread⟩, htake⟩ := ofJson_toJson sampleRecord
  have hsame : r' = sampleRecord := Option.some.inj (htaken.symm.trans (htake hplain))
  rw [hsame] at hread
  exact ⟨hplain, hreads, htake hplain, hread hreads⟩

end FormulaSheet
