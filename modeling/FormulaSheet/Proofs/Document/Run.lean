import FormulaSheet.Builtin.All
import FormulaSheet.Document.Record
import FormulaSheet.Proofs.Document.Rename

/-!
# Runs of a document

A document is created, or read from a record, and then lives through operations in any order, while
time goes on around it: what the builtin functions know of the world may be something else for each
operation. An operation that fails leaves the document as it was. Every operation is an edit of the
document (`edit`), followed by a pass in the cases that `MakesPass` lists (`Valid.step_eq`). All
documents on the way are valid (`Reachable.valid`).
-/

namespace FormulaSheet.Document

/-- An operation with its arguments. -/
inductive Operation where
  | addCell (fresh : CellId) (o : CellOptions)
  | removeCell (id : CellId)
  | renameCell (id : CellId) (name : String)
  | updateExpression (id : CellId) (source : String)
  | transformExpression (id : CellId) (f : String → String)
  | setInput (id : CellId) (i : Input)
  | clearInput (id : CellId)
  | setValue (id : CellId) (v : Value)
  | setInputValue (id : CellId) (v : Value)
  | setTags (id : CellId) (tags : List String)
  | addTag (id : CellId) (tag : String)
  | removeTag (id : CellId) (tag : String)
  | setContext (name : String) (v : Value)
  | recomputeAll
  | onChange
  | removeListener (l : ListenerId)
  | subscribe (id : CellId)
  | unsubscribe (id : CellId) (l : ListenerId)

namespace Operation

/-- The document after the operation, or why it fails. -/
def apply (d : Document) : Operation → Except SheetError Document
  | addCell fresh o => (·.2.document) <$> d.addCell fresh o
  | removeCell id => Progress.document <$> d.removeCell id
  | renameCell id name => Progress.document <$> d.renameCell id name
  | updateExpression id source => Progress.document <$> d.updateExpression id source
  | transformExpression id f => Progress.document <$> d.transformExpression id f
  | setInput id i => Progress.document <$> d.setInput id i
  | clearInput id => Progress.document <$> d.clearInput id
  | setValue id v => Progress.document <$> d.setValue id v
  | setInputValue id v => Progress.document <$> d.setInputValue id v
  | setTags id tags => Progress.document <$> d.setTags id tags
  | addTag id tag => (·.2.document) <$> d.addTag id tag
  | removeTag id tag => (·.2.document) <$> d.removeTag id tag
  | setContext name v => .ok (d.setContext name v).document
  | recomputeAll => .ok d.recomputeAll.2.document
  | onChange => .ok d.onChange.2
  | removeListener l => .ok (d.removeListener l).2
  | subscribe id => Prod.snd <$> d.subscribe id
  | unsubscribe id l => Prod.snd <$> d.unsubscribe id l

/-- The cell that the operation changes and the change, where there is nothing else to it. -/
def change? (eng : Engine) : Operation → Option (CellId × (Cell → Change))
  | updateExpression id source => some (id, Cell.updateExpression eng source)
  | transformExpression id f => some (id, Cell.transformExpression eng f)
  | setInput id i => some (id, Cell.setInput i)
  | clearInput id => some (id, Cell.clearInput)
  | setValue id v => some (id, Cell.setValue v)
  | setInputValue id v => some (id, fun c =>
      if c.input?.any fun i => (i.fault? v).isNone then c.setValue v else c.unchanged)
  | setTags id tags => some (id, Cell.setTags tags)
  | addTag id tag => some (id, Cell.addTag tag)
  | removeTag id tag => some (id, Cell.removeTag tag)
  | _ => none

end Operation

/-- The document after an operation. -/
def step (d : Document) (op : Operation) : Document :=
  match op.apply d with
  | .ok d' => d'
  | .error _ => d

/-- The document after operations one after the other. -/
def run (d : Document) (ops : List Operation) : Document := ops.foldl step d

/-- A document without cells, or one that was read from a record. -/
inductive Initial : Document → Prop
  | create (eng : Engine) (context : Fields Value) : Initial (create eng context)
  | ofRecord {eng : Engine} {context : Fields Value} {r : Record} {d : Document}
      (h : Document.ofRecord eng context r = .ok d) : Initial d

/-- The document with other functions. -/
def withRegistry (d : Document) (r : Registry) : Document :=
  { d with engine := { d.engine with registry := r } }

/-- A document that operations lead to. Where its functions are the builtin ones, their surroundings
may change between two operations. -/
inductive Reachable : Document → Prop
  | initial {d : Document} (h : Initial d) : Reachable d
  | step {d : Document} (h : Reachable d) (op : Operation) : Reachable (d.step op)
  | surround {d : Document} {ambient : Builtin.Ambient} (h : Reachable d)
      (hbuiltin : d.engine.registry = .builtins ambient) (ambient' : Builtin.Ambient) :
      Reachable (d.withRegistry (.builtins ambient'))

/-! ### Edits and passes -/

/-- The document without a cell. -/
def eraseCell (d : Document) (id : CellId) : Document :=
  { d with
    cells := Fields.erase d.cells id
    graph := d.graph.removeNode id
    subscriptions := Fields.erase d.subscriptions id }

open Classical in
/-- What an operation does apart from a pass. -/
noncomputable def edit (d : Document) (op : Operation) : Document :=
  match op with
  | .addCell fresh o =>
    if Fields.contains d.cells (o.id?.getD fresh) then d else d.insertNew (o.id?.getD fresh) o
  | .removeCell id => if (d.cell? id).isSome then d.eraseCell id else d
  | .renameCell id name =>
    match d.cell? id with
    | some c => if d.Renamable id name then d.renameCells id c.name name else d
    | none => d
  | .setContext name v => { d with context := Fields.insert d.context name v }
  | .onChange => { d with listeners := d.listeners.add }
  | .removeListener l => { d with listeners := d.listeners.remove l }
  | .subscribe id =>
    match d.cell? id with
    | some c => d.putCell c.subscribe
    | none => d
  | .unsubscribe id l =>
    match d.cell? id with
    | some c => if Fields.get? d.subscriptions id = some l then d else d.putCell (c.unsubscribe l)
    | none => d
  | op =>
    match op.change? d.engine with
    | some (id, f) =>
      match d.cell? id with
      | some c => d.putCell (f c).cell
      | none => d
    | none => d

/-- The operation makes a pass: a cell comes or goes, a cell is renamed that some expression
refers to, a change of a cell emits an event that asks for one, the context is written, or a
pass is what is asked for. -/
def MakesPass (d : Document) (op : Operation) : Prop :=
  match op with
  | .addCell fresh o => Fields.contains d.cells (o.id?.getD fresh) = false
  | .removeCell id => (d.cell? id).isSome = true
  | .renameCell id name => d.Renamable id name ∧ ∃ b, d.Reads id b
  | .setContext _ _ | .recomputeAll => True
  | .onChange | .removeListener _ | .subscribe _ | .unsubscribe _ _ => False
  | op => ∃ id f c, op.change? d.engine = some (id, f) ∧ d.cell? id = some c ∧
      (f c).event?.any CellEvent.requiresRecompute = true

variable {d d' : Document} {id : CellId} {c : Cell} {op : Operation} {f : Cell → Change}

theorem Operation.of_change? {eng : Engine} (h : op.change? eng = some (id, f)) (c : Cell) :
    (f c).Of c := by
  cases op <;> simp only [Operation.change?, reduceCtorEq, Option.some.injEq, Prod.mk.injEq] at h
  all_goals obtain ⟨rfl, rfl⟩ := h
  case updateExpression source => exact Cell.of_updateExpression eng source c
  case transformExpression g => exact Cell.of_updateExpression eng (g c.expression) c
  case setInput i => exact Cell.of_setInput i c
  case clearInput => exact Cell.of_clearInput c
  case setValue v => exact Cell.of_setValue v c
  case setInputValue v =>
    dsimp only
    split
    · exact Cell.of_setValue v c
    · exact Cell.of_unchanged c
  case setTags tags => exact Cell.of_setTags tags c
  case addTag tag => exact Cell.of_addTag tag c
  case removeTag tag => exact Cell.of_removeTag tag c

/-- What an operation can make of the cell that it changes. -/
inductive Operation.Makes (eng : Engine) (c : Cell) : Operation → Cell → Prop where
  | kept (op : Operation) : Makes eng c op c
  | compiled (op : Operation) (hinput : c.input? = none) (source : String) :
      Makes eng c op (c.compile eng source)
  | emptied (op : Operation) (i? : Option Input) (v : Value) :
      Makes eng c op { c.clearExpression with input? := i?, value := v }
  | assigned (id : CellId) (v : Value) : Makes eng c (.setValue id v) { c with value := v }
  | entered (op : Operation) (hinput : c.input? ≠ none) (v : Value) :
      Makes eng c op { c with value := v }
  | tagged (op : Operation) (tags : List String) : Makes eng c op { c with tags := tags }

theorem Operation.makes_of_change? {eng : Engine} (h : op.change? eng = some (id, f)) (c : Cell) :
    op.Makes eng c (f c).cell := by
  have hupdate : ∀ op source, Makes eng c op (c.updateExpression eng source).cell := by
    intro op source
    unfold Cell.updateExpression
    split
    · exact .kept op
    · rename_i hinput
      exact .compiled op (by simpa using hinput) source
  cases op <;> simp only [Operation.change?, reduceCtorEq, Option.some.injEq, Prod.mk.injEq] at h
  all_goals obtain ⟨rfl, rfl⟩ := h
  case updateExpression source => exact hupdate _ source
  case transformExpression g => exact hupdate _ (g c.expression)
  case setInput i => exact .emptied _ (some i) i.startValue
  case clearInput =>
    unfold Cell.clearInput
    split
    · exact .emptied _ none .absent
    · exact .kept _
  case setValue v => exact .assigned _ v
  case setInputValue v =>
    dsimp only
    split
    · rename_i hfits
      refine .entered _ (fun hinput => ?_) v
      rw [hinput] at hfits
      cases hfits
    · exact .kept _
  case setTags tags => exact .tagged _ (tags.foldl addNew [])
  case addTag tag =>
    unfold Cell.addTag
    split
    · exact .kept _
    · exact .tagged _ (c.tags ++ [tag])
  case removeTag tag =>
    unfold Cell.removeTag
    split
    · exact .tagged _ (c.tags.filter (· != tag))
    · exact .kept _

/-- Only a rename gives a cell another name. -/
theorem Operation.Makes.name_eq {eng : Engine} {c' : Cell} (h : op.Makes eng c c') :
    c'.name = c.name := by
  cases h with
  | compiled op hinput source => exact Cell.compile_name eng c source
  | _ => rfl

theorem Operation.Makes.faithful {eng : Engine} {c' : Cell} (h : op.Makes eng c c')
    (hc : c.Faithful eng) : c'.Faithful eng := by
  cases h with
  | kept => exact hc
  | compiled op hinput source => exact Cell.faithful_compile hinput source
  | emptied => exact Cell.faithful_of_clear rfl rfl rfl rfl
  | assigned | entered | tagged => exact hc.congr rfl rfl rfl rfl rfl

/-! ### Steps -/

theorem Valid.document_flush_unchanged (hd : d.Valid) (hc : d.cell? id = some c) :
    (d.begin.take c.unchanged).flush.document = d := by
  rw [hd.document_flush_take hc (Cell.of_unchanged c)]
  exact hd.keyed.putCell_self hc

theorem step_of_ok (d' : Document) (h : op.apply d = .ok d') : d.step op = d' := by rw [step, h]

theorem step_of_error (e : SheetError) (h : op.apply d = .error e) : d.step op = d := by
  rw [step, h]

theorem find_of_cell? (hc : d.cell? id = some c) : d.find id = .ok c := by rw [find, hc]

theorem find_of_none (hc : d.cell? id = none) : d.find id = .error (.cellNotFound id) := by
  rw [find, hc]

theorem changeCell_of_cell? (hc : d.cell? id = some c) (f : Cell → Change) :
    d.changeCell id f = .ok (d.begin.take (f c)).flush := by
  rw [changeCell, find_of_cell? hc]
  rfl

theorem changeCell_of_none (hc : d.cell? id = none) (f : Cell → Change) :
    d.changeCell id f = .error (.cellNotFound id) := by
  rw [changeCell, find_of_none hc]
  rfl

theorem step_of_changeCell (h : op.apply d = Progress.document <$> d.changeCell id f) :
    d.step op = (d.cell? id).elim d fun c => (d.begin.take (f c)).flush.document := by
  cases hc : d.cell? id with
  | none =>
    rw [changeCell_of_none hc] at h
    exact step_of_error _ h
  | some c =>
    rw [changeCell_of_cell? hc] at h
    exact step_of_ok _ h

theorem Valid.step_of_change? (hd : d.Valid) (h : op.change? d.engine = some (id, f)) :
    d.step op = (d.cell? id).elim d fun c => (d.begin.take (f c)).flush.document := by
  cases op <;> simp only [Operation.change?, reduceCtorEq, Option.some.injEq, Prod.mk.injEq] at h
  all_goals obtain ⟨rfl, rfl⟩ := h
  case setInputValue id v =>
    cases hc : d.cell? id with
    | none =>
      exact step_of_error _ (by simp only [Operation.apply, setInputValue, find_of_none hc]; rfl)
    | some c =>
      simp only [step, Operation.apply, setInputValue, find_of_cell? hc, changeCell_of_cell? hc,
        bind, Except.bind, Option.elim_some]
      cases hinput : c.input? with
      | none =>
        rw [Option.any_none]
        exact (hd.document_flush_unchanged hc).symm
      | some i =>
        rw [Option.any_some]
        dsimp only
        cases hfault : i.fault? v with
        | none => rfl
        | some fault => exact (hd.document_flush_unchanged hc).symm
  case addTag id tag =>
    refine step_of_changeCell ?_
    rw [Operation.apply, addTag, changeCell]
    cases d.find id <;> rfl
  case removeTag id tag =>
    refine step_of_changeCell ?_
    rw [Operation.apply, removeTag, changeCell]
    cases d.find id <;> rfl
  all_goals exact step_of_changeCell rfl

/-- Where the edit of a change leaves the document, and whether a pass follows. -/
theorem edit_of_change? (h : op.change? d.engine = some (id, f)) :
    (d.edit op = match d.cell? id with | some c => d.putCell (f c).cell | none => d) ∧
      (MakesPass d op ↔ ∃ c, d.cell? id = some c ∧
        (f c).event?.any CellEvent.requiresRecompute = true) := by
  have hpass : (∃ id' f' c, op.change? d.engine = some (id', f') ∧ d.cell? id' = some c ∧
      (f' c).event?.any CellEvent.requiresRecompute = true) ↔
      ∃ c, d.cell? id = some c ∧ (f c).event?.any CellEvent.requiresRecompute = true := by
    constructor
    · rintro ⟨id', f', c, h', hc, hevent⟩
      obtain ⟨rfl, rfl⟩ := Prod.mk.inj (Option.some.inj (h.symm.trans h'))
      exact ⟨c, hc, hevent⟩
    · rintro ⟨c, hc, hevent⟩
      exact ⟨id, f, c, h, hc, hevent⟩
  have hedit : (match op.change? d.engine with
      | some (id, f) =>
        match d.cell? id with
        | some c => d.putCell (f c).cell
        | none => d
      | none => d) = match d.cell? id with | some c => d.putCell (f c).cell | none => d := by
    rw [h]
  cases op <;> first
    | exact ⟨hedit, hpass⟩
    | cases h

/-- What an edit can make of a document. -/
inductive Edits (d : Document) : Operation → Document → Prop where
  | kept (op : Operation) : Edits d op d
  | inserted (fresh : CellId) (o : CellOptions)
      (hnew : Fields.contains d.cells (o.id?.getD fresh) = false) :
      Edits d (.addCell fresh o) (d.insertNew (o.id?.getD fresh) o)
  | erased (id : CellId) (hid : (d.cell? id).isSome = true) :
      Edits d (.removeCell id) (d.eraseCell id)
  | renamed {id : CellId} {c : Cell} (name : String) (hc : d.cell? id = some c)
      (hrenamable : d.Renamable id name) :
      Edits d (.renameCell id name) (d.renameCells id c.name name)
  | changed {id : CellId} {c : Cell} (op : Operation) (f : Cell → Change)
      (hchange : op.change? d.engine = some (id, f)) (hc : d.cell? id = some c) :
      Edits d op (d.putCell (f c).cell)
  | context (name : String) (v : Value) :
      Edits d (.setContext name v) { d with context := Fields.insert d.context name v }
  | listeners (op : Operation) (ls : Listeners) : Edits d op { d with listeners := ls }
  | heard {id : CellId} {c : Cell} (op : Operation) (ls : Listeners) (hc : d.cell? id = some c)
      (hown : ∀ l, Fields.get? d.subscriptions id = some l → l ∈ c.listeners.ids → l ∈ ls.ids) :
      Edits d op (d.putCell { c with listeners := ls })

theorem edits (d : Document) (op : Operation) : d.Edits op (d.edit op) := by
  cases hchange : op.change? d.engine with
  | some change =>
    obtain ⟨id, f⟩ := change
    rw [(edit_of_change? hchange).1]
    cases hc : d.cell? id with
    | none => exact .kept op
    | some c => exact .changed op f hchange hc
  | none =>
    cases op <;> simp only [Operation.change?, reduceCtorEq] at hchange
    case addCell fresh o =>
      rw [edit]
      split
      · exact .kept _
      · rename_i hnew
        exact .inserted fresh o (Bool.eq_false_iff.mpr hnew)
    case removeCell id =>
      rw [edit]
      split
      · rename_i hid
        exact .erased id hid
      · exact .kept _
    case renameCell id name =>
      rw [edit]
      cases hc : d.cell? id with
      | none => exact .kept _
      | some c =>
        dsimp only
        split
        · rename_i hrenamable
          exact .renamed name hc hrenamable
        · exact .kept _
    case setContext name v => exact .context name v
    case recomputeAll => exact .kept _
    case onChange => exact .listeners _ _
    case removeListener l => exact .listeners _ _
    case subscribe id =>
      rw [edit]
      cases hc : d.cell? id with
      | none => exact .kept _
      | some c => exact .heard _ _ hc fun l _ hl => List.mem_append_left _ hl
    case unsubscribe id l =>
      rw [edit]
      cases hc : d.cell? id with
      | none => exact .kept _
      | some c =>
        dsimp only
        split
        · exact .kept _
        · rename_i hown
          refine .heard _ _ hc fun l' hl' hmem => List.mem_filter.mpr ⟨hmem, ?_⟩
          have hne : l' ≠ l := fun he => hown (he ▸ hl')
          simpa using hne

theorem Valid.removeCell_eq (hd : d.Valid) (hc : d.cell? id = some c) :
    Progress.document <$> d.removeCell id = .ok (d.eraseCell id).recompute := by
  have hid : c.id = id := hd.keyed.id_of_cell? hc
  have hown := hd.listens.any_ownEvents hc (show c.remove.cell.id = id from hid)
    (fun _ _ => rfl) CellEvent.requiresRecompute
  have herase : Fields.erase (d.putCell c.remove.cell).cells id = Fields.erase d.cells id := by
    rw [← hid]
    exact Fields.erase_insert d.cells c.id c.remove.cell
  simp only [removeCell, find_of_cell? hc, bind, Except.bind, pure, Except.pure,
    Functor.map, Except.map, document_flush, document_take, begin, hd.inbox, List.nil_append, hown,
    herase]
  have hremoved : c.remove.event?.any CellEvent.requiresRecompute = true := rfl
  rw [if_pos hremoved, eraseCell, hd.inbox]
  rfl

/-- The operation is its edit, followed by a pass where it makes one. -/
def IsEdit (d : Document) (op : Operation) : Prop :=
  (MakesPass d op → d.step op = (d.edit op).recompute) ∧ (¬ MakesPass d op → d.step op = d.edit op)

theorem Valid.isEdit_of_change? (hd : d.Valid) (h : op.change? d.engine = some (id, f)) :
    d.IsEdit op := by
  obtain ⟨hedit, hpass⟩ := edit_of_change? h
  have hstep := hd.step_of_change? h
  rw [IsEdit, hpass, hedit]
  cases hc : d.cell? id with
  | none =>
    rw [hc] at hstep
    refine ⟨?_, fun _ => hstep⟩
    rintro ⟨c, hc', -⟩
    cases hc'
  | some c =>
    rw [hc, Option.elim_some, hd.document_flush_take hc (Operation.of_change? h c)] at hstep
    constructor
    · rintro ⟨c', hc', hevent⟩
      rw [Option.some.injEq] at hc'
      subst hc'
      rw [hstep, if_pos hevent]
    · intro hevent
      rw [hstep, if_neg fun h => hevent ⟨c, rfl, h⟩]

theorem isEdit_addCell (fresh : CellId) (o : CellOptions) : d.IsEdit (.addCell fresh o) := by
  cases hcontains : Fields.contains d.cells (o.id?.getD fresh) with
  | true =>
    have hstep : d.step (.addCell fresh o) = d := step_of_error (.duplicateId _) (by
      simp only [Operation.apply, addCell, insertCell, hcontains]
      rfl)
    simp [IsEdit, MakesPass, edit, hcontains, hstep]
  | false =>
    have hstep : d.step (.addCell fresh o) = (d.insertNew (o.id?.getD fresh) o).recompute :=
      step_of_ok _ (by simp only [Operation.apply, addCell, insertCell, hcontains]; rfl)
    simp [IsEdit, MakesPass, edit, hcontains, hstep]

theorem Valid.isEdit_removeCell (hd : d.Valid) (id : CellId) : d.IsEdit (.removeCell id) := by
  cases hc : d.cell? id with
  | none =>
    have hstep : d.step (.removeCell id) = d := step_of_error (.cellNotFound id) (by
      simp only [Operation.apply, removeCell, find_of_none hc]
      rfl)
    simp [IsEdit, MakesPass, edit, hc, hstep]
  | some c =>
    have hstep : d.step (.removeCell id) = (d.eraseCell id).recompute :=
      step_of_ok _ (by rw [Operation.apply, hd.removeCell_eq hc])
    simp [IsEdit, MakesPass, edit, hc, hstep]

theorem Valid.isEdit_renameCell (hd : d.Valid) (id : CellId) (name : String) :
    d.IsEdit (.renameCell id name) := by
  cases hc : d.cell? id with
  | none =>
    have hstep : d.step (.renameCell id name) = d := step_of_error (.cellNotFound id) (by
      simp only [Operation.apply, renameCell, find_of_none hc]
      rfl)
    have hno : ¬ d.Renamable id name := by
      rintro ⟨c, hc', -⟩
      rw [hc] at hc'
      cases hc'
    simp [IsEdit, MakesPass, edit, hc, hstep, hno]
  | some c =>
    by_cases hren : d.Renamable id name
    · obtain ⟨p, hp, hpass, hquiet⟩ := hd.renameCell_spec hc hren
      have hstep : d.step (.renameCell id name) = p.document :=
        step_of_ok _ (by rw [Operation.apply, hp]; rfl)
      simp only [IsEdit, MakesPass, edit, hc, hren, hstep, true_and, if_true]
      exact ⟨hpass, fun h => hquiet (not_exists.mp h)⟩
    · have hstep : d.step (.renameCell id name) = d := by
        cases hp : d.renameCell id name with
        | error e => exact step_of_error _ (by rw [Operation.apply, hp]; rfl)
        | ok p =>
          have hdocument := renameCell_of_not_renamable hd.keyed hren hp
          exact step_of_ok _ (by rw [Operation.apply, hp, ← hdocument]; rfl)
      simp [IsEdit, MakesPass, edit, hc, hstep, hren]

theorem isEdit_subscribe (id : CellId) : d.IsEdit (.subscribe id) := by
  refine ⟨fun h => h.elim, fun _ => ?_⟩
  cases hc : d.cell? id with
  | none =>
    rw [step_of_error (.cellNotFound id) (by
      simp only [Operation.apply, subscribe, find_of_none hc]
      rfl)]
    simp [edit, hc]
  | some c =>
    rw [step_of_ok (d.putCell c.subscribe) (by
      simp only [Operation.apply, subscribe, find_of_cell? hc]
      rfl)]
    simp [edit, hc]

theorem isEdit_unsubscribe (id : CellId) (l : ListenerId) : d.IsEdit (.unsubscribe id l) := by
  refine ⟨fun h => h.elim, fun _ => ?_⟩
  by_cases hown : Fields.get? d.subscriptions id = some l
  · rw [step_of_ok d (by simp only [Operation.apply, unsubscribe, hown]; rfl)]
    cases hc : d.cell? id <;> simp [edit, hc, hown]
  · cases hc : d.cell? id with
    | none =>
      rw [step_of_error (.cellNotFound id) (by
        simp only [Operation.apply, unsubscribe, hown, find_of_none hc]
        rfl)]
      simp [edit, hc]
    | some c =>
      rw [step_of_ok (d.putCell (c.unsubscribe l)) (by
        simp only [Operation.apply, unsubscribe, hown, find_of_cell? hc]
        rfl)]
      simp [edit, hc, hown]

/-- **An operation is an edit, followed by a pass in the cases that are listed.** -/
theorem Valid.step_eq (hd : d.Valid) (op : Operation) : d.IsEdit op := by
  cases hchange : op.change? d.engine with
  | some change => exact hd.isEdit_of_change? hchange
  | none =>
    cases op <;> simp only [Operation.change?, reduceCtorEq] at hchange
    case addCell fresh o => exact isEdit_addCell fresh o
    case removeCell id => exact hd.isEdit_removeCell id
    case renameCell id name => exact hd.isEdit_renameCell id name
    case setContext name v => exact ⟨fun _ => rfl, fun h => absurd trivial h⟩
    case recomputeAll =>
      refine ⟨fun _ => ?_, fun h => absurd trivial h⟩
      rfl
    case onChange => exact ⟨fun h => h.elim, fun _ => rfl⟩
    case removeListener l => exact ⟨fun h => h.elim, fun _ => rfl⟩
    case subscribe id => exact isEdit_subscribe id
    case unsubscribe id l => exact isEdit_unsubscribe id l

/-! ### Validity along runs -/

theorem valid_create (eng : Engine) (context : Fields Value) : (create eng context).Valid := by
  refine ⟨⟨List.nodup_nil, ?_⟩, ?_, ?_, rfl⟩ <;> intro p hp <;> cases hp

theorem Valid.congr (hd : d.Valid) (hcells : d'.cells = d.cells) (hengine : d'.engine = d.engine)
    (hsubscriptions : d'.subscriptions = d.subscriptions) (hinbox : d'.inbox = d.inbox) :
    d'.Valid := by
  refine ⟨⟨?_, ?_⟩, ?_, ?_, ?_⟩
  · rw [hcells]
    exact hd.keyed.nodup
  · rw [hcells]
    exact hd.keyed.id_eq
  · rw [hcells, hengine]
    exact hd.faithful
  · unfold Listens
    rw [hcells, hsubscriptions]
    exact hd.listens
  · rw [hinbox]
    exact hd.inbox

theorem Valid.insertNew (hd : d.Valid) (hnew : Fields.contains d.cells id = false)
    (o : CellOptions) : (d.insertNew id o).Valid := by
  have hkey : id ∉ Fields.keys d.cells := by
    rw [← Fields.contains_iff_mem_keys, hnew]
    exact Bool.false_ne_true
  have hcells : ∀ p ∈ (d.insertNew id o).cells,
      p = (id, (Cell.create d.engine id o).subscribe) ∨ p ∈ d.cells :=
    fun p hp => Fields.mem_insert hp
  refine ⟨⟨?_, fun p hp => ?_⟩, fun p hp => ?_, fun p hp => ?_, hd.inbox⟩
  · exact Fields.nodup_keys_insert hd.keyed.nodup id _
  · rcases hcells p hp with rfl | hp
    · exact Cell.id_create d.engine id o
    · exact hd.keyed.id_eq p hp
  · rcases hcells p hp with rfl | hp
    · exact (Cell.faithful_create d.engine id o).congr rfl rfl rfl rfl rfl
    · exact hd.faithful p hp
  · have hget :=
      Fields.get?_insert d.subscriptions id p.1 (Cell.create d.engine id o).listeners.next
    rcases hcells p hp with rfl | hp
    · rw [if_pos rfl] at hget
      exact ⟨_, hget, List.mem_append_right _ (List.mem_singleton_self _)⟩
    · obtain ⟨l, hl, hmem⟩ := hd.listens p hp
      have hne : p.1 ≠ id := fun he => hkey (he ▸ Fields.mem_keys_of_mem hp)
      rw [if_neg hne] at hget
      exact ⟨l, hget.trans hl, hmem⟩

theorem Keyed.eraseCell (hd : d.Keyed) (id : CellId) : (d.eraseCell id).Keyed := by
  constructor
  · have hkeys := Fields.keys_erase d.cells id
    exact hkeys ▸ hd.nodup.filter _
  · exact fun p hp => hd.id_eq p (List.mem_filter.mp hp).1

theorem Valid.eraseCell (hd : d.Valid) (id : CellId) : (d.eraseCell id).Valid := by
  have hcells : ∀ p ∈ (d.eraseCell id).cells, p ∈ d.cells ∧ p.1 ≠ id := by
    intro p hp
    obtain ⟨hp, hne⟩ := List.mem_filter.mp hp
    exact ⟨hp, by simpa using hne⟩
  refine ⟨hd.keyed.eraseCell id, fun p hp => hd.faithful p (hcells p hp).1,
    fun p hp => ?_, hd.inbox⟩
  obtain ⟨l, hl, hmem⟩ := hd.listens p (hcells p hp).1
  have hget := Fields.get?_erase d.subscriptions id p.1
  rw [if_neg (hcells p hp).2] at hget
  exact ⟨l, hget.trans hl, hmem⟩

theorem Valid.renameCells (hd : d.Valid) (id : CellId) (old new : String) :
    (d.renameCells id old new).Valid := by
  refine ⟨hd.keyed.keyed_renameCells, fun p hp => ?_, fun p hp => ?_, hd.inbox⟩
  · obtain ⟨q, hq, rfl⟩ := List.mem_map.mp hp
    have hcell := hd.keyed.cell?_of_mem hq
    simp only [renamedCell]
    split
    · rename_i hrefers
      have hinput := hd.input_of_refers hcell hrefers
      apply Cell.faithful_compile
      split <;> exact hinput
    · split <;> exact (hd.faithful q hq).congr rfl rfl rfl rfl rfl
  · obtain ⟨q, hq, rfl⟩ := List.mem_map.mp hp
    obtain ⟨l, hl, hmem⟩ := hd.listens q hq
    refine ⟨l, hl, ?_⟩
    simp only [renamedCell]
    split <;> split <;> simpa using hmem

theorem Valid.putCell_same (hd : d.Valid) (hc : d.cell? id = some c) {c' : Cell}
    (hid : c'.id = c.id)
    (hown : ∀ l, Fields.get? d.subscriptions id = some l → l ∈ c.listeners.ids →
      l ∈ c'.listeners.ids)
    (hfaithful : c'.Faithful d.engine) : (d.putCell c').Valid := by
  have hid' : c'.id = id := hid.trans (hd.keyed.id_of_cell? hc)
  subst hid'
  exact hd.putCell hc hown hfaithful

theorem Valid.edit (hd : d.Valid) (op : Operation) : (d.edit op).Valid := by
  generalize hedit : d.edit op = d'
  cases hedit ▸ d.edits op with
  | kept => exact hd
  | inserted fresh o hnew => exact hd.insertNew hnew o
  | erased id => exact hd.eraseCell id
  | @renamed id c name => exact hd.renameCells id c.name name
  | @changed id c op f hchange hc =>
    have hch := Operation.of_change? hchange c
    refine hd.putCell_same hc hch.id (fun l _ hl => ?_)
      ((Operation.makes_of_change? hchange c).faithful (hd.faithful_of_cell? hc))
    rw [hch.listeners]
    exact hl
  | context => exact hd.congr rfl rfl rfl rfl
  | listeners => exact hd.congr rfl rfl rfl rfl
  | @heard id c op ls hc hown =>
    exact hd.putCell_same hc rfl hown ((hd.faithful_of_cell? hc).congr rfl rfl rfl rfl rfl)

theorem Valid.step (hd : d.Valid) (op : Operation) : (d.step op).Valid := by
  obtain ⟨hpass, hquiet⟩ := hd.step_eq op
  by_cases h : MakesPass d op
  · rw [hpass h]
    exact (hd.edit op).recompute
  · rw [hquiet h]
    exact hd.edit op

theorem Valid.run (hd : d.Valid) (ops : List Operation) : (d.run ops).Valid := by
  induction ops generalizing d with
  | nil => exact hd
  | cons op ops ih => exact ih (hd.step op)

/-- Adding the rows of a record one after the other keeps what adding a single one keeps. -/
theorem foldlM_insertCell {P : Document → Prop}
    (hP : ∀ {d : Document} {id : CellId}, d.Valid → P d → Fields.contains d.cells id = false →
      ∀ o, P (d.insertNew id o)) {rows : List Row} (hd : d.Valid) (h : P d)
    (hrows : rows.foldlM (fun d row => Prod.snd <$> d.insertCell row.id (rowOptions row)) d =
      .ok d') :
    d'.Valid ∧ P d' := by
  induction rows generalizing d with
  | nil =>
    rw [List.foldlM_nil] at hrows
    cases hrows
    exact ⟨hd, h⟩
  | cons row rows ih =>
    rw [List.foldlM_cons] at hrows
    cases hcontains : Fields.contains d.cells row.id with
    | true =>
      have herror : d.insertCell row.id (rowOptions row) = .error (.duplicateId row.id) :=
        if_pos hcontains
      rw [herror] at hrows
      cases hrows
    | false =>
      have hok : d.insertCell row.id (rowOptions row) =
          .ok (row.id, d.insertNew row.id (rowOptions row)) :=
        if_neg (Bool.eq_false_iff.mp hcontains)
      rw [hok] at hrows
      exact ih (hd.insertNew hcontains _) (hP hd h hcontains _) hrows

/-- A document at the start of a run has no cells, or it is the pass over a document to which the
rows of a record were added. -/
theorem Initial.cases_rows {P : Document → Prop}
    (hcreate : ∀ (eng : Engine) (context : Fields Value), P (Document.create eng context))
    (hinsert : ∀ {d : Document} {id : CellId}, d.Valid → P d → Fields.contains d.cells id = false →
      ∀ o, P (d.insertNew id o)) (h : Initial d) :
    (∃ eng context, d = Document.create eng context) ∨ ∃ d₀, d₀.Valid ∧ P d₀ ∧
    d = d₀.recompute := by
  cases h with
  | create eng context => exact Or.inl ⟨eng, context, rfl⟩
  | @ofRecord eng context r _ h =>
    right
    unfold Document.ofRecord at h
    cases hrows : r.rows.foldlM (fun d row => Prod.snd <$> d.insertCell row.id (rowOptions row))
        (Document.create eng context) with
    | error e =>
      rw [hrows] at h
      cases h
    | ok d₀ =>
      rw [hrows] at h
      cases h
      obtain ⟨hvalid, hd₀⟩ :=
        foldlM_insertCell hinsert (valid_create eng context) (hcreate eng context) hrows
      exact ⟨d₀, hvalid, hd₀, rfl⟩

theorem Initial.valid (h : Initial d) : d.Valid := by
  obtain ⟨eng, context, rfl⟩ | ⟨d₀, hvalid, -, rfl⟩ :=
    h.cases_rows (P := fun _ => True) (fun _ _ => trivial) fun _ _ _ _ => trivial
  · exact valid_create eng context
  · exact hvalid.recompute

theorem Valid.withRegistry (hd : d.Valid) (r : Registry) : (d.withRegistry r).Valid :=
  ⟨⟨hd.keyed.nodup, hd.keyed.id_eq⟩, fun p hp => (hd.faithful p hp).withRegistry r,
    hd.listens, hd.inbox⟩

theorem Reachable.valid (h : d.Reachable) : d.Valid := by
  induction h with
  | initial h => exact h.valid
  | step _ op ih => exact ih.step op
  | surround _ _ ambient' ih => exact ih.withRegistry _

theorem Initial.reachable (h : Initial d) : d.Reachable := .initial h

theorem Reachable.run (h : d.Reachable) (ops : List Operation) : (d.run ops).Reachable := by
  induction ops generalizing d with
  | nil => exact h
  | cons op ops ih => exact ih (h.step op)

/-! ### Invariants -/

/-- What holds of empty documents and is kept by new cells, edits, passes and other surroundings
holds of all documents that operations lead to. -/
theorem Reachable.induct {P : Document → Prop}
    (hcreate : ∀ (eng : Engine) (context : Fields Value), P (Document.create eng context))
    (hinsert : ∀ {d : Document} {id : CellId}, d.Valid → P d → Fields.contains d.cells id = false →
      ∀ o, P (d.insertNew id o))
    (hedit : ∀ {d : Document}, d.Valid → P d → ∀ op, P (d.edit op))
    (hpass : ∀ {d : Document}, d.Valid → P d → P d.recompute)
    (hsurround : ∀ {d : Document} {ambient : Builtin.Ambient},
      P d → d.engine.registry = .builtins ambient →
      ∀ ambient', P (d.withRegistry (.builtins ambient'))) (h : d.Reachable) : P d := by
  induction h with
  | initial hinitial =>
    obtain ⟨eng, context, rfl⟩ | ⟨d₀, hvalid, hd₀, rfl⟩ := hinitial.cases_rows hcreate hinsert
    · exact hcreate eng context
    · exact hpass hvalid hd₀
  | @step d hreachable op ih =>
    have hvalid := hreachable.valid
    obtain ⟨hmakes, hquiet⟩ := hvalid.step_eq op
    by_cases h : MakesPass d op
    · rw [hmakes h]
      exact hpass (hvalid.edit op) (hedit hvalid ih op)
    · rw [hquiet h]
      exact hedit hvalid ih op
  | surround _ hbuiltin ambient' ih => exact hsurround ih hbuiltin ambient'

theorem forall_cells_putCell {P : Cell → Prop} (h : ∀ p ∈ d.cells, P p.2) (hc : P c) :
    ∀ p ∈ (d.putCell c).cells, P p.2 := by
  intro p hp
  rcases Fields.mem_insert hp with rfl | hp
  · exact hc
  · exact h p hp

theorem forall_cells_insertNew {P : Cell → Prop} (h : ∀ p ∈ d.cells, P p.2) {o : CellOptions}
    (hnew : P (Cell.create d.engine id o).subscribe) : ∀ p ∈ (d.insertNew id o).cells, P p.2 := by
  intro p hp
  rcases Fields.mem_insert hp with rfl | hp
  · exact hnew
  · exact h p hp

/-- What holds of the cells of a document holds of them after an edit, if it holds of new cells and
is kept by the change of a cell, by new names and listeners, and by new expressions. -/
theorem forall_cells_edit {P : Cell → Prop} (h : ∀ p ∈ d.cells, P p.2)
    (hcreate : ∀ id o, P (Cell.create d.engine id o))
    (hchange : ∀ {id f c}, op.change? d.engine = some (id, f) → d.cell? id = some c →
      P c → P (f c).cell)
    (hkeep : ∀ {c} name ls, P c → P { c with name := name, listeners := ls })
    (hcompile : ∀ {c} source, P c → P (c.compile d.engine source)) :
      ∀ p ∈ (d.edit op).cells, P p.2 := by
  generalize hedit : d.edit op = d'
  cases hedit ▸ d.edits op with
  | kept => exact h
  | inserted fresh o => exact forall_cells_insertNew h (hkeep _ _ (hcreate _ o))
  | erased => exact fun p hp => h p (List.mem_filter.mp hp).1
  | @renamed id c name =>
    intro p hp
    obtain ⟨q, hq, rfl⟩ := List.mem_map.mp hp
    have hnamed : P (if q.2.id = id then { q.2 with name := name } else q.2) := by
      split
      · exact hkeep name q.2.listeners (h q hq)
      · exact h q hq
    simp only [renamedCell]
    split
    · exact hcompile _ hnamed
    · exact hnamed
  | changed op f hop hc => exact forall_cells_putCell h (hchange hop hc (h _ (mem_of_cell? hc)))
  | context => exact h
  | listeners => exact h
  | @heard id c op ls hc => exact forall_cells_putCell h (hkeep c.name ls (h _ (mem_of_cell? hc)))

theorem engine_edit (d : Document) (op : Operation) : (d.edit op).engine = d.engine := by
  generalize hedit : d.edit op = d'
  cases hedit ▸ d.edits op <;> rfl

theorem Valid.engine_step (hd : d.Valid) (op : Operation) : (d.step op).engine = d.engine := by
  obtain ⟨hpass, hquiet⟩ := hd.step_eq op
  by_cases h : MakesPass d op
  · rw [hpass h, (hd.edit op).keyed.recompute_spec.1.engine, engine_edit]
  · rw [hquiet h, engine_edit]

/-- A document keeps its engine. -/
theorem Valid.engine_run (hd : d.Valid) (ops : List Operation) : (d.run ops).engine = d.engine := by
  induction ops generalizing d with
  | nil => rfl
  | cons op ops ih => exact (ih (hd.step op)).trans (hd.engine_step op)

end FormulaSheet.Document
