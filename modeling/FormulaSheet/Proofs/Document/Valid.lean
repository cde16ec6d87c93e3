import FormulaSheet.Document.Operations
import FormulaSheet.Proofs.Document.Pass

/-!
# Valid documents

Between two operations a document is `Valid`: it files its cells under their ids, each cell has the
expression that is read off its text (`Cell.Faithful`), the document listens to each of its cells,
and its inbox is empty. A change of one cell therefore reaches the inbox, and the operation makes a
pass exactly where the event of the change asks for one (`Valid.document_flush_take`).
-/

namespace FormulaSheet

namespace Cell

variable {eng : Engine} {c c' : Cell}

/-- The expression of the cell, its offenses and its compile error are what reading its text gives.
A cell with an input has no text. -/
structure Faithful (eng : Engine) (c : Cell) : Prop where
  input : c.input? ≠ none → c.expression = ""
  ok : ∀ k, eng.compile c.expression = .ok k →
    c.expr = k.expr ∧ c.offenses = k.offenses ∧ c.compileError? = k.disallowed?
  error : ∀ e, eng.compile c.expression = .error e →
    c.expr = .empty ∧ c.offenses = [] ∧ c.compileError? = some e

theorem compile_blank (eng : Engine) : eng.compile "" = .ok ⟨.empty, []⟩ := rfl

/-- Being faithful depends on the input and on what belongs to the expression. -/
theorem Faithful.congr (h : c.Faithful eng) (hinput : c'.input? = c.input?)
    (hexpression : c'.expression = c.expression) (hexpr : c'.expr = c.expr)
    (hoffenses : c'.offenses = c.offenses) (hcompile : c'.compileError? = c.compileError?) :
    c'.Faithful eng := by
  constructor
  · rw [hinput, hexpression]
    exact h.input
  · rw [hexpression, hexpr, hoffenses, hcompile]
    exact h.ok
  · rw [hexpression, hexpr, hoffenses, hcompile]
    exact h.error

/-- The functions of an engine have no part in reading a text. -/
theorem Faithful.withRegistry (h : c.Faithful eng) (r : Registry) :
    c.Faithful { eng with registry := r } :=
  ⟨h.input, h.ok, h.error⟩

theorem faithful_of_clear (hexpression : c.expression = "") (hexpr : c.expr = .empty)
    (hoffenses : c.offenses = []) (hcompile : c.compileError? = none) : c.Faithful eng := by
  refine ⟨fun _ => hexpression, fun k hk => ?_, fun e he => ?_⟩
  · rw [hexpression, compile_blank, Except.ok.injEq] at hk
    subst hk
    exact ⟨hexpr, hoffenses, hcompile⟩
  · rw [hexpression, compile_blank] at he
    cases he

@[simp] theorem compile_id (eng : Engine) (c : Cell) (s : String) :
    (c.compile eng s).id = c.id := by
  unfold compile
  split <;> rfl

@[simp] theorem compile_name (eng : Engine) (c : Cell) (s : String) :
    (c.compile eng s).name = c.name := by
  unfold compile
  split <;> rfl

@[simp] theorem compile_expression (eng : Engine) (c : Cell) (s : String) :
    (c.compile eng s).expression = s := by
  unfold compile
  split <;> rfl

@[simp] theorem compile_input (eng : Engine) (c : Cell) (s : String) :
    (c.compile eng s).input? = c.input? := by
  unfold compile
  split <;> rfl

@[simp] theorem compile_listeners (eng : Engine) (c : Cell) (s : String) :
    (c.compile eng s).listeners = c.listeners := by
  unfold compile
  split <;> rfl

theorem tags_compile (eng : Engine) (c : Cell) (s : String) : (c.compile eng s).tags = c.tags := by
  unfold compile
  split <;> rfl

theorem faithful_compile (hinput : c.input? = none) (s : String) :
    (c.compile eng s).Faithful eng := by
  constructor
  · intro h
    rw [compile_input] at h
    exact absurd hinput h
  · intro k hk
    rw [compile_expression] at hk
    simp [compile, hk]
  · intro e he
    rw [compile_expression] at he
    simp [compile, he]

/-- An expression with offenses leaves a cell without a value when it is read. -/
theorem value_compile_of_not_safe {s : String} (h : (c.compile eng s).isSafe = false) :
    (c.compile eng s).value = .absent := by
  unfold compile at h ⊢
  cases hk : eng.compile s with
  | error e => rfl
  | ok k =>
    have hoffends : k.isSafe = false := by
      rw [hk] at h
      exact h
    simp [hoffends]

/-- A cell with an input has the empty expression. -/
theorem Faithful.of_input (h : c.Faithful eng) (hinput : c.input? ≠ none) :
    c.expr = .empty ∧ c.offenses = [] ∧ c.compileError? = none := by
  have hblank : eng.compile c.expression = .ok ⟨.empty, []⟩ := by rw [h.input hinput, compile_blank]
  exact h.ok _ hblank

theorem dependencies_of_expr_empty (hexpr : c.expr = .empty) : c.dependencies eng = [] := by
  rw [dependencies, hexpr]
  rfl

theorem Faithful.dependencies_of_input (h : c.Faithful eng) (hinput : c.input? ≠ none) :
    c.dependencies eng = [] :=
  dependencies_of_expr_empty (h.of_input hinput).1

theorem Faithful.compileError_of_not_safe (h : c.Faithful eng) (hoffends : c.isSafe = false) :
    c.compileError? = some (.disallowed ((c.offenses.map Offense.name).foldl addNew [])) := by
  cases hk : eng.compile c.expression with
  | error e =>
    have hoffenses := (h.error e hk).2.1
    rw [isSafe, hoffenses] at hoffends
    cases hoffends
  | ok k =>
    obtain ⟨-, hoffenses, hcompile⟩ := h.ok k hk
    have hk_offends : k.isSafe = false := by
      rw [Compiled.isSafe, ← hoffenses]
      exact hoffends
    rw [hcompile, Compiled.disallowed?, hk_offends, hoffenses]
    rfl

/-- The error of a cell with offenses names them. -/
theorem Faithful.error_of_not_safe (h : c.Faithful eng) (hoffends : c.isSafe = false) :
    c.error? = some (.disallowed ((c.offenses.map Offense.name).foldl addNew [])) := by
  rw [error?, h.compileError_of_not_safe hoffends]
  rfl

/-- Two cells with the same text have the same expression. -/
theorem Faithful.same_reading (h : c.Faithful eng) (h' : c'.Faithful eng)
    (hexpression : c'.expression = c.expression) :
    c'.expr = c.expr ∧ c'.offenses = c.offenses ∧ c'.compileError? = c.compileError? := by
  cases hk : eng.compile c.expression with
  | ok k =>
    obtain ⟨hexpr, hoffenses, hcompile⟩ := h.ok k hk
    obtain ⟨hexpr', hoffenses', hcompile'⟩ := h'.ok k (by rw [hexpression, hk])
    rw [hexpr, hexpr', hoffenses, hoffenses', hcompile, hcompile']
    exact ⟨rfl, rfl, rfl⟩
  | error e =>
    obtain ⟨hexpr, hoffenses, hcompile⟩ := h.error e hk
    obtain ⟨hexpr', hoffenses', hcompile'⟩ := h'.error e (by rw [hexpression, hk])
    rw [hexpr, hexpr', hoffenses, hoffenses', hcompile, hcompile']
    exact ⟨rfl, rfl, rfl⟩

theorem faithful_create (eng : Engine) (id : CellId) (o : CellOptions) :
    (create eng id o).Faithful eng := by
  unfold create
  split
  · exact faithful_of_clear rfl rfl rfl rfl
  · exact faithful_compile rfl _

@[simp] theorem id_create (eng : Engine) (id : CellId) (o : CellOptions) :
    (create eng id o).id = id := by
  unfold create
  split
  · rfl
  · rw [compile_id]

@[simp] theorem name_create (eng : Engine) (id : CellId) (o : CellOptions) :
    (create eng id o).name = o.name := by
  unfold create
  split
  · rfl
  · rw [compile_name]

@[simp] theorem input_create (eng : Engine) (id : CellId) (o : CellOptions) :
    (create eng id o).input? = o.input? := by
  unfold create
  split
  · rename_i i hinput
    exact hinput.symm
  · rename_i hinput
    rw [compile_input, hinput]

theorem expression_create (eng : Engine) (id : CellId) {o : CellOptions}
    (hinput : o.input? ≠ none → o.expression = "") :
    (create eng id o).expression = o.expression := by
  unfold create
  split
  · rename_i i hi
    exact (hinput (by simp [hi])).symm
  · rw [compile_expression]

theorem value_create (eng : Engine) (id : CellId) {o : CellOptions} {i : Input}
    (hinput : o.input? = some i) : (create eng id o).value = i.startValue := by
  simp only [create, hinput]

end Cell

/-! ### Changes of a cell -/

/-- A change of a cell that keeps its id and its listeners, who all hear of it. An event that does
not ask for a pass leaves alone what a pass reads, apart from the name. -/
structure Change.Of (ch : Change) (c : Cell) : Prop where
  id : ch.cell.id = c.id
  listeners : ch.cell.listeners = c.listeners
  heard : ∀ e, ch.event? = some e → ch.heard = c.listeners.ids
  quiet : ch.event?.any CellEvent.requiresRecompute = false →
    ch.cell = { c with name := ch.cell.name, tags := ch.cell.tags }

namespace Cell

variable {c c' : Cell}

theorem of_unchanged (c : Cell) : c.unchanged.Of c :=
  ⟨rfl, rfl, fun _ h => (by cases h), fun _ => rfl⟩

theorem of_announce {e : CellEvent} (hid : c'.id = c.id) (hlisteners : c'.listeners = c.listeners)
    (hquiet : e.requiresRecompute = false → c' = { c with name := c'.name, tags := c'.tags }) :
    (c'.announce e).Of c :=
  ⟨hid, hlisteners, fun _ _ => congrArg Listeners.ids hlisteners, hquiet⟩

theorem of_updateExpression (eng : Engine) (s : String) (c : Cell) :
    (c.updateExpression eng s).Of c := by
  unfold updateExpression
  split
  · exact of_unchanged c
  · exact of_announce (compile_id eng c s) (compile_listeners eng c s) fun h => by cases h

theorem of_setInput (i : Input) (c : Cell) : (c.setInput i).Of c :=
  of_announce rfl rfl fun h => by cases h

theorem of_clearInput (c : Cell) : c.clearInput.Of c := by
  unfold clearInput
  split
  · exact of_announce rfl rfl fun h => by cases h
  · exact of_unchanged c

theorem of_setValue (v : Value) (c : Cell) : (c.setValue v).Of c :=
  of_announce rfl rfl fun h => by cases h

theorem of_rename (n : String) (c : Cell) : (c.rename n).Of c := by
  unfold rename
  split
  · exact of_unchanged c
  · exact of_announce rfl rfl fun _ => rfl

theorem of_setTags (tags : List String) (c : Cell) : (c.setTags tags).Of c :=
  of_announce rfl rfl fun _ => rfl

theorem of_addTag (tag : String) (c : Cell) : (c.addTag tag).Of c := by
  unfold addTag
  split
  · exact of_unchanged c
  · exact of_announce rfl rfl fun _ => rfl

theorem of_removeTag (tag : String) (c : Cell) : (c.removeTag tag).Of c := by
  unfold removeTag
  split
  · exact of_announce rfl rfl fun _ => rfl
  · exact of_unchanged c

end Cell

namespace Document

variable {d : Document} {id : CellId} {c c' : Cell}

/-! ### Validity -/

/-- The document listens to each of its cells. -/
def Listens (d : Document) : Prop :=
  ∀ p ∈ d.cells, ∃ l, Fields.get? d.subscriptions p.1 = some l ∧ l ∈ p.2.listeners.ids

/-- What holds of a document between two operations. -/
structure Valid (d : Document) : Prop where
  keyed : d.Keyed
  faithful : ∀ p ∈ d.cells, p.2.Faithful d.engine
  listens : d.Listens
  inbox : d.inbox = []

theorem Valid.faithful_of_cell? (hd : d.Valid) (hc : d.cell? id = some c) : c.Faithful d.engine :=
  hd.faithful _ (mem_of_cell? hc)

theorem cell?_putCell (d : Document) (c : Cell) (id : CellId) :
    (d.putCell c).cell? id = if id = c.id then some c else d.cell? id :=
  Fields.get?_insert d.cells c.id id c

theorem Keyed.putCell (hd : d.Keyed) (h : d.cell? c.id ≠ none) : (d.putCell c).Keyed := by
  constructor
  · rw [hd.cells_putCell h, Fields.keys_modify]
    exact hd.nodup
  · intro p hp
    rcases Fields.mem_insert hp with rfl | hp
    · rfl
    · exact hd.id_eq p hp

theorem Listens.putCell (hd : d.Listens) (hc : d.cell? c'.id = some c)
    (hown : ∀ l, Fields.get? d.subscriptions c'.id = some l → l ∈ c.listeners.ids →
      l ∈ c'.listeners.ids) : (d.putCell c').Listens := by
  intro p hp
  rcases Fields.mem_insert hp with rfl | hp
  · obtain ⟨l, hl, hmem⟩ := hd _ (mem_of_cell? hc)
    exact ⟨l, hl, hown l hl hmem⟩
  · exact hd p hp

theorem Valid.putCell (hd : d.Valid) (hc : d.cell? c'.id = some c)
    (hown : ∀ l, Fields.get? d.subscriptions c'.id = some l → l ∈ c.listeners.ids →
      l ∈ c'.listeners.ids) (hfaithful : c'.Faithful d.engine) : (d.putCell c').Valid := by
  refine ⟨hd.keyed.putCell ?_, ?_, hd.listens.putCell hc hown, hd.inbox⟩
  · rw [hc]
    exact Option.some_ne_none c
  · intro p hp
    rcases Fields.mem_insert hp with rfl | hp
    · exact hfaithful
    · exact hd.faithful p hp

theorem Keyed.putCell_self (hd : d.Keyed) (hc : d.cell? id = some c) : d.putCell c = d := by
  have hput := hd.putCell_withResult hc c.result
  rw [Cell.withResult_result, hd.setResult_result hc] at hput
  exact hput

/-- What a pass gives the cells does not touch validity. -/
theorem Valid.of_sameShape {d' : Document} (hd : d.Valid) (h : d.SameShape d') : d'.Valid := by
  have hmem : ∀ p ∈ d'.cells, ∃ r, (p.1, p.2.withResult r) ∈ d.cells := by
    intro p hp
    obtain ⟨r, hr⟩ := h.symm.cell? ((h.keyed hd.keyed).cell?_of_mem hp)
    exact ⟨r, mem_of_cell? hr⟩
  refine ⟨h.keyed hd.keyed, fun p hp => ?_, fun p hp => ?_, ?_⟩
  · obtain ⟨r, hr⟩ := hmem p hp
    rw [h.engine]
    exact (hd.faithful _ hr).congr rfl rfl rfl rfl rfl
  · obtain ⟨r, hr⟩ := hmem p hp
    rw [h.subscriptions]
    exact hd.listens (p.1, p.2.withResult r) hr
  · rw [h.inbox]
    exact hd.inbox

theorem Valid.recompute (hd : d.Valid) : d.recompute.Valid :=
  hd.of_sameShape hd.keyed.recompute_spec.1

/-! ### The inbox -/

/-- The events of a change that the document hears itself. -/
def ownEvents (d : Document) (ch : Change) : List (CellId × CellEvent) :=
  match ch.event? with
  | none => []
  | some e =>
    (ch.heard.filter fun l => Fields.get? d.subscriptions ch.cell.id == some l).map fun _ =>
      (ch.cell.id, e)

theorem document_take (p : Progress) (ch : Change) :
    (p.take ch).document =
      { p.document.putCell ch.cell with inbox := p.document.inbox ++ p.document.ownEvents ch } := by
  unfold Progress.take ownEvents
  cases ch.event? with
  | none => simp only [List.append_nil]; rfl
  | some e => rfl

theorem cell?_take (p : Progress) (ch : Change) (id : CellId) :
    (p.take ch).document.cell? id =
      if id = ch.cell.id then some ch.cell else p.document.cell? id := by
  rw [document_take]
  exact cell?_putCell p.document ch.cell id

theorem Keyed.take {p : Progress} {ch : Change} (hd : p.document.Keyed)
    (hc : p.document.cell? ch.cell.id = some c) : (p.take ch).document.Keyed := by
  have hput : (p.document.putCell ch.cell).Keyed :=
    hd.putCell (by rw [hc]; exact Option.some_ne_none c)
  rw [document_take]
  exact ⟨hput.nodup, hput.id_eq⟩

theorem Listens.take {p : Progress} {ch : Change} (hd : p.document.Listens)
    (hc : p.document.cell? ch.cell.id = some c) (hch : ch.Of c) : (p.take ch).document.Listens := by
  have hput : (p.document.putCell ch.cell).Listens := by
    refine hd.putCell hc fun l _ hl => ?_
    rw [hch.listeners]
    exact hl
  rw [document_take]
  exact hput

/-- A document that listens to a cell hears of its changes. -/
theorem Listens.any_ownEvents (hd : d.Listens) (hc : d.cell? id = some c) {ch : Change}
    (hid : ch.cell.id = id) (hheard : ∀ e, ch.event? = some e → ch.heard = c.listeners.ids)
    (f : CellEvent → Bool) : ((d.ownEvents ch).any fun e => f e.2) = ch.event?.any f := by
  obtain ⟨l, hl, hmem⟩ := hd _ (mem_of_cell? hc)
  unfold ownEvents
  cases he : ch.event? with
  | none => rfl
  | some e =>
    rw [hheard e he, hid, hl]
    rw [List.any_map, Option.any_some, Bool.eq_iff_iff, List.any_eq_true]
    constructor
    · rintro ⟨_, _, hf⟩
      exact hf
    · intro hf
      exact ⟨l, List.mem_filter.mpr ⟨hmem, beq_self_eq_true _⟩, hf⟩

theorem document_flush (p : Progress) :
    p.flush.document =
      if p.document.inbox.any (fun e => e.2.requiresRecompute)
      then ({ p.document with inbox := [] } : Document).recompute
      else { p.document with inbox := [] } := by
  unfold Progress.flush
  dsimp only
  split <;> rfl

/-- **A change of a cell is followed by a pass exactly where its event asks for one.** -/
theorem Valid.document_flush_take (hd : d.Valid) (hc : d.cell? id = some c) {ch : Change}
    (hch : ch.Of c) : (d.begin.take ch).flush.document =
      if ch.event?.any CellEvent.requiresRecompute then (d.putCell ch.cell).recompute
      else d.putCell ch.cell := by
  have hid : ch.cell.id = id := hch.id.trans (hd.keyed.id_of_cell? hc)
  have hput : ({ d.putCell ch.cell with inbox := [] } : Document) = d.putCell ch.cell := by
    unfold Document.putCell
    rw [← hd.inbox]
  rw [document_flush, document_take]
  simp only [begin, hd.inbox, List.nil_append]
  rw [hd.listens.any_ownEvents hc hid hch.heard, hput]

end Document

end FormulaSheet
