import FormulaSheet.Proofs.Document.Valid

/-!
# Renaming a cell

A rename gives a cell another name and writes the references to it anew, in all expressions at once
(`renameCells`). The changes are made one after the other, each with its own event; what comes out
is the same as if every cell had been replaced by its renamed form (`Valid.renameCell_spec`). A pass
follows exactly where some expression refers to the cell.
-/

namespace FormulaSheet.Document

variable {d : Document} {id : CellId} {c : Cell} {old new name : String}

/-- The expression of the cell reads a name that refers to the cell `id`. -/
def refers (d : Document) (id : CellId) (c : Cell) : Bool :=
  (c.dependencies d.engine).any fun n => d.resolve? n == some id

/-- The text of a cell in which the references to the cell `id` are written anew. -/
def renamedText (d : Document) (id : CellId) (old new : String) (c : Cell) : String :=
  Expr.renameIn (d.renamed? id old new) c.expression c.expr

/-- A cell after the rename of the cell `id`. -/
def renamedCell (d : Document) (id : CellId) (old new : String) (c : Cell) : Cell :=
  let c' := if c.id = id then { c with name := new } else c
  if d.refers id c then c'.compile d.engine (d.renamedText id old new c) else c'

/-- The document with all cells renamed, before a pass. -/
def renameCells (d : Document) (id : CellId) (old new : String) : Document :=
  { d with cells := d.cells.map fun p => (p.1, d.renamedCell id old new p.2) }

theorem refers_eq_true_iff :
    d.refers id c = true ↔ ∃ n ∈ c.dependencies d.engine, d.resolve? n = some id := by
  simp [refers, List.any_eq_true]

theorem reads_iff_refers {b : CellId} (hc : d.cell? b = some c) :
    d.Reads id b ↔ d.refers id c = true := by
  rw [refers_eq_true_iff]
  constructor
  · rintro ⟨c', hc', h⟩
    rw [hc, Option.some.injEq] at hc'
    rwa [hc']
  · intro h
    exact ⟨c, hc, h⟩

/-- Only cells without an input refer to anything. -/
theorem Valid.input_of_refers (hd : d.Valid) {b : CellId} (hc : d.cell? b = some c)
    (h : d.refers id c = true) : c.input? = none := by
  by_contra hinput
  have hnone := (hd.faithful_of_cell? hc).dependencies_of_input hinput
  rw [refers, hnone] at h
  cases h

/-! ### The new expressions -/

theorem renamedExpressions_eq :
    d.renamedExpressions id old new =
      (d.cellList.filter (d.refers id)).map fun c => (c.id, d.renamedText id old new c) := rfl

theorem Keyed.cellList_ids (hd : d.Keyed) : d.cellList.map Cell.id = Fields.keys d.cells := by
  rw [cellList, List.map_map]
  exact List.map_congr_left fun p hp => hd.id_eq p hp

theorem Keyed.nodup_renamedExpressions (hd : d.Keyed) :
    (Fields.keys (d.renamedExpressions id old new)).Nodup := by
  have hkeys : Fields.keys (d.renamedExpressions id old new) =
      (d.cellList.filter (d.refers id)).map Cell.id := by
    rw [renamedExpressions_eq, Fields.keys, List.map_map]
    rfl
  rw [hkeys]
  refine (List.filter_sublist.map Cell.id).nodup ?_
  rw [hd.cellList_ids]
  exact hd.nodup

theorem Keyed.mem_renamedExpressions (hd : d.Keyed) {r : CellId × String} :
    r ∈ d.renamedExpressions id old new ↔
      ∃ c, d.cell? r.1 = some c ∧ d.refers id c = true ∧ r.2 = d.renamedText id old new c := by
  rw [renamedExpressions_eq, List.mem_map]
  constructor
  · rintro ⟨c, hc, rfl⟩
    obtain ⟨hmem, hrefers⟩ := List.mem_filter.mp hc
    obtain ⟨p, hp, rfl⟩ := List.mem_map.mp hmem
    have hcell := hd.cell?_of_mem hp
    rw [← hd.id_eq p hp] at hcell
    exact ⟨p.2, hcell, hrefers, rfl⟩
  · rintro ⟨c, hc, hrefers, htext⟩
    refine ⟨c, List.mem_filter.mpr ⟨List.mem_map.mpr ⟨_, mem_of_cell? hc, rfl⟩, hrefers⟩, ?_⟩
    rw [hd.id_of_cell? hc, ← htext]

theorem Keyed.get?_renamedExpressions (hd : d.Keyed) {b : CellId} (hc : d.cell? b = some c) :
    Fields.get? (d.renamedExpressions id old new) b =
      if d.refers id c then some (d.renamedText id old new c) else none := by
  by_cases hrefers : d.refers id c = true
  · have hmem : (b, d.renamedText id old new c) ∈ d.renamedExpressions id old new :=
      hd.mem_renamedExpressions.mpr ⟨c, hc, hrefers, rfl⟩
    rw [if_pos hrefers]
    exact Fields.get?_of_mem hd.nodup_renamedExpressions hmem
  · rw [if_neg hrefers, Fields.get?_eq_none_iff]
    intro hmem
    obtain ⟨r, hr, rfl⟩ := List.mem_map.mp hmem
    obtain ⟨c', hc', hrefers', -⟩ := hd.mem_renamedExpressions.mp hr
    rw [hc, Option.some.injEq] at hc'
    exact hrefers (hc' ▸ hrefers')

/-! ### The changes one after the other -/

/-- The cell with the expression that is given for its id, if one is. -/
def recompiled (eng : Engine) (texts : Fields String) (p : CellId × Cell) : Cell :=
  match Fields.get? texts p.1 with
  | some s => p.2.compile eng s
  | none => p.2

theorem Keyed.recompiled_renamedExpressions (hd : d.Keyed) {b : CellId} (hc : d.cell? b = some c)
    (eng : Engine) (x : Cell) :
    recompiled eng (d.renamedExpressions id old new) (b, x) =
      if d.refers id c then x.compile eng (d.renamedText id old new c) else x := by
  rw [recompiled, hd.get?_renamedExpressions hc]
  cases d.refers id c <;> rfl

/-- Giving cells new expressions one after the other replaces all of these cells, and fills the
inbox with events that ask for a pass. -/
theorem foldl_updateExpression (eng : Engine) {texts : Fields String}
    (hnodup : (Fields.keys texts).Nodup) {p : Progress} (hd : p.document.Keyed)
    (hlistens : p.document.Listens)
    (hcells : ∀ r ∈ texts, ∃ c, p.document.cell? r.1 = some c ∧ c.input? = none) :
    ∃ events : List (CellId × CellEvent),
      (texts.foldl (fun p r => p.change r.1 (Cell.updateExpression eng r.2)) p).document =
        { p.document with
          cells := p.document.cells.map fun q => (q.1, recompiled eng texts q)
          inbox := p.document.inbox ++ events } ∧
      events.any (fun e => e.2.requiresRecompute) = !texts.isEmpty := by
  induction texts generalizing p with
  | nil =>
    refine ⟨[], ?_, rfl⟩
    simp [recompiled]
  | cons r texts ih =>
    rw [Fields.keys_cons, List.nodup_cons] at hnodup
    obtain ⟨c, hc, hinput⟩ := hcells r List.mem_cons_self
    have hid : c.id = r.1 := hd.id_of_cell? hc
    set ch : Change := (c.compile eng r.2).announce .expressionChanged with hch_def
    have hupdate : c.updateExpression eng r.2 = ch := by
      unfold Cell.updateExpression
      rw [hinput]
      rfl
    have hch : ch.Of c := hupdate ▸ Cell.of_updateExpression eng r.2 c
    have hch_id : ch.cell.id = r.1 := hch.id.trans hid
    have hch_cell : p.document.cell? ch.cell.id = some c := by rw [hch_id, hc]
    have hchange : p.change r.1 (Cell.updateExpression eng r.2) = p.take ch := by
      unfold Progress.change
      rw [hc, ← hupdate]
    obtain ⟨events, hdocument, hevents⟩ :=
      ih hnodup.2 (hd.take hch_cell) (hlistens.take hch_cell hch)
      fun q hq => by
        obtain ⟨c', hc', hinput'⟩ := hcells q (List.mem_cons_of_mem r hq)
        have hne : q.1 ≠ ch.cell.id := by
          intro he
          rw [hch_id] at he
          exact hnodup.1 (he ▸ Fields.mem_keys_of_mem hq)
        refine ⟨c', ?_, hinput'⟩
        rw [cell?_take, if_neg hne, hc']
    have hmap : (p.document.putCell ch.cell).cells.map (fun q => (q.1, recompiled eng texts q)) =
        p.document.cells.map fun q => (q.1, recompiled eng (r :: texts) q) := by
      refine hd.map_cells_putCell hc hch_id ?_ fun q _ hq1 => ?_
      · have hnone : Fields.get? texts r.1 = none := Fields.get?_eq_none_iff.mpr hnodup.1
        simp only [recompiled, Fields.get?_cons, if_true, hnone]
        rfl
      · simp only [recompiled, Fields.get?_cons, if_neg hq1]
    refine ⟨p.document.ownEvents ch ++ events, ?_, ?_⟩
    · rw [List.foldl_cons, hchange, hdocument, document_take]
      simp only [hmap, List.append_assoc]
      rfl
    · have hown := hlistens.any_ownEvents hc hch_id hch.heard CellEvent.requiresRecompute
      rw [List.any_append, hown]
      rfl

/-! ### The rename -/

/-- The cell is there, and can take the name: expressions can refer to it, it is not the name that
the cell has, and no cell has it. -/
def Renamable (d : Document) (id : CellId) (name : String) : Prop :=
  ∃ c, d.cell? id = some c ∧ c.name ≠ name ∧ d.engine.isValidName name = true ∧ d.named? name = none

theorem Keyed.keyed_renameCells (hd : d.Keyed) : (d.renameCells id old new).Keyed := by
  have hid : ∀ c, (d.renamedCell id old new c).id = c.id := by
    intro c
    simp only [renamedCell]
    split <;> split <;> simp
  constructor
  · have hkeys : Fields.keys (d.renameCells id old new).cells = Fields.keys d.cells := by
      simp [renameCells, Fields.keys]
    rw [hkeys]
    exact hd.nodup
  · intro p hp
    obtain ⟨q, hq, rfl⟩ := List.mem_map.mp hp
    exact (hid q.2).trans (hd.id_eq q hq)

/-- A rename to the name that the cell has changes nothing. -/
theorem renameCell_of_same {p : Progress} (hc : d.cell? id = some c) (hname : c.name = name)
    (hp : d.renameCell id name = .ok p) : p.document = d := by
  unfold renameCell find at hp
  simp only [hc, bind, Except.bind, hname, if_true, pure, Except.pure, Except.ok.injEq] at hp
  rw [← hp]
  rfl

/-- A rename to another name succeeds only where the cell can take it. -/
theorem renamable_of_renameCell {p : Progress} (hd : d.Keyed) (hc : d.cell? id = some c)
    (hname : c.name ≠ name) (hp : d.renameCell id name = .ok p) : d.Renamable id name := by
  unfold renameCell find at hp
  simp only [hc, bind, Except.bind, hname, if_false] at hp
  cases hvalid : d.engine.isValidName name with
  | false => simp [hvalid, throw, throwThe, MonadExceptOf.throw] at hp
  | true =>
    cases hnamed : d.named? name with
    | none => exact ⟨c, hc, hname, hvalid, hnamed⟩
    | some b =>
      by_cases hb : b = id
      · subst hb
        obtain ⟨c', hc', hname'⟩ := hd.cell?_of_named? hnamed
        rw [hc, Option.some.injEq] at hc'
        exact absurd (hc' ▸ hname') hname
      · simp [hvalid, hnamed, hb, throw, throwThe, MonadExceptOf.throw] at hp

/-- A rename that fails, or that leaves the name as it is, changes nothing. -/
theorem renameCell_of_not_renamable {p : Progress} (hd : d.Keyed) (h : ¬ d.Renamable id name)
    (hp : d.renameCell id name = .ok p) : p.document = d := by
  cases hc : d.cell? id with
  | none =>
    rw [renameCell, find, hc] at hp
    cases hp
  | some c =>
    by_cases hname : c.name = name
    · exact renameCell_of_same hc hname hp
    · exact absurd (renamable_of_renameCell hd hc hname hp) h

/-- Changes of cells, one after the other. -/
def Progress.changes (p : Progress) (steps : List (CellId × (Cell → Change))) : Progress :=
  steps.foldl (fun p s => p.change s.1 s.2) p

/-- What a rename changes: the name of the cell, and then the expressions that refer to it. -/
def renameSteps (d : Document) (id : CellId) (old new : String) : List (CellId × (Cell → Change)) :=
  (id, Cell.rename new) ::
    (d.renamedExpressions id old new).map fun r => (r.1, Cell.updateExpression d.engine r.2)

theorem rename_of_ne (hname : c.name ≠ name) :
    c.rename name = Cell.announce { c with name := name } (.renamed c.name name) := by
  rw [Cell.rename, if_neg (Ne.symm hname)]

/-- The rename itself puts the cell in its place under the new name, and asks for no pass. -/
theorem Valid.change_rename (hd : d.Valid) (hc : d.cell? id = some c) (hname : c.name ≠ name) :
    let p := d.begin.change id (Cell.rename name)
    p.document.Keyed ∧ p.document.Listens ∧
      (∃ events : List (CellId × CellEvent),
        p.document = { d.putCell { c with name := name } with inbox := events } ∧
        events.any (fun e => e.2.requiresRecompute) = false) ∧
      ∀ b, p.document.cell? b = if b = id then some { c with name := name } else d.cell? b := by
  have hid : c.id = id := hd.keyed.id_of_cell? hc
  have hch : (c.rename name).Of c := Cell.of_rename name c
  have hcell : (c.rename name).cell = { c with name := name } := by rw [rename_of_ne hname]; rfl
  have hch_id : (c.rename name).cell.id = id := hch.id.trans hid
  have hch_cell : d.cell? (c.rename name).cell.id = some c := by rw [hch_id, hc]
  have hchange : d.begin.change id (Cell.rename name) = d.begin.take (c.rename name) := by
    have hbegin : d.begin.document.cell? id = some c := hc
    unfold Progress.change
    rw [hbegin]
  intro p
  refine ⟨?_, ?_, ⟨d.ownEvents (c.rename name), ?_, ?_⟩, ?_⟩
  · show (d.begin.change id (Cell.rename name)).document.Keyed
    rw [hchange]
    exact Keyed.take (p := d.begin) hd.keyed hch_cell
  · show (d.begin.change id (Cell.rename name)).document.Listens
    rw [hchange]
    exact Listens.take (p := d.begin) hd.listens hch_cell hch
  · show (d.begin.change id (Cell.rename name)).document = _
    rw [hchange, document_take, hcell]
    simp only [begin, hd.inbox, List.nil_append]
  · rw [hd.listens.any_ownEvents hc hch_id hch.heard CellEvent.requiresRecompute,
      rename_of_ne hname]
    rfl
  · intro b
    show (d.begin.change id (Cell.rename name)).document.cell? b = _
    rw [hchange, cell?_take, hch_id, hcell]
    rfl

/-- A new name and the new expressions together make the renamed forms of the cells. -/
theorem Keyed.map_recompiled (hd : d.Keyed) (hc : d.cell? id = some c) :
    (d.putCell { c with name := name }).cells.map
        (fun q => (q.1, recompiled d.engine (d.renamedExpressions id c.name name) q)) =
      (d.renameCells id c.name name).cells := by
  have hid : c.id = id := hd.id_of_cell? hc
  have hid' : ({ c with name := name } : Cell).id = id := hid
  refine hd.map_cells_putCell hc hid' ?_ fun q hq hq1 => ?_
  · rw [hd.recompiled_renamedExpressions hc, renamedCell, if_pos hid]
  · have hq_id : q.2.id = q.1 := hd.id_eq q hq
    rw [hd.recompiled_renamedExpressions (hd.cell?_of_mem hq), renamedCell,
      if_neg fun he => hq1 (hq_id.symm.trans he)]

theorem Keyed.renamedExpressions_isEmpty (hd : d.Keyed) :
    (d.renamedExpressions id old new).isEmpty = false ↔ ∃ b, d.Reads id b := by
  rw [List.isEmpty_eq_false_iff_exists_mem]
  constructor
  · rintro ⟨r, hr⟩
    obtain ⟨c, hc, hrefers, -⟩ := hd.mem_renamedExpressions.mp hr
    exact ⟨r.1, (reads_iff_refers hc).mpr hrefers⟩
  · rintro ⟨b, c, hc, hrefers⟩
    exact ⟨(b, _), hd.mem_renamedExpressions.mpr ⟨c, hc, refers_eq_true_iff.mpr hrefers, rfl⟩⟩

theorem changes_renameSteps_eq (d : Document) (id : CellId) (old new : String) :
    d.begin.changes (d.renameSteps id old new) =
      (d.renamedExpressions id old new).foldl
      (fun p r => p.change r.1 (Cell.updateExpression d.engine r.2))
        (d.begin.change id (Cell.rename new)) := by
  rw [Progress.changes, renameSteps, List.foldl_cons, List.foldl_map]

theorem renameCell_of_renamable (hc : d.cell? id = some c) (h : d.Renamable id name) :
    d.renameCell id name = .ok (d.begin.changes (d.renameSteps id c.name name)).flush := by
  obtain ⟨c', hc', hname, hvalid, hnamed⟩ := h
  rw [hc, Option.some.injEq] at hc'
  subst hc'
  rw [changes_renameSteps_eq]
  unfold renameCell find
  simp only [hc, hname, hvalid, hnamed, bind, Except.bind, pure, Except.pure, if_false,
    Bool.not_true, Bool.false_eq_true, Option.any_none]

/-- **The changes of a rename replace all cells by their renamed forms.** One of the events asks for
a pass exactly where some expression refers to the cell. -/
theorem Valid.changes_renameSteps (hd : d.Valid) (hc : d.cell? id = some c)
    (hname : c.name ≠ name) :
    let p := d.begin.changes (d.renameSteps id c.name name)
    { p.document with inbox := [] } = d.renameCells id c.name name ∧
      (p.document.inbox.any (fun e => e.2.requiresRecompute) = true ↔ ∃ b, d.Reads id b) := by
  obtain ⟨hkeyed, hlistens, ⟨events, hdocument, hevents⟩, hcell⟩ := hd.change_rename hc hname
  obtain ⟨events', hdocument', hevents'⟩ := foldl_updateExpression d.engine
    hd.keyed.nodup_renamedExpressions hkeyed hlistens fun r hr => by
      obtain ⟨c', hc', hrefers, -⟩ := hd.keyed.mem_renamedExpressions.mp hr
      have hinput := hd.input_of_refers hc' hrefers
      by_cases hr1 : r.1 = id
      · rw [hr1, hc, Option.some.injEq] at hc'
        subst hc'
        exact ⟨_, (hcell r.1).trans (if_pos hr1), hinput⟩
      · exact ⟨c', (hcell r.1).trans ((if_neg hr1).trans hc'), hinput⟩
  intro p
  have hp : p.document = { d.renameCells id c.name name with inbox := events ++ events' } := by
    show (d.begin.changes (d.renameSteps id c.name name)).document = _
    rw [changes_renameSteps_eq, hdocument', hdocument]
    simp only [hd.keyed.map_recompiled hc]
    rfl
  constructor
  · rw [hp, ← hd.inbox]
    rfl
  · rw [hp, List.any_append, hevents, hevents', Bool.false_or, Bool.not_eq_true',
      hd.keyed.renamedExpressions_isEmpty]

/-- **A rename makes a pass where some expression refers to the cell.** -/
theorem Valid.renameCell_spec (hd : d.Valid) (hc : d.cell? id = some c) (h : d.Renamable id name) :
    ∃ p, d.renameCell id name = .ok p ∧
      ((∃ b, d.Reads id b) → p.document = (d.renameCells id c.name name).recompute) ∧
      ((∀ b, ¬ d.Reads id b) → p.document = d.renameCells id c.name name) := by
  have hok := renameCell_of_renamable hc h
  obtain ⟨c', hc', hname, -⟩ := h
  rw [hc, Option.some.injEq] at hc'
  subst hc'
  obtain ⟨hcleared, hinbox⟩ := hd.changes_renameSteps hc hname
  refine ⟨_, hok, fun hreads => ?_, fun hreads => ?_⟩
  · rw [document_flush, if_pos (hinbox.mpr hreads), hcleared]
  · rw [document_flush, if_neg (hinbox.not.mpr (not_exists.mpr hreads)), hcleared]

end FormulaSheet.Document
