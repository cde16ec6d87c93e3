import FormulaSheet.Proofs.Document.Run

/-!
# Operations without a pass

An operation that makes no pass leaves alone all that a pass reads and writes (`Valid.quiet_edit`),
apart from one thing: it may be the rename of a cell to which no expression refers. Such a rename
can still decide what a name refers to, because a name that referred to something else, or to
nothing, may now refer to the renamed cell (`resolve?_renamed`).
-/

namespace FormulaSheet

/-- The cell without its name, its tags and its listeners. -/
def Cell.core (c : Cell) : Cell := { c with name := "", tags := [], listeners := Listeners.empty }

namespace Document

variable {d d' : Document} {id : CellId} {c c' : Cell} {op : Operation} {n new old : String}

/-- Two documents have the same cells, apart from names, tags and listeners, and the same graph. -/
structure Quiet (d d' : Document) : Prop where
  engine : d'.engine = d.engine
  context : d'.context = d.context
  graph : d'.graph = d.graph
  cells : d'.cells.map (fun p => (p.1, p.2.core)) = d.cells.map fun p => (p.1, p.2.core)

namespace Quiet

theorem refl (d : Document) : d.Quiet d := ⟨rfl, rfl, rfl, rfl⟩

theorem symm (h : d.Quiet d') : d'.Quiet d :=
  ⟨h.engine.symm, h.context.symm, h.graph.symm, h.cells.symm⟩

theorem cell? (h : d.Quiet d') (hc : d.cell? id = some c) :
    ∃ c', d'.cell? id = some c' ∧ c'.core = c.core := by
  have hget : Fields.get? d.cells id = some c := hc
  have hmap := congrArg (fun m => Fields.get? m id) h.cells
  rw [Fields.get?_map d'.cells Cell.core, Fields.get?_map d.cells Cell.core, hget, Option.map_some,
    Option.map_eq_some_iff] at hmap
  exact hmap

theorem readNames (h : d.Quiet d') : d'.readNames = d.readNames := by
  have hmap := congrArg (List.map fun p : CellId × Cell => (p.1, p.2.dependencies d.engine)) h.cells
  rw [List.map_map, List.map_map] at hmap
  unfold Document.readNames
  rw [h.engine]
  exact hmap

end Quiet

theorem dependencies_of_core (h : c'.core = c.core) (eng : Engine) :
    c'.dependencies eng = c.dependencies eng := by
  unfold Cell.dependencies
  rw [show c'.expr = c.expr from (congrArg Cell.expr h : _)]

theorem value_of_core (h : c'.core = c.core) : c'.value = c.value := (congrArg Cell.value h : _)

theorem result_of_core (h : c'.core = c.core) : c'.result = c.result := (congrArg Cell.result h : _)

/-! ### Edits of operations without a pass -/

theorem Keyed.quiet_putCell (hd : d.Keyed) (hc : d.cell? id = some c) (hcore : c'.core = c.core) :
    d.Quiet (d.putCell c') := by
  have hid : c'.id = c.id := (congrArg Cell.id hcore : _)
  refine ⟨rfl, rfl, rfl,
    hd.map_cells_putCell hc (hid.trans (hd.id_of_cell? hc)) ?_ fun _ _ _ => rfl⟩
  rw [hcore]

theorem Keyed.names_putCell (hd : d.Keyed) (hc : d.cell? id = some c) (hid : c'.id = c.id)
    (hname : c'.name = c.name) : (d.putCell c').names = d.names := by
  refine hd.map_cells_putCell hc (hid.trans (hd.id_of_cell? hc)) ?_ fun _ _ _ => rfl
  rw [hname]

/-- A rename of a cell to which nothing refers. -/
theorem Keyed.quiet_renameCells (hd : d.Keyed) (hreads : ∀ b, ¬ d.Reads id b) (old new : String) :
    d.Quiet (d.renameCells id old new) := by
  refine ⟨rfl, rfl, rfl, ?_⟩
  rw [renameCells, List.map_map]
  refine List.map_congr_left fun p hp => ?_
  have hrefers : d.refers id p.2 = false := by
    rw [Bool.eq_false_iff]
    intro h
    exact hreads p.1 ((reads_iff_refers (hd.cell?_of_mem hp)).mpr h)
  rw [Function.comp_apply, renamedCell, hrefers]
  simp only [Bool.false_eq_true, if_false]
  split <;> rfl

theorem names_renameCells (hd : d.Keyed) (id : CellId) (old new : String) :
    (d.renameCells id old new).names = d.names.map fun p => if p.1 = id then (p.1, new) else p := by
  rw [names, names, renameCells, List.map_map, List.map_map]
  refine List.map_congr_left fun p hp => ?_
  have hid : p.2.id = p.1 := hd.id_eq p hp
  simp only [Function.comp_apply, renamedCell, hid]
  by_cases hp1 : p.1 = id
  · rw [if_pos hp1, if_pos hp1]
    split
    · rw [Cell.compile_name]
    · rfl
  · rw [if_neg hp1, if_neg hp1]
    split
    · rw [Cell.compile_name]
    · rfl

/-- **An operation without a pass leaves alone what a pass reads and writes**, and all
names, unless it is a rename. -/
theorem Valid.quiet_edit (hd : d.Valid) (h : ¬ MakesPass d op) :
    d.Quiet (d.edit op) ∧ ((d.edit op).names = d.names ∨
      ∃ id name c, op = .renameCell id name ∧ d.cell? id = some c ∧ d.Renamable id name ∧
        (∀ b, ¬ d.Reads id b) ∧ d.edit op = d.renameCells id c.name name) := by
  generalize hedit : d.edit op = d'
  cases hedit ▸ d.edits op with
  | kept => exact ⟨.refl d, Or.inl rfl⟩
  | inserted fresh o hnew => exact absurd hnew h
  | erased id hid => exact absurd hid h
  | @renamed id c name hc hrenamable =>
    have hreads : ∀ b, ¬ d.Reads id b := fun b hb => h ⟨hrenamable, b, hb⟩
    exact ⟨hd.keyed.quiet_renameCells hreads c.name name,
      Or.inr ⟨id, name, c, rfl, hc, hrenamable, hreads, rfl⟩⟩
  | @changed id c op f hchange hc =>
    have hch := Operation.of_change? hchange c
    have hevent : (f c).event?.any CellEvent.requiresRecompute = false := by
      rw [Bool.eq_false_iff]
      intro hevent
      exact h ((edit_of_change? hchange).2.mpr ⟨c, hc, hevent⟩)
    have hcore : (f c).cell.core = c.core := by
      rw [hch.quiet hevent]
      rfl
    refine ⟨hd.keyed.quiet_putCell hc hcore, Or.inl (hd.keyed.names_putCell hc hch.id ?_)⟩
    exact (Operation.makes_of_change? hchange c).name_eq
  | context => exact absurd trivial h
  | listeners => exact ⟨⟨rfl, rfl, rfl, rfl⟩, Or.inl rfl⟩
  | heard op ls hc =>
    exact ⟨hd.keyed.quiet_putCell hc rfl, Or.inl (hd.keyed.names_putCell hc rfl rfl)⟩

/-! ### What names refer to after a rename -/

section Renamed

variable (hnames : d'.names = d.names.map fun p => if p.1 = id then (p.1, new) else p)

include hnames

theorem named?_renamed_new (hid : id ∈ Fields.keys d.cells) (hnew : d.named? new = none) :
    d'.named? new = some id := by
  have hmem : id ∈ d.names.map Prod.fst := by
    rw [names, List.map_map]
    exact hid
  rw [named?_eq_find?] at hnew ⊢
  rw [hnames]
  generalize d.names = l at hnew hmem
  induction l with
  | nil => cases hmem
  | cons p l ih =>
    rw [Option.map_eq_none_iff, List.find?_cons] at hnew
    rw [List.map_cons, List.find?_cons]
    by_cases hp1 : p.1 = id
    · simp [hp1]
    · cases hp2 : p.2 == new with
      | true => simp [hp2] at hnew
      | false =>
        simp only [hp2] at hnew
        have hmem' : id ∈ l.map Prod.fst :=
          (List.mem_cons.mp hmem).resolve_left fun he => hp1 he.symm
        simp only [hp1, if_false, hp2]
        exact ih (by rw [hnew, Option.map_none]) hmem'

/-- A name other than the new one is still that of the first cell that has it, or of none. -/
theorem named?_renamed (hn : n ≠ new) (h : d.named? n ≠ some id) : d'.named? n = d.named? n := by
  rw [named?_eq_find?] at h
  rw [named?_eq_find?, named?_eq_find?, hnames]
  generalize d.names = l at h
  induction l with
  | nil => rfl
  | cons p l ih =>
    rw [List.find?_cons] at h
    rw [List.map_cons, List.find?_cons, List.find?_cons]
    by_cases hp1 : p.1 = id
    · have hnew : (new == n) = false := beq_eq_false_iff_ne.mpr (Ne.symm hn)
      cases hp2 : p.2 == n with
      | true => simp [hp2, hp1] at h
      | false =>
        simp only [hp2] at h
        simp only [hp1, if_true, hnew]
        exact ih h
    · cases hp2 : p.2 == n with
      | true => simp [hp1, hp2]
      | false =>
        simp only [hp2] at h
        simp only [hp1, if_false, hp2]
        exact ih h

/-- **What a name that does not refer to the renamed cell refers to after the rename.** It is
captured if it is the new name, or if it is the new name after a dollar sign and referred to
nothing. -/
theorem resolve?_renamed (hid : id ∈ Fields.keys d.cells) (hnew : d.named? new = none)
    (h : d.resolve? n ≠ some id) :
    d'.resolve? n =
      if n = new ∨ bareName? n = some new ∧ d.resolve? n = none then some id else d.resolve? n := by
  have hnew' := named?_renamed_new hnames hid hnew
  have hnamed : d.named? n ≠ some id := fun he => h (resolve?_eq_some_iff.mpr (Or.inl he))
  by_cases hn : n = new
  · subst hn
    rw [if_pos (Or.inl rfl), resolve?_eq_some_iff]
    exact Or.inl hnew'
  · have hsame := named?_renamed hnames hn hnamed
    cases hexact : d.named? n with
    | some a =>
      have hresolve : d.resolve? n = some a := resolve?_eq_some_iff.mpr (Or.inl hexact)
      have hno : ¬ (n = new ∨ bareName? n = some new ∧ d.resolve? n = none) := by
        rintro (he | ⟨-, he⟩)
        · exact hn he
        · rw [hresolve] at he
          cases he
      rw [if_neg hno, hresolve, resolve?_eq_some_iff, hsame]
      exact Or.inl hexact
    | none =>
      have hresolve : d.resolve? n = (bareName? n).bind d.named? := by
        rw [resolve?, hexact]
        rfl
      have hresolve' : d'.resolve? n = (bareName? n).bind d'.named? := by
        rw [resolve?, hsame, hexact]
        rfl
      rw [hresolve] at h ⊢
      rw [hresolve']
      cases hbare : bareName? n with
      | none => simp [hn]
      | some m =>
        rw [hbare, Option.bind_some] at h
        rw [Option.bind_some, Option.bind_some]
        by_cases hm : m = new
        · subst hm
          rw [hnew', if_pos (Or.inr ⟨rfl, hnew⟩)]
        · rw [named?_renamed hnames hm h, if_neg]
          rintro (he | ⟨he, -⟩)
          · exact hn he
          · exact hm (Option.some.inj he)

end Renamed

end Document

end FormulaSheet
