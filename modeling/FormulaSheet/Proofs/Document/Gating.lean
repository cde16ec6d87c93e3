import FormulaSheet.Proofs.Document.Fresh
import FormulaSheet.Proofs.Document.Meaning

/-!
# Gating of cells with offenses

A document is gated if every cell with offenses is without a value and shows the names it may not
use, and every cell that reads such a cell is without a value too (`Gated`). Reading an expression
with offenses clears the cell, and passes skip the cell from then on. Two operations break this:
giving such a cell a value directly, and renaming such a cell, to which no expression refers, so
that it takes a name that a cell with a value reads. All other operations keep a document gated
(`Valid.gated_step_iff`), so a run stays gated exactly as long as neither of the two occurs in it
(`Initial.gated_along_iff`). What the functions of the expressions return does not enter into this
(`gated_withRegistry_iff`).
-/

namespace FormulaSheet.Document

variable {d d' : Document} {id : CellId} {c : Cell} {op : Operation} {ops : List Operation}

/-- Cells with offenses have no value and show the names they may not use, and cells that
read them have no value. -/
structure Gated (d : Document) : Prop where
  cleared : ∀ id c, d.cell? id = some c → c.isSafe = false →
    c.value = .absent ∧ ∃ names, c.error? = some (.disallowed names)
  readers : ∀ b c n a ca, d.cell? b = some c → c.isSafe = true → c.input? = none →
    n ∈ c.dependencies d.engine → d.resolve? n = some a → d.cell? a = some ca → ca.isSafe = false →
    c.value = .absent

/-- Cells with offenses have no value. -/
def Cleared (d : Document) : Prop :=
  ∀ p ∈ d.cells, p.2.isSafe = false → p.2.value = .absent

/-- The operation gives a value to a cell with offenses. -/
def AssignsOffender (d : Document) (op : Operation) : Prop :=
  ∃ id v c, op = .setValue id v ∧ d.cell? id = some c ∧ c.isSafe = false ∧ v ≠ .absent

/-- The operation renames a cell with offenses to which no expression refers, and after it a cell
without offenses that has a value reads it. -/
def ExposesOffender (d : Document) (op : Operation) : Prop :=
  ∃ id name ca, op = .renameCell id name ∧ d.cell? id = some ca ∧ ca.isSafe = false ∧
    (∀ b, ¬ d.Reads id b) ∧
    ∃ b c, d.cell? b = some c ∧ c.isSafe = true ∧ c.value ≠ .absent ∧ (d.step op).Reads id b

theorem Gated.cleared_cells (h : d.Gated) (hd : d.Keyed) : d.Cleared :=
  fun p hp hoffends => (h.cleared p.1 p.2 (hd.cell?_of_mem hp) hoffends).1

/-! ### Passes -/

theorem Cleared.of_sameShape (h : d.Cleared) (hd : d.Keyed) (hshape : d.SameShape d')
    (hkept : ∀ id c c', d.cell? id = some c → d'.cell? id = some c' → c.isSafe = false →
      c'.value = c.value) : d'.Cleared := by
  intro p hp hoffends
  have hcell' := (hshape.keyed hd).cell?_of_mem hp
  obtain ⟨r, hcell⟩ := hshape.symm.cell? hcell'
  rw [hkept p.1 _ p.2 hcell hcell' hoffends]
  exact h _ (mem_of_cell? hcell) hoffends

/-- A pass keeps the values of cells with offenses. -/
theorem Keyed.value_recompute (hd : d.Keyed) (hc : d.cell? id = some c)
    (hoffends : c.isSafe = false) {c' : Cell} (hc' : d.recompute.cell? id = some c') :
    c'.value = c.value := by
  obtain ⟨-, -, hcells, -⟩ := hd.recompute_spec
  have hverdict : d.recompute.verdict c = c.result := by
    simp [verdict, blockedOutcome, outcome, hoffends]
  have hcell := hcells id c hc
  rw [hverdict, Cell.withResult_result, hc', Option.some.injEq] at hcell
  rw [hcell]

theorem Keyed.cleared_recompute_iff (hd : d.Keyed) : d.recompute.Cleared ↔ d.Cleared := by
  have hshape := hd.recompute_spec.1
  constructor
  · intro h
    refine h.of_sameShape (hshape.keyed hd) hshape.symm fun id c c' hc hc' hoffends => ?_
    obtain ⟨r, hr⟩ := hshape.symm.cell? hc
    rw [hc', Option.some.injEq] at hr
    have hoffends' : c'.isSafe = false := by
      rw [hr]
      exact hoffends
    exact (hd.value_recompute hc' hoffends' hc).symm
  · intro h
    exact h.of_sameShape hd hshape fun id c c' hc hc' hoffends => hd.value_recompute hc hoffends hc'

/-- In a settled document all that reads a cell without a value has none itself. -/
theorem Settled.gated (h : d.Settled) (hd : d.Valid) (hcleared : d.Cleared) : d.Gated := by
  constructor
  · intro id c hc hoffends
    exact ⟨hcleared _ (mem_of_cell? hc) hoffends, _,
      (hd.faithful_of_cell? hc).error_of_not_safe hoffends⟩
  · intro b c n a ca hc hsafe hinput hn ha hca hoffends
    have hvalue : c.value = (d.verdict c).1 := congrArg Prod.fst (h.results b c hc)
    rw [hvalue, verdict]
    split
    · simp only [blockedOutcome, hsafe]
      split
      · rename_i hfalse
        cases hfalse
      · split <;> rfl
    · have hlacks : d.Lacks c := by
        refine ⟨n, hn, Or.inr ?_⟩
        rw [valueOf?, ha, Option.bind_some, hca]
        exact congrArg some (hcleared _ (mem_of_cell? hca) hoffends)
      rw [outcome_of_not_evaluated hsafe hinput (Or.inl hlacks)]

theorem Valid.gated_recompute_iff (hd : d.Valid) : d.recompute.Gated ↔ d.Cleared := by
  rw [← hd.keyed.cleared_recompute_iff]
  exact ⟨fun h => h.cleared_cells hd.recompute.keyed,
    fun h => hd.keyed.settled_recompute.gated hd.recompute h⟩

/-! ### Edits -/

/-- A change of a cell leaves it without a value where its expression has offenses, unless the
change is a direct assignment. -/
theorem Operation.Makes.value_eq {eng : Engine} {c' : Cell} (h : op.Makes eng c c')
    (hfaithful : c.Faithful eng) (hc : c.isSafe = false → c.value = .absent)
    (hassign : ∀ id v, op = .setValue id v → v = .absent ∨ c.isSafe = true)
    (hoffends : c'.isSafe = false) : c'.value = .absent := by
  cases h with
  | kept => exact hc hoffends
  | compiled => exact Cell.value_compile_of_not_safe hoffends
  | emptied => cases hoffends
  | assigned id v =>
    rcases hassign id v rfl with rfl | hsafe
    · rfl
    · exact absurd (hoffends.symm.trans hsafe) Bool.false_ne_true
  | entered op hinput v =>
    have hoffenses : c.isSafe = true := congrArg List.isEmpty (hfaithful.of_input hinput).2.1
    exact absurd (hoffends.symm.trans hoffenses) Bool.false_ne_true
  | tagged => exact hc hoffends

theorem value_create_of_not_safe {eng : Engine} {o : CellOptions}
    (hoffends : (Cell.create eng id o).isSafe = false) :
    (Cell.create eng id o).value = .absent := by
  unfold Cell.create at hoffends ⊢
  split at hoffends
  · cases hoffends
  · exact Cell.value_compile_of_not_safe hoffends

theorem Cleared.insertNew (h : d.Cleared) (id : CellId) (o : CellOptions) :
    (d.insertNew id o).Cleared :=
  forall_cells_insertNew (P := fun c => c.isSafe = false → c.value = .absent)
    h value_create_of_not_safe

/-- **An edit leaves cells with offenses without a value, unless it gives one a value.** -/
theorem Valid.cleared_edit (hd : d.Valid) (h : d.Cleared) (hassign : ¬ AssignsOffender d op) :
    (d.edit op).Cleared := by
  apply forall_cells_edit (P := fun c => c.isSafe = false → c.value = .absent) h
  case hcreate => exact fun _ _ => value_create_of_not_safe
  case hkeep => exact fun _ _ hc => hc
  case hcompile => exact fun _ _ => Cell.value_compile_of_not_safe
  case hchange =>
    intro id f c hchange hc hcleared
    apply (Operation.makes_of_change? hchange c).value_eq (hd.faithful_of_cell? hc) hcleared
    intro id' v hop
    subst hop
    obtain ⟨rfl, -⟩ := Prod.mk.inj (Option.some.inj hchange)
    by_contra hno
    rw [not_or, Bool.not_eq_true] at hno
    exact hassign ⟨id', v, c, rfl, hc, hno.2, hno.1⟩

/-- A value that a cell with offenses is given stays there. -/
theorem not_cleared_edit (h : AssignsOffender d op) : MakesPass d op ∧ ¬ (d.edit op).Cleared := by
  obtain ⟨id, v, c, rfl, hc, hoffends, hv⟩ := h
  obtain ⟨hedit, hpass⟩ := edit_of_change?
    (show Operation.change? d.engine (.setValue id v) = some (id, Cell.setValue v) from rfl)
  refine ⟨hpass.mpr ⟨c, hc, rfl⟩, fun hcleared => ?_⟩
  rw [hedit, hc] at hcleared
  have hcell : (d.putCell (c.setValue v).cell).cell? c.id = some (c.setValue v).cell :=
    (cell?_putCell d (c.setValue v).cell c.id).trans (if_pos rfl)
  exact hv (hcleared _ (mem_of_cell? hcell) hoffends)

/-! ### Operations without a pass -/

theorem Quiet.cleared (h : d.Quiet d') (hcleared : d.Cleared) (hd' : d'.Keyed) : d'.Cleared := by
  intro p hp hoffends
  obtain ⟨c, hc, hcore⟩ := h.symm.cell? (hd'.cell?_of_mem hp)
  have hoffends' : c.isSafe = false := by
    rw [← hoffends]
    exact (congrArg Cell.isSafe hcore : _)
  rw [← value_of_core hcore]
  exact hcleared _ (mem_of_cell? hc) hoffends'

/-- Without a pass a gated document stays gated as long as no cell with a value comes to
read a cell with offenses. -/
theorem Quiet.gated (h : d.Quiet d') (hg : d.Gated) (hd : d.Keyed) (hd' : d'.Valid)
    (hreads : ∀ b c n a ca, d.cell? b = some c → c.isSafe = true → c.value ≠ .absent →
      n ∈ c.dependencies d.engine → d.cell? a = some ca → ca.isSafe = false →
      d'.resolve? n = some a → d.resolve? n = some a) : d'.Gated := by
  have hsafe : ∀ {c c' : Cell}, c'.core = c.core → c'.isSafe = c.isSafe :=
    fun hcore => (congrArg Cell.isSafe hcore : _)
  constructor
  · intro id c' hc' hoffends
    exact ⟨h.cleared (hg.cleared_cells hd) hd'.keyed _ (mem_of_cell? hc') hoffends, _,
      (hd'.faithful_of_cell? hc').error_of_not_safe hoffends⟩
  · intro b c' n a ca' hc' hsafe' hinput hn ha hca' hoffends
    obtain ⟨c, hc, hcore⟩ := h.symm.cell? hc'
    obtain ⟨ca, hca, hcore_a⟩ := h.symm.cell? hca'
    rw [h.engine, ← dependencies_of_core hcore] at hn
    rw [← hsafe hcore] at hsafe'
    rw [← hsafe hcore_a] at hoffends
    rw [← show c.input? = c'.input? from (congrArg Cell.input? hcore : _)] at hinput
    rw [← value_of_core hcore]
    by_contra hvalue
    exact hvalue (hg.readers b c n a ca hc hsafe' hinput hn
      (hreads b c n a ca hc hsafe' hvalue hn hca hoffends ha) hca hoffends)

/-- **Which operations keep a document gated:** all but the assignment of a value to a cell with
offenses and a rename that lets a cell with a value read one. -/
theorem Valid.gated_step_iff (hd : d.Valid) (hg : d.Gated) (op : Operation) :
    (d.step op).Gated ↔ ¬ AssignsOffender d op ∧ ¬ ExposesOffender d op := by
  have hcleared : d.Cleared := hg.cleared_cells hd.keyed
  by_cases hpass : MakesPass d op
  · have hexposes : ¬ ExposesOffender d op := by
      rintro ⟨id, name, ca, rfl, -, -, hreads, -⟩
      obtain ⟨-, b, hb⟩ := hpass
      exact hreads b hb
    rw [(hd.step_eq op).1 hpass, (hd.edit op).gated_recompute_iff]
    refine ⟨fun h => ⟨fun hassign => (not_cleared_edit hassign).2 h, hexposes⟩, fun h => ?_⟩
    exact hd.cleared_edit hcleared h.1
  · have hassign : ¬ AssignsOffender d op := fun h => hpass (not_cleared_edit h).1
    have hstep := (hd.step_eq op).2 hpass
    have hd' : (d.step op).Valid := hd.step op
    refine ⟨fun h => ⟨hassign, ?_⟩, fun ⟨_, hexposes⟩ => ?_⟩
    · -- what comes to read the cell would have to be without a value
      rintro ⟨id, name, ca, rfl, hca, hoffends, hreads, b, c, hc, hsafe, hvalue, hafter⟩
      obtain ⟨hquiet, -⟩ := hd.quiet_edit hpass
      rw [← hstep] at hquiet
      obtain ⟨c', hc', n, hn, ha⟩ := hafter
      obtain ⟨c₀, hc₀, hcore⟩ := hquiet.symm.cell? hc'
      rw [hc, Option.some.injEq] at hc₀
      subst hc₀
      obtain ⟨ca', hca', hcore_a⟩ := hquiet.cell? hca
      have hsafe' : c'.isSafe = true := by
        rw [← hsafe]
        exact (congrArg Cell.isSafe hcore.symm : _)
      have hoffends' : ca'.isSafe = false := by
        rw [← hoffends]
        exact (congrArg Cell.isSafe hcore_a : _)
      have hinput : c'.input? = none := by
        by_contra hsome
        rw [(hd'.faithful_of_cell? hc').dependencies_of_input hsome] at hn
        cases hn
      have habsent := h.readers b c' n id ca' hc' hsafe' hinput hn ha hca' hoffends'
      rw [← value_of_core hcore] at habsent
      exact hvalue habsent
    · obtain ⟨hquiet, hnames | ⟨id, new, -, rfl, -, hren, hreads, -⟩⟩ := hd.quiet_edit hpass
      · rw [← hstep] at hquiet hnames
        refine hquiet.gated hg hd.keyed hd' fun b c n a ca _ _ _ _ _ _ ha => ?_
        rw [← ha, resolve?_congr hnames]
      · obtain ⟨hquiet, hnames, hid, hnew⟩ := hd.step_rename hren hreads
        refine hquiet.gated hg hd.keyed hd' fun b c n a ca hc hsafe hvalue hn hca hoffends ha => ?_
        have hne : d.resolve? n ≠ some id := fun he => hreads b ⟨c, hc, n, hn, he⟩
        have hformula := resolve?_renamed hnames hid hnew hne
        rw [ha] at hformula
        split at hformula
        · rw [Option.some.injEq] at hformula
          subst hformula
          exact absurd ⟨a, new, ca, rfl, hca, hoffends, hreads, b, c, hc, hsafe, hvalue,
            hquiet.reads_iff.mpr ⟨c, hc, n, hn, ha⟩⟩ hexposes
        · exact hformula.symm

/-! ### Runs -/

theorem cleared_create (eng : Engine) (context : Fields Value) : (create eng context).Cleared := by
  intro p hp
  cases hp

theorem Initial.gated (h : Initial d) : d.Gated := by
  apply h.settled.gated h.valid
  obtain ⟨eng, context, rfl⟩ | ⟨d₀, hvalid, hcleared, rfl⟩ :=
    h.cases_rows cleared_create fun _ hcleared _ o => hcleared.insertNew _ o
  · exact cleared_create eng context
  · exact hvalid.keyed.cleared_recompute_iff.mpr hcleared

/-- Whether a document is gated does not depend on its functions, so a run may go on where those
return something else. -/
theorem gated_withRegistry_iff (r : Registry) : (d.withRegistry r).Gated ↔ d.Gated :=
  ⟨fun h => ⟨h.cleared, h.readers⟩, fun h => ⟨h.cleared, h.readers⟩⟩

/-- **A run stays gated exactly as long as no operation assigns a value to a cell with offenses or
lets a cell with a value read one.** -/
theorem Initial.gated_along_iff (h : Initial d) (ops : List Operation) :
    (∀ pre post, ops = pre ++ post → (d.run pre).Gated) ↔
      ∀ pre op post, ops = pre ++ op :: post →
        ¬ AssignsOffender (d.run pre) op ∧ ¬ ExposesOffender (d.run pre) op := by
  have hstep : ∀ pre op, (d.run pre).Gated → ((d.run (pre ++ [op])).Gated ↔
      ¬ AssignsOffender (d.run pre) op ∧ ¬ ExposesOffender (d.run pre) op) := by
    intro pre op hg
    rw [run_append]
    exact (h.valid.run pre).gated_step_iff hg op
  constructor
  · intro hall pre op post heq
    refine (hstep pre op (hall pre (op :: post) heq)).mp (hall (pre ++ [op]) post ?_)
    rw [heq, List.append_assoc]
    rfl
  · intro hall pre
    induction pre using List.reverseRecOn with
    | nil => exact fun _ _ => h.gated
    | append_singleton pre op ih =>
      intro post heq
      rw [List.append_assoc] at heq
      exact (hstep pre op (ih (op :: post) heq)).mpr (hall pre op post heq)

/-- A value assigned to a cell whose expression uses a denied name. -/
theorem not_gated_along_assignment :
    ¬ ∀ pre post,
      [Operation.addCell "a" ⟨none, "x", "eval", none, []⟩, .addCell "b" ⟨none, "y", "x", none, []⟩,
        .setValue "a" .null] = pre ++ post →
      ((create ⟨⟨["eval"], []⟩, .empty, .default⟩ []).run pre).Gated := by
  intro hall
  have hinitial : Initial (create ⟨⟨["eval"], []⟩, .empty, .default⟩ []) := .create _ _
  have hkept := (hinitial.gated_along_iff _).mp hall
    [.addCell "a" ⟨none, "x", "eval", none, []⟩, .addCell "b" ⟨none, "y", "x", none, []⟩]
    (.setValue "a" .null) [] rfl
  set d := (create ⟨⟨["eval"], []⟩, .empty, .default⟩ []).run
    [.addCell "a" ⟨none, "x", "eval", none, []⟩, .addCell "b" ⟨none, "y", "x", none, []⟩]
  have hsafe : (d.cell? "a").map Cell.isSafe = some false := by decide +kernel
  obtain ⟨a, ha, hoffends⟩ := Option.map_eq_some_iff.mp hsafe
  exact hkept.1 ⟨"a", .null, a, rfl, ha, hoffends, by simp⟩

end FormulaSheet.Document
