import FormulaSheet.Proofs.Document.Meaning
import FormulaSheet.Proofs.Document.Run

/-!
# Tidy documents

A cell has each of its tags once, and where passes do not evaluate it, because it has an
input or its expression has offenses, no error of an evaluation stays behind. Operations keep
this (`Reachable.tidy`).
-/

namespace FormulaSheet

namespace Cell

variable {c c' : Cell} {eng : Engine}

/-- The cell has each tag once, and no error of an evaluation where passes do not evaluate it. -/
structure Tidy (c : Cell) : Prop where
  tags : c.tags.Nodup
  evalError : c.input?.isSome = true ∨ c.isSafe = false → c.evalError? = none

theorem evalError_compile (eng : Engine) (c : Cell) (s : String) :
    (c.compile eng s).evalError? = none := by
  unfold compile
  split <;> rfl

theorem tags_create (eng : Engine) (id : CellId) (o : CellOptions) :
    (create eng id o).tags = o.tags.foldl addNew [] := by
  unfold create
  split
  · rfl
  · rw [tags_compile]

theorem Tidy.congr (h : c.Tidy) (htags : c'.tags = c.tags) (hinput : c'.input? = c.input?)
    (hoffenses : c'.offenses = c.offenses) (hevalError : c'.evalError? = c.evalError?) :
    c'.Tidy := by
  constructor
  · rw [htags]
    exact h.tags
  · rw [hinput, isSafe, hoffenses, hevalError]
    exact h.evalError

theorem Tidy.compile (h : c.Tidy) (s : String) : (c.compile eng s).Tidy := by
  constructor
  · rw [tags_compile]
    exact h.tags
  · intro _
    exact evalError_compile eng c s

theorem tidy_create (eng : Engine) (id : CellId) (o : CellOptions) : (create eng id o).Tidy := by
  have htags : (o.tags.foldl addNew []).Nodup := nodup_foldl_addNew List.nodup_nil o.tags
  unfold create
  split
  · exact ⟨htags, fun _ => rfl⟩
  · apply Tidy.compile
    exact ⟨htags, fun _ => rfl⟩

end Cell

namespace Document

variable {d d' : Document} {id : CellId} {c : Cell} {op : Operation} {f : Cell → Change}

def Tidy (d : Document) : Prop := ∀ p ∈ d.cells, p.2.Tidy

/-! ### Changes and edits -/

theorem Operation.nodup_tags {eng : Engine} (h : op.change? eng = some (id, f))
    (hc : c.tags.Nodup) : (f c).cell.tags.Nodup := by
  have hupdate : ∀ source, (c.updateExpression eng source).cell.tags.Nodup := by
    intro source
    unfold Cell.updateExpression
    split
    · exact hc
    · show (c.compile eng source).tags.Nodup
      rw [Cell.tags_compile]
      exact hc
  cases op <;> simp only [Operation.change?, reduceCtorEq, Option.some.injEq, Prod.mk.injEq] at h
  all_goals obtain ⟨rfl, rfl⟩ := h
  case updateExpression source => exact hupdate source
  case transformExpression g => exact hupdate (g c.expression)
  case setInput => exact hc
  case clearInput =>
    unfold Cell.clearInput
    split <;> exact hc
  case setValue => exact hc
  case setInputValue =>
    dsimp only
    split <;> exact hc
  case setTags tags => exact nodup_foldl_addNew List.nodup_nil tags
  case addTag tag =>
    have hadd := nodup_addNew hc tag
    unfold addNew at hadd
    unfold Cell.addTag
    split
    · exact hc
    · rename_i hnew
      rw [if_neg hnew] at hadd
      exact hadd
  case removeTag tag =>
    unfold Cell.removeTag
    split
    · exact hc.filter _
    · exact hc

theorem Operation.Makes.evalError {eng : Engine} {c' : Cell} (h : op.Makes eng c c') (hc : c.Tidy)
    (hskip : c'.input?.isSome = true ∨ c'.isSafe = false) : c'.evalError? = none := by
  cases h with
  | compiled op hinput source => exact Cell.evalError_compile eng c source
  | emptied => rfl
  | _ => exact hc.evalError hskip

theorem Operation.tidy {eng : Engine} (h : op.change? eng = some (id, f)) (hc : c.Tidy) :
    (f c).cell.Tidy :=
  ⟨Operation.nodup_tags h hc.tags, (Operation.makes_of_change? h c).evalError hc⟩

theorem Tidy.insertNew (h : d.Tidy) (id : CellId) (o : CellOptions) : (d.insertNew id o).Tidy :=
  forall_cells_insertNew h ((Cell.tidy_create d.engine id o).congr rfl rfl rfl rfl)

theorem Tidy.edit (h : d.Tidy) (op : Operation) : (d.edit op).Tidy :=
  forall_cells_edit h (Cell.tidy_create d.engine) (fun hchange _ hc => Operation.tidy hchange hc)
    (fun _ _ hc => hc.congr rfl rfl rfl rfl) (fun source hc => hc.compile source)

/-! ### Passes -/

/-- A cell that reads nothing is not behind a cycle. -/
theorem not_behindCycle_of_reads_nothing (hc : d.cell? id = some c)
    (h : c.dependencies d.engine = []) : ¬ d.BehindCycle id := by
  have hreads : ∀ a, ¬ d.Reads a id := by
    rintro a ⟨c', hc', n, hn, -⟩
    rw [hc, Option.some.injEq] at hc'
    subst hc'
    rw [h] at hn
    cases hn
  rintro ⟨a, hcycle, hpath⟩
  rcases Relation.ReflTransGen.cases_tail hpath with heq | ⟨b, -, hb⟩
  · subst heq
    obtain ⟨b, -, hb⟩ := Relation.TransGen.tail'_iff.mp hcycle
    exact hreads b hb
  · exact hreads b hb

theorem Valid.not_mem_blocked_of_input (hd : d.Valid) (hc : d.cell? id = some c)
    (hinput : c.input? ≠ none) : id ∉ d.buildGraph.order.blocked := by
  rw [hd.keyed.mem_blocked_buildGraph hc]
  exact not_behindCycle_of_reads_nothing hc ((hd.faithful_of_cell? hc).dependencies_of_input hinput)

/-- Cells with an input and cells with offenses keep the results they have. -/
theorem Valid.verdict_of_skipped (hd : d.Valid) (hc : d.cell? id = some c)
    (hskip : c.input?.isSome = true ∨ c.isSafe = false) : d.recompute.verdict c = c.result := by
  have hid : c.id = id := hd.keyed.id_of_cell? hc
  rw [verdict, hid, hd.keyed.recompute_spec.2.1]
  rcases hskip with hinput | hoffends
  · have hne : c.input? ≠ none := Option.isSome_iff_ne_none.mp hinput
    rw [if_neg (hd.not_mem_blocked_of_input hc hne)]
    simp [outcome, hinput]
  · simp [blockedOutcome, outcome, hoffends]

theorem Tidy.recompute (h : d.Tidy) (hd : d.Valid) : d.recompute.Tidy := by
  obtain ⟨hshape, -, hcells, -⟩ := hd.keyed.recompute_spec
  intro p hp
  have hcell' := (hshape.keyed hd.keyed).cell?_of_mem hp
  obtain ⟨r, hcell⟩ := hshape.symm.cell? hcell'
  have htidy := h _ (mem_of_cell? hcell)
  constructor
  · exact htidy.tags
  · intro hskip
    have hresult := hcells p.1 _ hcell
    rw [hd.verdict_of_skipped hcell hskip, Cell.withResult_result, hcell',
      Option.some.injEq] at hresult
    rw [hresult]
    exact htidy.evalError hskip

/-! ### Runs -/

theorem tidy_create (eng : Engine) (context : Fields Value) : (create eng context).Tidy := by
  intro p hp
  cases hp

theorem Tidy.withRegistry (h : d.Tidy) (r : Registry) : (d.withRegistry r).Tidy := h

/-- **Operations keep all cells tidy.** -/
theorem Reachable.tidy (h : d.Reachable) : d.Tidy :=
  h.induct tidy_create (fun _ htidy _ o => htidy.insertNew _ o) (fun _ htidy op => htidy.edit op)
    (fun hd htidy => htidy.recompute hd) fun htidy _ _ => htidy.withRegistry _

theorem Initial.tidy (h : Initial d) : d.Tidy := h.reachable.tidy

end Document

end FormulaSheet
