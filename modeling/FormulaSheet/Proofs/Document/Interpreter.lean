import FormulaSheet.Proofs.Document.Pass

/-!
# The evaluations of a pass

A pass as a program of any monad, with the evaluation of expressions as a step that can do more than
evaluate. Whatever is done for a cell when its expression is evaluated, a pass does once for each of
the cells that are `interpreted`, in their order, and it leaves the same document
(`Keyed.recomputeWith_noting`). So these are the cells that are found in the notes of a pass which
writes down what it evaluates (`Keyed.run_recomputeWith_noting`).
-/

namespace FormulaSheet

variable {m : Type → Type} [Monad m]

/-- How the expression of a cell is evaluated with an engine in a scope, as a step of a program. -/
abbrev Interpreter (m : Type → Type) := Engine → Scope → Cell → m (Except FormulaError Value)

/-- The evaluation of the engine, for which something is done first. -/
def Interpreter.noting (note : CellId → m Unit) : Interpreter m := fun eng scope c => do
  note c.id
  return eng.eval scope c.expr

/-- `Cell.evaluate` with an interpreter. -/
def Cell.evaluateWith (interpret : Interpreter m) (eng : Engine) (scope : Scope) (c : Cell) :
    m (Except FormulaError Value × Cell) :=
  if c.input?.isSome then pure (.ok c.value, c)
  else
    let c := { c with evalError? := none }
    if c.compileError?.isSome then pure (.ok .absent, { c with value := .absent })
    else do
      match ← interpret eng scope c with
      | .ok v => return (.ok v, { c with value := v })
      | .error e => return (.error e, c)

namespace Document

/-- `visitOrdered` with an interpreter. -/
def visitOrderedWith (interpret : Interpreter m) (d : Document) (id : CellId) : m Document :=
  match d.cell? id with
  | none => pure d
  | some c =>
    if !c.isSafe || c.input?.isSome then pure d
    else match d.scopeOf? c with
      | none =>
        let d := d.putCell (c.setComputed .absent)
        pure { d with stats := { d.stats with absent := d.stats.absent + 1 } }
      | some scope => do
        let d := { d with stats := { d.stats with evaluated := d.stats.evaluated + 1 } }
        match ← c.evaluateWith interpret d.engine scope with
        | (.ok _, c) => return d.putCell c
        | (.error e, c) => return d.putCell (c.fail e)

/-- `recompute` with an interpreter. -/
def recomputeWith (interpret : Interpreter m) (d : Document) : m Document := do
  let d := { d with graph := d.buildGraph, stats := ⟨0, 0, 0, 0⟩ }
  let order := d.graph.order
  let d := order.blocked.foldl visitBlocked d
  let d ← order.ordered.foldlM (visitOrderedWith interpret) d
  return { d with stats := { d.stats with errors := d.errorCount } }

variable {d : Document} {id : CellId} {c : Cell} [LawfulMonad m]

/-! ### Steps -/

theorem evaluateWith_noting (note : CellId → m Unit) (eng : Engine) (scope : Scope)
    (hinput : c.input?.isSome = false) :
    c.evaluateWith (.noting note) eng scope = do
      forM (if c.compileError?.isNone then [c.id] else []) note
      return c.evaluate eng scope := by
  simp only [Cell.evaluateWith, Cell.evaluate, Interpreter.noting, hinput,
    Bool.false_eq_true, if_false]
  cases hcompile : c.compileError? with
  | some e => simp
  | none => cases eng.eval scope c.expr <;> simp

/-- A visit does what is to be done for a cell if it runs the interpreter on the expression. -/
theorem Keyed.visitOrderedWith_noting (hd : d.Keyed) (note : CellId → m Unit) (id : CellId) :
    d.visitOrderedWith (.noting note) id = do
      forM (if (d.cell? id).any d.interprets then [id] else []) note
      return d.visitOrdered id := by
  unfold visitOrderedWith Document.visitOrdered
  cases hc : d.cell? id with
  | none => simp
  | some c =>
    dsimp only
    by_cases hskip : (!c.isSafe || c.input?.isSome) = true
    · have hnot : d.interprets c = false := by
        rw [← Bool.not_eq_true, interprets]
        simp only [Bool.and_eq_true, Option.isNone_iff_eq_none]
        rintro ⟨⟨⟨hsafe, hinput⟩, -⟩, -⟩
        rw [hsafe, hinput] at hskip
        cases hskip
      rw [if_pos hskip, if_pos hskip, Option.any_some, hnot]
      simp
    · rw [if_neg hskip, if_neg hskip]
      obtain ⟨hoffends, hinput⟩ := Bool.or_eq_false_iff.mp (Bool.eq_false_iff.mpr hskip)
      have hsafe : c.isSafe = true := by simpa using hoffends
      cases hscope : d.scopeOf? c with
      | none => simp [interprets, hscope]
      | some scope =>
        have hinterprets : d.interprets c = c.compileError?.isNone := by
          have hnone : c.input?.isNone = true := by simpa using hinput
          rw [interprets, hsafe, hnone, hscope, Option.isSome_some, Bool.and_true, Bool.true_and,
            Bool.true_and]
        dsimp only
        rw [evaluateWith_noting note d.engine scope hinput, Option.any_some, hinterprets,
          hd.id_of_cell? hc, bind_assoc, pure_bind]
        cases c.evaluate d.engine scope with
        | mk r c' => cases r <;> rfl

/-! ### Passes -/

/-- Visiting cells does what is to be done for those that are interpreted, in their order. -/
theorem Keyed.foldlM_visitOrderedWith_noting (hd : d.Keyed) (note : CellId → m Unit)
    (ids : List CellId) : ids.foldlM (visitOrderedWith (.noting note)) d = do
      forM (d.interpretedBy ids) note
      return ids.foldl Document.visitOrdered d := by
  induction ids generalizing d with
  | nil => simp [interpretedBy]
  | cons id ids ih =>
    rw [List.foldlM_cons, hd.visitOrderedWith_noting note id, bind_assoc, interpretedBy,
      List.forM_append, bind_assoc]
    refine bind_congr fun _ => ?_
    rw [pure_bind, ih ((hd.sameShape_visitOrdered id).keyed hd), List.foldl_cons]

/-- **A pass evaluates the expressions of the cells that are interpreted**, each once and in their
order, and of no others. -/
theorem Keyed.recomputeWith_noting (hd : d.Keyed) (note : CellId → m Unit) :
    d.recomputeWith (.noting note) = do
      forM d.interpreted note
      return d.recompute := by
  have hshape : d.SameShape { d with graph := d.buildGraph, stats := ⟨0, 0, 0, 0⟩ } :=
    ⟨rfl, rfl, rfl, rfl, rfl, rfl⟩
  have hkeyed := hshape.keyed hd
  have hblocked := hkeyed.sameShape_foldl Keyed.sameShape_visitBlocked d.buildGraph.order.blocked
  have hpass :=
    (hblocked.keyed hkeyed).foldlM_visitOrderedWith_noting note d.buildGraph.order.ordered
  rw [recomputeWith]
  dsimp only
  rw [hpass, bind_assoc]
  refine bind_congr fun _ => ?_
  rw [pure_bind]
  rfl

/-- A pass that writes down which cells it evaluates has written down those that are interpreted. -/
theorem Keyed.run_recomputeWith_noting (hd : d.Keyed) (notes : List CellId) :
    (d.recomputeWith
        (.noting fun id => modify (· ++ [id]) : Interpreter (StateM (List CellId)))).run notes =
      (d.recompute, notes ++ d.interpreted) := by
  have hnotes : ∀ ids notes : List CellId,
      (forM ids fun id => modify (· ++ [id]) : StateM (List CellId) Unit).run notes =
        ((), notes ++ ids) := by
    intro ids
    induction ids with
    | nil =>
      intro notes
      rw [List.append_nil]
      rfl
    | cons id ids ih =>
      intro notes
      rw [List.forM_cons, List.append_cons]
      exact ih (notes ++ [id])
  rw [hd.recomputeWith_noting, StateT.run_bind, hnotes]
  rfl

end Document

end FormulaSheet
