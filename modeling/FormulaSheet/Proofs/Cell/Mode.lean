import FormulaSheet.Cell.Memo
import FormulaSheet.Proofs.Document.Valid

/-!
# The two modes of a cell

A cell either has an input, and then nothing of an expression, or it has none, and then its
expression, the offenses and the compile error are those of its text. `MemoCell.Makes` lists what a
call can make of a cell. Each entry of the list keeps the cell faithful to its text and what it
remembers faithful to its expression (`MemoCell.Makes.sound`), so this holds after every run
(`MemoCell.sound_run`).
-/

namespace FormulaSheet

namespace CellCall

/-- The calls that are there to give a cell a value from outside. -/
def assignsValue : CellCall → Bool
  | setValue _ | setInput _ | clearInput => true
  | _ => false

def editsTags : CellCall → Bool
  | setTags _ | addTag _ | removeTag _ => true
  | _ => false

/-- The calls that replace or evaluate the expression. -/
def concernsExpression : CellCall → Bool
  | updateExpression _ | transformExpression _ | evaluate _ | settle _ => true
  | _ => false

end CellCall

namespace Cell

variable {eng : Engine} {c : Cell}

theorem updateExpression_of_input (hinput : c.input?.isSome = true) (source : String) :
    c.updateExpression eng source = c.unchanged := by
  rw [updateExpression, if_pos hinput]

theorem updateExpression_of_no_input (hinput : c.input? = none) (source : String) :
    c.updateExpression eng source = (c.compile eng source).announce .expressionChanged := by
  rw [updateExpression, hinput]
  rfl

theorem evaluate_of_input (hinput : c.input?.isSome = true) (scope : Scope) :
    c.evaluate eng scope = (.ok c.value, c) := by
  rw [evaluate, if_pos hinput]

theorem settle_of_input (hinput : c.input?.isSome = true) (scope : Scope) :
    c.settle eng scope = c := by
  rw [settle, evaluate_of_input hinput]

/-- An evaluation leaves a cell with another value and another evaluation error, if it has no
input. -/
theorem evaluate_of_no_input (eng : Engine) (hinput : c.input? = none) (scope : Scope) :
    ∃ v e?, (c.evaluate eng scope).2 = { c with value := v, evalError? := e? } := by
  rw [evaluate, hinput]
  dsimp only [Option.isSome_none]
  rw [if_neg Bool.false_ne_true]
  split
  · exact ⟨_, _, rfl⟩
  · split
    · exact ⟨_, _, rfl⟩
    · exact ⟨c.value, none, rfl⟩

theorem settle_of_no_input (eng : Engine) (hinput : c.input? = none) (scope : Scope) :
    ∃ v e?, c.settle eng scope = { c with value := v, evalError? := e? } := by
  obtain ⟨v, e?, heval⟩ := evaluate_of_no_input eng hinput scope
  unfold settle
  split
  · rename_i w c' h
    rw [h] at heval
    exact ⟨v, e?, heval⟩
  · rename_i e c' h
    rw [h] at heval
    have hc' : c' = { c with value := v, evalError? := e? } := heval
    exact ⟨.absent, some e, by rw [hc', fail]⟩

/-- What a cell with an input has in the place of an expression. -/
theorem Faithful.blank (h : c.Faithful eng) (hinput : c.input? ≠ none) :
    c.expression = "" ∧ c.expr = .empty ∧ c.offenses = [] ∧ c.compileError? = none :=
  ⟨h.input hinput, h.of_input hinput⟩

end Cell

namespace MemoCell

variable {eng : Engine} {m m' : MemoCell} {call : CellCall}

/-! ### What a call makes of a cell -/

/-- What a call can make of a cell, with all that it leaves alone. -/
inductive Makes (eng : Engine) (m : MemoCell) : CellCall → MemoCell → Prop where
  | kept (call : CellCall) : Makes eng m call m
  /-- A text is read. What was remembered of the old expression goes. -/
  | read (call : CellCall) (hinput : m.cell.input? = none) (source : String) :
      Makes eng m call ⟨m.cell.compile eng source, none⟩
  /-- An input comes or goes, and takes the expression with it. -/
  | emptied {call : CellCall} (hcall : call.assignsValue = true) (i? : Option Input) (v : Value) :
      Makes eng m call ⟨{ m.cell.clearExpression with input? := i?, value := v }, none⟩
  | assigned (v : Value) : Makes eng m (.setValue v) ⟨{ m.cell with value := v }, m.names?⟩
  | evaluated (call : CellCall) (hinput : m.cell.input? = none) (v : Value)
      (e? : Option FormulaError) :
      Makes eng m call ⟨{ m.cell with value := v, evalError? := e? }, m.names?⟩
  | renamed (call : CellCall) (name : String) :
      Makes eng m call ⟨{ m.cell with name := name }, m.names?⟩
  | tagged {call : CellCall} (hcall : call.editsTags = true) (tags : List String) :
      Makes eng m call ⟨{ m.cell with tags := tags }, m.names?⟩
  | heard (call : CellCall) (listeners : Listeners) :
      Makes eng m call ⟨{ m.cell with listeners := listeners }, m.names?⟩
  | asked : Makes eng m .dependencies ⟨m.cell, some (m.dependencies eng)⟩

/-- Where the expression stays, the cell remembers what it remembered. -/
theorem perform_eq_of_not_replaces (hcall : call.replacesExpression m.cell = false)
    (hasked : call ≠ .dependencies) :
    m.perform eng call = ⟨(call.change eng m.cell).cell, m.names?⟩ := by
  unfold perform
  split
  · exact absurd rfl hasked
  · rw [hcall]
    rfl

theorem perform_eq_of_replaces (hcall : call.replacesExpression m.cell = true) :
    m.perform eng call = ⟨(call.change eng m.cell).cell, none⟩ := by
  unfold perform
  split
  · cases hcall
  · rw [if_pos hcall]

theorem perform_updateExpression (eng : Engine) (m : MemoCell) (source : String) :
    m.perform eng (.updateExpression source) =
      if m.cell.input?.isSome then m else ⟨m.cell.compile eng source, none⟩ := by
  cases hinput : m.cell.input? with
  | none =>
    rw [perform_eq_of_replaces (by simp [CellCall.replacesExpression, hinput]), CellCall.change,
      Cell.updateExpression_of_no_input hinput]
    rfl
  | some i =>
    rw [perform_eq_of_not_replaces (by simp [CellCall.replacesExpression, hinput]) (by simp),
      CellCall.change, Cell.updateExpression_of_input (by rw [hinput]; rfl)]
    rfl

theorem makes_updateExpression (call : CellCall) (source : String) :
    Makes eng m call (m.perform eng (.updateExpression source)) := by
  rw [perform_updateExpression]
  split
  · exact .kept call
  · rename_i hinput
    exact .read call (by simpa using hinput) source

/-- An evaluation is noticed by a cell without an input only. -/
theorem makes_evaluated (call : CellCall) {c : Cell}
    (hkept : m.cell.input?.isSome = true → c = m.cell)
    (hfound : m.cell.input? = none → ∃ v e?, c = { m.cell with value := v, evalError? := e? }) :
    Makes eng m call ⟨c, m.names?⟩ := by
  cases hinput : m.cell.input? with
  | none =>
    obtain ⟨v, e?, rfl⟩ := hfound hinput
    exact .evaluated call hinput v e?
  | some i =>
    obtain rfl := hkept (by rw [hinput]; rfl)
    exact .kept call

theorem makes_perform (eng : Engine) (m : MemoCell) (call : CellCall) :
    Makes eng m call (m.perform eng call) := by
  cases call with
  | updateExpression source => exact makes_updateExpression _ source
  | transformExpression f => exact makes_updateExpression _ (f m.cell.expression)
  | setInput i => exact .emptied rfl (some i) i.startValue
  | clearInput =>
    cases hinput : m.cell.input? with
    | none =>
      rw [perform_eq_of_not_replaces (by simp [CellCall.replacesExpression, hinput]) (by simp),
        CellCall.change, Cell.clearInput, hinput]
      exact .kept _
    | some i =>
      rw [perform_eq_of_replaces (by simp [CellCall.replacesExpression, hinput]), CellCall.change,
        Cell.clearInput, hinput]
      exact .emptied rfl none .absent
  | setValue v => exact .assigned v
  | rename name =>
    rw [perform_eq_of_not_replaces rfl (by simp), CellCall.change, Cell.rename]
    split
    · exact .kept _
    · exact .renamed _ name
  | setTags tags => exact .tagged rfl (tags.foldl addNew [])
  | addTag tag =>
    rw [perform_eq_of_not_replaces rfl (by simp), CellCall.change, Cell.addTag]
    split
    · exact .kept _
    · exact .tagged rfl (m.cell.tags ++ [tag])
  | removeTag tag =>
    rw [perform_eq_of_not_replaces rfl (by simp), CellCall.change, Cell.removeTag]
    split
    · exact .tagged rfl (m.cell.tags.filter (· != tag))
    · exact .kept _
  | evaluate scope =>
    exact makes_evaluated _ (fun hinput => congrArg Prod.snd (Cell.evaluate_of_input hinput scope))
      fun hinput => Cell.evaluate_of_no_input eng hinput scope
  | settle scope =>
    exact makes_evaluated _ (fun hinput => Cell.settle_of_input hinput scope)
      fun hinput => Cell.settle_of_no_input eng hinput scope
  | remove => exact .heard _ m.cell.listeners.clear
  | subscribe => exact .heard _ m.cell.listeners.add
  | unsubscribe id => exact .heard _ (m.cell.listeners.remove id)
  | dependencies => exact .asked

theorem Makes.value_eq (h : Makes eng m call m') (hcall : call.assignsValue = false)
    (hinput : m.cell.input? ≠ none) : m'.cell.value = m.cell.value := by
  cases h with
  | read _ hnone => exact absurd hnone hinput
  | evaluated _ hnone => exact absurd hnone hinput
  | emptied hassigns =>
    rw [hassigns] at hcall
    cases hcall
  | assigned => cases hcall
  | kept | renamed | tagged | heard | asked => rfl

theorem Makes.tags_eq (h : Makes eng m call m') (hcall : call.editsTags = false) :
    m'.cell.tags = m.cell.tags := by
  cases h with
  | read _ _ source => exact Cell.tags_compile eng m.cell source
  | tagged hedits =>
    rw [hedits] at hcall
    cases hcall
  | kept | emptied | assigned | evaluated | renamed | heard | asked => rfl

/-- A cell with an input takes no notice of calls that are about an expression. -/
theorem unchanged_of_input (hinput : m.cell.input? ≠ none)
    (hcall : call.concernsExpression = true) :
    call.change eng m.cell = m.cell.unchanged ∧ m.perform eng call = m := by
  have hsome : m.cell.input?.isSome = true := Option.isSome_iff_ne_none.mpr hinput
  have hkept : call.replacesExpression m.cell = false → call.change eng m.cell = m.cell.unchanged →
      call.change eng m.cell = m.cell.unchanged ∧ m.perform eng call = m := by
    intro hreplaces hchange
    refine ⟨hchange, ?_⟩
    rw [perform_eq_of_not_replaces hreplaces (fun h => by rw [h] at hcall; cases hcall), hchange]
    rfl
  have hisNone : m.cell.input?.isNone = false := by rw [Option.isNone_eq_false_iff, hsome]
  cases call with
  | updateExpression source => exact hkept hisNone (Cell.updateExpression_of_input hsome source)
  | transformExpression f => exact hkept hisNone (Cell.updateExpression_of_input hsome _)
  | evaluate scope => exact hkept rfl (by rw [CellCall.change, Cell.evaluate_of_input hsome])
  | settle scope => exact hkept rfl (by rw [CellCall.change, Cell.settle_of_input hsome])
  | _ => cases hcall

/-! ### What every run keeps -/

/-- The cell has what reading its text gives, and remembers nothing but the names of its
expression. -/
structure Sound (eng : Engine) (m : MemoCell) : Prop where
  faithful : m.cell.Faithful eng
  names : ∀ names, m.names? = some names → names = eng.freeNames m.cell.expr

theorem Sound.dependencies_eq (h : m.Sound eng) :
    m.dependencies eng = eng.freeNames m.cell.expr := by
  unfold dependencies
  cases hnames : m.names? with
  | none => rfl
  | some names => exact h.names names hnames

theorem sound_create (eng : Engine) (id : CellId) (o : CellOptions) : (create eng id o).Sound eng :=
  ⟨Cell.faithful_create eng id o, fun _ h => by cases h⟩

theorem Makes.sound (h : Makes eng m call m') (hm : m.Sound eng) : m'.Sound eng := by
  cases h with
  | kept => exact hm
  | read _ hinput source => exact ⟨Cell.faithful_compile hinput source, fun _ h => by cases h⟩
  | emptied => exact ⟨Cell.faithful_of_clear rfl rfl rfl rfl, fun _ h => by cases h⟩
  | assigned | evaluated | renamed | tagged | heard =>
    exact ⟨hm.faithful.congr rfl rfl rfl rfl rfl, hm.names⟩
  | asked =>
    refine ⟨hm.faithful, fun names h => ?_⟩
    rw [← Option.some.inj h, hm.dependencies_eq]

theorem sound_run (hm : m.Sound eng) (calls : List CellCall) : (m.run eng calls).Sound eng := by
  unfold run
  induction calls generalizing m with
  | nil => exact hm
  | cons call calls ih => exact ih ((makes_perform eng m call).sound hm)

/-- Remembering names makes no difference to the cell. -/
theorem cell_run (m : MemoCell) (calls : List CellCall) :
    (m.run eng calls).cell = calls.foldl (fun c call => (call.change eng c).cell) m.cell := by
  unfold run
  induction calls generalizing m with
  | nil => rfl
  | cons call calls ih => exact ih (m.perform eng call)

/-- A cell that remembers names answers as one that works them out each time. -/
theorem Sound.dependencies_run (hm : m.Sound eng) (calls : List CellCall) :
    (m.run eng calls).dependencies eng =
      (calls.foldl (fun c call => (call.change eng c).cell) m.cell).dependencies eng := by
  rw [(sound_run hm calls).dependencies_eq, cell_run]
  rfl

/-- **A cell has an input or an expression.** However it was made and whatever calls it took: with
an input it has the empty expression, no offenses, no compile error and reads nothing, the calls
that are about an expression do nothing, an evaluation answers the value it has, and only the three
calls that assign a value change the value. Without an input its expression, offenses and compile
error are those that its text compiles to, and the names it answers are those of that expression.
The tags change by the calls for tags alone. -/
theorem mode_run (eng : Engine) (id : CellId) (o : CellOptions) (calls : List CellCall) :
    let m := (create eng id o).run eng calls
    (m.cell.input? ≠ none →
      (m.cell.expression = "" ∧ m.cell.expr = .empty ∧ m.cell.offenses = [] ∧
        m.cell.compileError? = none ∧ m.dependencies eng = []) ∧
      (∀ call : CellCall, call.concernsExpression = true →
        call.change eng m.cell = m.cell.unchanged ∧ m.perform eng call = m) ∧
      (∀ scope, m.cell.evaluate eng scope = (.ok m.cell.value, m.cell)) ∧
      ∀ call : CellCall, call.assignsValue = false →
        (m.perform eng call).cell.value = m.cell.value) ∧
    (m.cell.input? = none →
      (match eng.compile m.cell.expression with
        | .ok k => m.cell.expr = k.expr ∧ m.cell.offenses = k.offenses ∧
            m.cell.compileError? = k.disallowed?
        | .error e => m.cell.expr = .empty ∧ m.cell.offenses = [] ∧ m.cell.compileError? = some e) ∧
      m.dependencies eng = eng.freeNames m.cell.expr) ∧
    ∀ call : CellCall, call.editsTags = false → (m.perform eng call).cell.tags = m.cell.tags := by
  intro m
  have hm : m.Sound eng := sound_run (sound_create eng id o) calls
  refine ⟨fun hinput => ⟨?_, ?_, ?_, ?_⟩, fun _ => ⟨?_, hm.dependencies_eq⟩, ?_⟩
  · obtain ⟨hexpression, hexpr, hoffenses, hcompile⟩ := hm.faithful.blank hinput
    have hnames : m.dependencies eng = [] :=
      hm.dependencies_eq.trans (hm.faithful.dependencies_of_input hinput)
    exact ⟨hexpression, hexpr, hoffenses, hcompile, hnames⟩
  · exact fun call hcall => unchanged_of_input hinput hcall
  · exact fun scope => Cell.evaluate_of_input (Option.isSome_iff_ne_none.mpr hinput) scope
  · exact fun call hcall => (makes_perform eng m call).value_eq hcall hinput
  · cases hk : eng.compile m.cell.expression with
    | ok k => exact hm.faithful.ok k hk
    | error e => exact hm.faithful.error e hk
  · exact fun call hcall => (makes_perform eng m call).tags_eq hcall

end MemoCell

end FormulaSheet
