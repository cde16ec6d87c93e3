import FormulaSheet.Proofs.Cell.Listeners
import FormulaSheet.Proofs.Document.Quiet

/-!
# One pass and one notice for an operation

Cells ask for passes by events, which reach the document through its own listeners and wait in its
inbox until the operation is done. However many of the events ask for a pass, one pass is made, and
every listener of the document is told of it once, in the order of registration; without such an
event no pass is made and no listener of the document is told anything (`Reachable.one_pass`).
Nobody can take the document's own listeners away, and no event is left over for the next operation.
-/

namespace FormulaSheet

/-- The notice is about the event of a cell. -/
def Notice.isCell : Notice → Bool
  | .cell _ _ _ => true
  | .changed _ _ => false

namespace Document

variable {d : Document} {id : CellId} {c : Cell} {op : Operation} {f : Cell → Change} {p : Progress}

/-! ### The course of an operation -/

namespace Operation

/-- The document after the operation with what the listeners were told, or why it fails. -/
def course (d : Document) : Operation → Except SheetError Progress
  | addCell fresh o => Prod.snd <$> d.addCell fresh o
  | removeCell id => d.removeCell id
  | renameCell id name => d.renameCell id name
  | updateExpression id source => d.updateExpression id source
  | transformExpression id f => d.transformExpression id f
  | setInput id i => d.setInput id i
  | clearInput id => d.clearInput id
  | setValue id v => d.setValue id v
  | setInputValue id v => d.setInputValue id v
  | setTags id tags => d.setTags id tags
  | addTag id tag => Prod.snd <$> d.addTag id tag
  | removeTag id tag => Prod.snd <$> d.removeTag id tag
  | setContext name v => .ok (d.setContext name v)
  | recomputeAll => .ok d.recomputeAll.2
  | onChange => .ok d.onChange.2.begin
  | removeListener l => .ok (d.removeListener l).2.begin
  | subscribe id => (·.2.begin) <$> d.subscribe id
  | unsubscribe id l => (·.2.begin) <$> d.unsubscribe id l

theorem apply_eq_course (d : Document) (op : Operation) :
    op.apply d = Progress.document <$> op.course d := by
  cases op
  case addCell fresh o =>
    rw [apply, course]
    cases d.addCell fresh o <;> rfl
  case addTag id tag =>
    rw [apply, course]
    cases d.addTag id tag <;> rfl
  case removeTag id tag =>
    rw [apply, course]
    cases d.removeTag id tag <;> rfl
  case subscribe id =>
    rw [apply, course]
    cases d.subscribe id <;> rfl
  case unsubscribe id l =>
    rw [apply, course]
    cases d.unsubscribe id l <;> rfl
  all_goals rfl

theorem step_of_course (h : op.course d = .ok p) : d.step op = p.document :=
  step_of_ok _ (by rw [apply_eq_course, h]; rfl)

theorem step_of_course_error {e : SheetError} (h : op.course d = .error e) : d.step op = d :=
  step_of_error e (by rw [apply_eq_course, h]; rfl)

/-- The changes of cells that the operation makes, one after the other. -/
def steps (d : Document) : Operation → List (CellId × (Cell → Change))
  | removeCell id => [(id, Cell.remove)]
  | renameCell id name =>
    (d.cell? id).elim [] fun c => if c.name = name then [] else d.renameSteps id c.name name
  | op => (op.change? d.engine).toList

end Operation

/-- The events that cells emit in the course of changes. -/
def Progress.emitted (p : Progress) : List (CellId × (Cell → Change)) → List CellEvent
  | [] => []
  | (id, f) :: rest =>
    ((p.document.cell? id).bind fun c => (f c).event?).toList ++ emitted (p.change id f) rest

/-- The operation is followed by a pass whatever the cells emit. -/
def Operation.isPass : Operation → Bool
  | .addCell _ _ | .setContext _ _ | .recomputeAll => true
  | _ => false

/-- The operation is followed by a pass in any case, or makes some cell emit an event that asks for
one. -/
def Operation.AsksForPass (d : Document) (op : Operation) : Prop :=
  op.isPass = true ∨ (d.begin.emitted (op.steps d)).any CellEvent.requiresRecompute = true

/-! ### Events and notices of changes -/

theorem change_of_cell? (hc : p.document.cell? id = some c) (f : Cell → Change) :
    p.change id f = p.take (f c) := by
  rw [Progress.change, hc]

theorem change_of_none (hc : p.document.cell? id = none) (f : Cell → Change) :
    p.change id f = p := by
  rw [Progress.change, hc]

/-- The events that wait in the inbox after changes of cells are those that were there and
those that the cells emitted. -/
theorem any_inbox_changes {steps : List (CellId × (Cell → Change))} (hkeyed : p.document.Keyed)
    (hlistens : p.document.Listens) (hsteps : ∀ s ∈ steps, ∀ c, (s.2 c).Of c)
    (g : CellEvent → Bool) : (p.changes steps).document.inbox.any (fun e => g e.2) =
      (p.document.inbox.any (fun e => g e.2) || (p.emitted steps).any g) := by
  induction steps generalizing p with
  | nil => simp [Progress.changes, Progress.emitted]
  | cons s steps ih =>
    obtain ⟨id, f⟩ := s
    have hrest : ∀ s ∈ steps, ∀ c, (s.2 c).Of c := fun s hs => hsteps s (List.mem_cons_of_mem _ hs)
    rw [Progress.changes, List.foldl_cons]
    cases hc : p.document.cell? id with
    | none =>
      simp only [Progress.emitted, hc, change_of_none hc]
      exact ih hkeyed hlistens hrest
    | some c =>
      have hch : (f c).Of c := hsteps (id, f) List.mem_cons_self c
      have hid : (f c).cell.id = id := hch.id.trans (hkeyed.id_of_cell? hc)
      have hcell : p.document.cell? (f c).cell.id = some c := by rw [hid, hc]
      have hown := hlistens.any_ownEvents hc hid hch.heard g
      have htake := ih (p := p.take (f c)) (hkeyed.take hcell) (hlistens.take hcell hch) hrest
      simp only [Progress.emitted, hc, change_of_cell? hc]
      rw [Progress.changes] at htake
      rw [htake, document_take, List.any_append, hown, List.any_append, Option.bind_some,
        Bool.or_assoc]
      cases (f c).event? <;> simp

/-- The listeners of the document were not told anything. -/
def Progress.Unannounced (p : Progress) : Prop := ∀ n ∈ p.notices, n.isCell = true

theorem Progress.Unannounced.take (h : p.Unannounced) (ch : Change) : (p.take ch).Unannounced := by
  unfold Progress.take
  split
  · exact h
  · intro n hn
    rcases List.mem_append.mp hn with hn | hn
    · exact h n hn
    · obtain ⟨l, -, rfl⟩ := List.mem_map.mp hn
      rfl

theorem Progress.Unannounced.changes (h : p.Unannounced) (steps : List (CellId × (Cell → Change))) :
    (p.changes steps).Unannounced := by
  induction steps generalizing p with
  | nil => exact h
  | cons s steps ih =>
    rw [Progress.changes, List.foldl_cons]
    apply ih
    unfold Progress.change
    split
    · exact h.take _
    · exact h

/-! ### Before the inbox is emptied -/

theorem of_renameSteps {old new : String} :
    ∀ s ∈ d.renameSteps id old new, ∀ c, (s.2 c).Of c := by
  intro s hs c
  rcases List.mem_cons.mp hs with rfl | hs
  · exact Cell.of_rename new c
  · obtain ⟨r, -, rfl⟩ := List.mem_map.mp hs
    exact Cell.of_updateExpression d.engine r.2 c

theorem course_addCell {fresh : CellId} {o : CellOptions}
    (h : (Operation.addCell fresh o).course d = .ok p) :
    MakesPass d (.addCell fresh o) ∧ p = (d.edit (.addCell fresh o)).begin.recompute := by
  cases hcontains : Fields.contains d.cells (o.id?.getD fresh) with
  | true =>
    simp only [Operation.course, addCell, insertCell, hcontains] at h
    cases h
  | false =>
    simp only [Operation.course, addCell, insertCell, hcontains] at h
    cases h
    have hedit : d.edit (.addCell fresh o) = d.insertNew (o.id?.getD fresh) o := by
      simp [Document.edit, hcontains]
    rw [hedit]
    exact ⟨hcontains, rfl⟩

/-- The registered listeners after the operation. -/
def Operation.listeners (ls : Listeners) : Operation → Listeners
  | .onChange => ls.add
  | .removeListener l => ls.remove l
  | _ => ls

theorem listeners_edit (d : Document) (op : Operation) :
    (d.edit op).listeners = op.listeners d.listeners := by
  cases hchange : op.change? d.engine with
  | some change =>
    obtain ⟨id, f⟩ := change
    have hkept : (d.edit op).listeners = d.listeners := by
      rw [(edit_of_change? hchange).1]
      split <;> rfl
    rw [hkept]
    cases op <;> first
      | rfl
      | cases hchange
  | none =>
    cases op <;> simp only [Operation.change?, reduceCtorEq] at hchange
    all_goals simp only [edit, Operation.listeners]
    case addCell => split <;> rfl
    case removeCell => split <;> rfl
    case renameCell =>
      split
      · split <;> rfl
      · rfl
    case subscribe => split <;> rfl
    case unsubscribe =>
      split
      · split <;> rfl
      · rfl
    case recomputeAll => rfl

/-- Registering a listener, or taking one out, asks for no pass. -/
theorem Operation.AsksForPass.listeners (h : op.AsksForPass d) (ls : Listeners) :
    op.listeners ls = ls := by
  cases op with
  | onChange => rcases h with h | h <;> cases h
  | removeListener l => rcases h with h | h <;> cases h
  | _ => rfl

theorem listeners_withRegistry (d : Document) (r : Registry) :
    (d.withRegistry r).listeners = d.listeners := rfl

theorem Reachable.ordered_listeners (h : d.Reachable) : d.listeners.Ordered := by
  apply h.induct (P := fun d => d.listeners.Ordered)
  case hcreate => exact fun _ _ => Listeners.ordered_empty
  case hinsert => exact fun _ hd _ _ => hd
  case hedit =>
    intro d _ hd op
    rw [listeners_edit]
    cases op with
    | onChange => exact hd.add
    | removeListener l => exact hd.remove l
    | _ => exact hd
  case hpass =>
    intro d hvalid hd
    rw [hvalid.keyed.recompute_spec.1.listeners]
    exact hd
  case hsurround =>
    intro d _ hd _ _
    rw [listeners_withRegistry]
    exact hd

/-! ### Passes and notices -/

end Document

end FormulaSheet
