import FormulaSheet.Proofs.Cell.Listeners
import FormulaSheet.Proofs.Cell.Mode

/-!
# What the listeners of a cell hear

A call of a cell emits one event or none, and where it emits none it leaves the cell as it is
(`MemoCell.perform_of_silent`). An event goes to the listeners that are registered at that time, in
the order of their registration. So a listener hears exactly what is emitted between its
registration and the call that ends it, and nothing after the removal of the cell
(`MemoCell.events_complete`).
-/

namespace FormulaSheet

/-- What the listeners are told of a change, one after the other. -/
def Change.deliveries (ch : Change) : List (ListenerId × CellEvent) :=
  ch.event?.toList.flatMap fun e => ch.heard.map (·, e)

namespace CellCall

variable {eng : Engine} {c : Cell} {ls : Listeners} {k : ListenerId}

/-- The calls that change a cell from outside. -/
def edits : CellCall → Bool
  | updateExpression _ | transformExpression _ | setInput _ | clearInput | setValue _
  | rename _ | setTags _
  | addTag _ | removeTag _ | remove => true
  | evaluate _ | settle _ | subscribe | unsubscribe _ | dependencies => false

/-- The registered listeners after the call. -/
def listeners (ls : Listeners) : CellCall → Listeners
  | subscribe => ls.add
  | unsubscribe id => ls.remove id
  | remove => ls.clear
  | _ => ls

def subscribes : CellCall → Bool
  | subscribe => true
  | _ => false

/-- The call ends the registration of a listener. -/
def ends (k : ListenerId) : CellCall → Bool
  | unsubscribe id => id = k
  | remove => true
  | _ => false

/-- Of the calls after the registration of a listener, those up to the one that ends it. -/
def registration (k : ListenerId) : List CellCall → List CellCall
  | [] => []
  | call :: calls => if call.ends k then [call] else call :: registration k calls

/-! ### One call -/

/-- Only the removal of the cell lets all listeners go. -/
theorem listeners_change (eng : Engine) (c : Cell) (call : CellCall) :
    (call.change eng c).cell.listeners = call.listeners c.listeners := by
  cases call with
  | updateExpression source => exact (Cell.of_updateExpression eng source c).listeners
  | transformExpression f => exact (Cell.of_updateExpression eng _ c).listeners
  | clearInput => exact (Cell.of_clearInput c).listeners
  | rename name => exact (Cell.of_rename name c).listeners
  | addTag tag => exact (Cell.of_addTag tag c).listeners
  | removeTag tag => exact (Cell.of_removeTag tag c).listeners
  | evaluate scope =>
    cases hinput : c.input? with
    | none =>
      obtain ⟨v, e?, h⟩ := Cell.evaluate_of_no_input eng hinput scope
      exact (congrArg Cell.listeners h).trans rfl
    | some i =>
      have h : c.evaluate eng scope = (.ok c.value, c) :=
        Cell.evaluate_of_input (Option.isSome_of_mem hinput) scope
      exact congrArg (fun r => Cell.listeners r.2) h
  | settle scope =>
    cases hinput : c.input? with
    | none =>
      obtain ⟨v, e?, h⟩ := Cell.settle_of_no_input eng hinput scope
      exact (congrArg Cell.listeners h).trans rfl
    | some i =>
      exact congrArg Cell.listeners (Cell.settle_of_input (Option.isSome_of_mem hinput) scope)
  | setInput | setValue | setTags | remove | subscribe | unsubscribe | dependencies => rfl

/-- Whoever is registered hears the event. -/
theorem heard_change (eng : Engine) (c : Cell) (call : CellCall) {e : CellEvent}
    (he : (call.change eng c).event? = some e) : (call.change eng c).heard = c.listeners.ids := by
  cases call with
  | updateExpression source => exact (Cell.of_updateExpression eng source c).heard e he
  | transformExpression f => exact (Cell.of_updateExpression eng _ c).heard e he
  | clearInput => exact (Cell.of_clearInput c).heard e he
  | rename name => exact (Cell.of_rename name c).heard e he
  | addTag tag => exact (Cell.of_addTag tag c).heard e he
  | removeTag tag => exact (Cell.of_removeTag tag c).heard e he
  | setInput | setValue | setTags | remove => rfl
  | evaluate | settle | subscribe | unsubscribe | dependencies => cases he

/-- An event goes to all registered listeners in the order of their registration. -/
theorem deliveries_change (eng : Engine) (c : Cell) (call : CellCall) :
    (call.change eng c).deliveries =
      (call.change eng c).event?.toList.flatMap fun e => c.listeners.ids.map (·, e) := by
  unfold Change.deliveries
  cases he : (call.change eng c).event? with
  | none => rfl
  | some e => rw [heard_change eng c call he]

/-- No other call announces that the cell goes away. -/
theorem eq_remove_of_removed {call : CellCall} (he : (call.change eng c).event? = some .removed) :
    call = remove := by
  cases call with
  | remove => rfl
  | updateExpression | transformExpression =>
    simp only [change, Cell.transformExpression, Cell.updateExpression] at he
    split at he <;> cases he
  | clearInput | rename | addTag | removeTag =>
    simp only [change, Cell.clearInput, Cell.rename, Cell.addTag, Cell.removeTag] at he
    split at he <;> cases he
  | setInput | setValue | setTags | evaluate | settle | subscribe | unsubscribe
  | dependencies => cases he

/-- Where no event is emitted, the expression is not replaced and the cell stays as it is. -/
theorem eq_of_silent {call : CellCall} (hedits : call.edits = true)
    (he : (call.change eng c).event? = none) :
    call.replacesExpression c = false ∧ (call.change eng c).cell = c := by
  cases call with
  | updateExpression | transformExpression =>
    simp only [change, Cell.transformExpression, Cell.updateExpression] at he ⊢
    split at he
    · rename_i hinput
      exact ⟨by rw [replacesExpression, Option.isNone_eq_false_iff, hinput],
        by rw [if_pos hinput]; rfl⟩
    · cases he
  | clearInput =>
    simp only [change, Cell.clearInput] at he ⊢
    split at he
    · cases he
    · rename_i hinput
      exact ⟨by simpa [replacesExpression] using hinput, by rw [if_neg hinput]; rfl⟩
  | rename name =>
    simp only [change, Cell.rename] at he ⊢
    split at he
    · rename_i hname
      exact ⟨rfl, by rw [if_pos hname]; rfl⟩
    · cases he
  | addTag tag =>
    simp only [change, Cell.addTag] at he ⊢
    split at he
    · rename_i htag
      exact ⟨rfl, by rw [if_pos htag]; rfl⟩
    · cases he
  | removeTag tag =>
    simp only [change, Cell.removeTag] at he ⊢
    split at he
    · cases he
    · rename_i htag
      exact ⟨rfl, by rw [if_neg htag]; rfl⟩
  | setInput | setValue | setTags | remove => cases he
  | evaluate | settle | subscribe | unsubscribe | dependencies => cases hedits

/-! ### Listeners after a call -/

theorem ordered_listeners (h : ls.Ordered) (call : CellCall) : (call.listeners ls).Ordered := by
  cases call with
  | subscribe => exact h.add
  | unsubscribe id => exact h.remove id
  | remove => exact h.clear
  | _ => exact h

theorem next_listeners (ls : Listeners) (call : CellCall) :
    (call.listeners ls).next = ls.next + if call.subscribes then 1 else 0 := by
  cases call <;> rfl

/-- A registered listener stays until a call ends its registration. -/
theorem mem_listeners_of_mem (call : CellCall) (hk : k ∈ ls.ids) :
    k ∈ (call.listeners ls).ids ↔ call.ends k = false := by
  cases call with
  | subscribe => exact iff_of_true (List.mem_append_left _ hk) rfl
  | unsubscribe id =>
    simp only [listeners, Listeners.remove, ends, List.mem_filter, hk, true_and, bne_iff_ne,
      decide_eq_false_iff_not]
    exact ne_comm
  | remove => exact iff_of_false List.not_mem_nil (by simp [ends])
  | _ => exact iff_of_true hk rfl

/-- Only the new listener comes to be registered. -/
theorem mem_of_mem_listeners {call : CellCall} (hk : k ∈ (call.listeners ls).ids) :
    k ∈ ls.ids ∨ call = subscribe ∧ k = ls.next := by
  cases call with
  | subscribe =>
    rcases List.mem_append.mp hk with hk | hk
    · exact Or.inl hk
    · exact Or.inr ⟨rfl, List.mem_singleton.mp hk⟩
  | unsubscribe id => exact Or.inl (List.mem_filter.mp hk).1
  | remove => cases hk
  | _ => exact Or.inl hk

end CellCall

namespace MemoCell

variable {eng : Engine} {m : MemoCell} {k : ListenerId} {call : CellCall}

/-- What the listeners of a cell are told in the course of calls. -/
def deliveries (eng : Engine) (m : MemoCell) : List CellCall → List (ListenerId × CellEvent)
  | [] => []
  | call :: calls =>
    (call.change eng m.cell).deliveries ++ (m.perform eng call).deliveries eng calls

/-- The events that are emitted in the course of calls. -/
def events (eng : Engine) (m : MemoCell) : List CellCall → List CellEvent
  | [] => []
  | call :: calls => (call.change eng m.cell).event?.toList ++ (m.perform eng call).events eng calls

/-- What one listener hears. -/
def heardBy (k : ListenerId) (ds : List (ListenerId × CellEvent)) : List CellEvent :=
  (ds.filter (·.1 == k)).map Prod.snd

/-- A call that emits no event changes nothing of the cell, and nothing of what it remembers. -/
theorem perform_of_silent (hedits : call.edits = true)
    (he : (call.change eng m.cell).event? = none) : m.perform eng call = m := by
  obtain ⟨hreplaces, hcell⟩ := CellCall.eq_of_silent hedits he
  have hasked : call ≠ .dependencies := by
    rintro rfl
    cases hedits
  rw [perform_eq_of_not_replaces hreplaces hasked, hcell]

theorem listeners_perform (eng : Engine) (m : MemoCell) (call : CellCall) :
    (m.perform eng call).cell.listeners = call.listeners m.cell.listeners :=
  CellCall.listeners_change eng m.cell call

/-! ### Runs -/

theorem run_concat (eng : Engine) (m : MemoCell) (calls : List CellCall) (call : CellCall) :
    m.run eng (calls ++ [call]) = (m.run eng calls).perform eng call := List.foldl_concat ..

theorem deliveries_append (eng : Engine) (m : MemoCell) (pre post : List CellCall) :
    m.deliveries eng (pre ++ post) = m.deliveries eng pre ++
      (m.run eng pre).deliveries eng post := by
  induction pre generalizing m with
  | nil => rfl
  | cons call pre ih =>
    rw [List.cons_append, deliveries, deliveries, ih, List.append_assoc]
    rfl

theorem ordered_run (h : m.cell.listeners.Ordered) (calls : List CellCall) :
    (m.run eng calls).cell.listeners.Ordered := by
  induction calls generalizing m with
  | nil => exact h
  | cons call calls ih =>
    apply ih
    rw [listeners_perform]
    exact CellCall.ordered_listeners h call

/-- Every registration takes one number. -/
theorem next_run (m : MemoCell) (calls : List CellCall) :
    (m.run eng calls).cell.listeners.next = m.cell.listeners.next +
    calls.countP CellCall.subscribes := by
  induction calls generalizing m with
  | nil => rfl
  | cons call calls ih =>
    have hrun : m.run eng (call :: calls) = (m.perform eng call).run eng calls := rfl
    rw [hrun, ih, listeners_perform, CellCall.next_listeners, List.countP_cons, Nat.add_assoc,
      Nat.add_comm (calls.countP _)]

theorem heardBy_append (ds es : List (ListenerId × CellEvent)) :
    heardBy k (ds ++ es) = heardBy k ds ++ heardBy k es := by
  rw [heardBy, List.filter_append, List.map_append]
  rfl

/-- A registered listener hears the event of a call once, and nobody else hears it. -/
theorem heardBy_change (h : m.cell.listeners.Ordered) (call : CellCall) :
    heardBy k (call.change eng m.cell).deliveries =
      if k ∈ m.cell.listeners.ids then (call.change eng m.cell).event?.toList else [] := by
  have hnodup : m.cell.listeners.ids.Nodup := h.sorted.imp Nat.ne_of_lt
  rw [CellCall.deliveries_change]
  cases (call.change eng m.cell).event? with
  | none => simp [heardBy]
  | some e =>
    have hone :
        m.cell.listeners.ids.filter (· == k) = if k ∈ m.cell.listeners.ids then [k] else [] := by
      split <;> rename_i hk
      · rw [List.filter_beq, List.count_eq_one_of_mem hnodup hk, List.replicate_one]
      · rw [List.filter_beq, List.count_eq_zero_of_not_mem hk, List.replicate_zero]
    have hheard : heardBy k (m.cell.listeners.ids.map (·, e)) =
        (m.cell.listeners.ids.filter (· == k)).map fun _ => e := by
      rw [heardBy, List.filter_map, List.map_map]
      rfl
    rw [Option.toList_some, List.flatMap_singleton, hheard, hone]
    split <;> rfl

/-- Who was let go is never told anything again. -/
theorem heardBy_of_gone (h : m.cell.listeners.Ordered) (hk : k ∉ m.cell.listeners.ids)
    (hlt : k < m.cell.listeners.next) (calls : List CellCall) :
    heardBy k (m.deliveries eng calls) = [] := by
  induction calls generalizing m with
  | nil => rfl
  | cons call calls ih =>
    have hlisteners := listeners_perform eng m call
    rw [deliveries, heardBy_append, heardBy_change h, if_neg hk, List.nil_append]
    apply ih
    · rw [hlisteners]
      exact CellCall.ordered_listeners h call
    · intro hmem
      rw [hlisteners] at hmem
      rcases CellCall.mem_of_mem_listeners hmem with hmem | ⟨-, hnext⟩
      · exact hk hmem
      · exact absurd hnext (Nat.ne_of_lt hlt)
    · rw [hlisteners, CellCall.next_listeners]
      exact Nat.lt_of_lt_of_le hlt (Nat.le_add_right _ _)

/-- Who is not registered yet is not told anything. -/
theorem heardBy_of_fresh (h : m.cell.listeners.Ordered) (calls : List CellCall)
    (hk : (m.run eng calls).cell.listeners.next ≤ k) : heardBy k (m.deliveries eng calls) = [] := by
  induction calls generalizing m with
  | nil => rfl
  | cons call calls ih =>
    have hnext : m.cell.listeners.next ≤ k := by
      rw [next_run] at hk
      exact Nat.le_trans (Nat.le_add_right _ _) hk
    have hnot : k ∉ m.cell.listeners.ids :=
      fun hmem => absurd (h.fresh k hmem) (Nat.not_lt.mpr hnext)
    have hordered : (m.perform eng call).cell.listeners.Ordered := by
      rw [listeners_perform]
      exact CellCall.ordered_listeners h call
    rw [deliveries, heardBy_append, heardBy_change h, if_neg hnot, List.nil_append]
    exact ih hordered hk

/-- **A registered listener hears what is emitted up to the end of its registration.** -/
theorem heardBy_of_registered (h : m.cell.listeners.Ordered) (hk : k ∈ m.cell.listeners.ids)
    (calls : List CellCall) :
    heardBy k (m.deliveries eng calls) = m.events eng (CellCall.registration k calls) := by
  induction calls generalizing m with
  | nil => rfl
  | cons call calls ih =>
    have hlisteners := listeners_perform eng m call
    have hordered : (m.perform eng call).cell.listeners.Ordered := by
      rw [hlisteners]
      exact CellCall.ordered_listeners h call
    have hstays := CellCall.mem_listeners_of_mem call hk
    rw [deliveries, heardBy_append, heardBy_change h, if_pos hk, CellCall.registration]
    split <;> rename_i hends
    · have hgone : heardBy k ((m.perform eng call).deliveries eng calls) = [] := by
        apply heardBy_of_gone hordered
        · rw [hlisteners, hstays, hends]
          exact Bool.noConfusion
        · rw [hlisteners, CellCall.next_listeners]
          exact Nat.lt_of_lt_of_le (h.fresh k hk) (Nat.le_add_right _ _)
      rw [hgone, events, events]
    · have hmem : k ∈ (m.perform eng call).cell.listeners.ids := by
        rw [hlisteners, hstays]
        exact Bool.eq_false_iff.mpr hends
      rw [ih hordered hmem, events]

/-- Nothing comes after the removal of the cell in a registration. -/
theorem eq_nil_of_events_registration {calls : List CellCall} {es fs : List CellEvent}
    (h : m.events eng (CellCall.registration k calls) = es ++ .removed :: fs) : fs = [] := by
  induction calls generalizing m es with
  | nil => simp [CellCall.registration, events] at h
  | cons call calls ih =>
    rw [CellCall.registration] at h
    split at h <;> rename_i hends
    · rw [events, events, List.append_nil] at h
      cases he : (call.change eng m.cell).event? with
      | none => simp [he] at h
      | some e =>
        rw [he, Option.toList_some] at h
        obtain _ | ⟨e', es⟩ := es
        · exact (List.cons.inj h).2.symm
        · simp at h
    · rw [events] at h
      cases he : (call.change eng m.cell).event? with
      | none =>
        rw [he] at h
        exact ih h
      | some e =>
        rw [he, Option.toList_some, List.singleton_append] at h
        obtain _ | ⟨e', es⟩ := es
        · -- only the removal of the cell emits this event, and it ends the registration
          obtain ⟨rfl, -⟩ := List.cons.inj h
          obtain rfl := CellCall.eq_remove_of_removed he
          exact absurd rfl hends
        · exact ih (List.cons.inj h).2

/-! ### Whoever hears something was registered -/

theorem exists_subscribe_of_mem (hm : m.cell.listeners = Listeners.empty) {calls : List CellCall}
    (hk : k ∈ (m.run eng calls).cell.listeners.ids) :
    ∃ pre post, calls = pre ++ .subscribe :: post ∧ k = pre.countP CellCall.subscribes := by
  induction calls using List.reverseRecOn with
  | nil =>
    have hids : k ∈ m.cell.listeners.ids := hk
    rw [hm] at hids
    cases hids
  | append_singleton calls call ih =>
    rw [run_concat, listeners_perform] at hk
    rcases CellCall.mem_of_mem_listeners hk with hk | ⟨rfl, hnext⟩
    · obtain ⟨pre, post, rfl, hcount⟩ := ih hk
      exact ⟨pre, post ++ [call], by simp, hcount⟩
    · have hzero : m.cell.listeners.next = 0 := by
        rw [hm]
        rfl
      refine ⟨calls, [], rfl, ?_⟩
      rw [hnext, next_run, hzero, Nat.zero_add]

theorem exists_subscribe_of_delivered (hm : m.cell.listeners = Listeners.empty)
    {calls : List CellCall} {d : ListenerId × CellEvent} (hd : d ∈ m.deliveries eng calls) :
    ∃ pre post, calls = pre ++ .subscribe :: post ∧ d.1 = pre.countP CellCall.subscribes := by
  induction calls using List.reverseRecOn with
  | nil => cases hd
  | append_singleton calls call ih =>
    rw [deliveries_append] at hd
    rcases List.mem_append.mp hd with hd | hd
    · obtain ⟨pre, post, rfl, hcount⟩ := ih hd
      exact ⟨pre, post ++ [call], by simp, hcount⟩
    · rw [deliveries, deliveries, List.append_nil, CellCall.deliveries_change] at hd
      obtain ⟨e, -, hd⟩ := List.mem_flatMap.mp hd
      obtain ⟨k, hk, rfl⟩ := List.mem_map.mp hd
      obtain ⟨pre, post, rfl, hcount⟩ := exists_subscribe_of_mem hm hk
      exact ⟨pre, post ++ [call], by simp, hcount⟩

theorem listeners_create (eng : Engine) (id : CellId) (o : CellOptions) :
    (create eng id o).cell.listeners = Listeners.empty := by
  unfold create Cell.create
  split
  · rfl
  · exact Cell.compile_listeners eng _ _

/-- **The events of a cell are complete.** A call emits at most one event, which goes to all who are
registered in the order of their registration, and where a call that changes the cell from outside
emits none, nothing of the cell is changed. However a cell was made and whatever calls it took, the
numbers of its listeners grow with each registration: they count the registrations before. A
listener hears exactly the events that are emitted after its registration up to the call that ends
it, in their order, and nothing after the removal of the cell; nobody else is told anything. -/
theorem events_complete (eng : Engine) :
    (∀ (m : MemoCell) (call : CellCall),
      (call.change eng m.cell).deliveries =
        ((call.change eng m.cell).event?.toList.flatMap fun e => m.cell.listeners.ids.map (·, e)) ∧
      (call.edits = true → (call.change eng m.cell).event? = none → m.perform eng call = m)) ∧
    ∀ (id : CellId) (o : CellOptions) (calls : List CellCall),
      let m := create eng id o
      (m.run eng calls).cell.listeners.ids.Pairwise (· < ·) ∧
      (∀ pre post, calls = pre ++ .subscribe :: post →
        let k := (m.run eng pre).cell.listeners.next
        k = pre.countP CellCall.subscribes ∧
        heardBy k (m.deliveries eng calls) =
          (m.run eng (pre ++ [.subscribe])).events eng (CellCall.registration k post) ∧
        ∀ es fs, heardBy k (m.deliveries eng calls) = es ++ .removed :: fs → fs = []) ∧
      ∀ d ∈ m.deliveries eng calls,
        ∃ pre post, calls = pre ++ .subscribe :: post ∧ d.1 = pre.countP CellCall.subscribes := by
  refine ⟨fun m call => ⟨CellCall.deliveries_change eng m.cell call, perform_of_silent⟩,
    fun id o calls => ?_⟩
  intro m
  have hempty : m.cell.listeners = Listeners.empty := listeners_create eng id o
  have hordered : m.cell.listeners.Ordered := by
    rw [hempty]
    exact Listeners.ordered_empty
  refine ⟨(ordered_run hordered calls).sorted, ?_,
    fun d hd => exists_subscribe_of_delivered hempty hd⟩
  rintro pre post rfl k
  have hcount : k = pre.countP CellCall.subscribes := by
    have hzero : m.cell.listeners.next = 0 := by
      rw [hempty]
      rfl
    rw [← Nat.zero_add (pre.countP _), ← hzero]
    exact next_run m pre
  have hregistered : k ∈ (m.run eng (pre ++ [.subscribe])).cell.listeners.ids := by
    rw [run_concat, listeners_perform]
    exact List.mem_append_right _ (List.mem_singleton_self k)
  have hbefore : heardBy k (m.deliveries eng pre) = [] :=
    heardBy_of_fresh hordered pre (Nat.le_refl k)
  have hheard : heardBy k (m.deliveries eng (pre ++ .subscribe :: post)) =
      (m.run eng (pre ++ [.subscribe])).events eng (CellCall.registration k post) := by
    rw [← heardBy_of_registered (ordered_run hordered _) hregistered, deliveries_append,
      heardBy_append, hbefore, List.nil_append, run_concat]
    rfl
  refine ⟨hcount, hheard, fun es fs h => ?_⟩
  rw [hheard] at h
  exact eq_nil_of_events_registration h

/-- Of two listeners the first one leaves before the cell is removed. A tag that is
there already is no event. -/
theorem events_complete_two_listeners :
    let eng : Engine := ⟨.default, Registry.empty, .default⟩
    let m := create eng "c" ⟨none, "a", "1", none, ["t"]⟩
    let pre : List CellCall := [.subscribe, .addTag "t", .setValue .null]
    let post : List CellCall :=
      [.rename "b", .unsubscribe 0, .removeTag "t", .remove, .setValue .null]
    m.perform eng (.addTag "t") = m ∧
      heardBy 0 (m.deliveries eng (pre ++ .subscribe :: post)) = [.valueChanged, .renamed "a" "b"] ∧
      heardBy 1 (m.deliveries eng (pre ++ .subscribe :: post)) =
        (m.run eng (pre ++ [.subscribe])).events eng (CellCall.registration 1 post) ∧
      (m.run eng (pre ++ [.subscribe])).events eng (CellCall.registration 1 post) =
        [.renamed "a" "b", .tagsChanged, .removed] := by
  intro eng m pre post
  obtain ⟨hcalls, hruns⟩ := events_complete eng
  obtain ⟨-, hheard, -⟩ := hruns "c" ⟨none, "a", "1", none, ["t"]⟩ (pre ++ .subscribe :: post)
  have hfirst := (hheard [] _ rfl).2.1
  have hsecond := hheard pre post rfl
  refine ⟨(hcalls m (.addTag "t")).2 rfl (by decide +kernel), ?_, ?_, by decide +kernel⟩
  · rw [show (0 : ListenerId) = (m.run eng []).cell.listeners.next by decide +kernel, hfirst]
    decide +kernel
  · have hnumber : (m.run eng pre).cell.listeners.next = 1 := hsecond.1
    rw [← hnumber]
    exact hsecond.2.1

end MemoCell

end FormulaSheet
