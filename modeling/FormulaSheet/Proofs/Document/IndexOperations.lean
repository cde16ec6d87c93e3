import FormulaSheet.Proofs.Document.Index
import FormulaSheet.Proofs.Document.Notices

/-!
# Operations on documents with an index

An operation on a document with an index succeeds and fails where it does on one that goes through
its cells, and leads to the same document (`perform_eq`). In its course the index may be out of date
in one place only: a rename gives the cell its new name and puts the new expressions in, and the
index is that of the names before it until the inbox is emptied (`renameCell_run`, `flush_eq`).
-/

namespace FormulaSheet

namespace Document

variable {d : Document} {p : Progress} {id : CellId} {c : Cell} {f : Cell → Change} {ch : Change}

/-! ### Names in the course of an operation -/

theorem Keyed.names_take (hd : p.document.Keyed) (hc : p.document.cell? id = some c)
    (hid : ch.cell.id = c.id) (hname : ch.cell.name = c.name) :
    (p.take ch).document.names = p.document.names := by
  rw [document_take]
  exact hd.names_putCell hc hid hname

theorem Keyed.changes (hd : p.document.Keyed) {steps : List (CellId × (Cell → Change))}
    (hsteps : ∀ s ∈ steps, ∀ c, (s.2 c).Of c) : (p.changes steps).document.Keyed := by
  induction steps generalizing p with
  | nil => exact hd
  | cons s steps ih =>
    refine ih (p := p.change s.1 s.2) ?_ fun t ht => hsteps t (List.mem_cons_of_mem s ht)
    cases hc : p.document.cell? s.1 with
    | none => rwa [change_of_none hc]
    | some c =>
      have hid := (hsteps s List.mem_cons_self c).id.trans (hd.id_of_cell? hc)
      rw [change_of_cell? hc]
      exact hd.take (by rw [hid]; exact hc)

/-- A rename to another name fails because expressions could not refer to it, or because another
cell has it. -/
theorem Keyed.renameCell_refused (hd : d.Keyed) {name : String} (hc : d.cell? id = some c)
    (hname : c.name ≠ name) (h : ¬ d.Renamable id name) : d.renameCell id name =
        .error (if d.engine.isValidName name = false then .invalidName name else .nameTaken name) ∧
      (d.engine.isValidName name = true → (d.named? name).any (· != id) = true) := by
  have htaken : d.engine.isValidName name = true → (d.named? name).any (· != id) = true := by
    intro hvalid
    cases hnamed : d.named? name with
    | none => exact absurd ⟨c, hc, hname, hvalid, hnamed⟩ h
    | some b =>
      obtain ⟨c', hc', hname'⟩ := hd.cell?_of_named? hnamed
      rw [Option.any_some, bne_iff_ne]
      rintro rfl
      rw [hc, Option.some.injEq] at hc'
      exact hname (hc' ▸ hname')
  refine ⟨?_, htaken⟩
  rw [Document.renameCell, find_of_cell? hc]
  cases hvalid : d.engine.isValidName name with
  | false => simp [bind, Except.bind, hname, throw, throwThe, MonadExceptOf.throw]
  | true => simp [bind, Except.bind, hname, htaken hvalid, throw, throwThe, MonadExceptOf.throw]

end Document

namespace IndexedDocument

open Document

variable {α β : Type} {p q r : Progress} {known : Prop} {d : Document} {id : CellId} {c : Cell}
  {f : Cell → Change} {op : Operation} {e : SheetError}

/-! ### Steps that may fail -/

namespace Gives

variable {x : Attempt α} {k : α → Attempt β} {a : α} {s : Except SheetError β}

theorem ok (a : α) (p : Progress) : Gives known (Pure.pure a : Attempt α).run p (.ok a) p :=
  pure (Except.ok a) p

theorem error (e : SheetError) (p : Progress) :
    Gives known (throw e : Attempt α).run p (.error e) p :=
  pure (Except.error e) p

theorem ok_bind (h : Gives known x.run p (.ok a) q) (hk : Gives known (k a).run q s r) :
    Gives known (x >>= k).run p s r := by
  rw [ExceptT.run_bind]
  exact h.bind hk

theorem error_bind (h : Gives known x.run p (.error e) q) :
    Gives known (x >>= k).run p (.error e) q := by
  rw [ExceptT.run_bind]
  exact h.bind (.pure _ q)

theorem lift {x : Work α} (h : Gives known x p a q) :
    Gives known (liftM x : Attempt α).run p (.ok a) q :=
  h.map Except.ok

end Gives

theorem gives_find (d : Document) (notices : List Notice) (id : CellId) :
    Gives known (find id).run ⟨d, notices⟩ (d.find id) ⟨d, notices⟩ := by
  refine (gives_current _).lift.ok_bind ?_
  cases d.find id with
  | ok c => exact .pure _ _
  | error e => exact .pure _ _

/-- A change by which cells come or go leaves no index that could be out of date. -/
theorem gives_changeCells (f : Document → Document) (p : Progress) :
    Gives False (changeCells f) p () ⟨f p.document, p.notices⟩ := by
  rintro m ⟨rfl, -, -⟩
  exact ⟨⟨⟨f m.document, m.notices⟩, none⟩, rfl, rfl, (fun index h => by cases h), False.elim⟩

/-- Emptying the inbox puts an index right that is out of date because a cell has a new name. -/
theorem flush_eq {m : IndexedDocument} (hd : m.document.Keyed)
    (hstale : m.document.inbox.any (fun e => e.2.isRenamed) = false → m.Sound) :
    ∃ m', flush m = ((), m') ∧ At False m.toProgress.flush m' := by
  set p : Progress := ⟨{ m.document with inbox := [] }, m.notices⟩ with hp
  have hd' : p.document.Keyed := ⟨hd.nodup, hd.id_eq⟩
  set rest : Work Unit :=
    if m.document.inbox.any (fun e => e.2.requiresRecompute) then recompute else pure () with hrest
  have hgives : Gives False rest p () m.toProgress.flush := by
    rw [hrest]
    unfold Progress.flush
    dsimp only
    split
    · exact gives_recompute hd'
    · exact .pure () p
  have hflush : flush m = (if m.document.inbox.any (fun e => e.2.isRenamed)
      then do dropIndex; rest else rest : Work Unit) ⟨p, m.index?⟩ := rfl
  rw [hflush]
  cases hrenamed : m.document.inbox.any fun e => e.2.isRenamed with
  | true => exact hgives ⟨p, none⟩ ⟨rfl, (fun index h => by cases h), False.elim⟩
  | false => exact hgives ⟨p, m.index?⟩ ⟨rfl, hstale hrenamed, False.elim⟩

theorem gives_flush (hd : p.document.Keyed) : Gives False flush p () p.flush := by
  rintro m ⟨rfl, hs, -⟩
  exact flush_eq hd fun _ => hs

/-! ### Operations -/

/-- The operation comes out as it does where names are looked up among the cells. An operation that
fails leaves the document as it was. -/
def Follows (x : Attempt Unit) (d : Document) : Except SheetError Progress → Prop
  | .ok p => Gives False x.run d.begin (.ok ()) p
  | .error e => Gives False x.run d.begin (.error e) d.begin

theorem gives_of_find_error {k : Cell → Attempt β} (h : d.find id = .error e) :
    Gives False (find id >>= k).run d.begin (.error e) d.begin := by
  have hfind : Gives False (find id).run d.begin (d.find id) d.begin := gives_find d [] id
  rw [h] at hfind
  exact hfind.error_bind

theorem gives_of_find_ok {k : Cell → Attempt β} {s : Except SheetError β} (h : d.find id = .ok c)
    (hk : Gives False (k c).run d.begin s q) : Gives False (find id >>= k).run d.begin s q := by
  have hfind : Gives False (find id).run d.begin (d.find id) d.begin := gives_find d [] id
  rw [h] at hfind
  exact hfind.ok_bind hk

theorem follows_changeCell (hd : d.Valid) (hf : ∀ c, (f c).Of c)
    (hname : ∀ c, (f c).cell.name = c.name) (id : CellId) :
    Follows (changeCell id f) d (d.changeCell id f) := by
  cases hc : d.cell? id with
  | none =>
    rw [Document.changeCell_of_none hc]
    exact gives_of_find_error (find_of_none hc)
  | some c =>
    rw [Document.changeCell_of_cell? hc]
    have hid : (f c).cell.id = id := (hf c).id.trans (hd.keyed.id_of_cell? hc)
    have hcell : d.begin.document.cell? (f c).cell.id = some c := by rw [hid]; exact hc
    have hd' : (d.begin.take (f c)).document.Keyed := Keyed.take (p := d.begin) hd.keyed hcell
    have hnames := Keyed.names_take (p := d.begin) hd.keyed hc (hf c).id (hname c)
    refine gives_of_find_ok (find_of_cell? hc) ?_
    exact (Gives.advance hd.keyed hd' hnames).lift.ok_bind (gives_flush hd').lift

theorem follows_removeCell (hd : d.Valid) (id : CellId) :
    Follows (removeCell id) d (d.removeCell id) := by
  cases hc : d.cell? id with
  | none =>
    rw [Document.removeCell, find_of_none hc]
    exact gives_of_find_error (find_of_none hc)
  | some c =>
    rw [Document.removeCell, find_of_cell? hc]
    have hid : c.remove.cell.id = id := (hd.keyed.id_of_cell? hc : c.id = id)
    have hd' : (d.begin.take c.remove).document.Keyed :=
      Keyed.take (p := d.begin) hd.keyed (by rw [hid]; exact hc)
    have hnames : (d.begin.take c.remove).document.names = d.names :=
      Keyed.names_take (p := d.begin) hd.keyed hc rfl rfl
    refine gives_of_find_ok (find_of_cell? hc) ?_
    refine (Gives.advance hd.keyed hd' hnames).lift.ok_bind ?_
    refine (gives_changeCells _ _).lift.ok_bind ?_
    exact (gives_flush (hd'.eraseCell id)).lift

/-- Adding a cell leaves no index, since the new cell may be the first one of its name. -/
theorem gives_insertCell (p : Progress) (fresh : CellId) (o : CellOptions) :
    Gives False (insertCell fresh o).run p (Prod.fst <$> p.document.insertCell fresh o)
      (match p.document.insertCell fresh o with
        | .ok (_, d) => ⟨d, p.notices⟩
        | .error _ => p) := by
  unfold insertCell Document.insertCell
  dsimp only
  refine (gives_current p).lift.ok_bind ?_
  split
  · exact .pure _ p
  · refine (gives_index p).lift.ok_bind ?_
    exact (gives_changeCells _ p).lift.ok_bind (.pure _ _)

theorem follows_addCell (hd : d.Valid) (fresh : CellId) (o : CellOptions) :
    Follows (do let _ ← addCell fresh o) d (Prod.snd <$> d.addCell fresh o) := by
  have hinsert := gives_insertCell d.begin fresh o
  cases hcontains : Fields.contains d.cells (o.id?.getD fresh) with
  | true =>
    have herror : d.insertCell fresh o = .error (.duplicateId (o.id?.getD fresh)) := by
      rw [Document.insertCell, hcontains]
      rfl
    rw [Document.addCell, herror]
    rw [show d.begin.document.insertCell fresh o = _ from herror] at hinsert
    exact hinsert.error_bind.error_bind
  | false =>
    have hok : d.insertCell fresh o = .ok (o.id?.getD fresh, d.insertNew (o.id?.getD fresh) o) := by
      rw [Document.insertCell, hcontains]
      rfl
    rw [Document.addCell, hok]
    rw [show d.begin.document.insertCell fresh o = _ from hok] at hinsert
    have hrecompute : Gives False recompute (d.insertNew (o.id?.getD fresh) o).begin () _ :=
      gives_recompute (hd.insertNew hcontains o).keyed
    exact (hinsert.ok_bind (hrecompute.lift.ok_bind (.pure _ _))).ok_bind (.pure _ _)

/-! ### Renaming -/

theorem gives_refers (hd : p.document.Keyed) (id : CellId) (c : Cell) :
    Gives known (refers id c) p (p.document.refers id c) p :=
  (gives_current p).bind (Gives.anyM fun n _ => (gives_resolve hd n).map (· == some id))

theorem gives_renamedExpressions (hd : p.document.Keyed) (id : CellId) (old new : String)
    (cs : List Cell) : Gives known (renamedExpressions id old new cs) p
      ((cs.filter (p.document.refers id)).map fun c => (c.id, p.document.renamedText id old new c))
      p := by
  induction cs with
  | nil => exact .pure [] p
  | cons c cs ih =>
    refine (gives_refers hd id c).bind ?_
    rw [List.filter_cons]
    cases p.document.refers id c with
    | false => exact ih
    | true =>
      refine (gives_index p).bind ?_
      have hrenamed : (fun name => if resolveIn p.document.nameIndex name = some id then
          Expr.renamedReference old new name else none) = p.document.renamed? id old new := by
        funext name
        rw [hd.resolveIn_nameIndex, renamed?]
      simp only [hrenamed]
      exact ih.map _

theorem gives_renameSteps (hd : p.document.Keyed) (id : CellId) (old new : String) :
    Gives known (renameSteps id old new) p (p.document.renameSteps id old new) p :=
  (gives_current p).bind ((gives_renamedExpressions hd id old new _).map _)

/-- A document whose names have been looked up. -/
def looked (p : Progress) : IndexedDocument := ⟨p, some p.document.nameIndex⟩

theorem at_looked (p : Progress) : At known p (looked p) :=
  ⟨rfl, fun _ h => (Option.some.inj h).symm, fun _ => rfl⟩

/-- Once the names have been looked up, a further look changes nothing. -/
theorem Gives.run_looked {x : Work α} {a : α} (h : Gives True x p a p) :
    x (looked p) = (a, looked p) := by
  obtain ⟨⟨_, index?⟩, hx, hp, hs, hsome⟩ := h (looked p) (at_looked p)
  obtain rfl : _ = p := hp
  obtain ⟨index, rfl⟩ := Option.isSome_iff_exists.mp (hsome trivial)
  rw [hx, looked, ← hs index rfl]

theorem makeChanges_run (m : IndexedDocument) (steps : List (CellId × (Cell → Change))) :
    makeChanges steps m = ((), { m with toProgress := m.toProgress.changes steps }) := by
  induction steps generalizing m with
  | nil => rfl
  | cons s steps ih => exact ih { m with toProgress := m.toProgress.change s.1 s.2 }

theorem run_bind (x : Attempt α) (k : α → Attempt β) (m : IndexedDocument) :
    (x >>= k).run m = match x.run m with
      | (.ok a, m') => (k a).run m'
      | (.error e, m') => (.error e, m') := by
  show (match x.run m with | (r, m') => ExceptT.bindCont k r m') = _
  obtain ⟨r, m'⟩ := x.run m
  cases r <;> rfl

theorem run_lift (x : Work α) (m : IndexedDocument) :
    (liftM x : Attempt α).run m = (.ok (x m).1, (x m).2) := rfl

theorem find_run (m : IndexedDocument) (id : CellId) :
    (find id).run m = (m.document.find id, m) := by
  show (ofExcept (m.document.find id) : Attempt Cell).run m = _
  cases m.document.find id <;> rfl

/-- A name that expressions can refer to is looked up, and is let through if no other cell has
it. -/
theorem checkName_run (hd : p.document.Keyed) {m : IndexedDocument}
    (hm : At False p m) (id : CellId) (name : String) : (checkName id name).run m =
      if p.document.engine.isValidName name = false then (.error (.invalidName name), m)
      else if (p.document.named? name).any (· != id) then (.error (.nameTaken name), looked p)
      else (.ok (), looked p) := by
  obtain ⟨rfl, hs, -⟩ := hm
  have hcurrent : current m = (m.document, m) := rfl
  unfold checkName
  simp only [run_bind, run_lift, hcurrent]
  cases m.document.engine.isValidName name with
  | false => rfl
  | true =>
    simp only [Bool.not_true, Bool.false_eq_true, if_false, reduceCtorEq, run_bind, run_lift,
      index_of_sound hs, hd.get?_nameIndex]
    split <;> rfl

/-- A rename that goes through works out its changes by the names before it, and makes them one
after the other. The index is that of the names before it until the inbox is emptied. -/
theorem renameCell_run (hd : d.Valid) {name : String} (hc : d.cell? id = some c)
    (h : d.Renamable id name) {m : IndexedDocument} (hm : At False d.begin m) :
    (renameCell id name).run m =
      (.ok (), (flush ⟨d.begin.changes (d.renameSteps id c.name name), some d.nameIndex⟩).2) := by
  obtain ⟨c', hc', hname, hvalid, hnamed⟩ := h
  rw [hc, Option.some.injEq] at hc'
  subst hc'
  have hfind : m.document.find id = .ok c := by
    rw [hm.progress]
    exact find_of_cell? hc
  have hcheck : (checkName id name).run m = (.ok (), looked d.begin) := by
    rw [checkName_run (p := d.begin) hd.keyed hm id name]
    simp [Document.begin, hvalid, hnamed]
  have hsteps := (gives_renameSteps (p := d.begin) hd.keyed id c.name name).run_looked
  unfold renameCell
  simp only [run_bind, run_lift, find_run, hfind, ne_eq, hname, not_false_eq_true, if_true,
    hcheck, hsteps, makeChanges_run]
  rfl

/-- The event of the new name is in the inbox once the changes of a rename are made. -/
theorem any_isRenamed_renameSteps (hd : d.Valid) {name : String} (hc : d.cell? id = some c)
    (hname : c.name ≠ name) :
    (d.begin.changes (d.renameSteps id c.name name)).document.inbox.any (fun e => e.2.isRenamed) =
      true := by
  have hof : ∀ s ∈ d.renameSteps id c.name name, ∀ c, (s.2 c).Of c := of_renameSteps
  have hbegin : d.begin.document.cell? id = some c := hc
  rw [any_inbox_changes (p := d.begin) hd.keyed hd.listens hof, Document.renameSteps,
    Progress.emitted, hbegin, Option.bind_some, rename_of_ne hname, List.any_append]
  simp [Cell.announce, CellEvent.isRenamed]

theorem follows_renameCell (hd : d.Valid) (id : CellId) (name : String) :
    Follows (renameCell id name) d (d.renameCell id name) := by
  cases hc : d.cell? id with
  | none =>
    rw [Document.renameCell, find_of_none hc]
    exact gives_of_find_error (find_of_none hc)
  | some c =>
    by_cases hname : c.name = name
    · have hsame : d.renameCell id name = .ok d.begin := by
        rw [Document.renameCell, find_of_cell? hc]
        simp [bind, Except.bind, hname, pure, Except.pure]
      rw [hsame]
      refine gives_of_find_ok (find_of_cell? hc) ?_
      rw [if_neg (not_not.mpr hname)]
      exact .ok () _
    by_cases hren : d.Renamable id name
    · rw [Document.renameCell_of_renamable hc hren]
      intro m hm
      have hkeyed : (d.begin.changes (d.renameSteps id c.name name)).document.Keyed :=
        Keyed.changes (p := d.begin) hd.keyed of_renameSteps
      have hrenamed := any_isRenamed_renameSteps hd hc hname
      obtain ⟨m', hflush, hat⟩ := flush_eq (m := ⟨d.begin.changes (d.renameSteps id c.name name),
        some d.nameIndex⟩) hkeyed (fun h => by rw [hrenamed] at h; cases h)
      refine ⟨m', ?_, hat⟩
      rw [renameCell_run hd hc hren hm, hflush]
    · obtain ⟨hrefused, htaken⟩ := hd.keyed.renameCell_refused hc hname hren
      rw [hrefused]
      refine gives_of_find_ok (find_of_cell? hc) ?_
      rw [if_pos hname]
      refine Gives.error_bind fun m hm => ?_
      rw [checkName_run (p := d.begin) hd.keyed hm]
      by_cases hvalid : d.engine.isValidName name = false
      · exact ⟨m, by simp [Document.begin, hvalid], hm⟩
      · have hfree := htaken (Bool.not_eq_false _ ▸ hvalid)
        exact ⟨looked d.begin, by simp [Document.begin, hvalid, hfree], at_looked _⟩

/-! ### All operations -/

def perform : Operation → Attempt Unit
  | .addCell fresh o => do let _ ← addCell fresh o
  | .removeCell id => removeCell id
  | .renameCell id name => renameCell id name
  | .updateExpression id source => do
    changeCell id (Cell.updateExpression (← current).engine source)
  | .transformExpression id f => do changeCell id (Cell.transformExpression (← current).engine f)
  | .setInput id i => changeCell id (Cell.setInput i)
  | .clearInput id => changeCell id Cell.clearInput
  | .setValue id v => changeCell id (Cell.setValue v)
  | .setInputValue id v => setInputValue id v
  | .setTags id tags => changeCell id (Cell.setTags tags)
  | .addTag id tag => do let _ ← addTag id tag
  | .removeTag id tag => do let _ ← removeTag id tag
  | .setContext name v => setContext name v
  | .recomputeAll => recompute
  | .onChange => modifyDocument fun d => d.onChange.2
  | .removeListener l => modifyDocument fun d => (d.removeListener l).2
  | .subscribe id => do let _ ← plainly (Document.subscribe · id)
  | .unsubscribe id l => do let _ ← plainly (Document.unsubscribe · id l)

theorem follows_setInputValue (hd : d.Valid) (id : CellId) (v : Value) :
    Follows (setInputValue id v) d (d.setInputValue id v) := by
  have hchange := follows_changeCell hd (Cell.of_setValue v) (fun _ => rfl) id
  cases hc : d.cell? id with
  | none =>
    rw [Document.setInputValue, find_of_none hc]
    exact gives_of_find_error (find_of_none hc)
  | some c =>
    have hfind : d.find id = .ok c := find_of_cell? hc
    rw [changeCell_of_cell? hc] at hchange
    cases hinput : c.input? with
    | none =>
      have hplain : d.setInputValue id v = .error (.invalidInputValue (.noInput id)) := by
        rw [Document.setInputValue, hfind]
        simp only [bind, Except.bind, hinput]
        rfl
      rw [hplain]
      refine gives_of_find_ok hfind ?_
      rw [hinput]
      exact .error _ _
    | some i =>
      cases hfault : i.fault? v with
      | some fault =>
        have hplain : d.setInputValue id v = .error (.invalidInputValue fault) := by
          rw [Document.setInputValue, hfind]
          simp only [bind, Except.bind, hinput, hfault]
          rfl
        rw [hplain]
        refine gives_of_find_ok hfind ?_
        simp only [hinput, hfault]
        exact .error _ _
      | none =>
        have hplain : d.setInputValue id v = .ok (d.begin.take (c.setValue v)).flush := by
          rw [Document.setInputValue, hfind]
          simp only [bind, Except.bind, hinput, hfault]
          exact changeCell_of_cell? hc _
        rw [hplain]
        refine gives_of_find_ok hfind ?_
        simp only [hinput, hfault]
        exact hchange

theorem follows_plainly (hd : d.Valid) {g : Document → Except SheetError (α × Document)}
    (h : ∀ a d', g d = .ok (a, d') → d'.Keyed ∧ d'.names = d.names) :
    Follows (do let _ ← plainly g) d ((·.2.begin) <$> g d) := by
  have hcurrent : Gives False current d.begin d d.begin := gives_current d.begin
  cases hg : g d with
  | error e =>
    refine Gives.error_bind (hcurrent.lift.ok_bind ?_)
    rw [hg]
    exact (Gives.error e _).error_bind
  | ok r =>
    obtain ⟨a, d'⟩ := r
    obtain ⟨hd', hnames⟩ := h a d' hg
    have hmodify : Gives False (modifyDocument fun _ => d') d.begin () d'.begin :=
      Gives.advance hd.keyed hd' hnames
    have hplainly : Gives False (plainly g).run d.begin (.ok a) d'.begin := by
      refine hcurrent.lift.ok_bind ?_
      rw [hg]
      exact (Gives.ok (a, d') _).ok_bind (hmodify.lift.ok_bind (.ok a _))
    exact hplainly.ok_bind (.ok () _)

/-- New listeners of a cell do not touch its name. -/
theorem keyed_names_putCell (hd : d.Keyed) (hc : d.cell? id = some c) (ls : Listeners) :
    (d.putCell { c with listeners := ls }).Keyed ∧
    (d.putCell { c with listeners := ls }).names = d.names := by
  have hid : c.id = id := hd.id_of_cell? hc
  have hput : d.cell? c.id ≠ none := by
    rw [hid, hc]
    exact Option.some_ne_none c
  exact ⟨hd.putCell (c := { c with listeners := ls }) hput, hd.names_putCell hc rfl rfl⟩

theorem follows_current {k : Document → Attempt Unit} {s : Except SheetError Progress}
    (h : Follows (k d) d s) : Follows (do k (← current)) d s := by
  have hcurrent : Gives False current d.begin d d.begin := gives_current d.begin
  cases s with
  | ok q => exact hcurrent.lift.ok_bind h
  | error e => exact hcurrent.lift.ok_bind h

/-- A change of a cell may be answered by what the cell was before. -/
theorem Follows.answered (h : Follows (changeCell id f) d (d.changeCell id f)) (answer : Cell → β) :
    Follows
      ((find id >>= fun c => changeCell id f >>= fun _ => pure (answer c)) >>= fun _ => pure ()) d
      (d.changeCell id f) := by
  cases hc : d.cell? id with
  | none =>
    rw [changeCell_of_none hc]
    exact (gives_of_find_error (find_of_none hc)).error_bind
  | some c =>
    rw [changeCell_of_cell? hc] at h ⊢
    refine Gives.ok_bind (a := answer c) (gives_of_find_ok (find_of_cell? hc) ?_) (.ok () _)
    exact h.ok_bind (.ok _ _)

theorem follows_of_change? (hd : d.Valid) (h : op.change? d.engine = some (id, f)) :
    Follows (perform op) d (op.course d) := by
  have hchange := follows_changeCell hd (Operation.of_change? h)
    (fun c => (Operation.makes_of_change? h c).name_eq) id
  cases op <;> simp only [Operation.change?, reduceCtorEq, Option.some.injEq, Prod.mk.injEq] at h
  all_goals obtain ⟨rfl, rfl⟩ := h
  case updateExpression => exact follows_current hchange
  case transformExpression => exact follows_current hchange
  case setInputValue id v => exact follows_setInputValue hd id v
  case addTag id tag =>
    have hcourse : (Operation.addTag id tag).course d = d.changeCell id (Cell.addTag tag) := by
      rw [Operation.course, Document.addTag, Document.changeCell]
      cases d.find id <;> rfl
    exact hcourse ▸ hchange.answered (fun c => !c.tags.contains tag)
  case removeTag id tag =>
    have hcourse :
        (Operation.removeTag id tag).course d = d.changeCell id (Cell.removeTag tag) := by
      rw [Operation.course, Document.removeTag, Document.changeCell]
      cases d.find id <;> rfl
    exact hcourse ▸ hchange.answered (fun c => c.tags.contains tag)
  all_goals exact hchange

theorem follows_perform (hd : d.Valid) (op : Operation) : Follows (perform op) d (op.course d) := by
  cases hchange : op.change? d.engine with
  | some change => exact follows_of_change? hd hchange
  | none =>
    cases op <;> simp only [Operation.change?, reduceCtorEq] at hchange
    case addCell fresh o => exact follows_addCell hd fresh o
    case removeCell id => exact follows_removeCell hd id
    case renameCell id name => exact follows_renameCell hd id name
    case setContext name v =>
      have hd' : ({ d with context := Fields.insert d.context name v } : Document).Keyed :=
        ⟨hd.keyed.nodup, hd.keyed.id_eq⟩
      have hmodify :
          Gives False (modifyDocument fun d => { d with context := Fields.insert d.context name v })
          d.begin () ({ d with context := Fields.insert d.context name v } : Document).begin :=
        Gives.advance hd.keyed hd' rfl
      exact (hmodify.bind (gives_recompute hd')).lift
    case recomputeAll => exact (gives_recompute (p := d.begin) hd.keyed).lift
    case onChange =>
      exact (Gives.advance (p := d.begin) hd.keyed ⟨hd.keyed.nodup, hd.keyed.id_eq⟩ rfl).lift
    case removeListener l =>
      exact (Gives.advance (p := d.begin) hd.keyed ⟨hd.keyed.nodup, hd.keyed.id_eq⟩ rfl).lift
    case subscribe id =>
      refine follows_plainly hd fun a d' h => ?_
      cases hc : d.cell? id with
      | none =>
        rw [Document.subscribe, find_of_none hc] at h
        cases h
      | some c =>
        rw [Document.subscribe, find_of_cell? hc] at h
        cases h
        exact keyed_names_putCell hd.keyed hc _
    case unsubscribe id l =>
      refine follows_plainly hd fun a d' h => ?_
      by_cases hown : Fields.get? d.subscriptions id = some l
      · rw [Document.unsubscribe, if_pos hown] at h
        cases h
        exact ⟨hd.keyed, rfl⟩
      · rw [Document.unsubscribe, if_neg hown] at h
        cases hc : d.cell? id with
        | none =>
          rw [find_of_none hc] at h
          cases h
        | some c =>
          rw [find_of_cell? hc] at h
          cases h
          exact keyed_names_putCell hd.keyed hc _

variable {m : IndexedDocument}

theorem At.of_sound (hs : m.Sound) : At False m.toProgress m := ⟨rfl, hs, False.elim⟩

theorem at_begin (hs : m.Sound) : At False m.document.begin m.begin := ⟨rfl, hs, False.elim⟩

/-- **A document with an index does what one does that goes through its cells**: the operation
succeeds or fails alike, and leads to the same document, and the index is not out of date after
it. -/
theorem perform_eq (hs : m.Sound) (hd : m.document.Valid) (op : Operation) :
    ((perform op).run m.begin).1 = (fun _ => ()) <$> op.course m.document ∧
      ((perform op).run m.begin).2.document = m.document.step op ∧
      ((perform op).run m.begin).2.Sound := by
  have hfollows := follows_perform hd op
  cases hcourse : op.course m.document with
  | ok q =>
    rw [hcourse] at hfollows
    obtain ⟨m', hrun, rfl, hsound, -⟩ := hfollows m.begin (at_begin hs)
    rw [Operation.step_of_course hcourse]
    have hrun' : (perform op).run m.begin = (.ok (), m') := hrun
    rw [hrun']
    exact ⟨rfl, rfl, hsound⟩
  | error e =>
    rw [hcourse] at hfollows
    obtain ⟨m', hrun, hprogress, hsound, -⟩ := hfollows m.begin (at_begin hs)
    rw [Operation.step_of_course_error hcourse]
    have hrun' : (perform op).run m.begin = (.error e, m') := hrun
    rw [hrun']
    have hdocument := congrArg Progress.document hprogress
    exact ⟨rfl, hdocument, hsound⟩

/-! ### Records -/

theorem gives_row (hd : p.document.Keyed) (c : Cell) :
    Gives known (row c) p (p.document.row c) p := by
  refine (gives_current p).bind (Gives.map (a := (p.document.row c).dependencies) ?_ _)
  unfold Document.row
  rw [List.foldl_filterMap]
  refine Gives.foldlM (fun ids n _ => (gives_resolve hd n).bind ?_) []
  cases p.document.resolve? n with
  | some id => exact .pure _ p
  | none => exact .pure _ p

theorem gives_record (hd : p.document.Keyed) : Gives known record p p.document.record p :=
  (gives_current p).bind ((Gives.mapM fun c _ => gives_row hd c).map Record.mk)

/-- Rows are added alike, or adding one of them fails. -/
theorem gives_insertRows (rows : List Row) (p : Progress) :
    match rows.foldlM (fun d row => Prod.snd <$> d.insertCell row.id (rowOptions row))
      p.document with
    | .ok d => Gives False (insertRows rows).run p (.ok ()) ⟨d, p.notices⟩
    | .error e => ∃ q, Gives False (insertRows rows).run p (.error e) q := by
  induction rows generalizing p with
  | nil => exact Gives.ok () p
  | cons row rows ih =>
    have hinsert := gives_insertCell p row.id (rowOptions row)
    rw [List.foldlM_cons]
    cases h : p.document.insertCell row.id (rowOptions row) with
    | error e =>
      rw [h] at hinsert
      exact ⟨_, hinsert.error_bind⟩
    | ok r =>
      obtain ⟨id, d⟩ := r
      rw [h] at hinsert
      have hrest := ih ⟨d, p.notices⟩
      show match rows.foldlM (fun d row => Prod.snd <$> d.insertCell row.id (rowOptions row)) d with
        | .ok d => _
        | .error e => _
      cases hrows :
        rows.foldlM (fun d row => Prod.snd <$> d.insertCell row.id (rowOptions row)) d with
      | ok d' =>
        rw [hrows] at hrest
        exact hinsert.ok_bind hrest
      | error e =>
        rw [hrows] at hrest
        obtain ⟨q, hq⟩ := hrest
        exact ⟨q, hinsert.ok_bind hq⟩

/-- A record is read alike. -/
theorem ofRecord_eq (eng : Engine) (context : Fields Value) (r : Record) :
    (·.document) <$> ofRecord eng context r = Document.ofRecord eng context r ∧
      ∀ m, ofRecord eng context r = .ok m → m.Sound := by
  have hsound : (create eng context).Sound := fun index h => by cases h
  have hrows := gives_insertRows r.rows (Document.create eng context).begin
  unfold ofRecord load Document.ofRecord
  cases h : r.rows.foldlM (fun d row => Prod.snd <$> d.insertCell row.id (rowOptions row))
      (Document.create eng context) with
  | error e =>
    rw [show List.foldlM _ (Document.create eng context).begin.document r.rows = _ from h] at hrows
    obtain ⟨q, hq⟩ := hrows
    obtain ⟨m, hrun, -⟩ := hq.error_bind (k := fun _ => liftM recompute) _ (At.of_sound hsound)
    rw [hrun]
    exact ⟨rfl, fun m h => by cases h⟩
  | ok d =>
    rw [show List.foldlM _ (Document.create eng context).begin.document r.rows = _ from h] at hrows
    obtain ⟨hvalid, -⟩ := foldlM_insertCell (P := fun _ => True) (fun _ _ _ _ => trivial)
      (valid_create eng context) trivial h
    obtain ⟨m, hrun, hat⟩ := hrows.ok_bind (k := fun _ => liftM recompute)
      (gives_recompute hvalid.keyed).lift _ (At.of_sound hsound)
    rw [hrun]
    refine ⟨congrArg (Except.ok ∘ Progress.document) hat.progress, fun m' hm' => ?_⟩
    cases hm'
    exact hat.sound

end IndexedDocument

end FormulaSheet
