import FormulaSheet.Proofs.Document.IndexOperations
import FormulaSheet.Proofs.Document.NameHistory

/-!
# The index of names is never out of date

A document with an index is created, or read from a record, and then operations and lookups follow
in any order, while time goes on around it. At every moment between them the index, if there is one,
is that of the present names, whether the operations succeeded or failed (`Reachable.sound`). Where
the surroundings stay the same, the document is the one that the operations alone lead to
(`Sound.run`). In the course of a rename the index is that of the names before it
(`Renaming.resolve_eq`). So names refer to what they should at all of these moments
(`Reachable.names_current`).
-/

namespace FormulaSheet.IndexedDocument

open Document

variable {α : Type} {m m' : IndexedDocument} {id : CellId} {c : Cell} {name : String}

/-! ### Runs -/

/-- What can be asked of a document from outside, with the arguments. The listeners of a document
are told of an operation at its end, so what they look up is asked right after it. -/
inductive Call where
  | operate (op : Operation)
  | resolve (name : String)
  | cellNamed (name : String)
  | record

/-- The operation that the call makes. A lookup makes none. -/
def Call.operation? : Call → Option Operation
  | operate op => some op
  | _ => none

/-- The document after a call. An operation that fails may still have made an index. -/
def call (m : IndexedDocument) : Call → IndexedDocument
  | .operate op => ((perform op).run m.begin).2
  | .resolve name => (resolve name m).2
  | .cellNamed name => (cellNamed? name m).2
  | .record => (record m).2

/-- The document after calls one after the other. -/
def run (m : IndexedDocument) (calls : List Call) : IndexedDocument := calls.foldl call m

/-- A document without cells, or one that was read from a record. -/
inductive Initial : IndexedDocument → Prop
  | create (eng : Engine) (context : Fields Value) : Initial (create eng context)
  | ofRecord {eng : Engine} {context : Fields Value} {r : Record} {m : IndexedDocument}
      (h : ofRecord eng context r = .ok m) : Initial m

/-- The document with other functions. -/
def withRegistry (m : IndexedDocument) (r : Registry) : IndexedDocument :=
  { m with document := m.document.withRegistry r }

/-- A document that calls lead to. Where its functions are the builtin ones, their surroundings may
change between two calls. -/
inductive Reachable : IndexedDocument → Prop
  | initial {m : IndexedDocument} (h : Initial m) : Reachable m
  | step {m : IndexedDocument} (h : Reachable m) (k : Call) : Reachable (m.call k)
  | surround {m : IndexedDocument} {ambient : Builtin.Ambient} (h : Reachable m)
      (hbuiltin : m.document.engine.registry = .builtins ambient) (ambient' : Builtin.Ambient) :
      Reachable (m.withRegistry (.builtins ambient'))

theorem Gives.apply {x : Work α} {a : α} (h : Gives False x m.toProgress a m.toProgress)
    (hs : m.Sound) : (x m).1 = a ∧ (x m).2.document = m.document ∧ (x m).2.Sound := by
  obtain ⟨m', hx, hat⟩ := h m (At.of_sound hs)
  rw [hx]
  exact ⟨rfl, congrArg Progress.document hat.progress, hat.sound⟩

theorem Sound.call (hs : m.Sound) (hd : m.document.Valid) (k : Call) :
    (m.call k).Sound ∧ (m.call k).document = k.operation?.elim m.document m.document.step := by
  cases k with
  | operate op =>
    obtain ⟨-, hdocument, hsound⟩ := perform_eq hs hd op
    exact ⟨hsound, hdocument⟩
  | resolve name =>
    obtain ⟨-, hdocument, hsound⟩ := (gives_resolve (p := m.toProgress) hd.keyed name).apply hs
    exact ⟨hsound, hdocument⟩
  | cellNamed name =>
    obtain ⟨-, hdocument, hsound⟩ := (gives_cellNamed? (p := m.toProgress) hd.keyed name).apply hs
    exact ⟨hsound, hdocument⟩
  | record =>
    obtain ⟨-, hdocument, hsound⟩ := (gives_record (p := m.toProgress) hd.keyed).apply hs
    exact ⟨hsound, hdocument⟩

/-- **Calls keep the index sound**, and lead to the document that their operations alone lead to. -/
theorem Sound.run (hs : m.Sound) (hd : m.document.Valid) (calls : List Call) :
    (m.run calls).Sound ∧
    (m.run calls).document = m.document.run (calls.filterMap Call.operation?) := by
  induction calls generalizing m with
  | nil => exact ⟨hs, rfl⟩
  | cons k calls ih =>
    obtain ⟨hsound, hdocument⟩ := hs.call hd k
    have hvalid : (m.call k).document.Valid := by
      rw [hdocument]
      cases k.operation? with
      | none => exact hd
      | some op => exact hd.step op
    obtain ⟨hsound', hdocument'⟩ := ih hsound hvalid
    refine ⟨hsound', hdocument'.trans ?_⟩
    rw [hdocument, List.filterMap_cons]
    cases k.operation? <;> rfl

theorem Initial.sound (h : Initial m) : m.Sound ∧ Document.Initial m.document := by
  cases h with
  | create eng context => exact ⟨(fun index h => by cases h), .create eng context⟩
  | @ofRecord eng context r _ h =>
    obtain ⟨hdocument, hsound⟩ := ofRecord_eq eng context r
    rw [h] at hdocument
    exact ⟨hsound m h, .ofRecord hdocument.symm⟩

theorem Reachable.run (hm : m.Reachable) (calls : List Call) : (m.run calls).Reachable := by
  induction calls generalizing m with
  | nil => exact hm
  | cons k calls ih => exact ih (hm.step k)

/-- The functions have no part in the names. -/
theorem Sound.withRegistry (hs : m.Sound) (r : Registry) : (m.withRegistry r).Sound := hs

/-- **The index is sound at every moment**, and the documents with an index are among those
that operations lead to. -/
theorem Reachable.sound (hm : m.Reachable) : m.Sound ∧ m.document.Reachable := by
  induction hm with
  | initial h => exact ⟨h.sound.1, .initial h.sound.2⟩
  | @step m _ k ih =>
    obtain ⟨hs, hd⟩ := ih
    obtain ⟨hsound, hdocument⟩ := hs.call hd.valid k
    refine ⟨hsound, ?_⟩
    rw [hdocument]
    cases k.operation? with
    | none => exact hd
    | some op => exact hd.step op
  | surround _ hbuiltin ambient' ih => exact ⟨ih.1.withRegistry _, ih.2.surround hbuiltin ambient'⟩

/-! ### In the course of a rename -/

/-- The document when the new name of a rename is checked. -/
def checked (m : IndexedDocument) (id : CellId) (name : String) : IndexedDocument :=
  ((checkName id name).run m.begin).2

/-- The document is on the way of a rename: the new expressions are worked out for the cells one
after the other, or the new name and the new expressions are put in one after the other. The
inbox is still to be emptied. -/
inductive Renaming (m : IndexedDocument) (id : CellId) (old new : String) : IndexedDocument → Prop
  | rewriting (j : Nat) :
      Renaming m id old new
        (renamedExpressions id old new (m.document.cellList.take j) (m.checked id new)).2
  | changing (k : Nat) :
      Renaming m id old new (makeChanges ((renameSteps id old new (m.checked id new)).1.take k)
        (renameSteps id old new (m.checked id new)).2).2

theorem Sound.checked (hs : m.Sound) (hd : m.document.Valid) (h : m.document.Renamable id name) :
    m.checked id name = looked m.document.begin := by
  obtain ⟨-, -, -, hvalid, hnamed⟩ := h
  rw [IndexedDocument.checked, checkName_run (p := m.document.begin) hd.keyed (at_begin hs)]
  simp [Document.begin, hvalid, hnamed]

/-- On the way of a rename names refer to what they did before it. -/
theorem Renaming.resolve_eq (hs : m.Sound) (hd : m.document.Valid)
    (h : m.document.Renamable id name) {old : String} (hm' : m.Renaming id old name m')
    (n : String) : resolve n m' = (m.document.resolve? n, m') := by
  have hindex : ∀ q : Progress, resolve n ⟨q, some m.document.nameIndex⟩ =
      (m.document.resolve? n, ⟨q, some m.document.nameIndex⟩) := by
    intro q
    rw [← hd.keyed.resolveIn_nameIndex]
    rfl
  have hchecked := hs.checked hd h
  cases hm' with
  | rewriting j =>
    have htexts := (gives_renamedExpressions (p := m.document.begin) hd.keyed id old name
      (m.document.cellList.take j)).run_looked
    rw [hchecked, htexts]
    exact hindex _
  | changing k =>
    have hsteps := (gives_renameSteps (p := m.document.begin) hd.keyed id old name).run_looked
    rw [hchecked, hsteps, makeChanges_run]
    exact hindex _

/-- What is left of a rename when all of its changes are made is to empty the inbox. -/
theorem Sound.renameCell_eq (hs : m.Sound) (hd : m.document.Valid)
    (hc : m.document.cell? id = some c) (h : m.document.Renamable id name) :
    (renameCell id name).run m.begin = (.ok (), (flush (makeChanges
      (renameSteps id c.name name (m.checked id name)).1
      (renameSteps id c.name name (m.checked id name)).2).2).2) := by
  have hsteps := (gives_renameSteps (p := m.document.begin) hd.keyed id c.name name).run_looked
  rw [renameCell_run hd hc h (at_begin hs), hs.checked hd h, hsteps, makeChanges_run]
  rfl

/-! ### Names refer to what they should -/

/-- **Names always refer to the first cell that has them.** Between calls this is by the present
names in the order in which the cells were added, and on the way of a rename by the names before
it. -/
theorem Reachable.names_current (hm : m.Reachable) :
    (∀ n a, (resolve n m).1 = some a ↔ m.document.RefersTo n a) ∧
    (∀ op, (m.call (.operate op)).document.names = match ((perform op).run m.begin).1 with
      | .ok () => m.document.namesAfter op
      | .error _ => m.document.names) ∧
    ∀ id c name, m.document.cell? id = some c → c.name ≠ name →
      ((perform (.renameCell id name)).run m.begin).1 = .ok () →
      (∀ m', m.Renaming id c.name name m' → ∀ n a, (resolve n m').1 = some a ↔
        m.document.RefersTo n a) ∧
      m.call (.operate (.renameCell id name)) = (flush (makeChanges
        (renameSteps id c.name name (m.checked id name)).1
          (renameSteps id c.name name (m.checked id name)).2).2).2 := by
  obtain ⟨hs, hreachable⟩ := hm.sound
  have hd := hreachable.valid
  refine ⟨fun n a => ?_, fun op => ?_, fun id c name hc hname hok => ?_⟩
  · obtain ⟨hanswer, -, -⟩ := (gives_resolve (p := m.toProgress) hd.keyed n).apply hs
    rw [hanswer]
    exact resolve?_eq_some_iff_refersTo
  · obtain ⟨houtcome, hdocument, -⟩ := perform_eq hs hd op
    rw [houtcome, call, hdocument]
    cases hcourse : op.course m.document with
    | ok p =>
      rw [Operation.step_of_course hcourse]
      exact hd.names_of_course hcourse
    | error e =>
      rw [Operation.step_of_course_error hcourse]
      rfl
  · obtain ⟨houtcome, -, -⟩ := perform_eq hs hd (.renameCell id name)
    have hren : m.document.Renamable id name := by
      cases hcourse : (Operation.renameCell id name).course m.document with
      | ok p => exact renamable_of_renameCell hd.keyed hc hname hcourse
      | error e =>
        rw [hcourse, hok] at houtcome
        cases houtcome
    refine ⟨fun m' hm' n a => ?_, ?_⟩
    · rw [hm'.resolve_eq hs hd hren]
      exact resolve?_eq_some_iff_refersTo
    · exact congrArg Prod.snd (hs.renameCell_eq hd hc hren)

/-- Of two cells with the name `x` the first is removed after lookups, and a rename of
the other one is refused. -/
def removedDocument : IndexedDocument :=
  (create ⟨.empty, .empty, .default⟩ []).run
    [.operate (.addCell "a" ⟨none, "x", "null", none, []⟩),
      .operate (.addCell "b" ⟨none, "x", "true", none, []⟩),
      .operate (.addCell "c" ⟨none, "y", "$x", none, []⟩), .resolve "x", .operate (.removeCell "a"),
      .resolve "x", .operate (.renameCell "b" "y")]

/-- The other cell is found, and in the course of a rename that goes through it is still
found by the name before. -/
theorem names_current_of_removed :
    removedDocument.Reachable ∧ removedDocument.document.RefersTo "$x" "b" ∧
      ∃ m', removedDocument.Renaming "b" "x" "z" m' ∧ m'.document.named? "z" = some "b" ∧
        (resolve "$x" m').1 = some "b" ∧ ¬ removedDocument.document.RefersTo "z" "b" ∧
        (resolve "z" m').1 ≠ some "b" := by
  have hm : removedDocument.Reachable := (Reachable.initial (.create _ _)).run _
  have hnamed : (removedDocument.document.cell? "b").map Cell.name = some "x" := by decide +kernel
  obtain ⟨c, hc, hname⟩ := Option.map_eq_some_iff.mp hnamed
  have hok : ((perform (.renameCell "b" "z")).run removedDocument.begin).1 = .ok () := by
    have hisOk : ((perform (.renameCell "b" "z")).run removedDocument.begin).1.isOk = true := by
      decide +kernel
    cases h : ((perform (.renameCell "b" "z")).run removedDocument.begin).1 with
    | ok => rfl
    | error e =>
      rw [h] at hisOk
      cases hisOk
  obtain ⟨hresolve, -, hrename⟩ := hm.names_current
  obtain ⟨hrenaming, -⟩ := hrename "b" c "z" hc (by rw [hname]; decide) hok
  rw [hname] at hrenaming
  have hrefers : removedDocument.document.RefersTo "$x" "b" :=
    (hresolve "$x" "b").mp (by decide +kernel)
  have hnot : ¬ removedDocument.document.RefersTo "z" "b" := fun h =>
    absurd ((hresolve "z" "b").mpr h) (by decide +kernel)
  have hm' := @Renaming.changing removedDocument "b" "x" "z" 1
  refine ⟨hm, hrefers, _, hm', by decide +kernel, (hrenaming _ hm' "$x" "b").mpr hrefers,
    hnot, fun h => ?_⟩
  exact hnot ((hrenaming _ hm' "z" "b").mp h)

end FormulaSheet.IndexedDocument
