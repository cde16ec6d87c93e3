import FormulaSheet.Proofs.Document.Names

/-!
# What a pass does to a document

A pass gives cells results, which consist of a value and an evaluation error, and changes nothing
else of them (`SameShape`). In the order of evaluation every cell comes after all it reads. Whatever
a cell read when it was visited is therefore what stands there in the end, and the result of every
cell can be told from the document after the pass (`Keyed.cell?_recompute`).
-/

namespace FormulaSheet

namespace Cell

/-- What a pass gives a cell: its value and the error of its evaluation. -/
def result (c : Cell) : Value × Option FormulaError := (c.value, c.evalError?)

/-- The cell with another result. -/
def withResult (c : Cell) (r : Value × Option FormulaError) : Cell :=
  { c with value := r.1, evalError? := r.2 }

@[simp] theorem withResult_result (c : Cell) : c.withResult c.result = c := rfl

@[simp] theorem result_withResult (c : Cell) (r : Value × Option FormulaError) :
    (c.withResult r).result = r := rfl

@[simp] theorem value_withResult (c : Cell) (r : Value × Option FormulaError) :
    (c.withResult r).value = r.1 := rfl

theorem error?_withResult (c : Cell) (r : Value × Option FormulaError) :
    (c.withResult r).error? = (c.compileError? <|> r.2) := rfl

@[simp] theorem withResult_withResult (c : Cell) (r s : Value × Option FormulaError) :
    (c.withResult r).withResult s = c.withResult s := rfl

end Cell

namespace Document

variable {d d' d'' : Document} {id : CellId} {c : Cell} {n : String}

/-! ### Documents that differ in results only -/

/-- Two documents have the same cells, apart from their results. The graph and the counts of the
last pass may differ as well. -/
structure SameShape (d d' : Document) : Prop where
  engine : d'.engine = d.engine
  context : d'.context = d.context
  subscriptions : d'.subscriptions = d.subscriptions
  inbox : d'.inbox = d.inbox
  listeners : d'.listeners = d.listeners
  cells : d'.cells.map (fun p => (p.1, p.2.withResult (.absent, none))) =
    d.cells.map fun p => (p.1, p.2.withResult (.absent, none))

namespace SameShape

theorem refl (d : Document) : d.SameShape d := ⟨rfl, rfl, rfl, rfl, rfl, rfl⟩

theorem trans (h : d.SameShape d') (h' : d'.SameShape d'') : d.SameShape d'' :=
  ⟨h'.engine.trans h.engine, h'.context.trans h.context, h'.subscriptions.trans h.subscriptions,
    h'.inbox.trans h.inbox, h'.listeners.trans h.listeners, h'.cells.trans h.cells⟩

theorem symm (h : d.SameShape d') : d'.SameShape d :=
  ⟨h.engine.symm, h.context.symm, h.subscriptions.symm, h.inbox.symm,
    h.listeners.symm, h.cells.symm⟩

theorem stats (h : d.SameShape d') (s : Stats) : d.SameShape { d' with stats := s } :=
  ⟨h.engine, h.context, h.subscriptions, h.inbox, h.listeners, h.cells⟩

/-- What is read off the cells without their results is the same for both documents. -/
theorem map_cells {α : Type} (h : d.SameShape d') (f : CellId × Cell → α)
    (hf : ∀ p, f (p.1, p.2.withResult (.absent, none)) = f p) : d'.cells.map f = d.cells.map f := by
  have hmap : ∀ d : Document,
      d.cells.map f = (d.cells.map fun p => (p.1, p.2.withResult (.absent, none))).map f := by
    intro d
    rw [List.map_map]
    exact List.map_congr_left fun p _ => (hf p).symm
  rw [hmap d', hmap d, h.cells]

theorem keys (h : d.SameShape d') : Fields.keys d'.cells = Fields.keys d.cells :=
  h.map_cells Prod.fst fun _ => rfl

theorem names (h : d.SameShape d') : d'.names = d.names := h.map_cells _ fun _ => rfl

theorem readNames (h : d.SameShape d') : d'.readNames = d.readNames := by
  unfold Document.readNames
  rw [h.engine]
  exact h.map_cells _ fun _ => rfl

theorem resolve? (h : d.SameShape d') (n : String) : d'.resolve? n = d.resolve? n :=
  resolve?_congr h.names n

theorem buildGraph (h : d.SameShape d') : d'.buildGraph = d.buildGraph :=
  buildGraph_congr h.readNames fun _ _ n _ => h.resolve? n

theorem keyed (h : d.SameShape d') (hd : d.Keyed) : d'.Keyed := by
  refine ⟨h.keys ▸ hd.nodup, ?_⟩
  have hids : d'.cells.map (fun p => (p.1, p.2.id)) = d.cells.map fun p => (p.1, p.2.id) :=
    h.map_cells _ fun _ => rfl
  intro p hp
  have hmem : (p.1, p.2.id) ∈ d.cells.map fun p => (p.1, p.2.id) := by
    rw [← hids]
    exact List.mem_map.mpr ⟨p, hp, rfl⟩
  obtain ⟨q, hq, heq⟩ := List.mem_map.mp hmem
  obtain ⟨h1, h2⟩ := Prod.mk.inj heq
  rw [← h1, ← h2]
  exact hd.id_eq q hq

/-- A cell of the one document stands in the other one with some result. -/
theorem cell? (h : d.SameShape d') (hc : d.cell? id = some c) :
    ∃ r, d'.cell? id = some (c.withResult r) := by
  have hget : Fields.get? d.cells id = some c := hc
  have hmap := congrArg (fun m => Fields.get? m id) h.cells
  rw [Fields.get?_map d'.cells (·.withResult (.absent, none)),
    Fields.get?_map d.cells (·.withResult (.absent, none)), hget, Option.map_some,
    Option.map_eq_some_iff] at hmap
  obtain ⟨c', hc', heq⟩ := hmap
  refine ⟨c'.result, ?_⟩
  rw [show d'.cell? id = some c' from hc', Option.some.injEq]
  exact (congrArg (Cell.withResult · c'.result) heq : _)

theorem reads (h : d.SameShape d') {a b : CellId} (hr : d.Reads a b) :
    d'.Reads a b := by
  obtain ⟨c, hc, n, hn, ha⟩ := hr
  obtain ⟨r, hc'⟩ := h.cell? hc
  refine ⟨_, hc', n, ?_, (h.resolve? n).trans ha⟩
  rw [h.engine]
  exact hn

end SameShape

/-! ### Results of single cells -/

/-- The document with another result for a cell. -/
def setResult (d : Document) (id : CellId) (r : Value × Option FormulaError) : Document :=
  { d with cells := Fields.modify d.cells id (·.withResult r) }

theorem cell?_setResult (d : Document) (id k : CellId) (r : Value × Option FormulaError) :
    (d.setResult id r).cell? k = if k = id then (d.cell? k).map (·.withResult r) else d.cell? k :=
  Fields.get?_modify d.cells id k (Cell.withResult · r)

theorem sameShape_setResult (d : Document) (id : CellId) (r : Value × Option FormulaError) :
    d.SameShape (d.setResult id r) := by
  refine ⟨rfl, rfl, rfl, rfl, rfl, ?_⟩
  simp only [setResult, Fields.modify, List.map_map]
  refine List.map_congr_left fun p _ => ?_
  simp only [Function.comp_apply]
  split <;> rfl

theorem Keyed.setResult_result (hd : d.Keyed) (hc : d.cell? id = some c) :
    d.setResult id c.result = d := by
  have hcells : Fields.modify d.cells id (·.withResult c.result) = d.cells := by
    refine (List.map_congr_left fun p hp => ?_).trans (List.map_id _)
    split
    · rename_i hid
      have hcell := hd.cell?_of_mem hp
      rw [hid, hc, Option.some.injEq] at hcell
      rw [hcell]
      rfl
    · rfl
  simp only [setResult, hcells]

theorem Keyed.putCell_withResult (hd : d.Keyed) (hc : d.cell? id = some c)
    (r : Value × Option FormulaError) : d.putCell (c.withResult r) = d.setResult id r := by
  have hid : (c.withResult r).id = id := (hd.id_of_cell? hc : c.id = id)
  have hcells : (d.putCell (c.withResult r)).cells.map (fun p => p) =
      Fields.modify d.cells id (·.withResult r) := by
    refine hd.map_cells_putCell hc hid ?_ fun p _ hp => (if_neg hp).symm
    rw [if_pos rfl]
  rw [List.map_id'] at hcells
  unfold setResult
  rw [← hcells]
  rfl

/-! ### What a visit makes of a cell -/

theorem valueOf?_congr (hcontext : d'.context = d.context) (hresolve : d'.resolve? n = d.resolve? n)
    (hvalue : ∀ a, d.resolve? n = some a →
      (d'.cell? a).map Cell.value = (d.cell? a).map Cell.value) :
    d'.valueOf? n = d.valueOf? n := by
  simp only [valueOf?, hresolve, hcontext]
  cases hr : d.resolve? n with
  | none => rfl
  | some a =>
    have hv := hvalue a hr
    cases h' : d'.cell? a <;> cases h : d.cell? a <;> simp_all

theorem readings?_congr {ns : List String} (h : ∀ n ∈ ns, d'.valueOf? n = d.valueOf? n) :
    d'.readings? ns = d.readings? ns := by
  induction ns with
  | nil => rfl
  | cons n ns ih =>
    simp only [readings?, h n List.mem_cons_self, ih fun m hm => h m (List.mem_cons_of_mem _ hm)]

theorem scopeOf?_congr (hengine : d'.engine = d.engine) (hcontext : d'.context = d.context)
    (h : ∀ n ∈ c.dependencies d.engine, d'.valueOf? n = d.valueOf? n) :
    d'.scopeOf? c = d.scopeOf? c := by
  simp only [scopeOf?, hengine, hcontext, readings?_congr h]

/-- The result of a cell in the order, from what stands in the document. -/
def outcome (d : Document) (c : Cell) : Value × Option FormulaError :=
  if !c.isSafe || c.input?.isSome then c.result
  else match d.scopeOf? c with
    | none => (.absent, none)
    | some scope =>
      if c.compileError?.isSome then (.absent, none)
      else match d.engine.eval scope c.expr with
        | .ok v => (v, none)
        | .error e => (.absent, some e)

/-- The result of a cell that has no place in the order of a graph. -/
def blockedOutcome (g : Graph) (c : Cell) : Value × Option FormulaError :=
  if !c.isSafe then c.result
  else if g.isCircular c.id then (.absent, some .circularReference)
  else (.absent, none)

theorem Keyed.visitBlocked (hd : d.Keyed) (hc : d.cell? id = some c) :
    ∃ s, d.visitBlocked id = { d.setResult id (blockedOutcome d.graph c) with stats := s } := by
  simp only [Document.visitBlocked, hc, blockedOutcome, hd.id_of_cell? hc]
  split
  · exact ⟨d.stats, by rw [hd.setResult_result hc]⟩
  · split
    · exact ⟨_, congrArg (fun x : Document =>
        { x with stats := { d.stats with cycles := d.stats.cycles + 1 } })
        (hd.putCell_withResult hc (.absent, some .circularReference))⟩
    · exact ⟨_, congrArg (fun x : Document =>
        { x with stats := { d.stats with absent := d.stats.absent + 1 } })
        (hd.putCell_withResult hc (.absent, none))⟩

/-- An evaluation of a cell and what the pass makes of its error come down to a result. -/
theorem evaluate_eq (eng : Engine) (scope : Scope) (hinput : c.input?.isSome = false) :
    (match c.evaluate eng scope with
      | (.ok _, c) => c
      | (.error e, c) => c.fail e) =
    c.withResult (if c.compileError?.isSome then (.absent, none)
      else match eng.eval scope c.expr with
        | .ok v => (v, none)
        | .error e => (.absent, some e)) := by
  simp only [Cell.evaluate, hinput]
  cases hcompile : c.compileError?.isSome with
  | true => rfl
  | false => cases eng.eval scope c.expr <;> rfl

theorem Keyed.visitOrdered (hd : d.Keyed) (hc : d.cell? id = some c) :
    ∃ s, d.visitOrdered id = { d.setResult id (d.outcome c) with stats := s } := by
  simp only [Document.visitOrdered, hc, outcome]
  cases hskip : !c.isSafe || c.input?.isSome with
  | true => exact ⟨d.stats, by simp only [if_true, hd.setResult_result hc]⟩
  | false =>
    have hinput : c.input?.isSome = false := (Bool.or_eq_false_iff.mp hskip).2
    cases d.scopeOf? c with
    | none =>
      exact ⟨_, congrArg (fun x : Document =>
        { x with stats := { d.stats with absent := d.stats.absent + 1 } })
        (hd.putCell_withResult hc (.absent, none))⟩
    | some scope =>
      refine ⟨{ d.stats with evaluated := d.stats.evaluated + 1 }, ?_⟩
      have hput := congrArg (fun x : Document =>
        { x with stats := { d.stats with evaluated := d.stats.evaluated + 1 } })
        (hd.putCell_withResult hc (if c.compileError?.isSome then (.absent, none)
          else match d.engine.eval scope c.expr with
            | .ok v => (v, none)
            | .error e => (.absent, some e)))
      rw [← evaluate_eq d.engine scope hinput] at hput
      simp only [Bool.false_eq_true, if_false]
      refine Eq.trans ?_ hput
      cases c.evaluate d.engine scope with
      | mk r c => cases r <;> rfl

theorem Keyed.sameShape_visitBlocked (hd : d.Keyed) (id : CellId) :
    d.SameShape (d.visitBlocked id) := by
  cases hc : d.cell? id with
  | none =>
    rw [Document.visitBlocked, hc]
    exact .refl d
  | some c =>
    obtain ⟨s, hvisit⟩ := hd.visitBlocked hc
    rw [hvisit]
    exact (sameShape_setResult d id _).stats s

theorem Keyed.sameShape_visitOrdered (hd : d.Keyed) (id : CellId) :
    d.SameShape (d.visitOrdered id) := by
  cases hc : d.cell? id with
  | none =>
    rw [Document.visitOrdered, hc]
    exact .refl d
  | some c =>
    obtain ⟨s, hvisit⟩ := hd.visitOrdered hc
    rw [hvisit]
    exact (sameShape_setResult d id _).stats s

/-- Visiting cells one after the other changes results only. -/
theorem Keyed.sameShape_foldl {visit : Document → CellId → Document} (hd : d.Keyed)
    (hvisit : ∀ {d : Document}, d.Keyed → ∀ id, d.SameShape (visit d id)) (ids : List CellId) :
    d.SameShape (ids.foldl visit d) := by
  induction ids generalizing d with
  | nil => exact .refl d
  | cons id ids ih => exact (hvisit hd id).trans (ih ((hvisit hd id).keyed hd))

/-! ### Where the interpreter runs -/

/-- A visit of the cell runs the interpreter on its expression. -/
def interprets (d : Document) (c : Cell) : Bool :=
  c.isSafe && c.input?.isNone && c.compileError?.isNone && (d.scopeOf? c).isSome

/-- The cells on whose expressions the interpreter is run while cells are visited in an order. -/
def interpretedBy : Document → List CellId → List CellId
  | _, [] => []
  | d, id :: ids =>
    (if (d.cell? id).any d.interprets then [id] else []) ++ interpretedBy (d.visitOrdered id) ids

/-- The cells on whose expressions a pass runs the interpreter. Blocked cells are never visited in
order. It is what a pass notes down whose interpreter writes the cells into a list
(`Keyed.recomputeWith_noting`). -/
def interpreted (d : Document) : List CellId :=
  let d := { d with graph := d.buildGraph, stats := ⟨0, 0, 0, 0⟩ }
  interpretedBy (d.graph.order.blocked.foldl visitBlocked d) d.graph.order.ordered

/-! ### The blocked cells -/

theorem Keyed.foldl_visitBlocked (hd : d.Keyed) {ids : List CellId} (hnodup : ids.Nodup)
    (hids : ∀ id ∈ ids, ∃ c, d.cell? id = some c) :
    d.SameShape (ids.foldl Document.visitBlocked d) ∧
      (ids.foldl Document.visitBlocked d).graph = d.graph ∧
      ∀ id c, d.cell? id = some c → (ids.foldl Document.visitBlocked d).cell? id =
        some (if id ∈ ids then c.withResult (blockedOutcome d.graph c) else c) := by
  induction ids generalizing d with
  | nil => exact ⟨.refl d, rfl, fun id c hc => by simpa using hc⟩
  | cons x ids ih =>
    rw [List.nodup_cons] at hnodup
    obtain ⟨cx, hcx⟩ := hids x List.mem_cons_self
    obtain ⟨s, hvisit⟩ := hd.visitBlocked hcx
    set d₁ := d.setResult x (blockedOutcome d.graph cx) with hd₁
    have hshape : d.SameShape { d₁ with stats := s } := (sameShape_setResult d x _).stats s
    have hcell : ∀ id, ({ d₁ with stats := s } : Document).cell? id = if id = x then
        (d.cell? id).map (·.withResult (blockedOutcome d.graph cx)) else d.cell? id :=
      fun id => cell?_setResult d x id _
    obtain ⟨hshape', hgraph, hcells⟩ := ih (hshape.keyed hd) hnodup.2 fun id hid => by
      obtain ⟨c, hc⟩ := hids id (List.mem_cons_of_mem _ hid)
      obtain ⟨r, hc'⟩ := hshape.cell? hc
      exact ⟨_, hc'⟩
    rw [List.foldl_cons, hvisit]
    refine ⟨hshape.trans hshape', hgraph, fun id c hc => ?_⟩
    by_cases hid : id = x
    · subst hid
      rw [hcx, Option.some.injEq] at hc
      subst hc
      have hc₁ := hcell id
      rw [if_pos rfl, hcx, Option.map_some] at hc₁
      rw [hcells id _ hc₁, if_neg hnodup.1, if_pos List.mem_cons_self]
    · have hc₁ := hcell id
      rw [if_neg hid, hc] at hc₁
      rw [hcells id c hc₁]
      simp only [List.mem_cons, hid, false_or]
      rfl

/-! ### The ordered cells -/

/-- The outcome of a cell depends on the values of the names that its expression reads. -/
theorem outcome_congr (hengine : d'.engine = d.engine) (hcontext : d'.context = d.context)
    (h : ∀ n ∈ c.dependencies d.engine, d'.valueOf? n = d.valueOf? n) :
    d'.outcome c = d.outcome c := by
  simp only [outcome, scopeOf?_congr hengine hcontext h, hengine]

theorem interprets_congr (hengine : d'.engine = d.engine) (hcontext : d'.context = d.context)
    (h : ∀ n ∈ c.dependencies d.engine, d'.valueOf? n = d.valueOf? n) :
    d'.interprets c = d.interprets c := by
  simp only [interprets, scopeOf?_congr hengine hcontext h]

/-- Visiting cells in an order in which each comes after all it reads leaves every one of them with
the outcome that the document calls for in the end. -/
theorem Keyed.foldl_visitOrdered (hd : d.Keyed) {ids : List CellId} (hnodup : ids.Nodup)
    (hids : ∀ id ∈ ids, ∃ c, d.cell? id = some c)
    (hbefore : ∀ pre b post, ids = pre ++ b :: post → ∀ a, d.Reads a b → a ∉ b :: post) :
    d.SameShape (ids.foldl Document.visitOrdered d) ∧
      (ids.foldl Document.visitOrdered d).graph = d.graph ∧
      (∀ id c, d.cell? id = some c → (ids.foldl Document.visitOrdered d).cell? id = some
        (if id ∈ ids then c.withResult ((ids.foldl Document.visitOrdered d).outcome c) else c)) ∧
      ∀ id c, d.cell? id = some c → (id ∈ d.interpretedBy ids ↔
        id ∈ ids ∧ (ids.foldl Document.visitOrdered d).interprets c = true) := by
  induction ids generalizing d with
  | nil => exact ⟨.refl d, rfl, fun id c hc => by simpa using hc, by simp [interpretedBy]⟩
  | cons x ids ih =>
    rw [List.nodup_cons] at hnodup
    obtain ⟨cx, hcx⟩ := hids x List.mem_cons_self
    obtain ⟨s, hvisit⟩ := hd.visitOrdered hcx
    set d₁ := d.setResult x (d.outcome cx) with hd₁
    have hshape : d.SameShape { d₁ with stats := s } := (sameShape_setResult d x _).stats s
    have hcell : ∀ id, ({ d₁ with stats := s } : Document).cell? id = if id = x then
        (d.cell? id).map (·.withResult (d.outcome cx)) else d.cell? id :=
      fun id => cell?_setResult d x id _
    obtain ⟨hshape', hgraph, hcells, hinterp⟩ := ih (hshape.keyed hd) hnodup.2
      (fun id hid => by
        obtain ⟨c, hc⟩ := hids id (List.mem_cons_of_mem _ hid)
        obtain ⟨r, hc'⟩ := hshape.cell? hc
        exact ⟨_, hc'⟩)
      (fun pre b post heq a hreads =>
        hbefore (x :: pre) b post (by rw [heq, List.cons_append]) a
          (hshape.symm.reads hreads))
    rw [interpretedBy, List.foldl_cons, hvisit]
    set D := ids.foldl Document.visitOrdered { d₁ with stats := s } with hD
    have hfinal := hshape.trans hshape'
    have hcx₁ := hcell x
    rw [if_pos rfl, hcx, Option.map_some] at hcx₁
    -- what the cell read when it was visited still stands there
    have hvalues : ∀ n ∈ cx.dependencies d.engine, D.valueOf? n = d.valueOf? n := by
      refine fun n hn => valueOf?_congr hfinal.context (hfinal.resolve? n) fun a ha => ?_
      have hlater : a ∉ x :: ids := hbefore [] x ids rfl a ⟨cx, hcx, n, hn, ha⟩
      rw [List.mem_cons, not_or] at hlater
      obtain ⟨ca, hca⟩ := hd.cell?_of_resolve? ha
      have hca₁ := hcell a
      rw [if_neg hlater.1, hca] at hca₁
      rw [hcells a ca hca₁, if_neg hlater.2, hca]
    have houtcome : D.outcome cx = d.outcome cx :=
      outcome_congr hfinal.engine hfinal.context hvalues
    have hinterprets : D.interprets cx = d.interprets cx :=
      interprets_congr hfinal.engine hfinal.context hvalues
    refine ⟨hfinal, hgraph, fun id c hc => ?_, fun id c hc => ?_⟩
    · by_cases hid : id = x
      · subst hid
        rw [hcx, Option.some.injEq] at hc
        subst hc
        rw [hcells id _ hcx₁, if_neg hnodup.1, if_pos List.mem_cons_self, houtcome]
      · have hc₁ := hcell id
        rw [if_neg hid, hc] at hc₁
        rw [hcells id c hc₁]
        simp only [List.mem_cons, hid, false_or]
    · by_cases hid : id = x
      · subst hid
        rw [hcx, Option.some.injEq] at hc
        subst hc
        have hrest := hinterp id _ hcx₁
        rw [hcx, Option.any_some, List.mem_append, hrest, hinterprets]
        simp [hnodup.1]
      · have hc₁ := hcell id
        rw [if_neg hid, hc] at hc₁
        have hhead : id ∉ if (d.cell? x).any d.interprets then [x] else [] := by
          split <;> simp [hid]
        rw [List.mem_append, hinterp id c hc₁, List.mem_cons]
        simp [hhead, hid]

/-! ### The whole pass -/

/-- The result that a pass leaves a cell with, told from the document after it. -/
def verdict (d : Document) (c : Cell) : Value × Option FormulaError :=
  if c.id ∈ d.graph.order.blocked then blockedOutcome d.graph c else d.outcome c

/-- In the order of the graph a cell comes after all it reads. -/
theorem Keyed.not_mem_of_reads (hd : d.Keyed) {a b : CellId} {pre post : List CellId}
    (heq : d.buildGraph.order.ordered = pre ++ b :: post) (hreads : d.Reads a b) :
    a ∉ b :: post := by
  have hwf := hd.wellFormed_buildGraph
  have hpre : a ∈ pre := hwf.order_before heq (hd.edge_buildGraph.mpr hreads)
  have hnodup := hwf.nodup_ordered
  rw [heq] at hnodup
  intro hpost
  exact (List.nodup_append.mp hnodup).2.2 a hpre a hpost rfl

theorem Keyed.cell?_of_ordered (hd : d.Keyed) (h : id ∈ d.buildGraph.order.ordered) :
    ∃ c, d.cell? id = some c :=
  hd.mem_nodes_buildGraph.mp (hd.wellFormed_buildGraph.ordered_subset h)

theorem Keyed.cell?_of_blocked (hd : d.Keyed) (h : id ∈ d.buildGraph.order.blocked) :
    ∃ c, d.cell? id = some c :=
  hd.mem_nodes_buildGraph.mp (Graph.mem_blocked.mp h).1

/-- **A pass leaves every cell with the result that the document after it calls for**, and changes
nothing else of the cells. -/
theorem Keyed.recompute_spec (hd : d.Keyed) :
    d.SameShape d.recompute ∧ d.recompute.graph = d.buildGraph ∧
      (∀ id c, d.cell? id = some c →
        d.recompute.cell? id = some (c.withResult (d.recompute.verdict c))) ∧
      ∀ id c, d.cell? id = some c → (id ∈ d.interpreted ↔
        id ∈ d.buildGraph.order.ordered ∧ d.recompute.interprets c = true) := by
  set g := d.buildGraph with hg
  have hwf : g.WellFormed := hd.wellFormed_buildGraph
  set d₀ : Document := { d with graph := g, stats := ⟨0, 0, 0, 0⟩ } with hd₀
  have hshape₀ : d.SameShape d₀ := ⟨rfl, rfl, rfl, rfl, rfl, rfl⟩
  have hkeyed₀ : d₀.Keyed := hshape₀.keyed hd
  obtain ⟨hshape₁, hgraph₁, hcells₁⟩ := hkeyed₀.foldl_visitBlocked hwf.nodup_blocked
    fun id hid => hd.cell?_of_blocked hid
  set d₁ := g.order.blocked.foldl Document.visitBlocked d₀ with hd₁
  have hkeyed₁ : d₁.Keyed := hshape₁.keyed hkeyed₀
  obtain ⟨hshape₂, hgraph₂, hcells₂, hinterp₂⟩ := hkeyed₁.foldl_visitOrdered hwf.nodup_ordered
    (fun id hid => by
      obtain ⟨c, hc⟩ := hd.cell?_of_ordered hid
      exact ⟨_, hcells₁ id c hc⟩)
    (fun pre b post heq a hreads =>
      hd.not_mem_of_reads heq ((hshape₀.trans hshape₁).symm.reads hreads))
  set d₂ := g.order.ordered.foldl Document.visitOrdered d₁ with hd₂
  have hrecompute : d.recompute = { d₂ with stats := { d₂.stats with errors := d₂.errorCount } } :=
    rfl
  have hgraph : d.recompute.graph = g := by
    rw [hrecompute]
    exact hgraph₂.trans hgraph₁
  refine ⟨?_, hgraph, fun id c hc => ?_, fun id c hc => ?_⟩
  · rw [hrecompute]
    exact ((hshape₀.trans hshape₁).trans hshape₂).stats _
  · have hid : c.id = id := hd.id_of_cell? hc
    have hcell : d.recompute.cell? id = d₂.cell? id := by rw [hrecompute]; rfl
    have houtcome : d.recompute.outcome c = d₂.outcome c := by
      rw [hrecompute]
      exact outcome_congr rfl rfl fun _ _ => rfl
    rw [hcell, verdict, hgraph, houtcome, hid]
    have hnode : id ∈ g.nodes := hd.mem_nodes_buildGraph.mpr ⟨c, hc⟩
    have hc₁ := hcells₁ id c hc
    have hc₂ := hcells₂ id _ hc₁
    by_cases hblocked : id ∈ g.order.blocked
    · have hordered : id ∉ g.order.ordered := (Graph.mem_blocked.mp hblocked).2
      rw [if_pos hblocked, if_neg hordered] at hc₂
      rw [hc₂, if_pos hblocked]
    · have hordered : id ∈ g.order.ordered := by
        by_contra hnot
        exact hblocked (Graph.mem_blocked.mpr ⟨hnode, hnot⟩)
      rw [if_neg hblocked, if_pos hordered] at hc₂
      rw [hc₂, if_neg hblocked]
  · have hinterprets : d.recompute.interprets c = d₂.interprets c := by
      rw [hrecompute]
      exact interprets_congr rfl rfl fun _ _ => rfl
    have hresult : ∀ r, d₂.interprets (c.withResult r) = d₂.interprets c := fun _ => rfl
    have hi := hinterp₂ id _ (hcells₁ id c hc)
    rw [hinterprets]
    refine hi.trans ?_
    split
    · rw [hresult]
    · rfl

theorem Keyed.cell?_recompute (hd : d.Keyed) (id : CellId) :
    d.recompute.cell? id = (d.cell? id).map fun c => c.withResult (d.recompute.verdict c) := by
  obtain ⟨hshape, -, hcells, -⟩ := hd.recompute_spec
  cases hc : d.cell? id with
  | some c => exact hcells id c hc
  | none =>
    rw [cell?_eq_none_iff] at hc
    rw [Option.map_none, cell?_eq_none_iff, hshape.keys]
    exact hc

end Document

end FormulaSheet
