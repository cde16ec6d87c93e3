import FormulaSheet.Proofs.Document.Pass

/-!
# The counts of a pass

A pass counts while it visits the cells one after the other. Which count a visit raises depends on
what the visited cell reads at that time, and this is what stands there in the end. So the counts
can be told from the document after the pass: each is the number of cells of one kind among those
without a place in the order, or among those with one (`Keyed.stats_recompute`).
-/

namespace FormulaSheet.Document

variable {d d' : Document} {id : CellId} {c : Cell}

/-! ### What a visit counts -/

/-- The visit of a cell without a place in the order finds it on a cycle. -/
def countsCycle (d : Document) (id : CellId) : Bool :=
  (d.cell? id).any fun c => c.isSafe && d.graph.isCircular id

/-- The visit of a cell without a place in the order finds it behind a cycle. -/
def countsBehind (d : Document) (id : CellId) : Bool :=
  (d.cell? id).any fun c => c.isSafe && !d.graph.isCircular id

/-- The visit of a cell in order finds all that its expression reads. -/
def countsEvaluated (d : Document) (id : CellId) : Bool :=
  (d.cell? id).any fun c => c.isSafe && c.input?.isNone && (d.scopeOf? c).isSome

/-- The visit of a cell in order finds that something its expression reads has no value. -/
def countsLacking (d : Document) (id : CellId) : Bool :=
  (d.cell? id).any fun c => c.isSafe && c.input?.isNone && (d.scopeOf? c).isNone

theorem stats_visitBlocked (d : Document) (id : CellId) :
    (d.visitBlocked id).stats =
      { d.stats with
        absent := d.stats.absent + (d.countsBehind id).toNat
        cycles := d.stats.cycles + (d.countsCycle id).toNat } := by
  unfold visitBlocked countsBehind countsCycle
  cases d.cell? id with
  | none => rfl
  | some c =>
    cases hsafe : c.isSafe with
    | false => simp [hsafe]
    | true => cases hcircular : d.graph.isCircular id <;> simp [hsafe, putCell]

theorem stats_visitOrdered (d : Document) (id : CellId) :
    (d.visitOrdered id).stats =
      { d.stats with
        evaluated := d.stats.evaluated + (d.countsEvaluated id).toNat
        absent := d.stats.absent + (d.countsLacking id).toNat } := by
  unfold visitOrdered countsEvaluated countsLacking
  cases d.cell? id with
  | none => rfl
  | some c =>
    cases hsafe : c.isSafe with
    | false => simp [hsafe]
    | true =>
      cases hinput : c.input? with
      | some i => simp [hsafe, hinput]
      | none =>
        cases hscope : d.scopeOf? c with
        | none => simp [hsafe, hinput, hscope, putCell]
        | some scope =>
          simp only [hsafe, hinput, hscope, Bool.not_true, Option.isSome_none, Bool.or_self,
            Bool.false_eq_true, if_false]
          rcases c.evaluate d.engine scope with ⟨_ | _, _⟩ <;> simp [hsafe, hinput, hscope, putCell]

/-! ### The visits of a pass -/

/-- What does not depend on the result of a cell is the same in documents that differ in results. -/
theorem SameShape.any_cell? (h : d.SameShape d') {f : Cell → Bool}
    (hf : ∀ c r, f (c.withResult r) = f c) (id : CellId) :
    (d'.cell? id).any f = (d.cell? id).any f := by
  cases hc : d.cell? id with
  | some c =>
    obtain ⟨r, hc'⟩ := h.cell? hc
    rw [hc', Option.any_some, Option.any_some, hf]
  | none =>
    cases hc' : d'.cell? id with
    | none => rfl
    | some c' =>
      obtain ⟨r, hr⟩ := h.symm.cell? hc'
      rw [hc] at hr
      cases hr

theorem SameShape.countsCycle (h : d.SameShape d') (hgraph : d'.graph = d.graph) :
    d'.countsCycle = d.countsCycle := by
  funext id
  unfold Document.countsCycle
  rw [hgraph]
  exact h.any_cell? (fun _ _ => rfl) id

theorem SameShape.countsBehind (h : d.SameShape d') (hgraph : d'.graph = d.graph) :
    d'.countsBehind = d.countsBehind := by
  funext id
  unfold Document.countsBehind
  rw [hgraph]
  exact h.any_cell? (fun _ _ => rfl) id

private theorem countP_cons_toNat (p : CellId → Bool) (x : CellId) (ids : List CellId) :
    (x :: ids).countP p = (p x).toNat + ids.countP p := by
  rw [List.countP_cons, Nat.add_comm]
  cases p x <;> rfl

theorem Keyed.stats_foldl_visitBlocked (hd : d.Keyed) (ids : List CellId)
    (hids : ∀ id ∈ ids, ∃ c, d.cell? id = some c) :
    (ids.foldl Document.visitBlocked d).stats =
      { d.stats with
        absent := d.stats.absent + ids.countP d.countsBehind
        cycles := d.stats.cycles + ids.countP d.countsCycle } := by
  induction ids generalizing d with
  | nil => rfl
  | cons x ids ih =>
    obtain ⟨cx, hcx⟩ := hids x List.mem_cons_self
    obtain ⟨s, hvisit⟩ := hd.visitBlocked hcx
    have hshape : d.SameShape (d.visitBlocked x) := by
      rw [hvisit]
      exact (sameShape_setResult d x _).stats s
    have hgraph : (d.visitBlocked x).graph = d.graph := by
      rw [hvisit]
      rfl
    rw [List.foldl_cons, ih (hshape.keyed hd), stats_visitBlocked, hshape.countsBehind hgraph,
      hshape.countsCycle hgraph]
    · simp only [countP_cons_toNat, Nat.add_assoc]
    · intro id hid
      obtain ⟨c, hc⟩ := hids id (List.mem_cons_of_mem x hid)
      obtain ⟨r, hr⟩ := hshape.cell? hc
      exact ⟨_, hr⟩

/-- What the first cell of an order reads is what stands there after all visits. -/
theorem Keyed.scopeOf?_foldl_visitOrdered (hd : d.Keyed) {x : CellId} {ids : List CellId}
    (hnodup : (x :: ids).Nodup) (hids : ∀ id ∈ x :: ids, ∃ c, d.cell? id = some c)
    (hbefore : ∀ pre b post, x :: ids = pre ++ b :: post → ∀ a, d.Reads a b → a ∉ b :: post)
    (hc : d.cell? x = some c) :
    ((x :: ids).foldl Document.visitOrdered d).scopeOf? c = d.scopeOf? c := by
  obtain ⟨hshape, -, hcells, -⟩ := hd.foldl_visitOrdered hnodup hids hbefore
  apply scopeOf?_congr hshape.engine hshape.context
  intro n hn
  apply valueOf?_congr hshape.context (hshape.resolve? n)
  intro a ha
  have hlater : a ∉ x :: ids := hbefore [] x ids rfl a ⟨c, hc, n, hn, ha⟩
  obtain ⟨ca, hca⟩ := hd.cell?_of_resolve? ha
  rw [hcells a ca hca, if_neg hlater, hca]

theorem Keyed.stats_foldl_visitOrdered (hd : d.Keyed) {ids : List CellId} (hnodup : ids.Nodup)
    (hids : ∀ id ∈ ids, ∃ c, d.cell? id = some c)
    (hbefore : ∀ pre b post, ids = pre ++ b :: post → ∀ a, d.Reads a b → a ∉ b :: post) :
    (ids.foldl Document.visitOrdered d).stats =
      { d.stats with
        evaluated := d.stats.evaluated +
          ids.countP (ids.foldl Document.visitOrdered d).countsEvaluated
        absent := d.stats.absent +
          ids.countP (ids.foldl Document.visitOrdered d).countsLacking } := by
  induction ids generalizing d with
  | nil => rfl
  | cons x ids ih =>
    obtain ⟨cx, hcx⟩ := hids x List.mem_cons_self
    obtain ⟨s, hvisit⟩ := hd.visitOrdered hcx
    have hfirst := hd.scopeOf?_foldl_visitOrdered hnodup hids hbefore hcx
    obtain ⟨hfinal, -, -, -⟩ := hd.foldl_visitOrdered hnodup hids hbefore
    have hshape : d.SameShape (d.visitOrdered x) := by
      rw [hvisit]
      exact (sameShape_setResult d x _).stats s
    have hrest := ih (hshape.keyed hd) (List.nodup_cons.mp hnodup).2
      (fun id hid => by
        obtain ⟨c, hc⟩ := hids id (List.mem_cons_of_mem x hid)
        obtain ⟨r, hr⟩ := hshape.cell? hc
        exact ⟨_, hr⟩)
      (fun pre b post heq a hreads =>
        hbefore (x :: pre) b post (by rw [heq, List.cons_append]) a (hshape.symm.reads hreads))
    -- the scope of the first cell in the end, whatever result it has by then
    obtain ⟨r, hr⟩ := hfinal.cell? hcx
    have hscope :
        ((x :: ids).foldl Document.visitOrdered d).scopeOf? (cx.withResult r) = d.scopeOf? cx :=
      hfirst
    rw [List.foldl_cons] at hr hscope ⊢
    rw [hrest, stats_visitOrdered]
    have hevaluated : (ids.foldl Document.visitOrdered (d.visitOrdered x)).countsEvaluated x =
        d.countsEvaluated x := by
      simp only [countsEvaluated, hr, hcx, Option.any_some, hscope]
      rfl
    have hlacking : (ids.foldl Document.visitOrdered (d.visitOrdered x)).countsLacking x =
        d.countsLacking x := by
      simp only [countsLacking, hr, hcx, Option.any_some, hscope]
      rfl
    simp only [countP_cons_toNat, hevaluated, hlacking, Nat.add_assoc]

/-! ### The whole pass -/

/-- **What the counts of a pass count**, told from the document after it. -/
theorem Keyed.stats_recompute (hd : d.Keyed) :
    d.recompute.stats =
      ⟨d.recompute.graph.order.ordered.countP d.recompute.countsEvaluated,
        d.recompute.graph.order.blocked.countP d.recompute.countsBehind +
          d.recompute.graph.order.ordered.countP d.recompute.countsLacking,
        d.recompute.errorCount,
        d.recompute.graph.order.blocked.countP d.recompute.countsCycle⟩ := by
  set g := d.buildGraph with hg
  have hwf : g.WellFormed := hd.wellFormed_buildGraph
  set d₀ : Document := { d with graph := g, stats := ⟨0, 0, 0, 0⟩ } with hd₀
  have hshape₀ : d.SameShape d₀ := ⟨rfl, rfl, rfl, rfl, rfl, rfl⟩
  have hkeyed₀ : d₀.Keyed := hshape₀.keyed hd
  have hblocked : ∀ id ∈ g.order.blocked, ∃ c, d₀.cell? id = some c :=
    fun id hid => hd.cell?_of_blocked hid
  obtain ⟨hshape₁, hgraph₁, hcells₁⟩ := hkeyed₀.foldl_visitBlocked hwf.nodup_blocked hblocked
  have hstats₁ := hkeyed₀.stats_foldl_visitBlocked g.order.blocked hblocked
  set d₁ := g.order.blocked.foldl Document.visitBlocked d₀ with hd₁
  have hordered : ∀ id ∈ g.order.ordered, ∃ c, d₁.cell? id = some c := by
    intro id hid
    obtain ⟨c, hc⟩ := hd.cell?_of_ordered hid
    exact ⟨_, hcells₁ id c hc⟩
  have hbefore : ∀ pre b post, g.order.ordered = pre ++ b :: post →
      ∀ a, d₁.Reads a b → a ∉ b :: post := fun pre b post heq a hreads =>
    hd.not_mem_of_reads heq ((hshape₀.trans hshape₁).symm.reads hreads)
  obtain ⟨hshape₂, hgraph₂, -, -⟩ :=
    (hshape₁.keyed hkeyed₀).foldl_visitOrdered hwf.nodup_ordered hordered hbefore
  have hstats₂ :=
    (hshape₁.keyed hkeyed₀).stats_foldl_visitOrdered hwf.nodup_ordered hordered hbefore
  set d₂ := g.order.ordered.foldl Document.visitOrdered d₁ with hd₂
  have hrecompute : d.recompute = { d₂ with stats := { d₂.stats with errors := d₂.errorCount } } :=
    rfl
  have hfinal : d₀.SameShape d.recompute := by
    rw [hrecompute]
    exact (hshape₁.trans hshape₂).stats _
  have hgraph : d.recompute.graph = g := by
    rw [hrecompute]
    exact hgraph₂.trans hgraph₁
  rw [hgraph, hfinal.countsBehind hgraph, hfinal.countsCycle hgraph, hrecompute, hstats₂, hstats₁]
  have hscope : ∀ c s, ({ d₂ with stats := s } : Document).scopeOf? c = d₂.scopeOf? c :=
    fun _ _ => scopeOf?_congr rfl rfl fun _ _ => rfl
  have hevaluated :
      ∀ s, ({ d₂ with stats := s } : Document).countsEvaluated = d₂.countsEvaluated := by
    intro s
    funext id
    simp only [countsEvaluated, hscope]
    rfl
  have hlacking : ∀ s, ({ d₂ with stats := s } : Document).countsLacking = d₂.countsLacking := by
    intro s
    funext id
    simp only [countsLacking, hscope]
    rfl
  simp only [hevaluated, hlacking, hd₀, Nat.zero_add]
  rfl

end FormulaSheet.Document
