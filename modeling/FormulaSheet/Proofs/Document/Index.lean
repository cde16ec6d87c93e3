import FormulaSheet.Document.Index
import FormulaSheet.Proofs.Document.Run

/-!
# What an index of names answers

As long as the index of a document is that of its present names (`IndexedDocument.Sound`), looking a
name up in it is the same as going through the cells (`gives_resolve`). A pass changes no name, so
it comes out the same whether there was an index before it or not (`gives_recompute`).
-/

namespace FormulaSheet

namespace Document

variable {d d' : Document} {id : CellId} {n : String}

/-! ### The index -/

/-- The names and ids of the cells with their ids, filed under the names. -/
theorem Keyed.nameIndex_eq (hd : d.Keyed) : d.nameIndex = d.names.foldl (fun index p =>
    if Fields.contains index p.2 then index else Fields.insert index p.2 p.1) [] := by
  rw [nameIndex, cellList, names, List.foldl_map, List.foldl_map]
  apply List.foldl_ext
  intro index p hp
  rw [hd.id_eq p hp]

/-- The index depends on the names of the cells only. -/
theorem Keyed.nameIndex_congr (hd : d.Keyed) (hd' : d'.Keyed) (h : d'.names = d.names) :
    d'.nameIndex = d.nameIndex := by
  rw [hd.nameIndex_eq, hd'.nameIndex_eq, h]

/-- Under each name the index has the first cell of that name. -/
theorem Keyed.get?_nameIndex (hd : d.Keyed) (n : String) :
    Fields.get? d.nameIndex n = d.named? n := by
  have hrest : ∀ (ps : List (CellId × String)) (index : Fields CellId),
      Fields.get? (ps.foldl (fun index p =>
        if Fields.contains index p.2 then index else Fields.insert index p.2 p.1) index) n =
      (Fields.get? index n).or ((ps.find? fun p => p.2 == n).map Prod.fst) := by
    intro ps
    induction ps with
    | nil => simp
    | cons p ps ih =>
      intro index
      rw [List.foldl_cons, ih]
      by_cases hn : p.2 = n
      · subst hn
        cases hget : Fields.get? index p.2 with
        | some id => simp [Fields.contains, hget]
        | none => simp [Fields.contains, hget, Fields.get?_insert]
      · have hget : Fields.get? (if Fields.contains index p.2 then index else
            Fields.insert index p.2 p.1) n = Fields.get? index n := by
          split
          · rfl
          · rw [Fields.get?_insert, if_neg (Ne.symm hn)]
        rw [hget, List.find?_cons_of_neg (by simpa using hn)]
  rw [hd.nameIndex_eq, hrest, named?_eq_find?]
  rfl

theorem Keyed.resolveIn_nameIndex (hd : d.Keyed) (n : String) :
    resolveIn d.nameIndex n = d.resolve? n := by
  have hget : Fields.get? d.nameIndex = d.named? := funext hd.get?_nameIndex
  rw [resolveIn, resolve?, hget]

theorem visitOrdered_eq (d : Document) (id : CellId) :
    d.visitOrdered id = match d.cell? id with
      | none => d
      | some c =>
        if !c.isSafe || c.input?.isSome then d else d.settleCell c (d.scopeOf? c) := by
  unfold visitOrdered
  cases d.cell? id with
  | none => rfl
  | some c =>
    dsimp only
    cases d.scopeOf? c <;> rfl

end Document

namespace IndexedDocument

open Document

variable {α β : Type} {p q r : Progress} {known : Prop}

/-! ### Steps that do not notice the index -/

/-- The index, if there is one, is that of the present names. -/
def Sound (m : IndexedDocument) : Prop :=
  ∀ index, m.index? = some index → index = m.document.nameIndex

/-- The operation has come to `p`, the index is not out of date, and there is one if it is
`known`. -/
structure At (known : Prop) (p : Progress) (m : IndexedDocument) : Prop where
  progress : m.toProgress = p
  sound : m.Sound
  isSome : known → m.index?.isSome = true

/-- The step has the result `a` and takes the operation from `p` to `q`, whatever there is of an
index. -/
def Gives (known : Prop) (x : Work α) (p : Progress) (a : α) (q : Progress) : Prop :=
  ∀ m, At known p m → ∃ m', x m = (a, m') ∧ At known q m'

namespace Gives

variable {x : Work α} {f : α → Work β} {a : α} {b : β}

theorem pure (a : α) (p : Progress) : Gives known (Pure.pure a) p a p := fun m hm => ⟨m, rfl, hm⟩

theorem bind (h : Gives known x p a q) (hf : Gives known (f a) q b r) :
    Gives known (x >>= f) p b r := by
  intro m hm
  obtain ⟨m₁, hx, hm₁⟩ := h m hm
  obtain ⟨m₂, hfa, hm₂⟩ := hf m₁ hm₁
  refine ⟨m₂, ?_, hm₂⟩
  show (match x m with | (a, m) => f a m) = (b, m₂)
  rw [hx]
  exact hfa

/-- A result that is made from what was found. -/
theorem map (h : Gives known x p a q) (g : α → β) :
    Gives known (x >>= fun a => Pure.pure (g a)) p (g a) q :=
  h.bind (pure (g a) q)

/-- Going through a list without a change of the document, as far as the steps for its
members give what they should. -/
theorem foldlM {xs : List β} {f : α → β → Work α} {g : α → β → α}
    (h : ∀ a, ∀ x ∈ xs, Gives known (f a x) p (g a x) p) (a : α) :
    Gives known (xs.foldlM f a) p (xs.foldl g a) p := by
  induction xs generalizing a with
  | nil => exact pure a p
  | cons x xs ih =>
    rw [List.foldlM_cons, List.foldl_cons]
    exact (h a x List.mem_cons_self).bind
      (ih (fun a y hy => h a y (List.mem_cons_of_mem x hy)) (g a x))

theorem mapM {xs : List β} {f : β → Work α} {g : β → α}
    (h : ∀ x ∈ xs, Gives known (f x) p (g x) p) : Gives known (xs.mapM f) p (xs.map g) p := by
  induction xs with
  | nil => exact pure [] p
  | cons x xs ih =>
    rw [List.mapM_cons]
    exact (h x List.mem_cons_self).bind ((ih fun y hy => h y (List.mem_cons_of_mem x hy)).map _)

theorem anyM {xs : List β} {f : β → Work Bool} {g : β → Bool}
    (h : ∀ x ∈ xs, Gives known (f x) p (g x) p) : Gives known (xs.anyM f) p (xs.any g) p := by
  induction xs with
  | nil => exact pure false p
  | cons x xs ih =>
    refine (h x List.mem_cons_self).bind ?_
    rw [List.any_cons]
    cases g x with
    | true => exact pure true p
    | false => exact ih fun y hy => h y (List.mem_cons_of_mem x hy)

/-- A change of the document that leaves the names of its cells alone. -/
theorem advance {f : Progress → Progress} (hd : p.document.Keyed) (hd' : (f p).document.Keyed)
    (hnames : (f p).document.names = p.document.names) : Gives known (advance f) p () (f p) := by
  rintro m ⟨rfl, hs, hsome⟩
  refine ⟨{ m with toProgress := f m.toProgress }, rfl, rfl, fun index h => ?_, hsome⟩
  rw [hs index h]
  exact (hd.nameIndex_congr hd' hnames).symm

/-- A change of the results of cells. -/
theorem modifyDocument {f : Document → Document} (hd : p.document.Keyed)
    (h : p.document.SameShape (f p.document)) :
    Gives known (modifyDocument f) p () ⟨f p.document, p.notices⟩ :=
  advance hd (h.keyed hd) h.names

end Gives

/-! ### Lookups -/

theorem gives_current (p : Progress) : Gives known current p p.document p := by
  rintro m ⟨rfl, hs, hsome⟩
  exact ⟨m, rfl, rfl, hs, hsome⟩

theorem index_of_sound {m : IndexedDocument} (hs : m.Sound) :
    index m = (m.document.nameIndex, { m with index? := some m.document.nameIndex }) := by
  have hanswer : m.index?.getD m.document.nameIndex = m.document.nameIndex := by
    cases h : m.index? with
    | none => rfl
    | some index => exact hs index h
  show (m.index?.getD m.document.nameIndex,
    { m with index? := some (m.index?.getD m.document.nameIndex) }) = _
  rw [hanswer]

theorem gives_index (p : Progress) : Gives known index p p.document.nameIndex p := by
  rintro m ⟨rfl, hs, -⟩
  exact ⟨_, index_of_sound hs, rfl, fun index h => (Option.some.inj h).symm, fun _ => rfl⟩

/-- **Looking a name up in the index is going through the cells.** -/
theorem gives_resolve (hd : p.document.Keyed) (n : String) :
    Gives known (resolve n) p (p.document.resolve? n) p := by
  rw [← hd.resolveIn_nameIndex]
  exact (gives_index p).map fun index => resolveIn index n

theorem gives_cellNamed? (hd : p.document.Keyed) (n : String) :
    Gives known (cellNamed? n) p ((p.document.resolve? n).bind p.document.cell?) p :=
  (gives_resolve hd n).bind ((gives_current p).map _)

/-! ### Passes -/

theorem gives_buildGraph (hd : p.document.Keyed) :
    Gives known buildGraph p p.document.buildGraph p := by
  refine (gives_current p).bind (Gives.foldlM (fun g q _ => ?_) _)
  rw [List.foldl_filterMap]
  refine Gives.foldlM (fun g n _ => (gives_resolve hd n).bind ?_) g
  cases p.document.resolve? n with
  | some id => exact .pure _ p
  | none => exact .pure _ p

theorem gives_valueOf? (hd : p.document.Keyed) (n : String) :
    Gives known (valueOf? n) p (p.document.valueOf? n) p := by
  refine (gives_cellNamed? hd n).bind ?_
  unfold Document.valueOf?
  cases (p.document.resolve? n).bind p.document.cell? with
  | some c => exact .pure _ p
  | none => exact (gives_current p).map fun d => Fields.get? d.context n

theorem gives_readings? (hd : p.document.Keyed) (ns : List String) :
    Gives known (readings? ns) p (p.document.readings? ns) p := by
  induction ns with
  | nil => exact .pure _ p
  | cons n ns ih =>
    refine (gives_valueOf? hd n).bind ?_
    unfold Document.readings?
    cases p.document.valueOf? n with
    | none => exact .pure _ p
    | some v =>
      dsimp only
      split
      · exact .pure _ p
      · exact ih.map (Option.map ((n, v) :: ·))

theorem gives_scopeOf? (hd : p.document.Keyed) (c : Cell) :
    Gives known (scopeOf? c) p (p.document.scopeOf? c) p :=
  (gives_current p).bind ((gives_readings? hd _).map _)

theorem gives_visitOrdered (hd : p.document.Keyed) (id : CellId) :
    Gives known (visitOrdered id) p () ⟨p.document.visitOrdered id, p.notices⟩ := by
  refine (gives_current p).bind ?_
  have hshape := hd.sameShape_visitOrdered id
  rw [visitOrdered_eq] at hshape ⊢
  cases hc : p.document.cell? id with
  | none => exact .pure () p
  | some c =>
    rw [hc] at hshape
    dsimp only at hshape ⊢
    by_cases hskip : (!c.isSafe || c.input?.isSome) = true
    · simp only [if_pos hskip]
      exact .pure () p
    · simp only [if_neg hskip] at hshape ⊢
      exact (gives_scopeOf? hd c).bind (Gives.modifyDocument hd hshape)

theorem gives_visits (hd : p.document.Keyed) (ids : List CellId) :
    Gives known (ids.forM visitOrdered) p () ⟨ids.foldl Document.visitOrdered p.document,
      p.notices⟩ := by
  induction ids generalizing p with
  | nil => exact .pure () p
  | cons id ids ih =>
    exact (gives_visitOrdered hd id).bind (ih ((hd.sameShape_visitOrdered id).keyed hd))

/-- **A pass comes out the same, whether there is an index before it or not.** -/
theorem gives_recompute (hd : p.document.Keyed) : Gives known recompute p () p.recompute := by
  have hgraph : p.document.SameShape
      { p.document with graph := p.document.buildGraph, stats := ⟨0, 0, 0, 0⟩ } :=
    ⟨rfl, rfl, rfl, rfl, rfl, rfl⟩
  have hd₀ := hgraph.keyed hd
  have hblocked :=
    hd₀.sameShape_foldl Keyed.sameShape_visitBlocked p.document.buildGraph.order.blocked
  have hd₁ := hblocked.keyed hd₀
  have hordered :=
    hd₁.sameShape_foldl Keyed.sameShape_visitOrdered p.document.buildGraph.order.ordered
  have hd₂ := hordered.keyed hd₁
  refine (gives_buildGraph hd).bind ?_
  refine (Gives.modifyDocument hd hgraph).bind ?_
  refine (Gives.modifyDocument hd₀ hblocked).bind ?_
  refine (gives_visits hd₁ _).bind ?_
  refine (Gives.modifyDocument hd₂ ((SameShape.refl _).stats _)).bind ?_
  exact Gives.advance (((SameShape.refl _).stats _).keyed hd₂)
    (((SameShape.refl _).stats _).keyed hd₂) rfl

end IndexedDocument

end FormulaSheet
