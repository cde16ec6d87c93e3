import FormulaSheet.Proofs.Document.Quiet
import FormulaSheet.Proofs.Expr.Renamed

/-!
# References after a rename

The free names of an expression stay at their positions when a cell is renamed, and those that refer
to the cell are spelled anew. So a rename keeps a reference, unless the new spelling is the name of
another cell, the new name is read as that of a cell with a dollar sign in front, or the text that
is written anew nests too deeply (`Reachable.rename_keeps_iff`).
-/

namespace FormulaSheet

/-- A name with a dollar sign before it is a name as well. -/
theorem Token.isIdentifier_dollar {n : String} (h : isIdentifier n = true) :
    isIdentifier ("$" ++ n) = true := by
  obtain ⟨c, w, hn, hstart, hw, -, -⟩ := isIdentifier_iff.mp h
  have hlist : ("$" ++ n).toList = '$' :: c :: w := by
    rw [String.toList_append, hn]
    rfl
  have hhead : ∀ words : List String, (∀ s ∈ words, s.toList.head? ≠ some '$') →
      "$" ++ n ∉ words := by
    intro words hwords hmem
    apply hwords _ hmem
    rw [hlist]
    rfl
  refine isIdentifier_iff.mpr ⟨'$', c :: w, hlist, by decide, fun d hd => ?_, ?_, ?_⟩
  · rcases List.mem_cons.mp hd with rfl | hd
    · exact SameStart.isNameChar_of_isNameStart hstart
    · exact hw d hd
  · exact hhead _ (by decide)
  · exact hhead _ (by decide)

namespace Cell

variable {eng : Engine} {c : Cell}

theorem mem_dependencies {n : String} :
    n ∈ c.dependencies eng ↔ n ∈ c.expr.identifiers.map Prod.fst ∧
    eng.policy.isSpace n = false := by
  rw [dependencies, Engine.freeNames, mem_foldl_addNew, List.mem_filter]
  simp

theorem expr_compile_of_ok {s : String} {e : Expr} (h : Expr.parse eng.limits.maxDepth s = .ok e) :
    (c.compile eng s).expr = e := by
  simp [compile, Engine.compile, h]

theorem expr_compile_of_error {s : String} {fault : SyntaxError}
    (h : Expr.parse eng.limits.maxDepth s = .error fault) : (c.compile eng s).expr = .empty := by
  simp [compile, Engine.compile, h]

/-- The expression has been read off its text and checked, or the text cannot be read. -/
theorem Faithful.parse_cases (h : c.Faithful eng) :
    (Expr.parse eng.limits.maxDepth c.expression = .ok c.expr ∧
        c.compileError? = (Compiled.mk c.expr (c.expr.offenses eng.policy)).disallowed?) ∨
      ∃ fault, c.expr = .empty ∧ c.compileError? = some (.malformed fault) := by
  cases hparse : Expr.parse eng.limits.maxDepth c.expression with
  | error fault =>
    have hcompile : eng.compile c.expression = .error (.malformed fault) := by
      rw [Engine.compile, hparse]
    obtain ⟨hexpr, -, herror⟩ := h.error _ hcompile
    exact Or.inr ⟨fault, hexpr, herror⟩
  | ok e =>
    have hcompile : eng.compile c.expression = .ok ⟨e, e.offenses eng.policy⟩ := by
      rw [Engine.compile, hparse]
    obtain ⟨hexpr, -, herror⟩ := h.ok _ hcompile
    rw [hexpr]
    exact Or.inl ⟨rfl, herror⟩

/-- An expression that reads a name has been read off its text. -/
theorem Faithful.parse_eq (h : c.Faithful eng) {n : String}
    (hn : n ∈ c.expr.identifiers.map Prod.fst) :
    Expr.parse eng.limits.maxDepth c.expression = .ok c.expr := by
  rcases h.parse_cases with ⟨hparse, -⟩ | ⟨fault, hempty, -⟩
  · exact hparse
  · rw [hempty] at hn
    cases hn

end Cell

namespace Document

variable {d : Document} {id b k : CellId} {x c : Cell} {old new n : String} {i : Nat}

/-! ### New spellings -/

theorem renamed?_of_ne (h : d.resolve? n ≠ some id) : d.renamed? id old new n = none := by
  rw [renamed?, if_neg h]

theorem isIdentifier_of_renamed? (hnew : Token.isIdentifier new = true) (n m : String)
    (h : d.renamed? id old new n = some m) : Token.isIdentifier m = true := by
  unfold renamed? Expr.renamedReference at h
  split_ifs at h
  · rw [← Option.some.inj h]
    exact hnew
  · rw [← Option.some.inj h]
    exact Token.isIdentifier_dollar hnew

theorem bareName?_dollar (n : String) : bareName? ("$" ++ n) = some n := by
  rw [bareName?, String.toList_append]
  exact congrArg some String.ofList_toList

theorem eq_dollar_of_bareName? {m : String} (h : bareName? n = some m) : n = "$" ++ m := by
  unfold bareName? at h
  split at h
  · rename_i cs hcs
    rw [← Option.some.inj h, ← String.toList_inj, hcs, String.toList_append]
    exact congrArg ('$' :: ·) String.toList_ofList.symm
  · cases h

/-- A name that refers to a cell is the name of the cell, or this name after a dollar sign where no
cell has that for its name. -/
theorem Keyed.eq_of_resolve? (hd : d.Keyed) (hx : d.cell? id = some x)
    (h : d.resolve? n = some id) : n = x.name ∨ n = "$" ++ x.name ∧ d.named? n = none := by
  rcases resolve?_eq_some_iff.mp h with hnamed | ⟨hnone, hbare⟩
  · obtain ⟨x', hx', hname⟩ := hd.cell?_of_named? hnamed
    rw [hx, Option.some.injEq] at hx'
    exact Or.inl (by rw [hx', hname])
  · obtain ⟨m, hm, hnamed⟩ := Option.bind_eq_some_iff.mp hbare
    obtain ⟨x', hx', hname⟩ := hd.cell?_of_named? hnamed
    rw [hx, Option.some.injEq] at hx'
    rw [hx', hname]
    exact Or.inr ⟨eq_dollar_of_bareName? hm, hnone⟩

theorem newName_renamed? (h : d.resolve? n = some id) (hn : n = old ∨ n = "$" ++ old) :
    Expr.newName (d.renamed? id old new) n = if n = old then new else "$" ++ new := by
  rw [Expr.newName, renamed?, if_pos h, Expr.renamedReference]
  by_cases hold : n = old
  · rw [if_pos hold, if_pos hold, Option.getD_some]
  · have hdollar : n.toList = '$' :: old.toList := by
      rw [hn.resolve_left hold, String.toList_append]
      rfl
    rw [if_neg hold, if_neg hold, if_pos hdollar, Option.getD_some]

/-! ### The expressions after a rename -/

/-- The free name at position `i` of the expression of the cell `b` is `n`. -/
def ReadsAt (d : Document) (b : CellId) (i : Nat) (n : String) : Prop :=
  ∃ c, d.cell? b = some c ∧ (c.expr.identifiers.map Prod.fst)[i]? = some n

/-- The expression of the cell `b` refers to the cell `x`, and nests too deeply once it is written
anew. -/
def NestsTooDeeply (d : Document) (x : Cell) (new : String) (b : CellId) : Prop :=
  ∃ c place, d.cell? b = some c ∧ d.refers x.id c = true ∧
    Expr.parse d.engine.limits.maxDepth (d.renamedText x.id x.name new c) =
      .error ⟨.tooDeep d.engine.limits.maxDepth, place⟩

theorem nestsTooDeeply_iff (hc : d.cell? b = some c) : d.NestsTooDeeply x new b ↔
    d.refers x.id c = true ∧
      ∃ place, Expr.parse d.engine.limits.maxDepth (d.renamedText x.id x.name new c) =
      .error ⟨.tooDeep d.engine.limits.maxDepth, place⟩ := by
  constructor
  · rintro ⟨c', place, hc', hrefers, hparse⟩
    rw [hc, Option.some.injEq] at hc'
    rw [hc']
    exact ⟨hrefers, place, hparse⟩
  · rintro ⟨hrefers, place, hparse⟩
    exact ⟨c, place, hc, hrefers, hparse⟩

theorem cell?_renameCells (id : CellId) (old new : String) (hc : d.cell? b = some c) :
    (d.renameCells id old new).cell? b = some (d.renamedCell id old new c) := by
  have hget : Fields.get? d.cells b = some c := hc
  rw [cell?, renameCells, Fields.get?_map, hget, Option.map_some]

theorem expr_renamedCell_of_not_refers (h : d.refers id c = false) :
    (d.renamedCell id old new c).expr = c.expr := by
  rw [renamedCell, h]
  simp only [Bool.false_eq_true, if_false]
  split <;> rfl

theorem expr_renamedCell_of_ok {e : Expr} (h : d.refers id c = true)
    (he : Expr.parse d.engine.limits.maxDepth (d.renamedText id old new c) = .ok e) :
    (d.renamedCell id old new c).expr = e := by
  rw [renamedCell, h, if_pos rfl, Cell.expr_compile_of_ok he]

theorem expr_renamedCell_of_error {fault : SyntaxError} (h : d.refers id c = true)
    (he : Expr.parse d.engine.limits.maxDepth (d.renamedText id old new c) = .error fault) :
    (d.renamedCell id old new c).expr = .empty := by
  rw [renamedCell, h, if_pos rfl, Cell.expr_compile_of_error he]

/-- The text that is written anew is read as the expression with the new spellings, or nests too
deeply. -/
theorem parse_renamedText (hnew : Token.isIdentifier new = true)
    (hparse : Expr.parse d.engine.limits.maxDepth c.expression = .ok c.expr) :
    (∃ e, Expr.parse d.engine.limits.maxDepth (d.renamedText id old new c) = .ok e ∧
        Expr.Respells (d.renamed? id old new) c.expr e) ∨
      ∃ place, Expr.parse d.engine.limits.maxDepth (d.renamedText id old new c) =
        .error ⟨.tooDeep d.engine.limits.maxDepth, place⟩ := by
  obtain ⟨e, he, hrespells⟩ := Expr.parse_renameIn (isIdentifier_of_renamed? hnew) hparse
  rcases Expr.parse_of_le (Nat.le_succ d.engine.limits.maxDepth) (d.renamedText id old new c) with
    hsame | hdeep
  · exact Or.inl ⟨e, hsame.trans he, hrespells⟩
  · exact Or.inr hdeep

/-- **What stands at the position of a free name after a rename**: its new spelling, unless the
expression nests too deeply now. -/
theorem Valid.readsAt_renameCells (hd : d.Valid) (hx : d.cell? id = some x)
    (hnew : Token.isIdentifier new = true) (h : d.ReadsAt b i n)
    (hspace : d.engine.policy.isSpace n = false) (n' : String) :
    (d.renameCells id x.name new).ReadsAt b i n' ↔
      n' = Expr.newName (d.renamed? id x.name new) n ∧ ¬ d.NestsTooDeeply x new b := by
  obtain ⟨c, hc, hi⟩ := h
  have hid : x.id = id := hd.keyed.id_of_cell? hx
  have hreads : (d.renameCells id x.name new).ReadsAt b i n' ↔
      ((d.renamedCell id x.name new c).expr.identifiers.map Prod.fst)[i]? = some n' := by
    constructor
    · rintro ⟨c', hc', hi'⟩
      rw [cell?_renameCells id x.name new hc, Option.some.injEq] at hc'
      rw [hc']
      exact hi'
    · exact fun hi' => ⟨_, cell?_renameCells id x.name new hc, hi'⟩
  have hmem : n ∈ c.expr.identifiers.map Prod.fst := List.mem_of_getElem? hi
  rw [hreads, nestsTooDeeply_iff hc, hid]
  cases hrefers : d.refers id c with
  | false =>
    have hne : d.resolve? n ≠ some id := by
      intro hresolve
      rw [← Bool.not_eq_true, refers_eq_true_iff] at hrefers
      exact hrefers ⟨n, Cell.mem_dependencies.mpr ⟨hmem, hspace⟩, hresolve⟩
    rw [expr_renamedCell_of_not_refers hrefers, hi, Expr.newName, renamed?_of_ne hne]
    simp [eq_comm]
  | true =>
    obtain ⟨e, he, hrespells⟩ | hplace :=
      parse_renamedText hnew ((hd.faithful_of_cell? hc).parse_eq hmem)
    · rw [expr_renamedCell_of_ok hrefers he, hrespells.map_identifiers, List.getElem?_map, hi, he]
      simp [eq_comm]
    · obtain ⟨place, hplace⟩ := hplace
      have hempty : Expr.empty.identifiers.map Prod.fst = [] := rfl
      rw [expr_renamedCell_of_error hrefers hplace, hplace, hempty, List.getElem?_nil]
      simp

/-! ### What the new spellings refer to -/

theorem name_renamedCell :
    (d.renamedCell id old new c).name = if c.id = id then new else c.name := by
  rw [renamedCell]
  by_cases hid : c.id = id
  · rw [if_pos hid, if_pos hid]
    split
    · rw [Cell.compile_name]
    · rfl
  · rw [if_neg hid, if_neg hid]
    split
    · rw [Cell.compile_name]
    · rfl

theorem ne_dollar (n : String) : n ≠ "$" ++ n := by
  intro h
  have hlength := congrArg (fun s => s.toList.length) h
  simp at hlength

/-- The ways in which the rename of the cell `x` loses the reference `n` of the cell `b` to a
cell. -/
inductive Loses (d : Document) (x : Cell) (new : String) (b : CellId) (n : String) :
    CellId → Prop where
  /-- The reference is written with a dollar sign, and with it the new name is that of another
  cell. -/
  | diverted {a : CellId} {c : Cell} (hn : n ≠ x.name) (hc : d.cell? a = some c) (hne : a ≠ x.id)
      (hname : c.name = "$" ++ new) : Loses d x new b n x.id
  /-- The reference to another cell is the new name. -/
  | taken {k : CellId} (hk : k ≠ x.id) (hn : n = new) : Loses d x new b n k
  /-- The expression that is written anew cannot be read any more. -/
  | broken {k : CellId} (h : d.NestsTooDeeply x new b) : Loses d x new b n k

theorem Valid.resolve?_renameCells_self (hd : d.Valid) (hx : d.cell? id = some x)
    (hnew : d.named? new = none) (hk : d.resolve? n = some id) :
    (d.renameCells id x.name new).resolve? (Expr.newName (d.renamed? id x.name new) n) = some id ↔
      (n ≠ x.name → ∀ a c, d.cell? a = some c → a ≠ id → c.name ≠ "$" ++ new) := by
  have hid : x.id = id := hd.keyed.id_of_cell? hx
  have hnames := names_renameCells hd.keyed id x.name new
  have hself := named?_renamed_new hnames (mem_keys_of_cell? hx) hnew
  have hspelling := hd.keyed.eq_of_resolve? hx hk
  rw [newName_renamed? hk (hspelling.imp_right And.left)]
  by_cases hn : n = x.name
  · rw [if_pos hn, resolve?_eq_some_iff]
    exact ⟨fun _ hne => absurd hn hne, fun _ => Or.inl hself⟩
  · rw [if_neg hn]
    constructor
    · rintro hresolve - a c hc hne hname
      have hx' := cell?_renameCells id x.name new hx
      have hx'_name : (d.renamedCell id x.name new x).name = new := by
        rw [name_renamedCell, if_pos hid]
      rcases hd.keyed.keyed_renameCells.eq_of_resolve? hx' hresolve with hsame | ⟨-, hnone⟩
      · rw [hx'_name] at hsame
        exact ne_dollar new hsame.symm
      · have hc_id : c.id = a := hd.keyed.id_of_cell? hc
        have hmem := mem_of_cell? (cell?_renameCells id x.name new hc)
        apply named?_eq_none_iff.mp hnone _ hmem
        rw [name_renamedCell, hc_id, if_neg hne, hname]
    · intro hothers
      refine resolve?_eq_some_iff.mpr (Or.inr ⟨named?_eq_none_iff.mpr fun p hp => ?_, ?_⟩)
      · obtain ⟨q, hq, rfl⟩ := List.mem_map.mp hp
        have hq_id : q.2.id = q.1 := hd.keyed.id_eq q hq
        dsimp only
        rw [name_renamedCell, hq_id]
        split
        · exact ne_dollar new
        · rename_i hne
          exact hothers hn q.1 q.2 (hd.keyed.cell?_of_mem hq) hne
      · rw [bareName?_dollar, Option.bind_some, hself]

theorem Valid.resolve?_renameCells_other (hd : d.Valid) (hx : d.cell? id = some x)
    (hnew : d.named? new = none) (hk : d.resolve? n = some k) (hne : k ≠ id) :
    (d.renameCells id x.name new).resolve? (Expr.newName (d.renamed? id x.name new) n) = some k ↔
      n ≠ new := by
  have hnames := names_renameCells hd.keyed id x.name new
  have hother : d.resolve? n ≠ some id := by
    rw [hk, Ne, Option.some.injEq]
    exact hne
  rw [Expr.newName, renamed?_of_ne hother, Option.getD_none,
    resolve?_renamed hnames (mem_keys_of_cell? hx) hnew hother]
  split
  · rename_i hcaptured
    rcases hcaptured with hn | ⟨-, hnone⟩
    · rw [Option.some.injEq]
      exact ⟨fun h => absurd h.symm hne, fun h => absurd hn h⟩
    · rw [hk] at hnone
      cases hnone
  · rename_i hcaptured
    exact ⟨fun _ hn => hcaptured (Or.inl hn), fun _ => hk⟩

/-- A reference is kept by the renamed cells exactly if it is not lost. -/
theorem Valid.renameCells_keeps_iff (hd : d.Valid) (hx : d.cell? id = some x)
    (hnew : Token.isIdentifier new = true) (hnamed : d.named? new = none) (h : d.ReadsAt b i n)
    (hspace : d.engine.policy.isSpace n = false) (hk : d.resolve? n = some k) :
    (∃ n', (d.renameCells id x.name new).ReadsAt b i n' ∧
        (d.renameCells id x.name new).resolve? n' = some k) ↔ ¬ d.Loses x new b n k := by
  have hid : x.id = id := hd.keyed.id_of_cell? hx
  have hreads := hd.readsAt_renameCells hx hnew h hspace
  constructor
  · rintro ⟨n', hread, hresolve⟩ hloses
    obtain ⟨rfl, hfits⟩ := (hreads n').mp hread
    cases hloses with
    | diverted hn hc hne hname =>
      rw [hid] at hk hresolve hne
      exact (hd.resolve?_renameCells_self hx hnamed hk).mp hresolve hn _ _ hc hne hname
    | taken hne hn =>
      rw [hid] at hne
      exact (hd.resolve?_renameCells_other hx hnamed hk hne).mp hresolve hn
    | broken hdeep => exact hfits hdeep
  · intro hkept
    refine ⟨_, (hreads _).mpr ⟨rfl, fun hdeep => hkept (.broken hdeep)⟩, ?_⟩
    by_cases hne : k = id
    · subst hne
      refine (hd.resolve?_renameCells_self hx hnamed hk).mpr fun hn a c hc hne hname => hkept ?_
      rw [← hid] at hne ⊢
      exact .diverted hn hc hne hname
    · refine (hd.resolve?_renameCells_other hx hnamed hk hne).mpr fun hn => hkept ?_
      exact .taken (hid ▸ hne) hn

/-! ### Renames -/

theorem Valid.sameShape_renameCell (hd : d.Valid) (hx : d.cell? id = some x)
    (h : d.Renamable id new) {p : Progress} (hp : d.renameCell id new = .ok p) :
    (d.renameCells id x.name new).SameShape p.document := by
  obtain ⟨q, hq, hpass, hno⟩ := hd.renameCell_spec hx h
  rw [hp, Except.ok.injEq] at hq
  subst hq
  by_cases hreads : ∃ b, d.Reads id b
  · rw [hpass hreads]
    exact hd.keyed.keyed_renameCells.recompute_spec.1
  · rw [hno fun b hb => hreads ⟨b, hb⟩]
    exact .refl _

theorem SameShape.readsAt {d' : Document} (h : d.SameShape d') (hread : d.ReadsAt b i n) :
    d'.ReadsAt b i n := by
  obtain ⟨c, hc, hi⟩ := hread
  obtain ⟨r, hc'⟩ := h.cell? hc
  exact ⟨_, hc', hi⟩

/-- **A rename to another name keeps a reference at its position exactly if it is not lost.** -/
theorem Reachable.rename_keeps_iff (hd : d.Reachable) (hx : d.cell? id = some x) {p : Progress}
    (hp : d.renameCell id new = .ok p) (h : d.ReadsAt b i n)
    (hspace : d.engine.policy.isSpace n = false) (hk : d.resolve? n = some k) :
    (∃ n', p.document.ReadsAt b i n' ∧ p.document.resolve? n' = some k) ↔
      x.name = new ∨ ¬ d.Loses x new b n k := by
  by_cases hname : x.name = new
  · rw [renameCell_of_same hx hname hp]
    exact ⟨fun _ => Or.inl hname, fun _ => ⟨n, h, hk⟩⟩
  · have hrenamable := renamable_of_renameCell hd.valid.keyed hx hname hp
    have hshape := hd.valid.sameShape_renameCell hx hrenamable hp
    obtain ⟨-, -, -, hvalid, hnamed⟩ := hrenamable
    have hnew : Token.isIdentifier new = true := by
      rw [Engine.isValidName, Bool.and_eq_true, Bool.and_eq_true] at hvalid
      exact hvalid.1.1
    rw [or_iff_right hname, ← hd.valid.renameCells_keeps_iff hx hnew hnamed h hspace hk]
    constructor
    · rintro ⟨n', hread, hresolve⟩
      exact ⟨n', hshape.symm.readsAt hread, (hshape.resolve? n').symm.trans hresolve⟩
    · rintro ⟨n', hread, hresolve⟩
      exact ⟨n', hshape.readsAt hread, (hshape.resolve? n').trans hresolve⟩

/-- A reference with a dollar sign beside a cell that has the new name after one. -/
theorem not_kept_beside_dollar_name :
    ∃ p, ((create ⟨.empty, .empty, .default⟩ []).run
        [.addCell "a" ⟨none, "x", "null", none, []⟩, .addCell "b" ⟨none, "$y", "true", none, []⟩,
          .addCell "c" ⟨none, "z", "$x", none, []⟩]).renameCell "a" "y" = .ok p ∧
      ¬ ∃ n', p.document.ReadsAt "c" 0 n' ∧ p.document.resolve? n' = some "a" := by
  set d := (create ⟨.empty, .empty, .default⟩ []).run
    [.addCell "a" ⟨none, "x", "null", none, []⟩, .addCell "b" ⟨none, "$y", "true", none, []⟩,
      .addCell "c" ⟨none, "z", "$x", none, []⟩] with hd_def
  have hd : d.Reachable := by
    rw [hd_def]
    exact (Initial.create _ _).reachable.run _
  have hcells : d.cells.map (fun q => (q.1, q.2.id, q.2.name, q.2.expr.identifiers.map Prod.fst)) =
      [("a", "a", "x", []), ("b", "b", "$y", []), ("c", "c", "z", ["$x"])] := by decide +kernel
  have hcell : ∀ a y ns, (a, a, y, ns) ∈ d.cells.map (fun q =>
      (q.1, q.2.id, q.2.name, q.2.expr.identifiers.map Prod.fst)) →
      ∃ c, d.cell? a = some c ∧ c.name = y ∧ c.expr.identifiers.map Prod.fst = ns := by
    intro a y ns hmem
    obtain ⟨q, hq, hfields⟩ := List.mem_map.mp hmem
    simp only [Prod.mk.injEq] at hfields
    obtain ⟨rfl, -, hname, hns⟩ := hfields
    exact ⟨q.2, hd.valid.keyed.cell?_of_mem hq, hname, hns⟩
  rw [hcells] at hcell
  obtain ⟨x, hx, hx_name, -⟩ := hcell "a" "x" [] (by decide)
  obtain ⟨y, hy, hy_name, -⟩ := hcell "b" "$y" [] (by decide)
  obtain ⟨z, hz, -, hz_names⟩ := hcell "c" "z" ["$x"] (by decide)
  have hx_id : x.id = "a" := hd.valid.keyed.id_of_cell? hx
  have hrenamable : d.Renamable "a" "y" := by
    refine ⟨x, hx, ?_, by decide +kernel, by decide +kernel⟩
    rw [hx_name]
    decide
  obtain ⟨p, hp, -⟩ := hd.valid.renameCell_spec hx hrenamable
  refine ⟨p, hp, fun hkept => ?_⟩
  have hread : d.ReadsAt "c" 0 "$x" := by
    refine ⟨z, hz, ?_⟩
    rw [hz_names]
    rfl
  have hk : d.resolve? "$x" = some "a" := by decide +kernel
  rcases (hd.rename_keeps_iff hx hp hread (by decide +kernel) hk).mp hkept with hsame | hkept
  · rw [hx_name] at hsame
    exact absurd hsame (by decide)
  · rw [← hx_id] at hkept
    refine hkept (.diverted ?_ hy ?_ hy_name)
    · rw [hx_name]
      decide
    · rw [hx_id]
      decide

end Document

end FormulaSheet
