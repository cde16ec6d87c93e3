import FormulaSheet.Proofs.Document.References
import FormulaSheet.Proofs.Expr.SingleToken

/-!
# Names that cells can take

A name is valid exactly if its text is a safe expression that reads this name and nothing else.
After a rename the new name by itself is such an expression, and what it reads is the renamed cell
(`isValidName_iff_readsItself`).
-/

namespace FormulaSheet

/-- The text of the name is an expression: the name from its first byte to its last, which is safe
and reads this name only. -/
def Engine.ReadsItself (eng : Engine) (name : String) : Prop :=
  ∃ k, eng.compile name = .ok k ∧ k.expr = .ident name ⟨0, Text.byteSize name.toList⟩ ∧
    k.offenses = [] ∧ eng.freeNames k.expr = [name]

namespace Engine

variable {eng : Engine} {name : String}

/-- A text compiles to what it is parsed as and to the offenses of this. -/
theorem compile_eq_ok_iff {source : String} {k : Compiled} :
    eng.compile source = .ok k ↔
      Expr.parse eng.limits.maxDepth source = .ok k.expr ∧
      k.offenses = k.expr.offenses eng.policy := by
  obtain ⟨e, offenses⟩ := k
  unfold compile
  cases Expr.parse eng.limits.maxDepth source with
  | error => simp
  | ok e' =>
    simp only [Except.ok.injEq, Compiled.mk.injEq]
    constructor
    · rintro ⟨rfl, rfl⟩
      exact ⟨rfl, rfl⟩
    · rintro ⟨rfl, rfl⟩
      exact ⟨rfl, rfl⟩

theorem offenses_ident_eq_nil_iff (p : Policy) (span : Span) :
    (Expr.ident name span).offenses p = [] ↔ p.isDenied name = false := by
  have hnodes : (Expr.ident name span).nodes = [.ident name span] := rfl
  rw [Expr.offenses, hnodes, List.filterMap_cons, Expr.offense?]
  cases p.isDenied name <;> simp

theorem freeNames_ident_eq_iff (span : Span) :
    eng.freeNames (.ident name span) = [name] ↔ eng.policy.isSpace name = false := by
  have hnames : (Expr.ident name span).identifiers.map Prod.fst = [name] := rfl
  rw [freeNames, hnames]
  cases hspace : eng.policy.isSpace name <;> simp [hspace, addNew]

/-- A valid name is one that is read as itself. -/
theorem readsItself_iff (hdepth : 1 ≤ eng.limits.maxDepth) :
    eng.ReadsItself name ↔ eng.isValidName name = true := by
  have hparse :
      Expr.parse eng.limits.maxDepth name = .ok (.ident name ⟨0, Text.byteSize name.toList⟩) ↔
      Token.isIdentifier name = true := Expr.parse_eq_ident_iff hdepth
  rw [isValidName, Bool.and_eq_true, Bool.and_eq_true, Bool.not_eq_true',
    Bool.not_eq_true', ← hparse]
  constructor
  · rintro ⟨k, hk, hexpr, hoffenses, hfree⟩
    obtain ⟨hparsed, hfound⟩ := compile_eq_ok_iff.mp hk
    rw [hexpr] at hparsed hfound hfree
    exact ⟨⟨hparsed, (freeNames_ident_eq_iff _).mp hfree⟩,
      (offenses_ident_eq_nil_iff _ _).mp (hfound.symm.trans hoffenses)⟩
  · rintro ⟨⟨hparsed, hspace⟩, hdenied⟩
    have hoffenses :=
      (offenses_ident_eq_nil_iff eng.policy ⟨0, Text.byteSize name.toList⟩).mpr hdenied
    exact ⟨⟨_, []⟩, compile_eq_ok_iff.mpr ⟨hparsed, hoffenses.symm⟩, rfl, rfl,
      (freeNames_ident_eq_iff _).mpr hspace⟩

end Engine

namespace Document

variable {d : Document} {id : CellId} {c : Cell} {name : String}

/-- After a rename the new name refers to the renamed cell. -/
theorem Valid.resolve?_of_renameCell (hd : d.Valid) (hc : d.cell? id = some c)
    (h : d.Renamable id name) {p : Progress} (hp : d.renameCell id name = .ok p) :
    p.document.resolve? name = some id := by
  have hshape := hd.sameShape_renameCell hc h hp
  obtain ⟨-, -, -, -, hnew⟩ := h
  have hnamed :=
    named?_renamed_new (names_renameCells hd.keyed id c.name name) (mem_keys_of_cell? hc) hnew
  rw [hshape.resolve? name]
  exact resolve?_eq_some_iff.mpr (Or.inl hnamed)

/-- **Valid names are those that are read as references to themselves.** So after a rename to
another name this name is an expression by itself that compiles without offenses, and all it
reads is the renamed cell. -/
theorem isValidName_iff_readsItself :
    (∀ eng : Engine, 1 ≤ eng.limits.maxDepth → ∀ name, eng.isValidName name = true ↔
      eng.ReadsItself name) ∧
      ∀ d : Document, d.Reachable → 1 ≤ d.engine.limits.maxDepth →
        ∀ id c name p, d.cell? id = some c → c.name ≠ name → d.renameCell id name = .ok p →
          p.document.engine.ReadsItself name ∧ p.document.resolve? name = some id := by
  refine ⟨fun eng hdepth name => (Engine.readsItself_iff hdepth).symm, ?_⟩
  intro d hd hdepth id c name p hc hname hp
  have hrenamable := renamable_of_renameCell hd.valid.keyed hc hname hp
  have hshape := hd.valid.sameShape_renameCell hc hrenamable hp
  have hengine : p.document.engine = d.engine := hshape.engine
  refine ⟨?_, hd.valid.resolve?_of_renameCell hc hrenamable hp⟩
  obtain ⟨-, -, -, hvalid, -⟩ := hrenamable
  rw [hengine]
  exact (Engine.readsItself_iff hdepth).mpr hvalid

/-- A cell with the name `x` gets the name `y`. -/
theorem readsItself_after_rename :
    (Engine.mk .empty .empty .default).ReadsItself "y" ∧
    ∃ p, ((create ⟨.empty, .empty, .default⟩ []).run
      [.addCell "a" ⟨none, "x", "1", none, []⟩]).renameCell "a" "y" = .ok p ∧
        p.document.engine.ReadsItself "y" ∧ p.document.resolve? "y" = some "a" := by
  set d :=
    (create ⟨.empty, .empty, .default⟩ []).run [.addCell "a" ⟨none, "x", "1", none, []⟩] with hd_def
  have hd : d.Reachable := by
    rw [hd_def]
    exact (Initial.create _ _).reachable.run _
  have hcells : d.cells.map (fun q => (q.1, q.2.name)) = [("a", "x")] := by decide +kernel
  obtain ⟨q, hq, hfields⟩ := List.mem_map.mp (hcells ▸ List.mem_cons_self)
  obtain ⟨hid, hname⟩ := Prod.mk.inj hfields
  have hc : d.cell? "a" = some q.2 := by
    rw [← hid]
    exact hd.valid.keyed.cell?_of_mem hq
  have hne : q.2.name ≠ "y" := by
    rw [hname]
    decide
  obtain ⟨p, hp, -⟩ :=
    hd.valid.renameCell_spec hc ⟨q.2, hc, hne, by decide +kernel, by decide +kernel⟩
  have hvalid : (Engine.mk .empty .empty .default).isValidName "y" = true := by decide +kernel
  exact ⟨(isValidName_iff_readsItself.1 _ (by decide) "y").mp hvalid, p, hp,
    isValidName_iff_readsItself.2 d hd (by decide +kernel) "a" q.2 "y" p hc hne hp⟩

end Document

end FormulaSheet
