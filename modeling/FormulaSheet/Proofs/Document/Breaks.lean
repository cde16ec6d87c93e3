import FormulaSheet.Proofs.Document.References
import FormulaSheet.Proofs.Expr.Offenses

/-!
# What a rename breaks

A rename writes expressions anew, and they are read and checked again. An expression that was
accepted is accepted again, unless an entry that is written out nests too deeply, the policy denies
the new name with a dollar sign before it, or the cell is named like a namespace whose functions the
expression accesses (`Reachable.rename_breaks_iff`).
-/

namespace FormulaSheet

namespace Cell

variable {eng : Engine} {c : Cell} {s : String}

theorem compileError?_compile_eq_none : (c.compile eng s).compileError? = none ↔
    ∃ e, Expr.parse eng.limits.maxDepth s = .ok e ∧ e.offenses eng.policy = [] := by
  rw [compile, Engine.compile]
  cases Expr.parse eng.limits.maxDepth s with
  | error fault => simp
  | ok e => simp [Compiled.disallowed?, Compiled.isSafe]

/-- An expression that was accepted has been read off its text, and has no offenses. -/
theorem Faithful.accepted (h : c.Faithful eng) (hclean : c.compileError? = none) :
    Expr.parse eng.limits.maxDepth c.expression = .ok c.expr ∧ c.expr.offenses eng.policy = [] := by
  rcases h.parse_cases with ⟨hparse, herror⟩ | ⟨fault, -, herror⟩
  · rw [hclean] at herror
    exact ⟨hparse, by simpa [Compiled.disallowed?, Compiled.isSafe] using herror.symm⟩
  · rw [hclean] at herror
    cases herror

end Cell

namespace Document

variable {d : Document} {id b : CellId} {x c : Cell} {old new n : String}

theorem compileError?_renamedCell_of_not_refers (h : d.refers id c = false) :
    (d.renamedCell id old new c).compileError? = c.compileError? := by
  rw [renamedCell, h]
  simp only [Bool.false_eq_true, if_false]
  split <;> rfl

theorem compileError?_renamedCell_of_refers (h : d.refers id c = true) :
    (d.renamedCell id old new c).compileError? = none ↔
      ∃ e, Expr.parse d.engine.limits.maxDepth (d.renamedText id old new c) = .ok e ∧
        e.offenses d.engine.policy = [] := by
  rw [renamedCell, h, if_pos rfl, Cell.compileError?_compile_eq_none]

theorem newName_renamed?_of_dollar (h : d.resolve? ("$" ++ old) = some id) :
    Expr.newName (d.renamed? id old new) ("$" ++ old) = "$" ++ new := by
  rw [newName_renamed? h (Or.inr rfl), if_neg (ne_dollar old).symm]

theorem newName_renamed?_of_bare (h : d.resolve? old = some id) :
    Expr.newName (d.renamed? id old new) old = new := by
  rw [newName_renamed? h (Or.inl rfl), if_pos rfl]

/-- A name is kept, or it is one of the two that refer to the renamed cell. -/
theorem Keyed.newName_cases (hd : d.Keyed) (hx : d.cell? id = some x) (new n : String) :
    Expr.newName (d.renamed? id x.name new) n = n ∨ n = x.name ∧ d.resolve? x.name = some id ∨
      n = "$" ++ x.name ∧ d.resolve? ("$" ++ x.name) = some id := by
  by_cases hresolve : d.resolve? n = some id
  · rcases hd.eq_of_resolve? hx hresolve with rfl | ⟨rfl, -⟩
    · exact Or.inr (Or.inl ⟨rfl, hresolve⟩)
    · exact Or.inr (Or.inr ⟨rfl, hresolve⟩)
  · left
    rw [Expr.newName, renamed?_of_ne hresolve, Option.getD_none]

/-- The ways in which the rename of the cell `x` leaves a cell that refers to it with an
expression that is refused. -/
inductive Breaks (d : Document) (x : Cell) (new : String) (c : Cell) : Prop where
  /-- The expression that is written anew nests too deeply. -/
  | nested {place : Nat}
      (hdeep : Expr.parse d.engine.limits.maxDepth (d.renamedText x.id x.name new c) =
      .error ⟨.tooDeep d.engine.limits.maxDepth, place⟩)
  /-- The expression refers to the cell with a dollar sign, and the policy denies the new name with
  one. -/
  | denied (hread : "$" ++ x.name ∈ c.expr.identifiers.map Prod.fst)
      (hresolve : d.resolve? ("$" ++ x.name) = some x.id)
      (hdenied : d.engine.policy.isDenied ("$" ++ new) = true)
  /-- The expression accesses a function of the namespace with the name of the cell. -/
  | space {property : String} (haccess : (x.name, property) ∈ c.expr.accesses)
      (hresolve : d.resolve? x.name = some x.id)
  /-- The expression accesses a function of a namespace with this name after a dollar sign, and the
  policy does not allow it for the new name. -/
  | dollarSpace {property : String} (haccess : ("$" ++ x.name, property) ∈ c.expr.accesses)
      (hresolve : d.resolve? ("$" ++ x.name) = some x.id)
      (hallowed : d.engine.policy.isAllowed ("$" ++ new) property = false)

/-- The expression that is written anew is refused where the rename breaks it. -/
theorem Breaks.offenses_ne_nil (h : d.Breaks x new c) (hspace : d.engine.policy.isSpace new = false)
    (hclean : c.expr.offenses d.engine.policy = []) {e : Expr}
    (hread : Expr.parse d.engine.limits.maxDepth (d.renamedText x.id x.name new c) = .ok e)
    (hrespells : Expr.Respells (d.renamed? x.id x.name new) c.expr e) :
    e.offenses d.engine.policy ≠ [] := by
  rw [Ne, hrespells.offenses_eq_nil_iff hclean]
  rintro ⟨hnames, haccesses⟩
  cases h with
  | nested hdeep =>
    rw [hread] at hdeep
    cases hdeep
  | denied hname hresolve hdenied =>
    obtain ⟨q, hq, hqname⟩ := List.mem_map.mp hname
    have hkept := hnames q hq
    rw [hqname, newName_renamed?_of_dollar hresolve, hdenied] at hkept
    cases hkept
  | space haccess hresolve =>
    have hallowed := haccesses _ haccess
    rw [newName_renamed?_of_bare hresolve] at hallowed
    rw [Policy.isSpace_of_isAllowed hallowed] at hspace
    cases hspace
  | dollarSpace haccess hresolve hallowed =>
    have hkept := haccesses _ haccess
    rw [newName_renamed?_of_dollar hresolve, hallowed] at hkept
    cases hkept

/-- The expression that is written anew has no offenses where the rename does not break it. -/
theorem Valid.offenses_renamed (hd : d.Valid) (hx : d.cell? x.id = some x)
    (hdenied : d.engine.policy.isDenied new = false) (hclean : c.expr.offenses d.engine.policy = [])
    {e : Expr} (hrespells : Expr.Respells (d.renamed? x.id x.name new) c.expr e)
    (hfits : ¬ d.Breaks x new c) : e.offenses d.engine.policy = [] := by
  obtain ⟨hnames, hmembers⟩ := Expr.offenses_eq_nil_iff.mp hclean
  refine (hrespells.offenses_eq_nil_iff hclean).mpr ⟨fun q hq => ?_, fun q hq => ?_⟩
  · rcases hd.keyed.newName_cases hx new q.1 with hsame | ⟨hname, hresolve⟩ | ⟨hname, hresolve⟩
    · rw [hsame]
      exact hnames q hq
    · rw [hname, newName_renamed?_of_bare hresolve]
      exact hdenied
    · have hread : "$" ++ x.name ∈ c.expr.identifiers.map Prod.fst := hname ▸ List.mem_map_of_mem hq
      rw [hname, newName_renamed?_of_dollar hresolve, ← Bool.not_eq_true]
      exact fun hnew => hfits (.denied hread hresolve hnew)
  · obtain ⟨name, property⟩ := q
    rcases hd.keyed.newName_cases hx new name with hsame | ⟨rfl, hresolve⟩ | ⟨rfl, hresolve⟩
    · obtain ⟨place, span, hmem⟩ := Expr.mem_accesses.mp hq
      obtain ⟨name', place', hname, hallowed⟩ := hmembers _ property span hmem
      obtain ⟨rfl, -⟩ := Expr.ident.inj hname
      rw [hsame]
      exact hallowed
    · exact absurd (.space hq hresolve) hfits
    · rw [newName_renamed?_of_dollar hresolve, ← Bool.not_eq_false]
      exact fun hnew => hfits (.dollarSpace hq hresolve hnew)

/-- The renamed form of an accepted cell that refers to the cell is accepted exactly if the
rename does not break it. -/
theorem Valid.compileError?_renamedCell_iff (hd : d.Valid) (hx : d.cell? x.id = some x)
    (hvalid : d.engine.isValidName new = true) (hc : d.cell? b = some c)
    (hclean : c.compileError? = none) (hrefers : d.refers x.id c = true) :
    (d.renamedCell x.id x.name new c).compileError? = none ↔ ¬ d.Breaks x new c := by
  simp only [Engine.isValidName, Bool.and_eq_true, Bool.not_eq_true'] at hvalid
  obtain ⟨⟨hnew, hspace⟩, hdenied⟩ := hvalid
  obtain ⟨hparse, hoffenses⟩ := (hd.faithful_of_cell? hc).accepted hclean
  rw [compileError?_renamedCell_of_refers hrefers]
  rcases parse_renamedText hnew hparse with ⟨e, he, hrespells⟩ | ⟨place, hdeep⟩
  · constructor
    · rintro ⟨e', he', hoffenses'⟩ hbreaks
      rw [he, Except.ok.injEq] at he'
      subst he'
      exact hbreaks.offenses_ne_nil hspace hoffenses he hrespells hoffenses'
    · intro hfits
      exact ⟨e, he, hd.offenses_renamed hx hdenied hoffenses hrespells hfits⟩
  · refine iff_of_false ?_ fun hfits => hfits (.nested hdeep)
    rintro ⟨e, he, -⟩
    rw [hdeep] at he
    cases he

/-- **A rename to another name leaves an accepted expression accepted exactly if the expression does
not refer to the cell, or the rename does not break it.** -/
theorem Reachable.rename_breaks_iff (hd : d.Reachable) (hx : d.cell? id = some x) {p : Progress}
    (hp : d.renameCell id new = .ok p) (hc : d.cell? b = some c) (hclean : c.compileError? = none) :
    (∃ c', p.document.cell? b = some c' ∧ c'.compileError? = none) ↔
      x.name = new ∨ d.refers id c = false ∨ ¬ d.Breaks x new c := by
  obtain rfl : x.id = id := hd.valid.keyed.id_of_cell? hx
  by_cases hname : x.name = new
  · rw [renameCell_of_same hx hname hp]
    exact ⟨fun _ => Or.inl hname, fun _ => ⟨c, hc, hclean⟩⟩
  · have hrenamable := renamable_of_renameCell hd.valid.keyed hx hname hp
    have hshape := hd.valid.sameShape_renameCell hx hrenamable hp
    obtain ⟨r, hcell⟩ := hshape.cell? (cell?_renameCells x.id x.name new hc)
    obtain ⟨-, -, -, hvalid, -⟩ := hrenamable
    have haccepted : (∃ c', p.document.cell? b = some c' ∧ c'.compileError? = none) ↔
        (d.renamedCell x.id x.name new c).compileError? = none := by
      rw [hcell]
      exact ⟨fun ⟨c', hc', herror⟩ => by rwa [← Option.some.inj hc'] at herror,
        fun herror => ⟨_, rfl, herror⟩⟩
    rw [haccepted, or_iff_right hname]
    cases hrefers : d.refers x.id c with
    | false =>
      rw [compileError?_renamedCell_of_not_refers hrefers]
      exact iff_of_true hclean (Or.inl rfl)
    | true =>
      rw [hd.valid.compileError?_renamedCell_iff hx hvalid hc hclean hrefers]
      simp

/-- A cell with the name of a namespace, and an expression that reads the cell and calls a
function of the namespace. -/
def spaceDocument : Document :=
  (create ⟨.default, .empty, .default⟩ []).run
    [.addCell "a" ⟨none, "Math", "5", none, []⟩,
      .addCell "b" ⟨none, "z", "$Math + Math.max(1, 2)", none, []⟩]

/-- The call of the function is written anew together with the reference to the cell. -/
theorem not_accepted_beside_namespace :
    ∃ c p, spaceDocument.cell? "b" = some c ∧ c.compileError? = none ∧
      spaceDocument.renameCell "a" "m" = .ok p ∧
      ¬ ∃ c', p.document.cell? "b" = some c' ∧ c'.compileError? = none := by
  have hd : spaceDocument.Reachable := (Initial.create _ _).reachable.run _
  have hnamed : (spaceDocument.cell? "a").map Cell.name = some "Math" := by decide +kernel
  obtain ⟨x, hx, hx_name⟩ := Option.map_eq_some_iff.mp hnamed
  have hreader : (spaceDocument.cell? "b").map (fun c =>
      (spaceDocument.refers "a" c, c.expr.accesses, c.compileError?.isSome)) =
      some (true, [("Math", "max")], false) := by decide +kernel
  obtain ⟨c, hc, hfields⟩ := Option.map_eq_some_iff.mp hreader
  simp only [Prod.mk.injEq, Option.isSome_eq_false_iff, Option.isNone_iff_eq_none] at hfields
  obtain ⟨hrefers, haccesses, hclean⟩ := hfields
  have hrenamable : spaceDocument.Renamable "a" "m" := by
    refine ⟨x, hx, ?_, by decide +kernel, by decide +kernel⟩
    rw [hx_name]
    decide
  obtain ⟨p, hp, -⟩ := hd.valid.renameCell_spec hx hrenamable
  refine ⟨c, p, hc, hclean, hp, fun haccepted => ?_⟩
  have hx_id : x.id = "a" := hd.valid.keyed.id_of_cell? hx
  have hresolve : spaceDocument.resolve? "Math" = some "a" := by decide +kernel
  rcases (hd.rename_breaks_iff hx hp hc hclean).mp haccepted with hsame | hnone | hfits
  · rw [hx_name] at hsame
    exact absurd hsame (by decide)
  · rw [hrefers] at hnone
    cases hnone
  · refine hfits (@Breaks.space spaceDocument x "m" c "max" ?_ ?_)
    · rw [hx_name, haccesses]
      exact List.mem_singleton_self _
    · rw [hx_name, hx_id]
      exact hresolve

end Document

end FormulaSheet
