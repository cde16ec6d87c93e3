import FormulaSheet.Proofs.Expr.Replaced

/-!
# The free names of a parsed expression

A free name of a parsed expression is a word of its text that is no reserved word and none of
`true`, `false`, `null` and `typeof`. Where it stands as an expression of its own it is none of the
three constants either, so that it is a reference. Only an entry of an object that is written as a
name alone keeps the name of a constant (`Expr.identifiers_of_parse`).
-/

namespace FormulaSheet

open Token

/-! ### Words of a text -/

/-- A word that is read as a name can be referred to, or it is the name of a constant. -/
theorem Token.IsWord.isIdentifier_or_constant {s : String} (h : IsWord s) :
    isIdentifier s = true ∨ s ∈ constantNames := by
  obtain ⟨c, w, hs, hstart, hw, hname⟩ := h
  by_cases hconstant : s ∈ constantNames
  · exact Or.inr hconstant
  · refine Or.inl (isIdentifier_iff.mpr ⟨c, w, hs, hstart, hw, ?_, ?_⟩)
    · -- the other literals are tokens of their own
      intro hliteral
      simp only [literalNames, constantNames, List.mem_cons, List.not_mem_nil, or_false, not_or]
        at hliteral hconstant
      rcases hliteral with rfl | rfl | rfl | rfl | h | h | h
      · cases hname
      · cases hname
      · cases hname
      · cases hname
      · exact hconstant.1 h
      · exact hconstant.2.1 h
      · exact hconstant.2.2 h
    · intro hreserved
      unfold ofWord at hname
      split_ifs at hname with _ _ _ _ hcontains
      exact hcontains (List.contains_iff_mem.mpr hreserved)

/-- The names among the lexemes of a text are words. -/
theorem Lexed.isWord {cs : List Char} {offset stop : Nat} {ls : List Lexeme}
    (h : Lexed cs offset ls stop) : ∀ l ∈ ls, ∀ s, l.token = .name s → IsWord s := by
  induction h with
  | finish =>
    intro l hl
    cases hl
  | blank _ _ ih => exact ih
  | token _ hread _ ih =>
    intro l hl s hs
    rcases List.mem_cons.mp hl with rfl | hl
    · dsimp only at hs
      subst hs
      exact (exists_of_read_name hread).1
    · exact ih l hl s hs

namespace Expr

variable {e c : Expr} {q : String × Span} {ls : List Lexeme}

theorem Marked.exists_lexeme {rename : String → Option String} {names : List (String × Span)}
    {es : List Edit} (h : Marked rename ls names es) :
    ∀ q ∈ names, ∃ l ∈ ls, l.token = .name q.1 := by
  induction h with
  | nil =>
    intro q hq
    cases hq
  | other _ ih =>
    intro q hq
    obtain ⟨l, hl, hname⟩ := ih q hq
    exact ⟨l, List.mem_cons_of_mem _ hl, hname⟩
  | kept hname _ _ ih | edited hname _ _ _ ih =>
    intro q hq
    rcases List.mem_cons.mp hq with rfl | hq
    · exact ⟨_, List.mem_cons_self, hname⟩
    · obtain ⟨l, hl, hname⟩ := ih q hq
      exact ⟨l, List.mem_cons_of_mem _ hl, hname⟩

/-! ### Names written as entries -/

/-- The name of an entry that is written as this name alone. -/
def shorthandName? (p : EntryKey × Expr) : Option (String × Span) :=
  if p.1.shorthand then p.2.ident? else none

/-- The names that are entries of an object by themselves. -/
def ownShorthands : Expr → List (String × Span)
  | object entries => entries.filterMap shorthandName?
  | _ => []

/-- The names that are written in an expression as entries of objects by themselves. -/
def shorthands (e : Expr) : List (String × Span) := e.nodes.flatMap ownShorthands

theorem shorthandName?_eq_some_iff {p : EntryKey × Expr} :
    shorthandName? p = some q ↔ p.1.shorthand = true ∧ p.2 = ident q.1 q.2 := by
  unfold shorthandName?
  split
  · rename_i hshorthand
    cases p.2 <;> simp [ident?, hshorthand, Prod.ext_iff]
  · rename_i hshorthand
    simp [hshorthand]

theorem mem_shorthands : q ∈ e.shorthands ↔ ∃ entries, object entries ∈ e.nodes ∧
    ∃ p ∈ entries, p.1.shorthand = true ∧ p.2 = ident q.1 q.2 := by
  rw [shorthands, List.mem_flatMap]
  constructor
  · rintro ⟨v, hv, hq⟩
    cases v with
    | object entries =>
      obtain ⟨p, hp, hname⟩ := List.mem_filterMap.mp hq
      exact ⟨entries, hv, p, hp, shorthandName?_eq_some_iff.mp hname⟩
    | _ => cases hq
  · rintro ⟨entries, hv, p, hp, hname⟩
    exact ⟨object entries, hv, List.mem_filterMap.mpr ⟨p, hp, shorthandName?_eq_some_iff.mpr hname⟩⟩

theorem mem_nodes_of_mem_children (h : c ∈ e.children) : c ∈ e.nodes := by
  rw [nodes_eq]
  exact List.mem_cons_of_mem _ (List.mem_flatMap.mpr ⟨c, h, self_mem_nodes c⟩)

/-- What is written as an entry in a part is written so in the whole. -/
theorem shorthands_subset_of_mem_children (h : c ∈ e.children) : c.shorthands ⊆ e.shorthands := by
  intro q hq
  obtain ⟨entries, hv, hp⟩ := mem_shorthands.mp hq
  exact mem_shorthands.mpr ⟨entries, nodes_subset (mem_nodes_of_mem_children h) hv, hp⟩

/-- A name that is written as an entry is a free name. -/
theorem shorthands_subset_identifiers (e : Expr) : e.shorthands ⊆ e.identifiers := by
  intro q hq
  obtain ⟨entries, hv, p, hp, -, hname⟩ := mem_shorthands.mp hq
  have hchild : p.2 ∈ (object entries).children := List.mem_map_of_mem hp
  rw [mem_identifiers, ← hname]
  exact nodes_subset hv (mem_nodes_of_mem_children hchild)

/-! ### What holds of all phrases -/

/-- What holds of atoms, and of an expression where it holds of its parts. The name that an entry
consists of is no part in this sense: it is never read as an atom. -/
structure HandedOn (P : Expr → Prop) : Prop where
  atom : ∀ l e, IsAtom l e → P e
  node : ∀ e, e.ident? = none → (∀ c ∈ e.children, P c) → P e
  object :
    ∀ entries, (∀ p ∈ entries, P p.2 ∨ p.1.shorthand = true ∧ ∃ span, p.2 = ident p.1.name span) →
    P (object entries)

namespace HandedOn

variable {P : Expr → Prop}

theorem mkRun (hP : HandedOn P) (he : P e) {es : List (BinaryOp × Expr)} (hes : ∀ p ∈ es, P p.2) :
    P (mkRun e es) := by
  cases es with
  | nil => exact he
  | cons p es =>
    refine hP.node _ rfl fun c hc => ?_
    rcases List.mem_cons.mp hc with rfl | hc
    · exact he
    · obtain ⟨r, hr, rfl⟩ := List.mem_map.mp hc
      exact hes r hr

theorem mkLogical (hP : HandedOn P) (op : LogicalOp) (he : P e) {es : List Expr}
    (hes : ∀ c ∈ es, P c) : P (mkLogical op e es) := by
  cases es with
  | nil => exact he
  | cons c es => exact hP.node _ rfl (List.forall_mem_cons.mpr ⟨he, hes⟩)

mutual
/-- **What atoms have and parts hand on, all phrases have.** -/
theorem phrase (hP : HandedOn P) {level : Precedence} {ls : List Lexeme} {e : Expr}
    (h : Phrase level ls e) : P e := by
  match h with
  | .test htest => exact phrase hP htest
  | .conditional htest hquestion hconsequent hcolon halternate =>
    have htest' := phrase hP htest
    have hconsequent' := phrase hP hconsequent
    have halternate' := phrase hP halternate
    exact hP.node _ rfl (by simp [children, htest', hconsequent', halternate'])
  | .logical hfirst hrest => exact hP.mkLogical _ (phrase hP hfirst) (logicalTail hP hrest)
  | .run hfirst hrest => exact hP.mkRun (phrase hP hfirst) (runTail hP hrest)
  | .signed hsigned => exact phrase hP hsigned
  | .power hbase hop hexponent =>
    have hbase' := phrase hP hbase
    have hexponent' := phrase hP hexponent
    exact hP.node _ rfl (by simp [children, hbase', hexponent'])
  | .unary hop hoperand =>
    have hoperand' := phrase hP hoperand
    exact hP.node _ rfl (by simp [children, hoperand'])
  | .chained hchained => exact phrase hP hchained
  | .primary hprimary => exact phrase hP hprimary
  | .member htarget hdot hproperty =>
    have htarget' := phrase hP htarget
    exact hP.node _ rfl (by simp [children, htarget'])
  | .index htarget hopen hkey hclose =>
    have htarget' := phrase hP htarget
    have hkey' := phrase hP hkey
    exact hP.node _ rfl (by simp [children, htarget', hkey'])
  | .call hcallee hopen hargs hclose =>
    exact hP.node _ rfl (List.forall_mem_cons.mpr ⟨phrase hP hcallee, items hP hargs⟩)
  | .atom hatom => exact hP.atom _ _ hatom
  | .group hopen hinner hclose => exact phrase hP hinner
  | .array hopen hitems hclose => exact hP.node _ rfl (items hP hitems)
  | .object hopen hentries hclose => exact hP.object _ (entries hP hentries)

theorem logicalTail (hP : HandedOn P) {op : LogicalOp} {ls : List Lexeme} {es : List Expr}
    (h : LogicalTail op ls es) : ∀ c ∈ es, P c := by
  match h with
  | .nil => simp
  | .cons hsign hoperand hrest =>
    exact List.forall_mem_cons.mpr ⟨phrase hP hoperand, logicalTail hP hrest⟩

theorem runTail (hP : HandedOn P) {tier : Tier} {ls : List Lexeme} {es : List (BinaryOp × Expr)}
    (h : RunTail tier ls es) : ∀ p ∈ es, P p.2 := by
  match h with
  | .nil => simp
  | .cons hsymbol hop hoperand hrest =>
    exact List.forall_mem_cons.mpr ⟨phrase hP hoperand, runTail hP hrest⟩

theorem entry (hP : HandedOn P) {ls : List Lexeme} {p : EntryKey × Expr} (h : PhraseEntry ls p) :
    P p.2 ∨ p.1.shorthand = true ∧ ∃ span, p.2 = ident p.1.name span := by
  match h with
  | .keyed hkey hcolon hvalue => exact Or.inl (phrase hP hvalue)
  | .shorthand hname => exact Or.inr ⟨rfl, _, rfl⟩

theorem items (hP : HandedOn P) {ls : List Lexeme} {es : List Expr}
    (h : Separated (Phrase .conditional) ls es) : ∀ c ∈ es, P c := by
  match h with
  | .nil => simp
  | .last hitem => exact List.forall_mem_singleton.mpr (phrase hP hitem)
  | .cons hitem hcomma hrest => exact List.forall_mem_cons.mpr ⟨phrase hP hitem, items hP hrest⟩

theorem entries (hP : HandedOn P) {ls : List Lexeme} {ps : List (EntryKey × Expr)}
    (h : Separated PhraseEntry ls ps) :
    ∀ p ∈ ps, P p.2 ∨ p.1.shorthand = true ∧ ∃ span, p.2 = ident p.1.name span := by
  match h with
  | .nil => simp
  | .last hitem => exact List.forall_mem_singleton.mpr (entry hP hitem)
  | .cons hitem hcomma hrest => exact List.forall_mem_cons.mpr ⟨entry hP hitem, entries hP hrest⟩
end

end HandedOn

/-! ### Free names -/

/-- A free name that is the name of a constant is written as an entry. -/
def ConstantsAreEntries (e : Expr) : Prop :=
  ∀ q ∈ e.identifiers, q.1 ∈ constantNames → q ∈ e.shorthands

/-- Where there are no free names there is none of a constant. -/
theorem constantsAreEntries_of_no_identifiers (h : e.identifiers = []) : e.ConstantsAreEntries := by
  intro q hq
  rw [h] at hq
  cases hq

/-- As an expression of its own the name of a constant is no free name. -/
theorem constantsAreEntries_atom {l : Lexeme} (h : IsAtom l e) : e.ConstantsAreEntries := by
  cases h with
  | reference _ hname =>
    intro q hq hconstant
    obtain rfl := List.mem_singleton.mp hq
    exact absurd hconstant hname
  | number | text | trueWord | falseWord | nullWord | undefined | nan | infinity =>
    exact constantsAreEntries_of_no_identifiers rfl

theorem handedOn_constantsAreEntries : HandedOn ConstantsAreEntries where
  atom _ _ := constantsAreEntries_atom
  node e hident hchildren := by
    intro q hq hconstant
    rw [identifiers_eq, hident] at hq
    obtain ⟨c, hc, hq⟩ := List.mem_flatMap.mp hq
    exact shorthands_subset_of_mem_children hc (hchildren c hc q hq hconstant)
  object entries hentries := by
    intro q hq hconstant
    rw [identifiers_object] at hq
    obtain ⟨p, hp, hq⟩ := List.mem_flatMap.mp hq
    rcases hentries p hp with hvalue | ⟨hshorthand, span, hname⟩
    · have hchild : p.2 ∈ (Expr.object entries).children := List.mem_map_of_mem hp
      exact shorthands_subset_of_mem_children hchild (hvalue q hq hconstant)
    · rw [hname] at hq
      obtain rfl := List.mem_singleton.mp hq
      exact mem_shorthands.mpr ⟨entries, self_mem_nodes _, p, hp, hshorthand, hname⟩

/-- A free name of a parsed expression can be referred to, or it is the name of a constant
and written as an entry. -/
theorem isIdentifier_or_shorthand {limit : Nat} {source : String} (h : parse limit source = .ok e)
    (hq : q ∈ e.identifiers) :
    isIdentifier q.1 = true ∨ q.1 ∈ constantNames ∧ q ∈ e.shorthands := by
  rcases parse_eq_ok_iff.mp h with ⟨-, rfl⟩ | ⟨-, ls, stop, hlexed, hderives⟩
  · cases hq
  · have hphrase : Phrase .conditional ls e := phrase_iff_derives.mpr ⟨limit, hderives⟩
    have hmarked : Marked (fun _ => none) ls e.identifiers _ := hphrase.marked
    obtain ⟨l, hl, hname⟩ := hmarked.exists_lexeme q hq
    rcases (hlexed.isWord l hl q.1 hname).isIdentifier_or_constant with hidentifier | hconstant
    · exact Or.inl hidentifier
    · exact Or.inr ⟨hconstant, handedOn_constantsAreEntries.phrase hphrase q hq hconstant⟩

/-- **Which free names of a parsed expression are references.** Each can be referred to, unless it
is the name of a constant that is written as an entry of an object by itself. So all of them are
references exactly if no such entry is there. -/
theorem identifiers_of_parse {limit : Nat} {source : String} (h : parse limit source = .ok e) :
    (∀ q ∈ e.identifiers, isIdentifier q.1 = true ∨ q.1 ∈ constantNames ∧ q ∈ e.shorthands) ∧
      ((∀ q ∈ e.identifiers, isIdentifier q.1 = true) ↔ ∀ q ∈ e.shorthands,
        q.1 ∉ constantNames) := by
  have hconstant : ∀ s ∈ constantNames, isIdentifier s = false := by decide
  refine ⟨fun q hq => isIdentifier_or_shorthand h hq, fun hall q hq hmem => ?_,
    fun hnone q hq => ?_⟩
  · have htrue := hall q (shorthands_subset_identifiers e hq)
    rw [hconstant q.1 hmem] at htrue
    cases htrue
  · rcases isIdentifier_or_shorthand h hq with hidentifier | ⟨hmem, hshorthand⟩
    · exact hidentifier
    · exact absurd hmem (hnone q hshorthand)

/-- In an object with the entry `undefined` this is a free name. -/
theorem identifiers_of_parse_undefined :
    ∃ e, parse 256 "\x7bundefined\x7d" = .ok e ∧
      ¬ ∀ q ∈ e.identifiers, isIdentifier q.1 = true := by
  have hshorthands :
      (parse 256 "\x7bundefined\x7d").toOption.map shorthands = some [("undefined", ⟨1, 10⟩)] := by
    decide +kernel
  cases hparse : parse 256 "\x7bundefined\x7d" with
  | error fault =>
    rw [hparse] at hshorthands
    cases hshorthands
  | ok e =>
    rw [hparse] at hshorthands
    refine ⟨e, rfl, fun hall => ?_⟩
    have hnone := (identifiers_of_parse hparse).2.mp hall
    rw [Option.some.inj hshorthands] at hnone
    exact hnone _ List.mem_cons_self (by decide)

end Expr

end FormulaSheet
