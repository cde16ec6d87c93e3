import FormulaSheet.Proofs.Expr.Parse
import Mathlib.Order.Filter.AtTopBot.Basic

/-!
# Phrases

The grammar of expressions without a limit for nesting, with a table of the levels of precedence and
one rule for each way to form a phrase of a level. A phrase is what the lexemes derive with room
enough for nesting (`Expr.phrase_iff_derives`). So a text is parsed as what it is a phrase for, or
nests too deeply, and no list of lexemes is a phrase for two expressions (`Expr.parse_iff_phrase`).
-/

namespace FormulaSheet

/-! ### Levels of precedence -/

/-- The levels of precedence, from the loosest to the tightest: the runs of `??`, of `||` and of
`&&` are a level each, and so is each tier of the other runs. -/
inductive Precedence where
  | conditional
  | logical (op : LogicalOp)
  | run (tier : Tier)
  | power
  | unary
  /-- Accesses and calls. -/
  | chained
  | primary
deriving DecidableEq, Repr

/-- The level of the operands of a run: the next tighter one. -/
def Tier.operand : Tier → Precedence
  | .equality => .run .relation
  | .relation => .run .sum
  | .sum => .run .product
  | .product => .power

/-- The level of the operands of a logical run: the next tighter one. -/
def LogicalOp.operand : LogicalOp → Precedence
  | .nullish => .logical .or
  | .or => .logical .and
  | .and => .run .equality

namespace Expr

open Filter

/-! ### The grammar -/

mutual
/-- The lexemes are a phrase of a level for an expression. -/
inductive Phrase : Precedence → List Lexeme → Expr → Prop where
  | test {ls : List Lexeme} {e : Expr} (htest : Phrase (.logical .nullish) ls e) :
      Phrase .conditional ls e
  | conditional {question colon : Lexeme} {ls ms ns : List Lexeme}
      {test consequent alternate : Expr} (htest : Phrase (.logical .nullish) ls test)
      (hquestion : question.token = .symbol .question)
      (hconsequent : Phrase .conditional ms consequent) (hcolon : colon.token = .symbol .colon)
      (halternate : Phrase .conditional ns alternate) :
      Phrase .conditional (ls ++ question :: ms ++ colon :: ns)
        (conditional test consequent alternate)
  /-- A run of a logical operator; an operand with no other behind it stands for itself. -/
  | logical {op : LogicalOp} {ls ks : List Lexeme} {e : Expr} {es : List Expr}
      (hfirst : Phrase op.operand ls e) (hrest : LogicalTail op ks es) :
      Phrase (.logical op) (ls ++ ks) (mkLogical op e es)
  /-- A run of the operators of a tier; an operand with no other behind it stands for itself. -/
  | run {tier : Tier} {ls ks : List Lexeme} {e : Expr} {es : List (BinaryOp × Expr)}
      (hfirst : Phrase tier.operand ls e) (hrest : RunTail tier ks es) :
      Phrase (.run tier) (ls ++ ks) (mkRun e es)
  | signed {ls : List Lexeme} {e : Expr} (hsigned : Phrase .unary ls e) : Phrase .power ls e
  /-- A power groups to the right, and its base has no unary operator. -/
  | power {op : Lexeme} {ls ks : List Lexeme} {base e : Expr} (hbase : Phrase .chained ls base)
      (hop : op.token = .symbol .starStar) (hexponent : Phrase .power ks e) :
      Phrase .power (ls ++ op :: ks) (binary base [(.power, e)])
  | unary {l : Lexeme} {op : UnaryOp} {ls : List Lexeme} {e : Expr} (hop : l.token = op.token)
      (hoperand : Phrase .unary ls e) : Phrase .unary (l :: ls) (unary op e)
  | chained {ls : List Lexeme} {e : Expr} (hchained : Phrase .chained ls e) : Phrase .unary ls e
  | primary {ls : List Lexeme} {e : Expr} (hprimary : Phrase .primary ls e) : Phrase .chained ls e
  | member {l dot name : Lexeme} {ls : List Lexeme} {target : Expr} {property : String}
      (htarget : Phrase .chained (l :: ls) target) (hdot : dot.token = .symbol .dot)
      (hproperty : IsPropertyName name.token property) :
      Phrase .chained (l :: ls ++ [dot, name]) (member target property ⟨l.start, name.stop⟩)
  | index {opening closing : Lexeme} {ls ks : List Lexeme} {target key : Expr}
      (htarget : Phrase .chained ls target) (hopen : opening.token = .symbol .bracketOpen)
      (hkey : Phrase .conditional ks key) (hclose : closing.token = .symbol .bracketClose) :
      Phrase .chained (ls ++ (opening :: ks ++ [closing])) (index target key)
  | call {opening closing : Lexeme} {ls ks : List Lexeme} {callee : Expr} {args : List Expr}
      (hcallee : Phrase .chained ls callee) (hopen : opening.token = .symbol .parenOpen)
      (hargs : Separated (Phrase .conditional) ks args)
      (hclose : closing.token = .symbol .parenClose) :
      Phrase .chained (ls ++ (opening :: ks ++ [closing])) (call callee args)
  | atom {l : Lexeme} {e : Expr} (hatom : IsAtom l e) : Phrase .primary [l] e
  /-- Parentheses leave no trace in the expression. -/
  | group {opening closing : Lexeme} {ls : List Lexeme} {e : Expr}
      (hopen : opening.token = .symbol .parenOpen) (hinner : Phrase .conditional ls e)
      (hclose : closing.token = .symbol .parenClose) :
      Phrase .primary (opening :: ls ++ [closing]) e
  | array {opening closing : Lexeme} {ls : List Lexeme} {es : List Expr}
      (hopen : opening.token = .symbol .bracketOpen)
      (hitems : Separated (Phrase .conditional) ls es)
      (hclose : closing.token = .symbol .bracketClose) :
      Phrase .primary (opening :: ls ++ [closing]) (array es)
  | object {opening closing : Lexeme} {ls : List Lexeme} {es : List (EntryKey × Expr)}
      (hopen : opening.token = .symbol .braceOpen) (hentries : Separated PhraseEntry ls es)
      (hclose : closing.token = .symbol .braceClose) :
      Phrase .primary (opening :: ls ++ [closing]) (object es)

/-- The operands after the first one of a run of a logical operator. -/
inductive LogicalTail : LogicalOp → List Lexeme → List Expr → Prop where
  | nil {op : LogicalOp} : LogicalTail op [] []
  | cons {op : LogicalOp} {l : Lexeme} {ls ks : List Lexeme} {e : Expr} {es : List Expr}
      (hsign : l.token = .symbol op.sign) (hoperand : Phrase op.operand ls e)
      (hrest : LogicalTail op ks es) : LogicalTail op (l :: ls ++ ks) (e :: es)

/-- The operators and operands after the first operand of a run of a tier. -/
inductive RunTail : Tier → List Lexeme → List (BinaryOp × Expr) → Prop where
  | nil {tier : Tier} : RunTail tier [] []
  | cons {tier : Tier} {l : Lexeme} {op : BinaryOp} {ls ks : List Lexeme} {e : Expr}
      {es : List (BinaryOp × Expr)} (hsign : l.token = .symbol op.sign) (hop : op ∈ tier.operators)
      (hoperand : Phrase tier.operand ls e) (hrest : RunTail tier ks es) :
      RunTail tier (l :: ls ++ ks) ((op, e) :: es)

/-- An entry of an object. -/
inductive PhraseEntry : List Lexeme → EntryKey × Expr → Prop where
  | keyed {l colon : Lexeme} {key : String} {ls : List Lexeme} {e : Expr}
      (hkey : IsEntryKey l.token key) (hcolon : colon.token = .symbol .colon)
      (hvalue : Phrase .conditional ls e) : PhraseEntry (l :: colon :: ls) (⟨key, false⟩, e)
  | shorthand {l : Lexeme} {s : String} (hname : l.token = .name s) :
      PhraseEntry [l] (⟨s, true⟩, ident s ⟨l.start, l.stop⟩)
end

/-! ### What is derived is a phrase -/

/-- What is derived one level deeper is a phrase, and a link goes on with a chain that is one. -/
structure PhraseBelow (D : Production → Lang Expr) : Prop where
  conditional : ∀ ls e, D .conditional ls e → Phrase .conditional ls e
  power : ∀ ls e, D .power ls e → Phrase .power ls e
  unary : ∀ ls e, D .unary ls e → Phrase .unary ls e
  link : ∀ l ls target ks e, Phrase .chained (l :: ls) target → D (.link l.start target) ks e →
    Phrase .chained (l :: ls ++ ks) e

theorem Separated.mono {α : Type} {L L' : Lang α} (hle : ∀ ls a, L ls a → L' ls a)
    {ls : List Lexeme} {as : List α} (h : Separated L ls as) : Separated L' ls as := by
  induction h with
  | nil => exact .nil
  | last hitem => exact .last (hle _ _ hitem)
  | cons hitem hcomma _ ih => exact .cons (hle _ _ hitem) hcomma ih

section Runs

variable {L : Lang Expr} {ls : List Lexeme} {e : Expr}

theorem RunRest.phrase {tier : Tier} (hL : ∀ ls e, L ls e → Phrase tier.operand ls e)
    {es : List (BinaryOp × Expr)} (h : RunRest tier L ls es) : RunTail tier ls es := by
  induction h with
  | nil => exact .nil
  | cons hsign hop hoperand _ ih => exact .cons hsign hop (hL _ _ hoperand) ih

theorem Run.phrase (tier : Tier) (hL : ∀ ls e, L ls e → Phrase tier.operand ls e)
    (h : Run tier L ls e) : Phrase (.run tier) ls e := by
  obtain ⟨hfirst, hrest⟩ := h
  exact .run (hL _ _ hfirst) (hrest.phrase hL)

theorem LogicalRest.phrase {op : LogicalOp} (hL : ∀ ls e, L ls e → Phrase op.operand ls e)
    {es : List Expr} (h : LogicalRest op L ls es) : LogicalTail op ls es := by
  induction h with
  | nil => exact .nil
  | cons hsign hoperand _ ih => exact .cons hsign (hL _ _ hoperand) ih

theorem LogicalRun.phrase (op : LogicalOp) (hL : ∀ ls e, L ls e → Phrase op.operand ls e)
    (h : LogicalRun op L ls e) : Phrase (.logical op) ls e := by
  obtain ⟨hfirst, hrest⟩ := h
  exact .logical (hL _ _ hfirst) (hrest.phrase hL)

end Runs

section Levels

variable {D : Production → Lang Expr} {ls : List Lexeme} {e : Expr}

theorem Entry.phrase (hD : PhraseBelow D) {a : EntryKey × Expr} (h : Entry D ls a) :
    PhraseEntry ls a := by
  cases h with
  | keyed hkey hcolon hvalue => exact .keyed hkey hcolon (hD.conditional _ _ hvalue)
  | shorthand hname => exact .shorthand hname

theorem Primary.phrase (hD : PhraseBelow D) (h : Primary D ls e) : Phrase .primary ls e := by
  cases h with
  | atom hatom => exact .atom hatom
  | group hopen hinner hclose => exact .group hopen (hD.conditional _ _ hinner) hclose
  | array hopen hitems hclose => exact .array hopen (hitems.mono hD.conditional) hclose
  | object hopen hentries hclose =>
    exact .object hopen (hentries.mono fun _ _ => Entry.phrase hD) hclose

theorem Chain.phrase (hD : PhraseBelow D) {l : Lexeme} {ks : List Lexeme} {target : Expr}
    (htarget : Phrase .chained (l :: ls) target) (h : Chain D l.start target ks e) :
    Phrase .chained (l :: ls ++ ks) e := by
  cases h with
  | stop =>
    rw [List.append_nil]
    exact htarget
  | link hlink => exact hD.link _ _ _ _ _ htarget hlink

theorem Link.phrase (hD : PhraseBelow D) {l : Lexeme} {ks : List Lexeme} {target : Expr}
    (htarget : Phrase .chained (l :: ls) target) (h : Link D l.start target ks e) :
    Phrase .chained (l :: ls ++ ks) e := by
  cases h with
  | @member dot name property js _ hdot hproperty hrest =>
    have hmember : Phrase .chained (l :: (ls ++ [dot, name])) _ := .member htarget hdot hproperty
    simpa using hrest.phrase hD hmember
  | @index opening closing ks js key _ hopen hkey hclose hrest =>
    have hindex : Phrase .chained (l :: (ls ++ (opening :: ks ++ [closing]))) _ :=
      .index htarget hopen (hD.conditional _ _ hkey) hclose
    simpa using hrest.phrase hD hindex
  | @call opening closing ks js args _ hopen hargs hclose hrest =>
    have hcall : Phrase .chained (l :: (ls ++ (opening :: ks ++ [closing]))) _ :=
      .call htarget hopen (hargs.mono hD.conditional) hclose
    simpa using hrest.phrase hD hcall

theorem Chained.phrase (hD : PhraseBelow D) (h : Chained D ls e) : Phrase .chained ls e := by
  obtain ⟨hprimary, hchain⟩ := h
  exact hchain.phrase hD (.primary (hprimary.phrase hD))

theorem Signed.phrase (hD : PhraseBelow D) (h : Signed D ls e) : Phrase .unary ls e := by
  cases h with
  | unary hop hoperand => exact .unary hop (hD.unary _ _ hoperand)
  | chained hchained => exact .chained (hchained.phrase hD)

theorem Power.phrase (hD : PhraseBelow D) (h : Power D ls e) : Phrase .power ls e := by
  cases h with
  | signed hsigned => exact .signed (hsigned.phrase hD)
  | power hbase hop hexponent => exact .power (hbase.phrase hD) hop (hD.power _ _ hexponent)

theorem Coalescence.phrase (hD : PhraseBelow D) (h : Coalescence D ls e) :
    Phrase (.logical .nullish) ls e := by
  have hproduct : ∀ ls e, Product D ls e → Phrase (.run .product) ls e :=
    fun _ _ => Run.phrase .product fun _ _ => Power.phrase hD
  have hsum : ∀ ls e, Sum D ls e → Phrase (.run .sum) ls e := fun _ _ => Run.phrase .sum hproduct
  have hrelation : ∀ ls e, Relation D ls e → Phrase (.run .relation) ls e :=
    fun _ _ => Run.phrase .relation hsum
  have hequality : ∀ ls e, Equality D ls e → Phrase (.run .equality) ls e :=
    fun _ _ => Run.phrase .equality hrelation
  have hconjunction : ∀ ls e, Conjunction D ls e → Phrase (.logical .and) ls e :=
    fun _ _ => LogicalRun.phrase .and hequality
  have hdisjunction : ∀ ls e, Disjunction D ls e → Phrase (.logical .or) ls e :=
    fun _ _ => LogicalRun.phrase .or hconjunction
  exact LogicalRun.phrase .nullish hdisjunction h

theorem Choice.phrase (hD : PhraseBelow D) (h : Choice D ls e) : Phrase .conditional ls e := by
  cases h with
  | test htest => exact .test (Coalescence.phrase hD htest)
  | conditional htest hquestion hconsequent hcolon halternate =>
    exact .conditional (Coalescence.phrase hD htest) hquestion (hD.conditional _ _ hconsequent)
      hcolon (hD.conditional _ _ halternate)

end Levels

/-- What is derived with some room for nesting is a phrase. -/
theorem phraseBelow_derives (room : Nat) : PhraseBelow (Derives room) := by
  induction room with
  | zero =>
    exact {
      conditional := fun _ _ h => h.elim
      power := fun _ _ h => h.elim
      unary := fun _ _ h => h.elim
      link := fun _ _ _ _ _ _ h => h.elim }
  | succ room ih =>
    exact {
      conditional := fun _ _ => Choice.phrase ih
      power := fun _ _ => Power.phrase ih
      unary := fun _ _ => Signed.phrase ih
      link := fun _ _ _ _ _ => Link.phrase ih }

/-! ### A phrase is derived with room enough -/

/-- What a level stands for, with `D p` for what the production `p` stands for one level deeper. -/
def Stands (D : Production → Lang Expr) : Precedence → Lang Expr
  | .conditional => Choice D
  | .logical .nullish => Coalescence D
  | .logical .or => Disjunction D
  | .logical .and => Conjunction D
  | .run .equality => Equality D
  | .run .relation => Relation D
  | .run .sum => Sum D
  | .run .product => Product D
  | .power => Power D
  | .unary => Signed D
  | .chained => Chained D
  | .primary => Primary D

theorem stands_logical (D : Production → Lang Expr) (op : LogicalOp) :
    Stands D (.logical op) = LogicalRun op (Stands D op.operand) := by
  cases op <;> rfl

theorem stands_run (D : Production → Lang Expr) (tier : Tier) :
    Stands D (.run tier) = Run tier (Stands D tier.operand) := by
  cases tier <;> rfl

/-- The lexemes stand for the expression with room enough for nesting. A chain can be gone on with:
the links behind it take it as their target. -/
def Reached : Precedence → List Lexeme → Expr → Prop
  | .chained, ls, e => ∃ l ks, ls = l :: ks ∧ ∀ js e',
      (∀ᶠ room in atTop, Chain (Derives room) l.start e js e') →
        ∀ᶠ room in atTop, Chained (Derives room) (ls ++ js) e'
  | level, ls, e => ∀ᶠ room in atTop, Stands (Derives room) level ls e

theorem eventually_derives (p : Production) {ls : List Lexeme} {e : Expr}
    (h : ∀ᶠ room in atTop, Produces (Derives room) p ls e) :
    ∀ᶠ room in atTop, Derives room p ls e := by
  obtain ⟨n, hn⟩ := eventually_atTop.mp h
  refine eventually_atTop.mpr ⟨n + 1, fun room hroom => ?_⟩
  obtain _ | room := room
  · cases hroom
  · exact hn room (Nat.le_of_succ_le_succ hroom)

theorem Reached.operand {tier : Tier} {ls : List Lexeme} {e : Expr}
    (h : Reached tier.operand ls e) :
    ∀ᶠ room in atTop, Stands (Derives room) tier.operand ls e := by
  cases tier <;> exact h

theorem Reached.logicalOperand {op : LogicalOp} {ls : List Lexeme} {e : Expr}
    (h : Reached op.operand ls e) : ∀ᶠ room in atTop, Stands (Derives room) op.operand ls e := by
  cases op <;> exact h

/-- A chain that no other link follows. -/
theorem Reached.chained {ls : List Lexeme} {e : Expr} (h : Reached .chained ls e) :
    ∀ᶠ room in atTop, Chained (Derives room) ls e := by
  obtain ⟨l, ks, rfl, hgo⟩ := h
  have hstop := hgo [] e (Eventually.of_forall fun room => Chain.stop)
  rw [List.append_nil] at hstop
  exact hstop

theorem Reached.of_primary {ls : List Lexeme} {e : Expr}
    (h : ∀ᶠ room in atTop, Primary (Derives room) ls e) : Reached .chained ls e := by
  obtain ⟨room, hroom⟩ := h.exists
  obtain ⟨l, ks, rfl, -⟩ := hroom.begins
  refine ⟨l, ks, rfl, fun js e' hchain => ?_⟩
  filter_upwards [h, hchain] with room hprimary hchain
  exact Chained.mk hprimary hchain

/-- A chain with one more link, which is read off the lexemes `ks`. -/
theorem Reached.link {ls ks : List Lexeme} {target e : Expr} (h : Reached .chained ls target)
    (hlink : ∀ l ∈ ls.head?, ∀ js e', (∀ᶠ room in atTop, Chain (Derives room) l.start e js e') →
      ∀ᶠ room in atTop, Link (Derives room) l.start target (ks ++ js) e') :
    Reached .chained (ls ++ ks) e := by
  obtain ⟨l, ls, rfl, hgo⟩ := h
  refine ⟨l, ls ++ ks, rfl, fun js e' hchain => ?_⟩
  have hdeeper := eventually_derives (.link l.start target) (hlink l rfl js e' hchain)
  rw [List.append_assoc]
  exact hgo _ e' (hdeeper.mono fun room => Chain.link)

mutual
/-- A phrase is derived where there is room enough. -/
theorem Phrase.reached {level : Precedence} {ls : List Lexeme} {e : Expr} (h : Phrase level ls e) :
    Reached level ls e := by
  match h with
  | .test htest => exact htest.reached.mono fun room => Choice.test
  | .conditional htest hquestion hconsequent hcolon halternate =>
    filter_upwards [htest.reached, eventually_derives .conditional hconsequent.reached,
      eventually_derives .conditional halternate.reached] with room htest hconsequent halternate
    exact Choice.conditional htest hquestion hconsequent hcolon halternate
  | @Phrase.logical op _ _ _ _ hfirst hrest =>
    filter_upwards [hfirst.reached.logicalOperand, hrest.reached] with room hfirst hrest
    rw [stands_logical]
    exact LogicalRun.mk hfirst hrest
  | @Phrase.run tier _ _ _ _ hfirst hrest =>
    filter_upwards [hfirst.reached.operand, hrest.reached] with room hfirst hrest
    rw [stands_run]
    exact Run.mk hfirst hrest
  | .signed hsigned => exact hsigned.reached.mono fun room => Power.signed
  | .power hbase hop hexponent =>
    filter_upwards [hbase.reached.chained, eventually_derives .power hexponent.reached] with room
      hbase hexponent
    exact Power.power hbase hop hexponent
  | .unary hop hoperand =>
    exact (eventually_derives .unary hoperand.reached).mono fun room => Signed.unary hop
  | .chained hchained => exact hchained.reached.chained.mono fun room => Signed.chained
  | .primary hprimary => exact Reached.of_primary hprimary.reached
  | .member htarget hdot hproperty =>
    refine htarget.reached.link fun l' hl js e' hchain => hchain.mono fun room hrest => ?_
    obtain rfl := Option.some.inj hl
    exact Link.member hdot hproperty hrest
  | .index htarget hopen hkey hclose =>
    refine htarget.reached.link fun l _ js e' hchain => ?_
    filter_upwards [eventually_derives .conditional hkey.reached, hchain] with room hkey hrest
    rw [List.append_assoc]
    exact Link.index hopen hkey hclose hrest
  | .call hcallee hopen hargs hclose =>
    refine hcallee.reached.link fun l _ js e' hchain => ?_
    filter_upwards [items_reached hargs, hchain] with room hargs hrest
    rw [List.append_assoc]
    exact Link.call hopen hargs hclose hrest
  | .atom hatom => exact Eventually.of_forall fun room => Primary.atom hatom
  | .group hopen hinner hclose =>
    exact (eventually_derives .conditional hinner.reached).mono fun room hinner =>
      Primary.group hopen hinner hclose
  | .array hopen hitems hclose =>
    exact (items_reached hitems).mono fun room hitems => Primary.array hopen hitems hclose
  | .object hopen hentries hclose =>
    exact (entries_reached hentries).mono fun room hentries => Primary.object hopen hentries hclose

theorem LogicalTail.reached {op : LogicalOp} {ks : List Lexeme} {es : List Expr}
    (h : LogicalTail op ks es) :
    ∀ᶠ room in atTop, LogicalRest op (Stands (Derives room) op.operand) ks es := by
  match h with
  | .nil => exact Eventually.of_forall fun room => LogicalRest.nil
  | .cons hsign hoperand hrest =>
    filter_upwards [hoperand.reached.logicalOperand, hrest.reached] with room hoperand hrest
    exact LogicalRest.cons hsign hoperand hrest

theorem RunTail.reached {tier : Tier} {ks : List Lexeme} {es : List (BinaryOp × Expr)}
    (h : RunTail tier ks es) :
    ∀ᶠ room in atTop, RunRest tier (Stands (Derives room) tier.operand) ks es := by
  match h with
  | .nil => exact Eventually.of_forall fun room => RunRest.nil
  | .cons hsign hop hoperand hrest =>
    filter_upwards [hoperand.reached.operand, hrest.reached] with room hoperand hrest
    exact RunRest.cons hsign hop hoperand hrest

theorem PhraseEntry.reached {ls : List Lexeme} {a : EntryKey × Expr} (h : PhraseEntry ls a) :
    ∀ᶠ room in atTop, Entry (Derives room) ls a := by
  match h with
  | .keyed hkey hcolon hvalue =>
    exact (eventually_derives .conditional hvalue.reached).mono fun room => Entry.keyed hkey hcolon
  | .shorthand hname => exact Eventually.of_forall fun room => Entry.shorthand hname

theorem items_reached {ks : List Lexeme} {es : List Expr}
    (h : Separated (Phrase .conditional) ks es) :
    ∀ᶠ room in atTop, Separated (Derives room .conditional) ks es := by
  match h with
  | .nil => exact Eventually.of_forall fun room => Separated.nil
  | .last hitem =>
    exact (eventually_derives .conditional hitem.reached).mono fun room => Separated.last
  | .cons hitem hcomma hrest =>
    filter_upwards [eventually_derives .conditional hitem.reached, items_reached hrest] with room
      hitem hrest
    exact Separated.cons hitem hcomma hrest

theorem entries_reached {ks : List Lexeme} {as : List (EntryKey × Expr)}
    (h : Separated PhraseEntry ks as) :
    ∀ᶠ room in atTop, Separated (Entry (Derives room)) ks as := by
  match h with
  | .nil => exact Eventually.of_forall fun room => Separated.nil
  | .last hitem => exact hitem.reached.mono fun room => Separated.last
  | .cons hitem hcomma hrest =>
    filter_upwards [hitem.reached, entries_reached hrest] with room hitem hrest
    exact Separated.cons hitem hcomma hrest
end

theorem Phrase.eventually_derives {ls : List Lexeme} {e : Expr} (h : Phrase .conditional ls e) :
    ∀ᶠ room in atTop, Derives room .conditional ls e :=
  Expr.eventually_derives .conditional h.reached

/-- **A phrase is what is derived with some room for nesting.** -/
theorem phrase_iff_derives {ls : List Lexeme} {e : Expr} :
    Phrase .conditional ls e ↔ ∃ room, Derives room .conditional ls e :=
  ⟨fun h => h.eventually_derives.exists,
    fun ⟨room, h⟩ => (phraseBelow_derives room).conditional ls e h⟩

/-! ### Parsing -/

/-- Lexemes derive one expression, with whatever room for nesting. -/
theorem Derives.eq {room : Nat} {ls : List Lexeme} {e e' : Expr}
    (h : Derives room .conditional ls e) (h' : Derives room .conditional ls e') : e = e' := by
  have hread := (descend_complete 0 room).conditional
  have hends : EndsFor continuesChoice (.finish 0) := fun s hs => by cases hs
  obtain ⟨stop, hok⟩ := hread ls e (.finish 0) 0 h Tokens.readable_finish hends
  obtain ⟨stop', hok'⟩ := hread ls e' (.finish 0) 0 h' Tokens.readable_finish hends
  rw [hok, Except.ok.injEq, Prod.mk.injEq] at hok'
  exact hok'.1

/-- **The texts that are parsed are the phrases.** A text is parsed as an expression only where its
lexemes are a phrase for it. Where they are, a limit for nesting that is large enough parses the
text as this expression, and any other limit finds it nested too deeply. No list of lexemes is a
phrase for two expressions. -/
theorem parse_iff_phrase {source : String} (hblank : Text.allBlank source.toList = false) :
    (∀ limit e, parse limit source = .ok e → ∃ ls stop,
      Tokens.ofText source.toList = .prepend ls (.finish stop) ∧ Phrase .conditional ls e) ∧
    (∀ ls stop e, Tokens.ofText source.toList = .prepend ls (.finish stop) →
      Phrase .conditional ls e →
      (∀ limit, parse limit source = .ok e ∨ ∃ place,
        parse limit source = .error ⟨.tooDeep limit, place⟩) ∧
        ∃ depth, ∀ limit, depth ≤ limit → parse limit source = .ok e) ∧
    ∀ ls e e', Phrase .conditional ls e → Phrase .conditional ls e' → e = e' := by
  refine ⟨fun limit e h => ?_, fun ls stop e htokens hphrase => ?_, fun ls e e' h h' => ?_⟩
  · rcases parse_eq_ok_iff.mp h with ⟨hblank', -⟩ | ⟨-, ls, stop, hlexed, hderives⟩
    · rw [hblank] at hblank'
      cases hblank'
    · exact ⟨ls, stop, Tokens.scan_eq_iff.mpr hlexed, phrase_iff_derives.mpr ⟨limit, hderives⟩⟩
  · obtain ⟨depth, hdepth⟩ := eventually_atTop.mp hphrase.eventually_derives
    have hok : ∀ limit, depth ≤ limit → parse limit source = .ok e := fun limit hle =>
      parse_eq_ok_iff.mpr
        (Or.inr ⟨hblank, ls, stop, Tokens.scan_eq_iff.mp htokens, hdepth limit hle⟩)
    refine ⟨fun limit => ?_, depth, hok⟩
    -- a limit that is large enough reads the text as this limit does
    rcases parse_of_le (Nat.le_max_left limit depth) source with hsame | hdeep
    · exact Or.inl (hsame.trans (hok _ (Nat.le_max_right limit depth)))
    · exact Or.inr hdeep
  · obtain ⟨room, hroom⟩ := (h.eventually_derives.and h'.eventually_derives).exists
    exact hroom.1.eq hroom.2

/-- Three levels nest here: the conditional, the power or the list in it, and what stands in
these. -/
theorem parse_power_and_list : Text.allBlank "{a} ** -b ? [c,] : (d)".toList = false ∧
    ∃ ls stop e, Tokens.ofText "{a} ** -b ? [c,] : (d)".toList = .prepend ls (.finish stop) ∧
      Phrase .conditional ls e ∧ e.identifiers.map Prod.fst = ["a", "b", "c", "d"] ∧
      parse 3 "{a} ** -b ? [c,] : (d)" = .ok e ∧
      ∃ place, parse 2 "{a} ** -b ? [c,] : (d)" = .error ⟨.tooDeep 2, place⟩ := by
  have hblank : Text.allBlank "{a} ** -b ? [c,] : (d)".toList = false := by decide
  have hnames :
      (parse 3 "{a} ** -b ? [c,] : (d)").toOption.map (fun e => e.identifiers.map Prod.fst) =
      some ["a", "b", "c", "d"] := by decide +kernel
  have hdeep : (parse 2 "{a} ** -b ? [c,] : (d)").toOption.isSome = false := by decide +kernel
  cases hparse : parse 3 "{a} ** -b ? [c,] : (d)" with
  | error fault =>
    rw [hparse] at hnames
    cases hnames
  | ok e =>
    rw [hparse] at hnames
    obtain ⟨ls, stop, htokens, hphrase⟩ := (parse_iff_phrase hblank).1 3 e hparse
    refine ⟨hblank, ls, stop, e, htokens, hphrase, Option.some.inj hnames, rfl, ?_⟩
    rcases ((parse_iff_phrase hblank).2.1 ls stop e htokens hphrase).1 2 with hok | hplace
    · rw [hok] at hdeep
      cases hdeep
    · exact hplace

end Expr

end FormulaSheet
