import FormulaSheet.Proofs.Expr.Reading

/-!
# What is in the grammar is read

Lexemes that stand in the language of a level are read by this level and taken away,
whatever follows them, unless it begins with a symbol that goes on with the level. So an
expression is read in one way only.
-/

namespace FormulaSheet.Expr

open FormulaSheet.Expr.Parser

variable {α : Type}

/-- The tokens do not begin with one of these symbols. -/
def EndsFor (goesOn : Symbol → Bool) (ts : Tokens) : Prop :=
  ∀ s, ts.token? = some (.symbol s) → goesOn s = false

/-- All that is in the language is read, where nothing that goes on with it follows. -/
def Complete (goesOn : Symbol → Bool) (p : Parser α) (L : Lang α) : Prop :=
  ∀ ls a ts stop, L ls a → ts.Readable → EndsFor goesOn ts →
    ∃ stop', p ⟨.prepend ls ts, stop⟩ = .ok (a, ⟨ts, stop'⟩)

/-! ### Symbols that go on with a level -/

/-- Goes on with a power. -/
def continuesPower (s : Symbol) : Bool := startsLink s || s = .starStar

/-- Goes on with a run of the operators of a tier. -/
def continuesRun (goesOn : Symbol → Bool) (tier : Tier) (s : Symbol) : Bool :=
  goesOn s || (tier.op? s).isSome

/-- Goes on with a run of one logical operator. -/
def continuesLogical (goesOn : Symbol → Bool) (t s : Symbol) : Bool := goesOn s || s = t

/-- Goes on with an equality. -/
def continuesEquality : Symbol → Bool :=
  continuesRun (continuesRun (continuesRun (continuesRun continuesPower .product) .sum) .relation)
    .equality

/-- Goes on with the test of a conditional. -/
def continuesCoalescence : Symbol → Bool :=
  continuesLogical (continuesLogical (continuesLogical continuesEquality .andAnd) .orOr) .nullish

/-- Goes on with a conditional. -/
def continuesChoice (s : Symbol) : Bool := continuesCoalescence s || s = .question

/-- Goes on with an entry of an object. -/
def continuesEntry (s : Symbol) : Bool := continuesChoice s || s = .colon

section Ends

variable {goesOn other : Symbol → Bool} {ts : Tokens} {l : Lexeme}

theorem EndsFor.mono (h : EndsFor goesOn ts) (hle : ∀ s, goesOn s = false → other s = false) :
    EndsFor other ts := fun s hs => hle s (h s hs)

theorem endsFor_next {s : Symbol} (hl : l.token = .symbol s) (hs : goesOn s = false) :
    EndsFor goesOn (.next l ts) := by
  intro t ht
  rw [Tokens.token?_next, hl, Option.some.injEq, Token.symbol.injEq] at ht
  rw [← ht]
  exact hs

theorem EndsFor.token?_ne (h : EndsFor goesOn ts) {s : Symbol} (hs : goesOn s = true) :
    ts.token? ≠ some (.symbol s) := by
  intro htoken
  rw [h s htoken] at hs
  cases hs

theorem token?_next_of {t : Token} (hl : l.token = t) : (Tokens.next l ts).token? = some t := by
  rw [Tokens.token?_next, hl]

theorem token?_next_ne {t : Token} (hl : l.token ≠ t) : (Tokens.next l ts).token? ≠ some t := by
  rw [Tokens.token?_next, Ne, Option.some.injEq]
  exact hl

end Ends

/-! ### Runs -/

section Runs

variable {goesOn : Symbol → Bool} {operand : Parser Expr} {L : Lang Expr}

theorem RunRest.endsFor {tier : Tier} {ks : List Lexeme} {es : List (BinaryOp × Expr)} {ts : Tokens}
    (h : RunRest tier L ks es) (hsigns : ∀ op ∈ tier.operators, goesOn op.sign = false)
    (hts : EndsFor (continuesRun goesOn tier) ts) : EndsFor goesOn (.prepend ks ts) := by
  cases h with
  | nil => exact hts.mono fun s hs => (Bool.or_eq_false_iff.mp hs).1
  | cons hsign hop _ _ => exact endsFor_next hsign (hsigns _ hop)

theorem runRest_complete {tier : Tier} (hoperand : Complete goesOn operand L)
    (hsigns : ∀ op ∈ tier.operators, goesOn op.sign = false) {ks : List Lexeme}
    {es : List (BinaryOp × Expr)} {ts : Tokens} (h : RunRest tier L ks es) (hts : ts.Readable)
    (hends : EndsFor (continuesRun goesOn tier) ts) (fuel stop : Nat) (hfuel : ks.length < fuel) :
    ∃ stop', runRest tier.op? operand fuel ⟨.prepend ks ts, stop⟩ = .ok (es, ⟨ts, stop'⟩) := by
  induction h generalizing fuel stop with
  | nil =>
    obtain _ | fuel := fuel
    · cases hfuel
    have hnone : ts.op? tier.op? = none := by
      rw [Option.eq_none_iff_forall_ne_some]
      intro op hop
      obtain ⟨s, hs, hsome⟩ := Tokens.token?_of_op? hop
      have hfalse := hends s hs
      rw [continuesRun, hsome, Option.isSome_some, Bool.or_true] at hfalse
      cases hfalse
    refine ⟨stop, ?_⟩
    rw [Tokens.prepend_nil, runRest, nextOp?_bind, hnone]
    rfl
  | @cons l op ls ks e es hsign hop hL hrest ih =>
    obtain _ | fuel := fuel
    · cases hfuel
    have hlength : ks.length < fuel := by
      simp only [List.length_cons, List.length_append] at hfuel
      omega
    have hnext : (Tokens.next l (.prepend ls (.prepend ks ts))).op? tier.op? = some op := by
      rw [Tokens.op?_of_token? (token?_next_of hsign)]
      exact Tier.op?_eq_some_iff.mpr ⟨hop, rfl⟩
    obtain ⟨stop₁, hread⟩ :=
      hoperand ls e (.prepend ks ts) l.stop hL hts.prepend (hrest.endsFor hsigns hends)
    obtain ⟨stop₂, hreads⟩ := ih fuel stop₁ hlength
    refine ⟨stop₂, ?_⟩
    rw [Tokens.prepend_append, Tokens.prepend_cons, runRest, nextOp?_bind, hnext]
    dsimp only
    rw [bind_of_ok (pass_run hts.prepend.prepend), bind_of_ok hread, bind_of_ok hreads]
    rfl

theorem run_complete (tier : Tier) (hoperand : Complete goesOn operand L)
    (hsigns : ∀ op ∈ tier.operators, goesOn op.sign = false) :
    Complete (continuesRun goesOn tier) (run tier.op? operand) (Run tier L) := by
  intro ls e ts stop h hts hends
  obtain @⟨ls, ks, first, es, hfirst, hrest⟩ := h
  obtain ⟨stop₁, hread⟩ := hoperand ls first (.prepend ks ts) stop hfirst hts.prepend
    (hrest.endsFor hsigns hends)
  have hfuel : ks.length < (Tokens.prepend ks ts).length + 1 := by
    rw [Tokens.length_prepend]
    omega
  obtain ⟨stop₂, hreads⟩ := runRest_complete hoperand hsigns hrest hts hends _ stop₁ hfuel
  refine ⟨stop₂, ?_⟩
  rw [Tokens.prepend_append, run, bind_of_ok hread, left_bind, bind_of_ok hreads]
  cases es <;> rfl

theorem LogicalRest.endsFor {op : LogicalOp} {ks : List Lexeme} {es : List Expr} {ts : Tokens}
    (h : LogicalRest op L ks es) (hs : goesOn op.sign = false)
    (hts : EndsFor (continuesLogical goesOn op.sign) ts) : EndsFor goesOn (.prepend ks ts) := by
  cases h with
  | nil => exact hts.mono fun t ht => (Bool.or_eq_false_iff.mp ht).1
  | cons hsign _ _ => exact endsFor_next hsign hs

theorem logicalRest_complete {op : LogicalOp} (hoperand : Complete goesOn operand L)
    (hs : goesOn op.sign = false) {ks : List Lexeme} {es : List Expr} {ts : Tokens}
    (h : LogicalRest op L ks es) (hts : ts.Readable)
    (hends : EndsFor (continuesLogical goesOn op.sign) ts) (fuel stop : Nat)
    (hfuel : ks.length < fuel) :
    ∃ stop', logicalRest op.sign operand fuel ⟨.prepend ks ts, stop⟩ = .ok (es, ⟨ts, stop'⟩) := by
  induction h generalizing fuel stop with
  | nil =>
    obtain _ | fuel := fuel
    · cases hfuel
    have hne : ts.token? ≠ some (.symbol op.sign) := hends.token?_ne (by simp [continuesLogical])
    refine ⟨stop, ?_⟩
    rw [Tokens.prepend_nil, logicalRest, at?_bind_of_ne hne]
    rfl
  | @cons l ls ks e es hsign hL hrest ih =>
    obtain _ | fuel := fuel
    · cases hfuel
    have hlength : ks.length < fuel := by
      simp only [List.length_cons, List.length_append] at hfuel
      omega
    obtain ⟨stop₁, hread⟩ :=
      hoperand ls e (.prepend ks ts) l.stop hL hts.prepend (hrest.endsFor hs hends)
    obtain ⟨stop₂, hreads⟩ := ih fuel stop₁ hlength
    refine ⟨stop₂, ?_⟩
    rw [Tokens.prepend_append, Tokens.prepend_cons, logicalRest,
      at?_bind_of_eq (token?_next_of hsign), if_pos rfl, bind_of_ok (pass_run hts.prepend.prepend),
      bind_of_ok hread, bind_of_ok hreads]
    rfl

theorem logicalRun_complete (op : LogicalOp) (hoperand : Complete goesOn operand L)
    (hs : goesOn op.sign = false) :
    Complete (continuesLogical goesOn op.sign) (logicalRun op.sign op operand)
      (LogicalRun op L) := by
  intro ls e ts stop h hts hends
  obtain @⟨ls, ks, first, es, hfirst, hrest⟩ := h
  obtain ⟨stop₁, hread⟩ := hoperand ls first (.prepend ks ts) stop hfirst hts.prepend
    (hrest.endsFor hs hends)
  have hfuel : ks.length < (Tokens.prepend ks ts).length + 1 := by
    rw [Tokens.length_prepend]
    omega
  obtain ⟨stop₂, hreads⟩ := logicalRest_complete hoperand hs hrest hts hends _ stop₁ hfuel
  refine ⟨stop₂, ?_⟩
  rw [Tokens.prepend_append, logicalRun, bind_of_ok hread, left_bind, bind_of_ok hreads]
  cases es <;> rfl

end Runs

/-! ### Lists -/

section Lists

variable {goesOn : Symbol → Bool} {item : Parser α} {L : Lang α} {close : Symbol}

/-- What can be between the brackets of a list begins with something else than the closing one. -/
def BeginsApart (close : Symbol) (L : Lang α) : Prop :=
  ∀ ls a, L ls a → ∃ l ks, ls = l :: ks ∧ l.token ≠ .symbol close

theorem separated_complete (hitem : Complete goesOn item L) (hbegin : BeginsApart close L)
    (hcomma : goesOn .comma = false) (hclose : goesOn close = false) (hne : close ≠ .comma)
    {ks : List Lexeme} {as : List α} {ts : Tokens} (h : Separated L ks as)
    (hts : ts.token? = some (.symbol close)) (fuel stop : Nat) (hfuel : ks.length < fuel) :
    ∃ stop', separated close item fuel ⟨.prepend ks ts, stop⟩ = .ok (as, ⟨ts, stop'⟩) := by
  obtain ⟨closing, rest, rfl, hclosing⟩ := Tokens.exists_of_token? hts
  induction h generalizing fuel stop with
  | nil =>
    obtain _ | fuel := fuel
    · cases hfuel
    refine ⟨stop, ?_⟩
    rw [Tokens.prepend_nil, separated, at?_bind_of_eq hts]
    rfl
  | @last ls a hL =>
    obtain _ | fuel := fuel
    · cases hfuel
    obtain ⟨l, ks, rfl, hl⟩ := hbegin ls a hL
    obtain ⟨stop₁, hread⟩ := hitem _ a (.next closing rest) stop hL Tokens.readable_next
      (endsFor_next hclosing hclose)
    refine ⟨stop₁, ?_⟩
    rw [Tokens.prepend_cons] at hread ⊢
    rw [separated, at?_bind_of_ne (token?_next_ne hl), if_neg Bool.false_ne_true, bind_of_ok hread,
      at?_bind_of_ne (token?_next_ne (by simp [hclosing, hne]))]
    rfl
  | @cons ls ks comma a as hL hcomma' hrest ih =>
    obtain _ | fuel := fuel
    · cases hfuel
    have hlength : ks.length < fuel := by
      simp only [List.length_cons, List.length_append] at hfuel
      omega
    obtain ⟨l, ls, rfl, hl⟩ := hbegin ls a hL
    have hreadable : (Tokens.next closing rest).Readable := Tokens.readable_next
    obtain ⟨stop₁, hread⟩ := hitem _ a (.next comma (.prepend ks (.next closing rest))) stop hL
      Tokens.readable_next (endsFor_next hcomma' hcomma)
    obtain ⟨stop₂, hreads⟩ := ih fuel comma.stop hlength
    refine ⟨stop₂, ?_⟩
    rw [Tokens.prepend_cons] at hread
    rw [Tokens.prepend_append, Tokens.prepend_cons, separated, at?_bind_of_ne (token?_next_ne hl),
      if_neg Bool.false_ne_true, Tokens.prepend_cons, bind_of_ok hread,
      at?_bind_of_eq (token?_next_of hcomma'), if_pos rfl, bind_of_ok (pass_run hreadable.prepend),
      bind_of_ok hreads]
    rfl

end Lists

/-! ### How the levels begin -/

/-- A token with which an expression can begin. -/
def startsOperand : Token → Bool
  | .symbol s => s = .parenOpen || s = .bracketOpen || s = .braceOpen || s = .minus || s = .plus ||
      s = .bang
  | .keyword _ => false
  | _ => true

/-- All that is in the language begins with a token with which an expression can begin. -/
def Begins (L : Lang Expr) : Prop :=
  ∀ ls e, L ls e → ∃ l ks, ls = l :: ks ∧ startsOperand l.token = true

section Begin

variable {D : Production → Lang Expr}

theorem Begins.apart {L : Lang Expr} {close : Symbol} (h : Begins L)
    (hclose : startsOperand (.symbol close) = false) : BeginsApart close L := by
  intro ls e hL
  obtain ⟨l, ks, rfl, hl⟩ := h ls e hL
  refine ⟨l, ks, rfl, fun htoken => ?_⟩
  rw [htoken, hclose] at hl
  cases hl

theorem Begins.run {L : Lang Expr} (h : Begins L) (tier : Tier) : Begins (Run tier L) := by
  rintro _ _ ⟨hfirst, _⟩
  obtain ⟨l, ks, rfl, hl⟩ := h _ _ hfirst
  exact ⟨l, _, rfl, hl⟩

theorem Begins.logicalRun {L : Lang Expr} (h : Begins L) (op : LogicalOp) :
    Begins (LogicalRun op L) := by
  rintro _ _ ⟨hfirst, _⟩
  obtain ⟨l, ks, rfl, hl⟩ := h _ _ hfirst
  exact ⟨l, _, rfl, hl⟩

theorem Primary.begins {ls : List Lexeme} {e : Expr} (h : Primary D ls e) :
    ∃ l ks, ls = l :: ks ∧ startsOperand l.token = true ∧ unaryOp? l.token = none := by
  cases h with
  | @atom l e hatom =>
    refine ⟨l, [], rfl, ?_⟩
    cases hatom with
    | reference htoken _ | number htoken | text htoken | trueWord htoken | falseWord htoken
    | nullWord htoken | undefined htoken | nan htoken | infinity htoken =>
      rw [htoken]
      exact ⟨rfl, rfl⟩
  | group hopening _ _ | array hopening _ _ | object hopening _ _ =>
    refine ⟨_, _, rfl, ?_⟩
    rw [hopening]
    exact ⟨rfl, rfl⟩

theorem Chained.begins {ls : List Lexeme} {e : Expr} (h : Chained D ls e) :
    ∃ l ks, ls = l :: ks ∧ startsOperand l.token = true ∧ unaryOp? l.token = none := by
  obtain ⟨hprimary, _⟩ := h
  obtain ⟨l, ks, hls, hl⟩ := hprimary.begins
  obtain ⟨rfl, rfl⟩ := List.cons.inj hls
  exact ⟨_, _, rfl, hl⟩

theorem begins_signed : Begins (Signed D) := by
  intro ls e h
  cases h with
  | @unary l op ks e hop _ =>
    refine ⟨l, ks, rfl, ?_⟩
    rw [hop]
    cases op <;> rfl
  | chained hchained =>
    obtain ⟨l, ks, rfl, hl, -⟩ := hchained.begins
    exact ⟨l, ks, rfl, hl⟩

theorem begins_power : Begins (Power D) := by
  intro ls e h
  cases h with
  | signed hsigned => exact begins_signed _ _ hsigned
  | power hbase _ _ =>
    obtain ⟨l, ks, rfl, hl, -⟩ := hbase.begins
    exact ⟨l, _, rfl, hl⟩

theorem begins_coalescence : Begins (Coalescence D) :=
  ((((((begins_power.run _).run _).run _).run _).logicalRun _).logicalRun _).logicalRun _

theorem begins_choice : Begins (Choice D) := by
  intro ls e h
  cases h with
  | test htest => exact begins_coalescence _ _ htest
  | conditional htest _ _ _ _ =>
    obtain ⟨l, ks, rfl, hl⟩ := begins_coalescence _ _ htest
    exact ⟨l, _, rfl, hl⟩

theorem Link.begins {start : Nat} {target e : Expr} {ls : List Lexeme}
    (h : Link D start target ls e) :
    ∃ l ks s, ls = l :: ks ∧ l.token = .symbol s ∧ startsLink s = true := by
  cases h with
  | member hdot _ _ => exact ⟨_, _, .dot, rfl, hdot, rfl⟩
  | index hopening _ _ _ => exact ⟨_, _, .bracketOpen, rfl, hopening, rfl⟩
  | call hopening _ _ _ => exact ⟨_, _, .parenOpen, rfl, hopening, rfl⟩

end Begin

/-! ### Levels -/

/-- All that the language of a production has is read one level deeper. -/
structure CompleteBelow (deeper : Production → Parser Expr)
    (D : Production → Lang Expr) : Prop where
  conditional : Complete continuesChoice (deeper .conditional) (D .conditional)
  power : Complete continuesPower (deeper .power) (D .power)
  unary : Complete startsLink (deeper .unary) (D .unary)
  link : ∀ start target, Complete startsLink (deeper (.link start target)) (D (.link start target))
  begins : Begins (D .conditional)
  begins_link : ∀ start target ls e, D (.link start target) ls e →
    ∃ l ks s, ls = l :: ks ∧ l.token = .symbol s ∧ startsLink s = true

section Levels

variable {deeper : Production → Parser Expr} {D : Production → Lang Expr}

theorem list_complete (hdeeper : CompleteBelow deeper D) {close : Symbol}
    (hgoesOn : continuesChoice close = false) (hstarts : startsOperand (.symbol close) = false)
    (hne : close ≠ .comma) {ls : List Lexeme} {es : List Expr} {closing : Lexeme} {ts : Tokens}
    (h : Separated (D .conditional) ls es) (hclosing : closing.token = .symbol close)
    (hts : ts.Readable) (stop : Nat) :
    list deeper close ⟨.prepend ls (.next closing ts), stop⟩ = .ok (es, ⟨ts, closing.stop⟩) := by
  have hfuel : ls.length < (Tokens.prepend ls (.next closing ts)).length + 1 := by
    rw [Tokens.length_prepend]
    omega
  obtain ⟨stop₁, hread⟩ := separated_complete hdeeper.conditional (hdeeper.begins.apart hstarts) rfl
    hgoesOn hne h (token?_next_of hclosing) _ stop hfuel
  rw [← items_eq_separated] at hread
  rw [list, left_bind, bind_of_ok hread, bind_of_ok (expect_run hclosing hts)]
  rfl

theorem beginsApart_entry : BeginsApart .braceClose (Entry D) := by
  intro ls a h
  cases h with
  | keyed hkey _ _ =>
    refine ⟨_, _, rfl, fun htoken => ?_⟩
    rw [htoken, ← entryKey?_eq_some_iff] at hkey
    cases hkey
  | shorthand hname =>
    refine ⟨_, _, rfl, fun htoken => ?_⟩
    rw [hname] at htoken
    cases htoken

theorem entry_complete (hdeeper : CompleteBelow deeper D) :
    Complete continuesEntry (entry deeper) (Entry D) := by
  intro ls a ts stop h hts hends
  cases h with
  | @keyed l colon key ls e hkey hcolon hvalue =>
    obtain ⟨stop₁, hread⟩ := hdeeper.conditional ls e ts colon.stop hvalue hts
      (hends.mono fun s hs => (Bool.or_eq_false_iff.mp hs).1)
    refine ⟨stop₁, ?_⟩
    rw [Tokens.prepend_cons, Tokens.prepend_cons, entry_of_head? rfl,
      entryKey?_eq_some_iff.mpr hkey]
    dsimp only
    rw [bind_of_ok (pass_run Tokens.readable_next), at?_bind_of_eq (token?_next_of hcolon),
      if_pos rfl, bind_of_ok (pass_run hts.prepend), bind_of_ok hread]
    rfl
  | @shorthand l s hname =>
    have hne : ts.token? ≠ some (.symbol .colon) := hends.token?_ne rfl
    refine ⟨l.stop, ?_⟩
    rw [Tokens.prepend_cons, Tokens.prepend_nil, entry_of_head? rfl, hname]
    dsimp only [entryKey?, propertyName?]
    rw [bind_of_ok (pass_run hts), at?_bind_of_ne hne]
    rfl

theorem primary_complete (hdeeper : CompleteBelow deeper D) :
    Complete (fun _ => false) (primary deeper) (Primary D) := by
  intro ls e ts stop h hts _
  cases h with
  | @atom l e hatom =>
    refine ⟨l.stop, ?_⟩
    rw [Tokens.prepend_cons, Tokens.prepend_nil, primary, next?_bind, Tokens.head?_next]
    have hpass : Parser.pass ⟨.next l ts, stop⟩ = .ok ((), ⟨ts, l.stop⟩) := pass_run hts
    cases hatom with
    | reference htoken hname =>
      dsimp only
      rw [htoken]
      dsimp only
      rw [bind_of_ok hpass, ofName_eq_ident hname]
      rfl
    | number htoken | text htoken | trueWord htoken | falseWord htoken | nullWord htoken
    | undefined htoken
    | nan htoken | infinity htoken =>
      dsimp only
      rw [htoken]
      dsimp only
      rw [bind_of_ok hpass]
      rfl
  | @group opening closing ls e hopening hinner hclosing =>
    obtain ⟨stop₁, hread⟩ := hdeeper.conditional ls e (.next closing ts) opening.stop hinner
      Tokens.readable_next (endsFor_next hclosing rfl)
    refine ⟨closing.stop, ?_⟩
    rw [Tokens.prepend_append, Tokens.prepend_cons, Tokens.prepend_cons,
      Tokens.prepend_nil, primary, next?_bind, Tokens.head?_next]
    dsimp only
    rw [hopening]
    dsimp only
    rw [bind_of_ok (pass_run Tokens.readable_next.prepend), bind_of_ok hread,
      bind_of_ok (expect_run hclosing hts)]
    rfl
  | @array opening closing ls es hopening hitems hclosing =>
    have hread := list_complete hdeeper rfl rfl (by decide) hitems hclosing hts opening.stop
    refine ⟨closing.stop, ?_⟩
    rw [Tokens.prepend_append, Tokens.prepend_cons, Tokens.prepend_cons,
      Tokens.prepend_nil, primary, next?_bind, Tokens.head?_next]
    dsimp only
    rw [hopening]
    dsimp only
    rw [bind_of_ok (pass_run Tokens.readable_next.prepend), bind_of_ok hread]
    rfl
  | @object opening closing ls es hopening hentries hclosing =>
    have hfuel : ls.length < (Tokens.prepend ls (.next closing ts)).length + 1 := by
      rw [Tokens.length_prepend]
      omega
    obtain ⟨stop₁, hread⟩ := separated_complete (entry_complete hdeeper) beginsApart_entry rfl rfl
      (by decide) hentries (token?_next_of hclosing) _ opening.stop hfuel
    rw [← entries_eq_separated] at hread
    refine ⟨closing.stop, ?_⟩
    rw [Tokens.prepend_append, Tokens.prepend_cons, Tokens.prepend_cons,
      Tokens.prepend_nil, primary, next?_bind, Tokens.head?_next]
    dsimp only
    rw [hopening]
    dsimp only
    rw [bind_of_ok (pass_run Tokens.readable_next.prepend), left_bind, bind_of_ok hread,
      bind_of_ok (expect_run hclosing hts)]
    rfl

theorem chain_complete (hdeeper : CompleteBelow deeper D) (start : Nat) (target : Expr) :
    Complete startsLink (chain deeper start target) (Chain D start target) := by
  intro ls e ts stop h hts hends
  cases h with
  | stop => exact ⟨stop, chain_of_not_startsLink hends⟩
  | link hlink =>
    obtain ⟨stop₁, hread⟩ := hdeeper.link start target ls e ts stop hlink hts hends
    obtain ⟨l, ks, s, rfl, hl, hs⟩ := hdeeper.begins_link start target ls e hlink
    refine ⟨stop₁, ?_⟩
    rw [Tokens.prepend_cons] at hread ⊢
    rw [chain_of_startsLink (token?_next_of hl) hs, hread]

theorem link_complete (hdeeper : CompleteBelow deeper D) (start : Nat) (target : Expr) :
    Complete startsLink (link deeper start target) (Link D start target) := by
  intro ls e ts stop h hts hends
  cases h with
  | @member dot l property ls e hdot hproperty hrest =>
    obtain ⟨stop₁, hread⟩ := chain_complete hdeeper start _ ls e ts l.stop hrest hts hends
    refine ⟨stop₁, ?_⟩
    rw [Tokens.prepend_cons, Tokens.prepend_cons, link, token?_bind, token?_next_of hdot]
    dsimp only
    rw [bind_of_ok (pass_run Tokens.readable_next), token?_bind, Tokens.token?_next,
      Option.bind_some, propertyName?_eq_some_iff.mpr hproperty]
    dsimp only
    rw [bind_of_ok (pass_run hts.prepend), lastStop_bind, hread]
  | @index opening closing ks ls key e hopening hkey hclosing hrest =>
    obtain ⟨stop₁, hread⟩ :=
      hdeeper.conditional ks key (.next closing (.prepend ls ts)) opening.stop hkey
      Tokens.readable_next (endsFor_next hclosing rfl)
    obtain ⟨stop₂, hread₂⟩ := chain_complete hdeeper start _ ls e ts closing.stop hrest hts hends
    refine ⟨stop₂, ?_⟩
    rw [Tokens.prepend_append, Tokens.prepend_cons, Tokens.prepend_cons, link, token?_bind,
      token?_next_of hopening]
    dsimp only
    rw [bind_of_ok (pass_run Tokens.readable_next.prepend), bind_of_ok hread,
      bind_of_ok (expect_run hclosing hts.prepend), hread₂]
  | @call opening closing ks ls args e hopening hargs hclosing hrest =>
    have hreadable : (Tokens.prepend ls ts).Readable := hts.prepend
    have hread := list_complete hdeeper rfl rfl (by decide) hargs hclosing hreadable opening.stop
    obtain ⟨stop₁, hread₁⟩ := chain_complete hdeeper start _ ls e ts closing.stop hrest hts hends
    refine ⟨stop₁, ?_⟩
    rw [Tokens.prepend_append, Tokens.prepend_cons, Tokens.prepend_cons, link, token?_bind,
      token?_next_of hopening]
    dsimp only
    rw [bind_of_ok (pass_run Tokens.readable_next.prepend), bind_of_ok hread, hread₁]

theorem chained_complete (hdeeper : CompleteBelow deeper D) :
    Complete startsLink (chained deeper) (Chained D) := by
  intro ls e ts stop h hts hends
  obtain @⟨l, ls, ks, target, e, hprimary, hchain⟩ := h
  obtain ⟨stop₁, hread⟩ := primary_complete hdeeper (l :: ls) target (.prepend ks ts) stop hprimary
    hts.prepend fun _ _ => rfl
  obtain ⟨stop₂, hread₂⟩ := chain_complete hdeeper l.start target ks e ts stop₁ hchain hts hends
  refine ⟨stop₂, ?_⟩
  rw [Tokens.prepend_append, chained]
  rw [Tokens.prepend_cons] at hread ⊢
  rw [bind_of_ok position_run, bind_of_ok hread, hread₂]

theorem signed_of_chained {ls : List Lexeme} {e : Expr} (h : Chained D ls e) (ts : Tokens)
    (stop : Nat) :
    signed deeper ⟨.prepend ls ts, stop⟩ = chained deeper ⟨.prepend ls ts, stop⟩ := by
  obtain ⟨l, ks, rfl, -, hunary⟩ := h.begins
  rw [signed, token?_bind, Tokens.prepend_cons, Tokens.token?_next, Option.bind_some, hunary]

theorem signed_complete (hdeeper : CompleteBelow deeper D) :
    Complete startsLink (signed deeper) (Signed D) := by
  intro ls e ts stop h hts hends
  cases h with
  | @unary l op ls e hop hoperand =>
    obtain ⟨stop₁, hread⟩ := hdeeper.unary ls e ts l.stop hoperand hts hends
    refine ⟨stop₁, ?_⟩
    rw [Tokens.prepend_cons, signed, token?_bind, Tokens.token?_next, Option.bind_some,
      unaryOp?_eq_some_iff.mpr hop]
    dsimp only
    rw [bind_of_ok (pass_run hts.prepend), bind_of_ok hread]
    rfl
  | chained hchained =>
    rw [signed_of_chained hchained]
    exact chained_complete hdeeper ls e ts stop hchained hts hends

theorem power_complete (hdeeper : CompleteBelow deeper D) :
    Complete continuesPower (power deeper) (Power D) := by
  intro ls e ts stop h hts hends
  cases h with
  | signed hsigned =>
    obtain ⟨stop₁, hread⟩ := signed_complete hdeeper ls e ts stop hsigned hts
      (hends.mono fun s hs => (Bool.or_eq_false_iff.mp hs).1)
    have hne : ts.token? ≠ some (.symbol .starStar) := hends.token?_ne rfl
    refine ⟨stop₁, ?_⟩
    rw [power, token?_bind, bind_of_ok hread, at?_bind_of_ne hne]
    rfl
  | @power op ls ks base e hbase hop hexponent =>
    obtain ⟨stop₁, hread⟩ := chained_complete hdeeper ls base (.next op (.prepend ks ts)) stop hbase
      Tokens.readable_next (endsFor_next hop rfl)
    obtain ⟨stop₂, hread₂⟩ := hdeeper.power ks e ts op.stop hexponent hts hends
    obtain ⟨l, ls', hls, -, hunary⟩ := hbase.begins
    have hsigned : ((Tokens.prepend ls (.next op (.prepend ks ts))).token?.bind unaryOp?).isSome
        = false := by
      rw [hls, Tokens.prepend_cons, Tokens.token?_next, Option.bind_some, hunary,
        Option.isSome_none]
    refine ⟨stop₂, ?_⟩
    rw [← signed_of_chained hbase] at hread
    rw [Tokens.prepend_append, Tokens.prepend_cons, power, token?_bind, hsigned, bind_of_ok hread,
      at?_bind_of_eq (token?_next_of hop), if_pos rfl, if_neg Bool.false_ne_true,
      bind_of_ok (pass_run hts.prepend), bind_of_ok hread₂]
    rfl

theorem coalescence_complete (hdeeper : CompleteBelow deeper D) :
    Complete continuesCoalescence (coalescence deeper) (Coalescence D) := by
  have hproduct : Complete _ (product deeper) (Product D) :=
    run_complete .product (power_complete hdeeper) (by decide)
  have hsum : Complete _ (sum deeper) (Sum D) :=
    run_complete .sum hproduct (by decide)
  have hrelation : Complete _ (relation deeper) (Relation D) :=
    run_complete .relation hsum (by decide)
  have hequality : Complete _ (equality deeper) (Equality D) :=
    run_complete .equality hrelation (by decide)
  have hconjunction : Complete _ (conjunction deeper) (Conjunction D) :=
    logicalRun_complete .and hequality rfl
  have hdisjunction : Complete _ (disjunction deeper) (Disjunction D) :=
    logicalRun_complete .or hconjunction rfl
  exact logicalRun_complete .nullish hdisjunction rfl

theorem choice_complete (hdeeper : CompleteBelow deeper D) :
    Complete continuesChoice (choice deeper) (Choice D) := by
  intro ls e ts stop h hts hends
  cases h with
  | test htest =>
    obtain ⟨stop₁, hread⟩ := coalescence_complete hdeeper ls e ts stop htest hts
      (hends.mono fun s hs => (Bool.or_eq_false_iff.mp hs).1)
    have hne : ts.token? ≠ some (.symbol .question) := hends.token?_ne rfl
    refine ⟨stop₁, ?_⟩
    rw [choice, bind_of_ok hread, at?_bind_of_ne hne]
    rfl
  | @conditional question colon ls ms ns test consequent alternate htest hquestion
      hconsequent hcolon
      halternate =>
    obtain ⟨stop₁, hread₁⟩ := coalescence_complete hdeeper ls test
      (.next question (.prepend ms (.next colon (.prepend ns ts)))) stop htest Tokens.readable_next
      (endsFor_next hquestion rfl)
    obtain ⟨stop₂, hread₂⟩ := hdeeper.conditional ms consequent (.next colon (.prepend ns ts))
      question.stop hconsequent Tokens.readable_next (endsFor_next hcolon rfl)
    obtain ⟨stop₃, hread₃⟩ := hdeeper.conditional ns alternate ts colon.stop halternate hts hends
    refine ⟨stop₃, ?_⟩
    rw [Tokens.prepend_append, Tokens.prepend_append, Tokens.prepend_cons, Tokens.prepend_cons,
      choice, bind_of_ok hread₁, at?_bind_of_eq (token?_next_of hquestion), if_pos rfl,
      bind_of_ok (pass_run Tokens.readable_next.prepend), bind_of_ok hread₂,
      bind_of_ok (expect_run hcolon hts.prepend), bind_of_ok hread₃]
    rfl

end Levels

/-- **What is derived with room for some nesting is read with as much room.** -/
theorem descend_complete (limit room : Nat) :
    CompleteBelow (descend limit room) (Derives room) := by
  induction room with
  | zero =>
    exact {
      conditional := fun _ _ _ _ h => h.elim
      power := fun _ _ _ _ h => h.elim
      unary := fun _ _ _ _ h => h.elim
      link := fun _ _ _ _ _ _ h => h.elim
      begins := fun _ _ h => h.elim
      begins_link := fun _ _ _ _ h => h.elim }
  | succ room ih =>
    exact {
      conditional := choice_complete ih
      power := power_complete ih
      unary := signed_complete ih
      link := link_complete ih
      begins := begins_choice
      begins_link := fun _ _ _ _ h => h.begins }

end FormulaSheet.Expr
