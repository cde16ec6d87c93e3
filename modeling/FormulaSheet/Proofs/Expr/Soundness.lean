import FormulaSheet.Proofs.Expr.Reading

/-!
# What is read is in the grammar

Each level of reading takes lexemes away that stand in its language for the expression it returns,
provided that what is read one level deeper does. By induction on the room for nesting,
`Expr.descend` reads only what the grammar derives (`Expr.descend_sound`).
-/

namespace FormulaSheet.Expr

open FormulaSheet.Expr.Parser

variable {α : Type}

/-- Lexemes of the language have been read. -/
def Reads (L : Lang α) (r : Reading) (a : α) (r' : Reading) : Prop :=
  ∃ ls, r.tokens = .prepend ls r'.tokens ∧ L ls a ∧ r'.tokens.Readable

/-- Only what is in the language is read. -/
def Sound (p : Parser α) (L : Lang α) : Prop :=
  ∀ r a r', r.tokens.Readable → p r = .ok (a, r') → Reads L r a r'

/-- A link is read only where one begins. -/
def Production.Ready : Production → Tokens → Prop
  | .link _ _, ts => ∃ s, ts.token? = some (.symbol s) ∧ startsLink s = true
  | _, _ => True

/-- What is read one level deeper is in the language. -/
def SoundBelow (deeper : Production → Parser Expr) (D : Production → Lang Expr) : Prop :=
  ∀ p r e r', r.tokens.Readable → p.Ready r.tokens → deeper p r = .ok (e, r') → Reads (D p) r e r'

section Runs

variable {operand : Parser Expr} {L : Lang Expr}

theorem runRest_sound (tier : Tier) (hoperand : Sound operand L) (fuel : Nat) :
    Sound (runRest tier.op? operand fuel) (RunRest tier L) := by
  induction fuel with
  | zero =>
    intro r es r' hr h
    obtain ⟨rfl, rfl⟩ := pure_eq_ok.mp h
    exact ⟨[], rfl, RunRest.nil, hr⟩
  | succ fuel ih =>
    intro r es r' hr h
    rw [runRest, nextOp?_bind] at h
    cases hop : r.tokens.op? tier.op? with
    | none =>
      simp only [hop] at h
      obtain ⟨rfl, rfl⟩ := pure_eq_ok.mp h
      exact ⟨[], rfl, RunRest.nil, hr⟩
    | some op =>
      simp only [hop, bind_eq_ok, pure_eq_ok] at h
      obtain ⟨_, r₁, hpass, e, r₂, he, rest, _, hrest, rfl, rfl⟩ := h
      obtain ⟨s, hs, htable⟩ := Tokens.token?_of_op? hop
      obtain ⟨hmem, rfl⟩ := Tier.op?_eq_some_iff.mp htable
      obtain ⟨l, hl, hr₁, -, hread₁⟩ := passed_of_token? hs hpass
      obtain ⟨ls, hls, hL, hread₂⟩ := hoperand r₁ e r₂ hread₁ he
      obtain ⟨ks, hks, hR, hread₃⟩ := ih r₂ rest _ hread₂ hrest
      refine ⟨l :: ls ++ ks, ?_, RunRest.cons hl hmem hL hR, hread₃⟩
      rw [hr₁, hls, hks, Tokens.prepend_append, Tokens.prepend_cons]

theorem run_sound (tier : Tier) (hoperand : Sound operand L) :
    Sound (run tier.op? operand) (Run tier L) := by
  intro r e r' hr h
  simp only [run, bind_eq_ok, left_bind] at h
  obtain ⟨first, r₁, hfirst, rest, r₂, hrest, h⟩ := h
  obtain ⟨ls, hls, hL, hread₁⟩ := hoperand r first r₁ hr hfirst
  obtain ⟨ks, hks, hR, hread₂⟩ := runRest_sound tier hoperand _ r₁ rest r₂ hread₁ hrest
  have he : mkRun first rest = e ∧ r₂ = r' := by
    cases rest with
    | nil => exact pure_eq_ok.mp h
    | cons => exact pure_eq_ok.mp h
  obtain ⟨rfl, rfl⟩ := he
  refine ⟨ls ++ ks, ?_, Run.mk hL hR, hread₂⟩
  rw [hls, hks, Tokens.prepend_append]

theorem logicalRest_sound (op : LogicalOp) (hoperand : Sound operand L) (fuel : Nat) :
    Sound (logicalRest op.sign operand fuel) (LogicalRest op L) := by
  induction fuel with
  | zero =>
    intro r es r' hr h
    obtain ⟨rfl, rfl⟩ := pure_eq_ok.mp h
    exact ⟨[], rfl, LogicalRest.nil, hr⟩
  | succ fuel ih =>
    intro r es r' hr h
    rw [logicalRest, at?_bind] at h
    split at h
    · rename_i hs
      simp only [bind_eq_ok, pure_eq_ok] at h
      obtain ⟨_, r₁, hpass, e, r₂, he, rest, _, hrest, rfl, rfl⟩ := h
      obtain ⟨l, hl, hr₁, -, hread₁⟩ := passed_of_token? (of_decide_eq_true hs) hpass
      obtain ⟨ls, hls, hL, hread₂⟩ := hoperand r₁ e r₂ hread₁ he
      obtain ⟨ks, hks, hR, hread₃⟩ := ih r₂ rest _ hread₂ hrest
      refine ⟨l :: ls ++ ks, ?_, LogicalRest.cons hl hL hR, hread₃⟩
      rw [hr₁, hls, hks, Tokens.prepend_append, Tokens.prepend_cons]
    · obtain ⟨rfl, rfl⟩ := pure_eq_ok.mp h
      exact ⟨[], rfl, LogicalRest.nil, hr⟩

theorem logicalRun_sound (op : LogicalOp) (hoperand : Sound operand L) :
    Sound (logicalRun op.sign op operand) (LogicalRun op L) := by
  intro r e r' hr h
  simp only [logicalRun, bind_eq_ok, left_bind] at h
  obtain ⟨first, r₁, hfirst, rest, r₂, hrest, h⟩ := h
  obtain ⟨ls, hls, hL, hread₁⟩ := hoperand r first r₁ hr hfirst
  obtain ⟨ks, hks, hR, hread₂⟩ := logicalRest_sound op hoperand _ r₁ rest r₂ hread₁ hrest
  have he : mkLogical op first rest = e ∧ r₂ = r' := by
    cases rest with
    | nil => exact pure_eq_ok.mp h
    | cons => exact pure_eq_ok.mp h
  obtain ⟨rfl, rfl⟩ := he
  refine ⟨ls ++ ks, ?_, LogicalRun.mk hL hR, hread₂⟩
  rw [hls, hks, Tokens.prepend_append]

end Runs

theorem separated_sound {item : Parser α} {L : Lang α} (hitem : Sound item L) (close : Symbol)
    (fuel : Nat) : Sound (separated close item fuel) (Separated L) := by
  induction fuel with
  | zero =>
    intro r as r' hr h
    obtain ⟨rfl, rfl⟩ := pure_eq_ok.mp h
    exact ⟨[], rfl, Separated.nil, hr⟩
  | succ fuel ih =>
    intro r as r' hr h
    rw [separated, at?_bind] at h
    split at h
    · obtain ⟨rfl, rfl⟩ := pure_eq_ok.mp h
      exact ⟨[], rfl, Separated.nil, hr⟩
    · rw [bind_eq_ok] at h
      obtain ⟨a, r₁, ha, h⟩ := h
      obtain ⟨ls, hls, hL, hread₁⟩ := hitem r a r₁ hr ha
      rw [at?_bind] at h
      split at h
      · rename_i hcomma
        simp only [bind_eq_ok, pure_eq_ok] at h
        obtain ⟨_, r₂, hpass, rest, _, hrest, rfl, rfl⟩ := h
        obtain ⟨comma, hl, hr₂, -, hread₂⟩ := passed_of_token? (of_decide_eq_true hcomma) hpass
        obtain ⟨ks, hks, hR, hread₃⟩ := ih r₂ rest _ hread₂ hrest
        refine ⟨ls ++ comma :: ks, ?_, Separated.cons hL hl hR, hread₃⟩
        rw [hls, hr₂, hks, Tokens.prepend_append, Tokens.prepend_cons]
      · obtain ⟨rfl, rfl⟩ := pure_eq_ok.mp h
        exact ⟨ls, hls, Separated.last hL, hread₁⟩

section Levels

variable {deeper : Production → Parser Expr} {D : Production → Lang Expr}

theorem SoundBelow.conditional (h : SoundBelow deeper D) :
    Sound (deeper .conditional) (D .conditional) :=
  fun r e r' hr => h .conditional r e r' hr trivial

theorem SoundBelow.power (h : SoundBelow deeper D) : Sound (deeper .power) (D .power) :=
  fun r e r' hr => h .power r e r' hr trivial

theorem SoundBelow.unary (h : SoundBelow deeper D) : Sound (deeper .unary) (D .unary) :=
  fun r e r' hr => h .unary r e r' hr trivial

theorem list_sound (hdeeper : SoundBelow deeper D) {close : Symbol} {r r' : Reading}
    {es : List Expr} (hr : r.tokens.Readable) (h : list deeper close r = .ok (es, r')) :
    ∃ ls l, r.tokens = .prepend (ls ++ [l]) r'.tokens ∧ l.token = .symbol close ∧
      Separated (D .conditional) ls es ∧ r'.tokens.Readable := by
  simp only [list, left_bind, bind_eq_ok, pure_eq_ok] at h
  obtain ⟨_, r₁, hitems, _, r₂, hexpect, rfl, rfl⟩ := h
  rw [items_eq_separated] at hitems
  obtain ⟨ls, hls, hL, -⟩ := separated_sound hdeeper.conditional close _ r _ r₁ hr hitems
  obtain ⟨l, hl, hr₁, -, hread⟩ := passed_of_expect hexpect
  refine ⟨ls, l, ?_, hl, hL, hread⟩
  rw [hls, hr₁, Tokens.prepend_append, Tokens.prepend_cons, Tokens.prepend_nil]

theorem entry_sound (hdeeper : SoundBelow deeper D) : Sound (entry deeper) (Entry D) := by
  intro r e r' hr h
  cases hhead : r.tokens.head? with
  | none =>
    rw [entry, next?_bind] at h
    simp only [hhead] at h
    exact absurd h unexpected_ne_ok
  | some l =>
    rw [entry_of_head? hhead] at h
    cases hkey : entryKey? l.token with
    | none =>
      simp only [hkey] at h
      exact absurd h unexpected_ne_ok
    | some key =>
      simp only [hkey] at h
      rw [bind_eq_ok] at h
      obtain ⟨_, r₁, hpass, h⟩ := h
      obtain ⟨hr₁, -, hread₁⟩ := passed_of_pass hhead hpass
      rw [at?_bind] at h
      split at h
      · rename_i hcolon
        simp only [bind_eq_ok, pure_eq_ok] at h
        obtain ⟨_, r₂, hpass₂, e, _, he, rfl, rfl⟩ := h
        obtain ⟨colon, hl, hr₂, -, hread₂⟩ := passed_of_token? (of_decide_eq_true hcolon) hpass₂
        obtain ⟨ls, hls, hL, hread₃⟩ := hdeeper.conditional r₂ e _ hread₂ he
        refine ⟨l :: colon :: ls, ?_, Entry.keyed (entryKey?_eq_some_iff.mp hkey) hl hL, hread₃⟩
        rw [hr₁, hr₂, hls, Tokens.prepend_cons, Tokens.prepend_cons]
      · cases htoken : l.token with
        | name s =>
          simp only [htoken] at h hkey
          obtain ⟨rfl, rfl⟩ := pure_eq_ok.mp h
          obtain rfl := Option.some.inj hkey
          exact ⟨[l], hr₁, Entry.shorthand htoken, hread₁⟩
        | _ =>
          simp only [htoken] at h
          exact absurd h unexpected_ne_ok

theorem primary_sound (hdeeper : SoundBelow deeper D) : Sound (primary deeper) (Primary D) := by
  intro r e r' hr h
  rw [primary, next?_bind] at h
  cases hhead : r.tokens.head? with
  | none =>
    simp only [hhead] at h
    exact absurd h unexpected_ne_ok
  | some l =>
    have hatom : ∀ a, IsAtom l a → (do pass; pure a : Parser Expr) r = .ok (e, r') →
        Reads (Primary D) r e r' := by
      intro a ha h
      simp only [bind_eq_ok, pure_eq_ok] at h
      obtain ⟨_, _, hpass, rfl, rfl⟩ := h
      obtain ⟨hr₁, -, hread₁⟩ := passed_of_pass hhead hpass
      exact ⟨[l], hr₁, Primary.atom ha, hread₁⟩
    simp only [hhead] at h
    cases htoken : l.token with
    | number x =>
      simp only [htoken] at h
      exact hatom _ (.number htoken) h
    | text s =>
      simp only [htoken] at h
      exact hatom _ (.text htoken) h
    | name s =>
      simp only [htoken] at h
      exact hatom _ (isAtom_ofName htoken) h
    | trueWord =>
      simp only [htoken] at h
      exact hatom _ (.trueWord htoken) h
    | falseWord =>
      simp only [htoken] at h
      exact hatom _ (.falseWord htoken) h
    | nullWord =>
      simp only [htoken] at h
      exact hatom _ (.nullWord htoken) h
    | keyword word | typeofWord =>
      simp only [htoken] at h
      exact absurd h unexpected_ne_ok
    | symbol s =>
      cases s with
      | parenOpen =>
        simp only [htoken, bind_eq_ok, pure_eq_ok] at h
        obtain ⟨_, r₁, hpass, e', r₂, he, _, r₃, hexpect, rfl, rfl⟩ := h
        obtain ⟨hr₁, -, hread₁⟩ := passed_of_pass hhead hpass
        obtain ⟨ls, hls, hL, -⟩ := hdeeper.conditional r₁ e' r₂ hread₁ he
        obtain ⟨closing, hl, hr₂, -, hread₃⟩ := passed_of_expect hexpect
        refine ⟨l :: ls ++ [closing], ?_, Primary.group htoken hL hl, hread₃⟩
        rw [hr₁, hls, hr₂, Tokens.prepend_append, Tokens.prepend_cons, Tokens.prepend_cons,
          Tokens.prepend_nil]
      | bracketOpen =>
        simp only [htoken, bind_eq_ok, pure_eq_ok] at h
        obtain ⟨_, r₁, hpass, es, r₂, hes, rfl, rfl⟩ := h
        obtain ⟨hr₁, -, hread₁⟩ := passed_of_pass hhead hpass
        obtain ⟨ls, closing, hls, hl, hL, hread₂⟩ := list_sound hdeeper hread₁ hes
        refine ⟨l :: ls ++ [closing], ?_, Primary.array htoken hL hl, hread₂⟩
        rw [hr₁, hls, List.cons_append, Tokens.prepend_cons]
      | braceOpen =>
        simp only [htoken, bind_eq_ok, pure_eq_ok, left_bind] at h
        obtain ⟨_, r₁, hpass, es, r₂, hes, _, r₃, hexpect, rfl, rfl⟩ := h
        obtain ⟨hr₁, -, hread₁⟩ := passed_of_pass hhead hpass
        rw [entries_eq_separated] at hes
        obtain ⟨ls, hls, hL, -⟩ :=
          separated_sound (entry_sound hdeeper) .braceClose _ r₁ es r₂ hread₁ hes
        obtain ⟨closing, hl, hr₂, -, hread₃⟩ := passed_of_expect hexpect
        refine ⟨l :: ls ++ [closing], ?_, Primary.object htoken hL hl, hread₃⟩
        rw [hr₁, hls, hr₂, Tokens.prepend_append, Tokens.prepend_cons, Tokens.prepend_cons,
          Tokens.prepend_nil]
      | _ =>
        simp only [htoken] at h
        exact absurd h unexpected_ne_ok

theorem chain_sound (hdeeper : SoundBelow deeper D) (start : Nat) (target : Expr) :
    Sound (chain deeper start target) (Chain D start target) := by
  intro r e r' hr h
  by_cases hready : (Production.link start target).Ready r.tokens
  · obtain ⟨s, htoken, hs⟩ := id hready
    rw [chain_of_startsLink htoken hs] at h
    obtain ⟨ls, hls, hL, hread⟩ := hdeeper _ r e r' hr hready h
    exact ⟨ls, hls, Chain.link hL, hread⟩
  · have hstop : ∀ s, r.tokens.token? = some (.symbol s) → startsLink s = false := by
      intro s htoken
      rw [Bool.eq_false_iff]
      exact fun hs => hready ⟨s, htoken, hs⟩
    rw [chain_of_not_startsLink hstop] at h
    obtain ⟨rfl, rfl⟩ := Prod.mk.inj (Except.ok.inj h)
    exact ⟨[], rfl, Chain.stop, hr⟩

theorem link_sound (hdeeper : SoundBelow deeper D) {start : Nat} {target e : Expr} {r r' : Reading}
    (hready : (Production.link start target).Ready r.tokens)
    (h : link deeper start target r = .ok (e, r')) : Reads (Link D start target) r e r' := by
  obtain ⟨s, htoken, hs⟩ := hready
  rw [link, token?_bind] at h
  cases s with
  | dot =>
    simp only [htoken] at h
    rw [bind_eq_ok] at h
    obtain ⟨_, r₁, hpass, h⟩ := h
    obtain ⟨dot, hdot, hr₁, -, hread₁⟩ := passed_of_token? htoken hpass
    rw [token?_bind] at h
    cases hproperty : r₁.tokens.token?.bind propertyName? with
    | none =>
      simp only [hproperty] at h
      exact absurd h unexpected_ne_ok
    | some property =>
      simp only [hproperty] at h
      rw [bind_eq_ok] at h
      obtain ⟨_, r₂, hpass₂, h⟩ := h
      obtain ⟨t, ht, hname⟩ := Option.bind_eq_some_iff.mp hproperty
      obtain ⟨l, rfl, hr₂, hstop, hread₂⟩ := passed_of_token? ht hpass₂
      rw [lastStop_bind, hstop] at h
      obtain ⟨ls, hls, hL, hread₃⟩ := chain_sound hdeeper start _ r₂ e r' hread₂ h
      refine ⟨dot :: l :: ls, ?_, Link.member hdot (propertyName?_eq_some_iff.mp hname) hL, hread₃⟩
      rw [hr₁, hr₂, hls, Tokens.prepend_cons, Tokens.prepend_cons]
  | bracketOpen =>
    simp only [htoken, bind_eq_ok] at h
    obtain ⟨_, r₁, hpass, key, r₂, hkey, _, r₃, hexpect, h⟩ := h
    obtain ⟨opening, hopening, hr₁, -, hread₁⟩ := passed_of_token? htoken hpass
    obtain ⟨ks, hks, hK, -⟩ := hdeeper.conditional r₁ key r₂ hread₁ hkey
    obtain ⟨closing, hclosing, hr₂, -, hread₃⟩ := passed_of_expect hexpect
    obtain ⟨ls, hls, hL, hread₄⟩ := chain_sound hdeeper start _ r₃ e r' hread₃ h
    refine ⟨opening :: ks ++ closing :: ls, ?_, Link.index hopening hK hclosing hL, hread₄⟩
    rw [hr₁, hks, hr₂, hls, Tokens.prepend_append, Tokens.prepend_cons, Tokens.prepend_cons]
  | parenOpen =>
    simp only [htoken, bind_eq_ok] at h
    obtain ⟨_, r₁, hpass, args, r₂, hargs, h⟩ := h
    obtain ⟨opening, hopening, hr₁, -, hread₁⟩ := passed_of_token? htoken hpass
    obtain ⟨ks, closing, hks, hclosing, hK, hread₂⟩ := list_sound hdeeper hread₁ hargs
    obtain ⟨ls, hls, hL, hread₃⟩ := chain_sound hdeeper start _ r₂ e r' hread₂ h
    refine ⟨opening :: ks ++ closing :: ls, ?_, Link.call hopening hK hclosing hL, hread₃⟩
    rw [hr₁, hks, hls, Tokens.prepend_append, Tokens.prepend_append, Tokens.prepend_cons,
      Tokens.prepend_cons, Tokens.prepend_cons, Tokens.prepend_nil]
  | _ => cases hs

theorem Primary.exists_cons {ls : List Lexeme} {e : Expr} (h : Primary D ls e) :
    ∃ l ks, ls = l :: ks := by
  cases h <;> exact ⟨_, _, rfl⟩

theorem chained_sound (hdeeper : SoundBelow deeper D) : Sound (chained deeper) (Chained D) := by
  intro r e r' hr h
  obtain ⟨place, hplace⟩ := exists_position r
  rw [chained, bind_of_ok hplace, bind_eq_ok] at h
  obtain ⟨target, r₁, hprimary, h⟩ := h
  obtain ⟨ls, hls, hP, hread₁⟩ := primary_sound hdeeper r target r₁ hr hprimary
  obtain ⟨ks, hks, hC, hread₂⟩ := chain_sound hdeeper place target r₁ e r' hread₁ h
  obtain ⟨l, ls, rfl⟩ := hP.exists_cons
  have hstart : place = l.start := by
    obtain ⟨ts, stop⟩ := r
    dsimp only at hls
    subst hls
    rw [Tokens.prepend_cons, position_run] at hplace
    exact (Prod.mk.inj (Except.ok.inj hplace)).1.symm
  subst hstart
  refine ⟨l :: ls ++ ks, ?_, Chained.mk hP hC, hread₂⟩
  rw [hls, hks, Tokens.prepend_append]

theorem signed_sound (hdeeper : SoundBelow deeper D) {r r' : Reading} {e : Expr}
    (hr : r.tokens.Readable) (h : signed deeper r = .ok (e, r')) :
    Reads (Signed D) r e r' ∧
      ((r.tokens.token?.bind unaryOp?).isSome = false → Reads (Chained D) r e r') := by
  rw [signed, token?_bind] at h
  cases hop : r.tokens.token?.bind unaryOp? with
  | none =>
    simp only [hop] at h
    obtain ⟨ls, hls, hL, hread⟩ := chained_sound hdeeper r e r' hr h
    exact ⟨⟨ls, hls, Signed.chained hL, hread⟩, fun _ => ⟨ls, hls, hL, hread⟩⟩
  | some op =>
    simp only [hop, bind_eq_ok, pure_eq_ok] at h
    obtain ⟨_, r₁, hpass, operand, _, hoperand, rfl, rfl⟩ := h
    obtain ⟨t, ht, hunary⟩ := Option.bind_eq_some_iff.mp hop
    obtain ⟨l, rfl, hr₁, -, hread₁⟩ := passed_of_token? ht hpass
    obtain ⟨ls, hls, hL, hread₂⟩ := hdeeper.unary r₁ operand _ hread₁ hoperand
    refine ⟨⟨l :: ls, ?_, Signed.unary (unaryOp?_eq_some_iff.mp hunary) hL, hread₂⟩,
      fun hnone => by cases hnone⟩
    rw [hr₁, hls, Tokens.prepend_cons]

theorem power_sound (hdeeper : SoundBelow deeper D) : Sound (power deeper) (Power D) := by
  intro r e r' hr h
  rw [power, token?_bind, bind_eq_ok] at h
  obtain ⟨base, r₁, hbase, h⟩ := h
  obtain ⟨hsigned, hchained⟩ := signed_sound hdeeper hr hbase
  rw [at?_bind] at h
  split at h
  · rename_i hstar
    split at h
    · obtain ⟨place, hplace⟩ := exists_position r₁
      rw [bind_of_ok hplace] at h
      exact absurd h failAt_ne_ok
    · rename_i hunary
      simp only [bind_eq_ok, pure_eq_ok] at h
      obtain ⟨_, r₂, hpass, exponent, _, hexponent, rfl, rfl⟩ := h
      rw [Bool.not_eq_true] at hunary
      obtain ⟨ls, hls, hL, -⟩ := hchained hunary
      obtain ⟨op, hop, hr₂, -, hread₂⟩ := passed_of_token? (of_decide_eq_true hstar) hpass
      obtain ⟨ks, hks, hK, hread₃⟩ := hdeeper.power r₂ exponent _ hread₂ hexponent
      refine ⟨ls ++ op :: ks, ?_, Power.power hL hop hK, hread₃⟩
      rw [hls, hr₂, hks, Tokens.prepend_append, Tokens.prepend_cons]
  · obtain ⟨rfl, rfl⟩ := pure_eq_ok.mp h
    obtain ⟨ls, hls, hL, hread⟩ := hsigned
    exact ⟨ls, hls, Power.signed hL, hread⟩

theorem coalescence_sound (hdeeper : SoundBelow deeper D) :
    Sound (coalescence deeper) (Coalescence D) := by
  have hproduct := run_sound .product (power_sound hdeeper)
  have hsum := run_sound .sum hproduct
  have hrelation := run_sound .relation hsum
  have hequality := run_sound .equality hrelation
  have hconjunction := logicalRun_sound .and hequality
  have hdisjunction := logicalRun_sound .or hconjunction
  exact logicalRun_sound .nullish hdisjunction

theorem choice_sound (hdeeper : SoundBelow deeper D) : Sound (choice deeper) (Choice D) := by
  intro r e r' hr h
  rw [choice, bind_eq_ok] at h
  obtain ⟨test, r₁, htest, h⟩ := h
  obtain ⟨ls, hls, hL, hread₁⟩ := coalescence_sound hdeeper r test r₁ hr htest
  rw [at?_bind] at h
  split at h
  · rename_i hquestion
    simp only [bind_eq_ok, pure_eq_ok] at h
    obtain ⟨_, r₂, hpass, consequent, r₃, hconsequent, _, r₄, hexpect, alternate, _, halternate,
      rfl, rfl⟩ := h
    obtain ⟨question, hq, hr₂, -, hread₂⟩ := passed_of_token? (of_decide_eq_true hquestion) hpass
    obtain ⟨ms, hms, hM, -⟩ := hdeeper.conditional r₂ consequent r₃ hread₂ hconsequent
    obtain ⟨colon, hc, hr₃, -, hread₄⟩ := passed_of_expect hexpect
    obtain ⟨ns, hns, hN, hread₅⟩ := hdeeper.conditional r₄ alternate _ hread₄ halternate
    refine ⟨ls ++ question :: ms ++ colon :: ns, ?_, Choice.conditional hL hq hM hc hN, hread₅⟩
    rw [hls, hr₂, hms, hr₃, hns, Tokens.prepend_append, Tokens.prepend_append, Tokens.prepend_cons,
      Tokens.prepend_cons]
  · obtain ⟨rfl, rfl⟩ := pure_eq_ok.mp h
    exact ⟨ls, hls, Choice.test hL, hread₁⟩

end Levels

/-- **What is read with room for some nesting is derived with as much room.** -/
theorem descend_sound (limit room : Nat) : SoundBelow (descend limit room) (Derives room) := by
  induction room with
  | zero =>
    intro p r e r' hr hready h
    obtain ⟨place, hplace⟩ := exists_position r
    rw [descend, bind_of_ok hplace] at h
    exact absurd h failAt_ne_ok
  | succ room ih =>
    intro p r e r' hr hready h
    cases p with
    | conditional => exact choice_sound ih r e r' hr h
    | power => exact power_sound ih r e r' hr h
    | unary => exact (signed_sound ih hr h).1
    | link start target => exact link_sound ih hready h

end FormulaSheet.Expr
