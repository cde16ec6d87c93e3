import FormulaSheet.Proofs.Expr.Grammar
import FormulaSheet.Proofs.Expr.Lexing

/-!
# Steps of reading

What each step of reading finds and does. The tables of operators and words have what the grammar
writes out. A step that only looks at the tokens always succeeds and can be taken out of a sequence
of steps; only passing a token changes what is still to be read.
-/

namespace FormulaSheet

/-! ### Tables -/

/-- The table in which the operators of a tier are looked up. -/
def Tier.op? : Tier → Symbol → Option BinaryOp
  | .equality => Expr.equalityOp?
  | .relation => Expr.relationOp?
  | .sum => Expr.sumOp?
  | .product => Expr.productOp?

/-- The table of a tier has the operators of the tier, each under its sign. -/
theorem Tier.op?_eq_some_iff {tier : Tier} {s : Symbol} {op : BinaryOp} :
    tier.op? s = some op ↔ op ∈ tier.operators ∧ s = op.sign := by
  constructor
  · intro h
    cases tier <;> cases s <;> cases h <;> decide
  · rintro ⟨hop, rfl⟩
    cases tier <;> cases op <;> first | rfl | exact absurd hop (by decide)

theorem Expr.unaryOp?_eq_some_iff {t : Token} {op : UnaryOp} :
    unaryOp? t = some op ↔ t = op.token := by
  constructor
  · intro h
    unfold unaryOp? at h
    split at h <;> cases h <;> rfl
  · rintro rfl
    cases op <;> rfl

theorem Expr.propertyName?_eq_some_iff {t : Token} {s : String} :
    propertyName? t = some s ↔ IsPropertyName t s := by
  constructor
  · intro h
    unfold propertyName? at h
    split at h <;> cases h <;> constructor
  · rintro ⟨⟩ <;> rfl

/-- The key that is read off the token before the colon of an entry. -/
def Expr.entryKey? : Token → Option String
  | .text s => some s
  | .number x => some (Decimal.cellText x)
  | t => propertyName? t

theorem Expr.entryKey?_eq_some_iff {t : Token} {s : String} :
    entryKey? t = some s ↔ IsEntryKey t s := by
  constructor
  · intro h
    unfold entryKey? at h
    split at h
    · obtain rfl := Option.some.inj h
      exact .text _
    · obtain rfl := Option.some.inj h
      exact .number _
    · exact .property (propertyName?_eq_some_iff.mp h)
  · rintro (_ | _ | ⟨_ | _ | _ | _ | _ | _⟩) <;> rfl

/-- A name that is not that of a constant is read as a reference. -/
theorem Expr.ofName_eq_ident {s : String} (h : s ∉ Token.constantNames) (span : Span) :
    ofName s span = ident s span := by
  simp only [Token.constantNames, List.mem_cons, List.not_mem_nil, or_false, not_or] at h
  rw [ofName, if_neg h.1, if_neg h.2.1, if_neg h.2.2]

/-- A name stands for what it is read as. -/
theorem Expr.isAtom_ofName {l : Lexeme} {s : String} (h : l.token = .name s) :
    IsAtom l (ofName s ⟨l.start, l.stop⟩) := by
  by_cases hname : s ∈ Token.constantNames
  · simp only [Token.constantNames, List.mem_cons, List.not_mem_nil, or_false] at hname
    obtain rfl | rfl | rfl := hname
    · exact .undefined h
    · exact .nan h
    · exact .infinity h
  · rw [ofName_eq_ident hname]
    exact .reference h hname

namespace Tokens

/-- The tokens do not begin at a place where none can be read. -/
def Readable (ts : Tokens) : Prop := ∀ e, ts ≠ broken e

/-- The lexeme to be read next. -/
def head? : Tokens → Option Lexeme
  | next l _ => some l
  | _ => none

/-- The token to be read next. -/
def token? (ts : Tokens) : Option Token := ts.head?.map Lexeme.token

/-- The operator of a level to be read next. -/
def op? (level : Symbol → Option BinaryOp) (ts : Tokens) : Option BinaryOp :=
  match ts.token? with
  | some (.symbol s) => level s
  | _ => none

variable {l : Lexeme} {ls : List Lexeme} {ts : Tokens}

theorem readable_next : (next l ts).Readable := by
  intro e h
  cases h

theorem readable_finish {stop : Nat} : (finish stop).Readable := by
  intro e h
  cases h

theorem Readable.prepend (h : ts.Readable) : (prepend ls ts).Readable := by
  cases ls with
  | nil => exact h
  | cons l ls => exact readable_next

@[simp] theorem head?_next : (next l ts).head? = some l := rfl

@[simp] theorem token?_next : (next l ts).token? = some l.token := rfl

theorem exists_of_head? (h : ts.head? = some l) : ∃ rest, ts = next l rest := by
  cases ts with
  | next k rest =>
    obtain rfl := Option.some.inj h
    exact ⟨rest, rfl⟩
  | finish | broken => cases h

theorem exists_of_token? {t : Token} (h : ts.token? = some t) :
    ∃ l rest, ts = next l rest ∧ l.token = t := by
  obtain ⟨l, hl, ht⟩ := Option.map_eq_some_iff.mp h
  obtain ⟨rest, hrest⟩ := exists_of_head? hl
  exact ⟨l, rest, hrest, ht⟩

theorem token?_of_op? {level : Symbol → Option BinaryOp} {op : BinaryOp}
    (h : ts.op? level = some op) : ∃ s, ts.token? = some (.symbol s) ∧ level s = some op := by
  unfold op? at h
  split at h
  · rename_i s hs
    exact ⟨s, hs, h⟩
  · cases h

theorem op?_of_token? {level : Symbol → Option BinaryOp} {s : Symbol}
    (h : ts.token? = some (.symbol s)) : ts.op? level = level s := by
  rw [op?, h]

end Tokens

namespace Expr

namespace Parser

variable {α β : Type} {x : Parser α} {f : α → Parser β} {r r' : Reading} {a : α} {b : β}

theorem bind_of_ok (h : x r = .ok (a, r')) : (x >>= f) r = f a r' := by
  change (x r >>= fun p => f p.1 p.2) = f a r'
  rw [h]
  rfl

theorem bind_of_error {e : SyntaxError} (h : x r = .error e) : (x >>= f) r = .error e := by
  change (x r >>= fun p => f p.1 p.2) = .error e
  rw [h]
  rfl

theorem bind_eq_ok :
    (x >>= f) r = .ok (b, r') ↔ ∃ a r₁, x r = .ok (a, r₁) ∧ f a r₁ = .ok (b, r') := by
  cases h : x r with
  | error e =>
    rw [bind_of_error h]
    simp
  | ok found =>
    obtain ⟨a, r₁⟩ := found
    rw [bind_of_ok h]
    constructor
    · exact fun hf => ⟨a, r₁, rfl, hf⟩
    · rintro ⟨_, _, hok, hf⟩
      obtain ⟨rfl, rfl⟩ := Prod.mk.inj (Except.ok.inj hok)
      exact hf

theorem pure_eq_ok {a' : α} : (pure a : Parser α) r = .ok (a', r') ↔ a = a' ∧ r = r' := by
  change Except.ok (a, r) = .ok (a', r') ↔ _
  rw [Except.ok.injEq, Prod.mk.injEq]

/-! ### Looking at the tokens -/

theorem next?_run (r : Reading) : next? r = .ok (r.tokens.head?, r) := by
  obtain ⟨_ | _ | _, _⟩ := r <;> rfl

@[simp] theorem next?_bind {f : Option Lexeme → Parser β} :
    (next? >>= f) r = f r.tokens.head? r := bind_of_ok (next?_run r)

theorem token?_run (r : Reading) : Parser.token? r = .ok (r.tokens.token?, r) := by
  rw [Parser.token?, next?_bind]
  rfl

@[simp] theorem token?_bind {f : Option Token → Parser β} :
    (Parser.token? >>= f) r = f r.tokens.token? r := bind_of_ok (token?_run r)

theorem at?_run (s : Symbol) (r : Reading) :
    at? s r = .ok (decide (r.tokens.token? = some (.symbol s)), r) := by
  rw [at?, token?_bind]
  rfl

@[simp] theorem at?_bind {s : Symbol} {f : Bool → Parser β} :
    (at? s >>= f) r = f (decide (r.tokens.token? = some (.symbol s))) r := bind_of_ok (at?_run s r)

theorem at?_bind_of_eq {s : Symbol} {f : Bool → Parser β} (h : r.tokens.token? = some (.symbol s)) :
    (at? s >>= f) r = f true r := by
  rw [at?_bind, decide_eq_true h]

theorem at?_bind_of_ne {s : Symbol} {f : Bool → Parser β} (h : r.tokens.token? ≠ some (.symbol s)) :
    (at? s >>= f) r = f false r := by
  rw [at?_bind, decide_eq_false h]

theorem nextOp?_run (op? : Symbol → Option BinaryOp) (r : Reading) :
    nextOp? op? r = .ok (r.tokens.op? op?, r) := by
  rw [nextOp?, token?_bind, Tokens.op?]
  cases r.tokens.token? with
  | none => rfl
  | some t => cases t <;> rfl

@[simp] theorem nextOp?_bind {op? : Symbol → Option BinaryOp} {f : Option BinaryOp → Parser β} :
    (nextOp? op? >>= f) r = f (r.tokens.op? op?) r := bind_of_ok (nextOp?_run op? r)

@[simp] theorem left_bind {f : Nat → Parser β} : (left >>= f) r = f r.tokens.length r :=
  bind_of_ok rfl

@[simp] theorem lastStop_bind {f : Nat → Parser β} : (lastStop >>= f) r = f r.stop r :=
  bind_of_ok rfl

theorem position_run {l : Lexeme} {ts : Tokens} {stop : Nat} :
    position ⟨.next l ts, stop⟩ = .ok (l.start, ⟨.next l ts, stop⟩) := rfl

theorem exists_position (r : Reading) : ∃ place, position r = .ok (place, r) := by
  obtain ⟨_ | _ | _, _⟩ := r <;> exact ⟨_, rfl⟩

theorem failAt_ne_ok {fault : SyntaxFault} {place : Nat} :
    failAt fault place r ≠ .ok (a, r') := by
  intro h
  cases h

theorem unexpected_ne_ok : unexpected r ≠ .ok (a, r') := by
  intro h
  rw [unexpected, next?_bind] at h
  cases hhead : r.tokens.head? with
  | none =>
    simp only [hhead] at h
    obtain ⟨place, hplace⟩ := exists_position r
    rw [bind_of_ok hplace] at h
    exact failAt_ne_ok h
  | some l =>
    simp only [hhead] at h
    cases htoken : l.token <;> simp only [htoken] at h <;> exact failAt_ne_ok h

/-! ### Passing a token -/

theorem pass_run {l : Lexeme} {ts : Tokens} {stop : Nat} (h : ts.Readable) :
    pass ⟨.next l ts, stop⟩ = .ok ((), ⟨ts, l.stop⟩) := by
  cases ts with
  | broken e => exact absurd rfl (h e)
  | next | finish => rfl

/-- A token has been passed. -/
def Passed (l : Lexeme) (r r' : Reading) : Prop :=
  r.tokens = .next l r'.tokens ∧ r'.stop = l.stop ∧ r'.tokens.Readable

theorem passed_of_pass {l : Lexeme} {u : Unit} (hl : r.tokens.head? = some l)
    (h : pass r = .ok (u, r')) : Passed l r r' := by
  obtain ⟨ts, stop⟩ := r
  obtain ⟨rest, hrest⟩ := Tokens.exists_of_head? hl
  dsimp only at hrest
  subst hrest
  cases rest with
  | broken e => cases h
  | next k rest =>
    obtain ⟨-, rfl⟩ := Prod.mk.inj (Except.ok.inj h)
    exact ⟨rfl, rfl, Tokens.readable_next⟩
  | finish place =>
    obtain ⟨-, rfl⟩ := Prod.mk.inj (Except.ok.inj h)
    exact ⟨rfl, rfl, Tokens.readable_finish⟩

theorem passed_of_token? {t : Token} {u : Unit} (ht : r.tokens.token? = some t)
    (h : pass r = .ok (u, r')) : ∃ l, l.token = t ∧ Passed l r r' := by
  obtain ⟨l, rest, hrest, hl⟩ := Tokens.exists_of_token? ht
  exact ⟨l, hl, passed_of_pass (by rw [hrest, Tokens.head?_next]) h⟩

theorem passed_of_expect {s : Symbol} {u : Unit} (h : expect s r = .ok (u, r')) :
    ∃ l, l.token = .symbol s ∧ Passed l r r' := by
  rw [expect, at?_bind] at h
  split at h
  · rename_i hs
    exact passed_of_token? (of_decide_eq_true hs) h
  · exact absurd h unexpected_ne_ok

theorem expect_run {s : Symbol} {l : Lexeme} {ts : Tokens} {stop : Nat} (hl : l.token = .symbol s)
    (h : ts.Readable) : expect s ⟨.next l ts, stop⟩ = .ok ((), ⟨ts, l.stop⟩) := by
  rw [expect, at?_bind, Tokens.token?_next, hl, if_pos (decide_eq_true rfl), pass_run h]

end Parser

open FormulaSheet.Expr.Parser

/-! ### Chains -/

/-- A symbol with which a link of a chain begins. -/
def startsLink : Symbol → Bool
  | .dot | .bracketOpen | .parenOpen => true
  | _ => false

section Chain

variable {deeper : Production → Parser Expr} {start : Nat} {target : Expr} {r : Reading}

theorem chain_of_startsLink {s : Symbol} (htoken : r.tokens.token? = some (.symbol s))
    (hs : startsLink s = true) : chain deeper start target r = deeper (.link start target) r := by
  rw [chain, token?_bind, htoken]
  cases s <;> first | rfl | cases hs

theorem chain_of_not_startsLink
    (h : ∀ s, r.tokens.token? = some (.symbol s) → startsLink s = false) :
    chain deeper start target r = .ok (target, r) := by
  rw [chain, token?_bind]
  cases htoken : r.tokens.token? with
  | none => rfl
  | some t =>
    cases t with
    | symbol s =>
      have hs := h s htoken
      cases s <;> first | rfl | cases hs
    | _ => rfl

end Chain

/-! ### Lists of items and of entries -/

/-- Reads values with commas between them up to a closing symbol that is left unread. -/
def separated {α : Type} (close : Symbol) (item : Parser α) : Nat → Parser (List α)
  | 0 => pure []
  | fuel + 1 => do
    if ← at? close then return []
    let a ← item
    if ← at? .comma then
      pass
      return a :: (← separated close item fuel)
    else return [a]

theorem items_eq_separated (deeper : Production → Parser Expr) (close : Symbol) (fuel : Nat) :
    items deeper close fuel = separated close (deeper .conditional) fuel := by
  induction fuel with
  | zero => rfl
  | succ fuel ih => rw [items, separated, ih]

theorem entries_eq_separated (deeper : Production → Parser Expr) (fuel : Nat) :
    entries deeper fuel = separated .braceClose (entry deeper) fuel := by
  induction fuel with
  | zero => rfl
  | succ fuel ih => rw [entries, separated, ih]

theorem entry_of_head? {deeper : Production → Parser Expr} {r : Reading} {l : Lexeme}
    (h : r.tokens.head? = some l) : entry deeper r = (match entryKey? l.token with
      | none => unexpected
      | some key => do
        pass
        if ← at? .colon then
          pass
          return (⟨key, false⟩, ← deeper .conditional)
        else match l.token with
          | .name s => return (⟨key, true⟩, ident s ⟨l.start, l.stop⟩)
          | _ => unexpected : Parser (EntryKey × Expr)) r := by
  rw [entry, next?_bind, h]
  rfl

end Expr

end FormulaSheet
