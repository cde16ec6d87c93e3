import FormulaSheet.Proofs.Expr.Parse

/-!
# Where faults are reported

The reader of expressions makes up no place of its own: a fault lies where a token starts, where the
text ends or where no token can be read. So what holds of all these places holds of the place of
every fault (`Expr.position_of_parse`).
-/

namespace FormulaSheet

/-- Every place at which the tokens can have a fault reported has a property. -/
def Tokens.Places (Q : Nat → Prop) : Tokens → Prop
  | next l rest => Q l.start ∧ rest.Places Q
  | finish position => Q position
  | broken e => Q e.position

namespace Expr

open FormulaSheet.Expr.Parser

variable {Q : Nat → Prop}

/-- Where the tokens have their places in `Q`, so has a fault, or else the tokens that are left; and
the result has the property `P`. -/
def Placed {α : Type} (Q : Nat → Prop) (P : α → Prop) (x : Parser α) : Prop :=
  ∀ r : Reading, r.tokens.Places Q → match x r with
    | .ok (a, r') => P a ∧ r'.tokens.Places Q
    | .error e => Q e.position

/-- Any result will do. -/
abbrev PlacedAll {α : Type} (Q : Nat → Prop) (x : Parser α) : Prop := Placed Q (fun _ => True) x

namespace Placed

variable {α β : Type} {P : α → Prop} {R : β → Prop} {x y : Parser α} {f : α → Parser β}

/-- A step that only looks at the tokens. -/
theorem look {g : Reading → α} (hx : ∀ r, x r = .ok (g r, r))
    (hg : ∀ r, r.tokens.Places Q → P (g r)) : Placed Q P x := by
  intro r hr
  rw [hx]
  exact ⟨hg r hr, hr⟩

theorem pure {a : α} (h : P a) : Placed Q P (Pure.pure a) := look (fun _ => rfl) fun _ _ => h

theorem bind (h : Placed Q P x) (hf : ∀ a, P a → Placed Q R (f a)) : Placed Q R (x >>= f) := by
  intro r hr
  have hresult := h r hr
  cases hx : x r with
  | error e =>
    rw [hx] at hresult
    rw [bind_of_error hx]
    exact hresult
  | ok found =>
    obtain ⟨a, r₁⟩ := found
    rw [hx] at hresult
    rw [bind_of_ok hx]
    exact hf a hresult.1 r₁ hresult.2

/-- What was found does not matter for the next step. -/
theorem andThen (h : Placed Q P x) (hf : ∀ a, Placed Q R (f a)) : Placed Q R (x >>= f) :=
  h.bind fun a _ => hf a

/-- A result that is made from what was found. -/
theorem map (h : Placed Q P x) (g : α → β) : PlacedAll Q (x >>= fun a => Pure.pure (g a)) :=
  h.andThen fun _ => pure trivial

theorem ite {c : Prop} [Decidable c] (h : Placed Q P x) (h' : Placed Q P y) :
    Placed Q P (if c then x else y) := by
  split
  · exact h
  · exact h'

end Placed

/-! ### Single steps -/

theorem failAt_placed {α : Type} {P : α → Prop} (fault : SyntaxFault) {place : Nat} (h : Q place) :
    Placed Q P (failAt fault place) := fun _ _ => h

theorem next?_placed : Placed Q (fun l? => ∀ l ∈ l?, Q l.start) next? := by
  apply Placed.look next?_run
  rintro ⟨ts, stop⟩ hr l hl
  obtain ⟨rest, hts⟩ := Tokens.exists_of_head? hl
  dsimp only at hts
  subst hts
  exact hr.1

theorem position_placed : Placed Q Q position := by
  rintro ⟨ts, stop⟩ hr
  cases ts with
  | next l rest => exact ⟨hr.1, hr⟩
  | finish place => exact ⟨hr, hr⟩
  | broken e => exact ⟨hr, hr⟩

theorem token?_placed : PlacedAll Q Parser.token? := Placed.look token?_run fun _ _ => trivial

theorem at?_placed (s : Symbol) : PlacedAll Q (at? s) := Placed.look (at?_run s) fun _ _ => trivial

theorem nextOp?_placed (op? : Symbol → Option BinaryOp) : PlacedAll Q (nextOp? op?) :=
  Placed.look (nextOp?_run op?) fun _ _ => trivial

theorem left_placed : PlacedAll Q left := Placed.look (fun _ => rfl) fun _ _ => trivial

theorem lastStop_placed : PlacedAll Q lastStop := Placed.look (fun _ => rfl) fun _ _ => trivial

theorem pass_placed : PlacedAll Q pass := by
  rintro ⟨ts, stop⟩ hr
  cases ts with
  | next l rest =>
    cases rest with
    | broken e => exact hr.2
    | next | finish => exact ⟨trivial, hr.2⟩
  | finish | broken => exact ⟨trivial, hr⟩

theorem unexpected_placed {α : Type} {P : α → Prop} : Placed Q P (unexpected : Parser α) := by
  apply next?_placed.bind
  intro l? hl
  cases l? with
  | none => exact position_placed.bind fun _ hplace => failAt_placed _ hplace
  | some l =>
    have hstart : Q l.start := hl l rfl
    dsimp only
    split
    · exact failAt_placed _ hstart
    · exact failAt_placed _ hstart

theorem expect_placed (s : Symbol) : PlacedAll Q (expect s) :=
  (at?_placed s).andThen fun _ => Placed.ite pass_placed unexpected_placed

/-! ### Levels -/

section Levels

variable {deeper : Production → Parser Expr} {operand : Parser Expr}

theorem separated_placed {α : Type} {item : Parser α} (close : Symbol) (h : PlacedAll Q item)
    (fuel : Nat) : PlacedAll Q (separated close item fuel) := by
  induction fuel with
  | zero => exact Placed.pure trivial
  | succ fuel ih =>
    exact (at?_placed close).andThen fun _ => Placed.ite (Placed.pure trivial) <| h.andThen fun _ =>
      (at?_placed .comma).andThen fun _ =>
        Placed.ite (pass_placed.andThen fun _ => ih.map _) (Placed.pure trivial)

theorem runRest_placed (op? : Symbol → Option BinaryOp) (h : PlacedAll Q operand) (fuel : Nat) :
    PlacedAll Q (runRest op? operand fuel) := by
  induction fuel with
  | zero => exact Placed.pure trivial
  | succ fuel ih =>
    apply (nextOp?_placed op?).andThen
    intro op
    cases op with
    | none => exact Placed.pure trivial
    | some op => exact pass_placed.andThen fun _ => h.andThen fun _ => ih.map _

theorem run_placed (op? : Symbol → Option BinaryOp) (h : PlacedAll Q operand) :
    PlacedAll Q (run op? operand) := by
  refine h.andThen fun first => left_placed.andThen fun fuel =>
    (runRest_placed op? h _).andThen fun rest => ?_
  cases rest <;> exact Placed.pure trivial

theorem logicalRest_placed (s : Symbol) (h : PlacedAll Q operand) (fuel : Nat) :
    PlacedAll Q (logicalRest s operand fuel) := by
  induction fuel with
  | zero => exact Placed.pure trivial
  | succ fuel ih =>
    exact (at?_placed s).andThen fun _ =>
      Placed.ite (pass_placed.andThen fun _ => h.andThen fun _ => ih.map _)
        (Placed.pure trivial)

theorem logicalRun_placed (s : Symbol) (op : LogicalOp) (h : PlacedAll Q operand) :
    PlacedAll Q (logicalRun s op operand) := by
  refine h.andThen fun first => left_placed.andThen fun fuel =>
    (logicalRest_placed s h _).andThen fun rest => ?_
  cases rest <;> exact Placed.pure trivial

variable (h : ∀ p, PlacedAll Q (deeper p))
include h

theorem list_placed (close : Symbol) : PlacedAll Q (list deeper close) := by
  apply left_placed.andThen
  intro fuel
  rw [items_eq_separated]
  exact (separated_placed close (h .conditional) _).andThen fun _ => (expect_placed close).map _

theorem entry_placed : PlacedAll Q (entry deeper) := by
  apply next?_placed.andThen
  intro l?
  cases l? with
  | none => exact unexpected_placed
  | some l =>
    dsimp only
    split
    · exact unexpected_placed
    · refine pass_placed.andThen fun _ => (at?_placed .colon).andThen fun _ => Placed.ite ?_ ?_
      · exact pass_placed.andThen fun _ => (h .conditional).map _
      · split
        · exact Placed.pure trivial
        · exact unexpected_placed

theorem primary_placed : PlacedAll Q (primary deeper) := by
  apply next?_placed.andThen
  intro l?
  cases l? with
  | none => exact unexpected_placed
  | some l =>
    dsimp only
    split
    case h_7 => exact pass_placed.andThen fun _ => (h .conditional).andThen fun _ =>
      (expect_placed _).map _
    case h_8 => exact pass_placed.andThen fun _ => (list_placed h .bracketClose).map _
    case h_9 =>
      refine pass_placed.andThen fun _ => left_placed.andThen fun fuel => ?_
      rw [entries_eq_separated]
      exact (separated_placed .braceClose (entry_placed h) _).andThen fun _ =>
        (expect_placed _).map _
    case h_10 => exact unexpected_placed
    all_goals exact pass_placed.map _

theorem chain_placed (start : Nat) (target : Expr) : PlacedAll Q (chain deeper start target) := by
  apply token?_placed.andThen
  intro t?
  split
  case h_4 => exact Placed.pure trivial
  all_goals exact h _

theorem link_placed (start : Nat) (target : Expr) : PlacedAll Q (link deeper start target) := by
  apply token?_placed.andThen
  intro t?
  split
  · refine pass_placed.andThen fun _ => token?_placed.andThen fun t? => ?_
    cases t?.bind propertyName? with
    | none => exact unexpected_placed
    | some property =>
      exact pass_placed.andThen fun _ => lastStop_placed.andThen fun _ => chain_placed h start _
  · exact pass_placed.andThen fun _ => (h .conditional).andThen fun _ =>
      (expect_placed _).andThen fun _ =>
      chain_placed h start _
  · exact pass_placed.andThen fun _ => (list_placed h .parenClose).andThen fun _ =>
      chain_placed h start _

theorem signed_placed : PlacedAll Q (signed deeper) := by
  apply token?_placed.andThen
  intro t?
  cases t?.bind unaryOp? with
  | none =>
    exact position_placed.andThen fun start => (primary_placed h).andThen fun _ =>
      chain_placed h start _
  | some op => exact pass_placed.andThen fun _ => (h .unary).map _

theorem power_placed : PlacedAll Q (power deeper) := by
  refine token?_placed.andThen fun t? => (signed_placed h).andThen fun base =>
    (at?_placed .starStar).andThen fun _ =>
    Placed.ite (Placed.ite ?_ ?_) (Placed.pure trivial)
  · exact position_placed.bind fun _ hplace => failAt_placed _ hplace
  · exact pass_placed.andThen fun _ => (h .power).map _

theorem choice_placed : PlacedAll Q (choice deeper) := by
  have hcoalescence : PlacedAll Q (coalescence deeper) :=
    logicalRun_placed _ _ <| logicalRun_placed _ _ <| logicalRun_placed _ _ <| run_placed _ <|
      run_placed _ <| run_placed _ <| run_placed _ <| power_placed h
  refine hcoalescence.andThen fun _ => (at?_placed .question).andThen fun _ =>
    Placed.ite ?_ (Placed.pure trivial)
  exact pass_placed.andThen fun _ => (h .conditional).andThen fun _ =>
    (expect_placed .colon).andThen fun _ =>
    (h .conditional).map _

omit h

theorem descend_placed (limit room : Nat) (p : Production) :
    PlacedAll Q (descend limit room p) := by
  induction room generalizing p with
  | zero => exact position_placed.bind fun _ hplace => failAt_placed _ hplace
  | succ room ih =>
    cases p with
    | conditional => exact choice_placed ih
    | power => exact power_placed ih
    | unary => exact signed_placed ih
    | link start target => exact link_placed ih start target

end Levels

/-- **A fault of a text is reported at a place that its tokens have.** -/
theorem position_of_parse {limit : Nat} {source : String} {e : SyntaxError}
    (hplaces : (Tokens.ofText source.toList).Places Q) (h : parse limit source = .error e) :
    Q e.position := by
  cases hblank : Text.allBlank source.toList with
  | true =>
    rw [parse_of_allBlank hblank] at h
    cases h
  | false =>
    rcases readable_or_broken (Tokens.ofText source.toList) with hread | ⟨fault, hbroken⟩
    · have hwhole : PlacedAll Q (whole limit) := by
        refine (descend_placed limit limit .conditional).andThen fun e =>
          next?_placed.andThen fun l? => ?_
        cases l? with
        | none => exact Placed.pure trivial
        | some l => exact unexpected_placed
      rw [parse_of_readable hblank hread] at h
      have hplaced := hwhole ⟨Tokens.ofText source.toList, 0⟩ hplaces
      cases hresult : whole limit ⟨Tokens.ofText source.toList, 0⟩ with
      | ok found =>
        rw [hresult] at h
        cases h
      | error fault =>
        rw [hresult] at h hplaced
        obtain rfl := Except.error.inj h
        exact hplaced
    · rw [parse_of_broken hblank hbroken] at h
      obtain rfl := Except.error.inj h
      rw [hbroken] at hplaces
      exact hplaces

end Expr

end FormulaSheet
