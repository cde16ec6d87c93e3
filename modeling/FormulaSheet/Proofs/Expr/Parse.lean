import FormulaSheet.Proofs.Expr.Completeness
import FormulaSheet.Proofs.Expr.Soundness

/-!
# Parsing

A text is parsed as an expression exactly when its lexemes derive the expression
(`Expr.parse_eq_ok_iff`). A larger limit accepts more texts and reads those that a smaller
one accepts in the same way (`Expr.parse_of_le`): the only error that it can take away is
that the text nests too deeply.
-/

namespace FormulaSheet.Expr

open FormulaSheet.Expr.Parser

variable {limit : Nat} {source : String} {e : Expr}

/-- Reads an expression that takes all tokens. -/
def whole (limit : Nat) : Parser Expr := do
  let e ← descend limit limit .conditional
  match ← next? with
  | none => return e
  | some _ => unexpected

theorem parse_of_allBlank (hblank : Text.allBlank source.toList = true) :
    parse limit source = .ok empty := by
  unfold parse
  dsimp only
  rw [hblank]
  rfl

theorem parse_of_broken {fault : SyntaxError} (hblank : Text.allBlank source.toList = false)
    (hbroken : Tokens.ofText source.toList = .broken fault) :
    parse limit source = .error fault := by
  unfold parse
  dsimp only
  rw [hblank, hbroken]
  rfl

theorem parse_of_readable (hblank : Text.allBlank source.toList = false)
    (hread : (Tokens.ofText source.toList).Readable) :
    parse limit source = (whole limit ⟨Tokens.ofText source.toList, 0⟩).map Prod.fst := by
  unfold parse
  dsimp only
  rw [hblank]
  cases htokens : Tokens.ofText source.toList with
  | broken e => exact absurd htokens (hread e)
  | next | finish => rfl

theorem readable_or_broken (ts : Tokens) : ts.Readable ∨ ∃ fault, ts = .broken fault := by
  cases ts with
  | next l rest => exact Or.inl Tokens.readable_next
  | finish stop => exact Or.inl Tokens.readable_finish
  | broken fault => exact Or.inr ⟨fault, rfl⟩

theorem whole_eq_ok_iff {ts : Tokens} {stop : Nat} (hts : ts.Readable) :
    (∃ r', whole limit ⟨ts, stop⟩ = .ok (e, r')) ↔
      ∃ ls stop', ts = .prepend ls (.finish stop') ∧ Derives limit .conditional ls e := by
  constructor
  · rintro ⟨r', h⟩
    rw [whole, bind_eq_ok] at h
    obtain ⟨e', r₁, hdescend, h⟩ := h
    obtain ⟨ls, hls, hL, hread⟩ := (descend_sound limit limit).conditional _ e' r₁ hts hdescend
    rw [next?_bind] at h
    obtain ⟨ts₁, stop₁⟩ := r₁
    cases ts₁ with
    | next l rest => exact absurd h unexpected_ne_ok
    | broken e => exact absurd rfl (hread e)
    | finish stop' =>
      obtain ⟨rfl, -⟩ := pure_eq_ok.mp h
      exact ⟨ls, stop', hls, hL⟩
  · rintro ⟨ls, stop', rfl, hL⟩
    obtain ⟨stop₁, hread⟩ := (descend_complete limit limit).conditional ls e (.finish stop') stop hL
      Tokens.readable_finish fun s hs => by cases hs
    refine ⟨⟨.finish stop', stop₁⟩, ?_⟩
    rw [whole, bind_of_ok hread, next?_bind]
    rfl

/-- **A text is parsed as what its lexemes derive**, with room for `limit` levels of nesting. -/
theorem parse_eq_ok_iff : parse limit source = .ok e ↔
    (Text.allBlank source.toList = true ∧ e = empty) ∨
      Text.allBlank source.toList = false ∧
        ∃ ls stop, Lexed source.toList 0 ls stop ∧ Derives limit .conditional ls e := by
  cases hblank : Text.allBlank source.toList with
  | true =>
    rw [parse_of_allBlank hblank, Except.ok.injEq]
    simp [eq_comm]
  | false =>
    simp only [Bool.false_eq_true, false_and, false_or, true_and]
    rcases readable_or_broken (Tokens.ofText source.toList) with hread | ⟨fault, hbroken⟩
    · have hmap : parse limit source = .ok e ↔
          ∃ r', whole limit ⟨Tokens.ofText source.toList, 0⟩ = .ok (e, r') := by
        rw [parse_of_readable hblank hread]
        cases whole limit ⟨Tokens.ofText source.toList, 0⟩ with
        | error => simp [Except.map]
        | ok found => simp [Except.map, Prod.ext_iff]
      rw [hmap, whole_eq_ok_iff hread]
      simp only [Tokens.ofText, Tokens.scan_eq_iff]
    · rw [parse_of_broken hblank hbroken]
      constructor
      · intro h
        cases h
      · rintro ⟨ls, stop, hlexed, -⟩
        rw [← Tokens.scan_eq_iff] at hlexed
        rw [Tokens.ofText, hlexed] at hbroken
        cases ls <;> cases hbroken

/-! ### Larger limits -/

/-- Both do the same, unless `x` stops because the text nests too deeply. -/
def Within {α : Type} (limit : Nat) (x y : Parser α) : Prop :=
  ∀ r, x r = y r ∨ ∃ place, x r = .error ⟨.tooDeep limit, place⟩

namespace Within

variable {α β : Type} {x y : Parser α} {f g : α → Parser β}

theorem refl (x : Parser α) : Within limit x x := fun _ => Or.inl rfl

theorem bind (h : Within limit x y) (hf : ∀ a, Within limit (f a) (g a)) :
    Within limit (x >>= f) (y >>= g) := by
  intro r
  rcases h r with h | ⟨place, h⟩
  · cases hy : y r with
    | error e =>
      rw [hy] at h
      exact Or.inl (by rw [bind_of_error h, bind_of_error hy])
    | ok found =>
      obtain ⟨a, r₁⟩ := found
      rw [hy] at h
      rw [bind_of_ok h, bind_of_ok hy]
      exact hf a r₁
  · exact Or.inr ⟨place, bind_of_error h⟩

/-- After the same step. -/
theorem after (x : Parser α) (hf : ∀ a, Within limit (f a) (g a)) :
    Within limit (x >>= f) (x >>= g) := (refl x).bind hf

/-- Before the same step. -/
theorem before (h : Within limit x y) (f : α → Parser β) : Within limit (x >>= f) (y >>= f) :=
  h.bind fun a => refl (f a)

variable {c : Prop} [Decidable c]

theorem ite {x' y' : Parser α} (h : Within limit x y) (h' : Within limit x' y') :
    Within limit (if c then x else x') (if c then y else y') := by
  split
  · exact h
  · exact h'

end Within

section Levels

variable {deeper deeper' : Production → Parser Expr} {operand operand' : Parser Expr}

theorem separated_within {α : Type} {item item' : Parser α} (close : Symbol)
    (h : Within limit item item') (fuel : Nat) :
    Within limit (separated close item fuel) (separated close item' fuel) := by
  induction fuel with
  | zero => exact Within.refl _
  | succ fuel ih =>
    exact Within.after _ fun _ => Within.ite (Within.refl _) <| h.bind fun _ =>
      Within.after _ fun _ =>
      Within.ite (Within.after _ fun _ => ih.before _) (Within.refl _)

theorem runRest_within (op? : Symbol → Option BinaryOp) (h : Within limit operand operand')
    (fuel : Nat) : Within limit (runRest op? operand fuel) (runRest op? operand' fuel) := by
  induction fuel with
  | zero => exact Within.refl _
  | succ fuel ih =>
    refine Within.after _ fun op => ?_
    cases op with
    | none => exact Within.refl _
    | some op => exact Within.after _ fun _ => h.bind fun _ => ih.before _

theorem run_within (op? : Symbol → Option BinaryOp) (h : Within limit operand operand') :
    Within limit (run op? operand) (run op? operand') :=
  h.bind fun _ => Within.after _ fun _ => (runRest_within op? h _).before _

theorem logicalRest_within (s : Symbol) (h : Within limit operand operand') (fuel : Nat) :
    Within limit (logicalRest s operand fuel) (logicalRest s operand' fuel) := by
  induction fuel with
  | zero => exact Within.refl _
  | succ fuel ih =>
    exact Within.after _ fun _ => Within.ite (Within.after _ fun _ => h.bind fun _ => ih.before _)
      (Within.refl _)

theorem logicalRun_within (s : Symbol) (op : LogicalOp) (h : Within limit operand operand') :
    Within limit (logicalRun s op operand) (logicalRun s op operand') :=
  h.bind fun _ => Within.after _ fun _ => (logicalRest_within s h _).before _

variable (h : ∀ p, Within limit (deeper p) (deeper' p))
include h

theorem list_within (close : Symbol) : Within limit (list deeper close) (list deeper' close) := by
  refine Within.after _ fun fuel => ?_
  rw [items_eq_separated, items_eq_separated]
  exact (separated_within close (h .conditional) _).before _

theorem entry_within : Within limit (entry deeper) (entry deeper') := by
  intro r
  cases hhead : r.tokens.head? with
  | none =>
    rw [entry, next?_bind, entry, next?_bind, hhead]
    exact Or.inl rfl
  | some l =>
    rw [entry_of_head? hhead, entry_of_head? hhead]
    cases entryKey? l.token with
    | none => exact Or.inl rfl
    | some key =>
      refine Within.after pass (fun _ => Within.after _ fun _ => ?_) r
      exact Within.ite (Within.after _ fun _ => (h .conditional).before _) (Within.refl _)

theorem primary_within : Within limit (primary deeper) (primary deeper') := by
  refine Within.after _ fun l? => ?_
  cases l? with
  | none => exact Within.refl _
  | some l =>
    dsimp only
    split
    case h_7 => exact Within.after _ fun _ => (h .conditional).before _
    case h_8 => exact Within.after _ fun _ => (list_within h .bracketClose).before _
    case h_9 =>
      refine Within.after _ fun _ => Within.after _ fun fuel => ?_
      rw [entries_eq_separated, entries_eq_separated]
      exact (separated_within .braceClose (entry_within h) _).before _
    all_goals exact Within.refl _

theorem chain_within (start : Nat) (target : Expr) :
    Within limit (chain deeper start target) (chain deeper' start target) := by
  refine Within.after _ fun t? => ?_
  split
  case h_4 => exact Within.refl _
  all_goals exact h _

theorem link_within (start : Nat) (target : Expr) :
    Within limit (link deeper start target) (link deeper' start target) := by
  refine Within.after _ fun t? => ?_
  split
  · refine Within.after _ fun _ => Within.after _ fun t? => ?_
    cases t?.bind propertyName? with
    | none => exact Within.refl _
    | some property =>
      exact Within.after _ fun _ => Within.after _ fun _ => chain_within h start _
  · exact Within.after _ fun _ => (h .conditional).bind fun _ => Within.after _ fun _ =>
      chain_within h start _
  · exact Within.after _ fun _ => (list_within h .parenClose).bind fun _ => chain_within h start _

theorem signed_within : Within limit (signed deeper) (signed deeper') := by
  refine Within.after _ fun t? => ?_
  cases t?.bind unaryOp? with
  | none => exact Within.after _ fun _ => (primary_within h).bind fun _ => chain_within h _ _
  | some op => exact Within.after _ fun _ => (h .unary).before _

theorem power_within : Within limit (power deeper) (power deeper') :=
  Within.after _ fun _ => (signed_within h).bind fun _ => Within.after _ fun _ => Within.ite
    (Within.ite (Within.refl _) (Within.after _ fun _ => (h .power).before _)) (Within.refl _)

theorem choice_within : Within limit (choice deeper) (choice deeper') := by
  have hcoalescence : Within limit (coalescence deeper) (coalescence deeper') :=
    logicalRun_within _ _ <| logicalRun_within _ _ <| logicalRun_within _ _ <| run_within _ <|
      run_within _ <| run_within _ <| run_within _ <| power_within h
  exact hcoalescence.bind fun _ => Within.after _ fun _ => Within.ite
    (Within.after _ fun _ => (h .conditional).bind fun _ => Within.after _ fun _ =>
      (h .conditional).before _) (Within.refl _)

omit h

theorem descend_within (limit : Nat) {limit' room room' : Nat} (hle : room ≤ room')
    (p : Production) : Within limit (descend limit room p) (descend limit' room' p) := by
  induction room generalizing room' p with
  | zero =>
    intro r
    obtain ⟨place, hplace⟩ := exists_position r
    refine Or.inr ⟨place, ?_⟩
    rw [descend, bind_of_ok hplace]
    rfl
  | succ room ih =>
    obtain _ | room' := room'
    · cases hle
    have hdeeper : ∀ p, Within limit (descend limit room p) (descend limit' room' p) :=
      ih (Nat.le_of_succ_le_succ hle)
    cases p with
    | conditional => exact choice_within hdeeper
    | power => exact power_within hdeeper
    | unary => exact signed_within hdeeper
    | link start target => exact link_within hdeeper start target

end Levels

/-- **A limit only refuses texts**: a larger one reads every text in the same way as a smaller one
that does not find it nested too deeply. -/
theorem parse_of_le {limit limit' : Nat} (hle : limit ≤ limit') (source : String) :
    parse limit source = parse limit' source ∨
      ∃ place, parse limit source = .error ⟨.tooDeep limit, place⟩ := by
  have hwhole : Within limit (whole limit) (whole limit') :=
    (descend_within limit hle .conditional).before _
  cases hblank : Text.allBlank source.toList with
  | true => exact Or.inl (by rw [parse_of_allBlank hblank, parse_of_allBlank hblank])
  | false =>
    rcases readable_or_broken (Tokens.ofText source.toList) with hread | ⟨fault, hbroken⟩
    · rw [parse_of_readable hblank hread, parse_of_readable hblank hread]
      rcases hwhole ⟨Tokens.ofText source.toList, 0⟩ with h | ⟨place, h⟩
      · exact Or.inl (by rw [h])
      · exact Or.inr ⟨place, by rw [h]; rfl⟩
    · exact Or.inl (by rw [parse_of_broken hblank hbroken, parse_of_broken hblank hbroken])

end FormulaSheet.Expr
