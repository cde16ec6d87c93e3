import FormulaSheet.Engine
import FormulaSheet.Proofs.Expr.Needs
import FormulaSheet.Proofs.Expr.Parse

/-!
# What limits do

A text that is read, checked and evaluated within some limits comes to the same value or error
within larger ones (`Engine.run_of_le`): a limit refuses, and does nothing else. No node of an
expression is visited twice, so limits that have room for the nodes and for the height of an
expression do not refuse it (`Engine.limits_only_refuse`).
-/

namespace FormulaSheet

namespace Expr

variable {registry : Registry} {limits limits' : Limits} {scope : Scope}

/-- An evaluation that some limits do not end comes to the same result within larger ones. -/
theorem eval_of_le (hdepth : limits.maxDepth ≤ limits'.maxDepth)
    (hsteps : limits.maxSteps ≤ limits'.maxSteps) (e : Expr) :
    e.eval registry limits scope = e.eval registry limits' scope ∨
      ∃ error, limits.Refuses error ∧ e.eval registry limits scope = .error error := by
  obtain ⟨result, visits, levels, hneeds, -⟩ := bounded_evalAt registry scope e
  by_cases hroom : visits ≤ limits.maxSteps ∧ levels ≤ limits.maxDepth
  · left
    rw [eval_of_enough hneeds hroom.1 hroom.2, eval_of_enough hneeds (by omega) (by omega)]
  · exact Or.inr (eval_of_lacking hneeds hroom)

theorem visits_le {e : Expr} {v : Value} {visits : Nat}
    (h : e.evalAt ⟨registry, limits, scope⟩ 0 0 = .ok (v, visits)) : visits ≤ e.nodes.length := by
  obtain ⟨result, visits', levels, hneeds, hvisits, -⟩ := bounded_evalAt registry scope e
  by_cases hroom : visits' ≤ limits.maxSteps ∧ levels ≤ limits.maxDepth
  · have hok : e.evalAt ⟨registry, limits, scope⟩ 0 0 = result.map fun v => (v, 0 + visits') :=
      hneeds.enough (by omega) (by omega)
    rw [h] at hok
    cases result with
    | error error => cases hok
    | ok w =>
      cases hok
      omega
  · have hlacks : limits.maxSteps < 0 + visits' ∨ limits.maxDepth < 0 + levels := by omega
    obtain ⟨error, -, herror⟩ := hneeds.lacking (Nat.zero_le _) (Nat.zero_le _) hlacks
    rw [h] at herror
    cases herror

/-- Limits with room for all nodes and for the height of an expression do not end its evaluation. -/
theorem raises_of_room {e : Expr} (hnodes : e.nodes.length ≤ limits.maxSteps)
    (hheight : e.height ≤ limits.maxDepth) {error : FormulaError}
    (h : e.eval registry limits scope = .error error) : registry.Raises error := by
  obtain ⟨result, visits, levels, hneeds, hvisits, hlevels, hraises⟩ :=
    bounded_evalAt registry scope e
  rw [eval_of_enough hneeds (hvisits.trans hnodes) (hlevels.trans hheight)] at h
  exact hraises error h

end Expr

namespace Engine

variable {policy : Policy} {registry : Registry} {limits limits' : Limits} {scope : Scope}

/-- What is read is refused for its offenses, or evaluated. -/
theorem run_of_parse {source : String} {e : Expr} (h : Expr.parse limits.maxDepth source = .ok e) :
    Engine.run ⟨policy, registry, limits⟩ scope source =
      match (Compiled.mk e (e.offenses policy)).disallowed? with
      | some error => .error error
      | none => e.eval registry limits scope := by
  simp only [run, compile, h]
  rfl

theorem run_of_malformed {source : String} {fault : SyntaxError}
    (h : Expr.parse limits.maxDepth source = .error fault) :
    Engine.run ⟨policy, registry, limits⟩ scope source = .error (.malformed fault) := by
  simp only [run, compile, h]
  rfl

/-- A text comes to the same result within larger limits, unless it nests too deeply or a
limit ends its evaluation. -/
theorem run_of_le (hdepth : limits.maxDepth ≤ limits'.maxDepth)
    (hsteps : limits.maxSteps ≤ limits'.maxSteps) (source : String) :
    Engine.run ⟨policy, registry, limits⟩ scope source =
      Engine.run ⟨policy, registry, limits'⟩ scope source ∨
      (∃ place, Engine.run ⟨policy, registry, limits⟩ scope source =
        .error (.malformed ⟨.tooDeep limits.maxDepth, place⟩)) ∨
      ∃ error, limits.Refuses error ∧ Engine.run ⟨policy, registry, limits⟩ scope source =
        .error error := by
  rcases Expr.parse_of_le hdepth source with hparse | ⟨place, hparse⟩
  · cases hresult : Expr.parse limits'.maxDepth source with
    | error fault =>
      left
      rw [run_of_malformed (hparse.trans hresult), run_of_malformed hresult]
    | ok e =>
      rw [run_of_parse (hparse.trans hresult), run_of_parse hresult]
      cases (Compiled.mk e (e.offenses policy)).disallowed? with
      | some error => exact Or.inl rfl
      | none =>
        rcases Expr.eval_of_le hdepth hsteps e with heval | hrefused
        · exact Or.inl heval
        · exact Or.inr (Or.inr hrefused)
  · exact Or.inr (Or.inl ⟨place, run_of_malformed hparse⟩)

/-- The builtin functions have no limits of their own. -/
theorem not_answers_builtins (ambient : Builtin.Ambient) {error : FormulaError}
    (h : limits.Refuses error) : ¬ (Registry.builtins ambient).Answers error := by
  rintro ⟨space, name, f, args, hget, hrun⟩
  obtain ⟨message, rfl⟩ := Registry.refuses_builtins hget args error hrun
  cases h

/-- **Limits only refuse.** A text that some limits let pass comes to the same value or error within
larger ones. An evaluation visits no more nodes than there are, and limits with room for them and
for the height of the expression do not end it: then the error of a limit can only be the answer of
a function, and no builtin function answers one. -/
theorem limits_only_refuse (policy : Policy) (registry : Registry) (scope : Scope)
    (limits : Limits) :
    (∀ (limits' : Limits) source, limits.maxDepth ≤ limits'.maxDepth →
      limits.maxSteps ≤ limits'.maxSteps →
      Engine.run ⟨policy, registry, limits⟩ scope source =
        Engine.run ⟨policy, registry, limits'⟩ scope source ∨
        (∃ place, Engine.run ⟨policy, registry, limits⟩ scope source =
          .error (.malformed ⟨.tooDeep limits.maxDepth, place⟩)) ∨
        ∃ error, limits.Refuses error ∧ Engine.run ⟨policy, registry, limits⟩ scope source =
          .error error) ∧
    ∀ e : Expr,
      (∀ v visits, e.evalAt ⟨registry, limits, scope⟩ 0 0 = .ok (v, visits) →
        visits ≤ e.nodes.length) ∧
      (e.nodes.length ≤ limits.maxSteps → e.height ≤ limits.maxDepth → ∀ (other : Limits) error,
        other.Refuses error →
        (e.eval registry limits scope = .error error → registry.Answers error) ∧
        ∀ ambient, e.eval (Registry.builtins ambient) limits scope ≠ .error error) := by
  refine ⟨fun limits' source hdepth hsteps => run_of_le hdepth hsteps source, fun e => ⟨?_, ?_⟩⟩
  · intro v visits h
    exact Expr.visits_le h
  · intro hnodes hheight other error hrefuses
    have hanswers : ∀ registry : Registry, e.eval registry limits scope = .error error →
        registry.Answers error := by
      intro registry h
      rcases Expr.raises_of_room hnodes hheight h with hnone | hanswers
      · exact absurd hrefuses (hnone other)
      · exact hanswers
    exact ⟨hanswers registry, fun ambient h => not_answers_builtins ambient hrefuses (hanswers _ h)⟩

/-- Limits with room for the four nodes of a choice and its two levels, although only one of
its branches is visited. -/
theorem limits_only_refuse_choice :
    ∃ e, Expr.parse 2 "a ? 'x' : b" = .ok e ∧ e.nodes.length ≤ 4 ∧ e.height ≤ 2 ∧
    (∃ v, Engine.run ⟨.default, Registry.builtins ⟨0, 0⟩, ⟨2, 4⟩⟩ [("a", .boolean true)]
        "a ? 'x' : b" = .ok v ∧
      Engine.run ⟨.default, Registry.builtins ⟨0, 0⟩, .default⟩ [("a", .boolean true)]
        "a ? 'x' : b" = .ok v) ∧
    e.eval (Registry.builtins ⟨0, 0⟩) ⟨2, 4⟩ [("a", .boolean true)] ≠
      .error (.stepBudgetExceeded 4) := by
  obtain ⟨hlarger, hroom⟩ :=
    limits_only_refuse .default (Registry.builtins ⟨0, 0⟩) [("a", .boolean true)] ⟨2, 4⟩
  have hsize : (Expr.parse 2 "a ? 'x' : b").toOption.map (fun e => (e.nodes.length, e.height)) =
      some (4, 2) := by
    decide +kernel
  have hrun : (Engine.run ⟨.default, Registry.builtins ⟨0, 0⟩, ⟨2, 4⟩⟩ [("a", .boolean true)]
      "a ? 'x' : b").toOption.isSome = true := by decide +kernel
  have hlarger := hlarger .default "a ? 'x' : b" (by decide) (by decide)
  cases hparse : Expr.parse 2 "a ? 'x' : b" with
  | error fault =>
    rw [hparse] at hsize
    cases hsize
  | ok e =>
    rw [hparse] at hsize
    obtain ⟨hnodes, hheight⟩ := Prod.mk.inj (Option.some.inj hsize)
    have henough := (hroom e).2 (Nat.le_of_eq hnodes) (Nat.le_of_eq hheight) ⟨2, 4⟩ _ .steps
    refine ⟨e, rfl, Nat.le_of_eq hnodes, Nat.le_of_eq hheight, ?_, henough.2 ⟨0, 0⟩⟩
    cases hresult :
        Engine.run ⟨.default, Registry.builtins ⟨0, 0⟩, ⟨2, 4⟩⟩ [("a", .boolean true)]
          "a ? 'x' : b" with
    | error error =>
      rw [hresult] at hrun
      cases hrun
    | ok v =>
      rw [hresult] at hlarger
      rcases hlarger with hsame | ⟨place, hdeep⟩ | ⟨error, -, herror⟩
      · exact ⟨v, rfl, hsame.symm⟩
      · cases hdeep
      · cases herror

end Engine

end FormulaSheet
