import FormulaSheet.Expr.Safety
import FormulaSheet.Proofs.Expr.Respell

/-!
# Expressions without offenses

An expression has no offenses exactly if none of its free names is denied and all properties that it
accesses are allowed functions of namespaces (`Expr.offenses_eq_nil_iff`). It still has none with
other names exactly if none of the new spellings is denied and the functions are allowed under the
new spelling of their namespace (`Expr.Respells.offenses_eq_nil_iff`).
-/

namespace FormulaSheet

theorem Policy.isSpace_of_isAllowed {p : Policy} {name property : String}
    (h : p.isAllowed name property = true) : p.isSpace name = true := by
  rw [isAllowed] at h
  rw [isSpace, Fields.contains]
  cases hget : Fields.get? p.spaces name with
  | none =>
    rw [hget] at h
    cases h
  | some methods => rfl

namespace Expr

variable {p : Policy} {e e' : Expr} {rename : String → Option String}

/-- The name and the property of an access to a property of a name. -/
def access? : Expr → Option (String × String)
  | member (ident name _) property _ => some (name, property)
  | _ => none

/-- The properties of names that an expression accesses, in source order. -/
def accesses (e : Expr) : List (String × String) := e.nodes.filterMap access?

theorem mem_accesses {q : String × String} :
    q ∈ e.accesses ↔ ∃ place span, member (ident q.1 place) q.2 span ∈ e.nodes := by
  rw [accesses, List.mem_filterMap]
  constructor
  · rintro ⟨v, hv, hq⟩
    unfold access? at hq
    split at hq
    · rename_i name place property span
      obtain rfl := Option.some.inj hq
      exact ⟨place, span, hv⟩
    · cases hq
  · rintro ⟨place, span, hmem⟩
    exact ⟨_, hmem, rfl⟩

/-- An expression has no offenses where it names nothing that is denied, and accesses allowed
functions only. A denied object of an access is found by its name. -/
theorem offenses_eq_nil_iff : e.offenses p = [] ↔
    (∀ q ∈ e.identifiers, p.isDenied q.1 = false) ∧
      ∀ target property span, member target property span ∈ e.nodes →
        ∃ name place, target = ident name place ∧ p.isAllowed name property = true := by
  rw [offenses, List.filterMap_eq_nil_iff]
  constructor
  · intro h
    have hnames : ∀ q ∈ e.identifiers, p.isDenied q.1 = false := by
      rintro ⟨name, span⟩ hq
      have hnone := h _ (mem_identifiers.mp hq)
      simpa [offense?] using hnone
    refine ⟨hnames, fun target property span hmem => ?_⟩
    have hnone := h _ hmem
    have htarget : target ∈ e.nodes := by
      apply nodes_subset hmem
      rw [nodes_eq]
      exact List.mem_cons_of_mem _
        (List.mem_flatMap.mpr ⟨target, List.mem_singleton_self _, self_mem_nodes _⟩)
    cases target with
    | ident name place =>
      have hdenied := hnames (name, place) (mem_identifiers.mpr htarget)
      rw [offense?, memberOffense?, hdenied, if_neg Bool.false_ne_true] at hnone
      split_ifs at hnone with hspace hallowed
      exact ⟨name, place, rfl, hallowed⟩
    | _ => cases hnone
  · rintro ⟨hnames, hmembers⟩ v hv
    cases v with
    | ident name span =>
      rw [offense?, hnames (name, span) (mem_identifiers.mpr hv)]
      rfl
    | member target property span =>
      obtain ⟨name, place, rfl, hallowed⟩ := hmembers target property span hv
      rw [offense?, memberOffense?, if_pos (Policy.isSpace_of_isAllowed hallowed), if_pos hallowed]
    | _ => rfl

theorem respell_eq_ident {name : String} {span : Span} (h : e.respell rename = ident name span) :
    ∃ old place, e = ident old place ∧ newName rename old = name := by
  cases e <;> simp_all [respell]

theorem respell_eq_member {target : Expr} {property : String} {span : Span}
    (h : e.respell rename = member target property span) :
    ∃ old place, e = member old property place ∧ old.respell rename = target := by
  cases e <;> simp_all [respell]

/-- An expression without offenses stays so exactly if its new names are not denied, and what it
accesses is allowed under the new name. -/
theorem Respells.offenses_eq_nil_iff (h : Respells rename e e') (he : e.offenses p = []) :
    e'.offenses p = [] ↔ (∀ q ∈ e.identifiers, p.isDenied (newName rename q.1) = false) ∧
      ∀ q ∈ e.accesses, p.isAllowed (newName rename q.1) q.2 = true := by
  rw [Expr.offenses_eq_nil_iff]
  have hnames : (∀ q ∈ e'.identifiers, p.isDenied q.1 = false) ↔
      ∀ q ∈ e.identifiers, p.isDenied (newName rename q.1) = false := by
    have hnew : (∀ n ∈ e'.identifiers.map Prod.fst, p.isDenied n = false) ↔
        ∀ n ∈ (e.identifiers.map Prod.fst).map (newName rename), p.isDenied n = false := by
      rw [h.map_identifiers]
    rw [List.forall_mem_map, List.forall_mem_map, List.forall_mem_map] at hnew
    exact hnew
  rw [hnames, and_congr_right_iff]
  intro _
  constructor
  · intro hmembers q hq
    obtain ⟨place, span, hmem⟩ := mem_accesses.mp hq
    have hrespelled := List.mem_map_of_mem (f := respell rename) hmem
    rw [← h.map_nodes] at hrespelled
    obtain ⟨v, hv, hbare⟩ := List.mem_map.mp hrespelled
    obtain ⟨target, span', rfl, htarget⟩ := respell_eq_member hbare
    obtain ⟨name', place', rfl, hallowed⟩ := hmembers target q.2 span' hv
    obtain ⟨rfl, -⟩ := ident.inj htarget
    exact hallowed
  · intro haccesses target property span hmem
    have hbare := List.mem_map_of_mem (f := bare) hmem
    rw [h.map_nodes] at hbare
    obtain ⟨v, hv, hrespell⟩ := List.mem_map.mp hbare
    obtain ⟨old, place, rfl, hold⟩ := respell_eq_member hrespell
    obtain ⟨name, place', rfl, -⟩ := (Expr.offenses_eq_nil_iff.mp he).2 old property place hv
    obtain ⟨name', span', rfl, hname'⟩ := respell_eq_ident hold.symm
    obtain ⟨rfl, -⟩ := ident.inj hold
    exact ⟨_, span', rfl, haccesses (name, property) (mem_accesses.mpr ⟨place', place, hv⟩)⟩

end Expr

end FormulaSheet
