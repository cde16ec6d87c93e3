import FormulaSheet.Proofs.Expr.Offenses
import FormulaSheet.Proofs.Expr.Places
import FormulaSheet.Proofs.Expr.SourceOrder
import Mathlib.Data.List.Nodup

/-!
# What the check reports

`Offends` says of a node on its own whether it offends a policy, and with which report. The offenses
of an expression are the reports of its offending places, one for each, in the order of the places;
and if the expression was read from a text, this is the order of the text (`Expr.offenses_exact`).
-/

namespace FormulaSheet

namespace Expr

/-- A node offends a policy and is reported so. -/
inductive Offends (p : Policy) : Expr → Offense → Prop where
  | denied {name : String} {span : Span} (hdenied : p.isDenied name = true) :
      Offends p (ident name span) ⟨name, span.start⟩
  /-- No allowed function of a namespace. -/
  | method {space property : String} {place span : Span} (hspace : p.isSpace space = true)
      (hmethod : p.isAllowed space property = false) :
      Offends p (member (ident space place) property span) ⟨space ++ "." ++ property, span.start⟩
  /-- A property of any other name. A denied name is reported by itself. -/
  | property {name property : String} {place span : Span} (hspace : p.isSpace name = false)
      (hallowed : p.isDenied name = false) :
      Offends p (member (ident name place) property span) ⟨name ++ "." ++ property, span.start⟩
  /-- A property of something that is no name. -/
  | computed {target : Expr} {property : String} {span : Span} (htarget : target.ident? = none) :
      Offends p (member target property span) ⟨"(expr)." ++ property, span.start⟩

variable {p : Policy} {v : Expr} {o : Offense}

theorem offense_eq_some_iff : offense? p v = some o ↔ Offends p v o := by
  constructor
  · intro h
    cases v with
    | ident name span =>
      obtain ⟨hdenied, rfl⟩ := Option.ite_some_none_eq_some.mp h
      exact .denied hdenied
    | member target property span =>
      rw [offense?] at h
      cases target with
      | ident name place =>
        rw [memberOffense?] at h
        split_ifs at h with hspace hallowed hdenied
        · obtain rfl := Option.some.inj h
          exact .method hspace (Bool.eq_false_iff.mpr hallowed)
        · obtain rfl := Option.some.inj h
          exact .property (Bool.eq_false_iff.mpr hspace) (Bool.eq_false_iff.mpr hdenied)
      | _ =>
        obtain rfl := Option.some.inj h
        exact .computed rfl
    | _ => cases h
  · intro h
    cases h with
    | denied hdenied => rw [offense?, if_pos hdenied]
    | method hspace hmethod =>
      rw [offense?, memberOffense?, if_pos hspace, hmethod, if_neg Bool.false_ne_true]
    | property hspace hallowed =>
      rw [offense?, memberOffense?, hspace, hallowed, if_neg Bool.false_ne_true,
        if_neg Bool.false_ne_true]
    | @computed target property span htarget =>
      cases target with
      | ident name place => cases htarget
      | _ => rfl

/-- A report has the place where the node starts. -/
theorem Offends.start_eq (h : Offends p v o) : v.start? = some o.position := by
  cases h <;> rfl

/-- A name is reported as it stands. -/
theorem Offends.eq_of_ident {name : String} {span : Span} (h : Offends p (ident name span) o) :
    o = ⟨name, span.start⟩ := by
  cases h
  rfl

/-! ### One report for each offending place -/

theorem forall₂_filter_filterMap {α β : Type} (f : α → Option β) (xs : List α) :
    List.Forall₂ (fun a b => f a = some b) (xs.filter fun a => (f a).isSome) (xs.filterMap f) := by
  induction xs with
  | nil => exact List.Forall₂.nil
  | cons a xs ih =>
    cases ha : f a with
    | none => rwa [List.filterMap_cons_none ha, List.filter_cons_of_neg (by simp [ha])]
    | some b =>
      rw [List.filterMap_cons_some ha, List.filter_cons_of_pos (by simp [ha])]
      exact List.Forall₂.cons ha ih

theorem filterMap_sublist_filterMap {α β : Type} {f g : α → Option β}
    (h : ∀ a b, f a = some b → g a = some b) (xs : List α) :
    (xs.filterMap f).Sublist (xs.filterMap g) := by
  induction xs with
  | nil => exact List.Sublist.refl _
  | cons a xs ih =>
    cases hf : f a with
    | none =>
      rw [List.filterMap_cons_none hf]
      cases hg : g a with
      | none => rwa [List.filterMap_cons_none hg]
      | some b =>
        rw [List.filterMap_cons_some hg]
        exact ih.cons b
    | some b =>
      rw [List.filterMap_cons_some hf, List.filterMap_cons_some (h a b hf)]
      exact ih.cons_cons b

/-- The report of what stands at a place. -/
def offenseAt? (p : Policy) (e : Expr) (path : List Nat) : Option Offense :=
  (e.nodeAt? path).bind (offense? p)

/-- The places that offend a policy. -/
def offendingPlaces (p : Policy) (e : Expr) : List (List Nat) :=
  e.places.filter fun path => (offenseAt? p e path).isSome

theorem offenseAt_eq_some_iff {e : Expr} {path : List Nat} :
    offenseAt? p e path = some o ↔ ∃ v, e.nodeAt? path = some v ∧ Offends p v o := by
  rw [offenseAt?, Option.bind_eq_some_iff]
  exact exists_congr fun v => and_congr_right fun _ => offense_eq_some_iff

theorem offenses_eq_filterMap_places (p : Policy) (e : Expr) :
    e.offenses p = e.places.filterMap (offenseAt? p e) := by
  have hnodes : e.offenses p = (e.nodes.map some).filterMap fun v? => v?.bind (offense? p) := by
    rw [List.filterMap_map]
    rfl
  rw [hnodes, ← map_nodeAt_places, List.filterMap_map]
  rfl

theorem sorted_offendingPlaces (p : Policy) (e : Expr) : (offendingPlaces p e).Pairwise (· < ·) :=
  (sorted_places e).filter _

theorem mem_offendingPlaces_iff {e : Expr} {path : List Nat} :
    path ∈ offendingPlaces p e ↔ ∃ v o, e.nodeAt? path = some v ∧ Offends p v o := by
  rw [offendingPlaces, List.mem_filter, Option.isSome_iff_exists]
  constructor
  · rintro ⟨-, o, ho⟩
    obtain ⟨v, hat, hoffends⟩ := offenseAt_eq_some_iff.mp ho
    exact ⟨v, o, hat, hoffends⟩
  · rintro ⟨v, o, hat, hoffends⟩
    exact ⟨mem_places_iff.mpr ⟨v, hat⟩, o, offenseAt_eq_some_iff.mpr ⟨v, hat, hoffends⟩⟩

/-- The offenses are the reports of the offending places. -/
theorem forall₂_offendingPlaces (p : Policy) (e : Expr) :
    List.Forall₂ (fun path o => ∃ v, e.nodeAt? path = some v ∧ Offends p v o) (offendingPlaces p e)
      (e.offenses p) := by
  rw [offenses_eq_filterMap_places]
  exact (forall₂_filter_filterMap (offenseAt? p e) e.places).imp fun _ _ => offenseAt_eq_some_iff.mp

/-- A denied name is reported once, with its name and its start, at the place where it occurs. -/
theorem existsUnique_offense_of_denied {e : Expr} {path : List Nat} {name : String} {span : Span}
    (hat : e.nodeAt? path = some (ident name span)) (hdenied : p.isDenied name = true) :
    ∃! k : Nat, (offendingPlaces p e)[k]? = some path ∧
      (e.offenses p)[k]? = some ⟨name, span.start⟩ := by
  have hmem : path ∈ offendingPlaces p e := mem_offendingPlaces_iff.mpr ⟨_, _, hat, .denied hdenied⟩
  obtain ⟨k, hk, hpath⟩ := List.mem_iff_getElem.mp hmem
  have hreports := forall₂_offendingPlaces p e
  have hk' : k < (e.offenses p).length := hreports.length_eq ▸ hk
  refine ⟨k, ⟨by rw [List.getElem?_eq_getElem hk, hpath], ?_⟩, fun j hj => ?_⟩
  · obtain ⟨v, hv, hoffends⟩ := hreports.get hk hk'
    rw [List.get_eq_getElem, hpath, hat, Option.some.injEq] at hv
    subst hv
    rw [List.getElem?_eq_getElem hk']
    exact congrArg some hoffends.eq_of_ident
  · obtain ⟨hj, hjpath⟩ := List.getElem?_eq_some_iff.mp hj.1
    have hnodup : (offendingPlaces p e).Nodup := by
      refine (sorted_offendingPlaces p e).imp fun hlt heq => ?_
      subst heq
      exact List.lt_irrefl _ hlt
    exact hnodup.getElem_inj_iff.mp (hjpath.trans hpath.symm)

/-- An expression has no offenses where no name in it is denied and every property in it is an
allowed function of a namespace. -/
theorem offenses_eq_nil_iff_nodeAt {e : Expr} : e.offenses p = [] ↔
    (∀ path name span, e.nodeAt? path = some (ident name span) → p.isDenied name = false) ∧
      ∀ path target property span, e.nodeAt? path = some (member target property span) →
        ∃ space place, target = ident space place ∧ p.isSpace space = true ∧
          p.isAllowed space property = true := by
  rw [offenses_eq_nil_iff]
  constructor
  · rintro ⟨hnames, hmembers⟩
    refine ⟨fun path name span hat => ?_, fun path target property span hat => ?_⟩
    · exact hnames (name, span) (mem_identifiers.mpr (mem_nodes_iff.mpr ⟨path, hat⟩))
    · obtain ⟨space, place, rfl, hallowed⟩ :=
        hmembers target property span (mem_nodes_iff.mpr ⟨path, hat⟩)
      exact ⟨space, place, rfl, Policy.isSpace_of_isAllowed hallowed, hallowed⟩
  · rintro ⟨hnames, hmembers⟩
    refine ⟨fun q hq => ?_, fun target property span hmem => ?_⟩
    · obtain ⟨path, hat⟩ := mem_nodes_iff.mp (mem_identifiers.mp hq)
      exact hnames path q.1 q.2 hat
    · obtain ⟨path, hat⟩ := mem_nodes_iff.mp hmem
      obtain ⟨space, place, rfl, -, hallowed⟩ := hmembers path target property span hat
      exact ⟨space, place, rfl, hallowed⟩

/-- The offenses of an expression that was read from a text stand in the order of the text. -/
theorem sorted_offenses {e : Expr} {limit : Nat} {source : String}
    (h : parse limit source = .ok e) : ((e.offenses p).map Offense.position).Pairwise (· ≤ ·) := by
  have hsublist : ((e.offenses p).map Offense.position).Sublist e.starts := by
    rw [offenses, List.map_filterMap]
    refine filterMap_sublist_filterMap (fun v x hx => ?_) e.nodes
    obtain ⟨o, ho, rfl⟩ := Option.map_eq_some_iff.mp hx
    exact (offense_eq_some_iff.mp ho).start_eq
  exact (sorted_starts h).sublist hsublist

/-- **The check is exact on whole trees.** An expression has no offenses exactly if no name anywhere
in it is denied and every property is accessed on a name that is a namespace and allows it. The
offenses are the reports of the places that offend, one for each and in the order of the places; so
a denied name is reported once for each place where it occurs, with its name and its start. If the
expression was read from a text, the offenses stand in the order of the text. -/
theorem offenses_exact (p : Policy) (e : Expr) :
    (e.offenses p = [] ↔
      (∀ path name span, e.nodeAt? path = some (ident name span) → p.isDenied name = false) ∧
        ∀ path target property span, e.nodeAt? path = some (member target property span) →
          ∃ space place, target = ident space place ∧ p.isSpace space = true ∧
            p.isAllowed space property = true) ∧
    (∃ paths : List (List Nat), paths.Pairwise (· < ·) ∧
      (∀ path, path ∈ paths ↔ ∃ v o, e.nodeAt? path = some v ∧ Offends p v o) ∧
      List.Forall₂ (fun path o => ∃ v, e.nodeAt? path = some v ∧ Offends p v o) paths
        (e.offenses p) ∧
      ∀ path name span, e.nodeAt? path = some (ident name span) → p.isDenied name = true →
        ∃! k : Nat, paths[k]? = some path ∧ (e.offenses p)[k]? = some ⟨name, span.start⟩) ∧
    ∀ limit source, parse limit source = .ok e →
      ((e.offenses p).map Offense.position).Pairwise (· ≤ ·) := by
  refine ⟨offenses_eq_nil_iff_nodeAt, ⟨offendingPlaces p e, sorted_offendingPlaces p e, ?_, ?_, ?_⟩,
    ?_⟩
  · exact fun path => mem_offendingPlaces_iff
  · exact forall₂_offendingPlaces p e
  · exact fun path name span hat hdenied => existsUnique_offense_of_denied hat hdenied
  · exact fun limit source h => sorted_offenses h

/-- A callee, a shorthand entry, an index and an argument; a namespace that is denied is reported
for itself. -/
theorem offenses_exact_nested : ∃ e, parse 9 "eval({Math}[a.b.c(self)], Math.pow)" = .ok e ∧
    let p := Policy.default.deny "Math"
    e.offenses p = [⟨"eval", 0⟩, ⟨"Math", 6⟩, ⟨"(expr).c", 12⟩, ⟨"a.b", 12⟩, ⟨"self", 18⟩,
      ⟨"Math", 26⟩] ∧
      ((e.offenses p).map Offense.position).Pairwise (· ≤ ·) := by
  let source := "eval({Math}[a.b.c(self)], Math.pow)"
  have hoffenses :
      (parse 9 source).toOption.map (fun e => e.offenses (Policy.default.deny "Math")) =
      some [⟨"eval", 0⟩, ⟨"Math", 6⟩, ⟨"(expr).c", 12⟩, ⟨"a.b", 12⟩, ⟨"self", 18⟩,
        ⟨"Math", 26⟩] := by
    decide +kernel
  cases hparse : parse 9 source with
  | error fault =>
    rw [hparse] at hoffenses
    cases hoffenses
  | ok e =>
    rw [hparse] at hoffenses
    exact ⟨e, rfl, Option.some.inj hoffenses,
      (offenses_exact (Policy.default.deny "Math") e).2.2 9 source hparse⟩

end Expr

end FormulaSheet
