import FormulaSheet.Proofs.Expr.Replaced

/-!
# Where accesses to properties are written

Every access to a property in a parsed expression is written as its object with a point and the name
of the property behind it, and its span goes from the first lexeme of the object, which can be a
parenthesis, to the name (`Expr.Phrase.members`).
-/

namespace FormulaSheet.Expr

/-- An access to a property: the object, the property and the span. -/
def member? : Expr → Option (Expr × String × Span)
  | member target property span => some (target, property, span)
  | _ => none

/-- The accesses to properties in an expression, in the order of its nodes. -/
def members (e : Expr) : List (Expr × String × Span) := e.nodes.filterMap member?

theorem mem_members {e target : Expr} {property : String} {span : Span} :
    (target, property, span) ∈ e.members ↔ member target property span ∈ e.nodes := by
  rw [members, List.mem_filterMap]
  constructor
  · rintro ⟨v, hv, h⟩
    cases v with
    | member target' property' span' =>
      obtain ⟨rfl, rfl, rfl⟩ : target' = target ∧ property' = property ∧ span' = span := by
        simpa [member?] using h
      exact hv
    | _ => cases h
  · exact fun h => ⟨_, h, rfl⟩

theorem members_of_member?_eq_none {e : Expr} (h : e.member? = none) :
    e.members = e.children.flatMap members := by
  rw [members, filterMap_nodes, h]
  rfl

theorem members_member (target : Expr) (property : String) (span : Span) :
    (member target property span).members = (target, property, span) :: target.members := by
  rw [members, filterMap_nodes, children, List.flatMap_singleton]
  rfl

theorem members_mkRun (e : Expr) (es : List (BinaryOp × Expr)) :
    (mkRun e es).members = e.members ++ es.flatMap fun p => p.2.members :=
  filterMap_nodes_mkRun (fun _ _ => rfl) e es

theorem members_mkLogical (op : LogicalOp) (e : Expr) (es : List Expr) :
    (mkLogical op e es).members = e.members ++ es.flatMap members :=
  filterMap_nodes_mkLogical (fun _ _ => rfl) op e es

/-! ### Accesses among lexemes -/

/-- The lexemes are an access: those of the object, the point and the name of the property. The
access goes from the first one to the last one. -/
inductive IsMember : List Lexeme → Expr × String × Span → Prop where
  | mk {l dot name : Lexeme} {ls : List Lexeme} {target : Expr} {property : String}
      (htarget : Phrase .chained (l :: ls) target) (hdot : dot.token = .symbol .dot)
      (hproperty : IsPropertyName name.token property) :
      IsMember (l :: ls ++ [dot, name]) (target, property, ⟨l.start, name.stop⟩)

/-- Each access is a part of the lexemes. -/
def HasMembers (ls : List Lexeme) (as : List (Expr × String × Span)) : Prop :=
  ∀ a ∈ as, ∃ before part behind, ls = before ++ part ++ behind ∧ IsMember part a

namespace HasMembers

variable {ls ks : List Lexeme} {as bs : List (Expr × String × Span)}

theorem nil (ls : List Lexeme) : HasMembers ls [] := fun _ h => nomatch h

theorem within (h : HasMembers ls as) (before behind : List Lexeme) :
    HasMembers (before ++ ls ++ behind) as := by
  intro a ha
  obtain ⟨before', part, behind', rfl, hpart⟩ := h a ha
  refine ⟨before ++ before', part, behind' ++ behind, ?_, hpart⟩
  simp only [List.append_assoc]

theorem before (h : HasMembers ls as) (ks : List Lexeme) : HasMembers (ls ++ ks) as :=
  h.within [] ks

theorem pass (h : HasMembers ls as) (l : Lexeme) : HasMembers (l :: ls) as := by
  have hwithin := h.within [l] []
  rw [List.append_nil] at hwithin
  exact hwithin

theorem append (h : HasMembers ls as) (h' : HasMembers ks bs) :
    HasMembers (ls ++ ks) (as ++ bs) := by
  intro a ha
  rcases List.mem_append.mp ha with ha | ha
  · exact h.before ks a ha
  · have hwithin := h'.within ls []
    rw [List.append_nil] at hwithin
    exact hwithin a ha

/-- Between two brackets. -/
theorem bracket (h : HasMembers ls as) (opening closing : Lexeme) :
    HasMembers (opening :: ls ++ [closing]) as := (h.pass opening).before [closing]

end HasMembers

theorem atom_members {l : Lexeme} {e : Expr} (h : IsAtom l e) : HasMembers [l] e.members := by
  have hnone : e.members = [] := by cases h <;> rfl
  rw [hnone]
  exact HasMembers.nil [l]

mutual
/-- **The accesses of a phrase are parts of it.** -/
theorem Phrase.members {level : Precedence} {ls : List Lexeme} {e : Expr} (h : Phrase level ls e) :
    HasMembers ls e.members := by
  match h with
  | .test htest => exact htest.members
  | .conditional htest hquestion hconsequent hcolon halternate =>
    rw [members_of_member?_eq_none rfl, children, List.flatMap_cons, List.flatMap_cons,
      List.flatMap_singleton, ← List.append_assoc]
    exact (htest.members.append (hconsequent.members.pass _)).append (halternate.members.pass _)
  | .logical hfirst hrest =>
    rw [members_mkLogical]
    exact hfirst.members.append hrest.members
  | .run hfirst hrest =>
    rw [members_mkRun]
    exact hfirst.members.append hrest.members
  | .signed hsigned => exact hsigned.members
  | .power hbase hop hexponent =>
    rw [members_of_member?_eq_none rfl, children, List.flatMap_cons, List.map_singleton,
      List.flatMap_singleton]
    exact hbase.members.append (hexponent.members.pass _)
  | .unary hop hoperand =>
    rw [members_of_member?_eq_none rfl, children, List.flatMap_singleton]
    exact hoperand.members.pass _
  | .chained hchained => exact hchained.members
  | .primary hprimary => exact hprimary.members
  | .member htarget hdot hproperty =>
    rw [members_member]
    intro a ha
    rcases List.mem_cons.mp ha with rfl | ha
    · exact ⟨[], _, [], (List.append_nil _).symm, .mk htarget hdot hproperty⟩
    · exact htarget.members.before _ a ha
  | .index htarget hopen hkey hclose =>
    rw [members_of_member?_eq_none rfl, children, List.flatMap_cons, List.flatMap_singleton]
    exact htarget.members.append (hkey.members.bracket _ _)
  | .call hcallee hopen hargs hclose =>
    rw [members_of_member?_eq_none rfl, children, List.flatMap_cons]
    exact hcallee.members.append ((items_members hargs).bracket _ _)
  | .atom hatom => exact atom_members hatom
  | .group hopen hinner hclose => exact hinner.members.bracket _ _
  | .array hopen hitems hclose =>
    rw [members_of_member?_eq_none rfl, children]
    exact (items_members hitems).bracket _ _
  | .object hopen hentries hclose =>
    rw [members_of_member?_eq_none rfl, children, List.flatMap_map]
    exact (entries_members hentries).bracket _ _

theorem LogicalTail.members {op : LogicalOp} {ks : List Lexeme} {es : List Expr}
    (h : LogicalTail op ks es) : HasMembers ks (es.flatMap Expr.members) := by
  match h with
  | .nil => exact HasMembers.nil _
  | .cons hsign hoperand hrest => exact (hoperand.members.append hrest.members).pass _

theorem RunTail.members {tier : Tier} {ks : List Lexeme} {es : List (BinaryOp × Expr)}
    (h : RunTail tier ks es) : HasMembers ks (es.flatMap fun p => p.2.members) := by
  match h with
  | .nil => exact HasMembers.nil _
  | .cons hsymbol hop hoperand hrest => exact (hoperand.members.append hrest.members).pass _

theorem PhraseEntry.members {ls : List Lexeme} {a : EntryKey × Expr} (h : PhraseEntry ls a) :
    HasMembers ls a.2.members := by
  match h with
  | .keyed hkey hcolon hvalue => exact (hvalue.members.pass _).pass _
  | .shorthand hname => exact HasMembers.nil _

theorem items_members {ks : List Lexeme} {es : List Expr}
    (h : Separated (Phrase .conditional) ks es) : HasMembers ks (es.flatMap Expr.members) := by
  match h with
  | .nil => exact HasMembers.nil _
  | .last hitem =>
    rw [List.flatMap_singleton]
    exact hitem.members
  | .cons hitem hcomma hrest =>
    rw [List.flatMap_cons]
    exact hitem.members.append ((items_members hrest).pass _)

theorem entries_members {ks : List Lexeme} {as : List (EntryKey × Expr)}
    (h : Separated PhraseEntry ks as) : HasMembers ks (as.flatMap fun p => p.2.members) := by
  match h with
  | .nil => exact HasMembers.nil _
  | .last hitem =>
    rw [List.flatMap_singleton]
    exact hitem.members
  | .cons hitem hcomma hrest =>
    rw [List.flatMap_cons]
    exact hitem.members.append ((entries_members hrest).pass _)
end

end FormulaSheet.Expr
