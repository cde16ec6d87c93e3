import FormulaSheet.Proofs.Expr.Replaced

/-!
# Source order

The names and the accesses to properties of an expression that was read from a text start at
lexemes of the text, and the nodes of the expression meet these lexemes from left to right
(`Expr.Phrase.along`). An access starts where its object does, so several nodes in a row can
start at the same lexeme.
-/

namespace FormulaSheet

theorem Lexed.pairwise_start {cs : List Char} {offset stop : Nat} {ls : List Lexeme}
    (h : Lexed cs offset ls stop) : ls.Pairwise (·.start < ·.start) := by
  induction h with
  | finish => exact List.Pairwise.nil
  | blank _ _ ih => exact ih
  | @token c w rest offset stop token ls _ _ hrest ih =>
    refine List.pairwise_cons.mpr ⟨fun l hl => ?_, ih⟩
    have hbound := (hrest.bounds l hl).1
    have hpos := c.utf8Size_pos
    rw [Text.byteSize_cons] at hbound
    dsimp only
    omega

namespace Expr

/-- Where a name or an access to a property starts. -/
def start? : Expr → Option Nat
  | ident _ span => some span.start
  | member _ _ span => some span.start
  | _ => none

/-- Where the names and the accesses of an expression start, in the order of the nodes. -/
def starts (e : Expr) : List Nat := e.nodes.filterMap start?

theorem starts_of_start_eq_none {e : Expr} (h : e.start? = none) :
    e.starts = e.children.flatMap starts := by
  rw [starts, filterMap_nodes, h]
  rfl

theorem starts_member (target : Expr) (property : String) (span : Span) :
    (member target property span).starts = span.start :: target.starts := by
  rw [starts, filterMap_nodes, children, List.flatMap_singleton]
  rfl

theorem starts_mkRun (e : Expr) (es : List (BinaryOp × Expr)) :
    (mkRun e es).starts = e.starts ++ es.flatMap fun p => p.2.starts :=
  filterMap_nodes_mkRun (fun _ _ => rfl) e es

theorem starts_mkLogical (op : LogicalOp) (e : Expr) (es : List Expr) :
    (mkLogical op e es).starts = e.starts ++ es.flatMap starts :=
  filterMap_nodes_mkLogical (fun _ _ => rfl) op e es

/-! ### Starts along lexemes -/

/-- The numbers are starts of lexemes, in the order of the lexemes. A start can come several
times. -/
inductive Along : List Lexeme → List Nat → Prop where
  | nil : Along [] []
  | pass {l : Lexeme} {ls : List Lexeme} {xs : List Nat} (hrest : Along ls xs) : Along (l :: ls) xs
  | mark {l : Lexeme} {ls : List Lexeme} {xs : List Nat} (hrest : Along (l :: ls) xs) :
      Along (l :: ls) (l.start :: xs)

namespace Along

variable {ls ks : List Lexeme} {xs ys : List Nat}

theorem unmarked (ls : List Lexeme) : Along ls [] := by
  induction ls with
  | nil => exact nil
  | cons l ls ih => exact ih.pass

theorem append (h : Along ls xs) (h' : Along ks ys) : Along (ls ++ ks) (xs ++ ys) := by
  induction h with
  | nil => exact h'
  | pass _ ih => exact ih.pass
  | mark _ ih => exact ih.mark

theorem before (h : Along ls xs) (ks : List Lexeme) : Along (ls ++ ks) xs := by
  rw [← List.append_nil xs]
  exact h.append (unmarked ks)

/-- Between two brackets. -/
theorem bracket (h : Along ls xs) (opening closing : Lexeme) :
    Along (opening :: ls ++ [closing]) xs :=
  (h.before [closing]).pass

theorem exists_lexeme (h : Along ls xs) : ∀ x ∈ xs, ∃ l ∈ ls, l.start = x := by
  induction h with
  | nil =>
    intro x hx
    cases hx
  | pass _ ih =>
    intro x hx
    obtain ⟨l, hl, hstart⟩ := ih x hx
    exact ⟨l, List.mem_cons_of_mem _ hl, hstart⟩
  | mark _ ih =>
    intro x hx
    rcases List.mem_cons.mp hx with rfl | hx
    · exact ⟨_, List.mem_cons_self, rfl⟩
    · exact ih x hx

/-- Along lexemes that start one after the other, the numbers never go down. -/
theorem sorted (h : Along ls xs) (hls : ls.Pairwise (·.start < ·.start)) : xs.Pairwise (· ≤ ·) := by
  induction h with
  | nil => exact List.Pairwise.nil
  | pass _ ih => exact ih hls.of_cons
  | mark hrest ih =>
    refine List.pairwise_cons.mpr ⟨fun x hx => ?_, ih hls⟩
    obtain ⟨l', hl', rfl⟩ := hrest.exists_lexeme x hx
    rcases List.mem_cons.mp hl' with rfl | hl'
    · exact Nat.le_refl _
    · exact Nat.le_of_lt ((List.pairwise_cons.mp hls).1 l' hl')

end Along

/-! ### Phrases -/

theorem along_name (l : Lexeme) (s : String) : Along [l] (ident s ⟨l.start, l.stop⟩).starts :=
  (Along.unmarked [l]).mark

theorem along_atom {l : Lexeme} {e : Expr} (h : IsAtom l e) : Along [l] e.starts := by
  cases h with
  | @reference s _ _ => exact along_name l s
  | number | text | trueWord | falseWord | nullWord | undefined | nan
  | infinity => exact Along.unmarked [l]

mutual
/-- **The nodes of a phrase start along its lexemes.** -/
theorem Phrase.along {level : Precedence} {ls : List Lexeme} {e : Expr} (h : Phrase level ls e) :
    Along ls e.starts := by
  match h with
  | .test htest => exact htest.along
  | .conditional htest hquestion hconsequent hcolon halternate =>
    rw [starts_of_start_eq_none rfl, children, List.flatMap_cons, List.flatMap_cons,
      List.flatMap_singleton, ← List.append_assoc]
    exact (htest.along.append hconsequent.along.pass).append halternate.along.pass
  | .logical hfirst hrest =>
    rw [starts_mkLogical]
    exact hfirst.along.append hrest.along
  | .run hfirst hrest =>
    rw [starts_mkRun]
    exact hfirst.along.append hrest.along
  | .signed hsigned => exact hsigned.along
  | .power hbase hop hexponent =>
    rw [starts_of_start_eq_none rfl, children, List.flatMap_cons, List.map_singleton,
      List.flatMap_singleton]
    exact hbase.along.append hexponent.along.pass
  | .unary hop hoperand =>
    rw [starts_of_start_eq_none rfl, children, List.flatMap_singleton]
    exact hoperand.along.pass
  | .chained hchained => exact hchained.along
  | .primary hprimary => exact hprimary.along
  | .member htarget hdot hproperty =>
    -- the access starts at the first lexeme of its object
    rw [starts_member]
    exact htarget.along.mark.before _
  | .index htarget hopen hkey hclose =>
    rw [starts_of_start_eq_none rfl, children, List.flatMap_cons, List.flatMap_singleton]
    exact htarget.along.append (hkey.along.bracket _ _)
  | .call hcallee hopen hargs hclose =>
    rw [starts_of_start_eq_none rfl, children, List.flatMap_cons]
    exact hcallee.along.append ((items_along hargs).bracket _ _)
  | .atom hatom => exact along_atom hatom
  | .group hopen hinner hclose => exact hinner.along.bracket _ _
  | .array hopen hitems hclose =>
    rw [starts_of_start_eq_none rfl, children]
    exact (items_along hitems).bracket _ _
  | .object hopen hentries hclose =>
    rw [starts_of_start_eq_none rfl, children, List.flatMap_map]
    exact (entries_along hentries).bracket _ _

theorem LogicalTail.along {op : LogicalOp} {ks : List Lexeme} {es : List Expr}
    (h : LogicalTail op ks es) : Along ks (es.flatMap starts) := by
  match h with
  | .nil => exact Along.nil
  | .cons hsign hoperand hrest => exact (hoperand.along.append hrest.along).pass

theorem RunTail.along {tier : Tier} {ks : List Lexeme} {es : List (BinaryOp × Expr)}
    (h : RunTail tier ks es) : Along ks (es.flatMap fun p => p.2.starts) := by
  match h with
  | .nil => exact Along.nil
  | .cons hsymbol hop hoperand hrest => exact (hoperand.along.append hrest.along).pass

theorem PhraseEntry.along {ls : List Lexeme} {a : EntryKey × Expr} (h : PhraseEntry ls a) :
    Along ls a.2.starts := by
  match h with
  | .keyed hkey hcolon hvalue => exact hvalue.along.pass.pass
  | .shorthand hname => exact along_name _ _

theorem items_along {ks : List Lexeme} {es : List Expr}
    (h : Separated (Phrase .conditional) ks es) : Along ks (es.flatMap starts) := by
  match h with
  | .nil => exact Along.nil
  | .last hitem =>
    rw [List.flatMap_singleton]
    exact hitem.along
  | .cons hitem hcomma hrest =>
    rw [List.flatMap_cons]
    exact hitem.along.append (items_along hrest).pass

theorem entries_along {ks : List Lexeme} {as : List (EntryKey × Expr)}
    (h : Separated PhraseEntry ks as) : Along ks (as.flatMap fun p => p.2.starts) := by
  match h with
  | .nil => exact Along.nil
  | .last hitem =>
    rw [List.flatMap_singleton]
    exact hitem.along
  | .cons hitem hcomma hrest =>
    rw [List.flatMap_cons]
    exact hitem.along.append (entries_along hrest).pass
end

/-- The nodes of an expression that was read from a text start in source order. -/
theorem sorted_starts {limit : Nat} {source : String} {e : Expr} (h : parse limit source = .ok e) :
    e.starts.Pairwise (· ≤ ·) := by
  rcases parse_eq_ok_iff.mp h with ⟨-, rfl⟩ | ⟨-, ls, stop, hlexed, hderives⟩
  · exact List.Pairwise.nil
  · exact (phrase_iff_derives.mpr ⟨limit, hderives⟩).along.sorted hlexed.pairwise_start

end Expr

end FormulaSheet
