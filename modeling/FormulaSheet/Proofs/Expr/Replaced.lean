import FormulaSheet.Proofs.Expr.Phrase
import FormulaSheet.Proofs.Expr.Renamed

/-!
# What a renaming leaves as it is

The free names of an expression are names among the lexemes of its text, in source order
(`Expr.Phrase.marked`). A text in which they are replaced has each new spelling at the place where
the name was written, and is the same everywhere else (`Replaced`); it is parsed as the respelled
expression (`Expr.renameIn_exact`).
-/

namespace FormulaSheet

/-- The text `out` is the text `cs`, which begins at `offset`, with other texts in place
of some names. The names are written at their spans, in their order and apart from each
other. Each is replaced by its new spelling, which may stand behind the name and a colon;
what lies between is kept. -/
inductive Replaced (rename : String → Option String) :
    Nat → List Char → List (String × Span) → List Char → Prop
    where
  | rest {offset : Nat} {cs : List Char} : Replaced rename offset cs [] cs
  | name {offset : Nat} {kept cs out w : List Char} {n m : String} {names : List (String × Span)}
      (hn : rename n = some m) (hw : w = m.toList ∨ w = n.toList ++ [':', ' '] ++ m.toList)
      (hrest :
        Replaced rename (offset + Text.byteSize kept + Text.byteSize n.toList) cs names out) :
      Replaced rename offset (kept ++ n.toList ++ cs)
        ((n, ⟨offset + Text.byteSize kept, offset + Text.byteSize kept + Text.byteSize n.toList⟩) ::
          names)
        (kept ++ w ++ out)

theorem Replaced.keep {rename : String → Option String} {offset : Nat} {cs out : List Char}
    {names : List (String × Span)} (w : List Char)
    (h : Replaced rename (offset + Text.byteSize w) cs names out) :
    Replaced rename offset (w ++ cs) names (w ++ out) := by
  cases h with
  | rest => exact .rest
  | @name _ kept cs out new n m names hn hw hrest =>
    have hsize :
        offset + Text.byteSize w + Text.byteSize kept = offset + Text.byteSize (w ++ kept) := by
      rw [Text.byteSize_append, Nat.add_assoc]
    rw [hsize] at hrest ⊢
    rw [← List.append_assoc, ← List.append_assoc, ← List.append_assoc, ← List.append_assoc]
    exact .name hn hw hrest

namespace Expr

variable {rename : String → Option String}

/-! ### The nodes of a run -/

section Runs

variable {α : Type} {f : Expr → Option α}

theorem filterMap_nodes_mkRun (hf : ∀ first rest, f (binary first rest) = none) (e : Expr)
    (es : List (BinaryOp × Expr)) :
    (mkRun e es).nodes.filterMap f = e.nodes.filterMap f ++ es.flatMap fun p =>
      p.2.nodes.filterMap f := by
  cases es with
  | nil => rw [mkRun, List.flatMap_nil, List.append_nil]
  | cons p es =>
    rw [mkRun, filterMap_nodes, hf, children, List.flatMap_cons, List.flatMap_map]
    rfl

theorem filterMap_nodes_mkLogical (hf : ∀ op operands, f (logical op operands) = none)
    (op : LogicalOp) (e : Expr) (es : List Expr) : (mkLogical op e es).nodes.filterMap f =
      e.nodes.filterMap f ++ es.flatMap fun c => c.nodes.filterMap f := by
  cases es with
  | nil => rw [mkLogical, List.flatMap_nil, List.append_nil]
  | cons c es =>
    rw [mkLogical, filterMap_nodes, hf, children, List.flatMap_cons]
    rfl

end Runs

theorem identifiers_mkRun (e : Expr) (es : List (BinaryOp × Expr)) :
    (mkRun e es).identifiers = e.identifiers ++ es.flatMap fun p => p.2.identifiers :=
  filterMap_nodes_mkRun (fun _ _ => rfl) e es

theorem identifiers_mkLogical (op : LogicalOp) (e : Expr) (es : List Expr) :
    (mkLogical op e es).identifiers = e.identifiers ++ es.flatMap identifiers :=
  filterMap_nodes_mkLogical (fun _ _ => rfl) op e es

/-! ### Names among lexemes -/

/-- The names stand among the lexemes, in their order, and the edits are those of the names
that have a new spelling. -/
inductive Marked (rename : String → Option String) :
    List Lexeme → List (String × Span) → List Edit → Prop where
  | nil : Marked rename [] [] []
  | other {l : Lexeme} {ls : List Lexeme} {names : List (String × Span)} {es : List Edit}
      (hrest : Marked rename ls names es) : Marked rename (l :: ls) names es
  | kept {l : Lexeme} {s : String} {ls : List Lexeme} {names : List (String × Span)}
      {es : List Edit} (hname : l.token = .name s) (hs : rename s = none)
      (hrest : Marked rename ls names es) :
      Marked rename (l :: ls) ((s, ⟨l.start, l.stop⟩) :: names) es
  | edited {l : Lexeme} {s m : String} {w : List Char} {ls : List Lexeme}
      {names : List (String × Span)} {es : List Edit} (hname : l.token = .name s)
      (hs : rename s = some m) (hw : w = m.toList ∨ w = s.toList ++ [':', ' '] ++ m.toList)
      (hrest : Marked rename ls names es) :
      Marked rename (l :: ls) ((s, ⟨l.start, l.stop⟩) :: names) (⟨⟨l.start, l.stop⟩, w⟩ :: es)

namespace Marked

variable {ls ks : List Lexeme} {names names' : List (String × Span)} {es es' : List Edit}

theorem append (h : Marked rename ls names es) (h' : Marked rename ks names' es') :
    Marked rename (ls ++ ks) (names ++ names') (es ++ es') := by
  induction h with
  | nil => exact h'
  | other _ ih => exact ih.other
  | kept hname hs _ ih => exact ih.kept hname hs
  | edited hname hs hw _ ih => exact ih.edited hname hs hw

/-- Lexemes follow that are none of the names. -/
theorem before (h : Marked rename ls names es) (ks : List Lexeme) :
    Marked rename (ls ++ ks) names es := by
  have hothers : Marked rename ks [] [] := by
    induction ks with
    | nil => exact nil
    | cons k ks ih => exact ih.other
  rw [← List.append_nil names, ← List.append_nil es]
  exact h.append hothers

/-- Between two brackets. -/
theorem bracket (h : Marked rename ls names es) (opening closing : Lexeme) :
    Marked rename (opening :: ls ++ [closing]) names es :=
  (h.before [closing]).other

theorem exists_span (h : Marked rename ls names es) :
    ∀ e ∈ es, ∃ l ∈ ls, e.span = ⟨l.start, l.stop⟩ := by
  induction h with
  | nil =>
    intro e he
    cases he
  | other _ ih | kept _ _ _ ih =>
    intro e he
    obtain ⟨l, hl, hspan⟩ := ih e he
    exact ⟨l, List.mem_cons_of_mem _ hl, hspan⟩
  | edited _ _ _ _ ih =>
    intro e he
    rcases List.mem_cons.mp he with rfl | he
    · exact ⟨_, List.mem_cons_self, rfl⟩
    · obtain ⟨l, hl, hspan⟩ := ih e he
      exact ⟨l, List.mem_cons_of_mem _ hl, hspan⟩

end Marked

/-- A name as an expression of its own. -/
theorem marked_name {l : Lexeme} {s : String} (hl : l.token = .name s) :
    Marked rename [l] [(s, ⟨l.start, l.stop⟩)] (nameEdits rename s ⟨l.start, l.stop⟩) := by
  rw [nameEdits]
  cases hs : rename s with
  | none => exact Marked.nil.kept hl hs
  | some m => exact Marked.nil.edited hl hs (Or.inl rfl)

/-- A name as an entry of its own. -/
theorem marked_shorthand {l : Lexeme} {s : String} (hl : l.token = .name s) :
    Marked rename [l] [(s, ⟨l.start, l.stop⟩)] (shorthandEdits rename s s ⟨l.start, l.stop⟩) := by
  rw [shorthandEdits]
  cases hs : rename s with
  | none => exact Marked.nil.kept hl hs
  | some m => exact Marked.nil.edited hl hs (Or.inr rfl)

theorem marked_atom {l : Lexeme} {e : Expr} (h : IsAtom l e) :
    Marked rename [l] e.identifiers (e.edits rename) := by
  cases h with
  | reference htoken _ => exact marked_name htoken
  | number | text | trueWord | falseWord | nullWord => exact Marked.nil.other
  -- the names of constants are no free names
  | undefined | nan | infinity => exact Marked.nil.other

mutual
/-- **The free names of a phrase stand among its lexemes**, and the edits of the phrase are made at
them. -/
theorem Phrase.marked {level : Precedence} {ls : List Lexeme} {e : Expr} (h : Phrase level ls e) :
    Marked rename ls e.identifiers (e.edits rename) := by
  match h with
  | .test htest => exact htest.marked
  | .conditional htest hquestion hconsequent hcolon halternate =>
    rw [identifiers_conditional, edits]
    exact (htest.marked.append hconsequent.marked.other).append halternate.marked.other
  | .logical hfirst hrest =>
    rw [identifiers_mkLogical, edits_mkLogical]
    exact hfirst.marked.append hrest.marked
  | .run hfirst hrest =>
    rw [identifiers_mkRun, edits_mkRun]
    exact hfirst.marked.append hrest.marked
  | .signed hsigned => exact hsigned.marked
  | .power hbase hop hexponent =>
    rw [identifiers_binary, edits, runEdits_eq_flatMap, List.flatMap_singleton,
      List.flatMap_singleton]
    exact hbase.marked.append hexponent.marked.other
  | .unary hop hoperand =>
    rw [identifiers_unary, edits]
    exact hoperand.marked.other
  | .chained hchained => exact hchained.marked
  | .primary hprimary => exact hprimary.marked
  | .member htarget hdot hproperty =>
    rw [identifiers_member, edits]
    exact htarget.marked.before _
  | .index htarget hopen hkey hclose =>
    rw [identifiers_index, edits]
    exact htarget.marked.append (hkey.marked.bracket _ _)
  | .call hcallee hopen hargs hclose =>
    rw [identifiers_call, edits, listEdits_eq_flatMap]
    exact hcallee.marked.append ((items_marked hargs).bracket _ _)
  | .atom hatom => exact marked_atom hatom
  | .group hopen hinner hclose => exact hinner.marked.bracket _ _
  | .array hopen hitems hclose =>
    rw [identifiers_array, edits, listEdits_eq_flatMap]
    exact (items_marked hitems).bracket _ _
  | .object hopen hentries hclose =>
    rw [identifiers_object, edits, entryEdits_eq_flatMap]
    exact (entries_marked hentries).bracket _ _

theorem LogicalTail.marked {op : LogicalOp} {ks : List Lexeme} {es : List Expr}
    (h : LogicalTail op ks es) :
    Marked rename ks (es.flatMap identifiers) (es.flatMap (edits rename)) := by
  match h with
  | .nil => exact Marked.nil
  | .cons hsign hoperand hrest => exact (hoperand.marked.append hrest.marked).other

theorem RunTail.marked {tier : Tier} {ks : List Lexeme} {es : List (BinaryOp × Expr)}
    (h : RunTail tier ks es) :
    Marked rename ks (es.flatMap fun p => p.2.identifiers)
      (es.flatMap fun p => p.2.edits rename) := by
  match h with
  | .nil => exact Marked.nil
  | .cons hsymbol hop hoperand hrest => exact (hoperand.marked.append hrest.marked).other

theorem PhraseEntry.marked {ls : List Lexeme} {a : EntryKey × Expr} (h : PhraseEntry ls a) :
    Marked rename ls a.2.identifiers (entryEdit rename a) := by
  match h with
  | .keyed hkey hcolon hvalue => exact hvalue.marked.other.other
  | .shorthand hname => exact marked_shorthand hname

theorem items_marked {ks : List Lexeme} {es : List Expr}
    (h : Separated (Phrase .conditional) ks es) :
    Marked rename ks (es.flatMap identifiers) (es.flatMap (edits rename)) := by
  match h with
  | .nil => exact Marked.nil
  | .last hitem =>
    rw [List.flatMap_singleton, List.flatMap_singleton]
    exact hitem.marked
  | .cons hitem hcomma hrest =>
    rw [List.flatMap_cons, List.flatMap_cons]
    exact hitem.marked.append (items_marked hrest).other

theorem entries_marked {ks : List Lexeme} {as : List (EntryKey × Expr)}
    (h : Separated PhraseEntry ks as) :
    Marked rename ks (as.flatMap fun p => p.2.identifiers) (as.flatMap (entryEdit rename)) := by
  match h with
  | .nil => exact Marked.nil
  | .last hitem =>
    rw [List.flatMap_singleton, List.flatMap_singleton]
    exact hitem.marked
  | .cons hitem hcomma hrest =>
    rw [List.flatMap_cons, List.flatMap_cons]
    exact hitem.marked.append (entries_marked hrest).other
end

end Expr

/-! ### The text with the new spellings -/

open FormulaSheet.Expr in
/-- Edits at names of a text replace these names and nothing else. -/
theorem Lexed.replaced {rename : String → Option String} {cs : List Char} {offset stop : Nat}
    {ls : List Lexeme} {names : List (String × Span)} {es : List Edit} (h : Lexed cs offset ls stop)
    (hm : Marked rename ls names es) :
    Replaced rename offset cs (names.filter fun q => (rename q.1).isSome)
      (Expr.splice cs offset es) := by
  induction h generalizing names es with
  | finish =>
    cases hm
    exact .rest
  | @blank c cs offset stop ls hblank hrest ih =>
    have hsplice : Expr.splice (c :: cs) offset es = c :: Expr.splice cs (offset + c.utf8Size) es :=
      splice_append (w := [c]) (hrest.edit_bounds hm.exists_span)
    rw [hsplice]
    exact Replaced.keep [c] (ih hm)
  | @token c w rest offset stop token ls hblank hread hrest ih =>
    cases hm with
    | other hm =>
      rw [splice_append (hrest.edit_bounds hm.exists_span)]
      exact (ih hm).keep _
    | kept hname hs hm =>
      rw [splice_append (hrest.edit_bounds hm.exists_span), List.filter_cons_of_neg (by simp [hs])]
      exact (ih hm).keep _
    | @edited _ s m new _ names es hname hs hw hm =>
      dsimp only at hname
      subst hname
      obtain ⟨-, rest', hsplit, hlength, -⟩ := Token.exists_of_read_name hread
      obtain ⟨hcw, rfl⟩ := List.append_inj hsplit hlength
      rw [splice_edit, List.filter_cons_of_pos (by simp [hs]), hcw]
      have hrest := ih hm
      rw [hcw] at hrest
      exact @Replaced.name rename offset [] rest _ new s m _ hs hw hrest

namespace Expr

/-- **Renaming in a text is exact.** The text with the new spellings is parsed as the respelled
expression, with room for one more level of nesting, and outside the places of the names that have a
new spelling it is the text as it was. -/
theorem renameIn_exact (hrename : ∀ n m, rename n = some m → Token.isIdentifier m = true)
    {limit : Nat} {source : String} {e : Expr} (h : parse limit source = .ok e) :
    (∃ e', parse (limit + 1) (renameIn rename source e) = .ok e' ∧ Respells rename e e') ∧
      Replaced rename 0 source.toList (e.identifiers.filter fun q => (rename q.1).isSome)
        (renameIn rename source e).toList := by
  refine ⟨parse_renameIn hrename h, ?_⟩
  rw [renameIn, String.toList_ofList]
  rcases parse_eq_ok_iff.mp h with ⟨-, rfl⟩ | ⟨-, ls, stop, hlexed, hderives⟩
  · exact .rest
  · exact hlexed.replaced (phrase_iff_derives.mpr ⟨limit, hderives⟩).marked

/-- An entry of an object and a target are replaced; a property, a quoted text and a longer name are
kept. -/
theorem renameIn_entry_and_property : ∃ rename : String → Option String,
    (∀ n m, rename n = some m → Token.isIdentifier m = true) ∧
      ∃ e, parse 3 "[{x}, x.x, 'x', $x]" = .ok e ∧
        renameIn rename "[{x}, x.x, 'x', $x]" e = "[{x: y}, y.x, 'x', $x]" ∧
        (∃ e', parse 4 "[{x: y}, y.x, 'x', $x]" = .ok e' ∧ Respells rename e e') ∧
        Replaced rename 0 "[{x}, x.x, 'x', $x]".toList [("x", ⟨2, 3⟩), ("x", ⟨6, 7⟩)]
          "[{x: y}, y.x, 'x', $x]".toList := by
  let rename : String → Option String := fun n => if n = "x" then some "y" else none
  have hrename : ∀ n m, rename n = some m → Token.isIdentifier m = true := by
    intro n m hm
    obtain ⟨-, rfl⟩ := Option.ite_some_none_eq_some.mp hm
    decide
  have hread : (parse 3 "[{x}, x.x, 'x', $x]").toOption.map (fun e =>
      (renameIn rename "[{x}, x.x, 'x', $x]" e,
        e.identifiers.filter fun q => (rename q.1).isSome)) =
      some ("[{x: y}, y.x, 'x', $x]", [("x", ⟨2, 3⟩), ("x", ⟨6, 7⟩)]) := by decide +kernel
  cases hparse : parse 3 "[{x}, x.x, 'x', $x]" with
  | error fault =>
    rw [hparse] at hread
    cases hread
  | ok e =>
    rw [hparse] at hread
    obtain ⟨htext, hnames⟩ := Prod.mk.inj (Option.some.inj hread)
    have hexact := renameIn_exact hrename hparse
    rw [htext, hnames] at hexact
    exact ⟨rename, hrename, e, rfl, htext, hexact⟩

end Expr

end FormulaSheet
