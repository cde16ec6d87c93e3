import FormulaSheet.Proofs.Json.Quoted

/-!
# Items and members between brackets

The lines between two brackets are read one by one (`Json.gives_bracketed`): the items of a list,
and the members of an object, each with its name in front.
-/

namespace FormulaSheet.Json

open Read

variable {α β γ : Type} {item : Read α} {text : List Char} {o : Option α} {first : Bool}
    {indent : String}

theorem gives_itemFollows_end {w : List Char} (hw : Blank w) (rest : List Char) :
    Gives (itemFollows first) (w ++ ']' :: rest) (some (false, ']' :: rest)) :=
  (gives_nextSolid hw rfl rest).bind (gives_pure false _)

theorem gives_itemFollows_first {w : List Char} {c : Char} (hw : Blank w) (hc : isBlank c = false)
    (hclose : c ≠ ']') (rest : List Char) :
    Gives (itemFollows true) (w ++ c :: rest) (some (true, c :: rest)) := by
  apply (gives_nextSolid hw hc rest).bind
  split
  · rename_i heq
    cases heq
  · rename_i heq
    exact absurd (Option.some.inj heq) hclose
  · exact Gives.ite_pos rfl (gives_pure true _)

theorem gives_itemFollows_next {w : List Char} {c : Char} (hw : Blank w) (hc : isBlank c = false)
    (hclose : c ≠ ']') (rest : List Char) :
    Gives (itemFollows false) (',' :: (w ++ c :: rest)) (some (true, c :: rest)) := by
  have hcomma :
      Gives nextSolid? (',' :: (w ++ c :: rest)) (some (some ',', ',' :: (w ++ c :: rest))) :=
    gives_nextSolid Blank.nil rfl _
  apply hcomma.bind
  apply Gives.ite_neg Bool.false_ne_true
  apply Gives.ite_pos rfl
  apply (gives_pass ',' _).bind
  apply (gives_nextSolid hw hc rest).bind
  split
  · rename_i heq
    cases heq
  · rename_i heq
    exact absurd (Option.some.inj heq) hclose
  · exact gives_pure true _

theorem nextEnds_listItem (item : Read α) : NextEnds (listItem item) ']' := by
  intro first w rest hw
  exact (gives_itemFollows_end hw rest).bind (gives_pure none _)

theorem nextReads_listItem (hsolid : Solid text) (h : ReadsAs item text o) :
    NextReads (listItem item) text o := by
  obtain ⟨c, t, rfl, hblank, hclose⟩ := hsolid
  have hitem : ∀ rest, Ends rest →
      Gives (some <$> item) (c :: t ++ rest) (o.map fun a => (some a, rest)) := by
    intro rest hrest
    have hmap := (h [] rest Blank.nil hrest).map some
    rw [Option.map_map] at hmap
    exact hmap
  constructor
  · intro w rest hw hrest
    exact (gives_itemFollows_first hw hblank hclose (t ++ rest)).bind (hitem rest hrest)
  · intro w rest hw hrest
    exact (gives_itemFollows_next hw hblank hclose (t ++ rest)).bind (hitem rest hrest)

theorem gives_nameFollows_end {w : List Char} (hw : Blank w) (rest : List Char) :
    Gives (nameFollows first) (w ++ '\x7d' :: rest) (some (false, '\x7d' :: rest)) :=
  (gives_nextSolid hw rfl rest).bind (gives_pure false _)

theorem gives_nameFollows_first {w : List Char} (hw : Blank w) (rest : List Char) :
    Gives (nameFollows true) (w ++ '"' :: rest) (some (true, '"' :: rest)) :=
  (gives_nextSolid hw rfl rest).bind (gives_pure true _)

theorem gives_nameFollows_next {w : List Char} (hw : Blank w) (rest : List Char) :
    Gives (nameFollows false) (',' :: (w ++ '"' :: rest)) (some (true, '"' :: rest)) := by
  have hcomma :
      Gives nextSolid? (',' :: (w ++ '"' :: rest)) (some (some ',', ',' :: (w ++ '"' :: rest))) :=
    gives_nextSolid Blank.nil rfl _
  apply hcomma.bind
  apply (gives_pass ',' _).bind
  exact (gives_nextSolid hw rfl rest).bind (gives_pure true _)

theorem gives_colon (rest : List Char) : Gives colon (':' :: rest) (some ((), rest)) := by
  have hcolon : Gives nextSolid? (':' :: rest) (some (some ':', ':' :: rest)) :=
    gives_nextSolid Blank.nil rfl rest
  exact hcolon.bind (gives_pass ':' rest)

theorem nextEnds_objectMember (item : Read α) : NextEnds (objectMember item) '\x7d' := by
  intro first w rest hw
  exact (gives_nameFollows_end hw rest).bind (gives_pure none _)

/-- A member as it is written, the name and the value on one line. -/
def memberText (name : String) (text : List Char) : List Char :=
  (quoted name).toList ++ ':' :: ' ' :: text

theorem memberText_append (name : String) (text rest : List Char) :
    memberText name text ++ rest = (quoted name).toList ++ ':' :: ([' '] ++ (text ++ rest)) := by
  simp [memberText]

/-- The opening quote of a name is no blank. -/
theorem exists_memberText_append (name : String) (text rest : List Char) :
    ∃ t, memberText name text ++ rest = '"' :: t := by
  rw [memberText_append, toList_quoted]
  exact ⟨_, rfl⟩

theorem nextReads_objectMember (name : String) (h : ReadsAs item text o) :
    NextReads (objectMember item) (memberText name text) (o.map (name, ·)) := by
  have hmember : ∀ rest, Ends rest →
      Gives (do let name ← quotedText; colon; let a ← item; pure (some (name, a)))
        (memberText name text ++ rest) ((o.map (name, ·)).map fun a => (some a, rest)) := by
    intro rest hrest
    rw [memberText_append]
    apply (gives_quotedText name _).bind
    apply (gives_colon _).bind
    have hitem := (h [' '] rest Blank.space hrest).map fun a => some (name, a)
    rw [Option.map_map] at hitem ⊢
    rw [map_eq_pure_bind] at hitem
    exact hitem
  constructor
  · intro w rest hw hrest
    obtain ⟨t, ht⟩ := exists_memberText_append name text rest
    have hread := hmember rest hrest
    rw [ht] at hread ⊢
    exact (gives_nameFollows_first hw t).bind hread
  · intro w rest hw hrest
    obtain ⟨t, ht⟩ := exists_memberText_append name text rest
    have hread := hmember rest hrest
    rw [ht] at hread ⊢
    exact (gives_nameFollows_next hw t).bind hread

/-! ### The lines of a list -/

theorem toList_lineBreak (indent : String) (level : Nat) :
    (lineBreak indent level).toList =
      '\n' :: (List.replicate level indent).flatMap String.toList := by
  simp [lineBreak]

theorem blank_lineBreak (hindent : Blank indent.toList) (level : Nat) :
    Blank (lineBreak indent level).toList := by
  rw [toList_lineBreak]
  intro c hc
  rcases List.mem_cons.mp hc with rfl | hc
  · rfl
  · obtain ⟨s, hs, hcs⟩ := List.mem_flatMap.mp hc
    rw [List.eq_of_mem_replicate hs] at hcs
    exact hindent c hcs

theorem ends_lineBreak (indent : String) (level : Nat) (rest : List Char) :
    Ends ((lineBreak indent level).toList ++ rest) := by
  rw [toList_lineBreak]
  exact Ends.cons (Or.inr (Or.inl rfl)) _

theorem intercalate_cons (sep t : List Char) (ts : List (List Char)) :
    sep.intercalate (t :: ts) = t ++ ts.flatMap (sep ++ ·) := by
  induction ts generalizing t with
  | nil => simp
  | cons u ts ih => simp [List.intercalate_cons_cons, ih]

theorem bracketed_nil (level : Nat) (opening closing : String) :
    bracketed indent level opening closing [] = opening ++ closing := rfl

theorem toList_bracketed_cons {level : Nat} {opening closing : String} {close : Char}
    (hclose : closing.toList = [close]) (f : β → String) (x : β) (xs : List β) (rest : List Char) :
    (bracketed indent level opening closing ((x :: xs).map f)).toList ++ rest =
      opening.toList ++ ((lineBreak indent (level + 1)).toList ++ ((f x).toList ++
        tailText (fun y => (f y).toList)
          (lineBreak indent (level + 1)).toList (lineBreak indent level).toList
          close xs rest)) := by
  simp only [bracketed, List.map_cons, List.isEmpty_cons, Bool.false_eq_true, if_false,
    String.toList_append, String.toList_intercalate, intercalate_cons, hclose, tailText]
  simp [List.flatMap_map]

/-- What is written between brackets begins with the opening one. -/
theorem exists_toList_bracketed (indent : String) (level : Nat) {opening : String} {openChar : Char}
    (hopen : opening.toList = [openChar]) (closing : String) (lines : List String) :
    ∃ t, (bracketed indent level opening closing lines).toList = openChar :: t := by
  unfold bracketed
  split <;> simp [hopen]

/-- What stands between two brackets, each item on a line of its own, is read item by item. -/
theorem gives_bracketed {readNext : Bool → Read (Option α)} (level : Nat) {opening closing : String}
    {openChar close : Char} (hindent : Blank indent.toList) (hopen : opening.toList = [openChar])
    (hclose : closing.toList = [close]) (hend : NextEnds readNext close) {xs : List β}
    {f : β → String} {o : β → Option α} (hnext : ∀ x ∈ xs, NextReads readNext (f x).toList (o x))
    (g : List α → γ) (rest : List Char) :
    Gives (do pass; let items ← many readNext; pass; pure (g items))
      ((bracketed indent level opening closing (xs.map f)).toList ++ rest)
      (((xs.mapM o).map g).map (·, rest)) := by
  have hfinish : ∀ items, Gives (do pass; pure (g items)) (close :: rest) (some (g items, rest)) :=
    fun items => (gives_pass close rest).bind (gives_pure (g items) rest)
  cases xs with
  | nil =>
    have htext : (bracketed indent level opening closing (([] : List β).map f)).toList ++ rest =
        openChar :: close :: rest := by
      simp [bracketed_nil, hopen, hclose]
    rw [htext]
    apply (gives_pass openChar _).bind
    exact (gives_many_nil hend rest).bind (hfinish [])
  | cons x xs =>
    rw [toList_bracketed_cons hclose, hopen]
    apply (gives_pass openChar _).bind
    have hmany :=
      gives_many hnext hend (blank_lineBreak hindent (level + 1)) (blank_lineBreak hindent level)
        (fun rest => ends_lineBreak indent level (close :: rest)) rest
    have hread := hmany.bind_option (f := fun items => some (g items, rest)) fun items _ =>
      hfinish items
    rw [Option.map_map]
    cases hitems : (x :: xs).mapM o with
    | none =>
      rw [hitems] at hread
      exact hread
    | some items =>
      rw [hitems] at hread
      exact hread

/-- **What is written between two brackets is read item by item** by a reader that goes on
so at the opening bracket. -/
theorem readsAs_bracketed {readNext : Bool → Read (Option α)} {level : Nat}
    {opening closing : String} {openChar close : Char} (hindent : Blank indent.toList)
    (hopen : opening.toList = [openChar]) (hclose : closing.toList = [close])
    (hblank : isBlank openChar = false) (hend : NextEnds readNext close) {xs : List β}
    {f : β → String} {o : β → Option α} (hnext : ∀ x ∈ xs, NextReads readNext (f x).toList (o x))
    {g : List α → γ} {next : Option Char → Read γ}
    (hstart : next (some openChar) = do pass; let items ← many readNext; pass; pure (g items)) :
    ReadsAs (nextSolid? >>= next) (bracketed indent level opening closing (xs.map f)).toList
      ((xs.mapM o).map g) := by
  intro w rest hw _
  obtain ⟨t, ht⟩ := exists_toList_bracketed indent level hopen closing (xs.map f)
  have hread := gives_bracketed level hindent hopen hclose hend hnext g rest
  rw [ht] at hread ⊢
  apply (gives_nextSolid hw hblank (t ++ rest)).bind
  rw [hstart]
  exact hread

end FormulaSheet.Json
