import FormulaSheet.Expr.Rename
import FormulaSheet.Proofs.Expr.Lexing

/-!
# Lexemes of an edited text

The places of some names of a text are given to other texts that begin with a name. The lexemes of
the edited text are those of the text itself, but with what the new texts consist of in place of the
names (`Lexed.splice`): no token runs into the one before or after it.
-/

namespace FormulaSheet

namespace Text

theorem takeBytes_add (w cs : List Char) (n : Nat) :
    takeBytes (w ++ cs) (byteSize w + n) = w ++ takeBytes cs n := by
  induction w with
  | nil => rw [List.nil_append, byteSize_nil, Nat.zero_add, List.nil_append]
  | cons c w ih =>
    have hpos := c.utf8Size_pos
    rw [List.cons_append, byteSize_cons, takeBytes, if_neg (by omega), Nat.add_assoc,
      Nat.add_sub_cancel_left, ih, List.cons_append]

theorem dropBytes_add (w cs : List Char) (n : Nat) :
    dropBytes (w ++ cs) (byteSize w + n) = dropBytes cs n := by
  induction w with
  | nil => rw [List.nil_append, byteSize_nil, Nat.zero_add]
  | cons c w ih =>
    have hpos := c.utf8Size_pos
    rw [List.cons_append, byteSize_cons, dropBytes, if_neg (by omega), Nat.add_assoc,
      Nat.add_sub_cancel_left, ih]

theorem dropBytes_zero (cs : List Char) : dropBytes cs 0 = cs := by
  cases cs <;> rfl

theorem takeBytes_zero (cs : List Char) : takeBytes cs 0 = [] := by
  cases cs <;> rfl

end Text

namespace Expr

variable {w cs : List Char} {offset : Nat} {es : List Edit}

/-- Edits behind the first characters leave them as they are. -/
theorem splice_append
    (h : ∀ e ∈ es, offset + Text.byteSize w ≤ e.span.start ∧ e.span.start ≤ e.span.stop) :
    splice (w ++ cs) offset es = w ++ splice cs (offset + Text.byteSize w) es := by
  induction es with
  | nil => rfl
  | cons e es ih =>
    obtain ⟨hstart, hle⟩ := h e List.mem_cons_self
    have hcond : (e.span.start < offset || offset + Text.byteSize (w ++ cs) < e.span.stop) =
        (e.span.start < offset + Text.byteSize w ||
          offset + Text.byteSize w + Text.byteSize cs < e.span.stop) := by
      rw [Text.byteSize_append, Nat.add_assoc, decide_eq_false (by omega : ¬e.span.start < offset),
        decide_eq_false (by omega : ¬e.span.start < offset + Text.byteSize w)]
    rw [splice, splice, hcond]
    split
    · exact ih fun e he => h e (List.mem_cons_of_mem _ he)
    · have htake : e.span.start - offset =
          Text.byteSize w + (e.span.start - (offset + Text.byteSize w)) := by omega
      have hdrop : e.span.stop - offset =
          Text.byteSize w + (e.span.stop - (offset + Text.byteSize w)) := by omega
      rw [htake, hdrop, Text.takeBytes_add, Text.dropBytes_add, List.append_assoc,
        List.append_assoc, List.append_assoc]

/-- An edit of the first characters. -/
theorem splice_edit (new : List Char) :
    splice (w ++ cs) offset (⟨⟨offset, offset + Text.byteSize w⟩, new⟩ :: es) =
      new ++ splice cs (offset + Text.byteSize w) es := by
  have hcond : ¬((offset < offset || offset + Text.byteSize (w ++ cs) < offset + Text.byteSize w)
      = true) := by
    rw [Text.byteSize_append, Bool.or_eq_true, decide_eq_true_eq, decide_eq_true_eq]
    omega
  have hdrop : Text.dropBytes (w ++ cs) (Text.byteSize w) = cs := by
    rw [← Nat.add_zero (Text.byteSize w), Text.dropBytes_add, Text.dropBytes_zero]
  rw [splice, if_neg hcond]
  dsimp only
  rw [Nat.sub_self, Text.takeBytes_zero, List.nil_append, Nat.add_sub_cancel_left, hdrop]

end Expr

/-! ### Texts that begin with a name -/

open Token in
/-- The text `w` begins with a name and consists of the tokens `ts`, before anything that
does not go on with a name. -/
def Spells (w : List Char) (ts : List Token) : Prop :=
  (∃ c ∈ w.head?, isNameStart c = true) ∧
    ∀ rest offset ls stop, (∀ c ∈ rest.head?, isNameChar c = false) →
      Lexed rest (offset + Text.byteSize w) ls stop →
      ∃ ks, Lexed (w ++ rest) offset (ks ++ ls) stop ∧ ks.map Lexeme.token = ts

namespace Spells

open Token

theorem name {s : String} (h : IsWord s) : Spells s.toList [.name s] := by
  obtain ⟨c, w, hs, hstart, -, -⟩ := id h
  constructor
  · exact ⟨c, by rw [hs]; rfl, hstart⟩
  · intro rest offset ls stop hrest hlexed
    have hread := read_of_isWord h hrest
    rw [hs] at hread hlexed ⊢
    exact ⟨[_], Lexed.token (isBlank_of_isNameStart hstart) hread hlexed, rfl⟩

/-- A name, a colon and a blank before such a text. -/
theorem entry {s : String} {w : List Char} {ts : List Token} (h : IsWord s) (hw : Spells w ts) :
    Spells (s.toList ++ [':', ' '] ++ w) (.name s :: .symbol .colon :: ts) := by
  obtain ⟨⟨c, hc, hstart⟩, hname⟩ := Spells.name h
  constructor
  · refine ⟨c, ?_, hstart⟩
    rw [List.append_assoc]
    exact Option.mem_def.mpr (by rw [List.head?_append, Option.mem_def.mp hc]; rfl)
  · intro rest offset ls stop hrest hlexed
    have hsize : offset + Text.byteSize (s.toList ++ [':', ' '] ++ w) =
        offset + Text.byteSize s.toList + Text.byteSize [':'] + ' '.utf8Size + Text.byteSize w := by
      simp only [Text.byteSize_append, Text.byteSize_cons, Text.byteSize_nil]
      omega
    rw [hsize] at hlexed
    obtain ⟨ks, hks, htokens⟩ := hw.2 rest _ ls stop hrest hlexed
    have hblank : Lexed (' ' :: (w ++ rest)) (offset + Text.byteSize s.toList + Text.byteSize [':'])
        (ks ++ ls) stop := Lexed.blank rfl hks
    have hread :
        Token.read (':' :: [] ++ ' ' :: (w ++ rest)) = .ok (.symbol .colon, [':'].length) := rfl
    obtain ⟨colon, hcolon, htoken⟩ : ∃ colon : Lexeme, Lexed (':' :: ' ' :: (w ++ rest))
        (offset + Text.byteSize s.toList) (colon :: (ks ++ ls)) stop ∧
          colon.token = .symbol .colon :=
      ⟨_, Lexed.token rfl hread hblank, rfl⟩
    obtain ⟨js, hjs, hname'⟩ := hname _ offset _ stop (fun d hd => by cases hd; rfl) hcolon
    refine ⟨js ++ colon :: ks, ?_, ?_⟩
    · rw [List.append_assoc, List.append_assoc, List.append_assoc]
      exact hjs
    · rw [List.map_append, hname', List.map_cons, htokens, htoken]
      rfl

end Spells

/-- Lexemes, edits that replace some names among them by texts that begin with a name, and the
tokens of the edited text. -/
inductive Respelled : List Lexeme → List Edit → List Token → Prop where
  | nil : Respelled [] [] []
  | keep {l : Lexeme} {ls : List Lexeme} {es : List Edit} {ts : List Token}
      (hrest : Respelled ls es ts) : Respelled (l :: ls) es (l.token :: ts)
  | edit {l : Lexeme} {s : String} {w : List Char} {ks : List Token} {ls : List Lexeme}
      {es : List Edit} {ts : List Token} (hname : l.token = .name s)
      (hw : Token.IsWord s → Spells w ks) (hrest : Respelled ls es ts) :
      Respelled (l :: ls) (⟨⟨l.start, l.stop⟩, w⟩ :: es) (ks ++ ts)

namespace Respelled

variable {ls ks : List Lexeme} {es fs : List Edit} {ts us : List Token}

theorem append (h : Respelled ls es ts) (h' : Respelled ks fs us) :
    Respelled (ls ++ ks) (es ++ fs) (ts ++ us) := by
  induction h with
  | nil => exact h'
  | keep _ ih => exact keep ih
  | @edit l s w _ _ _ _ hname hw _ ih =>
    rw [List.append_assoc]
    exact edit hname hw ih

theorem bracket (h : Respelled ls es ts) (opening closing : Lexeme) :
    Respelled (opening :: ls ++ [closing]) es (opening.token :: ts ++ [closing.token]) := by
  rw [← List.append_nil es]
  exact keep (h.append (keep nil))

theorem exists_span (h : Respelled ls es ts) : ∀ e ∈ es, ∃ l ∈ ls, e.span = ⟨l.start, l.stop⟩ := by
  induction h with
  | nil =>
    intro e he
    cases he
  | keep _ ih =>
    intro e he
    obtain ⟨l, hl, hspan⟩ := ih e he
    exact ⟨l, List.mem_cons_of_mem _ hl, hspan⟩
  | edit _ _ _ ih =>
    intro e he
    rcases List.mem_cons.mp he with rfl | he
    · exact ⟨_, List.mem_cons_self, rfl⟩
    · obtain ⟨l, hl, hspan⟩ := ih e he
      exact ⟨l, List.mem_cons_of_mem _ hl, hspan⟩

end Respelled

theorem exists_bracket {ls : List Lexeme} {t u : Token} {ts : List Token}
    (h : ls.map Lexeme.token = t :: ts ++ [u]) : ∃ opening ks closing,
      ls = opening :: ks ++ [closing] ∧ opening.token = t ∧ ks.map Lexeme.token = ts ∧
        closing.token = u := by
  obtain ⟨ls₁, ls₂, rfl, hls₁, hls₂⟩ := List.map_eq_append_iff.mp h
  obtain ⟨opening, ks, rfl, hopening, hks⟩ := List.map_eq_cons_iff.mp hls₁
  obtain ⟨closing, rest, rfl, hclosing, hrest⟩ := List.map_eq_cons_iff.mp hls₂
  rw [List.map_eq_nil_iff.mp hrest]
  exact ⟨opening, ks, closing, rfl, hopening, hks, hclosing⟩

namespace Lexed

open Token FormulaSheet.Expr

variable {cs : List Char} {offset stop : Nat} {ls : List Lexeme} {es : List Edit} {ts : List Token}

theorem edit_bounds (h : Lexed cs offset ls stop)
    (hes : ∀ e ∈ es, ∃ l ∈ ls, e.span = ⟨l.start, l.stop⟩) :
    ∀ e ∈ es, offset ≤ e.span.start ∧ e.span.start ≤ e.span.stop := by
  intro e he
  obtain ⟨l, hl, hspan⟩ := hes e he
  obtain ⟨hstart, hlt, -⟩ := h.bounds l hl
  rw [hspan]
  exact ⟨hstart, Nat.le_of_lt hlt⟩

/-- **The lexemes of an edited text are those of the text, with the new texts in place of the
names.** -/
theorem splice (h : Lexed cs offset ls stop) (hr : Respelled ls es ts) (offset' : Nat) :
    ∃ ls' stop', Lexed (splice cs offset es) offset' ls' stop' ∧ ls'.map Lexeme.token = ts ∧
      SameStart cs (splice cs offset es) := by
  induction h generalizing es ts offset' with
  | finish =>
    cases hr
    exact ⟨[], offset', Lexed.finish, rfl, SameStart.refl _⟩
  | @blank c cs offset stop ls hblank hrest ih =>
    obtain ⟨ls', stop', hlexed, htokens, -⟩ := ih hr (offset' + c.utf8Size)
    have hsplice : Expr.splice (c :: cs) offset es = c :: Expr.splice cs (offset + c.utf8Size) es :=
      splice_append (w := [c]) (hrest.edit_bounds hr.exists_span)
    rw [hsplice]
    exact ⟨ls', stop', Lexed.blank hblank hlexed, htokens, Or.inl rfl⟩
  | @token c w rest offset stop token ls hblank hread hrest ih =>
    cases hr with
    | @keep _ _ _ ts hr =>
      obtain ⟨ls', stop', hlexed, htokens, hsame⟩ := ih hr (offset' + Text.byteSize (c :: w))
      rw [splice_append (hrest.edit_bounds hr.exists_span)]
      refine ⟨_ :: ls', stop', Lexed.token hblank (read_append hread hsame) hlexed, ?_, Or.inl rfl⟩
      rw [List.map_cons, htokens]
    | @edit _ s new ks _ es ts hname hw hr =>
      dsimp only at hname
      subst hname
      obtain ⟨hword, rest', hsplit, hlength, hhead⟩ := exists_of_read_name hread
      obtain ⟨hcw, rfl⟩ := List.append_inj hsplit hlength
      obtain ⟨⟨d, hd, hstart⟩, hspells⟩ := hw hword
      obtain ⟨ls', stop', hlexed, htokens, hsame⟩ := ih hr (offset' + Text.byteSize new)
      have hhead' : ∀ d ∈ (Expr.splice rest (offset + Text.byteSize (c :: w)) es).head?,
          isNameChar d = false := hsame.head?_eq hhead ▸ hhead
      obtain ⟨js, hjs, hnew⟩ := hspells _ offset' ls' stop' hhead' hlexed
      rw [splice_edit]
      refine ⟨js ++ ls', stop', hjs, ?_, Or.inr ⟨c, d, rfl, ?_, ?_, hstart⟩⟩
      · rw [List.map_append, hnew, htokens]
      · rw [List.head?_append, Option.mem_def.mp hd]
        rfl
      · obtain ⟨c', w', hs, hc', -⟩ := hword
        rw [hs] at hcw
        rw [(List.cons.inj hcw).1]
        exact hc'

end Lexed

end FormulaSheet
