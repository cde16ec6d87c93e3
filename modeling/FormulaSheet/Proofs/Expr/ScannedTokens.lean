import FormulaSheet.Proofs.Decimal.Extent
import FormulaSheet.Proofs.Expr.Scanned

/-!
# Reading by byte offsets finds all tokens

At every offset the scanner finds the token that the characters behind it begin with, or the fault
that they have in the same place. Over a whole text it has a result, which are the tokens of the
text.
-/

namespace FormulaSheet

namespace Token

/-! ### Symbols by their first character -/

variable {c : Char}

/-- The symbols of two characters, with what the first character is alone. -/
def pairs : List (Char × Char × Symbol × Option Symbol) :=
  [('*', '*', .starStar, some .star), ('<', '=', .lessEqual, some .less),
   ('>', '=', .greaterEqual, some .greater), ('?', '?', .nullish, some .question),
   ('&', '&', .andAnd, none), ('|', '|', .orOr, none)]

theorem ne_of_mem_pairs {more : Char} {long : Symbol} {short? : Option Symbol}
    (h : (c, more, long, short?) ∈ pairs) : c ≠ '.' ∧ c ≠ '=' := by
  simp only [pairs, List.mem_cons, Prod.mk.injEq, List.not_mem_nil, or_false] at h
  constructor <;> rintro rfl <;> simp only [Char.reduceEq, false_and, or_false] at h

/-- The next character is the one asked for, another one, or there is none. -/
@[elab_as_elim]
theorem head_cases {p : List Char → Prop} (more : Char) (hnil : p []) (hmore : ∀ cs, p (more :: cs))
    (hother : ∀ d cs, d ≠ more → p (d :: cs)) (cs : List Char) : p cs := by
  obtain _ | ⟨d, cs⟩ := cs
  · exact hnil
  by_cases hd : d = more
  · rw [hd]
    exact hmore cs
  · exact hother d cs hd

theorem readSymbol?_pair {more : Char} {long : Symbol} {short? : Option Symbol}
    (h : (c, more, long, short?) ∈ pairs) (cs : List Char) :
    readSymbol? (c :: cs) = if cs.head? = some more then some (long, 2) else short?.map (·, 1) := by
  simp only [pairs, List.mem_cons, Prod.mk.injEq, List.not_mem_nil, or_false] at h
  rcases h with ⟨rfl, rfl, rfl, rfl⟩ | ⟨rfl, rfl, rfl, rfl⟩ | ⟨rfl, rfl, rfl, rfl⟩ |
    ⟨rfl, rfl, rfl, rfl⟩ | ⟨rfl, rfl, rfl, rfl⟩ | ⟨rfl, rfl, rfl, rfl⟩
  · exact head_cases '*' rfl (fun cs => rfl) (fun d cs hd => by simp [readSymbol?, hd]) cs
  · exact head_cases '=' rfl (fun cs => rfl) (fun d cs hd => by simp [readSymbol?, hd]) cs
  · exact head_cases '=' rfl (fun cs => rfl) (fun d cs hd => by simp [readSymbol?, hd]) cs
  · exact head_cases '?' rfl (fun cs => rfl) (fun d cs hd => by simp [readSymbol?, hd]) cs
  · exact head_cases '&' rfl (fun cs => rfl) (fun d cs hd => by simp [readSymbol?, hd]) cs
  · exact head_cases '|' rfl (fun cs => rfl) (fun d cs hd => by simp [readSymbol?, hd]) cs

/-- An exclamation mark grows with the equals signs behind it. -/
theorem readSymbol?_bang (cs : List Char) :
    readSymbol? ('!' :: cs) =
      if cs.head? = some '=' then
        if cs.tail.head? = some '=' then some (.strictNotEqual, 3) else some (.notEqual, 2)
      else some (.bang, 1) := by
  refine head_cases '=' rfl (fun cs => ?_) (fun d cs hd => by simp [readSymbol?, hd]) cs
  exact head_cases '=' rfl (fun cs => rfl) (fun d cs hd => by simp [readSymbol?, hd]) cs

/-- An equals sign is a symbol only with another one behind it. -/
theorem readSymbol?_equal (cs : List Char) :
    readSymbol? ('=' :: cs) =
      if cs.head? = some '=' then
        if cs.tail.head? = some '=' then some (.strictEqual, 3) else some (.equal, 2)
      else none := by
  refine head_cases '=' rfl (fun cs => ?_) (fun d cs hd => by simp [readSymbol?, hd]) cs
  exact head_cases '=' rfl (fun cs => rfl) (fun d cs hd => by simp [readSymbol?, hd]) cs

/-- Where a number starts, no symbol but a point does, and no quoted text. -/
theorem not_symbol_of_isDigit (h : c.isDigit = true) (cs : List Char) :
    readSymbol? (c :: cs) = none ∧ c ≠ '=' ∧ ¬IsQuote c := by
  have hne : ∀ d : Char, d.isDigit = false → c ≠ d := by
    rintro d hd rfl
    rw [h] at hd
    cases hd
  refine ⟨?_, hne '=' rfl, ?_⟩
  · exact readSymbol?_eq_none (not_mem_symbolStarts (by decide) h) cs
  · rintro (rfl | rfl)
    · exact hne '"' rfl rfl
    · exact hne '\'' rfl rfl

end Token

namespace Scanner

open Text (byteSize)

variable {text pre cs w post : List Char} {c : Char}

/-! ### Numbers -/

theorem finishNumber_at (h : text = pre ++ (w ++ post)) (x : Float) :
    finishNumber text x (byteSize (pre ++ w)) = placed pre (w ++ post)
      (Token.finishNumber (w ++ post) x w.length) := by
  have hrest : text = (pre ++ w) ++ post := pass_over w h
  unfold finishNumber Token.finishNumber
  rw [bind_ok (nextIs_at hrest _), List.drop_left]
  cases post with
  | nil => exact (placed_ok pre w [] _).symm
  | cons c post =>
    rw [List.head?_cons, Option.any_some, Option.map_some, Option.getD_some]
    cases hc : Token.isNameChar c with
    | true =>
      rw [if_pos rfl, if_pos rfl, placed_error]
      rfl
    | false =>
      rw [if_neg Bool.false_ne_true, if_neg Bool.false_ne_true, placed_ok]
      rfl

theorem radixNumber_at {radix : Nat} (h : text = pre ++ cs)
    (hradix : Token.radixMark? cs = some radix) :
    radixNumber text radix (byteSize pre) (byteSize pre) = placed pre cs (Token.readNumber cs) := by
  obtain ⟨a, b, cs, rfl⟩ := Token.two_le_of_radixMark? hradix
  obtain ⟨ds, post, rfl, hall, hend⟩ :=
    Text.exists_run (fun c => (Decimal.radixDigit? radix c).isSome) cs
  have hsecond : text = (pre ++ [a]) ++ b :: (ds ++ post) := pass_over [a] h
  have hdigits : text = (pre ++ [a] ++ [b]) ++ (ds ++ post) := pass_over [b] hsecond
  have hplace : pre ++ [a] ++ [b] ++ ds = pre ++ a :: b :: ds := by
    rw [List.append_assoc, List.append_assoc]
    rfl
  have hread := Token.readNumber_of_radix hradix hall hend
  rw [List.cons_append, List.cons_append] at hread
  unfold radixNumber
  rw [bind_ok (advance_at h), bind_ok (advance_at hsecond), bind_ok (run_at hdigits _),
    Text.takeWhile_append hall hend, hread, hplace]
  cases (Decimal.readRadix? radix ds).filter (· < UInt64.size) with
  | none =>
    exact (placed_error_zero pre _ _).symm
  | some n => exact finishNumber_at (w := a :: b :: ds) h _

/-- Behind the mark and the sign `v` of an exponent its digits are passed. -/
theorem exists_exponent {p : Scan Unit} {v ds : List Char} {k : Int} (h : text = pre ++ (v ++ ds))
    (hk : Decimal.readExponent? (v ++ ds) = some (k, ds.dropWhile Char.isDigit))
    (hp : p (byteSize pre) = skipWhile text Char.isDigit text.length (byteSize (pre ++ v))) :
    ∃ x post, v ++ ds = x ++ post ∧ Decimal.ExponentOf x post ∧
      p (byteSize pre) = some (.ok ((), byteSize (pre ++ x))) := by
  have hsplit : v ++ ds = (v ++ ds.takeWhile Char.isDigit) ++ ds.dropWhile Char.isDigit := by
    rw [List.append_assoc, List.takeWhile_append_dropWhile]
  have hdigits : text = (pre ++ v) ++ ds := pass_over v h
  refine ⟨_, _, hsplit, Or.inr ⟨k, ?_⟩, ?_⟩
  · rw [← hsplit, hk]
  · rw [hp, skipWhile_at hdigits _ (length_le hdigits), List.append_assoc]

/-- The exponent that is read next is passed. -/
theorem skipExponent_at (h : text = pre ++ cs) :
    ∃ x post, cs = x ++ post ∧ Decimal.ExponentOf x post ∧
      skipExponent text (byteSize pre) = some (.ok ((), byteSize (pre ++ x))) := by
  unfold skipExponent
  rw [bind_ok (nextIs_at h _)]
  cases hmark : cs.head?.any fun c => c == 'e' || c == 'E' with
  | false =>
    refine ⟨[], cs, rfl, Or.inl ⟨rfl, Decimal.readExponent?_eq_none fun c hc => ?_⟩, ?_⟩
    · rw [List.nil_append] at hc
      rw [Option.mem_def.mp hc, Option.any_some, Bool.or_eq_false_iff] at hmark
      exact ⟨beq_eq_false_iff_ne.mp hmark.1, beq_eq_false_iff_ne.mp hmark.2⟩
    · rw [List.append_nil]
      rfl
  | true =>
    obtain _ | ⟨c, cs⟩ := cs
    · cases hmark
    have hc : c = 'e' ∨ c = 'E' := by
      rcases Bool.or_eq_true_iff.mp hmark with he | he
      · exact Or.inl (beq_iff_eq.mp he)
      · exact Or.inr (beq_iff_eq.mp he)
    have hnext : text = (pre ++ [c]) ++ cs := pass_over [c] h
    rw [if_pos rfl, bind_ok (peekAt_at h 1), List.getElem?_cons_succ, ← List.head?_eq_getElem?]
    cases hsigned : cs.head?.any fun c => c == '+' || c == '-' with
    | true =>
      obtain _ | ⟨d, cs⟩ := cs
      · cases hsigned
      have hsign : (Decimal.readSign (d :: cs)).2 = cs := by
        rcases Bool.or_eq_true_iff.mp hsigned with hd | hd
        · obtain rfl := beq_iff_eq.mp hd
          rfl
        · obtain rfl := beq_iff_eq.mp hd
          rfl
      obtain ⟨hsome, hnone⟩ := Decimal.readExponent?_mark hc hsign
      rw [if_pos rfl, bind_ok (peekAt_at h 2), List.getElem?_cons_succ, List.getElem?_cons_succ,
        ← List.head?_eq_getElem?]
      cases hdigit : cs.head?.any Char.isDigit with
      | true =>
        obtain ⟨k, hk⟩ := hsome hdigit
        refine exists_exponent (v := [c, d]) h hk ?_
        rw [if_pos rfl, bind_ok (advance_at h), bind_ok (advance_at hnext), List.append_assoc]
        rfl
      | false =>
        refine ⟨[], c :: d :: cs, rfl, Or.inl ⟨rfl, hnone hdigit⟩, ?_⟩
        rw [List.append_nil]
        rfl
    | false =>
      have hsign : Decimal.readSign cs = (false, cs) := by
        refine Decimal.readSign_of_ne fun d hd => ?_
        rw [Option.mem_def.mp hd, Option.any_some, Bool.or_eq_false_iff] at hsigned
        exact ⟨beq_eq_false_iff_ne.mp hsigned.1, beq_eq_false_iff_ne.mp hsigned.2⟩
      obtain ⟨hsome, hnone⟩ := Decimal.readExponent?_mark hc (congrArg Prod.snd hsign)
      rw [if_neg Bool.false_ne_true, bind_ok (peekAt_at h 1), List.getElem?_cons_succ,
        ← List.head?_eq_getElem?]
      cases hdigit : cs.head?.any Char.isDigit with
      | true =>
        obtain ⟨k, hk⟩ := hsome hdigit
        refine exists_exponent (v := [c]) h hk ?_
        rw [if_pos rfl, bind_ok (advance_at h)]
      | false =>
        refine ⟨[], c :: cs, rfl, Or.inl ⟨rfl, hnone hdigit⟩, ?_⟩
        rw [List.append_nil]
        rfl

theorem skipFraction_point (h : text = pre ++ '.' :: cs) :
    skipFraction text (byteSize pre) =
      some (.ok ((), byteSize (pre ++ '.' :: cs.takeWhile Char.isDigit))) := by
  have hdigits : text = (pre ++ ['.']) ++ cs := pass_over ['.'] h
  unfold skipFraction
  rw [bind_ok (nextIs_at h _), List.head?_cons, Option.any_some, if_pos (beq_self_eq_true _),
    bind_ok (advance_at h), skipWhile_at hdigits _ (length_le hdigits), List.append_assoc]
  rfl

theorem skipFraction_ne (h : text = pre ++ cs) (hne : cs.head? ≠ some '.') :
    skipFraction text (byteSize pre) = some (.ok ((), byteSize pre)) := by
  have hnext : cs.head?.any (· == '.') = false := by
    cases cs with
    | nil => rfl
    | cons d cs => exact beq_false_of_ne fun he => hne (congrArg some he)
  unfold skipFraction
  rw [bind_ok (nextIs_at h _), hnext]
  rfl

/-- The literal that begins where a number starts is passed. -/
theorem skipDecimal_at (h : text = pre ++ cs) (hstart : Token.startsNumber cs = true) :
    ∃ w post l, cs = w ++ post ∧ Decimal.LiteralOf w post l ∧
      skipDecimal text (byteSize pre) = some (.ok ((), byteSize (pre ++ w))) := by
  obtain ⟨ds, rest, rfl, hds, hrest⟩ := Text.exists_run Char.isDigit cs
  have hwhole : text = (pre ++ ds) ++ rest := pass_over ds h
  unfold skipDecimal
  rw [bind_ok (skipWhile_at h _ (length_le h)), Text.takeWhile_append hds hrest]
  by_cases hpoint : rest.head? = some '.'
  · obtain ⟨t, rfl⟩ := List.head?_eq_some_iff.mp hpoint
    obtain ⟨fs, t, rfl, hfs, ht⟩ := Text.exists_run Char.isDigit t
    have hexponent : text = (pre ++ ds ++ '.' :: fs) ++ t := pass_over ('.' :: fs) hwhole
    have hne : (ds.isEmpty && fs.isEmpty) = false := by
      rw [Bool.eq_false_iff]
      intro hempty
      rw [Bool.and_eq_true_iff, List.isEmpty_iff, List.isEmpty_iff] at hempty
      obtain ⟨rfl, rfl⟩ := hempty
      cases t with
      | nil => cases hstart
      | cons c t => exact Bool.false_ne_true ((ht c rfl).symm.trans hstart)
    obtain ⟨x, post, rfl, hx, hskip⟩ := skipExponent_at hexponent
    obtain ⟨l, hl⟩ := hx.literal_point hds hfs ht hne
    refine ⟨ds ++ '.' :: (fs ++ x), post, l, ?_, hl, ?_⟩
    · rw [List.append_assoc, List.cons_append, List.append_assoc]
    · rw [bind_ok (skipFraction_point hwhole), Text.takeWhile_append hfs ht, hskip,
        List.append_assoc (pre ++ ds), List.append_assoc pre]
      rfl
  · have hend : ∀ c ∈ rest.head?, c.isDigit = false ∧ c ≠ '.' := by
      intro c hc
      refine ⟨hrest c hc, ?_⟩
      rintro rfl
      exact hpoint hc
    have hne : ds ≠ [] := by
      rintro rfl
      cases rest with
      | nil => cases hstart
      | cons c rest =>
        rw [List.nil_append, Token.startsNumber_cons, if_neg (hend c rfl).2,
          (hend c rfl).1] at hstart
        cases hstart
    obtain ⟨x, post, rfl, hx, hskip⟩ := skipExponent_at hwhole
    obtain ⟨l, hl⟩ := hx.literal_whole hds hend hne
    refine ⟨ds ++ x, post, l, ?_, hl, ?_⟩
    · rw [List.append_assoc]
    · rw [bind_ok (skipFraction_ne hwhole hpoint), hskip, List.append_assoc]

theorem decimalNumber_at (h : text = pre ++ cs) (hstart : Token.startsNumber cs = true)
    (hradix : Token.radixMark? cs = none) :
    decimalNumber text (byteSize pre) (byteSize pre) = placed pre cs (Token.readNumber cs) := by
  obtain ⟨w, post, l, rfl, hliteral, hskip⟩ := skipDecimal_at h hstart
  unfold decimalNumber
  rw [bind_ok hskip, bind_ok (p := get) rfl, bind_ok (slice_at h _), hliteral.readNumber?,
    Token.readNumber_of_literal hradix hliteral.1]
  exact finishNumber_at h _

theorem number_at (h : text = pre ++ cs) (hstart : Token.startsNumber cs = true) :
    number text (byteSize pre) = placed pre cs (Token.readNumber cs) := by
  unfold number
  rw [bind_ok (p := get) rfl, bind_ok (rest_at h)]
  cases hradix : Token.radixMark? cs with
  | some radix => exact radixNumber_at h hradix
  | none => exact decimalNumber_at h hstart hradix

/-! ### Symbols -/

theorem readSymbol?_of_single? {s : Symbol} (h : single? c = some s) (cs : List Char) :
    c ≠ '.' ∧ Token.readSymbol? (c :: cs) = some (s, 1) := by
  unfold single? at h
  split at h <;> cases h <;> exact ⟨by decide, rfl⟩

theorem either_at (h : text = pre ++ cs) (more : Char) (long short : Symbol) :
    either text more long short (byteSize pre) =
      if cs.head? = some more then some (.ok (long, byteSize (pre ++ [more])))
      else some (.ok (short, byteSize pre)) := by
  unfold either
  by_cases hmore : cs.head? = some more
  · obtain ⟨t, rfl⟩ := List.head?_eq_some_iff.mp hmore
    rw [bind_ok (eat_cons h), if_pos hmore]
    rfl
  · rw [bind_ok (eat_ne h hmore), if_neg hmore]
    rfl

/-- What the scanner takes the next characters for where it looks for a symbol other than a
point. -/
def symbolBefore (c : Char) (cs : List Char) : Except (SyntaxFault × Nat) (Option Symbol × Nat) :=
  if c = '.' then .ok (none, 0)
  else match Token.readSymbol? (c :: cs) with
    | some (s, n) => .ok (some s, n)
    | none => if c = '=' then .error (.assignment, 0) else .ok (none, 0)

theorem pair_at {more : Char} {long short : Symbol} (h : text = pre ++ c :: cs)
    (hpair : (c, more, long, some short) ∈ Token.pairs) :
    (do advance text; return some (← either text more long short) : Scan (Option Symbol))
      (byteSize pre) = placed pre (c :: cs) (symbolBefore c cs) := by
  have hnext : text = (pre ++ [c]) ++ cs := pass_over [c] h
  have heither := either_at hnext more long short
  rw [bind_ok (advance_at h), symbolBefore, if_neg (Token.ne_of_mem_pairs hpair).1,
    Token.readSymbol?_pair hpair]
  by_cases hmore : cs.head? = some more
  · obtain ⟨t, rfl⟩ := List.head?_eq_some_iff.mp hmore
    rw [if_pos hmore] at heither ⊢
    rw [bind_ok heither, List.append_assoc]
    rfl
  · rw [if_neg hmore] at heither ⊢
    rw [bind_ok heither]
    rfl

theorem doubled_at {s : Symbol} (h : text = pre ++ c :: cs)
    (hpair : (c, c, s, none) ∈ Token.pairs) :
    doubled text c s (byteSize pre) = placed pre (c :: cs) (symbolBefore c cs) := by
  obtain ⟨hdot, hassign⟩ := Token.ne_of_mem_pairs hpair
  unfold doubled
  rw [bind_ok (peekAt_at h 1), List.getElem?_cons_succ, ← List.head?_eq_getElem?,
    symbolBefore, if_neg hdot, Token.readSymbol?_pair hpair]
  by_cases hc : cs.head? = some c
  · obtain ⟨t, rfl⟩ := List.head?_eq_some_iff.mp hc
    have hsecond : text = (pre ++ [c]) ++ c :: t := pass_over [c] h
    rw [if_pos hc, if_pos hc, bind_ok (advance_at h), bind_ok (advance_at hsecond),
      List.append_assoc]
    rfl
  · rw [if_neg hc, if_neg hc, Option.map_none, if_neg hassign]
    exact (placed_ok_zero pre _ _).symm

/-- An equals sign behind the first character is passed, and then another one with it. -/
theorem equals_at {strict loose : Symbol} (h : text = pre ++ c :: '=' :: cs) (hdot : c ≠ '.')
    (hread : Token.readSymbol? (c :: '=' :: cs) =
      if cs.head? = some '=' then some (strict, 3) else some (loose, 2))
    (other : Scan (Option Symbol)) :
    (do
      advance text
      if ← eat text '=' then return some (← either text '=' strict loose) else other :
      Scan (Option Symbol))
        (byteSize pre) = placed pre (c :: '=' :: cs) (symbolBefore c ('=' :: cs)) := by
  have hnext : text = (pre ++ [c]) ++ '=' :: cs := pass_over [c] h
  have hthird : text = (pre ++ [c] ++ ['=']) ++ cs := pass_over ['='] hnext
  have heither := either_at hthird '=' strict loose
  rw [bind_ok (advance_at h), bind_ok (eat_cons hnext), if_pos rfl, symbolBefore,
    if_neg hdot, hread]
  by_cases hmore : cs.head? = some '='
  · obtain ⟨t, rfl⟩ := List.head?_eq_some_iff.mp hmore
    rw [if_pos hmore] at heither ⊢
    rw [bind_ok heither, List.append_assoc, List.append_assoc]
    rfl
  · rw [if_neg hmore] at heither ⊢
    rw [bind_ok heither, List.append_assoc]
    rfl

theorem symbol_at (h : text = pre ++ c :: cs) :
    symbol text c (byteSize pre) = placed pre (c :: cs) (symbolBefore c cs) := by
  have hnext : text = (pre ++ [c]) ++ cs := pass_over [c] h
  unfold symbol
  rw [bind_ok (p := get) rfl]
  cases hsingle : single? c with
  | some s =>
    obtain ⟨hdot, hread⟩ := readSymbol?_of_single? hsingle cs
    simp only
    rw [bind_ok (advance_at h), symbolBefore, if_neg hdot, hread]
    rfl
  | none =>
    simp only
    split_ifs with hstar hbang hequal hless hgreater hand hor hquestion
    · subst hstar
      exact pair_at h (by decide)
    · subst hbang
      by_cases hnot : cs.head? = some '='
      · obtain ⟨t, rfl⟩ := List.head?_eq_some_iff.mp hnot
        exact equals_at h (by decide) ((Token.readSymbol?_bang _).trans (if_pos rfl)) _
      · rw [bind_ok (advance_at h), bind_ok (eat_ne hnext hnot), symbolBefore,
          Token.readSymbol?_bang, if_neg hnot]
        rfl
    · subst hequal
      by_cases hsame : cs.head? = some '='
      · obtain ⟨t, rfl⟩ := List.head?_eq_some_iff.mp hsame
        exact equals_at h (by decide) ((Token.readSymbol?_equal _).trans (if_pos rfl)) _
      · rw [bind_ok (advance_at h), bind_ok (eat_ne hnext hsame), symbolBefore,
          Token.readSymbol?_equal, if_neg hsame]
        exact (placed_error_zero pre _ _).symm
    · subst hless
      exact pair_at h (by decide)
    · subst hgreater
      exact pair_at h (by decide)
    · subst hand
      exact doubled_at h (by decide)
    · subst hor
      exact doubled_at h (by decide)
    · subst hquestion
      exact pair_at h (by decide)
    · have hbefore : symbolBefore c cs = .ok (none, 0) := by
        unfold symbolBefore
        split_ifs with hdot
        · rfl
        · have hstarts : (Token.symbolStarts.filter fun d => (single? d).isNone) =
              ['*', '!', '=', '<', '>', '&', '|', '?', '.'] := by decide
          have hread : Token.readSymbol? (c :: cs) = none := by
            refine Token.readSymbol?_eq_none (fun hmem => ?_) cs
            have hother : c ∈ ['*', '!', '=', '<', '>', '&', '|', '?', '.'] := by
              rw [← hstarts, List.mem_filter]
              exact ⟨hmem, Option.isNone_iff_eq_none.mpr hsingle⟩
            simp [hstar, hbang, hequal, hless, hgreater, hand, hor, hquestion, hdot] at hother
          rw [hread]
      rw [hbefore, placed_ok_zero]
      rfl

theorem symbol_none (h : text = pre ++ c :: cs)
    (hread : c = '.' ∨ (Token.readSymbol? (c :: cs) = none ∧ c ≠ '=')) :
    symbol text c (byteSize pre) = some (.ok (none, byteSize pre)) := by
  have hbefore : symbolBefore c cs = .ok (none, 0) := by
    unfold symbolBefore
    rcases hread with rfl | ⟨hread, hassign⟩
    · rfl
    · rw [hread, if_neg hassign, ite_self]
  rw [symbol_at h, hbefore, placed_ok_zero]

/-! ### Tokens -/

/-- The token that the characters begin with is found. -/
theorem token_at (h : text = pre ++ c :: cs) :
    token text (byteSize pre) = placed pre (c :: cs) (do
      let (t, n) ← Token.read (c :: cs)
      pure (some t, n)) := by
  unfold token
  rw [bind_ok (peek_at h)]
  simp only [List.head?_cons]
  cases hstart : Token.startsNumber (c :: cs) with
  | true =>
    have hfirst : c = '.' ∨ (Token.readSymbol? (c :: cs) = none ∧ c ≠ '=') := by
      rw [Token.startsNumber_cons] at hstart
      split_ifs at hstart with hdot
      · exact Or.inl hdot
      · obtain ⟨hread, hassign, -⟩ := Token.not_symbol_of_isDigit hstart cs
        exact Or.inr ⟨hread, hassign⟩
    have hquote : ¬(c = '"' ∨ c = '\'') := by
      rintro (rfl | rfl) <;> cases cs <;> cases hstart
    have hread : Token.read (c :: cs) = Token.readNumber (c :: cs) := by
      rw [Token.read, if_pos hstart]
    rw [bind_ok (symbol_none h hfirst), hread]
    simp only [if_neg hquote]
    rw [bind_ok (rest_at h), if_pos hstart]
    exact map_placed (number_at h hstart) _
  | false =>
    by_cases hdot : c = '.'
    · subst hdot
      have hread : Token.read ('.' :: cs) = .ok (.symbol .dot, 1) := by
        rw [Token.read, hstart]
        rfl
      rw [bind_ok (symbol_none h (Or.inl rfl)), hread]
      simp only [Char.reduceEq, or_false, if_false]
      rw [bind_ok (rest_at h), hstart, if_neg Bool.false_ne_true, if_pos trivial,
        bind_ok (advance_at h)]
      rfl
    cases hsymbol : Token.readSymbol? (c :: cs) with
    | some found =>
      obtain ⟨s, n⟩ := found
      have hplaced : symbol text c (byteSize pre) = placed pre (c :: cs) (.ok (some s, n)) := by
        rw [symbol_at h, symbolBefore, if_neg hdot, hsymbol]
      have hread : Token.read (c :: cs) = .ok (.symbol s, n) := by
        rw [Token.read, hstart, if_neg Bool.false_ne_true, hsymbol]
      rw [bind_ok hplaced, hread]
      rfl
    | none =>
      by_cases hassign : c = '='
      · have hplaced :
            symbol text c (byteSize pre) = placed pre (c :: cs) (.error (.assignment, 0)) := by
          rw [symbol_at h, symbolBefore, if_neg hdot, hsymbol, if_pos hassign]
        have hread : Token.read (c :: cs) = .error (.assignment, 0) := by
          rw [Token.read, hstart, if_neg Bool.false_ne_true, hsymbol]
          exact if_pos hassign
        rw [bind_error hplaced, hread]
        rfl
      rw [bind_ok (symbol_none h (Or.inr ⟨hsymbol, hassign⟩))]
      simp only
      by_cases hquote : c = '"' ∨ c = '\''
      · rw [if_pos hquote, map_placed (quotedText_at h), Token.read_quote hquote]
      rw [if_neg hquote, bind_ok (rest_at h), hstart, if_neg Bool.false_ne_true, if_neg hdot]
      by_cases hname : Token.isNameStart c = true
      · obtain ⟨w, post, rfl, hw, hpost⟩ := Text.exists_run Token.isNameChar cs
        have hread := Token.read_word hname hw hpost
        rw [List.cons_append] at hread
        rw [if_pos hname, bind_ok (run_at h _), Token.takeWhile_word hname hw hpost, hread]
        exact (placed_ok pre (c :: w) post _).symm
      · have hread : Token.read (c :: cs) = .error (.unexpectedCharacter c, 0) := by
          rw [Token.read, hstart, if_neg Bool.false_ne_true, hsymbol]
          simp only [if_neg hassign, if_neg hquote, if_neg hname]
        rw [if_neg hname, bind_ok (p := get) rfl, hread]
        exact (placed_error_zero pre _ _).symm

/-- The next token is looked for behind the blanks. -/
theorem next_at {bs : List Char} (h : text = pre ++ (bs ++ cs))
    (hblank : ∀ c ∈ bs, Text.isBlank c = true) (hend : ∀ c ∈ cs.head?, Text.isBlank c = false) :
    next text (byteSize pre) =
      (token text >>= fun token? => pure (byteSize (pre ++ bs), token?))
      (byteSize (pre ++ bs)) := by
  unfold next
  rw [bind_ok (skipWhile_at h _ (length_le h)), Text.takeWhile_append hblank hend,
    bind_ok (p := get) rfl]

/-- **Reading by byte offsets finds the tokens of the text.** -/
theorem tokens_at (h : text = pre ++ cs) {fuel : Nat} (hfuel : cs.length < fuel) :
    tokens text fuel (byteSize pre) = some (Tokens.scan cs 0 (byteSize pre)) := by
  induction fuel generalizing pre cs with
  | zero => exact absurd hfuel (Nat.not_lt_zero _)
  | succ fuel ih =>
    obtain ⟨bs, cs, rfl, hblank, hend⟩ := Text.exists_run Text.isBlank cs
    have hbehind : text = (pre ++ bs) ++ cs := pass_over bs h
    have hnext := next_at h hblank hend
    rw [Tokens.scan_blanks hblank, ← Text.byteSize_append]
    unfold tokens
    cases cs with
    | nil =>
      have htoken : token text (byteSize (pre ++ bs)) = some (.ok (none, byteSize (pre ++ bs))) :=
        bind_ok (peek_at hbehind) _
      rw [bind_ok htoken] at hnext
      rw [hnext]
      rfl
    | cons c cs =>
      have htoken := map_placed (token_at hbehind) (fun token? => (byteSize (pre ++ bs), token?))
      rw [htoken] at hnext
      cases hread : Token.read (c :: cs) with
      | error e =>
        obtain ⟨fault, n⟩ := e
        have hfault : next text (byteSize pre) =
            some (.error ⟨fault, byteSize (pre ++ bs ++ (c :: cs).take n)⟩) := by
          rw [hnext, hread]
          rfl
        rw [hfault, Tokens.scan, hend c rfl, hread, Text.byteSize_append (pre ++ bs)]
        rfl
      | ok found =>
        obtain ⟨t, n⟩ := found
        obtain ⟨w, rest, hsplit, rfl, hw, -⟩ := Token.exists_of_read hread
        obtain _ | ⟨d, w⟩ := w
        · exact absurd rfl hw
        rw [List.cons_append] at hsplit
        obtain ⟨rfl, rfl⟩ := List.cons.inj hsplit
        rw [← List.cons_append] at hread hbehind ⊢
        have hfound : next text (byteSize pre) =
            some (.ok ((byteSize (pre ++ bs), some t), byteSize (pre ++ bs ++ c :: w))) := by
          rw [hnext, ← List.cons_append, hread]
          exact placed_ok (pre ++ bs) (c :: w) rest _
        have hslice : Text.slice? text (byteSize (pre ++ bs)) (byteSize (pre ++ bs ++ c :: w)) =
            some (c :: w) :=
          Text.slice?_eq_some_iff.mpr ⟨pre ++ bs, rest, hbehind, rfl, rfl⟩
        have hrest : text = (pre ++ bs ++ c :: w) ++ rest := pass_over (c :: w) hbehind
        have hshort : rest.length < fuel := by
          rw [List.length_append, List.length_cons, List.length_append] at hfuel
          omega
        rw [hfound, Tokens.scan_token (hend c rfl) hread, ← Text.byteSize_append]
        simp only [hslice, ih hrest hshort]
        rfl

/-- **A text is read to its end without a slice that it does not have.** -/
theorem ofText_eq (text : List Char) : ofText text = some (Tokens.ofText text) := by
  have hwhole : text = [] ++ text := rfl
  exact tokens_at hwhole (Nat.lt_succ_self _)

end Scanner

end FormulaSheet
