import FormulaSheet.Expr.Token
import FormulaSheet.Proofs.Decimal.Literal

/-!
# Reading a token

A token is read off the characters it consists of. What follows them plays a part only through its
first character, and there it makes no difference which name begins: in place of the rest of a text
there may stand any other text that begins in the same way (`SameStart`), and the token is the same
(`Token.exists_of_read`).
-/

namespace FormulaSheet

namespace Token

/-- The two texts begin with the same character, or both with a character that begins a name. -/
def SameStart (cs ds : List Char) : Prop :=
  ds.head? = cs.head? ∨
    ∃ c d, cs.head? = some c ∧ ds.head? = some d ∧ isNameStart c = true ∧ isNameStart d = true

namespace SameStart

variable {cs ds : List Char} {c : Char}

theorem refl (cs : List Char) : SameStart cs cs := Or.inl rfl

/-- A character that begins no name begins neither or both of the texts. -/
theorem ne_cons (h : SameStart cs ds) (hc : isNameStart c = false) (hne : ∀ t, cs ≠ c :: t) :
    ∀ t, ds ≠ c :: t := by
  intro t hds
  subst hds
  rcases h with h | ⟨_, d, -, hd, -, hstart⟩
  · cases cs with
    | nil => cases h
    | cons c' t' =>
      rw [List.head?_cons, List.head?_cons, Option.some.injEq] at h
      exact hne t' (by rw [h])
  · rw [List.head?_cons, Option.some.injEq] at hd
    rw [hd, hstart] at hc
    cases hc

theorem isNameChar_of_isNameStart (h : isNameStart c = true) : isNameChar c = true := by
  simp only [isNameStart, isNameChar, Bool.or_eq_true, Char.isAlphanum] at h ⊢
  rcases h with (h | h) | h
  · exact Or.inl (Or.inl (Or.inl h))
  · exact Or.inl (Or.inr h)
  · exact Or.inr h

/-- After a token that no name can follow, the texts begin with the same character. -/
theorem head?_eq (h : SameStart cs ds) (hcs : ∀ c ∈ cs.head?, isNameChar c = false) :
    ds.head? = cs.head? := by
  rcases h with h | ⟨c, d, hc, -, hstart, -⟩
  · exact h
  · have hfalse := hcs c hc
    rw [isNameChar_of_isNameStart hstart] at hfalse
    cases hfalse

end SameStart

/-! ### Symbols -/

/-- The first characters `w` of a text are the symbol, whatever begins like the rest of the text. -/
def SymbolOf (w rest : List Char) (s : Symbol) : Prop :=
  w ≠ [] ∧ ∀ rest', SameStart rest rest' →
    readSymbol? (w ++ rest') = some (s, w.length) ∧
      (startsNumber (w ++ rest) = false → startsNumber (w ++ rest') = false)

theorem symbolOf_of_forall {w rest : List Char} {s : Symbol} (hw : w ≠ [])
    (h : ∀ rest', readSymbol? (w ++ rest') = some (s, w.length) ∧
      startsNumber (w ++ rest') = false) :
    SymbolOf w rest s :=
  ⟨hw, fun rest' _ => ⟨(h rest').1, fun _ => (h rest').2⟩⟩

/-- A symbol that a character `k` would make a longer one. -/
theorem symbolOf_of_ne {w rest : List Char} {s : Symbol} {k : Char} (hw : w ≠ [])
    (hk : isNameStart k = false) (hne : ∀ t, rest ≠ k :: t)
    (hnil : readSymbol? w = some (s, w.length) ∧ startsNumber w = false)
    (h : ∀ c t, c ≠ k → readSymbol? (w ++ c :: t) = some (s, w.length) ∧
      startsNumber (w ++ c :: t) = false) : SymbolOf w rest s := by
  refine ⟨hw, fun rest' hrest => ?_⟩
  have hne' := hrest.ne_cons hk hne
  cases rest' with
  | nil =>
    rw [List.append_nil]
    exact ⟨hnil.1, fun _ => hnil.2⟩
  | cons c t =>
    have hc : c ≠ k := fun he => hne' t (by rw [he])
    exact ⟨(h c t hc).1, fun _ => (h c t hc).2⟩

theorem not_isDigit_of_isNameStart {c : Char} (h : isNameStart c = true) : c.isDigit = false := by
  rw [Bool.eq_false_iff]
  intro hdigit
  obtain ⟨hlow, hhigh⟩ := Char.isDigit_iff_toNat.mp hdigit
  simp only [isNameStart, Bool.or_eq_true, decide_eq_true_eq] at h
  rcases h with (halpha | rfl) | rfl
  · rcases Bool.or_eq_true_iff.mp halpha with hupper | hlower
    · exact absurd (Nat.le_trans (of_decide_eq_true hupper).1 hhigh) (by decide)
    · have hle := of_decide_eq_true (Bool.and_eq_true_iff.mp hlower).1
      exact absurd (Nat.le_trans hle hhigh) (by decide)
  · exact absurd hhigh (by decide)
  · exact absurd hlow (by decide)

/-- A point begins a number where a digit follows it. -/
theorem symbolOf_dot {rest : List Char} : SymbolOf ['.'] rest .dot := by
  refine ⟨by simp, fun rest' hrest => ⟨rfl, fun h => ?_⟩⟩
  have hdigit : ∀ t : List Char, startsNumber ('.' :: t) = false ↔
      ∀ c ∈ t.head?, c.isDigit = false := by
    intro t
    cases t <;> simp [startsNumber]
  have hhead := (hdigit rest).mp h
  refine (hdigit rest').mpr fun c hc => ?_
  rcases hrest with hrest | ⟨_, d, -, hd, -, hstart⟩
  · rw [hrest] at hc
    exact hhead c hc
  · rw [Option.mem_def, hd, Option.some.injEq] at hc
    rw [← hc]
    exact not_isDigit_of_isNameStart hstart

theorem exists_of_readSymbol? {cs : List Char} {s : Symbol} {n : Nat}
    (h : readSymbol? cs = some (s, n)) :
    ∃ w rest, cs = w ++ rest ∧ n = w.length ∧ SymbolOf w rest s := by
  unfold readSymbol? at h
  split at h <;> simp only [Option.some.injEq, Prod.mk.injEq, reduceCtorEq] at h <;>
    obtain ⟨rfl, rfl⟩ := h
  case h_1 t => exact ⟨['('], t, rfl, rfl, symbolOf_of_forall (by simp) fun _ => ⟨rfl, rfl⟩⟩
  case h_2 t => exact ⟨[')'], t, rfl, rfl, symbolOf_of_forall (by simp) fun _ => ⟨rfl, rfl⟩⟩
  case h_3 t => exact ⟨['['], t, rfl, rfl, symbolOf_of_forall (by simp) fun _ => ⟨rfl, rfl⟩⟩
  case h_4 t => exact ⟨[']'], t, rfl, rfl, symbolOf_of_forall (by simp) fun _ => ⟨rfl, rfl⟩⟩
  case h_5 t => exact ⟨['{'], t, rfl, rfl, symbolOf_of_forall (by simp) fun _ => ⟨rfl, rfl⟩⟩
  case h_6 t => exact ⟨['}'], t, rfl, rfl, symbolOf_of_forall (by simp) fun _ => ⟨rfl, rfl⟩⟩
  case h_7 t => exact ⟨[','], t, rfl, rfl, symbolOf_of_forall (by simp) fun _ => ⟨rfl, rfl⟩⟩
  case h_8 t => exact ⟨[':'], t, rfl, rfl, symbolOf_of_forall (by simp) fun _ => ⟨rfl, rfl⟩⟩
  case h_9 t => exact ⟨['+'], t, rfl, rfl, symbolOf_of_forall (by simp) fun _ => ⟨rfl, rfl⟩⟩
  case h_10 t => exact ⟨['-'], t, rfl, rfl, symbolOf_of_forall (by simp) fun _ => ⟨rfl, rfl⟩⟩
  case h_11 t => exact ⟨['/'], t, rfl, rfl, symbolOf_of_forall (by simp) fun _ => ⟨rfl, rfl⟩⟩
  case h_12 t => exact ⟨['%'], t, rfl, rfl, symbolOf_of_forall (by simp) fun _ => ⟨rfl, rfl⟩⟩
  case h_13 t => exact ⟨['*', '*'], t, rfl, rfl, symbolOf_of_forall (by simp) fun _ => ⟨rfl, rfl⟩⟩
  case h_14 t hne =>
    exact ⟨['*'], t, rfl, rfl,
      symbolOf_of_ne (k := '*') (by simp) rfl (fun t he => hne t he) ⟨rfl, rfl⟩
      fun c t hc => ⟨by simp [readSymbol?, hc], rfl⟩⟩
  case h_15 t =>
    exact ⟨['!', '=', '='], t, rfl, rfl, symbolOf_of_forall (by simp) fun _ => ⟨rfl, rfl⟩⟩
  case h_16 t hne =>
    exact ⟨['!', '='], t, rfl, rfl, symbolOf_of_ne (k := '=') (by simp) rfl (fun t he => hne t he)
      ⟨rfl, rfl⟩ fun c t hc => ⟨by simp [readSymbol?, hc], rfl⟩⟩
  case h_17 t hne' hne =>
    exact ⟨['!'], t, rfl, rfl,
      symbolOf_of_ne (k := '=') (by simp) rfl (fun t he => hne t he) ⟨rfl, rfl⟩
      fun c t hc => ⟨by simp [readSymbol?, hc], rfl⟩⟩
  case h_18 t =>
    exact ⟨['=', '=', '='], t, rfl, rfl, symbolOf_of_forall (by simp) fun _ => ⟨rfl, rfl⟩⟩
  case h_19 t hne =>
    exact ⟨['=', '='], t, rfl, rfl, symbolOf_of_ne (k := '=') (by simp) rfl (fun t he => hne t he)
      ⟨rfl, rfl⟩ fun c t hc => ⟨by simp [readSymbol?, hc], rfl⟩⟩
  case h_20 t => exact ⟨['<', '='], t, rfl, rfl, symbolOf_of_forall (by simp) fun _ => ⟨rfl, rfl⟩⟩
  case h_21 t hne =>
    exact ⟨['<'], t, rfl, rfl,
      symbolOf_of_ne (k := '=') (by simp) rfl (fun t he => hne t he) ⟨rfl, rfl⟩
      fun c t hc => ⟨by simp [readSymbol?, hc], rfl⟩⟩
  case h_22 t => exact ⟨['>', '='], t, rfl, rfl, symbolOf_of_forall (by simp) fun _ => ⟨rfl, rfl⟩⟩
  case h_23 t hne =>
    exact ⟨['>'], t, rfl, rfl,
      symbolOf_of_ne (k := '=') (by simp) rfl (fun t he => hne t he) ⟨rfl, rfl⟩
      fun c t hc => ⟨by simp [readSymbol?, hc], rfl⟩⟩
  case h_24 t => exact ⟨['&', '&'], t, rfl, rfl, symbolOf_of_forall (by simp) fun _ => ⟨rfl, rfl⟩⟩
  case h_25 t => exact ⟨['|', '|'], t, rfl, rfl, symbolOf_of_forall (by simp) fun _ => ⟨rfl, rfl⟩⟩
  case h_26 t => exact ⟨['?', '?'], t, rfl, rfl, symbolOf_of_forall (by simp) fun _ => ⟨rfl, rfl⟩⟩
  case h_27 t hne =>
    exact ⟨['?'], t, rfl, rfl,
      symbolOf_of_ne (k := '?') (by simp) rfl (fun t he => hne t he) ⟨rfl, rfl⟩
      fun c t hc => ⟨by simp [readSymbol?, hc], rfl⟩⟩
  case h_28 t => exact ⟨['.'], t, rfl, rfl, symbolOf_dot⟩

/-! ### Numbers -/

section Numbers

variable {cs ds w : List Char}

theorem startsNumber_cons (c : Char) (cs : List Char) :
    startsNumber (c :: cs) =
      if c = '.' then (cs.head?.map Char.isDigit).getD false else c.isDigit := by
  by_cases hc : c = '.'
  · subst hc
    cases cs <;> rfl
  · rw [if_neg hc]
    cases cs <;> simp [startsNumber, hc]

theorem startsNumber_append (hw : w ≠ []) (h : ds.head? = cs.head?) :
    startsNumber (w ++ ds) = startsNumber (w ++ cs) := by
  cases w with
  | nil => exact absurd rfl hw
  | cons c w =>
    rw [List.cons_append, List.cons_append, startsNumber_cons, startsNumber_cons,
      Text.head?_append_congr h]

theorem radixMark?_congr {c : Char} (h : ds.head? = cs.head?) :
    radixMark? (c :: ds) = radixMark? (c :: cs) := by
  cases cs with
  | nil => rw [List.head?_eq_none_iff.mp h]
  | cons d cs =>
    obtain ⟨t, rfl⟩ := List.head?_eq_some_iff.mp h
    by_cases hc : c = '0'
    · subst hc
      rfl
    · simp [radixMark?, hc]

theorem radixMark?_append (hw : w ≠ []) (h : ds.head? = cs.head?) :
    radixMark? (w ++ ds) = radixMark? (w ++ cs) := by
  cases w with
  | nil => exact absurd rfl hw
  | cons c w => exact radixMark?_congr (Text.head?_append_congr h)

theorem two_le_of_radixMark? {radix : Nat} (h : radixMark? cs = some radix) :
    ∃ c d t, cs = c :: d :: t := by
  unfold radixMark? at h
  split at h
  · exact ⟨_, _, _, rfl⟩
  · cases h

theorem isNameChar_of_isAlphanum {c : Char} (h : isNameChar c = false) : c.isAlphanum = false := by
  simp only [isNameChar, Bool.or_eq_false_iff] at h
  exact h.1.1

theorem finishNumber_append {x : Float} {t : Token} {n : Nat} {rest : List Char}
    (h : finishNumber (w ++ rest) x w.length = .ok (t, n)) :
    n = w.length ∧ (∀ c ∈ rest.head?, isNameChar c = false) ∧
      ∀ rest' : List Char, rest'.head? = rest.head? →
        finishNumber (w ++ rest') x w.length = .ok (t, w.length) := by
  unfold finishNumber at h
  rw [List.drop_left] at h
  split at h
  · cases h
  · rename_i hhead
    obtain ⟨rfl, rfl⟩ := Prod.mk.inj (Except.ok.inj h)
    refine ⟨rfl, fun c hc => ?_, fun rest' hrest' => ?_⟩
    · rw [Option.mem_def.mp hc] at hhead
      simpa using hhead
    · rw [finishNumber, List.drop_left, hrest', if_neg hhead]

theorem readNumber_of_radix {a b : Char} {digits rest : List Char} {radix : Nat}
    (hradix : radixMark? (a :: b :: (digits ++ rest)) = some radix)
    (hdigits : ∀ c ∈ digits, (Decimal.radixDigit? radix c).isSome = true)
    (hrest : ∀ c ∈ rest.head?, (Decimal.radixDigit? radix c).isSome = false) :
    readNumber (a :: b :: digits ++ rest) =
      match (Decimal.readRadix? radix digits).filter (· < UInt64.size) with
      | some n => finishNumber (a :: b :: digits ++ rest) (Float.ofNat n) (a :: b :: digits).length
      | none => .error (.invalidNumber, 0) := by
  have hlength : (a :: b :: digits).length = 2 + digits.length := Nat.add_comm digits.length 2
  rw [hlength, List.cons_append, List.cons_append]
  unfold readNumber
  rw [hradix]
  cases hvalue : (Decimal.readRadix? radix digits).filter (· < UInt64.size) <;>
    simp only [List.drop_succ_cons, List.drop_zero, Text.takeWhile_append hdigits hrest, hvalue]

theorem readNumber_of_literal {rest : List Char} {l : Decimal.Literal}
    (hradix : radixMark? (w ++ rest) = none)
    (hliteral : Decimal.readLiteral? (w ++ rest) = some (l, rest)) :
    readNumber (w ++ rest) = finishNumber (w ++ rest) l.value w.length := by
  unfold readNumber
  rw [hradix]
  simp only [hliteral, List.length_append, Nat.add_sub_cancel]

theorem exists_of_readNumber {t : Token} {n : Nat} (h : readNumber cs = .ok (t, n)) :
    ∃ w rest, cs = w ++ rest ∧ n = w.length ∧ w ≠ [] ∧ (∀ c ∈ rest.head?, isNameChar c = false) ∧
      ∀ rest' : List Char, rest'.head? = rest.head? →
        readNumber (w ++ rest') = .ok (t, w.length) := by
  cases hradix : radixMark? cs with
  | some radix =>
    obtain ⟨a, b, cs, rfl⟩ := two_le_of_radixMark? hradix
    obtain ⟨digits, rest, rfl, hall, hend⟩ :=
      Text.exists_run (fun c => (Decimal.radixDigit? radix c).isSome) cs
    have hread := readNumber_of_radix hradix hall hend
    rw [List.cons_append, List.cons_append, h] at hread
    split at hread
    · rename_i k hk
      obtain ⟨hn, hhead, hfinish⟩ := finishNumber_append hread.symm
      refine ⟨a :: b :: digits, rest, rfl, hn, by simp, hhead, fun rest' hrest' => ?_⟩
      have hmark : radixMark? (a :: b :: (digits ++ rest')) = some radix := by
        rw [← hradix]
        exact radixMark?_append (w := a :: b :: digits) (by simp) hrest'
      rw [readNumber_of_radix hmark hall fun c hc => hend c (hrest' ▸ hc), hk]
      exact hfinish rest' hrest'
    · cases hread
  | none =>
    cases hliteral : Decimal.readLiteral? cs with
    | none => simp [readNumber, hradix, hliteral] at h
    | some found =>
      obtain ⟨l, rest⟩ := found
      obtain ⟨w, rfl, hw, hsame⟩ := Decimal.readLiteral?_append hliteral
      rw [readNumber_of_literal hradix hliteral] at h
      obtain ⟨hn, hhead, hfinish⟩ := finishNumber_append h
      refine ⟨w, rest, rfl, hn, hw, hhead, fun rest' hrest' => ?_⟩
      have hmark : radixMark? (w ++ rest') = none := by
        rw [radixMark?_append hw hrest']
        exact hradix
      have hliteral' := hsame (fun c hc => isNameChar_of_isAlphanum (hhead c hc)) rest' hrest'
      rw [readNumber_of_literal hmark hliteral']
      exact hfinish rest' hrest'

end Numbers

/-! ### Quoted texts -/

section Quoted

variable {quote : Char} {w rest rest' : List Char}

/-- A character that ends a quoted text. -/
def IsQuote (c : Char) : Prop := c = '"' ∨ c = '\''

theorem IsQuote.radixDigit? (h : IsQuote quote) : Decimal.radixDigit? 16 quote = none := by
  rcases h with rfl | rfl <;> rfl

theorem IsQuote.mem_of_cons {c : Char} (hquote : IsQuote quote) (hc : ¬IsQuote c)
    (h : quote ∈ c :: w) : quote ∈ w := by
  rcases List.mem_cons.mp h with rfl | h
  · exact absurd hquote hc
  · exact h

theorem readRadix?_eq_none {c : Char} {cs : List Char} {radix : Nat} (hc : c ∈ cs)
    (hdigit : Decimal.radixDigit? radix c = none) : Decimal.readRadix? radix cs = none := by
  have hfold : ∀ n, cs.foldlM
      (fun n c => (Decimal.radixDigit? radix c).map (radix * n + ·)) n = none := by
    induction cs with
    | nil => cases hc
    | cons d cs ih =>
      intro n
      rw [List.foldlM_cons]
      rcases List.mem_cons.mp hc with rfl | hc
      · rw [hdigit]
        rfl
      · cases (Decimal.radixDigit? radix d).map (radix * n + ·) with
        | none => rfl
        | some m => exact ih hc m
  cases cs with
  | nil => cases hc
  | cons d cs => exact hfold 0

/-- Digits are not looked for behind the end of a quoted text. -/
theorem hexCode?_append (hquote : IsQuote quote) (hw : quote ∈ w) (count : Nat) :
    hexCode? count (w ++ rest) = if count ≤ w.length then hexCode? count w else none := by
  split
  · rename_i hcount
    rw [hexCode?, hexCode?, List.take_append_of_le_length hcount]
  · rename_i hcount
    have hmem : quote ∈ (w ++ rest).take count := by
      rw [List.take_append, List.take_of_length_le (by omega)]
      exact List.mem_append_left _ hw
    rw [hexCode?, readRadix?_eq_none hmem hquote.radixDigit?, ite_self]

theorem mem_drop_of_hexCode? (hquote : IsQuote quote) (hw : quote ∈ w) {count code : Nat}
    (h : hexCode? count w = some code) : quote ∈ w.drop count := by
  have hmem := hw
  rw [← List.take_append_drop count w, List.mem_append] at hmem
  rcases hmem with hmem | hmem
  · rw [hexCode?, readRadix?_eq_none hmem hquote.radixDigit?, ite_self] at h
    cases h
  · exact hmem

theorem lowSurrogate?_append (hquote : IsQuote quote) (hw : quote ∈ w) :
    lowSurrogate? (w ++ rest) = lowSurrogate? (w ++ rest') := by
  obtain _ | ⟨a, w⟩ := w
  · cases hw
  by_cases ha : a = '\\'
  · subst ha
    have hw₁ := hquote.mem_of_cons (by simp [IsQuote]) hw
    obtain _ | ⟨b, w⟩ := w
    · cases hw₁
    by_cases hb : b = 'u'
    · subst hb
      have hw₂ := hquote.mem_of_cons (by simp [IsQuote]) hw₁
      simp only [List.cons_append, lowSurrogate?, hexCode?_append hquote hw₂]
    · simp [lowSurrogate?, hb]
  · simp [lowSurrogate?, ha]

/-- A code in braces is digits up to the closing brace. -/
theorem unicodeEscape_braced {ds rest : List Char}
    (hds : ∀ c ∈ ds, (Decimal.radixDigit? 16 c).isSome = true)
    (hrest : ∀ c ∈ rest.head?, (Decimal.radixDigit? 16 c).isSome = false) :
    unicodeEscape ('{' :: (ds ++ rest)) =
      match (Decimal.readRadix? 16 ds).filter (· < UInt32.size) with
      | none => .error (.invalidUnicodeEscape, 1)
      | some code =>
        if rest.head? = some '}' then
          if code.isValidChar then .ok (Char.ofNat code, ds.length + 2)
          else .error (.invalidUnicodeEscape, 1)
        else .error (.invalidUnicodeEscape, ds.length + 1) := by
  simp only [unicodeEscape, Text.takeWhile_append hds hrest, List.drop_left]
  cases (Decimal.readRadix? 16 ds).filter (· < UInt32.size) with
  | none => rfl
  | some code =>
    cases rest with
    | nil => rfl
    | cons d rest =>
      by_cases hd : d = '}'
      · subst hd
        rfl
      · simp [hd]

theorem unicodeEscape_brace {digits rest : List Char} {d : Char}
    (hdigits : ∀ c ∈ digits, (Decimal.radixDigit? 16 c).isSome = true)
    (hd : (Decimal.radixDigit? 16 d).isSome = false) :
    unicodeEscape ('{' :: (digits ++ d :: rest)) = unicodeEscape ('{' :: (digits ++ [d])) := by
  have hhead : ∀ t, ∀ c ∈ (d :: t).head?, (Decimal.radixDigit? 16 c).isSome = false :=
    Text.head_cons (p := fun c => (Decimal.radixDigit? 16 c).isSome) hd
  rw [unicodeEscape_braced hdigits (hhead rest), unicodeEscape_braced hdigits (hhead [])]
  rfl

theorem unicodeEscape_append (hquote : IsQuote quote) (hw : quote ∈ w) :
    unicodeEscape (w ++ rest) = unicodeEscape (w ++ rest') := by
  obtain _ | ⟨a, w⟩ := w
  · cases hw
  by_cases ha : a = '{'
  · subst ha
    have hw₁ := hquote.mem_of_cons (by simp [IsQuote]) hw
    obtain ⟨digits, d, t, rfl, hdigits, hd⟩ : ∃ digits d t, w = digits ++ d :: t ∧
        (∀ c ∈ digits, (Decimal.radixDigit? 16 c).isSome = true) ∧
        (Decimal.radixDigit? 16 d).isSome = false := by
      have hsplit := List.takeWhile_append_dropWhile
        (p := fun c => (Decimal.radixDigit? 16 c).isSome) (l := w)
      have hall : ∀ c ∈ w.takeWhile (fun c => (Decimal.radixDigit? 16 c).isSome),
          (Decimal.radixDigit? 16 c).isSome = true :=
        fun _ hc => List.mem_takeWhile_imp (p := fun c => (Decimal.radixDigit? 16 c).isSome) hc
      have hhead := Text.head?_dropWhile (fun c => (Decimal.radixDigit? 16 c).isSome) w
      cases hdrop : w.dropWhile (fun c => (Decimal.radixDigit? 16 c).isSome) with
      | nil =>
        rw [hdrop, List.append_nil] at hsplit
        rw [← hsplit] at hw₁
        have hfalse := hall quote hw₁
        rw [hquote.radixDigit?] at hfalse
        cases hfalse
      | cons d t =>
        rw [hdrop] at hsplit hhead
        exact ⟨_, d, t, hsplit.symm, hall, hhead d rfl⟩
    simp only [List.cons_append, List.append_assoc, unicodeEscape_brace hdigits hd]
  · have hcode : hexCode? 4 (a :: w ++ rest) = hexCode? 4 (a :: w ++ rest') := by
      rw [hexCode?_append hquote hw, hexCode?_append hquote hw]
    have hbrace : ∀ t cs : List Char, a :: w ++ t = '{' :: cs → False := by
      rintro t cs ⟨⟩
      exact ha rfl
    rw [unicodeEscape.eq_2 _ (hbrace rest), unicodeEscape.eq_2 _ (hbrace rest'), hcode]
    cases hsome : hexCode? 4 (a :: w ++ rest') with
    | none => rfl
    | some code =>
      rw [hexCode?_append hquote hw] at hsome
      split at hsome
      · rename_i hlength
        rw [List.drop_append_of_le_length hlength, List.drop_append_of_le_length hlength,
          lowSurrogate?_append hquote (mem_drop_of_hexCode? hquote hw hsome)]
      · cases hsome

theorem escape_append (hquote : IsQuote quote) (hw : quote ∈ w) :
    escape (w ++ rest) = escape (w ++ rest') := by
  obtain _ | ⟨a, w⟩ := w
  · cases hw
  by_cases hx : a = 'x'
  · subst hx
    have hw₁ := hquote.mem_of_cons (by simp [IsQuote]) hw
    simp only [List.cons_append, escape, hexCode?_append hquote hw₁, Char.reduceEq,
      if_false, if_true]
  · by_cases hu : a = 'u'
    · subst hu
      have hw₁ := hquote.mem_of_cons (by simp [IsQuote]) hw
      have hescape : unicodeEscape (w ++ rest) = unicodeEscape (w ++ rest') :=
        unicodeEscape_append hquote hw₁
      simp only [List.cons_append, escape, hescape, Char.reduceEq, if_false, if_true]
    · simp only [List.cons_append, escape, hx, hu, if_false]

/-- Characters to be passed over are counted as read. -/
theorem quotedBody_skip (cs : List Char) (skip used : Nat) :
    quotedBody quote cs skip used = quotedBody quote (cs.drop skip) 0 (used + skip) := by
  induction cs generalizing skip used with
  | nil =>
    rw [List.drop_nil]
    rfl
  | cons c cs ih =>
    cases skip with
    | zero => rfl
    | succ skip =>
      rw [quotedBody, ih, List.drop_succ_cons]
      congr 1
      omega

/-- A quoted text is read in the same way before anything. -/
theorem exists_of_quotedBody (hquote : IsQuote quote) {cs ds : List Char} {skip used total : Nat}
    (h : quotedBody quote cs skip used = .ok (ds, total)) :
    ∃ w rest, cs = w ++ rest ∧ total = used + w.length ∧ quote ∈ w ∧
      ∀ rest', quotedBody quote (w ++ rest') skip used = .ok (ds, total) := by
  induction cs generalizing skip used ds total with
  | nil => cases h
  | cons c cs ih =>
    cases skip with
    | succ skip =>
      obtain ⟨w, rest, rfl, htotal, hmem, hsame⟩ := ih h
      refine ⟨c :: w, rest, rfl, ?_, List.mem_cons_of_mem c hmem, hsame⟩
      rw [htotal, List.length_cons]
      omega
    | zero =>
      rw [quotedBody] at h
      split at h
      · rename_i hc
        obtain ⟨rfl, rfl⟩ := Prod.mk.inj (Except.ok.inj h)
        refine ⟨[c], cs, rfl, rfl, by simp [hc], fun rest' => ?_⟩
        rw [List.singleton_append, quotedBody, if_pos hc]
      · rename_i hc
        split at h
        · cases h
        · rename_i hbreak
          split at h
          · rename_i hslash
            split at h
            · cases h
            · cases h
            · rename_i d? n hescape
              cases hbody : quotedBody quote cs n (used + 1) with
              | error e => simp [hbody] at h
              | ok found =>
                obtain ⟨ds', total'⟩ := found
                obtain ⟨w, rest, rfl, htotal, hmem, hsame⟩ := ih hbody
                rw [hbody] at h
                obtain ⟨rfl, rfl⟩ := Prod.mk.inj (Except.ok.inj h)
                refine ⟨c :: w, rest, rfl, ?_, List.mem_cons_of_mem c hmem, fun rest' => ?_⟩
                · rw [htotal, List.length_cons]
                  omega
                · have hescape' : escape (w ++ rest') = .ok (d?, n) := by
                    rw [← hescape]
                    exact escape_append hquote hmem
                  rw [List.cons_append, quotedBody, if_neg hc, if_neg hbreak,
                    if_pos hslash, hescape']
                  simp only [hsame rest']
                  rfl
          · rename_i hslash
            cases hbody : quotedBody quote cs 0 (used + 1) with
            | error e => simp [hbody] at h
            | ok found =>
              obtain ⟨ds', total'⟩ := found
              obtain ⟨w, rest, rfl, htotal, hmem, hsame⟩ := ih hbody
              rw [hbody] at h
              obtain ⟨rfl, rfl⟩ := Prod.mk.inj (Except.ok.inj h)
              refine ⟨c :: w, rest, rfl, ?_, List.mem_cons_of_mem c hmem, fun rest' => ?_⟩
              · rw [htotal, List.length_cons]
                omega
              · rw [List.cons_append, quotedBody, if_neg hc, if_neg hbreak,
                  if_neg hslash, hsame rest']
                rfl

end Quoted

/-! ### Words and all tokens -/

variable {w cs rest : List Char}

/-- The characters with which symbols begin. -/
def symbolStarts : List Char := "()[]{},:+-/%*!=<>&|?.".toList

theorem readSymbol?_eq_none {c : Char} (h : c ∉ symbolStarts) (cs : List Char) :
    readSymbol? (c :: cs) = none := by
  unfold readSymbol?
  split
  case h_29 => rfl
  all_goals
    rename_i heq
    rw [(List.cons.inj heq).1] at h
    exact absurd (by decide) h

theorem not_mem_symbolStarts {p : Char → Bool} {c : Char}
    (hp : symbolStarts.all (fun d => !p d) = true) (h : p c = true) : c ∉ symbolStarts := by
  intro hmem
  have hnot := List.all_eq_true.mp hp c hmem
  rw [h] at hnot
  cases hnot

theorem not_starts_of_isNameStart {c : Char} (cs : List Char) (h : isNameStart c = true) :
    startsNumber (c :: cs) = false ∧ readSymbol? (c :: cs) = none ∧ c ≠ '=' ∧ ¬IsQuote c := by
  have hne : ∀ d : Char, isNameStart d = false → c ≠ d := by
    rintro d hd rfl
    rw [h] at hd
    cases hd
  refine ⟨?_, ?_, hne '=' rfl, ?_⟩
  · rw [startsNumber_cons, if_neg (hne '.' rfl)]
    exact not_isDigit_of_isNameStart h
  · exact readSymbol?_eq_none (not_mem_symbolStarts (by decide) h) cs
  · rintro (rfl | rfl)
    · exact hne '"' rfl rfl
    · exact hne '\'' rfl rfl

theorem takeWhile_word {c : Char} (hc : isNameStart c = true) (hw : ∀ d ∈ w, isNameChar d = true)
    (hrest : ∀ d ∈ rest.head?, isNameChar d = false) :
    (c :: (w ++ rest)).takeWhile isNameChar = c :: w := by
  refine Text.takeWhile_append (w := c :: w) (fun d hd => ?_) hrest
  rcases List.mem_cons.mp hd with rfl | hd
  · exact SameStart.isNameChar_of_isNameStart hc
  · exact hw d hd

theorem read_quote {c : Char} (hc : IsQuote c) (cs : List Char) :
    read (c :: cs) = (do
      let (ds, n) ← quotedBody c cs 0 1
      pure (text (String.ofList ds), n)) := by
  rcases hc with rfl | rfl <;> cases cs <;> rfl

theorem read_word {c : Char} (hc : isNameStart c = true) (hw : ∀ d ∈ w, isNameChar d = true)
    (hrest : ∀ d ∈ rest.head?, isNameChar d = false) :
    read (c :: w ++ rest) = .ok (ofWord (String.ofList (c :: w)), (c :: w).length) := by
  obtain ⟨hnumber, hsymbol, hassign, hquote⟩ := not_starts_of_isNameStart (w ++ rest) hc
  have hquote' : ¬(c = '"' ∨ c = '\'') := hquote
  rw [List.cons_append]
  unfold read
  rw [hnumber, hsymbol]
  simp only [Bool.false_eq_true, if_false, hassign, hquote', hc, if_true,
    takeWhile_word hc hw hrest]

theorem isIdentifier_iff {s : String} :
    isIdentifier s = true ↔ ∃ c w, s.toList = c :: w ∧ isNameStart c = true ∧
      (∀ d ∈ w, isNameChar d = true) ∧ s ∉ literalNames ∧ s ∉ reservedWords := by
  unfold isIdentifier
  split
  · rename_i hnil
    simp [hnil]
  · rename_i c w hcons
    simp [hcons, and_assoc]

theorem ofWord_of_isIdentifier {s : String} (h : isIdentifier s = true) : ofWord s = name s := by
  obtain ⟨-, -, -, -, -, hliteral, hreserved⟩ := isIdentifier_iff.mp h
  simp only [literalNames, List.mem_cons, not_or] at hliteral
  obtain ⟨htrue, hfalse, hnull, htypeof, -⟩ := hliteral
  rw [ofWord, if_neg htrue, if_neg hfalse, if_neg hnull, if_neg htypeof,
    if_neg (by simpa using hreserved)]

/-- What a token is read as: a number, a symbol, a quoted text or a word. -/
theorem read_eq_ok {t : Token} {n : Nat} (h : read cs = .ok (t, n)) :
    (startsNumber cs = true ∧ readNumber cs = .ok (t, n)) ∨
    (startsNumber cs = false ∧ ∃ s, readSymbol? cs = some (s, n) ∧ t = symbol s) ∨
    (∃ quote body ds, cs = quote :: body ∧ IsQuote quote ∧
      quotedBody quote body 0 1 = .ok (ds, n) ∧ t = text (String.ofList ds)) ∨
    ∃ c w rest, cs = c :: w ++ rest ∧ n = (c :: w).length ∧ isNameStart c = true ∧
      (∀ d ∈ w, isNameChar d = true) ∧ (∀ d ∈ rest.head?, isNameChar d = false) ∧
      t = ofWord (String.ofList (c :: w)) := by
  unfold read at h
  split at h
  · rename_i hnumber
    exact Or.inl ⟨hnumber, h⟩
  · rename_i hnumber
    rw [Bool.not_eq_true] at hnumber
    split at h
    · rename_i s k hsymbol
      obtain ⟨rfl, rfl⟩ := Prod.mk.inj (Except.ok.inj h)
      exact Or.inr (Or.inl ⟨hnumber, s, hsymbol, rfl⟩)
    · split at h
      · cases h
      · rename_i c cs _
        split_ifs at h with _ hquote hstart
        · cases hbody : quotedBody c cs 0 1 with
          | error e => simp [hbody] at h
          | ok found =>
            rw [hbody] at h
            obtain ⟨rfl, rfl⟩ := Prod.mk.inj (Except.ok.inj h)
            exact Or.inr (Or.inr (Or.inl ⟨c, cs, found.1, rfl, hquote, hbody, rfl⟩))
        · obtain ⟨w, rest, rfl, hw, hrest⟩ := Text.exists_run isNameChar cs
          rw [takeWhile_word hstart hw hrest] at h
          obtain ⟨rfl, rfl⟩ := Prod.mk.inj (Except.ok.inj h)
          exact Or.inr (Or.inr (Or.inr ⟨c, w, rest, rfl, rfl, hstart, hw, hrest, rfl⟩))

/-- **A token is read in the same way before anything that begins in the same way.** -/
theorem exists_of_read {t : Token} {n : Nat} (h : read cs = .ok (t, n)) :
    ∃ w rest, cs = w ++ rest ∧ n = w.length ∧ w ≠ [] ∧
      ∀ rest', SameStart rest rest' → read (w ++ rest') = .ok (t, w.length) := by
  obtain ⟨hnumber, h⟩ | ⟨hnumber, s, hsymbol, rfl⟩ | ⟨quote, body, ds, rfl, hquote, hbody, rfl⟩ |
    ⟨c, w, rest, rfl, rfl, hstart, hw, hrest, rfl⟩ := read_eq_ok h
  · obtain ⟨w, rest, rfl, hn, hw, hhead, hsame⟩ := exists_of_readNumber h
    refine ⟨w, rest, rfl, hn, hw, fun rest' hrest => ?_⟩
    have hrest' := hrest.head?_eq hhead
    unfold read
    rw [startsNumber_append hw hrest', if_pos hnumber]
    exact hsame rest' hrest'
  · obtain ⟨w, rest, rfl, hk, hw, hsame⟩ := exists_of_readSymbol? hsymbol
    refine ⟨w, rest, rfl, hk, hw, fun rest' hrest => ?_⟩
    obtain ⟨hread, hstarts⟩ := hsame rest' hrest
    unfold read
    rw [hstarts hnumber, hread]
    rfl
  · obtain ⟨w, rest, rfl, hn, -, hsame⟩ := exists_of_quotedBody hquote hbody
    have hlength : n = (quote :: w).length := by
      rw [hn, List.length_cons, Nat.add_comm]
    refine ⟨quote :: w, rest, rfl, hlength, by simp, fun rest' _ => ?_⟩
    rw [List.cons_append, read_quote hquote, hsame rest', ← hlength]
    rfl
  · refine ⟨c :: w, rest, rfl, rfl, by simp, fun rest' hsame => ?_⟩
    exact read_word hstart hw (hsame.head?_eq hrest ▸ hrest)

theorem finishNumber_eq_ok {x : Float} {t : Token} {k n : Nat}
    (h : finishNumber cs x k = .ok (t, n)) : t = number x := by
  unfold finishNumber at h
  split at h
  · cases h
  · exact (Prod.mk.inj (Except.ok.inj h)).1.symm

theorem exists_number_of_readNumber {t : Token} {n : Nat} (h : readNumber cs = .ok (t, n)) :
    ∃ x, t = number x := by
  unfold readNumber at h
  split at h
  · dsimp only at h
    split at h
    · exact ⟨_, finishNumber_eq_ok h⟩
    · cases h
  · split at h
    · exact ⟨_, finishNumber_eq_ok h⟩
    · cases h

theorem ofWord_eq_name {word s : String} (h : ofWord word = name s) : s = word := by
  unfold ofWord at h
  split_ifs at h
  exact (Token.name.inj h).symm

/-- A word that is read as a name. -/
def IsWord (s : String) : Prop :=
  ∃ c w, s.toList = c :: w ∧ isNameStart c = true ∧ (∀ d ∈ w, isNameChar d = true) ∧
    ofWord s = name s

theorem isWord_of_isIdentifier {s : String} (h : isIdentifier s = true) : IsWord s := by
  obtain ⟨c, w, hs, hstart, hw, -, -⟩ := isIdentifier_iff.mp h
  exact ⟨c, w, hs, hstart, hw, ofWord_of_isIdentifier h⟩

/-- A name is read from the characters it consists of, and they end where no name goes on. -/
theorem exists_of_read_name {s : String} {n : Nat} (h : read cs = .ok (name s, n)) :
    IsWord s ∧ ∃ rest, cs = s.toList ++ rest ∧ n = s.toList.length ∧
      ∀ d ∈ rest.head?, isNameChar d = false := by
  obtain ⟨-, h⟩ | ⟨-, _, -, h⟩ | ⟨_, _, _, -, -, -, h⟩ |
      ⟨c, w, rest, rfl, rfl, hstart, hw, hrest, hname⟩ :=
    read_eq_ok h
  · obtain ⟨x, hx⟩ := exists_number_of_readNumber h
    cases hx
  · cases h
  · cases h
  · have hs := ofWord_eq_name hname.symm
    have hlist : s.toList = c :: w := by rw [hs, String.toList_ofList]
    refine ⟨⟨c, w, hlist, hstart, hw, ?_⟩, rest, ?_, ?_, hrest⟩
    · rw [← hs] at hname
      exact hname.symm
    · rw [hlist]
    · rw [hlist]

theorem read_of_isWord {s : String} (h : IsWord s)
    (hrest : ∀ d ∈ rest.head?, isNameChar d = false) :
    read (s.toList ++ rest) = .ok (name s, s.toList.length) := by
  obtain ⟨c, w, hs, hstart, hw, hname⟩ := h
  rw [hs, read_word hstart hw hrest, ← hs, String.ofList_toList, hname]

/-- A token is read in the same way before anything that begins in the same way. -/
theorem read_append {t : Token} {rest' : List Char} (h : read (w ++ rest) = .ok (t, w.length))
    (hsame : SameStart rest rest') : read (w ++ rest') = .ok (t, w.length) := by
  obtain ⟨v, rest₁, hsplit, hlength, -, hread⟩ := exists_of_read h
  obtain ⟨rfl, rfl⟩ := List.append_inj hsplit hlength
  exact hread rest' hsame

theorem isBlank_of_isNameStart {c : Char} (h : isNameStart c = true) : Text.isBlank c = false :=
  Text.isBlank_eq_false (by decide) h

end Token

end FormulaSheet
