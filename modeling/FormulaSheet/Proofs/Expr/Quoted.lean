import FormulaSheet.Proofs.Expr.SingleToken
import FormulaSheet.Proofs.Text.Units

/-!
# Quoted texts in expressions

In quotes a character is written as itself or by an escape, and a backslash before a line break may
stand between any two characters. `Token.CharSpelling` lists the ways to write one character and
`Token.Written` the ways to write a text, without a word on how they are read. The idea: an escape
is read in the same way before everything, so that the reader takes one spelling after the other,
and each way to write a text is parsed as this text (`Expr.parse_of_written`).
-/

namespace FormulaSheet

open Token

namespace Token

/-! ### Numbers in hexadecimal digits -/

/-- The digit for a number below sixteen. From ten on it is a letter of either case. -/
def HexDigit (c : Char) (n : Nat) : Prop :=
  n < 16 ∧ (c = Nat.digitChar n ∨ c = (Nat.digitChar n).toUpper)

/-- The digits write a number, the most significant one first. -/
inductive HexNumber : List Char → Nat → Prop where
  | digit {c : Char} {n : Nat} (hdigit : HexDigit c n) : HexNumber [c] n
  | snoc {ds : List Char} {c : Char} {m n : Nat} (hdigits : HexNumber ds m)
      (hdigit : HexDigit c n) : HexNumber (ds ++ [c]) (16 * m + n)

instance (c : Char) (n : Nat) : Decidable (HexDigit c n) :=
  inferInstanceAs (Decidable (n < 16 ∧ (c = Nat.digitChar n ∨ c = (Nat.digitChar n).toUpper)))

theorem HexDigit.radixDigit? {c : Char} {n : Nat} (h : HexDigit c n) :
    Decimal.radixDigit? 16 c = some n := by
  have hall : ∀ n < 16, Decimal.radixDigit? 16 (Nat.digitChar n) = some n ∧
      Decimal.radixDigit? 16 (Nat.digitChar n).toUpper = some n := by decide
  obtain ⟨hn, rfl | rfl⟩ := h
  · exact (hall n hn).1
  · exact (hall n hn).2

namespace HexNumber

variable {ds : List Char} {n : Nat}

theorem radixDigit? (h : HexNumber ds n) : ∀ c ∈ ds, (Decimal.radixDigit? 16 c).isSome = true := by
  induction h with
  | digit hdigit =>
    intro c hc
    obtain rfl := List.mem_singleton.mp hc
    rw [hdigit.radixDigit?]
    rfl
  | snoc _ hdigit ih =>
    intro c hc
    rcases List.mem_append.mp hc with hc | hc
    · exact ih c hc
    · obtain rfl := List.mem_singleton.mp hc
      rw [hdigit.radixDigit?]
      rfl

theorem readRadix? (h : HexNumber ds n) : Decimal.readRadix? 16 ds = some n := by
  have hread : ∀ ds : List Char, ds ≠ [] → Decimal.readRadix? 16 ds =
      ds.foldlM (fun n c => (Decimal.radixDigit? 16 c).map (16 * n + ·)) 0 := by
    intro ds hne
    cases ds with
    | nil => exact absurd rfl hne
    | cons => rfl
  have hne : ds ≠ [] := by cases h <;> simp
  rw [hread ds hne]
  clear hne
  induction h with
  | digit hdigit => simp [hdigit.radixDigit?]
  | snoc _ hdigit ih => simp [List.foldlM_append, ih, hdigit.radixDigit?]

theorem hexCode? {k : Nat} (h : HexNumber ds n) (hlength : ds.length = k) (rest : List Char) :
    hexCode? k (ds ++ rest) = some n := by
  subst hlength
  rw [Token.hexCode?, List.take_left, if_pos rfl, h.readRadix?]

end HexNumber

/-! ### Ways to write a text -/

/-- The characters with an escape of one letter, after this letter. -/
def shortEscapes : List (Char × Char) :=
  [('n', '\n'), ('t', '\t'), ('r', '\r'), ('b', '\x08'), ('f', '\x0c'), ('v', '\x0b'),
   ('0', '\x00'), ('\\', '\\'), ('\'', '\''), ('"', '"')]

/-- The ways to write a character between two quotes: as itself, by an escape of one
letter, or by its code in hexadecimal digits, where a pair of escapes writes the two
halves of the surrogate pair. -/
inductive CharSpelling (quote : Char) : List Char → Char → Prop where
  | self {c : Char} (hquote : c ≠ quote) (hslash : c ≠ '\\') (hfeed : c ≠ '\n')
      (hreturn : c ≠ '\r') : CharSpelling quote [c] c
  | short {mark c : Char} (hmark : (mark, c) ∈ shortEscapes) : CharSpelling quote ['\\', mark] c
  | byte {ds : List Char} {c : Char} (hdigits : HexNumber ds c.toNat) (hlength : ds.length = 2) :
      CharSpelling quote ('\\' :: 'x' :: ds) c
  | braces {ds : List Char} {c : Char} (hdigits : HexNumber ds c.toNat) :
      CharSpelling quote ('\\' :: 'u' :: '{' :: ds ++ ['}']) c
  | unit {ds : List Char} {c : Char} (hdigits : HexNumber ds c.toNat) (hlength : ds.length = 4) :
      CharSpelling quote ('\\' :: 'u' :: ds) c
  | pair {hs ls : List Char} {high low : Nat} {c : Char} (hunits : Text.charUnits c = [high, low])
      (hhigh : HexNumber hs high) (hhighLength : hs.length = 4) (hlow : HexNumber ls low)
      (hlowLength : ls.length = 4) : CharSpelling quote ('\\' :: 'u' :: hs ++ '\\' :: 'u' :: ls) c

/-- The ways to write a text between two quotes: a spelling for each character, and before, between
and after them any number of line breaks with a backslash. -/
inductive Written (quote : Char) : List Char → List Char → Prop where
  | nil : Written quote [] []
  | continued {w cs : List Char} (hrest : Written quote w cs) : Written quote ('\\' :: '\n' :: w) cs
  | char {v w : List Char} {c : Char} {cs : List Char} (hspelling : CharSpelling quote v c)
      (hrest : Written quote w cs) : Written quote (v ++ w) (c :: cs)

/-! ### Escapes -/

variable {ds : List Char} {c : Char}

theorem escape_short {mark : Char} (h : (mark, c) ∈ shortEscapes) (rest : List Char) :
    escape (mark :: rest) = .ok (some c, 1) := by
  simp only [shortEscapes, List.mem_cons, Prod.mk.injEq, List.not_mem_nil, or_false] at h
  rcases h with ⟨rfl, rfl⟩ | ⟨rfl, rfl⟩ | ⟨rfl, rfl⟩ | ⟨rfl, rfl⟩ | ⟨rfl, rfl⟩ |
    ⟨rfl, rfl⟩ | ⟨rfl, rfl⟩ | ⟨rfl, rfl⟩ | ⟨rfl, rfl⟩ | ⟨rfl, rfl⟩ <;> rfl

theorem escape_byte (h : HexNumber ds c.toNat) (hlength : ds.length = 2) (rest : List Char) :
    escape ('x' :: ds ++ rest) = .ok (some c, 3) := by
  simp only [List.cons_append, escape, Char.reduceEq, if_false, if_true, h.hexCode? hlength,
    Text.charOfCode_toNat]

theorem escape_unicode {w : List Char} {n : Nat} (h : unicodeEscape w = .ok (c, n)) :
    escape ('u' :: w) = .ok (some c, n + 1) := by
  simp only [escape, Char.reduceEq, if_false, if_true, h]

theorem unicodeEscape_braces (h : HexNumber ds c.toNat) (rest : List Char) :
    unicodeEscape ('{' :: (ds ++ '}' :: rest)) = .ok (c, ds.length + 2) := by
  have hclose : ∀ d ∈ ('}' :: rest).head?, (Decimal.radixDigit? 16 d).isSome = false :=
    Text.head_cons (by decide) rest
  have hsize : c.toNat < UInt32.size := by
    have hle : 0x110000 ≤ UInt32.size := by decide
    rcases Text.isValidChar_toNat c with hc | hc <;> omega
  have hcode : (Decimal.readRadix? 16 ds).filter (· < UInt32.size) = some c.toNat := by
    simp [h.readRadix?, hsize]
  rw [unicodeEscape_braced h.radixDigit? hclose, hcode]
  simp only [List.head?_cons, if_true, if_pos (Text.isValidChar_toNat c), Char.ofNat_toNat]

/-- Four digits are no braces. -/
theorem unicodeEscape_digits {n : Nat} (h : HexNumber ds n) (hlength : ds.length = 4)
    (rest : List Char) : unicodeEscape (ds ++ rest) =
      match if Text.isHighSurrogate n then lowSurrogate? rest else none with
      | some low => .ok (Text.charOfCode (0x10000 + (n - 0xD800) * 0x400 + (low - 0xDC00)), 10)
      | none => .ok (Text.charOfCode n, 4) := by
  have hbrace : ∀ cs : List Char, ds ++ rest = '{' :: cs → False := by
    intro cs hcs
    obtain _ | ⟨d, ds⟩ := ds
    · cases hlength
    obtain ⟨rfl, -⟩ := List.cons.inj hcs
    have hdigit := h.radixDigit? '{' List.mem_cons_self
    simp [Decimal.radixDigit?] at hdigit
  have hdrop : (ds ++ rest).drop 4 = rest := by rw [← hlength, List.drop_left]
  have hread := unicodeEscape.eq_2 (ds ++ rest) hbrace
  rw [h.hexCode? hlength] at hread
  dsimp only at hread
  rw [hdrop] at hread
  exact hread

theorem unicodeEscape_unit (h : HexNumber ds c.toNat) (hlength : ds.length = 4) (rest : List Char) :
    unicodeEscape (ds ++ rest) = .ok (c, 4) := by
  rw [unicodeEscape_digits h hlength, Text.isHighSurrogate_toNat]
  simp only [Bool.false_eq_true, if_false, Text.charOfCode_toNat]

theorem unicodeEscape_pair {hs ls : List Char} {high low : Nat}
    (hunits : Text.charUnits c = [high, low]) (hhigh : HexNumber hs high)
    (hhighLength : hs.length = 4) (hlow : HexNumber ls low) (hlowLength : ls.length = 4)
    (rest : List Char) : unicodeEscape (hs ++ '\\' :: 'u' :: (ls ++ rest)) = .ok (c, 10) := by
  obtain ⟨hhighHalf, hlowHalf, hcode⟩ := Text.charUnits_eq_pair hunits
  have hsecond : lowSurrogate? ('\\' :: 'u' :: (ls ++ rest)) = some low := by
    simp [lowSurrogate?, hlow.hexCode? hlowLength, hlowHalf]
  rw [unicodeEscape_digits hhigh hhighLength, if_pos hhighHalf, hsecond]
  simp only [hcode, Text.charOfCode_toNat]

/-! ### Spellings one after the other -/

variable {quote : Char} {v w rest cs : List Char} {used total : Nat}

/-- An escape stands for what it is read as, if anything. -/
theorem quotedBody_escape (hquote : IsQuote quote) {d? : Option Char}
    (hescape : escape (v ++ rest) = .ok (d?, v.length))
    (hrest : quotedBody quote rest 0 (used + ('\\' :: v).length) = .ok (cs, total)) :
    quotedBody quote ('\\' :: v ++ rest) 0 used = .ok (d?.toList ++ cs, total) := by
  have hslash : '\\' ≠ quote := by rcases hquote with rfl | rfl <;> decide
  have hskip : quotedBody quote (v ++ rest) v.length (used + 1) = .ok (cs, total) := by
    rw [quotedBody_skip, List.drop_left, ← hrest, List.length_cons, Nat.add_assoc, Nat.add_comm 1]
  rw [List.cons_append, quotedBody, if_neg hslash, if_neg (by decide), if_pos rfl, hescape]
  dsimp only
  rw [hskip]
  rfl

/-- A spelling stands for its character. -/
theorem CharSpelling.quotedBody (hquote : IsQuote quote) (h : CharSpelling quote v c)
    (hrest : quotedBody quote rest 0 (used + v.length) = .ok (cs, total)) :
    quotedBody quote (v ++ rest) 0 used = .ok (c :: cs, total) := by
  cases h with
  | self hne hslash hfeed hreturn =>
    rw [List.singleton_append, Token.quotedBody, if_neg hne, if_neg (not_or.mpr ⟨hfeed, hreturn⟩),
      if_neg hslash]
    rw [List.length_singleton] at hrest
    rw [hrest]
    rfl
  | short hmark => exact quotedBody_escape hquote (escape_short hmark rest) hrest
  | @byte ds _ hdigits hlength =>
    have hescape : escape ('x' :: ds ++ rest) = .ok (some c, ('x' :: ds).length) := by
      rw [escape_byte hdigits hlength, List.length_cons, hlength]
    exact quotedBody_escape hquote hescape hrest
  | @braces ds _ hdigits =>
    have hescape : escape ('u' :: '{' :: ds ++ ['}'] ++ rest) =
        .ok (some c, ('u' :: '{' :: ds ++ ['}']).length) := by
      simpa using escape_unicode (unicodeEscape_braces hdigits rest)
    exact quotedBody_escape hquote hescape hrest
  | @unit ds _ hdigits hlength =>
    have hescape : escape ('u' :: ds ++ rest) = .ok (some c, ('u' :: ds).length) := by
      rw [List.length_cons, hlength]
      exact escape_unicode (unicodeEscape_unit hdigits hlength rest)
    exact quotedBody_escape hquote hescape hrest
  | @pair hs ls high low _ hunits hhigh hhighLength hlow hlowLength =>
    have hescape : escape ('u' :: hs ++ '\\' :: 'u' :: ls ++ rest) =
        .ok (some c, ('u' :: hs ++ '\\' :: 'u' :: ls).length) := by
      simpa [hhighLength, hlowLength] using
        escape_unicode (unicodeEscape_pair hunits hhigh hhighLength hlow hlowLength rest)
    exact quotedBody_escape hquote hescape hrest

/-- The reader takes one spelling after the other, up to the closing quote. -/
theorem Written.quotedBody (hquote : IsQuote quote) (h : Written quote w cs) (used : Nat) :
    quotedBody quote (w ++ [quote]) 0 used = .ok (cs, used + w.length + 1) := by
  induction h generalizing used with
  | nil =>
    rw [List.nil_append, Token.quotedBody, if_pos rfl]
    rfl
  | @continued w cs _ ih =>
    have hescape : escape ('\n' :: (w ++ [quote])) = .ok (none, 1) := rfl
    have htotal : used + 2 + w.length + 1 = used + ('\\' :: '\n' :: w).length + 1 := by
      simp only [List.length_cons]
      omega
    rw [← htotal]
    exact quotedBody_escape (v := ['\n']) hquote hescape (ih (used + 2))
  | @char v w c cs hspelling _ ih =>
    have htotal : used + v.length + w.length + 1 = used + (v ++ w).length + 1 := by
      rw [List.length_append, Nat.add_assoc used]
    rw [← htotal, List.append_assoc]
    exact hspelling.quotedBody hquote (ih (used + v.length))

end Token

namespace Expr

/-- **Whatever way a text is written in quotes, it is parsed as this text.** -/
theorem parse_of_written {limit : Nat} {quote : Char} {w : List Char} {s : String}
    (hlimit : 0 < limit) (hquote : IsQuote quote) (h : Written quote w s.toList) :
    parse limit (String.ofList (quote :: w ++ [quote])) = .ok (text s) := by
  have hblank : Text.isBlank quote = false := by rcases hquote with rfl | rfl <;> decide
  have hread :
      Token.read (quote :: (w ++ [quote])) = .ok (.text s, (quote :: (w ++ [quote])).length) := by
    have hlength : 1 + w.length + 1 = (quote :: (w ++ [quote])).length := by
      simp only [List.length_cons, List.length_append, List.length_nil]
      omega
    rw [read_quote hquote, h.quotedBody hquote 1, hlength]
    exact congrArg (fun s => Except.ok (Token.text s, _)) String.ofList_toList
  exact parse_of_read hlimit hblank hread (.text rfl)

/-- A character by itself, a line break that is passed over, the halves of a pair, a code of two
digits, one in braces and an escape of one letter. -/
theorem parse_of_written_mixed :
    parse 256 "\"a\\\n\\ud83d\\uDE00\\xe9\\u\x7b041\x7d\\n\"" = .ok (text "a😀éA\n") := by
  have hhigh : HexNumber ['d', '8', '3', 'd'] 0xD83D :=
    (((HexNumber.digit (by decide : HexDigit 'd' 13)).snoc (by decide : HexDigit '8' 8)).snoc
      (by decide : HexDigit '3' 3)).snoc (by decide : HexDigit 'd' 13)
  have hlow : HexNumber ['D', 'E', '0', '0'] 0xDE00 :=
    (((HexNumber.digit (by decide : HexDigit 'D' 13)).snoc (by decide : HexDigit 'E' 14)).snoc
      (by decide : HexDigit '0' 0)).snoc (by decide : HexDigit '0' 0)
  have hbyte : HexNumber ['e', '9'] 'é'.toNat :=
    (HexNumber.digit (by decide : HexDigit 'e' 14)).snoc (by decide : HexDigit '9' 9)
  have hbraces : HexNumber ['0', '4', '1'] 'A'.toNat :=
    ((HexNumber.digit (by decide : HexDigit '0' 0)).snoc (by decide : HexDigit '4' 4)).snoc
      (by decide : HexDigit '1' 1)
  have hpair : CharSpelling '"' _ '😀' := .pair (by decide) hhigh rfl hlow rfl
  have hfeed : CharSpelling '"' ['\\', 'n'] '\n' := .short (by decide)
  have hwritten : Written '"' _ ['a', '😀', 'é', 'A', '\n'] :=
    .char (.self (by decide) (by decide) (by decide) (by decide)) <| .continued <| .char hpair <|
      .char (.byte hbyte rfl) <| .char (.braces hbraces) <| .char hfeed .nil
  have hchars : "a😀éA\n".toList = ['a', '😀', 'é', 'A', '\n'] := by decide +kernel
  rw [← hchars] at hwritten
  have hlimit : 0 < 256 := by decide
  have hparse := parse_of_written hlimit (Or.inl rfl) hwritten
  exact hparse

end Expr

end FormulaSheet
