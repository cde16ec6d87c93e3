import FormulaSheet.Proofs.Decimal.Numeral
import FormulaSheet.Proofs.Expr.Scanner

/-!
# Quoted texts read by byte offsets

A step of the scanner that stands between the characters passed and those to come does with the
offset what the reader of tokens does with the characters to come.
-/

namespace FormulaSheet.Scanner

open Text (byteSize)

variable {α β : Type} {text pre cs w post : List Char} {c : Char} {n m : Nat}

/-! ### Looking and moving -/

theorem bind_ok {p : Scan α} {a : α} (h : p n = some (.ok (a, m))) (next : α → Scan β) :
    (p >>= next) n = next a m := by
  show (p n).bind _ = _
  rw [h]
  rfl

theorem bind_error {p : Scan α} {e : SyntaxError} (h : p n = some (.error e)) (next : α → Scan β) :
    (p >>= next) n = some (.error e) := by
  show (p n).bind _ = _
  rw [h]
  rfl

/-- Characters that come next are passed over. -/
theorem pass_over (w : List Char) (h : text = pre ++ (w ++ cs)) : text = (pre ++ w) ++ cs := by
  rw [h, List.append_assoc]

theorem rest_at (h : text = pre ++ cs) :
    rest text (byteSize pre) = some (.ok (cs, byteSize pre)) := by
  rw [rest, h, Text.from?_append]
  rfl

theorem peek_at (h : text = pre ++ cs) :
    peek text (byteSize pre) = some (.ok (cs.head?, byteSize pre)) :=
  bind_ok (rest_at h) _

theorem peekAt_at (h : text = pre ++ cs) (i : Nat) :
    peekAt text i (byteSize pre) = some (.ok (cs[i]?, byteSize pre)) :=
  bind_ok (rest_at h) _

theorem nextIs_at (h : text = pre ++ cs) (p : Char → Bool) :
    nextIs text p (byteSize pre) = some (.ok (cs.head?.any p, byteSize pre)) :=
  bind_ok (peek_at h) _

theorem slice_at (h : text = pre ++ (w ++ post)) (n : Nat) :
    slice text (byteSize pre) (byteSize (pre ++ w)) n = some (.ok (w, n)) := by
  rw [slice, Text.slice?_eq_some_iff.mpr ⟨pre, post, h, rfl, rfl⟩]
  rfl

theorem advance_at (h : text = pre ++ c :: cs) :
    advance text (byteSize pre) = some (.ok ((), byteSize (pre ++ [c]))) := by
  refine (bind_ok (peek_at h) _).trans ?_
  rw [Text.byteSize_append, Text.byteSize_cons, Text.byteSize_nil]
  rfl

theorem eat_cons (h : text = pre ++ c :: cs) :
    eat text c (byteSize pre) = some (.ok (true, byteSize (pre ++ [c]))) := by
  have hnext : (c :: cs).head?.any (· == c) = true := beq_self_eq_true c
  refine (bind_ok (nextIs_at h _) _).trans ?_
  rw [hnext, if_pos rfl]
  exact bind_ok (advance_at h) _

theorem eat_ne (h : text = pre ++ cs) (hne : cs.head? ≠ some c) :
    eat text c (byteSize pre) = some (.ok (false, byteSize pre)) := by
  have hnext : cs.head?.any (· == c) = false := by
    cases cs with
    | nil => rfl
    | cons d cs => exact beq_false_of_ne fun he => hne (congrArg some he)
  refine (bind_ok (nextIs_at h _) _).trans ?_
  rw [hnext]
  rfl

/-- The characters of a kind are passed. -/
theorem skipWhile_at (h : text = pre ++ cs) (p : Char → Bool) {fuel : Nat}
    (hfuel : cs.length ≤ fuel) :
    skipWhile text p fuel (byteSize pre) = some (.ok ((), byteSize (pre ++ cs.takeWhile p))) := by
  induction fuel generalizing pre cs with
  | zero =>
    obtain rfl := List.length_eq_zero_iff.mp (Nat.le_zero.mp hfuel)
    rw [List.takeWhile_nil, List.append_nil]
    rfl
  | succ fuel ih =>
    refine (bind_ok (nextIs_at h p) _).trans ?_
    cases cs with
    | nil =>
      rw [List.takeWhile_nil, List.append_nil]
      rfl
    | cons c cs =>
      rw [List.head?_cons, Option.any_some, List.takeWhile_cons]
      cases hc : p c with
      | false =>
        rw [if_neg Bool.false_ne_true, if_neg Bool.false_ne_true, List.append_nil]
        rfl
      | true =>
        rw [if_pos rfl, if_pos rfl, bind_ok (advance_at h),
          ih (by rw [List.append_assoc, List.singleton_append, h]) (Nat.le_of_succ_le_succ hfuel),
          List.append_assoc, List.singleton_append]

theorem length_le (h : text = pre ++ cs) : cs.length ≤ text.length := by
  rw [h, List.length_append]
  exact Nat.le_add_left _ _

/-- The characters of a kind are found between the offsets before and behind them. -/
theorem run_at (h : text = pre ++ cs) (p : Char → Bool) :
    run text p (byteSize pre) = some (.ok (cs.takeWhile p, byteSize (pre ++ cs.takeWhile p))) := by
  have hsplit : text = pre ++ (cs.takeWhile p ++ cs.dropWhile p) := by
    rw [List.takeWhile_append_dropWhile, h]
  refine (bind_ok (p := get) rfl _).trans ?_
  refine (bind_ok (skipWhile_at h p (length_le h)) _).trans ?_
  refine (bind_ok (p := get) rfl _).trans ?_
  exact slice_at hsplit _

/-! ### What a reader of characters finds -/

/-- The place in the text of what a reader finds in the characters `cs` behind `pre`. -/
def placed (pre cs : List Char) :
    Except (SyntaxFault × Nat) (α × Nat) → Option (Except SyntaxError (α × Nat))
  | .ok (a, n) => some (.ok (a, byteSize (pre ++ cs.take n)))
  | .error (fault, n) => some (.error ⟨fault, byteSize (pre ++ cs.take n)⟩)

theorem placed_ok (pre w post : List Char) (a : α) :
    placed pre (w ++ post) (.ok (a, w.length)) = some (.ok (a, byteSize (pre ++ w))) := by
  rw [placed, List.take_left]

theorem placed_error (pre w post : List Char) (fault : SyntaxFault) :
    placed (α := α) pre (w ++ post)
      (.error (fault, w.length)) = some (.error ⟨fault, byteSize (pre ++ w)⟩) := by
  rw [placed, List.take_left]

/-- Nothing was passed. -/
theorem placed_ok_zero (pre cs : List Char) (a : α) :
    placed pre cs (.ok (a, 0)) = some (.ok (a, byteSize pre)) := by
  rw [placed, List.take_zero, List.append_nil]

theorem placed_error_zero (pre cs : List Char) (fault : SyntaxFault) :
    placed (α := α) pre cs (.error (fault, 0)) = some (.error ⟨fault, byteSize pre⟩) := by
  rw [placed, List.take_zero, List.append_nil]

/-- A result that is made from what was found. -/
theorem map_placed {p : Scan α} {r : Except (SyntaxFault × Nat) (α × Nat)}
    (h : p n = placed pre cs r) (f : α → β) :
    (p >>= fun a => pure (f a)) n = placed pre cs (do let (a, k) ← r; pure (f a, k)) := by
  cases r with
  | error e => exact bind_error h _
  | ok found => exact bind_ok h _

/-! ### Hexadecimal digits -/

theorem byteSize_eq_length (h : ∀ c ∈ w, c.utf8Size = 1) : byteSize w = w.length := by
  induction w with
  | nil => rfl
  | cons c w ih =>
    obtain ⟨hc, hw⟩ := List.forall_mem_cons.mp h
    rw [Text.byteSize_cons, hc, ih hw, List.length_cons, Nat.add_comm]

/-- A digit takes a single byte. -/
theorem utf8Size_of_radixDigit? {radix : Nat} (h : (Decimal.radixDigit? radix c).isSome = true) :
    c.utf8Size = 1 := by
  have hascii : c.toNat < 128 := by
    apply Nat.lt_of_not_le
    intro hle
    rw [Decimal.radixDigit?_of_not_ascii hle] at h
    cases h
  rw [Char.utf8Size_eq_one_iff]
  exact UInt32.le_iff_toNat_le.mpr (Nat.le_of_lt_succ hascii)

theorem byteSize_of_readRadix? {radix code : Nat} (h : Decimal.readRadix? radix w = some code) :
    byteSize w = w.length := by
  apply byteSize_eq_length
  intro c hc
  apply utf8Size_of_radixDigit?
  rw [Option.isSome_iff_ne_none]
  intro hnone
  rw [Token.readRadix?_eq_none hc hnone] at h
  cases h

/-- Digits are looked for in as many bytes as there would be digits. -/
theorem upTo?_bind_readRadix? (count : Nat) (cs : List Char) :
    (Text.upTo? cs count).bind (Decimal.readRadix? 16) = Token.hexCode? count cs := by
  apply Option.ext
  intro code
  rw [Option.bind_eq_some_iff]
  constructor
  · rintro ⟨w, hw, hcode⟩
    obtain ⟨post, rfl, hcount⟩ := Text.upTo?_eq_some_iff.mp hw
    rw [byteSize_of_readRadix? hcode] at hcount
    rw [Token.hexCode?, List.take_left' hcount.symm, if_pos hcount.symm, hcode]
  · intro hcode
    rw [Token.hexCode?] at hcode
    split at hcode
    · rename_i hlength
      refine ⟨cs.take count, Text.upTo?_eq_some_iff.mpr ⟨cs.drop count, ?_, ?_⟩, hcode⟩
      · exact (List.take_append_drop count cs).symm
      · rw [byteSize_of_readRadix? hcode, hlength]
    · cases hcode

theorem slice?_at (h : text = pre ++ cs) (count : Nat) :
    Text.slice? text (byteSize pre) (byteSize pre + count) = Text.upTo? cs count := by
  rw [Text.slice?, if_pos (Nat.le_add_right _ _), h, Text.from?_append, Option.bind_some,
    Nat.add_sub_cancel_left]

/-- Where the digits are, they are passed. -/
theorem readHex_some (h : text = pre ++ cs) {count code : Nat}
    (hcode : Token.hexCode? count cs = some code) :
    readHex text count (byteSize pre) =
      some (.ok (some code, byteSize (pre ++ cs.take count))) := by
  have hsize : byteSize (pre ++ cs.take count) = byteSize pre + count := by
    rw [Token.hexCode?] at hcode
    split at hcode
    · rename_i hlength
      rw [Text.byteSize_append, byteSize_of_readRadix? hcode, hlength]
    · cases hcode
  refine (bind_ok (p := get) rfl _).trans ?_
  rw [slice?_at h, upTo?_bind_readRadix?, hcode, hsize]
  rfl

theorem readHex_none (h : text = pre ++ cs) {count : Nat} (hcode : Token.hexCode? count cs = none) :
    readHex text count (byteSize pre) = some (.ok (none, byteSize pre)) := by
  refine (bind_ok (p := get) rfl _).trans ?_
  rw [slice?_at h, upTo?_bind_readRadix?, hcode]
  rfl

/-! ### Escapes -/

theorem readLowSurrogate_at (h : text = pre ++ cs) :
    ∃ pos, readLowSurrogate text (byteSize pre) = some (.ok (Token.lowSurrogate? cs, pos)) ∧
      pos =
        if (Token.lowSurrogate? cs).isSome then byteSize (pre ++ cs.take 6) else byteSize pre := by
  unfold readLowSurrogate
  rw [bind_ok (p := get) rfl, bind_ok (rest_at h)]
  split
  · rename_i ds
    have hslash : text = (pre ++ ['\\']) ++ 'u' :: ds := pass_over ['\\'] h
    have hmark : text = (pre ++ ['\\'] ++ ['u']) ++ ds := pass_over ['u'] hslash
    rw [bind_ok (advance_at h), bind_ok (advance_at hslash), Token.lowSurrogate?]
    cases hcode : Token.hexCode? 4 ds with
    | none =>
      rw [bind_ok (readHex_none hmark hcode)]
      exact ⟨_, rfl, rfl⟩
    | some code =>
      rw [bind_ok (readHex_some hmark hcode)]
      cases hlow : (some code).filter Text.isLowSurrogate with
      | none => exact ⟨_, rfl, rfl⟩
      | some low =>
        refine ⟨_, rfl, ?_⟩
        rw [List.append_assoc, List.append_assoc]
        rfl
  · rename_i hne
    have hnone : Token.lowSurrogate? cs = none := by
      unfold Token.lowSurrogate?
      split
      · rename_i ds
        exact absurd rfl (hne ds)
      · rfl
    rw [hnone]
    exact ⟨_, rfl, rfl⟩

theorem bracedCode_at (h : text = pre ++ '\x7b' :: cs) :
    bracedCode text (byteSize (pre ++ ['\x7b'])) = placed pre ('\x7b' :: cs)
      (Token.unicodeEscape ('\x7b' :: cs)) := by
  obtain ⟨ds, post, rfl, hall, hend⟩ :=
    Text.exists_run (fun c => (Decimal.radixDigit? 16 c).isSome) cs
  have hopen : text = (pre ++ ['\x7b']) ++ (ds ++ post) := pass_over ['\x7b'] h
  have hdigits : text = (pre ++ ['\x7b'] ++ ds) ++ post := pass_over ds hopen
  have hplace : ∀ k, byteSize (pre ++ ('\x7b' :: (ds ++ post)).take (ds.length + k + 1)) =
      byteSize (pre ++ ['\x7b'] ++ ds ++ post.take k) := by
    intro k
    rw [List.take_succ_cons, List.take_length_add_append, List.append_assoc, List.append_assoc]
    rfl
  unfold bracedCode
  rw [bind_ok (p := get) rfl, bind_ok (run_at hopen _), Text.takeWhile_append hall hend,
    Token.unicodeEscape_braced hall hend]
  cases (Decimal.readRadix? 16 ds).filter (· < UInt32.size) with
  | none => rfl
  | some code =>
    by_cases hclose : post.head? = some '\x7d'
    · obtain ⟨rest, rfl⟩ := List.head?_eq_some_iff.mp hclose
      simp only [hclose, if_true]
      rw [bind_ok (eat_cons hdigits), if_pos rfl]
      by_cases hvalid : code.isValidChar
      · rw [if_pos hvalid, if_pos hvalid, placed, hplace 1]
        rfl
      · rw [if_neg hvalid, if_neg hvalid]
        rfl
    · simp only [if_neg hclose]
      rw [bind_ok (eat_ne hdigits hclose), if_neg Bool.false_ne_true, placed, hplace 0,
        List.take_zero, List.append_nil]
      rfl

theorem unicodeEscape_at (h : text = pre ++ cs) :
    unicodeEscape text (byteSize pre) = placed pre cs (Token.unicodeEscape cs) := by
  unfold unicodeEscape
  by_cases hbrace : cs.head? = some '\x7b'
  · obtain ⟨rest, rfl⟩ := List.head?_eq_some_iff.mp hbrace
    rw [bind_ok (eat_cons h), if_pos rfl]
    exact bracedCode_at h
  · have hne : ∀ rest, cs = '\x7b' :: rest → False := by
      rintro rest rfl
      exact hbrace rfl
    rw [bind_ok (eat_ne h hbrace), if_neg Bool.false_ne_true, Token.unicodeEscape.eq_2 _ hne]
    cases hcode : Token.hexCode? 4 cs with
    | none =>
      rw [bind_ok (readHex_none h hcode)]
      exact (placed_error_zero pre cs _).symm
    | some code =>
      have hrest : text = (pre ++ cs.take 4) ++ cs.drop 4 := by
        rw [List.append_assoc, List.take_append_drop, h]
      rw [bind_ok (readHex_some h hcode)]
      simp only
      by_cases hhigh : Text.isHighSurrogate code = true
      · rw [if_pos hhigh, if_pos hhigh]
        obtain ⟨pos, hlow, hpos⟩ := readLowSurrogate_at hrest
        rw [bind_ok hlow]
        cases hfound : Token.lowSurrogate? (cs.drop 4) with
        | none =>
          rw [hfound] at hpos
          rw [hpos]
          rfl
        | some low =>
          rw [hfound] at hpos
          rw [hpos, placed, List.append_assoc, Option.isSome_some, if_pos rfl, ← List.take_add]
          rfl
      · rw [if_neg hhigh, if_neg hhigh]
        rfl

theorem fault_of_unicodeEscape {fault : SyntaxFault}
    (h : Token.unicodeEscape cs = .error (fault, n)) : fault = .invalidUnicodeEscape := by
  unfold Token.unicodeEscape at h
  split at h
  · simp only at h
    split at h
    · exact (Prod.mk.inj (Except.error.inj h)).1.symm
    · split at h
      · split at h
        · cases h
        · exact (Prod.mk.inj (Except.error.inj h)).1.symm
      · exact (Prod.mk.inj (Except.error.inj h)).1.symm
  · split at h
    · exact (Prod.mk.inj (Except.error.inj h)).1.symm
    · split at h <;> cases h

/-- An escape is placed behind its backslash, unless the text ends there; then the fault lies
where the quoted text starts. -/
theorem escape_at (h : text = pre ++ cs) (start : Nat) :
    escape text start (byteSize pre) =
      match Token.escape cs with
      | .error (.unterminatedText, _) => some (.error ⟨.unterminatedText, start⟩)
      | r => placed pre cs r := by
  unfold escape
  rw [bind_ok (peek_at h)]
  cases cs with
  | nil => rfl
  | cons c cs =>
    have hrest : text = (pre ++ [c]) ++ cs := pass_over [c] h
    show (advance text >>= fun _ => _) (byteSize pre) = _
    rw [bind_ok (advance_at h), Token.escape]
    by_cases hx : c = 'x'
    · subst hx
      simp only [Char.reduceEq, if_false, if_true]
      cases hcode : Token.hexCode? 2 cs with
      | none =>
        rw [bind_ok (readHex_none hrest hcode)]
        rfl
      | some code =>
        rw [bind_ok (readHex_some hrest hcode), List.append_assoc]
        rfl
    · by_cases hu : c = 'u'
      · subst hu
        simp only [Char.reduceEq, if_false, if_true]
        rw [map_placed (unicodeEscape_at hrest)]
        cases hcode : Token.unicodeEscape cs with
        | error e =>
          obtain ⟨fault, n⟩ := e
          obtain rfl := fault_of_unicodeEscape hcode
          show some _ = some _
          rw [List.append_assoc]
          rfl
        | ok found =>
          show some _ = some _
          rw [List.append_assoc]
          rfl
      · simp only [hx, hu, if_false]
        split_ifs <;> rfl

/-! ### Quoted texts -/

/-- Behind the end of the text it does not matter how much was read. -/
theorem quotedBody_drop (quote : Char) (cs : List Char) (skip used : Nat) :
    Token.quotedBody quote (cs.drop skip) 0 (used + skip) =
      Token.quotedBody quote (cs.drop skip) 0 (used + (cs.take skip).length) := by
  rcases Nat.le_total skip cs.length with hle | hle
  · rw [List.length_take_of_le hle]
  · rw [List.drop_of_length_le hle]
    rfl

/-- An escape in a quoted text, and what is read behind it: a fault of the escape lies where the
escape stopped, the missing end of the quoted text where the text starts. -/
theorem escape_then {used : List Char} (h : text = pre ++ (used ++ cs))
    {next : Option Char → Scan α} {found : Option Char → Nat → Except (SyntaxFault × Nat) (α × Nat)}
    (hnext : ∀ d? k,
      next d? (byteSize (pre ++ (used ++ cs.take k))) = placed pre (used ++ cs) (found d? k)) :
    (escape text (byteSize pre) >>= next) (byteSize (pre ++ used)) =
      placed pre (used ++ cs) (match Token.escape cs with
        | .error (.unterminatedText, _) => .error (.unterminatedText, 0)
        | .error (fault, k) => .error (fault, used.length + k)
        | .ok (d?, k) => found d? k) := by
  have hescape := escape_at (pass_over used h) (byteSize pre)
  cases hread : Token.escape cs with
  | error e =>
    obtain ⟨fault, k⟩ := e
    rw [hread] at hescape
    by_cases hfault : fault = .unterminatedText
    · subst hfault
      exact (bind_error hescape _).trans (placed_error_zero _ _ _).symm
    · have hskip : placed (α := α) (pre ++ used) cs (.error (fault, k)) =
          placed pre (used ++ cs) (.error (fault, used.length + k)) := by
        rw [placed, placed, List.take_length_add_append, List.append_assoc]
      have hplaced : escape text (byteSize pre) (byteSize (pre ++ used)) =
          placed (pre ++ used) cs (.error (fault, k)) := by
        rw [hescape]
        cases fault <;> first | rfl | exact absurd rfl hfault
      refine (bind_error hplaced _).trans (hskip.trans ?_)
      cases fault <;> first | rfl | exact absurd rfl hfault
  | ok read =>
    obtain ⟨d?, k⟩ := read
    rw [hread] at hescape
    rw [bind_ok hescape, List.append_assoc]
    exact hnext d? k

/-- The characters of a quoted text are read behind those of the token that were read before. -/
theorem quotedRest_at (quote : Char) {used : List Char} (h : text = pre ++ (used ++ cs))
    {fuel : Nat} (hfuel : cs.length < fuel) :
    quotedRest text quote (byteSize pre) fuel (byteSize (pre ++ used)) =
      placed pre (used ++ cs) (Token.quotedBody quote cs 0 used.length) := by
  induction fuel generalizing used cs with
  | zero => exact absurd hfuel (Nat.not_lt_zero _)
  | succ fuel ih =>
    have hused : text = (pre ++ used) ++ cs := pass_over used h
    unfold quotedRest
    rw [bind_ok (peek_at hused)]
    cases cs with
    | nil => exact (placed_error_zero _ _ _).symm
    | cons c cs =>
      have hnext : text = pre ++ ((used ++ [c]) ++ cs) := by
        rw [h, List.append_assoc used]
        rfl
      have hlength : (used ++ [c]).length = used.length + 1 := List.length_append
      have hsplit : used ++ c :: cs = (used ++ [c]) ++ cs := by
        rw [List.append_assoc]
        rfl
      have hshort : cs.length < fuel := Nat.lt_of_succ_lt_succ hfuel
      show (advance text >>= fun _ => _) (byteSize (pre ++ used)) = _
      rw [bind_ok (advance_at hused), List.append_assoc, hsplit, Token.quotedBody]
      by_cases hquote : c = quote
      · rw [if_pos hquote, if_pos hquote, ← hlength, placed_ok]
        rfl
      · by_cases hbreak : c = '\n' ∨ c = '\r'
        · rw [if_neg hquote, if_neg hquote, if_pos hbreak, if_pos hbreak, placed_error_zero]
          rfl
        · by_cases hslash : c = '\\'
          · rw [if_neg hquote, if_neg hquote, if_neg hbreak, if_neg hbreak, if_pos hslash,
              if_pos hslash, ← hlength]
            refine escape_then hnext fun d? k => ?_
            -- what is left behind the escape is shorter, which is what the induction is on
            have hdrop : used ++ [c] ++ cs = (used ++ [c] ++ cs.take k) ++ cs.drop k := by
              rw [List.append_assoc _ (cs.take k), List.take_append_drop]
            have hleft : (cs.drop k).length < fuel :=
              Nat.lt_of_le_of_lt (List.drop_sublist k cs).length_le hshort
            rw [Token.quotedBody_skip, quotedBody_drop, ← List.length_append, hdrop]
            exact map_placed (ih (hdrop ▸ hnext) hleft) _
          · rw [if_neg hquote, if_neg hquote, if_neg hbreak, if_neg hbreak, if_neg hslash,
              if_neg hslash, ← hlength]
            exact map_placed (ih hnext hshort) _

theorem quotedText_at {quote : Char} (h : text = pre ++ quote :: cs) :
    quotedText text quote (byteSize pre) = placed pre (quote :: cs) (do
      let (ds, n) ← Token.quotedBody quote cs 0 1
      pure (.text (String.ofList ds), n)) := by
  have hfuel : cs.length < text.length + 1 := by
    have hle := length_le h
    rw [List.length_cons] at hle
    omega
  unfold quotedText
  rw [bind_ok (p := get) rfl, bind_ok (advance_at h)]
  exact map_placed (quotedRest_at quote h hfuel) _

end FormulaSheet.Scanner
