import FormulaSheet.Proofs.Expr.Token

/-!
# The lexemes of a text

A text that can be cut into tokens up to its end consists of lexemes and blank characters. `Lexed`
says which lexemes these are and where they stand, one case for the end of the text, one for a blank
character and one for a token; `Tokens.ofText` finds exactly them (`Tokens.scan_eq_iff`).
-/

namespace FormulaSheet

/-- Lexemes in front of other tokens. -/
def Tokens.prepend (ls : List Lexeme) (ts : Tokens) : Tokens := ls.foldr Tokens.next ts

namespace Tokens

variable {l : Lexeme} {ls ks : List Lexeme} {ts : Tokens}

@[simp] theorem prepend_nil : prepend [] ts = ts := rfl

@[simp] theorem prepend_cons : prepend (l :: ls) ts = next l (prepend ls ts) := rfl

@[simp] theorem prepend_append : prepend (ls ++ ks) ts = prepend ls (prepend ks ts) := by
  rw [prepend, List.foldr_append]
  rfl

@[simp] theorem length_prepend : (prepend ls ts).length = ls.length + ts.length := by
  induction ls with
  | nil => rw [prepend_nil, List.length_nil, Nat.zero_add]
  | cons l ls ih =>
    rw [prepend_cons, Tokens.length, ih, List.length_cons]
    omega

end Tokens

/-- The text `cs` begins at `offset`, ends at `stop` and consists of the lexemes and of blanks. -/
inductive Lexed : List Char → Nat → List Lexeme → Nat → Prop where
  | finish {offset : Nat} : Lexed [] offset [] offset
  | blank {c : Char} {cs : List Char} {offset stop : Nat} {ls : List Lexeme}
      (hblank : Text.isBlank c = true) (hrest : Lexed cs (offset + c.utf8Size) ls stop) :
      Lexed (c :: cs) offset ls stop
  | token {c : Char} {w rest : List Char} {offset stop : Nat} {token : Token} {ls : List Lexeme}
      (hblank : Text.isBlank c = false)
      (hread : Token.read (c :: w ++ rest) = .ok (token, (c :: w).length))
      (hrest : Lexed rest (offset + Text.byteSize (c :: w)) ls stop) :
      Lexed (c :: w ++ rest) offset
        (⟨token, String.ofList (c :: w), offset, offset + Text.byteSize (c :: w)⟩ :: ls) stop

namespace Tokens

theorem scan_skip (w rest : List Char) (offset : Nat) :
    scan (w ++ rest) w.length offset = scan rest 0 (offset + Text.byteSize w) := by
  induction w generalizing offset with
  | nil => rw [List.nil_append, List.length_nil, Text.byteSize_nil, Nat.add_zero]
  | cons c w ih =>
    rw [List.cons_append, List.length_cons, scan, ih, Text.byteSize_cons, Nat.add_assoc]

theorem scan_blank {c : Char} {cs : List Char} {offset : Nat} (hblank : Text.isBlank c = true) :
    scan (c :: cs) 0 offset = scan cs 0 (offset + c.utf8Size) := by
  rw [scan, if_pos hblank]

theorem scan_blanks {bs : List Char} (hblank : ∀ c ∈ bs, Text.isBlank c = true) (cs : List Char)
    (offset : Nat) : scan (bs ++ cs) 0 offset = scan cs 0 (offset + Text.byteSize bs) := by
  induction bs generalizing offset with
  | nil => rfl
  | cons c bs ih =>
    obtain ⟨hc, hbs⟩ := List.forall_mem_cons.mp hblank
    rw [List.cons_append, scan_blank hc, ih hbs, Text.byteSize_cons, Nat.add_assoc]

theorem scan_token {c : Char} {w rest : List Char} {offset : Nat} {token : Token}
    (hblank : Text.isBlank c = false)
    (hread : Token.read (c :: w ++ rest) = .ok (token, (c :: w).length)) :
    scan (c :: w ++ rest) 0 offset =
      next ⟨token, String.ofList (c :: w), offset, offset + Text.byteSize (c :: w)⟩
        (scan rest 0 (offset + Text.byteSize (c :: w))) := by
  have htake : (c :: (w ++ rest)).take (w.length + 1) = c :: w := by
    rw [List.take_succ_cons, List.take_left]
  have hskip : scan (w ++ rest) w.length (offset + c.utf8Size)
      = scan rest 0 (offset + Text.byteSize (c :: w)) := by
    rw [scan_skip, Text.byteSize_cons, Nat.add_assoc]
  rw [List.cons_append] at hread ⊢
  rw [scan, hblank, hread]
  simp only [Bool.false_eq_true, if_false, htake, List.length_cons, Nat.add_sub_cancel, hskip]

/-- **The tokens of a text that go up to its end are its lexemes.** -/
theorem scan_eq_iff {cs : List Char} {offset stop : Nat} {ls : List Lexeme} :
    scan cs 0 offset = prepend ls (finish stop) ↔ Lexed cs offset ls stop := by
  constructor
  · -- on the length of the text: after a token the rest is shorter
    induction hn : cs.length using Nat.strong_induction_on generalizing cs offset ls with
    | _ n ih =>
    intro h
    cases cs with
    | nil =>
      cases ls with
      | nil =>
        obtain rfl := Tokens.finish.inj h
        exact Lexed.finish
      | cons l ls => cases h
    | cons c cs =>
      cases hblank : Text.isBlank c with
      | true =>
        rw [scan_blank hblank] at h
        exact Lexed.blank hblank (ih cs.length (by rw [← hn]; exact Nat.lt_succ_self _) rfl h)
      | false =>
        cases hread : Token.read (c :: cs) with
        | error e =>
          rw [scan, hblank, hread] at h
          cases ls <;> cases h
        | ok found =>
          obtain ⟨token, k⟩ := found
          obtain ⟨w, rest, hsplit, rfl, hw, -⟩ := Token.exists_of_read hread
          obtain _ | ⟨d, w⟩ := w
          · exact absurd rfl hw
          rw [List.cons_append] at hsplit
          obtain ⟨rfl, rfl⟩ := List.cons.inj hsplit
          rw [← List.cons_append] at h hread ⊢
          rw [scan_token hblank hread] at h
          cases ls with
          | nil => cases h
          | cons l ls =>
            obtain ⟨rfl, hrest⟩ := Tokens.next.inj h
            refine Lexed.token hblank hread (ih rest.length ?_ rfl hrest)
            rw [← hn, List.length_cons, List.length_append]
            omega
  · intro h
    induction h with
    | finish => rfl
    | blank hblank _ ih => rw [scan_blank hblank, ih]
    | token hblank hread _ ih => rw [scan_token hblank hread, ih, prepend_cons]

end Tokens

namespace Lexed

variable {cs : List Char} {offset stop : Nat} {ls : List Lexeme}

/-- The lexemes stand within the text. -/
theorem bounds (h : Lexed cs offset ls stop) :
    ∀ l ∈ ls, offset ≤ l.start ∧ l.start < l.stop ∧ l.stop ≤ offset + Text.byteSize cs := by
  induction h with
  | finish => intro l hl; cases hl
  | blank _ _ ih =>
    intro l hl
    obtain ⟨hstart, hlt, hstop⟩ := ih l hl
    rw [Text.byteSize_cons]
    omega
  | @token c w rest offset stop token ls _ _ _ ih =>
    intro l hl
    have hpos := c.utf8Size_pos
    rw [Text.byteSize_append]
    rcases List.mem_cons.mp hl with rfl | hl
    · rw [Text.byteSize_cons]
      refine ⟨Nat.le_refl _, ?_, ?_⟩ <;> dsimp only <;> omega
    · obtain ⟨hstart, hlt, hstop⟩ := ih l hl
      omega

/-- Only a blank text has no lexemes. -/
theorem ne_nil_of_not_allBlank (h : Lexed cs offset ls stop) :
    ls = [] ↔ Text.allBlank cs = true := by
  induction h with
  | finish => simp [Text.allBlank]
  | blank hblank _ ih => simpa [Text.allBlank, hblank] using ih
  | token hblank _ _ _ => simp [Text.allBlank, hblank]

end Lexed

end FormulaSheet
