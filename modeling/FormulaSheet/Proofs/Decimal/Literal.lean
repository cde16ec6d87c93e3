import FormulaSheet.Decimal.Reader
import Mathlib.Data.List.TakeWhile

/-!
# Reading a decimal literal in front of a text

The longest decimal literal at the beginning of a text is followed by a character that cannot go on
with it. Unless this is a letter, which might have begun an exponent, the literal would be the same
before any other text that begins with the same character (`Decimal.readLiteral?_append`).
-/

namespace FormulaSheet

namespace Text

variable {p : Char → Bool} {w rest : List Char}

theorem head_cons {c : Char} (h : p c = false) (cs : List Char) :
    ∀ d ∈ (c :: cs).head?, p d = false := by
  intro d hd
  rw [← Option.some.inj hd]
  exact h

/-- A run of characters of one kind ends before a character that is not of this kind. -/
theorem takeWhile_append (hw : ∀ c ∈ w, p c = true) (hrest : ∀ c ∈ rest.head?, p c = false) :
    (w ++ rest).takeWhile p = w := by
  rw [List.takeWhile_append_of_pos hw]
  cases rest with
  | nil => rw [List.takeWhile_nil, List.append_nil]
  | cons c rest => rw [List.takeWhile_cons, hrest c rfl, if_neg Bool.false_ne_true, List.append_nil]

theorem dropWhile_append (hw : ∀ c ∈ w, p c = true) (hrest : ∀ c ∈ rest.head?, p c = false) :
    (w ++ rest).dropWhile p = rest := by
  rw [List.dropWhile_append_of_pos hw]
  cases rest with
  | nil => rfl
  | cons c rest => rw [List.dropWhile_cons, hrest c rfl, if_neg Bool.false_ne_true]

theorem head?_dropWhile (p : Char → Bool) (cs : List Char) :
    ∀ c ∈ (cs.dropWhile p).head?, p c = false := by
  intro c hc
  have h := List.head?_dropWhile_not p cs
  rw [Option.mem_def.mp hc] at h
  exact h

/-- A text begins with a run of characters of a kind. -/
theorem exists_run (p : Char → Bool) (cs : List Char) :
    ∃ w rest, cs = w ++ rest ∧ (∀ c ∈ w, p c = true) ∧ ∀ c ∈ rest.head?, p c = false :=
  ⟨_, _, List.takeWhile_append_dropWhile.symm, fun _ hc => List.mem_takeWhile_imp hc,
    head?_dropWhile p cs⟩

theorem head?_append_congr {w cs ds : List Char} (h : ds.head? = cs.head?) :
    (w ++ ds).head? = (w ++ cs).head? := by
  cases w with
  | nil => exact h
  | cons c w => rfl

end Text

end FormulaSheet

namespace FormulaSheet.Decimal

theorem readExponent?_cons (c : Char) (cs : List Char) :
    readExponent? (c :: cs) =
      if c = 'e' ∨ c = 'E' then
        match (readSign cs).2.takeWhile Char.isDigit with
        | [] => none
        | ds => some (if (readSign cs).1 then -(natOfDigits ds : Int) else natOfDigits ds,
            (readSign cs).2.dropWhile Char.isDigit)
      else none := by
  rfl

/-- A sign is read in the same way before any digit. -/
theorem readSign_append (cs : List Char) :
    ∃ sign, cs = sign ++ (readSign cs).2 ∧ ∀ d t, d.isDigit = true →
      readSign (sign ++ d :: t) = ((readSign cs).1, d :: t) := by
  unfold readSign
  split
  · exact ⟨['-'], rfl, fun _ _ _ => rfl⟩
  · exact ⟨['+'], rfl, fun _ _ _ => rfl⟩
  · refine ⟨[], rfl, fun d t hd => ?_⟩
    rw [List.nil_append]
    split
    · rename_i heq
      rw [(List.cons.inj heq).1] at hd
      exact absurd hd (by decide)
    · rename_i heq
      rw [(List.cons.inj heq).1] at hd
      exact absurd hd (by decide)
    · rfl

/-- An exponent is read in the same way before anything that does not begin with a digit. -/
theorem readExponent?_append {rest : List Char} {x : Int} {cs : List Char}
    (h : readExponent? cs = some (x, rest)) :
    ∃ w, cs = w ++ rest ∧ ∀ rest' : List Char, (∀ c ∈ rest'.head?, c.isDigit = false) →
      readExponent? (w ++ rest') = some (x, rest') := by
  cases cs with
  | nil => cases h
  | cons c cs =>
    rw [readExponent?_cons] at h
    split at h
    · rename_i hc
      obtain ⟨sign, hsign, hsame⟩ := readSign_append cs
      have hall :=
        fun d => List.mem_takeWhile_imp (x := d) (p := Char.isDigit) (l := (readSign cs).2)
      have hsplit := List.takeWhile_append_dropWhile (p := Char.isDigit) (l := (readSign cs).2)
      generalize (readSign cs).2.takeWhile Char.isDigit = ds at h hall hsplit
      cases ds with
      | nil => cases h
      | cons d ds =>
        rw [Option.some.injEq, Prod.mk.injEq] at h
        obtain ⟨hx, hrest⟩ := h
        refine ⟨c :: sign ++ d :: ds, ?_, fun rest' hrest' => ?_⟩
        · rw [← hrest, List.append_assoc, hsplit, List.cons_append, ← hsign]
        · have hread := hsame d (ds ++ rest') (hall d List.mem_cons_self)
          have htake := Text.takeWhile_append (w := d :: ds) hall hrest'
          have hdrop := Text.dropWhile_append (w := d :: ds) hall hrest'
          rw [List.append_assoc, List.cons_append, List.cons_append, readExponent?_cons, if_pos hc,
            hread]
          rw [List.cons_append] at htake hdrop
          simp only [htake, hdrop, hx]
    · cases h

theorem readExponent?_eq_none {cs : List Char} (h : ∀ c ∈ cs.head?, c ≠ 'e' ∧ c ≠ 'E') :
    readExponent? cs = none := by
  cases cs with
  | nil => rfl
  | cons c cs =>
    obtain ⟨he, hE⟩ := h c rfl
    rw [readExponent?_cons, if_neg (not_or.mpr ⟨he, hE⟩)]

/-- A literal of which the exponent is still to be read, if there is one. -/
def finishLiteral (whole fraction cs : List Char) : Literal × List Char :=
  match readExponent? cs with
  | some (exponent, rest) => (⟨whole, fraction, exponent⟩, rest)
  | none => (⟨whole, fraction, 0⟩, cs)

theorem finishLiteral_append {whole fraction cs rest : List Char} {l : Literal}
    (h : finishLiteral whole fraction cs = (l, rest)) :
    ∃ w, cs = w ++ rest ∧ ((∀ c ∈ rest.head?, c.isAlphanum = false) →
      ∀ rest' : List Char, rest'.head? = rest.head? →
        finishLiteral whole fraction (w ++ rest') = (l, rest')) := by
  have hdigit : ∀ c : Char, c.isAlphanum = false → c.isDigit = false := by
    intro c hc
    rw [Char.isAlphanum, Bool.or_eq_false_iff] at hc
    exact hc.2
  unfold finishLiteral at h
  split at h
  · rename_i exponent rest₁ heq
    obtain ⟨rfl, rfl⟩ := Prod.mk.inj h
    obtain ⟨w, hw, hsame⟩ := readExponent?_append heq
    refine ⟨w, hw, fun hrest rest' hhead => ?_⟩
    have hread := hsame rest' fun c hc => hdigit c (hrest c (hhead ▸ hc))
    simp only [finishLiteral, hread]
  · obtain ⟨rfl, rfl⟩ := Prod.mk.inj h
    refine ⟨[], rfl, fun hrest rest' hhead => ?_⟩
    have hread : readExponent? rest' = none := by
      refine readExponent?_eq_none fun c hc => ?_
      have hc' := hrest c (hhead ▸ hc)
      constructor <;> rintro rfl <;> exact absurd hc' (by decide)
    simp only [finishLiteral, List.nil_append, hread]

theorem readLiteral?_point {whole : List Char} (hwhole : ∀ c ∈ whole, c.isDigit = true)
    (cs : List Char) :
    readLiteral? (whole ++ '.' :: cs) =
      if whole.isEmpty && (cs.takeWhile Char.isDigit).isEmpty then none
      else some (finishLiteral whole (cs.takeWhile Char.isDigit) (cs.dropWhile Char.isDigit)) := by
  have hhead : ∀ c ∈ ('.' :: cs).head?, c.isDigit = false := Text.head_cons rfl cs
  unfold readLiteral? finishLiteral
  rw [Text.takeWhile_append hwhole hhead, Text.dropWhile_append hwhole hhead]
  dsimp only
  cases hexponent : readExponent? (cs.dropWhile Char.isDigit) <;> simp only [hexponent]

theorem readLiteral?_whole {whole cs : List Char} (hwhole : ∀ c ∈ whole, c.isDigit = true)
    (hcs : ∀ c ∈ cs.head?, c.isDigit = false ∧ c ≠ '.') :
    readLiteral? (whole ++ cs) =
      if whole.isEmpty then none else some (finishLiteral whole [] cs) := by
  have hhead : ∀ c ∈ cs.head?, c.isDigit = false := fun c hc => (hcs c hc).1
  have hpoint : ∀ t, cs ≠ '.' :: t := by
    rintro t rfl
    exact (hcs '.' rfl).2 rfl
  unfold readLiteral? finishLiteral
  rw [Text.takeWhile_append hwhole hhead, Text.dropWhile_append hwhole hhead]
  split
  rename_i heq
  split at heq
  · exact absurd rfl (hpoint _)
  · obtain ⟨rfl, rfl⟩ := Prod.mk.inj heq
    dsimp only
    cases readExponent? cs <;> simp only [List.isEmpty_nil, Bool.and_true]

/-- The first digits of a text end before a point or before what goes on with no number. -/
theorem head?_dropWhile_of_no_point {cs : List Char}
    (h : ¬ ∃ t, cs.dropWhile Char.isDigit = '.' :: t) :
    ∀ c ∈ (cs.dropWhile Char.isDigit).head?, c.isDigit = false ∧ c ≠ '.' := by
  intro c hc
  refine ⟨Text.head?_dropWhile Char.isDigit cs c hc, ?_⟩
  rintro rfl
  obtain ⟨t, ht⟩ := List.head?_eq_some_iff.mp hc
  exact h ⟨t, ht⟩

/-- **A decimal literal is read in the same way before anything that begins with the same
character**, where that is no letter and no digit. -/
theorem readLiteral?_append {cs rest : List Char} {l : Literal}
    (h : readLiteral? cs = some (l, rest)) :
    ∃ w, cs = w ++ rest ∧ w ≠ [] ∧ ((∀ c ∈ rest.head?, c.isAlphanum = false) →
      ∀ rest' : List Char,
        rest'.head? = rest.head? → readLiteral? (w ++ rest') = some (l, rest')) := by
  have hall : ∀ (ds : List Char), ∀ c ∈ ds.takeWhile Char.isDigit, c.isDigit = true :=
    fun _ _ hc => List.mem_takeWhile_imp hc
  have hsplit := List.takeWhile_append_dropWhile (p := Char.isDigit) (l := cs)
  by_cases hpoint : ∃ t, cs.dropWhile Char.isDigit = '.' :: t
  · obtain ⟨t, ht⟩ := hpoint
    rw [ht] at hsplit
    rw [← hsplit, readLiteral?_point (hall cs)] at h
    split at h
    · cases h
    · rename_i hempty
      obtain ⟨w, hw, hsame⟩ := finishLiteral_append (Option.some.inj h)
      have ht' := List.takeWhile_append_dropWhile (p := Char.isDigit) (l := t)
      refine ⟨cs.takeWhile Char.isDigit ++ '.' :: (t.takeWhile Char.isDigit ++ w), ?_, by simp,
        fun hrest rest' hrest' => ?_⟩
      · rw [List.append_assoc, List.cons_append, List.append_assoc, ← hw, ht', hsplit]
      · have hhead' : ∀ c ∈ (w ++ rest').head?, c.isDigit = false := by
          rw [Text.head?_append_congr hrest', ← hw]
          exact Text.head?_dropWhile Char.isDigit t
        rw [List.append_assoc, List.cons_append, List.append_assoc, readLiteral?_point (hall cs),
          Text.takeWhile_append (hall t) hhead', Text.dropWhile_append (hall t) hhead',
          if_neg hempty, hsame hrest rest' hrest']
  · have hplain := head?_dropWhile_of_no_point hpoint
    rw [← hsplit, readLiteral?_whole (hall cs) hplain] at h
    split at h
    · cases h
    · rename_i hempty
      obtain ⟨w, hw, hsame⟩ := finishLiteral_append (Option.some.inj h)
      have hne : cs.takeWhile Char.isDigit ≠ [] := by simpa using hempty
      refine ⟨cs.takeWhile Char.isDigit ++ w, ?_, by simp [hne], fun hrest rest' hrest' => ?_⟩
      · rw [List.append_assoc, ← hw, hsplit]
      · have hplain' : ∀ c ∈ (w ++ rest').head?, c.isDigit = false ∧ c ≠ '.' := by
          rw [Text.head?_append_congr hrest', ← hw]
          exact hplain
        rw [List.append_assoc, readLiteral?_whole (hall cs) hplain', if_neg hempty,
          hsame hrest rest' hrest']

end FormulaSheet.Decimal
