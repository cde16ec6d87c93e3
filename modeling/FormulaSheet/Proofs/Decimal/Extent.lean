import FormulaSheet.Proofs.Decimal.Numeral

/-!
# How far a decimal literal goes

Where a literal has been read at the beginning of a text, its own characters alone are
read as the same literal.
-/

namespace FormulaSheet.Decimal

/-! ### Exponents -/

/-- An exponent is read off its mark where a digit follows it behind a sign, and only there. -/
theorem readExponent?_mark {c : Char} {cs ds : List Char} (hc : c = 'e' ∨ c = 'E')
    (hsign : (readSign cs).2 = ds) :
    (ds.head?.any Char.isDigit = true → ∃ n,
      readExponent? (c :: cs) = some (n, ds.dropWhile Char.isDigit)) ∧
      (ds.head?.any Char.isDigit = false → readExponent? (c :: cs) = none) := by
  rw [readExponent?_cons, if_pos hc, hsign]
  cases ds with
  | nil => exact ⟨fun h => Bool.noConfusion h, fun _ => rfl⟩
  | cons d ds =>
    rw [List.head?_cons, Option.any_some, List.takeWhile_cons]
    constructor
    · intro hd
      rw [if_pos hd]
      exact ⟨_, rfl⟩
    · intro hd
      rw [hd]
      rfl

theorem readSign_of_ne {cs : List Char} (hcs : ∀ c ∈ cs.head?, c ≠ '+' ∧ c ≠ '-') :
    readSign cs = (false, cs) := by
  unfold readSign
  split
  · exact absurd rfl (hcs '-' rfl).2
  · exact absurd rfl (hcs '+' rfl).1
  · rfl

/-- The exponent at the beginning of `x ++ post` is `x`; where there is none, this is empty. -/
def ExponentOf (x post : List Char) : Prop :=
  (x = [] ∧ readExponent? (x ++ post) = none) ∨ ∃ n, readExponent? (x ++ post) = some (n, post)

/-- A literal ends with its exponent, whatever comes behind it. -/
theorem ExponentOf.finishLiteral {x post : List Char} (h : ExponentOf x post)
    (whole fraction : List Char) :
    ∃ l, finishLiteral whole fraction (x ++ post) = (l, post) ∧
      finishLiteral whole fraction x = (l, []) := by
  unfold Decimal.finishLiteral
  rcases h with ⟨rfl, hnone⟩ | ⟨n, hsome⟩
  · rw [List.nil_append] at hnone ⊢
    rw [hnone]
    exact ⟨_, rfl, rfl⟩
  · obtain ⟨w, hw, hsame⟩ := readExponent?_append hsome
    obtain rfl := List.append_cancel_right hw
    have halone := hsame [] fun _ hc => nomatch hc
    rw [List.append_nil] at halone
    rw [hsome, halone]
    exact ⟨_, rfl, rfl⟩

/-! ### Literals -/

/-- The literal at the beginning of `w ++ post` is written in all of `w`. -/
def LiteralOf (w post : List Char) (l : Literal) : Prop :=
  readLiteral? (w ++ post) = some (l, post) ∧ readLiteral? w = some (l, [])

theorem ExponentOf.literal_point {ds fs x post : List Char} (h : ExponentOf x post)
    (hds : IsDigits ds) (hfs : IsDigits fs) (hend : ∀ c ∈ (x ++ post).head?, c.isDigit = false)
    (hne : (ds.isEmpty && fs.isEmpty) = false) :
    ∃ l, LiteralOf (ds ++ '.' :: (fs ++ x)) post l := by
  obtain ⟨l, hbefore, halone⟩ := h.finishLiteral ds fs
  have hend' : ∀ c ∈ x.head?, c.isDigit = false := by
    intro c hc
    apply hend c
    rw [List.head?_append, Option.mem_def.mp hc]
    rfl
  refine ⟨l, ?_, ?_⟩
  · rw [List.append_assoc, List.cons_append, List.append_assoc, readLiteral?_point hds,
      Text.takeWhile_append hfs hend, Text.dropWhile_append hfs hend, hne,
      if_neg Bool.false_ne_true, hbefore]
  · rw [readLiteral?_point hds, Text.takeWhile_append hfs hend', Text.dropWhile_append hfs hend',
      hne, if_neg Bool.false_ne_true, halone]

theorem ExponentOf.literal_whole {ds x post : List Char} (h : ExponentOf x post) (hds : IsDigits ds)
    (hend : ∀ c ∈ (x ++ post).head?, c.isDigit = false ∧ c ≠ '.') (hne : ds ≠ []) :
    ∃ l, LiteralOf (ds ++ x) post l := by
  obtain ⟨l, hbefore, halone⟩ := h.finishLiteral ds []
  have hend' : ∀ c ∈ x.head?, c.isDigit = false ∧ c ≠ '.' := by
    intro c hc
    apply hend c
    rw [List.head?_append, Option.mem_def.mp hc]
    rfl
  have hempty : ¬ds.isEmpty = true := fun he => hne (List.isEmpty_iff.mp he)
  refine ⟨l, ?_, ?_⟩
  · rw [List.append_assoc, readLiteral?_whole hds hend, if_neg hempty, hbefore]
  · rw [readLiteral?_whole hds hend', if_neg hempty, halone]

/-- A literal is a number as it stands, for it does not begin with a sign. -/
theorem LiteralOf.readNumber? {w post : List Char} {l : Literal} (h : LiteralOf w post l) :
    readNumber? w = some l.value := by
  have hsign : readSign w = (false, w) :=
    readSign_of_ne (readLiteral?_iff_isDecimal.mp ⟨l, h.2⟩).head
  unfold Decimal.readNumber?
  rw [hsign]
  simp only [h.2]
  rfl

end FormulaSheet.Decimal
