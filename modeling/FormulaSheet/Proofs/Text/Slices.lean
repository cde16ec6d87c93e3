import FormulaSheet.Text.Bytes

/-!
# Slices of a text

A slice of a text is given by the byte offsets at which it starts and stops. There is none where an
offset lies outside of the text or inside a character. Where there is one, it holds exactly the
characters that stand between the characters before it and those behind it
(`Text.slice?_eq_some_iff`), and its bytes are the bytes between the two offsets
(`Text.extract_of_slice?`).
-/

namespace FormulaSheet.Text

variable {cs w rest : List Char} {n start stop : Nat}

/-- The characters from a byte offset on, if a character begins there or the text ends there. -/
def from? : List Char → Nat → Option (List Char)
  | cs, 0 => some cs
  | [], _ + 1 => none
  | c :: cs, n + 1 => if c.utf8Size ≤ n + 1 then from? cs (n + 1 - c.utf8Size) else none

/-- The characters that take a number of bytes at the beginning of a text, if there are such. -/
def upTo? : List Char → Nat → Option (List Char)
  | _, 0 => some []
  | [], _ + 1 => none
  | c :: cs, n + 1 =>
    if c.utf8Size ≤ n + 1 then (upTo? cs (n + 1 - c.utf8Size)).map (c :: ·) else none

/-- The characters between two byte offsets. -/
def slice? (cs : List Char) (start stop : Nat) : Option (List Char) :=
  if start ≤ stop then (from? cs start).bind fun rest => upTo? rest (stop - start) else none

/-- A byte offset at which a character begins, or at which the text ends. -/
def IsBoundary (cs : List Char) (n : Nat) : Prop := ∃ pre rest, cs = pre ++ rest ∧ n = byteSize pre

theorem from?_cons (c : Char) (cs : List Char) (n : Nat) :
    from? (c :: cs) (c.utf8Size + n) = from? cs n := by
  have hpos := c.utf8Size_pos
  have hsum : c.utf8Size + n = c.utf8Size - 1 + n + 1 := by omega
  have hrest : c.utf8Size - 1 + n + 1 - c.utf8Size = n := by omega
  rw [hsum, from?, if_pos (by omega), hrest]

theorem upTo?_cons (c : Char) (cs : List Char) (n : Nat) :
    upTo? (c :: cs) (c.utf8Size + n) = (upTo? cs n).map (c :: ·) := by
  have hpos := c.utf8Size_pos
  have hsum : c.utf8Size + n = c.utf8Size - 1 + n + 1 := by omega
  have hrest : c.utf8Size - 1 + n + 1 - c.utf8Size = n := by omega
  rw [hsum, upTo?, if_pos (by omega), hrest]

theorem from?_append (pre rest : List Char) : from? (pre ++ rest) (byteSize pre) = some rest := by
  induction pre with
  | nil => exact from?.eq_1 rest
  | cons c pre ih => rw [List.cons_append, byteSize_cons, from?_cons, ih]

theorem upTo?_append (w post : List Char) : upTo? (w ++ post) (byteSize w) = some w := by
  induction w with
  | nil => exact upTo?.eq_1 post
  | cons c w ih => rw [List.cons_append, byteSize_cons, upTo?_cons, ih, Option.map_some]

/-- **A text goes on at the offsets of its characters.** -/
theorem from?_eq_some_iff :
    from? cs n = some rest ↔ ∃ pre, cs = pre ++ rest ∧ n = byteSize pre := by
  constructor
  · intro h
    fun_induction from? cs n with
    | case1 cs =>
      obtain rfl := Option.some.inj h
      exact ⟨[], rfl, rfl⟩
    | case2 => cases h
    | case3 c cs n hle ih =>
      obtain ⟨pre, rfl, hsize⟩ := ih h
      refine ⟨c :: pre, rfl, ?_⟩
      rw [byteSize_cons]
      omega
    | case4 => cases h
  · rintro ⟨pre, rfl, rfl⟩
    exact from?_append pre rest

theorem upTo?_eq_some_iff : upTo? cs n = some w ↔ ∃ post, cs = w ++ post ∧ n = byteSize w := by
  constructor
  · intro h
    fun_induction upTo? cs n generalizing w with
    | case1 cs =>
      obtain rfl := Option.some.inj h
      exact ⟨cs, rfl, rfl⟩
    | case2 => cases h
    | case3 c cs n hle ih =>
      obtain ⟨v, hv, rfl⟩ := Option.map_eq_some_iff.mp h
      obtain ⟨post, rfl, hsize⟩ := ih hv
      refine ⟨post, rfl, ?_⟩
      rw [byteSize_cons]
      omega
    | case4 => cases h
  · rintro ⟨post, rfl, rfl⟩
    exact upTo?_append w post

/-- **A slice is what stands between the characters before it and those behind it.** -/
theorem slice?_eq_some_iff : slice? cs start stop = some w ↔
    ∃ pre post, cs = pre ++ (w ++ post) ∧ start = byteSize pre ∧ stop = byteSize (pre ++ w) := by
  unfold slice?
  constructor
  · intro h
    split at h
    · rename_i hle
      obtain ⟨rest, hfrom, hupTo⟩ := Option.bind_eq_some_iff.mp h
      obtain ⟨pre, rfl, rfl⟩ := from?_eq_some_iff.mp hfrom
      obtain ⟨post, rfl, hsize⟩ := upTo?_eq_some_iff.mp hupTo
      refine ⟨pre, post, rfl, rfl, ?_⟩
      rw [byteSize_append]
      omega
    · cases h
  · rintro ⟨pre, post, rfl, rfl, rfl⟩
    have hsize : byteSize (pre ++ w) - byteSize pre = byteSize w := by
      rw [byteSize_append]
      omega
    have hle : byteSize pre ≤ byteSize (pre ++ w) := by
      rw [byteSize_append]
      omega
    rw [if_pos hle, from?_append, Option.bind_some, hsize, upTo?_append]

theorem IsBoundary.le (h : IsBoundary cs n) : n ≤ byteSize cs := by
  obtain ⟨pre, rest, rfl, rfl⟩ := h
  rw [byteSize_append]
  exact Nat.le_add_right _ _

/-! ### Bytes -/

/-- The size of characters is the number of their bytes. -/
theorem size_toByteArray (cs : List Char) : (String.ofList cs).toByteArray.size = byteSize cs := by
  induction cs with
  | nil => rfl
  | cons c cs ih =>
    have hcons : String.ofList (c :: cs) = String.singleton c ++ String.ofList cs := by
      rw [String.singleton_eq_ofList, ← String.ofList_append]
      rfl
    have hfirst : (String.singleton c).toByteArray.size = c.utf8Size :=
      String.utf8ByteSize_singleton
    rw [hcons, String.toByteArray_append, ByteArray.size_append, ih, hfirst, byteSize_cons]

/-- **The bytes of a slice are the bytes between its offsets.** -/
theorem extract_of_slice? {s : String} (h : slice? s.toList start stop = some w) :
    s.toByteArray.extract start stop = (String.ofList w).toByteArray := by
  obtain ⟨pre, post, hsplit, rfl, rfl⟩ := slice?_eq_some_iff.mp h
  have hbytes : s.toByteArray = (String.ofList pre).toByteArray ++
      ((String.ofList w).toByteArray ++ (String.ofList post).toByteArray) := by
    rw [← String.toByteArray_append, ← String.toByteArray_append, ← String.ofList_append,
      ← String.ofList_append, ← hsplit, String.ofList_toList]
  have hbefore : (String.ofList pre).toByteArray.extract (byteSize pre) (byteSize (pre ++ w)) =
      ByteArray.empty := by
    rw [ByteArray.extract_eq_empty_iff, size_toByteArray]
    exact Nat.min_le_right _ _
  have hsize : byteSize (pre ++ w) - byteSize pre = byteSize w := by
    rw [byteSize_append]
    omega
  rw [hbytes, ByteArray.extract_append, hbefore, ByteArray.empty_append, size_toByteArray,
    Nat.sub_self, hsize]
  exact ByteArray.extract_append_eq_left (size_toByteArray w).symm

end FormulaSheet.Text
