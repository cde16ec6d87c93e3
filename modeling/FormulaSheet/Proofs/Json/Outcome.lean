import FormulaSheet.Json.Reader
import FormulaSheet.Proofs.Decimal.Literal

/-!
# What a reading gives

A reader is judged by its result and by what it leaves unread, or by having stopped; at which byte
it stands and which fault it reports does not matter here (`Read.Gives`). A piece of text that is
followed by a comma, a line break or a closing bracket is read as a whole (`Read.ReadsAs`), and so
are pieces that are separated by commas (`Read.gives_many`).
-/

namespace FormulaSheet.Json.Read

variable {α β : Type} {read : Read α} {k : α → Read β} {a : α} {cs cs' : List Char}

/-- The result of a reading with what it leaves unread, or nothing where it stops. -/
def outcome (read : Read α) (cur : Cursor) : Option (α × List Char) :=
  match read cur with
  | .ok (a, cur') => some (a, cur'.rest)
  | .error _ => none

/-- From every position in a text the reader has the same outcome on the characters that are
left. -/
def Gives (read : Read α) (cs : List Char) (o : Option (α × List Char)) : Prop :=
  ∀ n, outcome read ⟨cs, n⟩ = o

namespace Gives

theorem bind {o : Option (β × List Char)} (h : Gives read cs (some (a, cs')))
    (hk : Gives (k a) cs' o) : Gives (read >>= k) cs o := by
  intro n
  have hn := h n
  unfold outcome at hn
  have hstep : (read >>= k) ⟨cs, n⟩ = (read ⟨cs, n⟩ >>= fun p => k p.1 p.2) := rfl
  unfold outcome
  rw [hstep]
  cases hread : read ⟨cs, n⟩ with
  | error f =>
    rw [hread] at hn
    cases hn
  | ok p =>
    obtain ⟨b, cur⟩ := p
    obtain ⟨rest, m⟩ := cur
    rw [hread] at hn
    cases hn
    exact hk m

theorem bind_none (h : Gives read cs none) : Gives (read >>= k) cs none := by
  intro n
  have hn := h n
  unfold outcome at hn ⊢
  have hstep : (read >>= k) ⟨cs, n⟩ = (read ⟨cs, n⟩ >>= fun p => k p.1 p.2) := rfl
  rw [hstep]
  cases hread : read ⟨cs, n⟩ with
  | error f => rfl
  | ok p =>
    rw [hread] at hn
    cases hn

/-- A reading that goes on behind a piece of text that is read or stops the reading. -/
theorem bind_option {o : Option α} {f : α → Option (β × List Char)}
    (h : Gives read cs (o.map (·, cs'))) (hk : ∀ a, o = some a → Gives (k a) cs' (f a)) :
    Gives (read >>= k) cs (o.bind f) := by
  cases o with
  | none => exact bind_none h
  | some a => exact bind h (hk a rfl)

theorem map {o : Option (α × List Char)} (f : α → β) (h : Gives read cs o) :
    Gives (f <$> read) cs (o.map fun p => (f p.1, p.2)) := by
  rw [map_eq_pure_bind]
  cases o with
  | none => exact bind_none h
  | some p => exact bind h fun _ => rfl

theorem ite_pos {c : Prop} [Decidable c] {read' : Read α} {o : Option (α × List Char)} (hc : c)
    (h : Gives read cs o) : Gives (if c then read else read') cs o := by
  rw [if_pos hc]
  exact h

theorem ite_neg {c : Prop} [Decidable c] {read' : Read α} {o : Option (α × List Char)} (hc : ¬ c)
    (h : Gives read' cs o) : Gives (if c then read else read') cs o := by
  rw [if_neg hc]
  exact h

end Gives

/-! ### Steps -/

theorem gives_pure (a : α) (cs : List Char) : Gives (pure a) cs (some (a, cs)) := fun _ => rfl

theorem gives_failNext (g : Grammar) (cs : List Char) : Gives (failNext g : Read α) cs none :=
  fun _ => rfl

theorem gives_next (cs : List Char) : Gives next? cs (some (cs.head?, cs)) := fun _ => rfl

theorem gives_pass (c : Char) (cs : List Char) : Gives pass (c :: cs) (some ((), cs)) :=
  fun _ => rfl

theorem gives_left (cs : List Char) : Gives left cs (some (cs.length, cs)) := fun _ => rfl

theorem gives_passWhile (p : Char → Bool) (cs : List Char) :
    Gives (passWhile p) cs (some (cs.takeWhile p, cs.dropWhile p)) := fun _ => rfl

/-! ### Blanks -/

def isBlank (c : Char) : Bool := c = ' ' || c = '\n' || c = '\t' || c = '\r'

def Blank (w : List Char) : Prop := ∀ c ∈ w, isBlank c = true

theorem Blank.nil : Blank [] := by
  intro c hc
  cases hc

theorem Blank.space : Blank [' '] := by
  intro c hc
  rw [List.mem_singleton.mp hc]
  rfl

theorem gives_nextSolid {w : List Char} {c : Char} (hw : Blank w) (hc : isBlank c = false)
    (cs : List Char) : Gives nextSolid? (w ++ c :: cs) (some (some c, c :: cs)) := by
  have hhead : ∀ d ∈ (c :: cs).head?, isBlank d = false := by
    intro d hd
    rw [← Option.some.inj hd]
    exact hc
  have hrest : (w ++ c :: cs).dropWhile isBlank = c :: cs := Text.dropWhile_append hw hhead
  intro n
  show some (((w ++ c :: cs).dropWhile isBlank).head?, (w ++ c :: cs).dropWhile isBlank) = _
  rw [hrest]
  rfl

/-- The text that is left is at its end. -/
theorem gives_nextSolid_nil : Gives nextSolid? [] (some (none, [])) := fun _ => rfl

/-! ### Pieces of text -/

/-- A piece of text ends before what is left: nothing, or a character that goes on with no piece. -/
def Ends (rest : List Char) : Prop := ∀ c ∈ rest.head?, c = ',' ∨ c = '\n' ∨ c = ']' ∨ c = '\x7d'

theorem Ends.nil : Ends [] := by
  intro c hc
  cases hc

theorem Ends.cons {c : Char} (hc : c = ',' ∨ c = '\n' ∨ c = ']' ∨ c = '\x7d') (cs : List Char) :
    Ends (c :: cs) := by
  intro d hd
  rw [← Option.some.inj hd]
  exact hc

/-- The reader makes one thing of a piece of text behind blanks, and leaves what follows; or it
stops. -/
def ReadsAs (read : Read α) (text : List Char) (o : Option α) : Prop :=
  ∀ w rest, Blank w → Ends rest → Gives read (w ++ (text ++ rest)) (o.map (·, rest))

theorem ReadsAs.map {text : List Char} {o : Option α} (f : α → β) (h : ReadsAs read text o) :
    ReadsAs (f <$> read) text (o.map f) := by
  intro w rest hw hrest
  have hgives := (h w rest hw hrest).map f
  rw [Option.map_map] at hgives ⊢
  exact hgives

/-- A reader that first looks at the next character that is no blank. -/
theorem readsAs_nextSolid {next : Option Char → Read α} {c : Char} {text : List Char} {o : Option α}
    (hc : isBlank c = false)
    (h : ∀ rest, Ends rest → Gives (next (some c)) (c :: (text ++ rest)) (o.map (·, rest))) :
    ReadsAs (nextSolid? >>= next) (c :: text) o := by
  intro w rest hw hrest
  exact (gives_nextSolid hw hc (text ++ rest)).bind (h rest hrest)

theorem toOption_of_outcome {ε : Type} {cur : Cursor} {o : Option α} (g : Fault → ε)
    (h : outcome read cur = o.map (·, cs)) :
    (match read cur with
      | .ok (a, _) => .ok a
      | .error f => .error (g f) : Except ε α).toOption = o := by
  unfold outcome at h
  cases hread : read cur with
  | ok p =>
    rw [hread] at h
    cases o with
    | none => cases h
    | some b =>
      cases h
      rfl
  | error f =>
    rw [hread] at h
    cases o with
    | none => rfl
    | some b => cases h

/-- A whole text is read where nothing of it is left. -/
theorem toOption_whole {text : String} {o : Option α} (h : Gives read text.toList (o.map (·, []))) :
    (whole read text).toOption = o := by
  apply toOption_of_outcome (Fault.locate text)
  cases o with
  | none => exact h.bind_none 0
  | some a => exact h.bind (gives_nextSolid_nil.bind (gives_pure a [])) 0

theorem ReadsAs.toOption_whole {text : String} {o : Option α} (h : ReadsAs read text.toList o) :
    (whole read text).toOption = o := by
  have hread := h [] [] Blank.nil Ends.nil
  rw [List.nil_append, List.append_nil] at hread
  exact Read.toOption_whole hread

/-- A piece of text that begins neither with a blank nor with the end of a list. -/
def Solid (text : List Char) : Prop := ∃ c cs, text = c :: cs ∧ isBlank c = false ∧ c ≠ ']'

/-! ### Items between brackets -/

/-- What the next item is read as, at the beginning of a list and behind a comma. -/
structure NextReads (readNext : Bool → Read (Option α)) (text : List Char)
    (o : Option α) : Prop where
  first : ∀ w rest, Blank w → Ends rest →
    Gives (readNext true) (w ++ (text ++ rest)) (o.map fun a => (some a, rest))
  next : ∀ w rest, Blank w → Ends rest →
    Gives (readNext false) (',' :: (w ++ (text ++ rest))) (o.map fun a => (some a, rest))

/-- No item follows before the closing bracket. -/
def NextEnds (readNext : Bool → Read (Option α)) (closing : Char) : Prop :=
  ∀ first w rest, Blank w →
    Gives (readNext first) (w ++ closing :: rest) (some (none, closing :: rest))

section Items

variable {readNext : Bool → Read (Option α)} {closing : Char} {text : β → List Char}
    {o : β → Option α}
  {w w' rest : List Char} {xs : List β}

/-- The items after the first one, each behind a comma, and the closing bracket. -/
def tailText (text : β → List Char) (w w' : List Char) (closing : Char) (xs : List β)
    (rest : List Char) : List Char :=
  xs.flatMap (fun x => ',' :: (w ++ text x)) ++ (w' ++ closing :: rest)

theorem tailText_cons (x : β) :
    tailText text w w' closing (x :: xs) rest =
      ',' :: (w ++ (text x ++ tailText text w w' closing xs rest)) := by
  simp [tailText]

theorem ends_tailText (hw' : ∀ rest, Ends (w' ++ closing :: rest)) :
    Ends (tailText text w w' closing xs rest) := by
  cases xs with
  | nil => exact hw' rest
  | cons x xs =>
    rw [tailText_cons]
    exact Ends.cons (Or.inl rfl) _

theorem length_lt_tailText (text : β → List Char) (w w' : List Char) (closing : Char) (xs : List β)
    (rest : List Char) : xs.length < (tailText text w w' closing xs rest).length := by
  induction xs with
  | nil =>
    simp only [tailText, List.flatMap_nil, List.nil_append, List.length_append, List.length_cons,
      List.length_nil]
    omega
  | cons x xs ih =>
    rw [tailText_cons]
    simp only [List.length_cons, List.length_append]
    omega

/-- One item is taken, and the others after it; where it stops the reading, the list is not read. -/
theorem gives_repeated_succ {x : β} {first : Bool} {fuel : Nat}
    (hitem : Gives (readNext first) cs ((o x).map fun a => (some a, cs')))
    (hrest : Gives (repeated readNext fuel false) cs' ((xs.mapM o).map (·, rest))) :
    Gives (repeated readNext (fuel + 1) first) cs (((x :: xs).mapM o).map (·, rest)) := by
  cases hx : o x with
  | none =>
    rw [hx] at hitem
    have hnone : (x :: xs).mapM o = none := by simp [List.mapM_cons, hx]
    rw [hnone]
    exact hitem.bind_none
  | some a =>
    rw [hx] at hitem
    have hsome : (x :: xs).mapM o = (xs.mapM o).map (a :: ·) := by
      rw [List.mapM_cons, hx]
      cases xs.mapM o <;> rfl
    have hmap := hrest.map (a :: ·)
    rw [Option.map_map] at hmap
    rw [hsome, Option.map_map]
    exact hitem.bind hmap

theorem gives_repeated_tailText (hnext : ∀ x ∈ xs, NextReads readNext (text x) (o x))
    (hend : NextEnds readNext closing) (hw : Blank w) (hw' : Blank w')
    (hends : ∀ rest, Ends (w' ++ closing :: rest)) {fuel : Nat} (hfuel : xs.length < fuel) :
    Gives (repeated readNext fuel false) (tailText text w w' closing xs rest)
      ((xs.mapM o).map (·, closing :: rest)) := by
  obtain ⟨fuel, rfl⟩ := Nat.exists_eq_succ_of_ne_zero (Nat.ne_of_gt (Nat.zero_lt_of_lt hfuel))
  -- each item takes one step of the fuel, and so does the closing bracket
  induction xs generalizing fuel with
  | nil => exact (hend false w' rest hw').bind (gives_pure [] _)
  | cons x xs ih =>
    have hpos : xs.length < fuel := Nat.lt_of_succ_lt_succ hfuel
    obtain ⟨fuel, rfl⟩ := Nat.exists_eq_succ_of_ne_zero (Nat.ne_of_gt (Nat.zero_lt_of_lt hpos))
    rw [tailText_cons]
    apply gives_repeated_succ
    · exact (hnext x List.mem_cons_self).next w _ hw (ends_tailText hends)
    · exact ih (fun y hy => hnext y (List.mem_cons_of_mem x hy)) fuel hpos

theorem gives_many_nil (hend : NextEnds readNext closing) (rest : List Char) :
    Gives (many readNext) (closing :: rest) (some ([], closing :: rest)) :=
  (gives_left _).bind ((hend true [] rest Blank.nil).bind (gives_pure [] _))

/-- **The items between two brackets are read one by one**, unless one of them stops the reading. -/
theorem gives_many {x : β} (hnext : ∀ y ∈ x :: xs, NextReads readNext (text y) (o y))
    (hend : NextEnds readNext closing) (hw : Blank w) (hw' : Blank w')
    (hends : ∀ rest, Ends (w' ++ closing :: rest)) (rest : List Char) :
    Gives (many readNext) (w ++ (text x ++ tailText text w w' closing xs rest))
      (((x :: xs).mapM o).map (·, closing :: rest)) := by
  have hfuel : xs.length < (w ++ (text x ++ tailText text w w' closing xs rest)).length := by
    have := length_lt_tailText text w w' closing xs rest
    simp only [List.length_append]
    omega
  apply (gives_left _).bind
  apply gives_repeated_succ
  · exact (hnext x List.mem_cons_self).first w _ hw (ends_tailText hends)
  · exact gives_repeated_tailText (fun y hy => hnext y (List.mem_cons_of_mem x hy)) hend hw
      hw' hends hfuel

end Items

end FormulaSheet.Json.Read
