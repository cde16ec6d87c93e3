import FormulaSheet.Calendar.Reader
import FormulaSheet.Proofs.Calendar.Days
import FormulaSheet.Proofs.Json.Number

/-!
# Internet timestamps are read back

A number that is padded with zeros is read back from its digits, in the readers that ask for a fixed
number of them as in those that take what they find. The text of an instant whose year has four
digits is a timestamp from which that instant is read (`Calendar.timestamp_isoText`).
-/

namespace FormulaSheet

namespace Text

theorem dropWhile_of_head {p : Char → Bool} {cs : List Char} (h : ∀ c ∈ cs.head?, p c = false) :
    cs.dropWhile p = cs := dropWhile_append (w := []) (by nofun) h

end Text

end FormulaSheet

namespace FormulaSheet.Calendar

variable {α β : Type} {width n : Nat} {cs rest : List Char}

/-! ### Steps of reading -/

namespace Read

variable {read : Read α} {a : α}

theorem bind_some (h : read cs = some (a, rest)) (next : α → Read β) :
    (read >>= next) cs = next a rest := by
  show (read cs).bind (fun p => next p.1 p.2) = _
  rw [h, Option.bind_some]

theorem bind_none (h : read cs = none) (next : α → Read β) : (read >>= next) cs = none := by
  show (read cs).bind (fun p => next p.1 p.2) = _
  rw [h, Option.bind_none]

theorem char_cons (c : Char) (rest : List Char) : char c (c :: rest) = some ((), rest) := if_pos rfl

theorem oneOf_cons {c : Char} (h : cs.contains c = true) (rest : List Char) :
    oneOf cs (c :: rest) = some (c, rest) := if_pos h

theorem timestampZone_utc (rest : List Char) : timestampZone ('Z' :: rest) = some (0, rest) := rfl

theorem finish_nil : finish [] = some ((), []) := rfl

theorem finish_cons (c : Char) (cs : List Char) : finish (c :: cs) = none := rfl

theorem blanks_of_head (h : ∀ c ∈ cs.head?, Text.isBlank c = false) :
    blanks cs = some ((), cs) := by
  rw [blanks, Text.dropWhile_of_head h]

theorem digits_some (least most : Nat) (cs : List Char) :
    digits least (some most) cs =
      if ((cs.takeWhile Char.isDigit).take most).length < least then none
      else some ((Decimal.natOfDigits ((cs.takeWhile Char.isDigit).take most),
        ((cs.takeWhile Char.isDigit).take most).length),
        cs.drop ((cs.takeWhile Char.isDigit).take most).length) := rfl

theorem digits_none (least : Nat) (cs : List Char) :
    digits least none cs =
      if (cs.takeWhile Char.isDigit).length < least then none
      else some
        ((Decimal.natOfDigits (cs.takeWhile Char.isDigit), (cs.takeWhile Char.isDigit).length),
        cs.drop (cs.takeWhile Char.isDigit).length) := rfl

/-- No digit is read where none stands. -/
theorem digits_of_head (h : ∀ c ∈ cs.head?, c.isDigit = false) (least : Nat) (most? : Option Nat) :
    digits (least + 1) most? cs = none := by
  have htake : cs.takeWhile Char.isDigit = [] := Text.takeWhile_append (w := []) (by nofun) h
  cases most? with
  | none =>
    rw [digits_none, htake]
    exact if_pos (Nat.succ_pos least)
  | some most =>
    rw [digits_some, htake, List.take_nil]
    exact if_pos (Nat.succ_pos least)

end Read

/-! ### Padded numbers -/

theorem digits_padded (width n : Nat) : Json.Digits (padded width n).toList := by
  rw [padded, String.toList_ofList]
  exact (Json.digits_toDigits n).zeros_append _

theorem natOfDigits_zeros (count : Nat) (ds : List Char) :
    Decimal.natOfDigits (List.replicate count '0' ++ ds) = Decimal.natOfDigits ds := by
  induction count with
  | zero => rfl
  | succ count ih =>
    rw [← ih]
    rfl

theorem natOfDigits_padded (width n : Nat) : Decimal.natOfDigits (padded width n).toList = n := by
  rw [padded, String.toList_ofList, natOfDigits_zeros, Json.natOfDigits_toDigits]

/-- A number that fits into a width takes exactly this width. -/
theorem length_padded (hwidth : 0 < width) (hn : n < 10 ^ width) :
    (padded width n).toList.length = width := by
  have hle : (Nat.toDigits 10 n).length ≤ width :=
    (Nat.length_toDigits_le_iff (by decide) hwidth).mpr hn
  rw [padded, String.toList_ofList, List.length_append, List.length_replicate,
    Nat.sub_add_cancel hle]

theorem head_padded_not_blank (width n : Nat) (rest : List Char) :
    ∀ c ∈ ((padded width n).toList ++ rest).head?, Text.isBlank c = false := by
  obtain ⟨c, cs, hcons, hdigit⟩ := (digits_padded width n).exists_cons
  rw [hcons]
  exact Text.head_cons (Text.isBlank_of_isDigit hdigit) _

namespace Read

/-- A padded number is read by a reader that stops after its width. -/
theorem digits_padded_most (hwidth : 0 < width) (hn : n < 10 ^ width) {least : Nat}
    (hleast : least ≤ width) (rest : List Char) :
    digits least (some width) ((padded width n).toList ++ rest) = some ((n, width), rest) := by
  have hlength := length_padded hwidth hn
  have htake : (((padded width n).toList ++ rest).takeWhile Char.isDigit).take width =
      (padded width n).toList := by
    rw [List.takeWhile_append_of_pos (digits_padded width n).isDigit, List.take_left' hlength]
  rw [digits_some, htake, hlength, if_neg (Nat.not_lt.mpr hleast), natOfDigits_padded,
    List.drop_left' hlength]

theorem number_padded (hwidth : 0 < width) (hn : n < 10 ^ width) (rest : List Char) :
    number width ((padded width n).toList ++ rest) = some (n, rest) :=
  bind_some (digits_padded_most hwidth hn (Nat.le_refl width) rest) _

theorem shortNumber_padded (hwidth : 0 < width) (hn : n < 10 ^ width) (rest : List Char) :
    shortNumber width ((padded width n).toList ++ rest) = some (n, rest) :=
  (bind_some (blanks_of_head (head_padded_not_blank width n rest)) _).trans
    (bind_some (digits_padded_most hwidth hn hwidth rest) _)

/-- A padded number is read where no digit follows it, however long it is. -/
theorem digits_padded_all (hrest : ∀ c ∈ rest.head?, c.isDigit = false) :
    digits 1 none ((padded width n).toList ++ rest) =
      some ((n, (padded width n).toList.length), rest) := by
  have htake := Text.takeWhile_append (digits_padded width n).isDigit hrest
  have hpos : ¬ (padded width n).toList.length < 1 :=
    Nat.not_lt.mpr (List.length_pos_iff.mpr (digits_padded width n).ne_nil)
  rw [digits_none, htake, if_neg hpos, natOfDigits_padded, List.drop_left]

/-- Milliseconds are read from their three digits. -/
theorem fraction_padded (hn : n < 1000) (hrest : ∀ c ∈ rest.head?, c.isDigit = false) :
    fraction ('.' :: ((padded 3 n).toList ++ rest)) = some (n, rest) := by
  have hlength : (padded 3 n).toList.length = 3 := length_padded (by decide) hn
  have htake := Text.takeWhile_append (digits_padded 3 n).isDigit hrest
  have hvalue : Decimal.natOfDigits
      ((((padded 3 n).toList ++ rest).takeWhile Char.isDigit ++ ['0', '0', '0']).take 3) = n := by
    rw [htake, List.take_left' hlength, natOfDigits_padded]
  have hstep : ∀ ds, fraction ('.' :: ds) = (digits 1 none >>= fun _ =>
      pure (Decimal.natOfDigits ((ds.takeWhile Char.isDigit ++ ['0', '0', '0']).take 3))) ds :=
        fun _ => rfl
  rw [hstep, hvalue]
  exact bind_some (digits_padded_all hrest) _

end Read

/-! ### The text of a date and time -/

namespace DateTime

/-- The text of the time of day up to its zone. -/
def clockChars (t : DateTime) : List Char :=
  (padded 2 t.hour).toList ++ ':' :: ((padded 2 t.minute).toList ++ ':' ::
    ((padded 2 t.second).toList ++ '.' :: ((padded 3 t.millisecond).toList ++ ['Z'])))

/-- The text of month and day, and then that of the time. -/
def dateTail (t : DateTime) : List Char :=
  '-' :: ((padded 2 t.date.month).toList ++ '-' ::
    ((padded 2 t.date.day).toList ++ 'T' :: t.clockChars))

theorem toList_isoText (t : DateTime) :
    t.isoText.toList = (yearText t.date.year).toList ++ t.dateTail := by
  simp only [isoText, clockText, dateTail, clockChars, String.toList_append, List.append_assoc]
  rfl

end DateTime

open Read

/-- The parts of a date and time fit into the digits that its text has for them. -/
structure DateTime.Fits (t : DateTime) : Prop where
  month : t.date.month < 10 ^ 2
  day : t.date.day < 10 ^ 2
  hour : t.hour < 10 ^ 2
  minute : t.minute < 10 ^ 2
  second : t.second < 10 ^ 2
  millisecond : t.millisecond < 1000

theorem DateTime.fits_ofInstant (ms : Int) : (DateTime.ofInstant ms).Fits := by
  obtain ⟨hhour, hminute, hsecond, hmillisecond⟩ := clock_ofInstant ms
  have hmonth : (DateTime.ofInstant ms).date.month ≤ 12 := month_ofDayNumber_le _
  have hday : (DateTime.ofInstant ms).date.day ≤ 31 := day_ofDayNumber_le _
  constructor <;> omega

/-- **A text with a year of four digits is a timestamp**, and it is read as the date and
time it was written for. -/
theorem timestamp_isoText {t : DateTime} (h : t.Fits)
    (hyear : 0 ≤ t.date.year ∧ t.date.year ≤ 9999) :
    timestamp t.isoText.toList = checkedInstant t 0 [] := by
  have htext : yearText t.date.year = padded 4 t.date.year.toNat := if_pos hyear
  rw [DateTime.toList_isoText, htext]
  refine (bind_some (number_padded (by decide) (by omega) _) _).trans ?_
  refine (bind_some (char_cons '-' _) _).trans ?_
  refine (bind_some (number_padded (by decide) h.month _) _).trans ?_
  refine (bind_some (char_cons '-' _) _).trans ?_
  refine (bind_some (number_padded (by decide) h.day _) _).trans ?_
  refine (bind_some (oneOf_cons (by decide) _) _).trans ?_
  refine (bind_some (number_padded (by decide) h.hour _) _).trans ?_
  refine (bind_some (char_cons ':' _) _).trans ?_
  refine (bind_some (number_padded (by decide) h.minute _) _).trans ?_
  refine (bind_some (char_cons ':' _) _).trans ?_
  refine (bind_some (number_padded (by decide) h.second _) _).trans ?_
  refine (bind_some (fraction_padded h.millisecond (Text.head_cons rfl [])) _).trans ?_
  refine (bind_some (timestampZone_utc _) _).trans ?_
  refine (bind_some finish_nil _).trans ?_
  rw [Int.toNat_of_nonneg hyear.1]

/-- **Where dates are kept, an instant is that of its date and time.** -/
theorem checkedInstant_ofInstant {ms : Int}
    (hrange : Date.yearInRange (DateTime.ofInstant ms).date.year = true) :
    checkedInstant (DateTime.ofInstant ms) 0 cs = some (ms, cs) := by
  obtain ⟨_, _, hsecond, _⟩ := DateTime.clock_ofInstant ms
  have hvalid : (DateTime.ofInstant ms).isValid = true :=
    (DateTime.isValid_ofInstant ms).trans hrange
  have hkept : (DateTime.ofInstant? ms).isSome = true := by
    rw [DateTime.ofInstant?]
    simp only [hrange, if_true, Option.isSome_some]
  have hnotLeap : ¬ (DateTime.ofInstant ms).second = 60 := by omega
  rw [checkedInstant]
  simp only [DateTime.instant_ofInstant, hvalid, if_neg hnotLeap, Int.zero_mul, Int.sub_zero, hkept,
    Bool.and_self, if_true]

end FormulaSheet.Calendar
