import FormulaSheet.Builtin.Date
import FormulaSheet.Proofs.Calendar.Timestamp
import FormulaSheet.Proofs.Decimal.Integers

/-!
# The texts of instants

The text of an instant is read as this instant if its year has four digits. A year with a sign is
refused by all readers: a timestamp begins with a digit, the date of a mail with a weekday or a
digit, and the dates without a zone, which take a sign, end before the `Z`
(`Calendar.readInstant?_isoText`). So what the sheet writes for an instant, it reads back exactly
from the year 0 to the year 9999 (`Builtin.Date.parse_toISOString`).
-/

namespace FormulaSheet.Calendar

variable {cs rest : List Char} {year : Int}

/-! ### Years with a sign -/

theorem isDigit_sign {sign : Char} (h : sign = '+' ∨ sign = '-') : sign.isDigit = false := by
  rcases h with rfl | rfl <;> rfl

theorem isBlank_sign {sign : Char} (h : sign = '+' ∨ sign = '-') : Text.isBlank sign = false := by
  rcases h with rfl | rfl <;> rfl

/-- A year that is not written with four digits alone begins with a sign. -/
theorem exists_sign_yearText (hyear : ¬ (0 ≤ year ∧ year ≤ 9999)) :
    ∃ sign, (sign = '+' ∨ sign = '-') ∧
      (yearText year).toList = sign :: (padded 4 year.natAbs).toList ∧
      year = if sign = '-' then -(year.natAbs : Int) else year.natAbs := by
  rw [yearText, if_neg hyear]
  by_cases hneg : year < 0
  · refine ⟨'-', Or.inr rfl, ?_, ?_⟩
    · rw [if_pos hneg, String.toList_append]
      rfl
    · rw [if_pos rfl]
      omega
  · refine ⟨'+', Or.inl rfl, ?_, ?_⟩
    · rw [if_neg hneg, String.toList_append]
      rfl
    · rw [if_neg (by decide)]
      omega

namespace Read

theorem shortYear_minus (ds : List Char) :
    shortYear ('-' :: ds) = (digits 1 none >>= fun p => pure (-(p.1 : Int))) ds := rfl

theorem shortYear_plus (ds : List Char) :
    shortYear ('+' :: ds) = (digits 1 none >>= fun p => pure (p.1 : Int)) ds := rfl

/-- A year with a sign is read with all its digits. -/
theorem shortYear_yearText (hyear : ¬ (0 ≤ year ∧ year ≤ 9999)) (rest : List Char) :
    shortYear ((yearText year).toList ++ '-' :: rest) = some (year, '-' :: rest) := by
  obtain ⟨sign, rfl | rfl, htext, hvalue⟩ := exists_sign_yearText hyear
  · rw [if_neg (by decide)] at hvalue
    rw [htext, List.cons_append, shortYear_plus,
      bind_some (digits_padded_all (Text.head_cons rfl rest))]
    exact congrArg (fun y => some (y, '-' :: rest)) hvalue.symm
  · rw [if_pos rfl] at hvalue
    rw [htext, List.cons_append, shortYear_minus,
      bind_some (digits_padded_all (Text.head_cons rfl rest))]
    exact congrArg (fun y => some (y, '-' :: rest)) hvalue.symm

end Read

open Read

/-- No day of the week begins with a sign. -/
theorem nameIndex_weekdayNames {sign : Char} (hsign : sign = '+' ∨ sign = '-') (cs : List Char) :
    nameIndex weekdayNames (sign :: cs) = none := by
  have hnames : ∀ name ∈ weekdayNames, ¬ (name.toList.map Char.toLower).head? = some sign := by
    rcases hsign with rfl | rfl <;> decide
  have hlower : sign.toLower = sign := by
    rcases hsign with rfl | rfl <;> decide
  have hfind : (weekdayNames.findIdx? fun name =>
      name.toList.map Char.toLower = ((sign :: cs).take 3).map Char.toLower) = none := by
    rw [List.findIdx?_eq_none_iff]
    intro name hname
    rw [decide_eq_false_iff_not]
    intro hword
    apply hnames name hname
    rw [hword, List.take_succ_cons, List.map_cons, List.head?_cons, hlower]
  rw [nameIndex, hfind]
  rfl

/-- **The date of a mail does not begin with a sign.** -/
theorem mailDate_sign {sign : Char} (hsign : sign = '+' ∨ sign = '-') (cs : List Char) :
    mailDate (sign :: cs) = none := by
  have hblank := Text.head_cons (isBlank_sign hsign) cs
  have hdigit := Text.head_cons (isDigit_sign hsign) cs
  have hweekday : mailWeekday (sign :: cs) = some (none, sign :: cs) := by
    have hget : (get : Read (List Char)) (sign :: cs) = some (sign :: cs, sign :: cs) := rfl
    refine (bind_some hget _).trans ?_
    rw [nameIndex_weekdayNames hsign]
    rfl
  refine (bind_some (blanks_of_head hblank) _).trans ?_
  refine (bind_some hweekday _).trans ?_
  refine (bind_some (blanks_of_head hblank) _).trans ?_
  exact bind_none (digits_of_head hdigit 0 (some 2)) _

/-- **A timestamp does not begin with a sign.** -/
theorem timestamp_sign {sign : Char} (hsign : sign = '+' ∨ sign = '-') (cs : List Char) :
    timestamp (sign :: cs) = none := by
  have hdigit := Text.head_cons (isDigit_sign hsign) cs
  exact bind_none (bind_none (digits_of_head hdigit 3 (some 4)) _) _

/-! ### Dates without a zone -/

variable {t : DateTime}

/-- A date with a signed year is read up to its time. -/
theorem plainDate_isoText (h : t.Fits) (hyear : ¬ (0 ≤ t.date.year ∧ t.date.year ≤ 9999)) :
    plainDate t.isoText.toList = some (t.date, 'T' :: t.clockChars) := by
  rw [DateTime.toList_isoText]
  refine (bind_some (shortYear_yearText hyear _) _).trans ?_
  refine (bind_some (char_cons '-' _) _).trans ?_
  refine (bind_some (shortNumber_padded (by decide) h.month _) _).trans ?_
  refine (bind_some (char_cons '-' _) _).trans ?_
  exact bind_some (shortNumber_padded (by decide) h.day _) _

/-- Hours and minutes are read up to the seconds. -/
theorem plainDateTime_clock (h : t.Fits) (hyear : ¬ (0 ≤ t.date.year ∧ t.date.year ≤ 9999))
    (seconds : Bool) : plainDateTime (char 'T') seconds t.isoText.toList = none := by
  refine (bind_some (plainDate_isoText h hyear) _).trans ?_
  refine (bind_some (char_cons 'T' _) _).trans ?_
  refine (bind_some (shortNumber_padded (by decide) h.hour _) _).trans ?_
  refine (bind_some (char_cons ':' _) _).trans ?_
  refine (bind_some (shortNumber_padded (by decide) h.minute _) _).trans ?_
  cases seconds with
  | false =>
    rw [if_neg Bool.false_ne_true]
    exact (bind_some (a := (0, 0)) rfl _).trans (bind_none (finish_cons _ _) _)
  | true =>
    refine (bind_some (char_cons ':' _) _).trans ?_
    refine (bind_some (shortNumber_padded (by decide) h.second _) _).trans ?_
    refine (bind_some (fraction_padded h.millisecond (Text.head_cons rfl [])) _).trans ?_
    exact (bind_some (a := (t.second, t.millisecond)) rfl _).trans (bind_none (finish_cons _ _) _)

/-- Where blanks would stand before the time, a letter is no digit of an hour. -/
theorem plainDateTime_blanks (h : t.Fits) (hyear : ¬ (0 ≤ t.date.year ∧ t.date.year ≤ 9999))
    (seconds : Bool) : plainDateTime blanks seconds t.isoText.toList = none := by
  have hblanks : blanks ('T' :: t.clockChars) = some ((), 'T' :: t.clockChars) :=
    blanks_of_head (Text.head_cons rfl _)
  refine (bind_some (plainDate_isoText h hyear) _).trans ?_
  refine (bind_some hblanks _).trans ?_
  refine bind_none ((bind_some hblanks _).trans ?_) _
  exact bind_none (digits_of_head (Text.head_cons rfl _) 0 (some 2)) _

theorem plainDay_isoText (h : t.Fits) (hyear : ¬ (0 ≤ t.date.year ∧ t.date.year ≤ 9999)) :
    plainDay t.isoText.toList = none :=
  (bind_some (plainDate_isoText h hyear) _).trans (bind_none (finish_cons _ _) _)

/-! ### All readers -/

theorem dateTail_eq_append (t : DateTime) : ∃ front, t.dateTail = front ++ ['Z'] := by
  refine ⟨'-' :: ((padded 2 t.date.month).toList ++ '-' :: ((padded 2 t.date.day).toList ++ 'T' ::
    ((padded 2 t.hour).toList ++ ':' :: ((padded 2 t.minute).toList ++ ':' ::
      ((padded 2 t.second).toList ++ '.' :: (padded 3 t.millisecond).toList))))), ?_⟩
  simp only [DateTime.dateTail, DateTime.clockChars, List.cons_append, List.append_assoc]

/-- The text of an instant has no blank characters at its ends. -/
theorem trim_isoText (t : DateTime) : Text.trim t.isoText.toList = t.isoText.toList := by
  have hhead : ∀ c ∈ t.isoText.toList.head?, Text.isBlank c = false := by
    rw [DateTime.toList_isoText]
    by_cases hyear : 0 ≤ t.date.year ∧ t.date.year ≤ 9999
    · rw [yearText, if_pos hyear]
      exact head_padded_not_blank 4 _ _
    · obtain ⟨sign, hsign, htext, -⟩ := exists_sign_yearText hyear
      rw [htext]
      exact Text.head_cons (isBlank_sign hsign) _
  obtain ⟨front, hfront⟩ := dateTail_eq_append t
  have hlast : ∀ c ∈ t.isoText.toList.reverse.head?, Text.isBlank c = false := by
    rw [DateTime.toList_isoText, hfront, ← List.append_assoc, List.reverse_concat]
    exact Text.head_cons rfl _
  rw [Text.trim, Text.dropWhile_of_head hhead, Text.trimRight, Text.dropWhile_of_head hlast,
    List.reverse_reverse]

/-- **The text of an instant is read as this instant if its year has four digits**, and by no reader
otherwise. -/
theorem readInstant?_isoText {ms : Int}
    (hrange : Date.yearInRange (DateTime.ofInstant ms).date.year = true) :
    readInstant? (DateTime.ofInstant ms).isoText =
      if 0 ≤ (DateTime.ofInstant ms).date.year ∧ (DateTime.ofInstant ms).date.year ≤ 9999 then
        some ms
      else none := by
  have hfits := DateTime.fits_ofInstant ms
  rw [readInstant?, trim_isoText]
  split
  · rename_i hyear
    simp only [List.findSome?_cons, timestamp_isoText hfits hyear, checkedInstant_ofInstant hrange,
      Option.map_some]
  · rename_i hyear
    obtain ⟨sign, hsign, htext, -⟩ := exists_sign_yearText hyear
    have hcons : (DateTime.ofInstant ms).isoText.toList =
        sign :: ((padded 4 (DateTime.ofInstant ms).date.year.natAbs).toList ++
          (DateTime.ofInstant ms).dateTail) := by
      rw [DateTime.toList_isoText, htext, List.cons_append]
    have htimestamp : timestamp (DateTime.ofInstant ms).isoText.toList = none := by
      rw [hcons]
      exact timestamp_sign hsign _
    have hmail : mailDate (DateTime.ofInstant ms).isoText.toList = none := by
      rw [hcons]
      exact mailDate_sign hsign _
    simp only [List.findSome?_cons, List.findSome?_nil, htimestamp, hmail,
      plainDateTime_clock hfits hyear, plainDateTime_blanks hfits hyear,
      plainDay_isoText hfits hyear, Option.map_none]

end FormulaSheet.Calendar

namespace FormulaSheet.Builtin.Date

open Calendar

variable {t : Int}

/-! ### Instants as numbers -/

/-- An integer in the range of instants is an instant. -/
theorem timeClip_ofInt (ht : t.natAbs ≤ 8640000000000000) :
    timeClip (Decimal.ofInt t) = Decimal.ofInt t := by
  have hsmall : t.natAbs < 2 ^ 53 := by omega
  have hlimit : (8.64e15 : Float) = Float.ofNat 8640000000000000 := by decide +kernel
  have hclose : ¬ (8.64e15 : Float) < (Decimal.ofInt t).abs := by
    rw [hlimit, Decimal.abs_ofInt hsmall, Decimal.ofNat_lt_ofNat_iff (by decide) hsmall]
    omega
  rw [timeClip, Decimal.isFinite_ofInt hsmall, decide_eq_false hclose,
    Decimal.truncate_ofInt hsmall]
  rfl

/-- The text of an instant is that of its date and time, in the years in which dates are kept. -/
theorem toISOString_ofInt (ht : t.natAbs ≤ 8640000000000000) :
    toISOString [.number (Decimal.ofInt t)] =
      if Calendar.Date.yearInRange (DateTime.ofInstant t).date.year then
        .ok (.text (DateTime.ofInstant t).isoText)
      else .error (.invalidArgument "Invalid time value") := by
  have hsmall : t.natAbs < 2 ^ 53 := by omega
  have hinstant : instantArg [.number (Decimal.ofInt t)] = Decimal.ofInt t := timeClip_ofInt ht
  have hdate : dateTimeArg? [.number (Decimal.ofInt t)] = DateTime.ofInstant? t := by
    rw [dateTimeArg?, hinstant, Decimal.isNaN_ofInt, Decimal.wholePart_ofInt hsmall]
    rfl
  rw [toISOString, hdate, DateTime.ofInstant?]
  by_cases hrange : Calendar.Date.yearInRange (DateTime.ofInstant t).date.year = true
  · rw [if_pos hrange]
    simp only [if_pos hrange]
  · rw [if_neg hrange]
    simp only [if_neg hrange]

theorem parseText_isoText (ht : t.natAbs ≤ 8640000000000000)
    (hrange : Calendar.Date.yearInRange (DateTime.ofInstant t).date.year = true) :
    parseText (DateTime.ofInstant t).isoText =
      if -62167219200000 ≤ t ∧ t < 253402300800000 then Decimal.ofInt t else notANumber := by
  rw [parseText, readInstant?_isoText hrange]
  simp only [DateTime.year_four_digits_iff]
  by_cases hdigits : -62167219200000 ≤ t ∧ t < 253402300800000
  · rw [if_pos hdigits, if_pos hdigits]
    exact timeClip_ofInt ht
  · rw [if_neg hdigits, if_neg hdigits]

/-! ### Texts of the sheet -/

variable {ambient : Ambient} {f : Builtin}

theorem run_of_name_toISOString (hf : f ∈ functions ambient) (hname : f.name = "toISOString") :
    f.run = toISOString := by
  simp only [functions, ofInstant, List.mem_cons, List.not_mem_nil, or_false] at hf
  rcases hf with rfl | rfl | rfl | rfl | rfl | rfl | rfl | rfl | rfl
  case inr.inr.inr.inl => rfl
  all_goals simp at hname

theorem run_of_name_parse (hf : f ∈ functions ambient) (hname : f.name = "parse") (v : Value) :
    f.run [v] = .ok (.number (parseText v.toText)) := by
  simp only [functions, ofInstant, List.mem_cons, List.not_mem_nil, or_false] at hf
  rcases hf with rfl | rfl | rfl | rfl | rfl | rfl | rfl | rfl | rfl
  case inr.inl => rfl
  all_goals simp at hname

/-- **What is written for an instant is read back exactly in the years 0 to 9999.** An instant has a
text where dates are kept, from the year -262143 to the year 262142. The text of one before
0000-01-01 or after 9999-12-31 has a sign before its year, and is read as not-a-number. -/
theorem parse_toISOString {write read : Builtin} (hwrite : write ∈ functions ambient)
    (hwriteName : write.name = "toISOString") (hread : read ∈ functions ambient)
    (hreadName : read.name = "parse") (ht : t.natAbs ≤ 8640000000000000) :
    ((∃ v, write.run [.number (Decimal.ofInt t)] = .ok v) ↔
      -8334601228800000 ≤ t ∧ t < 8210266876800000) ∧
      ∀ v, write.run [.number (Decimal.ofInt t)] = .ok v →
        read.run [v] = .ok (.number
          (if -62167219200000 ≤ t ∧ t < 253402300800000 then Decimal.ofInt t else notANumber)) := by
  rw [run_of_name_toISOString hwrite hwriteName, toISOString_ofInt ht, ← DateTime.yearInRange_iff]
  by_cases hrange : Calendar.Date.yearInRange (DateTime.ofInstant t).date.year = true
  · rw [if_pos hrange]
    refine ⟨iff_of_true ⟨_, rfl⟩ hrange, ?_⟩
    intro v hv
    obtain rfl : Value.text (DateTime.ofInstant t).isoText = v := Except.ok.inj hv
    rw [run_of_name_parse hread hreadName]
    exact congrArg (fun x => Except.ok (Value.number x)) (parseText_isoText ht hrange)
  · rw [if_neg hrange]
    refine ⟨iff_of_false (fun ⟨_, hv⟩ => nomatch hv) hrange, ?_⟩
    intro v hv
    cases hv

/-- The last instant of the year 9999 is read back, and the first one of the year 10000 is not. -/
theorem parse_toISOString_year_10000 :
    ∃ write ∈ functions ⟨0, 0⟩, ∃ read ∈ functions ⟨0, 0⟩,
      write.name = "toISOString" ∧ read.name = "parse" ∧
      Int.natAbs 253402300799999 ≤ 8640000000000000 ∧
      Int.natAbs 253402300800000 ≤ 8640000000000000 ∧
      write.run [.number (Decimal.ofInt 253402300799999)] = .ok (.text "9999-12-31T23:59:59.999Z") ∧
      read.run [.text "9999-12-31T23:59:59.999Z"] = .ok (.number (Decimal.ofInt 253402300799999)) ∧
      write.run [.number (Decimal.ofInt 253402300800000)] =
        .ok (.text "+10000-01-01T00:00:00.000Z") ∧
      read.run [.text "+10000-01-01T00:00:00.000Z"] = .ok (.number notANumber) := by
  have hwrite : ofInstant "toISOString" toISOString ∈ functions ⟨0, 0⟩ := by
    simp only [functions, List.mem_cons, true_or, or_true]
  have hread : (ofInstant "parse" fun args => .ok (.number (parseText (arg args 0).toText))) ∈
      functions ⟨0, 0⟩ := by
    simp only [functions, List.mem_cons, true_or, or_true]
  have hlast : toISOString [.number (Decimal.ofInt 253402300799999)] =
      .ok (.text "9999-12-31T23:59:59.999Z") := by
    have hrange :
        Calendar.Date.yearInRange (DateTime.ofInstant 253402300799999).date.year = true := by
      decide +kernel
    have htext : (DateTime.ofInstant 253402300799999).isoText = "9999-12-31T23:59:59.999Z" := by
      decide +kernel
    rw [toISOString_ofInt (by decide), if_pos hrange, htext]
  have hfirst : toISOString [.number (Decimal.ofInt 253402300800000)] =
      .ok (.text "+10000-01-01T00:00:00.000Z") := by
    have hrange :
        Calendar.Date.yearInRange (DateTime.ofInstant 253402300800000).date.year = true := by
      decide +kernel
    have htext : (DateTime.ofInstant 253402300800000).isoText = "+10000-01-01T00:00:00.000Z" := by
      decide +kernel
    rw [toISOString_ofInt (by decide), if_pos hrange, htext]
  refine ⟨_, hwrite, _, hread, rfl, rfl, by decide, by decide, hlast, ?_, hfirst, ?_⟩
  · have hexact :=
      (parse_toISOString hwrite rfl hread rfl (t := 253402300799999) (by decide)).2 _ hlast
    rwa [if_pos (by decide)] at hexact
  · have hexact :=
      (parse_toISOString hwrite rfl hread rfl (t := 253402300800000) (by decide)).2 _ hfirst
    rwa [if_neg (by decide)] at hexact

end FormulaSheet.Builtin.Date
