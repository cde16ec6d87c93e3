import FormulaSheet.Calendar.Instant
import Mathlib

/-!
# Days, dates and instants

Every day number lies in exactly the year that is computed for it (`Calendar.year_bounds`), and
within it in the month and on the day that its date names, so that a date is numbered as the day it
was made for (`Calendar.dayNumber_ofDayNumber`). The same holds of instants and their times of day
(`Calendar.DateTime.instant_ofInstant`).
-/

namespace FormulaSheet.Calendar

/-! ### Years -/

def yearLength (leap : Bool) : Nat := if leap then 366 else 365

/-- A year begins where the one before it ends. -/
theorem daysBeforeYear_succ (year : Int) :
    daysBeforeYear (year + 1) = daysBeforeYear year + yearLength (isLeap year) := by
  unfold daysBeforeYear yearLength
  split
  · rename_i hleap
    simp only [isLeap, Bool.and_eq_true, Bool.or_eq_true, bne_iff_ne, decide_eq_true_eq] at hleap
    omega
  · rename_i hleap
    simp only [isLeap, Bool.and_eq_true, Bool.or_eq_true, bne_iff_ne, decide_eq_true_eq] at hleap
    omega

/-- **The year of a day**: it has begun, and the next one has not. -/
theorem year_bounds (day : Int) :
    daysBeforeYear (yearOf day) ≤ day ∧ day < daysBeforeYear (yearOf day + 1) := by
  -- The mean year has 146097 / 400 days, and no year begins two days off its multiple.
  have hguess : daysBeforeYear (day * 400 / 146097 - 1) ≤ day ∧
      day < daysBeforeYear (day * 400 / 146097 + 1 + 1) := by
    unfold daysBeforeYear
    omega
  unfold yearOf
  simp only
  split
  · rename_i hbefore
    rw [Int.sub_add_cancel]
    exact ⟨hguess.1, hbefore⟩
  · rename_i hbegun
    split
    · rename_i hnext
      exact ⟨hnext, hguess.2⟩
    · rename_i hnext
      exact ⟨Int.not_lt.mp hbegun, Int.not_le.mp hnext⟩

theorem daysBeforeYear_le {year later : Int} (h : year ≤ later) :
    daysBeforeYear year ≤ daysBeforeYear later := by
  unfold daysBeforeYear
  omega

/-- A day lies in a year or after it exactly if it is not before the beginning of that year. -/
theorem le_yearOf_iff (year day : Int) : year ≤ yearOf day ↔ daysBeforeYear year ≤ day := by
  obtain ⟨hbegun, hover⟩ := year_bounds day
  constructor
  · intro hyear
    exact Int.le_trans (daysBeforeYear_le hyear) hbegun
  · intro hday
    apply Int.not_lt.mp
    intro hlater
    have hnext : daysBeforeYear (yearOf day + 1) ≤ daysBeforeYear year :=
      daysBeforeYear_le (by omega)
    omega

/-! ### Months -/

theorem length_monthLengths (leap : Bool) : (monthLengths leap).length = 12 := rfl

theorem sum_monthLengths (leap : Bool) : (monthLengths leap).sum = yearLength leap := by
  cases leap <;> rfl

theorem monthLengths_le (leap : Bool) : ∀ length ∈ monthLengths leap, length ≤ 31 := by
  cases leap <;> decide

/-- **The month of a day** has begun and is not over. -/
theorem splitMonths_spec (lengths : List Nat) {day : Nat} (hday : day < lengths.sum) :
    ∃ length, lengths[(splitMonths lengths day).1]? = some length ∧
      (splitMonths lengths day).2 < length ∧
      day = (lengths.take (splitMonths lengths day).1).sum + (splitMonths lengths day).2 := by
  induction lengths generalizing day with
  | nil => exact absurd hday (Nat.not_lt_zero day)
  | cons first rest ih =>
    by_cases hfirst : day < first
    · have hsplit : splitMonths (first :: rest) day = (0, day) := if_pos hfirst
      rw [hsplit]
      exact ⟨first, rfl, hfirst, (Nat.zero_add day).symm⟩
    · have hsplit : splitMonths (first :: rest) day =
          ((splitMonths rest (day - first)).1 + 1, (splitMonths rest (day - first)).2) :=
        if_neg hfirst
      rw [List.sum_cons] at hday
      have hbehind : day - first < rest.sum := by omega
      obtain ⟨length, hlength, hlt, hsum⟩ := ih hbehind
      rw [hsplit]
      refine ⟨length, hlength, hlt, ?_⟩
      rw [List.take_succ_cons, List.sum_cons]
      omega

theorem daysBeforeMonth_succ (leap : Bool) (month : Nat) :
    daysBeforeMonth leap (month + 1) = ((monthLengths leap).take month).sum :=
  List.sum_eq_foldl.symm

/-! ### Dates -/

/-- The parts of a date that is made for a day number: a month and a day that the year has, and the
number is the sum of what lies before them. -/
theorem ofDayNumber_spec (n : Int) :
    ∃ length, (monthLengths (isLeap (Date.ofDayNumber n).year))[(Date.ofDayNumber n).month - 1]? =
      some length ∧
      1 ≤ (Date.ofDayNumber n).month ∧ 1 ≤ (Date.ofDayNumber n).day ∧
      (Date.ofDayNumber n).day ≤ length ∧ (Date.ofDayNumber n).dayNumber = n := by
  obtain ⟨hbegun, hover⟩ := year_bounds (n + epochDay)
  rw [daysBeforeYear_succ] at hover
  generalize hyear : yearOf (n + epochDay) = year at hbegun hover
  generalize hrest : (n + epochDay - daysBeforeYear year).toNat = rest
  have hday : rest < (monthLengths (isLeap year)).sum := by
    rw [sum_monthLengths]
    omega
  obtain ⟨length, hlength, hlt, hsum⟩ := splitMonths_spec _ hday
  generalize hsplit : splitMonths (monthLengths (isLeap year)) rest = parts at hlength hlt hsum
  have hdate : Date.ofDayNumber n = ⟨year, parts.1 + 1, parts.2 + 1⟩ := by
    rw [← hsplit, ← hrest, ← hyear]
    rfl
  rw [hdate]
  refine ⟨length, hlength, Nat.le_add_left _ _, Nat.le_add_left _ _, hlt, ?_⟩
  show daysBeforeYear year + (daysBeforeMonth (isLeap year) (parts.1 + 1) : Int) +
    (parts.2 + 1 - 1 : Nat) - epochDay = n
  rw [daysBeforeMonth_succ]
  omega

/-- **A date has the number of the day it was made for.** -/
theorem dayNumber_ofDayNumber (n : Int) : (Date.ofDayNumber n).dayNumber = n := by
  obtain ⟨_, _, _, _, _, hnumber⟩ := ofDayNumber_spec n
  exact hnumber

/-- A date that is made for a day is one of the calendar where dates are kept. -/
theorem isValid_ofDayNumber (n : Int) :
    (Date.ofDayNumber n).isValid = Date.yearInRange (Date.ofDayNumber n).year := by
  obtain ⟨length, hlength, hmonth, hday, hle, _⟩ := ofDayNumber_spec n
  simp only [Date.isValid, hlength, hmonth, hday, hle, decide_true, Bool.and_true]

theorem month_ofDayNumber_le (n : Int) : (Date.ofDayNumber n).month ≤ 12 := by
  obtain ⟨length, hlength, _⟩ := ofDayNumber_spec n
  have hlt := (List.getElem?_eq_some_iff.mp hlength).1
  rw [length_monthLengths] at hlt
  omega

theorem day_ofDayNumber_le (n : Int) : (Date.ofDayNumber n).day ≤ 31 := by
  obtain ⟨length, hlength, _, _, hle, _⟩ := ofDayNumber_spec n
  exact Nat.le_trans hle (monthLengths_le _ length (List.mem_of_getElem? hlength))

/-! ### Instants -/

namespace DateTime

/-- What a clock shows at an instant. -/
theorem clock_ofInstant (ms : Int) :
    (ofInstant ms).hour ≤ 23 ∧ (ofInstant ms).minute ≤ 59 ∧ (ofInstant ms).second ≤ 59 ∧
      (ofInstant ms).millisecond ≤ 999 := by
  simp only [ofInstant, dayMillis]
  omega

/-- **The date and time of an instant are those of this instant.** -/
theorem instant_ofInstant (ms : Int) : (ofInstant ms).instant = ms := by
  have hdate : (ofInstant ms).date.dayNumber = ms / dayMillis := dayNumber_ofDayNumber _
  rw [instant, hdate]
  simp only [ofInstant, dayMillis]
  omega

/-- An instant lies in a year or after it exactly if it is not before the first instant of that
year. -/
theorem le_year_ofInstant_iff (year ms : Int) :
    year ≤ (ofInstant ms).date.year ↔ (daysBeforeYear year - epochDay) * dayMillis ≤ ms := by
  have hyear : (ofInstant ms).date.year = yearOf (ms / dayMillis + epochDay) := rfl
  rw [hyear, le_yearOf_iff]
  simp only [dayMillis]
  omega

/-- The years of four digits, as instants. -/
theorem year_four_digits_iff (ms : Int) :
    0 ≤ (ofInstant ms).date.year ∧ (ofInstant ms).date.year ≤ 9999 ↔
      -62167219200000 ≤ ms ∧ ms < 253402300800000 := by
  have hfirst := le_year_ofInstant_iff 0 ms
  have hlast := le_year_ofInstant_iff 10000 ms
  have hlow : (daysBeforeYear 0 - epochDay) * dayMillis = -62167219200000 := rfl
  have hhigh : (daysBeforeYear 10000 - epochDay) * dayMillis = 253402300800000 := rfl
  omega

/-- The years in which dates are kept, as instants. -/
theorem yearInRange_iff (ms : Int) :
    Date.yearInRange (ofInstant ms).date.year = true ↔
      -8334601228800000 ≤ ms ∧ ms < 8210266876800000 := by
  have hfirst := le_year_ofInstant_iff (-262143) ms
  have hlast := le_year_ofInstant_iff 262143 ms
  have hlow : (daysBeforeYear (-262143) - epochDay) * dayMillis = -8334601228800000 := rfl
  have hhigh : (daysBeforeYear 262143 - epochDay) * dayMillis = 8210266876800000 := rfl
  simp only [Date.yearInRange, Bool.and_eq_true, decide_eq_true_eq]
  omega

theorem isValid_ofInstant (ms : Int) :
    (ofInstant ms).isValid = Date.yearInRange (ofInstant ms).date.year := by
  obtain ⟨hhour, hminute, hsecond, _⟩ := clock_ofInstant ms
  have hdate : (ofInstant ms).date.isValid = Date.yearInRange (ofInstant ms).date.year :=
    isValid_ofDayNumber _
  have hsecond' : (ofInstant ms).second ≤ 60 := Nat.le_succ_of_le hsecond
  simp only [isValid, hdate, hhour, hminute, hsecond', decide_true, Bool.and_true]

end DateTime

end FormulaSheet.Calendar
