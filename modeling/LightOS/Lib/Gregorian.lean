import Mathlib

/-!
# The Gregorian calendar

Years, months and days are counted from 1, and the rules of the calendar are applied to every year.
The days are numbered from the last day before the year 1, which was a Sunday and has the number 0.

* `Valid` — the dates that exist; `dayOfYear` and `dayNumber` — their numbers.
* `daysBeforeYear_succ` — the days of the first `n` years.
* `dayNumber_march` — the number of a date when a year is taken to begin in March.
* `Date` — a valid date; `Date.number_next` — the next one has the next number.
-/

namespace Gregorian

/-- Every fourth year is a leap year, of the centuries every fourth one. -/
def IsLeap (y : ℕ) : Prop := y % 4 = 0 ∧ (y % 100 = 0 → y % 400 = 0)

instance : DecidablePred IsLeap :=
  fun y => inferInstanceAs (Decidable (y % 4 = 0 ∧ (y % 100 = 0 → y % 400 = 0)))

/-- How many leap days the year has. -/
def leapDay (y : ℕ) : ℕ := if IsLeap y then 1 else 0

/-- The days of a month in a year with `l` leap days. -/
def monthDays (l : ℕ) : ℕ → ℕ
  | 2 => 28 + l
  | 4 => 30
  | 6 => 30
  | 9 => 30
  | 11 => 30
  | _ => 31

/-- The days before a month in a year with `l` leap days. -/
def daysBefore (l m : ℕ) : ℕ := ∑ i ∈ Finset.Ico 1 m, monthDays l i

/-- The days of a month. -/
def monthLength (y m : ℕ) : ℕ := monthDays (leapDay y) m

/-- The days of a year. -/
def yearLength (y : ℕ) : ℕ := daysBefore (leapDay y) 13

/-- The days from the year 1 up to a year. -/
def daysBeforeYear (y : ℕ) : ℕ := ∑ i ∈ Finset.Ico 1 y, yearLength i

/-- The dates that exist. -/
structure Valid (y m d : ℕ) : Prop where
  one_le_year : 1 ≤ y
  one_le_month : 1 ≤ m
  month_le : m ≤ 12
  one_le_day : 1 ≤ d
  day_le : d ≤ monthLength y m

/-- The number of a date in its year. -/
def dayOfYear (y m d : ℕ) : ℕ := daysBefore (leapDay y) m + d

/-- The number of a date. -/
def dayNumber (y m d : ℕ) : ℕ := daysBeforeYear y + dayOfYear y m d

variable {y m d l : ℕ}

/-! ## Months -/

theorem leapDay_of_isLeap (h : IsLeap y) : leapDay y = 1 := if_pos h

theorem leapDay_of_not_isLeap (h : ¬ IsLeap y) : leapDay y = 0 := if_neg h

theorem leapDay_le : leapDay y ≤ 1 := by
  unfold leapDay
  split <;> omega

theorem monthDays_pos : 0 < monthDays l m := by
  unfold monthDays
  split <;> omega

/-- Only February is longer in a leap year. -/
theorem monthDays_of_ne (h2 : m ≠ 2) : monthDays l m = monthDays 0 m := by
  unfold monthDays
  split <;> simp_all

theorem monthLength_bounds (y m : ℕ) : 28 ≤ monthLength y m ∧ monthLength y m ≤ 31 := by
  have hleap := leapDay_le (y := y)
  unfold monthLength monthDays
  split <;> omega

theorem monthLength_december : monthLength y 12 = 31 := rfl

@[simp] theorem daysBefore_one : daysBefore l 1 = 0 := rfl

theorem daysBefore_succ (hm : 1 ≤ m) : daysBefore l (m + 1) = daysBefore l m + monthDays l m :=
  Finset.sum_Ico_succ_top hm _

/-- Only the months after February come later in a leap year. -/
theorem daysBefore_eq_add : daysBefore l m = daysBefore 0 m + if 3 ≤ m then l else 0 := by
  induction m with
  | zero => rfl
  | succ m ih =>
    rcases Nat.eq_zero_or_pos m with rfl | hm
    · rfl
    rw [daysBefore_succ hm, daysBefore_succ hm, ih]
    by_cases h2 : m = 2
    · subst h2
      simp [monthDays]
      omega
    rw [monthDays_of_ne h2]
    split_ifs <;> omega

theorem yearLength_eq : yearLength y = 365 + leapDay y := by
  rw [yearLength, daysBefore_eq_add]
  rfl

/-- From March on five months have 153 days. -/
theorem daysBefore_march (h3 : 3 ≤ m) (hm : m ≤ 12) :
    daysBefore l m = 59 + l + (153 * (m - 3) + 2) / 5 := by
  rw [daysBefore_eq_add, if_pos h3]
  interval_cases m <;> simp +decide [daysBefore, Finset.sum_Ico_succ_top, monthDays] <;> omega

/-! ## Years -/

@[simp] theorem daysBeforeYear_one : daysBeforeYear 1 = 0 := rfl

theorem daysBeforeYear_next (hy : 1 ≤ y) :
    daysBeforeYear (y + 1) = daysBeforeYear y + 365 + leapDay y := by
  rw [daysBeforeYear, Finset.sum_Ico_succ_top hy, yearLength_eq, ← add_assoc]
  rfl

/-- Four hundred years have 97 leap days. -/
theorem daysBeforeYear_succ (n : ℕ) :
    daysBeforeYear (n + 1) + n / 100 = 365 * n + n / 4 + n / 400 := by
  induction n with
  | zero => rfl
  | succ n ih =>
    rw [daysBeforeYear_next (by omega)]
    by_cases hleap : IsLeap (n + 1)
    · rw [leapDay_of_isLeap hleap]
      obtain ⟨h4, h100⟩ := hleap
      omega
    · rw [leapDay_of_not_isLeap hleap]
      simp only [IsLeap, not_and_or, Classical.not_imp] at hleap
      omega

/-! ## Numbers of dates -/

/-- The number of a date whose number in its year is known. -/
theorem dayNumber_eq {n k : ℕ} (hn : y = n + 1) (hk : dayOfYear y m d = k) :
    dayNumber y m d = 365 * n + n / 4 + n / 400 - n / 100 + k := by
  subst hn
  rw [dayNumber, hk, Nat.eq_sub_of_add_eq (daysBeforeYear_succ n)]

/-- A year that begins in March ends with its leap day. -/
theorem dayNumber_march (h3 : 3 ≤ m) (hm : m ≤ 12) (hy : 1 ≤ y) :
    dayNumber y m d + 306 = daysBeforeYear (y + 1) + (153 * (m - 3) + 2) / 5 + d := by
  rw [dayNumber, dayOfYear, daysBefore_march h3 hm, daysBeforeYear_next hy]
  omega

/-- January and February are the last two months of such a year. -/
theorem dayNumber_january (h1 : 1 ≤ m) (hm : m ≤ 2) :
    dayNumber y m d + 306 = daysBeforeYear y + (153 * (m + 12 - 3) + 2) / 5 + d := by
  have hbefore : daysBefore (leapDay y) m = 31 * (m - 1) := by
    rw [daysBefore_eq_add, if_neg (by omega)]
    interval_cases m <;> rfl
  rw [dayNumber, dayOfYear, hbefore]
  interval_cases m <;> omega

theorem dayNumber_day_succ : dayNumber y m (d + 1) = dayNumber y m d + 1 := rfl

theorem dayOfYear_month_succ (hm : 1 ≤ m) :
    dayOfYear y (m + 1) 1 = dayOfYear y m (monthLength y m) + 1 := by
  rw [dayOfYear, daysBefore_succ hm]
  rfl

theorem dayNumber_month_succ (hm : 1 ≤ m) :
    dayNumber y (m + 1) 1 = dayNumber y m (monthLength y m) + 1 := by
  rw [dayNumber, dayOfYear_month_succ hm]
  rfl

theorem dayNumber_year_succ (hy : 1 ≤ y) : dayNumber (y + 1) 1 1 = dayNumber y 12 31 + 1 := by
  have hdecember : monthDays (leapDay y) 12 = 31 := rfl
  have hyear : daysBefore (leapDay y) 13 = daysBefore (leapDay y) 12 + 31 := by
    rw [← hdecember]
    exact daysBefore_succ (by omega)
  have hlength : daysBefore (leapDay y) 13 = 365 + leapDay y := yearLength_eq
  rw [dayNumber, dayNumber, daysBeforeYear_next hy, dayOfYear, dayOfYear, daysBefore_one]
  omega

theorem Valid.day_succ (h : Valid y m d) (hday : d < monthLength y m) : Valid y m (d + 1) :=
  { h with one_le_day := by omega, day_le := hday }

theorem Valid.month_succ (h : Valid y m d) (hmonth : m < 12) : Valid y (m + 1) 1 :=
  { h with
    one_le_month := by omega, month_le := hmonth, one_le_day := le_rfl, day_le := monthDays_pos }

theorem valid_first (y : ℕ) : Valid (y + 1) 1 1 :=
  ⟨by omega, le_rfl, by omega, le_rfl, monthDays_pos⟩

/-! ## The number determines the date -/

/-! ## The next day -/

/-- A valid date. -/
structure Date where
  year : ℕ
  month : ℕ
  day : ℕ
  valid : Valid year month day

namespace Date

/-- The number of the date. -/
def number (t : Date) : ℕ := dayNumber t.year t.month t.day

/-- The day after. -/
def next (t : Date) : Date :=
  if hday : t.day < monthLength t.year t.month then
    ⟨t.year, t.month, t.day + 1, t.valid.day_succ hday⟩
  else if hmonth : t.month < 12 then
    ⟨t.year, t.month + 1, 1, t.valid.month_succ hmonth⟩
  else
    ⟨t.year + 1, 1, 1, valid_first t.year⟩

theorem number_next (t : Date) : t.next.number = t.number + 1 := by
  have hvalid := t.valid
  unfold next
  split_ifs with hday hmonth
  · exact dayNumber_day_succ
  · have hlast : t.day = monthLength t.year t.month := le_antisymm hvalid.day_le (not_lt.mp hday)
    rw [number, number, hlast]
    exact dayNumber_month_succ hvalid.one_le_month
  · have hdecember : t.month = 12 := le_antisymm hvalid.month_le (not_lt.mp hmonth)
    have hlast : t.day = 31 := by
      have hle := hvalid.day_le
      rw [hdecember, monthLength_december] at hle hday
      omega
    rw [number, number, hdecember, hlast]
    exact dayNumber_year_succ hvalid.one_le_year

end Date
end Gregorian
