import LightOS.Lib.Gregorian

/-!
# The day of the week

`walltime_get_week_day` of `kernel/walltime.c`.  January and February are taken for the 13th and
14th month of the year before, the loop makes the sum positive, and its number of turns is bounded
by the year.

* `weekSum_emod` — the sum is the number of the day up to whole weeks.
* `weekSum_bounds` — the sum is an `int`.
* `walltimeGetWeekDay_eq` — the function returns the day of the week.
-/

namespace LightOS
namespace WallClock

open Gregorian

/-- The sum of `walltime_get_week_day`, after the year and the month have been shifted. -/
def weekSum (year month day : ℤ) : ℤ :=
  let c := year.tdiv 100
  let y := year - c * 100
  c.tdiv 4 - 2 * c + (y + y.tdiv 4) + (13 * (month + 1)).tdiv 5 + day - 1

/-- `while (week < 0) week += 7`. -/
def addWeeks : ℕ → ℤ → Option ℤ
  | 0, _ => none
  | fuel + 1, week => if week < 0 then addWeeks fuel (week + 7) else some week

/-- `walltime_get_week_day`, with fuel for its loop. -/
def walltimeGetWeekDay (fuel : ℕ) (year month day : ℤ) : Option ℤ :=
  let shifted := if month = 1 ∨ month = 2 then (year - 1, month + 12) else (year, month)
  (addWeeks fuel (weekSum shifted.1 shifted.2 day)).map fun week => week.tmod 7

/-- The loop adds whole weeks, and ends. -/
theorem addWeeks_eq (fuel : ℕ) (week : ℤ) (hfuel : -week ≤ 7 * fuel) :
    ∃ sum, addWeeks (fuel + 1) week = some sum ∧ 0 ≤ sum ∧ sum % 7 = week % 7 := by
  induction fuel generalizing week with
  | zero =>
    have hneg : ¬ week < 0 := by omega
    exact ⟨week, if_neg hneg, by omega, rfl⟩
  | succ fuel ih =>
    rw [addWeeks]
    split_ifs with hneg
    · obtain ⟨sum, hsum, hnonneg, hmod⟩ := ih (week + 7) (by push_cast at hfuel; omega)
      exact ⟨sum, hsum, hnonneg, by omega⟩
    · exact ⟨week, rfl, not_lt.mp hneg, rfl⟩

/-- Nothing that is divided is negative. -/
theorem weekSum_eq (year month day : ℕ) : weekSum year month day =
    (year / 100 / 4 : ℕ) - 2 * (year / 100 : ℕ) + ((year % 100 : ℕ) + (year % 100 / 4 : ℕ)) +
      (13 * (month + 1) / 5 : ℕ) + day - 1 := by
  have hc : (year : ℤ).tdiv 100 = (year / 100 : ℕ) :=
    Int.tdiv_eq_ediv_of_nonneg (Int.natCast_nonneg year)
  have hy : (year : ℤ) - (year / 100 : ℕ) * 100 = (year % 100 : ℕ) := by omega
  rw [weekSum, hc, hy, Int.tdiv_eq_ediv_of_nonneg (by omega), Int.tdiv_eq_ediv_of_nonneg (by omega),
    Int.tdiv_eq_ediv_of_nonneg (by omega)]
  push_cast
  rfl

/-- A century has 5218 weeks less two days, a year 52 weeks and a day, five months 22 weeks less a
day. -/
theorem weekSum_emod (year month day : ℕ) (h3 : 3 ≤ month) :
    ((daysBeforeYear (year + 1) + (153 * (month - 3) + 2) / 5 + day : ℕ) - 306 : ℤ) % 7 =
      weekSum year month day % 7 := by
  obtain ⟨n, rfl⟩ := Nat.exists_eq_add_of_le' h3
  have hyears := daysBeforeYear_succ year
  have h400 : year / 400 = year / 100 / 4 := by omega
  have h4 : year / 4 = 25 * (year / 100) + year % 100 / 4 := by omega
  have hmonth : (153 * n + 2) / 5 + 10 = 13 * (n + 3 + 1) / 5 + 28 * n := by omega
  have hyear : year = 100 * (year / 100) + year % 100 := by omega
  have hweeks : ((daysBeforeYear (year + 1) + (153 * n + 2) / 5 + day : ℕ) - 306 : ℤ) =
      weekSum year (n + 3 : ℕ) day + 7 * (5218 * (year / 100 : ℕ) + 52 * (year % 100 : ℕ) +
        4 * n - 45) := by
    rw [weekSum_eq]
    generalize daysBeforeYear (year + 1) = days at *
    generalize year / 100 / 4 = fours at *
    generalize year % 100 / 4 = leaps at *
    generalize year / 100 = centuries at *
    generalize year % 100 = years at *
    generalize 13 * (n + 3 + 1) / 5 = months at *
    omega
  rw [Nat.add_sub_cancel, hweeks, Int.add_mul_emod_self_left]

/-- The loop has less than a turn for each year. -/
theorem neg_weekSum_le (year month : ℕ) {day : ℕ} (hday : 1 ≤ day) :
    -weekSum year month day ≤ 7 * year := by
  rw [weekSum_eq]
  omega

/-- With the years of an `int` the sum is one, and so is what it is made of. -/
theorem weekSum_bounds {year month day : ℕ} (hyear : year < 2 ^ 31) (hmonth : month ≤ 14)
    (hday : day ≤ 31) :
    2 * (year / 100) < 2 ^ 31 ∧ 13 * (month + 1) < 2 ^ 31 ∧
      -2 ^ 31 ≤ weekSum year month day ∧ weekSum year month day < 2 ^ 31 := by
  rw [weekSum_eq]
  omega

/-- The shifted sum of a valid date, and its number. -/
theorem shifted_number {y m d : ℕ} (h : Gregorian.Valid y m d) :
    ∃ year month : ℕ, year ≤ y ∧ 3 ≤ month ∧
      (if (m : ℤ) = 1 ∨ (m : ℤ) = 2 then ((y : ℤ) - 1, (m : ℤ) + 12) else (y, m)) =
        ((year : ℤ), (month : ℤ)) ∧
      dayNumber y m d + 306 = daysBeforeYear (year + 1) + (153 * (month - 3) + 2) / 5 + d := by
  have hyear := h.one_le_year
  have hmonth := h.one_le_month
  by_cases h2 : m ≤ 2
  · have hyear' : y - 1 + 1 = y := by omega
    refine ⟨y - 1, m + 12, by omega, by omega, ?_, ?_⟩
    · rw [if_pos (by omega)]
      push_cast [hyear]
      rfl
    · rw [hyear']
      exact dayNumber_january hmonth h2
  · refine ⟨y, m, le_rfl, by omega, ?_, dayNumber_march (by omega) h.month_le hyear⟩
    rw [if_neg (by omega)]

theorem walltimeGetWeekDay_number (t : Date) (fuel : ℕ) (hfuel : t.year < fuel) :
    walltimeGetWeekDay fuel t.year t.month t.day = some ((t.number : ℤ) % 7) := by
  obtain ⟨year, month, hyear, hmonth, hshift, hnumber⟩ := shifted_number t.valid
  have hday := t.valid.one_le_day
  obtain ⟨fuel, rfl⟩ := Nat.exists_eq_add_one.mpr (Nat.zero_lt_of_lt hfuel)
  have hturns := neg_weekSum_le year month hday
  obtain ⟨sum, hsum, hnonneg, hmod⟩ := addWeeks_eq fuel (weekSum year month t.day) (by omega)
  rw [walltimeGetWeekDay, hshift]
  simp only [hsum, Option.map_some, Int.tmod_eq_emod_of_nonneg hnonneg, hmod]
  rw [← weekSum_emod year month t.day hmonth, ← hnumber, Date.number]
  push_cast
  rw [add_sub_cancel_right]

/-- The function returns the day of the week, and the next one for the next date. -/
theorem walltimeGetWeekDay_eq (t : Date) (extra : ℕ) :
    walltimeGetWeekDay (t.year + 1 + extra) t.year t.month t.day = some ((t.number : ℤ) % 7) ∧
      walltimeGetWeekDay (t.next.year + 1 + extra) t.next.year t.next.month t.next.day =
        (walltimeGetWeekDay (t.year + 1 + extra) t.year t.month t.day).map fun week =>
          (week + 1) % 7 := by
  have ht := walltimeGetWeekDay_number t (t.year + 1 + extra) (by omega)
  have hnext := walltimeGetWeekDay_number t.next (t.next.year + 1 + extra) (by omega)
  refine ⟨ht, ?_⟩
  rw [hnext, ht, Date.number_next, Option.map_some, Int.emod_add_emod]
  push_cast
  rfl

/-- The first of January 1970 was a Thursday. -/
example : ∃ n, dayNumber 1970 1 1 = n ∧ n % 7 = 4 :=
  ⟨_, dayNumber_eq (n := 1969) rfl rfl, by decide⟩

end WallClock
end LightOS
