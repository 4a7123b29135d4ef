import LightOS.Lib.Gregorian

/-!
# The wall clock

`walltime_t` and `walltime_update_second` of `kernel/walltime.c` with the functions it calls.

`walltime_is_leap_year` asks whether 400 divides the year before it asks whether 100 does, so it
takes every fourth year for a leap year.  `walltime_get_year_days` is called after `day++` and
before the carry to the month, and it adds the leap day once in its loop and once more at its end.

* `seconds` — the seconds that have passed.
* `walltimeUpdateSecond_right_iff` — when one tick is right.
* `walltime_stays_right_iff` — when a run of ticks is.
-/

namespace LightOS
namespace WallClock

open Gregorian

/-- `walltime_t`. -/
structure Walltime where
  second : ℕ
  minute : ℕ
  hour : ℕ
  day : ℕ
  month : ℕ
  year : ℕ
  weekDay : ℕ
  yearDay : ℕ
  deriving DecidableEq, Repr

/-- `month_day`. -/
def monthDay (i : ℕ) : ℕ := [0, 31, 28, 31, 30, 31, 30, 31, 31, 30, 31, 30, 31].getD i 0

/-- `walltime_is_leap_year`. -/
def walltimeIsLeapYear (year : ℕ) : ℕ :=
  if year % 4 ≠ 0 then 0
  else if year % 400 ≠ 0 then 1
  else if year % 100 ≠ 0 then 0
  else 1

/-- `walltime_get_month_day`. -/
def walltimeGetMonthDay (w : Walltime) : ℕ :=
  if w.month = 2 then monthDay w.month + walltimeIsLeapYear w.year else monthDay w.month

/-- `walltime_get_year_days`. -/
def walltimeGetYearDays (w : Walltime) : ℕ :=
  let sum := (List.range' 1 (w.month - 1)).foldl (fun sum i =>
    if i = 2 then sum + (monthDay i + walltimeIsLeapYear w.year) else sum + monthDay i) 0
  let sum := sum + w.day
  if 2 ≤ w.month then
    if w.month = 2 then
      if w.day = 28 then sum + walltimeIsLeapYear w.year else sum
    else sum + walltimeIsLeapYear w.year
  else sum

/-- `walltime_update_second` from `walltime.day++` on. -/
def updateDay (w : Walltime) : Walltime :=
  let w := { w with day := w.day + 1, hour := 0, weekDay := w.weekDay + 1 }
  let w := if 6 < w.weekDay then { w with weekDay := 0 } else w
  let w := { w with yearDay := walltimeGetYearDays w }
  if walltimeGetMonthDay w < w.day then
    let w := { w with month := w.month + 1, day := 1 }
    if 12 < w.month then { w with year := w.year + 1, month := 1 } else w
  else w

/-- `walltime_update_second`. -/
def walltimeUpdateSecond (w : Walltime) : Walltime :=
  let w := { w with second := w.second + 1 }
  if 59 < w.second then
    let w := { w with minute := w.minute + 1, second := 0 }
    if 59 < w.minute then
      let w := { w with hour := w.hour + 1, minute := 0 }
      if 23 < w.hour then updateDay w else w
    else w
  else w

/-- The date and the time exist. -/
structure Valid (w : Walltime) : Prop where
  date : Gregorian.Valid w.year w.month w.day
  hour_lt : w.hour < 24
  minute_lt : w.minute < 60
  second_lt : w.second < 60

/-- The clock shows the true day of the week and of the year, Sunday as 0 and the first of January
as 1. -/
structure Correct (w : Walltime) : Prop extends Valid w where
  weekDay_eq : w.weekDay = dayNumber w.year w.month w.day % 7
  yearDay_eq : w.yearDay = dayOfYear w.year w.month w.day

/-- The seconds since the day with the number 0. -/
def seconds (w : Walltime) : ℕ :=
  86400 * dayNumber w.year w.month w.day + 3600 * w.hour + 60 * w.minute + w.second

/-- The last second of a day. -/
def EndOfDay (w : Walltime) : Prop := w.hour = 23 ∧ w.minute = 59 ∧ w.second = 59

instance (w : Walltime) : Decidable (EndOfDay w) := inferInstanceAs (Decidable (_ ∧ _ ∧ _))

/-- The day of the year is right after midnight. -/
def YearDayRight (w : Walltime) : Prop :=
  (w.month = 2 → w.year % 4 = 0 → w.day ≠ 27) ∧
    (3 ≤ w.month → w.year % 4 ≠ 0 ∧ ¬ (w.month = 12 ∧ w.day = 31))

/-- The date is right after midnight. -/
def DateRight (w : Walltime) : Prop := w.month = 2 → w.day = 28 → w.year % 4 = 0 → IsLeap w.year

/-- The tick that comes next is right. -/
def TicksRight (w : Walltime) : Prop := EndOfDay w → YearDayRight w ∧ DateRight w

variable {w w' : Walltime}

/-! ## What the code computes -/

theorem walltimeIsLeapYear_eq (year : ℕ) :
    walltimeIsLeapYear year = if year % 4 = 0 then 1 else 0 := by
  unfold walltimeIsLeapYear
  split_ifs <;> omega

theorem leapDay_le_walltimeIsLeapYear (year : ℕ) : leapDay year ≤ walltimeIsLeapYear year := by
  rw [walltimeIsLeapYear_eq, leapDay]
  split_ifs with hleap h4
  · exact le_rfl
  · exact absurd hleap.1 h4
  · omega
  · omega

/-- One turn of the loop of `walltime_get_year_days`. -/
theorem monthDay_add (l i : ℕ) (h1 : 1 ≤ i) (h12 : i ≤ 12) (sum : ℕ) :
    (if i = 2 then sum + (monthDay i + l) else sum + monthDay i) = sum + monthDays l i := by
  interval_cases i <;> rfl

theorem walltimeGetMonthDay_eq (hdate : Gregorian.Valid w.year w.month w.day) :
    walltimeGetMonthDay w = monthDays (walltimeIsLeapYear w.year) w.month := by
  have hadd := monthDay_add (walltimeIsLeapYear w.year) w.month hdate.one_le_month hdate.month_le 0
  simp only [zero_add] at hadd
  exact hadd

theorem monthLoop_eq (l : ℕ) {n : ℕ} (hn : n < 12) :
    (List.range' 1 n).foldl (fun sum i => if i = 2 then
      sum + (monthDay i + l) else sum + monthDay i) 0 =
      daysBefore l (n + 1) := by
  induction n with
  | zero => rfl
  | succ n ih =>
    rw [List.range'_1_concat, List.foldl_concat, ih (by omega),
      monthDay_add l (1 + n) (by omega) (by omega), add_comm 1 n, ← daysBefore_succ (by omega)]

/-- The leap day is counted a second time, in February when the day is the 28th. -/
theorem walltimeGetYearDays_eq (h1 : 1 ≤ w.month) (h12 : w.month ≤ 12) :
    walltimeGetYearDays w = daysBefore 0 w.month + w.day +
      (if 3 ≤ w.month then 2 * walltimeIsLeapYear w.year
        else if w.month = 2 ∧ w.day = 28 then walltimeIsLeapYear w.year else 0) := by
  have hmonth : w.month - 1 + 1 = w.month := by omega
  rw [walltimeGetYearDays, monthLoop_eq _ (by omega), hmonth, daysBefore_eq_add]
  split_ifs <;> omega

/-! ## One day -/

/-- The new date is the next day of the month or the first one of the next month. -/
theorem updateDay_eq : updateDay w =
    { w with
      hour := 0
      day := if walltimeGetMonthDay w < w.day + 1 then 1 else w.day + 1
      month := if walltimeGetMonthDay w < w.day + 1 then if 12 < w.month + 1 then 1
        else w.month + 1 else w.month
      year := if walltimeGetMonthDay w < w.day + 1 ∧ 12 < w.month + 1 then w.year + 1 else w.year
      weekDay := if 6 < w.weekDay + 1 then 0 else w.weekDay + 1
      yearDay := walltimeGetYearDays { w with day := w.day + 1 } } := by
  have hlength : ∀ v : Walltime, v.month = w.month → v.year = w.year →
      walltimeGetMonthDay v = walltimeGetMonthDay w := by
    intro v hmonth hyear
    rw [walltimeGetMonthDay, walltimeGetMonthDay, hmonth, hyear]
  by_cases h6 : 6 < w.weekDay + 1 <;> by_cases hday : walltimeGetMonthDay w < w.day + 1 <;>
    by_cases h12 : 12 < w.month + 1 <;> simp [updateDay, h6, h12, hday, hlength] <;> rfl

/-- The carry to the month is made when the month is over. -/
theorem walltimeGetMonthDay_lt_iff (hdate : Gregorian.Valid w.year w.month w.day)
    (hright : DateRight w) :
    walltimeGetMonthDay w < w.day + 1 ↔ w.day = monthLength w.year w.month := by
  have hday := hdate.day_le
  rw [walltimeGetMonthDay_eq hdate]
  unfold monthLength at *
  by_cases h2 : w.month = 2
  · have hleap := leapDay_le_walltimeIsLeapYear w.year
    have hcode := walltimeIsLeapYear_eq w.year
    -- on the 28th the code and the calendar agree about the year
    have hsame : w.day = 28 → walltimeIsLeapYear w.year = leapDay w.year := by
      intro h28
      by_cases h4 : w.year % 4 = 0
      · rw [leapDay_of_isLeap (hright h2 h28 h4), hcode, if_pos h4]
      · rw [if_neg h4] at hcode
        omega
    have hone : walltimeIsLeapYear w.year ≤ 1 := by
      rw [hcode]
      split_ifs <;> omega
    have hfebruary : ∀ l, monthDays l 2 = 28 + l := fun _ => rfl
    rw [h2, hfebruary] at hday ⊢
    rw [hfebruary]
    omega
  · have hsame : monthDays (walltimeIsLeapYear w.year) w.month =
      monthDays (leapDay w.year) w.month :=
      (monthDays_of_ne h2).trans (monthDays_of_ne h2).symm
    rw [hsame]
    omega

/-- Unless the year ends, such a carry leads to the next date. -/
theorem updateDay_date (hdate : Gregorian.Valid w.year w.month w.day) (hright : DateRight w)
    (hlast : ¬ (w.month = 12 ∧ w.day = 31)) :
    Gregorian.Valid (updateDay w).year (updateDay w).month (updateDay w).day ∧
      dayOfYear (updateDay w).year (updateDay w).month (updateDay w).day =
        dayOfYear w.year w.month w.day + 1 ∧
      dayNumber (updateDay w).year (updateDay w).month (updateDay w).day =
        dayNumber w.year w.month w.day + 1 := by
  have hover := walltimeGetMonthDay_lt_iff hdate hright
  by_cases hend : w.day = monthLength w.year w.month
  · have hmonth : w.month < 12 := by
      refine lt_of_le_of_ne hdate.month_le fun h12 => hlast ⟨h12, ?_⟩
      rw [hend, h12, monthLength_december]
    have h12 : ¬ 12 < w.month + 1 := by omega
    simp only [updateDay_eq, if_pos (hover.mpr hend), h12, and_false, if_false]
    refine ⟨hdate.month_succ hmonth, ?_, ?_⟩
    · rw [hend]
      exact dayOfYear_month_succ hdate.one_le_month
    · rw [hend]
      exact dayNumber_month_succ hdate.one_le_month
  · have hover : ¬ walltimeGetMonthDay w < w.day + 1 := hover.not.mpr hend
    simp only [updateDay_eq, hover, false_and, if_false]
    exact ⟨hdate.day_succ (lt_of_le_of_ne hdate.day_le hend), rfl, rfl⟩

theorem updateDay_yearDay (h1 : 1 ≤ w.month) (h12 : w.month ≤ 12) :
    (updateDay w).yearDay = daysBefore 0 w.month + (w.day + 1) +
      (if 3 ≤ w.month then 2 * walltimeIsLeapYear w.year
        else if w.month = 2 ∧ w.day + 1 = 28 then walltimeIsLeapYear w.year else 0) := by
  simp only [updateDay_eq]
  exact walltimeGetYearDays_eq h1 h12

/-- After midnight the day of the year counts the new day unless a leap day is counted twice. -/
theorem updateDay_yearDay_iff (hdate : Gregorian.Valid w.year w.month w.day) :
    (updateDay w).yearDay = dayOfYear w.year w.month w.day + 1 ↔
      (w.month = 2 → w.year % 4 = 0 → w.day ≠ 27) ∧ (3 ≤ w.month → w.year % 4 ≠ 0) := by
  have hleap := leapDay_le_walltimeIsLeapYear w.year
  rw [updateDay_yearDay hdate.one_le_month hdate.month_le, dayOfYear,
    daysBefore_eq_add (l := leapDay w.year)]
  simp only [walltimeIsLeapYear_eq] at hleap ⊢
  split_ifs at hleap ⊢ <;> omega

theorem Correct.midnight (h : Correct w) : Correct { w with hour := 0, minute := 0, second := 0 } :=
  { h with hour_lt := by simp, minute_lt := by simp, second_lt := by simp }

/-- At the end of the year the new day of the year is at least 32. -/
theorem updateDay_yearEnd (hdate : Gregorian.Valid w.year w.month w.day)
    (hlast : w.month = 12 ∧ w.day = 31) :
    ¬ Correct (updateDay w) := by
  intro hcorrect
  have hover : walltimeGetMonthDay w < w.day + 1 :=
    (walltimeGetMonthDay_lt_iff hdate fun h2 => by omega).mpr
      (by rw [hlast.1, monthLength_december, hlast.2])
  have hyearDay := hcorrect.yearDay_eq
  have hfirst : dayOfYear (updateDay w).year (updateDay w).month (updateDay w).day = 1 := by
    simp [updateDay_eq, hover, hlast.1, dayOfYear]
  rw [hfirst, updateDay_yearDay hdate.one_le_month hdate.month_le] at hyearDay
  omega

/-- A year that is no leap year gets a 29th of February. -/
theorem updateDay_leapWrong (hdate : Gregorian.Valid w.year w.month w.day)
    (hright : ¬ DateRight w) :
    ¬ Correct (updateDay w) := by
  intro hcorrect
  simp only [DateRight, Classical.not_imp] at hright
  obtain ⟨h2, h28, h4, hnot⟩ := hright
  have hlength : walltimeGetMonthDay w = 29 := by
    rw [walltimeGetMonthDay_eq hdate, h2, walltimeIsLeapYear_eq, if_pos h4]
    rfl
  have hday := hcorrect.date.day_le
  simp [updateDay_eq, hlength, h2, h28, monthLength, leapDay_of_not_isLeap hnot, monthDays] at hday

/-- On the other days only the day of the year can be wrong. -/
theorem updateDay_correct_iff (h : Correct w) (hright : DateRight w)
    (hlast : ¬ (w.month = 12 ∧ w.day = 31)) :
    Correct (updateDay w) ↔ (updateDay w).yearDay = dayOfYear w.year w.month w.day + 1 := by
  obtain ⟨hvalid, hyear, hnumber⟩ := updateDay_date h.date hright hlast
  rw [← hyear]
  refine ⟨fun hcorrect => hcorrect.yearDay_eq, fun hday => ⟨⟨hvalid, ?_, ?_, ?_⟩, ?_, hday⟩⟩
  · simp [updateDay_eq]
  · simpa [updateDay_eq] using h.minute_lt
  · simpa [updateDay_eq] using h.second_lt
  · have hweek := h.weekDay_eq
    rw [hnumber]
    simp only [updateDay_eq]
    split_ifs <;> omega

/-- What the carries after midnight do. -/
theorem updateDay_right_iff (h : Correct w) :
    (Correct (updateDay w) ∧ dayNumber (updateDay w).year (updateDay w).month (updateDay w).day =
        dayNumber w.year w.month w.day + 1) ↔ YearDayRight w ∧ DateRight w := by
  by_cases hlast : w.month = 12 ∧ w.day = 31
  · refine iff_of_false (fun hcorrect => updateDay_yearEnd h.date hlast hcorrect.1) fun hright => ?_
    exact (hright.1.2 (by omega)).2 hlast
  by_cases hright : DateRight w
  · have hnumber := (updateDay_date h.date hright hlast).2.2
    rw [and_iff_left hnumber, updateDay_correct_iff h hright hlast, updateDay_yearDay_iff h.date,
      YearDayRight, and_iff_left hright]
    simp only [hlast, not_false_eq_true, and_true]
  · exact iff_of_false (fun hcorrect => updateDay_leapWrong h.date hright hcorrect.1) fun h =>
      hright h.2

/-! ## One tick -/

theorem walltimeUpdateSecond_endOfDay (h : EndOfDay w) :
    walltimeUpdateSecond w = updateDay { w with hour := 0, minute := 0, second := 0 } := by
  obtain ⟨hhour, hminute, hsecond⟩ := h
  simp only [walltimeUpdateSecond, hhour, hminute, hsecond]
  simp only [updateDay_eq]
  rfl

/-- Before the end of the day the time goes on and the date stays. -/
theorem walltimeUpdateSecond_within (hvalid : Valid w) (h : ¬ EndOfDay w) :
    ∃ hour minute second, walltimeUpdateSecond w =
      { w with hour := hour, minute := minute, second := second } ∧
      hour < 24 ∧ minute < 60 ∧ second < 60 ∧
      3600 * hour + 60 * minute + second = 3600 * w.hour + 60 * w.minute + w.second + 1 := by
  have hhour := hvalid.hour_lt
  have hminute := hvalid.minute_lt
  have hsecond := hvalid.second_lt
  unfold EndOfDay at h
  by_cases h60 : 59 < w.second + 1
  · by_cases hm60 : 59 < w.minute + 1
    · have h24 : ¬ 23 < w.hour + 1 := by omega
      refine ⟨w.hour + 1, 0, 0, by simp [walltimeUpdateSecond, h60, hm60, h24], ?_⟩
      omega
    · refine ⟨w.hour, w.minute + 1, 0, by simp [walltimeUpdateSecond, h60, hm60], ?_⟩
      omega
  · refine ⟨w.hour, w.minute, w.second + 1, by simp [walltimeUpdateSecond, h60], ?_⟩
    omega

theorem seconds_updateDay (hminute : w.minute = 0) (hsecond : w.second = 0) :
    seconds (updateDay w) = 86400 * dayNumber (updateDay w).year (updateDay w).month
    (updateDay w).day := by
  have htime : (updateDay w).hour = 0 ∧ (updateDay w).minute = 0 ∧ (updateDay w).second = 0 := by
    simp [updateDay_eq, hminute, hsecond]
  rw [seconds, htime.1, htime.2.1, htime.2.2]
  omega

/-- One tick of a correct clock. -/
theorem walltimeUpdateSecond_right_iff (h : Correct w) :
    (Correct (walltimeUpdateSecond w) ∧ seconds (walltimeUpdateSecond w) = seconds w + 1) ↔
      TicksRight w := by
  by_cases hend : EndOfDay w
  · have hright := updateDay_right_iff h.midnight
    have hseconds := seconds_updateDay (w := { w with hour := 0, minute := 0, second := 0 }) rfl rfl
    have hnext : seconds w + 1 = 86400 * (dayNumber w.year w.month w.day + 1) := by
      rw [seconds, hend.1, hend.2.1, hend.2.2]
      omega
    rw [walltimeUpdateSecond_endOfDay hend, hseconds, hnext, Nat.mul_right_inj (by decide), hright]
    exact ⟨fun hday _ => hday, fun hticks => hticks hend⟩
  · obtain ⟨hour, minute, second, heq, hhour, hminute, hsecond, htime⟩ :=
      walltimeUpdateSecond_within h.toValid hend
    refine iff_of_true ⟨?_, ?_⟩ fun hend' => absurd hend' hend
    · rw [heq]
      exact { h with hour_lt := hhour, minute_lt := hminute, second_lt := hsecond }
    · rw [heq]
      simp only [seconds]
      omega

/-! ## Ticks in a row -/

/-- What the clock shows `k` seconds after it showed `w`. -/
def RightAfter (w : Walltime) (k : ℕ) : Prop :=
  Correct (walltimeUpdateSecond^[k] w) ∧ seconds (walltimeUpdateSecond^[k] w) = seconds w + k

theorem rightAfter_succ_iff {k : ℕ} (h : RightAfter w k) :
    RightAfter w (k + 1) ↔ TicksRight (walltimeUpdateSecond^[k] w) := by
  rw [← walltimeUpdateSecond_right_iff h.1, h.2, RightAfter, Function.iterate_succ_apply',
    add_assoc]

/-- The clock stays right as long as the ticks are right. -/
theorem walltime_stays_right_iff (h : Correct w) (n : ℕ) :
    (∀ k ≤ n, RightAfter w k) ↔ ∀ k < n, TicksRight (walltimeUpdateSecond^[k] w) := by
  constructor
  · intro hright k hk
    exact (rightAfter_succ_iff (hright k hk.le)).mp (hright (k + 1) hk)
  · intro hticks k
    induction k with
    | zero => exact fun _ => ⟨h, rfl⟩
    | succ k ih => exact fun hk => (rightAfter_succ_iff (ih (by omega))).mpr (hticks k hk)

theorem correct_of_number {n : ℕ} (hvalid : Valid w) (hn : dayNumber w.year w.month w.day = n)
    (hweekDay : w.weekDay = n % 7) (hyearDay : w.yearDay = dayOfYear w.year w.month w.day) :
    Correct w :=
  ⟨hvalid, by rw [hn, hweekDay], hyearDay⟩

/-- The last second of the year 2021, a Friday. -/
def newYearsEve : Walltime := ⟨59, 59, 23, 31, 12, 2021, 5, 365⟩

theorem dayNumber_newYearsEve : dayNumber 2021 12 31 = 738155 :=
  dayNumber_eq (n := 2020) (k := 365) rfl (by decide)

theorem correct_newYearsEve : Correct newYearsEve :=
  correct_of_number
    { date := ⟨by decide, by decide, by decide, by decide, by decide⟩
      hour_lt := by decide, minute_lt := by decide, second_lt := by decide }
    dayNumber_newYearsEve (by decide) (by decide)

theorem walltime_stays_right_newYearsEve : (∀ k ≤ 1, RightAfter newYearsEve k) ↔
    ∀ k < 1, TicksRight (walltimeUpdateSecond^[k] newYearsEve) :=
  walltime_stays_right_iff correct_newYearsEve 1

/-- The new year begins with its 366th day. -/
theorem walltimeUpdateSecond_newYearsEve :
    Correct newYearsEve ∧ walltimeUpdateSecond newYearsEve = ⟨0, 0, 0, 1, 1, 2022, 6, 366⟩ ∧
      ¬ Correct (walltimeUpdateSecond newYearsEve) := by
  have htick : walltimeUpdateSecond newYearsEve = ⟨0, 0, 0, 1, 1, 2022, 6, 366⟩ := by decide
  refine ⟨correct_newYearsEve, htick, fun hcorrect => ?_⟩
  rw [htick] at hcorrect
  exact absurd hcorrect.yearDay_eq (by decide)

end WallClock
end LightOS
