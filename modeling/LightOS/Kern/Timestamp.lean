import LightOS.Kern.Walltime
import LightOS.Lib.CInt

/-!
# The timestamp of the wall clock

`walltime_make_timestamp` of `kernel/walltime.c`.  It subtracts 70 from the year although the clock
holds the full year, and uses the month, which the clock counts from 1, as an index into a table
that begins with January.  `int` and `long` have 32 bits.  What lies behind the table in memory is
a parameter.

* `walltimeMakeTimestamp_overflow` — the product with the seconds of a year overflows.
* `walltimeMakeTimestamp_reads` — how far the value is from the time.
* `walltimeMakeTimestamp_never` — the timestamp is never the one that is meant.
-/

namespace LightOS
namespace WallClock

open Gregorian CInt

/-- `MINUTE`. -/
abbrev MINUTE : ℤ := 60

/-- `HOUR`. -/
abbrev HOUR : ℤ := 60 * MINUTE

/-- `DAY`. -/
abbrev DAY : ℤ := 24 * HOUR

/-- `YEAR`. -/
abbrev YEAR : ℤ := 365 * DAY

/-- `month`. -/
def monthTable : List ℤ :=
  [0, DAY * 31, DAY * (31 + 29), DAY * (31 + 29 + 31), DAY * (31 + 29 + 31 + 30),
    DAY * (31 + 29 + 31 + 30 + 31),
    DAY * (31 + 29 + 31 + 30 + 31 + 30), DAY * (31 + 29 + 31 + 30 + 31 + 30 + 31),
    DAY * (31 + 29 + 31 + 30 + 31 + 30 + 31 + 31),
    DAY * (31 + 29 + 31 + 30 + 31 + 30 + 31 + 31 + 30),
    DAY * (31 + 29 + 31 + 30 + 31 + 30 + 31 + 31 + 30 + 31),
    DAY * (31 + 29 + 31 + 30 + 31 + 30 + 31 + 31 + 30 + 31 + 30)]

/-- `walltime_make_timestamp`; `beyond` is what is read at an index behind the table. -/
def walltimeMakeTimestamp (beyond : ℕ → ℤ) (wt : Walltime) : CInt :=
  let year := int wt.year - int 70
  let res := int YEAR * year + int DAY * ((year + int 1) / int 4)
  let res := res + int (monthTable.getD wt.month (beyond wt.month))
  let res := if 1 < wt.month ∧ ((year + int 2) % int 4).val ≠ 0 then res - int DAY else res
  let res := res + int DAY * (int wt.day - int 1)
  let res := res + int HOUR * int wt.hour
  let res := res + int MINUTE * int wt.minute
  res + int wt.second

/-- The first second of 1970, a Thursday. -/
def epoch : Walltime := ⟨0, 0, 0, 1, 1, 1970, 4, 1⟩

/-- The seconds since then. -/
def unixTime (w : Walltime) : ℤ := seconds w - seconds epoch

/-- What the timestamp of `wt` should be. -/
structure Stamps (beyond : ℕ → ℤ) (wt : Walltime) : Prop where
  val_eq : (walltimeMakeTimestamp beyond wt).val = unixTime wt
  inside : wt.month < monthTable.length
  no_overflow : (walltimeMakeTimestamp beyond wt).overflow = false
  increasing :
    (walltimeMakeTimestamp beyond wt).val <
      (walltimeMakeTimestamp beyond (walltimeUpdateSecond wt)).val

variable {beyond : ℕ → ℤ} {wt : Walltime}

/-! ## The year -/

theorem year_val (h1970 : 1970 ≤ wt.year) (h2037 : wt.year ≤ 2037) :
    (int wt.year - int 70).val = wt.year - 70 :=
  val_sub_of_inRange (by simp only [int, InRange]; omega)

/-- The seconds of 1900 years do not fit. -/
theorem walltimeMakeTimestamp_overflow (h1970 : 1970 ≤ wt.year) (h2037 : wt.year ≤ 2037) :
    (walltimeMakeTimestamp beyond wt).overflow = true := by
  have hyear : (int YEAR * (int wt.year - int 70)).overflow = true := by
    refine overflow_mul ?_
    rw [year_val h1970 h2037]
    simp only [int, InRange, YEAR, DAY, HOUR, MINUTE]
    omega
  unfold walltimeMakeTimestamp
  refine overflow_add_left (overflow_add_left (overflow_add_left (overflow_add_left ?_)))
  split_ifs
  · exact overflow_sub_left (overflow_add_left (overflow_add_left hyear))
  · exact overflow_add_left (overflow_add_left hyear)

theorem year_add_val (h1970 : 1970 ≤ wt.year) (h2037 : wt.year ≤ 2037) {k : ℤ} (hk : 0 ≤ k)
    (hk2 : k ≤ 2) :
    (int wt.year - int 70 + int k).val = wt.year - 70 + k := by
  have hyear := year_val h1970 h2037
  rw [val_add_of_inRange, hyear, int_val]
  rw [hyear, int_val, InRange]
  omega

theorem leapDays_val (h1970 : 1970 ≤ wt.year) (h2037 : wt.year ≤ 2037) :
    ((int wt.year - int 70 + int 1) / int 4).val = ((wt.year : ℤ) - 69) / 4 := by
  have hnext := year_add_val h1970 h2037 (k := 1) (by decide) (by decide)
  have hdiv : (wt.year - 70 + 1 : ℤ).tdiv 4 = (wt.year - 69) / 4 := by
    rw [Int.tdiv_eq_ediv_of_nonneg (by omega)]
    omega
  rw [val_div_of_inRange, hnext, int_val, hdiv]
  rw [hnext, int_val, hdiv, InRange]
  omega

theorem leapTest_val (h1970 : 1970 ≤ wt.year) (h2037 : wt.year ≤ 2037) :
    ((int wt.year - int 70 + int 2) % int 4).val ≠ 0 ↔ wt.year % 4 ≠ 0 := by
  have hnext := year_add_val h1970 h2037 (k := 2) (by decide) (by decide)
  have hmod : (wt.year - 70 + 2 : ℤ).tmod 4 = wt.year % 4 := by
    rw [Int.tmod_eq_emod_of_nonneg (by omega)]
    omega
  rw [val_mod_of_inRange, hnext, int_val, hmod]
  · omega
  · rw [hnext, int_val, hmod, InRange]
    omega

/-! ## The value -/

/-- No century without a leap day begins between 1970 and 2037. -/
theorem isLeap_iff {y : ℕ} (h1970 : 1970 ≤ y) (h2037 : y ≤ 2037) : IsLeap y ↔ y % 4 = 0 := by
  unfold IsLeap
  omega

theorem daysBeforeYear_eq {y : ℕ} (h1970 : 1970 ≤ y) (h2037 : y ≤ 2037) :
    daysBeforeYear y + 380 = 365 * y + (y - 1) / 4 := by
  obtain ⟨n, rfl⟩ := Nat.exists_eq_add_one.mpr (Nat.zero_lt_of_lt h1970)
  have hdays := daysBeforeYear_succ n
  rw [Nat.add_sub_cancel]
  omega

/-- The entry at the number of a month is the length of a leap year up to the end of the month. -/
theorem monthTable_eq {m : ℕ} (h1 : 1 ≤ m) (h12 : m < 12) (other : ℤ) :
    monthTable.getD m other = DAY * daysBefore 1 (m + 1) := by
  interval_cases m <;> rfl

/-- The adjustment after February makes it the one of the year. -/
theorem daysBefore_adjust {y m : ℕ} (h1970 : 1970 ≤ y) (h2037 : y ≤ 2037) (h1 : 1 ≤ m) :
    (daysBefore 1 (m + 1) : ℤ) - (if 1 < m ∧ y % 4 ≠ 0 then 1 else 0) =
      daysBefore (leapDay y) m + monthLength y m := by
  have hleap := isLeap_iff h1970 h2037
  have hnext := daysBefore_succ (l := leapDay y) h1
  rw [daysBefore_eq_add (m := m + 1)] at hnext
  rw [daysBefore_eq_add, monthLength]
  simp only [leapDay, hleap] at hnext ⊢
  split_ifs at hnext ⊢ <;> omega

theorem dayNumber_epoch : dayNumber 1970 1 1 = 719163 := dayNumber_eq (n := 1969) rfl rfl

theorem seconds_of_number (wt : Walltime) {n : ℕ} (hn : dayNumber wt.year wt.month wt.day = n) :
    seconds wt = 86400 * n + 3600 * wt.hour + 60 * wt.minute + wt.second := by
  rw [seconds, hn]

theorem unixTime_eq (wt : Walltime) : unixTime wt =
    86400 * (dayNumber wt.year wt.month wt.day - 719163) + 3600 * wt.hour + 60 * wt.minute +
      wt.second := by
  have hepoch : seconds epoch = 86400 * 719163 + 3600 * 0 + 60 * 0 + 0 :=
    seconds_of_number epoch dayNumber_epoch
  rw [unixTime, hepoch, seconds]
  push_cast
  ring

/-- The days since 1970 by the table, for the full year and a month counted from 1. -/
theorem days_eq (h1970 : 1970 ≤ wt.year) (h2037 : wt.year ≤ 2037) :
    (365 * (wt.year - 70) + (wt.year - 69) / 4 + (daysBefore (leapDay wt.year) wt.month +
        monthLength wt.year wt.month) + (wt.day - 1) : ℤ) =
      dayNumber wt.year wt.month wt.day - 719163 + (693975 + monthLength wt.year wt.month) := by
  have hdays := daysBeforeYear_eq h1970 h2037
  rw [dayNumber, dayOfYear]
  omega

/-- The value is the time, but for the seconds of 1900 years, of a month and of multiples of 2 ^
32. -/
theorem walltimeMakeTimestamp_reads (hvalid : Valid wt) (h1970 : 1970 ≤ wt.year)
    (h2037 : wt.year ≤ 2037) (h12 : wt.month < 12) :
    Reads (walltimeMakeTimestamp beyond wt) (unixTime wt +
      DAY * (693975 + monthLength wt.year wt.month)) := by
  have hyear : Reads (int wt.year - int 70) (wt.year - 70) := (reads_int _).sub (reads_int _)
  have hleap : Reads ((int wt.year - int 70 + int 1) / int 4) ((wt.year - 69) / 4) := by
    rw [← leapDays_val h1970 h2037]
    exact reads_val _
  have hmonth := monthTable_eq hvalid.date.one_le_month h12 (beyond wt.month)
  have htest := leapTest_val h1970 h2037
  have hyears := ((reads_int YEAR).mul hyear).add ((reads_int DAY).mul hleap)
  have htable := hyears.add (reads_int (DAY * daysBefore 1 (wt.month + 1)))
  have hadjust : Reads
      (if 1 < wt.month ∧ ((int wt.year - int 70 + int 2) % int 4).val ≠ 0 then
        int YEAR * (int wt.year - int 70) + int DAY * ((int wt.year - int 70 + int 1) / int 4) +
          int (DAY * daysBefore 1 (wt.month + 1)) - int DAY
      else
        int YEAR * (int wt.year - int 70) + int DAY * ((int wt.year - int 70 + int 1) / int 4) +
          int (DAY * daysBefore 1 (wt.month + 1)))
      (YEAR * (wt.year - 70) + DAY * ((wt.year - 69) / 4) + DAY * daysBefore 1 (wt.month + 1) -
        DAY * if 1 < wt.month ∧ wt.year % 4 ≠ 0 then 1 else 0) := by
    simp only [htest]
    split_ifs
    · rw [mul_one]
      exact htable.sub (reads_int DAY)
    · rw [mul_zero, sub_zero]
      exact htable
  have hday := (reads_int DAY).mul ((reads_int wt.day).sub (reads_int 1))
  have hhour := (reads_int HOUR).mul (reads_int wt.hour)
  have hminute := (reads_int MINUTE).mul (reads_int wt.minute)
  have hsum := (((hadjust.add hday).add hhour).add hminute).add (reads_int wt.second)
  have hlength := daysBefore_adjust h1970 h2037 hvalid.date.one_le_month
  have hdays := days_eq h1970 h2037
  unfold walltimeMakeTimestamp
  rw [hmonth]
  convert hsum using 1
  rw [unixTime_eq]
  linarith

/-- Not even the value is right: the difference is no multiple of 2 ^ 32 for a month of 28 to 31
days. -/
theorem walltimeMakeTimestamp_ne (hvalid : Valid wt) (h1970 : 1970 ≤ wt.year)
    (h2037 : wt.year ≤ 2037)
    (h12 : wt.month < 12) : (walltimeMakeTimestamp beyond wt).val ≠ unixTime wt := by
  intro hval
  have hreads : Reads (walltimeMakeTimestamp beyond wt) _ :=
    walltimeMakeTimestamp_reads hvalid h1970 h2037 h12
  have hlength := monthLength_bounds wt.year wt.month
  rw [Reads, hval] at hreads
  have hdvd := hreads.dvd
  rw [add_sub_cancel_left] at hdvd
  simp only [DAY, HOUR, MINUTE] at hdvd
  omega

/-- The timestamp of a clock that is set to a year from 1970 to 2037 is not what it should be. -/
theorem walltimeMakeTimestamp_never (beyond : ℕ → ℤ) (wt : Walltime) (hvalid : Valid wt)
    (h1970 : 1970 ≤ wt.year) (h2037 : wt.year ≤ 2037) :
    ¬ Stamps beyond wt ∧ (walltimeMakeTimestamp beyond wt).overflow = true ∧
      ¬ (wt.month < monthTable.length ∧ (walltimeMakeTimestamp beyond wt).val = unixTime wt) := by
  have hoverflow : (walltimeMakeTimestamp beyond wt).overflow = true :=
    walltimeMakeTimestamp_overflow h1970 h2037
  refine ⟨fun hstamps => ?_, hoverflow, fun h =>
    walltimeMakeTimestamp_ne hvalid h1970 h2037 h.1 h.2⟩
  rw [hstamps.no_overflow] at hoverflow
  exact absurd hoverflow (by decide)

theorem valid_epoch : Valid epoch where
  date := ⟨by decide, by decide, by decide, by decide, by decide⟩
  hour_lt := by decide
  minute_lt := by decide
  second_lt := by decide

theorem walltimeMakeTimestamp_never_epoch : ¬ Stamps (fun _ => 0) epoch ∧
    (walltimeMakeTimestamp (fun _ => 0) epoch).overflow = true ∧
      ¬ (epoch.month < monthTable.length ∧ (walltimeMakeTimestamp (fun _ => 0) epoch).val =
        unixTime epoch) :=
  walltimeMakeTimestamp_never (fun _ => 0) epoch valid_epoch (by decide) (by decide)

/-- The first second of 1970 gets a negative timestamp. -/
theorem walltimeMakeTimestamp_epoch : Valid epoch ∧ unixTime epoch = 0 ∧
    walltimeMakeTimestamp (fun _ => 0) epoch = ⟨-167423744, true⟩ ∧
      ¬ Stamps (fun _ => 0) epoch := by
  have hstamp : walltimeMakeTimestamp (fun _ => 0) epoch = ⟨-167423744, true⟩ := by decide
  refine ⟨valid_epoch, by rw [unixTime, sub_self], hstamp, fun hstamps => ?_⟩
  have hoverflow := hstamps.no_overflow
  rw [hstamp] at hoverflow
  exact absurd hoverflow (by decide)

end WallClock
end LightOS
