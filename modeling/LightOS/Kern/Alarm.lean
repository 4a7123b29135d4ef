import LightOS.Lib.Simulation
import LightOS.Mm.Params

/-!
# Alarms

`kernel/alarm.c`: `sys_alarm`, and `alarm_update_ticks`, which the timer softirq calls at every
tick.  A task counts its alarm down in seconds and in ticks of a second; its children get a copy
(`task/fork.c`).

* `Deadline` — what an alarm is for: a tick at which the exception is sent.
* `alarms_on_time` — counting down is right about that in every run.
-/

namespace LightOS
namespace Alarms

open Simulation

/-- `HZ`. -/
abbrev hz : ℕ := 1000

/-- `alarm_t`.  While it is set there is a tick left of a second that is left. -/
structure Alarm where
  flags : Bool
  ticks : ℕ
  second : ℕ
  counts : flags = true → (1 ≤ ticks ∧ ticks ≤ 1000) ∧ 1 ≤ second ∧ second < 4294967296

/-- `alarm_init`. -/
def alarmInit : Alarm := ⟨false, 0, 0, fun h => absurd h Bool.false_ne_true⟩

/-- `sys_alarm`: the alarm after it, and what it returns. -/
def sysAlarm (a : Alarm) (second : UInt32) : Alarm × ℕ :=
  (if h : second.toNat = 0 then
    ⟨false, a.ticks, a.second, fun hset => absurd hset Bool.false_ne_true⟩
    else ⟨true, hz, second.toNat, fun _ => ⟨⟨Nat.succ_pos _, le_rfl⟩, Nat.pos_of_ne_zero h,
      second.toNat_lt⟩⟩, a.second)

/-- What `alarm_update_ticks` does to one task, and whether it calls `exception_send`. -/
def alarmUpdateTicks (a : Alarm) : Alarm × Bool :=
  if hset : a.flags = true then
    if hticks : sub32 a.ticks 1 = 0 then
      if hsecond : sub32 a.second 1 = 0 then
        (⟨false, hz, sub32 a.second 1, fun h => absurd h Bool.false_ne_true⟩, true)
      else (⟨true, hz, sub32 a.second 1, fun _ =>
        ⟨⟨Nat.succ_pos _, le_rfl⟩, Nat.pos_of_ne_zero hsecond, sub32_lt _ _⟩⟩, false)
    else (⟨true, sub32 a.ticks 1, a.second, fun _ => ⟨⟨Nat.pos_of_ne_zero hticks, by
      rw [sub32_of_le (a.counts hset).1.1 (by have := (a.counts hset).1; omega)]
      exact (Nat.sub_le _ _).trans (a.counts hset).1.2⟩, (a.counts hset).2⟩⟩, false)
  else (a, false)

/-! ## The tasks -/

inductive AlarmCall where
  /-- `task_init`, and the task is put on the list. -/
  | init (pid : ℕ)
  | fork (pid child : ℕ)
  | free (pid : ℕ)
  | alarm (pid : ℕ) (second : UInt32)
  | tick

/-- What a call returns to its caller, and who is sent `EXP_CODE_ALRM`. -/
inductive Reply where
  | none
  | seconds (old : List ℕ)
  | sent (pids : List ℕ)

/-- What is kept for each task, and what the calls make of it. -/
structure Keeper (α : Type) where
  init : α
  alarm : α → UInt32 → α × ℕ
  update : α → α × Bool

/-- A call, with the tasks of `task_global_list`. -/
def Keeper.step {α : Type} (k : Keeper α) (tasks : List (ℕ × α)) : AlarmCall → List (ℕ × α) × Reply
  | .init pid => (tasks ++ [(pid, k.init)], .none)
  | .fork pid child => (tasks ++ (tasks.filter fun t => t.1 = pid).map fun t => (child, t.2), .none)
  | .free pid => (tasks.filter fun t => t.1 ≠ pid, .none)
  | .alarm pid second =>
      (tasks.map fun t => (t.1, if t.1 = pid then (k.alarm t.2 second).1 else t.2),
        .seconds ((tasks.filter fun t => t.1 = pid).map fun t => (k.alarm t.2 second).2))
  | .tick =>
      (tasks.map fun t => (t.1, (k.update t.2).1),
        .sent ((tasks.filter fun t => (k.update t.2).2).map Prod.fst))

/-- `kernel/alarm.c`. -/
def countdown : Keeper Alarm := ⟨alarmInit, sysAlarm, alarmUpdateTicks⟩

/-! ## Deadlines -/

/-- The tick at which the exception is sent, or the seconds that were left when the alarm was taken
back. -/
inductive Deadline where
  | off (left : ℕ)
  | due (tick : ℕ)

/-- The seconds that are left at `now`, and a begun one. -/
def Deadline.left (now : ℕ) : Deadline → ℕ
  | .off left => left
  | .due tick => (tick - now + (hz - 1)) / hz

/-- The alarms at the tick `now`. -/
def deadlines (now : ℕ) : Keeper Deadline where
  init := .off 0
  alarm d second := (if second.toNat = 0 then
    .off (d.left now) else .due (now + second.toNat * hz), d.left now)
  update
    | .off left => (.off left, false)
    | .due tick => if tick ≤ now then (.off 0, true) else (.due tick, false)

/-- A call, with the clock and the deadlines of the tasks. -/
def deadlineStep (s : ℕ × List (ℕ × Deadline)) (c : AlarmCall) :
    (ℕ × List (ℕ × Deadline)) × Reply :=
  let now := match c with | .tick => s.1 + 1 | _ => s.1
  ((now, ((deadlines now).step s.2 c).1), ((deadlines now).step s.2 c).2)

/-- The deadline of an alarm. -/
def Alarm.deadline (now : ℕ) (a : Alarm) : Deadline :=
  if a.flags then .due (now + (a.second - 1) * hz + a.ticks) else .off a.second

variable (now : ℕ) (a : Alarm)

/-- `sys_alarm` returns what is left, and sets the deadline. -/
theorem sysAlarm_deadline (second : UInt32) :
    (deadlines now).alarm (a.deadline now) second =
      ((sysAlarm a second).1.deadline now, (sysAlarm a second).2) := by
  have hleft : (a.deadline now).left now = a.second := by
    unfold Alarm.deadline
    split_ifs with hset
    · have hcounts := a.counts hset
      simp only [Deadline.left, hz]
      omega
    · rfl
  simp only [sysAlarm, deadlines, hleft]
  split_ifs with hzero
  · rfl
  · have hsum : now + (second.toNat - 1) * hz + hz = now + second.toNat * hz := by
      simp only [hz]
      omega
    simp only [Alarm.deadline, if_pos, hsum]

/-- A tick takes one off what is left, and the last one is that of the deadline. -/
theorem alarmUpdateTicks_deadline : (deadlines (now + 1)).update (a.deadline now) =
    ((alarmUpdateTicks a).1.deadline (now + 1), (alarmUpdateTicks a).2) := by
  by_cases hset : a.flags = true
  · obtain ⟨⟨hpos, hhz⟩, hsecond, hlt⟩ := a.counts hset
    have hdue : a.deadline now = .due (now + (a.second - 1) * 1000 + a.ticks) := if_pos hset
    simp only [alarmUpdateTicks, dif_pos hset, sub32_of_le hpos (by omega),
      sub32_of_le hsecond hlt, hdue, deadlines]
    by_cases hticks : a.ticks - 1 = 0
    · by_cases hlast : a.second - 1 = 0
      · simp only [dif_pos hticks, dif_pos hlast]
        rw [if_pos (by omega)]
        simp only [Alarm.deadline, hlast, Bool.false_eq_true, if_false]
      · simp only [dif_pos hticks, dif_neg hlast]
        rw [if_neg (by omega)]
        have hsum : now + 1 + (a.second - 1 - 1) * 1000 + 1000 =
          now + (a.second - 1) * 1000 + a.ticks := by omega
        simp only [Alarm.deadline, if_pos, hsum]
    · simp only [dif_neg hticks]
      rw [if_neg (by omega)]
      have hsum : now + 1 + (a.second - 1) * 1000 + (a.ticks - 1) =
        now + (a.second - 1) * 1000 + a.ticks := by omega
      simp only [Alarm.deadline, if_pos, hsum]
  · simp only [alarmUpdateTicks, dif_neg hset, Alarm.deadline, if_neg hset, deadlines]

/-- **Alarms are on time.**  In every sequence of calls and ticks `alarm_update_ticks` sends the
exception to those whose deadline the tick is, and `sys_alarm` returns the seconds that were left.
-/
theorem alarms_on_time (calls : List AlarmCall) :
    (trace countdown.step [] calls).2 = (trace deadlineStep (0, []) calls).2 := by
  refine (trace_simulates (R := fun tasks s => s.2 = tasks.map fun t => (t.1, t.2.deadline s.1))
    (fun tasks s c h => ?_) calls _ _ rfl).2
  obtain ⟨now, dues⟩ := s
  dsimp only at h
  subst h
  cases c with
  | init pid => simp [deadlineStep, countdown, Keeper.step, deadlines, alarmInit, Alarm.deadline]
  | fork pid child => simp [deadlineStep, Keeper.step, List.filter_map, Function.comp_def]
  | free pid => simp [deadlineStep, Keeper.step, List.filter_map, Function.comp_def]
  | alarm pid second =>
    simp [deadlineStep, countdown, Keeper.step, List.filter_map, Function.comp_def,
      sysAlarm_deadline, apply_ite (Alarm.deadline now)]
  | tick =>
    simp [deadlineStep, countdown, Keeper.step, List.filter_map, Function.comp_def,
      alarmUpdateTicks_deadline]

end Alarms
end LightOS
