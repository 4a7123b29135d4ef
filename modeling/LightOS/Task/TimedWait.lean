import LightOS.Kern.ExceptionBasic

/-!
# Waiting on a mutex queue until a deadline

`sys_mutex_queue_wait` of `task/mutexqueue.c`, with `sys_clock_gettime` and `timespec_to_systicks`
of `kernel/time.c`.  The time until the deadline is taken field by field, in an unsigned number of
seconds and a `long` of nanoseconds that is made unsigned, and the current time is fetched as if
the caller were a user.

While the task sleeps ticks pass, its timer may come due, `sys_mutex_queue_wake` may come to it,
and an exception may wake it.  What becomes of the other tasks on the list is left out, and so is
the check for a cancelled thread.

* `timespecToSysticks_iff` — when the ticks until the deadline are the right ones.
* `asleep_run` — what the events while the task sleeps leave behind.
* `timed_wait_right_iff` — when a timed wait is right.
-/

namespace LightOS
namespace TimedWait

/-! ## The time -/

/-- `struct timespec`; `time_t` is unsigned in the kernel. -/
structure Timespec where
  tvSec : ℕ
  tvNsec : ℤ
  deriving DecidableEq

/-- `HZ`. -/
def hz : ℕ := 1000

/-- `MS_PER_TICKS`. -/
def msPerTicks : ℕ := 1000 / hz

/-- `MAX_SYSTICKS_VALUE`. -/
def maxSysticksValue : ℕ := 4294967295 / 2 - 1

/-- `timespec_to_systicks`. -/
def timespecToSysticks (ts : Timespec) : ℕ :=
  let nsec := (ts.tvNsec % 4294967296).toNat
  if maxSysticksValue / hz ≤ ts.tvSec then maxSysticksValue
  else (hz * ts.tvSec + nsec / (1000000000 / hz)) % 4294967296

/-- What `sys_clock_gettime` finds for `CLOCK_REALTIME`. -/
def clockRealtime (timestamp systicks : ℕ) : Timespec :=
  ⟨timestamp, (systicks % hz * msPerTicks * 1000000 : ℕ)⟩

/-- `sys_clock_gettime` with `CLOCK_REALTIME`: what it returns and what is at `ts` then, where
`junk` has been.  `writable` is what `page_writable` says of the place. -/
def sysClockGettime (vmm writable : Bool) (ts : ℕ) (now junk : Timespec) : ℤ × Timespec :=
  if safetyCheckRange vmm ts 8 < 0 then (-1, junk) else if writable then (0, now) else (-1, junk)

/-- `newtm` -/
def untilDeadline (abstm curtm : Timespec) : Timespec :=
  ⟨sub32 abstm.tvSec curtm.tvSec, abstm.tvNsec - curtm.tvNsec⟩

/-! ## Sleeping on the queue -/

/-- What can happen while the task is not running. -/
inductive SleepEvent where
  | tick
  /-- `sys_mutex_queue_wake` comes to the task, if it is still on the list. -/
  | wake
  /-- An exception is sent to the task. -/
  | interrupt
  deriving DecidableEq

/-- The wait list, `THREAD_FLAG_WAITLIST` of the task, whether it has been made ready, and the
ticks its timer has left. -/
structure Sleeper where
  waitList : List ℕ
  marked : Bool
  ready : Bool
  timer : ℕ

variable (cur : ℕ)

/-- `task_wakeup`. -/
def taskWakeup (s : Sleeper) : Sleeper :=
  if s.ready then s
  else { s with waitList := if s.marked then s.waitList.erase cur else s.waitList, ready := true }

/-- One event; the handler of the timer is `task_wakeup`. -/
def sleepStep (s : Sleeper) : SleepEvent → Sleeper
  | .tick =>
      match s.timer with
      | 0 => s
      | 1 => taskWakeup cur { s with timer := 0 }
      | n + 2 => { s with timer := n + 1 }
  | .wake =>
      if cur ∈ s.waitList then
        taskWakeup cur { s with waitList := s.waitList.erase cur, marked := false } else s
  | .interrupt => taskWakeup cur s

/-- `task_sleep_by_ticks`: the state when the task runs again, with the ticks it returns in
`timer`. -/
def taskSleepByTicks (ticks : ℕ) (events : List SleepEvent) (waitList : List ℕ) (marked : Bool) :
    Sleeper :=
  events.foldl (sleepStep cur) ⟨waitList, marked, false, ticks⟩

/-! ## The call -/

/-- What a call is made with: whether the handle is bad and the queue in use, what
`mutex_queue_addr_calc` returns if there is an address, `MUTEX_QUEUE_TIMED`, and the deadline
behind `value`, if that is not null and can be read. -/
structure Call where
  bad : Bool
  used : Bool
  addrCalc : Option ℤ
  timed : Bool
  value : Option (Option Timespec)

/-- What a call has done: what it returns, unless it is still asleep, and the ticks it has slept
for, if any. -/
structure Waited where
  ret : Option ℤ
  slept : Option ℕ
  waitList : List ℕ
  marked : Bool

/-- `ETIMEDOUT` -/
def etimedout : ℤ := 138

/-- `EFAULT` -/
def efault : ℤ := 14

/-- The end of the timed wait, from the return of `task_sleep_by_ticks` on; a task that is not
ready has not come to it. -/
def afterSleep (ticks : ℕ) (s : Sleeper) : Waited :=
  if s.ready then
    if 0 < s.timer then ⟨some 0, some ticks, s.waitList, s.marked⟩
    else ⟨some (-etimedout), some ticks, s.waitList.erase cur, s.marked⟩
  else ⟨none, some ticks, s.waitList, s.marked⟩

/-- The timed wait, from the comparison of `ticks` on. -/
def waitTicks (events : List SleepEvent) (waitList : List ℕ) (marked : Bool) (ticks : ℕ) :
    Option Waited :=
  if ticks = 0 then some ⟨some (-etimedout), none, waitList, marked⟩
  else if cur ∈ waitList then none
  else
    let ticks := if ticks < 2 * msPerTicks then 2 * msPerTicks else ticks
    some (afterSleep cur ticks (taskSleepByTicks cur ticks events (waitList ++ [cur]) true))

/-- `sys_mutex_queue_wait`; `none` is the assertion of `wait_queue_add`.  `curtm` is the address of
the variable for the current time, and `junk` what is there before. -/
def sysMutexQueueWait (call : Call) (vmm writable : Bool) (curtm : ℕ) (now junk : Timespec)
    (events : List SleepEvent) (waitList : List ℕ) (marked : Bool) : Option Waited :=
  if call.bad then some ⟨some (-Exceptions.einval), none, waitList, marked⟩
  else if !call.used then some ⟨some 0, none, waitList, marked⟩
  else if call.addrCalc.any (fun r => decide (r < 0)) then
    some ⟨some (-efault), none, waitList, marked⟩
  else if call.timed then
    match call.value with
    | none => waitTicks cur events waitList marked 0
    | some none => some ⟨some (-efault), none, waitList, marked⟩
    | some (some abstm) =>
        waitTicks cur events waitList marked
          (timespecToSysticks (untilDeadline abstm (sysClockGettime vmm writable curtm now junk).2))
  else if cur ∈ waitList then none
  else
    let s := taskSleepByTicks cur 0 events (waitList ++ [cur]) true
    some ⟨if s.ready then some 0 else none, none, s.waitList, s.marked⟩

/-! ## What a timed wait should do -/

/-- The whole ticks from a time until a deadline. -/
def dueTicks (abstm now : Timespec) : ℤ :=
  (((abstm.tvSec : ℤ) - now.tvSec) * 1000000000 + (abstm.tvNsec - now.tvNsec)) / 1000000

/-- A timed wait with `due` ticks until the deadline is right: it gives up at once if less than a
tick is left, and sleeps for these ticks otherwise, two at least; and where it gives up after that,
the task is off the list and not marked any more. -/
structure WaitRight (due : ℤ) (w : Waited) : Prop where
  late : due ≤ 0 → w.ret = some (-etimedout) ∧ w.slept = none
  sleeps : 0 < due → w.slept = some (max due.toNat 2)
  left : w.ret = some (-etimedout) → w.slept ≠ none → cur ∉ w.waitList ∧ w.marked = false

/-- The call is right, whatever has been on the stack. -/
def TimedWaitRight (abstm : Timespec) (vmm writable : Bool) (curtm : ℕ) (now : Timespec)
    (events : List SleepEvent) (waitList : List ℕ) (marked : Bool) (call : Call) : Prop :=
  ∀ junk, ∃ w, sysMutexQueueWait cur call vmm writable curtm now junk events waitList marked =
    some w ∧
    WaitRight cur (dueTicks abstm now) w

/-- The deadline is not in an earlier second, its nanoseconds are not less than those of the time,
and it is less than 2147483 seconds ahead; or it is ahead by the greatest number of ticks. -/
def DeadlineOk (abstm now : Timespec) : Prop :=
  now.tvSec ≤ abstm.tvSec ∧
    (abstm.tvSec < now.tvSec + 2147483 ∧ now.tvNsec ≤ abstm.tvNsec ∨
      dueTicks abstm now = 2147483646)

/-- Of all that makes the task ready, a wake of the queue is the first; the timer has `n` ticks
left. -/
def wokenFirst : ℕ → List SleepEvent → Bool
  | _, [] => false
  | _, .wake :: _ => true
  | _, .interrupt :: _ => false
  | n, .tick :: events => decide (1 < n) && wokenFirst (n - 1) events

/-! ## The ticks -/

/-- A deadline as it is given. -/
structure Timespec.Ok (ts : Timespec) : Prop where
  sec : ts.tvSec < 4294967296
  nsec : 0 ≤ ts.tvNsec ∧ ts.tvNsec < 1000000000

theorem clockRealtime_ok {timestamp : ℕ} (systicks : ℕ) (h : timestamp < 4294967296) :
    (clockRealtime timestamp systicks).Ok := by
  refine ⟨h, ?_, ?_⟩
  · exact Int.natCast_nonneg _
  · unfold clockRealtime hz msPerTicks hz
    push_cast
    omega

/-- The ticks until a deadline that is not in an earlier second. -/
theorem timespecToSysticks_forward {abstm now : Timespec} (ha : abstm.Ok) (hn : now.Ok)
    (hsec : now.tvSec ≤ abstm.tvSec) : timespecToSysticks (untilDeadline abstm now) =
      if abstm.tvSec < now.tvSec + 2147483 then
        1000 * (abstm.tvSec - now.tvSec) +
          ((abstm.tvNsec - now.tvNsec) % 4294967296).toNat / 1000000
      else 2147483646 := by
  have hsub : sub32 abstm.tvSec now.tvSec = abstm.tvSec - now.tvSec := by
    have h1 := ha.sec
    have h2 := hn.sec
    unfold sub32
    omega
  obtain ⟨hn0, hn1⟩ := hn.nsec
  obtain ⟨ha0, ha1⟩ := ha.nsec
  unfold timespecToSysticks untilDeadline
  simp only [hsub, maxSysticksValue, hz]
  split_ifs <;> omega

theorem timespecToSysticks_backward {abstm now : Timespec} (ha : abstm.Ok) (hn : now.Ok)
    (hsec : abstm.tvSec < now.tvSec) : 1000 ≤ timespecToSysticks (untilDeadline abstm now) := by
  have hsub : sub32 abstm.tvSec now.tvSec = abstm.tvSec + 4294967296 - now.tvSec := by
    have h1 := ha.sec
    have h2 := hn.sec
    unfold sub32
    omega
  have h2 := hn.sec
  have hnsec : ((abstm.tvNsec - now.tvNsec) % 4294967296).toNat / (1000000000 / 1000) ≤ 4294 := by
    omega
  unfold timespecToSysticks untilDeadline
  simp only [hsub, maxSysticksValue, hz]
  split_ifs
  · omega
  · rw [Nat.mod_eq_of_lt (by omega)]
    omega

/-- The ticks are right, as far as it matters. -/
def TicksRight (due : ℤ) (ticks : ℕ) : Prop :=
  if due ≤ 0 then ticks = 0 else ticks ≠ 0 ∧ max ticks 2 = max due.toNat 2

/-- **When the ticks until the deadline are the right ones.** -/
theorem timespecToSysticks_iff {abstm now : Timespec} (ha : abstm.Ok) (hn : now.Ok) :
    TicksRight (dueTicks abstm now) (timespecToSysticks (untilDeadline abstm now)) ↔
      DeadlineOk abstm now := by
  obtain ⟨hn0, hn1⟩ := hn.nsec
  obtain ⟨ha0, ha1⟩ := ha.nsec
  unfold TicksRight DeadlineOk
  by_cases hsec : now.tvSec ≤ abstm.tvSec
  · rw [timespecToSysticks_forward ha hn hsec]
    unfold dueTicks
    split_ifs <;> omega
  · have hmany := timespecToSysticks_backward ha hn (by omega)
    have hlate : dueTicks abstm now ≤ 0 := by
      unfold dueTicks
      omega
    rw [if_pos hlate]
    omega

/-! ## The sleep -/

variable {cur}

/-- Nothing that happens later makes a difference to a task that is ready. -/
theorem ready_run (events : List SleepEvent) (s : Sleeper) (hready : s.ready = true)
    (hout : cur ∉ s.waitList) :
    events.foldl (sleepStep cur) s = { s with timer := s.timer - events.count .tick } := by
  induction events generalizing s with
  | nil => rfl
  | cons e events ih =>
    have hstay : ∀ t : ℕ, taskWakeup cur { s with timer := t } = { s with timer := t } :=
      fun t => if_pos hready
    rw [List.foldl_cons]
    cases e with
    | tick =>
      have hstep : sleepStep cur s .tick = { s with timer := s.timer - 1 } := by
        obtain ⟨waitList, marked, ready, timer⟩ := s
        rcases timer with _ | _ | n
        · rfl
        · exact hstay 0
        · rfl
      rw [hstep, ih { s with timer := s.timer - 1 } hready hout, List.count_cons_self]
      simp only [Nat.sub_sub, Nat.add_comm 1]
    | wake =>
      have hstep : sleepStep cur s .wake = s := if_neg hout
      rw [hstep, ih s hready hout, List.count_cons_of_ne (by decide)]
    | interrupt =>
      have hstep : sleepStep cur s .interrupt = s := if_pos hready
      rw [hstep, ih s hready hout, List.count_cons_of_ne (by decide)]

theorem erase_concat {l : List ℕ} (h : cur ∉ l) : (l ++ [cur]).erase cur = l := by
  rw [List.erase_append_right _ h, List.erase_cons_head, List.append_nil]

/-- **What the events leave behind**, from the time the task goes to sleep with `n` ticks: the
ticks that are left, and, once it is ready, a list without it and the mark, unless a wake of the
queue has come first. -/
theorem asleep_run {l : List ℕ} (hcur : cur ∉ l) (events : List SleepEvent) {n : ℕ} (hn : 0 < n) :
    (events.foldl (sleepStep cur) ⟨l ++ [cur], true, false, n⟩).timer = n - events.count .tick ∧
      ((events.foldl (sleepStep cur) ⟨l ++ [cur], true, false, n⟩).marked = !wokenFirst n events) ∧
        (n ≤ events.count .tick → (events.foldl (sleepStep cur)
          ⟨l ++ [cur], true, false, n⟩).ready = true) ∧
          ((events.foldl (sleepStep cur) ⟨l ++ [cur], true, false, n⟩).ready = true →
            cur ∉ (events.foldl (sleepStep cur) ⟨l ++ [cur], true, false, n⟩).waitList) := by
  induction events generalizing n with
  | nil =>
    refine ⟨rfl, rfl, fun hle => ?_, nofun⟩
    rw [List.count_nil] at hle
    omega
  | cons e events ih =>
    rw [List.foldl_cons]
    cases e with
    | tick =>
      rw [List.count_cons_self]
      obtain ⟨n, rfl⟩ : ∃ m, n = m + 1 := ⟨n - 1, by omega⟩
      rcases n with _ | n
      · -- the timer comes due
        have hstep : sleepStep cur ⟨l ++ [cur], true, false, 0 + 1⟩ .tick = ⟨l, true, true, 0⟩ := by
          change (⟨(l ++ [cur]).erase cur, true, true, 0⟩ : Sleeper) = _
          rw [erase_concat hcur]
        rw [hstep, ready_run events _ rfl hcur]
        exact ⟨by simp only; omega, rfl, fun _ => rfl, fun _ => hcur⟩
      · have hstep : sleepStep cur ⟨l ++ [cur], true, false, n + 1 + 1⟩ .tick =
          ⟨l ++ [cur], true, false, n + 1⟩ := rfl
        have hwoken : wokenFirst (n + 1 + 1) (.tick :: events) = wokenFirst (n + 1) events := by
          change (decide (1 < n + 1 + 1) && wokenFirst (n + 1) events) = _
          rw [decide_eq_true (by omega), Bool.true_and]
        obtain ⟨htimer, hmarked, hready, hout⟩ := ih (n := n + 1) (Nat.succ_pos n)
        rw [hstep, hwoken]
        exact ⟨by omega, hmarked, fun hle => hready (by omega), hout⟩
    | wake =>
      have hstep : sleepStep cur ⟨l ++ [cur], true, false, n⟩ .wake = ⟨l, false, true, n⟩ := by
        unfold sleepStep taskWakeup
        rw [if_pos (List.mem_append_right l (List.mem_singleton_self cur)), erase_concat hcur]
        rfl
      rw [hstep, ready_run events _ rfl hcur, List.count_cons_of_ne (by decide)]
      exact ⟨rfl, rfl, fun _ => rfl, fun _ => hcur⟩
    | interrupt =>
      have hstep : sleepStep cur ⟨l ++ [cur], true, false, n⟩ .interrupt = ⟨l, true, true, n⟩ := by
        change (⟨(l ++ [cur]).erase cur, true, true, n⟩ : Sleeper) = _
        rw [erase_concat hcur]
      rw [hstep, ready_run events _ rfl hcur, List.count_cons_of_ne (by decide)]
      exact ⟨rfl, rfl, fun _ => rfl, fun _ => hcur⟩

/-! ## The call -/

/-- A task that has slept gives up exactly if its timer has come due. -/
theorem afterSleep_spec {l : List ℕ} (hcur : cur ∉ l) (events : List SleepEvent) {n : ℕ}
    (hn : 0 < n) :
    (afterSleep cur n (taskSleepByTicks cur n events (l ++ [cur]) true)).slept = some n ∧
      (afterSleep cur n (taskSleepByTicks cur n events (l ++ [cur]) true)).marked =
        !wokenFirst n events ∧
      ((afterSleep cur n (taskSleepByTicks cur n events (l ++ [cur]) true)).ret =
        some (-etimedout) ↔
        n ≤ events.count .tick) ∧
      ((afterSleep cur n (taskSleepByTicks cur n events (l ++ [cur]) true)).ret =
        some (-etimedout) →
        cur ∉ (afterSleep cur n (taskSleepByTicks cur n events (l ++ [cur]) true)).waitList) := by
  obtain ⟨htimer, hmarked, hready, hout⟩ := asleep_run hcur events hn
  unfold afterSleep taskSleepByTicks
  split_ifs with hr ht
  · refine ⟨rfl, hmarked, iff_of_false (by simp [etimedout]) ?_, by simp [etimedout]⟩
    omega
  · refine ⟨rfl, hmarked, iff_of_true rfl (by omega), fun _ hmem => ?_⟩
    exact hout hr (List.mem_of_mem_erase hmem)
  · exact ⟨rfl, hmarked, iff_of_false (by simp) fun hle => hr (hready hle), by simp⟩

/-- What is left to be right once the ticks are computed. -/
theorem waitTicks_right_iff {due : ℤ} {l : List ℕ} (hcur : cur ∉ l) (events : List SleepEvent)
    (marked : Bool)
    (ticks : ℕ) : (∃ w, waitTicks cur events l marked ticks = some w ∧ WaitRight cur due w) ↔
      TicksRight due ticks ∧ (due ≤ 0 ∨ events.count .tick < max due.toNat 2 ∨
        wokenFirst (max due.toNat 2) events = true) := by
  unfold waitTicks TicksRight
  by_cases hticks : ticks = 0
  · rw [if_pos hticks]
    simp only [Option.some.injEq, exists_eq_left']
    constructor
    · intro hright
      have hlate : due ≤ 0 := by
        by_contra hpos
        exact absurd (hright.sleeps (not_le.1 hpos)) (by simp)
      rw [if_pos hlate]
      exact ⟨hticks, Or.inl hlate⟩
    · rintro ⟨hright, -⟩
      split_ifs at hright with hlate
      · exact ⟨fun _ => ⟨rfl, rfl⟩, fun hpos => absurd hlate (not_le.2 hpos),
          fun _ hslept => absurd rfl hslept⟩
      · exact absurd hticks hright.1
  · have hn : (if ticks < 2 * msPerTicks then 2 * msPerTicks else ticks) = max ticks 2 := by
      unfold msPerTicks hz
      split_ifs <;> omega
    rw [if_neg hticks, if_neg hcur, hn]
    obtain ⟨hslept, hmark, hret, hgone⟩ := afterSleep_spec hcur events (n := max ticks 2) (by omega)
    simp only [Option.some.injEq, exists_eq_left']
    generalize afterSleep cur (max ticks 2)
      (taskSleepByTicks cur (max ticks 2) events (l ++ [cur]) true) = w at *
    constructor
    · intro hright
      have hpos : ¬due ≤ 0 := fun hlate => by
        have hnone := (hright.late hlate).2
        rw [hslept] at hnone
        cases hnone
      have hsame := hright.sleeps (not_le.1 hpos)
      rw [hslept, Option.some.injEq] at hsame
      rw [if_neg hpos, ← hsame]
      refine ⟨⟨hticks, rfl⟩, Or.inr ?_⟩
      by_cases hle : max ticks 2 ≤ events.count .tick
      · have hunmarked := (hright.left (hret.2 hle) (by rw [hslept]; simp)).2
        rw [hmark, Bool.not_eq_false'] at hunmarked
        exact Or.inr hunmarked
      · exact Or.inl (not_le.1 hle)
    · rintro ⟨hright, hleft⟩
      split_ifs at hright with hlate
      · exact absurd hright hticks
      · refine ⟨fun hle => absurd hle hlate, fun _ =>
          by rw [hslept, hright.2], fun hrets _ => ⟨hgone hrets, ?_⟩⟩
        have hle := hret.1 hrets
        rw [hright.2] at hle hmark
        rcases hleft with hneg | hlt | hwoken
        · exact absurd hneg hlate
        · exact absurd hle (not_le.2 hlt)
        · rw [hmark, hwoken]
          rfl

/-- A call that comes to the timed wait with a deadline. -/
structure Call.Timed (call : Call) (abstm : Timespec) : Prop where
  good : call.bad = false
  used : call.used = true
  addrCalc : call.addrCalc.any (fun r => decide (r < 0)) = false
  timed : call.timed = true
  value : call.value = some (some abstm)

theorem sysMutexQueueWait_timed {call : Call} {abstm : Timespec} (h : call.Timed abstm)
    (vmm writable : Bool)
    (curtm : ℕ) (now junk : Timespec) (events : List SleepEvent) (l : List ℕ) (marked : Bool) :
    sysMutexQueueWait cur call vmm writable curtm now junk events l marked =
      waitTicks cur events l marked
      (timespecToSysticks (untilDeadline abstm
        (sysClockGettime vmm writable curtm now junk).2)) := by
  unfold sysMutexQueueWait
  simp [h.good, h.used, h.addrCalc, h.timed, h.value]

/-- The time gets to the variable only for a task without an address space of its own. -/
theorem sysClockGettime_eq {vmm writable : Bool} {curtm : ℕ}
    (hstack : userVmmTopAddr ≤ curtm ∧ curtm + 8 < 4294967296)
    (now junk : Timespec) : (sysClockGettime vmm writable curtm now junk).2 =
      if vmm = false ∧ writable = true then now else junk := by
  obtain ⟨htop, hend⟩ := hstack
  unfold sysClockGettime safetyCheckRange add32
  cases vmm
  · cases writable <;> simp
  · have hout : ¬(userVmmBaseAddr ≤ curtm ∧ (curtm + 8) % 4294967296 < userVmmTopAddr) := by
      rw [Nat.mod_eq_of_lt hend]
      omega
    rw [if_pos (by rw [if_pos ⟨rfl, hout⟩]; decide), if_neg (by simp)]

/-- **When a timed wait is right**: for every time, every deadline and all that happens while the
task sleeps. -/
theorem timed_wait_right_iff {call : Call} {abstm : Timespec} (hcall : call.Timed abstm)
    (ha : abstm.Ok)
    {timestamp systicks : ℕ} (hstamp : timestamp < 4294967296) (vmm writable : Bool) {curtm : ℕ}
    (hstack : userVmmTopAddr ≤ curtm ∧ curtm + 8 < 4294967296) (events : List SleepEvent)
    {l : List ℕ} (hcur : cur ∉ l) (marked : Bool) :
    TimedWaitRight cur abstm vmm writable curtm (clockRealtime timestamp systicks) events l marked
    call ↔
      (vmm = false ∧ writable = true) ∧ DeadlineOk abstm (clockRealtime timestamp systicks) ∧
        (dueTicks abstm (clockRealtime timestamp systicks) ≤ 0 ∨
          events.count .tick < max (dueTicks abstm (clockRealtime timestamp systicks)).toNat 2 ∨
          wokenFirst (max (dueTicks abstm (clockRealtime timestamp systicks)).toNat 2) events =
            true) := by
  have hnow := clockRealtime_ok systicks hstamp
  unfold TimedWaitRight
  simp only [sysMutexQueueWait_timed hcall, sysClockGettime_eq hstack, waitTicks_right_iff hcur]
  by_cases hfetch : vmm = false ∧ writable = true
  · simp only [if_pos hfetch, timespecToSysticks_iff ha hnow, and_iff_right hfetch]
    exact ⟨fun hall => hall abstm, fun h _ => h⟩
  · simp only [if_neg hfetch]
    refine iff_of_false (fun hall => ?_) fun h => hfetch h.1
    -- the deadline itself on the stack makes no ticks, and the second after it makes many
    have hzero := (hall abstm).1
    have hmany := (hall ⟨(abstm.tvSec + 1) % 4294967296, abstm.tvNsec⟩).1
    have hsec := ha.sec
    have hnone : timespecToSysticks (untilDeadline abstm abstm) = 0 := by
      have hsub : sub32 abstm.tvSec abstm.tvSec = 0 := by
        unfold sub32
        omega
      unfold timespecToSysticks untilDeadline
      simp [hsub, maxSysticksValue, hz]
    have hmax : timespecToSysticks (untilDeadline abstm
      ⟨(abstm.tvSec + 1) % 4294967296, abstm.tvNsec⟩) =
        2147483646 := by
      have hsub : sub32 abstm.tvSec ((abstm.tvSec + 1) % 4294967296) = 4294967295 := by
        unfold sub32
        omega
      unfold timespecToSysticks untilDeadline
      simp [hsub, maxSysticksValue, hz]
    rw [hnone] at hzero
    rw [hmax] at hmany
    unfold TicksRight at hzero hmany
    split_ifs at hzero hmany
    omega

/-- A call of a task of the kernel, with a deadline. -/
def timedCall (abstm : Timespec) : Call := ⟨false, true, none, true, some (some abstm)⟩

/-- Half a second is left, and the queue is woken after three ticks. -/
theorem timed_wait_right_half :
    TimedWaitRight 7 ⟨100, 500000000⟩ false true 3221225472 (clockRealtime 100 0)
    [.tick, .tick, .tick, .wake] [3] false
      (timedCall ⟨100, 500000000⟩) :=
  (timed_wait_right_iff (⟨rfl, rfl, rfl, rfl, rfl⟩ : (timedCall ⟨100, 500000000⟩).Timed
    ⟨100, 500000000⟩)
    ⟨by decide, by decide⟩ (by decide) false true (by decide) _ (by decide) false).2
    ⟨⟨rfl, rfl⟩, ⟨by decide, Or.inl ⟨by decide, by decide⟩⟩, Or.inr (Or.inl (by decide))⟩

/-- **A deadline in an earlier second** makes a sleep of 24 days, half a second over a change of
the second becomes more than four seconds, and where the timer comes due, the task stays marked. -/
theorem timed_wait_wrong :
    ((sysMutexQueueWait 7 (timedCall ⟨99, 0⟩) false true 3221225472 (clockRealtime 100 0) ⟨0, 0⟩ []
      [3] false).map
        Waited.slept = some (some 2147483646) ∧
      ¬TimedWaitRight 7 ⟨99, 0⟩ false true 3221225472 (clockRealtime 100 0) []
      [3] false (timedCall ⟨99, 0⟩)) ∧
    ((sysMutexQueueWait 7 (timedCall ⟨101, 0⟩) false true 3221225472 (clockRealtime 100 500) ⟨0, 0⟩
      [] [3] false).map
        Waited.slept = some (some 4794) ∧
      ¬TimedWaitRight 7 ⟨101, 0⟩ false true 3221225472 (clockRealtime 100 500) []
      [3] false (timedCall ⟨101, 0⟩)) ∧
    ((sysMutexQueueWait 7 (timedCall ⟨100, 2000000⟩) false true 3221225472 (clockRealtime 100 0)
      ⟨0, 0⟩ [.tick, .tick]
        [3] false).map (fun w => (w.ret, w.marked)) = some (some (-etimedout), true) ∧
      ¬TimedWaitRight 7 ⟨100, 2000000⟩ false true 3221225472 (clockRealtime 100 0) [.tick, .tick]
      [3] false
        (timedCall ⟨100, 2000000⟩)) := by
  refine ⟨⟨by decide, fun hright => ?_⟩, ⟨by decide, fun hright => ?_⟩, by decide, fun hright => ?_⟩
  · obtain ⟨w, hw, hwait⟩ := hright ⟨0, 0⟩
    cases hw
    exact absurd (hwait.late (by decide)).2 (by decide)
  · obtain ⟨w, hw, hwait⟩ := hright ⟨0, 0⟩
    cases hw
    exact absurd (hwait.sleeps (by decide)) (by decide)
  · obtain ⟨w, hw, hwait⟩ := hright ⟨0, 0⟩
    cases hw
    exact absurd (hwait.left rfl (by decide)).2 (by decide)

end TimedWait
end LightOS
