import LightOS.Kern.TimerBasic

/-!
# Sleeping

`task_sleep_by_ticks` of `task/sleep.c`, on the timers of `kernel/timer.c`.  Interrupts come
between its steps: ticks, updates, and whatever other code does with other timers.  The task that
is asleep is made ready by the callback of its timer or by an exception; either is lost on a task
that has not come to `task_block` yet.

When the task runs again it compares the timeout of its timer with the clock to find out whether
the timer is pending.  Both may be wrong about that: a timer that is due is pending until an update
comes to it, and the idle timer takes its ticks off the clock and the pending timeouts, so that the
clock falls behind the timeout of a timer that has fired.

* `step_kept`, `step_runs` — what a step of other code does: it runs a callback, or leaves the
  sleep timer alone.
* `SleepInv` — the invariant: while the task is in the call its timer is set to the tick it has
  asked for, and it is pending or has come due.
* `sleep_right` — in every run whose steps all meet `SleepOk`, sleeping leaves no timer behind.
* `finishOk_of_update`, `rebase_unlinked` — what the condition is about.
-/

namespace LightOS
namespace Sleep

open Timers SortedWalk

/-! ## The task -/

/-- Where the task is in `task_sleep_by_ticks`. -/
inductive Phase where
  | out
  /-- `timer_modify` has been called. -/
  | modified
  | added
  | blocked
  /-- It is to run again. -/
  | ready
  /-- An assertion of `timer_add` or `timer_del` was violated. -/
  | failed
  deriving DecidableEq, Repr

/-- A call that has returned. -/
structure Return where
  ticks : ℕ
  elapsed : ℕ
  result : ℕ
  /-- The sleep timer is on the list. -/
  linked : Bool
  deriving DecidableEq, Repr

/-- The timers, the task, the ticks it has asked for in its call and the tick of that call, and the
calls that have returned. -/
structure SleepState where
  sys : TState
  phase : Phase
  ticks : ℕ
  start : ℕ
  returns : List Return

/-- `task_wakeup`. -/
def taskWakeup : Phase → Phase
  | .blocked => .ready
  | phase => phase

/-- The timer a step of other code is about, if it does not belong to the clock. -/
def about : Timers.Event → Option ℕ
  | .init i _ => some i
  | .modify i _ => some i
  | .setPeriod i _ => some i
  | .add i => some i
  | .cancel i => some i
  | .tick => none
  | .update _ => none
  | .ret _ => none

/-- The walk has come to `next`: the timer, if it is due. -/
def dueNext (s : TState) (next : Option ℕ) : Option ℕ := next.filter fun i => s.key i ≤ s.timerTicks

/-- The timer whose callback a step runs. -/
def runs (s : TState) : Timers.Event → Option ℕ
  | .update _ => if s.timerTicks < s.minimTimeoutVal then none else dueNext s s.list.head?
  | .ret _ =>
      match s.pc with
      | .out => none
      | .callback next => dueNext s next
  | _ => none

variable (i : ℕ)

def SleepState.leave (s : SleepState) (sys : TState) (result : ℕ) : SleepState :=
  { s with
    sys := sys
    phase := .out
    returns := s.returns ++ [⟨s.ticks, s.sys.now - s.start, result, decide (i ∈ sys.list)⟩] }

/-- `task_sleep_by_ticks`, up to `timer_modify`. -/
def sleepCall (s : SleepState) (ticks : ℕ) : SleepState :=
  let s := { s with ticks := ticks, start := s.sys.now }
  if ticks = 0 then s.leave i s.sys 0
  else { s with sys := timerModify s.sys i ticks, phase := .modified }

/-- `timer_add`. -/
def sleepAdd (s : SleepState) : SleepState :=
  match timerAdd s.sys i with
  | none => { s with phase := .failed }
  | some sys => { s with sys := sys, phase := .added }

/-- The task runs again, with interrupts off. -/
def sleepFinish (s : SleepState) : SleepState :=
  if s.sys.timerTicks < s.sys.key i then
    if i ∈ s.sys.list then s.leave i (timerCancel s.sys i) (s.sys.key i - s.sys.timerTicks)
    else { s with phase := .failed }
  else s.leave i s.sys 0

inductive SleepEvent where
  /-- A step of other code. -/
  | timer (e : Timers.Event)
  | call (ticks : ℕ)
  | add
  | block
  /-- An exception wakes the task. -/
  | wake
  | finish
  deriving DecidableEq, Repr

/-- The sleep timer, `i`, is the task's own, and its callback is `task_sleep_timeout_handler`.  The
task does not run while a callback does. -/
def sleepStep (s : SleepState) : SleepEvent → Option SleepState
  | .timer e =>
      if about e = some i then none
      else
        (timerStep s.sys e).map fun sys =>
          { s with
            sys := sys
            phase := if runs s.sys e = some i then taskWakeup s.phase else s.phase }
  | .call ticks => if s.phase = .out ∧ s.sys.pc = .out then some (sleepCall i s ticks) else none
  | .add => if s.phase = .modified ∧ s.sys.pc = .out then some (sleepAdd i s) else none
  | .block => if s.phase = .added ∧ s.sys.pc = .out then some { s with phase := .blocked } else none
  | .wake => some { s with phase := taskWakeup s.phase }
  | .finish => if s.phase = .ready ∧ s.sys.pc = .out then some (sleepFinish i s) else none

/-- The task has been made: its timer was set up by `timer_init` with a timeout of 0. -/
def sleepBoot (timer : ℕ → Timer) : SleepState := ⟨timerInit (timersInit timer) i 0, .out, 0, 0, []⟩

/-! ## The condition -/

/-- The idle timer takes its ticks off the timeout of the sleep timer as well, if that is of use to
a call: it is on the list, behind the idle timer. -/
def RebaseOk (s : SleepState) : Prop :=
  s.phase = .out ∨ i ∈ s.sys.list ∧ s.sys.key timerIdle ≤ s.sys.key i

/-- The condition on a step: `timer_ticks` does not run over, nor does the timeout; the idle timer
does not come due at the wrong time; and the task does not return while its timer is due and
pending. -/
def SleepOk (s : SleepState) : SleepEvent → Prop
  | .timer e =>
      (e = .tick → s.sys.timerTicks + 1 < 4294967296) ∧
        (runs s.sys e = some timerIdle → RebaseOk i s)
  | .call ticks => s.sys.timerTicks + ticks < 4294967296
  | .finish => i ∈ s.sys.list → s.sys.timerTicks < s.sys.key i
  | .add => True
  | .block => True
  | .wake => True

instance (s : SleepState) (e : SleepEvent) : Decidable (SleepOk i s e) := by
  unfold SleepOk RebaseOk
  cases e <;> infer_instance

/-! ## What is to be shown -/

structure Return.Right (r : Return) : Prop where
  unlinked : r.linked = false
  /-- The subtraction of natural numbers stops at 0. -/
  result : r.result = r.ticks - r.elapsed

structure SleepRight (s : SleepState) : Prop where
  asserted : s.phase ≠ .failed
  returns : ∀ r ∈ s.returns, r.Right

/-! ## Steps of other code -/

/-- One timer is left alone, and no ticks are taken off. -/
structure Kept (s t : TState) : Prop where
  timer : t.timer i = s.timer i
  list : i ∈ t.list ↔ i ∈ s.list
  base : t.base = s.base
  clock : ∃ d, t.timerTicks = s.timerTicks + d ∧ t.now = s.now + d
  ticksLt : s.timerTicks < 4294967296 → t.timerTicks < 4294967296

variable {i} {s t : TState} {j : ℕ}

theorem Kept.key (h : Kept i s t) : t.key i = s.key i := congrArg Timer.timeout h.timer

/-- The clock stands still. -/
theorem Kept.still (htimer : t.timer i = s.timer i) (hlist : i ∈ t.list ↔ i ∈ s.list)
    (hbase : t.base = s.base)
    (hticks : t.timerTicks = s.timerTicks) (hnow : t.now = s.now) : Kept i s t :=
  ⟨htimer, hlist, hbase, ⟨0, hticks, hnow⟩, hticks.trans_lt⟩

theorem mem_insertNear (key : ℕ → ℕ) (hij : i ≠ j) (l : List ℕ) :
    i ∈ insertNear key j l ↔ i ∈ l := by
  rw [(insertNear_perm key j l).mem_iff, List.mem_cons, or_iff_right hij]

theorem mem_without_of_ne (hij : i ≠ j) (l : List ℕ) : i ∈ without l j ↔ i ∈ l := by
  rw [mem_without, and_iff_left hij]

theorem kept_update (hij : i ≠ j) (timer : Timer) :
    Kept i s { s with timer := Function.update s.timer j timer } :=
  Kept.still (Function.update_of_ne hij _ _) Iff.rfl rfl rfl rfl

theorem kept_insert (hij : i ≠ j) : Kept i s (timerInsert s j) :=
  Kept.still rfl (mem_insertNear s.key hij s.list) rfl rfl rfl

theorem kept_cancel (hij : i ≠ j) : Kept i s (timerCancel s j) := by
  unfold timerCancel
  split_ifs
  · exact Kept.still rfl (mem_without_of_ne hij s.list) rfl rfl rfl
  · exact Kept.still rfl Iff.rfl rfl rfl rfl

theorem kept_fire (hij : i ≠ j) : Kept i s (fireTimer s j) := by
  unfold fireTimer
  split_ifs
  · exact Kept.still (Function.update_of_ne hij _ _) Iff.rfl rfl rfl rfl
  · exact Kept.still rfl (mem_without_of_ne hij s.list) rfl rfl rfl

theorem dueNext_eq_some {next : Option ℕ} :
    dueNext s next = some j ↔ next = some j ∧ s.key j ≤ s.timerTicks := by
  simp [dueNext, Option.filter_eq_some_iff]

/-- The walk stops. -/
theorem visit_kept {next : Option ℕ} {junk : ℕ} (hnext : dueNext s next = none)
    (hstep : visit s junk next = some t) :
    Kept i s t := by
  have hfinish : Kept i s (finishUpdate s junk) := Kept.still rfl Iff.rfl rfl rfl rfl
  cases next with
  | none =>
    cases hstep
    exact hfinish
  | some k =>
    have hlate : s.timerTicks < s.key k := by
      by_contra hdue
      have hsome : dueNext s (some k) = some k := dueNext_eq_some.2 ⟨rfl, not_lt.1 hdue⟩
      rw [hnext] at hsome
      cases hsome
    rw [visit, if_pos hlate] at hstep
    cases hstep
    exact hfinish

/-- The walk runs a callback. -/
theorem visit_runs {next : Option ℕ} {junk : ℕ} (hnext : dueNext s next = some j)
    (hstep : visit s junk next = some t) :
    j ∈ s.list ∧ s.key j ≤ s.timerTicks ∧ t = timerDoAction s j := by
  obtain ⟨rfl, hdue⟩ := dueNext_eq_some.1 hnext
  rw [visit, if_neg (not_lt.2 hdue), Option.ite_none_right_eq_some] at hstep
  obtain ⟨hj, hstep⟩ := hstep
  exact ⟨hj, hdue, (Option.some.inj hstep).symm⟩

/-- A step that runs a callback does nothing else. -/
theorem step_runs {e : Timers.Event} (hruns : runs s e = some j) (hstep : timerStep s e = some t) :
    j ∈ s.list ∧ s.key j ≤ s.timerTicks ∧ t = timerDoAction s j := by
  cases e with
  | update junk =>
    simp only [timerStep, Option.ite_none_right_eq_some] at hstep
    obtain ⟨-, hstep⟩ := hstep
    simp only [runs, Option.ite_none_left_eq_some] at hruns
    rw [timerUpdateTicks, if_neg hruns.1] at hstep
    exact visit_runs hruns.2 hstep
  | ret junk =>
    cases hpc : s.pc with
    | out => simp [timerStep, hpc] at hstep
    | callback next =>
      simp only [timerStep, hpc] at hstep
      simp only [runs, hpc] at hruns
      exact visit_runs hruns hstep
  | tick => cases hruns
  | init k timeout => cases hruns
  | modify k timeout => cases hruns
  | setPeriod k period => cases hruns
  | add k => cases hruns
  | cancel k => cases hruns

/-- A step that runs none leaves a timer alone that it is not about. -/
theorem step_kept {e : Timers.Event} (hi : about e ≠ some i) (hruns : runs s e = none)
    (htick : e = .tick → s.timerTicks + 1 < 4294967296) (hstep : timerStep s e = some t) :
    Kept i s t := by
  cases e with
  | tick =>
    simp only [timerStep, Option.ite_none_right_eq_some, Option.some.injEq] at hstep
    obtain ⟨-, rfl⟩ := hstep
    exact ⟨rfl, Iff.rfl, rfl, ⟨1, add32_of_lt (htick rfl), rfl⟩, fun _ => add32_lt _ _⟩
  | init k timeout =>
    have hik : i ≠ k := fun h => hi (congrArg some h.symm)
    simp only [timerStep, Option.ite_none_right_eq_some, Option.some.injEq] at hstep
    obtain ⟨-, rfl⟩ := hstep
    exact kept_update hik _
  | modify k timeout =>
    have hik : i ≠ k := fun h => hi (congrArg some h.symm)
    simp only [timerStep, Option.ite_none_right_eq_some, Option.some.injEq] at hstep
    obtain ⟨-, rfl⟩ := hstep
    exact kept_update hik _
  | setPeriod k period =>
    have hik : i ≠ k := fun h => hi (congrArg some h.symm)
    simp only [timerStep, Option.ite_none_right_eq_some, Option.some.injEq] at hstep
    obtain ⟨-, rfl⟩ := hstep
    exact kept_update hik _
  | add k =>
    have hik : i ≠ k := fun h => hi (congrArg some h.symm)
    simp only [timerStep, timerAdd, Option.ite_none_right_eq_some, Option.ite_none_left_eq_some,
      Option.some.injEq] at hstep
    obtain ⟨-, -, rfl⟩ := hstep
    exact kept_insert hik
  | cancel k =>
    have hik : i ≠ k := fun h => hi (congrArg some h.symm)
    simp only [timerStep, Option.ite_none_right_eq_some, Option.some.injEq] at hstep
    obtain ⟨-, rfl⟩ := hstep
    exact kept_cancel hik
  | update junk =>
    simp only [timerStep, timerUpdateTicks, Option.ite_none_right_eq_some] at hstep
    obtain ⟨-, hstep⟩ := hstep
    simp only [runs] at hruns
    split_ifs at hruns hstep with hearly
    · cases hstep
      exact Kept.still rfl Iff.rfl rfl rfl rfl
    · exact visit_kept hruns hstep
  | ret junk =>
    cases hpc : s.pc with
    | out => simp [timerStep, hpc] at hstep
    | callback next =>
      simp only [timerStep, hpc] at hstep
      simp only [runs, hpc] at hruns
      exact visit_kept hruns hstep

/-- Nobody but the clock touches the idle timer. -/
theorem about_ne_idle {e : Timers.Event} (hstep : timerStep s e = some t) :
    about e ≠ some timerIdle := by
  cases e with
  | tick => simp [about]
  | update junk => simp [about]
  | ret junk => simp [about]
  | init k timeout =>
    simp only [timerStep, Option.ite_none_right_eq_some] at hstep
    simpa [about] using hstep.1.1
  | modify k timeout =>
    simp only [timerStep, Option.ite_none_right_eq_some] at hstep
    simpa [about] using hstep.1.1
  | setPeriod k period =>
    simp only [timerStep, Option.ite_none_right_eq_some] at hstep
    simpa [about] using hstep.1
  | add k =>
    simp only [timerStep, Option.ite_none_right_eq_some] at hstep
    simpa [about] using hstep.1
  | cancel k =>
    simp only [timerStep, Option.ite_none_right_eq_some] at hstep
    simpa [about] using hstep.1

/-- The idle timer comes due: what that does to another timer. -/
theorem rebase_other (hidle : (s.timer timerIdle).period = false) (hi : i ≠ timerIdle) :
    (timerIdleHandler (fireTimer s timerIdle)).timer i =
      if i ∈ s.list then { s.timer i with timeout := sub32 (s.key i) (s.key timerIdle) }
      else s.timer i := by
  simp [timerIdleHandler, timerInsert, TState.arm, idleRebase, fireTimer, hidle, TState.key,
    mem_without_of_ne hi, hi]

theorem rebase_idle (hidle : (s.timer timerIdle).period = false) :
    (timerIdleHandler (fireTimer s timerIdle)).timer timerIdle = s.timer timerIdle := by
  simp [timerIdleHandler, timerInsert, TState.arm, idleRebase, fireTimer, hidle]

theorem rebase_list (hidle : (s.timer timerIdle).period = false) (hi : i ≠ timerIdle) :
    i ∈ (timerIdleHandler (fireTimer s timerIdle)).list ↔ i ∈ s.list := by
  have hlist : (idleRebase (fireTimer s timerIdle)).list = without s.list timerIdle := by
    simp [idleRebase, fireTimer, hidle]
  show i ∈ insertNear _ timerIdle (idleRebase (fireTimer s timerIdle)).list ↔ i ∈ s.list
  rw [hlist, mem_insertNear _ hi, mem_without_of_ne hi]

theorem rebase_clock (hidle : (s.timer timerIdle).period = false)
    (hdue : s.key timerIdle ≤ s.timerTicks) (hticks : s.timerTicks < 4294967296) :
    (timerIdleHandler (fireTimer s timerIdle)).timerTicks = s.timerTicks - s.key timerIdle ∧
      (timerIdleHandler (fireTimer s timerIdle)).base = s.base + s.key timerIdle ∧
      (timerIdleHandler (fireTimer s timerIdle)).now = s.now := by
  simpa [timerIdleHandler, timerInsert, TState.arm, idleRebase, fireTimer, hidle, TState.key] using
    sub32_of_le hdue hticks

/-! ## The invariant -/

variable (i) in
structure SleepInv (s : SleepState) : Prop where
  idle : (s.sys.timer timerIdle).period = false
  once : (s.sys.timer i).period = false
  bound : s.sys.key i < 4294967296
  ticksLt : s.sys.timerTicks < 4294967296
  clock : s.sys.now = s.sys.base + s.sys.timerTicks
  since : s.start ≤ s.sys.now
  unlinked : s.phase = .out ∨ s.phase = .modified → i ∉ s.sys.list
  /-- The timer is set to the tick the task has asked for. -/
  timeout : s.phase ≠ .out → s.sys.base + s.sys.key i = s.start + s.ticks
  /-- It is not taken off before that. -/
  due : s.phase ≠ .out → s.phase ≠ .modified → i ∉ s.sys.list → s.sys.key i ≤ s.sys.timerTicks
  asserted : s.phase ≠ .failed
  returns : ∀ r ∈ s.returns, r.Right

variable {σ σ' : SleepState}

theorem sleepInv_boot (timer : ℕ → Timer) (hi : i ≠ timerIdle) :
    SleepInv i (sleepBoot i timer) where
  idle := by simp [sleepBoot, timerInit, timersInit, Function.update_of_ne hi.symm]
  once := by simp [sleepBoot, timerInit]
  bound := by simp [sleepBoot, timerInit, TState.key, add32, timersInit]
  ticksLt := by simp [sleepBoot, timerInit, timersInit]
  clock := rfl
  since := le_rfl
  unlinked := by simp [sleepBoot, timerInit, timersInit, hi]
  timeout := by simp [sleepBoot]
  due := by simp [sleepBoot]
  asserted := by simp [sleepBoot]
  returns := by simp [sleepBoot]

theorem SleepInv.kept (h : SleepInv i σ) (hkept : Kept i σ.sys t) (hidle : Kept timerIdle σ.sys t) :
    SleepInv i { σ with sys := t } := by
  obtain ⟨d, hticks, hnow⟩ := hkept.clock
  have hkey := hkept.key
  have hbase := hkept.base
  have hclock := h.clock
  have hsince := h.since
  refine ⟨?_, ?_, ?_, hkept.ticksLt h.ticksLt, ?_, ?_, ?_, ?_, ?_, h.asserted, h.returns⟩
  · rw [hidle.timer]
    exact h.idle
  · rw [hkept.timer]
    exact h.once
  · rw [hkey]
    exact h.bound
  · show t.now = t.base + t.timerTicks
    omega
  · show σ.start ≤ t.now
    omega
  · intro hphase
    rw [hkept.list]
    exact h.unlinked hphase
  · intro hphase
    rw [hkey, hbase]
    exact h.timeout hphase
  · intro hphase hmodified hout
    rw [hkept.list] at hout
    have hle := h.due hphase hmodified hout
    show t.key i ≤ t.timerTicks
    omega

theorem taskWakeup_eq (phase : Phase) {other : Phase} (hblocked : other ≠ .blocked)
    (hready : other ≠ .ready) :
    taskWakeup phase = other ↔ phase = other := by
  cases phase <;> simp [taskWakeup, hblocked.symm, hready.symm]

theorem SleepInv.wakeup (h : SleepInv i σ) : SleepInv i { σ with phase := taskWakeup σ.phase } := by
  have hout : taskWakeup σ.phase = .out ↔ σ.phase = .out :=
    taskWakeup_eq σ.phase (by decide) (by decide)
  have hmodified : taskWakeup σ.phase = .modified ↔ σ.phase = .modified :=
    taskWakeup_eq σ.phase (by decide) (by decide)
  have hfailed : taskWakeup σ.phase = .failed ↔ σ.phase = .failed :=
    taskWakeup_eq σ.phase (by decide) (by decide)
  exact ⟨h.idle, h.once, h.bound, h.ticksLt, h.clock, h.since,
    by simpa [hout, hmodified] using h.unlinked,
    by simpa [hout] using h.timeout, by simpa [hout, hmodified] using h.due,
    by simpa [hfailed] using h.asserted, h.returns⟩

/-- The sleep timer comes due. -/
theorem SleepInv.fired (h : SleepInv i σ) (hdue : σ.sys.key i ≤ σ.sys.timerTicks) :
    SleepInv i { σ with sys := fireTimer σ.sys i } := by
  have hfire : fireTimer σ.sys i =
      { σ.sys with
        pc := .callback (after σ.sys.list i)
        fired := σ.sys.fired ++ [⟨σ.sys.arming i, σ.sys.now, σ.sys.updates.length⟩]
        list := without σ.sys.list i } := by
    simp [fireTimer, h.once]
  rw [hfire]
  exact ⟨h.idle, h.once, h.bound, h.ticksLt, h.clock, h.since,
    fun _ hmem => (mem_without.1 hmem).2 rfl, h.timeout, fun _ _ _ => hdue, h.asserted, h.returns⟩

/-- The idle timer comes due. -/
theorem SleepInv.rebased (h : SleepInv i σ) (hi : i ≠ timerIdle)
    (hdue : σ.sys.key timerIdle ≤ σ.sys.timerTicks) (hcond : RebaseOk i σ) :
    SleepInv i { σ with sys := timerIdleHandler (fireTimer σ.sys timerIdle) } := by
  have hother := rebase_other h.idle hi
  have hlist := rebase_list h.idle hi
  obtain ⟨hticks, hbase, hnow⟩ := rebase_clock h.idle hdue h.ticksLt
  have hclock := h.clock
  have hticksLt := h.ticksLt
  set t := timerIdleHandler (fireTimer σ.sys timerIdle) with ht
  have hkey : i ∈ σ.sys.list → t.key i = sub32 (σ.sys.key i) (σ.sys.key timerIdle) := by
    intro hmem
    rw [TState.key, hother, if_pos hmem]
  have hsame : i ∉ σ.sys.list → t.key i = σ.sys.key i := by
    intro hmem
    rw [TState.key, hother, if_neg hmem]
    rfl
  -- in a call the timer is pending, and is shifted with the clock
  have hcall : σ.phase ≠ .out → i ∈ σ.sys.list ∧ t.key i = σ.sys.key i - σ.sys.key timerIdle ∧
      σ.sys.key timerIdle ≤ σ.sys.key i := by
    intro hphase
    obtain ⟨hmem, hle⟩ := hcond.resolve_left hphase
    exact ⟨hmem, (hkey hmem).trans (sub32_of_le hle h.bound), hle⟩
  refine ⟨?_, ?_, ?_, ?_, ?_, ?_, ?_, ?_, ?_, h.asserted, h.returns⟩
  · rw [ht, rebase_idle h.idle]
    exact h.idle
  · rw [hother]
    split_ifs
    · exact h.once
    · exact h.once
  · by_cases hmem : i ∈ σ.sys.list
    · rw [hkey hmem]
      exact sub32_lt _ _
    · rw [hsame hmem]
      exact h.bound
  · show t.timerTicks < 4294967296
    omega
  · show t.now = t.base + t.timerTicks
    omega
  · rw [hnow]
    exact h.since
  · intro hphase
    rw [hlist]
    exact h.unlinked hphase
  · intro hphase
    obtain ⟨-, hshift, hle⟩ := hcall hphase
    have htimeout := h.timeout hphase
    show t.base + t.key i = σ.start + σ.ticks
    omega
  · intro hphase _ hout
    rw [hlist] at hout
    exact absurd (hcall hphase).1 hout

/-! ## Steps -/

/-- Other code, and the callbacks of the timers that come due. -/
theorem timer_inv (h : SleepInv i σ) (hi : i ≠ timerIdle) {e : Timers.Event}
    (habout : about e ≠ some i) (htick : e = .tick → σ.sys.timerTicks + 1 < 4294967296)
    (hcond : runs σ.sys e = some timerIdle → RebaseOk i σ) (hstep : timerStep σ.sys e = some t) :
    SleepInv i { σ with
      sys := t
      phase := if runs σ.sys e = some i then taskWakeup σ.phase else σ.phase } := by
  cases hruns : runs σ.sys e with
  | none =>
    exact h.kept (step_kept habout hruns htick hstep)
      (step_kept (about_ne_idle hstep) hruns htick hstep)
  | some j =>
    obtain ⟨-, hdue, rfl⟩ := step_runs hruns hstep
    by_cases hij : j = i
    · subst hij
      rw [if_pos rfl, timerDoAction, if_neg hi]
      exact (h.fired hdue).wakeup
    · rw [if_neg fun heq => hij (Option.some.inj heq)]
      by_cases hidle : j = timerIdle
      · subst hidle
        rw [timerDoAction, if_pos rfl]
        exact h.rebased hi hdue (hcond hruns)
      · rw [timerDoAction, if_neg hidle]
        exact h.kept (kept_fire fun heq => hij heq.symm) (kept_fire fun heq => hidle heq.symm)

/-- The call returns, with its timer off the list. -/
theorem leave_inv (h : SleepInv i σ) (htimer : t.timer = σ.sys.timer) (hbase : t.base = σ.sys.base)
    (hticks : t.timerTicks = σ.sys.timerTicks) (hnow : t.now = σ.sys.now) (hlist : i ∉ t.list)
    {result : ℕ}
    (hresult : result = σ.ticks - (σ.sys.now - σ.start)) : SleepInv i (σ.leave i t result) := by
  have hclock : t.now = t.base + t.timerTicks := by rw [hnow, hbase, hticks, h.clock]
  refine ⟨?_, ?_, ?_, hticks.trans_lt h.ticksLt, hclock, ?_, fun _ => hlist,
    by simp [SleepState.leave], by simp [SleepState.leave], by simp [SleepState.leave], ?_⟩
  · show (t.timer timerIdle).period = false
    rw [htimer]
    exact h.idle
  · show (t.timer i).period = false
    rw [htimer]
    exact h.once
  · show (t.timer i).timeout < 4294967296
    rw [htimer]
    exact h.bound
  · exact h.since.trans_eq hnow.symm
  · intro r hr
    obtain hr | hr := List.mem_append.1 hr
    · exact h.returns r hr
    · obtain rfl := List.mem_singleton.1 hr
      exact ⟨decide_eq_false hlist, hresult⟩

theorem call_inv (h : SleepInv i σ) (hi : i ≠ timerIdle) (hphase : σ.phase = .out) {ticks : ℕ}
    (hcond : σ.sys.timerTicks + ticks < 4294967296) : SleepInv i (sleepCall i σ ticks) := by
  have hout := h.unlinked (Or.inl hphase)
  have hclock := h.clock
  -- only the numbers of the call are new
  have hstart : SleepInv i { σ with ticks := ticks, start := σ.sys.now } :=
    ⟨h.idle, h.once, h.bound, h.ticksLt, h.clock, le_rfl, h.unlinked,
      fun hcall => absurd hphase hcall, fun hcall => absurd hphase hcall, h.asserted, h.returns⟩
  unfold sleepCall
  simp only
  split_ifs with hzero
  · subst hzero
    exact leave_inv hstart rfl rfl rfl rfl hout (Nat.zero_sub _).symm
  · have hkey : (timerModify σ.sys i ticks).key i = add32 σ.sys.timerTicks ticks := by
      simp [timerModify, TState.key]
    refine ⟨?_, ?_, ?_, h.ticksLt, h.clock, le_rfl, fun _ => hout, fun _ => ?_,
      fun _ hmodified => absurd rfl hmodified, by simp, h.returns⟩
    · show (Function.update σ.sys.timer i _ timerIdle).period = false
      rw [Function.update_of_ne hi.symm]
      exact h.idle
    · show (Function.update σ.sys.timer i _ i).period = false
      rw [Function.update_self]
      exact h.once
    · rw [hkey]
      exact add32_lt _ _
    · have hadd := add32_of_lt hcond
      show σ.sys.base + (timerModify σ.sys i ticks).key i = σ.sys.now + ticks
      omega

/-- The timer is not on the list yet. -/
theorem add_inv (h : SleepInv i σ) (hi : i ≠ timerIdle) (hphase : σ.phase = .modified) :
    SleepInv i (sleepAdd i σ) := by
  have hout := h.unlinked (Or.inr hphase)
  have hkept : Kept timerIdle σ.sys (timerInsert σ.sys i) := kept_insert hi.symm
  have hmem : i ∈ (timerInsert σ.sys i).list := (insertNear_perm _ _ _).mem_iff.2 List.mem_cons_self
  have hcall : σ.phase ≠ .out := by simp [hphase]
  simp only [sleepAdd, timerAdd, if_neg hout]
  refine ⟨?_, h.once, h.bound, h.ticksLt, h.clock, h.since, by simp, fun _ => h.timeout hcall,
    fun _ _ hunlinked => absurd hmem hunlinked, by simp, h.returns⟩
  show ((timerInsert σ.sys i).timer timerIdle).period = false
  rw [hkept.timer]
  exact h.idle

theorem block_inv (h : SleepInv i σ) (hphase : σ.phase = .added) :
    SleepInv i { σ with phase := .blocked } :=
  ⟨h.idle, h.once, h.bound, h.ticksLt, h.clock, h.since,
    by simp, fun _ => h.timeout (by simp [hphase]),
    fun _ _ => h.due (by simp [hphase]) (by simp [hphase]), by simp, h.returns⟩

/-- A timer whose timeout has not come is pending, and no other. -/
theorem finish_inv (h : SleepInv i σ) (hphase : σ.phase = .ready)
    (hcond : i ∈ σ.sys.list → σ.sys.timerTicks < σ.sys.key i) : SleepInv i (sleepFinish i σ) := by
  have htimeout := h.timeout (by simp [hphase])
  have hdue := h.due (by simp [hphase]) (by simp [hphase])
  have hclock := h.clock
  have hsince := h.since
  unfold sleepFinish
  split_ifs with hlate hmem
  · -- it has been woken
    have hcancel : timerCancel σ.sys i =
        { σ.sys with
          list := without σ.sys.list i
          cancelled := σ.sys.cancelled ++ [(σ.sys.arming i).number] } := if_pos hmem
    have hout : i ∉ without σ.sys.list i := fun hin => (mem_without.1 hin).2 rfl
    rw [hcancel]
    refine leave_inv h ?_ ?_ ?_ ?_ hout ?_
    · rfl
    · rfl
    · rfl
    · rfl
    · omega
  · have := hdue hmem
    omega
  · exact leave_inv h rfl rfl rfl rfl (fun hmem => hlate (hcond hmem)) (by omega)

theorem sleep_step (hi : i ≠ timerIdle) (s : SleepState) (e : SleepEvent) (s' : SleepState)
    (h : SleepInv i s)
    (hcond : SleepOk i s e) (hstep : sleepStep i s e = some s') : SleepInv i s' := by
  cases e with
  | timer e =>
    simp only [sleepStep, Option.ite_none_left_eq_some, Option.map_eq_some_iff] at hstep
    obtain ⟨habout, t, hstep, rfl⟩ := hstep
    exact timer_inv h hi habout hcond.1 hcond.2 hstep
  | call ticks =>
    simp only [sleepStep, Option.ite_none_right_eq_some, Option.some.injEq] at hstep
    obtain ⟨⟨hphase, -⟩, rfl⟩ := hstep
    exact call_inv h hi hphase hcond
  | add =>
    simp only [sleepStep, Option.ite_none_right_eq_some, Option.some.injEq] at hstep
    obtain ⟨⟨hphase, -⟩, rfl⟩ := hstep
    exact add_inv h hi hphase
  | block =>
    simp only [sleepStep, Option.ite_none_right_eq_some, Option.some.injEq] at hstep
    obtain ⟨⟨hphase, -⟩, rfl⟩ := hstep
    exact block_inv h hphase
  | wake =>
    simp only [sleepStep, Option.some.injEq] at hstep
    subst hstep
    exact h.wakeup
  | finish =>
    simp only [sleepStep, Option.ite_none_right_eq_some, Option.some.injEq] at hstep
    obtain ⟨⟨hphase, -⟩, rfl⟩ := hstep
    exact finish_inv h hphase hcond

/-! ## The theorem -/

/-- **Sleeping leaves no timer behind**, in every run in which the task does not return while its
timer is due and pending, and in which the idle timer takes its ticks off while the timer is
pending or the task is not in the call. -/
theorem sleep_right (timer : ℕ → Timer) (i : ℕ) (hi : i ≠ timerIdle) (events : List SleepEvent)
    (s : SleepState) (hrun : Run.exec (sleepStep i) (sleepBoot i timer) events = some s)
    (hcond : Run.Along (sleepStep i) (SleepOk i) (sleepBoot i timer) events) : SleepRight s := by
  have hinv := Run.exec_invariant (sleep_step hi) events _ s (sleepInv_boot timer hi) hcond hrun
  exact ⟨hinv.asserted, hinv.returns⟩

/-- The task sleeps for 3 ticks; the timers 1 and 2 are due after 1 and 5.  It is woken by its
timer, sleeps again, and is woken by an exception. -/
theorem sleep_right_twice :
    ∃ s, Run.exec (sleepStep 7) (sleepBoot 7 fun _ => ⟨0, 0, false⟩)
        [.timer (.init 2 5), .timer (.add 2), .call 3, .add, .block, .timer (.init 1 1),
          .timer (.add 1), .timer .tick,
          .timer (.update 0), .timer (.ret 0), .timer .tick, .timer (.update 0), .timer .tick,
          .timer (.update 0),
          .timer (.ret 0), .finish, .call 9, .add, .block, .timer .tick, .timer (.update 0), .wake,
          .finish] = some s ∧
      s.returns = [⟨3, 3, 0, false⟩, ⟨9, 1, 8, false⟩] ∧ SleepRight s := by
  have hrun : (Run.exec (sleepStep 7) (sleepBoot 7 fun _ => ⟨0, 0, false⟩)
      [.timer (.init 2 5), .timer (.add 2), .call 3, .add, .block, .timer (.init 1 1),
        .timer (.add 1), .timer .tick,
        .timer (.update 0), .timer (.ret 0), .timer .tick, .timer (.update 0), .timer .tick,
        .timer (.update 0),
        .timer (.ret 0), .finish, .call 9, .add, .block, .timer .tick, .timer (.update 0), .wake,
        .finish]).map
      SleepState.returns = some [⟨3, 3, 0, false⟩, ⟨9, 1, 8, false⟩] := by decide +kernel
  obtain ⟨s, hs, hreturns⟩ := Option.map_eq_some_iff.1 hrun
  exact ⟨s, hs, hreturns, sleep_right _ 7 (by decide) _ s hs (by decide +kernel)⟩

/-- The timers 1 and 3 are due after 1 and 3 ticks, the task sleeps for 2.  Its timer is behind
that of 3 when the tick comes, no update is made then, and an exception wakes the task: its timer
is still pending when the call returns.  The next call sets the timer again and violates the
assertion of `timer_add`. -/
theorem sleep_leaves_timer :
    ∃ s, Run.exec (sleepStep 7) (sleepBoot 7 fun _ => ⟨0, 0, false⟩)
        [.timer (.init 1 1), .timer (.add 1), .call 2, .add, .block, .timer (.init 3 3),
          .timer (.add 3), .timer .tick,
          .timer (.update 0), .timer (.ret 0), .timer .tick, .timer (.update 0), .wake, .finish,
          .call 1, .add] = some s ∧
      s.returns = [⟨2, 2, 0, true⟩] ∧ s.phase = .failed ∧ ¬ SleepRight s := by
  have hrun : (Run.exec (sleepStep 7) (sleepBoot 7 fun _ => ⟨0, 0, false⟩)
      [.timer (.init 1 1), .timer (.add 1), .call 2, .add, .block, .timer (.init 3 3),
        .timer (.add 3), .timer .tick,
        .timer (.update 0), .timer (.ret 0), .timer .tick, .timer (.update 0), .wake, .finish,
        .call 1, .add]).map
      (fun s => (s.returns, s.phase)) = some ([⟨2, 2, 0, true⟩], .failed) := by decide +kernel
  obtain ⟨s, hs, hfacts⟩ := Option.map_eq_some_iff.1 hrun
  simp only [Prod.mk.injEq] at hfacts
  exact ⟨s, hs, hfacts.1, hfacts.2, fun h => h.asserted hfacts.2⟩

/-! ## Where the condition fails -/

/-- Where the timers are right, a timer that is pending is not due once the update of the tick has
been made. -/
theorem finishOk_of_update (h : TimersOk σ.sys)
    (hupdate : σ.sys.now ∈ σ.sys.updates.drop (σ.sys.arming i).since) :
    SleepOk i σ .finish := by
  intro hmem
  have hclock := h.clock
  have hdue := h.due i hmem
  have hleft := h.left i hmem σ.sys.now hupdate
  omega

/-- When the idle timer comes due the clock falls behind the timeout of a timer that has fired,
unless that was ten days before. -/
theorem rebase_unlinked (hidle : (s.timer timerIdle).period = false) (hi : i ≠ timerIdle)
    (hdue : s.key timerIdle ≤ s.timerTicks) (hticks : s.timerTicks < 4294967296)
    (hout : i ∉ s.list) :
    (timerIdleHandler (fireTimer s timerIdle)).timerTicks <
      (timerIdleHandler (fireTimer s timerIdle)).key i ↔
      s.timerTicks < s.key i + s.key timerIdle := by
  have hclock := (rebase_clock hidle hdue hticks).1
  have hkey : (timerIdleHandler (fireTimer s timerIdle)).key i = s.key i := by
    rw [TState.key, rebase_other hidle hi, if_neg hout]
    rfl
  omega

end Sleep
end LightOS
