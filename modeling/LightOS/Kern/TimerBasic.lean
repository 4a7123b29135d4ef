import LightOS.Lib.Run
import LightOS.Lib.SortedWalk
import LightOS.Mm.Params

/-!
# Timers: the model

`kernel/timer.c`: the list of pending timers, `timer_add`, `timer_cancel`, and the walk of
`timer_update_ticks` that runs the callbacks of the timers that are due.  `clock_t` has 32 bits,
and the idle timer takes the ticks of ten days off `timer_ticks` and off every timeout.

A callback may add and cancel timers, and so does everybody else between two updates; interrupts
are off while `timer_update_ticks` runs, and ticks come in between.  The state inside the walk
is that of a callback that runs: it holds the timer the walk has read ahead.  `none` is an
assertion that fails, or a walk that has followed a pointer of a timer that is not on the list.

The last fields are a record of what has happened; the code does not have them.  Every
`timer_add` and every new timeout of a periodic timer is an arming, with a number of its own and
the tick at which it is due, counted from the start of the system.
-/

namespace LightOS
namespace Timers

open SortedWalk

/-! ## State -/

/-- `timer_t`. -/
structure Timer where
  timeout : ℕ
  timeval : ℕ
  /-- `TIMER_PERIOD`. -/
  period : Bool
  deriving DecidableEq, Repr

structure Arming where
  number : ℕ
  due : ℕ
  /-- How many updates had been made before it. -/
  since : ℕ
  deriving DecidableEq, Repr

/-- A callback that was run. -/
structure Firing where
  arming : Arming
  tick : ℕ
  /-- The number of the update that has run it. -/
  update : ℕ
  deriving DecidableEq, Repr

inductive Pc where
  | out
  /-- In a callback of `timer_update_ticks`; `next` has been read, `none` is the list head. -/
  | callback (next : Option ℕ)
  deriving DecidableEq, Repr

structure TState where
  timer : ℕ → Timer
  /-- `timer_list_head`. -/
  list : List ℕ
  timerTicks : ℕ
  minimTimeoutVal : ℕ
  pc : Pc
  /-- The ticks there have been. -/
  now : ℕ
  /-- Those the idle timer has taken off. -/
  base : ℕ
  /-- The last arming of each timer. -/
  arming : ℕ → Arming
  nextArming : ℕ
  fired : List Firing
  /-- The armings that were cancelled. -/
  cancelled : List ℕ
  /-- The ticks of the updates that have been made. -/
  updates : List ℕ

/-- `TIMER_IDLE_TIMEOUT`, with `HZ` = 1000. -/
def timerIdleTimeout : ℕ := 864000 * 1000

/-- The address of `timer_idle`. -/
def timerIdle : ℕ := 0

/-- The system after `timers_init`.  The other timers may hold anything. -/
def timersInit (timer : ℕ → Timer) : TState where
  timer := Function.update (fun i => { timer i with timeout := (timer i).timeout % 4294967296 })
    timerIdle ⟨timerIdleTimeout, timerIdleTimeout, false⟩
  list := [timerIdle]
  timerTicks := 0
  minimTimeoutVal := timerIdleTimeout
  pc := .out
  now := 0
  base := 0
  arming := fun _ => ⟨0, timerIdleTimeout, 0⟩
  nextArming := 1
  fired := []
  cancelled := []
  updates := []

/-- The timeouts. -/
def TState.key (s : TState) (i : ℕ) : ℕ := (s.timer i).timeout

/-! ## The code -/

/-- `timer_init`. -/
def timerInit (s : TState) (i timeout : ℕ) : TState :=
  { s with timer := Function.update s.timer i ⟨add32 s.timerTicks timeout, timeout, false⟩ }

/-- `timer_modify`. -/
def timerModify (s : TState) (i timeout : ℕ) : TState :=
  { s with
    timer := Function.update s.timer i
      { s.timer i with timeout := add32 s.timerTicks timeout } }

/-- `timer_add_period` and `timer_del_period`. -/
def timerSetPeriod (s : TState) (i : ℕ) (period : Bool) : TState :=
  { s with timer := Function.update s.timer i { s.timer i with period := period } }

/-- The timer is armed with the timeout it has. -/
def TState.arm (s : TState) (i : ℕ) : TState :=
  { s with
    arming := Function.update s.arming i ⟨s.nextArming, s.base + s.key i, s.updates.length⟩
    nextArming := s.nextArming + 1 }

/-- `timer_add` of a timer that is not pending. -/
def timerInsert (s : TState) (i : ℕ) : TState :=
  { s.arm i with
    list := insertNear s.key i s.list
    minimTimeoutVal :=
      match s.list with
      | [] => s.key i
      | first :: _ => if s.key i < s.key first then s.key i else s.minimTimeoutVal }

/-- `timer_add`; it asserts that the timer is not pending. -/
def timerAdd (s : TState) (i : ℕ) : Option TState :=
  if i ∈ s.list then none else some (timerInsert s i)

/-- `timer_cancel`. -/
def timerCancel (s : TState) (i : ℕ) : TState :=
  if i ∈ s.list then
    { s with
      list := without s.list i
      cancelled := s.cancelled ++ [(s.arming i).number] }
  else s

/-- `timer_idle_handler`, before it adds the idle timer. -/
def idleRebase (s : TState) : TState :=
  let dt := s.key timerIdle
  { s with
    timerTicks := sub32 s.timerTicks dt
    timer := fun i =>
      if i ∈ s.list ∧ i ≠ timerIdle then { s.timer i with timeout := sub32 (s.key i) dt }
      else s.timer i
    base := s.base + dt }

/-- `timer_idle_handler`. -/
def timerIdleHandler (s : TState) : TState := timerInsert (idleRebase s) timerIdle

/-- `timer_do_action`, before the callback: the timer is taken off the list, or has its next
timeout. -/
def fireTimer (s : TState) (i : ℕ) : TState :=
  let t : TState :=
    { s with
      pc := .callback (after s.list i)
      fired := s.fired ++ [⟨s.arming i, s.now, s.updates.length⟩] }
  if (s.timer i).period then
    TState.arm
      { t with
        timer := Function.update s.timer i
          { s.timer i with timeout := add32 s.timerTicks (s.timer i).timeval } } i
  else
    { t with list := without s.list i }

/-- `timer_do_action`.  The callback of the idle timer is known. -/
def timerDoAction (s : TState) (i : ℕ) : TState :=
  if i = timerIdle then timerIdleHandler (fireTimer s i) else fireTimer s i

/-- The end of `timer_update_ticks`: it looks for the least timeout.  If no timer is found
`junk` is read from where the list head is. -/
def finishUpdate (s : TState) (junk : ℕ) : TState :=
  { s with
    minimTimeoutVal :=
      match s.list.find? fun i => s.timerTicks < s.key i with
      | some i => s.key i
      | none => junk
    pc := .out
    updates := s.updates ++ [s.now] }

/-- The walk comes to `next`. -/
def visit (s : TState) (junk : ℕ) : Option ℕ → Option TState
  | none => some (finishUpdate s junk)
  | some i =>
      if s.timerTicks < s.key i then some (finishUpdate s junk)
      else if i ∈ s.list then some (timerDoAction s i)
      else none

/-- `timer_update_ticks`, up to the first callback. -/
def timerUpdateTicks (s : TState) (junk : ℕ) : Option TState :=
  if s.timerTicks < s.minimTimeoutVal then
    some { s with updates := s.updates ++ [s.now] }
  else visit s junk s.list.head?

inductive Event where
  | tick
  | init (i timeout : ℕ)
  | modify (i timeout : ℕ)
  | setPeriod (i : ℕ) (period : Bool)
  | add (i : ℕ)
  | cancel (i : ℕ)
  | update (junk : ℕ)
  /-- The callback returns, and the walk goes on. -/
  | ret (junk : ℕ)
  deriving DecidableEq, Repr

/-- The idle timer is the file's own.  A pending timer is neither initialised nor modified. -/
def timerStep (s : TState) : Event → Option TState
  | .tick =>
      if s.pc = .out then some { s with timerTicks := add32 s.timerTicks 1, now := s.now + 1 }
      else none
  | .init i timeout =>
      if i ≠ timerIdle ∧ i ∉ s.list then some (timerInit s i timeout) else none
  | .modify i timeout =>
      if i ≠ timerIdle ∧ i ∉ s.list then some (timerModify s i timeout) else none
  | .setPeriod i period => if i ≠ timerIdle then some (timerSetPeriod s i period) else none
  | .add i => if i ≠ timerIdle then timerAdd s i else none
  | .cancel i => if i ≠ timerIdle then some (timerCancel s i) else none
  | .update junk => if s.pc = .out then timerUpdateTicks s junk else none
  | .ret junk =>
      match s.pc with
      | .out => none
      | .callback next => visit s junk next

/-! ## The condition -/

/-- A timer is put where it belongs, and a callback adds none that is due already. -/
def AddOk (s : TState) (i : ℕ) : Prop :=
  (s.pc ≠ .out → s.timerTicks < s.key i) ∧ InOrder s.key i s.list

/-- The idle timer is put where it belongs, with the ticks that it counts taken off all other
timeouts; less than twice that many have passed. -/
def IdleOk (s : TState) : Prop :=
  s.timerTicks < s.key timerIdle + s.key timerIdle ∧
    InOrder (fun j => if j = timerIdle then s.key j else s.key j - s.key timerIdle) timerIdle
      (without s.list timerIdle)

instance (s : TState) : Decidable (IdleOk s) := by
  unfold IdleOk
  infer_instance

/-- A periodic timer that is due stays where it is, and belongs there; so does the idle timer. -/
def VisitOk (s : TState) : Option ℕ → Prop
  | none => True
  | some i =>
      s.key i ≤ s.timerTicks →
        ((s.timer i).period = true →
          RearmOk s.key s.timerTicks s.list i (add32 s.timerTicks (s.timer i).timeval)) ∧
        (i = timerIdle → IdleOk s)

/-- The condition on a step.  Beside the places of the timers: `timer_ticks` does not run over,
and a callback does not take away the timer the walk has read ahead, unless it is not due. -/
def TimerOk (s : TState) : Event → Prop
  | .tick => s.timerTicks + 1 < 4294967296
  | .init i _ => s.pc ≠ .callback (some i)
  | .modify i _ => s.pc ≠ .callback (some i)
  | .setPeriod _ _ => True
  | .add i => AddOk s i
  | .cancel i => s.pc = .callback (some i) → s.timerTicks < s.key i
  | .update _ => s.minimTimeoutVal ≤ s.timerTicks → VisitOk s s.list.head?
  | .ret _ =>
      match s.pc with
      | .out => True
      | .callback next => VisitOk s next

instance (s : TState) (i : ℕ) : Decidable (AddOk s i) := by
  unfold AddOk
  infer_instance

instance (s : TState) (next : Option ℕ) : Decidable (VisitOk s next) := by
  cases next with
  | none => exact inferInstanceAs (Decidable True)
  | some i => unfold VisitOk; infer_instance

instance (s : TState) (e : Event) : Decidable (TimerOk s e) := by
  unfold TimerOk
  cases e with
  | ret junk => simp only; split <;> infer_instance
  | tick => infer_instance
  | init i timeout => infer_instance
  | modify i timeout => infer_instance
  | setPeriod i period => infer_instance
  | add i => infer_instance
  | cancel i => infer_instance
  | update junk => infer_instance

/-! ## What is to be shown -/

/-- The numbers of the armings: of those that are pending, were cancelled and have fired. -/
def TState.armings (s : TState) : List ℕ :=
  (s.list.map fun i => (s.arming i).number) ++ s.cancelled ++
    s.fired.map fun f => f.arming.number

/-- A callback has run in the first update at or after the tick its timer was due at. -/
structure FiringOk (s : TState) (f : Firing) : Prop where
  notEarly : f.arming.due ≤ f.tick
  first : ∀ u ∈ (s.updates.take f.update).drop f.arming.since, u < f.arming.due
  /-- The update has been made at that tick, or is being made. -/
  during : s.updates[f.update]? = some f.tick ∨
    s.pc ≠ .out ∧ f.update = s.updates.length ∧ f.tick = s.now

/-- How many timers on the list are due. -/
def TState.dueCount (s : TState) : ℕ := s.list.countP fun i => s.key i ≤ s.timerTicks

def Event.isRet : Event → Bool
  | .ret _ => true
  | _ => false

/-- An update comes to its end: the walk goes on when a callback returns, and every time one is
run there are fewer timers that are due. -/
def Ends (s : TState) : Prop :=
  s.pc ≠ .out →
    (∀ junk, ∃ s', timerStep s (.ret junk) = some s') ∧
    ∀ e s', TimerOk s e → timerStep s e = some s' →
      s'.pc = .out ∨ s'.dueCount + e.isRet.toNat ≤ s.dueCount

structure TimersOk (s : TState) : Prop where
  /-- `timer_ticks` is the tick, less what the idle timer has taken off it. -/
  clock : s.now = s.base + s.timerTicks
  /-- A pending timer is due at its timeout. -/
  due : ∀ i ∈ s.list, (s.arming i).due = s.base + s.key i
  /-- No update at or after that tick has left it pending. -/
  left : ∀ i ∈ s.list, ∀ u ∈ s.updates.drop (s.arming i).since, u < (s.arming i).due
  fired : ∀ f ∈ s.fired, FiringOk s f
  /-- Every arming is pending, was cancelled, or has fired once. -/
  once : s.armings.Perm (List.range s.nextArming)
  ends : Ends s

end Timers
end LightOS
