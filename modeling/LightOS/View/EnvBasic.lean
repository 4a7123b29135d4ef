import LightOS.View.PointerBasic

/-!
# What the view driver remembers: the model

The variables of `core/env.c` that the model of the driver leaves out, `monitor_view` and the
timers of `view_env_add_timer`, and the calls of `__view_ioctl` that set them.

The timers are on the list of `kernel/timer.c` with those of the rest of the kernel.  When they run
out comes with the calls: whether a new timer is the earliest, and which timer is due.
-/

namespace LightOS
namespace View

/-- A timer on the list.  Timers of other parts of the kernel have no view. -/
structure PendingTimer (V : Type) where
  id : ℕ
  view : Option V

/-- The driver, `monitor_view`, `timer_list_head` and `timer_id_next`. -/
structure Env (V : Type) where
  driver : Driver V
  monitor : Option V
  timers : List (PendingTimer V)
  timerIdNext : ℕ

/-- A call. -/
inductive EnvCall (V : Type) where
  | view (call : ViewCall V)
  /-- `memory` is whether `timer_alloc` succeeds, `earliest` whether the timer is due before all
  others -/
  | addTimer (d : Fin viewMaxNr) (memory earliest : Bool)
  | delTimer (d : Fin viewMaxNr) (id : ℕ)
  | restartTimer (d : Fin viewMaxNr) (id : ℕ) (memory earliest : Bool)
  | setMonitor (d : Fin viewMaxNr) (isMonitor : Bool)
  /-- a timer is due -/
  | expire (i : ℕ)
  /-- a timer of another part of the kernel is added -/
  | kernelTimer (earliest : Bool)
  | key

section Timers

variable {V : Type} (s : Env V)

/-- `timer_add`. -/
def timerAdd (timer : PendingTimer V) (earliest : Bool) : Env V :=
  let timer' := if timer.id = 0 then { timer with id := s.timerIdNext } else timer
  { s with
    timers :=
      match s.timers with
      | [] => [timer']
      | first :: rest => if earliest then timer' :: first :: rest else first :: timer' :: rest
    timerIdNext := if timer.id = 0 then s.timerIdNext + 1 else s.timerIdNext }

/-- `timer_find`. -/
def timerFind (id : ℕ) : Option (PendingTimer V) := s.timers.find? fun timer => timer.id = id

/-- `view_env_add_timer`. -/
def viewEnvAddTimer (view : Option V) (memory earliest : Bool) : Env V :=
  if memory then
    timerAdd { s with timerIdNext := s.timerIdNext + 1 } ⟨s.timerIdNext, view⟩ earliest
  else s

/-- `view_env_restart_timer`. -/
def viewEnvRestartTimer (view : V) (id : ℕ) (memory earliest : Bool) : Env V :=
  match timerFind s id with
  | some _ => s
  | none =>
      if memory then timerAdd { s with timerIdNext := s.timerIdNext + 1 } ⟨id, some view⟩ earliest
      else s

/-- `view_env_del_timer`. -/
def viewEnvDelTimer (id : ℕ) : Env V :=
  { s with timers := s.timers.eraseP fun timer => timer.id = id }

variable [DecidableEq V]

/-- `view_env_set_monitor`. -/
def viewEnvSetMonitor (view : V) (isMonitor : Bool) : Env V :=
  if isMonitor then { s with monitor := some view }
  else if s.monitor = some view then { s with monitor := none }
  else s

/-- `view_env_check_monitor_exit`. -/
def viewEnvCheckMonitorExit (view : V) : Env V :=
  if s.monitor = some view then { s with monitor := none } else s

end Timers

section Calls

variable {V : Type} [DecidableEq V]

/-- The view that a call destroys. -/
def destroyedView (s : Driver V) : ViewCall V → Option V
  | .close d true _ => if s.reference d = 1 ∧ s.core.isSome then s.view d else none
  | _ => none

/-- One call. -/
def envStep (s : Env V) : EnvCall V → Option (Env V)
  | .view call =>
      (viewStep s.driver call).map fun driver =>
        match destroyedView s.driver call with
        | none => { s with driver }
        | some v => viewEnvCheckMonitorExit { s with driver } v
  | .addTimer d memory earliest =>
      match s.driver.view d with
      | none => some s
      | some v => some (viewEnvAddTimer s (some v) memory earliest)
  | .delTimer d id =>
      match s.driver.view d with
      | none => some s
      | some _ => some (viewEnvDelTimer s id)
  | .restartTimer d id memory earliest =>
      match s.driver.view d with
      | none => some s
      | some v => some (viewEnvRestartTimer s v id memory earliest)
  | .setMonitor d isMonitor =>
      match s.driver.view d with
      | none => some s
      | some v => some (viewEnvSetMonitor s v isMonitor)
  | .expire i => some { s with timers := s.timers.eraseIdx i }
  | .kernelTimer earliest => some (viewEnvAddTimer s none true earliest)
  -- a key is sent to the active view
  | .key => some s

/-- `view_driver_enter`; the kernel has timers already. -/
def envStart (timers : List (PendingTimer V)) (timerIdNext : ℕ) : Env V :=
  ⟨viewDriverEnter, none, timers, timerIdNext⟩

/-! ## What is referred to -/

/-- A pointer is null, or to a view that exists and is shown. -/
def RefersShown (c : Core V) (view : Option V) : Prop :=
  ∀ v, view = some v → v ∈ c.views ∧ v ∈ c.stack.list

/-- A pointer is null, or to a view that exists. -/
def RefersExisting (s : Driver V) (view : Option V) : Prop :=
  ∀ v, view = some v → ∃ c, s.core = some c ∧ v ∈ c.views

/-- **Nothing refers to a view that is gone or hidden.** -/
structure RefersOk (s : Env V) : Prop where
  activity : ∀ c, s.driver.core = some c → RefersShown c c.activity
  hover : ∀ c, s.driver.core = some c → RefersShown c c.hover
  drag : ∀ c, s.driver.core = some c → RefersShown c c.drag
  resize : ∀ c, s.driver.core = some c → RefersShown c c.resize
  monitor : RefersExisting s.driver s.monitor
  timers : ∀ timer ∈ s.timers, RefersExisting s.driver timer.view

/-- Another view than the pointer and the one that is hidden comes to be active, and if the shade
is hidden with it, this is neither the one that becomes active nor the one under the pointer. -/
structure ResetClear (c : Core V) (v : V) (under : V → Bool) : Prop where
  drag : c.drag ≠ some v
  resize : c.resize ≠ some v
  other : ∃ a, viewEnvFindHoverView c (fun w => decide (w ≠ v)) = some a ∧
    ∀ w, viewEnvFindHoverView c (fun w => decide (w ≠ v) && under w) = some w →
      c.mouseState ≠ .normal →
      c.shade ∈ c.stack.list → (c.stack.list.erase v).head? ≠ some c.shade →
        a ≠ c.shade ∧ w ≠ c.shade

/-- The end of a resize hides the shade. -/
def MouseMsg.endsResize (c : Core V) (msg : MouseMsg V) : Prop :=
  msg.id = .lbtnUp ∧ c.resize ≠ none ∧ msg.resizes = true

/-- The end of a drag hides the shade. -/
def MouseMsg.endsDrag (c : Core V) (msg : MouseMsg V) : Prop :=
  msg.id = .lbtnUp ∧ c.resize = none ∧ c.drag ≠ none ∧ c.mouseState = .hold

/-- The message goes on to the view under the pointer as it came. -/
def MouseMsg.passes (c : Core V) (msg : MouseMsg V) : Prop :=
  match msg.id with
  | .lbtnDown => c.resize = none ∧ c.drag = none
  | .lbtnUp => c.resize = none ∧ c.drag = none
  | .motion => ¬(c.resize ≠ none ∧ msg.resizes = true) ∧ c.drag = none
  | .other => True

/-- Where the shade is hidden, it is neither active nor under the pointer. -/
structure MsgClear (c : Core V) (msg : MouseMsg V) : Prop where
  endsResize : msg.endsResize c → c.shade ∈ c.stack.list →
    c.activity ≠ some c.shade ∧ c.hover ≠ some c.shade
  endsDrag : msg.endsDrag c → c.shade ∈ c.stack.list → c.activity ≠ some c.shade ∧
    (c.hover = some c.shade → ∃ w ∈ c.stack.list, w ≠ c.mouse ∧ w ≠ c.shade ∧ msg.under w = true)
  passes : msg.passes c → c.mouseState ≠ .normal → 0 < c.stack.z c.shade →
    ∀ w, viewEnvFindHoverView c msg.under = some w → c.hover ≠ some w →
      w ≠ c.shade ∧ (msg.id = .lbtnDown ∨ c.activity ≠ some c.shade)

/-- What a call must not do. -/
def EnvCall.Clear (s : Env V) : EnvCall V → Prop
  | .view (.close d true under) => s.driver.reference d = 1 →
      ∀ c v, s.driver.core = some c → s.driver.view d = some v →
        (∀ timer ∈ s.timers, timer.view ≠ some v) ∧
          (s.driver.openCount ≠ 1 → 0 ≤ c.stack.z v → ResetClear c v under)
  | .view (.hide d under) => ∀ c v, s.driver.core = some c → s.driver.view d = some v →
      ResetClear c v under
  | .view (.mouse msg) => ∀ c, s.driver.core = some c → MsgClear c msg
  | _ => True

end Calls

end View
end LightOS
