import LightOS.Lib.Run

/-!
# Exit and wait: the model

`sys_exit` of `task/exit.c`, `sys_waitpid` of `task/wait.c` and `proc_deal_zombie_child` of
`task/process.c`, over a tree of processes with one thread each.  Processes are made by
`spawn` (a successful fork), with pids that are never used twice.

What a call does with interrupts off is one step; between two steps any process that is ready
may run.  `sys_exit` is two steps: up to the look at the parent's state, and the last
`task_block`; with the `task_unblock` of a waiting parent between them it is three.
`sys_waitpid` is the look for dead children, the `task_block`, and the way back.  A process
may also sleep elsewhere, and an exception may wake it at any time.

`none` is a panic, or a process that is not there.  The log records what became of the
processes that were destroyed, and `exits` the calls of `sys_exit`; nothing reads them.
-/

namespace LightOS
namespace Wait

/-! ## State -/

/-- `task_state_t`.  `TASK_READY` and `TASK_RUNNING` are one: a process that may run.  A
stopped process is a blocked one. -/
inductive State where
  | ready
  | blocked
  | waiting
  | hanging
  | zombie
  deriving DecidableEq, Repr

/-- Where a process is in its code.  The arguments of `sys_waitpid` are the pid, `none` for
-1, and whether `WNOHANG` is set. -/
inductive Pc where
  /-- Outside of the calls. -/
  | out
  /-- `sys_exit`, before the `task_unblock` of the parent it has found waiting. -/
  | exitUnblock (parent : ℕ)
  /-- Before `task_block(TASK_HANGING)`. -/
  | exitHang
  /-- Before `task_block(TASK_ZOMBIE)`. -/
  | exitZombie
  | dead
  /-- `sys_waitpid`, before the look for dead children. -/
  | waitCheck (pid : Option ℕ) (nohang : Bool)
  /-- Before `task_block(TASK_WAITING)`. -/
  | waitBlock (pid : Option ℕ) (nohang : Bool)
  /-- In it. -/
  | waitSleep (pid : Option ℕ) (nohang : Bool)
  deriving DecidableEq, Repr

/-- The fields of `task_t` the calls use, and where the process is. -/
structure Task where
  parentPid : Option ℕ
  state : State
  exitStatus : ℤ
  pc : Pc
  deriving DecidableEq, Repr

/-- What became of a process that was destroyed: `sys_waitpid` returned its pid and stored a
status, or did not store one; `sys_waitpid` destroyed it and returned something else; its
parent exited. -/
inductive Fate where
  | returned (status : Option ℤ)
  | dropped
  | parentExit
  deriving DecidableEq, Repr

/-- An entry of the log: a process was destroyed by `caller`. -/
structure Reaped where
  child : ℕ
  caller : ℕ
  parentPid : Option ℕ
  exitStatus : ℤ
  fate : Fate
  deriving DecidableEq, Repr

/-- `task_global_list`, the task structures by pid, the next pid, the log, and the pids and
statuses of the calls of `sys_exit`. -/
structure WState where
  list : List ℕ
  task : ℕ → Task
  nextPid : ℕ
  log : List Reaped
  exits : List (ℕ × ℤ)

/-- `USER_INIT_PROC_ID`. -/
abbrev userInitProcId : ℕ := 1

namespace WState

variable (s : WState) (p : ℕ)

/-- A task structure changes. -/
def modify (f : Task → Task) : WState := { s with task := Function.update s.task p (f (s.task p)) }

/-- A process goes on to another place. -/
def goto (pc : Pc) : WState := s.modify p fun T => { T with pc := pc }

/-- A process goes to sleep in a state, or for good. -/
def sleep (state : State) (pc : Pc) : WState :=
  s.modify p fun T => { T with state := state, pc := pc }

/-- A process becomes ready. -/
def wake : WState := s.modify p fun T => { T with state := .ready }

/-- The process can make a step. -/
def Ready : Prop := p ∈ s.list ∧ (s.task p).state = .ready

instance : Decidable (s.Ready p) := inferInstanceAs (Decidable (_ ∧ _))

/-- The children of a process in a state. -/
def childrenIn (state : State) : List ℕ :=
  s.list.filter fun c => (s.task c).parentPid = some p ∧ (s.task c).state = state

/-- The entry of a child that `p` destroys. -/
def reaped (c : ℕ) (fate : Fate) : Reaped :=
  ⟨c, p, (s.task c).parentPid, (s.task c).exitStatus, fate⟩

end WState

/-! ## Wait -/

/-- `proc_destroy` of a process. -/
def procDestroy (s : WState) (p c : ℕ) (fate : Fate) : WState :=
  { s with list := s.list.erase c, log := s.log ++ [s.reaped p c fate] }

/-- `wait_any_hangging_child`, or `wait_one_hangging_child` for a pid: the process that is
destroyed and returned.  The second does not ask whose child it is. -/
def waitHanging (s : WState) (p : ℕ) : Option ℕ → Option ℕ
  | none => (s.childrenIn p .hanging).head?
  | some pid => s.list.find? fun c => c = pid ∧ (s.task c).state = .hanging

/-- `proc_deal_zombie_child`: all zombies among the children are destroyed. -/
def procDealZombieChild (s : WState) (p : ℕ) (fate : ℕ → Fate) : WState :=
  { s with
    list := s.list.filter fun c => c ∉ s.childrenIn p .zombie
    log := s.log ++ (s.childrenIn p .zombie).map fun c => s.reaped p c (fate c) }

/-- What becomes of the zombies in `sys_waitpid`: the first is returned, if it is asked for, but
its status is not stored. -/
def zombieFate (first : Option ℕ) (pid : Option ℕ) (c : ℕ) : Fate :=
  if some c = first ∧ (pid = none ∨ pid = first) then .returned none else .dropped

/-- `task_count_children` is 0. -/
def noChildren (s : WState) (p : ℕ) : Bool := s.list.all fun c => (s.task c).parentPid != some p

/-- The body of the loop of `sys_waitpid`, up to its `task_block`. -/
def waitCheck (s : WState) (p : ℕ) (pid : Option ℕ) (nohang : Bool) : WState :=
  match waitHanging s p pid with
  | some c => (procDestroy s p c (.returned (some (s.task c).exitStatus))).goto p .out
  | none =>
      let first := (s.childrenIn p .zombie).head?
      let s := procDealZombieChild s p (zombieFate first pid)
      if first ≠ none ∧ (pid = none ∨ pid = first) then s.goto p .out
      else if noChildren s p then s.goto p .out
      else if nohang then s.goto p .out
      else s.goto p (.waitBlock pid nohang)

/-! ## Exit -/

/-- `adopt_children_to_init`. -/
def adoptChildrenToInit (s : WState) (p : ℕ) : WState :=
  { s with task := fun c =>
      if c ∈ s.list ∧ (s.task c).parentPid = some p then
        { s.task c with parentPid := some userInitProcId }
      else s.task c }

/-- `cur->exit_status = status`. -/
def setExitStatus (s : WState) (p : ℕ) (status : ℤ) : WState :=
  { s.modify p fun T => { T with exitStatus := status } with exits := s.exits ++ [(p, status)] }

/-- The part of `sys_exit` that gives the children away. -/
def exitRelease (s : WState) (p : ℕ) (status : ℤ) : WState :=
  adoptChildrenToInit
    (procDealZombieChild (setExitStatus s p status) p fun _ => .parentExit) p

/-- `sys_exit`, up to the look at the parent's state. -/
def sysExit (s : WState) (p : ℕ) (status : ℤ) : WState :=
  let s := exitRelease s p status
  match (s.task p).parentPid with
  | none => s.goto p .exitZombie
  | some q =>
      if q ∈ s.list ∧ (s.task q).state = .waiting then s.goto p (.exitUnblock q)
      else s.goto p .exitZombie

/-- `task_unblock` of the parent. -/
def exitUnblock (s : WState) (p q : ℕ) : Option WState :=
  if q ∈ s.list ∧ ((s.task q).state = .waiting ∨ (s.task q).state = .blocked) then
    some ((s.wake q).goto p .exitHang)
  else none

/-! ## Steps -/

/-- The next step of the call that a process is in; `intr` is what
`exception_cause_exit_when_wait` says. -/
def runAt (s : WState) (p : ℕ) (intr : Bool) : Pc → Option WState
  | .out => none
  | .exitUnblock q => exitUnblock s p q
  | .exitHang => some (s.sleep p .hanging .dead)
  | .exitZombie => some (s.sleep p .zombie .dead)
  | .dead => none
  | .waitCheck pid nohang => some (waitCheck s p pid nohang)
  | .waitBlock pid nohang => some (s.sleep p .waiting (.waitSleep pid nohang))
  | .waitSleep pid nohang => some (s.goto p (if intr then .out else .waitCheck pid nohang))

/-- What can happen. -/
inductive Event where
  | spawn (p : ℕ)
  | exit (p : ℕ) (status : ℤ)
  | waitpid (p : ℕ) (pid : Option ℕ) (nohang : Bool)
  | run (p : ℕ) (intr : Bool)
  | block (p : ℕ)
  | wake (p : ℕ)

/-- A child is made. -/
def spawn (s : WState) (p : ℕ) : WState :=
  { s with
    list := s.list ++ [s.nextPid]
    task := Function.update s.task s.nextPid ⟨some p, .ready, 0, .out⟩
    nextPid := s.nextPid + 1 }

/-- The process is ready and in none of the calls. -/
def WState.CanCall (s : WState) (p : ℕ) : Prop := s.Ready p ∧ (s.task p).pc = .out

instance (s : WState) (p : ℕ) : Decidable (s.CanCall p) := inferInstanceAs (Decidable (_ ∧ _))

/-- One event. -/
def waitStep (s : WState) : Event → Option WState
  | .spawn p => if s.CanCall p then some (spawn s p) else none
  | .exit p status => if s.CanCall p then some (sysExit s p status) else none
  | .waitpid p pid nohang => if s.CanCall p then some (s.goto p (.waitCheck pid nohang)) else none
  | .run p intr => if s.Ready p then runAt s p intr (s.task p).pc else none
  | .block p => if s.CanCall p then some (s.sleep p .blocked .out) else none
  | .wake p =>
      if p ∈ s.list ∧ ((s.task p).state = .waiting ∨ (s.task p).state = .blocked) then
        some (s.wake p)
      else none

/-- The steps: what each event needs, and what it does. -/
inductive Moves (s : WState) : Event → WState → Prop
  | spawn (p : ℕ) (hcan : s.CanCall p) : Moves s (.spawn p) (spawn s p)
  | exit (p : ℕ) (status : ℤ) (hcan : s.CanCall p) : Moves s (.exit p status) (sysExit s p status)
  | waitpid (p : ℕ) (pid : Option ℕ) (nohang : Bool) (hcan : s.CanCall p) :
      Moves s (.waitpid p pid nohang) (s.goto p (.waitCheck pid nohang))
  | block (p : ℕ) (hcan : s.CanCall p) : Moves s (.block p) (s.sleep p .blocked .out)
  | wake (p : ℕ) : Moves s (.wake p) (s.wake p)
  | exitUnblock (p q : ℕ) (intr : Bool) (hready : s.Ready p)
      (hpc : (s.task p).pc = .exitUnblock q) :
      Moves s (.run p intr) ((s.wake q).goto p .exitHang)
  | exitHang (p : ℕ) (intr : Bool) (hready : s.Ready p) (hpc : (s.task p).pc = .exitHang) :
      Moves s (.run p intr) (s.sleep p .hanging .dead)
  | exitZombie (p : ℕ) (intr : Bool) (hready : s.Ready p) (hpc : (s.task p).pc = .exitZombie) :
      Moves s (.run p intr) (s.sleep p .zombie .dead)
  | waitCheck (p : ℕ) (intr : Bool) (pid : Option ℕ) (nohang : Bool) (hready : s.Ready p)
      (hpc : (s.task p).pc = .waitCheck pid nohang) :
      Moves s (.run p intr) (waitCheck s p pid nohang)
  | waitBlock (p : ℕ) (intr : Bool) (pid : Option ℕ) (nohang : Bool) (hready : s.Ready p)
      (hpc : (s.task p).pc = .waitBlock pid nohang) :
      Moves s (.run p intr) (s.sleep p .waiting (.waitSleep pid nohang))
  | waitSleep (p : ℕ) (intr : Bool) (pid : Option ℕ) (nohang : Bool) (hready : s.Ready p)
      (hpc : (s.task p).pc = .waitSleep pid nohang) :
      Moves s (.run p intr) (s.goto p (if intr then .out else .waitCheck pid nohang))

/-- The step function makes no others. -/
theorem moves_of_waitStep {s s' : WState} {e : Event} (hstep : waitStep s e = some s') :
    Moves s e s' := by
  cases e with
  | spawn p =>
    simp only [waitStep, Option.ite_none_right_eq_some, Option.some.injEq] at hstep
    obtain ⟨hcan, rfl⟩ := hstep
    exact .spawn p hcan
  | exit p status =>
    simp only [waitStep, Option.ite_none_right_eq_some, Option.some.injEq] at hstep
    obtain ⟨hcan, rfl⟩ := hstep
    exact .exit p status hcan
  | waitpid p pid nohang =>
    simp only [waitStep, Option.ite_none_right_eq_some, Option.some.injEq] at hstep
    obtain ⟨hcan, rfl⟩ := hstep
    exact .waitpid p pid nohang hcan
  | block p =>
    simp only [waitStep, Option.ite_none_right_eq_some, Option.some.injEq] at hstep
    obtain ⟨hcan, rfl⟩ := hstep
    exact .block p hcan
  | wake p =>
    simp only [waitStep, Option.ite_none_right_eq_some, Option.some.injEq] at hstep
    obtain ⟨-, rfl⟩ := hstep
    exact .wake p
  | run p intr =>
    simp only [waitStep, Option.ite_none_right_eq_some] at hstep
    obtain ⟨hready, hstep⟩ := hstep
    cases hpc : (s.task p).pc with
    | out => rw [hpc] at hstep; cases hstep
    | dead => rw [hpc] at hstep; cases hstep
    | exitUnblock q =>
      rw [hpc] at hstep
      simp only [runAt, exitUnblock, Option.ite_none_right_eq_some, Option.some.injEq] at hstep
      obtain ⟨-, rfl⟩ := hstep
      exact .exitUnblock p q intr hready hpc
    | exitHang =>
      rw [hpc] at hstep
      cases hstep
      exact .exitHang p intr hready hpc
    | exitZombie =>
      rw [hpc] at hstep
      cases hstep
      exact .exitZombie p intr hready hpc
    | waitCheck pid nohang =>
      rw [hpc] at hstep
      cases hstep
      exact .waitCheck p intr pid nohang hready hpc
    | waitBlock pid nohang =>
      rw [hpc] at hstep
      cases hstep
      exact .waitBlock p intr pid nohang hready hpc
    | waitSleep pid nohang =>
      rw [hpc] at hstep
      cases hstep
      exact .waitSleep p intr pid nohang hready hpc

/-- INIT alone. -/
def waitBoot : WState where
  list := [userInitProcId]
  task := fun _ => ⟨none, .ready, 0, .out⟩
  nextPid := 2
  log := []
  exits := []

/-! ## Frames -/

variable {s : WState} {p c : ℕ}

theorem modify_task_of_ne (f : Task → Task) (h : c ≠ p) : (s.modify p f).task c = s.task c :=
  Function.update_of_ne h _ _

@[simp] theorem modify_task_self (f : Task → Task) : (s.modify p f).task p = f (s.task p) :=
  Function.update_self _ _ _

@[simp] theorem goto_parentPid (pc : Pc) :
    ((s.goto p pc).task c).parentPid = (s.task c).parentPid := by
  by_cases h : c = p
  · subst h
    simp [WState.goto]
  · simp [WState.goto, modify_task_of_ne _ h]

@[simp] theorem goto_state (pc : Pc) : ((s.goto p pc).task c).state = (s.task c).state := by
  by_cases h : c = p
  · subst h
    simp [WState.goto]
  · simp [WState.goto, modify_task_of_ne _ h]

@[simp] theorem goto_pc (pc : Pc) :
    ((s.goto p pc).task c).pc = if c = p then pc else (s.task c).pc := by
  by_cases h : c = p
  · subst h
    simp [WState.goto]
  · simp [WState.goto, modify_task_of_ne _ h, h]

@[simp] theorem goto_exitStatus (pc : Pc) :
    ((s.goto p pc).task c).exitStatus = (s.task c).exitStatus := by
  by_cases h : c = p
  · subst h
    simp [WState.goto]
  · simp [WState.goto, modify_task_of_ne _ h]

@[simp] theorem sleep_parentPid (state : State) (pc : Pc) :
    ((s.sleep p state pc).task c).parentPid = (s.task c).parentPid := by
  by_cases h : c = p
  · subst h
    simp [WState.sleep]
  · simp [WState.sleep, modify_task_of_ne _ h]

@[simp] theorem sleep_state (state : State) (pc : Pc) :
    ((s.sleep p state pc).task c).state = if c = p then state else (s.task c).state := by
  by_cases h : c = p
  · subst h
    simp [WState.sleep]
  · simp [WState.sleep, modify_task_of_ne _ h, h]

@[simp] theorem sleep_pc (state : State) (pc : Pc) :
    ((s.sleep p state pc).task c).pc = if c = p then pc else (s.task c).pc := by
  by_cases h : c = p
  · subst h
    simp [WState.sleep]
  · simp [WState.sleep, modify_task_of_ne _ h, h]

@[simp] theorem wake_parentPid : ((s.wake p).task c).parentPid = (s.task c).parentPid := by
  by_cases h : c = p
  · subst h
    simp [WState.wake]
  · simp [WState.wake, modify_task_of_ne _ h]

@[simp] theorem wake_state :
    ((s.wake p).task c).state = if c = p then .ready else (s.task c).state := by
  by_cases h : c = p
  · subst h
    simp [WState.wake]
  · simp [WState.wake, modify_task_of_ne _ h, h]

@[simp] theorem wake_pc : ((s.wake p).task c).pc = (s.task c).pc := by
  by_cases h : c = p
  · subst h
    simp [WState.wake]
  · simp [WState.wake, modify_task_of_ne _ h]

/-- The fields that `setExitStatus` keeps. -/
theorem setExitStatus_task (status : ℤ) :
    ((setExitStatus s p status).task c).parentPid = (s.task c).parentPid ∧
      ((setExitStatus s p status).task c).state = (s.task c).state ∧
      ((setExitStatus s p status).task c).pc = (s.task c).pc ∧
      ((setExitStatus s p status).task c).exitStatus =
        if c = p then status else (s.task c).exitStatus := by
  by_cases h : c = p
  · subst h
    simp [setExitStatus]
  · simp [setExitStatus, modify_task_of_ne _ h, h]

/-- The processes that are left when the zombies among the children are gone. -/
theorem mem_exitRelease {status : ℤ} :
    c ∈ (exitRelease s p status).list ↔
      c ∈ s.list ∧ ¬((s.task c).parentPid = some p ∧ (s.task c).state = .zombie) := by
  obtain ⟨hparent, hstate, -, -⟩ := setExitStatus_task (s := s) (p := p) (c := c) status
  have hlist : (setExitStatus s p status).list = s.list := rfl
  simp only [exitRelease, adoptChildrenToInit, procDealZombieChild, List.mem_filter,
    decide_eq_true_eq, WState.childrenIn, hparent, hstate, hlist]
  tauto

/-- INIT inherits the children that are left. -/
theorem exitRelease_task {status : ℤ} (hc : c ∈ (exitRelease s p status).list) :
    ((exitRelease s p status).task c).parentPid =
        (if (s.task c).parentPid = some p then some userInitProcId else (s.task c).parentPid) ∧
      ((exitRelease s p status).task c).state = (s.task c).state ∧
      ((exitRelease s p status).task c).pc = (s.task c).pc ∧
      ((exitRelease s p status).task c).exitStatus =
        if c = p then status else (s.task c).exitStatus := by
  obtain ⟨hparent, hstate, hpc, hexit⟩ := setExitStatus_task (s := s) (p := p) (c := c) status
  have hmem : c ∈ (procDealZombieChild (setExitStatus s p status) p fun _ => .parentExit).list := hc
  have htask : (exitRelease s p status).task c =
      if ((setExitStatus s p status).task c).parentPid = some p then
        { (setExitStatus s p status).task c with parentPid := some userInitProcId }
      else (setExitStatus s p status).task c := by
    simp only [exitRelease, adoptChildrenToInit, hmem, true_and]
    rfl
  rw [htask, hparent]
  by_cases hchild : (s.task c).parentPid = some p
  · rw [if_pos hchild, if_pos hchild]
    exact ⟨rfl, hstate, hpc, hexit⟩
  · rw [if_neg hchild, if_neg hchild]
    exact ⟨hparent, hstate, hpc, hexit⟩

end Wait
end LightOS
