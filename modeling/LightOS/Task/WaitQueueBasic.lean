import LightOS.Lib.Tokens
import LightOS.Task.ScheduleBasic

/-!
# Sleeping and waking in the kernel: the model

`task/waitqueue.c`, `task/semaphore.c` with `xbook/semaphore.h`, `task/mutexlock.c`,
`task_wakeup` of `xbook/task.h` and `exception_send` of `kernel/exception.c`, over the
scheduler.  One processor: the current task makes the steps, and between two of them the
clock can take the processor away.  The idle task only halts and calls `schedule`.

A task has one list node.  The nodes on wait lists are kept in one sequence of pairs of a list
and a task, in the order they were added; a list is the part of it under its name.  That is
what memory holds as long as no node is on two lists.  What runs with interrupts off is one
step, and so is an addition to a list with the flag set after it.

`none` is a panic or a failed assertion.  The ledgers are a record of what was done on each
semaphore; nothing reads them.
-/

namespace LightOS
namespace WaitQueue

open Sched

/-! ## State -/

/-- The lists a node can be on besides the queues of the scheduler: those of wait queues, of
semaphores, and of the `mutexlock_t` inside a semaphore. -/
inductive WaitList where
  | queue (q : ℕ)
  | sema (k : ℕ)
  | lock (k : ℕ)
  deriving DecidableEq, Repr

/-- The calls on a semaphore. -/
inductive SemaOp where
  | down
  | tryDown
  | up
  deriving DecidableEq, Repr

/-- Where a task is in the code of a call; `out` is outside of all calls. -/
inductive Place where
  | out
  /-- `wait_queue_sleepon`, on the queue. -/
  | sleepBlock
  /-- `mutex_lock`: the try, after a try that failed, and on the list. -/
  | lockTry (k : ℕ) (op : SemaOp)
  | lockAdd (k : ℕ) (op : SemaOp)
  | lockBlock (k : ℕ) (op : SemaOp)
  /-- The lock of the semaphore is taken. -/
  | body (k : ℕ) (op : SemaOp)
  /-- `__semaphore_down`, line by line. -/
  | downAdd (k : ℕ)
  | downUnlock (k : ℕ)
  | downBlock (k : ℕ)
  | downReturn (k : ℕ)
  /-- `__semaphore_up`, line by line. -/
  | upHand (k : ℕ)
  | upDel (k : ℕ)
  | upLeave (k : ℕ)
  | upReady (k : ℕ)
  | upAdd (k : ℕ)
  /-- The last `mutex_unlock`, and whether the call took a token. -/
  | unlock (k : ℕ) (token : Bool)
  deriving DecidableEq, Repr

/-- The scheduler, the wait lists, and the semaphores. -/
structure KState where
  sched : SchedState
  /-- The nodes on wait lists, in the order they were added. -/
  links : List (WaitList × ℕ)
  /-- `THREAD_FLAG_WAITLIST`. -/
  inWaitlist : ℕ → Bool
  /-- `lock.wait_lock` and `lock.waiters` of a semaphore. -/
  locked : ℕ → Bool
  waiters : ℕ → ℤ
  counter : ℕ → ℤ
  /-- `waiter` of the `__semaphore_up` that has the lock of the semaphore. -/
  waiter : ℕ → Option ℕ
  /-- The state of the task reads `TASK_READY` and its node is on no queue yet. -/
  handed : ℕ → Bool
  place : ℕ → Place
  ledger : ℕ → Tokens.Ledger ℕ

/-- One list, first node first. -/
def KState.list (s : KState) (l : WaitList) : List ℕ :=
  (s.links.filter fun link => link.1 = l).map Prod.snd

/-- The node of a task is on a wait list. -/
def KState.Waits (s : KState) (t : ℕ) : Prop := t ∈ s.links.map Prod.snd

instance (s : KState) (t : ℕ) : Decidable (s.Waits t) := inferInstanceAs (Decidable (_ ∈ _))

/-- An `int` after an addition. -/
def wrapInt (v : ℤ) : ℤ := v.bmod (2 ^ 32)

def KState.goto (s : KState) (t : ℕ) (p : Place) : KState :=
  { s with place := Function.update s.place t p }

/-- `list_del` and `list_del_init`: the node leaves whatever list it is on.  The length of a
queue of the scheduler is not the list's business. -/
def KState.listDel (s : KState) (t : ℕ) : KState :=
  { s with
    sched := { s.sched with
      priorityQueue := fun p =>
        { s.sched.priorityQueue p with
          list := (s.sched.priorityQueue p).list.filter fun x => x ≠ t } }
    links := s.links.filter fun link => link.2 ≠ t }

/-- `TASK_LEAVE_WAITLIST`. -/
def KState.leaveWaitlist (s : KState) (t : ℕ) : KState :=
  { s with inWaitlist := Function.update s.inWaitlist t false }

/-- `list_add_tail` of the current task and `TASK_ENTER_WAITLIST`. -/
def KState.enter (s : KState) (l : WaitList) : KState :=
  { s with
    links := s.links ++ [(l, s.sched.cur)]
    inWaitlist := Function.update s.inWaitlist s.sched.cur true }

/-- The scheduler has gone on. -/
def KState.onSched (s : KState) (sched : SchedState) : KState := { s with sched := sched }

/-! ## Waking -/

/-- The field `state` of a task. -/
def KState.stateOf (s : KState) (t : ℕ) : Option TaskState :=
  if s.handed t then some .ready else (s.sched.tasks t).map Task.state

/-- `TASK_NOT_READY`. -/
def TaskNotReady (s : KState) (t : ℕ) : Prop :=
  ∃ x ∈ s.stateOf t, x = .blocked ∨ x = .waiting ∨ x = .stopped

instance (s : KState) (t : ℕ) : Decidable (TaskNotReady s t) :=
  inferInstanceAs (Decidable (∃ x ∈ s.stateOf t, _))

/-- `task_wakeup`. -/
def taskWakeup (s : KState) (t : ℕ) : Option KState :=
  if TaskNotReady s t then
    let s := if s.inWaitlist t then s.listDel t else s
    (taskUnblock s.sched t).map s.onSched
  else some s

/-- `wait_queue_wakeup`. -/
def waitQueueWakeup (s : KState) (q : ℕ) : Option KState :=
  match s.list (.queue q) with
  | [] => some s
  | t :: _ => taskWakeup ((s.listDel t).leaveWaitlist t) t

/-- `mutex_unlock`; the flag it clears is that of the task that unlocks. -/
def mutexUnlock (s : KState) (k : ℕ) : Option KState :=
  let s := { s with locked := Function.update s.locked k false }
  if s.waiters k < 1 then some s
  else
    match s.list (.lock k) with
    | [] => some s
    | t :: _ =>
        let s := (s.listDel t).leaveWaitlist s.sched.cur
        taskWakeup { s with waiters := Function.update s.waiters k (wrapInt (s.waiters k - 1)) } t

/-- The part of an exception manager that `exception_send` reads. -/
structure ExceptionManager where
  exceptionBlock : ℕ → Bool
  exceptionCatch : ℕ → Bool
  inUserMode : Bool

/-- `EXP_CODE_FINALHIT`, `EXP_CODE_CONT`, `EXP_CODE_STOP`, `EXP_CODE_MAX_NR`. -/
abbrev expCodeFinalhit : ℕ := 9
abbrev expCodeCont : ℕ := 15
abbrev expCodeStop : ℕ := 16
abbrev expCodeMaxNr : ℕ := 21

/-- `mask & (1 << code)` in a `bool`, which is a `char` (`stdbool.h`): its low eight bits. -/
def maskBool (bit : Bool) (code : ℕ) : Bool := (bif bit then 2 ^ code else 0) % 256 != 0

/-- Bits from the eighth on are lost. -/
@[simp] theorem maskBool_eq (bit : Bool) (code : ℕ) :
    maskBool bit code = (bit && decide (code < 8)) := by
  cases bit with
  | false => rfl
  | true =>
    by_cases hcode : code < 8
    · have hlt : 2 ^ code < 256 := Nat.pow_lt_pow_right (by decide) hcode
      have hpos := Nat.two_pow_pos code
      simp [maskBool, Nat.mod_eq_of_lt hlt, hcode]
    · have hdvd : 256 ∣ 2 ^ code := pow_dvd_pow 2 (not_lt.1 hcode)
      simp [maskBool, Nat.mod_eq_zero_of_dvd hdvd, hcode]

/-- `exception_was_blocked`. -/
def exceptionWasBlocked (m : ExceptionManager) (code : ℕ) : Bool :=
  !(code = expCodeFinalhit || code = expCodeStop) && maskBool (m.exceptionBlock code) code

/-- `exception_can_catch`. -/
def exceptionCanCatch (m : ExceptionManager) (code : ℕ) : Bool :=
  !(code = expCodeFinalhit || code = expCodeStop) && maskBool (m.exceptionCatch code) code

/-- Whether `exception_send` comes to a `task_wakeup`; `created` is whether there was memory for
the exception. -/
def sendWakes (s : KState) (t code : ℕ) (m : ExceptionManager) (created : Bool) : Prop :=
  code < expCodeMaxNr ∧ (s.sched.tasks t).isSome ∧
    ¬(exceptionWasBlocked m code || m.inUserMode) ∧
    if exceptionCanCatch m code then created = true
    else if code = expCodeCont then s.stateOf t = some .stopped
    else created = true

instance (s : KState) (t code : ℕ) (m : ExceptionManager) (created : Bool) :
    Decidable (sendWakes s t code m created) := inferInstanceAs (Decidable (_ ∧ _))

/-- `exception_send`, to the task of a `pid`, whatever its exception manager holds. -/
def exceptionSend (s : KState) (t code : ℕ) (m : ExceptionManager) (created : Bool) :
    Option KState :=
  if sendWakes s t code m created then taskWakeup s t else some s

/-! ## Sleeping -/

/-- `task_block` of the current task. -/
def KState.block (s : KState) (state : TaskState) : Option KState :=
  (taskBlock s.sched state).map s.onSched

/-- `wait_queue_add` of the current task. -/
def waitQueueAdd (s : KState) (q : ℕ) : Option KState :=
  if s.sched.cur ∈ s.list (.queue q) then none else some (s.enter (.queue q))

/-! ## Semaphores -/

/-- The record of one semaphore changes. -/
def KState.record (s : KState) (k : ℕ) (f : Tokens.Ledger ℕ → Tokens.Ledger ℕ) : KState :=
  { s with ledger := Function.update s.ledger k (f (s.ledger k)) }

def KState.setCounter (s : KState) (k : ℕ) (v : ℤ) : KState :=
  { s with counter := Function.update s.counter k v }

def KState.setWaiter (s : KState) (k : ℕ) (w : Option ℕ) : KState :=
  { s with waiter := Function.update s.waiter k w }

def KState.setHanded (s : KState) (t : ℕ) (handed : Bool) : KState :=
  { s with handed := Function.update s.handed t handed }

/-- `__semaphore_up` looks for the first waiter; without one there is only the `mutex_unlock`. -/
def upHand (s : KState) (k : ℕ) : KState :=
  match s.list (.sema k) with
  | [] => (s.record k fun L => L.raise s.sched.cur).goto s.sched.cur (.unlock k false)
  | w :: _ => (s.setWaiter k (some w)).goto s.sched.cur (.upDel k)

/-- The rest of `__semaphore_up` on its waiter, line by line with interrupts on: `list_del`,
`TASK_LEAVE_WAITLIST`, the state, and `sched_queue_add_head`. -/
def upDel (s : KState) (k w : ℕ) : KState :=
  ((s.listDel w).record k fun L => (L.raise s.sched.cur).take w).goto s.sched.cur (.upLeave k)

def upLeave (s : KState) (k w : ℕ) : KState := (s.leaveWaitlist w).goto s.sched.cur (.upReady k)

def upReady (s : KState) (k w : ℕ) : KState := (s.setHanded w true).goto s.sched.cur (.upAdd k)

def upAdd (s : KState) (k w : ℕ) : Option KState :=
  (s.sched.tasks w).bind fun W =>
    (schedQueueAddHead (s.sched.setTask w { W with state := .ready }) w).map fun sched =>
      (((s.onSched sched).setHanded w false).setWaiter k none).goto s.sched.cur (.unlock k false)

/-- A call on a semaphore with its lock taken. -/
def semaphoreBody (s : KState) (k : ℕ) : SemaOp → KState
  | .down =>
      if 0 < s.counter k then
        ((s.setCounter k (s.counter k - 1)).record k fun L => L.take s.sched.cur).goto s.sched.cur
          (.unlock k true)
      else s.goto s.sched.cur (.downAdd k)
  | .tryDown =>
      if 0 < s.counter k then
        ((s.setCounter k (s.counter k - 1)).record k fun L => L.take s.sched.cur).goto s.sched.cur
          (.unlock k true)
      else s.goto s.sched.cur (.unlock k false)
  | .up =>
      if s.list (.sema k) = [] then
        ((s.setCounter k (wrapInt (s.counter k + 1))).record k fun L => L.raise s.sched.cur).goto
          s.sched.cur (.unlock k false)
      else s.goto s.sched.cur (.upHand k)

/-- The next step of the current task at a place in a call. -/
def runAt (s : KState) : Place → Option KState
  | .out => none
  | .sleepBlock => (s.goto s.sched.cur .out).block .blocked
  | .lockTry k op =>
      if s.locked k then some (s.goto s.sched.cur (.lockAdd k op))
      else
        some ({ s with locked := Function.update s.locked k true }.goto s.sched.cur (.body k op))
  | .lockAdd k op =>
      some ({ s.enter (.lock k) with
        waiters := Function.update s.waiters k (wrapInt (s.waiters k + 1)) }.goto s.sched.cur
          (.lockBlock k op))
  | .lockBlock k op => (s.goto s.sched.cur (.lockTry k op)).block .blocked
  | .body k op => some (semaphoreBody s k op)
  | .downAdd k => some ((s.enter (.sema k)).goto s.sched.cur (.downUnlock k))
  | .downUnlock k => (mutexUnlock s k).map fun u => u.goto s.sched.cur (.downBlock k)
  | .downBlock k => (s.goto s.sched.cur (.downReturn k)).block .blocked
  | .downReturn k => some ((s.record k fun L => L.finish s.sched.cur).goto s.sched.cur .out)
  | .upHand k => some (upHand s k)
  | .upDel k => (s.waiter k).map (upDel s k)
  | .upLeave k => (s.waiter k).map (upLeave s k)
  | .upReady k => (s.waiter k).map (upReady s k)
  | .upAdd k => (s.waiter k).bind (upAdd s k)
  | .unlock k token =>
      (mutexUnlock s k).map fun u =>
        (if token then u.record k fun L => L.finish s.sched.cur else u).goto s.sched.cur .out

/-- The current task makes the next step of the call it is in. -/
def runCur (s : KState) : Option KState := runAt s (s.place s.sched.cur)

/-! ## Events -/

/-- What can happen.  `wakeup` and `exceptionSend` may come from an interrupt, at any time. -/
inductive KEvent where
  | create (task level : ℕ)
  | run
  | preempt
  | waitQueueAdd (q : ℕ)
  | waitQueueSleepon (q : ℕ)
  | semaphore (k : ℕ) (op : SemaOp)
  | taskBlock (state : TaskState)
  | wakeup (q : ℕ)
  | exceptionSend (task code : ℕ) (m : ExceptionManager) (created : Bool)

/-- The current task is free to make a call; the idle task makes none. -/
def KState.CanCall (s : KState) : Prop := s.place s.sched.cur = .out ∧ s.sched.cur ≠ s.sched.idle

instance (s : KState) : Decidable s.CanCall := inferInstanceAs (Decidable (_ ∧ _))

/-- `semaphore_down`, `semaphore_try_down`, `semaphore_up`: they begin with `mutex_lock`. -/
def semaphoreCall (s : KState) (k : ℕ) (op : SemaOp) : KState :=
  let t := s.sched.cur
  (if op = .up then s.record k fun L => L.call t else s).goto t (.lockTry k op)

/-- One event. -/
def kstep (s : KState) : KEvent → Option KState
  | .create t level =>
      (taskCreate s.sched t level).map fun sched =>
        (((s.onSched sched).leaveWaitlist t).setHanded t false).goto t .out
  | .run => runCur s
  | .preempt => (schedule s.sched).map s.onSched
  | .waitQueueAdd q => if s.CanCall then waitQueueAdd s q else none
  | .waitQueueSleepon q =>
      if s.CanCall then (waitQueueAdd s q).map fun u => u.goto s.sched.cur .sleepBlock else none
  | .semaphore k op => if s.CanCall then some (semaphoreCall s k op) else none
  | .taskBlock state => if s.CanCall then s.block state else none
  | .wakeup q => waitQueueWakeup s q
  | .exceptionSend t code m created => exceptionSend s t code m created

/-- At boot, with semaphores of some initial values. -/
def kernelBoot (idle level : ℕ) (v : ℕ → ℕ) : KState where
  sched := schedBoot idle level
  links := []
  inWaitlist := fun _ => false
  locked := fun _ => false
  waiters := fun _ => 0
  counter := fun k => v k
  waiter := fun _ => none
  handed := fun _ => false
  place := fun _ => .out
  ledger := fun _ => .empty ℕ

end WaitQueue
end LightOS
