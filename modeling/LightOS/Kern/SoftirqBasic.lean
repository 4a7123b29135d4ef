import LightOS.Lib.LinkedList
import LightOS.Lib.Run

/-!
# Deferred work: the model

`kernel/softirq.c`, with `test_and_set_bit` and `clear_bit` of `xbook/bitops.h`.

Any number of contexts are under way at once: interrupts come while an interrupt is handled, and
the softirq of the scheduler leaves one handler for another task in the middle.  What runs with
interrupts off is one step; `test_and_set_bit` is two, for it turns them off only to write.  A
function that is executed may itself schedule: that is a run in which another context does so
before the function returns.

Assists are cells of a heap, linked through `next`.  Whether an assist is enabled does not change.
The two counters of each assist are a record of what happened; nothing reads them.
-/

namespace LightOS
namespace Softirq

/-! ## Bits -/

/-- `test_bit`. -/
def testBit (nr : ℕ) (word : BitVec 32) : Bool := word.getLsbD nr

/-- `set_bit`. -/
def setBit (nr : ℕ) (word : BitVec 32) : BitVec 32 := word ||| BitVec.twoPow 32 nr

/-- `clear_bit`. -/
def clearBit (nr : ℕ) (word : BitVec 32) : BitVec 32 := word &&& ~~~BitVec.twoPow 32 nr

/-! ## Softirqs -/

/-- `MAX_IRQ_REDO_COUNT`. -/
abbrev maxIrqRedoCount : ℕ := 10

/-- `NR_SOFTIRQS`. -/
abbrev nrSoftirqs : ℕ := 7

/-- `TASK_ASSIST_SCHED`. -/
abbrev taskAssistSched : ℕ := 0

/-- The two priorities of assists. -/
inductive Kind where
  | high
  | low
  deriving DecidableEq

/-- `HIGHTASK_ASSIST_SOFTIRQ` and `TASK_ASSIST_SOFTIRQ`: the softirq, and the bit of the status. -/
def Kind.nr : Kind → ℕ
  | .high => 0
  | .low => 4

/-- What is built: the actions of the assists, and those of the timer and the scheduler. -/
inductive Action where
  | assist (k : Kind)
  | timer
  | sched
  deriving DecidableEq

/-- `softirq_actions`, after `softirq_init` and `clock_init`. -/
def softirqAction : ℕ → Option Action
  | 0 => some (.assist .high)
  | 1 => some .timer
  | 4 => some (.assist .low)
  | 5 => some .sched
  | _ => none

/-- The variables of the loop in `softirq_do_handle`; `nr` is how far `action` has come. -/
structure Frame where
  evens : BitVec 32
  nr : ℕ
  redo : ℕ
  deriving DecidableEq

/-- Where a context is. -/
inductive Pc (α : Type) where
  | out
  /-- In `test_and_set_bit`: the bit was not set. -/
  | set (k : Kind) (a : α)
  /-- The bit is set, the assist is not on the list yet. -/
  | add (k : Kind) (a : α)
  /-- `softirq_do_handle`, before the test of a bit, and after the last one. -/
  | loop (f : Frame)
  | finish (redo : ℕ)
  /-- The two actions: the list is taken, the next assist is looked at, its `count` is tested, its
  function is called and runs, and the assist is put back. -/
  | take (k : Kind) (f : Frame)
  | walk (k : Kind) (list : Option α) (f : Frame)
  | test (k : Kind) (assist : α) (list : Option α) (f : Frame)
  | call (k : Kind) (assist : α) (list : Option α) (f : Frame)
  | running (k : Kind) (assist : α) (list : Option α) (f : Frame)
  | readd (k : Kind) (assist : α) (list : Option α) (f : Frame)
  deriving DecidableEq

/-- The assists, the heads of the two lists, `softirq_evens`, the contexts, and for every assist how
often a request was accepted and how often its function was executed. -/
structure SoftirqState (ι α : Type) where
  next : α → Option α
  status : α → BitVec 32
  head : Kind → Option α
  evens : BitVec 32
  pc : ι → Pc α
  accepted : α → ℕ
  executed : α → ℕ

/-- A call from an interrupt, or a context goes on. -/
inductive Event (ι α : Type) where
  | schedule (t : ι) (k : Kind) (a : α)
  | handle (t : ι)
  | active (softirq : ℕ)
  | run (t : ι)

section Step

variable {ι α : Type} [DecidableEq ι] [DecidableEq α]

def SoftirqState.goto (s : SoftirqState ι α) (t : ι) (p : Pc α) : SoftirqState ι α :=
  { s with pc := Function.update s.pc t p }

omit [DecidableEq α] in
@[simp] theorem goto_pc_self (s : SoftirqState ι α) (t : ι) (p : Pc α) : (s.goto t p).pc t = p :=
  Function.update_self _ _ _

/-- `softirq_active`. -/
def softirqActive (evens : BitVec 32) (softirq : ℕ) : BitVec 32 :=
  if softirq < nrSoftirqs ∧ (softirqAction softirq).isSome then setBit softirq evens else evens

/-- The end of the body of the loop. -/
def Frame.advance (f : Frame) : Pc α :=
  if f.evens >>> 1 = 0 then .finish f.redo else .loop ⟨f.evens >>> 1, f.nr + 1, f.redo⟩

/-- `assist->next = head; head = assist` and `softirq_active`. -/
def SoftirqState.push (s : SoftirqState ι α) (k : Kind) (a : α) : SoftirqState ι α :=
  { s with
    next := Function.update s.next a (s.head k)
    head := Function.update s.head k (some a)
    evens := softirqActive s.evens k.nr }

/-- `test_and_set_bit` up to the write, of `high_task_assist_schedule` and `task_assist_schedule`.
-/
def taskAssistSchedule (s : SoftirqState ι α) (t : ι) (k : Kind) (a : α) : SoftirqState ι α :=
  if testBit k.nr (s.status a) then s
  else { s with accepted := Function.update s.accepted a (s.accepted a + 1) }.goto t (.set k a)

/-- `softirq_handle_in_interrupt`, up to where interrupts are turned on. -/
def softirqHandleInInterrupt (s : SoftirqState ι α) (t : ι) : SoftirqState ι α :=
  if s.evens = 0 then s
  else { s with evens := 0 }.goto t (.loop ⟨s.evens, 0, maxIrqRedoCount⟩)

/-- A context goes on.  The actions of the timer and the scheduler do nothing to the assists. -/
def runStep (count : α → ℤ) (s : SoftirqState ι α) (t : ι) : Option (SoftirqState ι α) :=
  match s.pc t with
  | .out => none
  | .set k a =>
      some ({ s with status := Function.update s.status a (setBit k.nr (s.status a)) }.goto t
        (.add k a))
  | .add k a => some ((s.push k a).goto t .out)
  | .loop f =>
      if testBit 0 f.evens then
        match softirqAction f.nr with
        | none => none
        | some (.assist k) => some (s.goto t (.take k f))
        | some .timer => some (s.goto t f.advance)
        | some .sched => some (s.goto t f.advance)
      else some (s.goto t f.advance)
  | .finish redo =>
      if s.evens ≠ 0 ∧ redo - 1 ≠ 0 then
        some ({ s with evens := 0 }.goto t (.loop ⟨s.evens, 0, redo - 1⟩))
      else some (s.goto t .out)
  | .take k f =>
      some ({ s with head := Function.update s.head k none }.goto t (.walk k (s.head k) f))
  | .walk _ none f => some (s.goto t f.advance)
  | .walk k (some assist) f => some (s.goto t (.test k assist (s.next assist) f))
  | .test k assist list f =>
      if count assist = 0 then
        some ({ s with
          status := Function.update s.status assist
            (clearBit taskAssistSched (s.status assist)) }.goto t
            (.call k assist list f))
      else some (s.goto t (.readd k assist list f))
  | .call k assist list f =>
      some ({ s with executed := Function.update s.executed assist (s.executed assist + 1) }.goto t
        (.running k assist list f))
  -- only the action of the high list goes on with the next assist here
  | .running .high _ list f => some (s.goto t (.walk .high list f))
  | .running .low assist list f => some (s.goto t (.readd .low assist list f))
  | .readd k assist list f => some ((s.push k assist).goto t (.walk k list f))

/-- One event; a context that is in a call makes no other. -/
def softirqStep (count : α → ℤ) (s : SoftirqState ι α) : Event ι α → Option (SoftirqState ι α)
  | .schedule t k a => if s.pc t = .out then some (taskAssistSchedule s t k a) else none
  | .handle t => if s.pc t = .out then some (softirqHandleInInterrupt s t) else none
  | .active softirq => some { s with evens := softirqActive s.evens softirq }
  | .run t => runStep count s t

/-- After `softirq_init`, with assists after `task_assist_init`. -/
def softirqInit : SoftirqState ι α :=
  { next := fun _ => none
    status := fun _ => 0
    head := fun _ => none
    evens := 0
    pc := fun _ => .out
    accepted := fun _ => 0
    executed := fun _ => 0 }

/-! ## The promise -/

/-- The part of a list that an action has not come to. -/
def Pc.rest : Pc α → Option α
  | .walk _ list _ | .test _ _ list _ | .call _ _ list _ | .running _ _ list _ | .readd _ _ list
      _ => list
  | _ => none

/-- Following the links from a pointer leads to `a`. -/
def Leads (s : SoftirqState ι α) (p : Option α) (a : α) : Prop :=
  ∃ l m, LinkedList.Seg s.next p l m ∧ a ∈ l

/-- The assist is on a list: one of the two, or one that an action has taken. -/
def OnList (s : SoftirqState ι α) (a : α) : Prop :=
  (∃ k, Leads s (s.head k) a) ∨ ∃ t, Leads s (s.pc t).rest a

/-- **Every request leads to one execution.**  The function is not executed before it is requested;
when every request was executed the assist is on no list and can be scheduled; while it is on one
it cannot; and when nothing is under way, handling the softirqs leaves exactly as many executions
as requests. -/
structure AssistOk (count : α → ℤ) (s : SoftirqState ι α) (a : α) : Prop where
  later : s.executed a ≤ s.accepted a
  free : s.executed a = s.accepted a → ¬OnList s a ∧ ∀ k : Kind, testBit k.nr (s.status a) = false
  once : OnList s a → testBit Kind.high.nr (s.status a) = true
  handled : (∀ t, s.pc t = .out) → ∀ t, ∃ n s',
    Run.exec (softirqStep count) s (.handle t :: List.replicate n (.run t)) = some s' ∧
      (∀ u, s'.pc u = .out) ∧ s'.accepted a = s.accepted a ∧ s'.executed a = s.accepted a

/-- When a call can be relied on: no context is between the test and the write of the bit for this
assist; `task_assist_schedule` gets assists that are disabled only, and none that waits on the
other list. -/
def SoftirqFine (count : α → ℤ) (s : SoftirqState ι α) : Event ι α → Prop
  | .schedule _ .high a =>
      (∀ t k, s.pc t ≠ .set k a) ∧ testBit Kind.low.nr (s.status a) = false
  | .schedule _ .low a =>
      (∀ t k, s.pc t ≠ .set k a) ∧ testBit Kind.high.nr (s.status a) = false ∧ count a ≠ 0
  | .handle _ => True
  | .active _ => True
  | .run _ => True

end Step

end Softirq
end LightOS
