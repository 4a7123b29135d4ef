import LightOS.Kern.FifoBuf

/-!
# Pipes: the model

`ipc/pipe.c`, for one pipe.  A call checks its arguments, then runs sections under the mutex of
the pipe; a task that has to wait keeps the mutex (`adding`), puts itself on the wait queue, gives
the mutex up (`park`) and then blocks.  `pipe_close` takes no mutex, so a section that looks at the
counts twice is two steps, and so is a close.  A wake-up takes a task from the queue; if the task
has not blocked yet, `task_wakeup` does nothing else, and the task blocks all the same.

The state also carries what the calls wrote and read so far, which the code does not see.
-/

namespace LightOS
namespace Pipe

open Fifo

/-- `PIPE_SIZE`. -/
abbrev pipeSize : ℕ := 4096

/-- What a task inside a call still has to do; `id` numbers the calls of `pipe_write`. -/
inductive Op where
  | read (buffer : ℕ → UInt8) (bytes : UInt32)
  | write (id : ℕ) (buffer : ℕ → UInt8) (left : ℤ) (off : ℕ)

/-- Where a task is: outside, with what its last call returned; before a section; in one, on its way
to the wait queue; on its way to block; or blocked. -/
inductive Pc where
  | outside (ret : ℤ)
  | lock (op : Op)
  | adding (op : Op)
  | park (op : Op)
  | blocked (op : Op)

/-- A read that got data: its arguments, its buffer afterwards, and what it returned. -/
structure ReadResult where
  buffer : ℕ → UInt8
  bytes : UInt32
  after : ℕ → UInt8
  ret : ℕ

/-- The arguments of a write. -/
structure WriteArgs where
  buffer : ℕ → UInt8
  bytes : UInt32

/-- `pipe_t` and the tasks.  `holder` is the task that keeps the mutex between two steps, and `exit`
says whether `exception_cause_exit` holds of a task. -/
structure PipeState where
  fifo : FifoBuf
  readCount : ℤ
  writeCount : ℤ
  rdNowait : Bool
  wrNowait : Bool
  waitQueue : List ℕ
  holder : Option ℕ
  destroyed : Bool
  pc : ℕ → Pc
  exit : ℕ → Bool
  reads : List ReadResult
  writes : List WriteArgs
  puts : List (ℕ × List UInt8)

/-- `create_pipe`; `mem` is the memory the buffer of the fifo lies in. -/
def createPipe (mem : ℕ → UInt8) : PipeState where
  fifo := ⟨mem, 4096, 0, 0⟩
  readCount := 1
  writeCount := 1
  rdNowait := false
  wrNowait := false
  waitQueue := []
  holder := none
  destroyed := false
  pc := fun _ => .outside 0
  exit := fun _ => false
  reads := []
  writes := []
  puts := []

/-! ## The wait queue -/

/-- The call of task `t` returns. -/
def PipeState.leave (s : PipeState) (t : ℕ) (ret : ℤ) : PipeState :=
  { s with pc := Function.update s.pc t (.outside ret) }

/-- The task will wait, and has the mutex. -/
def PipeState.hold (s : PipeState) (t : ℕ) (op : Op) : PipeState :=
  { s with holder := some t, pc := Function.update s.pc t (.adding op) }

/-- `wait_queue_add`, and the mutex is given up. -/
def PipeState.sleep (s : PipeState) (t : ℕ) (op : Op) : PipeState :=
  { s with
    waitQueue := s.waitQueue ++ [t]
    holder := none
    pc := Function.update s.pc t (.park op) }

/-- `task_wakeup`: a task that is blocked goes on. -/
def wakeTask (pc : ℕ → Pc) (t : ℕ) : ℕ → Pc :=
  match pc t with
  | .blocked op => Function.update pc t (.lock op)
  | _ => pc

/-- `wait_queue_wakeup`. -/
def PipeState.wakeup (s : PipeState) : PipeState :=
  match s.waitQueue with
  | [] => s
  | t :: queue => { s with waitQueue := queue, pc := wakeTask s.pc t }

/-! ## Reading -/

/-- The section of `pipe_read`, from the test of the loop to where it would wait. -/
def pipeRead (s : PipeState) (t : ℕ) (buffer : ℕ → UInt8) (bytes : UInt32) : PipeState :=
  if fifoBufLen s.fifo = 0 then
    if s.writeCount ≤ 0 then s.leave t 0
    else if s.rdNowait then s.leave t (-1)
    else if s.exit t then s.leave t (-1)
    else s.hold t (.read buffer bytes)
  else
    let chunk := min (min bytes.toNat pipeSize) (fifoBufLen s.fifo).toNat
    let r := fifoBufGet s.fifo buffer (UInt32.ofNat chunk)
    let s' := { s.leave t r.2.2.toNat with
      fifo := r.1
      reads := s.reads ++ [⟨buffer, bytes, r.2.1, r.2.2.toNat⟩] }
    if 0 < s.writeCount then s'.wakeup else s'

/-! ## Writing -/

/-- `(int) bytes`. -/
def intOfSize (bytes : UInt32) : ℤ :=
  if bytes.toNat < 2147483648 then bytes.toNat else (bytes.toNat : ℤ) - 4294967296

/-- The locals of `pipe_write`, and the bytes put so far in this section. -/
structure Filling where
  fifo : FifoBuf
  left : ℤ
  off : ℕ
  put : List UInt8

/-- The loop of `pipe_write`, until everything is written or the fifo is full.  Each round writes
something, so `left` rounds are enough. -/
def pipeFill (buffer : ℕ → UInt8) : ℕ → Filling → Filling
  | 0, w => w
  | fuel + 1, w =>
      if 0 < w.left ∧ fifoBufAvali w.fifo ≠ 0 then
        let chunk := min (min w.left.toNat pipeSize) (fifoBufAvali w.fifo).toNat
        let r := fifoBufPut w.fifo (fun i => buffer (w.off + i)) (UInt32.ofNat chunk)
        pipeFill buffer fuel
          { fifo := r.1
            left := w.left - r.2.toNat
            off := w.off + r.2.toNat
            put := w.put ++ (List.range r.2.toNat).map fun i => buffer (w.off + i) }
      else w

/-- The section of `pipe_write`, from the test of the loop to where it would wait. -/
def pipeWrite (s : PipeState) (t id : ℕ) (buffer : ℕ → UInt8) (left : ℤ) (off : ℕ) : PipeState :=
  let w := pipeFill buffer left.toNat ⟨s.fifo, left, off, []⟩
  let s' := { s with fifo := w.fifo, puts := s.puts ++ [(id, w.put)] }
  if w.left ≤ 0 then
    let s'' := s'.leave t w.off
    if 0 < s.readCount then s''.wakeup else s''
  else if s.wrNowait ∨ s.exit t then s'.leave t (-1)
  else if s.readCount ≤ 0 then { s'.leave t (-1) with exit := Function.update s.exit t true }
  else s'.hold t (.write id buffer w.left w.off)

/-- The end of a section that waits.  A writer looks at the readers once more, and wakes somebody.
-/
def pipeAdd (s : PipeState) (t : ℕ) (op : Op) : PipeState :=
  match op with
  | .read _ _ => s.sleep t op
  | .write _ _ _ _ => if 0 < s.readCount then s.wakeup.sleep t op else s.sleep t op

/-! ## Steps -/

/-- The calls and steps of the tasks.  `run` is a section, or the rest of one, `block` is
`task_block`; `signal` is an exception sent to a task, which wakes it if it is blocked; `handle` is
the handling of pending exceptions outside the calls; `destroy` is the end of a close. -/
inductive PipeCall where
  | read (t : ℕ) (buffer : Option (ℕ → UInt8)) (bytes : UInt32)
  | write (t : ℕ) (buffer : Option (ℕ → UInt8)) (bytes : UInt32)
  | run (t : ℕ)
  | block (t : ℕ)
  | signal (t : ℕ) (causesExit : Bool)
  | handle (t : ℕ)
  | close (rw : Bool)
  | destroy
  | incref (rw : Bool)
  | ioctl (rw : Bool)

/-- The start of `pipe_read`. -/
def startRead (s : PipeState) (t : ℕ) (buffer : Option (ℕ → UInt8)) (bytes : UInt32) : PipeState :=
  match buffer with
  | none => s.leave t (-1)
  | some buffer =>
      if bytes = 0 ∨ s.destroyed ∨ s.readCount ≤ 0 then s.leave t (-1)
      else { s with pc := Function.update s.pc t (.lock (.read buffer bytes)) }

/-- The start of `pipe_write`. -/
def startWrite (s : PipeState) (t : ℕ) (buffer : Option (ℕ → UInt8)) (bytes : UInt32) : PipeState :=
  match buffer with
  | none => s.leave t (-1)
  | some buffer =>
      if bytes = 0 ∨ s.destroyed ∨ s.writeCount ≤ 0 then s.leave t (-1)
      else if s.readCount ≤ 0 then { s.leave t (-1) with exit := Function.update s.exit t true }
      else
        { s with
          pc := Function.update s.pc t (.lock (.write s.writes.length buffer (intOfSize bytes) 0))
          writes := s.writes ++ [⟨buffer, bytes⟩] }

/-- An exception for task `t`. -/
def signalTask (s : PipeState) (t : ℕ) (causesExit : Bool) : PipeState :=
  let s' := { s with exit := Function.update s.exit t (s.exit t || causesExit) }
  match s.pc t with
  | .blocked op =>
      { s' with waitQueue := s.waitQueue.erase t, pc := Function.update s.pc t (.lock op) }
  | _ => s'

/-- `pipe_close` counts down. -/
def pipeClose (s : PipeState) (rw : Bool) : PipeState :=
  if s.destroyed then s
  else if rw then { s with writeCount := s.writeCount - 1 }
  else { s with readCount := s.readCount - 1 }

/-- The end of `pipe_close`: without any end the pipe is destroyed. -/
def pipeDestroy (s : PipeState) : PipeState :=
  if s.writeCount ≤ 0 ∧ s.readCount ≤ 0 then { s with destroyed := true } else s

/-- `pipe_incref`. -/
def pipeIncref (s : PipeState) (rw : Bool) : PipeState :=
  if s.destroyed then s
  else if rw then { s with writeCount := s.writeCount + 1 }
  else { s with readCount := s.readCount + 1 }

/-- `pipe_ioctl` with `F_SETFL` and `O_NONBLOCK`. -/
def pipeIoctl (s : PipeState) (rw : Bool) : PipeState :=
  if s.destroyed then s
  else if rw then { s with wrNowait := true }
  else { s with rdNowait := true }

/-- Whether the mutex can be taken.  A pipe that was freed is not found, and nobody asks for it. -/
def PipeState.Free (s : PipeState) : Prop := s.destroyed = true ∨ s.holder = none

instance (s : PipeState) : Decidable s.Free :=
  inferInstanceAs (Decidable (s.destroyed = true ∨ s.holder = none))

/-- One step.  After the pipe was freed its sections mean nothing any more. -/
def pipeStep (s : PipeState) : PipeCall → Option PipeState
  | .read t buffer bytes =>
      match s.pc t with
      | .outside _ => some (startRead s t buffer bytes)
      | _ => none
  | .write t buffer bytes =>
      match s.pc t with
      | .outside _ => some (startWrite s t buffer bytes)
      | _ => none
  | .run t =>
      if s.destroyed then none
      else
        match s.pc t with
        | .lock (.read buffer bytes) =>
            if s.holder = none then some (pipeRead s t buffer bytes) else none
        | .lock (.write id buffer left off) =>
            if s.holder = none then some (pipeWrite s t id buffer left off) else none
        | .adding op => some (pipeAdd s t op)
        | _ => none
  | .block t =>
      match s.pc t with
      | .park op => some { s with pc := Function.update s.pc t (.blocked op) }
      | _ => none
  | .signal t causesExit => some (signalTask s t causesExit)
  | .handle t =>
      match s.pc t with
      | .outside _ => some { s with exit := Function.update s.exit t false }
      | _ => none
  | .close rw => some (pipeClose s rw)
  | .destroy => some (pipeDestroy s)
  | .incref rw => if s.Free then some (pipeIncref s rw) else none
  | .ioctl rw => if s.Free then some (pipeIoctl s rw) else none

/-- The steps: what each call needs, and what it does. -/
inductive Moves (s : PipeState) : PipeCall → PipeState → Prop
  | read (t : ℕ) (buffer : Option (ℕ → UInt8)) (bytes : UInt32) (ret : ℤ)
      (hpc : s.pc t = .outside ret) : Moves s (.read t buffer bytes) (startRead s t buffer bytes)
  | write (t : ℕ) (buffer : Option (ℕ → UInt8)) (bytes : UInt32) (ret : ℤ)
      (hpc : s.pc t = .outside ret) : Moves s (.write t buffer bytes) (startWrite s t buffer bytes)
  | runRead (t : ℕ) (buffer : ℕ → UInt8) (bytes : UInt32)
      (hpc : s.pc t = .lock (.read buffer bytes)) (hfree : s.holder = none) :
      Moves s (.run t) (pipeRead s t buffer bytes)
  | runWrite (t id : ℕ) (buffer : ℕ → UInt8) (left : ℤ) (off : ℕ)
      (hpc : s.pc t = .lock (.write id buffer left off)) (hfree : s.holder = none) :
      Moves s (.run t) (pipeWrite s t id buffer left off)
  | add (t : ℕ) (op : Op) (hpc : s.pc t = .adding op) : Moves s (.run t) (pipeAdd s t op)
  | block (t : ℕ) (op : Op) (hpc : s.pc t = .park op) :
      Moves s (.block t) { s with pc := Function.update s.pc t (.blocked op) }
  | signal (t : ℕ) (causesExit : Bool) : Moves s (.signal t causesExit) (signalTask s t causesExit)
  | handle (t : ℕ) (ret : ℤ) (hpc : s.pc t = .outside ret) :
      Moves s (.handle t) { s with exit := Function.update s.exit t false }
  | close (rw : Bool) : Moves s (.close rw) (pipeClose s rw)
  | destroy : Moves s .destroy (pipeDestroy s)
  | incref (rw : Bool) : Moves s (.incref rw) (pipeIncref s rw)
  | ioctl (rw : Bool) : Moves s (.ioctl rw) (pipeIoctl s rw)

theorem moves_of_pipeStep {s s' : PipeState} {call : PipeCall} (hstep : pipeStep s call = some s') :
    Moves s call s' := by
  cases call with
  | read t buffer bytes =>
      cases hpc : s.pc t with
      | outside ret =>
          simp only [pipeStep, hpc, Option.some.injEq] at hstep
          rw [← hstep]
          exact .read t buffer bytes ret hpc
      | lock op => simp [pipeStep, hpc] at hstep
      | adding op => simp [pipeStep, hpc] at hstep
      | park op => simp [pipeStep, hpc] at hstep
      | blocked op => simp [pipeStep, hpc] at hstep
  | write t buffer bytes =>
      cases hpc : s.pc t with
      | outside ret =>
          simp only [pipeStep, hpc, Option.some.injEq] at hstep
          rw [← hstep]
          exact .write t buffer bytes ret hpc
      | lock op => simp [pipeStep, hpc] at hstep
      | adding op => simp [pipeStep, hpc] at hstep
      | park op => simp [pipeStep, hpc] at hstep
      | blocked op => simp [pipeStep, hpc] at hstep
  | run t =>
      rw [pipeStep] at hstep
      by_cases hgone : s.destroyed = true
      · rw [if_pos hgone] at hstep
        cases hstep
      rw [if_neg hgone] at hstep
      cases hpc : s.pc t with
      | lock op =>
          cases op with
          | read buffer bytes =>
              simp only [hpc] at hstep
              split_ifs at hstep with hfree
              cases hstep
              exact .runRead t buffer bytes hpc hfree
          | write id buffer left off =>
              simp only [hpc] at hstep
              split_ifs at hstep with hfree
              cases hstep
              exact .runWrite t id buffer left off hpc hfree
      | adding op =>
          simp only [hpc, Option.some.injEq] at hstep
          rw [← hstep]
          exact .add t op hpc
      | outside ret => simp [hpc] at hstep
      | park op => simp [hpc] at hstep
      | blocked op => simp [hpc] at hstep
  | block t =>
      cases hpc : s.pc t with
      | park op =>
          simp only [pipeStep, hpc, Option.some.injEq] at hstep
          rw [← hstep]
          exact .block t op hpc
      | outside ret => simp [pipeStep, hpc] at hstep
      | lock op => simp [pipeStep, hpc] at hstep
      | adding op => simp [pipeStep, hpc] at hstep
      | blocked op => simp [pipeStep, hpc] at hstep
  | signal t causesExit =>
      rw [pipeStep, Option.some.injEq] at hstep
      rw [← hstep]
      exact .signal t causesExit
  | handle t =>
      cases hpc : s.pc t with
      | outside ret =>
          simp only [pipeStep, hpc, Option.some.injEq] at hstep
          rw [← hstep]
          exact .handle t ret hpc
      | lock op => simp [pipeStep, hpc] at hstep
      | adding op => simp [pipeStep, hpc] at hstep
      | park op => simp [pipeStep, hpc] at hstep
      | blocked op => simp [pipeStep, hpc] at hstep
  | close rw =>
      rw [pipeStep, Option.some.injEq] at hstep
      rw [← hstep]
      exact .close rw
  | destroy =>
      rw [pipeStep, Option.some.injEq] at hstep
      rw [← hstep]
      exact .destroy
  | incref rw =>
      rw [pipeStep] at hstep
      split_ifs at hstep
      cases hstep
      exact .incref rw
  | ioctl rw =>
      rw [pipeStep] at hstep
      split_ifs at hstep
      cases hstep
      exact .ioctl rw

end Pipe
end LightOS
