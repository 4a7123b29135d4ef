import Mathlib

/-!
# Reader-writer locks: the model

`xbook/rwlock.h`.  A function of the header is the list of the steps it makes: operations on the
three mutexes and accesses to `count`.  A mutex is taken or free; who gives it back need not be the
task that took it.  Any number of tasks lock and unlock for reading or for writing, one step at a
time in any order.
-/

namespace LightOS
namespace RwLock

/-- `enum rwlock_arg`. -/
inductive RwlockArg where
  | rdFirst
  | wrFirst
  | rwFair
  deriving DecidableEq, Repr

/-- The mutexes of a `rwlock_t`. -/
inductive RwMutex where
  | countMutex
  | rwMutex
  | writeMutex
  deriving DecidableEq, Repr

/-- One step: `mutex_lock`, `mutex_unlock`, the test of `count` before another step, and the updates
of `count`. -/
inductive RwInstr where
  | lock (m : RwMutex)
  | unlock (m : RwMutex)
  | ifZero (i : RwInstr)
  | inc
  | dec
  deriving DecidableEq, Repr

/-- The four functions of a policy. -/
inductive RwOp where
  | readLock
  | readUnlock
  | writeLock
  | writeUnlock
  deriving DecidableEq, Repr

/-- The steps of `__rwlock_read_lock_*`, `__rwlock_read_unlock_*`, `__rwlock_write_lock_*` and
`__rwlock_write_unlock_*`. -/
def code : RwlockArg → RwOp → List RwInstr
  | .rdFirst, .readLock =>
      [.lock .countMutex, .ifZero (.lock .rwMutex), .inc, .unlock .countMutex]
  | .wrFirst, .readLock | .rwFair, .readLock =>
      [.lock .writeMutex, .lock .countMutex, .ifZero (.lock .rwMutex), .inc, .unlock .countMutex,
        .unlock .writeMutex]
  | _, .readUnlock =>
      [.lock .countMutex, .dec, .ifZero (.unlock .rwMutex), .unlock .countMutex]
  | .rdFirst, .writeLock => [.lock .rwMutex]
  | .wrFirst, .writeLock => [.lock .writeMutex, .lock .rwMutex]
  | .rwFair, .writeLock => [.lock .writeMutex, .lock .rwMutex, .unlock .writeMutex]
  | .rdFirst, .writeUnlock | .rwFair, .writeUnlock => [.unlock .rwMutex]
  | .wrFirst, .writeUnlock => [.unlock .rwMutex, .unlock .writeMutex]

/-- Where a task is: outside, with the lock for reading or for writing, or inside a function with
steps left to make. -/
inductive RwPc where
  | idle
  | reading
  | writing
  | run (op : RwOp) (rest : List RwInstr)
  deriving DecidableEq, Repr

/-- Where a task is when a function has returned. -/
def returned : RwOp → RwPc
  | .readLock => .reading
  | .writeLock => .writing
  | .readUnlock | .writeUnlock => .idle

/-- Where a task is with the steps `rest` left. -/
def goOn (op : RwOp) : List RwInstr → RwPc
  | [] => returned op
  | i :: rest => .run op (i :: rest)

/-- `rwlock_t` and the tasks. -/
structure RwState where
  count : ℤ
  locked : RwMutex → Bool
  pc : ℕ → RwPc

/-- One step of the function a task is in; `none` if it has to wait. -/
def instrStep (s : RwState) (t : ℕ) (op : RwOp) (rest : List RwInstr) : RwInstr → Option RwState
  | .lock m =>
      if s.locked m then none
      else some { s with locked := Function.update s.locked m true
                         pc := Function.update s.pc t (goOn op rest) }
  | .unlock m =>
      some { s with locked := Function.update s.locked m false
                    pc := Function.update s.pc t (goOn op rest) }
  | .ifZero i =>
      some { s with pc := Function.update s.pc t (if s.count = 0 then .run op (i :: rest)
                                                  else goOn op rest) }
  | .inc => some { s with count := s.count + 1, pc := Function.update s.pc t (goOn op rest) }
  | .dec => some { s with count := s.count - 1, pc := Function.update s.pc t (goOn op rest) }

/-- A task makes a step: outside it begins to lock, for reading if `reads` says so; with the lock it
begins to unlock. -/
def taskStep (arg : RwlockArg) (s : RwState) (t : ℕ) (reads : Bool) : Option RwState :=
  match s.pc t with
  | .idle =>
      let op := if reads then RwOp.readLock else RwOp.writeLock
      some { s with pc := Function.update s.pc t (.run op (code arg op)) }
  | .reading =>
      some { s with pc := Function.update s.pc t (.run .readUnlock (code arg .readUnlock)) }
  | .writing =>
      some { s with pc := Function.update s.pc t (.run .writeUnlock (code arg .writeUnlock)) }
  | .run op (i :: rest) => instrStep s t op rest i
  | .run _ [] => none

/-- A step of a run. -/
def rwStep (arg : RwlockArg) (s : RwState) (c : ℕ × Bool) : Option RwState := taskStep arg s c.1 c.2

/-- `rwlock_init`. -/
def rwlockInit : RwState where
  count := 0
  locked := fun _ => false
  pc := fun _ => .idle

end RwLock
end LightOS
