import Mathlib

/-!
# Mutexes and condition variables: the model

`libs/pthread/pthread_mutex.c`, `pthread_cond.c` and `pthread_spinlock.c`, with the system calls of
`src/task/mutexqueue.c` they make, for one mutex and one condition variable.  A function is the code
`Code` of the accesses it makes to the two objects: an atomic instruction, a plain load or store,
or a system call is one step.  Any number of threads call the functions, one step at a time in any
order.

The atomic exchange of the C library loads only the low half of the register it exchanges, so what
it stores also depends on what its caller left there.

`setter`, `depth`, `seen` and the times are written by the steps and read by none.
-/

namespace LightOS
namespace Pthread

/-- `MUTEX_QUEUE_NR_MAX`. -/
abbrev mutexQueueNrMax : ℕ := 128

/-- `EPERM`. -/
abbrev eperm : ℕ := 1

/-- `ENOMEM`. -/
abbrev enomem : ℕ := 12

/-- `EFAULT`. -/
abbrev efault : ℕ := 14

/-- `EBUSY`. -/
abbrev ebusy : ℕ := 16

/-- `EINVAL`. -/
abbrev einval : ℕ := 22

/-- `EDEADLK`. -/
abbrev edeadlk : ℕ := 36

/-- `ETIMEDOUT`. -/
abbrev etimedout : ℕ := 138

/-- What `mem_xchg32` stores when its caller has `ebx` in the register. -/
def memXchg32 (ebx value : UInt32) : UInt32 := (ebx &&& 0xffff0000) ||| (value &&& 0xffff)

/-- An `int` after an addition. -/
def wrapInt (v : ℤ) : ℤ := v.bmod 4294967296

/-- The two objects. -/
inductive Obj where
  | mutex
  | cond
  deriving DecidableEq, Repr

/-- The kinds of a mutex. -/
inductive MutexKind where
  | normal
  | errorcheck
  | recursive
  deriving DecidableEq, Repr

/-! ## Code -/

/-- The conditions the code tests. -/
inductive Test where
  | queueUnset (o : Obj)
  | queueBad
  | ownerSet
  | ownerSelf
  | countPos
  | unlocked
  deriving DecidableEq, Repr

/-- One step: `pthread_spin_unlock`, a store to a field of the mutex, `mutex_queue_alloc` and the
store of what it returned, the load of a handle for a system call, and the system calls. -/
inductive Instr where
  | spinUnlock (o : Obj)
  | freeLock
  | takeLock
  | setOwner (self : Bool)
  | incCount
  | decCount
  | alloc
  | setQueue
  | arg (o : Obj)
  | wait (o : Obj) (timed : Bool)
  | wake (o : Obj) (all : Bool)
  deriving DecidableEq, Repr

/-- What a thread has left to do of a function.  `body` goes to what follows the set-up of the
queue, `spinLock` is `pthread_spin_lock`, and `xchgLock` is `test_and_set(&mutex->lock, 0)` with
what follows when the lock was taken and when it was free. -/
inductive Code where
  | ret (status : ℕ)
  | body
  | spinLock (o : Obj) (next : Code)
  | xchgLock (busy free : Code)
  | ite (c : Test) (yes no : Code)
  | act (i : Instr) (next : Code)
  deriving DecidableEq, Repr

/-- The calls, and the parts of `pthread_cond_wait` and `pthread_cond_timedwait`: they unlock the
mutex, sleep, and lock the mutex again, with the status of the sleep. -/
inductive Op where
  | lock
  | trylock
  | unlock
  | wait (timed : Bool)
  | waitUnlock (timed : Bool)
  | waitSleep (timed : Bool)
  | waitLock (timed : Bool) (retval : ℕ)
  | signal (all : Bool)
  deriving DecidableEq, Repr

/-- Give the spin lock up and return. -/
def leave (status : ℕ) : Code := .act (.spinUnlock .mutex) (.ret status)

/-- The beginning of `pthread_mutex_lock` and `pthread_mutex_unlock`. -/
def setUp : Code :=
  .ite (.queueUnset .mutex)
    (.act .alloc (.act .setQueue (.ite .queueBad (.ret enomem) .body)))
    .body

/-- The end of a round of `pthread_mutex_lock`: take the lock, or sleep and begin again. -/
def take : Code :=
  .xchgLock (.act (.arg .mutex) (.act (.wait .mutex false) .body))
    (.act .takeLock (.act (.setOwner true) (leave 0)))

/-- A round of `pthread_mutex_lock`. -/
def lockBody : MutexKind → Code
  | .normal => .spinLock .mutex take
  | .errorcheck =>
      .spinLock .mutex (.ite .ownerSet (.ite .ownerSelf (leave edeadlk) (leave eperm)) take)
  | .recursive =>
      .spinLock .mutex
        (.ite .ownerSet (.ite .ownerSelf (.act .incCount (leave 0)) (leave eperm))
          (.ite .countPos (leave edeadlk) take))

/-- The end of `pthread_mutex_unlock`. -/
def release : Code :=
  .act .freeLock (.act (.setOwner false) (.act (.arg .mutex) (.act (.wake .mutex false) (leave 0))))

/-- `pthread_mutex_unlock` after the set-up. -/
def unlockBody : MutexKind → Code
  | .normal => .spinLock .mutex release
  | .errorcheck => .spinLock .mutex (.ite .unlocked (leave eperm) release)
  | .recursive =>
      .spinLock .mutex
        (.ite .unlocked (leave eperm)
          (.ite .ownerSet
            (.ite .ownerSelf (.ite .countPos (.act .decCount (leave 0)) release) release)
            release))

/-- `pthread_mutex_trylock`. -/
def trylockBody : MutexKind → Code
  | .normal =>
      .spinLock .mutex
        (.xchgLock (leave ebusy) (.act .takeLock (.act (.setOwner true) (leave 0))))
  | .errorcheck =>
      .spinLock .mutex
        (.ite .ownerSet (.ite .ownerSelf (leave edeadlk) (leave eperm))
          (.spinLock .mutex
            (.xchgLock (leave ebusy) (.act (.setOwner true) (.act .takeLock (leave 0))))))
  | .recursive =>
      .spinLock .mutex
        (.ite .ownerSet (.ite .ownerSelf (.act .incCount (leave 0)) (leave eperm))
          (.spinLock .mutex
            (.xchgLock (leave ebusy) (.act (.setOwner true) (.act .takeLock (leave 0))))))

/-- Where a call, or a part of one, begins. -/
def entry (kind : MutexKind) : Op → Code
  | .lock | .unlock | .waitUnlock _ | .waitLock _ _ => setUp
  | .trylock => trylockBody kind
  | .wait _ => .ite (.queueUnset .cond) (.ret einval) (.spinLock .cond .body)
  | .waitSleep timed => .act (.arg .cond) (.act (.wait .cond timed) (.ret 0))
  | .signal all =>
      .ite (.queueUnset .cond) (.ret einval)
        (.spinLock .cond
          (.act (.arg .cond) (.act (.wake .cond all) (.act (.spinUnlock .cond) (.ret 0)))))

/-- Where a thread is.  A thread that sleeps in a system call goes on with `code`. -/
inductive Pc where
  | out
  | run (op : Op) (code : Code)
  | asleep (o : Obj) (op : Op) (code : Code)
  | ret (op : Op) (status : ℕ)
  | exited
  deriving DecidableEq, Repr

/-- What follows the set-up of the queue, or the beginning of a wait. -/
def bodyOf (kind : MutexKind) : Op → Pc
  | .lock => .run .lock (lockBody kind)
  | .waitLock timed retval => .run (.waitLock timed retval) (lockBody kind)
  | .unlock => .run .unlock (unlockBody kind)
  | .waitUnlock timed => .run (.waitUnlock timed) (unlockBody kind)
  | .wait timed => .run (.waitUnlock timed) setUp
  | op => .run op (entry kind op)

/-- What follows the return of a call, or of a part of one. -/
def returned (status : ℕ) : Op → Pc
  | .waitUnlock timed => .run (.waitSleep timed) (entry .normal (.waitSleep timed))
  | .waitSleep timed => .run (.waitLock timed status) setUp
  | .waitLock timed retval => .ret (.wait timed) (if timed then retval else 0)
  | op => .ret op status

/-- Where a thread is with `code` left to do. -/
def goOn (kind : MutexKind) (op : Op) : Code → Pc
  | .ret status => returned status op
  | .body => bodyOf kind op
  | code => .run op code

/-! ## State -/

/-- The fields of the mutex, the queue and the spin lock of each object, the used entries of
`mutex_queue_head` with their wait lists, and the threads: the handle they have loaded and their
flags. -/
structure PState where
  lock : UInt32
  count : ℤ
  owner : ℕ
  kind : MutexKind
  queue : Obj → ℤ
  spin : Obj → UInt32
  slots : ℕ → Option (List ℕ)
  pc : ℕ → Pc
  handle : ℕ → ℤ
  canceled : ℕ → Bool
  cancelDisable : ℕ → Bool
  /-- The thread that has last found the mutex without a queue and has not stored one. -/
  setter : Option ℕ
  /-- How often the thread has taken the lock and not freed it. -/
  depth : ℕ → ℕ
  /-- `lock`, `owner` and `count` when the thread took the spin lock of the mutex. -/
  seen : ℕ → UInt32 × ℕ × ℤ
  now : ℕ
  /-- When the thread last went to sleep. -/
  queuedAt : ℕ → ℕ
  /-- When the thread last freed the lock, in the call it has made last. -/
  releasedAt : ℕ → Option ℕ
  /-- When a signal last took the spin lock of the condition variable. -/
  signaledAt : ℕ

/-- The thread goes on with `code`. -/
def PState.goto (s : PState) (t : ℕ) (op : Op) (code : Code) : PState :=
  { s with pc := Function.update s.pc t (goOn s.kind op code) }

/-- What a test finds. -/
def PState.test (s : PState) (t : ℕ) : Test → Bool
  | .queueUnset o => s.queue o = -1
  | .queueBad => s.queue .mutex < 0
  | .ownerSet => 0 < s.owner
  | .ownerSelf => s.owner = t
  | .countPos => 0 < s.count
  | .unlocked => s.lock = 1

/-! ## System calls -/

/-- What `sys_mutex_queue_alloc` finds with the entries `others` in use by other programs: the first
entry that is free. -/
def PState.firstFree (s : PState) (others : List ℕ) : Option ℕ :=
  (List.range mutexQueueNrMax).find? fun i => s.slots i = none ∧ i ∉ others

/-- `sys_mutex_queue_alloc`. -/
def PState.mutexQueueAlloc (s : PState) (others : List ℕ) : PState × ℤ :=
  match s.firstFree others with
  | some i => ({ s with slots := Function.update s.slots i (some []) }, i)
  | none => (s, -enomem)

/-- The entry a handle stands for; `none` if the handle is bad. -/
def entryOf (handle : ℤ) : Option ℕ :=
  if 0 ≤ handle ∧ handle < mutexQueueNrMax then some handle.toNat else none

/-- What follows a wait: `pthread_mutex_lock` takes no notice of its status. -/
def afterWait (status : ℕ) (next : Code) : Obj → Code
  | .mutex => next
  | .cond => .ret status

/-- What a timed wait finds in its argument: nothing it can read, no time left, or some. -/
inductive Time where
  | fault
  | late
  | left
  deriving DecidableEq, Repr

/-- `sys_mutex_queue_wait` with the address of the spin lock of `o` and `MUTEX_QUEUE_ZERO`. -/
def PState.mutexQueueWait (s : PState) (t : ℕ) (o : Obj) (timed : Bool) (time : Time) (op : Op)
    (next : Code) : PState :=
  match entryOf (s.handle t) with
  | none => s.goto t op (afterWait einval next o)
  | some i =>
      if s.cancelDisable t = false ∧ s.canceled t = true then
        { s with pc := Function.update s.pc t .exited }
      else
        match s.slots i with
        | none => s.goto t op (afterWait 0 next o)
        | some waiters =>
            let s := { s with spin := Function.update s.spin o 0 }
            if timed = true ∧ time = .fault then s.goto t op (afterWait efault next o)
            else if timed = true ∧ time = .late then s.goto t op (afterWait etimedout next o)
            else
              { s with
                slots := Function.update s.slots i (some (waiters ++ [t]))
                pc := Function.update s.pc t (.asleep o op next)
                queuedAt := Function.update s.queuedAt t s.now }

/-- Where a thread is when it has been woken. -/
def wokenPc (kind : MutexKind) : Pc → Pc
  | .asleep o op next => goOn kind op (afterWait 0 next o)
  | p => p

/-- The waiters `sys_mutex_queue_wake` wakes. -/
def toWake (all : Bool) (waiters : List ℕ) : List ℕ := if all then waiters else waiters.take 1

/-- The waiters `sys_mutex_queue_wake` leaves. -/
def toLeave (all : Bool) (waiters : List ℕ) : List ℕ := if all then [] else waiters.drop 1

/-- `sys_mutex_queue_wake` without an address. -/
def PState.mutexQueueWake (s : PState) (t : ℕ) (all : Bool) : PState :=
  match entryOf (s.handle t) with
  | none => s
  | some i =>
      match s.slots i with
      | none => s
      | some waiters =>
          { s with
            slots := Function.update s.slots i (some (toLeave all waiters))
            pc := fun u => if u ∈ toWake all waiters then wokenPc s.kind (s.pc u) else s.pc u }

/-- The end of a timed sleep: the thread takes itself off the wait list. -/
def PState.sleepOver (s : PState) (t : ℕ) : PState :=
  match entryOf (s.handle t) with
  | none => s
  | some i =>
      { s with slots := Function.update s.slots i
                ((s.slots i).map fun waiters : List ℕ => waiters.filter (· ≠ t)) }

/-! ## Steps -/

/-- What a step depends on beside the state: the register of the thread at an exchange, the entries
in use by other programs, and the argument of a timed wait. -/
structure Input where
  ebx : UInt32
  others : List ℕ
  time : Time
  deriving DecidableEq, Repr

/-- One step of a function. -/
def PState.instrStep (s : PState) (t : ℕ) (input : Input) (op : Op) (next : Code) : Instr → PState
  | .spinUnlock o => { s with spin := Function.update s.spin o (s.spin o - 1) }.goto t op next
  | .freeLock =>
      { s with
        lock := 1
        depth := Function.update s.depth t (s.depth t - 1)
        releasedAt := Function.update s.releasedAt t (some s.now) }.goto t op next
  | .takeLock => { s with lock := 0 }.goto t op next
  | .setOwner self => { s with owner := if self then t else 0 }.goto t op next
  | .incCount =>
      { s with
        count := wrapInt (s.count + 1)
        depth := Function.update s.depth t (s.depth t + 1) }.goto t op next
  | .decCount =>
      { s with
        count := wrapInt (s.count - 1)
        depth := Function.update s.depth t (s.depth t - 1) }.goto t op next
  | .alloc =>
      let (s, i) := s.mutexQueueAlloc input.others
      { s with handle := Function.update s.handle t i }.goto t op next
  | .setQueue =>
      { s with queue := Function.update s.queue .mutex (s.handle t), setter := none }.goto t op next
  | .arg o => { s with handle := Function.update s.handle t (s.queue o) }.goto t op next
  | .wait o timed => s.mutexQueueWait t o timed input.time op next
  | .wake _ all => (s.mutexQueueWake t all).goto t op next

/-- What a thread notes when it has taken a spin lock. -/
def PState.noteSpin (s : PState) (t : ℕ) (op : Op) : Obj → PState
  | .mutex => { s with seen := Function.update s.seen t (s.lock, s.owner, s.count) }
  | .cond =>
      match op with
      | .signal _ => { s with signaledAt := s.now }
      | _ => s

/-- What a thread notes when a test succeeds. -/
def PState.noteTest (s : PState) (t : ℕ) : Test → PState
  | .queueUnset .mutex => { s with setter := some t }
  | _ => s

/-- A step of the thread `t`, which has `code` left to do. -/
def PState.codeStep (s : PState) (t : ℕ) (input : Input) (op : Op) : Code → PState
  | .ret status => s.goto t op (.ret status)
  | .body => s.goto t op .body
  | .spinLock o next =>
      let s' := { s with spin := Function.update s.spin o (memXchg32 input.ebx 1) }
      if s.spin o = 1 then s' else (s'.noteSpin t op o).goto t op next
  | .xchgLock busy free =>
      let s' := { s with lock := memXchg32 input.ebx 0 }
      if s.lock = 0 then s'.goto t op busy
      else { s' with depth := Function.update s.depth t (s.depth t + 1) }.goto t op free
  | .ite c yes no => if s.test t c then (s.noteTest t c).goto t op yes else s.goto t op no
  | .act i next => s.instrStep t input op next i

/-- What happens: a thread makes a call or a step, the time of a thread that sleeps is over, a
thread is cancelled, or it says whether it can be. -/
inductive Event where
  | call (t : ℕ) (op : Op)
  | run (t : ℕ) (input : Input)
  | timeout (t : ℕ)
  | cancel (t : ℕ)
  | setCancelState (t : ℕ) (disable : Bool)
  deriving DecidableEq, Repr

/-- The calls of the library. -/
def Op.isCall : Op → Bool
  | .lock | .trylock | .unlock | .wait _ | .signal _ => true
  | .waitUnlock _ | .waitSleep _ | .waitLock _ _ => false

/-- One event, without the clock.  A thread has a number that is not zero. -/
def PState.event (s : PState) : Event → Option PState
  | .call t op =>
      if s.pc t = .out ∧ 0 < t ∧ op.isCall = true then
        some { s with pc := Function.update s.pc t (.run op (entry s.kind op))
                      releasedAt := Function.update s.releasedAt t none }
      else none
  | .run t input =>
      match s.pc t with
      | .run op code => some (s.codeStep t input op code)
      | .ret _ _ => some { s with pc := Function.update s.pc t .out }
      | _ => none
  | .timeout t =>
      match s.pc t with
      | .asleep o (.waitSleep true) next =>
          some ((s.sleepOver t).goto t (.waitSleep true) (afterWait etimedout next o))
      | _ => none
  | .cancel t =>
      if s.pc t = .exited then none
      else some { s with canceled := Function.update s.canceled t true }
  | .setCancelState t disable =>
      if s.pc t = .out then
        some { s with cancelDisable := Function.update s.cancelDisable t disable }
      else none

/-- One event. -/
def pthreadStep (s : PState) (e : Event) : Option PState :=
  (s.event e).map fun s' => { s' with now := s.now + 1 }

/-! ## Initialisation -/

/-- `PTHREAD_MUTEX_INITIALIZER` and `PTHREAD_COND_INITIALIZER`. -/
def initializer : PState where
  lock := 1
  count := 0
  owner := 0
  kind := .normal
  queue := fun _ => -1
  spin := fun _ => 0
  slots := fun _ => none
  pc := fun _ => .out
  handle := fun _ => 0
  canceled := fun _ => false
  cancelDisable := fun _ => false
  setter := none
  depth := fun _ => 0
  seen := fun _ => (1, 0, 0)
  now := 0
  queuedAt := fun _ => 0
  releasedAt := fun _ => none
  signaledAt := 0

/-- `pthread_mutex_init`, with the state and the status it leaves. -/
def pthreadMutexInit (s : PState) (kind : MutexKind) (others : List ℕ) : PState × ℕ :=
  let (s, i) := { s with lock := 1, count := 0, owner := 0, kind := kind,
                         spin := Function.update s.spin .mutex 0 }.mutexQueueAlloc others
  ({ s with queue := Function.update s.queue .mutex i }, if i < 0 then enomem else 0)

/-- `pthread_cond_init`, with the state and the status it leaves. -/
def pthreadCondInit (s : PState) (others : List ℕ) : PState × ℕ :=
  let (s, i) := { s with spin := Function.update s.spin .cond 0 }.mutexQueueAlloc others
  ({ s with queue := Function.update s.queue .cond i }, if i < 0 then enomem else 0)

end Pthread
end LightOS
