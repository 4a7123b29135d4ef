import Mathlib

/-!
# User semaphores: the model

`libs/pthread/semaphore.c`, for a semaphore that `sem_init` has set up.  Its mutex has at most one
holder.  A thread that waits for its condition variable has given the mutex up; it may be woken at
any time after a signal was meant for it, and a wait may also be interrupted or, if it is a timed
one, end by a timeout.  Each access to the semaphore is a step of its own.

`posts` and `taken` count the increments and the decrements; nothing reads them.
-/

namespace LightOS
namespace Sem

/-- `SEM_VALUE_MAX`. -/
abbrev semValueMax : ℤ := 2147483647

/-- `EINTR`. -/
abbrev eintr : ℕ := 4

/-- `EAGAIN`. -/
abbrev eagain : ℕ := 11

/-- `EOVERFLOW`. -/
abbrev eoverflow : ℕ := 132

/-- `ETIMEDOUT`. -/
abbrev etimedout : ℕ := 138

/-- An `int` after an addition. -/
def wrapInt (v : ℤ) : ℤ := v.bmod 4294967296

/-- The calls. -/
inductive SemCall where
  | wait
  | timedwait
  | trywait
  | post
  deriving DecidableEq, Repr

/-- Where a thread is.  `status` is the variable of that name, and `took` says whether the call took
one from the value. -/
inductive SemPc where
  | out
  | lock (c : SemCall)
  | test (c : SemCall) (status : ℕ)
  | waiting (c : SemCall)
  | relock (c : SemCall) (status : ℕ)
  | leave (c : SemCall) (status : ℕ)
  | decrement (c : SemCall) (status : ℕ)
  | increment
  | unlock (c : SemCall) (status : ℕ) (took : Bool)
  | signal
  | check
  | ret (c : SemCall) (status : ℕ) (took : Bool)
  deriving DecidableEq, Repr

/-- `sem_t` and the threads.  `waiters` are those that wait and have not been signalled. -/
structure SemState where
  value : ℤ
  holder : Option ℕ
  waiters : List ℕ
  pc : ℕ → SemPc
  posts : ℕ
  taken : ℕ

/-- The thread goes on at `p`. -/
def SemState.goto (s : SemState) (t : ℕ) (p : SemPc) : SemState :=
  { s with pc := Function.update s.pc t p }

/-- What a call returns for the status it ends with; `sem_trywait` renames one value. -/
def result : SemCall → ℕ → ℕ
  | .trywait, status => if status = etimedout then eagain else status
  | _, status => status

/-- A step of a thread that depends on nothing but the semaphore; `none` if it has to wait. -/
def runStep (s : SemState) (t : ℕ) : Option SemState :=
  match s.pc t with
  | .lock c =>
      if s.holder = none then
        some ({ s with holder := some t }.goto t
          (if c = SemCall.post then .increment else .test c 0))
      else none
  | .test c status =>
      if s.value ≤ 0 then
        -- the wait of `sem_trywait` has no time to wait, so it is over before a signal can be
        -- meant for it
        some ({ s with holder := none,
                       waiters := if c = SemCall.trywait then s.waiters
                         else s.waiters ++ [t] }.goto t
          (.waiting c))
      else some (s.goto t (.leave c status))
  | .relock c status =>
      if s.holder = none then
        -- `sem_wait` looks at the value again, a timed wait only after an interruption
        some ({ s with holder := some t }.goto t
          (if c = SemCall.wait ∨ status = eintr then .test c status else .leave c status))
      else none
  | .leave c status =>
      some (s.goto t
        (if c = SemCall.wait ∨ status = 0 then .decrement c status else .unlock c status false))
  | .decrement c status =>
      some ({ s with value := wrapInt (s.value - 1), taken := s.taken + 1 }.goto t
        (.unlock c status true))
  | .increment =>
      some ({ s with value := wrapInt (s.value + 1), posts := s.posts + 1 }.goto t
        (.unlock .post 0 false))
  | .unlock c status took =>
      some ({ s with holder := none }.goto t
        (if c = SemCall.post then .signal else .ret c (result c status) took))
  | .check => some (s.goto t (.ret .post (if semValueMax < s.value then eoverflow else 0) false))
  | .ret _ _ _ => some (s.goto t .out)
  | .out | .waiting _ | .signal => none

/-- What the wait of a call can end with: `pthread_cond_wait` returns zero whatever ended it, a wait
without time is over at once. -/
def MayEnd : SemCall → ℕ → Prop
  | .wait, status => status = 0
  | .trywait, status => status = etimedout
  | _, _ => True

instance : ∀ c status, Decidable (MayEnd c status)
  | .wait, _ | .trywait, _ => inferInstanceAs (Decidable (_ = _))
  | .timedwait, _ | .post, _ => isTrue trivial

/-- A wait of a thread ends with a status. -/
def endWait (s : SemState) (t status : ℕ) : Option SemState :=
  match s.pc t with
  | .waiting c =>
      if MayEnd c status then
        some ({ s with waiters := s.waiters.filter (· ≠ t) }.goto t (.relock c status))
      else none
  | _ => none

/-- What happens: a thread makes a call or a step, a post signals a waiter if there is one, a waiter
that was signalled is woken, its time is over, or it is interrupted. -/
inductive SemEvent where
  | call (t : ℕ) (c : SemCall)
  | run (t : ℕ)
  | signal (t : ℕ) (waiter : Option ℕ)
  | wake (t : ℕ)
  | timeout (t : ℕ)
  | interrupt (t : ℕ) (noticed : Bool)
  deriving DecidableEq, Repr

/-- One event.  A timed wait that is interrupted may take no notice of it. -/
def semStep (s : SemState) : SemEvent → Option SemState
  | .call t c => if s.pc t = .out then some (s.goto t (.lock c)) else none
  | .run t => runStep s t
  | .signal t none => if s.pc t = .signal ∧ s.waiters = [] then some (s.goto t .check) else none
  | .signal t (some u) =>
      if s.pc t = .signal ∧ u ∈ s.waiters then
        some ({ s with waiters := s.waiters.filter (· ≠ u) }.goto t .check)
      else none
  | .wake t => if t ∈ s.waiters then none else endWait s t 0
  | .timeout t => endWait s t etimedout
  | .interrupt t noticed => endWait s t (if noticed then eintr else 0)

/-- `sem_init`. -/
def semInit (value : ℕ) : Option SemState :=
  if semValueMax < value then none
  else some
    { value := value
      holder := none
      waiters := []
      pc := fun _ => .out
      posts := 0
      taken := 0 }

end Sem
end LightOS
