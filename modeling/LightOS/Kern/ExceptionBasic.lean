import LightOS.Kern.Safety
import LightOS.Lib.Places
import LightOS.Task.WaitQueueBasic

/-!
# Exceptions: the model

`kernel/exception.c`: the exception managers of the tasks and the records they keep.  A
record is named by its place in memory; `live` tells which places are allocated.  A manager
has two lists of records, the exceptions the kernel handles and those the user has asked
to catch, and the functions that come in pairs for the two are one definition with the
list as a parameter.

What runs under the manager's lock is one step.  `exception_force` takes the lock twice and
is two steps, `exception_check_kernel` one for each turn of its loop, and
`exception_check_user` two, since it reads and frees the record after it has dropped the
lock.  `exception_copy` runs without the lock and goes from record to record.  Waking the
target is the scheduler's part and not in here.

`sent` and `consumed` record what was put on each list and what was taken off it to be
handled; nothing reads them.
-/

namespace LightOS
namespace Exceptions

open WaitQueue (ExceptionManager exceptionWasBlocked exceptionCanCatch expCodeFinalhit
  expCodeStop expCodeCont expCodeMaxNr)

/-! ## State -/

/-- A place in memory that can hold a record: they are 32 bytes apart. -/
abbrev ExpPtr := Fin 134217728

/-- The fields of an `exception_t` besides its link. -/
structure Exp where
  code : ℕ
  source : ℕ
  flags : ℕ
  deriving DecidableEq, Repr

/-- The two lists, `exception_list` and `catch_list`. -/
inductive Kind where
  | normal
  | caught
  deriving DecidableEq, Repr

/-- `exception_manager_t`: the masks and `in_user_mode`, the two lists with
`exception_number` and `catch_number`, and the handlers, with 0 for `NULL`. -/
structure Manager extends ExceptionManager where
  list : Kind → List ExpPtr
  number : Kind → ℕ
  handlers : ℕ → ℕ

/-- Where the task of a manager is in the code that works on it. -/
inductive Pos where
  | out
  /-- In the loop of `exception_check_kernel`. -/
  | inKernel
  /-- In `exception_check_user`, with the record it has taken off the list. -/
  | inUser (r : ExpPtr)
  /-- In `exception_copy` to another manager, at a record of a list. -/
  | inCopy (dest : ℕ) (k : Kind) (i : ℕ)
  deriving DecidableEq, Repr

/-- The managers of all tasks, where the tasks are, and the memory of the records. -/
structure ExcState where
  mgr : ℕ → Manager
  pos : ℕ → Pos
  live : ExpPtr → Bool
  recs : ExpPtr → Exp
  sent : ℕ → Kind → List Exp
  consumed : ℕ → Kind → List Exp

/-- `EPERM`, `ESRCH`, `ENOMEM`, `EINVAL`. -/
abbrev eperm : ℤ := 1
abbrev esrch : ℤ := 3
abbrev enomem : ℤ := 12
abbrev einval : ℤ := 22

/-- A manager changes. -/
def ExcState.setMgr (s : ExcState) (t : ℕ) (m : Manager) : ExcState :=
  { s with mgr := Function.update s.mgr t m }

/-- The task goes to another place. -/
def ExcState.goto (s : ExcState) (t : ℕ) (p : Pos) : ExcState :=
  { s with pos := Function.update s.pos t p }

/-! ## Records -/

/-- `exception_manager_init`, over what the memory held: its loop runs over the words of the
masks, which is one, and so it clears the handler of the first code only. -/
def exceptionManagerInit (m : Manager) : Manager where
  exceptionBlock := fun _ => false
  exceptionCatch := fun _ => false
  inUserMode := false
  list := fun _ => []
  number := fun _ => 0
  handlers := Function.update m.handlers 0 0

/-- `mem_free` of a record. -/
def memFree (s : ExcState) (r : ExpPtr) : ExcState :=
  { s with live := Function.update s.live r false }

/-- `exception_manager_exit`: the records are freed and the counts cleared; the heads of the
lists stay as they are. -/
def exceptionManagerExit (s : ExcState) (t : ℕ) : ExcState :=
  let m := s.mgr t
  let s := (m.list .normal).foldl memFree s
  let s := (m.list .caught).foldl memFree s
  s.setMgr t { m with number := fun _ => 0, inUserMode := false }

/-- `exception_create`, at the place `mem_alloc` returned. -/
def exceptionCreate (s : ExcState) (r : ExpPtr) (e : Exp) : ExcState :=
  { s with live := Function.update s.live r true, recs := Function.update s.recs r e }

/-- The manager with a record at the end of a list. -/
def Manager.add (m : Manager) (k : Kind) (r : ExpPtr) : Manager :=
  { m with list := Function.update m.list k (m.list k ++ [r])
           number := Function.update m.number k (add32 (m.number k) 1) }

/-- The manager with the first record off a list. -/
def Manager.del (m : Manager) (k : Kind) (rest : List ExpPtr) : Manager :=
  { m with list := Function.update m.list k rest
           number := Function.update m.number k (sub32 (m.number k) 1) }

/-- What `exception_add_normal` and `exception_add_catch` have in common. -/
def exceptionAdd (k : Kind) (s : ExcState) (t : ℕ) (r : ExpPtr) : ExcState :=
  { s.setMgr t ((s.mgr t).add k r) with
    sent := Function.update s.sent t (Function.update (s.sent t) k (s.sent t k ++ [s.recs r])) }

/-- `exception_add_normal`. -/
def exceptionAddNormal (s : ExcState) (t : ℕ) (r : ExpPtr) : ExcState := exceptionAdd .normal s t r

/-- `exception_add_catch`. -/
def exceptionAddCatch (s : ExcState) (t : ℕ) (r : ExpPtr) : ExcState := exceptionAdd .caught s t r

/-- `exception_del_normal` of the first record; the assertion that it is on the list holds. -/
def exceptionDelNormal (s : ExcState) (t : ℕ) (rest : List ExpPtr) : ExcState :=
  s.setMgr t ((s.mgr t).del .normal rest)

/-- `exception_del_catch` of the first record. -/
def exceptionDelCatch (s : ExcState) (t : ℕ) (rest : List ExpPtr) : ExcState :=
  s.setMgr t ((s.mgr t).del .caught rest)

/-- A record has been handed over to be handled. -/
def ExcState.consume (s : ExcState) (t : ℕ) (k : Kind) (e : Exp) : ExcState :=
  { s with consumed :=
      Function.update s.consumed t (Function.update (s.consumed t) k (s.consumed t k ++ [e])) }

/-! ## Masks -/

/-- `exception_enable_catch` and `exception_disable_catch`. -/
def exceptionSetCatch (m : Manager) (code : ℕ) (on : Bool) : Manager × ℤ :=
  if code = expCodeFinalhit ∨ code = expCodeStop then (m, -1)
  else ({ m with exceptionCatch := Function.update m.exceptionCatch code on }, 0)

/-- `exception_enable_block` and `exception_disable_block`. -/
def exceptionSetBlock (m : Manager) (code : ℕ) (on : Bool) : Manager :=
  if code = expCodeFinalhit ∨ code = expCodeStop then m
  else { m with exceptionBlock := Function.update m.exceptionBlock code on }

/-- `sys_expcatch`; `vmm` says whether the task has one. -/
def sysExpcatch (m : Manager) (vmm : Bool) (code handler : ℕ) : Manager × ℤ :=
  if expCodeMaxNr ≤ code then (m, -einval)
  else if safetyCheckRange vmm handler pageSize < 0 then (m, -einval)
  else
    let set := exceptionSetCatch m code (handler != 0)
    if set.2 = 0 then
      ({ set.1 with handlers := Function.update set.1.handlers code handler }, 0)
    else (set.1, 0)

/-- `sys_expblock`. -/
def sysExpblock (m : Manager) (code state : ℕ) : Manager × ℤ :=
  if expCodeMaxNr ≤ code then (m, -einval) else (exceptionSetBlock m code (state != 0), 0)

/-! ## Sending -/

/-- `exception_filter`, without the wake-up. -/
def exceptionFilter (code : ℕ) : Bool := code = expCodeCont

/-- The end of `exception_send`: a record is created and added, if there is memory. -/
def sendRecord (add : ExcState → ℕ → ExpPtr → ExcState) (s : ExcState) (t : ℕ) (e : Exp)
    (mem : Option ExpPtr) : ExcState × ℤ :=
  match mem with
  | none => (s, -enomem)
  | some r => (add (exceptionCreate s r e) t r, 0)

/-- `exception_send`: `target` is what `task_find_by_pid` finds, `source` the pid of the
current task, and `mem` what `mem_alloc` returns, if it is asked. -/
def exceptionSend (s : ExcState) (pid : ℤ) (target : Option ℕ) (code source : ℕ)
    (mem : Option ExpPtr) : ExcState × ℤ :=
  if expCodeMaxNr ≤ code ∨ pid < 0 then (s, -einval)
  else
    match target with
    | none => (s, -esrch)
    | some t =>
        if exceptionWasBlocked (s.mgr t).toExceptionManager code || (s.mgr t).inUserMode then
          (s, -eperm)
        else if exceptionCanCatch (s.mgr t).toExceptionManager code then
          sendRecord exceptionAddCatch s t ⟨code, source, 0⟩ mem
        else if exceptionFilter code then (s, 0)
        else sendRecord exceptionAddNormal s t ⟨code, source, 0⟩ mem

/-! ## Steps -/

/-- One step.  `send` is `exception_send` by any task; `unblock` is the first half of
`exception_force`, the second is a `send`. -/
inductive Call where
  | send (pid : ℤ) (target : Option ℕ) (code source : ℕ) (mem : Option ExpPtr)
  | unblock (t code : ℕ)
  | expblock (t code state : ℕ)
  | expcatch (t : ℕ) (vmm : Bool) (code handler : ℕ)
  | expReturn (t : ℕ)
  | checkKernel (t : ℕ)
  | kernelTurn (t : ℕ)
  | checkUser (t : ℕ)
  | handle (t : ℕ)
  | copy (t dest : ℕ)
  | copyNext (t : ℕ) (mem : Option ExpPtr)
  | managerExit (t : ℕ)

/-- `mem_alloc` returns a place that is not allocated. -/
def ExcState.Fresh (s : ExcState) (mem : Option ExpPtr) : Prop := ∀ r ∈ mem, s.live r = false

instance (s : ExcState) (mem : Option ExpPtr) : Decidable (s.Fresh mem) :=
  match mem with
  | none => isTrue (by simp [ExcState.Fresh])
  | some r => decidable_of_iff (s.live r = false) (by simp [ExcState.Fresh])

/-- A turn of the loop of `exception_check_kernel`.  The dispatch that follows it may end the
task; that is a `managerExit` of its own. -/
def kernelTurn (s : ExcState) (t : ℕ) : ExcState :=
  match (s.mgr t).list .normal with
  | [] => s.goto t .out
  | r :: rest =>
      let s := exceptionDelNormal s t rest
      memFree (s.consume t .normal (s.recs r)) r

/-- `exception_check_user`, up to the end of its locked part. -/
def exceptionCheckUser (s : ExcState) (t : ℕ) : ExcState :=
  if (s.mgr t).number .caught = 0 ∨ (s.mgr t).inUserMode = true then s
  else
    match (s.mgr t).list .caught with
    | [] => s
    | r :: rest => (exceptionDelCatch s t rest).goto t (.inUser r)

/-- The rest of it: the record is copied and freed, and `exception_handle` enters the
handler, if there is one. -/
def exceptionHandle (s : ExcState) (t : ℕ) (r : ExpPtr) : ExcState :=
  let exp := s.recs r
  let s := (memFree (s.consume t .caught exp) r).goto t .out
  if (s.mgr t).handlers exp.code ≠ 0 then s.setMgr t { s.mgr t with inUserMode := true } else s

/-- The next record of `exception_copy`, or the next list, or its end.  If there is no memory
the destination is given up. -/
def exceptionCopyNext (s : ExcState) (t dest : ℕ) (k : Kind) (i : ℕ) (mem : Option ExpPtr) :
    ExcState :=
  match ((s.mgr t).list k)[i]? with
  | none => s.goto t (if k = .normal then .inCopy dest .caught 0 else .out)
  | some r =>
      match mem with
      | none => (exceptionManagerExit s dest).goto t .out
      | some new =>
          (exceptionAdd k (exceptionCreate s new (s.recs r)) dest new).goto t
            (.inCopy dest k (i + 1))

/-- `copy_exception` of `sys_fork` initialises the manager of the child, whose memory is a copy of
the parent's. -/
def copyException (s : ExcState) (t dest : ℕ) : ExcState :=
  let s := s.setMgr dest (exceptionManagerInit (s.mgr t))
  { s.goto t (.inCopy dest .normal 0) with
    sent := Function.update s.sent dest fun _ => []
    consumed := Function.update s.consumed dest fun _ => [] }

/-- One step; `none` if the step cannot be made, because the task is somewhere else, or memory
is not what the step says.  A code that `exception_disable_block` has no bit for writes
outside the mask; `exception_force` is called with none. -/
def excStep (s : ExcState) : Call → Option ExcState
  | .send pid target code source mem =>
      if s.Fresh mem then some (exceptionSend s pid target code source mem).1 else none
  | .unblock t code =>
      if code < 32 then some (s.setMgr t (exceptionSetBlock (s.mgr t) code false)) else none
  | .expblock t code state =>
      if s.pos t = .out then some (s.setMgr t (sysExpblock (s.mgr t) code state).1) else none
  | .expcatch t vmm code handler =>
      if s.pos t = .out then some (s.setMgr t (sysExpcatch (s.mgr t) vmm code handler).1) else none
  | .expReturn t =>
      if s.pos t = .out then some (s.setMgr t { s.mgr t with inUserMode := false }) else none
  | .checkKernel t =>
      if s.pos t = .out then
        if (s.mgr t).number .normal = 0 ∨ (s.mgr t).list .normal = [] then some s
        else some (s.goto t .inKernel)
      else none
  | .kernelTurn t => if s.pos t = .inKernel then some (kernelTurn s t) else none
  | .checkUser t => if s.pos t = .out then some (exceptionCheckUser s t) else none
  | .handle t =>
      match s.pos t with
      | .inUser r => some (exceptionHandle s t r)
      | _ => none
  | .copy t dest =>
      if s.pos t = .out ∧ s.pos dest = .out ∧ t ≠ dest then some (copyException s t dest) else none
  | .copyNext t mem =>
      match s.pos t with
      | .inCopy dest k i => if s.Fresh mem then some (exceptionCopyNext s t dest k i mem) else none
      | _ => none
  | .managerExit t =>
      if s.pos t = .out ∨ s.pos t = .inKernel then some ((exceptionManagerExit s t).goto t .out)
      else none

/-- The steps: what each call needs, and what it does. -/
inductive Moves (s : ExcState) : Call → ExcState → Prop
  | send (pid : ℤ) (target : Option ℕ) (code source : ℕ) (mem : Option ExpPtr)
      (hmem : s.Fresh mem) :
      Moves s (.send pid target code source mem) (exceptionSend s pid target code source mem).1
  | unblock (t code : ℕ) :
      Moves s (.unblock t code) (s.setMgr t (exceptionSetBlock (s.mgr t) code false))
  | expblock (t code state : ℕ) :
      Moves s (.expblock t code state) (s.setMgr t (sysExpblock (s.mgr t) code state).1)
  | expcatch (t : ℕ) (vmm : Bool) (code handler : ℕ) :
      Moves s (.expcatch t vmm code handler) (s.setMgr t (sysExpcatch (s.mgr t) vmm code handler).1)
  | expReturn (t : ℕ) : Moves s (.expReturn t) (s.setMgr t { s.mgr t with inUserMode := false })
  | checkEmpty (t : ℕ) : Moves s (.checkKernel t) s
  | checkKernel (t : ℕ) (hpos : s.pos t = .out) : Moves s (.checkKernel t) (s.goto t .inKernel)
  | kernelTurn (t : ℕ) (hpos : s.pos t = .inKernel) : Moves s (.kernelTurn t) (kernelTurn s t)
  | checkUser (t : ℕ) (hpos : s.pos t = .out) : Moves s (.checkUser t) (exceptionCheckUser s t)
  | handle (t : ℕ) (r : ExpPtr) (hpos : s.pos t = .inUser r) :
      Moves s (.handle t) (exceptionHandle s t r)
  | copy (t dest : ℕ) (hpos : s.pos t = .out) (hdest : s.pos dest = .out) :
      Moves s (.copy t dest) (copyException s t dest)
  | copyNext (t dest : ℕ) (k : Kind) (i : ℕ) (mem : Option ExpPtr)
      (hpos : s.pos t = .inCopy dest k i)
      (hmem : s.Fresh mem) : Moves s (.copyNext t mem) (exceptionCopyNext s t dest k i mem)
  | managerExit (t : ℕ) (hpos : s.pos t = .out ∨ s.pos t = .inKernel) :
      Moves s (.managerExit t) ((exceptionManagerExit s t).goto t .out)

theorem moves_of_excStep {s s' : ExcState} {c : Call} (hstep : excStep s c = some s') :
    Moves s c s' := by
  cases c with
  | send pid target code source mem =>
    simp only [excStep, Option.ite_none_right_eq_some, Option.some.injEq] at hstep
    obtain ⟨hmem, rfl⟩ := hstep
    exact .send pid target code source mem hmem
  | unblock t code =>
    simp only [excStep, Option.ite_none_right_eq_some, Option.some.injEq] at hstep
    obtain ⟨-, rfl⟩ := hstep
    exact .unblock t code
  | expblock t code state =>
    simp only [excStep, Option.ite_none_right_eq_some, Option.some.injEq] at hstep
    obtain ⟨-, rfl⟩ := hstep
    exact .expblock t code state
  | expcatch t vmm code handler =>
    simp only [excStep, Option.ite_none_right_eq_some, Option.some.injEq] at hstep
    obtain ⟨-, rfl⟩ := hstep
    exact .expcatch t vmm code handler
  | expReturn t =>
    simp only [excStep, Option.ite_none_right_eq_some, Option.some.injEq] at hstep
    obtain ⟨-, rfl⟩ := hstep
    exact .expReturn t
  | checkKernel t =>
    simp only [excStep, Option.ite_none_right_eq_some] at hstep
    obtain ⟨hpos, hstep⟩ := hstep
    split at hstep
    · cases hstep
      exact .checkEmpty t
    · cases hstep
      exact .checkKernel t hpos
  | kernelTurn t =>
    simp only [excStep, Option.ite_none_right_eq_some, Option.some.injEq] at hstep
    obtain ⟨hpos, rfl⟩ := hstep
    exact .kernelTurn t hpos
  | checkUser t =>
    simp only [excStep, Option.ite_none_right_eq_some, Option.some.injEq] at hstep
    obtain ⟨hpos, rfl⟩ := hstep
    exact .checkUser t hpos
  | handle t =>
    simp only [excStep] at hstep
    split at hstep
    · next r hpos =>
      cases hstep
      exact .handle t r hpos
    · cases hstep
  | copy t dest =>
    simp only [excStep, Option.ite_none_right_eq_some, Option.some.injEq] at hstep
    obtain ⟨⟨hpos, hdest, -⟩, rfl⟩ := hstep
    exact .copy t dest hpos hdest
  | copyNext t mem =>
    simp only [excStep] at hstep
    split at hstep
    · next dest k i hpos =>
      simp only [Option.ite_none_right_eq_some, Option.some.injEq] at hstep
      obtain ⟨hmem, rfl⟩ := hstep
      exact .copyNext t dest k i mem hpos hmem
    · cases hstep
  | managerExit t =>
    simp only [excStep, Option.ite_none_right_eq_some, Option.some.injEq] at hstep
    obtain ⟨hpos, rfl⟩ := hstep
    exact .managerExit t hpos

/-- No exceptions anywhere; the managers are initialised over what the memory held. -/
def excBoot (recs : ExpPtr → Exp) (found : ℕ → Manager) : ExcState where
  mgr := fun t => exceptionManagerInit (found t)
  pos := fun _ => .out
  live := fun _ => false
  recs := recs
  sent := fun _ _ => []
  consumed := fun _ _ => []

end Exceptions
end LightOS
