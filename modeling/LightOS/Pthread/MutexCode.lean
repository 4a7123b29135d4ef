import LightOS.Pthread.MutexBasic

/-!
# What the code of the library keeps to

Facts about a place in the code that do not depend on the state.

* `Holds` — the thread has a spin lock, as the code left shows: it gives the lock up before it
  takes it.
* `Uses` — it will make a system call for the queue of an object without another look at whether
  there is one.
* `Code.need` — what has just been done when a step is reached.
* `Sound` — the code agrees with the three; `sound_entry`, `sound_bodyOf` say that all of the
  library's does, but for the second time `pthread_mutex_trylock` takes the spin lock.
* `holdsPc_goOn`, `usesPc_goOn` — and the functions agree where one leads to another.
-/

namespace LightOS
namespace Pthread

/-- The part of a wait that leaves the spin lock of the condition variable to the next. -/
def Op.condAtRet : Op → Prop
  | .waitUnlock _ => True
  | _ => False

/-- The parts of a wait whose body has that lock. -/
def Op.condAtBody : Op → Prop
  | .wait _ | .waitUnlock _ | .waitSleep _ => True
  | _ => False

/-- The calls whose body has a queue. -/
def Op.mutexAtBody : Op → Prop
  | .lock | .unlock | .waitUnlock _ | .waitLock _ _ => True
  | _ => False

/-- The calls and parts that are about an object. -/
def Op.touches : Obj → Op → Prop
  | .mutex, .signal _ => False
  | .mutex, _ => True
  | .cond, .lock | .cond, .trylock | .cond, .unlock => False
  | .cond, _ => True

/-- A thread with the code left has the spin lock of `o`. -/
def Holds (o : Obj) (op : Op) : Code → Prop
  | .ret _ => o = .cond ∧ op.condAtRet
  | .body => o = .cond ∧ op.condAtBody
  | .spinLock o' next => o' ≠ o ∧ Holds o op next
  | .xchgLock busy _ => Holds o op busy
  | .ite _ yes _ => Holds o op yes
  | .act (.spinUnlock o') next => o' = o ∨ Holds o op next
  | .act (.wait o' _) _ => o' = o
  | .act _ next => Holds o op next

/-- The object whose handle an instruction is about. -/
def Instr.on : Instr → Option Obj
  | .arg o | .wait o _ | .wake o _ => some o
  | _ => none

/-- A thread with the code left relies on the queue of `o`. -/
def Uses (o : Obj) (op : Op) : Code → Prop
  | .ret _ => o = .cond ∧ op.condAtRet
  | .body => o = .cond ∧ op.condAtBody ∨ o = .mutex ∧ op.mutexAtBody
  | .spinLock _ next => Uses o op next
  | .xchgLock busy free => Uses o op busy ∨ Uses o op free
  | .ite c yes no =>
      c ≠ .queueUnset o ∧ (o = .mutex → c ≠ .queueBad) ∧ (Uses o op yes ∨ Uses o op no)
  | .act i next => i.on = some o ∨ Uses o op next

/-- What the step before has done. -/
inductive Need where
  | nothing
  | unset
  | fresh
  | handle (o : Obj)
  deriving DecidableEq, Repr

/-- What has just been done when a thread is at this code. -/
def Code.need : Code → Need
  | .act .alloc _ => .unset
  | .act .setQueue _ => .fresh
  | .act (.wait o _) _ | .act (.wake o _) _ => .handle o
  | _ => .nothing

/-- What an instruction does for the next. -/
def Instr.gives : Instr → Need
  | .alloc => .fresh
  | .arg o => .handle o
  | _ => .nothing

/-- What a test that succeeds does for the next step. -/
def Test.gives : Test → Need
  | .queueUnset .mutex => .unset
  | _ => .nothing

/-- The condition on one instruction. -/
def SoundInstr (op : Op) (next : Code) : Instr → Prop
  | .spinUnlock o => op.touches o ∧ ¬Holds o op next
  | .wait o _ =>
      op.touches o ∧ (∀ o' status, ¬Holds o' op (afterWait status next o)) ∧
        ∀ o', Uses o' op (afterWait 0 next o) → Uses o' op next
  | .alloc => next.need = .fresh
  | _ => True

/-- The condition on what follows a test that finds no queue. -/
def SoundTest (op : Op) (yes : Code) : Test → Prop
  | .queueUnset o => ¬Uses o op yes
  | .queueBad => ¬Uses .mutex op yes
  | _ => True

/-- The code takes and gives up the spin locks in turn, and makes no system call for a queue it has
not just looked up.  What `pthread_mutex_trylock` does with a mutex that is not normal and that it
finds without an owner is left out. -/
def Sound (kind : MutexKind) (op : Op) : Code → Prop
  | .ret _ | .body => True
  | .spinLock o next => next.need = .nothing ∧ Holds o op next ∧ Sound kind op next
  | .xchgLock busy free =>
      busy.need = .nothing ∧ free.need = .nothing ∧ (∀ o, Holds o op free ↔ Holds o op busy) ∧
        Sound kind op busy ∧ Sound kind op free
  | .ite c yes no =>
      (yes.need = .nothing ∨ yes.need = c.gives) ∧ SoundTest op yes c ∧ Sound kind op yes ∧
        (kind ≠ .normal ∧ c = .ownerSet ∧ op = .trylock ∨
          no.need = .nothing ∧ (∀ o, Holds o op no ↔ Holds o op yes) ∧ Sound kind op no)
  | .act i next =>
      (next.need = .nothing ∨ next.need = i.gives) ∧ SoundInstr op next i ∧ Sound kind op next

/-! ## Places -/

/-- The thread has the spin lock of `o`. -/
def HoldsPc (o : Obj) : Pc → Prop
  | .run op code => Holds o op code
  | _ => False

/-- The thread relies on the queue of `o`. -/
def UsesPc (o : Obj) : Pc → Prop
  | .run op code => Uses o op code
  | .asleep o' op next => o' = o ∨ Uses o op (afterWait 0 next o')
  | _ => False

/-- What has been done when a thread is there. -/
def Pc.need : Pc → Need
  | .run _ code => code.need
  | .asleep o _ _ => .handle o
  | _ => .nothing

/-- The code left is sound, and a thread that sleeps has no spin lock. -/
def SoundPc (kind : MutexKind) : Pc → Prop
  | .run op code => Sound kind op code
  | .asleep o op next =>
      next.need = .nothing ∧ Sound kind op next ∧
        ∀ o' status, ¬Holds o' op (afterWait status next o)
  | _ => True

/-- The thread sleeps on the queue of `o`. -/
def AsleepOn (o : Obj) : Pc → Prop
  | .asleep o' _ _ => o' = o
  | _ => False

variable {o : Obj} {op : Op} {code next : Code} {kind : MutexKind} {status : ℕ}

theorem afterWait_need {o : Obj}
    (hnext : next.need = .nothing) : (afterWait status next o).need = .nothing := by
  cases o with
  | mutex => exact hnext
  | cond => rfl

theorem sound_afterWait {o : Obj}
    (hnext : Sound kind op next) : Sound kind op (afterWait status next o) := by
  cases o with
  | mutex => exact hnext
  | cond => trivial

theorem uses_afterWait {o o' : Obj} {status' : ℕ} :
    Uses o op (afterWait status next o') ↔ Uses o op (afterWait status' next o') := by
  cases o' <;> rfl

/-- **The code of the library is sound**, from the beginning of each call and part. -/
theorem sound_entry (kind : MutexKind) (op : Op) :
    (entry kind op).need = .nothing ∧ Sound kind op (entry kind op) := by
  have hcond : ∀ o : Obj, ¬Obj.cond = o → ¬o = .cond := fun _ h h' => h h'.symm
  cases op <;> cases kind <;>
    simp [entry, setUp, trylockBody, leave, Sound, Code.need, Test.gives, Instr.gives, SoundInstr,
      SoundTest, Holds, Uses, Instr.on, Op.touches, Op.condAtRet, Op.condAtBody, afterWait]
  all_goals exact hcond

/-- And from the end of the set-up. -/
theorem sound_bodyOf (kind : MutexKind) (op : Op) :
    (bodyOf kind op).need = .nothing ∧ SoundPc kind (bodyOf kind op) := by
  have hentry := sound_entry kind op
  cases op <;> first
    | exact hentry
    | (cases kind <;>
        simp [bodyOf, setUp, lockBody, unlockBody, take, release, leave, Pc.need, SoundPc, Sound,
          Code.need, Test.gives, Instr.gives, SoundInstr, SoundTest, Holds, Uses, Instr.on,
          Op.touches, Op.condAtRet, Op.condAtBody, afterWait])

theorem returned_need (status : ℕ) (op : Op) : (returned status op).need = .nothing := by
  cases op <;> rfl

theorem sound_returned (kind : MutexKind) (status : ℕ)
    (op : Op) : SoundPc kind (returned status op) := by
  cases op <;> first
    | trivial
    | exact (sound_entry kind (.waitSleep _)).2
    | exact (sound_entry kind (.waitLock _ _)).2

/-- A function goes on soundly. -/
theorem sound_goOn (h : Sound kind op code) : SoundPc kind (goOn kind op code) := by
  cases code with
  | ret status => exact sound_returned kind status op
  | body => exact (sound_bodyOf kind op).2
  | _ => exact h

theorem goOn_need (kind : MutexKind) (op : Op)
    (code : Code) : (goOn kind op code).need = code.need := by
  cases code with
  | ret status => exact returned_need status op
  | body => exact (sound_bodyOf kind op).1
  | _ => rfl

theorem holdsPc_returned : HoldsPc o (returned status op) ↔ Holds o op (.ret status) := by
  cases op <;> simp [returned, HoldsPc, Holds, entry, setUp, Op.condAtRet, eq_comm]

theorem holdsPc_bodyOf : HoldsPc o (bodyOf kind op) ↔ Holds o op .body := by
  cases o <;> cases op <;> cases kind <;>
    simp [bodyOf, entry, setUp, lockBody, unlockBody, trylockBody, take, release, leave, HoldsPc,
      Holds, Op.condAtRet, Op.condAtBody]

/-- **Where one part leads to another, the spin locks go with it.** -/
theorem holdsPc_goOn : HoldsPc o (goOn kind op code) ↔ Holds o op code := by
  cases code with
  | ret status => exact holdsPc_returned
  | body => exact holdsPc_bodyOf
  | _ => rfl

theorem usesPc_returned : UsesPc o (returned status op) → Uses o op (.ret status) := by
  cases o <;> cases op <;> simp [returned, UsesPc, Uses, entry, setUp, Op.condAtRet, Op.condAtBody,
    Instr.on, Op.mutexAtBody]

theorem usesPc_bodyOf : UsesPc o (bodyOf kind op) → Uses o op .body := by
  cases o <;> cases op <;> cases kind <;>
    simp [bodyOf, entry, setUp, lockBody, unlockBody, trylockBody, take, release, leave, UsesPc,
      Uses, Op.condAtRet, Op.condAtBody, Op.mutexAtBody, Instr.on]

/-- Nor does a thread come to rely on a queue on the way. -/
theorem usesPc_goOn : UsesPc o (goOn kind op code) → Uses o op code := by
  cases code with
  | ret status => exact usesPc_returned
  | body => exact usesPc_bodyOf
  | _ => exact id

theorem not_asleepOn_goOn : ¬AsleepOn o (goOn kind op code) := by
  cases code with
  | ret status => cases op <;> exact id
  | body => cases op <;> exact id
  | _ => exact id

/-- A thread has a spin lock only in a call that is about its object. -/
theorem touches_of_holds (hsound : Sound kind op code) (h : Holds o op code) : op.touches o := by
  induction code with
  | ret status =>
      obtain ⟨rfl, hop⟩ := h
      cases op <;> trivial
  | body =>
      obtain ⟨rfl, hop⟩ := h
      cases op <;> trivial
  | spinLock o' next ih => exact ih hsound.2.2 h.2
  | xchgLock busy free ih => exact ih hsound.2.2.2.1 h
  | ite c yes no ih => exact ih hsound.2.2.1 h
  | act i next ih =>
      cases i with
      | spinUnlock o' =>
          rcases h with rfl | h
          · exact hsound.2.1.1
          · exact ih hsound.2.2 h
      | wait o' timed =>
          obtain rfl : o' = o := h
          exact hsound.2.1.1
      | _ => exact ih hsound.2.2 h

end Pthread
end LightOS
