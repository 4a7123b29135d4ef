import LightOS.Pthread.MutexSpin

/-!
# The lock word of a normal mutex

* `MustHold`, `MustBusy`, `Attends` — what is known of the lock where a thread is: the thread holds
  the mutex, the mutex is taken, or the thread will take it or wake a waiter.
* `LockSound` — the code of the library for a normal mutex agrees with these.
* `LockInv` — one thread holds the mutex while the word is 0, none while it is 1, and a free mutex
  with waiters is attended.
* `lock_event` — an event keeps it, if threads unlock and wait only while they hold the mutex.
-/

namespace LightOS
namespace Pthread

open Threads

/-- The returns after which a thread holds the mutex. -/
def Op.holdsAtRet : Op → ℕ → Prop
  | .lock, status | .trylock, status => status = 0
  | .wait _, _ | .waitLock _ _, _ => True
  | _, _ => False

/-- The parts that are `pthread_mutex_lock`, `pthread_mutex_trylock` or `pthread_mutex_unlock`. -/
def Op.onMutex : Op → Prop
  | .lock | .trylock | .unlock | .waitUnlock _ | .waitLock _ _ => True
  | _ => False

/-- The calls and parts that free the mutex. -/
def Op.freesAtBody : Op → Prop
  | .unlock | .waitUnlock _ | .wait _ => True
  | _ => False

/-- A thread with the code left holds the mutex. -/
def MustHold (op : Op) : Code → Prop
  | .ret status => op.holdsAtRet status
  | .body => op.freesAtBody
  | .spinLock _ next => MustHold op next
  | .xchgLock busy _ => MustHold op busy
  | .ite (.queueUnset .mutex) _ no => MustHold op no
  | .ite _ yes no => MustHold op yes ∨ MustHold op no
  | .act .freeLock _ | .act .takeLock _ => True
  | .act _ next => MustHold op next

/-- A thread with the code left has found the mutex taken. -/
def MustBusy : Code → Prop
  | .act (.wait .mutex _) _ => True
  | .act (.arg .mutex) next => MustBusy next
  | _ => False

/-- A thread with the code left will try to take the mutex, or wake a waiter. -/
def Attends : Code → Prop
  | .xchgLock _ _ => True
  | .spinLock _ next => Attends next
  | .act (.wake .mutex _) _ => True
  | .act _ next => Attends next
  | _ => False

/-- The thread holds the mutex. -/
def MustHoldPc : Pc → Prop
  | .run op code => MustHold op code
  | .asleep o op next => MustHold op (afterWait 0 next o)
  | .ret op status => op.holdsAtRet status
  | _ => False

/-- The thread has found the mutex taken. -/
def MustBusyPc : Pc → Prop
  | .run _ code => MustBusy code
  | _ => False

/-- The thread is in a call on the mutex in which it will try to take it, or wake a waiter. -/
def AttendsPc : Pc → Prop
  | .run op code => op.onMutex ∧ Attends code
  | _ => False

/-- The condition on one instruction. -/
def LockSoundInstr (op : Op) (next : Code) : Instr → Prop
  | .freeLock => ¬MustHold op next ∧ Holds .mutex op next ∧ op.onMutex ∧ Attends next
  | .wait .mutex _ => ¬MustBusy next ∧ AttendsPc (goOn .normal op next)
  | .wait .cond _ => ¬Attends next ∧ ∀ status, ¬MustHold op (.ret status)
  | .incCount | .decCount => False
  | _ => True

/-- The code takes and frees the lock of a normal mutex in turn. -/
def LockSound (op : Op) : Code → Prop
  | .ret _ | .body => True
  | .spinLock _ next => ¬MustBusy next ∧ LockSound op next
  | .xchgLock busy free => ¬MustBusy free ∧ LockSound op busy ∧ LockSound op free
  | .ite _ yes no => ¬MustBusy yes ∧ ¬MustBusy no ∧ LockSound op yes ∧ LockSound op no
  | .act i next =>
      (MustBusy next → MustBusy (.act i next)) ∧ LockSoundInstr op next i ∧ LockSound op next

/-- The code left of a thread agrees with what is known of the lock. -/
def LockSoundPc : Pc → Prop
  | .run op code => LockSound op code
  | .asleep .mutex op next =>
      ¬MustBusy next ∧ AttendsPc (goOn .normal op next) ∧ LockSound op next
  | .asleep .cond op _ => ∀ status, ¬MustHold op (.ret status)
  | _ => True

variable {s s' : PState} {t : ℕ} {o : Obj} {op : Op} {code next : Code} {p : Pc} {input : Input}
  {status : ℕ}

theorem lockSound_entry (op : Op) :
    ¬MustBusy (entry .normal op) ∧ LockSound op (entry .normal op) := by
  cases op <;>
    simp [entry, setUp, trylockBody, leave, LockSound, LockSoundInstr, MustBusy, MustHold, Attends,
      Op.holdsAtRet]

theorem lockSound_bodyOf (op : Op) :
    ¬MustBusyPc (bodyOf .normal op) ∧ LockSoundPc (bodyOf .normal op) := by
  have hentry := lockSound_entry op
  cases op <;> first
    | exact hentry
    | simp [bodyOf, setUp, lockBody, unlockBody, take, release, leave, LockSoundPc, LockSound,
        LockSoundInstr, MustBusyPc, MustBusy, MustHold, Holds, Attends, AttendsPc, goOn,
        Op.holdsAtRet, Op.condAtRet, Op.onMutex]

theorem lockSound_returned (status : ℕ) (op : Op) :
    ¬MustBusyPc (returned status op) ∧ LockSoundPc (returned status op) := by
  cases op with
  | waitUnlock timed => exact lockSound_entry (.waitSleep timed)
  | waitSleep timed => exact lockSound_entry (.waitLock timed status)
  | _ => exact ⟨id, trivial⟩

theorem mustHoldPc_returned : MustHoldPc (returned status op) → MustHold op (.ret status) := by
  cases op <;> simp [returned, MustHoldPc, MustHold, entry, setUp, Op.holdsAtRet, Op.freesAtBody]

theorem mustHoldPc_bodyOf : MustHoldPc (bodyOf .normal op) → MustHold op .body := by
  cases op <;>
    simp [bodyOf, entry, setUp, lockBody, unlockBody, trylockBody, take, release, leave, MustHoldPc,
      MustHold, Op.holdsAtRet, Op.freesAtBody]

/-- A thread goes on soundly. -/
theorem lockSoundPc_goOn (h : LockSound op code) : LockSoundPc (goOn .normal op code) := by
  cases code with
  | ret status => exact (lockSound_returned status op).2
  | body => exact (lockSound_bodyOf op).2
  | _ => exact h

theorem mustBusyPc_goOn : MustBusyPc (goOn .normal op code) → MustBusy code := by
  cases code with
  | ret status => exact fun h => absurd h (lockSound_returned status op).1
  | body => exact fun h => absurd h (lockSound_bodyOf op).1
  | _ => exact id

theorem mustHoldPc_goOn : MustHoldPc (goOn .normal op code) → MustHold op code := by
  cases code with
  | ret status => exact mustHoldPc_returned
  | body => exact mustHoldPc_bodyOf
  | _ => exact id

theorem attendsPc_goOn (hop : op.onMutex) (h : Attends code) :
    AttendsPc (goOn .normal op code) := by
  cases code with
  | ret status => exact h.elim
  | body => exact h.elim
  | _ => exact ⟨hop, h⟩

/-- A thread that has found the mutex taken has not given its spin lock up. -/
theorem holds_of_mustBusy (h : MustBusy code) : Holds .mutex op code := by
  induction code with
  | act i next ih =>
      cases i with
      | wait o timed =>
          cases o with
          | mutex => rfl
          | cond => exact h.elim
      | arg o =>
          cases o with
          | mutex => exact ih h
          | cond => exact h.elim
      | _ => exact h.elim
  | _ => exact h.elim

/-! ## The invariant -/

/-- Threads unlock the mutex, and wait for the condition variable, while they hold the mutex. -/
def WhileHeld (s : PState) : Event → Prop
  | .call t .unlock | .call t (.wait _) => s.depth t ≠ 0
  | _ => True

instance (s : PState) : DecidablePred (WhileHeld s) := fun e => by
  unfold WhileHeld; split <;> infer_instance

/-- The lock word, and the threads that have the lock or ask for it. -/
structure LockInv (s : PState) : Prop where
  kind : s.kind = .normal
  ready : s.queue .mutex ≠ -1
  sound : ∀ t, LockSoundPc (s.pc t)
  word : s.lock = 0 ∨ s.lock = 1
  held : Guards (s.lock = 0) (fun depth => depth ≠ 0) s.depth
  le : ∀ t, s.depth t ≤ 1
  must : ∀ t, MustHoldPc (s.pc t) → s.depth t ≠ 0
  busy : ∀ t, MustBusyPc (s.pc t) → s.lock = 0
  attended : s.lock = 1 → s.waiters .mutex ≠ [] → ∃ t, AttendsPc (s.pc t)

namespace LockInv

/-- Threads move, and leave the lock alone. -/
theorem move (h : LockInv s) (hkind : s'.kind = s.kind) (hqueue : s'.queue = s.queue)
    (hlock : s'.lock = s.lock) (hdepth : s'.depth = s.depth) (hsound : ∀ u, LockSoundPc (s'.pc u))
    (hmust : ∀ u, MustHoldPc (s'.pc u) → s.depth u ≠ 0)
    (hbusy : ∀ u, MustBusyPc (s'.pc u) → s.lock = 0)
    (hattended : s.lock = 1 → s'.waiters .mutex ≠ [] → ∃ u, AttendsPc (s'.pc u)) : LockInv s' := by
  refine ⟨by rw [hkind, h.kind], by rw [hqueue]; exact h.ready, hsound, by rw [hlock]; exact h.word,
    by rw [hlock, hdepth]; exact h.held, by rw [hdepth]; exact h.le, by rw [hdepth]; exact hmust,
    by rw [hlock]; exact hbusy, by rw [hlock]; exact hattended⟩

/-- One thread moves. -/
theorem step (h : LockInv s) (hkind : s'.kind = s.kind) (hqueue : s'.queue = s.queue)
    (hlock : s'.lock = s.lock) (hdepth : s'.depth = s.depth)
    (hpc : s'.pc = Function.update s.pc t p)
    (hsound : LockSoundPc p) (hmust : MustHoldPc p → s.depth t ≠ 0)
    (hbusy : MustBusyPc p → s.lock = 0)
    (hwaiters : s.lock = 1 → s'.waiters .mutex ≠ [] → s.waiters .mutex ≠ [])
    (hattends : s.lock = 1 → AttendsPc (s.pc t) → AttendsPc p) : LockInv s' := by
  refine h.move hkind hqueue hlock hdepth ?_ ?_ ?_ fun hfree hw => ?_
  · rw [hpc]
    exact forall_update (P := fun _ q => LockSoundPc q) hsound fun u _ => h.sound u
  · rw [hpc]
    exact forall_update (P := fun u q => MustHoldPc q → s.depth u ≠ 0) hmust fun u _ => h.must u
  · rw [hpc]
    exact forall_update (P := fun _ q => MustBusyPc q → s.lock = 0) hbusy fun u _ => h.busy u
  · obtain ⟨u, hu⟩ := h.attended hfree (hwaiters hfree hw)
    refine ⟨u, ?_⟩
    rw [hpc]
    by_cases hut : u = t
    · rw [hut, Function.update_self]
      exact hattends hfree (by rw [← hut]; exact hu)
    · rw [Function.update_of_ne hut]
      exact hu

/-- A thread goes on in its code. -/
theorem goto (h : LockInv s) (hpc : s.pc t = .run op code) (hkind : s'.kind = s.kind)
    (hqueue : s'.queue = s.queue) (hslots : s'.slots = s.slots) (hlock : s'.lock = s.lock)
    (hdepth : s'.depth = s.depth) (hpc' : s'.pc = s.pc) (hsound : LockSound op next)
    (hmust : MustHold op next → MustHold op code) (hbusy : MustBusy next → MustBusy code)
    (hattends : Attends code → Attends next) : LockInv (s'.goto t op next) := by
  have hkind' : s'.kind = .normal := by rw [hkind, h.kind]
  refine h.step (t := t) (p := goOn .normal op next) hkind hqueue hlock hdepth
    (by rw [goto_pc, hpc', hkind']) (lockSoundPc_goOn hsound) (fun hm => ?_) (fun hb => ?_)
    (fun _ => ?_) fun _ ha => ?_
  · exact h.must t (by rw [hpc]; exact hmust (mustHoldPc_goOn hm))
  · exact h.busy t (by rw [hpc]; exact hbusy (mustBusyPc_goOn hb))
  · have hsame : (s'.goto t op next).waiters .mutex = s.waiters .mutex := by
      simp only [PState.waiters, goto_queue, goto_slots, hqueue, hslots]
    rw [hsame]
    exact id
  · rw [hpc] at ha
    exact attendsPc_goOn ha.1 (hattends ha.2)

theorem congr (h : LockInv s) (hkind : s'.kind = s.kind) (hqueue : s'.queue = s.queue)
    (hslots : s'.slots = s.slots) (hlock : s'.lock = s.lock) (hdepth : s'.depth = s.depth)
    (hpc : s'.pc = s.pc) : LockInv s' := by
  have hsame : s'.waiters .mutex = s.waiters .mutex := by simp only [PState.waiters, hqueue, hslots]
  exact h.move hkind hqueue hlock hdepth (by rw [hpc]; exact h.sound) (by rw [hpc]; exact h.must)
    (by rw [hpc]; exact h.busy) (by rw [hpc, hsame]; exact h.attended)

/-- **A thread takes the lock.** -/
theorem take (h : LockInv s) (hfree : s.lock = 1) (hkind : s'.kind = s.kind)
    (hqueue : s'.queue = s.queue) (hlock : s'.lock = 0)
    (hdepth : s'.depth = Function.update s.depth t (s.depth t + 1))
    (hpc : s'.pc = Function.update s.pc t p) (hsound : LockSoundPc p) : LockInv s' := by
  have hzero : ∀ u, s.depth u = 0 := fun u => by
    have hnot := h.held.not_mem (by rw [hfree]; decide) u
    simpa using hnot
  refine ⟨by rw [hkind, h.kind], by rw [hqueue]; exact h.ready, ?_, Or.inl hlock, ?_,
    fun u => ?_, ?_, fun _ _ => hlock, fun hone => ?_⟩
  · rw [hpc]
    exact forall_update (P := fun _ q => LockSoundPc q) hsound fun u _ => h.sound u
  · rw [hdepth]
    exact h.held.acquire (by rw [hfree]; decide) hlock (Nat.succ_ne_zero _)
  · rw [hdepth]
    by_cases hut : u = t
    · rw [hut, Function.update_self, hzero]
    · rw [Function.update_of_ne hut, hzero]
      exact Nat.zero_le 1
  · rw [hpc, hdepth]
    refine forall_update (P := fun u q => MustHoldPc q →
      Function.update s.depth t (s.depth t + 1) u ≠ 0)
      (fun _ => ?_) fun u hut hm => ?_
    · rw [Function.update_self]
      exact Nat.succ_ne_zero _
    · exact absurd (hzero u) (h.must u hm)
  · rw [hlock] at hone
    exact absurd hone (by decide)

/-- **The thread that has the lock frees it**, and has its spin lock. -/
theorem free (h : LockInv s) (hspin : SpinInv s) (ht : s.depth t ≠ 0)
    (hholds : HoldsPc .mutex (s.pc t))
    (hkind : s'.kind = s.kind) (hqueue : s'.queue = s.queue) (hlock : s'.lock = 1)
    (hdepth : s'.depth = Function.update s.depth t (s.depth t - 1))
    (hpc : s'.pc = Function.update s.pc t p) (hsound : LockSoundPc p) (hnot : ¬MustHoldPc p)
    (hbusy : ¬MustBusyPc p) (hattends : AttendsPc p) : LockInv s' := by
  have hone : s.depth t - 1 = 0 := by
    have hle := h.le t
    omega
  refine ⟨by rw [hkind, h.kind], by rw [hqueue]; exact h.ready, ?_, Or.inr hlock, ?_,
    fun u => ?_, ?_, ?_,
    fun _ _ => ⟨t, by rw [hpc, Function.update_self]; exact hattends⟩⟩
  · rw [hpc]
    exact forall_update (P := fun _ q => LockSoundPc q) hsound fun u _ => h.sound u
  · rw [hdepth]
    exact h.held.release ht (by rw [hone]; simp) (by rw [hlock]; decide)
  · rw [hdepth]
    by_cases hut : u = t
    · rw [hut, Function.update_self, hone]
      exact Nat.zero_le 1
    · rw [Function.update_of_ne hut]
      exact h.le u
  · rw [hpc, hdepth]
    refine forall_update (P := fun u q => MustHoldPc q →
      Function.update s.depth t (s.depth t - 1) u ≠ 0)
      (fun hm => absurd hm hnot) fun u hut hm => ?_
    rw [Function.update_of_ne hut]
    exact h.must u hm
  · rw [hpc]
    refine forall_update (P := fun _ q => MustBusyPc q → s'.lock = 0) (fun hb => absurd hb hbusy)
      fun u hut hb => ?_
    -- a thread that has found the mutex taken has the spin lock
    have hu : HoldsPc .mutex (s.pc u) := by
      cases hp : s.pc u with
      | run op code =>
          rw [hp] at hb
          exact holds_of_mustBusy hb
      | _ => rw [hp] at hb; exact hb.elim
    exact absurd ((hspin.guard .mutex).unique u t hu hholds) hut

/-- A system call that waits. -/
theorem waitStep (h : LockInv s) (hq : QueueInv s) {timed : Bool}
    (hpc : s.pc t = .run op (.act (.wait o timed) next))
    (hlive : ¬(s.cancelDisable t = false ∧ s.canceled t = true)) :
    LockInv (s.mutexQueueWait t o timed input.time op next) := by
  have hsound := h.sound t
  have hmust := h.must t
  have hbusy := h.busy t
  rw [hpc] at hsound hmust hbusy
  obtain ⟨hnext, hinstr, hsnext⟩ := hsound
  obtain ⟨i, hhandle, hentry, hslot⟩ := hq.slot_of_need (t := t) (o := o) (by rw [hpc]; rfl)
  have hgo : ∀ (s' : PState) (status : ℕ), s'.kind = s.kind → s'.queue = s.queue →
    s'.slots = s.slots →
      s'.lock = s.lock → s'.depth = s.depth → s'.pc = s.pc →
      LockInv (s'.goto t op (afterWait status next o)) := by
    intro s' status hk hqu hsl hl hd hp
    cases o with
    | mutex => exact h.goto hpc hk hqu hsl hl hd hp hsnext id hnext id
    | cond =>
        exact h.goto hpc hk hqu hsl hl hd hp trivial (fun hm => absurd hm (hinstr.2 status))
          (fun hb => hb.elim) fun ha => absurd ha hinstr.1
  unfold PState.mutexQueueWait
  rw [hhandle]
  simp only [hslot, if_neg hlive]
  split_ifs
  · exact hgo _ _ rfl rfl rfl rfl rfl rfl
  · exact hgo _ _ rfl rfl rfl rfl rfl rfl
  · cases o with
    | mutex =>
        have hzero : s.lock = 0 := hbusy trivial
        have hnot : ¬s.lock = 1 := by rw [hzero]; decide
        exact h.step (t := t) (p := .asleep .mutex op next) rfl rfl rfl rfl rfl
          ⟨hinstr.1, hinstr.2, hsnext⟩ hmust (fun hb => hb.elim) (fun hone => absurd hone hnot)
          fun hone => absurd hone hnot
    | cond =>
        refine h.step (t := t) (p := .asleep .cond op next) rfl rfl rfl rfl rfl hinstr.2
          (fun hm => absurd hm (hinstr.2 0)) (fun hb => hb.elim)
          (fun _ hw hnil => ?_) fun _ ha => ?_
        · have hother : ∀ s' : PState, s'.queue = s.queue →
              s'.slots = Function.update s.slots i (some (s.waiters .cond ++ [t])) →
              s'.waiters .mutex = s.waiters .mutex := fun s' =>
            waiters_other hq hentry (by decide)
          exact hw ((hother _ (by rfl) (by rfl)).trans hnil)
        · rw [hpc] at ha
          exact absurd ha.2 hinstr.1

/-- Where a thread is that leaves a list. -/
theorem woken (h : LockInv s) {u : ℕ} (hpc : s.pc u = .asleep o op next) (status : ℕ) :
    LockSoundPc (goOn .normal op (afterWait status next o)) ∧
      (MustHoldPc (goOn .normal op (afterWait status next o)) → s.depth u ≠ 0) ∧
      ¬MustBusyPc (goOn .normal op (afterWait status next o)) ∧
      (o = .mutex → AttendsPc (goOn .normal op (afterWait status next o))) := by
  have hsound := h.sound u
  have hmust := h.must u
  rw [hpc] at hsound hmust
  cases o with
  | mutex =>
      obtain ⟨hbusy, hattends, hsnext⟩ := hsound
      exact ⟨lockSoundPc_goOn hsnext, fun hm => hmust (mustHoldPc_goOn hm),
        fun hb => hbusy (mustBusyPc_goOn hb), fun _ => hattends⟩
  | cond =>
      exact ⟨(lockSound_returned status op).2,
        fun hm => absurd (mustHoldPc_goOn hm) (hsound status),
        fun hb => mustBusyPc_goOn hb, fun ho => by cases ho⟩

/-- A system call that wakes. -/
theorem wakeStep (h : LockInv s) (hq : QueueInv s) {all : Bool}
    (hpc : s.pc t = .run op (.act (.wake o all) next)) :
    LockInv ((s.mutexQueueWake t all).goto t op next) := by
  have hsound := h.sound t
  have hmust := h.must t
  rw [hpc] at hsound hmust
  obtain ⟨hnext, -, hsnext⟩ := hsound
  have hneed : (s.pc t).need = .handle o := by rw [hpc]; rfl
  obtain ⟨i, hentry, hwake⟩ := hq.wake_eq all hneed
  have hself : t ∉ toWake all (s.waiters o) := fun hmem =>
    hq.not_mem_waiters hpc o (mem_toWake_or_toLeave.2 (Or.inl hmem))
  have hplace := hq.wake_goto_pc hpc
  have hwoken : ∀ u, u ∈ toWake all (s.waiters o) → ∃ op' next', s.pc u = .asleep o op' next' ∧
      wokenPc .normal (s.pc u) = goOn .normal op' (afterWait 0 next' o) := fun u hu => by
    rw [← h.kind]
    exact hq.woken_pc hu
  rw [h.kind] at hplace
  refine h.move (by rw [hwake]; rfl) (by rw [hwake]; rfl) (by rw [hwake]; rfl) (by rw [hwake]; rfl)
    (fun u => ?_) (fun u hm => ?_) (fun u hb => ?_) fun hfree hw => ?_
  · rw [hplace]
    split_ifs with hut hu
    · exact lockSoundPc_goOn hsnext
    · obtain ⟨op', next', hp, hgo⟩ := hwoken u hu
      rw [hgo]
      exact (h.woken hp 0).1
    · exact h.sound u
  · rw [hplace] at hm
    split_ifs at hm with hut hu
    · have hm' : MustHold op next := mustHoldPc_goOn hm
      rw [hut]
      exact hmust hm'
    · obtain ⟨op', next', hp, hgo⟩ := hwoken u hu
      rw [hgo] at hm
      exact (h.woken hp 0).2.1 hm
    · exact h.must u hm
  · rw [hplace] at hb
    split_ifs at hb with hut hu
    · exact (hnext (mustBusyPc_goOn hb)).elim
    · obtain ⟨op', next', hp, hgo⟩ := hwoken u hu
      rw [hgo] at hb
      exact absurd hb (h.woken hp 0).2.2.1
    · exact h.busy u hb
  · have hwaiters : ((s.mutexQueueWake t all).goto t op next).waiters .mutex =
        if .mutex = o then toLeave all (s.waiters o) else s.waiters .mutex :=
      waiters_update hq hentry (by rw [hwake]; rfl) (by rw [hwake]; rfl) .mutex
    rw [hwaiters] at hw
    split_ifs at hw with ho
    · -- the first waiter is awake, and will try to take the lock
      subst ho
      have hne : toWake all (s.waiters .mutex) ≠ [] := by
        intro hnil
        unfold toWake toLeave at *
        split_ifs at hnil hw with hall
        · exact hw rfl
        · rw [← List.take_append_drop 1 (s.waiters .mutex), hnil] at hw
          cases hws : s.waiters .mutex with
          | nil => simp [hws] at hw
          | cons w ws => simp [hws] at hnil
      obtain ⟨w, hmem⟩ := List.exists_mem_of_ne_nil _ hne
      obtain ⟨op', next', hp, hgo⟩ := hwoken w hmem
      refine ⟨w, ?_⟩
      rw [hplace, if_neg fun hwt => hself (by rw [← hwt]; exact hmem), if_pos hmem, hgo]
      exact (h.woken hp 0).2.2.2 rfl
    · obtain ⟨u, hu⟩ := h.attended hfree hw
      have hawake : u ∉ toWake all (s.waiters o) := fun hmem => by
        obtain ⟨op', next', hp, -⟩ := hwoken u hmem
        rw [hp] at hu
        exact hu
      refine ⟨u, ?_⟩
      rw [hplace, if_neg hawake]
      split_ifs with hut
      · rw [hut, hpc] at hu
        cases o with
        | mutex => exact absurd rfl ho
        | cond => exact attendsPc_goOn hu.1 hu.2
      · exact hu

/-- A test. -/
theorem testStep (h : LockInv s) {c : Test} {yes no : Code}
    (hpc : s.pc t = .run op (.ite c yes no)) :
    LockInv (s.codeStep t input op (.ite c yes no)) := by
  have hsound : LockSound op (.ite c yes no) := by have hs := h.sound t; rwa [hpc] at hs
  obtain ⟨hyes, hno, hsyes, hsno⟩ := hsound
  simp only [PState.codeStep]
  split_ifs with hc
  · refine h.goto hpc (by simp) (by simp) (by simp) (by simp) (by simp)
      (by simp) hsyes (fun hm => ?_)
      (fun hb => absurd hb hyes) fun ha => ha.elim
    cases c with
    | queueUnset o =>
        cases o with
        | mutex => exact absurd (by simpa [PState.test] using hc) h.ready
        | cond => exact Or.inl hm
    | _ => exact Or.inl hm
  · refine h.goto hpc rfl rfl rfl rfl rfl rfl hsno (fun hm => ?_)
      (fun hb => absurd hb hno) fun ha => ha.elim
    cases c with
    | queueUnset o =>
        cases o with
        | mutex => exact hm
        | cond => exact Or.inr hm
    | _ => exact Or.inr hm

theorem codeStep (h : LockInv s) (hq : QueueInv s) (hspin : SpinInv s) (hpc : s.pc t = .run op code)
    (hexchange : ExchangeAt s t input op code) (hlive : UncanceledAt s t input op code) :
    LockInv (s.codeStep t input op code) := by
  have hsound : LockSound op code := by have hs := h.sound t; rwa [hpc] at hs
  have hmust : MustHold op code → s.depth t ≠ 0 := by have hm := h.must t; rwa [hpc] at hm
  cases code with
  | ret status => exact h.goto hpc rfl rfl rfl rfl rfl rfl trivial id id id
  | body => exact h.goto hpc rfl rfl rfl rfl rfl rfl trivial id id id
  | spinLock o next =>
      simp only [PState.codeStep]
      split_ifs
      · exact h.congr rfl rfl rfl rfl rfl rfl
      · exact h.goto hpc (by simp) (by simp) (by simp) (by simp) (by simp) (by simp) hsound.2 id
          (fun hb => absurd hb hsound.1) id
  | xchgLock busy free =>
      simp only [PState.codeStep, memXchg32_zero hexchange]
      split_ifs with hold
      · have hnot : ¬s.lock = 1 := by rw [hold]; decide
        have hmust' : MustHold op busy → s.depth t ≠ 0 := hmust
        exact h.step (t := t) (p := goOn .normal op busy) rfl rfl hold.symm rfl
          (by rw [← h.kind]; rfl)
          (lockSoundPc_goOn hsound.2.1) (fun hm => hmust' (mustHoldPc_goOn hm)) (fun _ => hold)
          (fun hone => absurd hone hnot) fun hone => absurd hone hnot
      · exact h.take (t := t) (p := goOn .normal op free) (h.word.resolve_left hold) rfl rfl rfl rfl
          (by rw [← h.kind]; rfl) (lockSoundPc_goOn hsound.2.2)
  | ite c yes no => exact h.testStep hpc
  | act i next =>
      obtain ⟨hnext, hinstr, hsnext⟩ := hsound
      cases i with
      | wait o timed => exact h.waitStep hq hpc hlive
      | wake o all => exact h.wakeStep hq hpc
      | freeLock =>
          obtain ⟨hnot, hholds, hop, hattends⟩ := hinstr
          exact h.free (t := t) (p := goOn .normal op next) hspin (hmust trivial)
            (by rw [hpc]; exact hholds) rfl rfl rfl rfl (by rw [← h.kind]; rfl)
            (lockSoundPc_goOn hsnext)
            (fun hm => hnot (mustHoldPc_goOn hm)) (fun hb => hnext (mustBusyPc_goOn hb))
            (attendsPc_goOn hop hattends)
      | takeLock =>
          have hzero : s.lock = 0 := h.held.held.2 ⟨t, hmust trivial⟩
          exact h.goto hpc rfl rfl rfl hzero.symm rfl rfl hsnext (fun _ => trivial) hnext id
      | incCount => exact hinstr.elim
      | decCount => exact hinstr.elim
      | alloc =>
          exact absurd (hq.setting t (Or.inl (by rw [hpc]; rfl))).2 h.ready
      | setQueue =>
          exact absurd (hq.setting t (Or.inr (by rw [hpc]; rfl))).2 h.ready
      | _ => exact h.goto hpc rfl rfl rfl rfl rfl rfl hsnext id hnext id

/-- The end of a timed sleep. -/
theorem timeout (h : LockInv s) (hq : QueueInv s) (hpc : s.pc t = .asleep o op next) :
    LockInv ((s.sleepOver t).goto t op (afterWait etimedout next o)) := by
  obtain ⟨i, hhandle, hentry, hslot⟩ := hq.slot_of_need (t := t) (o := o) (by rw [hpc]; rfl)
  have hover : s.sleepOver t =
      { s with slots := Function.update s.slots i (some ((s.waiters o).filter (· ≠ t))) } := by
    rw [PState.sleepOver, hhandle]
    simp only [hslot]
    rfl
  obtain ⟨hsound, hmust, hbusy, -⟩ := h.woken hpc etimedout
  rw [hover]
  refine h.step (t := t) (p := goOn .normal op (afterWait etimedout next o)) rfl rfl rfl rfl
    (by rw [← h.kind]; rfl) hsound hmust (fun hb => absurd hb hbusy)
    (fun _ hw hnil => hw ?_) fun _ ha => ?_
  · have hwaiters : ∀ s' : PState, s'.queue = s.queue →
        s'.slots = Function.update s.slots i (some ((s.waiters o).filter (· ≠ t))) →
        s'.waiters .mutex = if .mutex = o then (s.waiters o).filter (· ≠ t) else s.waiters .mutex :=
      fun s' hqueue hslots => waiters_update hq hentry hqueue hslots .mutex
    refine (hwaiters _ (by rfl) (by rfl)).trans ?_
    split_ifs with ho
    · rw [← ho, hnil]
      rfl
    · exact hnil
  · rw [hpc] at ha
    exact ha.elim

end LockInv

/-- A call that does not free the mutex asks nothing of it. -/
theorem mustHold_entry (hcall : op.isCall = true) (hmust : MustHold op (entry .normal op)) :
    op.freesAtBody := by
  cases op <;>
    simp_all [entry, setUp, trylockBody, leave, MustHold, Op.holdsAtRet, Op.freesAtBody, Op.isCall]

/-- **An event keeps the lock in order.** -/
theorem lock_event (h : LockInv s) (hq : QueueInv s) (hspin : SpinInv s) {e : Event}
    (hexchange : AtRun ExchangeAt s e) (hlive : AtRun UncanceledAt s e) (hheld : WhileHeld s e)
    (hstep : pthreadStep s e = some s') : LockInv s' := by
  obtain ⟨s₁, hevent, rfl⟩ := Option.map_eq_some_iff.1 hstep
  suffices hinv : LockInv s₁ from hinv.congr rfl rfl rfl rfl rfl rfl
  cases e with
  | call t op =>
      simp only [PState.event] at hevent
      split_ifs at hevent with hcall
      cases hevent
      have hentry := lockSound_entry op
      refine h.step (t := t) (p := .run op (entry .normal op)) rfl rfl rfl rfl (by rw [h.kind])
        hentry.2 (fun hm => ?_) (fun hb => absurd hb hentry.1) (fun _ => id) fun _ ha => ?_
      · have hfrees := mustHold_entry hcall.2.2 hm
        cases op <;> first | exact hheld | exact hfrees.elim | cases hcall.2.2
      · rw [hcall.1] at ha
        exact ha.elim
  | run t input =>
      simp only [PState.event] at hevent
      split at hevent
      · rename_i op code hpc
        cases hevent
        simp only [AtRun, hpc] at hexchange hlive
        exact h.codeStep hq hspin hpc hexchange hlive
      · rename_i op status hpc
        cases hevent
        refine h.step (t := t) (p := .out) rfl rfl rfl rfl rfl trivial (fun hm => hm.elim)
          (fun hb => hb.elim) (fun _ => id) fun _ ha => ?_
        rw [hpc] at ha
        exact ha.elim
      · cases hevent
  | timeout t =>
      simp only [PState.event] at hevent
      split at hevent
      · rename_i o next hpc
        cases hevent
        exact h.timeout hq hpc
      · cases hevent
  | cancel t =>
      simp only [PState.event] at hevent
      split_ifs at hevent
      cases hevent
      exact h.congr rfl rfl rfl rfl rfl rfl
  | setCancelState t disable =>
      simp only [PState.event] at hevent
      split_ifs at hevent
      cases hevent
      exact h.congr rfl rfl rfl rfl rfl rfl

end Pthread
end LightOS
