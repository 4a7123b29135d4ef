import LightOS.Pthread.Mutex

/-!
# The waiters of a condition variable

* `CondSound` — what the code of a wait and of a signal keeps to.
* `CondInv` — the list of the waiters is in the order in which they went to sleep, a thread that
  sleeps has freed the mutex, and one that has been woken was signalled since.
* `cond_event` — an event keeps it, if no call has a timeout.
-/

namespace LightOS
namespace Pthread

open Threads

/-! ## Code -/

/-- The parts of a wait that return before its sleep has begun, or with it. -/
def Op.early : Op → Prop
  | .wait _ | .waitSleep _ => True
  | _ => False

/-- The part of a wait that frees the mutex. -/
def Op.releasing : Op → Prop
  | .waitUnlock _ => True
  | _ => False

/-- The part of a wait that sleeps. -/
def Op.sleeping : Op → Prop
  | .waitSleep _ => True
  | _ => False

/-- The part of a wait that locks the mutex again. -/
def Op.relocking : Op → Prop
  | .waitLock _ _ => True
  | _ => False

/-- A signal or a broadcast. -/
def Op.signals : Op → Prop
  | .signal _ => True
  | _ => False

/-- The calls and parts without a timeout. -/
def Op.untimed : Op → Prop
  | .wait timed | .waitUnlock timed | .waitSleep timed | .waitLock timed _ => timed = false
  | _ => True

/-- The code returns at once. -/
def Code.isRet : Code → Prop
  | .ret _ => True
  | _ => False

/-- The rest of the set-up of a queue. -/
def Code.inSetUp : Code → Prop
  | .act .alloc _ | .act .setQueue _ | .ite .queueBad _ _ => True
  | _ => False

/-- The code wakes waiters of the condition variable. -/
def Code.wakes : Code → Prop
  | .act (.wake .cond _) _ => True
  | .act _ next => next.wakes
  | _ => False

/-- The condition on one instruction. -/
def CondSoundInstr (op : Op) (next : Code) : Instr → Prop
  | .freeLock => op = .unlock ∨ op.releasing
  | .takeLock => ¬op.releasing
  | .wait .mutex _ => op = .lock ∨ op.relocking
  | .wait .cond timed => op.sleeping ∧ timed = false
  | .wake .cond all => op = .signal all ∧ Holds .cond op next ∧ ¬next.wakes
  | .spinUnlock .cond => op.signals
  | _ => True

/-- A wait frees the mutex, sleeps until it is signalled, and locks the mutex again; a thread that
has the spin lock of the mutex does not ask for that of the condition variable. -/
def CondSound (op : Op) : Code → Prop
  | .ret _ | .body => True
  | .spinLock o next =>
      (o = .cond → ¬Holds .mutex op next) ∧ ¬next.inSetUp ∧ (op.early → ¬next.isRet) ∧
        CondSound op next
  | .xchgLock busy free =>
      ¬op.early ∧ ¬op.releasing ∧ ¬busy.inSetUp ∧ ¬free.inSetUp ∧ CondSound op busy ∧
        CondSound op free
  | .ite c yes no =>
      (yes.inSetUp → c = .queueUnset .mutex) ∧ ¬no.inSetUp ∧
        (op.early → (yes.isRet → c = .queueUnset .cond) ∧ ¬no.isRet) ∧
        (op.releasing → c = .queueUnset .mutex ∨ c = .queueBad) ∧ CondSound op yes ∧ CondSound op no
  | .act i next =>
      (next.inSetUp → (Code.act i next).inSetUp) ∧ (op.early → next.isRet → i = .wait .cond false) ∧
        CondSoundInstr op next i ∧ CondSound op next

/-- The code left agrees with this, and is not in the set-up of the queue; a wait has the spin lock
until it sleeps, and returns 0. -/
def CondSoundPc : Pc → Prop
  | .run op code =>
      op.untimed ∧ ¬code.inSetUp ∧ (op.early → ¬code.isRet) ∧
        (op.releasing ∨ op.sleeping → Holds .cond op code) ∧ CondSound op code
  | .asleep .mutex op next => op.untimed ∧ (op = .lock ∨ op.relocking) ∧ ¬next.inSetUp ∧
      CondSound op next
  | .asleep .cond op _ => op.untimed ∧ op.sleeping
  | .ret (.wait _) status => status = 0
  | _ => True

/-- The thread has freed the mutex, and not been woken. -/
def Released (op : Op) (code : Code) : Prop := op.releasing ∧ ¬MustHold op code ∨ op.sleeping

/-- The thread has freed the mutex in a wait, and not been woken. -/
def ReleasedPc : Pc → Prop
  | .run op code => Released op code
  | .asleep o _ _ => o = .cond
  | _ => False

/-- The thread has been woken in a wait. -/
def WokenPc : Pc → Prop
  | .run op _ | .asleep _ op _ => op.relocking
  | .ret (.wait _) _ => True
  | _ => False

/-- The thread is in a signal, with the spin lock of the condition variable. -/
def SignalsPc : Pc → Prop
  | .run op code => op.signals ∧ Holds .cond op code
  | _ => False

variable {s s' : PState} {t : ℕ} {o : Obj} {op : Op} {code next : Code} {p : Pc} {input : Input}
  {status : ℕ}

theorem condSound_entry (op : Op) (hop : op.untimed) :
    CondSoundPc (.run op (entry .normal op)) := by
  refine ⟨hop, ?_⟩
  cases op <;>
    simp_all [entry, setUp, trylockBody, leave, CondSound, CondSoundInstr, Code.inSetUp, Code.isRet,
      Code.wakes, Holds, Op.early, Op.releasing, Op.sleeping, Op.signals, Op.untimed, Op.condAtRet,
      Op.condAtBody]

theorem condSound_bodyOf (hop : op.untimed) : CondSoundPc (bodyOf .normal op) := by
  have hentry := condSound_entry op hop
  cases op <;> first
    | exact hentry
    | simp_all [bodyOf, setUp, lockBody, unlockBody, take, release, leave, CondSoundPc, CondSound,
        CondSoundInstr, Code.inSetUp, Code.isRet, Holds, Op.early, Op.releasing, Op.sleeping,
        Op.relocking, Op.untimed, Op.condAtRet]

theorem condSound_returned (status : ℕ) (hop : op.untimed) (hret : op.early → op.sleeping) :
    CondSoundPc (returned status op) := by
  cases op with
  | wait timed => exact (hret trivial).elim
  | waitUnlock timed => exact condSound_entry (.waitSleep timed) hop
  | waitSleep timed => exact condSound_entry (.waitLock timed status) hop
  | waitLock timed retval => exact if_neg (by rw [show timed = false from hop]; decide)
  | _ => trivial

theorem condSoundPc_goOn (hop : op.untimed) (hset : ¬code.inSetUp)
    (hret : op.early → code.isRet → op.sleeping)
    (hheld : op.releasing ∨ op.sleeping → code.isRet ∨ Holds .cond op code)
    (h : CondSound op code) :
    CondSoundPc (goOn .normal op code) := by
  cases code with
  | ret status => exact condSound_returned status hop fun he => hret he trivial
  | body => exact condSound_bodyOf hop
  | _ => exact ⟨hop, hset, fun _ => id, fun hrel => (hheld hrel).resolve_left id, h⟩

theorem releasedPc_goOn : ReleasedPc (goOn .normal op code) → Released op code := by
  cases code with
  | ret status =>
      cases op <;> simp [goOn, returned, ReleasedPc, Released, Op.releasing, Op.sleeping, MustHold,
        Op.holdsAtRet]
  | body =>
      cases op <;> simp [goOn, bodyOf, entry, setUp, unlockBody, release, ReleasedPc, Released,
        Op.releasing, Op.sleeping, MustHold, Op.freesAtBody]
  | _ => exact id

theorem wokenPc_goOn : WokenPc (goOn .normal op code) → op.relocking ∨ op.early ∧ code.isRet := by
  cases code with
  | ret status => cases op <;> simp [goOn, returned, WokenPc, Op.relocking, Op.early, Code.isRet]
  | body => cases op <;> simp [goOn, bodyOf, WokenPc, Op.relocking]
  | _ => exact Or.inl

theorem signalsPc_goOn : SignalsPc (goOn .normal op code) → op.signals ∧ Holds .cond op code := by
  cases code with
  | ret status => cases op <;> simp [goOn, returned, SignalsPc, Op.signals]
  | body => cases op <;> simp [goOn, bodyOf, SignalsPc, Op.signals, entry, Holds, Op.condAtRet]
  | _ => exact id

/-- A call begins neither inside a wait nor with a signal under way. -/
theorem call_facts (hcall : op.isCall = true) :
    ¬op.releasing ∧ ¬op.sleeping ∧ ¬op.relocking ∧ ¬SignalsPc (.run op (entry .normal op)) := by
  cases op <;>
    simp [Op.releasing, Op.sleeping, Op.relocking, SignalsPc, Op.signals, entry, Holds,
      Op.condAtRet, Op.isCall] at hcall ⊢

/-! ## The invariant -/

/-- A signal has taken the spin lock since the thread freed the mutex. -/
def SignaledSince (s : PState) (t : ℕ) : Prop := ∃ r, s.releasedAt t = some r ∧ r < s.signaledAt

/-- The waiters of the condition variable, and when they slept and were signalled. -/
structure CondInv (s : PState) : Prop where
  sound : ∀ t, CondSoundPc (s.pc t)
  ready : s.queue .cond ≠ -1
  released : ∀ t, ReleasedPc (s.pc t) → ∃ r, s.releasedAt t = some r ∧ r < s.now
  signaled : ∀ t u, AsleepOn .cond (s.pc t) → SignalsPc (s.pc u) → SignaledSince s t
  woken : ∀ t, WokenPc (s.pc t) → SignaledSince s t
  le : s.signaledAt ≤ s.now
  before : ∀ t ∈ s.waiters .cond, s.queuedAt t < s.now
  order : (s.waiters .cond).Pairwise fun t u => s.queuedAt t < s.queuedAt u

namespace CondInv

/-- Threads move, and nobody frees the mutex, goes to sleep on the condition variable or begins to
signal. -/
theorem move (h : CondInv s) (hnow : s'.now = s.now + 1) (hqueue : s'.queue .cond = s.queue .cond)
    (hreleasedAt : ∀ u, ReleasedPc (s'.pc u) ∨ WokenPc (s'.pc u) ∨ AsleepOn .cond (s'.pc u) →
      s'.releasedAt u = s.releasedAt u)
    (hsignaledAt : s'.signaledAt = s.signaledAt)
    (hqueuedAt : ∀ u ∈ s'.waiters .cond, s'.queuedAt u = s.queuedAt u)
    (hwaiters : (s'.waiters .cond).Sublist (s.waiters .cond)) (hsound : ∀ u, CondSoundPc (s'.pc u))
    (hreleased : ∀ u, ReleasedPc (s'.pc u) → ReleasedPc (s.pc u))
    (hasleep : ∀ u, AsleepOn .cond (s'.pc u) → AsleepOn .cond (s.pc u))
    (hsignals : ∀ u, SignalsPc (s'.pc u) → SignalsPc (s.pc u))
    (hwoken : ∀ u, WokenPc (s'.pc u) → SignaledSince s u) : CondInv s' := by
  refine ⟨hsound,
    by rw [hqueue]; exact h.ready, fun u hu => ?_, fun u v hu hv => ?_, fun u hu => ?_, ?_,
    fun u hu => ?_, ?_⟩
  · obtain ⟨r, hr, hlt⟩ := h.released u (hreleased u hu)
    exact ⟨r, by rw [hreleasedAt u (Or.inl hu), hr], by omega⟩
  · obtain ⟨r, hr, hlt⟩ := h.signaled u v (hasleep u hu) (hsignals v hv)
    exact ⟨r, by rw [hreleasedAt u (Or.inr (Or.inr hu)), hr], by rw [hsignaledAt]; exact hlt⟩
  · obtain ⟨r, hr, hlt⟩ := hwoken u hu
    exact ⟨r, by rw [hreleasedAt u (Or.inr (Or.inl hu)), hr], by rw [hsignaledAt]; exact hlt⟩
  · have hle := h.le
    omega
  · have hlt := h.before u (hwaiters.subset hu)
    rw [hqueuedAt u hu]
    omega
  · refine (h.order.sublist hwaiters).imp_of_mem fun {u v} hu hv hlt => ?_
    rw [hqueuedAt u hu, hqueuedAt v hv]
    exact hlt

/-- One thread moves. -/
theorem step (h : CondInv s) (hnow : s'.now = s.now + 1) (hqueue : s'.queue .cond = s.queue .cond)
    (hreleasedAt : s'.releasedAt = s.releasedAt) (hsignaledAt : s'.signaledAt = s.signaledAt)
    (hqueuedAt : s'.queuedAt = s.queuedAt) (hwaiters : s'.waiters .cond = s.waiters .cond)
    (hpc : s'.pc = Function.update s.pc t p) (hsound : CondSoundPc p)
    (hreleased : ReleasedPc p → ReleasedPc (s.pc t)) (hasleep : ¬AsleepOn .cond p)
    (hsignals : SignalsPc p → SignalsPc (s.pc t)) (hwoken : WokenPc p → WokenPc (s.pc t)) :
    CondInv s' := by
  refine h.move hnow hqueue (fun u _ => by rw [hreleasedAt]) hsignaledAt
    (fun u _ => by rw [hqueuedAt]) (by rw [hwaiters]) ?_ ?_ ?_ ?_ ?_
  · rw [hpc]
    exact forall_update (P := fun _ q => CondSoundPc q) hsound fun u _ => h.sound u
  · rw [hpc]
    exact forall_update (P := fun u q => ReleasedPc q → ReleasedPc (s.pc u)) hreleased fun _ _ => id
  · rw [hpc]
    exact forall_update (P := fun u q => AsleepOn .cond q → AsleepOn .cond (s.pc u))
      (fun ha => absurd ha hasleep) fun _ _ => id
  · rw [hpc]
    exact forall_update (P := fun u q => SignalsPc q → SignalsPc (s.pc u)) hsignals fun _ _ => id
  · rw [hpc]
    exact forall_update (P := fun u q => WokenPc q → SignaledSince s u)
      (fun hw => h.woken t (hwoken hw)) fun u _ => h.woken u

/-- A thread goes on in its code. -/
theorem goto (h : CondInv s) (hpc : s.pc t = .run op code) (hnow : s'.now = s.now + 1)
    (hqueue : s'.queue = s.queue) (hslots : s'.slots = s.slots)
    (hreleasedAt : s'.releasedAt = s.releasedAt) (hsignaledAt : s'.signaledAt = s.signaledAt)
    (hqueuedAt : s'.queuedAt = s.queuedAt)
    (hpc' : s'.pc = Function.update s.pc t (goOn .normal op next)) (hset : ¬next.inSetUp)
    (hsound : CondSound op next) (hreleased : Released op next → Released op code)
    (hholds : op.signals → Holds .cond op next → Holds .cond op code)
    (hkeeps : op.releasing ∨ op.sleeping → Holds .cond op code → Holds .cond op next)
    (hret : op.early → ¬next.isRet) : CondInv s' := by
  have hs := h.sound t
  rw [hpc] at hs
  obtain ⟨hop, -, -, hheld, -⟩ := hs
  refine h.step hnow (by rw [hqueue]) hreleasedAt hsignaledAt hqueuedAt
    (by simp only [PState.waiters, hqueue, hslots]) hpc'
    (condSoundPc_goOn hop hset (fun he hr => absurd hr (hret he))
      (fun hrel => Or.inr (hkeeps hrel (hheld hrel))) hsound) (fun hr => ?_)
    not_asleepOn_goOn (fun hsig => ?_) fun hw => ?_ <;> rw [hpc]
  · exact hreleased (releasedPc_goOn hr)
  · obtain ⟨hsigs, hh⟩ := signalsPc_goOn hsig
    exact ⟨hsigs, hholds hsigs hh⟩
  · rcases wokenPc_goOn hw with hre | ⟨hearly, hr⟩
    · exact hre
    · exact absurd hr (hret hearly)

/-- **A signal takes the spin lock** of the condition variable. -/
theorem signal (h : CondInv s) (hnow : s'.now = s.now + 1) (hqueue : s'.queue = s.queue)
    (hslots : s'.slots = s.slots) (hreleasedAt : s'.releasedAt = s.releasedAt)
    (hsignaledAt : s'.signaledAt = s.now) (hqueuedAt : s'.queuedAt = s.queuedAt)
    (hpc : s'.pc = Function.update s.pc t p) (hsound : CondSoundPc p) (hreleased : ¬ReleasedPc p)
    (hasleep : ¬AsleepOn .cond p) (hwoken : ¬WokenPc p) : CondInv s' := by
  have hwaiters : s'.waiters .cond = s.waiters .cond := by
    simp only [PState.waiters, hqueue, hslots]
  have hle := h.le
  refine ⟨?_, by rw [hqueue]; exact h.ready, ?_, ?_, ?_, by omega, ?_, ?_⟩
  · rw [hpc]
    exact forall_update (P := fun _ q => CondSoundPc q) hsound fun u _ => h.sound u
  · rw [hpc, hreleasedAt]
    refine forall_update (P := fun u q => ReleasedPc q → ∃ r, s.releasedAt u = some r ∧ r < s'.now)
      (fun hr => absurd hr hreleased) fun u _ hu => ?_
    obtain ⟨r, hr, hlt⟩ := h.released u hu
    exact ⟨r, hr, by omega⟩
  · intro u v hu _
    have hold : AsleepOn .cond (s.pc u) := by
      rw [hpc] at hu
      by_cases hut : u = t
      · rw [hut, Function.update_self] at hu
        exact absurd hu hasleep
      · rwa [Function.update_of_ne hut] at hu
    have hrel : ReleasedPc (s.pc u) := by
      cases hp : s.pc u <;> rw [hp] at hold <;> first | exact hold | exact hold.elim
    obtain ⟨r, hr, hlt⟩ := h.released u hrel
    exact ⟨r, by rw [hreleasedAt, hr], by rw [hsignaledAt]; exact hlt⟩
  · rw [hpc]
    refine forall_update (P := fun u q => WokenPc q → SignaledSince s' u)
      (fun hw => absurd hw hwoken)
      fun u _ hu => ?_
    obtain ⟨r, hr, hlt⟩ := h.woken u hu
    exact ⟨r, by rw [hreleasedAt, hr], by omega⟩
  · intro u hu
    rw [hwaiters] at hu
    have hlt := h.before u hu
    rw [hqueuedAt]
    omega
  · rw [hwaiters, hqueuedAt]
    exact h.order

/-- **A thread goes to sleep** on the condition variable, whose spin lock it has. -/
theorem sleep (h : CondInv s) (hq : QueueInv s) (hspin : SpinInv s) (hpc : s.pc t = .run op code)
    (hholds : Holds .cond op code) (hsleeping : op.sleeping) (huntimed : op.untimed)
    (hnow : s'.now = s.now + 1) (hqueue : s'.queue = s.queue)
    (hwaiters : s'.waiters .cond = s.waiters .cond ++ [t])
    (hreleasedAt : s'.releasedAt = s.releasedAt) (hsignaledAt : s'.signaledAt = s.signaledAt)
    (hqueuedAt : s'.queuedAt = Function.update s.queuedAt t s.now)
    (hpc' : s'.pc = Function.update s.pc t (.asleep .cond op next)) : CondInv s' := by
  have hnot : t ∉ s.waiters .cond := fun hmem => by
    have hasleep := (hq.sleeps t .cond).2 hmem
    rw [hpc] at hasleep
    exact hasleep
  have hne : ∀ u ∈ s.waiters .cond, u ≠ t := fun u hu hut => hnot (by rw [← hut]; exact hu)
  have hsleep : ¬op.relocking := by cases op <;> first | exact id | exact hsleeping.elim
  refine ⟨?_, by rw [hqueue]; exact h.ready, ?_, ?_, ?_, ?_, ?_, ?_⟩
  · rw [hpc']
    exact forall_update (P := fun _ q => CondSoundPc q) ⟨huntimed, hsleeping⟩ fun u _ => h.sound u
  · rw [hpc', hreleasedAt]
    refine forall_update (P := fun u q => ReleasedPc q → ∃ r, s.releasedAt u = some r ∧ r < s'.now)
      (fun _ => ?_) fun u _ hu => ?_
    · obtain ⟨r, hr, hlt⟩ := h.released t (by rw [hpc]; exact Or.inr hsleeping)
      exact ⟨r, hr, by omega⟩
    · obtain ⟨r, hr, hlt⟩ := h.released u hu
      exact ⟨r, hr, by omega⟩
  · -- nobody else has the spin lock
    intro u v _ hv
    rw [hpc'] at hv
    by_cases hvt : v = t
    · rw [hvt, Function.update_self] at hv
      exact hv.elim
    · rw [Function.update_of_ne hvt] at hv
      have hv' : HoldsPc .cond (s.pc v) := by
        cases hp : s.pc v <;> rw [hp] at hv <;> first | exact hv.2 | exact hv.elim
      exact absurd ((hspin.guard .cond).unique v t hv' (by rw [hpc]; exact hholds)) hvt
  · rw [hpc']
    refine forall_update (P := fun u q => WokenPc q → SignaledSince s' u)
      (fun hw => absurd hw hsleep)
      fun u _ hu => ?_
    obtain ⟨r, hr, hlt⟩ := h.woken u hu
    exact ⟨r, by rw [hreleasedAt, hr], by rw [hsignaledAt]; exact hlt⟩
  · have hle := h.le
    omega
  · intro u hu
    rw [hwaiters, List.mem_append, List.mem_singleton] at hu
    rw [hqueuedAt]
    rcases hu with hu | rfl
    · have hlt := h.before u hu
      rw [Function.update_of_ne (hne u hu)]
      omega
    · rw [Function.update_self]
      omega
  · rw [hwaiters, hqueuedAt, List.pairwise_append]
    refine ⟨h.order.imp_of_mem fun {u v} hu hv hlt => ?_, List.pairwise_singleton _ _,
      fun u hu v hv => ?_⟩
    · rw [Function.update_of_ne (hne u hu), Function.update_of_ne (hne v hv)]
      exact hlt
    · rw [List.mem_singleton.1 hv, Function.update_self, Function.update_of_ne (hne u hu)]
      exact h.before u hu

/-- **A thread frees the mutex.** -/
theorem free (h : CondInv s) (hpc : s.pc t = .run op code) (hop : op = .unlock ∨ op.releasing)
    (hnow : s'.now = s.now + 1) (hqueue : s'.queue = s.queue) (hslots : s'.slots = s.slots)
    (hreleasedAt : s'.releasedAt = Function.update s.releasedAt t (some s.now))
    (hsignaledAt : s'.signaledAt = s.signaledAt) (hqueuedAt : s'.queuedAt = s.queuedAt)
    (hpc' : s'.pc = Function.update s.pc t (goOn .normal op next)) (hset : ¬next.inSetUp)
    (hkeeps : Holds .cond op code → Holds .cond op next) (hsound : CondSound op next) :
    CondInv s' := by
  have hs := h.sound t
  rw [hpc] at hs
  obtain ⟨huntimed, -, -, hheld, -⟩ := hs
  have hfacts : ¬op.relocking ∧ ¬op.early ∧ ¬op.signals := by
    rcases hop with rfl | hop
    · exact ⟨id, id, id⟩
    · cases op <;> first | exact hop.elim | exact ⟨id, id, id⟩
  have hwaiters : s'.waiters .cond = s.waiters .cond := by
    simp only [PState.waiters, hqueue, hslots]
  have hle := h.le
  refine ⟨?_, by rw [hqueue]; exact h.ready, ?_, ?_, ?_, by omega, ?_, ?_⟩
  · rw [hpc']
    exact forall_update (P := fun _ q => CondSoundPc q)
      (condSoundPc_goOn huntimed hset (fun he => absurd he hfacts.2.1)
        (fun hrel => Or.inr (hkeeps (hheld hrel))) hsound) fun u _ => h.sound u
  · rw [hpc', hreleasedAt]
    refine forall_update (P := fun u q => ReleasedPc q →
      ∃ r, Function.update s.releasedAt t (some s.now) u = some r ∧ r < s'.now) (fun _ => ?_)
      fun u hut hu => ?_
    · exact ⟨s.now, by rw [Function.update_self], by omega⟩
    · obtain ⟨r, hr, hlt⟩ := h.released u hu
      exact ⟨r, by rw [Function.update_of_ne hut, hr], by omega⟩
  · intro u v hu hv
    rw [hpc'] at hu hv
    by_cases hut : u = t
    · rw [hut, Function.update_self] at hu
      exact absurd hu not_asleepOn_goOn
    · by_cases hvt : v = t
      · rw [hvt, Function.update_self] at hv
        exact absurd (signalsPc_goOn hv).1 hfacts.2.2
      · rw [Function.update_of_ne hut] at hu
        rw [Function.update_of_ne hvt] at hv
        obtain ⟨r, hr, hlt⟩ := h.signaled u v hu hv
        exact ⟨r, by rw [hreleasedAt, Function.update_of_ne hut, hr],
          by rw [hsignaledAt]; exact hlt⟩
  · rw [hpc']
    refine forall_update (P := fun u q => WokenPc q → SignaledSince s' u) (fun hw => ?_)
      fun u hut hu => ?_
    · rcases wokenPc_goOn hw with hre | ⟨hearly, -⟩
      · exact absurd hre hfacts.1
      · exact absurd hearly hfacts.2.1
    · obtain ⟨r, hr, hlt⟩ := h.woken u hu
      exact ⟨r, by rw [hreleasedAt, Function.update_of_ne hut, hr], by rw [hsignaledAt]; exact hlt⟩
  · intro u hu
    rw [hwaiters] at hu
    have hlt := h.before u hu
    rw [hqueuedAt]
    omega
  · rw [hwaiters, hqueuedAt]
    exact h.order

/-- Where a thread is that leaves the list of the condition variable. -/
theorem woken_cond {u : ℕ} (h : CondInv s) (hpc : s.pc u = .asleep .cond op next) :
    CondSoundPc (goOn .normal op (.ret 0)) ∧ ¬ReleasedPc (goOn .normal op (.ret 0)) ∧
      ¬SignalsPc (goOn .normal op (.ret 0)) := by
  have hsound := h.sound u
  rw [hpc] at hsound
  obtain ⟨huntimed, hsleeping⟩ := hsound
  refine ⟨condSoundPc_goOn huntimed id (fun _ _ => hsleeping) (fun _ => Or.inl trivial) trivial,
    ?_, fun hsig => ?_⟩
  · cases op <;> first | exact hsleeping.elim | skip
    rintro (⟨hreleasing, -⟩ | hsleep)
    · exact hreleasing
    · exact hsleep
  · have hsigs := (signalsPc_goOn hsig).1
    cases op <;> first | exact hsleeping | exact hsigs

/-- Where a thread is that leaves the list of the mutex. -/
theorem woken_mutex {u : ℕ} (h : CondInv s) (hpc : s.pc u = .asleep .mutex op next) :
    CondSoundPc (goOn .normal op next) ∧ ¬ReleasedPc (goOn .normal op next) ∧
      ¬SignalsPc (goOn .normal op next) ∧ (WokenPc (goOn .normal op next) → WokenPc (s.pc u)) := by
  have hsound := h.sound u
  rw [hpc] at hsound ⊢
  obtain ⟨huntimed, hop, hset, hsnext⟩ := hsound
  have hfacts : ¬op.early ∧ ¬op.releasing ∧ ¬op.sleeping ∧ ¬op.signals := by
    rcases hop with rfl | hop
    · exact ⟨id, id, id, id⟩
    · cases op <;> first | exact hop.elim | exact ⟨id, id, id, id⟩
  refine ⟨condSoundPc_goOn huntimed hset (fun he => absurd he hfacts.1)
      (fun hrel => absurd hrel (not_or.2 ⟨hfacts.2.1, hfacts.2.2.1⟩)) hsnext, fun hr => ?_,
    fun hsig => hfacts.2.2.2 (signalsPc_goOn hsig).1, fun hw => ?_⟩
  · rcases releasedPc_goOn hr with ⟨hreleasing, -⟩ | hsleeping
    · exact hfacts.2.1 hreleasing
    · exact hfacts.2.2.1 hsleeping
  · rcases wokenPc_goOn hw with hre | ⟨hearly, -⟩
    · exact hre
    · exact absurd hearly hfacts.1

/-- A system call that waits. -/
theorem waitStep (h : CondInv s) (hq : QueueInv s) (hspin : SpinInv s) (hkind : s.kind = .normal)
    {timed : Bool} (hpc : s.pc t = .run op (.act (.wait o timed) next))
    (hlive : ¬(s.cancelDisable t = false ∧ s.canceled t = true)) :
    CondInv { s.mutexQueueWait t o timed input.time op next with now := s.now + 1 } := by
  have hsound := h.sound t
  rw [hpc] at hsound
  obtain ⟨huntimed, -, -, hheld, hset, hret, hinstr, hsnext⟩ := hsound
  obtain ⟨i, hhandle, hentry, hslot⟩ := hq.slot_of_need (t := t) (o := o) (by rw [hpc]; rfl)
  have hset' : ¬next.inSetUp := fun hs => hset hs
  unfold PState.mutexQueueWait
  rw [hhandle]
  simp only [hslot, if_neg hlive]
  cases o with
  | mutex =>
      have hop : op = .lock ∨ op.relocking := hinstr
      have hearly : op.early → ¬next.isRet := fun he hr => by cases hret he hr
      have hreleased : Released op next → Released op (.act (.wait .mutex timed) next) := id
      have hholds : op.signals → Holds .cond op next →
          Holds .cond op (.act (.wait .mutex timed) next) := by
        rintro hsig -
        rcases hop with rfl | hop
        · exact hsig.elim
        · cases op <;> first | exact hop.elim | exact hsig.elim
      have hkeeps : op.releasing ∨ op.sleeping → Holds .cond op (.act (.wait .mutex timed) next) →
          Holds .cond op next := fun _ hh => by cases hh
      split_ifs
      · exact h.goto hpc rfl rfl rfl rfl rfl rfl (by rw [← hkind]; rfl) hset' hsnext hreleased
          hholds hkeeps
          hearly
      · exact h.goto hpc rfl rfl rfl rfl rfl rfl (by rw [← hkind]; rfl) hset' hsnext hreleased
          hholds hkeeps
          hearly
      · -- the list of the condition variable is another
        have hother : ∀ s' : PState, s'.queue = s.queue →
            s'.slots = Function.update s.slots i (some (s.waiters .mutex ++ [t])) →
            s'.waiters .cond = s.waiters .cond := fun s' => waiters_other hq hentry (by decide)
        have hsame :=
          hother { s with slots := Function.update s.slots i (some (s.waiters .mutex ++ [t])) }
          rfl rfl
        refine h.move rfl rfl (fun _ _ => rfl) rfl (fun u hu => ?_) ?_ ?_ ?_ ?_ ?_ ?_
        · refine Function.update_of_ne (fun hut => hq.not_mem_waiters hpc .cond ?_) _ _
          rw [← hut, ← hsame]
          exact hu
        · exact hsame ▸ List.Sublist.refl _
        · exact forall_update (P := fun _ q => CondSoundPc q) ⟨huntimed, hop, hset', hsnext⟩
            fun u _ => h.sound u
        · exact forall_update (P := fun u q => ReleasedPc q → ReleasedPc (s.pc u))
            (fun hr => by cases hr)
            fun _ _ => id
        · exact forall_update (P := fun u q => AsleepOn .cond q → AsleepOn .cond (s.pc u))
            (fun ha => by cases ha) fun _ _ => id
        · exact forall_update (P := fun u q => SignalsPc q → SignalsPc (s.pc u))
            (fun hsig => hsig.elim)
            fun _ _ => id
        · refine forall_update (P := fun u q => WokenPc q → SignaledSince s u) (fun hw => ?_)
            fun u _ => h.woken u
          exact h.woken t (by rw [hpc]; exact hw)
  | cond =>
      obtain ⟨hsleeping, rfl⟩ := hinstr
      simp only [Bool.false_eq_true, false_and, if_false]
      refine h.sleep hq hspin hpc rfl hsleeping huntimed rfl rfl ?_ rfl rfl rfl rfl
      have hwaiters : ∀ s' : PState, s'.queue = s.queue →
          s'.slots = Function.update s.slots i (some (s.waiters .cond ++ [t])) →
          s'.waiters .cond = s.waiters .cond ++ [t] := fun s' hqueue hslots => by
        rw [waiters_update hq hentry hqueue hslots, if_pos rfl]
      exact hwaiters _ (by rfl) (by rfl)

/-- A system call that wakes. -/
theorem wakeStep (h : CondInv s) (hq : QueueInv s) (hkind : s.kind = .normal) {all : Bool}
    (hpc : s.pc t = .run op (.act (.wake o all) next)) :
    CondInv { (s.mutexQueueWake t all).goto t op next with now := s.now + 1 } := by
  have hsound := h.sound t
  rw [hpc] at hsound
  obtain ⟨huntimed, -, -, hheld, hset, hret, hinstr, hsnext⟩ := hsound
  obtain ⟨i, hentry, hwake⟩ := hq.wake_eq (t := t) (o := o) all (by rw [hpc]; rfl)
  have hplace := hq.wake_goto_pc hpc
  rw [hkind] at hplace
  have hearly : op.early → ¬next.isRet := fun he hr => by cases hret he hr
  -- what is known of a thread that is woken
  have hwoken : ∀ u, u ∈ toWake all (s.waiters o) →
      CondSoundPc (wokenPc .normal (s.pc u)) ∧ ¬ReleasedPc (wokenPc .normal (s.pc u)) ∧
        ¬SignalsPc (wokenPc .normal (s.pc u)) ∧ (∀ o', ¬AsleepOn o' (wokenPc .normal (s.pc u))) ∧
        (WokenPc (wokenPc .normal (s.pc u)) → SignaledSince s u) := by
    intro u hu
    obtain ⟨op', next', hp, hgo⟩ := hq.woken_pc hu
    rw [hkind] at hgo
    rw [hgo]
    cases o with
    | mutex =>
        obtain ⟨hs, hr, hsig, hw⟩ := h.woken_mutex hp
        exact ⟨hs, hr, hsig, fun _ => not_asleepOn_goOn, fun hw' => h.woken u (hw hw')⟩
    | cond =>
        obtain ⟨hs, hr, hsig⟩ := h.woken_cond hp
        refine ⟨hs, hr, hsig, fun _ => not_asleepOn_goOn, fun _ => h.signaled u t ?_ ?_⟩
        · rw [hp]
          exact rfl
        · rw [hpc]
          exact ⟨by rw [hinstr.1]; trivial, hinstr.2.1⟩
  refine h.move rfl (by rw [hwake]; rfl) (fun u _ => by rw [hwake]; rfl) (by rw [hwake]; rfl)
    (fun u _ => by rw [hwake]; rfl) ?_ (fun u => ?_) (fun u hu => ?_) (fun u hu => ?_)
    (fun u hu => ?_)
    fun u hu => ?_
  · have hwaiters : ((s.mutexQueueWake t all).goto t op next).waiters .cond =
        if .cond = o then toLeave all (s.waiters o) else s.waiters .cond :=
      waiters_update hq hentry (by rw [hwake]; rfl) (by rw [hwake]; rfl) .cond
    change (((s.mutexQueueWake t all).goto t op next).waiters .cond).Sublist _
    rw [hwaiters]
    split_ifs with ho
    · rw [ho]
      exact toLeave_sublist all _
    · exact List.Sublist.refl _
  · show CondSoundPc (((s.mutexQueueWake t all).goto t op next).pc u)
    rw [hplace]
    split_ifs with hut hu
    · exact condSoundPc_goOn huntimed (fun hs => hset hs) (fun he hr => absurd hr (hearly he))
        (fun hrel => Or.inr (hheld hrel)) hsnext
    · exact (hwoken u hu).1
    · exact h.sound u
  · change ReleasedPc (((s.mutexQueueWake t all).goto t op next).pc u) at hu
    rw [hplace] at hu
    split_ifs at hu with hut hmem
    · have hr : Released op next := releasedPc_goOn hu
      rw [hut, hpc]
      exact hr
    · exact absurd hu (hwoken u hmem).2.1
    · exact hu
  · change AsleepOn .cond (((s.mutexQueueWake t all).goto t op next).pc u) at hu
    rw [hplace] at hu
    split_ifs at hu with hut hmem
    · exact absurd hu not_asleepOn_goOn
    · exact absurd hu ((hwoken u hmem).2.2.2.1 .cond)
    · exact hu
  · change SignalsPc (((s.mutexQueueWake t all).goto t op next).pc u) at hu
    rw [hplace] at hu
    split_ifs at hu with hut hmem
    · have hsig : op.signals ∧ Holds .cond op next := signalsPc_goOn hu
      rw [hut, hpc]
      exact hsig
    · exact absurd hu (hwoken u hmem).2.2.1
    · exact hu
  · change WokenPc (((s.mutexQueueWake t all).goto t op next).pc u) at hu
    rw [hplace] at hu
    split_ifs at hu with hut hmem
    · rcases wokenPc_goOn hu with hre | ⟨he, hr⟩
      · exact h.woken u (by rw [hut, hpc]; exact hre)
      · exact absurd hr (hearly he)
    · exact (hwoken u hmem).2.2.2.2 hu
    · exact h.woken u hu

/-- A test. -/
theorem testStep (h : CondInv s) (hq : QueueInv s) (hlock : LockInv s) {c : Test} {yes no : Code}
    (hpc : s.pc t = .run op (.ite c yes no)) :
    CondInv { s.codeStep t input op (.ite c yes no) with now := s.now + 1 } := by
  have hsound := h.sound t
  have hside := hq.sound t
  rw [hpc] at hsound hside
  obtain ⟨-, hset, -, -, hyes, hno, hearly, hreleasing, hsyes, hsno⟩ := hsound
  have hkind := hlock.kind
  have hmutex : s.test t (.queueUnset .mutex) = false := by simp [PState.test, hlock.ready]
  have hcond : s.test t (.queueUnset .cond) = false := by simp [PState.test, h.ready]
  have hc : c ≠ .queueBad := fun hc => by
    rw [hc] at hset
    exact hset trivial
  simp only [PState.codeStep]
  split_ifs with htest
  · have hne : ∀ o, c ≠ .queueUnset o := by
      rintro o rfl
      cases o with
      | mutex => rw [hmutex] at htest; cases htest
      | cond => rw [hcond] at htest; cases htest
    have hnote : s.noteTest t c = s := by
      cases c with
      | queueUnset o => exact absurd rfl (hne o)
      | _ => rfl
    rw [hnote]
    refine h.goto hpc rfl rfl rfl rfl rfl rfl (by rw [← hkind]; rfl)
      (fun hs => hne _ (hyes hs)) hsyes
      (fun hr => ?_) (fun _ => id) (fun _ => id) fun he hr => hne _ ((hearly he).1 hr)
    rcases hr with ⟨hrel, -⟩ | hsleeping
    · exact ((hreleasing hrel).elim (hne _) hc).elim
    · exact Or.inr hsleeping
  · have hiff : ∀ o, Holds o op no ↔ Holds o op yes := by
      rcases hside.2.2.2 with ⟨hne, -⟩ | ⟨-, hiff, -⟩
      · exact absurd hkind hne
      · exact hiff
    refine h.goto hpc rfl rfl rfl rfl rfl rfl (by rw [← hkind]; rfl) hno hsno (fun hr => ?_)
      (fun _ => (hiff .cond).1) (fun _ => (hiff .cond).2) fun he => (hearly he).2
    · rcases hr with ⟨hrel, hm⟩ | hsleeping
      · have hunset := (hreleasing hrel).resolve_right hc
        exact Or.inl ⟨hrel, by rw [hunset]; exact hm⟩
      · exact Or.inr hsleeping

theorem codeStep (h : CondInv s) (hq : QueueInv s) (hspin : SpinInv s) (hlock : LockInv s)
    (hpc : s.pc t = .run op code) (hlive : UncanceledAt s t input op code) :
    CondInv { s.codeStep t input op code with now := s.now + 1 } := by
  have hsound := h.sound t
  have hside := hq.sound t
  rw [hpc] at hsound hside
  obtain ⟨huntimed, hset, hearly, hheld, hscode⟩ := hsound
  have hkind := hlock.kind
  cases code with
  | ret status =>
      exact h.goto hpc rfl rfl rfl rfl rfl rfl (by rw [← hkind]; rfl) hset hscode id (fun _ => id)
        (fun _ => id) hearly
  | body =>
      exact h.goto hpc rfl rfl rfl rfl rfl rfl (by rw [← hkind]; rfl) hset hscode id (fun _ => id)
        (fun _ => id) hearly
  | spinLock o next =>
      obtain ⟨-, hset', hearly', hsnext⟩ := hscode
      simp only [PState.codeStep]
      split_ifs
      · exact h.step (t := t) (p := s.pc t) rfl rfl rfl rfl rfl rfl
          (Function.update_eq_self t s.pc).symm
          (h.sound t) id (by rw [hpc]; exact id) id id
      · cases o with
        | mutex =>
            exact h.goto hpc rfl rfl rfl rfl rfl rfl (by rw [← hkind]; rfl) hset' hsnext id
              (fun _ hh => ⟨by decide, hh⟩) (fun _ hh => hh.2) hearly'
        | cond =>
            cases op with
            | signal all =>
                refine h.signal (t := t) (p := goOn .normal (.signal all) next) rfl rfl rfl rfl rfl
                  rfl
                  (by rw [← hkind]; rfl)
                  (condSoundPc_goOn trivial hset' (fun he => he.elim)
                    (fun hrel => (hrel.elim id id).elim)
                    hsnext)
                  (fun hr => ?_) not_asleepOn_goOn fun hw => ?_
                · exact (releasedPc_goOn hr).elim (fun hr => hr.1) id
                · exact (wokenPc_goOn hw).elim id fun hw => hw.1
            | _ =>
                exact h.goto hpc rfl rfl rfl rfl rfl rfl (by rw [← hkind]; rfl) hset' hsnext id
                  (fun hsig => hsig.elim) (fun _ hh => hh.2) hearly'
  | xchgLock busy free =>
      obtain ⟨hne, hnr, hbusy, hfree, hsbusy, hsfree⟩ := hscode
      simp only [PState.codeStep]
      split_ifs
      · exact h.goto hpc rfl rfl rfl rfl rfl rfl (by rw [← hkind]; rfl) hbusy hsbusy
          (fun hr => hr.imp (fun hr => absurd hr.1 hnr) id) (fun _ => id) (fun _ => id)
          fun he => absurd he hne
      · exact h.goto hpc rfl rfl rfl rfl rfl rfl (by rw [← hkind]; rfl) hfree hsfree
          (fun hr => hr.imp (fun hr => absurd hr.1 hnr) id) (fun _ => (hside.2.2.1 .cond).1)
          (fun _ => (hside.2.2.1 .cond).2) fun he => absurd he hne
  | ite c yes no => exact h.testStep hq hlock hpc
  | act i next =>
      obtain ⟨hset', hret, hinstr, hsnext⟩ := hscode
      have hgo : ∀ s' : PState, s'.now = s.now → s'.queue = s.queue → s'.slots = s.slots →
          s'.releasedAt = s.releasedAt → s'.signaledAt = s.signaledAt → s'.queuedAt = s.queuedAt →
          s'.pc = s.pc → s'.kind = s.kind → i ≠ .wait .cond false →
          (Released op next → Released op (.act i next)) →
          (Holds .cond op next → Holds .cond op (.act i next)) →
          (op.releasing ∨ op.sleeping → Holds .cond op (.act i next) → Holds .cond op next) →
          CondInv { s'.goto t op next with now := s.now + 1 } := by
        intro s' hnow hqueue hslots hreleasedAt hsignaledAt hqueuedAt hpc' hk hne hreleased hholds
          hkeeps
        refine h.goto hpc rfl hqueue hslots hreleasedAt hsignaledAt hqueuedAt ?_
          (fun hs => hset (hset' hs))
          hsnext hreleased (fun _ => hholds) hkeeps fun he hr => hne (hret he hr)
        show (s'.goto t op next).pc = _
        rw [goto_pc, hpc', hk, hkind]
      cases i with
      | wait o timed => exact h.waitStep hq hspin hkind hpc hlive
      | wake o all => exact h.wakeStep hq hkind hpc
      | freeLock =>
          exact h.free hpc hinstr rfl rfl rfl rfl rfl rfl (by rw [← hkind]; rfl)
            (fun hs => hset (hset' hs)) id hsnext
      | takeLock =>
          have hnr : ¬op.releasing := hinstr
          exact hgo _ rfl rfl rfl rfl rfl rfl rfl rfl (by decide)
            (fun hr => hr.imp (fun hr => absurd hr.1 hnr) id) id fun _ => id
      | alloc => exact absurd trivial hset
      | setQueue => exact absurd trivial hset
      | spinUnlock o =>
          refine hgo _ rfl rfl rfl rfl rfl rfl rfl rfl (by simp) id Or.inr fun hrel hh => ?_
          rcases hh with rfl | hh
          · have hsig : op.signals := hinstr
            cases op <;> first | exact hsig.elim | exact (hrel.elim id id).elim
          · exact hh
      | _ => exact hgo _ rfl rfl rfl rfl rfl rfl rfl rfl (by simp) id id fun _ => id

end CondInv

instance : DecidablePred Op.untimed := fun op => by unfold Op.untimed; split <;> infer_instance

/-- A call without a timeout, or a step. -/
def UntimedCall : Event → Prop
  | .call _ op => op.untimed
  | .run _ _ => True
  | _ => False

instance : DecidablePred UntimedCall
  | .call _ op => inferInstanceAs (Decidable op.untimed)
  | .run _ _ => .isTrue trivial
  | .timeout _ | .cancel _ | .setCancelState _ _ => .isFalse id

/-- **An event keeps the waiters in order.** -/
theorem cond_event (h : CondInv s) (hq : QueueInv s) (hspin : SpinInv s) (hlock : LockInv s)
    {e : Event}
    (hcall : UntimedCall e) (hlive : AtRun UncanceledAt s e) (hstep : pthreadStep s e = some s') :
    CondInv s' := by
  obtain ⟨s₁, hevent, rfl⟩ := Option.map_eq_some_iff.1 hstep
  cases e with
  | call t op =>
      simp only [PState.event] at hevent
      split_ifs at hevent with hout
      cases hevent
      have hentry := condSound_entry op hcall
      have hfacts := call_facts hout.2.2
      have hother : ∀ u, ReleasedPc (Function.update s.pc t (.run op (entry s.kind op)) u) ∨
          WokenPc (Function.update s.pc t (.run op (entry s.kind op)) u) ∨
            AsleepOn .cond (Function.update s.pc t (.run op (entry s.kind op)) u) → u ≠ t := by
        rintro u hu rfl
        rw [Function.update_self] at hu
        rcases hu with hr | hw | ha
        · exact hr.elim (fun hr => hfacts.1 hr.1) hfacts.2.1
        · exact hfacts.2.2.1 hw
        · exact ha
      rw [hlock.kind] at hother
      refine h.move rfl rfl (fun u hu => ?_) rfl (fun _ _ => rfl)
        (List.Sublist.refl _) ?_ ?_ ?_ ?_ ?_
      · refine Function.update_of_ne (hother u ?_) _ _
        rw [← hlock.kind]
        exact hu
      all_goals dsimp only; rw [hlock.kind]
      · exact forall_update (P := fun _ q => CondSoundPc q) hentry fun u _ => h.sound u
      · refine forall_update (P := fun u q => ReleasedPc q → ReleasedPc (s.pc u)) (fun hr => ?_)
          fun _ _ => id
        exact absurd rfl (hother t (Or.inl (by rw [Function.update_self]; exact hr)))
      · exact forall_update (P := fun u q => AsleepOn .cond q → AsleepOn .cond (s.pc u))
          (fun ha => ha.elim) fun _ _ => id
      · exact forall_update (P := fun u q => SignalsPc q → SignalsPc (s.pc u))
          (fun hsig => absurd hsig hfacts.2.2.2) fun _ _ => id
      · exact forall_update (P := fun u q => WokenPc q → SignaledSince s u)
          (fun hw => absurd hw hfacts.2.2.1) fun u _ => h.woken u
  | run t input =>
      simp only [PState.event] at hevent
      split at hevent
      · rename_i op code hpc
        cases hevent
        simp only [AtRun, hpc] at hlive
        exact h.codeStep hq hspin hlock hpc hlive
      · cases hevent
        exact h.step (t := t) (p := .out) rfl rfl rfl rfl rfl rfl rfl trivial (fun hr => hr.elim) id
          (fun hsig => hsig.elim) fun hw => hw.elim
      · cases hevent
  | _ => exact hcall.elim

/-- What `pthread_cond_init` leaves. -/
theorem Initialised.condInv (h : Initialised .normal s) (hready : s.queue .cond ≠ -1) :
    CondInv s := by
  have hempty : s.waiters .cond = [] := List.eq_nil_iff_forall_not_mem.2 fun u hu => by
    have hasleep := (h.queue.sleeps u .cond).2 hu
    rw [h.out] at hasleep
    exact hasleep
  refine ⟨fun t => ?_, hready, fun t ht => ?_, fun t u ht => ?_, fun t ht => ?_, ?_, ?_, ?_⟩
  · rw [h.out]
    trivial
  · rw [h.out] at ht
    exact ht.elim
  · rw [h.out] at ht
    exact ht.elim
  · rw [h.out] at ht
    exact ht.elim
  · rw [h.signaledAt]
    exact Nat.zero_le _
  · rw [hempty]
    exact fun _ hu => absurd hu List.not_mem_nil
  · rw [hempty]
    exact List.Pairwise.nil

end Pthread
end LightOS
