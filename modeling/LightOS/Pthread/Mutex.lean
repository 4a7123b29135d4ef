import LightOS.Pthread.MutexLock

/-!
# Normal mutexes: runs

* `initialised_inv`, `condInitialised_inv` — what `pthread_mutex_init` and `pthread_cond_init`
  leave.
* `mutex_excludes` — exclusion, the spin word, and no lost wake-up, for a mutex that was
  initialised.
* `static_sets_up_once` — a mutex that was not gets one queue.
* `cancel_leaves_spin` — the spin locks are free when no thread is in a call.
* `mutex_two_holders`, `static_two_queues`, `cancel_keeps_spin` — what happens otherwise.
-/

namespace LightOS
namespace Pthread

open Threads

variable {s s' : PState} {t : ℕ} {o : Obj} {op : Op} {code : Code} {i : ℕ}

/-! ## Initialisation -/

theorem queueInv_initializer : QueueInv initializer := by
  refine ⟨fun _ => trivial, fun _ => Or.inl rfl, fun _ _ hu => hu.elim, fun _ _ hn => ?_,
    fun _ hn => ?_,
    fun _ hn => ?_, fun o o' i hi _ => ?_, fun t o => ?_, fun o => ?_, fun i hi => ?_⟩
  · cases hn
  · rcases hn with hn | hn <;> cases hn
  · cases hn
  · cases hi
  · exact iff_of_false id List.not_mem_nil
  · exact List.nodup_nil
  · cases hi

theorem spinInv_initializer : SpinInv initializer :=
  ⟨fun _ => Or.inl rfl, fun _ => ⟨iff_of_false (show ¬(0 : UInt32) = 1 by decide) fun ⟨_, h⟩ => h,
    fun _ _ h => h.elim⟩⟩

/-- An object that has no queue is given a new one, while no thread is in a call. -/
theorem QueueInv.init (h : QueueInv s) (hout : ∀ t, s.pc t = .out) (hunset : s.queue o = -1)
    (hi : i < mutexQueueNrMax) (hfree : s.slots i = none)
    (hqueue : s'.queue = Function.update s.queue o (i : ℤ))
    (hslots : s'.slots = Function.update s.slots i (some [])) (hpc : s'.pc = s.pc) :
    QueueInv s' := by
  have hnone : ∀ t, s'.pc t = .out := fun t => by rw [hpc, hout]
  have hself : entryOf (s'.queue o) = some i := by
    rw [hqueue, Function.update_self, entryOf_natCast hi]
  have hother : ∀ o' j, o' ≠ o → entryOf (s'.queue o') = some j →
      j ≠ i ∧ entryOf (s.queue o') = some j := by
    intro o' j ho hj
    rw [hqueue, Function.update_of_ne ho] at hj
    refine ⟨?_, hj⟩
    rintro rfl
    rcases h.usable o' with hq | ⟨k, hk, hsome⟩
    · rw [hq] at hj
      cases hj
    · obtain rfl : j = k := by rw [hj] at hk; exact Option.some.inj hk
      rw [hfree] at hsome
      cases hsome
  have hwaiters : ∀ o', s'.waiters o' = [] := by
    intro o'
    by_cases ho : o' = o
    · rw [ho, waiters_of_entry hself, hslots, Function.update_self]
      rfl
    · have hempty : s.waiters o' = [] := List.eq_nil_iff_forall_not_mem.2 fun u hu => by
        have hasleep := (h.sleeps u o').2 hu
        rw [hout] at hasleep
        exact hasleep
      unfold PState.waiters at hempty ⊢
      cases hj : entryOf (s'.queue o') with
      | none => rfl
      | some j =>
          obtain ⟨hji, hold⟩ := hother o' j ho hj
          rw [hold] at hempty
          rw [hslots]
          simp only [Function.update_of_ne hji]
          exact hempty
  refine ⟨fun u => by rw [hnone]; trivial, fun o' => ?_, fun u o' hu => ?_, fun u o' hn => ?_,
    fun u hn => ?_, fun u hn => ?_, fun o' o'' j hj hj' => ?_, fun u o' => ?_, fun o' => ?_,
    fun j hj => ?_⟩
  · by_cases ho : o' = o
    · rw [ho]
      exact Or.inr ⟨i, hself, by rw [hslots, Function.update_self]; rfl⟩
    · rw [hqueue, Function.update_of_ne ho]
      refine (h.usable o').imp id fun ⟨j, hj, hsome⟩ => ?_
      have hj' : entryOf (s'.queue o') = some j := by rw [hqueue, Function.update_of_ne ho, hj]
      exact ⟨j, hj', by rw [hslots, Function.update_of_ne (hother o' j ho hj').1, hsome]⟩
  · rw [hnone] at hu
    exact hu.elim
  · rw [hnone] at hn
    cases hn
  · rw [hnone] at hn
    rcases hn with hn | hn <;> cases hn
  · rw [hnone] at hn
    cases hn
  · by_cases ho : o' = o
    · by_cases ho' : o'' = o
      · rw [ho, ho']
      · rw [ho, hself, Option.some.injEq] at hj
        exact absurd hj.symm (hother o'' j ho' hj').1
    · by_cases ho' : o'' = o
      · rw [ho', hself, Option.some.injEq] at hj'
        exact absurd hj'.symm (hother o' j ho hj).1
      · exact h.apart o' o'' j (hother o' j ho hj).2 (hother o'' j ho' hj').2
  · rw [hnone, hwaiters]
    exact iff_of_false id List.not_mem_nil
  · rw [hwaiters]
    exact List.nodup_nil
  · by_cases hji : j = i
    · exact Or.inl ⟨o, by rw [hself, hji]⟩
    · rw [hslots, Function.update_of_ne hji] at hj
      rcases h.owned j hj with ⟨o', ho'⟩ | ⟨u, hn, -⟩
      · have ho : o' ≠ o := by
          rintro rfl
          rw [hunset] at ho'
          cases ho'
        exact Or.inl ⟨o', by rw [hqueue, Function.update_of_ne ho, ho']⟩
      · rw [hout] at hn
        cases hn

/-- A mutex that `pthread_mutex_init` has set up, and a condition variable that may have been. -/
structure Initialised (kind : MutexKind) (s : PState) : Prop where
  queue : QueueInv s
  spin : SpinInv s
  kind : s.kind = kind
  ready : s.queue .mutex ≠ -1
  out : ∀ t, s.pc t = .out
  lock : s.lock = 1
  owner : s.owner = 0
  count : s.count = 0
  depth : ∀ t, s.depth t = 0
  canceled : ∀ t, s.canceled t = false
  signaledAt : s.signaledAt = 0

/-- The queue `mutex_queue_alloc` finds for an object, if it finds one. -/
theorem QueueInv.allocFor (h : QueueInv s) (hout : ∀ t, s.pc t = .out) (hunset : s.queue o = -1)
    (others : List ℕ) {s₁ : PState} {handle : ℤ} (halloc : s.mutexQueueAlloc others = (s₁, handle))
    (hgood : ¬handle < 0) :
    QueueInv { s₁ with queue := Function.update s₁.queue o handle } ∧ handle ≠ -1 ∧
      s₁ = { s with slots := s₁.slots } := by
  unfold PState.mutexQueueAlloc at halloc
  cases hfree : s.firstFree others with
  | none =>
      rw [hfree] at halloc
      cases halloc
      exact absurd (by decide) hgood
  | some i =>
      obtain ⟨hi, hslot⟩ := firstFree_spec hfree
      rw [hfree] at halloc
      cases halloc
      exact ⟨h.init hout hunset hi hslot rfl rfl rfl, by omega, rfl⟩

/-- What `pthread_mutex_init` leaves, if it returns 0. -/
theorem pthreadMutexInit_spec {kind : MutexKind} {others : List ℕ}
    (hinit : pthreadMutexInit initializer kind others = (s, 0)) :
    Initialised kind s ∧ s.queue .cond = -1 := by
  have hq : QueueInv { initializer with lock := 1, count := 0, owner := 0, kind := kind,
                                        spin := Function.update initializer.spin .mutex 0 } := by
    have hstart := queueInv_initializer
    exact ⟨fun _ => trivial, hstart.usable, hstart.uses, hstart.handle, hstart.setting,
      hstart.fresh, hstart.apart, hstart.sleeps, hstart.nodup, hstart.owned⟩
  unfold pthreadMutexInit at hinit
  split at hinit
  rename_i s₁ handle halloc
  simp only [Prod.mk.injEq] at hinit
  obtain ⟨rfl, hstatus⟩ := hinit
  obtain ⟨hqueue, hready, hsame⟩ :=
    hq.allocFor (fun _ => rfl) rfl others halloc (by simpa using hstatus)
  rw [hsame] at hqueue ⊢
  refine ⟨⟨hqueue, spinInv_initializer.congr ?_ fun _ _ => Iff.rfl, rfl, ?_, fun _ => rfl, rfl,
    rfl, rfl, fun _ => rfl, fun _ => rfl, rfl⟩, rfl⟩
  · exact Function.update_eq_self _ _
  · simpa using hready

/-- What `pthread_cond_init` leaves, if it returns 0. -/
theorem pthreadCondInit_spec {kind : MutexKind} {others : List ℕ} (h : Initialised kind s)
    (hunset : s.queue .cond = -1) (hinit : pthreadCondInit s others = (s', 0)) :
    Initialised kind s' ∧ s'.queue .cond ≠ -1 := by
  have hq : QueueInv { s with spin := Function.update s.spin .cond 0 } :=
    h.queue.congr rfl rfl rfl rfl rfl rfl
  have hspin : Function.update s.spin .cond 0 = s.spin := by
    refine Function.update_eq_self_iff.2 ?_
    refine ((h.spin.word .cond).resolve_right fun hone => ?_).symm
    obtain ⟨t, ht⟩ := (h.spin.guard .cond).held.1 hone
    rw [h.out] at ht
    exact ht
  unfold pthreadCondInit at hinit
  split at hinit
  rename_i s₁ handle halloc
  simp only [Prod.mk.injEq] at hinit
  obtain ⟨rfl, hstatus⟩ := hinit
  obtain ⟨hqueue, hready, hsame⟩ := hq.allocFor h.out hunset others halloc (by simpa using hstatus)
  rw [hsame] at hqueue ⊢
  refine ⟨⟨hqueue, h.spin.congr hspin fun _ _ => Iff.rfl, h.kind, ?_, h.out, h.lock, h.owner,
    h.count, h.depth, h.canceled, h.signaledAt⟩, ?_⟩
  · simpa using h.ready
  · simpa using hready

/-- And for a normal mutex. -/
theorem Initialised.lockInv (h : Initialised .normal s) : LockInv s := by
  have hzero := h.depth
  refine ⟨h.kind, h.ready,
    fun t => by rw [h.out]; trivial, Or.inr h.lock, ?_, fun t => by rw [hzero]; simp,
    fun t hm => ?_, fun t hb => ?_, fun _ hw => ?_⟩
  · refine ⟨iff_of_false (by rw [h.lock]; decide) fun ⟨t, ht⟩ => ht (hzero t), fun t _ ht => ?_⟩
    exact absurd (hzero t) ht
  · rw [h.out] at hm
    exact hm.elim
  · rw [h.out] at hb
    exact hb.elim
  · obtain ⟨u, hu⟩ := List.exists_mem_of_ne_nil _ hw
    have hasleep := (h.queue.sleeps u .mutex).2 hu
    rw [h.out] at hasleep
    exact hasleep.elim

/-! ## Runs -/

/-- A normal mutex needs nothing of `pthread_mutex_trylock`, nor one with a queue of the set-up. -/
theorem normal_conditions (hkind : s.kind = .normal) (e : Event) :
    AtRun TrylockAt s e := by
  cases e with
  | run t input =>
      simp only [AtRun]
      split
      · unfold TrylockAt
        split
        · exact fun hne => absurd hkind hne
        · trivial
      · trivial
  | _ => trivial

theorem ready_conditions (hq : QueueInv s) (hready : s.queue .mutex ≠ -1) (e : Event) :
    AtRun SetUpAt s e := by
  cases e with
  | run t input =>
      simp only [AtRun]
      split
      · rename_i op code hpc
        unfold SetUpAt
        split
        · exact fun hunset => absurd hunset hready
        · exact absurd (hq.setting t (Or.inl (by rw [hpc]; rfl))).2 hready
        · trivial
      · trivial
  | _ => trivial

/-- What no step of a thread writes, or only when it sets the queue of the mutex up. -/
theorem codeStep_frame (s : PState) (t : ℕ) (input : Input) (op : Op) (code : Code) :
    (s.codeStep t input op code).kind = s.kind ∧
      (s.codeStep t input op code).canceled = s.canceled ∧
      (s.codeStep t input op code).queue .cond = s.queue .cond ∧
      (code.need ≠ .fresh → (s.codeStep t input op code).queue = s.queue) := by
  have hspin : ∀ (s : PState) (o : Obj), (s.noteSpin t op o).canceled = s.canceled := fun s o => by
    cases o <;> cases op <;> rfl
  have htest : ∀ (s : PState) (c : Test), (s.noteTest t c).canceled = s.canceled := fun s c => by
    cases c with
    | queueUnset o => cases o <;> rfl
    | _ => rfl
  cases code with
  | ret status => exact ⟨rfl, rfl, rfl, fun _ => rfl⟩
  | body => exact ⟨rfl, rfl, rfl, fun _ => rfl⟩
  | spinLock o next =>
      simp only [PState.codeStep]
      split_ifs
      · exact ⟨rfl, rfl, rfl, fun _ => rfl⟩
      · exact ⟨by simp, (hspin _ o), by simp, fun _ => by simp⟩
  | xchgLock busy free =>
      simp only [PState.codeStep]
      split_ifs <;> exact ⟨rfl, rfl, rfl, fun _ => rfl⟩
  | ite c yes no =>
      simp only [PState.codeStep]
      split_ifs
      · exact ⟨by simp, htest _ c, by simp, fun _ => by simp⟩
      · exact ⟨rfl, rfl, rfl, fun _ => rfl⟩
  | act i next =>
      cases i with
      | setQueue =>
          have hcond : Function.update s.queue .mutex (s.handle t) .cond = s.queue .cond :=
            Function.update_of_ne (by decide) _ _
          exact ⟨rfl, rfl, hcond, fun hne => absurd rfl hne⟩
      | alloc =>
          simp only [PState.codeStep, PState.instrStep, PState.mutexQueueAlloc]
          split <;> exact ⟨rfl, rfl, rfl, fun _ => rfl⟩
      | wait o timed =>
          simp only [PState.codeStep, PState.instrStep, PState.mutexQueueWait]
          split
          · exact ⟨rfl, rfl, rfl, fun _ => rfl⟩
          · split_ifs
            · exact ⟨rfl, rfl, rfl, fun _ => rfl⟩
            all_goals split <;> exact ⟨rfl, rfl, rfl, fun _ => rfl⟩
      | wake o all =>
          simp only [PState.codeStep, PState.instrStep, PState.mutexQueueWake]
          split
          · exact ⟨rfl, rfl, rfl, fun _ => rfl⟩
          · split <;> exact ⟨rfl, rfl, rfl, fun _ => rfl⟩
      | _ => exact ⟨rfl, rfl, rfl, fun _ => rfl⟩

/-- The kind of the mutex and the queue of the condition variable stay, that of the mutex once
there is one, and nobody is cancelled but by a call. -/
theorem event_frame {e : Event} (hstep : pthreadStep s e = some s') :
    s'.kind = s.kind ∧ s'.queue .cond = s.queue .cond ∧
      ((∀ t, e ≠ .cancel t) → s'.canceled = s.canceled) ∧
      (QueueInv s → s.queue .mutex ≠ -1 → s'.queue .mutex ≠ -1) := by
  obtain ⟨s₁, hevent, rfl⟩ := Option.map_eq_some_iff.1 hstep
  cases e with
  | call t op =>
      simp only [PState.event] at hevent
      split_ifs at hevent
      cases hevent
      exact ⟨rfl, rfl, fun _ => rfl, fun _ => id⟩
  | run t input =>
      simp only [PState.event] at hevent
      split at hevent
      · rename_i op code hpc
        cases hevent
        obtain ⟨hkind, hcanceled, hcond, hqueue⟩ := codeStep_frame s t input op code
        refine ⟨hkind, hcond, fun _ => hcanceled, fun hq hready => ?_⟩
        have hsame := hqueue fun hneed =>
          hready (hq.setting t (Or.inr (by rw [hpc]; exact hneed))).2
        rw [← hsame] at hready
        exact hready
      · cases hevent
        exact ⟨rfl, rfl, fun _ => rfl, fun _ => id⟩
      · cases hevent
  | timeout t =>
      simp only [PState.event] at hevent
      split at hevent
      · cases hevent
        unfold PState.sleepOver
        split <;> exact ⟨rfl, rfl, fun _ => rfl, fun _ => id⟩
      · cases hevent
  | cancel t =>
      simp only [PState.event] at hevent
      split_ifs at hevent
      cases hevent
      exact ⟨rfl, rfl, fun hne => absurd rfl (hne t), fun _ => id⟩
  | setCancelState t disable =>
      simp only [PState.event] at hevent
      split_ifs at hevent
      cases hevent
      exact ⟨rfl, rfl, fun _ => rfl, fun _ => id⟩

/-- The queues and the spin locks of a normal mutex and a condition variable that are set up. -/
structure ReadyInv (s : PState) : Prop where
  queue : QueueInv s
  spin : SpinInv s
  kind : s.kind = .normal
  ready : s.queue .mutex ≠ -1

theorem Initialised.readyInv
    (h : Initialised .normal s) : ReadyInv s := ⟨h.queue, h.spin, h.kind, h.ready⟩

theorem ready_event (h : ReadyInv s) {e : Event} (hexchange : AtRun ExchangeAt s e)
    (hlive : AtRun UncanceledAt s e) (hstep : pthreadStep s e = some s') : ReadyInv s' := by
  have htry := normal_conditions h.kind e
  obtain ⟨hkind, -, -, hready⟩ := event_frame hstep
  exact ⟨queue_event h.queue htry (ready_conditions h.queue h.ready e) hstep,
    spin_event h.spin h.queue hexchange hlive htry hstep, by rw [hkind, h.kind],
    hready h.queue h.ready⟩

/-! ## Exclusion -/

/-- A call on the mutex, or a step. -/
def MutexCall : Event → Prop
  | .call _ op => op = .lock ∨ op = .trylock ∨ op = .unlock
  | .run _ _ => True
  | _ => False

instance : DecidablePred MutexCall := fun e => by unfold MutexCall; split <;> infer_instance

/-- The thread is in a call on the mutex, and not asleep. -/
def InMutexCall : Pc → Prop
  | .run op _ => op.onMutex
  | _ => False

/-- What a normal mutex promises: one thread holds it, and one at most its spin lock, whose word
says so; and if it is free while a thread sleeps, another is in a call and awake. -/
structure MutexOk (s : PState) : Prop where
  exclusive : ∀ t u, s.depth t ≠ 0 → s.depth u ≠ 0 → t = u
  locked : s.lock = 0 ↔ ∃ t, s.depth t ≠ 0
  returned : ∀ t, s.pc t = .ret .lock 0 ∨ s.pc t = .ret .trylock 0 → s.depth t ≠ 0
  spin : s.spin .mutex = 1 ↔ ∃ t, HoldsPc .mutex (s.pc t)
  spinner : ∀ t u, HoldsPc .mutex (s.pc t) → HoldsPc .mutex (s.pc u) → t = u
  noLost : s.lock = 1 → (∃ t, AsleepOn .mutex (s.pc t)) → ∃ t, InMutexCall (s.pc t)

theorem mutexOk (hq : QueueInv s) (hspin : SpinInv s) (h : LockInv s) : MutexOk s := by
  refine ⟨h.held.unique, h.held.held, fun t ht => h.must t ?_, (hspin.guard .mutex).held,
    (hspin.guard .mutex).unique, fun hfree ⟨t, ht⟩ => ?_⟩
  · rcases ht with ht | ht <;> rw [ht] <;> exact rfl
  · obtain ⟨u, hu⟩ := h.attended hfree (List.ne_nil_of_mem ((hq.sleeps t .mutex).1 ht))
    refine ⟨u, ?_⟩
    cases hp : s.pc u <;> rw [hp] at hu <;> first | exact hu.1 | exact hu.elim

/-- The state of a mutex between calls on it that are not cancelled. -/
structure NormalInv (s : PState) : Prop where
  base : ReadyInv s
  lock : LockInv s
  canceled : ∀ t, s.canceled t = false

theorem Initialised.normalInv (h : Initialised .normal s) : NormalInv s :=
  ⟨h.readyInv, h.lockInv, h.canceled⟩

/-- Nobody exits who was not cancelled. -/
theorem uncanceledAt (hcanceled : ∀ t, s.canceled t = false) (e : Event) :
    AtRun UncanceledAt s e := by
  cases e with
  | run t input =>
      simp only [AtRun]
      split
      · unfold UncanceledAt
        split
        · exact fun hc => by simp [hcanceled] at hc
        · trivial
      · trivial
  | _ => trivial

theorem normal_event (h : NormalInv s) {e : Event} (hcancel : ∀ t, e ≠ .cancel t)
    (hheld : WhileHeld s e) (hexchange : AtRun ExchangeAt s e) (hstep : pthreadStep s e = some s') :
    NormalInv s' := by
  have hlive := uncanceledAt h.canceled e
  obtain ⟨-, -, hcanceled, -⟩ := event_frame hstep
  exact ⟨ready_event h.base hexchange hlive hstep,
    lock_event h.lock h.base.queue h.base.spin hexchange hlive hheld hstep,
    fun t => by rw [hcanceled hcancel, h.canceled]⟩

/-- **A normal mutex excludes, and loses no wake-up**, in every run of calls on it that unlock it
only while they hold it, if every atomic exchange finds the upper half of its register clear. -/
theorem mutex_excludes (others : List ℕ) (s₀ s : PState) (events : List Event)
    (hinit : pthreadMutexInit initializer .normal others = (s₀, 0))
    (hcalls : ∀ e ∈ events, MutexCall e) (hheld : Run.Along pthreadStep WhileHeld s₀ events)
    (hexchange : Run.Along pthreadStep (AtRun ExchangeAt) s₀ events)
    (hrun : Run.exec pthreadStep s₀ events = some s) : MutexOk s := by
  have hstart := (pthreadMutexInit_spec hinit).1.normalInv
  have halong := Run.along_and events s₀ (Run.along_of_mem events s₀ hcalls)
    (Run.along_and events s₀ hheld hexchange)
  have h : NormalInv s := by
    refine Run.exec_invariant (fun s e s' h hgood hstep => ?_) events s₀ s hstart halong hrun
    obtain ⟨hcall, hheld, hexchange⟩ := hgood
    exact normal_event h (fun t ht => by rw [ht] at hcall; exact hcall) hheld hexchange hstep
  exact mutexOk h.base.queue h.base.spin h.lock

/-- A step with the register of the exchange as `ebx` says. -/
def stepOf (ebx : UInt32) (t : ℕ) : Event := .run t ⟨ebx, [], .left⟩

/-- Thread 2 sleeps until thread 1 unlocks. -/
def handover : List Event :=
  .call 1 .lock :: List.replicate 6 (stepOf 0 1) ++
    .call 2 .lock :: List.replicate 5 (stepOf 0 2) ++
    stepOf 0 1 :: .call 1 .unlock :: List.replicate 7 (stepOf 0 1) ++ List.replicate 5 (stepOf 0 2)

/-- Then it has the mutex. -/
theorem mutex_excludes_handover : ∃ s₀ s,
    pthreadMutexInit initializer .normal [] = (s₀, 0) ∧ Run.exec pthreadStep s₀ handover = some s ∧
      s.pc 2 = .ret .lock 0 ∧ MutexOk s := by
  have hsome : ((Run.exec pthreadStep (pthreadMutexInit initializer .normal []).1 handover).map
    fun s =>
      s.pc 2) = some (.ret .lock 0) := by decide
  obtain ⟨s, hrun, hret⟩ := Option.map_eq_some_iff.1 hsome
  exact ⟨_, s, rfl, hrun, hret,
    mutex_excludes [] _ s handover rfl (by decide) (by decide) (by decide) hrun⟩

/-- **Two threads hold the mutex**: the register leaves more than the value in the words. -/
theorem mutex_two_holders : ∃ s₀ s,
    pthreadMutexInit initializer .normal [] = (s₀, 0) ∧
      Run.exec pthreadStep s₀ (.call 1 .lock :: List.replicate 3 (stepOf 0x8050000 1) ++
        .call 2 .lock :: List.replicate 6 (stepOf 0x8050000 2) ++
          List.replicate 3 (stepOf 0x8050000 1)) = some s ∧
      s.pc 1 = .ret .lock 0 ∧ s.pc 2 = .ret .lock 0 ∧ ¬MutexOk s := by
  have hsome : ((Run.exec pthreadStep (pthreadMutexInit initializer .normal []).1
      (.call 1 .lock :: List.replicate 3 (stepOf 0x8050000 1) ++
        .call 2 .lock :: List.replicate 6 (stepOf 0x8050000 2) ++
          List.replicate 3 (stepOf 0x8050000 1))).map fun s =>
      (s.pc 1, s.pc 2, s.depth 1, s.depth 2)) = some (.ret .lock 0, .ret .lock 0, 1, 1) := by decide
  obtain ⟨s, hrun, hfacts⟩ := Option.map_eq_some_iff.1 hsome
  simp only [Prod.mk.injEq] at hfacts
  obtain ⟨hpc, hpc', hdepth, hdepth'⟩ := hfacts
  refine ⟨_, s, rfl, hrun, hpc, hpc', fun hok => ?_⟩
  exact absurd (hok.exclusive 1 2 (by omega) (by omega)) (by decide)

/-! ## Static initialisation -/

/-- A call of `pthread_mutex_lock` or `pthread_mutex_unlock`, or a step. -/
def LockCall : Event → Prop
  | .call _ op => op = .lock ∨ op = .unlock
  | .run _ _ => True
  | _ => False

instance : DecidablePred LockCall := fun e => by unfold LockCall; split <;> infer_instance

/-- What a mutex that was initialised statically promises: one queue at most is its own, and it has
stored the handle or a thread is about to; the threads that sleep do so on the list of the queue it
has stored; and what it has stored is no error. -/
structure StaticOk (s : PState) : Prop where
  one : ∀ i j, (s.slots i).isSome = true → (s.slots j).isSome = true → i = j
  kept : ∀ i, (s.slots i).isSome = true → entryOf (s.queue .mutex) = some i ∨
    ∃ t, (s.pc t).need = .fresh ∧ entryOf (s.handle t) = some i
  sleeps : ∀ t, AsleepOn .mutex (s.pc t) →
    ∃ i ws, entryOf (s.queue .mutex) = some i ∧ s.slots i = some ws ∧ t ∈ ws
  stored : s.queue .mutex = -1 ∨ Usable s .mutex

theorem staticOk (h : QueueInv s) (hcond : s.queue .cond = -1) : StaticOk s := by
  have hkept : ∀ i, (s.slots i).isSome = true → entryOf (s.queue .mutex) = some i ∨
      ∃ t, (s.pc t).need = .fresh ∧ entryOf (s.handle t) = some i := by
    intro i hi
    refine (h.owned i hi).imp (fun ⟨o, ho⟩ => ?_) id
    cases o with
    | mutex => exact ho
    | cond =>
        rw [hcond] at ho
        cases ho
  have hunset : ∀ i t, entryOf (s.queue .mutex) = some i → (s.pc t).need ≠ .fresh := by
    intro i t hi hneed
    rw [(h.setting t (Or.inr hneed)).2] at hi
    cases hi
  refine ⟨fun i j hi hj => ?_, hkept, fun t ht => ?_, h.usable .mutex⟩
  · rcases hkept i hi with hi | ⟨t, ht, hi⟩ <;> rcases hkept j hj with hj | ⟨u, hu, hj⟩
    · rw [hi] at hj
      exact Option.some.inj hj
    · exact absurd hu (hunset i u hi)
    · exact absurd ht (hunset j t hj)
    · rw [h.alone (Or.inr hu) (Or.inr ht), hj] at hi
      exact (Option.some.inj hi).symm
  · obtain ⟨i, hi, hslot⟩ := h.slot (t := t) (o := .mutex) (by
      cases hp : s.pc t <;> rw [hp] at ht <;> first | exact Or.inl ht | exact ht.elim)
    exact ⟨i, _, hi, hslot, (h.sleeps t .mutex).1 ht⟩

/-- **A static mutex sets its queue up once**, in every run in which no thread finds it without a
queue while another sets one up, and there is an entry for the thread that does. -/
theorem static_sets_up_once (s : PState) (events : List Event) (hcalls : ∀ e ∈ events, LockCall e)
    (hset : Run.Along pthreadStep (AtRun SetUpAt) initializer events)
    (hrun : Run.exec pthreadStep initializer events = some s) : StaticOk s := by
  have halong := Run.along_and events initializer (Run.along_of_mem events initializer hcalls) hset
  have h : QueueInv s ∧ s.kind = .normal ∧ s.queue .cond = -1 := by
    refine Run.exec_invariant (I := fun s => QueueInv s ∧ s.kind = .normal ∧ s.queue .cond = -1)
      (fun s e s' h hgood hstep => ?_) events initializer s ⟨queueInv_initializer, rfl, rfl⟩ halong
      hrun
    obtain ⟨hkind, hcond, -, -⟩ := event_frame hstep
    exact ⟨queue_event h.1 (normal_conditions h.2.1 e) hgood.2 hstep, by rw [hkind, h.2.1],
      by rw [hcond, h.2.2]⟩
  exact staticOk h.1 h.2.2

/-- Thread 1 sets the queue up, and thread 2 sleeps on it. -/
theorem static_sets_up_once_two : ∃ s,
    Run.exec pthreadStep initializer (.call 1 .lock :: List.replicate 9 (stepOf 0 1) ++
      .call 2 .lock :: List.replicate 5 (stepOf 0 2)) = some s ∧
      s.queue .mutex = 0 ∧ s.slots 0 = some [2] ∧ StaticOk s := by
  have hsome : ((Run.exec pthreadStep initializer (.call 1 .lock :: List.replicate 9 (stepOf 0 1) ++
      .call 2 .lock :: List.replicate 5 (stepOf 0 2))).map fun s =>
      (s.queue .mutex, s.slots 0)) = some (0, some [2]) := by decide
  obtain ⟨s, hrun, hfacts⟩ := Option.map_eq_some_iff.1 hsome
  simp only [Prod.mk.injEq] at hfacts
  exact ⟨s, hrun, hfacts.1, hfacts.2, static_sets_up_once s _ (by decide) (by decide) hrun⟩

/-- **Two first users set up two queues**, and one is lost. -/
theorem static_two_queues : ∃ s,
    Run.exec pthreadStep initializer ([.call 1 .lock, stepOf 0 1, .call 2 .lock, stepOf 0 2] ++
      List.replicate 3 (stepOf 0 1) ++ List.replicate 3 (stepOf 0 2)) = some s ∧
      s.queue .mutex = 1 ∧ s.slots 0 = some [] ∧ s.slots 1 = some [] ∧ ¬StaticOk s := by
  have hsome : ((Run.exec pthreadStep initializer ([.call 1 .lock, stepOf 0 1, .call 2 .lock,
      stepOf 0 2] ++ List.replicate 3 (stepOf 0 1) ++ List.replicate 3 (stepOf 0 2))).map fun s =>
      (s.queue .mutex, s.slots 0, s.slots 1)) = some (1, some [], some []) := by decide
  obtain ⟨s, hrun, hfacts⟩ := Option.map_eq_some_iff.1 hsome
  simp only [Prod.mk.injEq] at hfacts
  obtain ⟨hqueue, hslot, hslot'⟩ := hfacts
  refine ⟨s, hrun, hqueue, hslot, hslot', fun hok => ?_⟩
  exact absurd (hok.one 0 1 (by rw [hslot]; rfl) (by rw [hslot']; rfl)) (by decide)

/-! ## Cancellation -/

/-- The thread is in a call that is about the object. -/
def Inside (o : Obj) : Pc → Prop
  | .run op _ | .asleep _ op _ => op.touches o
  | _ => False

/-- **Cancellation leaves the spin locks free**: in every run of a normal mutex and a condition
variable in which no thread begins to wait after it was cancelled, the spin lock of an object is
free when no thread is in a call that is about it. -/
theorem cancel_leaves_spin (others others' : List ℕ) (s₀ s₁ s : PState) (events : List Event)
    (hmutex : pthreadMutexInit initializer .normal others = (s₀, 0))
    (hcond : pthreadCondInit s₀ others' = (s₁, 0))
    (hexchange : Run.Along pthreadStep (AtRun ExchangeAt) s₁ events)
    (hlive : Run.Along pthreadStep (AtRun UncanceledAt) s₁ events)
    (hrun : Run.exec pthreadStep s₁ events = some s) (o : Obj) (hidle : ∀ t, ¬Inside o (s.pc t)) :
    s.spin o = 0 := by
  obtain ⟨hstart, hunset⟩ := pthreadMutexInit_spec hmutex
  obtain ⟨hstart', -⟩ := pthreadCondInit_spec hstart hunset hcond
  have h : ReadyInv s := Run.exec_invariant (fun s e s' h hgood hstep =>
    ready_event h hgood.1 hgood.2 hstep) events s₁ s hstart'.readyInv
    (Run.along_and events s₁ hexchange hlive) hrun
  refine (h.spin.word o).resolve_right fun hone => ?_
  obtain ⟨t, ht⟩ := (h.spin.guard o).held.1 hone
  have hsound := h.queue.sound t
  have hnot := hidle t
  cases hp : s.pc t with
  | run op code =>
      rw [hp] at ht hsound hnot
      exact hnot (touches_of_holds hsound ht)
  | _ => rw [hp] at ht; exact ht

/-- A mutex and a condition variable, set up. -/
def bothInit : PState := (pthreadCondInit (pthreadMutexInit initializer .normal []).1 []).1

/-- Thread 2 is cancelled while it sleeps, and goes on to take the mutex. -/
theorem cancel_leaves_spin_asleep : ∃ s,
    Run.exec pthreadStep bothInit (.call 1 .lock :: List.replicate 6 (stepOf 0 1) ++
      .call 2 .lock :: List.replicate 5 (stepOf 0 2) ++
        .cancel 2 :: stepOf 0 1 :: .call 1 .unlock ::
        List.replicate 8 (stepOf 0 1) ++ List.replicate 6 (stepOf 0 2)) = some s ∧
      s.canceled 2 = true ∧ s.pc 2 = .out ∧
      ((∀ t, ¬Inside .mutex (s.pc t)) → s.spin .mutex = 0) := by
  have hsome : ((Run.exec pthreadStep bothInit (.call 1 .lock :: List.replicate 6 (stepOf 0 1) ++
      .call 2 .lock :: List.replicate 5 (stepOf 0 2) ++
        .cancel 2 :: stepOf 0 1 :: .call 1 .unlock ::
        List.replicate 8 (stepOf 0 1) ++ List.replicate 6 (stepOf 0 2))).map fun s =>
      (s.canceled 2, s.pc 2)) = some (true, .out) := by decide
  obtain ⟨s, hrun, hfacts⟩ := Option.map_eq_some_iff.1 hsome
  simp only [Prod.mk.injEq] at hfacts
  exact ⟨s, hrun, hfacts.1, hfacts.2,
    cancel_leaves_spin [] [] _ bothInit s _ rfl rfl (by decide) (by decide) hrun .mutex⟩

/-- The thread an event is about. -/
def Event.thread : Event → ℕ
  | .call t _ | .run t _ | .timeout t | .cancel t | .setCancelState t _ => t

/-- A step of a thread leaves others where they are, if they are not in a call. -/
theorem codeStep_out {input : Input} {u : ℕ} (hut : u ≠ t) (hout : s.pc u = .out) :
    (s.codeStep t input op code).pc u = .out := by
  by_cases hwake : ∃ o all next, code = .act (.wake o all) next
  · obtain ⟨o, all, next, rfl⟩ := hwake
    refine (Function.update_of_ne hut _ _).trans ?_
    unfold PState.mutexQueueWake
    split
    · exact hout
    · split
      · exact hout
      · dsimp only
        rw [hout]
        exact ite_self _
  · rw [codeStep_pc hut fun o all next hcode => hwake ⟨o, all, next, hcode⟩, hout]

/-- A thread that is in no call is in none after a run without events about it. -/
theorem out_of_run {u : ℕ} (events : List Event) (hother : ∀ e ∈ events, e.thread ≠ u)
    (hout : s.pc u = .out) (hrun : Run.exec pthreadStep s events = some s') : s'.pc u = .out := by
  refine Run.exec_invariant (I := fun s => s.pc u = .out)
    (fun s e s' hout hne hstep => ?_) events s s'
    hout (Run.along_of_mem events s hother) hrun
  obtain ⟨s₁, hevent, rfl⟩ := Option.map_eq_some_iff.1 hstep
  cases e with
  | run t input =>
      simp only [PState.event] at hevent
      split at hevent <;> cases hevent
      · exact codeStep_out hne.symm hout
      · exact (Function.update_of_ne hne.symm _ _).trans hout
  | timeout t =>
      simp only [PState.event] at hevent
      split at hevent <;> cases hevent
      refine (Function.update_of_ne hne.symm _ _).trans ?_
      unfold PState.sleepOver
      split <;> exact hout
  | call t op =>
      simp only [PState.event] at hevent
      split_ifs at hevent
      cases hevent
      exact (Function.update_of_ne hne.symm _ _).trans hout
  | _ =>
      simp only [PState.event] at hevent
      split_ifs at hevent
      cases hevent
      exact hout

/-- **A thread that was cancelled keeps the spin lock**: it exits where it would sleep. -/
theorem cancel_keeps_spin : ∃ s,
    Run.exec pthreadStep bothInit (.call 1 .lock :: List.replicate 7 (stepOf 0 1) ++
      .call 2 .lock :: .cancel 2 :: List.replicate 5 (stepOf 0 2)) = some s ∧
      (∀ t, ¬Inside .mutex (s.pc t)) ∧ s.spin .mutex = 1 := by
  have hsome : ((Run.exec pthreadStep bothInit (.call 1 .lock :: List.replicate 7 (stepOf 0 1) ++
      .call 2 .lock :: .cancel 2 :: List.replicate 5 (stepOf 0 2))).map fun s =>
      (s.pc 1, s.pc 2, s.spin .mutex)) = some (.out, .exited, 1) := by decide
  obtain ⟨s, hrun, hfacts⟩ := Option.map_eq_some_iff.1 hsome
  simp only [Prod.mk.injEq] at hfacts
  obtain ⟨hpc, hpc', hspin⟩ := hfacts
  refine ⟨s, hrun, fun t => ?_, hspin⟩
  by_cases ht : t = 1
  · rw [ht, hpc]
    exact id
  · by_cases ht' : t = 2
    · rw [ht', hpc']
      exact id
    · have hother : ∀ e ∈ (.call 1 .lock :: List.replicate 7 (stepOf 0 1) ++
          .call 2 .lock :: .cancel 2 :: List.replicate 5 (stepOf 0 2)), Event.thread e ≠ t := by
        have hthreads : ∀ e ∈ (.call 1 .lock :: List.replicate 7 (stepOf 0 1) ++
          .call 2 .lock :: .cancel 2 :: List.replicate 5 (stepOf 0 2)), Event.thread e = 1 ∨
            Event.thread e = 2 := by decide
        intro e he heq
        rcases hthreads e he with h | h
        · exact ht (by rw [← heq, h])
        · exact ht' (by rw [← heq, h])
      rw [out_of_run _ hother rfl hrun]
      exact id

end Pthread
end LightOS
