import LightOS.Pthread.CondQueue

/-!
# Condition variables: runs

* `CondState`, `condState_event` — the state of a normal mutex and a condition variable that are
  set up.
* `signal_keeps`, `signal_finds` — a thread that sleeps when a signal takes the spin lock is asleep
  until the signal wakes.
* `cond_loses_no_signal` — whom a signal wakes, what a wait returns after, and that the two spin
  locks do not deadlock.
* `cond_loses_signal` — what happens otherwise.
-/

namespace LightOS
namespace Pthread

open Threads

variable {s s' : PState} {t u : ℕ} {o : Obj} {op : Op} {code next : Code} {input : Input}
  {e : Event}

/-- A thread that signals has not woken anybody yet. -/
def BeforeWake : Pc → Prop
  | .run op code => op.signals ∧ Holds .cond op code ∧ code.wakes
  | _ => False

/-- The state of a normal mutex and a condition variable. -/
structure CondState (s : PState) : Prop where
  normal : NormalInv s
  cond : CondInv s

/-- A call or a step that `CondState` allows: no call has a timeout, threads unlock and wait while
they hold the mutex, and an exchange finds the upper half of its register clear. -/
def CalmAt (s : PState) (e : Event) : Prop := UntimedCall e ∧ WhileHeld s e ∧ AtRun ExchangeAt s e

theorem condState_event (h : CondState s) (hcalm : CalmAt s e) (hstep : pthreadStep s e = some s') :
    CondState s' := by
  obtain ⟨hcall, hheld, hexchange⟩ := hcalm
  have hcancel : ∀ t, e ≠ .cancel t := fun t ht => by
    rw [ht] at hcall
    exact hcall
  exact ⟨normal_event h.normal hcancel hheld hexchange hstep,
    cond_event h.cond h.normal.base.queue h.normal.base.spin h.normal.lock hcall
    (uncanceledAt h.normal.canceled e)
      hstep⟩

theorem pthreadStep_run (hpc : s.pc t = .run op code) :
    pthreadStep s (.run t input) = some { s.codeStep t input op code with now := s.now + 1 } := by
  simp only [pthreadStep, PState.event, hpc, Option.map_some]

/-! ## Signals -/

namespace CondState

/-- A thread that has freed the mutex sleeps, or has the spin lock until it does. -/
theorem released_place (h : CondState s) (ht : ReleasedPc (s.pc t)) :
    AsleepOn .cond (s.pc t) ∨ HoldsPc .cond (s.pc t) := by
  have hsound := h.cond.sound t
  cases hp : s.pc t with
  | run op code =>
      rw [hp] at ht hsound
      obtain ⟨-, -, -, hheld, -⟩ := hsound
      exact Or.inr (hheld (Or.imp (fun hr => hr.1) id ht))
  | asleep o op next =>
      rw [hp] at ht
      exact Or.inl ht
  | _ => rw [hp] at ht; exact ht.elim

/-- **While a thread signals, the threads that have freed the mutex are on the list.** -/
theorem queued (h : CondState s) (hu : SignalsPc (s.pc u)) (ht : ReleasedPc (s.pc t)) :
    t ∈ s.waiters .cond := by
  refine (h.normal.base.queue.sleeps t .cond).1
    ((h.released_place ht).resolve_right fun hholds => ?_)
  -- only the thread that signals has the spin lock
  have hu' : HoldsPc .cond (s.pc u) := by
    cases hp : s.pc u <;> rw [hp] at hu <;> first | exact hu.2 | exact hu.elim
  obtain rfl := (h.normal.base.spin.guard .cond).unique t u hholds hu'
  have hsound := h.cond.sound t
  cases hp : s.pc t with
  | run op code =>
      rw [hp] at hu ht
      obtain ⟨hsig, -⟩ := hu
      rcases ht with ⟨hr, -⟩ | hs
      · cases op <;> first | exact hsig.elim | exact hr.elim
      · cases op <;> first | exact hsig.elim | exact hs.elim
  | _ => rw [hp] at hu; exact hu.elim

/-- A thread at a wake is in a signal, and wakes once. -/
theorem at_wake (h : CondState s) {all : Bool}
    (hpc : s.pc u = .run op (.act (.wake .cond all) next)) :
    op = .signal all ∧ Holds .cond op next ∧ ¬next.wakes := by
  have hsound := h.cond.sound u
  rw [hpc] at hsound
  obtain ⟨-, -, -, -, -, -, hinstr, -⟩ := hsound
  exact hinstr

/-- What the wake of a signal or a broadcast does: the waiters it is to wake were asleep and go on
to lock the mutex, the others stay. -/
structure Wakes (s s' : PState) (u : ℕ) (all : Bool) : Prop where
  woken : ∀ t ∈ toWake all (s.waiters .cond),
    AsleepOn .cond (s.pc t) ∧ s'.pc t = .run (.waitLock false 0) setUp
  others : ∀ t, t ≠ u → t ∉ toWake all (s.waiters .cond) → s'.pc t = s.pc t
  waiters : s'.waiters .cond = toLeave all (s.waiters .cond)

theorem wakes (h : CondState s) {all : Bool} (hpc : s.pc u = .run op (.act (.wake .cond all) next))
    (hstep : pthreadStep s (.run u input) = some s') : Wakes s s' u all := by
  have hq := h.normal.base.queue
  have hkind := h.normal.base.kind
  rw [pthreadStep_run hpc, Option.some.injEq] at hstep
  have hplace : ∀ t, s'.pc t = if t = u then goOn s.kind op next
      else if t ∈ toWake all (s.waiters .cond) then wokenPc s.kind (s.pc t) else s.pc t := by
    rw [← hstep]
    exact hq.wake_goto_pc hpc
  refine ⟨fun t ht => ⟨?_, ?_⟩, fun t htu ht => ?_, ?_⟩
  · exact (hq.sleeps t .cond).2 (mem_toWake_or_toLeave.2 (Or.inl ht))
  · have htu : t ≠ u := fun htu =>
      hq.not_mem_waiters hpc .cond (by rw [← htu]; exact mem_toWake_or_toLeave.2 (Or.inl ht))
    obtain ⟨op', next', hp, hgo⟩ := hq.woken_pc ht
    have hsound := h.cond.sound t
    rw [hp] at hsound
    obtain ⟨huntimed, hsleeping⟩ := hsound
    rw [hplace, if_neg htu, if_pos ht, hgo]
    cases op' with
    | waitSleep timed =>
        obtain rfl : timed = false := huntimed
        rfl
    | _ => exact hsleeping.elim
  · rw [hplace, if_neg htu, if_neg ht]
  · obtain ⟨i, hentry, hwake⟩ := hq.wake_eq (t := u) (o := .cond) all (by rw [hpc]; rfl)
    have hwaiters : ((s.mutexQueueWake u all).goto u op next).waiters .cond =
        toLeave all (s.waiters .cond) := by
      rw [waiters_update hq hentry (by rw [hwake]; rfl) (by rw [hwake]; rfl) .cond, if_pos rfl]
    rw [← hstep]
    exact hwaiters

/-- A thread sleeps until a signal or a broadcast wakes. -/
theorem asleep_event (h : CondState s) (hcall : UntimedCall e) (ht : AsleepOn .cond (s.pc t))
    (hstep : pthreadStep s e = some s') :
    s'.pc t = s.pc t ∨
      ∃ u input op all next, e = .run u input ∧ s.pc u = .run op (.act (.wake .cond all) next) := by
  have hq := h.normal.base.queue
  cases e with
  | call u op =>
      obtain ⟨s₁, hevent, rfl⟩ := Option.map_eq_some_iff.1 hstep
      simp only [PState.event] at hevent
      split_ifs at hevent with hout
      cases hevent
      refine Or.inl (Function.update_of_ne (fun htu => ?_) _ _)
      rw [htu, hout.1] at ht
      exact ht
  | run u input =>
      obtain ⟨s₁, hevent, rfl⟩ := Option.map_eq_some_iff.1 hstep
      simp only [PState.event] at hevent
      split at hevent
      · rename_i op code hpc
        cases hevent
        have htu : t ≠ u := fun htu => by
          rw [htu, hpc] at ht
          exact ht
        by_cases hwake : ∃ o all next, code = .act (.wake o all) next
        · obtain ⟨o, all, next, rfl⟩ := hwake
          cases o with
          | cond => exact Or.inr ⟨u, input, op, all, next, rfl, hpc⟩
          | mutex =>
              have hnot : t ∉ toWake all (s.waiters .mutex) := fun hmem => by
                have hmutex := (hq.sleeps t .mutex).2 (mem_toWake_or_toLeave.2 (Or.inl hmem))
                cases hp : s.pc t <;> rw [hp] at ht hmutex <;> first | exact ht.elim | skip
                exact absurd (hmutex.symm.trans ht) (by decide)
              refine Or.inl ((hq.wake_goto_pc hpc t).trans ?_)
              rw [if_neg htu, if_neg hnot]
        · exact Or.inl (codeStep_pc htu fun o all next hcode => hwake ⟨o, all, next, hcode⟩)
      · rename_i op status hpc
        cases hevent
        refine Or.inl (Function.update_of_ne (fun htu => ?_) _ _)
        rw [htu, hpc] at ht
        exact ht
      · cases hevent
  | _ => exact hcall.elim

/-- While a signal has not woken anybody, a thread that sleeps goes on to sleep. -/
theorem signal_keeps (h : CondState s) (hcall : UntimedCall e) (hu : BeforeWake (s.pc u))
    (ht : AsleepOn .cond (s.pc t)) (hstep : pthreadStep s e = some s')
    (hu' : BeforeWake (s'.pc u)) :
    AsleepOn .cond (s'.pc t) := by
  rcases h.asleep_event hcall ht hstep with hsame | ⟨v, input, op, all, next, rfl, hpc⟩
  · rw [hsame]
    exact ht
  · exfalso
    obtain ⟨rfl, hholds, hwakes⟩ := h.at_wake hpc
    have huholds : HoldsPc .cond (s.pc u) := by
      cases hp : s.pc u <;> rw [hp] at hu <;> first | exact hu.2.1 | exact hu.elim
    obtain rfl := (h.normal.base.spin.guard .cond).unique u v huholds (by rw [hpc]; exact hholds)
    rw [pthreadStep_run hpc, Option.some.injEq] at hstep
    rw [← hstep] at hu'
    have hplace := h.normal.base.queue.wake_goto_pc hpc u
    rw [if_pos rfl] at hplace
    change BeforeWake (((s.mutexQueueWake u all).goto u (.signal all) next).pc u) at hu'
    rw [hplace, h.normal.base.kind] at hu'
    cases next with
    | ret status => exact hu'
    | body => exact hholds.2
    | _ => exact hwakes hu'.2.2

/-- **The spin locks do not deadlock**: while one of the two is taken, a thread that has one can go
on. -/
theorem goes_on (h : CondState s) (htaken : s.spin o = 1) :
    ∃ t op code, s.pc t = .run op code ∧ (∃ o', Holds o' op code) ∧
      ∀ o' next, code = .spinLock o' next → s.spin o' ≠ 1 := by
  have hspin := h.normal.base.spin
  -- a thread that has the spin lock of the mutex asks for none
  have hmutex : s.spin .mutex = 1 → ∃ t op code, s.pc t = .run op code ∧ (∃ o', Holds o' op code) ∧
      ∀ o' next, code = .spinLock o' next → s.spin o' ≠ 1 := by
    intro hone
    obtain ⟨t, ht⟩ := (hspin.guard .mutex).held.1 hone
    have hsound := h.cond.sound t
    cases hp : s.pc t with
    | run op code =>
        rw [hp] at ht hsound
        obtain ⟨-, -, -, -, hscode⟩ := hsound
        refine ⟨t, op, code, hp, ⟨.mutex, ht⟩, fun o' next hcode => ?_⟩
        subst hcode
        obtain ⟨hne, hholds⟩ := ht
        cases o' with
        | mutex => exact absurd rfl hne
        | cond => exact absurd hholds (hscode.1 rfl)
    | _ => rw [hp] at ht; exact ht.elim
  cases o with
  | mutex => exact hmutex htaken
  | cond =>
      by_cases hone : s.spin .mutex = 1
      · exact hmutex hone
      · obtain ⟨t, ht⟩ := (hspin.guard .cond).held.1 htaken
        cases hp : s.pc t with
        | run op code =>
            rw [hp] at ht
            refine ⟨t, op, code, hp, ⟨.cond, ht⟩, fun o' next hcode => ?_⟩
            subst hcode
            obtain ⟨hne, -⟩ := ht
            cases o' with
            | mutex => exact hone
            | cond => exact absurd rfl hne
        | _ => rw [hp] at ht; exact ht.elim

/-- Whoever has freed the mutex when a signal takes the spin lock sleeps when it wakes. -/
theorem signal_finds (h : CondState s) {all : Bool}
    (hpc : s.pc u = .run (.signal all) (.spinLock .cond next))
    (hfree : s.spin .cond ≠ 1) (ht : ReleasedPc (s.pc t))
    (hexchange : AtRun ExchangeAt s (.run u input))
    (hstep : pthreadStep s (.run u input) = some s') {events : List Event} {s'' : PState}
    (hcalm : Run.Along pthreadStep CalmAt s' events)
    (hbefore : Run.Along pthreadStep (fun s _ => BeforeWake (s.pc u)) s' events)
    (hrun : Run.exec pthreadStep s' events = some s'') (hlast : BeforeWake (s''.pc u)) :
    t ∈ s''.waiters .cond := by
  have hcalm' : CalmAt s (.run u input) := ⟨trivial, trivial, hexchange⟩
  have hasleep : AsleepOn .cond (s.pc t) := (h.released_place ht).resolve_right fun hholds =>
    hfree ((h.normal.base.spin.guard .cond).held.2 ⟨t, hholds⟩)
  have hstart : AsleepOn .cond (s'.pc t) := by
    rcases h.asleep_event hcalm'.1 hasleep hstep with hsame | ⟨v, input', op, all, next, heq, hpc'⟩
    · rw [hsame]
      exact hasleep
    · cases heq
      rw [hpc] at hpc'
      cases hpc'
  have hend : CondState s'' ∧ (BeforeWake (s''.pc u) → AsleepOn .cond (s''.pc t)) := by
    refine Run.exec_invariant
      (I := fun s => CondState s ∧ (BeforeWake (s.pc u) → AsleepOn .cond (s.pc t)))
      (fun s e s' hs hgood hstep => ?_) events s' s''
      ⟨condState_event h hcalm' hstep, fun _ => hstart⟩
      (Run.along_and events s' hcalm hbefore) hrun
    exact ⟨condState_event hs.1 hgood.1 hstep, fun hu' =>
      hs.1.signal_keeps hgood.1.1 hgood.2 (hs.2 hgood.2) hstep hu'⟩
  exact (hend.1.normal.base.queue.sleeps t .cond).1 (hend.2 hlast)

end CondState

/-! ## Runs -/

/-- What a condition variable promises.  The waiters are listed in the order in which they went to
sleep.  Whoever has freed the mutex and was not woken is among them when a signal is about to wake,
and when it has been since the signal took the spin lock.  The signal wakes the first, and a
broadcast all.  A wait returns 0, with the mutex and alone so, after a signal that took the spin
lock since the wait freed the mutex.  And while a spin lock is taken, a thread that has one can go
on. -/
structure CondOk (s : PState) : Prop where
  order : (s.waiters .cond).Pairwise fun t u => s.queuedAt t < s.queuedAt u
  queued : ∀ t u, BeforeWake (s.pc u) → ReleasedPc (s.pc t) → t ∈ s.waiters .cond
  finds : ∀ t u all next input s' events s'', s.pc u = .run (.signal all) (.spinLock .cond next) →
    s.spin .cond ≠ 1 → ReleasedPc (s.pc t) → AtRun ExchangeAt s (.run u input) →
    pthreadStep s (.run u input) = some s' → Run.Along pthreadStep CalmAt s' events →
    Run.Along pthreadStep (fun s _ => BeforeWake (s.pc u)) s' events →
    Run.exec pthreadStep s' events = some s'' → BeforeWake (s''.pc u) → t ∈ s''.waiters .cond
  wakes : ∀ u op all next input s', s.pc u = .run op (.act (.wake .cond all) next) →
    pthreadStep s (.run u input) = some s' → op = .signal all ∧ CondState.Wakes s s' u all
  returned : ∀ t timed status, s.pc t = .ret (.wait timed) status →
    status = 0 ∧ (∀ u, s.depth u ≠ 0 ↔ u = t) ∧ SignaledSince s t
  goesOn : ∀ o, s.spin o = 1 → ∃ t op code, s.pc t = .run op code ∧ (∃ o', Holds o' op code) ∧
    ∀ o' next, code = .spinLock o' next → s.spin o' ≠ 1

theorem CondState.condOk (h : CondState s) : CondOk s := by
  refine ⟨h.cond.order, fun t u hu ht => ?_, ?_, ?_, fun t timed status hp => ?_,
    fun o => h.goes_on⟩
  · have hsig : SignalsPc (s.pc u) := by
      cases hp : s.pc u <;> rw [hp] at hu <;> first | exact ⟨hu.1, hu.2.1⟩ | exact hu.elim
    exact h.queued hsig ht
  · intro t u all next input s' events s'' hpc hfree ht hexchange hstep hcalm hbefore hrun hlast
    exact h.signal_finds hpc hfree ht hexchange hstep hcalm hbefore hrun hlast
  · intro u op all next input s' hpc hstep
    exact ⟨(h.at_wake hpc).1, h.wakes hpc hstep⟩
  · have hsound := h.cond.sound t
    rw [hp] at hsound
    have hdepth : s.depth t ≠ 0 := h.normal.lock.must t (by rw [hp]; trivial)
    refine ⟨hsound, fun u => ⟨fun hu => h.normal.lock.held.unique u t hu hdepth, ?_⟩,
      h.cond.woken t ?_⟩
    · rintro rfl
      exact hdepth
    · rw [hp]
      trivial

/-- **A condition variable loses no signal**, in every run of calls without a timeout in which
threads unlock the mutex and wait only while they hold it, if every atomic exchange finds the upper
half of its register clear. -/
theorem cond_loses_no_signal (others others' : List ℕ) (s₀ s₁ s : PState) (events : List Event)
    (hmutex : pthreadMutexInit initializer .normal others = (s₀, 0))
    (hcond : pthreadCondInit s₀ others' = (s₁, 0)) (hcalls : ∀ e ∈ events, UntimedCall e)
    (hheld : Run.Along pthreadStep WhileHeld s₁ events)
    (hexchange : Run.Along pthreadStep (AtRun ExchangeAt) s₁ events)
    (hrun : Run.exec pthreadStep s₁ events = some s) : CondOk s := by
  obtain ⟨hstart, hunset⟩ := pthreadMutexInit_spec hmutex
  obtain ⟨hstart', hready⟩ := pthreadCondInit_spec hstart hunset hcond
  have hcalm : Run.Along pthreadStep CalmAt s₁ events :=
    Run.along_and events s₁ (Run.along_of_mem events s₁ hcalls)
      (Run.along_and events s₁ hheld hexchange)
  have h : CondState s :=
    Run.exec_invariant (fun s e s' h hgood hstep => condState_event h hgood hstep)
    events s₁ s ⟨hstart'.normalInv, hstart'.condInv hready⟩ hcalm hrun
  exact h.condOk

/-- Thread 1 waits; thread 3 signals, and thread 1 has the mutex again. -/
def oneSignal : List Event :=
  .call 1 .lock :: List.replicate 7 (stepOf 0 1) ++ .call 1 (.wait false) ::
    List.replicate 11 (stepOf 0 1) ++ .call 3 (.signal false) :: List.replicate 5 (stepOf 0 3) ++
      List.replicate 6 (stepOf 0 1)

/-- The signal was not lost. -/
theorem cond_loses_no_signal_one : ∃ s, Run.exec pthreadStep bothInit oneSignal = some s ∧
    s.pc 1 = .ret (.wait false) 0 ∧ CondOk s := by
  have hsome : ((Run.exec pthreadStep bothInit oneSignal).map fun s => s.pc 1) =
      some (.ret (.wait false) 0) := by decide
  obtain ⟨s, hrun, hret⟩ := Option.map_eq_some_iff.1 hsome
  exact ⟨s, hrun, hret, cond_loses_no_signal [] [] _ bothInit s oneSignal rfl rfl (by decide)
    (by decide)
    (by decide) hrun⟩

/-- **A signal is lost**: the exchange leaves a spin lock that others find free, and thread 3 is
about to wake nobody while thread 1, which has freed the mutex, has yet to go to sleep. -/
theorem cond_loses_signal : ∃ s,
    Run.exec pthreadStep bothInit (.call 1 .lock :: List.replicate 7 (stepOf 0 1) ++
      .call 1 (.wait false) :: List.replicate 9 (stepOf 0x8050000 1) ++
        .call 3 (.signal false) :: List.replicate 2 (stepOf 0 3)) = some s ∧
      ReleasedPc (s.pc 1) ∧ BeforeWake (s.pc 3) ∧ s.waiters .cond = [] ∧ ¬CondOk s := by
  have hsome : ((Run.exec pthreadStep bothInit (.call 1 .lock :: List.replicate 7 (stepOf 0 1) ++
      .call 1 (.wait false) :: List.replicate 9 (stepOf 0x8050000 1) ++
        .call 3 (.signal false) :: List.replicate 2 (stepOf 0 3))).map fun s =>
      (s.pc 1, s.pc 3, s.waiters .cond)) =
      some (.run (.waitSleep false) (.act (.arg .cond) (.act (.wait .cond false) (.ret 0))),
        .run (.signal false) (.act (.arg .cond) (.act (.wake .cond false)
          (.act (.spinUnlock .cond) (.ret 0)))), []) := by decide
  obtain ⟨s, hrun, hfacts⟩ := Option.map_eq_some_iff.1 hsome
  simp only [Prod.mk.injEq] at hfacts
  obtain ⟨hpc, hpc', hwaiters⟩ := hfacts
  have hreleased : ReleasedPc (s.pc 1) := by
    rw [hpc]
    exact Or.inr trivial
  have hbefore : BeforeWake (s.pc 3) := by
    rw [hpc']
    exact ⟨trivial, Or.inl rfl, trivial⟩
  refine ⟨s, hrun, hreleased, hbefore, hwaiters, fun hok => ?_⟩
  have hmem := hok.queued 1 3 hbefore hreleased
  rw [hwaiters] at hmem
  exact List.not_mem_nil hmem

end Pthread
end LightOS
