import LightOS.Lib.Threads
import LightOS.Pthread.MutexQueue

/-!
# The spin locks of the mutex and of the condition variable

* `SpinInv` — the word is 1 exactly while a thread is between taking and giving up the spin lock,
  else 0, and never are two threads there.
* `spin_event` — an event keeps it, if exchanges find the upper half of their register clear,
  threads that are to wait have not been cancelled, and `pthread_mutex_trylock` finds the mutex
  owned where it looks.
-/

namespace LightOS
namespace Pthread

open Threads

/-- An atomic exchange finds the upper half of its register clear. -/
def ExchangeAt (_ : PState) (_ : ℕ) (input : Input) (_ : Op) : Code → Prop
  | .spinLock _ _ | .xchgLock _ _ => input.ebx &&& 0xffff0000 = 0
  | _ => True

instance (s : PState) (t : ℕ) (input : Input) (op : Op) : DecidablePred (ExchangeAt s t input op) :=
  fun code => by unfold ExchangeAt; split <;> infer_instance

/-- A thread that is about to wait does not have to exit instead. -/
def UncanceledAt (s : PState) (t : ℕ) (_ : Input) (_ : Op) : Code → Prop
  | .act (.wait _ _) _ => ¬(s.cancelDisable t = false ∧ s.canceled t = true)
  | _ => True

instance (s : PState) (t : ℕ) (input : Input) (op : Op) :
    DecidablePred (UncanceledAt s t input op) :=
  fun code => by unfold UncanceledAt; split <;> infer_instance

/-- The words of the spin locks, and who has them. -/
structure SpinInv (s : PState) : Prop where
  word : ∀ o, s.spin o = 0 ∨ s.spin o = 1
  guard : ∀ o, Guards (s.spin o = 1) (HoldsPc o) s.pc

variable {s s' : PState} {t : ℕ} {o : Obj} {op : Op} {code : Code} {p : Pc} {input : Input}

theorem memXchg32_one {ebx : UInt32} (hclear : ebx &&& 0xffff0000 = 0) : memXchg32 ebx 1 = 1 := by
  rw [memXchg32, hclear]
  rfl

theorem memXchg32_zero {ebx : UInt32} (hclear : ebx &&& 0xffff0000 = 0) : memXchg32 ebx 0 = 0 := by
  rw [memXchg32, hclear]
  rfl

namespace SpinInv

/-- Threads move and stay on their side of both spin locks. -/
theorem congr (h : SpinInv s) (hspin : s'.spin = s.spin)
    (hside : ∀ o u, HoldsPc o (s'.pc u) ↔ HoldsPc o (s.pc u)) : SpinInv s' :=
  ⟨fun o => by rw [hspin]; exact h.word o,
    fun o => by rw [hspin]; exact (h.guard o).congr (hside o)⟩

/-- A thread moves and stays on its side. -/
theorem keep (h : SpinInv s) (hspin : s'.spin = s.spin) (hpc : s'.pc = Function.update s.pc t p)
    (hside : ∀ o, HoldsPc o p ↔ HoldsPc o (s.pc t)) : SpinInv s' :=
  h.congr hspin fun o => by rw [hpc]; exact update_iff (hside o)

/-- A thread goes on in its code and stays on its side. -/
theorem goto (h : SpinInv s) {next : Code} (hpc : s.pc t = .run op code) (hspin : s'.spin = s.spin)
    (hpc' : s'.pc = s.pc) (hside : ∀ o, Holds o op next ↔ Holds o op code) :
    SpinInv (s'.goto t op next) :=
  h.keep hspin (by rw [goto_pc, hpc']) fun o => by
    rw [hpc]
    exact holdsPc_goOn.trans (hside o)

/-- **A thread takes a spin lock.** -/
theorem acquire (h : SpinInv s) (hfree : s.spin o ≠ 1)
    (hspin : s'.spin = Function.update s.spin o 1)
    (hpc : s'.pc = Function.update s.pc t p) (hp : HoldsPc o p)
    (hside : ∀ o', o' ≠ o → (HoldsPc o' p ↔ HoldsPc o' (s.pc t))) : SpinInv s' := by
  refine ⟨fun o' => ?_, fun o' => ?_⟩
  · rw [hspin]
    by_cases ho : o' = o
    · rw [ho, Function.update_self]
      exact Or.inr rfl
    · rw [Function.update_of_ne ho]
      exact h.word o'
  · rw [hspin, hpc]
    by_cases ho : o' = o
    · subst ho
      rw [Function.update_self]
      exact (h.guard o').acquire hfree rfl hp
    · rw [Function.update_of_ne ho]
      exact (h.guard o').keep (hside o' ho)

/-- **A thread gives a spin lock up.** -/
theorem release (h : SpinInv s) (ht : HoldsPc o (s.pc t))
    (hspin : s'.spin = Function.update s.spin o 0)
    (hpc : s'.pc = Function.update s.pc t p) (hp : ¬HoldsPc o p)
    (hside : ∀ o', o' ≠ o → (HoldsPc o' p ↔ HoldsPc o' (s.pc t))) : SpinInv s' := by
  refine ⟨fun o' => ?_, fun o' => ?_⟩
  · rw [hspin]
    by_cases ho : o' = o
    · rw [ho, Function.update_self]
      exact Or.inl rfl
    · rw [Function.update_of_ne ho]
      exact h.word o'
  · rw [hspin, hpc]
    by_cases ho : o' = o
    · subst ho
      rw [Function.update_self]
      exact (h.guard o').release ht hp (by decide)
    · rw [Function.update_of_ne ho]
      exact (h.guard o').keep (hside o' ho)

/-- A thread that has a spin lock finds its word set. -/
theorem word_eq (h : SpinInv s) (ht : HoldsPc o (s.pc t)) : s.spin o = 1 :=
  (h.guard o).held.2 ⟨t, ht⟩

/-- A system call that waits. -/
theorem waitStep (h : SpinInv s) (hq : QueueInv s) {timed : Bool} {next : Code}
    (hpc : s.pc t = .run op (.act (.wait o timed) next))
    (hlive : ¬(s.cancelDisable t = false ∧ s.canceled t = true)) :
    SpinInv (s.mutexQueueWait t o timed input.time op next) := by
  have hsound := hq.sound t
  rw [hpc] at hsound
  obtain ⟨-, ⟨-, hnot, -⟩, -⟩ := hsound
  have ht : HoldsPc o (s.pc t) := by rw [hpc]; exact rfl
  have hother : ∀ o', o' ≠ o → ¬HoldsPc o' (s.pc t) := fun o' ho hh => by
    rw [hpc] at hh
    exact ho hh.symm
  obtain ⟨i, hhandle, -, hslot⟩ := hq.slot_of_need (t := t) (o := o) (by rw [hpc]; rfl)
  have hgo : ∀ status, ∀ o', ¬HoldsPc o' (goOn s.kind op (afterWait status next o)) :=
    fun status o' hh => hnot o' status (holdsPc_goOn.1 hh)
  unfold PState.mutexQueueWait
  rw [hhandle]
  simp only [hslot, if_neg hlive]
  split_ifs
  · exact h.release ht rfl rfl (hgo _ o) fun o' ho => iff_of_false (hgo _ o') (hother o' ho)
  · exact h.release ht rfl rfl (hgo _ o) fun o' ho => iff_of_false (hgo _ o') (hother o' ho)
  · exact h.release ht rfl rfl id fun o' ho => iff_of_false id (hother o' ho)

/-- A system call that wakes: a thread that sleeps has no spin lock, nor has it when it is woken. -/
theorem wake (h : SpinInv s) (hq : QueueInv s) (all : Bool) : SpinInv (s.mutexQueueWake t all) := by
  refine h.congr (mutexQueueWake_frame s t all).2.2.2.2 fun o u => ?_
  have hwoken : HoldsPc o (wokenPc s.kind (s.pc u)) ↔ HoldsPc o (s.pc u) := by
    have hsound := hq.sound u
    cases hpc : s.pc u with
    | asleep o' op next =>
        rw [hpc] at hsound
        exact iff_of_false (fun hh => hsound.2.2 o 0 (holdsPc_goOn.1 hh)) id
    | _ => rfl
  unfold PState.mutexQueueWake
  split
  · rfl
  · split
    · rfl
    · dsimp only
      split_ifs
      · exact hwoken
      · rfl

theorem codeStep (h : SpinInv s) (hq : QueueInv s) (hpc : s.pc t = .run op code)
    (hexchange : ExchangeAt s t input op code) (hlive : UncanceledAt s t input op code)
    (htry : TrylockAt s t input op code) : SpinInv (s.codeStep t input op code) := by
  have hsound : Sound s.kind op code := by have hs := hq.sound t; rwa [hpc] at hs
  cases code with
  | ret status => exact h.goto hpc rfl rfl fun _ => Iff.rfl
  | body => exact h.goto hpc rfl rfl fun _ => Iff.rfl
  | spinLock o next =>
      simp only [PState.codeStep, memXchg32_one hexchange]
      split_ifs with hold
      · refine h.congr ?_ fun _ _ => Iff.rfl
        rw [← hold, Function.update_eq_self]
      · refine h.acquire (t := t) (p := goOn s.kind op next) hold (by simp) (by simp)
          (holdsPc_goOn.2 hsound.2.1) fun o' ho => ?_
        rw [hpc]
        exact holdsPc_goOn.trans ⟨fun hh => ⟨ho.symm, hh⟩, fun hh => hh.2⟩
  | xchgLock busy free =>
      simp only [PState.codeStep]
      split_ifs
      · exact h.goto hpc rfl rfl fun _ => Iff.rfl
      · exact h.goto hpc rfl rfl hsound.2.2.1
  | ite c yes no =>
      simp only [PState.codeStep]
      split_ifs with hc
      · exact h.goto hpc (by simp) (by simp) fun _ => Iff.rfl
      · rcases hsound.2.2.2 with ⟨hkind, rfl, rfl⟩ | ⟨-, hside, -⟩
        · exact absurd (htry hkind rfl) (by simpa [PState.test] using hc)
        · exact h.goto hpc rfl rfl hside
  | act i next =>
      cases i with
      | spinUnlock o =>
          have ht : HoldsPc o (s.pc t) := by rw [hpc]; exact Or.inl rfl
          refine h.release (o := o) (t := t) (p := goOn s.kind op next) ht ?_ rfl
            (fun hh => hsound.2.1.2 (holdsPc_goOn.1 hh)) fun o' ho => ?_
          · show Function.update s.spin o (s.spin o - 1) = _
            rw [h.word_eq ht]
            rfl
          · rw [hpc]
            exact holdsPc_goOn.trans ⟨Or.inr, fun hh => hh.resolve_left fun ho' => ho ho'.symm⟩
      | wait o timed => exact h.waitStep hq hpc hlive
      | wake o all =>
          have hneed : (s.pc t).need = .handle o := by rw [hpc]; rfl
          have hpc' : (s.mutexQueueWake t all).pc t = .run op (.act (.wake o all) next) := by
            rw [hq.wake_pc hneed (hq.not_mem_waiters hpc o), hpc]
          exact (h.wake hq all).goto hpc' rfl rfl fun _ => Iff.rfl
      | alloc =>
          have hframe : (s.mutexQueueAlloc input.others).1.spin = s.spin ∧
              (s.mutexQueueAlloc input.others).1.pc = s.pc := by
            unfold PState.mutexQueueAlloc
            split <;> exact ⟨rfl, rfl⟩
          exact h.goto hpc hframe.1 hframe.2 fun _ => Iff.rfl
      | _ => exact h.goto hpc rfl rfl fun _ => Iff.rfl

end SpinInv

/-- **An event keeps the spin locks in order.** -/
theorem spin_event (h : SpinInv s) (hq : QueueInv s) {e : Event} (hexchange : AtRun ExchangeAt s e)
    (hlive : AtRun UncanceledAt s e) (htry : AtRun TrylockAt s e)
    (hstep : pthreadStep s e = some s') :
    SpinInv s' := by
  obtain ⟨s₁, hevent, rfl⟩ := Option.map_eq_some_iff.1 hstep
  suffices hinv : SpinInv s₁ from hinv.congr rfl fun _ _ => Iff.rfl
  cases e with
  | call t op =>
      simp only [PState.event] at hevent
      split_ifs at hevent with hcall
      cases hevent
      have hno : ∀ o op kind, op.isCall = true → ¬Holds o op (entry kind op) := by
        intro o op kind hcall
        cases o <;> cases op <;> cases kind <;>
          simp [entry, setUp, trylockBody, leave, Holds, Op.condAtRet, Op.isCall] at hcall ⊢
      refine h.keep (t := t) (p := .run op (entry s.kind op)) rfl rfl fun o => ?_
      rw [hcall.1]
      exact iff_of_false (hno o op s.kind hcall.2.2) id
  | run t input =>
      simp only [PState.event] at hevent
      split at hevent
      · rename_i op code hpc
        cases hevent
        simp only [AtRun, hpc] at hexchange hlive htry
        exact h.codeStep hq hpc hexchange hlive htry
      · rename_i op status hpc
        cases hevent
        refine h.keep (t := t) (p := .out) rfl rfl fun o => ?_
        rw [hpc]
        rfl
      · cases hevent
  | timeout t =>
      simp only [PState.event] at hevent
      split at hevent
      · rename_i o next hpc
        cases hevent
        have hsound := hq.sound t
        rw [hpc] at hsound
        refine h.keep (t := t) (p := goOn s.kind (.waitSleep true)
          (afterWait etimedout next o)) ?_ ?_
          fun o' => ?_
        · unfold PState.sleepOver
          split <;> rfl
        · unfold PState.sleepOver
          split <;> rfl
        · rw [hpc]
          exact iff_of_false (fun hh => hsound.2.2 o' etimedout (holdsPc_goOn.1 hh)) id
      · cases hevent
  | cancel t =>
      simp only [PState.event] at hevent
      split_ifs at hevent
      cases hevent
      exact h.congr rfl fun _ _ => Iff.rfl
  | setCancelState t disable =>
      simp only [PState.event] at hevent
      split_ifs at hevent
      cases hevent
      exact h.congr rfl fun _ _ => Iff.rfl

end Pthread
end LightOS
