import LightOS.Lib.Run
import LightOS.Lib.Threads
import LightOS.Pthread.SemaphoreBasic

/-!
# User semaphores: tokens

* `SemInv` — the value is what was there and was posted less what was taken, and never negative.
* `semStep_inv` — an event keeps it, if no timed wait that was woken finds the value gone and no
  post finds it at its maximum.
* `sem_tokens` — the value in every state of every such run, what the waits return, and what a post
  does at the maximum.
* `sem_overdrawn` — a run in which the value becomes negative.
-/

namespace LightOS
namespace Sem

open Threads

/-- The points at which a thread has the mutex. -/
def HasMutex : SemPc → Prop
  | .test _ _ | .leave _ _ | .decrement _ _ | .increment | .unlock _ _ _ => True
  | _ => False

/-- What is true of the variables of one thread. -/
def LocalOk : SemPc → Prop
  | .test c status => c ≠ .post ∧ (c = .wait → status = 0)
  | .waiting c => c ≠ .post
  | .relock c status | .leave c status => c ≠ .post ∧ (c = .wait → status = 0)
  | .decrement c status => c ≠ .post ∧ status = 0
  | .unlock c status took | .ret c status took =>
      (c ≠ .post → (took = true ↔ status = 0)) ∧ (c = .post → status = 0)
  | _ => True

/-- The value is what is left, the mutex is held by the thread that looks at it, and a thread that
is about to decrement the value has seen it positive. -/
structure SemInv (v : ℕ) (s : SemState) : Prop where
  value : s.value = v + s.posts - s.taken
  nonneg : 0 ≤ s.value
  le : s.value ≤ semValueMax
  mutex : Guards (s.holder ≠ none) HasMutex s.pc
  positive : ∀ t c status, s.pc t = .decrement c status → 0 < s.value
  ok : ∀ t, LocalOk (s.pc t)

/-- What an event has to stay clear of: a timed wait that has been woken and leaves its loop while
the value is gone, and a post at the maximum. -/
def SemEventOk (s : SemState) : SemEvent → Prop
  | .run t =>
      match s.pc t with
      | .leave _ 0 => 0 < s.value
      | .increment => s.value < semValueMax
      | _ => True
  | _ => True

instance (s : SemState) : DecidablePred (SemEventOk s)
  | .run t => by
      unfold SemEventOk
      dsimp only
      split <;> infer_instance
  | .call .. | .signal .. | .wake .. | .timeout .. | .interrupt .. => isTrue trivial

section Step

variable {v : ℕ} {s s' : SemState} {t : ℕ} {p : SemPc}

theorem wrapInt_eq {x : ℤ} (hlow : 0 ≤ x) (hhigh : x ≤ semValueMax) : wrapInt x = x := by
  unfold semValueMax at hhigh
  unfold wrapInt
  rw [Int.bmod_eq_of_le] <;> omega

theorem result_eq_zero {c : SemCall} {status : ℕ} : result c status = 0 ↔ status = 0 := by
  cases c <;> simp only [result]
  split_ifs with h
  · rw [h]
    decide
  · rfl

theorem LocalOk.update (h : ∀ u, LocalOk (s.pc u)) (hp : LocalOk p) (u : ℕ) :
    LocalOk (Function.update s.pc t p u) := by
  by_cases hut : u = t
  · rw [hut, Function.update_self]
    exact hp
  · rw [Function.update_of_ne hut]
    exact h u

/-- A step that leaves the value alone. -/
theorem SemInv.move (h : SemInv v s) (hvalue : s'.value = s.value) (hposts : s'.posts = s.posts)
    (htaken : s'.taken = s.taken) (hpc : s'.pc = Function.update s.pc t p)
    (hmutex : Guards (s'.holder ≠ none) HasMutex (Function.update s.pc t p))
    (hpositive : ∀ c status, p = .decrement c status → 0 < s.value) (hok : LocalOk p) :
    SemInv v s' := by
  refine ⟨by rw [hvalue, hposts, htaken, h.value], by rw [hvalue]; exact h.nonneg,
    by rw [hvalue]; exact h.le, by rw [hpc]; exact hmutex, fun u c status hu => ?_,
    fun u => by rw [hpc]; exact LocalOk.update h.ok hok u⟩
  rw [hpc] at hu
  rw [hvalue]
  by_cases hut : u = t
  · rw [hut, Function.update_self] at hu
    exact hpositive c status hu
  · rw [Function.update_of_ne hut] at hu
    exact h.positive u c status hu

/-- A step that also leaves the mutex alone, on one side of its region. -/
theorem SemInv.goto (h : SemInv v s) (hside : HasMutex p ↔ HasMutex (s.pc t))
    (hpositive : ∀ c status, p = .decrement c status → 0 < s.value) (hok : LocalOk p) :
    SemInv v (s.goto t p) :=
  h.move rfl rfl rfl rfl (h.mutex.keep hside) hpositive hok

/-- A step of the thread that has the mutex, which writes the value. -/
theorem SemInv.write (h : SemInv v s) (ht : HasMutex (s.pc t)) (hp : HasMutex p)
    (hvalue : s'.value = v + s'.posts - s'.taken) (hnonneg : 0 ≤ s'.value)
    (hle : s'.value ≤ semValueMax) (hholder : s'.holder = s.holder)
    (hpc : s'.pc = Function.update s.pc t p) (hnot : ∀ c status, p ≠ .decrement c status)
    (hok : LocalOk p) : SemInv v s' := by
  have hmutex : Guards (s'.holder ≠ none) HasMutex s'.pc := by
    rw [hholder, hpc]
    exact h.mutex.keep (iff_of_true hp ht)
  refine ⟨hvalue, hnonneg, hle, hmutex, fun u c status hu => ?_,
    fun u => by rw [hpc]; exact LocalOk.update h.ok hok u⟩
  -- nobody but `t` has the mutex
  have hut : u = t := hmutex.unique u t (by rw [hu]; trivial)
    (by rw [hpc, Function.update_self]; exact hp)
  rw [hpc, hut, Function.update_self] at hu
  exact absurd hu (hnot c status)

/-- The end of a wait. -/
theorem endWait_inv {status : ℕ} (h : SemInv v s) (hstep : endWait s t status = some s') :
    SemInv v s' := by
  unfold endWait at hstep
  split at hstep
  · rename_i c hpc
    split_ifs at hstep with hend
    cases hstep
    have hok := h.ok t
    rw [hpc] at hok
    refine h.move rfl rfl rfl rfl (h.mutex.keep (iff_of_false (by exact id) ?_)) (by simp)
      ⟨hok, fun hc => ?_⟩
    · rw [hpc]
      exact id
    · rw [hc] at hend
      exact hend
  · cases hstep

/-- A thread that takes the mutex. -/
theorem SemInv.take (h : SemInv v s) (hfree : s.holder = none) (hp : HasMutex p)
    (hnot : ∀ c status, p ≠ .decrement c status) (hok : LocalOk p) :
    SemInv v ({ s with holder := some t }.goto t p) :=
  h.move rfl rfl rfl rfl
    (h.mutex.acquire (by simpa using hfree) (by simp [SemState.goto]) hp)
    (fun c status hp => absurd hp (hnot c status)) hok

/-- A step of a thread. -/
theorem runStep_inv (h : SemInv v s) (hgood : SemEventOk s (.run t))
    (hstep : runStep s t = some s') :
    SemInv v s' := by
  have hok := h.ok t
  unfold runStep at hstep
  simp only [SemEventOk] at hgood
  have hvalue := h.value
  have hnonneg := h.nonneg
  have hle := h.le
  have hpositive := h.positive t
  split at hstep <;> rename_i hpc <;> rw [hpc] at hok
  · -- `lock`
    rename_i c
    split_ifs at hstep with hfree hc <;> cases hstep
    · exact h.take hfree trivial (by simp) trivial
    · exact h.take hfree trivial (by simp) ⟨hc, fun _ => rfl⟩
  · -- `test`
    rename_i c status
    have hmutex : HasMutex (s.pc t) := by rw [hpc]; trivial
    split_ifs at hstep <;> cases hstep
    · exact h.move rfl rfl rfl rfl (h.mutex.release hmutex id (by simp [SemState.goto]))
        (by simp) hok.1
    · exact h.move rfl rfl rfl rfl (h.mutex.release hmutex id (by simp [SemState.goto]))
        (by simp) hok.1
    · exact h.goto (iff_of_true trivial hmutex) (by simp) hok
  · -- `relock`
    rename_i c status
    split_ifs at hstep with hfree hagain <;> cases hstep
    · exact h.take hfree trivial (by simp) hok
    · exact h.take hfree trivial (by simp) hok
  · -- `leave`
    rename_i c status
    have hmutex : HasMutex (s.pc t) := by rw [hpc]; trivial
    split_ifs at hstep with htake <;> cases hstep
    · have hzero : status = 0 := htake.elim hok.2 id
      rw [hpc, hzero] at hgood
      exact h.goto (iff_of_true trivial hmutex) (fun _ _ _ => hgood) ⟨hok.1, hzero⟩
    · rw [not_or] at htake
      exact h.goto (iff_of_true trivial hmutex) (by simp)
        ⟨fun _ => iff_of_false (by simp) htake.2, fun hc => absurd hc hok.1⟩
  · -- `decrement`
    rename_i c status
    have hpos := hpositive c status hpc
    cases hstep
    have hwrap : wrapInt (s.value - 1) = s.value - 1 := wrapInt_eq (by omega) (by omega)
    refine h.write (by rw [hpc]; trivial) (p := .unlock c status true) trivial ?_ ?_ ?_ rfl rfl
      (by simp)
      ⟨fun _ => iff_of_true rfl hok.2, fun hc => absurd hc hok.1⟩
    all_goals simp only [SemState.goto, hwrap]; push_cast; omega
  · -- `increment`
    rw [hpc] at hgood
    cases hstep
    have hwrap : wrapInt (s.value + 1) = s.value + 1 := wrapInt_eq (by omega) hgood
    refine h.write (by rw [hpc]; trivial) (p := .unlock .post 0 false) trivial ?_ ?_ ?_ rfl rfl
      (by simp)
      ⟨fun hc => absurd rfl hc, fun _ => rfl⟩
    all_goals simp only [SemState.goto, hwrap]; push_cast; omega
  · -- `unlock`
    rename_i c status took
    cases hstep
    have hmutex : HasMutex (s.pc t) := by rw [hpc]; trivial
    refine h.move rfl rfl rfl rfl (h.mutex.release hmutex ?_ (by simp [SemState.goto])) ?_ ?_
    all_goals split_ifs with hc
    · exact id
    · exact id
    · simp
    · simp
    · trivial
    · exact ⟨fun _ => (hok.1 hc).trans result_eq_zero.symm, fun hc' => absurd hc' hc⟩
  · -- `check`
    cases hstep
    refine h.goto (iff_of_false id (by rw [hpc]; exact id)) (by simp)
      ⟨fun hc => absurd rfl hc, fun _ => ?_⟩
    exact if_neg (not_lt.2 hle)
  · cases hstep
    exact h.goto (iff_of_false id (by rw [hpc]; exact id)) (by simp) trivial
  all_goals cases hstep

/-- **An event keeps the invariant**, if it stays clear of the two defects. -/
theorem semStep_inv (s : SemState) (e : SemEvent) (s' : SemState) (h : SemInv v s)
    (hgood : SemEventOk s e) (hstep : semStep s e = some s') : SemInv v s' := by
  cases e with
  | call t c =>
      simp only [semStep] at hstep
      split_ifs at hstep with hout
      cases hstep
      exact h.goto (iff_of_false id (by rw [hout]; exact id)) (by simp) trivial
  | run t => exact runStep_inv h hgood hstep
  | signal t waiter =>
      have hsignal : s.pc t = .signal →
          SemInv v ({ s with waiters := s'.waiters }.goto t .check) := fun hpc =>
        h.move rfl rfl rfl rfl (h.mutex.keep (iff_of_false id (by rw [hpc]; exact id)))
          (by simp) trivial
      cases waiter with
      | none =>
          simp only [semStep] at hstep
          split_ifs at hstep with hpc
          cases hstep
          exact hsignal hpc.1
      | some u =>
          simp only [semStep] at hstep
          split_ifs at hstep with hpc
          cases hstep
          exact hsignal hpc.1
  | wake t =>
      simp only [semStep] at hstep
      split_ifs at hstep
      exact endWait_inv h hstep
  | timeout t => exact endWait_inv h hstep
  | interrupt t noticed => exact endWait_inv h hstep

end Step

theorem semInit_inv {v : ℕ} {s : SemState} (hinit : semInit v = some s) : SemInv v s := by
  unfold semInit at hinit
  split_ifs at hinit with hv
  cases hinit
  exact ⟨by simp, by simp, by simpa using hv,
    ⟨iff_of_false (by simp) fun ⟨_, h⟩ => h, fun _ _ h => h.elim⟩, by simp, fun _ => trivial⟩

/-! ## Runs -/

/-- The call returns `status` when the thread has left it, and `took` says whether it took a token.
-/
def Returns (s : SemState) (t : ℕ) (c : SemCall) (status : ℕ) (took : Bool) : Prop :=
  s.pc t = .ret c status took

/-- What a semaphore that began with `v` promises. -/
structure SemOk (v : ℕ) (s : SemState) : Prop where
  value : s.value = v + s.posts - s.taken
  nonneg : 0 ≤ s.value
  taken_le : s.taken ≤ v + s.posts
  failed : ∀ t c status took, c ≠ .post → Returns s t c status took → status ≠ 0 → took = false
  waited : ∀ t c took, c ≠ .post → Returns s t c 0 took → took = true
  posted : ∀ t status took, Returns s t .post status took → status = 0
  le : s.value ≤ semValueMax

theorem SemInv.semOk {v : ℕ} {s : SemState} (h : SemInv v s) : SemOk v s := by
  have hvalue := h.value
  have hnonneg := h.nonneg
  have hret : ∀ {t c status took}, Returns s t c status took →
      (c ≠ .post → (took = true ↔ status = 0)) ∧ (c = .post → status = 0) := by
    intro t c status took hret
    have hok := h.ok t
    rw [hret] at hok
    exact hok
  refine ⟨hvalue, hnonneg, by omega, fun t c status took hc hr hne => ?_, fun t c took hc hr => ?_,
    fun t status took hr => (hret hr).2 rfl, h.le⟩
  · have hiff := (hret hr).1 hc
    simpa [hne] using hiff
  · exact ((hret hr).1 hc).2 rfl

/-- **Tokens are conserved** in every run in which no timed wait that was woken leaves its loop
while the value is gone, and no post is made at the maximum. -/
theorem sem_tokens (v : ℕ) (s₀ s : SemState) (events : List SemEvent) (hinit : semInit v = some s₀)
    (hgood : Run.Along semStep SemEventOk s₀ events) (hrun : Run.exec semStep s₀ events = some s) :
    SemOk v s :=
  (Run.exec_invariant semStep_inv events s₀ s (semInit_inv hinit) hgood hrun).semOk

/-- Thread 1 waits for a token, and thread 2 posts one and signals it. -/
def waitAndPost : List SemEvent :=
  [.call 1 .timedwait, .run 1, .run 1, .call 2 .post, .run 2, .run 2, .run 2, .signal 2 (some 1),
    .run 2]

/-- Thread 1 is woken, finds the token and takes it. -/
theorem sem_tokens_timedwait : ∃ s₀ s,
    semInit 0 = some s₀ ∧
      Run.exec semStep s₀ (waitAndPost ++ [.wake 1, .run 1, .run 1, .run 1, .run 1]) = some s ∧
      Returns s 1 .timedwait 0 true ∧ SemOk 0 s := by
  have hsome : ((semInit 0).bind fun s₀ =>
      (Run.exec semStep s₀
        (waitAndPost ++ ([.wake 1, .run 1, .run 1, .run 1, .run 1] : List SemEvent))).map fun s =>
          (s.pc 1, decide (Run.Along semStep SemEventOk s₀
            (waitAndPost ++ ([.wake 1, .run 1, .run 1, .run 1, .run 1] : List SemEvent))))) =
      some (.ret .timedwait 0 true, true) := by decide +kernel
  obtain ⟨s₀, hinit, hrest⟩ := Option.bind_eq_some_iff.1 hsome
  obtain ⟨s, hrun, hvals⟩ := Option.map_eq_some_iff.1 hrest
  rw [Prod.mk.injEq, decide_eq_true_eq] at hvals
  exact ⟨s₀, s, hinit, hrun, hvals.1, sem_tokens 0 s₀ s _ hinit hvals.2 hrun⟩

/-- **The value becomes negative**: thread 3 takes the token before thread 1, which was woken for
it and does not look again. -/
theorem sem_overdrawn : ∃ s₀ s,
    semInit 0 = some s₀ ∧
      Run.exec semStep s₀ (waitAndPost ++
        [.call 3 .trywait, .run 3, .run 3, .run 3, .run 3, .run 3, .wake 1, .run 1, .run 1,
          .run 1]) =
          some s ∧
      s.value = -1 ∧ s.posts = 1 ∧ s.taken = 2 ∧ ¬SemOk 0 s := by
  have hsome : ((semInit 0).bind fun s₀ =>
      (Run.exec semStep s₀ (waitAndPost ++
        ([.call 3 .trywait, .run 3, .run 3, .run 3, .run 3, .run 3, .wake 1, .run 1, .run 1,
          .run 1] :
          List SemEvent))).map
          fun s => (s.value, s.posts, s.taken)) = some (-1, 1, 2) := by decide +kernel
  obtain ⟨s₀, hinit, hsome⟩ := Option.bind_eq_some_iff.1 hsome
  obtain ⟨s, hrun, hfacts⟩ := Option.map_eq_some_iff.1 hsome
  simp only [Prod.mk.injEq] at hfacts
  obtain ⟨hvalue, hposts, htaken⟩ := hfacts
  refine ⟨s₀, s, hinit, hrun, hvalue, hposts, htaken, fun hok => ?_⟩
  have hnonneg := hok.nonneg
  omega

end Sem
end LightOS
