import LightOS.Task.ExitWaitBasic

/-!
# Sleeping on a dead child

A child looks at its parent's state, wakes it, and only then puts itself into
`TASK_HANGING`; a parent looks for dead children, and only then goes to sleep.  In both
windows interrupts are on.  A parent that looks, or goes to sleep, in the child's window
misses it, and sleeps with a dead child and nobody to wake it.

* `NoSleepOnDead` — no parent sleeps in `sys_waitpid(-1)` on a dead child.
* `SleepOk` — when a parent goes to sleep, no child of it is dead or exiting.
* `no_sleep_on_dead_child` — in every run in which all parents do so, none sleeps on a dead
  child.
-/

namespace LightOS
namespace Wait

/-! ## What is to be shown -/

/-- In the middle of `sys_exit`. -/
def Pc.exiting : Pc → Bool
  | .exitUnblock _ => true
  | .exitHang => true
  | .exitZombie => true
  | _ => false

/-- In the `task_block` of `sys_waitpid(-1)`. -/
def Pc.inWaitAny : Pc → Bool
  | .waitSleep none _ => true
  | _ => false

/-- Dead, and not yet destroyed. -/
def State.isDead : State → Bool
  | .hanging => true
  | .zombie => true
  | _ => false

/-- A parent that waits in `sys_waitpid(-1)`. -/
def WState.Sleeps (s : WState) (p : ℕ) : Prop :=
  p ∈ s.list ∧ (s.task p).state = .waiting ∧ (s.task p).pc.inWaitAny = true

instance (s : WState) (p : ℕ) : Decidable (s.Sleeps p) := inferInstanceAs (Decidable (_ ∧ _))

/-- No parent of which no child is in the middle of `sys_exit` sleeps in `sys_waitpid(-1)`
while it has a dead child. -/
def NoSleepOnDead (s : WState) : Prop :=
  ∀ p, s.Sleeps p →
    (∀ c ∈ s.list, (s.task c).parentPid = some p → (s.task c).pc.exiting = false) →
    ∀ c ∈ s.list, (s.task c).parentPid = some p → (s.task c).state.isDead = false

/-- All children of the process are alive, and none is in the middle of `sys_exit`. -/
def WState.KidsAlive (s : WState) (p : ℕ) : Prop :=
  ∀ c ∈ s.list, (s.task c).parentPid = some p →
    (s.task c).state.isDead = false ∧ (s.task c).pc.exiting = false

instance (s : WState) (p : ℕ) : Decidable (s.KidsAlive p) :=
  inferInstanceAs (Decidable (∀ c ∈ s.list, _))

/-- Of the children that are not zombies none is dead, and none is in the middle of `sys_exit`. -/
def WState.HeirsAlive (s : WState) (p : ℕ) : Prop :=
  ∀ c ∈ s.list, (s.task c).parentPid = some p → (s.task c).state ≠ .zombie →
    (s.task c).state.isDead = false ∧ (s.task c).pc.exiting = false

instance (s : WState) (p : ℕ) : Decidable (s.HeirsAlive p) :=
  inferInstanceAs (Decidable (∀ c ∈ s.list, _))

/-- The condition: a process goes to sleep in `sys_waitpid(-1)` only while its children are
alive and none is in the middle of `sys_exit`; and while INIT sleeps there, the same goes for
the children it inherits. -/
def SleepOk (s : WState) : Event → Prop
  | .run p _ =>
      match (s.task p).pc with
      | .waitBlock none _ => s.KidsAlive p
      | _ => True
  | .exit p _ => s.Sleeps userInitProcId → s.HeirsAlive p
  | _ => True

instance (s : WState) (e : Event) : Decidable (SleepOk s e) := by
  unfold SleepOk
  cases e with
  | run p intr => simp only; split <;> infer_instance
  | exit p status => simp only; infer_instance
  | spawn p => infer_instance
  | waitpid p pid nohang => infer_instance
  | block p => infer_instance
  | wake p => infer_instance

/-! ## The invariant -/

/-- The child is alive, and if it is in the middle of `sys_exit` it is about to wake `p`. -/
def WState.Awake (s : WState) (p c : ℕ) : Prop :=
  (s.task c).state.isDead = false ∧
    ((s.task c).pc.exiting = true → (s.task c).pc = .exitUnblock p)

structure SleepInv (s : WState) : Prop where
  kids : ∀ p, s.Sleeps p → ∀ c ∈ s.list, (s.task c).parentPid = some p → s.Awake p c
  older : ∀ c ∈ s.list, ∀ p, (s.task c).parentPid = some p → p < c
  below : ∀ c ∈ s.list, c < s.nextPid
  init : ∀ c ∈ s.list, userInitProcId ≤ c

variable {s s' : WState} {p : ℕ}

theorem sleepInv_boot : SleepInv waitBoot where
  kids := by
    rintro p ⟨-, hwait, -⟩
    cases hwait
  older := by simp [waitBoot]
  below := by simp [waitBoot]
  init := by simp [waitBoot]

theorem SleepInv.noSleep (h : SleepInv s) : NoSleepOnDead s :=
  fun p hp _ c hc hparent => (h.kids p hp c hc hparent).1

/-- A step that leaves parents and pids alone, puts nobody to sleep, and leaves the children of
sleeping parents awake. -/
theorem SleepInv.frame (h : SleepInv s) (hlist : ∀ c ∈ s'.list, c ∈ s.list)
    (hnext : s'.nextPid = s.nextPid) (hparent : ∀ c, (s'.task c).parentPid = (s.task c).parentPid)
    (hsleeps : ∀ q, s'.Sleeps q → s.Sleeps q)
    (hawake : ∀ q c, s'.Sleeps q → s.Awake q c → (s.task c).parentPid = some q → s'.Awake q c) :
    SleepInv s' where
  kids := fun q hq c hc hpq => by
    rw [hparent] at hpq
    exact hawake q c hq (h.kids q (hsleeps q hq) c (hlist c hc) hpq) hpq
  older := fun c hc q hq => by
    rw [hparent] at hq
    exact h.older c (hlist c hc) q hq
  below := fun c hc => by
    rw [hnext]
    exact h.below c (hlist c hc)
  init := fun c hc => h.init c (hlist c hc)

/-! ## Steps -/

/-- A process goes on to a place that is not in `sys_exit`, and with fewer processes around. -/
theorem SleepInv.goto (h : SleepInv s) (hready : (s.task p).state = .ready) {pc : Pc}
    (hpc : pc.exiting = false) {list : List ℕ} {log : List Reaped}
    (hlist : ∀ c ∈ list, c ∈ s.list) :
    SleepInv ({ s with list := list, log := log }.goto p pc) := by
  have hne : ∀ q, ({ s with list := list, log := log }.goto p pc).Sleeps q → q ≠ p := by
    rintro q ⟨-, hwait, -⟩ rfl
    rw [goto_state] at hwait
    exact State.noConfusion (hready.symm.trans hwait)
  refine h.frame hlist rfl (fun c => goto_parentPid pc) (fun q hq => ?_) fun q c hq hawake _ => ?_
  · have hqp := hne q hq
    obtain ⟨hmem, hwait, hin⟩ := hq
    rw [goto_state] at hwait
    rw [goto_pc, if_neg hqp] at hin
    exact ⟨hlist q hmem, hwait, hin⟩
  · obtain ⟨halive, hexit⟩ := hawake
    refine ⟨by rw [goto_state]; exact halive, fun hx => ?_⟩
    rw [goto_pc] at hx ⊢
    split_ifs at hx ⊢ with hcp
    · rw [hpc] at hx
      cases hx
    · exact hexit hx

/-- The child puts itself into a dead state: no parent that sleeps is fooled, since it would have
seen the child exiting. -/
theorem SleepInv.dies (h : SleepInv s) {state : State}
    (hstate : state ≠ .waiting) (hpc : (s.task p).pc = .exitHang ∨ (s.task p).pc = .exitZombie) :
    SleepInv (s.sleep p state .dead) := by
  have hkept : ∀ q, (s.sleep p state .dead).Sleeps q → q ≠ p ∧ s.Sleeps q := by
    rintro q ⟨hmem, hwait, hin⟩
    have hqp : q ≠ p := by
      rintro rfl
      rw [sleep_state, if_pos rfl] at hwait
      exact hstate hwait
    rw [sleep_state, if_neg hqp] at hwait
    rw [sleep_pc, if_neg hqp] at hin
    exact ⟨hqp, hmem, hwait, hin⟩
  refine h.frame (fun _ hc => hc) rfl (fun c => sleep_parentPid state .dead)
    (fun q hq => (hkept q hq).2) fun q c hq hawake _ => ?_
  have hcp : c ≠ p := by
    rintro rfl
    obtain ⟨-, hexit⟩ := hawake
    obtain hpc | hpc := hpc <;> rw [hpc] at hexit <;> cases hexit rfl
  obtain ⟨halive, hexit⟩ := hawake
  refine ⟨?_, ?_⟩
  · rw [sleep_state, if_neg hcp]
    exact halive
  · rw [sleep_pc, if_neg hcp]
    exact hexit

/-- The parent goes to sleep while its children are alive. -/
theorem SleepInv.waits (h : SleepInv s) {pid : Option ℕ} {nohang : Bool}
    (hkids : pid = none → s.KidsAlive p) :
    SleepInv (s.sleep p .waiting (.waitSleep pid nohang)) := by
  have hawake : ∀ q c, s.Awake q c → (s.sleep p .waiting (.waitSleep pid nohang)).Awake q c := by
    rintro q c ⟨halive, hexit⟩
    refine ⟨?_, fun hx => ?_⟩
    · rw [sleep_state]
      split_ifs
      · rfl
      · exact halive
    · rw [sleep_pc] at hx ⊢
      split_ifs at hx ⊢
      · cases hx
      · exact hexit hx
  refine ⟨fun q hq c hc hparent => ?_, fun c hc q hq => ?_, h.below, h.init⟩
  · rw [sleep_parentPid] at hparent
    obtain ⟨hmem, hwait, hin⟩ := hq
    by_cases hqp : q = p
    · subst hqp
      rw [sleep_pc, if_pos rfl] at hin
      cases pid with
      | some pid => cases hin
      | none =>
        obtain ⟨halive, hexit⟩ := hkids rfl c hc hparent
        refine hawake q c ⟨halive, fun hx => ?_⟩
        rw [hexit] at hx
        cases hx
    · rw [sleep_state, if_neg hqp] at hwait
      rw [sleep_pc, if_neg hqp] at hin
      exact hawake q c (h.kids q ⟨hmem, hwait, hin⟩ c hc hparent)
  · rw [sleep_parentPid] at hq
    exact h.older c hc q hq

/-- A sleeper becomes ready. -/
theorem SleepInv.wake (h : SleepInv s) (q : ℕ) : SleepInv (s.wake q) := by
  refine h.frame (fun _ hc => hc) rfl (fun c => wake_parentPid) (fun r hr => ?_)
    fun r c hr hawake _ => ?_
  · obtain ⟨hmem, hwait, hin⟩ := hr
    rw [wake_state] at hwait
    rw [wake_pc] at hin
    split_ifs at hwait
    exact ⟨hmem, hwait, hin⟩
  · obtain ⟨halive, hexit⟩ := hawake
    refine ⟨?_, by rwa [wake_pc]⟩
    rw [wake_state]
    split_ifs
    · rfl
    · exact halive

/-- The child wakes its parent; after that it may not be seen asleep again before the child is
dead. -/
theorem SleepInv.exitUnblock (h : SleepInv s) (hready : s.Ready p) {q : ℕ}
    (hpc : (s.task p).pc = .exitUnblock q) : SleepInv ((s.wake q).goto p .exitHang) := by
  have hwoken := h.wake q
  have hkept : ∀ r, ((s.wake q).goto p .exitHang).Sleeps r →
      r ≠ p ∧ r ≠ q ∧ (s.wake q).Sleeps r := by
    rintro r ⟨hmem, hwait, hin⟩
    rw [goto_state] at hwait
    have hrq : r ≠ q := by
      rintro rfl
      rw [wake_state, if_pos rfl] at hwait
      cases hwait
    have hrp : r ≠ p := by
      rintro rfl
      rw [wake_state, if_neg hrq, hready.2] at hwait
      cases hwait
    rw [goto_pc, if_neg hrp] at hin
    exact ⟨hrp, hrq, hmem, hwait, hin⟩
  refine hwoken.frame (fun _ hc => hc) rfl (fun c => goto_parentPid _)
    (fun r hr => (hkept r hr).2.2)
    fun r c hr hawake _ => ?_
  obtain ⟨hrp, hrq, -⟩ := hkept r hr
  obtain ⟨halive, hexit⟩ := hawake
  have hcp : c ≠ p := by
    rintro rfl
    rw [wake_pc, hpc] at hexit
    have hrq' := hexit rfl
    simp only [Pc.exitUnblock.injEq] at hrq'
    exact hrq hrq'.symm
  refine ⟨by rw [goto_state]; exact halive, ?_⟩
  rw [goto_pc, if_neg hcp]
  exact hexit

/-- A process sleeps elsewhere. -/
theorem SleepInv.block (h : SleepInv s) (hpc : (s.task p).pc = .out) :
    SleepInv (s.sleep p .blocked .out) := by
  refine h.frame (fun _ hc => hc) rfl (fun c => sleep_parentPid _ _) (fun q hq => ?_)
    fun q c hq hawake _ => ?_
  · obtain ⟨hmem, hwait, hin⟩ := hq
    have hqp : q ≠ p := by
      rintro rfl
      rw [sleep_state, if_pos rfl] at hwait
      cases hwait
    rw [sleep_state, if_neg hqp] at hwait
    rw [sleep_pc, if_neg hqp] at hin
    exact ⟨hmem, hwait, hin⟩
  · obtain ⟨halive, hexit⟩ := hawake
    refine ⟨?_, fun hx => ?_⟩
    · rw [sleep_state]
      split_ifs
      · rfl
      · exact halive
    · rw [sleep_pc] at hx ⊢
      split_ifs at hx ⊢
      · cases hx
      · exact hexit hx

/-- A child is made by a process that does not sleep. -/
theorem SleepInv.spawn (h : SleepInv s) (hready : s.Ready p) : SleepInv (spawn s p) := by
  have hnew : ∀ c ∈ s.list, c ≠ s.nextPid := fun c hc => (h.below c hc).ne
  have hold : ∀ c ∈ s.list, (Wait.spawn s p).task c = s.task c := fun c hc =>
    Function.update_of_ne (hnew c hc) _ _
  have hchild : (Wait.spawn s p).task s.nextPid = ⟨some p, .ready, 0, .out⟩ :=
    Function.update_self _ _ _
  have hmem : ∀ c ∈ (Wait.spawn s p).list, c ∈ s.list ∨ c = s.nextPid := by
    intro c hc
    simpa [Wait.spawn] using hc
  have hone := h.init p hready.1
  have hlt := h.below p hready.1
  refine ⟨fun q hq c hc hparent => ?_, fun c hc q hq => ?_, fun c hc => ?_, fun c hc => ?_⟩
  · obtain ⟨hqmem, hwait, hin⟩ := hq
    obtain hqold | rfl := hmem q hqmem
    · rw [hold q hqold] at hwait hin
      obtain hcold | rfl := hmem c hc
      · rw [hold c hcold] at hparent
        have hawake := h.kids q ⟨hqold, hwait, hin⟩ c hcold hparent
        unfold WState.Awake at hawake ⊢
        rwa [hold c hcold]
      · rw [hchild] at hparent
        cases hparent
        exact absurd hwait (by rw [hready.2]; decide)
    · rw [hchild] at hwait
      cases hwait
  · obtain hcold | rfl := hmem c hc
    · rw [hold c hcold] at hq
      exact h.older c hcold q hq
    · rw [hchild] at hq
      cases hq
      exact hlt
  · show c < s.nextPid + 1
    obtain hcold | rfl := hmem c hc
    · exact Nat.lt_succ_of_lt (h.below c hcold)
    · exact Nat.lt_succ_self _
  · obtain hcold | rfl := hmem c hc
    · exact h.init c hcold
    · omega

/-- `sys_exit` up to the look at the parent: INIT, if it sleeps, inherits children that are
alive. -/
theorem SleepInv.exitRelease (h : SleepInv s) (hready : s.Ready p) (status : ℤ)
    (hheirs : s.Sleeps userInitProcId → s.HeirsAlive p) : SleepInv (exitRelease s p status) := by
  have hsleeps : ∀ q, (Wait.exitRelease s p status).Sleeps q → s.Sleeps q := by
    rintro q ⟨hmem, hwait, hin⟩
    obtain ⟨-, hstate, hpc, -⟩ := exitRelease_task hmem
    rw [hstate] at hwait
    rw [hpc] at hin
    exact ⟨(mem_exitRelease.1 hmem).1, hwait, hin⟩
  refine ⟨fun q hq c hc hparent => ?_, fun c hc q hq => ?_, fun c hc => ?_, fun c hc => ?_⟩
  · obtain ⟨hparent', hstate, hpc, -⟩ := exitRelease_task hc
    obtain ⟨hmem, hzombie⟩ := mem_exitRelease.1 hc
    have hawake : s.Awake q c := by
      rw [hparent'] at hparent
      split_ifs at hparent with hchild
      · cases hparent
        obtain ⟨halive, hexit⟩ := hheirs (hsleeps _ hq) c hmem hchild
          fun hdead => hzombie ⟨hchild, hdead⟩
        exact ⟨halive, fun hx => by rw [hexit] at hx; cases hx⟩
      · exact h.kids q (hsleeps q hq) c hmem hparent
    unfold WState.Awake at hawake ⊢
    rwa [hstate, hpc]
  · obtain ⟨hparent', -, -, -⟩ := exitRelease_task hc
    have hmem := (mem_exitRelease.1 hc).1
    rw [hparent'] at hq
    split_ifs at hq with hchild
    · cases hq
      have hlt := h.older c hmem p hchild
      have hone := h.init p hready.1
      omega
    · exact h.older c hmem q hq
  · exact h.below c (mem_exitRelease.1 hc).1
  · exact h.init c (mem_exitRelease.1 hc).1

/-- The look at the parent itself: a child of a sleeping parent goes on to wake it. -/
theorem SleepInv.exit (h : SleepInv s) (hready : s.Ready p) (status : ℤ)
    (hheirs : s.Sleeps userInitProcId → s.HeirsAlive p) : SleepInv (sysExit s p status) := by
  have hrelease := h.exitRelease hready status hheirs
  set u := Wait.exitRelease s p status with hu
  have hgoto : ∀ pc : Pc, pc.inWaitAny = false →
      (∀ q, u.Sleeps q → (u.task p).parentPid = some q → pc.exiting = true → pc = .exitUnblock q) →
      SleepInv (u.goto p pc) := by
    intro pc hpc hexit
    have hkept : ∀ q, (u.goto p pc).Sleeps q → u.Sleeps q := by
      rintro q ⟨hmem, hwait, hin⟩
      rw [goto_state] at hwait
      rw [goto_pc] at hin
      split_ifs at hin
      · rw [hpc] at hin
        cases hin
      · exact ⟨hmem, hwait, hin⟩
    refine hrelease.frame (fun _ hc => hc) rfl (fun c => goto_parentPid pc) hkept
      fun q c hq hawake hparent => ⟨by rw [goto_state]; exact hawake.1, fun hx => ?_⟩
    rw [goto_pc] at hx ⊢
    split_ifs at hx ⊢ with hcp
    · subst hcp
      exact hexit q (hkept q hq) hparent hx
    · exact hawake.2 hx
  unfold sysExit
  simp only [← hu]
  cases hparent : (u.task p).parentPid with
  | none => exact hgoto _ rfl fun q _ hq => by rw [hparent] at hq; cases hq
  | some q =>
    simp only
    split_ifs with hwait
    · apply hgoto _ rfl
      intro r _ hr _
      rw [hparent] at hr
      cases hr
      rfl
    · apply hgoto _ rfl
      intro r hr hr' _
      rw [hparent] at hr'
      cases hr'
      exact absurd ⟨hr.1, hr.2.1⟩ hwait

/-- A look for dead children: some processes are gone, and the parent goes on. -/
theorem SleepInv.waitCheck (h : SleepInv s) (hready : s.Ready p) (pid : Option ℕ) (nohang : Bool) :
    SleepInv (waitCheck s p pid nohang) := by
  unfold Wait.waitCheck
  cases hfound : waitHanging s p pid with
  | some c =>
    exact h.goto hready.2 rfl fun x hx => List.mem_of_mem_erase hx
  | none =>
    have hgoto : ∀ pc : Pc, pc.exiting = false →
        SleepInv ((procDealZombieChild s p
          (zombieFate (s.childrenIn p .zombie).head? pid)).goto p pc) := fun pc hpc =>
      h.goto hready.2 hpc fun x hx => (List.mem_filter.1 hx).1
    simp only
    split_ifs
    · exact hgoto _ rfl
    · exact hgoto _ rfl
    · exact hgoto _ rfl
    · exact hgoto _ rfl

/-! ## Runs -/

theorem sleepInv_step (s : WState) (e : Event) (s' : WState) (h : SleepInv s) (hcond : SleepOk s e)
    (hstep : waitStep s e = some s') : SleepInv s' := by
  cases moves_of_waitStep hstep with
  | spawn p hcan => exact h.spawn hcan.1
  | exit p status hcan => exact h.exit hcan.1 status hcond
  | waitpid p pid nohang hcan => exact h.goto hcan.1.2 rfl fun _ hc => hc
  | block p hcan => exact h.block hcan.2
  | wake p => exact h.wake p
  | exitUnblock p q intr hready hpc => exact h.exitUnblock hready hpc
  | exitHang p intr hready hpc => exact h.dies (by decide) (Or.inl hpc)
  | exitZombie p intr hready hpc => exact h.dies (by decide) (Or.inr hpc)
  | waitCheck p intr pid nohang hready hpc => exact h.waitCheck hready pid nohang
  | waitBlock p intr pid nohang hready hpc =>
    apply h.waits
    intro hpid
    subst hpid
    simp only [SleepOk, hpc] at hcond
    exact hcond
  | waitSleep p intr pid nohang hready hpc =>
    refine h.goto hready.2 ?_ fun _ hc => hc
    split_ifs <;> rfl

/-- **No parent sleeps on a dead child**, in every run in which processes go to sleep in
`sys_waitpid(-1)` while their children are alive and none is in the middle of `sys_exit`. -/
theorem no_sleep_on_dead_child (events : List Event) (s : WState)
    (hrun : Run.exec waitStep waitBoot events = some s)
    (hcond : Run.Along waitStep SleepOk waitBoot events) : NoSleepOnDead s :=
  (Run.exec_invariant sleepInv_step events _ s sleepInv_boot hcond hrun).noSleep

/-- INIT waits for two children, one of which exits and is reaped while the other lives on. -/
theorem no_sleep_on_dead_child_two :
    ∃ s, Run.exec waitStep waitBoot
        [.spawn 1, .spawn 1, .waitpid 1 none false, .run 1 false, .run 1 false, .exit 2 7,
          .run 2 false,
          .run 2 false, .run 1 false, .run 1 false, .waitpid 1 none false, .run 1 false,
          .run 1 false] = some s ∧ NoSleepOnDead s := by
  have hsome : (Run.exec waitStep waitBoot
      [.spawn 1, .spawn 1, .waitpid 1 none false, .run 1 false, .run 1 false, .exit 2 7,
        .run 2 false,
        .run 2 false, .run 1 false, .run 1 false, .waitpid 1 none false, .run 1 false,
        .run 1 false]).isSome = true := by decide +kernel
  obtain ⟨s, hs⟩ := Option.isSome_iff_exists.1 hsome
  exact ⟨s, hs, no_sleep_on_dead_child _ s hs (by decide +kernel)⟩

/-- The child has woken INIT and is preempted; INIT looks, finds nothing, and goes to sleep
again; then the child puts itself into `TASK_HANGING`. -/
theorem sleep_on_dead_child :
    ∃ s, Run.exec waitStep waitBoot
        [.spawn 1, .waitpid 1 none false, .run 1 false, .run 1 false, .exit 2 7, .run 2 false,
          .run 1 false, .run 1 false, .run 1 false, .run 2 false] = some s ∧ ¬ NoSleepOnDead s := by
  have hrun : (Run.exec waitStep waitBoot
      [.spawn 1, .waitpid 1 none false, .run 1 false, .run 1 false, .exit 2 7, .run 2 false,
        .run 1 false, .run 1 false, .run 1 false, .run 2 false]).map
      (fun s => (s.list, s.task 1, s.task 2)) =
      some ([1, 2], ⟨none, .waiting, 0, .waitSleep none false⟩, ⟨some 1, .hanging, 7, .dead⟩) := by
    decide +kernel
  obtain ⟨s, hs, hfacts⟩ := Option.map_eq_some_iff.1 hrun
  simp only [Prod.mk.injEq] at hfacts
  obtain ⟨hlist, hinit, hchild⟩ := hfacts
  refine ⟨s, hs, fun h => ?_⟩
  have hsleeps : s.Sleeps 1 := by simp [WState.Sleeps, hlist, hinit, Pc.inWaitAny]
  have hexiting : ∀ c ∈ s.list, (s.task c).parentPid = some 1 → (s.task c).pc.exiting = false := by
    simp [hlist, hinit, hchild, Pc.exiting]
  have halive := h 1 hsleeps hexiting 2 (by simp [hlist]) (by rw [hchild])
  rw [hchild] at halive
  cases halive

end Wait
end LightOS
