import LightOS.Lib.Run

/-!
# Joining a thread

`pthread_exit` and `pthread_join` of `task/pthread.c`: a thread T that is not detached and not
the last of its process, and a thread of the same process that calls `pthread_join` on it, with
a `thread_return` that can be written.

What is done with interrupts off is one step.  `pthread_exit` is the look at the parent's state,
`task_unblock` of the parent if it is waiting, and the last `task_block`; `pthread_join` is the
look for T in `TASK_HANGING`, `task_block(TASK_WAITING)`, and the next look.  T's `parent_pid` is
that of its creator, or of the thread that has called `pthread_join`: the two may be one.  Other
threads may wake the joiner, and the creator may sleep and be woken, at any time.

* `Joined` — `pthread_join` returns 0 and the status T has exited with, T is destroyed by it
  alone, and nobody is stuck when both have nothing more to do.
* `JoinOk` — T finds its parent waiting, and nobody else wakes that parent until T has done so;
  the joiner goes to sleep only while T has not come to `pthread_exit`.
* `join_returns_status` — in every run whose steps all meet that, all is as it should be.
-/

namespace LightOS
namespace Join

/-! ## State -/

/-- Whose pid is in T's `parent_pid`. -/
inductive Parent where
  | waiter
  | creator
  deriving DecidableEq, Repr

/-- Where T is. -/
inductive TPc where
  /-- Before `pthread_exit`. -/
  | run
  /-- Before the `task_unblock` of the parent it has found waiting. -/
  | exitUnblock (parent : Parent)
  /-- Before `task_block(TASK_HANGING)`. -/
  | exitHang
  /-- Before `task_block(TASK_ZOMBIE)`. -/
  | exitZombie
  | hanging
  | zombie
  deriving DecidableEq, Repr

/-- Where the joiner is. -/
inductive WPc where
  /-- It has not called `pthread_join` on T. -/
  | before
  /-- The same, and in `TASK_WAITING` for something else. -/
  | elsewhere
  /-- Before `task_block(TASK_WAITING)`. -/
  | block
  /-- In it. -/
  | sleep
  /-- Back from it. -/
  | woken
  /-- What `pthread_join` has returned, and what is in `*thread_return` if it has been written. -/
  | returned (ret : ℤ) (threadReturn : Option ℤ)
  deriving DecidableEq, Repr

structure JoinState where
  tPc : TPc
  /-- T's `parent_pid`. -/
  parent : Parent
  /-- `THREAD_FLAG_JOINED` of T. -/
  joined : Bool
  exitStatus : ℤ
  wPc : WPc
  /-- `THREAD_FLAG_JOINING` of the joiner. -/
  joining : Bool
  /-- The creator is in `TASK_WAITING`. -/
  creatorWaiting : Bool
  /-- How often T's task structure has been freed. -/
  freed : ℕ
  deriving DecidableEq, Repr

/-- T runs, and has the parent it was made with. -/
def joinBoot (parent : Parent) (creatorWaiting joining : Bool) : JoinState :=
  ⟨.run, parent, false, 0, .before, joining, creatorWaiting, 0⟩

/-! ## The code -/

/-- `state == TASK_WAITING`. -/
def JoinState.waiting (s : JoinState) : Parent → Bool
  | .waiter => s.wPc = .elsewhere || s.wPc = .sleep
  | .creator => s.creatorWaiting

/-- A waiting thread is made ready. -/
def JoinState.wakeUp (s : JoinState) : Parent → JoinState
  | .waiter => { s with wPc := if s.wPc = .sleep then .woken else .before }
  | .creator => { s with creatorWaiting := false }

/-- `task_unblock`; it panics if the task does not sleep. -/
def taskUnblock (s : JoinState) (p : Parent) : Option JoinState :=
  if s.waiting p then some (s.wakeUp p) else none

/-- `pthread_exit`, up to the choice between `TASK_HANGING` and `TASK_ZOMBIE`. -/
def pthreadExit (s : JoinState) (status : ℤ) : JoinState :=
  { s with
    exitStatus := status
    tPc := if s.waiting s.parent then .exitUnblock s.parent else .exitZombie }

/-- The rest of it. -/
def exitRun (s : JoinState) : Option JoinState :=
  match s.tPc with
  | .exitUnblock p => (taskUnblock s p).map fun t => { t with tPc := .exitHang }
  | .exitHang => some { s with tPc := .hanging }
  | .exitZombie => some { s with tPc := .zombie }
  | _ => none

/-- `wait_one_hangging_thread`: T is destroyed if it hangs. -/
def waitOneHanggingThread (s : JoinState) : Option JoinState :=
  if s.tPc = .hanging ∧ s.freed = 0 then some { s with freed := s.freed + 1 } else none

/-- The loop of `pthread_join`, from the look to the `task_block`. -/
def joinLoop (s : JoinState) : JoinState :=
  match waitOneHanggingThread s with
  | some t => { t with wPc := .returned 0 (some t.exitStatus) }
  | none => { s with wPc := if s.joining then .block else .returned 0 (some 0) }

/-- `pthread_join`, up to the first `task_block`. -/
def pthreadJoin (s : JoinState) : JoinState :=
  if s.freed ≠ 0 ∨ s.tPc = .zombie then
    { s with wPc := .returned (-1) none }
  else if s.joined then
    { s with wPc := .returned (-1) none }
  else
    joinLoop { s with joined := true, parent := .waiter, joining := true }

/-- The rest of it. -/
def joinRun (s : JoinState) : Option JoinState :=
  match s.wPc with
  | .block => some { s with wPc := .sleep }
  | .woken => some (joinLoop s)
  | _ => none

inductive Event where
  /-- T calls `pthread_exit`. -/
  | exit (status : ℤ)
  /-- T goes on in it. -/
  | exitRun
  /-- The joiner calls `pthread_join`. -/
  | join
  /-- It goes on in it. -/
  | joinRun
  /-- The joiner waits for something else before it calls `pthread_join`. -/
  | elsewhere
  /-- What becomes of the creator. -/
  | creator (waiting : Bool)
  /-- Another thread that exits wakes the joiner; if it is one that was detached after it was
  joined, it takes the joiner's `THREAD_FLAG_JOINING`.  Its look at the joiner and its
  `task_unblock` are one step, though interrupts are on between them: the joiner sleeps until then.
  -/
  | wake (clear : Bool)
  /-- Somebody destroys T with `sys_waitpid`. -/
  | reap
  deriving DecidableEq, Repr

def joinStep (s : JoinState) : Event → Option JoinState
  | .exit status => if s.tPc = .run then some (pthreadExit s status) else none
  | .exitRun => exitRun s
  | .join => if s.wPc = .before then some (pthreadJoin s) else none
  | .joinRun => joinRun s
  | .elsewhere => if s.wPc = .before then some { s with wPc := .elsewhere } else none
  | .creator waiting => some { s with creatorWaiting := waiting }
  | .wake clear =>
      (taskUnblock s .waiter).map fun t => { t with joining := t.joining && !clear }
  | .reap =>
      if (s.tPc = .hanging ∨ s.tPc = .zombie) ∧ s.freed = 0 then some { s with freed := 1 }
      else none

/-! ## What is to be shown -/

/-- `pthread_join` has been called. -/
def WPc.called : WPc → Bool
  | .before | .elsewhere => false
  | _ => true

/-- `pthread_join` does its work. -/
structure Joined (s : JoinState) : Prop where
  /-- When it returns it returns 0 and T's status, and T has been freed once. -/
  returned : ∀ ret v, s.wPc = .returned ret v →
    ret = 0 ∧ v = some s.exitStatus ∧ s.tPc = .hanging ∧ s.freed = 1
  /-- T is not freed before. -/
  kept : (∀ ret v, s.wPc ≠ .returned ret v) → s.freed = 0
  /-- When both have been called and neither has a step to make, it has returned. -/
  done : s.tPc ≠ .run → s.wPc.called = true → joinStep s .exitRun = none →
    joinStep s .joinRun = none → ∃ v, s.wPc = .returned 0 v

/-- The condition on a step: T comes to `pthread_exit` when its parent waits, and wakes it
before anybody else does; the joiner is not put to sleep once T has come to `pthread_exit`, and
keeps its flag; T is left to the joiner. -/
def JoinOk (s : JoinState) : Event → Prop
  | .exit _ => s.waiting s.parent = true
  | .joinRun => s.wPc = .block → s.tPc = .run
  | .creator waiting => s.tPc = .exitUnblock .creator → waiting = true
  | .wake clear => s.tPc ≠ .exitUnblock .waiter ∧ (s.wPc = .sleep → clear = false)
  | .reap => False
  | _ => True

instance (s : JoinState) (e : Event) : Decidable (JoinOk s e) := by
  unfold JoinOk
  cases e <;> infer_instance

/-! ## The invariant -/

/-- In the loop of `pthread_join`. -/
def WPc.inLoop : WPc → Bool
  | .block | .sleep | .woken => true
  | _ => false

structure JoinInv (s : JoinState) : Prop where
  returned : ∀ ret v, s.wPc = .returned ret v →
    ret = 0 ∧ v = some s.exitStatus ∧ s.tPc = .hanging ∧ s.freed = 1
  kept : (∀ ret v, s.wPc ≠ .returned ret v) → s.freed = 0
  unblock : ∀ p, s.tPc = .exitUnblock p → s.waiting p = true
  notZombie : s.tPc ≠ .exitZombie ∧ s.tPc ≠ .zombie
  asleep : s.wPc = .sleep → s.tPc = .run ∨ s.tPc = .exitUnblock .waiter
  notJoined : s.wPc.called = false → s.joined = false
  loop : s.wPc.inLoop = true → s.joining = true ∧ s.parent = .waiter

variable {s s' : JoinState}

/-- Nobody is stuck. -/
theorem JoinInv.toJoined (h : JoinInv s) : Joined s := by
  refine ⟨h.returned, h.kept, ?_⟩
  intro hexit hcalled hT hW
  have hhangs : s.tPc = .hanging := by
    cases hpc : s.tPc with
    | run => exact absurd hpc hexit
    | exitUnblock p => simp [joinStep, exitRun, hpc, taskUnblock, h.unblock p hpc] at hT
    | exitHang => simp [joinStep, exitRun, hpc] at hT
    | exitZombie => exact absurd hpc h.notZombie.1
    | hanging => rfl
    | zombie => exact absurd hpc h.notZombie.2
  cases hpc : s.wPc with
  | before => simp [hpc, WPc.called] at hcalled
  | elsewhere => simp [hpc, WPc.called] at hcalled
  | block => simp [joinStep, joinRun, hpc] at hW
  | sleep =>
    obtain hrun | hun := h.asleep hpc
    · exact absurd hrun hexit
    · rw [hhangs] at hun
      cases hun
  | woken => simp [joinStep, joinRun, hpc] at hW
  | returned ret v =>
    obtain ⟨rfl, -⟩ := h.returned ret v hpc
    exact ⟨v, rfl⟩

theorem joinInv_boot (parent : Parent) (creatorWaiting joining : Bool) :
    JoinInv (joinBoot parent creatorWaiting joining) where
  returned := by simp [joinBoot]
  kept := by simp [joinBoot]
  unblock := by simp [joinBoot]
  notZombie := by simp [joinBoot]
  asleep := by simp [joinBoot]
  notJoined := by simp [joinBoot]
  loop := by simp [joinBoot, WPc.inLoop]

/-! ## Steps of T -/

/-- Before `pthread_exit` nothing has been returned. -/
theorem JoinInv.running (h : JoinInv s) (hpc : s.tPc ≠ .hanging) :
    ∀ ret v, s.wPc ≠ .returned ret v :=
  fun ret v hret => hpc (h.returned ret v hret).2.2.1

theorem JoinInv.exit (h : JoinInv s) (hpc : s.tPc = .run) (status : ℤ)
    (hwaits : s.waiting s.parent = true) : JoinInv (pthreadExit s status) := by
  have hgoing : ∀ ret v, s.wPc ≠ .returned ret v := h.running (by simp [hpc])
  have htPc : (pthreadExit s status).tPc = .exitUnblock s.parent := by simp [pthreadExit, hwaits]
  refine ⟨?_, fun _ => h.kept hgoing, ?_, ?_, ?_, h.notJoined, h.loop⟩
  · intro ret v hret
    exact absurd hret (hgoing ret v)
  · intro p hp
    rw [htPc] at hp
    obtain rfl : s.parent = p := by simpa using hp
    exact hwaits
  · rw [htPc]
    simp
  · -- who sleeps in the loop is T's parent
    intro hsleep
    have hsleep' : s.wPc = .sleep := hsleep
    right
    rw [htPc, (h.loop (by rw [hsleep']; rfl)).2]

theorem JoinInv.exitRun (h : JoinInv s) (hstep : Join.exitRun s = some s') : JoinInv s' := by
  cases hpc : s.tPc with
  | run => simp [Join.exitRun, hpc] at hstep
  | hanging => simp [Join.exitRun, hpc] at hstep
  | zombie => simp [Join.exitRun, hpc] at hstep
  | exitZombie => exact absurd hpc h.notZombie.1
  | exitHang =>
    simp only [Join.exitRun, hpc, Option.some.injEq] at hstep
    subst hstep
    have hgoing : ∀ ret v, s.wPc ≠ .returned ret v := h.running (by simp [hpc])
    refine ⟨?_, h.kept, by simp, by simp, ?_, h.notJoined, h.loop⟩
    · intro ret v hret
      exact absurd hret (hgoing ret v)
    · intro hsleep
      obtain hrun | hun := h.asleep hsleep
      · rw [hpc] at hrun
        cases hrun
      · rw [hpc] at hun
        cases hun
  | exitUnblock p =>
    have hwaits := h.unblock p hpc
    simp only [Join.exitRun, hpc, taskUnblock, hwaits, if_true, Option.map_some,
      Option.some.injEq] at hstep
    subst hstep
    have hgoing : ∀ ret v, s.wPc ≠ .returned ret v := h.running (by simp [hpc])
    cases p with
    | creator =>
      refine ⟨?_, fun _ => h.kept hgoing, by simp, by simp, ?_, h.notJoined, h.loop⟩
      · intro ret v hret
        exact absurd hret (hgoing ret v)
      · intro hsleep
        obtain hrun | hun := h.asleep hsleep
        · rw [hpc] at hrun
          cases hrun
        · rw [hpc] at hun
          cases hun
    | waiter =>
      -- the joiner is woken: it sleeps in the loop or elsewhere
      simp only [JoinState.waiting, Bool.or_eq_true, decide_eq_true_eq] at hwaits
      obtain hw | hw := hwaits
      · refine ⟨?_, fun _ => h.kept hgoing, by simp, by simp, ?_, ?_, ?_⟩
        · simp [JoinState.wakeUp, hw]
        · simp [JoinState.wakeUp, hw]
        · intro _
          exact h.notJoined (by rw [hw]; rfl)
        · simp [JoinState.wakeUp, hw, WPc.inLoop]
      · refine ⟨?_, fun _ => h.kept hgoing, by simp, by simp, ?_, ?_, ?_⟩
        · simp [JoinState.wakeUp, hw]
        · simp [JoinState.wakeUp, hw]
        · simp [JoinState.wakeUp, hw, WPc.called]
        · intro _
          exact h.loop (by rw [hw]; rfl)

/-! ## Steps of the joiner -/

/-- The joiner is somewhere else in its code, and not asleep in the loop. -/
theorem JoinInv.goto (h : JoinInv s) (pc : WPc) (hgoing : ∀ ret v, s.wPc ≠ .returned ret v)
    (hpc : ∀ ret v, pc ≠ .returned ret v) (hwaits : ∀ p, s.tPc ≠ .exitUnblock p ∨ p = .creator)
    (hasleep : pc = .sleep → s.tPc = .run) (hcalled : pc.called = false → s.joined = false)
    (hloop : pc.inLoop = true → s.joining = true ∧ s.parent = .waiter) :
    JoinInv { s with wPc := pc } where
  returned := fun ret v hret => absurd hret (hpc ret v)
  kept := fun _ => h.kept hgoing
  unblock := by
    intro p hp
    obtain hno | rfl := hwaits p
    · exact absurd hp hno
    · exact h.unblock .creator hp
  notZombie := h.notZombie
  asleep := fun hsleep => Or.inl (hasleep hsleep)
  notJoined := hcalled
  loop := hloop

/-- Who is not waiting is not about to be woken by T. -/
theorem JoinInv.notUnblocked (h : JoinInv s) (hwaits : s.waiting .waiter = false) :
    ∀ p, s.tPc ≠ .exitUnblock p ∨ p = .creator := by
  intro p
  cases p with
  | creator => exact Or.inr rfl
  | waiter =>
    left
    intro hpc
    rw [h.unblock .waiter hpc] at hwaits
    cases hwaits

/-- A look for T, by a joiner that is in the loop. -/
theorem JoinInv.joinLoop (h : JoinInv s) (hgoing : ∀ ret v, s.wPc ≠ .returned ret v)
    (hwaits : s.waiting .waiter = false) (hjoining : s.joining = true)
    (hparent : s.parent = .waiter) : JoinInv (joinLoop s) := by
  have hfreed := h.kept hgoing
  by_cases hhangs : s.tPc = .hanging
  · have hlook : Join.joinLoop s =
        { s with freed := s.freed + 1, wPc := .returned 0 (some s.exitStatus) } := by
      simp [Join.joinLoop, waitOneHanggingThread, hhangs, hfreed]
    rw [hlook]
    refine ⟨?_, ?_, ?_, h.notZombie, by simp, by simp [WPc.called], by simp [WPc.inLoop]⟩
    · intro ret v hret
      simp only [WPc.returned.injEq] at hret
      obtain ⟨rfl, rfl⟩ := hret
      exact ⟨rfl, rfl, hhangs, by simp [hfreed]⟩
    · intro hno
      exact absurd rfl (hno 0 (some s.exitStatus))
    · simp [hhangs]
  · have hlook : Join.joinLoop s = { s with wPc := .block } := by
      simp [Join.joinLoop, waitOneHanggingThread, hhangs, hjoining]
    rw [hlook]
    exact h.goto .block hgoing (by simp) (h.notUnblocked hwaits) (by simp) (by simp [WPc.called])
      fun _ => ⟨hjoining, hparent⟩

theorem JoinInv.join (h : JoinInv s) (hpc : s.wPc = .before) : JoinInv (pthreadJoin s) := by
  have hgoing : ∀ ret v, s.wPc ≠ .returned ret v := by simp [hpc]
  have hjoined := h.notJoined (by rw [hpc]; rfl)
  have hcall : pthreadJoin s =
      Join.joinLoop { s with joined := true, parent := .waiter, joining := true } := by
    simp [pthreadJoin, h.kept hgoing, h.notZombie.2, hjoined]
  rw [hcall]
  -- the flags are set, and the joiner has called
  have hflags : JoinInv
      { s with joined := true, parent := .waiter, joining := true, wPc := .woken } := by
    refine ⟨by simp, fun _ => h.kept hgoing, ?_, h.notZombie, by simp, by simp [WPc.called],
      fun _ => ⟨rfl, rfl⟩⟩
    intro p hp
    obtain hno | rfl := h.notUnblocked (by simp [JoinState.waiting, hpc]) p
    · exact absurd hp hno
    · exact h.unblock .creator hp
  have hsame : Join.joinLoop { s with joined := true, parent := .waiter, joining := true } =
      Join.joinLoop
        { s with joined := true, parent := .waiter, joining := true, wPc := .woken } := by
    simp only [Join.joinLoop, waitOneHanggingThread]
    split_ifs <;> rfl
  rw [hsame]
  exact hflags.joinLoop (by simp) (by simp [JoinState.waiting]) rfl rfl

theorem JoinInv.joinRun (h : JoinInv s) (hcond : JoinOk s .joinRun)
    (hstep : Join.joinRun s = some s') : JoinInv s' := by
  cases hpc : s.wPc with
  | before => simp [Join.joinRun, hpc] at hstep
  | elsewhere => simp [Join.joinRun, hpc] at hstep
  | sleep => simp [Join.joinRun, hpc] at hstep
  | returned ret v => simp [Join.joinRun, hpc] at hstep
  | block =>
    simp only [Join.joinRun, hpc, Option.some.injEq] at hstep
    subst hstep
    exact h.goto .sleep (by simp [hpc]) (by simp)
      (h.notUnblocked (by simp [JoinState.waiting, hpc])) (fun _ => hcond hpc)
      (by simp [WPc.called]) fun _ => h.loop (by rw [hpc]; rfl)
  | woken =>
    simp only [Join.joinRun, hpc, Option.some.injEq] at hstep
    subst hstep
    obtain ⟨hjoining, hparent⟩ := h.loop (by rw [hpc]; rfl)
    exact h.joinLoop (by simp [hpc]) (by simp [JoinState.waiting, hpc]) hjoining hparent

/-! ## Steps of the others -/

theorem JoinInv.creator (h : JoinInv s) (waiting : Bool) (hcond : JoinOk s (.creator waiting)) :
    JoinInv { s with creatorWaiting := waiting } where
  returned := h.returned
  kept := h.kept
  unblock := by
    intro p hp
    cases p with
    | waiter => exact h.unblock .waiter hp
    | creator => exact hcond hp
  notZombie := h.notZombie
  asleep := h.asleep
  notJoined := h.notJoined
  loop := h.loop

/-- The joiner is woken by another thread. -/
theorem JoinInv.wake (h : JoinInv s) (clear : Bool) (hcond : JoinOk s (.wake clear))
    (hwaits : s.waiting .waiter = true) :
    JoinInv { s.wakeUp .waiter with joining := (s.wakeUp .waiter).joining && !clear } := by
  obtain ⟨hT, hclear⟩ := hcond
  have hnot : ∀ p, s.tPc ≠ .exitUnblock p ∨ p = .creator := by
    intro p
    cases p with
    | waiter => exact Or.inl hT
    | creator => exact Or.inr rfl
  simp only [JoinState.waiting, Bool.or_eq_true, decide_eq_true_eq] at hwaits
  obtain hw | hw := hwaits
  · have hgoto := h.goto .before (by simp [hw]) (by simp) hnot (by simp)
      (fun _ => h.notJoined (by rw [hw]; rfl)) (by simp [WPc.inLoop])
    have hbefore : (s.wakeUp .waiter) = { s with wPc := .before } := by simp [JoinState.wakeUp, hw]
    rw [hbefore]
    exact ⟨hgoto.returned, hgoto.kept, hgoto.unblock, hgoto.notZombie, hgoto.asleep,
      hgoto.notJoined, by simp [WPc.inLoop]⟩
  · have hgoto := h.goto .woken (by simp [hw]) (by simp) hnot (by simp) (by simp [WPc.called])
      (fun _ => h.loop (by rw [hw]; rfl))
    have hwoken : (s.wakeUp .waiter) = { s with wPc := .woken } := by simp [JoinState.wakeUp, hw]
    rw [hwoken, hclear hw]
    simpa using hgoto

/-! ## Runs -/

theorem joinInv_step (s : JoinState) (e : Event) (s' : JoinState) (h : JoinInv s)
    (hcond : JoinOk s e) (hstep : joinStep s e = some s') : JoinInv s' := by
  cases e with
  | exit status =>
    simp only [joinStep, Option.ite_none_right_eq_some, Option.some.injEq] at hstep
    obtain ⟨hpc, rfl⟩ := hstep
    exact h.exit hpc status hcond
  | exitRun => exact h.exitRun hstep
  | join =>
    simp only [joinStep, Option.ite_none_right_eq_some, Option.some.injEq] at hstep
    obtain ⟨hpc, rfl⟩ := hstep
    exact h.join hpc
  | joinRun => exact h.joinRun hcond hstep
  | elsewhere =>
    simp only [joinStep, Option.ite_none_right_eq_some, Option.some.injEq] at hstep
    obtain ⟨hpc, rfl⟩ := hstep
    exact h.goto .elsewhere (by simp [hpc]) (by simp)
      (h.notUnblocked (by simp [JoinState.waiting, hpc])) (by simp)
      (fun _ => h.notJoined (by rw [hpc]; rfl)) (by simp [WPc.inLoop])
  | creator waiting =>
    cases hstep
    exact h.creator waiting hcond
  | wake clear =>
    simp only [joinStep, taskUnblock, Option.map_eq_some_iff, Option.ite_none_right_eq_some,
      Option.some.injEq] at hstep
    obtain ⟨t, ⟨hwaits, rfl⟩, rfl⟩ := hstep
    exact h.wake clear hcond hwaits
  | reap => exact hcond.elim

/-! ## The number of steps -/

/-- A step of `pthread_exit` or of `pthread_join`. -/
def Event.isParty : Event → Bool
  | .exit _ | .exitRun | .join | .joinRun => true
  | _ => false

def Event.isWake : Event → Bool
  | .wake _ => true
  | _ => false

/-- How many steps T may still make, and cause. -/
def TPc.measure : TPc → ℕ
  | .run => 5
  | .exitUnblock _ => 4
  | .exitHang | .exitZombie => 1
  | .hanging | .zombie => 0

/-- How many steps the joiner may still make, unless it is woken. -/
def WPc.measure : WPc → ℕ
  | .before | .elsewhere | .woken => 3
  | .block => 2
  | .sleep => 1
  | .returned _ _ => 0

def JoinState.measure (s : JoinState) : ℕ := s.tPc.measure + s.wPc.measure

theorem wPc_measure_joinLoop (s : JoinState) : (joinLoop s).wPc.measure ≤ 2 := by
  unfold joinLoop waitOneHanggingThread
  split_ifs <;> simp [WPc.measure]

theorem tPc_joinLoop (s : JoinState) : (joinLoop s).tPc = s.tPc := by
  unfold joinLoop waitOneHanggingThread
  split_ifs <;> rfl

/-- Being woken costs the joiner two steps more. -/
theorem measure_wakeUp (s : JoinState) (p : Parent) (hwaits : s.waiting p = true) :
    (s.wakeUp p).wPc.measure ≤ s.wPc.measure + 2 := by
  cases p with
  | creator => simp [JoinState.wakeUp]
  | waiter =>
    simp only [JoinState.waiting, Bool.or_eq_true, decide_eq_true_eq] at hwaits
    obtain hw | hw := hwaits <;> simp [JoinState.wakeUp, hw, WPc.measure]

theorem measure_exitRun (hstep : exitRun s = some s') : s'.measure + 1 ≤ s.measure := by
  cases hpc : s.tPc with
  | run => simp [exitRun, hpc] at hstep
  | hanging => simp [exitRun, hpc] at hstep
  | zombie => simp [exitRun, hpc] at hstep
  | exitZombie =>
    simp only [exitRun, hpc, Option.some.injEq] at hstep
    subst hstep
    simp only [JoinState.measure, hpc, TPc.measure]
    omega
  | exitHang =>
    simp only [exitRun, hpc, Option.some.injEq] at hstep
    subst hstep
    simp only [JoinState.measure, hpc, TPc.measure]
    omega
  | exitUnblock p =>
    simp only [exitRun, hpc, taskUnblock, Option.map_eq_some_iff, Option.ite_none_right_eq_some,
      Option.some.injEq] at hstep
    obtain ⟨t, ⟨hwaits, rfl⟩, rfl⟩ := hstep
    have hwake := measure_wakeUp s p hwaits
    simp only [JoinState.measure, hpc, TPc.measure]
    omega

theorem measure_joinRun (hstep : joinRun s = some s') : s'.measure + 1 ≤ s.measure := by
  cases hpc : s.wPc with
  | before => simp [joinRun, hpc] at hstep
  | elsewhere => simp [joinRun, hpc] at hstep
  | sleep => simp [joinRun, hpc] at hstep
  | returned ret v => simp [joinRun, hpc] at hstep
  | block =>
    simp only [joinRun, hpc, Option.some.injEq] at hstep
    subst hstep
    simp [JoinState.measure, hpc, WPc.measure]
  | woken =>
    simp only [joinRun, hpc, Option.some.injEq] at hstep
    subst hstep
    have hlook := wPc_measure_joinLoop s
    have hwoken : s.wPc.measure = 3 := by rw [hpc]; rfl
    simp only [JoinState.measure, tPc_joinLoop]
    omega

theorem measure_join (hpc : s.wPc = .before) : (pthreadJoin s).measure + 1 ≤ s.measure := by
  unfold pthreadJoin
  split_ifs
  · simp [JoinState.measure, hpc, WPc.measure]
  · simp [JoinState.measure, hpc, WPc.measure]
  · have hlook := wPc_measure_joinLoop { s with joined := true, parent := .waiter, joining := true }
    have hbefore : s.wPc.measure = 3 := by rw [hpc]; rfl
    simp only [JoinState.measure, tPc_joinLoop]
    omega

/-- Every step of the two brings the end nearer, and only a wake-up from outside takes it
away again. -/
theorem measure_step (s : JoinState) (e : Event) (s' : JoinState) (hstep : joinStep s e = some s') :
    s'.measure + e.isParty.toNat ≤ s.measure + 2 * e.isWake.toNat := by
  cases e with
  | exit status =>
    simp only [joinStep, Option.ite_none_right_eq_some, Option.some.injEq] at hstep
    obtain ⟨hpc, rfl⟩ := hstep
    simp only [pthreadExit, JoinState.measure, hpc, Event.isParty, Event.isWake, Bool.toNat_true,
      Bool.toNat_false]
    split_ifs <;> simp only [TPc.measure] <;> omega
  | exitRun => exact measure_exitRun hstep
  | join =>
    simp only [joinStep, Option.ite_none_right_eq_some, Option.some.injEq] at hstep
    obtain ⟨hpc, rfl⟩ := hstep
    exact measure_join hpc
  | joinRun => exact measure_joinRun hstep
  | elsewhere =>
    simp only [joinStep, Option.ite_none_right_eq_some, Option.some.injEq] at hstep
    obtain ⟨hpc, rfl⟩ := hstep
    simp [JoinState.measure, hpc, WPc.measure, Event.isParty]
  | creator waiting =>
    cases hstep
    simp [JoinState.measure, Event.isParty]
  | wake clear =>
    simp only [joinStep, taskUnblock, Option.map_eq_some_iff, Option.ite_none_right_eq_some,
      Option.some.injEq] at hstep
    obtain ⟨t, ⟨hwaits, rfl⟩, rfl⟩ := hstep
    have hwake := measure_wakeUp s .waiter hwaits
    simp only [JoinState.measure, Event.isParty, Event.isWake, Bool.toNat_true, Bool.toNat_false]
    simp only [JoinState.wakeUp] at hwake ⊢
    omega
  | reap =>
    simp only [joinStep, Option.ite_none_right_eq_some, Option.some.injEq] at hstep
    obtain ⟨-, rfl⟩ := hstep
    simp [JoinState.measure, Event.isParty]

/-- **The two make a bounded number of steps**, two more for each wake-up from outside. -/
theorem party_steps_le (events : List Event) (s s' : JoinState)
    (hrun : Run.exec joinStep s events = some s') :
    s'.measure + events.countP Event.isParty ≤ s.measure + 2 * events.countP Event.isWake := by
  induction events generalizing s with
  | nil =>
    cases hrun
    simp
  | cons e rest ih =>
    obtain ⟨t, ht, hrest⟩ := Run.exec_cons_eq_some.1 hrun
    have hstep := measure_step s e t ht
    have htail := ih t hrest
    have hparty : ∀ b : Bool, (if b = true then 1 else 0) = b.toNat := by decide
    simp only [List.countP_cons, hparty]
    omega

/-! ## The theorem -/

/-- **`pthread_join` returns 0 and the status of the thread**, which is freed once, in every run
in which T comes to `pthread_exit` when its parent waits and the joiner is not put to sleep
after that; both come to their end. -/
theorem join_returns_status (parent : Parent) (creatorWaiting joining : Bool) (events : List Event)
    (s : JoinState)
    (hrun : Run.exec joinStep (joinBoot parent creatorWaiting joining) events = some s)
    (hcond : Run.Along joinStep JoinOk (joinBoot parent creatorWaiting joining) events) :
    Joined s ∧ events.countP Event.isParty ≤ 8 + 2 * events.countP Event.isWake := by
  have hinv : JoinInv s :=
    Run.exec_invariant joinInv_step events _ s (joinInv_boot parent creatorWaiting joining) hcond
      hrun
  have hsteps := party_steps_le events _ s hrun
  refine ⟨hinv.toJoined, ?_⟩
  have hboot : (joinBoot parent creatorWaiting joining).measure = 8 := rfl
  omega

/-- The joiner sleeps when T exits with 7. -/
theorem join_returns_status_late :
    ∃ s, Run.exec joinStep (joinBoot .creator false false)
        [.join, .joinRun, .exit 7, .exitRun, .exitRun, .joinRun] = some s ∧
      (Joined s ∧ ([.join, .joinRun, .exit 7, .exitRun, .exitRun, .joinRun] : List Event).countP
        Event.isParty ≤ 8 + 2 * ([.join, .joinRun, .exit 7, .exitRun, .exitRun, .joinRun] :
          List Event).countP Event.isWake) := by
  have hsome : (Run.exec joinStep (joinBoot .creator false false)
      [.join, .joinRun, .exit 7, .exitRun, .exitRun, .joinRun]).isSome = true := by decide +kernel
  obtain ⟨s, hs⟩ := Option.isSome_iff_exists.1 hsome
  exact ⟨s, hs, join_returns_status _ _ _ _ s hs (by decide +kernel)⟩

/-- T exits first, and its creator does not wait: T is a zombie, and is not found. -/
theorem join_returns_error :
    ∃ s, Run.exec joinStep (joinBoot .creator false false) [.exit 7, .exitRun, .join] = some s ∧
      ¬ Joined s := by
  have hrun : (Run.exec joinStep (joinBoot .creator false false) [.exit 7, .exitRun, .join]).map
      JoinState.wPc = some (.returned (-1) none) := by decide +kernel
  obtain ⟨s, hs, hpc⟩ := Option.map_eq_some_iff.1 hrun
  refine ⟨s, hs, fun h => ?_⟩
  have hzero := (h.returned _ _ hpc).1
  cases hzero

end Join
end LightOS
