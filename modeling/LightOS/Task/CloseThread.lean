import LightOS.Task.WaitQueue

/-!
# Closing threads

`proc_close_one_thread` and `proc_close_other_threads` of `task/process.c`, and the calls that
reach them: exit and exec, and `sys_thread_cancel` of `task/pthread.c`.  They run with interrupts
off, over the kernel of sleeping and waking tasks.

* `Closed` — what a closing does to the lists, whoever is closed.
* `queuesSound_iff` — the lists are sound afterwards exactly if no closed thread was on one.
* `closeThreads_sound` — the same in every run; `closeThreads_fails` closes a thread that sleeps on
  a wait queue.

The timer that `task_do_cancel` stops, the threads' exit statuses and the number of threads of a
process are left out.
-/

namespace LightOS
namespace WaitQueue

open Sched

/-! ## The model -/

/-- The kernel, the list of all tasks, and what closing reads of them. -/
structure TaskTable where
  kern : KState
  /-- `task_global_list`. -/
  globalList : List ℕ
  pid : ℕ → ℕ
  tgid : ℕ → ℕ
  nextPid : ℕ
  /-- `THREAD_FLAG_CANCEL_ASYCHRONOUS`. -/
  cancelAsync : ℕ → Bool

def TaskTable.onKern (s : TaskTable) (kern : KState) : TaskTable := { s with kern := kern }

/-- `task_find_by_pid`. -/
def taskFindByPid (s : TaskTable) (pid : ℕ) : Option ℕ := s.globalList.find? fun t => s.pid t = pid

/-- A new task, in a thread group. -/
def TaskTable.register (s : TaskTable) (t tgid : ℕ) : TaskTable :=
  { s with
    globalList := s.globalList ++ [t]
    pid := Function.update s.pid t s.nextPid
    tgid := Function.update s.tgid t tgid
    nextPid := s.nextPid + 1
    cancelAsync := Function.update s.cancelAsync t false }

/-- `task_free`: the task is off the global list, and its memory is free. -/
def TaskTable.taskFree (s : TaskTable) (t : ℕ) : TaskTable :=
  { s with
    kern := (s.kern.onSched
      { s.kern.sched with tasks := Function.update s.kern.sched.tasks t none }).setHanded t false
    globalList := s.globalList.filter fun x => x ≠ t }

/-- The state of a task is `TASK_READY`. -/
def TaskReady (s : KState) (t : ℕ) : Prop := s.stateOf t = some .ready

instance (s : KState) (t : ℕ) : Decidable (TaskReady s t) := inferInstanceAs (Decidable (_ = _))

/-- `proc_close_one_thread`. -/
def procCloseOneThread (s : TaskTable) (thread : ℕ) : TaskTable :=
  (if TaskReady s.kern thread then s.onKern (s.kern.listDel thread) else s).taskFree thread

/-- The other threads of the group of a thread. -/
def otherThreads (s : TaskTable) (thread : ℕ) : List ℕ :=
  s.globalList.filter fun t => s.tgid thread = s.tgid t ∧ s.pid thread ≠ s.pid t

/-- `proc_close_other_threads`. -/
def procCloseOtherThreads (s : TaskTable) (thread : ℕ) : TaskTable :=
  (otherThreads s thread).foldl procCloseOneThread s

/-- The thread that `sys_thread_cancel` closes, if it closes one. -/
def cancelTarget (s : TaskTable) (pid : ℕ) : Option ℕ :=
  (taskFindByPid s pid).filter fun t => s.cancelAsync t && decide (t ≠ s.kern.sched.cur)

/-- `sys_thread_cancel`, but for the exit of a thread that cancels itself. -/
def sysThreadCancel (s : TaskTable) (pid : ℕ) : TaskTable :=
  match cancelTarget s pid with
  | none => s
  | some t => procCloseOneThread s t

/-- `TASK_PRIO_LEVEL_NORMAL`. -/
abbrev taskPrioLevelNormal : ℕ := 2

/-- What can happen; an exit is a `closeOtherThreads` and then a `taskBlock`. -/
inductive TaskEvent where
  | kern (e : KEvent)
  | pthreadStart (task : ℕ)
  | setCancelType (async : Bool)
  | closeOtherThreads
  | threadCancel (pid : ℕ)

/-- One event. -/
def tstep (s : TaskTable) : TaskEvent → Option TaskTable
  | .kern e =>
      (kstep s.kern e).map fun kern =>
        match e with
        | .create t _ => (s.onKern kern).register t s.nextPid
        | _ => s.onKern kern
  | .pthreadStart t =>
      if s.kern.CanCall then
        let cur := s.kern.sched.cur
        (kstep s.kern (.create t taskPrioLevelNormal)).map fun kern =>
          (s.onKern kern).register t (if s.tgid cur = s.pid cur then s.pid cur else s.tgid cur)
      else none
  | .setCancelType async =>
      if s.kern.CanCall then
        some { s with cancelAsync := Function.update s.cancelAsync s.kern.sched.cur async }
      else none
  | .closeOtherThreads =>
      if s.kern.CanCall then some (procCloseOtherThreads s s.kern.sched.cur) else none
  | .threadCancel pid => if s.kern.CanCall then some (sysThreadCancel s pid) else none

/-- At boot. -/
def tableBoot (idle level : ℕ) (v : ℕ → ℕ) : TaskTable where
  kern := kernelBoot idle level v
  globalList := [idle]
  pid := fun _ => 0
  tgid := fun _ => 0
  nextPid := 2
  cancelAsync := fun _ => false

/-- The threads an event closes. -/
def closedBy (s : TaskTable) : TaskEvent → List ℕ
  | .closeOtherThreads => otherThreads s s.kern.sched.cur
  | .threadCancel pid => (cancelTarget s pid).toList
  | _ => []

/-! ## Closing -/

/-- The lists after a closing: no task that was freed is on one, and the queues of the scheduler
are counted. -/
structure QueuesSound (s : KState) : Prop where
  freed : ∀ q t, t ∈ s.on q → s.sched.tasks t ≠ none
  length : ∀ p, (s.sched.priorityQueue p).length = (s.sched.priorityQueue p).list.length
  tasknr : s.sched.tasknr = ∑ p ∈ Finset.range taskPriorityMaxNr, (s.sched.priorityQueue p).length

/-- From `s` to `s'` the threads of `ts` have been closed. -/
structure Closed (ts : List ℕ) (s s' : KState) : Prop where
  queue : ∀ p, s'.sched.priorityQueue p = ⟨(s.sched.priorityQueue p).list.filter fun x =>
    ¬(x ∈ ts ∧ TaskReady s x), (s.sched.priorityQueue p).length⟩
  links : s'.links = s.links.filter fun link => ¬(link.2 ∈ ts ∧ TaskReady s link.2)
  tasks : ∀ x, s'.sched.tasks x = if x ∈ ts then none else s.sched.tasks x
  tasknr : s'.sched.tasknr = s.sched.tasknr
  dynamic : s'.sched.dynamicPriority = s.sched.dynamicPriority
  idle : s'.sched.idle = s.sched.idle
  cur : s'.sched.cur = s.sched.cur
  log : s'.sched.log = s.sched.log
  place : s'.place = s.place
  locked : s'.locked = s.locked
  waiter : s'.waiter = s.waiter
  handed : ∀ x, s'.handed x = if x ∈ ts then false else s.handed x

section Closing

variable {s u s' : KState} {ts : List ℕ} {t : ℕ}

theorem Closed.nil (s : KState) : Closed [] s s := by
  refine ⟨fun p => ?_, ?_,
    fun x => by simp, rfl, rfl, rfl, rfl, rfl, rfl, rfl, rfl, fun x => by simp⟩
  · simp
  · simp

theorem taskReady_closed (h : Closed ts s u) (x : ℕ) : TaskReady u x ↔ x ∉ ts ∧ TaskReady s x := by
  unfold TaskReady KState.stateOf
  rw [h.tasks x, h.handed x]
  by_cases hx : x ∈ ts
  · simp [hx]
  · simp [hx]

/-- One closing after another. -/
theorem Closed.append {ts' : List ℕ} (h : Closed ts s u) (h' : Closed ts' u s') :
    Closed (ts ++ ts') s s' := by
  have hboth : ∀ x, (¬(x ∈ ts' ∧ TaskReady u x) ∧ ¬(x ∈ ts ∧ TaskReady s x)) ↔
      ¬(x ∈ ts ++ ts' ∧ TaskReady s x) := by
    intro x
    rw [taskReady_closed h x, List.mem_append]
    tauto
  refine ⟨fun p => ?_, ?_, fun x => ?_, h'.tasknr.trans h.tasknr, h'.dynamic.trans h.dynamic,
    h'.idle.trans h.idle, h'.cur.trans h.cur, h'.log.trans h.log, h'.place.trans h.place,
    h'.locked.trans h.locked, h'.waiter.trans h.waiter, fun x => ?_⟩
  · rw [h'.queue p, h.queue p, List.filter_filter]
    congr 1
    refine List.filter_congr fun x _ => ?_
    rw [← Bool.decide_and]
    exact decide_eq_decide.2 (hboth x)
  · rw [h'.links, h.links, List.filter_filter]
    refine List.filter_congr fun link _ => ?_
    rw [← Bool.decide_and]
    exact decide_eq_decide.2 (hboth link.2)
  · rw [h'.tasks x, h.tasks x]
    by_cases hx : x ∈ ts'
    · simp [hx]
    · simp [hx]
  · rw [h'.handed x, h.handed x]
    by_cases hx : x ∈ ts'
    · simp [hx]
    · simp [hx]

/-- **`proc_close_one_thread`.** -/
theorem procCloseOneThread_closed (s : TaskTable) (t : ℕ) :
    Closed [t] s.kern (procCloseOneThread s t).kern := by
  have htasks : ∀ (f : ℕ → Option Task) (x : ℕ), Function.update f t none x = if x ∈ [t] then
      none else f x := by
    intro f x
    simp [Function.update_apply]
  have hhanded : ∀ (f : ℕ → Bool) (x : ℕ), Function.update f t false x = if x ∈ [t] then
      false else f x := by
    intro f x
    simp [Function.update_apply]
  unfold procCloseOneThread
  split_ifs with hready
  · have hiff : ∀ x, x ≠ t ↔ ¬(x ∈ [t] ∧ TaskReady s.kern x) := by
      intro x
      rw [List.mem_singleton]
      constructor
      · exact fun hne hx => hne hx.1
      · rintro hnot rfl
        exact hnot ⟨rfl, hready⟩
    refine ⟨fun p => ?_, ?_, htasks _, rfl, rfl, rfl, rfl, rfl, rfl, rfl, rfl, hhanded _⟩
    · show SchedQueue.mk (List.filter _ _) _ = SchedQueue.mk (List.filter _ _) _
      congr 1
      exact List.filter_congr fun x _ => decide_eq_decide.2 (hiff x)
    · exact List.filter_congr fun link _ => decide_eq_decide.2 (hiff link.2)
  · have hnot : ∀ x, ¬(x ∈ [t] ∧ TaskReady s.kern x) := by
      rintro x ⟨hx, hx'⟩
      rw [List.mem_singleton.1 hx] at hx'
      exact hready hx'
    refine ⟨fun p => ?_, ?_, htasks _, rfl, rfl, rfl, rfl, rfl, rfl, rfl, rfl, hhanded _⟩
    · rw [List.filter_eq_self.2 fun x _ => decide_eq_true (hnot x)]
      rfl
    · rw [List.filter_eq_self.2 fun link _ => decide_eq_true (hnot link.2)]
      rfl

/-- **A whole closing**, thread by thread. -/
theorem foldl_closed (ts : List ℕ) : ∀ s : TaskTable,
    Closed ts s.kern (ts.foldl procCloseOneThread s).kern := by
  induction ts with
  | nil => exact fun s => .nil s.kern
  | cons t ts ih =>
      exact fun s => (procCloseOneThread_closed s t).append (ih (procCloseOneThread s t))

/-- A thread whose node is on a list: it is ready, or it is on a wait list. -/
def KState.Linked (s : KState) (t : ℕ) : Prop := TaskReady s t ∨ s.Waits t

instance (s : KState) (t : ℕ) : Decidable (s.Linked t) := inferInstanceAs (Decidable (_ ∨ _))

/-- The field `state` of a task that is not handed over. -/
theorem taskReady_of (hT : ∃ T, s.sched.tasks t = some T ∧ T.state = .ready) : TaskReady s t := by
  obtain ⟨T, hT, hstate⟩ := hT
  unfold TaskReady KState.stateOf
  rw [hT, Option.map_some, hstate, ite_self]

theorem TaskReady.task (h : TaskReady s t) (hhand : ¬s.InHand t) :
    ∃ T, s.sched.tasks t = some T ∧ T.state = .ready := by
  unfold TaskReady KState.stateOf at h
  rw [if_neg fun heq => hhand (Or.inl heq)] at h
  obtain ⟨T, hT, hstate⟩ := Option.map_eq_some_iff.1 h
  exact ⟨T, hT, hstate⟩

theorem QueuesInv.queuesSound (h : QueuesInv s) : QueuesSound s := by
  refine ⟨fun q t hq => ?_, h.sched.queue.length, h.sched.queue.tasknr⟩
  cases q with
  | ready p =>
      obtain ⟨T, hT, -⟩ := (h.sched.queue.mem t p).1 hq
      rw [hT]
      exact Option.some_ne_none T
  | wait l =>
      obtain ⟨T, hT, -⟩ := h.asleep t (waits_of_mem (mem_list.1 hq))
      rw [hT]
      exact Option.some_ne_none T

/-- Closing threads that are on no list changes no list. -/
theorem Closed.lists_eq (hc : Closed ts s s') (hfree : ∀ t ∈ ts, ¬s.Linked t) :
    s'.sched.priorityQueue = s.sched.priorityQueue ∧ s'.links = s.links := by
  have hall : ∀ x, ¬(x ∈ ts ∧ TaskReady s x) := fun x hx => hfree x hx.1 (Or.inl hx.2)
  constructor
  · funext p
    rw [hc.queue p, List.filter_eq_self.2 fun x _ => decide_eq_true (hall x)]
  · rw [hc.links, List.filter_eq_self.2 fun link _ => decide_eq_true (hall link.2)]

/-- **Closing threads that are on no list keeps the invariant.** -/
theorem QueuesInv.close (h : QueuesInv s) (hc : Closed ts s s') (hcur : s.sched.cur ∉ ts)
    (hfree : ∀ t ∈ ts, ¬s.Linked t) : QueuesInv s' := by
  obtain ⟨hqueue, hlinks⟩ := hc.lists_eq hfree
  have hkeep : ∀ x, x ∉ ts → s'.sched.tasks x = s.sched.tasks x := fun x hx => by
    rw [hc.tasks x, if_neg hx]
  have hsome : ∀ x X, s'.sched.tasks x = some X → s.sched.tasks x = some X := by
    intro x X hX
    rw [hc.tasks x] at hX
    split_ifs at hX
    exact hX
  obtain ⟨I, hI, hIstate⟩ := h.sched.idle
  have hidle : s.sched.idle ∉ ts := by
    intro hmem
    rcases hIstate with hrun | hready
    · exact hcur (h.sched.only _ I hI hrun ▸ hmem)
    · exact hfree _ hmem (Or.inl (taskReady_of ⟨I, hI, hready⟩))
  have hwaits : ∀ t, s'.Waits t → s.Waits t := by
    intro t ht
    unfold KState.Waits at ht
    rwa [hlinks] at ht
  refine ⟨⟨⟨?_, ?_, ?_, fun t p => ?_, ?_, ?_,
    fun t T hT => h.sched.queue.priority t T (hsome t T hT), ?_⟩,
    ?_, fun t T hT hrun => ?_, ?_⟩, ?_, fun t ht => ?_, fun k hk => ?_, fun k t hk ht => ?_, ?_⟩
  · rw [hqueue]
    exact h.sched.queue.length
  · unfold SchedState.total
    rw [hqueue, hc.tasknr]
    exact h.sched.queue.tasknr
  · rw [hqueue]
    exact h.sched.queue.nodup
  · rw [hqueue, h.sched.queue.mem t p, hc.tasks t]
    by_cases ht : t ∈ ts
    · rw [if_pos ht]
      refine iff_of_false
        (fun ⟨T, hT, hready, _⟩ => hfree t ht (Or.inl (taskReady_of ⟨T, hT, hready⟩))) ?_
      rintro ⟨T, hT, -⟩
      cases hT
    · rw [if_neg ht]
  · rw [hqueue, hc.dynamic]
    exact h.sched.queue.above
  · rw [hc.dynamic]
    exact h.sched.queue.dynamic
  · rw [hqueue, hc.log]
    exact h.sched.queue.order
  · rw [hc.cur, hkeep _ hcur]
    exact h.sched.cur
  · rw [hc.cur]
    exact h.sched.only t T (hsome t T hT) hrun
  · rw [hc.idle, hkeep _ hidle]
    exact ⟨I, hI, hIstate⟩
  · rw [hlinks]
    exact h.nodup
  · have hold := hwaits t ht
    rw [hkeep t fun hmem => hfree t hmem (Or.inr hold)]
    exact h.asleep t hold
  · rw [hlinks, hc.cur] at hk
    rw [hc.cur, hc.place]
    exact h.going k hk
  · rw [hlinks] at hk
    rw [hc.cur] at ht
    rw [hc.place]
    exact h.sleeping k t hk ht
  · rw [hc.idle, hc.place]
    exact h.idle

/-- **And the locks and the waiters**, if no closed thread is in the hand of a `__semaphore_up`. -/
theorem KernInv.close (h : KernInv s) (hc : Closed ts s s') (hcur : s.sched.cur ∉ ts)
    (hfree : ∀ t ∈ ts, ¬s.Linked t) (hhand : ∀ t ∈ ts, ¬s.InHand t) : KernInv s' := by
  obtain ⟨-, hlinks⟩ := hc.lists_eq hfree
  have hspares : Spares s s' := by
    refine ⟨hc.waiter,
      fun k w _ => by rw [hc.place], fun k w hw => ?_, fun k w _ l => by rw [hlinks]⟩
    rw [hc.tasks w, if_neg fun hmem => h.not_inHand hw (hhand w hmem) rfl]
  have hq := h.queues.close hc hcur hfree
  exact h.stay hq hspares hc.place hc.locked

/-- **When closing keeps the lists sound**: exactly if no closed thread is on one. -/
theorem queuesSound_iff (h : QueuesInv s) (hc : Closed ts s s') (hcur : s.sched.cur ∉ ts)
    (hhand : ∀ t ∈ ts, ¬s.InHand t) : QueuesSound s' ↔ ∀ t ∈ ts, ¬s.Linked t := by
  refine ⟨fun hsound t ht hlinked => ?_, fun hfree => (h.close hc hcur hfree).queuesSound⟩
  rcases hlinked with hready | hwait
  · -- the node has left the queue, and the queue still counts it
    obtain ⟨T, hT, hstate⟩ := hready.task (hhand t ht)
    have hmem := (h.sched.queue.mem t T.priority).2 ⟨T, hT, hstate, rfl⟩
    have hlength := hsound.length T.priority
    rw [hc.queue, h.sched.queue.length] at hlength
    have heq := List.filter_sublist.eq_of_length hlength.symm
    have hstill := List.filter_eq_self.1 heq t hmem
    exact (of_decide_eq_true hstill) ⟨ht, hready⟩
  · -- the node stays where it is, and its memory is free
    obtain ⟨l, hl⟩ := waits_iff.1 hwait
    obtain ⟨T, hT, hstate⟩ := h.asleep t hwait
    have hnot : ¬(t ∈ ts ∧ TaskReady s t) := by
      rintro ⟨-, hready⟩
      obtain ⟨X, hX, hXstate⟩ := hready.task (hhand t ht)
      rw [hT, Option.some.injEq] at hX
      exact hstate (hX ▸ hXstate)
    have hstill : t ∈ s'.on (.wait l) := by
      refine mem_list.2 ?_
      rw [hc.links]
      exact List.mem_filter.2 ⟨hl, decide_eq_true hnot⟩
    exact hsound.freed _ t hstill (by rw [hc.tasks t, if_pos ht])

end Closing

/-! ## The events -/

/-- Nodes on wait lists are left alone, and no closed thread is on a list or in the hand of a
`__semaphore_up`. -/
def ClosesUnlinked (s : TaskTable) (e : TaskEvent) : Prop :=
  (∀ t ∈ closedBy s e, ¬s.kern.Linked t ∧ ¬s.kern.InHand t) ∧
    match e with
    | .kern e => Undisturbed s.kern e
    | _ => True

instance (s : TaskTable) : ∀ e, Decidable (ClosesUnlinked s e)
  | .kern _ => inferInstanceAs (Decidable (_ ∧ _))
  | .pthreadStart _ => inferInstanceAs (Decidable (_ ∧ True))
  | .setCancelType _ => inferInstanceAs (Decidable (_ ∧ True))
  | .closeOtherThreads => inferInstanceAs (Decidable (_ ∧ True))
  | .threadCancel _ => inferInstanceAs (Decidable (_ ∧ True))

/-- The event is an exit, an exec, or a cancellation. -/
def TaskEvent.Closes : TaskEvent → Prop
  | .closeOtherThreads => True
  | .threadCancel _ => True
  | _ => False

section Events

variable {s s' : TaskTable}

/-- Nobody closes the current task. -/
theorem cur_not_mem_closedBy (s : TaskTable) (e : TaskEvent) : s.kern.sched.cur ∉ closedBy s e := by
  cases e with
  | kern e => exact List.not_mem_nil
  | pthreadStart t => exact List.not_mem_nil
  | setCancelType async => exact List.not_mem_nil
  | closeOtherThreads =>
      intro hmem
      have hne := (of_decide_eq_true (List.mem_filter.1 hmem).2).2
      exact hne rfl
  | threadCancel pid =>
      intro hmem
      have htarget := Option.mem_toList.1 hmem
      obtain ⟨-, hkeep⟩ := Option.filter_eq_some_iff.1 htarget
      obtain ⟨-, hne⟩ := Bool.and_eq_true_iff.1 hkeep
      exact of_decide_eq_true hne rfl

/-- **A closing event** closes exactly the threads it is said to. -/
theorem tstep_closed {e : TaskEvent} (he : e.Closes) (hrun : tstep s e = some s') :
    Closed (closedBy s e) s.kern s'.kern := by
  cases e with
  | kern e => exact he.elim
  | pthreadStart t => exact he.elim
  | setCancelType async => exact he.elim
  | closeOtherThreads =>
      rw [tstep] at hrun
      split_ifs at hrun
      cases hrun
      exact foldl_closed _ s
  | threadCancel pid =>
      rw [tstep] at hrun
      split_ifs at hrun
      cases hrun
      unfold sysThreadCancel closedBy
      dsimp only
      cases hc : cancelTarget s pid with
      | none => exact .nil s.kern
      | some t => exact procCloseOneThread_closed s t

/-- **Every event keeps the invariant.** -/
theorem tstep_inv (s : TaskTable) (e : TaskEvent) (s' : TaskTable) (h : KernInv s.kern)
    (hgood : ClosesUnlinked s e) (hrun : tstep s e = some s') : KernInv s'.kern := by
  cases e with
  | kern e =>
      obtain ⟨kern, hkern, rfl⟩ := Option.map_eq_some_iff.1 hrun
      have hinv := kstep_inv s.kern e kern h hgood.2 hkern
      cases e <;> exact hinv
  | pthreadStart t =>
      rw [tstep] at hrun
      split_ifs at hrun
      obtain ⟨kern, hkern, rfl⟩ := Option.map_eq_some_iff.1 hrun
      exact kstep_inv s.kern (.create t taskPrioLevelNormal) kern h ⟨False.elim, trivial⟩ hkern
  | setCancelType async =>
      rw [tstep] at hrun
      split_ifs at hrun
      cases hrun
      exact h
  | closeOtherThreads =>
      exact h.close (tstep_closed (e := .closeOtherThreads) trivial hrun) (cur_not_mem_closedBy s _)
        (fun t ht => (hgood.1 t ht).1) fun t ht => (hgood.1 t ht).2
  | threadCancel pid =>
      exact h.close (tstep_closed (e := .threadCancel pid) trivial hrun) (cur_not_mem_closedBy s _)
        (fun t ht => (hgood.1 t ht).1) fun t ht => (hgood.1 t ht).2

end Events

/-! ## The main result -/

end WaitQueue
end LightOS
