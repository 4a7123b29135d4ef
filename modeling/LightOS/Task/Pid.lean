import LightOS.Lib.Run

/-!
# Process ids

`task_take_pid` and `task_rollback_pid` of `task/task.c`, and the calls that make tasks:
`task_create`, `process_create`, `pthread_start` and `sys_fork`.  Each takes a pid when it
has the memory for the task structure, goes on to set the task up, and then links it into
`task_global_list` or fails.  In between other tasks may run, so the calls are two steps:
`begin`, and `link` or `fail`.  A call that fails before it has taken a pid leaves no trace
here.

Of the four only `sys_fork` gives its pid back when it fails, and it does so by counting
down: whoever took a pid in the meantime has the number that is handed out next.

* `PidInv` — pids in use are different, and below the counter.
* `pids_unique` — in every run in which no `sys_fork` counts down to a pid in use, and the
  counter does not overflow, no two tasks have the same pid.
-/

namespace LightOS
namespace Pid

/-! ## The model -/

/-- The calls that make a task; `init` is `process_create` with `PROC_CREATE_INIT`. -/
inductive Maker where
  | taskCreate
  | processCreate
  | init
  | pthreadStart
  | fork
  deriving DecidableEq, Repr

/-- A call in progress: who makes it, which call it is, and the pid of the new task. -/
structure Making where
  caller : ℕ
  maker : Maker
  pid : ℤ
  deriving DecidableEq, Repr

/-- `task_next_pid`, the pids of the tasks on `task_global_list`, the calls in progress, and
whether the INIT process has been started. -/
structure PidState where
  taskNextPid : ℤ
  taskGlobalList : List ℤ
  making : List Making
  initStarted : Bool

/-- `USER_INIT_PROC_ID`. -/
abbrev userInitProcId : ℤ := 1

/-- A value in an `int`. -/
def wrapPid (n : ℤ) : ℤ := (n + 2147483648) % 4294967296 - 2147483648

/-- `task_take_pid`. -/
def taskTakePid (s : PidState) : PidState × ℤ :=
  ({ s with taskNextPid := wrapPid (s.taskNextPid + 1) }, s.taskNextPid)

/-- `task_rollback_pid`. -/
def taskRollbackPid (s : PidState) : PidState :=
  { s with taskNextPid := wrapPid (s.taskNextPid - 1) }

/-- The beginning of a call: `task_init` or `copy_struct_and_kstack` takes a pid, and the INIT
process gets its own instead. -/
def begin_ (s : PidState) (c : ℕ) (m : Maker) : PidState :=
  let (s, pid) := taskTakePid s
  { s with
    making := ⟨c, m, if m = .init then userInitProcId else pid⟩ :: s.making
    initStarted := s.initStarted || m = .init }

/-- The call is over. -/
def PidState.over (s : PidState) (c : ℕ) : PidState :=
  { s with making := s.making.eraseP fun g => g.caller = c }

/-- `task_add_to_global_list`, and the end of a call that succeeds. -/
def link (s : PidState) (g : Making) : PidState :=
  { s.over g.caller with taskGlobalList := s.taskGlobalList ++ [g.pid] }

/-- The end of a call that fails: the way back of `copy_task` ends in `task_rollback_pid`, the
other calls just free the task structure. -/
def fail (s : PidState) (g : Making) : PidState :=
  if g.maker = .fork then taskRollbackPid (s.over g.caller) else s.over g.caller

/-- The call that a task is in. -/
def PidState.call (s : PidState) (c : ℕ) : Option Making := s.making.find? fun g => g.caller = c

/-- What can happen: a call begins, is over, or a task is freed (`task_free`). -/
inductive PidEvent where
  | begin_ (c : ℕ) (m : Maker)
  | link (c : ℕ)
  | fail (c : ℕ)
  | taskFree (i : ℕ)

/-- One event.  The INIT process is started once, at boot. -/
def pidStep (s : PidState) : PidEvent → Option PidState
  | .begin_ c m =>
      if s.call c ≠ none ∨ (m = .init ∧ s.initStarted = true) then none else some (begin_ s c m)
  | .link c => (s.call c).map (link s)
  | .fail c => (s.call c).map (fail s)
  | .taskFree i => some { s with taskGlobalList := s.taskGlobalList.eraseIdx i }

/-- `tasks_init`: the idle task has pid 0, and pid 1 is kept for INIT. -/
def tasksInit : PidState where
  taskNextPid := 2
  taskGlobalList := [0]
  making := []
  initStarted := false

/-! ## The condition -/

/-- The counter does not overflow, and a `sys_fork` that fails counts down to a pid that no task
and no other call has. -/
def PidOk (s : PidState) : PidEvent → Prop
  | .begin_ _ _ => s.taskNextPid < 2147483647
  | .fail c =>
      (∃ g ∈ s.call c, g.maker = .fork) →
        s.taskNextPid - 1 ∉ s.taskGlobalList ∧
          ∀ g ∈ s.making, g.caller ≠ c → g.pid ≠ s.taskNextPid - 1
  | _ => True

instance (s : PidState) (e : PidEvent) : Decidable (PidOk s e) := by
  unfold PidOk
  cases e with
  | begin_ c m => infer_instance
  | link c => infer_instance
  | taskFree i => infer_instance
  | fail c =>
    simp only
    haveI : Decidable (∃ g ∈ s.call c, g.maker = .fork) :=
      match h : s.call c with
      | none => isFalse (by simp)
      | some g => decidable_of_iff (g.maker = .fork) (by simp)
    infer_instance

/-! ## The invariant -/

/-- The pids in use. -/
def PidState.used (s : PidState) : List ℤ := s.taskGlobalList ++ s.making.map Making.pid

/-- Pids in use are different from each other and below the counter, and the pid of INIT is
not handed out. -/
structure PidInv (s : PidState) : Prop where
  nodup : s.used.Nodup
  below : ∀ p ∈ s.used, p < s.taskNextPid
  counter : 2 ≤ s.taskNextPid ∧ s.taskNextPid ≤ 2147483647
  callers : (s.making.map Making.caller).Nodup
  forked : ∀ g ∈ s.making, g.maker = .fork → 2 ≤ g.pid
  init : s.initStarted = false → userInitProcId ∉ s.used

variable {s s' : PidState} {c : ℕ} {g : Making}

theorem wrapPid_of_fits {n : ℤ} (h : -2147483648 ≤ n ∧ n ≤ 2147483647) : wrapPid n = n := by
  unfold wrapPid
  omega

theorem pidInv_tasksInit : PidInv tasksInit where
  nodup := by decide
  below := by decide
  counter := by decide
  callers := by decide
  forked := by decide
  init := by decide

/-! ## Steps -/

/-- A call that is in progress, and the others. -/
theorem making_perm (h : s.call c = some g) :
    g.caller = c ∧ s.making.Perm (g :: (s.over c).making) := by
  obtain ⟨hg, before, after, hsplit, hbefore⟩ := List.find?_eq_some_iff_append.1 h
  refine ⟨by simpa using hg, ?_⟩
  have hskip : ∀ x ∈ before, ¬ decide (x.caller = c) = true := by
    intro x hx
    simpa using hbefore x hx
  have hover : (s.over c).making = before ++ after := by
    show s.making.eraseP _ = _
    rw [hsplit, List.eraseP_append_right _ hskip, List.eraseP_cons, hg, cond_true]
  rw [hover, hsplit]
  exact List.perm_middle

theorem used_perm (h : s.call c = some g) : s.used.Perm (g.pid :: (s.over c).used) := by
  have hmap := (making_perm h).2.map Making.pid
  rw [List.map_cons] at hmap
  exact (hmap.append_left s.taskGlobalList).trans List.perm_middle

/-- Without one of the calls the invariant holds as well. -/
theorem PidInv.over (h : PidInv s) (hg : s.call c = some g) :
    PidInv (s.over c) ∧ g.pid ∉ (s.over c).used := by
  have hperm := used_perm hg
  have hmaking := (making_perm hg).2
  obtain ⟨hfresh, hnodup⟩ := List.nodup_cons.1 (hperm.nodup_iff.1 h.nodup)
  have hsub : ∀ p ∈ (s.over c).used, p ∈ s.used := fun p hp =>
    hperm.mem_iff.2 (List.mem_cons_of_mem _ hp)
  have hcallers := (hmaking.map Making.caller).nodup_iff.1 h.callers
  refine ⟨⟨hnodup, fun p hp => h.below p (hsub p hp), h.counter, ?_, fun g' hg' => ?_, ?_⟩, hfresh⟩
  · exact (List.nodup_cons.1 hcallers).2
  · exact h.forked g' (hmaking.mem_iff.2 (List.mem_cons_of_mem _ hg'))
  · exact fun hinit hmem => h.init hinit (hsub _ hmem)

/-- A call takes its pid. -/
theorem PidInv.begin_ (h : PidInv s) {m : Maker} (hidle : s.call c = none)
    (hinit : ¬(m = .init ∧ s.initStarted = true)) (hlimit : s.taskNextPid < 2147483647) :
    PidInv (begin_ s c m) := by
  obtain ⟨hlow, hhigh⟩ := h.counter
  have hnext : wrapPid (s.taskNextPid + 1) = s.taskNextPid + 1 := wrapPid_of_fits (by omega)
  set pid := if m = .init then userInitProcId else s.taskNextPid with hpid
  have hused : (Pid.begin_ s c m).used = s.taskGlobalList ++ pid :: s.making.map Making.pid := rfl
  have hmem : ∀ p, p ∈ (Pid.begin_ s c m).used ↔ p = pid ∨ p ∈ s.used := by
    intro p
    rw [hused, List.perm_middle.mem_iff, List.mem_cons]
    rfl
  have hfresh : pid ∉ s.used := by
    by_cases hm : m = .init
    · rw [hpid, if_pos hm]
      exact h.init (by simpa [hm] using hinit)
    · rw [hpid, if_neg hm]
      exact fun hmem => lt_irrefl _ (h.below _ hmem)
  have hcaller : c ∉ s.making.map Making.caller := by
    intro hmem
    obtain ⟨g, hg, hgc⟩ := List.mem_map.1 hmem
    have hnone := List.find?_eq_none.1 hidle g hg
    exact hnone (by simpa using hgc)
  refine ⟨?_, fun p hp => ?_, ?_, ?_, fun g hg hfork => ?_, fun hstarted hmem' => ?_⟩
  · rw [hused]
    exact List.nodup_middle.2 (List.nodup_cons.2 ⟨hfresh, h.nodup⟩)
  · show p < wrapPid (s.taskNextPid + 1)
    rw [hnext]
    obtain rfl | hp := (hmem p).1 hp
    · rw [hpid]
      split_ifs
      · show 1 < _
        omega
      · omega
    · have := h.below p hp
      omega
  · show 2 ≤ wrapPid (s.taskNextPid + 1) ∧ wrapPid (s.taskNextPid + 1) ≤ 2147483647
    omega
  · exact List.nodup_cons.2 ⟨hcaller, h.callers⟩
  · obtain rfl | hg := List.mem_cons.1 hg
    · have hm : m ≠ .init := by
        rintro rfl
        cases hfork
      show 2 ≤ if m = .init then userInitProcId else s.taskNextPid
      rw [if_neg hm]
      exact hlow
    · exact h.forked g hg hfork
  · have hnot : s.initStarted = false ∧ m ≠ .init := by
      simpa [Pid.begin_, taskTakePid] using hstarted
    obtain heq | hmem' := (hmem _).1 hmem'
    · rw [hpid, if_neg hnot.2] at heq
      have hone : (1 : ℤ) = s.taskNextPid := heq
      omega
    · exact h.init hnot.1 hmem'

/-- The new task is linked. -/
theorem PidInv.link (h : PidInv s) (hg : s.call c = some g) : PidInv (link s g) := by
  obtain ⟨hover, hfresh⟩ := h.over hg
  have hgc : g.caller = c := (making_perm hg).1
  have hused : (Pid.link s g).used.Perm s.used := by
    refine List.Perm.trans ?_ (used_perm hg).symm
    show ((s.taskGlobalList ++ [g.pid]) ++ (s.over g.caller).making.map Making.pid).Perm _
    rw [hgc, List.append_assoc]
    exact List.perm_middle
  have hmaking : (Pid.link s g).making = (s.over c).making := by rw [← hgc]; rfl
  refine ⟨hused.nodup_iff.2 h.nodup, fun p hp => h.below p (hused.mem_iff.1 hp), h.counter, ?_,
    fun g' hg' => ?_, fun hinit hmem => h.init hinit (hused.mem_iff.1 hmem)⟩
  · rw [hmaking]
    exact hover.callers
  · rw [hmaking] at hg'
    exact hover.forked g' hg'

/-- A call fails: the counter goes down only to a pid that is not in use. -/
theorem PidInv.fail (h : PidInv s) (hg : s.call c = some g) (hcond : PidOk s (.fail c)) :
    PidInv (fail s g) := by
  obtain ⟨hover, -⟩ := h.over hg
  obtain ⟨hgc, hmaking⟩ := making_perm hg
  unfold Pid.fail
  rw [hgc]
  split_ifs with hfork
  · have hgmem : g ∈ s.making := hmaking.mem_iff.2 List.mem_cons_self
    have hlow : 2 ≤ g.pid := h.forked g hgmem hfork
    have hbelow : g.pid < s.taskNextPid :=
      h.below g.pid ((used_perm hg).mem_iff.2 List.mem_cons_self)
    obtain ⟨-, hhigh⟩ := h.counter
    have hnext : wrapPid (s.taskNextPid - 1) = s.taskNextPid - 1 := wrapPid_of_fits (by omega)
    obtain ⟨hlist, hothers⟩ := hcond ⟨g, hg, hfork⟩
    have hcallers := (hmaking.map Making.caller).nodup_iff.1 h.callers
    have hfree : s.taskNextPid - 1 ∉ (s.over c).used := by
      intro hmem
      obtain hmem | hmem := List.mem_append.1 hmem
      · exact hlist hmem
      · obtain ⟨g', hg', hpid⟩ := List.mem_map.1 hmem
        have hne : g'.caller ≠ c := by
          intro heq
          have hmem : g'.caller ∈ (s.over c).making.map Making.caller := List.mem_map_of_mem hg'
          rw [heq.trans hgc.symm] at hmem
          exact (List.nodup_cons.1 hcallers).1 hmem
        exact hothers g' (hmaking.mem_iff.2 (List.mem_cons_of_mem _ hg')) hne hpid
    refine ⟨hover.nodup, fun p hp => ?_, ?_, hover.callers, hover.forked, hover.init⟩
    · show p < wrapPid (s.taskNextPid - 1)
      have hlt : p < s.taskNextPid := hover.below p hp
      have hne : p ≠ s.taskNextPid - 1 := fun heq => hfree (heq ▸ hp)
      omega
    · show 2 ≤ wrapPid (s.taskNextPid - 1) ∧ wrapPid (s.taskNextPid - 1) ≤ 2147483647
      omega
  · exact hover

/-- A task is freed. -/
theorem PidInv.taskFree (h : PidInv s) (i : ℕ) :
    PidInv { s with taskGlobalList := s.taskGlobalList.eraseIdx i } := by
  have hsub : (s.taskGlobalList.eraseIdx i ++ s.making.map Making.pid).Sublist s.used :=
    (List.eraseIdx_sublist s.taskGlobalList i).append_right _
  exact ⟨h.nodup.sublist hsub, fun p hp => h.below p (hsub.subset hp), h.counter, h.callers,
    h.forked, fun hinit hmem => h.init hinit (hsub.subset hmem)⟩

theorem pidInv_step (s : PidState) (e : PidEvent) (s' : PidState) (h : PidInv s) (hcond : PidOk s e)
    (hstep : pidStep s e = some s') : PidInv s' := by
  cases e with
  | begin_ c m =>
    simp only [pidStep, Option.ite_none_left_eq_some, Option.some.injEq, not_or, not_not] at hstep
    obtain ⟨⟨hidle, hinit⟩, rfl⟩ := hstep
    exact h.begin_ hidle hinit hcond
  | link c =>
    obtain ⟨g, hg, rfl⟩ := Option.map_eq_some_iff.1 hstep
    exact h.link hg
  | fail c =>
    obtain ⟨g, hg, rfl⟩ := Option.map_eq_some_iff.1 hstep
    exact h.fail hg hcond
  | taskFree i =>
    cases hstep
    exact h.taskFree i

/-- **Live pids are unique**, in every run in which no `sys_fork` that fails counts down to a
pid in use, and the counter does not overflow. -/
theorem pids_unique (events : List PidEvent) (s : PidState)
    (hrun : Run.exec pidStep tasksInit events = some s)
    (hcond : Run.Along pidStep PidOk tasksInit events) : s.taskGlobalList.Nodup :=
  (List.nodup_append.1
    (Run.exec_invariant pidInv_step events _ s pidInv_tasksInit hcond hrun).nodup).1

/-- INIT and a thread; a fork that fails while a kernel thread is made and fails as well; and a
fork that succeeds. -/
theorem pids_unique_forks :
    ∃ s, Run.exec pidStep tasksInit
        [.begin_ 0 .init, .link 0, .begin_ 1 .pthreadStart, .link 1, .begin_ 4 .fork,
          .begin_ 0 .taskCreate, .fail 0, .fail 4, .begin_ 1 .fork, .link 1, .taskFree 2,
          .begin_ 0 .processCreate, .link 0] = some s ∧ s.taskGlobalList = [0, 1, 5, 6] ∧
      s.taskGlobalList.Nodup := by
  have hrun : (Run.exec pidStep tasksInit
      [.begin_ 0 .init, .link 0, .begin_ 1 .pthreadStart, .link 1, .begin_ 4 .fork,
        .begin_ 0 .taskCreate, .fail 0, .fail 4, .begin_ 1 .fork, .link 1, .taskFree 2,
        .begin_ 0 .processCreate, .link 0]).map PidState.taskGlobalList = some [0, 1, 5, 6] := by
    decide +kernel
  obtain ⟨s, hs, hlist⟩ := Option.map_eq_some_iff.1 hrun
  exact ⟨s, hs, hlist, pids_unique _ s hs (by decide +kernel)⟩

/-- A fork has taken pid 3 and blocks; a kernel thread is made with pid 4; the fork fails and
counts down to 4, and the next task gets pid 4 as well. -/
theorem pids_not_unique :
    ∃ s, Run.exec pidStep tasksInit
        [.begin_ 0 .init, .link 0, .begin_ 1 .fork, .begin_ 0 .taskCreate, .link 0, .fail 1,
          .begin_ 1 .processCreate, .link 1] = some s ∧ ¬ s.taskGlobalList.Nodup := by
  have hrun : (Run.exec pidStep tasksInit
      [.begin_ 0 .init, .link 0, .begin_ 1 .fork, .begin_ 0 .taskCreate, .link 0, .fail 1,
        .begin_ 1 .processCreate, .link 1]).map PidState.taskGlobalList = some [0, 1, 4, 4] := by
    decide +kernel
  obtain ⟨s, hs, hlist⟩ := Option.map_eq_some_iff.1 hrun
  exact ⟨s, hs, by rw [hlist]; decide⟩

end Pid
end LightOS
