import LightOS.Lib.Run
import LightOS.Task.ScheduleBasic

/-!
# The scheduler: queues and the order of dispatch

* `QueueInv` — what is true of the queues whoever runs.
* `push_inv`, `pop_inv` — a task is queued, a task is fetched.
* `schedStep_inv` — every call keeps the invariant, and the fetch it makes finds a task.
* `sched_ok` — the queues after every run, and the order in which tasks are dispatched.
-/

namespace LightOS
namespace Sched

/-! ## The invariant of the queues -/

/-- The tasks that were queued at a priority, in order. -/
def readied (log : List SchedEvent) (p : ℕ) : List ℕ :=
  log.filterMap fun
    | .ready task q => if q = p then some task else none
    | .dispatch _ _ => none

/-- The tasks that were fetched from the queue of a priority, in order. -/
def dispatched (log : List SchedEvent) (p : ℕ) : List ℕ :=
  log.filterMap fun
    | .ready _ _ => none
    | .dispatch task q => if q = p then some task else none

/-- The sum of the lengths of the queues. -/
def SchedState.total (s : SchedState) : ℕ :=
  ∑ p ∈ Finset.range taskPriorityMaxNr, (s.priorityQueue p).length

/-- The queues and the tasks agree. -/
structure QueueInv (s : SchedState) : Prop where
  length : ∀ p, (s.priorityQueue p).length = (s.priorityQueue p).list.length
  tasknr : s.tasknr = s.total
  nodup : ∀ p, (s.priorityQueue p).list.Nodup
  mem : ∀ t p, t ∈ (s.priorityQueue p).list ↔
    ∃ T, s.tasks t = some T ∧ T.state = .ready ∧ T.priority = p
  above : ∀ p, s.dynamicPriority < p → (s.priorityQueue p).list = []
  dynamic : s.dynamicPriority < taskPriorityMaxNr
  priority : ∀ t T, s.tasks t = some T →
    T.priority < taskPriorityMaxNr ∧ T.staticPriority < taskPriorityMaxNr
  order : ∀ p, readied s.log p = dispatched s.log p ++ (s.priorityQueue p).list

section Queue

variable {s s' : SchedState} {t p : ℕ} {T : Task}

@[simp] theorem setTask_self : (s.setTask t T).tasks t = some T := Function.update_self ..

theorem setTask_of_ne {x : ℕ} (h : x ≠ t) : (s.setTask t T).tasks x = s.tasks x :=
  Function.update_of_ne h ..

/-- A task that is not ready is on no queue. -/
theorem QueueInv.not_mem (h : QueueInv s) (hT : ∀ T, s.tasks t = some T → T.state ≠ .ready)
    (p : ℕ) :
    t ∉ (s.priorityQueue p).list := by
  intro hmem
  obtain ⟨T, htask, hready, -⟩ := (h.mem t p).1 hmem
  exact hT T htask hready

/-- A task that is not ready changes to another state it is not ready in. -/
theorem QueueInv.setTask (h : QueueInv s) (hold : ∀ T, s.tasks t = some T → T.state ≠ .ready)
    (hnew : T.state ≠ .ready)
    (hprio : T.priority < taskPriorityMaxNr ∧ T.staticPriority < taskPriorityMaxNr) :
    QueueInv (s.setTask t T) := by
  refine ⟨h.length, h.tasknr, h.nodup, fun x p => ?_, h.above, h.dynamic, fun x X hX => ?_, h.order⟩
  · by_cases hx : x = t
    · subst hx
      refine ⟨fun hmem => absurd hmem (h.not_mem hold p), ?_⟩
      rintro ⟨X, hX, hready, -⟩
      rw [setTask_self, Option.some.injEq] at hX
      rw [← hX] at hready
      exact absurd hready hnew
    · rw [setTask_of_ne hx]
      exact h.mem x p
  · by_cases hx : x = t
    · rw [hx, setTask_self, Option.some.injEq] at hX
      rw [← hX]
      exact hprio
    · rw [setTask_of_ne hx] at hX
      exact h.priority x X hX

theorem total_update (f : ℕ → SchedQueue) {p : ℕ} (hp : p < taskPriorityMaxNr) (q : SchedQueue) :
    ∑ i ∈ Finset.range taskPriorityMaxNr, (Function.update f p q i).length + (f p).length =
      ∑ i ∈ Finset.range taskPriorityMaxNr, (f i).length + q.length := by
  have hmem : p ∈ Finset.range taskPriorityMaxNr := Finset.mem_range.2 hp
  rw [← Finset.add_sum_erase _ _ hmem, ← Finset.add_sum_erase _ (fun i => (f i).length) hmem,
    Function.update_self]
  have hrest : ∑ i ∈ (Finset.range taskPriorityMaxNr).erase p, (Function.update f p q i).length =
      ∑ i ∈ (Finset.range taskPriorityMaxNr).erase p, (f i).length := by
    apply Finset.sum_congr rfl
    intro i hi
    rw [Function.update_of_ne (Finset.ne_of_mem_erase hi)]
  rw [hrest]
  omega

theorem readied_append (log : List SchedEvent) (e : SchedEvent) (p : ℕ) :
    readied (log ++ [e]) p = readied log p ++ readied [e] p := List.filterMap_append ..

theorem dispatched_append (log : List SchedEvent) (e : SchedEvent) (p : ℕ) :
    dispatched (log ++ [e]) p = dispatched log p ++ dispatched [e] p := List.filterMap_append ..

/-- **A task becomes ready** and goes to the end of the queue of its priority. -/
theorem push_inv (h : QueueInv s) (hold : ∀ T, s.tasks t = some T → T.state ≠ .ready)
    (hnew : T.state = .ready)
    (hprio : T.priority < taskPriorityMaxNr ∧ T.staticPriority < taskPriorityMaxNr) :
    schedQueueAddTail (s.setTask t T) t = some ((s.setTask t T).push t T.priority) ∧
      QueueInv ((s.setTask t T).push t T.priority) := by
  have hnot := h.not_mem hold
  constructor
  · rw [schedQueueAddTail, setTask_self, Option.bind_some]
    exact if_neg (hnot T.priority)
  have hqueue : ∀ q, ((s.setTask t T).push t T.priority).priorityQueue q =
      if q = T.priority then ⟨(s.priorityQueue q).list ++ [t], (s.priorityQueue q).length + 1⟩
      else s.priorityQueue q := by
    intro q
    by_cases hq : q = T.priority
    · rw [if_pos hq, hq]
      exact Function.update_self ..
    · rw [if_neg hq]
      exact Function.update_of_ne hq ..
  refine ⟨fun q => ?_, ?_, fun q => ?_, fun x q => ?_, fun q hq => ?_, ?_, fun x X hX => ?_,
    fun q => ?_⟩
  · rw [hqueue]
    split_ifs
    · simp [h.length q]
    · exact h.length q
  · have hsum := total_update s.priorityQueue hprio.1
      ⟨(s.priorityQueue T.priority).list ++ [t], (s.priorityQueue T.priority).length + 1⟩
    have hold := h.tasknr
    unfold SchedState.total at hold ⊢
    simp only [SchedState.push, SchedState.setTask] at hsum ⊢
    omega
  · rw [hqueue]
    split_ifs
    · rw [← List.concat_eq_append]
      exact (h.nodup q).concat (hnot q)
    · exact h.nodup q
  · show _ ↔ ∃ X, (s.setTask t T).tasks x = some X ∧ X.state = .ready ∧ X.priority = q
    rw [hqueue]
    by_cases hx : x = t
    · subst hx
      simp only [setTask_self, Option.some.injEq, exists_eq_left', hnew, true_and]
      split_ifs with hq
      · simp [hq]
      · exact ⟨fun hmem => absurd hmem (hnot q), fun heq => absurd heq.symm hq⟩
    · rw [setTask_of_ne hx, ← h.mem x q]
      split_ifs
      · simp [hx]
      · rfl
  · have hdyn : (if s.dynamicPriority < T.priority then T.priority else s.dynamicPriority) < q := hq
    rw [hqueue, if_neg (by split_ifs at hdyn <;> omega)]
    exact h.above q (by split_ifs at hdyn <;> omega)
  · have hdyn := h.dynamic
    show (if s.dynamicPriority < T.priority then T.priority else s.dynamicPriority) < _
    split_ifs
    · exact hprio.1
    · exact hdyn
  · by_cases hx : x = t
    · have hX : (s.setTask t T).tasks x = some X := hX
      rw [hx, setTask_self, Option.some.injEq] at hX
      rw [← hX]
      exact hprio
    · have hX : (s.setTask t T).tasks x = some X := hX
      rw [setTask_of_ne hx] at hX
      exact h.priority x X hX
  · rw [hqueue]
    show readied (s.log ++ [.ready t T.priority]) q =
      dispatched (s.log ++ [.ready t T.priority]) q ++ _
    rw [readied_append, dispatched_append, h.order q]
    by_cases hq : q = T.priority
    · simp [readied, dispatched, hq]
    · simp [readied, dispatched, hq, Ne.symm hq]

/-- Where the walk of `sched_queue_fetch_first` ends. -/
theorem fetchLevel_spec (queue : ℕ → SchedQueue) :
    ∀ d, (∃ p ≤ d, (queue p).length ≠ 0) →
      ∃ e ≤ d, fetchLevel queue d = some e ∧ (queue e).length ≠ 0 ∧
        ∀ p, e < p → p ≤ d → (queue p).length = 0 := by
  intro d
  induction d with
  | zero =>
      rintro ⟨p, hp, hne⟩
      obtain rfl : p = 0 := by omega
      exact ⟨0, le_rfl, by rw [fetchLevel, if_neg hne], hne, fun q hq hq' => by omega⟩
  | succ d ih =>
      rintro ⟨p, hp, hne⟩
      by_cases hzero : (queue (d + 1)).length = 0
      · have hpd : p ≠ d + 1 := by
          rintro rfl
          exact hne hzero
        obtain ⟨e, he, hfetch, hlen, habove⟩ := ih ⟨p, by omega, hne⟩
        refine ⟨e, by omega, by rw [fetchLevel, if_pos hzero, hfetch], hlen, fun q hq hq' => ?_⟩
        by_cases hqd : q = d + 1
        · rw [hqd, hzero]
        · exact habove q hq (by omega)
      · exact ⟨d + 1, le_rfl, by rw [fetchLevel, if_neg hzero], hzero, fun q hq hq' => by omega⟩

/-- **A fetch** returns the first task of the highest queue that is not empty. -/
structure Fetches (s : SchedState) (next d : ℕ) : Prop where
  fetch : schedQueueFetchFirst s = some (s.pop next d, next)
  head : (s.priorityQueue d).list.head? = some next
  highest : ∀ p, d < p → (s.priorityQueue p).list = []

theorem fetch_spec (h : QueueInv s) (hsome : ∃ p, (s.priorityQueue p).list ≠ []) :
    ∃ next d, Fetches s next d := by
  obtain ⟨p, hp⟩ := hsome
  have hle : p ≤ s.dynamicPriority := by
    by_contra hlt
    exact hp (h.above p (by omega))
  have hlen : (s.priorityQueue p).length ≠ 0 := by
    rw [h.length, ne_eq, List.length_eq_zero_iff]
    exact hp
  obtain ⟨d, hd, hfetch, hne, habove⟩ :=
    fetchLevel_spec s.priorityQueue s.dynamicPriority ⟨p, hle, hlen⟩
  rw [h.length] at hne
  obtain ⟨next, rest, hlist⟩ := List.exists_cons_of_length_pos (Nat.pos_of_ne_zero hne)
  refine ⟨next, d, ?_, by rw [hlist, List.head?_cons], fun q hq => ?_⟩
  · rw [schedQueueFetchFirst, hfetch, Option.bind_some, hlist, List.head?_cons, Option.map_some]
  · by_cases hqd : q ≤ s.dynamicPriority
    · rw [← List.length_eq_zero_iff, ← h.length, habove q hq hqd]
    · exact h.above q (by omega)

/-- **The fetched task leaves its queue** and is marked as running. -/
theorem pop_inv (h : QueueInv s) {next d : ℕ} (hf : Fetches s next d) :
    ∃ T, s.tasks next = some T ∧ T.state = .ready ∧
      QueueInv ((s.pop next d).setTask next { T with state := .running }) := by
  obtain ⟨rest, hlist⟩ := List.head?_eq_some_iff.1 hf.head
  have hmem : next ∈ (s.priorityQueue d).list := by rw [hlist]; exact List.mem_cons_self ..
  obtain ⟨T, htask, hready, hprio⟩ := (h.mem next d).1 hmem
  have hbound := h.priority next T htask
  have hnodup := h.nodup d
  rw [hlist, List.nodup_cons] at hnodup
  have hqueue : ∀ q, ((s.pop next d).setTask next { T with state := .running }).priorityQueue q =
      if q = d then ⟨rest, (s.priorityQueue q).length - 1⟩ else s.priorityQueue q := by
    intro q
    by_cases hq : q = d
    · rw [if_pos hq, hq]
      refine (Function.update_self ..).trans ?_
      rw [hlist, List.tail_cons]
    · rw [if_neg hq]
      exact Function.update_of_ne hq ..
  have hlen := h.length d
  rw [hlist, List.length_cons] at hlen
  refine ⟨T, htask, hready, fun q => ?_, ?_, fun q => ?_, fun x q => ?_, fun q hq => ?_, ?_,
    fun x X hX => ?_, fun q => ?_⟩
  · rw [hqueue]
    split_ifs with hq
    · subst hq
      simp [hlen]
    · exact h.length q
  · have hsum := total_update s.priorityQueue (show d < taskPriorityMaxNr from hprio ▸ hbound.1)
      ⟨(s.priorityQueue d).list.tail, (s.priorityQueue d).length - 1⟩
    have hold := h.tasknr
    unfold SchedState.total at hold ⊢
    simp only [SchedState.pop, SchedState.setTask] at hsum ⊢
    omega
  · rw [hqueue]
    split_ifs
    · exact hnodup.2
    · exact h.nodup q
  · rw [hqueue]
    by_cases hx : x = next
    · subst hx
      rw [setTask_self]
      simp only [Option.some.injEq, exists_eq_left', reduceCtorEq, false_and, iff_false]
      split_ifs with hq
      · exact hnodup.1
      · intro hmem'
        obtain ⟨X, hX, -, hXq⟩ := (h.mem x q).1 hmem'
        rw [htask, Option.some.injEq] at hX
        exact hq (by rw [← hXq, ← hX, hprio])
    · rw [setTask_of_ne hx]
      show _ ↔ ∃ X, s.tasks x = some X ∧ _
      rw [← h.mem x q]
      split_ifs with hq
      · rw [hq, hlist]
        simp [hx]
      · rfl
  · have hq : d < q := hq
    rw [hqueue, if_neg (by omega)]
    exact hf.highest q hq
  · show d < _
    rw [← hprio]
    exact hbound.1
  · by_cases hx : x = next
    · rw [hx, setTask_self, Option.some.injEq] at hX
      rw [← hX]
      exact hbound
    · rw [setTask_of_ne hx] at hX
      exact h.priority x X hX
  · rw [hqueue]
    show readied (s.log ++ [.dispatch next d]) q = dispatched (s.log ++ [.dispatch next d]) q ++ _
    rw [readied_append, dispatched_append, h.order q]
    by_cases hq : q = d
    · simp [readied, dispatched, hq, hlist]
    · simp [readied, dispatched, hq, Ne.symm hq]

end Queue

/-! ## The invariant of the unit -/

/-- The queues are in order, the current task and no other is running, and the idle task can
run. -/
structure SchedInv (s : SchedState) : Prop where
  queue : QueueInv s
  cur : ∃ T, s.tasks s.cur = some T ∧ T.state = .running
  only : ∀ t T, s.tasks t = some T → T.state = .running → t = s.cur
  idle : ∃ T, s.tasks s.idle = some T ∧ (T.state = .running ∨ T.state = .ready)

section Unit

variable {s : SchedState} {T : Task}

theorem schedCalcBasePriority_lt (level : ℕ) : schedCalcBasePriority level < taskPriorityMaxNr := by
  unfold schedCalcBasePriority
  by_cases h : 5 ≤ level
  · rw [if_pos h]
    decide
  · rw [if_neg h]
    have : level < 5 := by omega
    interval_cases level <;> decide

theorem decayedPriority_lt (h : T.priority < taskPriorityMaxNr ∧
    T.staticPriority < taskPriorityMaxNr) :
    decayedPriority T < taskPriorityMaxNr := by
  unfold decayedPriority
  split_ifs
  · exact h.2
  · omega
  · exact h.1

theorem schedCalcNewPriority_lt
    (h : T.priority < taskPriorityMaxNr ∧ T.staticPriority < taskPriorityMaxNr) :
    ∃ p, schedCalcNewPriority T 1 = some p ∧ p < taskPriorityMaxNr := by
  have hnot : ¬ taskPriorityRealtime < T.priority := by
    unfold taskPriorityRealtime taskPriorityMaxNr at *
    omega
  unfold schedCalcNewPriority
  rw [if_neg hnot]
  by_cases hlow : T.priority < taskPriorityRealtime
  · rw [if_pos hlow]
    refine ⟨_, rfl, ?_⟩
    unfold taskPriorityRealtime taskPriorityMaxNr at *
    split_ifs <;> omega
  · rw [if_neg hlow]
    exact ⟨_, rfl, h.1⟩

/-- With no task running and the idle task on a queue, a task is fetched and runs. -/
theorem dispatch_inv (h : QueueInv s) (hnone : ∀ t T, s.tasks t = some T → T.state ≠ .running)
    (hidle : ∃ T, s.tasks s.idle = some T ∧ T.state = .ready) :
    (∃ next d, Fetches s next d) ∧
      ∃ s', (schedQueueFetchFirst s).bind (fun sn => schedSetNextTask sn.1 sn.2) = some s' ∧
        SchedInv s' := by
  obtain ⟨I, hI, hready⟩ := hidle
  have hmem : s.idle ∈ (s.priorityQueue I.priority).list := (h.mem s.idle _).2 ⟨I, hI, hready, rfl⟩
  obtain ⟨next, d, hf⟩ := fetch_spec h ⟨I.priority, List.ne_nil_of_mem hmem⟩
  obtain ⟨T, htask, -, hinv⟩ := pop_inv h hf
  refine ⟨⟨next, d, hf⟩,
    { s.pop next d with cur := next }.setTask next { T with state := .running }, ?_, ?_⟩
  · rw [hf.fetch, Option.bind_some, schedSetNextTask]
    show Option.map _ (s.tasks next) = _
    rw [htask, Option.map_some]
  · refine ⟨⟨hinv.length, hinv.tasknr, hinv.nodup, hinv.mem, hinv.above, hinv.dynamic,
      hinv.priority, hinv.order⟩, ⟨_, setTask_self, rfl⟩, fun t X hX hrun => ?_, ?_⟩
    · by_contra hne
      have hne : t ≠ next := hne
      rw [setTask_of_ne hne] at hX
      exact hnone t X hX hrun
    · by_cases heq : s.idle = next
      · refine ⟨{ T with state := .running }, ?_, Or.inl rfl⟩
        show (SchedState.setTask _ next _).tasks s.idle = _
        rw [heq, setTask_self]
      · refine ⟨I, ?_, Or.inr hready⟩
        show (SchedState.setTask _ next _).tasks s.idle = _
        rw [setTask_of_ne heq]
        exact hI

end Unit

/-! ## The calls, one by one -/

/-- The idle task never blocks. -/
def IdleStays (s : SchedState) : SchedCall → Prop
  | .block _ => s.cur ≠ s.idle
  | _ => True

instance : ∀ (s : SchedState) (call : SchedCall), Decidable (IdleStays s call)
  | s, .block _ => inferInstanceAs (Decidable (s.cur ≠ s.idle))
  | _, .create _ _ => isTrue trivial
  | _, .unblock _ => isTrue trivial
  | _, .yield => isTrue trivial
  | _, .expire => isTrue trivial

/-- The call ends in `schedule`. -/
def Switches : SchedCall → Prop
  | .block state => state.CanBlock
  | .yield => True
  | .expire => True
  | _ => False

/-- The state in which such a call makes its fetch. -/
def fetchState (s : SchedState) : SchedCall → Option SchedState
  | .block state => requeueCur (s.setCurState state)
  | .yield => requeueCur (s.setCurState .ready)
  | .expire => requeueCur s
  | _ => none

section Calls

variable {s : SchedState} {T : Task}

theorem setCurState_eq (hT : s.tasks s.cur = some T) (state : TaskState) :
    s.setCurState state = s.setTask s.cur { T with state := state } := by
  rw [SchedState.setCurState, hT]

/-- A task that can go on running goes to the end of the queue of its new priority. -/
theorem requeue_runnable (h : SchedInv s) (hT : s.tasks s.cur = some T)
    (hrun : T.state = .running) :
    ∃ u, requeueCur s = some u ∧ requeueCur (s.setCurState .ready) = some u ∧ QueueInv u ∧
      u.tasks = Function.update s.tasks s.cur
        (some { T with state := .ready, priority := decayedPriority T }) ∧ u.idle = s.idle := by
  have hbound := h.queue.priority s.cur T hT
  obtain ⟨hadd, hinv⟩ := push_inv (t := s.cur)
    (T := { T with state := .ready, priority := decayedPriority T }) h.queue
    (fun X hX => by rw [hT, Option.some.injEq] at hX; rw [← hX, hrun]; decide) rfl
    ⟨decayedPriority_lt hbound, hbound.2⟩
  refine ⟨_, ?_, ?_, hinv, rfl, rfl⟩
  · rw [requeueCur, hT, Option.bind_some, if_pos (Or.inl hrun)]
    exact hadd
  · rw [setCurState_eq hT, requeueCur]
    show Option.bind ((s.setTask s.cur _).tasks s.cur) _ = _
    rw [setTask_self, Option.bind_some, if_pos (Or.inr rfl)]
    have hsame : (s.setTask s.cur { T with state := .ready }).setTask s.cur
        { T with state := .ready, priority := decayedPriority T } =
        s.setTask s.cur { T with state := .ready, priority := decayedPriority T } := by
      unfold SchedState.setTask
      rw [Function.update_idem]
    exact (congrArg (fun x => schedQueueAddTail x s.cur) hsame).trans hadd

/-- Once the current task is queued nobody runs, and the idle task is ready. -/
theorem requeued_idle (h : SchedInv s) {u : SchedState} {X : Task} (hX : X.state = .ready)
    (htasks : u.tasks = Function.update s.tasks s.cur (some X)) (hidle : u.idle = s.idle) :
    (∀ t T, u.tasks t = some T → T.state ≠ .running) ∧
      ∃ T, u.tasks u.idle = some T ∧ T.state = .ready := by
  rw [htasks, hidle]
  constructor
  · intro t T ht hrun
    by_cases htc : t = s.cur
    · rw [htc, Function.update_self, Option.some.injEq] at ht
      rw [← ht, hX] at hrun
      cases hrun
    · rw [Function.update_of_ne htc] at ht
      exact htc (h.only t T ht hrun)
  · obtain ⟨I, hI, hstate⟩ := h.idle
    by_cases hic : s.idle = s.cur
    · exact ⟨X, by rw [hic, Function.update_self], hX⟩
    · refine ⟨I, by rw [Function.update_of_ne hic, hI], ?_⟩
      exact hstate.resolve_left fun hrun => hic (h.only s.idle I hI hrun)

/-- A task that blocks leaves the idle task ready. -/
theorem requeue_blocked (h : SchedInv s) (hcur : s.cur ≠ s.idle) {state : TaskState}
    (hstate : state.CanBlock) :
    ∃ u, requeueCur (s.setCurState state) = some u ∧ QueueInv u ∧
      (∀ t T, u.tasks t = some T → T.state ≠ .running) ∧
      ∃ T, u.tasks u.idle = some T ∧ T.state = .ready := by
  obtain ⟨T, hT, hrun⟩ := h.cur
  have hnot : ¬ (state = .running ∨ state = .ready) := by
    rintro (rfl | rfl)
    · exact absurd hstate (by decide)
    · exact absurd hstate (by decide)
  have hold : ∀ X, s.tasks s.cur = some X → X.state ≠ .ready := by
    intro X hX
    rw [hT, Option.some.injEq] at hX
    rw [← hX, hrun]
    decide
  refine ⟨s.setCurState state, ?_, ?_, ?_, ?_⟩
  · rw [setCurState_eq hT, requeueCur]
    show Option.bind ((s.setTask s.cur _).tasks s.cur) _ = _
    rw [setTask_self, Option.bind_some, if_neg hnot]
  · rw [setCurState_eq hT]
    exact h.queue.setTask hold (fun heq => hnot (Or.inr heq)) (h.queue.priority s.cur T hT)
  · rw [setCurState_eq hT]
    intro t X hX hXrun
    by_cases htc : t = s.cur
    · rw [htc, setTask_self, Option.some.injEq] at hX
      rw [← hX] at hXrun
      exact hnot (Or.inl hXrun)
    · rw [setTask_of_ne htc] at hX
      exact htc (h.only t X hX hXrun)
  · rw [setCurState_eq hT]
    obtain ⟨I, hI, hIstate⟩ := h.idle
    refine ⟨I, ?_, hIstate.resolve_left fun hIrun => hcur (h.only s.idle I hI hIrun).symm⟩
    show (s.setTask s.cur _).tasks s.idle = some I
    rw [setTask_of_ne hcur.symm, hI]

theorem schedule_eq (s : SchedState) : schedule s = (requeueCur s).bind fun u =>
    (schedQueueFetchFirst u).bind fun sn => schedSetNextTask sn.1 sn.2 := by
  rw [schedule, getNextTask, Option.bind_assoc]

/-- **A call that switches** finds a task to run and keeps the invariant. -/
theorem switch_spec (h : SchedInv s) {call : SchedCall} (hcall : Switches call)
    (hidle : IdleStays s call) :
    ∃ u next d s', fetchState s call = some u ∧ Fetches u next d ∧ schedStep s call = some s' ∧
      SchedInv s' := by
  obtain ⟨T, hT, hrun⟩ := h.cur
  obtain ⟨v, hexpire, hyield, hv, htasks, hvidle⟩ := requeue_runnable h hT hrun
  obtain ⟨hnone, hready⟩ := requeued_idle h rfl htasks hvidle
  cases call with
  | create task level => cases hcall
  | unblock task => cases hcall
  | block state =>
      obtain ⟨u, hu, hinv, hnone, hready⟩ := requeue_blocked h hidle hcall
      obtain ⟨⟨next, d, hf⟩, s', hrun, hinv'⟩ := dispatch_inv hinv hnone hready
      refine ⟨u, next, d, s', hu, hf, ?_, hinv'⟩
      have hcan : state.CanBlock := hcall
      rw [schedStep, taskBlock, if_pos hcan, schedule_eq, hu, Option.bind_some, hrun]
  | yield =>
      obtain ⟨⟨next, d, hf⟩, s', hrun, hinv'⟩ := dispatch_inv hv hnone hready
      refine ⟨v, next, d, s', hyield, hf, ?_, hinv'⟩
      rw [schedStep, taskYield, schedule_eq, hyield, Option.bind_some, hrun]
  | expire =>
      obtain ⟨⟨next, d, hf⟩, s', hrun, hinv'⟩ := dispatch_inv hv hnone hready
      refine ⟨v, next, d, s', hexpire, hf, ?_, hinv'⟩
      rw [schedStep, schedule_eq, hexpire, Option.bind_some, hrun]

/-- Who runs after a fetch was ready before it, and nobody else changes. -/
theorem dispatch_frame {u s' : SchedState} (hu : QueueInv u)
    (hrun : ((schedQueueFetchFirst u).bind fun sn => schedSetNextTask sn.1 sn.2) = some s') :
    (∃ X, u.tasks s'.cur = some X ∧ X.state = .ready) ∧ s'.idle = u.idle ∧
      ∀ t, t ≠ s'.cur → s'.tasks t = u.tasks t := by
  obtain ⟨sn, hfetch, hset⟩ := Option.bind_eq_some_iff.1 hrun
  rw [schedQueueFetchFirst] at hfetch
  obtain ⟨d, -, hmap⟩ := Option.bind_eq_some_iff.1 hfetch
  obtain ⟨next, hhead, rfl⟩ := Option.map_eq_some_iff.1 hmap
  rw [schedSetNextTask] at hset
  obtain ⟨X, -, rfl⟩ := Option.map_eq_some_iff.1 hset
  obtain ⟨Y, hY, hready, -⟩ := (hu.mem next d).1 (List.mem_of_mem_head? hhead)
  exact ⟨⟨Y, hY, hready⟩, rfl, fun t ht => setTask_of_ne ht⟩

/-- **Who is asleep sleeps on** while the processor goes to another task. -/
theorem schedule_frame (h : SchedInv s) {s' : SchedState} (hrun : schedule s = some s') :
    s'.idle = s.idle ∧ ∀ t X, s.tasks t = some X → X.state ≠ .ready → t ≠ s.cur →
      s'.tasks t = some X ∧ t ≠ s'.cur := by
  obtain ⟨T, hT, hTrun⟩ := h.cur
  obtain ⟨u, hu, -, hinv, htasks, hidle⟩ := requeue_runnable h hT hTrun
  rw [schedule_eq, hu, Option.bind_some] at hrun
  obtain ⟨⟨Y, hY, hready⟩, hidle', hkeep⟩ := dispatch_frame hinv hrun
  refine ⟨hidle'.trans hidle, fun t X hX hstate ht => ?_⟩
  have hu : u.tasks t = some X := by rw [htasks, Function.update_of_ne ht, hX]
  have hne : t ≠ s'.cur := by
    rintro rfl
    rw [hu, Option.some.injEq] at hY
    exact hstate (hY ▸ hready)
  exact ⟨(hkeep t hne).trans hu, hne⟩

/-- **Who blocks is asleep**, and so is everyone who was. -/
theorem taskBlock_frame (h : SchedInv s) (hcur : s.cur ≠ s.idle) {state : TaskState}
    {s' : SchedState} (hrun : taskBlock s state = some s') :
    s'.idle = s.idle ∧ s.cur ≠ s'.cur ∧ (∃ X, s'.tasks s.cur = some X ∧ X.state ≠ .ready) ∧
      ∀ t X, s.tasks t = some X → X.state ≠ .ready → t ≠ s.cur →
        s'.tasks t = some X ∧ t ≠ s'.cur := by
  rw [taskBlock] at hrun
  split_ifs at hrun with hstate
  obtain ⟨T, hT, -⟩ := h.cur
  obtain ⟨u, hu, hinv, -, -⟩ := requeue_blocked h hcur hstate
  have hnot : ¬ (state = .running ∨ state = .ready) := by
    rintro (rfl | rfl)
    · exact absurd hstate (by decide)
    · exact absurd hstate (by decide)
  have hsame : u = s.setTask s.cur { T with state := state } := by
    rw [setCurState_eq hT, requeueCur] at hu
    change Option.bind ((s.setTask s.cur _).tasks s.cur) _ = _ at hu
    rw [setTask_self, Option.bind_some, if_neg hnot, Option.some.injEq] at hu
    exact hu.symm
  rw [schedule_eq, hu, Option.bind_some] at hrun
  obtain ⟨⟨Y, hY, hready⟩, hidle, hkeep⟩ := dispatch_frame hinv hrun
  have hasleep : ∀ t X, u.tasks t = some X → X.state ≠ .ready →
      s'.tasks t = some X ∧ t ≠ s'.cur := by
    intro t X hX hXstate
    have hne : t ≠ s'.cur := by
      rintro rfl
      rw [hX, Option.some.injEq] at hY
      exact hXstate (hY ▸ hready)
    exact ⟨(hkeep t hne).trans hX, hne⟩
  obtain ⟨hcur', hne⟩ := hasleep s.cur { T with state := state } (by rw [hsame, setTask_self])
    fun heq => hnot (Or.inr heq)
  refine ⟨by rw [hidle, hsame]; rfl, hne, ⟨_, hcur', fun heq => hnot (Or.inr heq)⟩, ?_⟩
  intro t X hX hXstate ht
  exact hasleep t X (by rw [hsame, setTask_of_ne ht, hX]) hXstate

/-- Queueing a task changes no task. -/
theorem schedQueueAddTail_frame {t : ℕ} {s' : SchedState} (hrun : schedQueueAddTail s t = some s') :
    s'.tasks = s.tasks ∧ s'.cur = s.cur ∧ s'.idle = s.idle := by
  rw [schedQueueAddTail] at hrun
  obtain ⟨X, -, hrun⟩ := Option.bind_eq_some_iff.1 hrun
  split_ifs at hrun
  cases hrun
  exact ⟨rfl, rfl, rfl⟩

theorem setTask_eq_none {t x : ℕ} (h : (s.setTask t T).tasks x = none) : s.tasks x = none := by
  by_cases hx : x = t
  · rw [hx, setTask_self] at h
    cases h
  · rwa [setTask_of_ne hx] at h

/-- No task goes away while the processor does. -/
theorem schedule_eq_none {s' : SchedState} (hrun : schedule s = some s') {x : ℕ}
    (h : s'.tasks x = none) :
    s.tasks x = none := by
  rw [schedule_eq, requeueCur] at hrun
  obtain ⟨u, hu, hrun⟩ := Option.bind_eq_some_iff.1 hrun
  obtain ⟨sn, hfetch, hset⟩ := Option.bind_eq_some_iff.1 hrun
  obtain ⟨d, -, hmap⟩ := Option.bind_eq_some_iff.1 hfetch
  obtain ⟨next, -, rfl⟩ := Option.map_eq_some_iff.1 hmap
  obtain ⟨X, -, rfl⟩ := Option.map_eq_some_iff.1 hset
  have hux : u.tasks x = none := setTask_eq_none h
  obtain ⟨C, -, hu⟩ := Option.bind_eq_some_iff.1 hu
  split_ifs at hu
  · rw [(schedQueueAddTail_frame hu).1] at hux
    exact setTask_eq_none hux
  · cases hu
    exact hux

theorem taskBlock_eq_none {state : TaskState} {s' : SchedState} (hrun : taskBlock s state = some s')
    {x : ℕ}
    (h : s'.tasks x = none) : s.tasks x = none := by
  rw [taskBlock] at hrun
  split_ifs at hrun
  have hset := schedule_eq_none hrun h
  rw [SchedState.setCurState] at hset
  split at hset
  · exact hset
  · exact setTask_eq_none hset

/-- Waking a task changes no other. -/
theorem taskUnblock_frame {t : ℕ} {s' : SchedState} (hrun : taskUnblock s t = some s') :
    (∀ x, x ≠ t → s'.tasks x = s.tasks x) ∧ s'.cur = s.cur ∧ s'.idle = s.idle := by
  rw [taskUnblock] at hrun
  obtain ⟨X, -, hrun⟩ := Option.bind_eq_some_iff.1 hrun
  split_ifs at hrun
  obtain ⟨p, -, hrun⟩ := Option.bind_eq_some_iff.1 hrun
  obtain ⟨htasks, hcur, hidle⟩ := schedQueueAddTail_frame hrun
  refine ⟨fun x hx => ?_, hcur, hidle⟩
  rw [htasks, setTask_of_ne hx]

theorem taskUnblock_eq_none {t : ℕ} {s' : SchedState} (hrun : taskUnblock s t = some s') {x : ℕ}
    (h : s'.tasks x = none) : s.tasks x = none := by
  rw [taskUnblock] at hrun
  obtain ⟨X, -, hrun⟩ := Option.bind_eq_some_iff.1 hrun
  split_ifs at hrun
  obtain ⟨p, -, hrun⟩ := Option.bind_eq_some_iff.1 hrun
  rw [(schedQueueAddTail_frame hrun).1] at h
  exact setTask_eq_none h

/-- A new task changes no other. -/
theorem taskCreate_frame {t level : ℕ} {s' : SchedState} (hrun : taskCreate s t level = some s') :
    s.tasks t = none ∧ (∀ x, x ≠ t → s'.tasks x = s.tasks x) ∧ s'.cur = s.cur ∧
      s'.idle = s.idle := by
  rw [taskCreate] at hrun
  split_ifs at hrun with hsome
  obtain ⟨htasks, hcur, hidle⟩ := schedQueueAddTail_frame hrun
  refine ⟨by simpa using hsome, fun x hx => ?_, hcur, hidle⟩
  rw [htasks, setTask_of_ne hx]

/-- A task that was not there or asleep becomes ready. -/
theorem enqueue_inv (h : SchedInv s) {t : ℕ} (hold : ∀ X, s.tasks t = some X →
      X.state ≠ .ready ∧ X.state ≠ .running) (hready : T.state = .ready)
    (hprio : T.priority < taskPriorityMaxNr ∧ T.staticPriority < taskPriorityMaxNr)
    {s' : SchedState} (hrun : schedQueueAddTail (s.setTask t T) t = some s') : SchedInv s' := by
  obtain ⟨hadd, hinv⟩ := push_inv h.queue (fun X hX => (hold X hX).1) hready hprio
  rw [hadd, Option.some.injEq] at hrun
  subst hrun
  have htasks : ((s.setTask t T).push t T.priority).tasks = (s.setTask t T).tasks := rfl
  have hne : ∀ X, s.tasks t = some X → X.state ≠ .running := fun X hX => (hold X hX).2
  refine ⟨hinv, ?_, fun x X hX hXrun => ?_, ?_⟩
  · obtain ⟨C, hC, hCrun⟩ := h.cur
    have hct : s.cur ≠ t := fun heq => hne C (heq ▸ hC) hCrun
    refine ⟨C, ?_, hCrun⟩
    rw [htasks]
    show (s.setTask t T).tasks s.cur = some C
    rw [setTask_of_ne hct, hC]
  · rw [htasks] at hX
    by_cases hx : x = t
    · rw [hx, setTask_self, Option.some.injEq] at hX
      rw [← hX, hready] at hXrun
      cases hXrun
    · rw [setTask_of_ne hx] at hX
      exact h.only x X hX hXrun
  · obtain ⟨I, hI, hIstate⟩ := h.idle
    have hit : s.idle ≠ t := by
      intro heq
      rw [heq] at hI
      rcases hIstate with hr | hr
      · exact (hold I hI).2 hr
      · exact (hold I hI).1 hr
    refine ⟨I, ?_, hIstate⟩
    rw [htasks]
    show (s.setTask t T).tasks s.idle = some I
    rw [setTask_of_ne hit, hI]

/-- **One call** keeps the invariant. -/
theorem schedStep_inv (s : SchedState) (call : SchedCall) (s' : SchedState) (h : SchedInv s)
    (hidle : IdleStays s call) (hstep : schedStep s call = some s') : SchedInv s' := by
  by_cases hswitch : Switches call
  · obtain ⟨-, -, -, s'', -, -, hrun, hinv⟩ := switch_spec h hswitch hidle
    rw [hstep, Option.some.injEq] at hrun
    rw [hrun]
    exact hinv
  cases call with
  | create task level =>
      rw [schedStep, taskCreate] at hstep
      split_ifs at hstep with hsome
      have hnone : s.tasks task = none := by simpa using hsome
      refine enqueue_inv h (fun X hX => ?_) rfl
        ⟨schedCalcBasePriority_lt level, schedCalcBasePriority_lt level⟩
        hstep
      rw [hnone] at hX
      cases hX
  | unblock task =>
      rw [schedStep, taskUnblock] at hstep
      obtain ⟨X, hX, hstep⟩ := Option.bind_eq_some_iff.1 hstep
      split_ifs at hstep with hstate hhas
      have hbound := h.queue.priority task X hX
      obtain ⟨p, hp, hlt⟩ := schedCalcNewPriority_lt hbound
      rw [hp, Option.bind_some, schedQueueAddHead] at hstep
      refine enqueue_inv (T := { X with state := .ready, priority := p }) h (fun Y hY => ?_) rfl
        ⟨hlt, hbound.2⟩ hstep
      rw [hX, Option.some.injEq] at hY
      rw [← hY]
      rcases hstate with hs | hs | hs <;> rw [hs] <;> decide
  | block state =>
      have hcan : ¬ state.CanBlock := hswitch
      rw [schedStep, taskBlock, if_neg hcan] at hstep
      cases hstep
  | yield => exact absurd trivial hswitch
  | expire => exact absurd trivial hswitch

end Calls

/-! ## The main result -/

/-- The queues of a unit are in order, and the next fetch takes the right task. -/
structure SchedOk (s : SchedState) : Prop where
  /-- The length of a queue is the length of its list. -/
  length : ∀ p, (s.priorityQueue p).length = (s.priorityQueue p).list.length
  tasknr : s.tasknr = ∑ p ∈ Finset.range taskPriorityMaxNr, (s.priorityQueue p).length
  /-- A ready task is on the queue of its priority, once, and on no other queue. -/
  ready : ∀ t T, s.tasks t = some T → T.state = .ready →
    (s.priorityQueue T.priority).list.count t = 1 ∧
      ∀ p ≠ T.priority, t ∉ (s.priorityQueue p).list
  /-- No other task is on a queue. -/
  others : ∀ t, (∀ T, s.tasks t = some T → T.state ≠ .ready) → ∀ p, t ∉ (s.priorityQueue p).list
  above : ∀ p, s.dynamicPriority < p → (s.priorityQueue p).list = []
  /-- The fetch of a call that switches does not run past the lowest queue: it returns the first
  task of the highest queue that is not empty. -/
  fetch : ∀ call, Switches call → IdleStays s call → ∃ u next d, fetchState s call = some u ∧
    schedQueueFetchFirst u = some (u.pop next d, next) ∧
    (u.priorityQueue d).list.head? = some next ∧ ∀ p, d < p → (u.priorityQueue p).list = []
  /-- Tasks of a priority are dispatched in the order they became ready at it. -/
  order : ∀ p, readied s.log p = dispatched s.log p ++ (s.priorityQueue p).list

theorem SchedInv.ok {s : SchedState} (h : SchedInv s) : SchedOk s := by
  refine ⟨h.queue.length, h.queue.tasknr, fun t T hT hready => ⟨?_, fun p hp hmem => ?_⟩,
    fun t hold p => h.queue.not_mem hold p, h.queue.above, fun call hcall hidle => ?_,
    h.queue.order⟩
  · exact List.count_eq_one_of_mem (h.queue.nodup _) ((h.queue.mem t _).2 ⟨T, hT, hready, rfl⟩)
  · obtain ⟨X, hX, -, hXp⟩ := (h.queue.mem t p).1 hmem
    rw [hT, Option.some.injEq] at hX
    exact hp (by rw [← hXp, hX])
  · obtain ⟨u, next, d, -, hu, hf, -, -⟩ := switch_spec h hcall hidle
    exact ⟨u, next, d, hu, hf.fetch, hf.head, hf.highest⟩

theorem schedBoot_inv (idle level : ℕ) : SchedInv (schedBoot idle level) := by
  have hself : (schedBoot idle level).tasks idle =
      some ⟨.running, schedCalcBasePriority level, schedCalcBasePriority level⟩ := by
    simp [schedBoot]
  have htasks : ∀ t T, (schedBoot idle level).tasks t = some T →
      t = idle ∧ T = ⟨.running, schedCalcBasePriority level, schedCalcBasePriority level⟩ := by
    intro t T hT
    by_cases ht : t = idle
    · rw [ht, hself, Option.some.injEq] at hT
      exact ⟨ht, hT.symm⟩
    · simp [schedBoot, ht] at hT
  refine ⟨⟨fun p => rfl, rfl, fun p => List.nodup_nil, fun t p => ?_, fun p _ => rfl,
    (show 0 < taskPriorityMaxNr by decide), fun t T hT => ?_, fun p => rfl⟩, ⟨_, hself, rfl⟩,
    fun t T hT _ => (htasks t T hT).1, ⟨_, hself, Or.inl rfl⟩⟩
  · refine ⟨fun hmem => absurd hmem List.not_mem_nil, ?_⟩
    rintro ⟨T, hT, hready, -⟩
    rw [(htasks t T hT).2] at hready
    cases hready
  · rw [(htasks t T hT).2]
    exact ⟨schedCalcBasePriority_lt level, schedCalcBasePriority_lt level⟩

/-- **The scheduler keeps its queues.**  Whatever tasks are created, put to sleep, woken and
preempted, as long as the idle task does not block, the queues are in order after every
call, every fetch takes the first task of the highest queue, and tasks of one priority run
in the order they became ready. -/
theorem sched_ok (idle level : ℕ) (calls : List SchedCall) (s : SchedState)
    (hidle : Run.Along schedStep IdleStays (schedBoot idle level) calls)
    (hrun : Run.exec schedStep (schedBoot idle level) calls = some s) : SchedOk s :=
  (Run.exec_invariant schedStep_inv calls _ s (schedBoot_inv idle level) hidle hrun).ok

/-- Three tasks, two of them of one priority; one sleeps and is woken with a higher priority. -/
theorem sched_ok_three :
    ∃ s, Run.exec schedStep (schedBoot 0 1)
        [.create 1 2, .create 2 2, .create 3 3, .expire, .block .blocked, .expire, .unblock 3,
          .yield, .expire] = some s ∧ SchedOk s := by
  have hsome : (Run.exec schedStep (schedBoot 0 1)
      [.create 1 2, .create 2 2, .create 3 3, .expire, .block .blocked, .expire, .unblock 3, .yield,
        .expire]).isSome = true := by decide +kernel
  obtain ⟨s, hs⟩ := Option.isSome_iff_exists.1 hsome
  exact ⟨s, hs, sched_ok 0 1 _ s (by decide +kernel) hs⟩

end Sched
end LightOS
