import Mathlib

/-!
# The scheduler: the model

`task/schedule.c`, the queue operations of `xbook/schedule.h` and the calls of
`task/task.c` that put tasks to sleep and wake them, for one scheduling unit.  All of them
run with interrupts off, so each is one step.

A task is named by its address, an intrusive queue is the list of its tasks.  `none` is a
panic, a failed assertion, or the walk of `sched_queue_fetch_first` past the lowest queue.
The state also carries a log of what was queued and what was fetched; nothing reads it.
Locks, ticks and the saving of the processor state are left out.
-/

namespace LightOS
namespace Sched

/-- `task_state_t`. -/
inductive TaskState where
  | ready
  | running
  | blocked
  | waiting
  | stopped
  | hanging
  | zombie
  deriving DecidableEq, Repr

/-- The fields of `task_t` that scheduling reads. -/
structure Task where
  state : TaskState
  priority : ℕ
  staticPriority : ℕ
  deriving DecidableEq, Repr

/-- `sched_queue_t`. -/
structure SchedQueue where
  list : List ℕ
  length : ℕ
  deriving DecidableEq, Repr

/-- What happened on a queue: a task was added to it or fetched from it. -/
inductive SchedEvent where
  | ready (task priority : ℕ)
  | dispatch (task priority : ℕ)
  deriving DecidableEq, Repr

/-- `sched_unit_t`, the tasks there are, and the log. -/
structure SchedState where
  tasknr : ℕ
  dynamicPriority : ℕ
  idle : ℕ
  cur : ℕ
  priorityQueue : ℕ → SchedQueue
  tasks : ℕ → Option Task
  log : List SchedEvent

/-- `TASK_PRIORITY_LOW`. -/
abbrev taskPriorityLow : ℕ := 0

/-- `TASK_PRIORITY_REALTIME`, also `TASK_PRIORITY_MAX`. -/
abbrev taskPriorityRealtime : ℕ := 3

/-- `TASK_PRIORITY_MAX_NR`, the number of queues. -/
abbrev taskPriorityMaxNr : ℕ := 4

/-- `sched_calc_base_priority`. -/
def schedCalcBasePriority (level : ℕ) : ℕ :=
  [1, 0, 1, 2, 3].getD (if 5 ≤ level then 0 else level) 0

/-- `sched_calc_new_priority`; a priority above the highest fails its assertion. -/
def schedCalcNewPriority (task : Task) (adjustment : ℤ) : Option ℕ :=
  if taskPriorityRealtime < task.priority then none
  else if task.priority < taskPriorityRealtime then
    let raised : ℤ := task.priority + adjustment
    let capped : ℤ := if taskPriorityRealtime ≤ raised then taskPriorityRealtime - 1 else raised
    some (if capped < task.staticPriority then task.staticPriority else capped.toNat)
  else some task.priority

/-- The priority `get_next_task` gives a task that goes back to its queue. -/
def decayedPriority (task : Task) : ℕ :=
  if task.priority < taskPriorityRealtime ∧ taskPriorityLow < task.priority then
    if task.priority - 1 ≤ taskPriorityLow then task.staticPriority else task.priority - 1
  else task.priority

/-- Write one task. -/
def SchedState.setTask (s : SchedState) (task : ℕ) (T : Task) : SchedState :=
  { s with tasks := Function.update s.tasks task (some T) }

/-! ## Queues -/

/-- `sched_queue_has_task`: it looks at one queue only. -/
def schedQueueHasTask (s : SchedState) (task : ℕ) : Prop :=
  task ∈ (s.priorityQueue s.dynamicPriority).list

instance (s : SchedState) (task : ℕ) : Decidable (schedQueueHasTask s task) :=
  inferInstanceAs (Decidable (_ ∈ _))

/-- The task at the end of the queue of a priority. -/
def SchedState.push (s : SchedState) (task priority : ℕ) : SchedState :=
  { s with
    priorityQueue := Function.update s.priorityQueue priority
      ⟨(s.priorityQueue priority).list ++ [task], (s.priorityQueue priority).length + 1⟩
    tasknr := s.tasknr + 1
    dynamicPriority := if s.dynamicPriority < priority then priority else s.dynamicPriority
    log := s.log ++ [.ready task priority] }

/-- `sched_queue_add_tail`. -/
def schedQueueAddTail (s : SchedState) (task : ℕ) : Option SchedState :=
  (s.tasks task).bind fun T =>
    if task ∈ (s.priorityQueue T.priority).list then none else some (s.push task T.priority)

/-- `sched_queue_add_head`; it calls `list_add_tail`, too. -/
def schedQueueAddHead (s : SchedState) (task : ℕ) : Option SchedState := schedQueueAddTail s task

/-- The loop of `sched_queue_fetch_first`: the first queue from `dynamic_priority` down that
counts a task. -/
def fetchLevel (queue : ℕ → SchedQueue) : ℕ → Option ℕ
  | 0 => if (queue 0).length = 0 then none else some 0
  | d + 1 => if (queue (d + 1)).length = 0 then fetchLevel queue d else some (d + 1)

/-- The queue of a priority without its first task. -/
def SchedState.pop (s : SchedState) (task priority : ℕ) : SchedState :=
  { s with
    priorityQueue := Function.update s.priorityQueue priority
      ⟨(s.priorityQueue priority).list.tail, (s.priorityQueue priority).length - 1⟩
    tasknr := s.tasknr - 1
    dynamicPriority := priority
    log := s.log ++ [.dispatch task priority] }

/-- `sched_queue_fetch_first`. -/
def schedQueueFetchFirst (s : SchedState) : Option (SchedState × ℕ) :=
  (fetchLevel s.priorityQueue s.dynamicPriority).bind fun d =>
    (s.priorityQueue d).list.head?.map fun task => (s.pop task d, task)

/-! ## Switching -/

/-- The first half of `get_next_task`: a task that can go on running goes back to its queue. -/
def requeueCur (s : SchedState) : Option SchedState :=
  (s.tasks s.cur).bind fun T =>
    if T.state = .running ∨ T.state = .ready then
      schedQueueAddTail (s.setTask s.cur { T with state := .ready, priority := decayedPriority T })
        s.cur
    else some s

/-- `get_next_task`. -/
def getNextTask (s : SchedState) : Option (SchedState × ℕ) :=
  (requeueCur s).bind schedQueueFetchFirst

/-- `sched_set_next_task`. -/
def schedSetNextTask (s : SchedState) (next : ℕ) : Option SchedState :=
  (s.tasks next).map fun T => { s with cur := next }.setTask next { T with state := .running }

/-- `schedule`. -/
def schedule (s : SchedState) : Option SchedState :=
  (getNextTask s).bind fun sn => schedSetNextTask sn.1 sn.2

/-! ## Calls -/

/-- `task_init` and `task_create`, for a task at a fresh address. -/
def taskCreate (s : SchedState) (task level : ℕ) : Option SchedState :=
  if (s.tasks task).isSome then none
  else
    schedQueueAddTail (s.setTask task
      ⟨.ready, schedCalcBasePriority level, schedCalcBasePriority level⟩) task

/-- The states `task_block` accepts. -/
def TaskState.CanBlock (state : TaskState) : Prop :=
  state = .blocked ∨ state = .waiting ∨ state = .stopped ∨ state = .hanging ∨ state = .zombie

instance (state : TaskState) : Decidable state.CanBlock := inferInstanceAs (Decidable (_ ∨ _))

/-- The state of the current task changed. -/
def SchedState.setCurState (s : SchedState) (state : TaskState) : SchedState :=
  match s.tasks s.cur with
  | none => s
  | some T => s.setTask s.cur { T with state := state }

/-- `task_block`. -/
def taskBlock (s : SchedState) (state : TaskState) : Option SchedState :=
  if state.CanBlock then schedule (s.setCurState state) else none

/-- `task_unblock`. -/
def taskUnblock (s : SchedState) (task : ℕ) : Option SchedState :=
  (s.tasks task).bind fun T =>
    if ¬ (T.state = .blocked ∨ T.state = .waiting ∨ T.state = .stopped) then none
    else if schedQueueHasTask s task then none
    else
      (schedCalcNewPriority T 1).bind fun priority =>
        schedQueueAddHead (s.setTask task { T with state := .ready, priority := priority }) task

/-- `task_yield`. -/
def taskYield (s : SchedState) : Option SchedState := schedule (s.setCurState .ready)

/-- The calls. -/
inductive SchedCall where
  | create (task level : ℕ)
  | block (state : TaskState)
  | unblock (task : ℕ)
  | yield
  | expire

/-- One call. -/
def schedStep (s : SchedState) : SchedCall → Option SchedState
  | .create task level => taskCreate s task level
  | .block state => taskBlock s state
  | .unblock task => taskUnblock s task
  | .yield => taskYield s
  | .expire => schedule s

/-- `init_sched_unit` and `task_init_boot_idle`, for an idle task of some level. -/
def schedBoot (idle level : ℕ) : SchedState where
  tasknr := 0
  dynamicPriority := 0
  idle := idle
  cur := idle
  priorityQueue := fun _ => ⟨[], 0⟩
  tasks := Function.update (fun _ => none) idle
    (some ⟨.running, schedCalcBasePriority level, schedCalcBasePriority level⟩)
  log := []

end Sched
end LightOS
