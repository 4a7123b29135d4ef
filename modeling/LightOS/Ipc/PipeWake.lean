import LightOS.Ipc.PipeStream

/-!
# Pipes: who is left on the wait queue

* `active_wakeup` — a wake-up leaves a task that will go on.
* `pipe_noStranded` — in runs that meet `PipeCallOk`, no task is left blocked on something that has
  already come.
-/

namespace LightOS
namespace Pipe

open Fifo

/-! ## Waiting and active tasks -/

/-- The operation is a read. -/
def Op.isRead : Op → Bool
  | .read _ _ => true
  | .write _ _ _ _ => false

/-- The operation is a write. -/
def Op.isWrite : Op → Bool
  | .read _ _ => false
  | .write _ _ _ _ => true

/-- The tasks on the wait queue, and the one that has the mutex to join it. -/
def PipeState.waiters (s : PipeState) : List ℕ := s.waitQueue ++ s.holder.toList

/-- A task of a kind is on the wait queue or about to join it. -/
def Waits (s : PipeState) (kind : Op → Bool) : Prop :=
  ∃ t ∈ s.waiters, (s.pc t).op.any kind = true

/-- A reader is on the wait queue or about to join it. -/
abbrev ReaderWaits (s : PipeState) : Prop := Waits s Op.isRead

/-- A writer is on the wait queue or about to join it. -/
abbrev WriterWaits (s : PipeState) : Prop := Waits s Op.isWrite

/-- The task is inside a call and not waiting on the queue: it will run, or was woken before it
blocked. -/
def Active (s : PipeState) (t : ℕ) : Prop :=
  match s.pc t with
  | .outside _ => False
  | .lock _ => True
  | .adding _ => True
  | .park _ => t ∉ s.waitQueue
  | .blocked _ => t ∉ s.waitQueue

/-- Every task inside a call is blocked on the wait queue. -/
def Quiet (s : PipeState) : Prop :=
  ∀ t, (∃ ret, s.pc t = .outside ret) ∨ (∃ op, s.pc t = .blocked op) ∧ t ∈ s.waitQueue

/-- No reader is blocked with data in the fifo or without a write end, no writer is blocked with
free space or without a read end. -/
structure NoStranded (s : PipeState) : Prop where
  reader : ∀ t buffer bytes, s.pc t = .blocked (.read buffer bytes) →
    fifoBufLen s.fifo = 0 ∧ 0 < s.writeCount
  writer : ∀ t id buffer left off, s.pc t = .blocked (.write id buffer left off) →
    fifoBufAvali s.fifo = 0 ∧ 0 < s.readCount

/-- The queue holds tasks that wait, for an end that is open, and the mutex is kept to join it. -/
structure QueueOk (s : PipeState) : Prop where
  waiting : ∀ t ∈ s.waitQueue, (∃ op, s.pc t = .park op) ∨ ∃ op, s.pc t = .blocked op
  adding : ∀ t, s.holder = some t ↔ ∃ op, s.pc t = .adding op
  nodup : s.waitQueue.Nodup
  readers : ReaderWaits s → 0 < s.writeCount
  writers : WriterWaits s → 0 < s.readCount

/-- Who waits for what is there already is woken by a task that is active. -/
structure Covered (s : PipeState) : Prop where
  data : s.fifo.bytes ≠ [] → ReaderWaits s → ∃ u, Active s u
  space : s.fifo.bytes.length < pipeSize → WriterWaits s → ∃ u, Active s u

/-- Who is about to join the queue waits for what is not there. -/
structure Added (s : PipeState) : Prop where
  reader : ∀ t buffer bytes, s.pc t = .adding (.read buffer bytes) → s.fifo.bytes = []
  writer : ∀ t id buffer left off, s.pc t = .adding (.write id buffer left off) →
    s.fifo.bytes.length = pipeSize

section Queue

variable {s s' : PipeState} {t u : ℕ} {kind : Op → Bool}

theorem mem_waiters : t ∈ s.waiters ↔ t ∈ s.waitQueue ∨ s.holder = some t := by
  rw [PipeState.waiters, List.mem_append, Option.mem_toList]

theorem active_of_lock {op : Op} (h : s.pc t = .lock op) : Active s t := by
  rw [Active, h]
  trivial

theorem active_of_adding {op : Op} (h : s.pc t = .adding op) : Active s t := by
  rw [Active, h]
  trivial

theorem covered_of_active (h : Active s u) : Covered s := ⟨fun _ _ => ⟨u, h⟩, fun _ _ => ⟨u, h⟩⟩

/-- Nobody joins the queue while the mutex is free. -/
theorem added_of_free (h : QueueOk s) (hfree : s.holder = none) : Added s := by
  have hnone : ∀ t op, s.pc t ≠ .adding op := fun t op hpc => by
    have hholder := (h.adding t).2 ⟨op, hpc⟩
    rw [hfree] at hholder
    cases hholder
  exact ⟨fun t _ _ hpc => absurd hpc (hnone t _), fun t _ _ _ _ hpc => absurd hpc (hnone t _)⟩

/-- A waiter is about to join the queue, or on it. -/
theorem pc_of_mem_waiters (h : QueueOk s) (ht : t ∈ s.waiters) :
    ∃ op, s.pc t = .park op ∨ s.pc t = .blocked op ∨ s.pc t = .adding op := by
  rcases mem_waiters.1 ht with hmem | hholder
  · rcases h.waiting t hmem with ⟨op, hop⟩ | ⟨op, hop⟩
    · exact ⟨op, Or.inl hop⟩
    · exact ⟨op, Or.inr (Or.inl hop)⟩
  · obtain ⟨op, hop⟩ := (h.adding t).1 hholder
    exact ⟨op, Or.inr (Or.inr hop)⟩

theorem notMem_of_outside (h : QueueOk s) {ret : ℤ} (hpc : s.pc t = .outside ret) :
    t ∉ s.waiters := by
  intro ht
  obtain ⟨op, hop⟩ := pc_of_mem_waiters h ht
  simp [hpc] at hop

theorem notMem_of_lock (h : QueueOk s) {op : Op} (hpc : s.pc t = .lock op) : t ∉ s.waiters := by
  intro ht
  obtain ⟨op, hop⟩ := pc_of_mem_waiters h ht
  simp [hpc] at hop

theorem notMem_of_adding (h : QueueOk s) {op : Op} (hpc : s.pc t = .adding op) :
    t ∉ s.waitQueue := by
  intro hmem
  rcases h.waiting t hmem with ⟨op, hop⟩ | ⟨op, hop⟩ <;> simp [hpc] at hop

/-- A task goes on with the same operation. -/
theorem update_op {p : Pc} (hp : p.op = (s.pc t).op) (v : ℕ) :
    (Function.update s.pc t p v).op = (s.pc v).op := by
  by_cases hvt : v = t
  · rw [hvt, Function.update_self, hp]
  · rw [Function.update_of_ne hvt]

/-- A task that is not about to join the queue does something else. -/
theorem update_adding {p : Pc} (ht : ∀ op, s.pc t ≠ .adding op) (hp : ∀ op, p ≠ .adding op)
    (v : ℕ) (op : Op) : Function.update s.pc t p v = .adding op ↔ s.pc v = .adding op := by
  by_cases hvt : v = t
  · rw [hvt, Function.update_self]
    exact iff_of_false (hp op) (ht op)
  · rw [Function.update_of_ne hvt]

/-- A step that takes nobody onto the queue, and leaves those on it in their calls. -/
theorem waits_mono (h : Waits s' kind) (hmem : ∀ v ∈ s'.waiters, v ∈ s.waiters)
    (hop : ∀ v ∈ s'.waiters, (s'.pc v).op = (s.pc v).op) : Waits s kind := by
  obtain ⟨v, hv, hkind⟩ := h
  exact ⟨v, hmem v hv, by rw [← hop v hv]; exact hkind⟩

/-- A task that is not on the queue does something else. -/
theorem waits_update (ht : t ∉ s.waiters) {p : Pc}
    (h : Waits { s with pc := Function.update s.pc t p } kind) : Waits s kind := by
  refine waits_mono h (fun v hv => hv) fun v hv => ?_
  have hvt : v ≠ t := fun hvt => ht (hvt ▸ hv)
  show (Function.update s.pc t p v).op = _
  rw [Function.update_of_ne hvt]

/-- The queue does not mind what a task that is not on it does. -/
theorem queueOk_update (h : QueueOk s) (ht : t ∉ s.waiters) {p : Pc} (hp : ∀ op, p ≠ .adding op) :
    QueueOk { s with pc := Function.update s.pc t p } := by
  rw [mem_waiters, not_or] at ht
  refine ⟨fun v hv => ?_, fun v => ?_, h.nodup, fun hr => h.readers (waits_update ?_ hr),
    fun hw => h.writers (waits_update ?_ hw)⟩
  · have hvt : v ≠ t := fun hvt => ht.1 (hvt ▸ hv)
    simp only [Function.update_of_ne hvt]
    exact h.waiting v hv
  · have hnot : ∀ op, s.pc t ≠ .adding op := fun op hop => ht.2 ((h.adding t).2 ⟨op, hop⟩)
    exact (h.adding v).trans (exists_congr fun op => (update_adding hnot hp v op).symm)
  · rwa [mem_waiters, not_or]
  · rwa [mem_waiters, not_or]

theorem added_update (h : Added s) {p : Pc} (hp : ∀ op, p ≠ .adding op) :
    Added { s with pc := Function.update s.pc t p } := by
  have hsame : ∀ v op, Function.update s.pc t p v = .adding op → s.pc v = .adding op := by
    intro v op hv
    by_cases hvt : v = t
    · rw [hvt, Function.update_self] at hv
      exact absurd hv (hp op)
    · rwa [Function.update_of_ne hvt] at hv
  exact ⟨fun v _ _ hv => h.reader v _ _ (hsame v _ hv),
    fun v _ _ _ _ hv => h.writer v _ _ _ _ (hsame v _ hv)⟩

theorem active_update (hut : u ≠ t) (p : Pc) :
    Active { s with pc := Function.update s.pc t p } u ↔ Active s u := by
  unfold Active
  simp only [Function.update_of_ne hut]

/-! ## Wake-ups -/

/-- A task that is woken has the same to do. -/
theorem wakeTask_op (pc : ℕ → Pc) (t u : ℕ) : (wakeTask pc t u).op = (pc u).op := by
  rcases wakeTask_cases pc t with ⟨op, hop, hwake⟩ | ⟨-, hwake⟩
  · rw [hwake]
    by_cases hut : u = t
    · rw [hut, Function.update_self, hop]
      rfl
    · rw [Function.update_of_ne hut]
  · rw [hwake]

theorem wakeTask_of_ne (pc : ℕ → Pc) (hut : u ≠ t) : wakeTask pc t u = pc u := by
  rcases wakeTask_cases pc t with ⟨op, -, hwake⟩ | ⟨-, hwake⟩
  · rw [hwake, Function.update_of_ne hut]
  · rw [hwake]

/-- A wake-up does not concern who is about to join the queue. -/
theorem wakeTask_adding (pc : ℕ → Pc) (t u : ℕ) (op : Op) :
    wakeTask pc t u = .adding op ↔ pc u = .adding op := by
  rcases wakeTask_cases pc t with ⟨op', hop, hwake⟩ | ⟨-, hwake⟩
  · by_cases hut : u = t
    · rw [hwake, hut, Function.update_self, hop]
      exact iff_of_false (by simp) (by simp)
    · rw [hwake, Function.update_of_ne hut]
  · rw [hwake]

@[simp] theorem wakeup_readCount (s : PipeState) : s.wakeup.readCount = s.readCount := by
  unfold PipeState.wakeup
  split <;> rfl

@[simp] theorem wakeup_holder (s : PipeState) : s.wakeup.holder = s.holder := by
  unfold PipeState.wakeup
  split <;> rfl

theorem wakeup_adding (s : PipeState) (u : ℕ) (op : Op) :
    s.wakeup.pc u = .adding op ↔ s.pc u = .adding op := by
  unfold PipeState.wakeup
  split
  · rfl
  · exact wakeTask_adding s.pc _ u op

theorem mem_of_mem_wakeup {v : ℕ} (h : v ∈ s.wakeup.waitQueue) : v ∈ s.waitQueue := by
  unfold PipeState.wakeup at h
  cases hqueue : s.waitQueue with
  | nil =>
      simp only [hqueue] at h
      exact absurd h List.not_mem_nil
  | cons t queue =>
      simp only [hqueue] at h
      exact List.mem_cons_of_mem _ h

theorem waits_of_wakeup (h : Waits s.wakeup kind) : Waits s kind := by
  refine waits_mono h (fun v hv => ?_) fun v _ => ?_
  · rw [mem_waiters, wakeup_holder] at hv
    exact mem_waiters.2 (hv.imp_left mem_of_mem_wakeup)
  · unfold PipeState.wakeup
    split
    · rfl
    · exact wakeTask_op s.pc _ v

theorem queueOk_wakeup (h : QueueOk s) : QueueOk s.wakeup := by
  have hwrite : s.wakeup.writeCount = s.writeCount := by
    unfold PipeState.wakeup
    split <;> rfl
  refine ⟨?_, fun u => ?_, ?_, fun hr => ?_, fun hw => ?_⟩
  · unfold PipeState.wakeup
    cases hqueue : s.waitQueue with
    | nil =>
        rw [hqueue]
        exact fun v hv => absurd hv List.not_mem_nil
    | cons t queue =>
        intro v hv
        have hnodup := h.nodup
        rw [hqueue, List.nodup_cons] at hnodup
        show (∃ op, wakeTask s.pc t v = _) ∨ ∃ op, wakeTask s.pc t v = _
        have hvt : v ≠ t := fun hvt => hnodup.1 (hvt ▸ hv)
        rw [wakeTask_of_ne s.pc hvt]
        exact h.waiting v (by rw [hqueue]; exact List.mem_cons_of_mem _ hv)
  · rw [wakeup_holder, h.adding]
    exact exists_congr fun op => (wakeup_adding s u op).symm
  · unfold PipeState.wakeup
    cases hqueue : s.waitQueue with
    | nil =>
        rw [hqueue]
        exact List.nodup_nil
    | cons t queue =>
        have hnodup := h.nodup
        rw [hqueue, List.nodup_cons] at hnodup
        exact hnodup.2
  · rw [hwrite]
    exact h.readers (waits_of_wakeup hr)
  · rw [wakeup_readCount]
    exact h.writers (waits_of_wakeup hw)

/-- **A wake-up** leaves a task that was on the queue and is active. -/
theorem active_wakeup (h : QueueOk s) (hsome : s.waitQueue ≠ []) :
    ∃ u ∈ s.waitQueue, Active s.wakeup u := by
  unfold PipeState.wakeup
  cases hqueue : s.waitQueue with
  | nil => exact absurd hqueue hsome
  | cons t queue =>
      have hnodup := h.nodup
      rw [hqueue, List.nodup_cons] at hnodup
      refine ⟨t, List.mem_cons_self .., ?_⟩
      have hwaits := h.waiting t (by rw [hqueue]; exact List.mem_cons_self ..)
      show Active { s with waitQueue := queue, pc := wakeTask s.pc t } t
      rcases wakeTask_cases s.pc t with ⟨op, -, hwake⟩ | ⟨hnot, hwake⟩
      · rw [hwake]
        exact active_of_lock (Function.update_self ..)
      · rcases hwaits with ⟨op, hop⟩ | ⟨op, hop⟩
        · unfold Active
          simp only [hwake, hop]
          exact hnodup.1
        · exact absurd hop (hnot op)

theorem covered_wakeup (h : QueueOk s) (hfree : s.holder = none) : Covered s.wakeup := by
  by_cases hqueue : s.waitQueue = []
  · have hnobody : ∀ kind, ¬ Waits s kind := by
      rintro kind ⟨v, hv, -⟩
      rw [mem_waiters, hqueue, hfree] at hv
      simp at hv
    exact ⟨fun _ hr => absurd (waits_of_wakeup hr) (hnobody _),
      fun _ hw => absurd (waits_of_wakeup hw) (hnobody _)⟩
  · obtain ⟨u, -, hactive⟩ := active_wakeup h hqueue
    exact covered_of_active hactive

/-! ## Joining the queue -/

/-- A task keeps the mutex, to wait for an end that is open. -/
theorem queueOk_hold (h : QueueOk s) (ht : t ∉ s.waitQueue) (hfree : s.holder = none) {op : Op}
    (hread : op.isRead = true → 0 < s.writeCount) (hwrite : op.isWrite = true → 0 < s.readCount) :
    QueueOk (s.hold t op) := by
  have hwaits : ∀ {kind : Op → Bool}, Waits (s.hold t op) kind → kind op = true ∨ Waits s kind := by
    rintro kind ⟨v, hv, hkind⟩
    by_cases hvt : v = t
    · rw [hvt] at hkind
      simp only [PipeState.hold, Function.update_self] at hkind
      exact Or.inl hkind
    · rw [mem_waiters] at hv
      simp only [PipeState.hold, Function.update_of_ne hvt, Option.some.injEq] at hv hkind
      refine Or.inr ⟨v, mem_waiters.2 (Or.inl ?_), hkind⟩
      exact hv.resolve_right fun heq => hvt heq.symm
  refine ⟨fun v hv => ?_, fun v => ?_, h.nodup, fun hr => (hwaits hr).elim hread h.readers,
    fun hw => (hwaits hw).elim hwrite h.writers⟩
  · have hvt : v ≠ t := fun hvt => ht (hvt ▸ hv)
    simp only [PipeState.hold, Function.update_of_ne hvt]
    exact h.waiting v hv
  · by_cases hvt : v = t
    · rw [hvt]
      exact iff_of_true rfl ⟨op, Function.update_self ..⟩
    · simp only [PipeState.hold, Function.update_of_ne hvt]
      refine iff_of_false (fun heq => hvt (Option.some.inj heq).symm) fun hadding => ?_
      have hholder := (h.adding v).2 hadding
      rw [hfree] at hholder
      cases hholder

/-- A task that waits has the same to do on the queue. -/
theorem waits_of_sleep {op : Op} (h : QueueOk s) (hpc : s.pc t = .adding op)
    (hwaits : Waits (s.sleep t op) kind) : Waits s kind := by
  have hholder : s.holder = some t := (h.adding t).2 ⟨op, hpc⟩
  refine waits_mono hwaits (fun v hv => ?_) fun v _ => ?_
  · rw [mem_waiters] at hv
    simp only [PipeState.sleep, List.mem_append, List.mem_singleton, reduceCtorEq, or_false] at hv
    exact mem_waiters.2 (hv.imp_right fun hvt => by rw [hholder, hvt])
  · exact update_op (by rw [hpc]; rfl) v

theorem queueOk_sleep {op : Op} (h : QueueOk s) (hpc : s.pc t = .adding op) :
    QueueOk (s.sleep t op) := by
  have ht := notMem_of_adding h hpc
  have hholder : s.holder = some t := (h.adding t).2 ⟨op, hpc⟩
  refine ⟨fun v hv => ?_, fun v => iff_of_false (by simp [PipeState.sleep]) ?_, ?_,
    fun hr => h.readers (waits_of_sleep h hpc hr), fun hw => h.writers (waits_of_sleep h hpc hw)⟩
  · rcases List.mem_append.1 hv with hv | hv
    · have hvt : v ≠ t := fun hvt => ht (hvt ▸ hv)
      simp only [PipeState.sleep, Function.update_of_ne hvt]
      exact h.waiting v hv
    · rw [List.mem_singleton.1 hv]
      exact Or.inl ⟨op, Function.update_self ..⟩
  · rintro ⟨op', hop⟩
    by_cases hvt : v = t
    · rw [hvt] at hop
      simp [PipeState.sleep] at hop
    · -- only one task keeps the mutex
      simp only [PipeState.sleep, Function.update_of_ne hvt] at hop
      have hother := (h.adding v).2 ⟨op', hop⟩
      rw [hholder, Option.some.injEq] at hother
      exact hvt hother.symm
  · exact List.Nodup.append h.nodup (List.nodup_singleton t) (by simpa using ht)

theorem active_sleep (hut : u ≠ t) (op : Op) (h : Active s u) : Active (s.sleep t op) u := by
  unfold Active PipeState.sleep at *
  simp only [Function.update_of_ne hut]
  cases hpc : s.pc u with
  | outside ret => simp [hpc] at h
  | lock op' => trivial
  | adding op' => trivial
  | park op' =>
      simp only [hpc] at h
      simp [h, hut]
  | blocked op' =>
      simp only [hpc] at h
      simp [h, hut]

end Queue

/-! ## The condition -/

/-- Another task is active. -/
def OtherActive (s : PipeState) (t : ℕ) : Prop := ∃ u, u ≠ t ∧ Active s u

/-- A section passes no wake-up on although somebody waits for one: a reader that leaves without
data, or finds no write end, or joins the queue, while a writer waits, and a writer that finds no
read end, or gives up on a full fifo, while a reader waits. -/
def SectionDrops (s : PipeState) (t : ℕ) : Pc → Prop
  | .lock (.read _ _) =>
      (s.writeCount ≤ 0 ∨ fifoBufLen s.fifo = 0 ∧ (s.rdNowait ∨ s.exit t)) ∧ WriterWaits s
  | .lock (.write _ _ left _) =>
      (s.readCount ≤ 0 ∨ (s.wrNowait ∨ s.exit t) ∧ (fifoBufAvali s.fifo).toNat < left) ∧
        ReaderWaits s
  | .adding (.read _ _) => WriterWaits s
  | _ => False

/-- A step drops a wake-up: a section does, or the last write end is closed while a reader waits, or
the last read end while a writer waits. -/
def DropsWake (s : PipeState) : PipeCall → Prop
  | .run t => SectionDrops s t (s.pc t)
  | .close true => s.writeCount ≤ 1 ∧ ReaderWaits s
  | .close false => s.readCount ≤ 1 ∧ WriterWaits s
  | _ => False

/-- A step that drops a wake-up is a section, and another task is active. -/
def PipeCallOk (s : PipeState) (call : PipeCall) : Prop :=
  DropsWake s call → ∃ t, call = .run t ∧ OtherActive s t

/-- The invariant of the queue. -/
structure WakeInv (s : PipeState) : Prop extends QueueOk s, Covered s, Added s

section Steps

variable {s : PipeState} {t : ℕ}

/-- A task leaves its call without a wake-up, and whoever it could have woken is covered. -/
theorem wakeInv_leave (h : QueueOk s) (ha : Added s) (ht : t ∉ s.waiters) (ret : ℤ)
    (hdata : s.fifo.bytes ≠ [] → ¬ ReaderWaits s ∨ OtherActive s t)
    (hspace : s.fifo.bytes.length < pipeSize → ¬ WriterWaits s ∨ OtherActive s t) :
    WakeInv (s.leave t ret) := by
  have hout : ∀ op, Pc.outside ret ≠ .adding op := by simp
  refine ⟨queueOk_update h ht hout, ⟨fun hne hr => ?_, fun hlt hw => ?_⟩, added_update ha hout⟩
  · rcases hdata hne with hno | ⟨u, hut, hactive⟩
    · exact absurd (waits_update ht hr) hno
    · exact ⟨u, (active_update hut _).2 hactive⟩
  · rcases hspace hlt with hno | ⟨u, hut, hactive⟩
    · exact absurd (waits_update ht hw) hno
    · exact ⟨u, (active_update hut _).2 hactive⟩

/-- A task leaves its call with a wake-up, and the mutex. -/
theorem wakeInv_leave_wakeup (h : QueueOk s) (ht : t ∉ s.waiters) (hfree : s.holder = none)
    (ret : ℤ) : WakeInv (s.leave t ret).wakeup := by
  have hleave : QueueOk (s.leave t ret) := queueOk_update h ht (by simp)
  have hqueue := queueOk_wakeup hleave
  exact ⟨hqueue, covered_wakeup hleave hfree,
    added_of_free hqueue ((wakeup_holder _).trans hfree)⟩

/-- A task enters a call. -/
theorem wakeInv_enter (h : QueueOk s) (ha : Added s) (ht : t ∉ s.waiters) (op : Op) :
    WakeInv { s with pc := Function.update s.pc t (.lock op) } := by
  refine ⟨queueOk_update h ht (by simp), ?_, added_update ha (by simp)⟩
  exact covered_of_active (active_of_lock (Function.update_self ..))

/-- A task keeps the mutex, to wait for what is not there. -/
theorem wakeInv_hold (h : QueueOk s) (ht : t ∉ s.waiters) (hfree : s.holder = none) {op : Op}
    (hread : op.isRead = true → 0 < s.writeCount ∧ s.fifo.bytes = [])
    (hwrite : op.isWrite = true → 0 < s.readCount ∧ s.fifo.bytes.length = pipeSize) :
    WakeInv (s.hold t op) := by
  rw [mem_waiters, not_or] at ht
  have hqueue : QueueOk (s.hold t op) := queueOk_hold h ht.1 hfree (fun hr => (hread hr).1)
    (fun hw => (hwrite hw).1)
  -- the task with the mutex is this one
  have hself : ∀ v op', (s.hold t op).pc v = .adding op' → op' = op := by
    intro v op' hv
    have hholder : some t = some v := (hqueue.adding v).2 ⟨op', hv⟩
    rw [← Option.some.inj hholder] at hv
    simp only [PipeState.hold, Function.update_self, Pc.adding.injEq] at hv
    exact hv.symm
  refine ⟨hqueue, covered_of_active (active_of_adding (Function.update_self ..)), ?_, ?_⟩
  · exact fun v buffer bytes hv => (hread (by rw [← hself v _ hv]; rfl)).2
  · exact fun v id buffer left off hv => (hwrite (by rw [← hself v _ hv]; rfl)).2

theorem bytes_eq_nil_of_len {q : List UInt8} (hq : HoldsBytes s.fifo q)
    (h : fifoBufLen s.fifo = 0) : s.fifo.bytes = [] := by
  rw [hq.bytes, ← List.length_eq_zero_iff, ← hq.len, h]
  rfl

/-- Who waits is looked after by another task, or nobody waits. -/
theorem cover_of_ok {P W : Prop} (hok : PipeCallOk s (.run t))
    (hdrops : P ∧ W → DropsWake s (.run t)) (hP : P) : ¬ W ∨ OtherActive s t := by
  by_cases hW : W
  · obtain ⟨t', ht', hother⟩ := hok (hdrops ⟨hP, hW⟩)
    cases ht'
    exact Or.inr hother
  · exact Or.inl hW

theorem wakeInv_pipeRead (hs : StreamInv s) (h : WakeInv s) {buffer : ℕ → UInt8} {bytes : UInt32}
    (hpc : s.pc t = .lock (.read buffer bytes)) (hfree : s.holder = none)
    (hok : PipeCallOk s (.run t)) : WakeInv (pipeRead s t buffer bytes) := by
  have ht := notMem_of_lock h.toQueueOk hpc
  have hok : s.writeCount ≤ 0 ∨ fifoBufLen s.fifo = 0 ∧ (s.rdNowait ∨ s.exit t) →
      ¬ WriterWaits s ∨ OtherActive s t :=
    cover_of_ok hok fun hdrops => by rw [DropsWake, hpc]; exact hdrops
  unfold pipeRead
  by_cases hempty : fifoBufLen s.fifo = 0
  · have hnil := bytes_eq_nil_of_len hs.fifo hempty
    -- an empty fifo keeps no reader waiting
    have hleave : ∀ ret, ¬ WriterWaits s ∨ OtherActive s t → WakeInv (s.leave t ret) :=
      fun ret hcover => wakeInv_leave h.toQueueOk h.toAdded ht ret (fun hne => absurd hnil hne)
        fun _ => hcover
    rw [if_pos hempty]
    split_ifs with hcount hnowait hexit
    · exact hleave 0 (hok (Or.inl hcount))
    · exact hleave (-1) (hok (Or.inr ⟨hempty, Or.inl hnowait⟩))
    · exact hleave (-1) (hok (Or.inr ⟨hempty, Or.inr hexit⟩))
    · exact wakeInv_hold h.toQueueOk ht hfree (fun _ => ⟨not_le.1 hcount, hnil⟩)
        (fun hw => by cases hw)
  · rw [if_neg hempty]
    obtain ⟨r, hr⟩ : ∃ r, r = fifoBufGet s.fifo buffer
        (UInt32.ofNat (min (min bytes.toNat pipeSize) (fifoBufLen s.fifo).toNat)) := ⟨_, rfl⟩
    simp only [← hr]
    have hqueue : QueueOk { s with
        fifo := r.1
        reads := s.reads ++ [⟨buffer, bytes, r.2.1, r.2.2.toNat⟩] } :=
      ⟨h.waiting, h.adding, h.nodup, h.readers, h.writers⟩
    split_ifs with hcount
    · exact wakeInv_leave_wakeup hqueue ht hfree _
    · have hcover := hok (Or.inl (not_lt.1 hcount))
      refine wakeInv_leave hqueue (added_of_free hqueue hfree) ht _
        (fun _ => Or.inl fun hwaits => ?_) (fun _ => hcover)
      exact hcount (h.readers hwaits)

theorem wakeInv_pipeWrite (hs : StreamInv s) (h : WakeInv s) {id : ℕ} {buffer : ℕ → UInt8}
    {left : ℤ} {off : ℕ} (hpc : s.pc t = .lock (.write id buffer left off)) (hfree : s.holder = none)
    (hok : PipeCallOk s (.run t)) : WakeInv (pipeWrite s t id buffer left off) := by
  have ht := notMem_of_lock h.toQueueOk hpc
  have hok : s.readCount ≤ 0 ∨ (s.wrNowait ∨ s.exit t) ∧ (fifoBufAvali s.fifo).toNat < left →
      ¬ ReaderWaits s ∨ OtherActive s t :=
    cover_of_ok hok fun hdrops => by rw [DropsWake, hpc]; exact hdrops
  obtain ⟨w, hw⟩ : ∃ w, w = pipeFill buffer left.toNat ⟨s.fifo, left, off, []⟩ := ⟨_, rfl⟩
  have hspec := pipeFill_spec buffer left.toNat ⟨s.fifo, left, off, []⟩ _ hs.fifo le_rfl
  rw [← hw] at hspec
  have havali := hs.fifo.avali
  have hlen := hs.fifo.le
  -- a writer with something left has filled the fifo
  have hfull : 0 < w.left → (fifoBufAvali s.fifo).toNat < left ∧
      w.fifo.bytes.length = pipeSize := by
    intro hpos
    have hleft := hspec.left
    have hbytes := hspec.holds.bytes
    rw [hbytes, List.length_append, List.length_map, List.length_range, havali]
    simp only at hleft ⊢
    omega
  have hqueue : QueueOk { s with fifo := w.fifo, puts := s.puts ++ [(id, w.put)] } :=
    ⟨h.waiting, h.adding, h.nodup, h.readers, h.writers⟩
  have hadded := added_of_free hqueue hfree
  have hnoWriter : s.readCount ≤ 0 → ¬ WriterWaits s := fun hle hww => not_lt.2 hle (h.writers hww)
  unfold pipeWrite
  simp only [← hw]
  split_ifs with hdone hcount hgive hcount
  · exact wakeInv_leave_wakeup hqueue ht hfree _
  · exact wakeInv_leave hqueue hadded ht _ (fun _ => hok (Or.inl (not_lt.1 hcount)))
      (fun _ => Or.inl (hnoWriter (not_lt.1 hcount)))
  · obtain ⟨hlt, hsize⟩ := hfull (not_le.1 hdone)
    exact wakeInv_leave hqueue hadded ht _ (fun _ => hok (Or.inr ⟨hgive, hlt⟩))
      (fun hroom => absurd hsize hroom.ne)
  · obtain ⟨hlt, hsize⟩ := hfull (not_le.1 hdone)
    obtain ⟨hq, hc, ha⟩ := wakeInv_leave hqueue hadded ht (-1) (fun _ => hok (Or.inl hcount))
      (fun hroom => absurd hsize hroom.ne)
    exact ⟨⟨hq.waiting, hq.adding, hq.nodup, hq.readers, hq.writers⟩, ⟨hc.data, hc.space⟩,
      ⟨ha.reader, ha.writer⟩⟩
  · obtain ⟨-, hsize⟩ := hfull (not_le.1 hdone)
    exact wakeInv_hold hqueue ht hfree (fun hr => by cases hr) fun _ => ⟨not_le.1 hcount, hsize⟩

/-- A task joins the queue; a writer, whose fifo is full, wakes somebody before. -/
theorem wakeInv_pipeAdd (h : WakeInv s) {op : Op} (hpc : s.pc t = .adding op)
    (hok : PipeCallOk s (.run t)) : WakeInv (pipeAdd s t op) := by
  have ht := notMem_of_adding h.toQueueOk hpc
  have hmem : t ∈ s.waiters := mem_waiters.2 (Or.inr ((h.adding t).2 ⟨op, hpc⟩))
  cases op with
  | read buffer bytes =>
      have hnil := h.reader t buffer bytes hpc
      have hqueue := queueOk_sleep h.toQueueOk hpc
      refine ⟨hqueue, ⟨fun hne => absurd hnil hne, fun _ hw => ?_⟩, added_of_free hqueue rfl⟩
      have hwaits : WriterWaits s := waits_of_sleep h.toQueueOk hpc hw
      obtain ⟨t', ht', u, hut, hactive⟩ := hok (by rw [DropsWake, hpc]; exact hwaits)
      cases ht'
      exact ⟨u, active_sleep hut _ hactive⟩
  | write id buffer left off =>
      have hcount : 0 < s.readCount := h.writers ⟨t, hmem, by rw [hpc]; rfl⟩
      have hfull := h.writer t id buffer left off hpc
      have hpc' := (wakeup_adding s t _).2 hpc
      have hqueue := queueOk_sleep (queueOk_wakeup h.toQueueOk) hpc'
      rw [pipeAdd, if_pos hcount]
      refine ⟨hqueue, ?_, added_of_free hqueue rfl⟩
      by_cases hempty : s.waitQueue = []
      · -- it is alone on the queue, and the fifo is full
        have hholder : s.holder = some t := (h.adding t).2 ⟨_, hpc⟩
        refine ⟨fun _ hr => ?_, fun hroom => ?_⟩
        · obtain ⟨v, hv, hread⟩ :=
            waits_of_wakeup (waits_of_sleep (queueOk_wakeup h.toQueueOk) hpc' hr)
          rw [mem_waiters, hempty, hholder] at hv
          obtain rfl : t = v := by simpa using hv
          rw [hpc] at hread
          cases hread
        · have hsame : (s.wakeup.sleep t (.write id buffer left off)).fifo = s.fifo :=
            (sameData_wakeup s).fifo
          rw [hsame, hfull] at hroom
          exact absurd hroom (lt_irrefl _)
      · obtain ⟨u, hu, hactive⟩ := active_wakeup h.toQueueOk hempty
        have hut : u ≠ t := fun hut => ht (hut ▸ hu)
        exact covered_of_active (active_sleep hut _ hactive)

/-- Steps that leave the tasks, the queue, the fifo and the ends alone. -/
theorem wakeInv_congr {s' : PipeState} (h : WakeInv s) (hqueue : s'.waitQueue = s.waitQueue)
    (hholder : s'.holder = s.holder) (hpc : s'.pc = s.pc) (hfifo : s'.fifo = s.fifo)
    (hwrite : ReaderWaits s → 0 < s'.writeCount) (hread : WriterWaits s → 0 < s'.readCount) :
    WakeInv s' := by
  have hwaits : ∀ {kind : Op → Bool}, Waits s' kind → Waits s kind := fun hw =>
    waits_mono hw (fun v hv => by rwa [PipeState.waiters, hqueue, hholder] at hv)
      fun v _ => by rw [hpc]
  have hactive : ∀ u, Active s u → Active s' u := by
    intro u hu
    unfold Active at hu ⊢
    rwa [hpc, hqueue]
  refine ⟨⟨fun v hv => ?_, fun v => ?_, ?_, fun hr => hwrite (hwaits hr),
    fun hw => hread (hwaits hw)⟩, ⟨fun hne hr => ?_, fun hlt hw => ?_⟩, ⟨?_, ?_⟩⟩
  · rw [hpc]
    exact h.waiting v (by rw [← hqueue]; exact hv)
  · rw [hpc, hholder]
    exact h.adding v
  · rw [hqueue]
    exact h.nodup
  · rw [hfifo] at hne
    obtain ⟨u, hu⟩ := h.data hne (hwaits hr)
    exact ⟨u, hactive u hu⟩
  · rw [hfifo] at hlt
    obtain ⟨u, hu⟩ := h.space hlt (hwaits hw)
    exact ⟨u, hactive u hu⟩
  · rw [hpc, hfifo]
    exact h.reader
  · rw [hpc, hfifo]
    exact h.writer

/-- A task outside the calls that stays there. -/
theorem wakeInv_outside (h : WakeInv s) {ret' : ℤ} (hpc : s.pc t = .outside ret') (ret : ℤ) :
    WakeInv (s.leave t ret) := by
  have hother : ∀ {u}, Active s u → OtherActive s t := by
    intro u hu
    refine ⟨u, ?_, hu⟩
    rintro rfl
    rw [Active, hpc] at hu
    exact hu
  refine wakeInv_leave h.toQueueOk h.toAdded (notMem_of_outside h.toQueueOk hpc) ret
    (fun hne => ?_) (fun hlt => ?_)
  · by_cases hwaits : ReaderWaits s
    · obtain ⟨u, hu⟩ := h.data hne hwaits
      exact Or.inr (hother hu)
    · exact Or.inl hwaits
  · by_cases hwaits : WriterWaits s
    · obtain ⟨u, hu⟩ := h.space hlt hwaits
      exact Or.inr (hother hu)
    · exact Or.inl hwaits

theorem wakeInv_startRead (h : WakeInv s) {ret : ℤ} (hpc : s.pc t = .outside ret)
    (buffer : Option (ℕ → UInt8)) (bytes : UInt32) : WakeInv (startRead s t buffer bytes) := by
  cases buffer with
  | none => exact wakeInv_outside h hpc (-1)
  | some buffer =>
      simp only [startRead]
      split_ifs
      · exact wakeInv_outside h hpc (-1)
      · exact wakeInv_enter h.toQueueOk h.toAdded (notMem_of_outside h.toQueueOk hpc) _

theorem wakeInv_startWrite (h : WakeInv s) {ret : ℤ} (hpc : s.pc t = .outside ret)
    (buffer : Option (ℕ → UInt8)) (bytes : UInt32) : WakeInv (startWrite s t buffer bytes) := by
  cases buffer with
  | none => exact wakeInv_outside h hpc (-1)
  | some buffer =>
      simp only [startWrite]
      split_ifs
      · exact wakeInv_outside h hpc (-1)
      · have hleave := wakeInv_outside h hpc (-1)
        exact wakeInv_congr hleave rfl rfl rfl rfl hleave.readers hleave.writers
      · have henter := wakeInv_enter h.toQueueOk h.toAdded (notMem_of_outside h.toQueueOk hpc)
          (.write s.writes.length buffer (intOfSize bytes) 0)
        exact wakeInv_congr henter rfl rfl rfl rfl henter.readers henter.writers

/-- A task that parked blocks. -/
theorem wakeInv_block (h : WakeInv s) {op : Op} (hpc : s.pc t = .park op) :
    WakeInv { s with pc := Function.update s.pc t (.blocked op) } := by
  have hwaits : ∀ {kind : Op → Bool},
      Waits { s with pc := Function.update s.pc t (.blocked op) } kind → Waits s kind := by
    exact fun hw => waits_mono hw (fun v hv => hv) fun v _ => update_op (by rw [hpc]; rfl) v
  have hactive : ∀ u, Active s u → Active { s with pc := Function.update s.pc t (.blocked op) }
      u := by
    intro u hu
    by_cases hut : u = t
    · subst hut
      unfold Active at hu ⊢
      rw [hpc] at hu
      simp only [Function.update_self]
      exact hu
    · exact (active_update hut _).2 hu
  refine ⟨⟨fun v hv => ?_, fun v => ?_, h.nodup, fun hr => h.readers (hwaits hr),
    fun hw => h.writers (hwaits hw)⟩, ⟨fun hne hr => ?_, fun hlt hw => ?_⟩,
    added_update h.toAdded (by simp)⟩
  · by_cases hvt : v = t
    · exact Or.inr ⟨op, by rw [hvt]; exact Function.update_self ..⟩
    · simp only [Function.update_of_ne hvt]
      exact h.waiting v hv
  · exact (h.adding v).trans
      (exists_congr fun op' => (update_adding (by simp [hpc]) (by simp) v op').symm)
  · obtain ⟨u, hu⟩ := h.data hne (hwaits hr)
    exact ⟨u, hactive u hu⟩
  · obtain ⟨u, hu⟩ := h.space hlt (hwaits hw)
    exact ⟨u, hactive u hu⟩

/-- An exception takes a blocked task from the queue, and the task goes on. -/
theorem wakeInv_signal (h : WakeInv s) (t : ℕ) (causesExit : Bool) :
    WakeInv (signalTask s t causesExit) := by
  unfold signalTask
  cases hpc : s.pc t with
  | blocked op =>
      have hne : ∀ v ∈ s.waitQueue.erase t, v ≠ t := fun v hv => (h.nodup.mem_erase_iff.1 hv).1
      have hmem : ∀ v ∈ s.waitQueue.erase t, v ∈ s.waitQueue := fun v hv => List.mem_of_mem_erase hv
      have hwaits : ∀ {kind : Op → Bool}, Waits { s with
          exit := Function.update s.exit t (s.exit t || causesExit)
          waitQueue := s.waitQueue.erase t
          pc := Function.update s.pc t (.lock op) } kind → Waits s kind := by
        refine fun hw => waits_mono hw (fun v hv => ?_) fun v _ => ?_
        · rw [mem_waiters] at hv ⊢
          exact hv.imp_left (hmem v)
        · exact update_op (by rw [hpc]; rfl) v
      have hadded := added_update h.toAdded (t := t) (p := .lock op) (by simp)
      refine ⟨⟨fun v hv => ?_, fun v => ?_, h.nodup.erase t, fun hr => h.readers (hwaits hr),
        fun hw => h.writers (hwaits hw)⟩,
        covered_of_active (active_of_lock (Function.update_self t (.lock op) s.pc)),
        ⟨hadded.reader, hadded.writer⟩⟩
      · simp only [Function.update_of_ne (hne v hv)]
        exact h.waiting v (hmem v hv)
      · exact (h.adding v).trans
          (exists_congr fun op' => (update_adding (by simp [hpc]) (by simp) v op').symm)
  | outside ret => exact wakeInv_congr h rfl rfl rfl rfl h.readers h.writers
  | lock op => exact wakeInv_congr h rfl rfl rfl rfl h.readers h.writers
  | adding op => exact wakeInv_congr h rfl rfl rfl rfl h.readers h.writers
  | park op => exact wakeInv_congr h rfl rfl rfl rfl h.readers h.writers

theorem wakeInv_close (h : WakeInv s) (rw : Bool) (hok : PipeCallOk s (.close rw)) :
    WakeInv (pipeClose s rw) := by
  unfold pipeClose
  by_cases hgone : s.destroyed = true
  · rw [if_pos hgone]
    exact h
  rw [if_neg hgone]
  have hkeeps : ¬ DropsWake s (.close rw) := by
    intro hdrops
    obtain ⟨t, ht, -⟩ := hok hdrops
    cases ht
  cases rw with
  | true =>
      refine wakeInv_congr h rfl rfl rfl rfl (fun hwaits => ?_) h.writers
      show 0 < s.writeCount - 1
      by_contra hle
      exact hkeeps ⟨by omega, hwaits⟩
  | false =>
      refine wakeInv_congr h rfl rfl rfl rfl h.readers (fun hwaits => ?_)
      show 0 < s.readCount - 1
      by_contra hle
      exact hkeeps ⟨by omega, hwaits⟩

theorem wakeInv_destroy (h : WakeInv s) : WakeInv (pipeDestroy s) := by
  unfold pipeDestroy
  split_ifs
  · exact wakeInv_congr h rfl rfl rfl rfl h.readers h.writers
  · exact h

theorem wakeInv_incref (h : WakeInv s) (rw : Bool) : WakeInv (pipeIncref s rw) := by
  unfold pipeIncref
  split_ifs
  · exact h
  · refine wakeInv_congr h rfl rfl rfl rfl (fun hwaits => ?_) h.writers
    show 0 < s.writeCount + 1
    have := h.readers hwaits
    omega
  · refine wakeInv_congr h rfl rfl rfl rfl h.readers (fun hwaits => ?_)
    show 0 < s.readCount + 1
    have := h.writers hwaits
    omega

theorem wakeInv_ioctl (h : WakeInv s) (rw : Bool) : WakeInv (pipeIoctl s rw) := by
  unfold pipeIoctl
  split_ifs
  · exact h
  · exact wakeInv_congr h rfl rfl rfl rfl h.readers h.writers
  · exact wakeInv_congr h rfl rfl rfl rfl h.readers h.writers

theorem wakeInv_step {call : PipeCall} {s' : PipeState} (hs : StreamInv s) (h : WakeInv s)
    (hok : PipeCallOk s call) (hstep : pipeStep s call = some s') : WakeInv s' := by
  cases moves_of_pipeStep hstep with
  | read t buffer bytes ret hpc => exact wakeInv_startRead h hpc buffer bytes
  | write t buffer bytes ret hpc => exact wakeInv_startWrite h hpc buffer bytes
  | runRead t buffer bytes hpc hfree => exact wakeInv_pipeRead hs h hpc hfree hok
  | runWrite t id buffer left off hpc hfree => exact wakeInv_pipeWrite hs h hpc hfree hok
  | add t op hpc => exact wakeInv_pipeAdd h hpc hok
  | block t op hpc => exact wakeInv_block h hpc
  | signal t causesExit => exact wakeInv_signal h t causesExit
  | handle t ret hpc => exact wakeInv_congr h rfl rfl rfl rfl h.readers h.writers
  | close rw => exact wakeInv_close h rw hok
  | destroy => exact wakeInv_destroy h
  | incref rw => exact wakeInv_incref h rw
  | ioctl rw => exact wakeInv_ioctl h rw

theorem wakeInv_create (mem : ℕ → UInt8) : WakeInv (createPipe mem) := by
  have hnobody : ∀ kind, ¬ Waits (createPipe mem) kind :=
    fun _ ⟨_, h, _⟩ => absurd h List.not_mem_nil
  have hqueue : QueueOk (createPipe mem) :=
    ⟨fun _ h => absurd h List.not_mem_nil, fun _ => by simp [createPipe], List.nodup_nil,
      fun h => absurd h (hnobody _), fun h => absurd h (hnobody _)⟩
  exact ⟨hqueue, ⟨fun _ h => absurd h (hnobody _), fun _ h => absurd h (hnobody _)⟩,
    added_of_free hqueue rfl⟩

/-- In a quiet state nobody is active. -/
theorem not_active_of_quiet (h : Quiet s) (u : ℕ) : ¬ Active s u := by
  intro hu
  unfold Active at hu
  rcases h u with ⟨ret, hpc⟩ | ⟨⟨op, hpc⟩, hmem⟩
  · simp [hpc] at hu
  · simp only [hpc] at hu
    exact hu hmem

theorem mem_of_quiet (h : Quiet s) {op : Op} (hpc : s.pc t = .blocked op) : t ∈ s.waitQueue := by
  rcases h t with ⟨ret, hout⟩ | ⟨-, hmem⟩
  · rw [hpc] at hout
    cases hout
  · exact hmem

/-- Whoever waits in a quiet state waits for what is not there. -/
theorem noStranded_of_quiet (hs : StreamInv s) (h : WakeInv s) (hquiet : Quiet s) :
    NoStranded s := by
  constructor
  · intro t buffer bytes hpc
    have hwaits : ReaderWaits s :=
      ⟨t, mem_waiters.2 (Or.inl (mem_of_quiet hquiet hpc)), by rw [hpc]; rfl⟩
    refine ⟨?_, h.readers hwaits⟩
    by_contra hlen
    have hne : s.fifo.bytes ≠ [] := by
      intro hnil
      have hzero := hs.fifo.len
      rw [hnil] at hzero
      exact hlen (UInt32.toNat_inj.1 hzero)
    obtain ⟨u, hu⟩ := h.data hne hwaits
    exact not_active_of_quiet hquiet u hu
  · intro t id buffer left off hpc
    have hwaits : WriterWaits s :=
      ⟨t, mem_waiters.2 (Or.inl (mem_of_quiet hquiet hpc)), by rw [hpc]; rfl⟩
    refine ⟨?_, h.writers hwaits⟩
    by_contra hroom
    have hlt : s.fifo.bytes.length < pipeSize := by
      have havali := hs.fifo.avali
      by_contra hge
      have hzero : (fifoBufAvali s.fifo).toNat = 0 := by omega
      exact hroom (UInt32.toNat_inj.1 hzero)
    obtain ⟨u, hu⟩ := h.space hlt hwaits
    exact not_active_of_quiet hquiet u hu

end Steps

/-- **No stranded task.**  In every run on a new pipe in which a wake-up that somebody waits for is
dropped only while another task is active, in every state in which all tasks inside a call are
blocked on the wait queue, no reader is blocked with data or without a write end, and no writer
with free space or without a read end. -/
theorem pipe_noStranded (mem : ℕ → UInt8) (calls : List PipeCall) (s : PipeState)
    (hok : Run.Along pipeStep PipeCallOk (createPipe mem) calls)
    (hrun : Run.exec pipeStep (createPipe mem) calls = some s) (hquiet : Quiet s) :
    NoStranded s := by
  have hinv := Run.exec_invariant (I := fun s => StreamInv s ∧ WakeInv s)
    (fun s call s' h hok hstep =>
      ⟨streamInv_step s call s' h.1 trivial hstep, wakeInv_step h.1 h.2 hok hstep⟩)
    calls (createPipe mem) s ⟨streamInv_create mem, wakeInv_create mem⟩ hok hrun
  exact noStranded_of_quiet hinv.1 hinv.2 hquiet

instance (s : PipeState) (kind : Op → Bool) : Decidable (Waits s kind) :=
  inferInstanceAs (Decidable (∃ t ∈ s.waiters, (s.pc t).op.any kind = true))

instance (s : PipeState) (t : ℕ) : DecidablePred (SectionDrops s t)
  | .lock (.read _ _) =>
      inferInstanceAs (Decidable ((s.writeCount ≤ 0 ∨
        fifoBufLen s.fifo = 0 ∧ (s.rdNowait ∨ s.exit t)) ∧ WriterWaits s))
  | .lock (.write _ _ left _) =>
      inferInstanceAs (Decidable ((s.readCount ≤ 0 ∨
        (s.wrNowait ∨ s.exit t) ∧ (fifoBufAvali s.fifo).toNat < left) ∧ ReaderWaits s))
  | .adding (.read _ _) => inferInstanceAs (Decidable (WriterWaits s))
  | .adding (.write _ _ _ _) => isFalse id
  | .outside _ => isFalse id
  | .park _ => isFalse id
  | .blocked _ => isFalse id

instance (s : PipeState) : DecidablePred (DropsWake s)
  | .run t => inferInstanceAs (Decidable (SectionDrops s t (s.pc t)))
  | .close true => inferInstanceAs (Decidable (s.writeCount ≤ 1 ∧ ReaderWaits s))
  | .close false => inferInstanceAs (Decidable (s.readCount ≤ 1 ∧ WriterWaits s))
  | .read _ _ _ => isFalse id
  | .write _ _ _ => isFalse id
  | .block _ => isFalse id
  | .signal _ _ => isFalse id
  | .handle _ => isFalse id
  | .destroy => isFalse id
  | .incref _ => isFalse id
  | .ioctl _ => isFalse id

/-- A reader finds no data and waits. -/
def oneReader : List PipeCall := [.read 1 (some fun _ => 0) 1, .run 1, .run 1, .block 1]

/-- The reader is blocked on the queue, and nobody else is inside a call. -/
theorem quiet_of_one {s : PipeState} {op : Op} (hqueue : s.waitQueue = [1])
    (hone : s.pc 1 = .blocked op)
    (hrest : ∀ t, t ≠ 1 → s.pc t = .outside 0) : Quiet s := by
  intro t
  by_cases ht : t = 1
  · rw [ht, hqueue]
    exact Or.inr ⟨⟨op, hone⟩, List.mem_singleton_self 1⟩
  · exact Or.inl ⟨0, hrest t ht⟩

/-- Four steps of task 1 do not move another task. -/
theorem update_four_of_ne (pc : ℕ → Pc) (p p' p'' q : Pc) {t : ℕ} (ht : t ≠ 1) :
    Function.update (Function.update (Function.update (Function.update pc 1 p) 1 p') 1 p'') 1 q t =
      pc t := by
  rw [Function.update_of_ne ht, Function.update_of_ne ht, Function.update_of_ne ht,
    Function.update_of_ne ht]

theorem pipe_noStranded_oneReader : ∃ s,
    Run.exec pipeStep (createPipe fun _ => 0) oneReader = some s ∧ Quiet s ∧ s.waitQueue = [1] ∧
      NoStranded s := by
  have hok : Run.Along pipeStep (fun s call => ¬ DropsWake s call)
      (createPipe fun _ => 0) oneReader := by
    decide +kernel
  obtain ⟨s, hs, hqueue, hquiet⟩ : ∃ s,
      Run.exec pipeStep (createPipe fun _ => 0) oneReader = some s ∧ s.waitQueue = [1] ∧ Quiet s :=
    ⟨_, rfl, rfl, quiet_of_one rfl rfl fun _ ht => update_four_of_ne _ _ _ _ _ ht⟩
  refine ⟨s, hs, hquiet, hqueue, pipe_noStranded _ oneReader s ?_ hs hquiet⟩
  exact Run.along_mono (fun s call hkeeps hdrops => absurd hdrops hkeeps) _ _ hok

/-- The last write end is closed while the reader waits: the reader stays blocked, although the pipe
has no write end any more. -/
theorem pipe_stranded : ∃ s,
    Run.exec pipeStep (createPipe fun _ => 0) (oneReader ++ [.close true]) = some s ∧ Quiet s ∧
      s.writeCount = 0 ∧ (∃ op, s.pc 1 = .blocked op) ∧ ¬ NoStranded s := by
  refine ⟨_, rfl, quiet_of_one rfl rfl fun _ ht => update_four_of_ne _ _ _ _ _ ht, rfl, ⟨_, rfl⟩,
    ?_⟩
  intro h
  exact absurd (h.reader 1 (fun _ => 0) 1 rfl).2 (by decide)

end Pipe
end LightOS
