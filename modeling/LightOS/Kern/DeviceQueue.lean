import LightOS.Lib.Run

/-!
# The packet queue of a device

`io_device_queue_append`, `io_device_queue_pickup` and `io_device_queue_cleanup` of
`kernel/driver.c`, with the wait queue of `task/waitqueue.c` and `task_wakeup`.

The code between taking and giving back a lock runs with interrupts off and is one step; between
two of them any thread may run.  A consumer that found no packet first adds itself to the wait
list, then blocks, and goes on once a wake-up or an exception has made it ready again.

A consumer that finds nothing in the list stops the model: what it unlinks and frees then is
the head of the queue.

* `WaitInv.step` — who is on the wait list is asleep or about to sleep.
* `queueStepOk_iff` — which steps keep the promise.
* `deviceQueue_ok_iff` — in which runs it is kept.
-/

namespace LightOS
namespace PacketQueue

/-- `DEVICE_QUEUE_ENTRY_NR`. -/
abbrev deviceQueueEntryNr : ℕ := 12

/-- The bytes behind an entry. -/
abbrev Packet := List (BitVec 8)

/-- `device_queue_t`; the count is a `char`. -/
structure DeviceQueue (τ : Type) where
  list : List Packet
  waitList : List τ
  entryCount : BitVec 8

/-- Where a thread is. -/
inductive Pc where
  | out
  /-- A packet is appended, the wake-up is still to come. -/
  | appendWakeup
  /-- On the wait list, before `task_block`. -/
  | pickupAdded (buflen : ℕ)
  | pickupBlocked (buflen : ℕ)
  /-- Woken, before the lock is taken again. -/
  | pickupResumed (buflen : ℕ)
  deriving DecidableEq

/-- What a consumer got: the entry, and the bytes that were copied. -/
structure Delivery (τ : Type) where
  consumer : τ
  packet : Packet
  copied : List (BitVec 8)

/-- The queue, the threads with what their last calls returned, and the history: the packets that
were accepted and those that were picked up, in order. -/
structure QueueRun (τ : Type) where
  queue : DeviceQueue τ
  pc : τ → Pc
  returned : τ → ℤ
  arrived : List Packet
  delivered : List (Delivery τ)

/-- A thread makes a call or goes on with it, or is sent an exception.  `memory` is whether
`mem_alloc` succeeds. -/
inductive Event (τ : Type) where
  | append (t : τ) (buf : Packet) (memory : Bool)
  | pickup (t : τ) (buflen : ℕ) (nowait : Bool)
  | cleanup (t : τ)
  | run (t : τ)
  | exception (t : τ)

section Model

variable {τ : Type} [DecidableEq τ]

/-- `io_device_queue_init`. -/
def ioDeviceQueueInit : DeviceQueue τ := ⟨[], [], 0⟩

def QueueRun.goto (s : QueueRun τ) (t : τ) (k : Pc) : QueueRun τ :=
  { s with pc := Function.update s.pc t k }

/-- A call returns. -/
def QueueRun.leave (s : QueueRun τ) (t : τ) (ret : ℤ) : QueueRun τ :=
  { s with pc := Function.update s.pc t .out, returned := Function.update s.returned t ret }

/-- `task_wakeup`; of the threads here only those that block are not ready. -/
def taskWakeup (s : QueueRun τ) (t : τ) : QueueRun τ :=
  match s.pc t with
  | .pickupBlocked buflen =>
      { s with
        queue := { s.queue with waitList := s.queue.waitList.filter (· ≠ t) }
        pc := Function.update s.pc t (.pickupResumed buflen) }
  | _ => s

/-- `wait_queue_wakeup`. -/
def waitQueueWakeup (s : QueueRun τ) : QueueRun τ :=
  match s.queue.waitList with
  | [] => s
  | t :: rest => taskWakeup { s with queue := { s.queue with waitList := rest } } t

/-- `wait_queue_add`, with its assertion. -/
def waitQueueAdd (q : DeviceQueue τ) (t : τ) : Option (DeviceQueue τ) :=
  if t ∈ q.waitList then none else some { q with waitList := q.waitList ++ [t] }

/-- `io_device_queue_cleanup`. -/
def ioDeviceQueueCleanup (q : DeviceQueue τ) : DeviceQueue τ := { q with list := [] }

/-- The locked part of `io_device_queue_append`; nothing is `IO_FAILED`. -/
def ioDeviceQueueAppend (q : DeviceQueue τ) (buf : Packet) (memory : Bool) :
    Option (DeviceQueue τ) :=
  if (deviceQueueEntryNr : ℤ) < q.entryCount.toInt then none
  else if memory then
    some { q with list := q.list ++ [buf], entryCount := q.entryCount + 1 }
  else none

/-- The end of `io_device_queue_pickup`, on the first entry. -/
def pickupFirst (s : QueueRun τ) (t : τ) (buflen : ℕ) : Option (QueueRun τ) :=
  match s.queue.list with
  | [] => none
  | entry :: rest =>
      let len := min entry.length buflen
      some ({ s with
        queue := { s.queue with list := rest, entryCount := s.queue.entryCount - 1 }
        delivered := s.delivered ++ [Delivery.mk t entry (entry.take len)] }.leave t len)

/-- `io_device_queue_pickup`, up to where it blocks. -/
def ioDeviceQueuePickup (s : QueueRun τ) (t : τ) (buflen : ℕ) (nowait : Bool) :
    Option (QueueRun τ) :=
  if s.queue.entryCount = 0 then
    if nowait then some (s.leave t (-1))
    else (waitQueueAdd s.queue t).map fun q => { s with queue := q }.goto t (.pickupAdded buflen)
  else pickupFirst s t buflen

/-- A thread goes on with its call; one that is blocked, or makes no call, does not. -/
def runStep (s : QueueRun τ) (t : τ) : Option (QueueRun τ) :=
  match s.pc t with
  | .out => some s
  | .appendWakeup => some ((waitQueueWakeup s).leave t 0)
  | .pickupAdded buflen => some (s.goto t (.pickupBlocked buflen))
  | .pickupBlocked _ => some s
  | .pickupResumed buflen => pickupFirst s t buflen

/-- One event.  A thread that is in a call makes no other. -/
def queueStep (s : QueueRun τ) : Event τ → Option (QueueRun τ)
  | .append t buf memory =>
      if s.pc t = .out then
        match ioDeviceQueueAppend s.queue buf memory with
        | none => some (s.leave t 1)
        | some q => some ({ s with queue := q, arrived := s.arrived ++ [buf] }.goto t .appendWakeup)
      else some s
  | .pickup t buflen nowait =>
      if s.pc t = .out then ioDeviceQueuePickup s t buflen nowait else some s
  | .cleanup t =>
      if s.pc t = .out then some { s with queue := ioDeviceQueueCleanup s.queue } else some s
  | .run t => runStep s t
  | .exception t => some (taskWakeup s t)

/-- The queue after `io_device_queue_init`, before the first call. -/
def queueStart (τ : Type) : QueueRun τ := ⟨ioDeviceQueueInit, fun _ => .out, fun _ => 0, [], []⟩

end Model

/-! ## The promise -/

section Promise

variable {τ : Type}

/-- **The queue is right**: the count is the length, which has a bound, and the packets that
arrived are those that were delivered, in this order, and those that still wait. -/
structure QueueOk (s : QueueRun τ) : Prop where
  count_eq : s.queue.entryCount.toInt = s.queue.list.length
  length_le : s.queue.list.length ≤ deviceQueueEntryNr
  in_order : s.arrived = s.delivered.map Delivery.packet ++ s.queue.list

instance (s : QueueRun τ) : Decidable (QueueOk s) :=
  decidable_of_iff (s.queue.entryCount.toInt = s.queue.list.length ∧
      s.queue.list.length ≤ deviceQueueEntryNr ∧
      s.arrived = s.delivered.map Delivery.packet ++ s.queue.list)
    ⟨fun h => ⟨h.1, h.2.1, h.2.2⟩, fun h => ⟨h.1, h.2, h.3⟩⟩

/-- **A step keeps the promise**: it takes nothing from an empty list, no assertion fails, and the
queue is right after it. -/
def QueueStepOk [DecidableEq τ] (s : QueueRun τ) (e : Event τ) : Prop :=
  ∃ s', queueStep s e = some s' ∧ QueueOk s'

instance [DecidableEq τ] (s : QueueRun τ) (e : Event τ) : Decidable (QueueStepOk s e) :=
  decidable_of_iff (∃ s' ∈ queueStep s e, QueueOk s') Iff.rfl

/-- When a step can be relied on: no packet is accepted by a full queue, only an empty queue is
cleaned up, and a consumer that was woken finds a packet. -/
def QueueStepFine (s : QueueRun τ) : Event τ → Prop
  | .append t _ memory => s.pc t = .out → memory = true → s.queue.list.length < deviceQueueEntryNr
  | .cleanup t => s.pc t = .out → s.queue.list = []
  | .run t => ∀ buflen, s.pc t = .pickupResumed buflen → s.queue.list ≠ []
  | .pickup _ _ _ => True
  | .exception _ => True

/-- Who is on the wait list is in a call that sleeps. -/
def WaitInv (s : QueueRun τ) : Prop :=
  ∀ t ∈ s.queue.waitList, ∃ buflen, s.pc t = .pickupAdded buflen ∨ s.pc t = .pickupBlocked buflen

end Promise

section Inv

variable {τ : Type} {s s' : QueueRun τ} {t : τ}

theorem WaitInv.not_mem (h : WaitInv s) (hadded : ∀ n, s.pc t ≠ .pickupAdded n)
    (hblocked : ∀ n, s.pc t ≠ .pickupBlocked n) : t ∉ s.queue.waitList := by
  intro ht
  obtain ⟨n, hpc | hpc⟩ := h t ht
  · exact hadded n hpc
  · exact hblocked n hpc

/-- A thread that is not on the list moves, and nobody is added to it. -/
theorem WaitInv.move (h : WaitInv s) (hout : t ∉ s'.queue.waitList)
    (hsub : ∀ u ∈ s'.queue.waitList, u ∈ s.queue.waitList)
    (hpc : ∀ u, u ≠ t → s'.pc u = s.pc u) : WaitInv s' := by
  intro u hu
  have hne : u ≠ t := fun heq => hout (heq ▸ hu)
  rw [hpc u hne]
  exact h u (hsub u hu)

/-- A thread that is on the list, or is put there, sleeps or is about to. -/
theorem WaitInv.sleep (h : WaitInv s) (hsub : ∀ u ∈ s'.queue.waitList, u = t ∨ u ∈ s.queue.waitList)
    (hpc : ∀ u, u ≠ t → s'.pc u = s.pc u)
    (ht : ∃ n, s'.pc t = .pickupAdded n ∨ s'.pc t = .pickupBlocked n) : WaitInv s' := by
  intro u hu
  by_cases hut : u = t
  · rw [hut]
    exact ht
  · rw [hpc u hut]
    exact h u ((hsub u hu).resolve_left hut)

/-- A step that leaves packets and count alone. -/
theorem QueueOk.congr (h : QueueOk s) (hlist : s'.queue.list = s.queue.list)
    (hcount : s'.queue.entryCount = s.queue.entryCount) (harrived : s'.arrived = s.arrived)
    (hdelivered : s'.delivered = s.delivered) : QueueOk s' := by
  refine ⟨?_, ?_, ?_⟩
  · rw [hcount, hlist, h.count_eq]
  · rw [hlist]
    exact h.length_le
  · rw [harrived, hdelivered, hlist]
    exact h.in_order

/-- While the queue is right, a count that is not zero means a packet. -/
theorem QueueOk.count_zero (h : QueueOk s) : s.queue.entryCount = 0 ↔ s.queue.list = [] := by
  have hcount := h.count_eq
  constructor
  · intro hzero
    rw [hzero] at hcount
    have hlen : ((0 : BitVec 8).toInt) = 0 := rfl
    exact List.length_eq_zero_iff.1 (by omega)
  · intro hempty
    rw [hempty] at hcount
    exact BitVec.eq_of_toInt_eq hcount

theorem toInt_add_one {c : BitVec 8} {n : ℕ} (hc : c.toInt = n) (hn : n ≤ deviceQueueEntryNr) :
    (c + 1).toInt = n + 1 := by
  have hone : (1 : BitVec 8).toInt = 1 := rfl
  rw [BitVec.toInt_add, hc, hone]
  have hbound : deviceQueueEntryNr = 12 := rfl
  exact Int.bmod_eq_of_le (by omega) (by omega)

theorem toInt_sub_one {c : BitVec 8} {n : ℕ} (hc : c.toInt = n + 1)
    (hn : n + 1 ≤ deviceQueueEntryNr) :
    (c - 1).toInt = n := by
  have hone : (1 : BitVec 8).toInt = 1 := rfl
  rw [BitVec.toInt_sub, hc, hone]
  have hbound : deviceQueueEntryNr = 12 := rfl
  exact (Int.bmod_eq_of_le (by omega) (by omega)).trans (by omega)

end Inv

section Steps

variable {τ : Type} [DecidableEq τ] {s s' : QueueRun τ} {t : τ} {e : Event τ}

/-! ## The wait list -/

/-- What `task_wakeup` does: nothing, or the thread leaves the list and is resumed. -/
theorem taskWakeup_cases (s : QueueRun τ) (t : τ) :
    taskWakeup s t = s ∨ ∃ buflen, s.pc t = .pickupBlocked buflen ∧
      taskWakeup s t =
        { s with
          queue := { s.queue with waitList := s.queue.waitList.filter (· ≠ t) }
          pc := Function.update s.pc t (.pickupResumed buflen) } := by
  unfold taskWakeup
  cases hpc : s.pc t with
  | pickupBlocked buflen => exact Or.inr ⟨buflen, rfl, rfl⟩
  | out => exact Or.inl rfl
  | appendWakeup => exact Or.inl rfl
  | pickupAdded buflen => exact Or.inl rfl
  | pickupResumed buflen => exact Or.inl rfl

theorem WaitInv.taskWakeup (h : WaitInv s) (t : τ) : WaitInv (taskWakeup s t) := by
  rcases taskWakeup_cases s t with heq | ⟨buflen, -, heq⟩
  · rw [heq]
    exact h
  · rw [heq]
    refine h.move (t := t) ?_ ?_ fun u hu => Function.update_of_ne hu _ _
    · simp
    · intro u hu
      exact (List.mem_filter.1 hu).1

theorem WaitInv.waitQueueWakeup (h : WaitInv s) : WaitInv (waitQueueWakeup s) := by
  unfold PacketQueue.waitQueueWakeup
  split
  · exact h
  · rename_i t rest hlist
    refine WaitInv.taskWakeup (s := { s with queue := { s.queue with waitList := rest } }) ?_ t
    intro u hu
    exact h u (hlist ▸ List.mem_cons_of_mem t hu)

/-- A thread that does not sleep is not moved by a wake-up. -/
theorem waitQueueWakeup_pc (hblocked : ∀ n, s.pc t ≠ .pickupBlocked n) :
    (waitQueueWakeup s).pc t = s.pc t := by
  unfold PacketQueue.waitQueueWakeup
  split
  · rfl
  · rename_i w rest hlist
    rcases taskWakeup_cases { s with queue := { s.queue with waitList := rest } } w with
      heq | ⟨buflen, hw, heq⟩
    · rw [heq]
    · rw [heq]
      have hne : t ≠ w := fun htw => hblocked buflen (htw ▸ hw)
      exact Function.update_of_ne hne _ _

theorem WaitInv.leave (h : WaitInv s) (ht : t ∉ s.queue.waitList) (ret : ℤ) :
    WaitInv (s.leave t ret) :=
  h.move ht (fun _ hu => hu) fun _ hu => Function.update_of_ne hu _ _

/-- What a consumer does to the state when it takes the first entry. -/
theorem pickupFirst_cases {n : ℕ} (hstep : pickupFirst s t n = some s') :
    ∃ entry rest, s.queue.list = entry :: rest ∧
      s' = { s with
        queue := { s.queue with list := rest, entryCount := s.queue.entryCount - 1 }
        delivered := s.delivered ++ [Delivery.mk t entry (entry.take (min entry.length n))] }.leave
          t
          (min entry.length n : ℕ) := by
  unfold pickupFirst at hstep
  split at hstep
  · cases hstep
  · rename_i entry rest hlist
    exact ⟨entry, rest, hlist, (Option.some.inj hstep).symm⟩

theorem WaitInv.pickupFirst (h : WaitInv s) (ht : t ∉ s.queue.waitList) {n : ℕ}
    (hstep : pickupFirst s t n = some s') : WaitInv s' := by
  obtain ⟨entry, rest, -, rfl⟩ := pickupFirst_cases hstep
  exact h.move ht (fun _ hu => hu) fun _ hu => Function.update_of_ne hu _ _

/-- **Every step keeps the wait list in order.** -/
theorem WaitInv.step (h : WaitInv s) (hstep : queueStep s e = some s') : WaitInv s' := by
  have hidle : ∀ t, s.pc t = .out → t ∉ s.queue.waitList := by
    intro t ht
    exact h.not_mem (by simp [ht]) (by simp [ht])
  cases e with
  | append t buf memory =>
      simp only [queueStep] at hstep
      split_ifs at hstep with ht
      · unfold ioDeviceQueueAppend at hstep
        split_ifs at hstep <;> cases hstep
        · exact h.leave (hidle t ht) 1
        · exact h.move (hidle t ht) (fun _ hu => hu) fun _ hu => Function.update_of_ne hu _ _
        · exact h.leave (hidle t ht) 1
      · cases hstep
        exact h
  | pickup t buflen nowait =>
      simp only [queueStep, ioDeviceQueuePickup] at hstep
      split_ifs at hstep with ht hzero hnowait
      · cases hstep
        exact h.leave (hidle t ht) (-1)
      · rw [waitQueueAdd, if_neg (hidle t ht)] at hstep
        cases hstep
        refine h.sleep (t := t) (fun u hu => ?_) (fun u hu => Function.update_of_ne hu _ _)
          ⟨buflen, Or.inl (Function.update_self _ _ _)⟩
        rcases List.mem_append.1 hu with hu | hu
        · exact Or.inr hu
        · exact Or.inl (List.mem_singleton.1 hu)
      · exact h.pickupFirst (hidle t ht) hstep
      · cases hstep
        exact h
  | cleanup t =>
      simp only [queueStep] at hstep
      split_ifs at hstep <;> cases hstep <;> exact h
  | run t =>
      simp only [queueStep, runStep] at hstep
      cases hpc : s.pc t with
      | out | pickupBlocked =>
          rw [hpc] at hstep
          cases hstep
          exact h
      | appendWakeup =>
          rw [hpc] at hstep
          cases hstep
          have hstay := waitQueueWakeup_pc (s := s) (t := t) (by simp [hpc])
          have hwoken := h.waitQueueWakeup
          exact hwoken.leave (hwoken.not_mem (by simp [hstay, hpc]) (by simp [hstay, hpc])) 0
      | pickupAdded buflen =>
          rw [hpc] at hstep
          cases hstep
          exact h.sleep (t := t) (fun _ hu => Or.inr hu) (fun u hu => Function.update_of_ne hu _ _)
            ⟨buflen, Or.inr (Function.update_self _ _ _)⟩
      | pickupResumed buflen =>
          rw [hpc] at hstep
          exact h.pickupFirst (h.not_mem (by simp [hpc]) (by simp [hpc])) hstep
  | exception t =>
      cases hstep
      exact h.taskWakeup t

/-! ## The packets -/

theorem QueueOk.taskWakeup (h : QueueOk s) (t : τ) : QueueOk (taskWakeup s t) := by
  rcases taskWakeup_cases s t with heq | ⟨buflen, -, heq⟩ <;> rw [heq]
  · exact h
  · exact h.congr rfl rfl rfl rfl

theorem QueueOk.waitQueueWakeup (h : QueueOk s) : QueueOk (waitQueueWakeup s) := by
  unfold PacketQueue.waitQueueWakeup
  split
  · exact h
  · rename_i t rest hlist
    exact QueueOk.taskWakeup (s := { s with queue := { s.queue with waitList := rest } })
      (h.congr rfl rfl rfl rfl) t

/-- **A packet is accepted**: the queue is still right if and only if it was not full. -/
theorem QueueOk.append (h : QueueOk s) (buf : Packet) :
    QueueOk ({ s with
      queue := { s.queue with list := s.queue.list ++ [buf], entryCount := s.queue.entryCount + 1 }
      arrived := s.arrived ++ [buf] }.goto t .appendWakeup) ↔
        s.queue.list.length < deviceQueueEntryNr := by
  constructor
  · intro hnew
    have hle : (s.queue.list ++ [buf]).length ≤ deviceQueueEntryNr := hnew.length_le
    rw [List.length_append, List.length_singleton] at hle
    omega
  · intro hroom
    refine ⟨?_, ?_, ?_⟩
    · show (s.queue.entryCount + 1).toInt = ((s.queue.list ++ [buf]).length : ℤ)
      rw [toInt_add_one h.count_eq h.length_le, List.length_append, List.length_singleton]
      push_cast
      rfl
    · show (s.queue.list ++ [buf]).length ≤ deviceQueueEntryNr
      rw [List.length_append, List.length_singleton]
      omega
    · show s.arrived ++ [buf] = s.delivered.map Delivery.packet ++ (s.queue.list ++ [buf])
      rw [h.in_order, List.append_assoc]

/-- **A packet is picked up**: there is one if and only if the list is not empty, and the queue is
right after it. -/
theorem QueueOk.pickupFirst_iff (h : QueueOk s) (t : τ) (n : ℕ) :
    (∃ s', pickupFirst s t n = some s' ∧ QueueOk s') ↔ s.queue.list ≠ [] := by
  constructor
  · rintro ⟨s', hstep, -⟩ hempty
    rw [pickupFirst, hempty] at hstep
    cases hstep
  · intro hsome
    obtain ⟨entry, rest, hlist⟩ := List.exists_cons_of_ne_nil hsome
    have hcount := h.count_eq
    have hle := h.length_le
    have horder := h.in_order
    rw [hlist, List.length_cons] at hcount hle
    rw [hlist] at horder
    refine ⟨_, by rw [pickupFirst, hlist], ⟨?_, Nat.le_of_succ_le hle, ?_⟩⟩
    · exact toInt_sub_one (by rw [hcount]; push_cast; rfl) hle
    · show s.arrived = (s.delivered ++ [_]).map Delivery.packet ++ rest
      rw [horder, List.map_append, List.append_assoc]
      rfl

/-- **Which steps keep the promise.** -/
theorem queueStepOk_iff (h : QueueOk s) (hwait : WaitInv s) (e : Event τ) :
    QueueStepOk s e ↔ QueueStepFine s e := by
  have hstay : ∀ {r : QueueRun τ}, queueStep s e = some r → QueueOk r → QueueStepOk s e :=
    fun hstep hok => ⟨_, hstep, hok⟩
  cases e with
  | append t buf memory =>
      by_cases ht : s.pc t = .out
      · have hnotfull : ¬(deviceQueueEntryNr : ℤ) < s.queue.entryCount.toInt := by
          have hle := h.length_le
          rw [h.count_eq]
          omega
        cases memory with
        | true =>
            have hstep : queueStep s (.append t buf true) = some ({ s with
                queue := { s.queue with
                  list := s.queue.list ++ [buf]
                  entryCount := s.queue.entryCount + 1 }
                arrived := s.arrived ++ [buf] }.goto t .appendWakeup) := by
              simp only [queueStep, if_pos ht, ioDeviceQueueAppend, if_neg hnotfull, if_true]
            simp only [QueueStepOk, hstep, Option.some.injEq, exists_eq_left', h.append]
            exact ⟨fun hlt _ _ => hlt, fun hfine => hfine ht rfl⟩
        | false =>
            refine iff_of_true ?_ (fun _ hmem => nomatch hmem)
            exact hstay (r := s.leave t 1) (by simp [queueStep, ht, ioDeviceQueueAppend])
              (h.congr rfl rfl rfl rfl)
      · exact iff_of_true (hstay (r := s) (by simp [queueStep, ht]) h) fun hout => absurd hout ht
  | pickup t buflen nowait =>
      refine iff_of_true ?_ trivial
      by_cases ht : s.pc t = .out
      · by_cases hzero : s.queue.entryCount = 0
        · cases nowait with
          | true =>
              exact hstay (r := s.leave t (-1))
                (by simp [queueStep, ioDeviceQueuePickup, ht, hzero])
                (h.congr rfl rfl rfl rfl)
          | false =>
              have hout : t ∉ s.queue.waitList := hwait.not_mem (by simp [ht]) (by simp [ht])
              exact hstay (r := { s with
                  queue := { s.queue with waitList := s.queue.waitList ++ [t] } }.goto t
                    (.pickupAdded buflen))
                (by simp [queueStep, ioDeviceQueuePickup, ht, hzero, waitQueueAdd, hout])
                (h.congr rfl rfl rfl rfl)
        · have hsome : s.queue.list ≠ [] := fun hempty => hzero (h.count_zero.2 hempty)
          obtain ⟨s', hfirst, hok⟩ := (h.pickupFirst_iff t buflen).2 hsome
          exact hstay (r := s')
            (by rw [queueStep, if_pos ht, ioDeviceQueuePickup, if_neg hzero, hfirst]) hok
      · exact hstay (r := s) (by simp [queueStep, ht]) h
  | cleanup t =>
      by_cases ht : s.pc t = .out
      · have hstep : queueStep s (.cleanup t) =
            some { s with queue := ioDeviceQueueCleanup s.queue } := if_pos ht
        simp only [QueueStepOk, hstep, Option.some.injEq, exists_eq_left']
        constructor
        · intro hok _
          have hcount : s.queue.entryCount.toInt = 0 := hok.count_eq
          exact h.count_zero.1 (BitVec.eq_of_toInt_eq hcount)
        · intro hempty
          exact h.congr (hempty ht).symm rfl rfl rfl
      · exact iff_of_true (hstay (r := s) (by simp [queueStep, ht]) h) fun hout => absurd hout ht
  | run t =>
      cases hpc : s.pc t with
      | out | pickupBlocked =>
          exact iff_of_true (hstay (r := s) (by simp [queueStep, runStep, hpc]) h)
            fun n hn => by rw [hpc] at hn; cases hn
      | appendWakeup =>
          exact iff_of_true
            (hstay (r := (waitQueueWakeup s).leave t 0) (by simp [queueStep, runStep, hpc])
              (h.waitQueueWakeup.congr rfl rfl rfl rfl))
            fun n hn => by rw [hpc] at hn; cases hn
      | pickupAdded buflen =>
          exact iff_of_true
            (hstay (r := s.goto t (.pickupBlocked buflen)) (by simp [queueStep, runStep, hpc])
              (h.congr rfl rfl rfl rfl))
            fun n hn => by rw [hpc] at hn; cases hn
      | pickupResumed buflen =>
          simp only [QueueStepOk, QueueStepFine, queueStep, runStep, hpc,
            h.pickupFirst_iff t buflen]
          exact ⟨fun hsome _ _ => hsome, fun hfine => hfine buflen rfl⟩
  | exception t => exact iff_of_true (hstay rfl (h.taskWakeup t)) trivial

end Steps

/-- **In which runs the promise is kept.** -/
theorem deviceQueue_ok_iff {τ : Type} [DecidableEq τ] (events : List (Event τ)) :
    Run.Along queueStep QueueStepOk (queueStart τ) events ↔
      Run.Along queueStep QueueStepFine (queueStart τ) events := by
  refine Run.along_iff (I := fun s => QueueOk s ∧ WaitInv s)
    (fun s e h => queueStepOk_iff h.1 h.2 e) (fun s e s' h hok hstep => ?_) events _
    ⟨⟨rfl, Nat.zero_le _, rfl⟩, fun t ht => nomatch ht⟩
  obtain ⟨t, ht, hqueue⟩ := hok
  obtain rfl : t = s' := Option.some.inj (ht.symm.trans hstep)
  exact ⟨hqueue, h.2.step hstep⟩

/-- Thirteen packets are accepted; a cleanup leaves the count of the packet it frees; and a consumer
that was woken by an exception finds no packet. -/
theorem deviceQueue_not_ok :
    ¬Run.Along queueStep QueueStepOk (queueStart ℕ)
        ((List.range 13).map fun t => .append t [0] true) ∧
      ¬Run.Along queueStep QueueStepOk (queueStart ℕ) [.append 0 [0] true, .cleanup 1] ∧
      ¬Run.Along queueStep QueueStepOk (queueStart ℕ)
        [.pickup 0 1 false, .run 0, .exception 0, .run 0] := by
  refine ⟨by decide, by decide, by decide⟩

end PacketQueue
end LightOS
