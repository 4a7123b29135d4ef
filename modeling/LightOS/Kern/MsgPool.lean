import LightOS.Lib.Ring
import LightOS.Lib.Run

/-!
# Message pools

`lib/msgpool.c`: a circular buffer of message slots under a mutex.  A call is made of the
sections it runs under the mutex: `msgpool_put` on a full pool and `msgpool_get` on an empty
one give the mutex up, yield and go on.  The buffer lies in memory, so pointers into it are
offsets from `msgbuf` and do not wrap; nothing ever waits on `waiters`.

* `holds_put`, `holds_get` — what the two operations do to a pool seen as a bounded queue.
* `msgpool_fifo` — the pool is a bounded queue in every run in which no put goes on into a
  full pool after its yield.
-/

namespace LightOS
namespace Msgpool

open Ring

/-! ## The model -/

/-- `msgpool_t`: `msgbuf` is the memory from `pool->msgbuf` on, `head` and `tail` are offsets
into it. -/
structure MsgPool where
  msgsz : ℕ
  msgcount : ℕ
  msgmaxcnt : ℕ
  head : ℕ
  tail : ℕ
  msgbuf : ℕ → UInt8

/-- `msgpool_create`, in memory `mem`. -/
def msgpoolCreate (msgsz msgcount : ℕ) (mem : ℕ → UInt8) : Option MsgPool :=
  if msgsz = 0 ∨ msgcount = 0 then none
  else some {
    msgsz := msgsz
    msgcount := 0
    msgmaxcnt := msgcount
    head := 0
    tail := 0
    msgbuf := memcpy mem 0 (fun _ => 0) (msgcount * msgsz) }

/-- `msgpool_full`. -/
def msgpoolFull (pool : MsgPool) : Bool := pool.msgmaxcnt ≤ pool.msgcount

/-- `msgpool_empty`. -/
def msgpoolEmpty (pool : MsgPool) : Bool := pool.msgcount ≤ 0

/-- The next slot; behind the last comes the first. -/
def MsgPool.next (pool : MsgPool) (p : ℕ) : ℕ :=
  if pool.msgmaxcnt * pool.msgsz ≤ p + pool.msgsz then 0 else p + pool.msgsz

/-- The copy of a put, and what follows it. -/
def MsgPool.put (pool : MsgPool) (buf : ℕ → UInt8) (size : ℕ) : MsgPool :=
  { pool with
    msgbuf := memcpy pool.msgbuf pool.head buf (min pool.msgsz size)
    head := pool.next pool.head
    msgcount := (pool.msgcount + 1) % 4294967296 }

/-- The memory from `pool->tail` on. -/
def MsgPool.front (pool : MsgPool) : ℕ → UInt8 := fun i => pool.msgbuf (pool.tail + i)

/-- The buffer of a get after the copy: by `callback`, if there is one. -/
def MsgPool.copyTo (pool : MsgPool) (buf : ℕ → UInt8)
    (callback : Option (MsgPool → (ℕ → UInt8) → ℕ → UInt8)) : ℕ → UInt8 :=
  match callback with
  | some f => f pool buf
  | none => memcpy buf 0 pool.front pool.msgsz

/-- What follows the copy of a get; `msgcount` is not zero there. -/
def MsgPool.drop (pool : MsgPool) : MsgPool :=
  { pool with
    tail := pool.next pool.tail
    msgcount := pool.msgcount - 1 }

/-- The arguments of a get; without a buffer nothing is copied. -/
structure GetArgs where
  buf : Option (ℕ → UInt8)
  callback : Option (MsgPool → (ℕ → UInt8) → ℕ → UInt8)

/-- Where a task is. -/
inductive Pc where
  | outside
  | putting (buf : ℕ → UInt8) (size : ℕ)
  | getting (args : GetArgs)

/-- A message that was retrieved: the slot it was in, and the caller's buffer afterwards. -/
structure Retrieval where
  slot : ℕ → UInt8
  buf : Option (ℕ → UInt8)

/-- The pool and the tasks; the messages accepted and retrieved so far, which the code does not
see. -/
structure PoolState where
  pool : MsgPool
  pc : ℕ → Pc
  accepted : List (List UInt8)
  retrieved : List Retrieval

/-- The end of a put. -/
def doPut (s : PoolState) (task : ℕ) (buf : ℕ → UInt8) (size : ℕ) : PoolState where
  pool := s.pool.put buf size
  pc := Function.update s.pc task .outside
  accepted := s.accepted ++ [(List.range (min s.pool.msgsz size)).map buf]
  retrieved := s.retrieved

/-- The end of a get. -/
def doGet (s : PoolState) (task : ℕ) (args : GetArgs) : PoolState where
  pool := s.pool.drop
  pc := Function.update s.pc task .outside
  accepted := s.accepted
  retrieved := s.retrieved ++
    [⟨s.pool.front, args.buf.map fun buf => s.pool.copyTo buf args.callback⟩]

/-- `msgpool_put`, up to its yield. -/
def msgpoolPut (s : PoolState) (task : ℕ) (buf : Option (ℕ → UInt8)) (size : ℕ) : PoolState :=
  match buf with
  | none => s
  | some buf =>
      if msgpoolFull s.pool then { s with pc := Function.update s.pc task (.putting buf size) }
      else doPut s task buf size

/-- `msgpool_try_put`. -/
def msgpoolTryPut (s : PoolState) (task : ℕ) (buf : ℕ → UInt8) (size : ℕ) : PoolState :=
  if msgpoolFull s.pool then s else doPut s task buf size

/-- `msgpool_get`, up to its next yield. -/
def msgpoolGet (s : PoolState) (task : ℕ) (args : GetArgs) : PoolState :=
  if msgpoolEmpty s.pool then { s with pc := Function.update s.pc task (.getting args) }
  else doGet s task args

/-- `msgpool_try_get`. -/
def msgpoolTryGet (s : PoolState) (task : ℕ) (args : GetArgs) : PoolState :=
  if msgpoolEmpty s.pool then s else doGet s task args

/-- A task makes a call, or goes on after its yield. -/
inductive PoolCall where
  | put (task : ℕ) (buf : Option (ℕ → UInt8)) (size : ℕ)
  | tryPut (task : ℕ) (buf : ℕ → UInt8) (size : ℕ)
  | get (task : ℕ) (args : GetArgs)
  | tryGet (task : ℕ) (args : GetArgs)
  | resume (task : ℕ)

/-- The task whose turn it is. -/
def PoolCall.task : PoolCall → ℕ
  | .put task _ _ => task
  | .tryPut task _ _ => task
  | .get task _ => task
  | .tryGet task _ => task
  | .resume task => task

/-- One section.  A put that yielded does not look at the pool again, a get does. -/
def poolStep (s : PoolState) (call : PoolCall) : Option PoolState :=
  match call, s.pc call.task with
  | .put task buf size, .outside => some (msgpoolPut s task buf size)
  | .tryPut task buf size, .outside => some (msgpoolTryPut s task buf size)
  | .get task args, .outside => some (msgpoolGet s task args)
  | .tryGet task args, .outside => some (msgpoolTryGet s task args)
  | .resume task, .putting buf size => some (doPut s task buf size)
  | .resume task, .getting args => some (msgpoolGet s task args)
  | _, _ => none

/-- A pool nobody has used yet. -/
def poolInit (pool : MsgPool) : PoolState := ⟨pool, fun _ => .outside, [], []⟩

/-! ## A pool seen as a bounded queue -/

/-- Slot `i` of the buffer. -/
def MsgPool.slot (pool : MsgPool) (i : ℕ) : ℕ → UInt8 := fun j => pool.msgbuf (i * pool.msgsz + j)

/-- The memory starts with the message. -/
def Stores (mem : ℕ → UInt8) (msg : List UInt8) : Prop := (List.range msg.length).map mem = msg

/-- From slot `t` on, the pool holds the messages of `queue`, oldest first. -/
structure HoldsFrom (pool : MsgPool) (queue : List (List UInt8)) (t : ℕ) : Prop where
  lt : t < pool.msgmaxcnt
  tail : pool.tail = t * pool.msgsz
  head : pool.head = (t + pool.msgcount) % pool.msgmaxcnt * pool.msgsz
  count : pool.msgcount = queue.length
  bound : pool.msgcount ≤ pool.msgmaxcnt
  slots : ∀ k msg, queue[k]? = some msg → Stores (pool.slot ((t + k) % pool.msgmaxcnt)) msg
  fits : ∀ msg ∈ queue, msg.length ≤ pool.msgsz
  inMemory : pool.msgmaxcnt * pool.msgsz < 4294967296
  msgsz : 0 < pool.msgsz

/-- The pool holds the messages of `queue`, oldest first. -/
def Holds (pool : MsgPool) (queue : List (List UInt8)) : Prop := ∃ t, HoldsFrom pool queue t

section Pool

variable {pool : MsgPool} {queue : List (List UInt8)} {t : ℕ}

theorem stores_iff {mem : ℕ → UInt8} {msg : List UInt8} :
    Stores mem msg ↔ ∀ i b, msg[i]? = some b → mem i = b := by
  unfold Stores
  constructor
  · intro h i b hb
    obtain ⟨hi, -⟩ := List.getElem?_eq_some_iff.1 hb
    rw [← h, List.getElem?_map, List.getElem?_range hi] at hb
    simpa using hb
  · intro h
    apply List.ext_getElem (by simp)
    intro i hi hi'
    simpa using h i _ (List.getElem?_eq_getElem hi')

/-- The next slot, in slot units. -/
theorem next_slot {i : ℕ} (hi : i < pool.msgmaxcnt) (hsz : 0 < pool.msgsz) :
    pool.next (i * pool.msgsz) = (i + 1) % pool.msgmaxcnt * pool.msgsz := by
  have hsucc : i * pool.msgsz + pool.msgsz = (i + 1) * pool.msgsz := by ring
  rw [MsgPool.next, hsucc]
  by_cases hlast : i + 1 = pool.msgmaxcnt
  · rw [if_pos (by rw [hlast]), hlast, Nat.mod_self, zero_mul]
  · have hlt : i + 1 < pool.msgmaxcnt := by omega
    rw [if_neg (not_le.2 (Nat.mul_lt_mul_of_pos_right hlt hsz)), Nat.mod_eq_of_lt hlt]

theorem HoldsFrom.max_lt (h : HoldsFrom pool queue t) : pool.msgmaxcnt < 4294967296 :=
  lt_of_le_of_lt (Nat.le_mul_of_pos_right _ h.msgsz) h.inMemory

/-- A copy into one slot leaves the first `msgsz` bytes of the others alone. -/
theorem slot_put_of_ne {buf : ℕ → UInt8} {size i h j : ℕ} (hhead : pool.head = h * pool.msgsz)
    (hne : i ≠ h) (hj : j < pool.msgsz) : (pool.put buf size).slot i j = pool.slot i j := by
  have hmin := min_le_left pool.msgsz size
  show memcpy pool.msgbuf pool.head buf (min pool.msgsz size) (i * pool.msgsz + j) = _
  apply memcpy_of_not_mem
  rw [hhead]
  rintro ⟨hlow, hhigh⟩
  rcases lt_or_gt_of_ne hne with hlt | hgt
  · have : (i + 1) * pool.msgsz ≤ h * pool.msgsz := Nat.mul_le_mul_right _ hlt
    rw [Nat.add_mul] at this
    omega
  · have : (h + 1) * pool.msgsz ≤ i * pool.msgsz := Nat.mul_le_mul_right _ hgt
    rw [Nat.add_mul] at this
    omega

/-- The slot of the copy gets the message. -/
theorem stores_put {buf : ℕ → UInt8} {size h : ℕ} (hhead : pool.head = h * pool.msgsz) :
    Stores ((pool.put buf size).slot h) ((List.range (min pool.msgsz size)).map buf) := by
  rw [stores_iff]
  intro i b hb
  obtain ⟨hi, -⟩ := List.getElem?_eq_some_iff.1 hb
  rw [List.length_map, List.length_range] at hi
  rw [List.getElem?_map, List.getElem?_range hi, Option.map_some, Option.some.injEq] at hb
  show memcpy pool.msgbuf pool.head buf (min pool.msgsz size) (h * pool.msgsz + i) = b
  rw [hhead, memcpy_of_mem (Nat.le_add_right _ _) (by omega), Nat.add_sub_cancel_left, hb]

/-- Slots less than a turn apart are different. -/
theorem mod_ne_of_lt {k n m : ℕ} (hk : k < n) (hn : n < m) : (t + k) % m ≠ (t + n) % m := by
  intro heq
  have hcancel : k ≡ n [MOD m] := Nat.ModEq.add_left_cancel' t heq
  rw [Nat.ModEq, Nat.mod_eq_of_lt (hk.trans hn), Nat.mod_eq_of_lt hn] at hcancel
  omega

/-- **A put** on a pool that is not full appends. -/
theorem holds_put (h : Holds pool queue) (hroom : pool.msgcount < pool.msgmaxcnt)
    (buf : ℕ → UInt8) (size : ℕ) :
    Holds (pool.put buf size) (queue ++ [(List.range (min pool.msgsz size)).map buf]) := by
  obtain ⟨t, h⟩ := h
  have hmax := h.max_lt
  have hpos : 0 < pool.msgmaxcnt := lt_of_le_of_lt (Nat.zero_le _) h.lt
  have hcount : (pool.put buf size).msgcount = pool.msgcount + 1 := Nat.mod_eq_of_lt (by omega)
  refine ⟨t, h.lt, h.tail, ?_, ?_, ?_, ?_, ?_, h.inMemory, h.msgsz⟩
  · rw [hcount]
    show pool.next pool.head = (t + (pool.msgcount + 1)) % pool.msgmaxcnt * pool.msgsz
    rw [h.head, next_slot (Nat.mod_lt _ hpos) h.msgsz, Nat.mod_add_mod, ← Nat.add_assoc]
  · rw [hcount, List.length_append, h.count, List.length_singleton]
  · rw [hcount]
    exact hroom
  · intro k msg hk
    show Stores ((pool.put buf size).slot ((t + k) % pool.msgmaxcnt)) msg
    by_cases hlast : k < queue.length
    · rw [List.getElem?_append_left hlast] at hk
      have hne : (t + k) % pool.msgmaxcnt ≠ (t + pool.msgcount) % pool.msgmaxcnt :=
        mod_ne_of_lt (by rw [h.count]; exact hlast) hroom
      rw [stores_iff]
      intro i b hb
      obtain ⟨hi, -⟩ := List.getElem?_eq_some_iff.1 hb
      have hfits := h.fits msg (List.mem_of_getElem? hk)
      rw [slot_put_of_ne h.head hne (by omega)]
      exact stores_iff.1 (h.slots k msg hk) i b hb
    · obtain rfl : k = queue.length := by
        have hk' := (List.getElem?_eq_some_iff.1 hk).1
        rw [List.length_append, List.length_singleton] at hk'
        omega
      rw [List.getElem?_concat_length, Option.some.injEq] at hk
      rw [← hk, ← h.count]
      exact stores_put h.head
  · intro msg hmsg
    show msg.length ≤ pool.msgsz
    rcases List.mem_append.1 hmsg with hmsg | hmsg
    · exact h.fits msg hmsg
    · rw [List.mem_singleton.1 hmsg, List.length_map, List.length_range]
      exact min_le_left _ _

/-- **A get** on a pool that is not empty takes the oldest message. -/
theorem holds_get (h : Holds pool queue) (hsome : 0 < pool.msgcount) :
    ∃ msg rest, queue = msg :: rest ∧ Stores pool.front msg ∧ Holds pool.drop rest := by
  obtain ⟨t, h⟩ := h
  have hmax := h.max_lt
  have hbound := h.bound
  have hpos : 0 < pool.msgmaxcnt := lt_of_le_of_lt (Nat.zero_le _) h.lt
  cases queue with
  | nil =>
      rw [h.count] at hsome
      exact absurd hsome (lt_irrefl 0)
  | cons msg rest =>
      have hlen : pool.msgcount = rest.length + 1 := h.count
      have hcount : pool.drop.msgcount = rest.length := by
        show pool.msgcount - 1 = rest.length
        omega
      refine ⟨msg, rest, rfl, ?_, (t + 1) % pool.msgmaxcnt, Nat.mod_lt _ hpos, ?_, ?_, hcount, ?_,
        ?_, fun m hm => h.fits m (List.mem_cons_of_mem _ hm), h.inMemory, h.msgsz⟩
      · have hfirst := h.slots 0 msg rfl
        rw [Nat.add_zero, Nat.mod_eq_of_lt h.lt] at hfirst
        have hfront : pool.front = pool.slot t := by
          unfold MsgPool.front MsgPool.slot
          rw [h.tail]
        rw [hfront]
        exact hfirst
      · show pool.next pool.tail = _
        rw [h.tail]
        exact next_slot h.lt h.msgsz
      · rw [hcount]
        show pool.head = ((t + 1) % pool.msgmaxcnt + rest.length) % pool.msgmaxcnt * pool.msgsz
        rw [h.head, Nat.mod_add_mod, hlen]
        congr 2
        omega
      · rw [hcount]
        show rest.length ≤ pool.msgmaxcnt
        omega
      · intro k m hk
        show Stores (pool.slot (((t + 1) % pool.msgmaxcnt + k) % pool.msgmaxcnt)) m
        rw [Nat.mod_add_mod, Nat.add_assoc, Nat.add_comm 1 k]
        exact h.slots (k + 1) m (by rw [List.getElem?_cons_succ]; exact hk)

/-- A new pool is empty. -/
theorem holds_create {msgsz msgcount : ℕ} {mem : ℕ → UInt8}
    (hmem : msgcount * msgsz < 4294967296) (h : msgpoolCreate msgsz msgcount mem = some pool) :
    Holds pool [] := by
  unfold msgpoolCreate at h
  split_ifs at h with hzero
  rw [Option.some.injEq] at h
  subst h
  rw [not_or] at hzero
  have hpos := Nat.pos_of_ne_zero hzero.2
  refine ⟨0, hpos, (zero_mul _).symm, ?_, rfl, Nat.zero_le _, ?_, ?_, hmem,
    Nat.pos_of_ne_zero hzero.1⟩
  · show 0 = (0 + 0) % msgcount * msgsz
    rw [Nat.zero_mod, zero_mul]
  · intro k msg hk
    rw [List.getElem?_nil] at hk
    exact absurd hk (by simp)
  · exact fun msg hmsg => absurd hmsg List.not_mem_nil

end Pool

/-! ## Runs -/

/-- The pool holds what was accepted and not retrieved, in order; what was retrieved is what was
accepted first. -/
def FifoOk (s : PoolState) : Prop :=
  ∃ taken queue, s.accepted = taken ++ queue ∧
    List.Forall₂ (fun r msg => Stores r.slot msg) s.retrieved taken ∧ Holds s.pool queue

/-- A put that goes on after its yield finds a free slot. -/
def PoolCallOk (s : PoolState) : PoolCall → Prop
  | .resume task => (s.pc task matches .putting _ _) → s.pool.msgcount < s.pool.msgmaxcnt
  | _ => True

instance (s : PoolState) : DecidablePred (PoolCallOk s)
  | .resume task =>
      inferInstanceAs (Decidable ((s.pc task matches .putting _ _) →
        s.pool.msgcount < s.pool.msgmaxcnt))
  | .put _ _ _ => isTrue trivial
  | .tryPut _ _ _ => isTrue trivial
  | .get _ _ => isTrue trivial
  | .tryGet _ _ => isTrue trivial

section Runs

variable {s s' : PoolState}

/-- **A section** leaves the pool alone, puts a message or takes one. -/
theorem poolStep_cases {call : PoolCall} (h : poolStep s call = some s') :
    (s'.pool = s.pool ∧ s'.accepted = s.accepted ∧ s'.retrieved = s.retrieved) ∨
      (∃ task buf size, s' = doPut s task buf size ∧
        (s.pool.msgcount < s.pool.msgmaxcnt ∨
          call = .resume task ∧ s.pc task = .putting buf size)) ∨
      ∃ task args, s' = doGet s task args ∧ 0 < s.pool.msgcount := by
  have hget : ∀ task args, msgpoolGet s task args = s' →
      (s'.pool = s.pool ∧ s'.accepted = s.accepted ∧ s'.retrieved = s.retrieved) ∨
        s' = doGet s task args ∧ 0 < s.pool.msgcount := by
    intro task args h
    unfold msgpoolGet at h
    split_ifs at h with hempty
    · exact Or.inl ⟨by rw [← h], by rw [← h], by rw [← h]⟩
    · exact Or.inr ⟨h.symm, by simpa [msgpoolEmpty, Nat.pos_iff_ne_zero] using hempty⟩
  unfold poolStep at h
  split at h
  next task buf size hpc =>
    rw [Option.some.injEq] at h
    unfold msgpoolPut at h
    cases buf with
    | none => exact Or.inl ⟨by rw [← h], by rw [← h], by rw [← h]⟩
    | some buf =>
        dsimp only at h
        split_ifs at h with hfull
        · exact Or.inl ⟨by rw [← h], by rw [← h], by rw [← h]⟩
        · exact Or.inr (Or.inl ⟨task, buf, size, h.symm,
            Or.inl (by simpa [msgpoolFull] using hfull)⟩)
  next task buf size hpc =>
    rw [Option.some.injEq] at h
    unfold msgpoolTryPut at h
    split_ifs at h with hfull
    · exact Or.inl ⟨by rw [← h], by rw [← h], by rw [← h]⟩
    · exact Or.inr (Or.inl ⟨task, buf, size, h.symm, Or.inl (by simpa [msgpoolFull] using hfull)⟩)
  next task args hpc =>
    rw [Option.some.injEq] at h
    exact (hget task args h).imp_right fun h => Or.inr ⟨task, args, h⟩
  next task args hpc =>
    rw [Option.some.injEq] at h
    unfold msgpoolTryGet at h
    split_ifs at h with hempty
    · exact Or.inl ⟨by rw [← h], by rw [← h], by rw [← h]⟩
    · exact Or.inr (Or.inr ⟨task, args, h.symm,
        by simpa [msgpoolEmpty, Nat.pos_iff_ne_zero] using hempty⟩)
  next task buf size hpc =>
    rw [Option.some.injEq] at h
    exact Or.inr (Or.inl ⟨task, buf, size, h.symm, Or.inr ⟨rfl, hpc⟩⟩)
  next task args hpc =>
    rw [Option.some.injEq] at h
    exact (hget task args h).imp_right fun h => Or.inr ⟨task, args, h⟩
  next => cases h

theorem fifoOk_step (s : PoolState) (call : PoolCall) (s' : PoolState) (h : FifoOk s)
    (hok : PoolCallOk s call) (hstep : poolStep s call = some s') : FifoOk s' := by
  obtain ⟨taken, queue, haccepted, hretrieved, hpool⟩ := h
  rcases poolStep_cases hstep with ⟨hp, ha, hr⟩ | ⟨task, buf, size, rfl, hroom⟩ | ⟨task, args, rfl,
    hsome⟩
  · exact ⟨taken, queue,
      by rw [ha, haccepted], by rw [hr]; exact hretrieved, by rw [hp]; exact hpool⟩
  · have hroom : s.pool.msgcount < s.pool.msgmaxcnt := by
      rcases hroom with hroom | ⟨rfl, hpc⟩
      · exact hroom
      · exact hok (by rw [hpc])
    refine ⟨taken, _, ?_, hretrieved, holds_put hpool hroom buf size⟩
    show s.accepted ++ _ = _
    rw [haccepted, List.append_assoc]
  · obtain ⟨msg, rest, rfl, hstores, hdrop⟩ := holds_get hpool hsome
    refine ⟨taken ++ [msg], rest, ?_, ?_, hdrop⟩
    · show s.accepted = _
      rw [haccepted, List.append_assoc, List.singleton_append]
    · exact List.rel_append hretrieved (List.Forall₂.cons hstores List.Forall₂.nil)

end Runs

/-- **A bounded queue.**  In every run in which each put that goes on after its yield finds a free
slot, the pool holds exactly the messages accepted and not yet retrieved, oldest first from the
tail on, and each retrieval found the message accepted in its turn. -/
theorem msgpool_fifo (msgsz msgcount : ℕ) (mem : ℕ → UInt8) (pool : MsgPool)
    (hmem : msgcount * msgsz < 4294967296) (hcreate : msgpoolCreate msgsz msgcount mem = some pool)
    (calls : List PoolCall) (s : PoolState)
    (hok : Run.Along poolStep PoolCallOk (poolInit pool) calls)
    (hrun : Run.exec poolStep (poolInit pool) calls = some s) : FifoOk s :=
  Run.exec_invariant fifoOk_step calls (poolInit pool) s
    ⟨[], [], rfl, List.Forall₂.nil, holds_create hmem hcreate⟩ hok hrun

/-- A pool of one slot of one byte. -/
def tinyPool : MsgPool := ⟨1, 0, 1, 0, 0, memcpy (fun _ => 0) 0 (fun _ => 0) 1⟩

/-- The second put yields; the slot is free when it goes on. -/
def handOver : List PoolCall :=
  [.put 0 (some fun _ => 7) 1, .put 1 (some fun _ => 8) 1, .get 2 ⟨some fun _ => 0, none⟩,
    .resume 1, .get 2 ⟨some fun _ => 0, none⟩]

theorem msgpool_fifo_tinyPool : ∃ s, Run.exec poolStep (poolInit tinyPool) handOver = some s ∧
    s.accepted = [[7], [8]] ∧ s.retrieved.length = 2 ∧ FifoOk s := by
  obtain ⟨s, hs, haccepted, hretrieved⟩ : ∃ s,
      Run.exec poolStep (poolInit tinyPool) handOver = some s ∧
        s.accepted = [[7], [8]] ∧ s.retrieved.length = 2 := ⟨_, rfl, by decide, by decide⟩
  exact ⟨s, hs, haccepted, hretrieved, msgpool_fifo 1 1 (fun _ => 0) tinyPool (by decide) rfl
    handOver s
    (by decide +kernel) hs⟩

/-- The second put goes on into the full pool: the pool of one slot counts two messages and the
first is gone. -/
theorem msgpool_not_fifo : ∃ s, Run.exec poolStep (poolInit tinyPool)
      [.put 0 (some fun _ => 7) 1, .put 1 (some fun _ => 8) 1, .resume 1] = some s ∧
    s.accepted = [[7], [8]] ∧ s.pool.msgcount = 2 ∧ s.pool.msgmaxcnt = 1 ∧ s.pool.front 0 = 8 ∧
    ¬ FifoOk s := by
  refine ⟨_, rfl, by decide, by decide, by decide, by decide, ?_⟩
  rintro ⟨taken, queue, -, -, t, hpool⟩
  exact absurd hpool.bound (by decide)

end Msgpool
end LightOS
