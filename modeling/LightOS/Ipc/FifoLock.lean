import LightOS.Ipc.FifoBasic

/-!
# Named FIFOs: the lock

Any number of tasks make any of the calls of `ipc/fifo.c`, one step of one of them at a time.

* `fifoProg_owes` — on every path of every call each down of `fifo_mutex` is made up for by one up,
  as long as the try of `fifo_remove` does not fail.
* `fifo_lock_balanced` — so the semaphore guards the table in every run in which no try fails and
  no task that waits for the semaphore is woken by anybody but the one who hands it over.
* `fifoRemove_untaken` — a try that fails ends that.
-/

namespace LightOS
namespace NamedFifo

open LockProg

/-- The calls. -/
inductive FifoOp where
  | get (name : Option (List UInt8)) (flags : BitVec 32)
  | make (name : List UInt8) (mem : Bool)
  | remove (name : List UInt8)
  | put (fifoid : ℤ)
  | write (fifoid : ℤ) (buffer : Bool) (size : BitVec 32) (rounds : ℕ)
  | read (fifoid : ℤ) (buffer : Bool) (size : BitVec 32) (rounds : ℕ)
  | ctl (fifoid : ℤ) (cmd arg : BitVec 32)
  | incref (fifoid : ℤ)
  | decref (fifoid : ℤ)

/-- What a task does in a call. -/
def fifoProg (task : ℕ) : FifoOp → FifoProg
  | .get name flags => fifoGet task name flags
  | .make name mem => fifoMake name mem
  | .remove name => fifoRemove name
  | .put fifoid => fifoPut task fifoid
  | .write fifoid buffer size rounds => fifoWrite task fifoid buffer size rounds
  | .read fifoid buffer size rounds => fifoRead task fifoid buffer size rounds
  | .ctl fifoid cmd arg => fifoCtl task fifoid cmd arg
  | .incref fifoid => fifoIncref task fifoid
  | .decref fifoid => fifoDecref task fifoid

/-! ## What the calls owe -/

section Owes

variable {n : ℤ} {k : FifoProg}

theorem lockFifo_owes (i : ℕ) (h : k.Owes n) : (lockFifo i k).Owes n := fun _ => h

theorem unlockFifo_owes (i : ℕ) (h : k.Owes n) : (unlockFifo i k).Owes n := fun _ => h

theorem openReader_owes (task i : ℕ) (nowait : Bool) (h : k.Owes n) :
    (openReader task i nowait k).Owes n := fun _ => Prog.owes_unblock (Prog.owes_change h)

theorem underMutex_owes (fifoid : ℤ) (body : NFifo → NFifo × ℤ) :
    (underMutex fifoid body).Owes 0 := by
  refine ⟨rfl, Prog.owes_look fun T => ?_⟩
  split
  · exact ⟨rfl, rfl⟩
  · exact lockFifo_owes _ (Prog.owes_call fun r => unlockFifo_owes _ ⟨rfl, rfl⟩)

theorem fifoWriteEnd_owes (i : ℕ) (wrsize : ℤ) : (fifoWriteEnd i wrsize).Owes 0 := by
  refine Prog.owes_look fun T => ?_
  split_ifs
  · exact Prog.owes_stop rfl
  · exact Prog.owes_unblock (Prog.owes_change (unlockFifo_owes i rfl))

/-- The loop of a write does not touch the semaphore, however many rounds it makes. -/
theorem fifoWriteLoop_owes (i rounds : ℕ) (leftSize wrsize : ℤ) :
    (fifoWriteLoop i rounds leftSize wrsize).Owes 0 := by
  induction rounds generalizing leftSize wrsize with
  | zero => exact Prog.owes_stop rfl
  | succ rounds ih =>
      rw [fifoWriteLoop]
      split_ifs
      · exact fifoWriteEnd_owes i wrsize
      · refine Prog.owes_look fun T => ?_
        simp only
        split
        · exact Prog.owes_stop rfl
        · split_ifs
          · exact Prog.owes_change (unlockFifo_owes i rfl)
          · exact unlockFifo_owes i rfl
          · exact Prog.owes_unblock (unlockFifo_owes i (Prog.owes_block (lockFifo_owes i (ih _ _))))
          · exact Prog.owes_change (ih _ _)

theorem fifoWriteTransfer_owes (task i : ℕ) (size : BitVec 32) (rounds : ℕ) :
    (fifoWriteTransfer task i size rounds).Owes 0 := by
  refine Prog.owes_look fun T => ?_
  simp only
  split_ifs
  · exact rfl
  · exact rfl
  · refine Prog.owes_change (Prog.owes_look fun T => ?_)
    have htransfer := lockFifo_owes i (fifoWriteLoop_owes i rounds size.toInt 0)
    split_ifs
    · exact Prog.owes_block htransfer
    · exact htransfer

/-- The loop of a read does not touch the semaphore. -/
theorem fifoReadLoop_owes (task i : ℕ) (size : BitVec 32) (rounds : ℕ) :
    (fifoReadLoop task i size rounds).Owes 0 := by
  induction rounds with
  | zero => exact Prog.owes_stop rfl
  | succ rounds ih =>
      rw [fifoReadLoop]
      refine Prog.owes_look fun T => ?_
      simp only
      split
      · exact Prog.owes_stop rfl
      · split_ifs
        · exact Prog.owes_change (unlockFifo_owes i rfl)
        · exact unlockFifo_owes i rfl
        · exact unlockFifo_owes i rfl
        · exact unlockFifo_owes i (Prog.owes_block (lockFifo_owes i ih))
        · exact Prog.owes_change (Prog.owes_unblock (Prog.owes_change (unlockFifo_owes i rfl)))

theorem fifoReadTransfer_owes (task i : ℕ) (size : BitVec 32) (rounds : ℕ) :
    (fifoReadTransfer task i size rounds).Owes 0 := by
  refine Prog.owes_look fun T => ?_
  simp only
  split_ifs
  · exact rfl
  · exact rfl
  · refine Prog.owes_change (Prog.owes_look fun T => ?_)
    split_ifs
    · exact rfl
    · exact lockFifo_owes i (fifoReadLoop_owes task i size rounds)

/-- **On every path of every call** a down of the semaphore is made up for by one up. -/
theorem fifoProg_owes (task : ℕ) (op : FifoOp) : (fifoProg task op).Owes 0 := by
  cases op with
  | get name flags =>
      cases name with
      | none => exact rfl
      | some name =>
          refine ⟨rfl, ?_⟩
          split
          · refine Prog.owes_look fun T => ?_
            split
            · exact ⟨rfl, rfl⟩
            · split_ifs
              · exact ⟨rfl, rfl⟩
              · exact openReader_owes _ _ _ ⟨rfl, rfl⟩
              · exact Prog.owes_change ⟨rfl, rfl⟩
              · exact ⟨rfl, rfl⟩
          · exact ⟨rfl, rfl⟩
  | make name mem =>
      rw [fifoProg, fifoMake]
      split_ifs
      · exact rfl
      · exact ⟨rfl, Prog.owes_call fun r => ⟨rfl, rfl⟩⟩
  | remove name =>
      rw [fifoProg, fifoRemove]
      split_ifs
      · exact rfl
      · exact ⟨rfl, Prog.owes_call fun r => ⟨rfl, rfl⟩⟩
  | put fifoid => exact underMutex_owes fifoid fun f => (fifoPutBody task f, 0)
  | write fifoid buffer size rounds =>
      rw [fifoProg, fifoWrite]
      split_ifs
      · exact rfl
      · refine ⟨rfl, Prog.owes_look fun T => ?_⟩
        split
        · exact ⟨rfl, rfl⟩
        · exact ⟨rfl, fifoWriteTransfer_owes task _ size rounds⟩
  | read fifoid buffer size rounds =>
      rw [fifoProg, fifoRead]
      split_ifs
      · exact rfl
      · refine ⟨rfl, Prog.owes_look fun T => ?_⟩
        split
        · exact ⟨rfl, rfl⟩
        · exact ⟨rfl, fifoReadTransfer_owes task _ size rounds⟩
  | ctl fifoid cmd arg =>
      rw [fifoProg, fifoCtl]
      split_ifs
      · exact underMutex_owes fifoid _
      · exact underMutex_owes fifoid _
      · exact rfl
  | incref fifoid => exact underMutex_owes fifoid _
  | decref fifoid => exact underMutex_owes fifoid _

end Owes

/-! ## Runs -/

/-- A task begins a call, or makes a step in it; or a task is woken by something else, or an
exception for it is pending or is not. -/
inductive FifoEvent where
  | call (t : ℕ) (op : FifoOp)
  | run (t : ℕ)
  | wake (t : ℕ)
  | exception (t : ℕ) (exits : Bool)

/-- The event of the programs. -/
def FifoEvent.toEvent : FifoEvent → Event ℕ FifoTable
  | .call t op => .call t (fifoProg t op)
  | .run t => .run t
  | .wake t => .wake t
  | .exception t exits => .world fun T => { T with exits := Function.update T.exits t exits }

/-- One event. -/
def fifoStep (s : Sys ℕ FifoTable) (e : FifoEvent) : Option (Sys ℕ FifoTable) := s.step e.toEvent

/-- After `fifo_init`. -/
def fifoStart (raw : ℕ → NFifo) : Sys ℕ FifoTable := Sys.init (fifoInit raw)

/-- **When an event can be relied on**: a `fifo_remove` that tries finds the semaphore free, nobody
who waits for it is woken, and nothing comes between the lines of a down or an up that change its
list. -/
def FifoCalm (s : Sys ℕ FifoTable) (e : FifoEvent) : Prop := Calm s e.toEvent

instance (s : Sys ℕ FifoTable) (e : FifoEvent) : Decidable (FifoCalm s e) :=
  inferInstanceAs (Decidable (Calm s e.toEvent))

theorem lockInv_fifoStep (s : Sys ℕ FifoTable) (e : FifoEvent) (s' : Sys ℕ FifoTable)
    (h : LockInv s) (hcalm : FifoCalm s e) (hstep : fifoStep s e = some s') : LockInv s' := by
  refine lockInv_step s e.toEvent s' h hcalm ?_ hstep
  cases e with
  | call t op => exact fifoProg_owes t op
  | run t => trivial
  | wake t => trivial
  | exception t exits => trivial

/-- **The semaphore guards the table** in every run of any number of tasks in which `fifo_remove`
never finds it taken and nobody who waits for it is woken. -/
theorem fifo_lock_balanced (raw : ℕ → NFifo) (events : List FifoEvent) (s : Sys ℕ FifoTable)
    (hrun : Run.exec fifoStep (fifoStart raw) events = some s)
    (hcalm : Run.Along fifoStep FifoCalm (fifoStart raw) events) : LockOk s := by
  have : Nonempty FifoTable := ⟨fifoInit raw⟩
  have hinv : LockInv s :=
    Run.exec_invariant lockInv_fifoStep events _ s (lockInv_init (fifoInit raw)) hcalm hrun
  exact hinv.ok

/-- **What a failed try does**: the call that finds the semaphore taken gives it back and returns,
and the section is no longer guarded. -/
theorem fifoRemove_untaken {s : Sys ℕ FifoTable} {t : ℕ} {name : List UInt8} (hname : name ≠ [])
    (hprog : s.prog t = some (fifoRemove name)) (howed : s.owed t = 0) (htaken : s.value ≤ 0)
    (hnone : s.waiters = []) :
    ∃ s', Run.exec fifoStep s [.run t, .run t] = some s' ∧ ¬ LockOk s' := by
  rw [fifoRemove, if_neg hname] at hprog
  refine ⟨{ (s.next t (some (.up (.ret (-16)))) 0) with value := s.value + 1 }.next t
    (some (.ret (-16))) (-1), ?_, fun hok => ?_⟩
  · simp [Run.exec, fifoStep, FifoEvent.toEvent, Sys.step, Sys.runStep, Sys.next, hprog, howed,
      not_lt.2 htaken, hnone]
  · have hzero := hok.returned t (Or.inr ⟨-16, by simp [Sys.next]⟩)
    simp [Sys.next] at hzero

/-- A FIFO is made, opened, closed and removed, while another task waits for the semaphore and
writes in vain. -/
theorem fifo_lock_balanced_removed :
    ∃ s, Run.exec fifoStep (fifoStart zeroSlots)
        [.call 1 (.make [97] true), .run 1, .run 1, .run 1, .run 1,
          .call 1 (.get (some [97]) 0x21), .run 1, .call 2 (.write 1 true 8 4), .run 2, .run 2,
          .run 1, .run 1, .run 1, .run 1, .run 1, .run 1, .run 1,
          .run 2, .run 2, .run 2, .run 2, .run 2,
          .call 1 (.put 1), .run 1, .run 1, .run 1, .run 1, .run 1, .run 1, .run 1,
          .call 2 (.remove [97]), .run 2, .run 2, .run 2, .run 2] = some s ∧
      (s.store.slots 0).name = [] ∧ LockOk s := by
  have hsome : (Run.exec fifoStep (fifoStart zeroSlots)
        [.call 1 (.make [97] true), .run 1, .run 1, .run 1, .run 1,
          .call 1 (.get (some [97]) 0x21), .run 1, .call 2 (.write 1 true 8 4), .run 2, .run 2,
          .run 1, .run 1, .run 1, .run 1, .run 1, .run 1, .run 1,
          .run 2, .run 2, .run 2, .run 2, .run 2,
          .call 1 (.put 1), .run 1, .run 1, .run 1, .run 1, .run 1, .run 1, .run 1,
          .call 2 (.remove [97]), .run 2, .run 2, .run 2, .run 2]).map
      (fun s => (s.store.slots 0).name) = some [] := by decide +kernel
  obtain ⟨s, hs, hname⟩ := Option.map_eq_some_iff.1 hsome
  exact ⟨s, hs, hname, fifo_lock_balanced _ _ s hs (by decide +kernel)⟩

/-- While one task is in its section, another fails to remove a FIFO and gives the semaphore back
that it has not got; a third one enters. -/
theorem fifo_lock_not_balanced :
    ∃ s, Run.exec fifoStep (fifoStart zeroSlots)
        [.call 1 (.get (some [97]) 0x21), .run 1, .call 2 (.remove [97]), .run 2, .run 2,
          .call 3 (.get (some [97]) 0x41), .run 3] = some s ∧ ¬ LockOk s := by
  have hsome : (Run.exec fifoStep (fifoStart zeroSlots)
        [.call 1 (.get (some [97]) 0x21), .run 1, .call 2 (.remove [97]), .run 2, .run 2,
          .call 3 (.get (some [97]) 0x41), .run 3]).map (fun s => (s.owed 1, s.owed 3)) =
      some (1, 1) := by decide +kernel
  obtain ⟨s, hs, hvals⟩ := Option.map_eq_some_iff.1 hsome
  rw [Prod.mk.injEq] at hvals
  refine ⟨s, hs, fun hok => ?_⟩
  have hsame := hok.exclusive 1 3 (by omega) (by omega)
  omega

end NamedFifo
end LightOS
