import LightOS.Lib.Ring
import LightOS.Lib.Run
import LightOS.Lib.Threads

/-!
# The blocking byte queue

`lib/fifoio.c`: a ring of bytes between threads that put and threads that get, with a
semaphore for the free cells, one for the bytes, and a mutex around the ring.

The semaphores are counters that a thread gets past only while they are positive, and
the mutex is free or taken.  Between two of these steps any thread may run.  The tests of
the ring's length go through `bool`, which the headers define as `char`.

* `putBody_spec`, `getBody_spec` — the critical sections on a ring that has room, or a byte.
* `FifoIoInv.step` — every token is free, or with a thread, or stands for a byte in the ring.
* `fifoIo_ok_iff` — for which sizes nothing is ever dropped.
-/

namespace LightOS
namespace Fifoio

open Threads

/-! ## The queue -/

/-- `fifo_io_t`.  The pointers are offsets into the buffer; the two semaphores are their
counters. -/
structure FifoIo where
  buffer : ℕ → BitVec 8
  size : BitVec 32
  head : ℕ
  tail : ℕ
  count : BitVec 32
  full : ℤ
  empty : ℤ
  mutex : Bool

/-- `is_power_of_2`. -/
def isPowerOf2 (n : BitVec 32) : Bool := n != 0 && n &&& (n - 1) == 0

/-- `fifo_io_init`; `semaphore_init` takes an `int`. -/
def fifoIoInit (buffer : ℕ → BitVec 8) (size : BitVec 32) : Option FifoIo :=
  if isPowerOf2 size then
    some
      { buffer := fun i => if i < size.toNat then 0 else buffer i
        size := size
        head := 0
        tail := 0
        count := 0
        full := 0
        empty := size.toInt
        mutex := false }
  else none

/-- A value returned as `bool`: its low byte, with a sign. -/
def asBool (n : BitVec 32) : ℤ := (n.setWidth 8).toInt

/-- `fifo_io_len`. -/
def fifoIoLen (f : FifoIo) : ℤ := asBool f.count

/-- `fifo_io_avali`. -/
def fifoIoAvali (f : FifoIo) : ℤ := asBool (f.size - f.count)

/-- A pointer one further on, or back at the start of the buffer. -/
def advance (f : FifoIo) (p : ℕ) : ℕ := if f.size.toNat ≤ p + 1 then 0 else p + 1

/-- The critical section of `fifo_io_put`. -/
def putBody (f : FifoIo) (data : BitVec 8) : FifoIo :=
  if 0 < fifoIoAvali f then
    { f with
      buffer := Function.update f.buffer f.head data
      head := advance f f.head
      count := f.count + 1 }
  else f

/-- The critical section of `fifo_io_get`. -/
def getBody (f : FifoIo) : FifoIo × BitVec 8 :=
  if 0 < fifoIoLen f then
    ({ f with tail := advance f f.tail, count := f.count - 1 }, f.buffer f.tail)
  else (f, 0)

/-! ## Threads -/

/-- Where a thread is. -/
inductive Pc where
  | out
  | putDown (data : BitVec 8)
  | putLock (data : BitVec 8)
  | putBody (data : BitVec 8)
  | putUnlock
  | putUp
  | getDown
  | getLock
  | getBody
  | getUnlock (data : BitVec 8)
  | getUp (data : BitVec 8)
  deriving DecidableEq

/-- A thread makes a call, or goes on with the one it is in. -/
inductive Event (τ : Type) where
  | put (t : τ) (data : BitVec 8)
  | get (t : τ)
  | run (t : τ)

/-- The queue, the threads, and the history: the bytes of the puts and of the gets in the order of
their critical sections, and how often a test of the length failed. -/
structure FifoIoRun (τ : Type) where
  fifo : FifoIo
  pc : τ → Pc
  puts : List (BitVec 8)
  gets : List (BitVec 8)
  skipped : ℕ

section Step

variable {τ : Type} [DecidableEq τ]

/-- A thread is at another place. -/
def FifoIoRun.goto (s : FifoIoRun τ) (t : τ) (k : Pc) : FifoIoRun τ :=
  { s with pc := Function.update s.pc t k }

/-- A thread goes on; it does not while its semaphore is not positive, or its mutex taken. -/
def runStep (s : FifoIoRun τ) (t : τ) : Option (FifoIoRun τ) :=
  match s.pc t with
  | .out => none
  | .putDown data =>
      if 0 < s.fifo.empty then
        some ({ s with fifo := { s.fifo with empty := s.fifo.empty - 1 } }.goto t (.putLock data))
      else none
  | .putLock data =>
      if s.fifo.mutex then none
      else some ({ s with fifo := { s.fifo with mutex := true } }.goto t (.putBody data))
  | .putBody data =>
      some ({ s with
        fifo := putBody s.fifo data
        puts := s.puts ++ [data]
        skipped := if 0 < fifoIoAvali s.fifo then s.skipped else s.skipped + 1 }.goto t .putUnlock)
  | .putUnlock => some ({ s with fifo := { s.fifo with mutex := false } }.goto t .putUp)
  | .putUp => some ({ s with fifo := { s.fifo with full := s.fifo.full + 1 } }.goto t .out)
  | .getDown =>
      if 0 < s.fifo.full then
        some ({ s with fifo := { s.fifo with full := s.fifo.full - 1 } }.goto t .getLock)
      else none
  | .getLock =>
      if s.fifo.mutex then none
      else some ({ s with fifo := { s.fifo with mutex := true } }.goto t .getBody)
  | .getBody =>
      some ({ s with
        fifo := (getBody s.fifo).1
        gets := s.gets ++ [(getBody s.fifo).2]
        skipped := if 0 < fifoIoLen s.fifo then s.skipped else s.skipped + 1 }.goto t
          (.getUnlock (getBody s.fifo).2))
  | .getUnlock data => some ({ s with fifo := { s.fifo with mutex := false } }.goto t (.getUp data))
  | .getUp _ => some ({ s with fifo := { s.fifo with empty := s.fifo.empty + 1 } }.goto t .out)

/-- One event. -/
def fifoIoStep (s : FifoIoRun τ) : Event τ → Option (FifoIoRun τ)
  | .put t data => if s.pc t = .out then some (s.goto t (.putDown data)) else none
  | .get t => if s.pc t = .out then some (s.goto t .getDown) else none
  | .run t => runStep s t

/-- Before the first call. -/
def fifoIoStart (τ : Type) (f : FifoIo) : FifoIoRun τ := ⟨f, fun _ => .out, [], [], 0⟩

end Step

/-- **What the queue promises**: the ring is consistent, no test of its length has failed, and the
bytes that were got are the first of those that were put. -/
structure FifoIoOk {τ : Type} (s : FifoIoRun τ) : Prop where
  count_le : s.fifo.count.toNat ≤ s.fifo.size.toNat
  head_eq : s.fifo.head = (s.fifo.tail + s.fifo.count.toNat) % s.fifo.size.toNat
  skipped_eq : s.skipped = 0
  gets_first : s.gets <+: s.puts

/-! ## The ring -/

theorem asBool_of_lt {n : BitVec 32} (h : n.toNat < 128) : asBool n = n.toNat := by
  rw [asBool, BitVec.toInt_eq_toNat_cond, BitVec.toNat_setWidth]
  have hmod : n.toNat % 2 ^ 8 = n.toNat := Nat.mod_eq_of_lt (by omega)
  rw [hmod, if_pos (by omega)]

/-- The bytes in the ring. -/
def FifoIo.contents (f : FifoIo) : List (BitVec 8) :=
  Ring.contents f.buffer f.size.toNat f.tail f.count.toNat

/-- The pointers are in the buffer, as far apart as the count says. -/
structure RingOk (f : FifoIo) : Prop where
  tail_lt : f.tail < f.size.toNat
  count_le : f.count.toNat ≤ f.size.toNat
  head_eq : f.head = (f.tail + f.count.toNat) % f.size.toNat

theorem advance_eq {f : FifoIo} {p : ℕ} (h : p < f.size.toNat) :
    advance f p = (p + 1) % f.size.toNat := by
  unfold advance
  split_ifs with hwrap
  · have hsize : p + 1 = f.size.toNat := by omega
    rw [hsize, Nat.mod_self]
  · rw [Nat.mod_eq_of_lt (by omega)]

section Bodies

variable {f : FifoIo}

/-- **The critical section of a put**, when there is room. -/
theorem putBody_spec (h : RingOk f) (hsize : f.size.toNat < 128)
    (hroom : f.count.toNat < f.size.toNat) (data : BitVec 8) :
    0 < fifoIoAvali f ∧ RingOk (putBody f data) ∧
      (putBody f data).count.toNat = f.count.toNat + 1 ∧
      (putBody f data).contents = f.contents ++ [data] := by
  have hleft : (f.size - f.count).toNat = f.size.toNat - f.count.toNat :=
    BitVec.toNat_sub_of_le (by rw [BitVec.le_def]; omega)
  have hpos : 0 < fifoIoAvali f := by
    rw [fifoIoAvali, asBool_of_lt (by omega), hleft]
    omega
  have hcount : (f.count + 1).toNat = f.count.toNat + 1 := by
    rw [BitVec.toNat_add]
    exact Nat.mod_eq_of_lt (by simp; omega)
  have hhead : f.head < f.size.toNat := by
    rw [h.head_eq]
    exact Nat.mod_lt _ (by omega)
  rw [putBody, if_pos hpos]
  refine ⟨hpos, ⟨h.tail_lt, ?_, ?_⟩, hcount, ?_⟩
  · show (f.count + 1).toNat ≤ f.size.toNat
    omega
  · show advance f f.head = (f.tail + (f.count + 1).toNat) % f.size.toNat
    rw [advance_eq hhead, hcount, h.head_eq, Nat.mod_add_mod, Nat.add_assoc]
  · show Ring.contents (Function.update f.buffer f.head data) f.size.toNat f.tail
      (f.count + 1).toNat =
      Ring.contents f.buffer f.size.toNat f.tail f.count.toNat ++ [data]
    rw [hcount, h.head_eq, Ring.contents_push _ _ hroom]

/-- **The critical section of a get**, when there is a byte. -/
theorem getBody_spec (h : RingOk f) (hsize : f.size.toNat < 128) (hsome : 0 < f.count.toNat) :
    0 < fifoIoLen f ∧ RingOk (getBody f).1 ∧ (getBody f).1.count.toNat + 1 = f.count.toNat ∧
      f.contents = (getBody f).2 :: (getBody f).1.contents := by
  have hle := h.count_le
  have hpos : 0 < fifoIoLen f := by
    rw [fifoIoLen, asBool_of_lt (by omega)]
    omega
  have hcount : (f.count - 1).toNat + 1 = f.count.toNat := by
    rw [BitVec.toNat_sub_of_le (by rw [BitVec.le_def]; exact hsome)]
    have hone : (1 : BitVec 32).toNat = 1 := rfl
    omega
  have htail : advance f f.tail < f.size.toNat := by
    rw [advance_eq h.tail_lt]
    exact Nat.mod_lt _ (by omega)
  rw [getBody, if_pos hpos]
  refine ⟨hpos, ⟨htail, ?_, ?_⟩, hcount, ?_⟩
  · show (f.count - 1).toNat ≤ f.size.toNat
    omega
  · show f.head = (advance f f.tail + (f.count - 1).toNat) % f.size.toNat
    rw [h.head_eq, advance_eq h.tail_lt, Nat.mod_add_mod, ← hcount]
    congr 1
    omega
  · show Ring.contents f.buffer f.size.toNat f.tail f.count.toNat =
      f.buffer f.tail :: Ring.contents f.buffer f.size.toNat (advance f f.tail) (f.count - 1).toNat
    rw [← hcount, Ring.contents_succ, Nat.mod_eq_of_lt h.tail_lt]
    congr 1
    refine Ring.contents_congr _ ?_ _
    rw [advance_eq h.tail_lt, Nat.mod_mod]

@[simp] theorem putBody_size (f : FifoIo) (data : BitVec 8) : (putBody f data).size = f.size := by
  unfold putBody
  split_ifs <;> rfl

@[simp] theorem putBody_full (f : FifoIo) (data : BitVec 8) : (putBody f data).full = f.full := by
  unfold putBody
  split_ifs <;> rfl

@[simp] theorem putBody_empty (f : FifoIo) (data : BitVec 8) :
    (putBody f data).empty = f.empty := by
  unfold putBody
  split_ifs <;> rfl

@[simp] theorem getBody_size (f : FifoIo) : (getBody f).1.size = f.size := by
  unfold getBody
  split_ifs <;> rfl

@[simp] theorem getBody_full (f : FifoIo) : (getBody f).1.full = f.full := by
  unfold getBody
  split_ifs <;> rfl

@[simp] theorem getBody_empty (f : FifoIo) : (getBody f).1.empty = f.empty := by
  unfold getBody
  split_ifs <;> rfl

end Bodies

/-! ## Tokens -/

/-- Where a thread has a token, or owes one. -/
inductive Region where
  | hasEmpty
  | owesFull
  | hasFull
  | owesEmpty

/-- The places of a region. -/
def Region.has : Region → Pc → Bool
  | .hasEmpty, .putLock _ => true
  | .hasEmpty, .putBody _ => true
  | .owesFull, .putUnlock => true
  | .owesFull, .putUp => true
  | .hasFull, .getLock => true
  | .hasFull, .getBody => true
  | .owesEmpty, .getUnlock _ => true
  | .owesEmpty, .getUp _ => true
  | _, _ => false

/-- What a thread at a place adds to the number of threads in a region. -/
def Region.weight (r : Region) (k : Pc) : ℤ := if r.has k = true then 1 else 0

/-- The threads in a region. -/
def Region.threads {τ : Type} (r : Region) (pc : τ → Pc) : Set τ :=
  inside (fun k => r.has k = true) pc

/-- The number of threads in a region. -/
noncomputable def tally {τ : Type} (r : Region) (pc : τ → Pc) : ℤ := (r.threads pc).ncard

/-- Every token is free, with a thread, or stands for a byte in the ring or for a free cell. -/
structure FifoIoInv {τ : Type} (s : FifoIoRun τ) : Prop where
  size_lt : s.fifo.size.toNat < 128
  ring : RingOk s.fifo
  finite : ∀ r : Region, (r.threads s.pc).Finite
  empty_nonneg : 0 ≤ s.fifo.empty
  full_nonneg : 0 ≤ s.fifo.full
  cells : s.fifo.empty + tally .hasEmpty s.pc + tally .owesEmpty s.pc + s.fifo.count.toNat =
    s.fifo.size.toNat
  bytes : s.fifo.full + tally .hasFull s.pc + tally .owesFull s.pc = s.fifo.count.toNat
  skipped_eq : s.skipped = 0
  history : s.puts = s.gets ++ s.fifo.contents

section Inv

variable {τ : Type} {s s' : FifoIoRun τ} {t : τ}

theorem tally_nonneg (r : Region) (pc : τ → Pc) : 0 ≤ tally r pc := Int.natCast_nonneg _

/-- A thread in a region is counted. -/
theorem one_le_tally {r : Region} {pc : τ → Pc} (hfin : (r.threads pc).Finite)
    (ht : r.has (pc t) = true) : 1 ≤ tally r pc := by
  have hpos : 0 < (r.threads pc).ncard := (Set.ncard_pos hfin).2 ⟨t, ht⟩
  unfold tally
  omega

/-- A put that has its token finds room. -/
theorem FifoIoInv.room (h : FifoIoInv s) (ht : Region.hasEmpty.has (s.pc t) = true) :
    s.fifo.count.toNat < s.fifo.size.toNat := by
  have hone := one_le_tally (h.finite .hasEmpty) ht
  have howes := tally_nonneg .owesEmpty s.pc
  have hempty := h.empty_nonneg
  have hcells := h.cells
  omega

/-- A get that has its token finds a byte. -/
theorem FifoIoInv.some_byte (h : FifoIoInv s) (ht : Region.hasFull.has (s.pc t) = true) :
    0 < s.fifo.count.toNat := by
  have hone := one_le_tally (h.finite .hasFull) ht
  have howes := tally_nonneg .owesFull s.pc
  have hfull := h.full_nonneg
  have hbytes := h.bytes
  omega

theorem FifoIoInv.ok (h : FifoIoInv s) : FifoIoOk s :=
  ⟨h.ring.count_le, h.ring.head_eq, h.skipped_eq, by rw [h.history]; exact List.prefix_append _ _⟩

variable [DecidableEq τ]

/-- **A thread moves** and changes the queue: the accounts are kept if the thread and the queue
together change nothing in them. -/
theorem FifoIoInv.move (h : FifoIoInv s) {k : Pc} (hpc : s'.pc = Function.update s.pc t k)
    (hsize : s'.fifo.size = s.fifo.size) (hring : RingOk s'.fifo) (hempty : 0 ≤ s'.fifo.empty)
    (hfull : 0 ≤ s'.fifo.full)
    (hcells : s'.fifo.empty + Region.hasEmpty.weight k + Region.owesEmpty.weight k +
        s'.fifo.count.toNat =
      s.fifo.empty + Region.hasEmpty.weight (s.pc t) + Region.owesEmpty.weight (s.pc t) +
        s.fifo.count.toNat)
    (hbytes : s'.fifo.full + Region.hasFull.weight k + Region.owesFull.weight k +
        s.fifo.count.toNat =
      s.fifo.full + Region.hasFull.weight (s.pc t) + Region.owesFull.weight (s.pc t) +
        s'.fifo.count.toNat)
    (hskipped : s'.skipped = 0) (hhistory : s'.puts = s'.gets ++ s'.fifo.contents) :
    FifoIoInv s' := by
  have hmove : ∀ r : Region, (r.threads s'.pc).Finite ∧
      tally r s'.pc + r.weight (s.pc t) = tally r s.pc + r.weight k := by
    intro r
    rw [hpc]
    exact ncard_move (h.finite r)
  have hold := h.cells
  have hold' := h.bytes
  have hne := (hmove .hasEmpty).2
  have hoe := (hmove .owesEmpty).2
  have hnf := (hmove .hasFull).2
  have hof := (hmove .owesFull).2
  exact ⟨by rw [hsize]; exact h.size_lt, hring, fun r => (hmove r).1, hempty, hfull,
    by rw [hsize]; omega, by omega, hskipped, hhistory⟩

/-- A thread moves and the ring stays as it is. -/
theorem FifoIoInv.pass (h : FifoIoInv s) (k : Pc) (e f : ℤ) (m : Bool) (hempty : 0 ≤ e)
    (hfull : 0 ≤ f)
    (hcells : e + Region.hasEmpty.weight k + Region.owesEmpty.weight k =
      s.fifo.empty + Region.hasEmpty.weight (s.pc t) + Region.owesEmpty.weight (s.pc t))
    (hbytes : f + Region.hasFull.weight k + Region.owesFull.weight k =
      s.fifo.full + Region.hasFull.weight (s.pc t) + Region.owesFull.weight (s.pc t)) :
    FifoIoInv
      ({ s with fifo := { s.fifo with empty := e, full := f, mutex := m } }.goto t k) :=
  h.move (t := t) rfl rfl ⟨h.ring.tail_lt, h.ring.count_le, h.ring.head_eq⟩ hempty hfull
    (congrArg (· + (s.fifo.count.toNat : ℤ)) hcells)
    (congrArg (· + (s.fifo.count.toNat : ℤ)) hbytes)
    h.skipped_eq h.history

/-- **A thread goes on**, and the account is kept. -/
theorem FifoIoInv.run (h : FifoIoInv s) (hstep : runStep s t = some s') : FifoIoInv s' := by
  have hempty := h.empty_nonneg
  have hfull := h.full_nonneg
  unfold runStep at hstep
  cases hpc : s.pc t with
  | out =>
      rw [hpc] at hstep
      cases hstep
  | putDown data =>
      simp only [hpc] at hstep
      split_ifs at hstep with hpos
      cases hstep
      apply h.pass (.putLock data) (s.fifo.empty - 1) s.fifo.full s.fifo.mutex (by omega) hfull
      · simp [hpc, Region.weight, Region.has]
      · simp [hpc, Region.weight, Region.has]
  | putLock data =>
      simp only [hpc] at hstep
      split_ifs at hstep with hlocked
      cases hstep
      apply h.pass (.putBody data) s.fifo.empty s.fifo.full true hempty hfull
      · simp [hpc, Region.weight, Region.has]
      · simp [hpc, Region.weight, Region.has]
  | putBody data =>
      simp only [hpc] at hstep
      cases hstep
      have hroom := h.room (t := t) (by rw [hpc]; rfl)
      obtain ⟨hpos, hring, hcount, hcontents⟩ := putBody_spec h.ring h.size_lt hroom data
      refine h.move (t := t) rfl (putBody_size _ _) hring ?_ ?_ ?_ ?_ ?_ ?_
      · simpa [FifoIoRun.goto] using hempty
      · simpa [FifoIoRun.goto] using hfull
      · simp [hpc, Region.weight, Region.has, FifoIoRun.goto, hcount]
        omega
      · simp [hpc, Region.weight, Region.has, FifoIoRun.goto, hcount]
        omega
      · simp [FifoIoRun.goto, hpos, h.skipped_eq]
      · simp [FifoIoRun.goto, hcontents, h.history]
  | putUnlock =>
      simp only [hpc] at hstep
      cases hstep
      apply h.pass .putUp s.fifo.empty s.fifo.full false hempty hfull
      · simp [hpc, Region.weight, Region.has]
      · simp [hpc, Region.weight, Region.has]
  | putUp =>
      simp only [hpc] at hstep
      cases hstep
      apply h.pass .out s.fifo.empty (s.fifo.full + 1) s.fifo.mutex hempty (by omega)
      · simp [hpc, Region.weight, Region.has]
      · simp [hpc, Region.weight, Region.has]
  | getDown =>
      simp only [hpc] at hstep
      split_ifs at hstep with hpos
      cases hstep
      apply h.pass .getLock s.fifo.empty (s.fifo.full - 1) s.fifo.mutex hempty (by omega)
      · simp [hpc, Region.weight, Region.has]
      · simp [hpc, Region.weight, Region.has]
  | getLock =>
      simp only [hpc] at hstep
      split_ifs at hstep with hlocked
      cases hstep
      apply h.pass .getBody s.fifo.empty s.fifo.full true hempty hfull
      · simp [hpc, Region.weight, Region.has]
      · simp [hpc, Region.weight, Region.has]
  | getBody =>
      simp only [hpc] at hstep
      cases hstep
      have hbyte := h.some_byte (t := t) (by rw [hpc]; rfl)
      obtain ⟨hpos, hring, hcount, hcontents⟩ := getBody_spec h.ring h.size_lt hbyte
      refine h.move (t := t) rfl (getBody_size _) hring ?_ ?_ ?_ ?_ ?_ ?_
      · simpa [FifoIoRun.goto] using hempty
      · simpa [FifoIoRun.goto] using hfull
      · simp [hpc, Region.weight, Region.has, FifoIoRun.goto]
        omega
      · simp [hpc, Region.weight, Region.has, FifoIoRun.goto]
        omega
      · simp [FifoIoRun.goto, hpos, h.skipped_eq]
      · simp [FifoIoRun.goto, hcontents, h.history]
  | getUnlock data =>
      simp only [hpc] at hstep
      cases hstep
      apply h.pass (.getUp data) s.fifo.empty s.fifo.full false hempty hfull
      · simp [hpc, Region.weight, Region.has]
      · simp [hpc, Region.weight, Region.has]
  | getUp data =>
      simp only [hpc] at hstep
      cases hstep
      apply h.pass .out (s.fifo.empty + 1) s.fifo.full s.fifo.mutex (by omega) hfull
      · simp [hpc, Region.weight, Region.has]
      · simp [hpc, Region.weight, Region.has]

/-- **One event keeps the account.** -/
theorem FifoIoInv.step (s : FifoIoRun τ) (e : Event τ) (s' : FifoIoRun τ) (h : FifoIoInv s)
    (hstep : fifoIoStep s e = some s') : FifoIoInv s' := by
  cases e with
  | put t data =>
      rw [fifoIoStep] at hstep
      split_ifs at hstep with hout
      cases hstep
      apply h.pass (.putDown data) s.fifo.empty s.fifo.full s.fifo.mutex h.empty_nonneg
        h.full_nonneg
      · simp [hout, Region.weight, Region.has]
      · simp [hout, Region.weight, Region.has]
  | get t =>
      rw [fifoIoStep] at hstep
      split_ifs at hstep with hout
      cases hstep
      apply h.pass .getDown s.fifo.empty s.fifo.full s.fifo.mutex h.empty_nonneg h.full_nonneg
      · simp [hout, Region.weight, Region.has]
      · simp [hout, Region.weight, Region.has]
  | run t => exact h.run hstep

end Inv

/-! ## All sizes -/

section Sizes

variable {τ : Type} [DecidableEq τ] {buffer : ℕ → BitVec 8} {size : BitVec 32} {f : FifoIo}

/-- The state after `fifo_io_init`. -/
theorem fifoIoInit_cases (h : fifoIoInit buffer size = some f) :
    isPowerOf2 size = true ∧ f.size = size ∧ f.head = 0 ∧ f.tail = 0 ∧ f.count = 0 ∧ f.full = 0 ∧
      f.empty = size.toInt ∧ f.mutex = false := by
  unfold fifoIoInit at h
  split_ifs at h with hpower
  cases h
  exact ⟨hpower, rfl, rfl, rfl, rfl, rfl, rfl, rfl⟩

/-- A size that is accepted is a power of two. -/
theorem exists_pow_of_isPowerOf2 (h : isPowerOf2 size = true) : ∃ k < 32, size.toNat = 2 ^ k := by
  simp only [isPowerOf2, Bool.and_eq_true, bne_iff_ne, beq_iff_eq] at h
  obtain ⟨hne, hand⟩ := h
  have hpos : size.toNat ≠ 0 := fun hzero => hne (BitVec.eq_of_toNat_eq hzero)
  have hsub : (size - 1).toNat = size.toNat - 1 :=
    BitVec.toNat_sub_of_le (by rw [BitVec.le_def]; exact Nat.one_le_iff_ne_zero.2 hpos)
  have hzero : size.toNat &&& (size.toNat - 1) = 0 := by
    rw [← hsub, ← BitVec.toNat_and, hand]
    rfl
  obtain ⟨k, hk⟩ := (Nat.and_sub_one_eq_zero_iff_isPowerOfTwo hpos).1 hzero
  refine ⟨k, ?_, hk⟩
  by_contra hge
  have hlarge : 2 ^ 32 ≤ 2 ^ k := Nat.pow_le_pow_right (by norm_num) (by omega)
  have hlt := size.isLt
  omega

omit [DecidableEq τ] in
theorem fifoIoInv_init (h : fifoIoInit buffer size = some f) (hsize : size.toNat < 128) :
    FifoIoInv (fifoIoStart τ f) := by
  obtain ⟨hpower, hfsize, hhead, htail, hcount, hfull, hempty, -⟩ := fifoIoInit_cases h
  obtain ⟨k, -, hk⟩ := exists_pow_of_isPowerOf2 hpower
  have hpos : 0 < size.toNat := by
    rw [hk]
    positivity
  have hint : f.empty = size.toNat := by
    rw [hempty, BitVec.toInt_eq_toNat_cond, if_pos (by omega)]
  have hzero : f.count.toNat = 0 := by
    rw [hcount]
    rfl
  have hnone : ∀ r : Region, r.threads (fifoIoStart τ f).pc = ∅ := by
    intro r
    ext t
    cases r <;> simp [Region.threads, inside, fifoIoStart, Region.has]
  have htally : ∀ r : Region, tally r (fifoIoStart τ f).pc = 0 := by
    intro r
    rw [tally, hnone r, Set.ncard_empty]
    rfl
  refine ⟨?_, ⟨?_, ?_, ?_⟩, fun r => ?_, ?_, ?_, ?_, ?_, rfl, ?_⟩
  · rwa [fifoIoStart, hfsize]
  · rwa [fifoIoStart, hfsize, htail]
  · rw [fifoIoStart, hzero]
    exact Nat.zero_le _
  · simp only [fifoIoStart, hzero, hhead, htail, Nat.add_zero, Nat.zero_mod]
  · rw [hnone r]
    exact Set.finite_empty
  · rw [fifoIoStart, hint]
    exact Int.natCast_nonneg _
  · rw [fifoIoStart, hfull]
  · rw [htally, htally]
    simp only [fifoIoStart, hint, hzero, hfsize]
    omega
  · rw [htally, htally]
    simp only [fifoIoStart, hfull, hzero]
    omega
  · show [] = [] ++ f.contents
    rw [FifoIo.contents, hzero]
    rfl

/-- Nobody gets past a semaphore: the calls wait, and nothing has happened. -/
structure Stuck (s : FifoIoRun τ) : Prop where
  empty : s.fifo.empty ≤ 0
  full : s.fifo.full = 0
  ring : s.fifo.head = 0 ∧ s.fifo.tail = 0 ∧ s.fifo.count = 0
  history : s.puts = [] ∧ s.gets = [] ∧ s.skipped = 0
  waiting : ∀ t, s.pc t = .out ∨ (∃ data, s.pc t = .putDown data) ∨ s.pc t = .getDown

theorem Stuck.goto {s : FifoIoRun τ} (h : Stuck s) (t : τ) {k : Pc}
    (hk : k = .out ∨ (∃ data, k = .putDown data) ∨ k = .getDown) : Stuck (s.goto t k) := by
  refine ⟨h.empty, h.full, h.ring, h.history, fun u => ?_⟩
  by_cases hu : u = t
  · simpa only [FifoIoRun.goto, hu, Function.update_self] using hk
  · simpa only [FifoIoRun.goto, Function.update_of_ne hu] using h.waiting u

theorem Stuck.step (s : FifoIoRun τ) (e : Event τ) (s' : FifoIoRun τ) (h : Stuck s)
    (hstep : fifoIoStep s e = some s') : Stuck s' := by
  cases e with
  | put t data =>
      rw [fifoIoStep] at hstep
      split_ifs at hstep with hout
      cases hstep
      exact h.goto t (Or.inr (Or.inl ⟨data, rfl⟩))
  | get t =>
      rw [fifoIoStep] at hstep
      split_ifs at hstep with hout
      cases hstep
      exact h.goto t (Or.inr (Or.inr rfl))
  | run t =>
      rw [fifoIoStep, runStep] at hstep
      rcases h.waiting t with hpc | ⟨data, hpc⟩ | hpc
      · simp only [hpc] at hstep
        cases hstep
      · simp only [hpc] at hstep
        rw [if_neg (not_lt.2 h.empty)] at hstep
        cases hstep
      · simp only [hpc] at hstep
        rw [if_neg (by rw [h.full]; exact lt_irrefl 0)] at hstep
        cases hstep

omit [DecidableEq τ] in
theorem Stuck.ok {s : FifoIoRun τ} (h : Stuck s) : FifoIoOk s := by
  obtain ⟨hhead, htail, hcount⟩ := h.ring
  obtain ⟨hputs, hgets, hskipped⟩ := h.history
  have hzero : s.fifo.count.toNat = 0 := by
    rw [hcount]
    rfl
  exact ⟨by omega, by rw [hhead, htail, hzero, Nat.zero_mod], hskipped, by rw [hputs, hgets]⟩

/-- From 128 on the low byte of a power of two is not positive. -/
theorem asBool_pow {k : ℕ} (hsize : size.toNat = 2 ^ k) (hlow : 7 ≤ k) : asBool size ≤ 0 := by
  have hmod : (size.setWidth 8).toNat = 2 ^ k % 256 := by
    rw [BitVec.toNat_setWidth, hsize]
  rw [asBool, BitVec.toInt_eq_toNat_cond, hmod]
  rcases Nat.eq_or_lt_of_le hlow with rfl | hhigh
  · norm_num
  · have hdvd : 2 ^ k % 256 = 0 := Nat.mod_eq_zero_of_dvd (pow_dvd_pow 2 (show 8 ≤ k by omega))
    rw [hdvd]
    norm_num

/-- The first put into a queue of such a size is dropped. -/
theorem first_put_dropped {k : ℕ} (h : fifoIoInit buffer size = some f) (hsize : size.toNat = 2 ^ k)
    (hlow : 7 ≤ k) (hhigh : k < 31) (t : τ) (data : BitVec 8) :
    ∃ s, Run.exec fifoIoStep (fifoIoStart τ f) [.put t data, .run t, .run t, .run t] = some s ∧
      s.skipped = 1 := by
  obtain ⟨-, hfsize, -, -, hcount, -, hempty, hmutex⟩ := fifoIoInit_cases h
  have hlt : 2 ^ k < 2 ^ 31 := Nat.pow_lt_pow_right (by norm_num) hhigh
  have hpos : 0 < f.empty := by
    have hone : 0 < 2 ^ k := by positivity
    rw [hempty, BitVec.toInt_eq_toNat_cond, if_pos (by omega)]
    omega
  have hnone : ¬ 0 < asBool (f.size - f.count) := by
    have hall : f.size - f.count = size := by
      rw [hfsize, hcount]
      exact BitVec.sub_zero size
    rw [hall]
    exact not_lt.2 (asBool_pow hsize hlow)
  simp [Run.exec, fifoIoStep, runStep, fifoIoStart, FifoIoRun.goto, hpos, hmutex, fifoIoAvali,
    hnone]

/-- **For which sizes nothing is ever dropped**: in every state that any number of threads reach,
the queue keeps its promise, if and only if its size is at most 64, or so large that its semaphore
is negative and nobody gets past it. -/
theorem fifoIo_ok_iff [Inhabited τ] (buffer : ℕ → BitVec 8) (size : BitVec 32) (f : FifoIo)
    (h : fifoIoInit buffer size = some f) :
    (∀ (events : List (Event τ)) (s : FifoIoRun τ),
        Run.exec fifoIoStep (fifoIoStart τ f) events = some s → FifoIoOk s) ↔
      size.toNat ≤ 64 ∨ size.toNat = 2147483648 := by
  obtain ⟨hpower, hfsize, hhead, htail, hcount, hfull, hempty, hmutex⟩ := fifoIoInit_cases h
  obtain ⟨k, hk, hsize⟩ := exists_pow_of_isPowerOf2 hpower
  constructor
  · intro hall
    by_contra hbad
    rw [not_or] at hbad
    have hlow : 7 ≤ k := by
      by_contra hlt
      have hle : 2 ^ k ≤ 2 ^ 6 := Nat.pow_le_pow_right (by norm_num) (by omega)
      omega
    have hhigh : k ≠ 31 := by
      rintro rfl
      omega
    obtain ⟨s, hrun, hskipped⟩ := first_put_dropped h hsize hlow (by omega) (default : τ) 0
    have hok := (hall _ s hrun).skipped_eq
    omega
  · rintro (hsmall | hlarge) events s hrun
    · have hinv : FifoIoInv (fifoIoStart τ f) := fifoIoInv_init h (by omega)
      exact (Run.exec_keeps FifoIoInv.step events _ s hinv hrun).ok
    · have hneg : f.empty ≤ 0 := by
        rw [hempty, BitVec.toInt_eq_toNat_cond, hlarge]
        norm_num
      have hstuck : Stuck (fifoIoStart τ f) :=
        ⟨hneg, hfull, ⟨hhead, htail, hcount⟩, ⟨rfl, rfl, rfl⟩, fun _ => Or.inl rfl⟩
      exact (Run.exec_keeps Stuck.step events _ s hstuck hrun).ok

end Sizes

/-- A queue of the size the keyboard, the mouse and the terminal use. -/
theorem fifoIo_ok_driver :
    ∃ f, fifoIoInit (fun _ => 0) 64 = some f ∧
      ∀ (events : List (Event ℕ)) (s : FifoIoRun ℕ),
        Run.exec fifoIoStep (fifoIoStart ℕ f) events = some s → FifoIoOk s := by
  obtain ⟨f, hf⟩ := Option.isSome_iff_exists.1
    (show (fifoIoInit (fun _ => 0) 64).isSome = true from rfl)
  exact ⟨f, hf, (fifoIo_ok_iff (fun _ => 0) 64 f hf).2 (Or.inl (by decide))⟩

/-- A queue of 256 bytes, of which the first is dropped. -/
theorem fifoIo_not_ok :
    ∃ f s, fifoIoInit (fun _ => 0) 256 = some f ∧
      Run.exec fifoIoStep (fifoIoStart ℕ f) [.put 0 65, .run 0, .run 0, .run 0] = some s ∧
      s.fifo.count = 0 ∧ ¬ FifoIoOk s := by
  obtain ⟨f, hf⟩ :=
    Option.isSome_iff_exists.1 (show (fifoIoInit (fun _ => 0) 256).isSome = true from rfl)
  have hsome : ((fifoIoInit (fun _ => 0) 256).bind fun f =>
      (Run.exec fifoIoStep (fifoIoStart ℕ f) [.put 0 65, .run 0, .run 0, .run 0]).map
        fun s => (s.fifo.count, s.skipped)) = some (0, 1) := by decide +kernel
  rw [hf, Option.bind_some] at hsome
  obtain ⟨s, hs, hvals⟩ := Option.map_eq_some_iff.1 hsome
  rw [Prod.mk.injEq] at hvals
  refine ⟨f, s, hf, hs, hvals.1, fun hok => ?_⟩
  have hskipped := hok.skipped_eq
  omega

end Fifoio
end LightOS
