import LightOS.Lib.Ring
import LightOS.Lib.Simulation

/-!
# The byte fifo

`lib/fifobuf.c` and `xbook/fifobuf.h`: a circular byte buffer whose size is a
power of two, with an input and an output counter that are never reduced modulo
the size and run over at `2 ^ 32`.  The locks and barriers order the accesses of
different processors; each call is one step here.

* `fifoBuf_refines` — from any counters whose difference is at most the size, the
  buffer answers every sequence of calls as a bounded byte queue does.
-/

namespace LightOS
namespace Fifo

open Ring Simulation

/-! ## The model -/

/-- `fifo_buf_t`.  `buffer` is the memory from `fifo->buffer` on. -/
structure FifoBuf where
  buffer : ℕ → UInt8
  size : UInt32
  in_ : UInt32
  out : UInt32

/-- `MIN` on `unsigned int`. -/
def min32 (a b : UInt32) : UInt32 := if a < b then a else b

/-- `__fifo_buf_put`: the fifo and the number of bytes taken from `buffer`. -/
def _fifoBufPut (fifo : FifoBuf) (buffer : ℕ → UInt8) (len : UInt32) : FifoBuf × UInt32 :=
  let len := min32 len (fifo.size - fifo.in_ + fifo.out)
  let off := fifo.in_ &&& (fifo.size - 1)
  let l := min32 len (fifo.size - off)
  let first := memcpy fifo.buffer off.toNat buffer l.toNat
  let second := memcpy first 0 (fun i => buffer (l.toNat + i)) (len - l).toNat
  ({ fifo with buffer := second, in_ := fifo.in_ + len }, len)

/-- `__fifo_buf_get`: the fifo, the memory at `buffer` and the number of bytes
written to it. -/
def _fifoBufGet (fifo : FifoBuf) (buffer : ℕ → UInt8) (len : UInt32) :
    FifoBuf × (ℕ → UInt8) × UInt32 :=
  let len := min32 len (fifo.in_ - fifo.out)
  let off := fifo.out &&& (fifo.size - 1)
  let l := min32 len (fifo.size - off)
  let first := memcpy buffer 0 (fun i => fifo.buffer (off.toNat + i)) l.toNat
  let second := memcpy first l.toNat fifo.buffer (len - l).toNat
  ({ fifo with out := fifo.out + len }, second, len)

/-- `fifo_buf_put`. -/
def fifoBufPut (fifo : FifoBuf) (buffer : ℕ → UInt8) (len : UInt32) : FifoBuf × UInt32 :=
  _fifoBufPut fifo buffer len

/-- `fifo_buf_get`: both counters go back to zero when the fifo is empty. -/
def fifoBufGet (fifo : FifoBuf) (buffer : ℕ → UInt8) (len : UInt32) :
    FifoBuf × (ℕ → UInt8) × UInt32 :=
  let (fifo', buffer', ret) := _fifoBufGet fifo buffer len
  if fifo'.in_ = fifo'.out then ({ fifo' with in_ := 0, out := 0 }, buffer', ret)
  else (fifo', buffer', ret)

/-- `fifo_buf_reset`. -/
def fifoBufReset (fifo : FifoBuf) : FifoBuf := { fifo with in_ := 0, out := 0 }

/-- `fifo_buf_len`. -/
def fifoBufLen (fifo : FifoBuf) : UInt32 := fifo.in_ - fifo.out

/-- `fifo_buf_avali`. -/
def fifoBufAvali (fifo : FifoBuf) : UInt32 := fifo.size - (fifo.in_ - fifo.out)

/-- The calls. -/
inductive FifoCall where
  | put (buffer : ℕ → UInt8) (len : UInt32)
  | get (buffer : ℕ → UInt8) (len : UInt32)
  | _put (buffer : ℕ → UInt8) (len : UInt32)
  | _get (buffer : ℕ → UInt8) (len : UInt32)
  | reset
  | len
  | avali

/-- What a caller sees of a call. -/
inductive FifoReply where
  | count (n : ℕ)
  | data (n : ℕ) (buffer : ℕ → UInt8)
  | done

/-- One call on the fifo. -/
def fifoStep (fifo : FifoBuf) : FifoCall → FifoBuf × FifoReply
  | .put buffer len => ((fifoBufPut fifo buffer len).1, .count (fifoBufPut fifo buffer len).2.toNat)
  | ._put buffer len =>
      ((_fifoBufPut fifo buffer len).1, .count (_fifoBufPut fifo buffer len).2.toNat)
  | .get buffer len =>
      ((fifoBufGet fifo buffer len).1,
        .data (fifoBufGet fifo buffer len).2.2.toNat (fifoBufGet fifo buffer len).2.1)
  | ._get buffer len =>
      ((_fifoBufGet fifo buffer len).1,
        .data (_fifoBufGet fifo buffer len).2.2.toNat (_fifoBufGet fifo buffer len).2.1)
  | .reset => (fifoBufReset fifo, .done)
  | .len => (fifo, .count (fifoBufLen fifo).toNat)
  | .avali => (fifo, .count (fifoBufAvali fifo).toNat)

/-! ## The abstract queue -/

/-- Append the first `min len free` bytes. -/
def queuePut (cap : ℕ) (q : List UInt8) (buffer : ℕ → UInt8) (len : ℕ) : List UInt8 × FifoReply :=
  let n := min len (cap - q.length)
  (q ++ (List.range n).map buffer, .count n)

/-- Remove the oldest `min len used` bytes and hand them over. -/
def queueGet (q : List UInt8) (buffer : ℕ → UInt8) (len : ℕ) : List UInt8 × FifoReply :=
  let n := min len q.length
  (q.drop n, .data n fun i => (q.take n)[i]?.getD (buffer i))

/-- A byte queue of capacity `cap`; the two forms of a call are the same. -/
def queueStep (cap : ℕ) (q : List UInt8) : FifoCall → List UInt8 × FifoReply
  | .put buffer len => queuePut cap q buffer len.toNat
  | ._put buffer len => queuePut cap q buffer len.toNat
  | .get buffer len => queueGet q buffer len.toNat
  | ._get buffer len => queueGet q buffer len.toNat
  | .reset => ([], .done)
  | .len => (q, .count q.length)
  | .avali => (q, .count (cap - q.length))

/-- The bytes a fifo holds, oldest first. -/
def FifoBuf.bytes (fifo : FifoBuf) : List UInt8 :=
  contents fifo.buffer fifo.size.toNat fifo.out.toNat (fifo.in_ - fifo.out).toNat

/-! ## The refinement relation -/

/-- The fifo is well formed, holds `q`, and has not written past its buffer,
which was `mem` before. -/
structure Represents (k : ℕ) (mem : ℕ → UInt8) (fifo : FifoBuf) (q : List UInt8) : Prop where
  size : fifo.size.toNat = 2 ^ k
  used : (fifo.in_ - fifo.out).toNat ≤ 2 ^ k
  bytes : q = contents fifo.buffer (2 ^ k) fifo.out.toNat (fifo.in_ - fifo.out).toNat
  frame : ∀ i, 2 ^ k ≤ i → fifo.buffer i = mem i

theorem toNat_min32 (a b : UInt32) : (min32 a b).toNat = min a.toNat b.toNat := by
  unfold min32
  split_ifs with h
  · rw [min_eq_left (le_of_lt (UInt32.lt_iff_toNat_lt.1 h))]
  · rw [min_eq_right (not_lt.1 fun h' => h (UInt32.lt_iff_toNat_lt.2 h'))]

section Counters

variable {k : ℕ} {mem : ℕ → UInt8} {fifo : FifoBuf} {q : List UInt8}

theorem Represents.length (h : Represents k mem fifo q) :
    q.length = (fifo.in_ - fifo.out).toNat := by
  rw [h.bytes, length_contents]

/-- The free room, as `__fifo_buf_put` writes it. -/
theorem Represents.free (h : Represents k mem fifo q) :
    (fifo.size - fifo.in_ + fifo.out).toNat = 2 ^ k - (fifo.in_ - fifo.out).toNat := by
  have hsize := h.size
  have hused := h.used
  have := fifo.size.toNat_lt
  have := fifo.in_.toNat_lt
  have := fifo.out.toNat_lt
  rw [UInt32.toNat_sub] at hused ⊢
  rw [UInt32.toNat_add, UInt32.toNat_sub]
  omega

/-- The free room, as `fifo_buf_avali` writes it. -/
theorem Represents.avali (h : Represents k mem fifo q) :
    (fifo.size - (fifo.in_ - fifo.out)).toNat = 2 ^ k - (fifo.in_ - fifo.out).toNat := by
  have hsize := h.size
  have hused := h.used
  rw [UInt32.toNat_sub_of_le _ _ (UInt32.le_iff_toNat_le.2 (by omega)), hsize]

/-- Masking with the size less one is the residue modulo the size. -/
theorem Represents.mask (h : Represents k mem fifo q) (x : UInt32) :
    (x &&& (fifo.size - 1)).toNat = x.toNat % 2 ^ k := by
  have hone : (1 : UInt32) ≤ fifo.size := by
    rw [UInt32.le_iff_toNat_le, h.size]
    exact Nat.one_le_two_pow
  rw [UInt32.toNat_and, UInt32.toNat_sub_of_le _ _ hone, h.size, UInt32.toNat_one,
    Nat.and_two_pow_sub_one_eq_mod]

/-- The room to the end of the buffer. -/
theorem Represents.toEnd (h : Represents k mem fifo q) (x : UInt32) :
    (fifo.size - (x &&& (fifo.size - 1))).toNat = 2 ^ k - x.toNat % 2 ^ k := by
  have hlt := Nat.mod_lt x.toNat (Nat.two_pow_pos k)
  rw [UInt32.toNat_sub_of_le, h.mask, h.size]
  rw [UInt32.le_iff_toNat_le, h.mask, h.size]
  omega

/-- The counters run over at `2 ^ 32`, a multiple of the size: advancing one
advances its residue. -/
theorem Represents.mod_add (h : Represents k mem fifo q) (x y : UInt32) :
    (x + y).toNat % 2 ^ k = (x.toNat + y.toNat) % 2 ^ k := by
  have hk : k ≤ 32 := by
    have hlt := fifo.size.toNat_lt
    rw [h.size] at hlt
    exact le_of_lt ((Nat.pow_lt_pow_iff_right (by norm_num)).1 hlt)
  rw [UInt32.toNat_add, Nat.mod_mod_of_dvd _ (pow_dvd_pow 2 hk)]

end Counters

/-! ## The calls, one by one -/

section Calls

variable {k : ℕ} {mem : ℕ → UInt8} {fifo : FifoBuf} {q : List UInt8}

/-- An empty well-formed fifo represents the empty queue. -/
theorem represents_rewind (h : Represents k mem fifo q) :
    Represents k mem { fifo with in_ := 0, out := 0 } [] :=
  ⟨h.size, by simp, by simp [contents], h.frame⟩

theorem _fifoBufPut_spec (h : Represents k mem fifo q) (buffer : ℕ → UInt8) (len : UInt32) :
    Represents k mem (_fifoBufPut fifo buffer len).1 (queuePut (2 ^ k) q buffer len.toNat).1 ∧
      (queuePut (2 ^ k) q buffer len.toNat).2 =
        .count (_fifoBufPut fifo buffer len).2.toNat := by
  have hpos := Nat.two_pow_pos k
  have hused := h.used
  -- the number of bytes taken
  obtain ⟨n, hn⟩ : ∃ n, n = min32 len (fifo.size - fifo.in_ + fifo.out) := ⟨_, rfl⟩
  have hcount : n.toNat = min len.toNat (2 ^ k - q.length) := by
    rw [hn, toNat_min32, h.free, h.length]
  have hroom : (fifo.in_ - fifo.out).toNat + n.toNat ≤ 2 ^ k := by
    rw [hcount, h.length]
    omega
  have hoff : fifo.in_.toNat % 2 ^ k =
      (fifo.out.toNat + (fifo.in_ - fifo.out).toNat) % 2 ^ k := by
    rw [← h.mod_add, add_comm fifo.out, UInt32.sub_add_cancel]
  have hadvance : (fifo.in_ + n - fifo.out).toNat = (fifo.in_ - fifo.out).toNat + n.toNat := by
    have hlt := fifo.size.toNat_lt
    rw [h.size] at hlt
    rw [show fifo.in_ + n - fifo.out = (fifo.in_ - fifo.out) + n by grind, UInt32.toNat_add,
      Nat.mod_eq_of_lt (by omega)]
  have hput : _fifoBufPut fifo buffer len =
      ({ fifo with
          buffer := ringWrite fifo.buffer (2 ^ k) (fifo.in_.toNat % 2 ^ k) buffer n.toNat
          in_ := fifo.in_ + n }, n) := by
    have hl : (min32 n (fifo.size - (fifo.in_ &&& (fifo.size - 1)))).toNat =
        min n.toNat (2 ^ k - fifo.in_.toNat % 2 ^ k) := by
      rw [toNat_min32, h.toEnd]
    have hrest : (n - min32 n (fifo.size - (fifo.in_ &&& (fifo.size - 1)))).toNat =
        n.toNat - min n.toNat (2 ^ k - fifo.in_.toNat % 2 ^ k) := by
      rw [UInt32.toNat_sub_of_le _ _ (UInt32.le_iff_toNat_le.2 (by omega)), hl]
    simp only [_fifoBufPut, ← hn, hl, hrest, h.mask, ringWrite]
  rw [hput]
  refine ⟨⟨h.size, ?_, ?_, ?_⟩, ?_⟩
  · show (fifo.in_ + n - fifo.out).toNat ≤ 2 ^ k
    rw [hadvance]
    exact hroom
  · show q ++ (List.range (min len.toNat (2 ^ k - q.length))).map buffer =
      contents (ringWrite fifo.buffer (2 ^ k) (fifo.in_.toNat % 2 ^ k) buffer n.toNat) (2 ^ k)
        fifo.out.toNat (fifo.in_ + n - fifo.out).toNat
    rw [hadvance, hoff, contents_ringWrite _ _ hpos hroom, ← h.bytes, hcount]
  · intro i hi
    show ringWrite fifo.buffer (2 ^ k) (fifo.in_.toNat % 2 ^ k) buffer n.toNat i = mem i
    rw [ringWrite_outside _ _ (Nat.mod_lt _ hpos) (by omega) hi, h.frame i hi]
  · rw [queuePut, hcount]

theorem _fifoBufGet_spec (h : Represents k mem fifo q) (buffer : ℕ → UInt8) (len : UInt32) :
    Represents k mem (_fifoBufGet fifo buffer len).1 (queueGet q buffer len.toNat).1 ∧
      (queueGet q buffer len.toNat).2 =
        .data (_fifoBufGet fifo buffer len).2.2.toNat (_fifoBufGet fifo buffer len).2.1 := by
  have hpos := Nat.two_pow_pos k
  have hused := h.used
  obtain ⟨n, hn⟩ : ∃ n, n = min32 len (fifo.in_ - fifo.out) := ⟨_, rfl⟩
  have hcount : n.toNat = min len.toNat q.length := by
    rw [hn, toNat_min32, h.length]
  have hle : n.toNat ≤ (fifo.in_ - fifo.out).toNat := by
    rw [hcount, h.length]
    omega
  have hleft : (fifo.in_ - (fifo.out + n)).toNat = (fifo.in_ - fifo.out).toNat - n.toNat := by
    rw [show fifo.in_ - (fifo.out + n) = (fifo.in_ - fifo.out) - n by grind,
      UInt32.toNat_sub_of_le _ _ (UInt32.le_iff_toNat_le.2 hle)]
  have hget : _fifoBufGet fifo buffer len =
      ({ fifo with out := fifo.out + n },
        ringRead buffer fifo.buffer (2 ^ k) (fifo.out.toNat % 2 ^ k) n.toNat, n) := by
    have hl : (min32 n (fifo.size - (fifo.out &&& (fifo.size - 1)))).toNat =
        min n.toNat (2 ^ k - fifo.out.toNat % 2 ^ k) := by
      rw [toNat_min32, h.toEnd]
    have hrest : (n - min32 n (fifo.size - (fifo.out &&& (fifo.size - 1)))).toNat =
        n.toNat - min n.toNat (2 ^ k - fifo.out.toNat % 2 ^ k) := by
      rw [UInt32.toNat_sub_of_le _ _ (UInt32.le_iff_toNat_le.2 (by omega)), hl]
    simp only [_fifoBufGet, ← hn, hl, hrest, h.mask, ringRead]
  rw [hget]
  refine ⟨⟨h.size, ?_, ?_, h.frame⟩, ?_⟩
  · show (fifo.in_ - (fifo.out + n)).toNat ≤ 2 ^ k
    omega
  · show q.drop (min len.toNat q.length) =
      contents fifo.buffer (2 ^ k) (fifo.out + n).toNat (fifo.in_ - (fifo.out + n)).toNat
    rw [← hcount, hleft, h.bytes, contents_drop]
    refine contents_congr _ ?_ _
    rw [h.mod_add]
  · show FifoReply.data (min len.toNat q.length) _ = _
    rw [← hcount]
    congr 1
    funext i
    show _ = ringRead buffer fifo.buffer (2 ^ k) (fifo.out.toNat % 2 ^ k) n.toNat i
    rw [ringRead_apply _ _ (Nat.mod_lt _ hpos) (by omega), Nat.mod_add_mod, h.bytes]
    by_cases hi : i < n.toNat
    · rw [if_pos hi, List.getElem?_take_of_lt hi]
      simp [contents, show i < (fifo.in_ - fifo.out).toNat by omega]
    · rw [if_neg hi, List.getElem?_eq_none (by simp; omega), Option.getD_none]

/-- Rewinding the counters of an empty fifo is not seen. -/
theorem fifoBufGet_spec (h : Represents k mem fifo q) (buffer : ℕ → UInt8) (len : UInt32) :
    Represents k mem (fifoBufGet fifo buffer len).1 (queueGet q buffer len.toNat).1 ∧
      (queueGet q buffer len.toNat).2 =
        .data (fifoBufGet fifo buffer len).2.2.toNat (fifoBufGet fifo buffer len).2.1 := by
  obtain ⟨hrep, hreply⟩ := _fifoBufGet_spec h buffer len
  simp only [fifoBufGet]
  by_cases hempty : (_fifoBufGet fifo buffer len).1.in_ = (_fifoBufGet fifo buffer len).1.out
  · rw [if_pos hempty]
    have hnil : (queueGet q buffer len.toNat).1 = [] := by
      rw [← List.length_eq_zero_iff, hrep.length, hempty]
      simp
    refine ⟨?_, hreply⟩
    rw [hnil]
    exact represents_rewind hrep
  · rw [if_neg hempty]
    exact ⟨hrep, hreply⟩

/-- Every call keeps the relation and is answered as the queue answers it. -/
theorem represents_step (h : Represents k mem fifo q) (call : FifoCall) :
    Represents k mem (fifoStep fifo call).1 (queueStep (2 ^ k) q call).1 ∧
      (fifoStep fifo call).2 = (queueStep (2 ^ k) q call).2 := by
  cases call with
  | put buffer len => exact (_fifoBufPut_spec h buffer len).imp_right Eq.symm
  | _put buffer len => exact (_fifoBufPut_spec h buffer len).imp_right Eq.symm
  | get buffer len => exact (fifoBufGet_spec h buffer len).imp_right Eq.symm
  | _get buffer len => exact (_fifoBufGet_spec h buffer len).imp_right Eq.symm
  | reset => exact ⟨represents_rewind h, rfl⟩
  | len =>
      refine ⟨h, ?_⟩
      show FifoReply.count (fifo.in_ - fifo.out).toNat = .count q.length
      rw [h.length]
  | avali =>
      refine ⟨h, ?_⟩
      show FifoReply.count (fifo.size - (fifo.in_ - fifo.out)).toNat = .count (2 ^ k - q.length)
      rw [h.avali, h.length]

end Calls

/-! ## The main result -/

/-- **The fifo refines a bounded byte queue.**  Started with any counters whose
difference is at most the size, it answers every sequence of calls as the queue
of the bytes it holds does, it ends up holding what the queue holds, and it
never writes past its buffer. -/
theorem fifoBuf_refines (k : ℕ) (fifo : FifoBuf) (hsize : fifo.size.toNat = 2 ^ k)
    (hused : (fifo.in_ - fifo.out).toNat ≤ fifo.size.toNat) (calls : List FifoCall) :
    (trace fifoStep fifo calls).2 = (trace (queueStep (2 ^ k)) fifo.bytes calls).2 ∧
      (trace fifoStep fifo calls).1.bytes = (trace (queueStep (2 ^ k)) fifo.bytes calls).1 ∧
      ∀ i, 2 ^ k ≤ i → (trace fifoStep fifo calls).1.buffer i = fifo.buffer i := by
  have hstart : Represents k fifo.buffer fifo fifo.bytes :=
    ⟨hsize, hsize ▸ hused, by rw [FifoBuf.bytes, hsize], fun _ _ => rfl⟩
  have hsim : ∀ f q call, Represents k fifo.buffer f q →
      Represents k fifo.buffer (fifoStep f call).1 (queueStep (2 ^ k) q call).1 ∧
        (fifoStep f call).2 = (queueStep (2 ^ k) q call).2 :=
    fun _ _ call h => represents_step h call
  obtain ⟨hend, hreplies⟩ := trace_simulates hsim calls fifo fifo.bytes hstart
  refine ⟨hreplies, ?_, hend.frame⟩
  rw [FifoBuf.bytes, hend.size]
  exact hend.bytes.symm

/-- Four bytes, with an input counter about to run over. -/
def wrappingFifo : FifoBuf :=
  { buffer := fun i => UInt8.ofNat i, size := 4, in_ := 4294967295, out := 4294967293 }

/-- A put across `2 ^ 32` and a get that empties the fifo. -/
theorem fifoBuf_refines_wrapping :
    wrappingFifo.bytes = [1, 2] ∧
      (trace fifoStep wrappingFifo
        [.put (fun i => UInt8.ofNat (10 + i)) 9, .len, .get (fun _ => 0) 7, .avali]).2 =
        (trace (queueStep (2 ^ 2)) wrappingFifo.bytes
          [.put (fun i => UInt8.ofNat (10 + i)) 9, .len, .get (fun _ => 0) 7, .avali]).2 :=
  ⟨by decide, (fifoBuf_refines 2 wrappingFifo (by decide) (by decide) _).1⟩

end Fifo
end LightOS
