import LightOS.Lib.Run
import LightOS.Ipc.PipeBasic

/-!
# Pipes: the byte stream

* `pipeFill_spec` — what the loop of `pipe_write` puts into the fifo.
* `pipe_byteStream` — in every run, the bytes read and the bytes still in the fifo are the bytes
  put, and every write contributed a prefix of its buffer.
-/

namespace LightOS
namespace Pipe

open Fifo

/-! ## The fifo of the pipe -/

/-- The fifo holds `q`. -/
def HoldsBytes (fifo : FifoBuf) (q : List UInt8) : Prop := ∃ mem, Represents 12 mem fifo q

section Fill

variable {fifo : FifoBuf} {q : List UInt8}

theorem HoldsBytes.len (h : HoldsBytes fifo q) : (fifoBufLen fifo).toNat = q.length := by
  obtain ⟨mem, h⟩ := h
  exact h.length.symm

theorem HoldsBytes.le (h : HoldsBytes fifo q) : q.length ≤ pipeSize := by
  obtain ⟨mem, h⟩ := h
  rw [h.length]
  exact h.used

theorem HoldsBytes.avali (h : HoldsBytes fifo q) :
    (fifoBufAvali fifo).toNat = pipeSize - q.length := by
  obtain ⟨mem, h⟩ := h
  rw [h.length]
  exact h.avali

theorem HoldsBytes.bytes (h : HoldsBytes fifo q) : fifo.bytes = q := by
  obtain ⟨mem, h⟩ := h
  rw [FifoBuf.bytes, h.size]
  exact h.bytes.symm

theorem toNat_ofNat_of_le {n : ℕ} (h : n ≤ pipeSize) : (UInt32.ofNat n).toNat = n := by
  have hle : n ≤ 4096 := h
  exact UInt32.toNat_ofNat_of_lt' (by rw [UInt32.size]; omega)

/-- A put of at most what is free. -/
theorem holdsBytes_put (h : HoldsBytes fifo q) (buffer : ℕ → UInt8) {n : ℕ}
    (hn : q.length + n ≤ pipeSize) :
    HoldsBytes (fifoBufPut fifo buffer (UInt32.ofNat n)).1 (q ++ (List.range n).map buffer) ∧
      (fifoBufPut fifo buffer (UInt32.ofNat n)).2.toNat = n := by
  obtain ⟨mem, h⟩ := h
  obtain ⟨hrep, hcount⟩ := _fifoBufPut_spec h buffer (UInt32.ofNat n)
  have hlen : (UInt32.ofNat n).toNat = n := toNat_ofNat_of_le (by omega)
  have hmin : min n (2 ^ 12 - q.length) = n := min_eq_left (Nat.le_sub_of_add_le' hn)
  rw [hlen] at hrep hcount
  unfold queuePut at hrep hcount
  rw [hmin] at hrep hcount
  rw [FifoReply.count.injEq] at hcount
  exact ⟨⟨mem, hrep⟩, hcount.symm⟩

/-- A get of at most what is there. -/
theorem holdsBytes_get (h : HoldsBytes fifo q) (buffer : ℕ → UInt8) {n : ℕ} (hn : n ≤ q.length) :
    HoldsBytes (fifoBufGet fifo buffer (UInt32.ofNat n)).1 (q.drop n) ∧
      (fifoBufGet fifo buffer (UInt32.ofNat n)).2.2.toNat = n ∧
      (List.range n).map (fifoBufGet fifo buffer (UInt32.ofNat n)).2.1 = q.take n ∧
      ∀ i, n ≤ i → (fifoBufGet fifo buffer (UInt32.ofNat n)).2.1 i = buffer i := by
  have hlen : (UInt32.ofNat n).toNat = n := toNat_ofNat_of_le (hn.trans h.le)
  obtain ⟨mem, h⟩ := h
  obtain ⟨hrep, hdata⟩ := fifoBufGet_spec h buffer (UInt32.ofNat n)
  rw [hlen] at hrep hdata
  unfold queueGet at hrep hdata
  rw [min_eq_left hn] at hrep hdata
  rw [FifoReply.data.injEq] at hdata
  refine ⟨⟨mem, hrep⟩, hdata.1.symm, ?_, fun i hi => ?_⟩
  · rw [← hdata.2]
    apply List.ext_getElem (by simp [hn])
    intro i hi hi'
    simp only [List.length_map, List.length_range] at hi
    rw [List.getElem_map, List.getElem_range, List.getElem?_eq_getElem hi', Option.getD_some]
  · rw [← hdata.2]
    have hnone : (q.take n)[i]? = none := List.getElem?_eq_none (by simp; omega)
    simp only [hnone, Option.getD_none]

/-- What the loop of `pipe_write` did: `n` bytes more. -/
structure Filled (buffer : ℕ → UInt8) (w w' : Filling) (q : List UInt8) (n : ℕ) : Prop where
  holds : HoldsBytes w'.fifo (q ++ (List.range n).map fun i => buffer (w.off + i))
  left : w'.left = w.left - n
  off : w'.off = w.off + n
  put : w'.put = w.put ++ (List.range n).map fun i => buffer (w.off + i)

/-- **The loop of `pipe_write`** puts as much as is left to write and fits. -/
theorem pipeFill_spec (buffer : ℕ → UInt8) : ∀ (fuel : ℕ) (w : Filling) (q : List UInt8),
    HoldsBytes w.fifo q → w.left.toNat ≤ fuel →
      Filled buffer w (pipeFill buffer fuel w) q (min w.left.toNat (pipeSize - q.length)) := by
  intro fuel
  induction fuel with
  | zero =>
      intro w q h hfuel
      have hzero : min w.left.toNat (pipeSize - q.length) = 0 := by omega
      rw [hzero, pipeFill]
      exact ⟨by simpa using h, by simp, rfl, by simp⟩
  | succ fuel ih =>
      intro w q h hfuel
      have hlen := h.le
      have havali := h.avali
      rw [pipeFill]
      by_cases hgo : 0 < w.left ∧ fifoBufAvali w.fifo ≠ 0
      · rw [if_pos hgo]
        have hroom : fifoBufAvali w.fifo ≠ 0 → 0 < pipeSize - q.length := by
          intro hne
          rw [← havali]
          exact Nat.pos_of_ne_zero fun hzero => hne (UInt32.toNat_inj.1 hzero)
        have hpos := hroom hgo.2
        -- one round takes everything that can be taken
        obtain ⟨n, hn⟩ : ∃ n, n = min w.left.toNat (pipeSize - q.length) := ⟨_, rfl⟩
        have hchunk : min (min w.left.toNat pipeSize) (fifoBufAvali w.fifo).toNat = n := by
          rw [havali, hn]
          omega
        obtain ⟨hput, hcount⟩ := holdsBytes_put h (fun i => buffer (w.off + i))
          (show q.length + n ≤ pipeSize by omega)
        simp only [hchunk, hcount, ← hn]
        have hrest := ih
          { fifo := (fifoBufPut w.fifo (fun i => buffer (w.off + i)) (UInt32.ofNat n)).1
            left := w.left - n
            off := w.off + n
            put := w.put ++ (List.range n).map fun i => buffer (w.off + i) }
          _ hput (show (w.left - n).toNat ≤ fuel by omega)
        have hzero : min (w.left - n).toNat (pipeSize -
            (q ++ (List.range n).map fun i => buffer (w.off + i)).length) = 0 := by
          rw [List.length_append, List.length_map, List.length_range]
          omega
        simp only at hrest
        rw [hzero] at hrest
        obtain ⟨hholds, hleft, hoff, hputs⟩ := hrest
        refine ⟨?_, ?_, ?_, ?_⟩
        · simpa using hholds
        · simpa using hleft
        · simpa using hoff
        · simpa using hputs
      · rw [if_neg hgo]
        have hzero : min w.left.toNat (pipeSize - q.length) = 0 := by
          rcases not_and_or.1 hgo with hleft | hfull
          · omega
          · rw [not_not.1 hfull] at havali
            have : pipeSize - q.length = 0 := havali.symm
            omega
        rw [hzero]
        exact ⟨by simpa using h, by simp, rfl, by simp⟩

end Fill

/-! ## The stream -/

/-- What a task inside a call has to do. -/
def Pc.op : Pc → Option Op
  | .outside _ => none
  | .lock op => some op
  | .adding op => some op
  | .park op => some op
  | .blocked op => some op

/-- A task in `pipe_write`: the number of the call, its buffer, `left_size` and `off`. -/
def Pc.Writing (pc : Pc) (id : ℕ) (buffer : ℕ → UInt8) (left : ℤ) (off : ℕ) : Prop :=
  pc.op = some (.write id buffer left off)

/-- The bytes a read handed over. -/
def ReadResult.delivered (r : ReadResult) : List UInt8 := (List.range r.ret).map r.after

/-- The bytes write number `id` put, in order. -/
def chunksOf (id : ℕ) (puts : List (ℕ × List UInt8)) : List UInt8 :=
  (puts.filter fun p => p.1 = id).flatMap Prod.snd

/-- The bytes read, in the order of the sections, and then the bytes in the fifo are the bytes put;
each write put a prefix of its buffer; the fifo does not hold more than it can; and a read changed
no more of its buffer than the bytes it returned. -/
structure ByteStream (s : PipeState) : Prop where
  stream : s.reads.flatMap ReadResult.delivered ++ s.fifo.bytes = s.puts.flatMap Prod.snd
  writers : ∀ p ∈ s.puts, p.1 < s.writes.length
  chunks : ∀ id args, s.writes[id]? = some args →
    ∃ n ≤ args.bytes.toNat, chunksOf id s.puts = (List.range n).map args.buffer
  bound : s.fifo.bytes.length ≤ pipeSize
  reads : ∀ r ∈ s.reads, r.ret ≤ r.bytes.toNat ∧ ∀ i, r.ret ≤ i → r.after i = r.buffer i

/-- Where a writer stands: it has put the first `off` bytes of its buffer. -/
def WriterAt (s : PipeState) (id : ℕ) (buffer : ℕ → UInt8) (left : ℤ) (off : ℕ) : Prop :=
  ∃ bytes, s.writes[id]? = some ⟨buffer, bytes⟩ ∧ off + left.toNat ≤ bytes.toNat ∧
    chunksOf id s.puts = (List.range off).map buffer

/-- The invariant of the stream. -/
structure StreamInv (s : PipeState) : Prop extends ByteStream s where
  fifo : HoldsBytes s.fifo s.fifo.bytes
  inside : ∀ t id buffer left off, (s.pc t).Writing id buffer left off →
    WriterAt s id buffer left off
  alone : ∀ t u id buffer left off buffer' left' off',
    (s.pc t).Writing id buffer left off →
    (s.pc u).Writing id buffer' left' off' → t = u

/-- The data are the same, and no task has anything else to write. -/
structure SameData (s s' : PipeState) : Prop where
  fifo : s'.fifo = s.fifo
  reads : s'.reads = s.reads
  writes : s'.writes = s.writes
  puts : s'.puts = s.puts
  writing : ∀ t id buffer left off, (s'.pc t).Writing id buffer left off →
    (s.pc t).Writing id buffer left off

section Stream

variable {s s' s'' : PipeState} {t : ℕ}

theorem SameData.trans (h : SameData s s') (h' : SameData s' s'') : SameData s s'' where
  fifo := h'.fifo.trans h.fifo
  reads := h'.reads.trans h.reads
  writes := h'.writes.trans h.writes
  puts := h'.puts.trans h.puts
  writing := fun t id buffer left off hw =>
    h.writing t id buffer left off (h'.writing t id buffer left off hw)

theorem streamInv_same (h : StreamInv s) (hsame : SameData s s') : StreamInv s' := by
  obtain ⟨hfifo, hreads, hwrites, hputs, hwriting⟩ := hsame
  refine ⟨⟨?_, ?_, ?_, ?_, ?_⟩, ?_, ?_, ?_⟩
  · rw [hreads, hfifo, hputs]; exact h.stream
  · rw [hputs, hwrites]; exact h.writers
  · rw [hputs, hwrites]; exact h.chunks
  · rw [hfifo]; exact h.bound
  · rw [hreads]; exact h.reads
  · rw [hfifo]; exact h.fifo
  · intro t id buffer left off hop
    obtain ⟨bytes, hargs, hle, hchunks⟩ := h.inside t id buffer left off (hwriting t _ _ _ _ hop)
    exact ⟨bytes, by rw [hwrites]; exact hargs, hle, by rw [hputs]; exact hchunks⟩
  · intro t u id buffer left off buffer' left' off' ht hu
    exact h.alone t u id buffer left off buffer' left' off' (hwriting t _ _ _ _ ht)
      (hwriting u _ _ _ _ hu)

/-- A task that moves on within its call, leaves it, or starts to read. -/
theorem writing_update {pc : ℕ → Pc} {p : Pc}
    (hp : ∀ id buffer left off, p.Writing id buffer left off → (pc t).Writing id buffer left off) :
    ∀ u id buffer left off, (Function.update pc t p u).Writing id buffer left off →
      (pc u).Writing id buffer left off := by
  intro u id buffer left off hw
  by_cases hut : u = t
  · subst hut
    rw [Function.update_self] at hw
    exact hp id buffer left off hw
  · rwa [Function.update_of_ne hut] at hw

theorem sameData_update {p : Pc}
    (hp : ∀ id buffer left off, p.Writing id buffer left off →
      (s.pc t).Writing id buffer left off) :
    SameData s { s with pc := Function.update s.pc t p } :=
  ⟨rfl, rfl, rfl, rfl, writing_update hp⟩

theorem sameData_leave (s : PipeState) (t : ℕ) (ret : ℤ) : SameData s (s.leave t ret) :=
  sameData_update fun _ _ _ _ hw => by cases hw

theorem sameData_hold {op : Op}
    (h : ∀ id buffer left off, op = .write id buffer left off →
      (s.pc t).Writing id buffer left off) : SameData s (s.hold t op) :=
  ⟨rfl, rfl, rfl, rfl, writing_update fun id buffer left off hw =>
    h id buffer left off (Option.some.inj hw)⟩

theorem wakeTask_cases (pc : ℕ → Pc) (t : ℕ) :
    (∃ op, pc t = .blocked op ∧ wakeTask pc t = Function.update pc t (.lock op)) ∨
      (∀ op, pc t ≠ .blocked op) ∧ wakeTask pc t = pc := by
  unfold wakeTask
  cases hpc : pc t with
  | blocked op => exact Or.inl ⟨op, rfl, rfl⟩
  | outside ret => exact Or.inr ⟨by simp, rfl⟩
  | lock op => exact Or.inr ⟨by simp, rfl⟩
  | adding op => exact Or.inr ⟨by simp, rfl⟩
  | park op => exact Or.inr ⟨by simp, rfl⟩

theorem sameData_wakeup (s : PipeState) : SameData s s.wakeup := by
  unfold PipeState.wakeup
  cases hqueue : s.waitQueue with
  | nil => exact ⟨rfl, rfl, rfl, rfl, fun _ _ _ _ _ hw => hw⟩
  | cons t queue =>
      refine ⟨rfl, rfl, rfl, rfl, ?_⟩
      show ∀ u id buffer left off, (wakeTask s.pc t u).Writing id buffer left off → _
      rcases wakeTask_cases s.pc t with ⟨op, hpc, hwake⟩ | ⟨-, hwake⟩
      · rw [hwake]
        exact writing_update fun id buffer left off hw => by rw [hpc]; exact hw
      · rw [hwake]
        exact fun u id buffer left off hw => hw

/-- A section of `pipe_read` that finds data. -/
theorem streamInv_get (h : StreamInv s) (buffer : ℕ → UInt8) (bytes : UInt32) {n : ℕ}
    (hn : n = min (min bytes.toNat pipeSize) (fifoBufLen s.fifo).toNat) :
    StreamInv { s with
      fifo := (fifoBufGet s.fifo buffer (UInt32.ofNat n)).1
      reads := s.reads ++ [⟨buffer, bytes, (fifoBufGet s.fifo buffer (UInt32.ofNat n)).2.1,
        (fifoBufGet s.fifo buffer (UInt32.ofNat n)).2.2.toNat⟩] } := by
  have hlen := h.fifo.len
  obtain ⟨hholds, hret, hdelivered, hframe⟩ :=
    holdsBytes_get h.fifo buffer (show n ≤ s.fifo.bytes.length by omega)
  have hbytes := hholds.bytes
  refine ⟨⟨?_, h.writers, h.chunks, hholds.bytes ▸ hholds.le, ?_⟩, hbytes.symm ▸ hholds, h.inside,
    h.alone⟩
  · show (s.reads ++ [_]).flatMap _ ++ _ = _
    rw [hbytes, List.flatMap_append, List.flatMap_singleton, ReadResult.delivered, hret, hdelivered,
      List.append_assoc, List.take_append_drop]
    exact h.stream
  · intro r hr
    rcases List.mem_append.1 hr with hr | hr
    · exact h.reads r hr
    · rw [List.mem_singleton.1 hr]
      refine ⟨?_, ?_⟩
      · show (fifoBufGet s.fifo buffer (UInt32.ofNat n)).2.2.toNat ≤ bytes.toNat
        omega
      · show ∀ i, (fifoBufGet s.fifo buffer (UInt32.ofNat n)).2.2.toNat ≤ i → _
        rw [hret]
        exact hframe

theorem chunksOf_append (id id' : ℕ) (puts : List (ℕ × List UInt8)) (put : List UInt8) :
    chunksOf id (puts ++ [(id', put)]) = chunksOf id puts ++ if id' = id then put else [] := by
  unfold chunksOf
  rw [List.filter_append, List.flatMap_append]
  congr 1
  by_cases hid : id' = id
  · rw [if_pos hid, List.filter_cons_of_pos (by simpa using hid)]
    simp
  · rw [if_neg hid, List.filter_cons_of_neg (by simpa using hid)]
    rfl

theorem map_range_add (f : ℕ → UInt8) (m n : ℕ) :
    (List.range (m + n)).map f = (List.range m).map f ++ (List.range n).map fun i => f (m + i) := by
  rw [List.range_add, List.map_append, List.map_map]
  rfl

/-- A section of `pipe_write`, up to where it leaves the loop. -/
theorem streamInv_put (h : StreamInv s) {id : ℕ} {buffer : ℕ → UInt8} {left : ℤ} {off : ℕ}
    (hpc : (s.pc t).Writing id buffer left off) {w : Filling}
    (hw : w = pipeFill buffer left.toNat ⟨s.fifo, left, off, []⟩) :
    StreamInv { s with
      fifo := w.fifo
      puts := s.puts ++ [(id, w.put)]
      pc := Function.update s.pc t (.lock (.write id buffer w.left w.off)) } := by
  obtain ⟨bytes, hargs, hle, hchunks⟩ := h.inside t id buffer left off hpc
  have hspec := pipeFill_spec buffer left.toNat ⟨s.fifo, left, off, []⟩ _ h.fifo le_rfl
  rw [← hw] at hspec
  obtain ⟨n, hn⟩ : ∃ n, n = min left.toNat (pipeSize - s.fifo.bytes.length) := ⟨_, rfl⟩
  simp only [← hn] at hspec
  obtain ⟨hholds, hleft, hoff, hput⟩ := hspec
  simp only [List.nil_append] at hholds hleft hoff hput
  have hid : id < s.writes.length := (List.getElem?_eq_some_iff.1 hargs).1
  have hbytes := hholds.bytes
  have hown : chunksOf id (s.puts ++ [(id, w.put)]) = (List.range w.off).map buffer := by
    rw [chunksOf_append, if_pos rfl, hchunks, hput, hoff, map_range_add]
  have hother : ∀ i, i ≠ id → chunksOf i (s.puts ++ [(id, w.put)]) = chunksOf i s.puts := by
    intro i hi
    rw [chunksOf_append, if_neg (Ne.symm hi), List.append_nil]
  -- the other tasks write under other numbers
  have hrest : ∀ u, u ≠ t → ∀ i buffer' left' off', (s.pc u).Writing i buffer' left' off' →
      i ≠ id := by
    rintro u hut i buffer' left' off' hu rfl
    exact hut (h.alone u t i buffer' left' off' buffer left off hu hpc)
  refine ⟨⟨?_, ?_, ?_, hholds.bytes ▸ hholds.le, h.reads⟩, hbytes.symm ▸ hholds, ?_, ?_⟩
  · show _ ++ w.fifo.bytes = (s.puts ++ [_]).flatMap _
    rw [hbytes, ← List.append_assoc, h.stream, List.flatMap_append, List.flatMap_singleton, hput]
  · intro p hp
    rcases List.mem_append.1 hp with hp | hp
    · exact h.writers p hp
    · rw [List.mem_singleton.1 hp]
      exact hid
  · intro i args hi
    show ∃ n ≤ args.bytes.toNat, chunksOf i (s.puts ++ [(id, w.put)]) = _
    by_cases hii : i = id
    · subst hii
      obtain rfl : args = ⟨buffer, bytes⟩ := Option.some.inj (hi.symm.trans hargs)
      exact ⟨w.off, by show w.off ≤ bytes.toNat; omega, hown⟩
    · rw [hother i hii]
      exact h.chunks i args hi
  · intro u i buffer' left' off' hu
    by_cases hut : u = t
    · subst hut
      simp only [Function.update_self, Pc.Writing, Pc.op, Option.some.injEq, Op.write.injEq] at hu
      obtain ⟨rfl, rfl, rfl, rfl⟩ := hu
      exact ⟨bytes, hargs, by omega, hown⟩
    · simp only [Function.update_of_ne hut] at hu
      obtain ⟨bytes', hargs', hle', hchunks'⟩ := h.inside u i buffer' left' off' hu
      refine ⟨bytes', hargs', hle', ?_⟩
      show chunksOf i (s.puts ++ [(id, w.put)]) = _
      rw [hother i (hrest u hut i _ _ _ hu), hchunks']
  · intro u v i b l o b' l' o' hu hv
    by_cases hut : u = t
    · by_cases hvt : v = t
      · rw [hut, hvt]
      · subst hut
        simp only [Function.update_self, Pc.Writing, Pc.op, Option.some.injEq, Op.write.injEq] at hu
        simp only [Function.update_of_ne hvt] at hv
        exact absurd hu.1.symm (hrest v hvt i _ _ _ hv)
    · simp only [Function.update_of_ne hut] at hu
      by_cases hvt : v = t
      · subst hvt
        simp only [Function.update_self, Pc.Writing, Pc.op, Option.some.injEq, Op.write.injEq] at hv
        exact absurd hv.1.symm (hrest u hut i _ _ _ hu)
      · simp only [Function.update_of_ne hvt] at hv
        exact h.alone u v i _ _ _ _ _ _ hu hv

/-- A task goes to sleep with what it has to do, after a step of the others. -/
theorem sameData_sleep_of (h : SameData s s') {op : Op} (hpc : (s.pc t).op = some op) :
    SameData s (s'.sleep t op) := by
  refine ⟨h.fifo, h.reads, h.writes, h.puts, fun u id buffer left off hu => ?_⟩
  by_cases hut : u = t
  · subst hut
    simp only [PipeState.sleep, Function.update_self] at hu
    exact hpc.trans hu
  · simp only [PipeState.sleep, Function.update_of_ne hut] at hu
    exact h.writing u id buffer left off hu

theorem sameData_pipeAdd {op : Op} (hpc : (s.pc t).op = some op) : SameData s (pipeAdd s t op) := by
  have hsame : SameData s s := ⟨rfl, rfl, rfl, rfl, fun _ _ _ _ _ hu => hu⟩
  cases op with
  | read buffer bytes => exact sameData_sleep_of hsame hpc
  | write id buffer left off =>
      rw [pipeAdd]
      split_ifs
      · exact sameData_sleep_of (sameData_wakeup s) hpc
      · exact sameData_sleep_of hsame hpc

theorem streamInv_pipeRead (h : StreamInv s) (t : ℕ) (buffer : ℕ → UInt8) (bytes : UInt32) :
    StreamInv (pipeRead s t buffer bytes) := by
  unfold pipeRead
  split_ifs
  · exact streamInv_same h (sameData_leave s t 0)
  · exact streamInv_same h (sameData_leave s t (-1))
  · exact streamInv_same h (sameData_leave s t (-1))
  · exact streamInv_same h (sameData_hold fun _ _ _ _ hop => by cases hop)
  · refine streamInv_same (streamInv_get h buffer bytes rfl) (SameData.trans ?_ (sameData_wakeup _))
    exact sameData_leave _ t _
  · exact streamInv_same (streamInv_get h buffer bytes rfl) (sameData_leave _ t _)

theorem streamInv_pipeWrite (h : StreamInv s) {id : ℕ} {buffer : ℕ → UInt8} {left : ℤ} {off : ℕ}
    (hpc : (s.pc t).Writing id buffer left off) : StreamInv (pipeWrite s t id buffer left off) := by
  obtain ⟨w, hw⟩ : ∃ w, w = pipeFill buffer left.toNat ⟨s.fifo, left, off, []⟩ := ⟨_, rfl⟩
  have hput := streamInv_put h hpc hw
  -- the state in which the section left the loop, seen from the states it can end in
  have hleave : ∀ (ret : ℤ), SameData
      { s with
        fifo := w.fifo
        puts := s.puts ++ [(id, w.put)]
        pc := Function.update s.pc t (.lock (.write id buffer w.left w.off)) }
      (PipeState.leave { s with fifo := w.fifo, puts := s.puts ++ [(id, w.put)] } t ret) := by
    intro ret
    refine ⟨rfl, rfl, rfl, rfl, fun u i b l o hu => ?_⟩
    by_cases hut : u = t
    · subst hut
      simp only [PipeState.leave, Function.update_self] at hu
      cases hu
    · simp only [PipeState.leave, Function.update_of_ne hut] at hu ⊢
      exact hu
  unfold pipeWrite
  simp only [← hw]
  split_ifs
  · exact streamInv_same hput ((hleave _).trans (sameData_wakeup _))
  · exact streamInv_same hput (hleave _)
  · exact streamInv_same hput (hleave _)
  · exact streamInv_same hput ((hleave _).trans ⟨rfl, rfl, rfl, rfl, fun _ _ _ _ _ hu => hu⟩)
  · refine streamInv_same hput ⟨rfl, rfl, rfl, rfl, fun u i b l o hu => ?_⟩
    by_cases hut : u = t
    · subst hut
      simp only [PipeState.hold, Function.update_self] at hu ⊢
      exact hu
    · simp only [PipeState.hold, Function.update_of_ne hut] at hu ⊢
      exact hu

theorem intOfSize_toNat_le (bytes : UInt32) : (intOfSize bytes).toNat ≤ bytes.toNat := by
  have hlt := bytes.toNat_lt
  unfold intOfSize
  split_ifs
  · exact le_rfl
  · omega

/-- A call of `pipe_write` starts under a new number. -/
theorem streamInv_enter (h : StreamInv s) (t : ℕ) (buffer : ℕ → UInt8) (bytes : UInt32) :
    StreamInv { s with
      pc := Function.update s.pc t (.lock (.write s.writes.length buffer (intOfSize bytes) 0))
      writes := s.writes ++ [⟨buffer, bytes⟩] } := by
  -- nothing was put yet under the new number
  have hnew : chunksOf s.writes.length s.puts = [] := by
    unfold chunksOf
    rw [List.filter_eq_nil_iff.2, List.flatMap_nil]
    intro p hp
    simpa using (h.writers p hp).ne
  have hold : ∀ {i : ℕ} {args : WriteArgs}, s.writes[i]? = some args →
      (s.writes ++ [⟨buffer, bytes⟩])[i]? = some args := by
    intro i args hi
    rw [List.getElem?_append_left (List.getElem?_eq_some_iff.1 hi).1, hi]
  have hfresh : ∀ u b l o, ¬ (s.pc u).Writing s.writes.length b l o := by
    intro u b l o hu
    obtain ⟨bytes', hargs, -⟩ := h.inside u s.writes.length b l o hu
    exact absurd (List.getElem?_eq_some_iff.1 hargs).1 (lt_irrefl _)
  refine ⟨⟨h.stream, ?_, ?_, h.bound, h.reads⟩, h.fifo, ?_, ?_⟩
  · intro p hp
    rw [List.length_append]
    exact Nat.lt_add_right _ (h.writers p hp)
  · intro i args hi
    show ∃ n ≤ args.bytes.toNat, chunksOf i s.puts = _
    have hi : (s.writes ++ [(⟨buffer, bytes⟩ : WriteArgs)])[i]? = some args := hi
    by_cases hlt : i < s.writes.length
    · rw [List.getElem?_append_left hlt] at hi
      exact h.chunks i args hi
    · have hle := (List.getElem?_eq_some_iff.1 hi).1
      rw [List.length_append, List.length_singleton] at hle
      obtain rfl : i = s.writes.length := by omega
      exact ⟨0, Nat.zero_le _, by rw [hnew]; rfl⟩
  · intro u i b l o hu
    by_cases hut : u = t
    · subst hut
      simp only [Function.update_self, Pc.Writing, Pc.op, Option.some.injEq, Op.write.injEq] at hu
      obtain ⟨rfl, rfl, rfl, rfl⟩ := hu
      refine ⟨bytes, by simp, ?_, by rw [hnew]; rfl⟩
      rw [Nat.zero_add]
      exact intOfSize_toNat_le bytes
    · simp only [Function.update_of_ne hut] at hu
      obtain ⟨bytes', hargs, hle, hchunks⟩ := h.inside u i b l o hu
      exact ⟨bytes', hold hargs, hle, hchunks⟩
  · intro u v i b l o b' l' o' hu hv
    by_cases hut : u = t
    · by_cases hvt : v = t
      · rw [hut, hvt]
      · subst hut
        simp only [Function.update_self, Pc.Writing, Pc.op, Option.some.injEq, Op.write.injEq] at hu
        simp only [Function.update_of_ne hvt] at hv
        rw [← hu.1] at hv
        exact absurd hv (hfresh v _ _ _)
    · simp only [Function.update_of_ne hut] at hu
      by_cases hvt : v = t
      · subst hvt
        simp only [Function.update_self, Pc.Writing, Pc.op, Option.some.injEq, Op.write.injEq] at hv
        rw [← hv.1] at hu
        exact absurd hu (hfresh u _ _ _)
      · simp only [Function.update_of_ne hvt] at hv
        exact h.alone u v i _ _ _ _ _ _ hu hv

theorem streamInv_startRead (h : StreamInv s) (t : ℕ) (buffer : Option (ℕ → UInt8))
    (bytes : UInt32) :
    StreamInv (startRead s t buffer bytes) := by
  cases buffer with
  | none => exact streamInv_same h (sameData_leave s t (-1))
  | some buffer =>
      simp only [startRead]
      split_ifs
      · exact streamInv_same h (sameData_leave s t (-1))
      · exact streamInv_same h (sameData_update fun _ _ _ _ hw => by cases hw)

theorem streamInv_startWrite (h : StreamInv s) (t : ℕ) (buffer : Option (ℕ → UInt8))
    (bytes : UInt32) : StreamInv (startWrite s t buffer bytes) := by
  cases buffer with
  | none => exact streamInv_same h (sameData_leave s t (-1))
  | some buffer =>
      simp only [startWrite]
      split_ifs
      · exact streamInv_same h (sameData_leave s t (-1))
      · exact streamInv_same h ((sameData_leave s t (-1)).trans
          ⟨rfl, rfl, rfl, rfl, fun _ _ _ _ _ hu => hu⟩)
      · exact streamInv_enter h t buffer bytes

theorem sameData_signal (s : PipeState) (t : ℕ) (causesExit : Bool) :
    SameData s (signalTask s t causesExit) := by
  unfold signalTask
  cases hpc : s.pc t with
  | blocked op =>
      exact ⟨rfl, rfl, rfl, rfl, writing_update fun id buffer left off hw => by rw [hpc]; exact hw⟩
  | outside ret => exact ⟨rfl, rfl, rfl, rfl, fun _ _ _ _ _ hu => hu⟩
  | lock op => exact ⟨rfl, rfl, rfl, rfl, fun _ _ _ _ _ hu => hu⟩
  | adding op => exact ⟨rfl, rfl, rfl, rfl, fun _ _ _ _ _ hu => hu⟩
  | park op => exact ⟨rfl, rfl, rfl, rfl, fun _ _ _ _ _ hu => hu⟩

theorem sameData_close (s : PipeState) (rw : Bool) : SameData s (pipeClose s rw) := by
  unfold pipeClose
  split_ifs <;> exact ⟨rfl, rfl, rfl, rfl, fun _ _ _ _ _ hu => hu⟩

theorem sameData_destroy (s : PipeState) : SameData s (pipeDestroy s) := by
  unfold pipeDestroy
  split_ifs <;> exact ⟨rfl, rfl, rfl, rfl, fun _ _ _ _ _ hu => hu⟩

theorem sameData_incref (s : PipeState) (rw : Bool) : SameData s (pipeIncref s rw) := by
  unfold pipeIncref
  split_ifs <;> exact ⟨rfl, rfl, rfl, rfl, fun _ _ _ _ _ hu => hu⟩

theorem sameData_ioctl (s : PipeState) (rw : Bool) : SameData s (pipeIoctl s rw) := by
  unfold pipeIoctl
  split_ifs <;> exact ⟨rfl, rfl, rfl, rfl, fun _ _ _ _ _ hu => hu⟩

theorem streamInv_step (s : PipeState) (call : PipeCall) (s' : PipeState) (h : StreamInv s)
    (_ : True) (hstep : pipeStep s call = some s') : StreamInv s' := by
  cases moves_of_pipeStep hstep with
  | read t buffer bytes ret hpc => exact streamInv_startRead h t buffer bytes
  | write t buffer bytes ret hpc => exact streamInv_startWrite h t buffer bytes
  | runRead t buffer bytes hpc hfree => exact streamInv_pipeRead h t buffer bytes
  | runWrite t id buffer left off hpc hfree => exact streamInv_pipeWrite h (by rw [hpc]; rfl)
  | add t op hpc => exact streamInv_same h (sameData_pipeAdd (by rw [hpc]; rfl))
  | block t op hpc =>
      exact streamInv_same h (sameData_update fun _ _ _ _ hw => by rw [hpc]; exact hw)
  | signal t causesExit => exact streamInv_same h (sameData_signal s t causesExit)
  | handle t ret hpc => exact streamInv_same h ⟨rfl, rfl, rfl, rfl, fun _ _ _ _ _ hu => hu⟩
  | close rw => exact streamInv_same h (sameData_close s rw)
  | destroy => exact streamInv_same h (sameData_destroy s)
  | incref rw => exact streamInv_same h (sameData_incref s rw)
  | ioctl rw => exact streamInv_same h (sameData_ioctl s rw)

theorem streamInv_create (mem : ℕ → UInt8) : StreamInv (createPipe mem) := by
  have hholds : HoldsBytes (createPipe mem).fifo [] :=
    ⟨mem, rfl, by simp [createPipe], by simp [createPipe, Ring.contents], fun _ _ => rfl⟩
  have hbytes := hholds.bytes
  refine ⟨⟨?_, ?_, ?_, ?_, ?_⟩, hbytes.symm ▸ hholds, ?_, ?_⟩
  · rw [hbytes]; rfl
  · exact fun p hp => absurd hp List.not_mem_nil
  · intro id args hargs
    simp [createPipe] at hargs
  · rw [hbytes]; exact Nat.zero_le _
  · exact fun r hr => absurd hr List.not_mem_nil
  · intro t id buffer left off hw
    cases hw
  · intro t u id buffer left off buffer' left' off' hw
    cases hw

end Stream

/-- **A byte stream.**  In every run on a new pipe, in whatever order the sections, blocks, wake-ups
and closes come, the bytes read followed by the bytes in the fifo are the bytes put, every write
contributed a prefix of its buffer in order, and every read got what it returned. -/
theorem pipe_byteStream (mem : ℕ → UInt8) (calls : List PipeCall) (s : PipeState)
    (hrun : Run.exec pipeStep (createPipe mem) calls = some s) : ByteStream s :=
  (Run.exec_invariant streamInv_step calls (createPipe mem) s (streamInv_create mem)
    (Run.along_of_forall (fun _ _ => trivial) _ _) hrun).toByteStream

/-- Five thousand bytes are written in two sections, with a read between them. -/
def longWrite : List PipeCall :=
  [.write 1 (some fun i => UInt8.ofNat i) 5000, .run 1, .run 1, .block 1,
    .read 2 (some fun _ => 0) 10, .run 2, .run 1]

theorem pipe_byteStream_longWrite : ∃ s,
    Run.exec pipeStep (createPipe fun _ => 0) longWrite = some s ∧ s.reads.length = 1 ∧
      (s.puts.map fun p => p.2.length) = [4096, 10] ∧ ByteStream s := by
  have hrun : (Run.exec pipeStep (createPipe fun _ => 0) longWrite).map
      (fun s => (s.reads.length, s.puts.map fun p => p.2.length)) = some (1, [4096, 10]) := by
    decide +kernel
  obtain ⟨s, hs, hlog⟩ := Option.map_eq_some_iff.1 hrun
  rw [Prod.mk.injEq] at hlog
  exact ⟨s, hs, hlog.1, hlog.2, pipe_byteStream _ longWrite s hs⟩

end Pipe
end LightOS
