import LightOS.Ipc.PipeStream

/-!
# Pipes: what `pipe_write` returns

A write that does not fit into the fifo is put in pieces, with other tasks in between.  When a
piece does not fit, the call may have to give up (`pipe_write` is not to block, the task has an
exception to handle, or there are no readers), and returns -1 whatever it has put already.

* `pipeWrite_counts` — a section that gets everything into the fifo returns the number of bytes put.
* `pipeWrite_gives_up` — a section that has to give up.
* `pipeWrite_truthful_iff` — what a call returns is what it has put, unless it gives up halfway.
-/

namespace LightOS
namespace Pipe

open Fifo

/-! ## The end of a call -/

/-- What `pipe_write` returned is true: the number of bytes it has put, the first ones of its
buffer, or -1 and none. -/
def Truthful (buffer : ℕ → UInt8) (put : List UInt8) (ret : ℤ) : Prop :=
  ret = -1 ∧ put = [] ∨ ∃ n : ℕ, ret = n ∧ put = (List.range n).map buffer

/-- A step from `s` to `s'` ends a call of `pipe_write`: its buffer, the bytes it has put, and what
it returns. -/
inductive WriteEnds (s s' : PipeState) : PipeCall → (ℕ → UInt8) → List UInt8 → ℤ → Prop
  /-- The call is refused. -/
  | refused {t : ℕ} {buffer : Option (ℕ → UInt8)} {bytes : UInt32} {ret : ℤ}
      (hret : s'.pc t = .outside ret) :
      WriteEnds s s' (.write t buffer bytes) (buffer.getD fun _ => 0)
        ((s'.puts.drop s.puts.length).flatMap Prod.snd) ret
  /-- A section is the last one. -/
  | last {t id : ℕ} {buffer : ℕ → UInt8} {left : ℤ} {off : ℕ} {ret : ℤ}
      (hpc : s.pc t = .lock (.write id buffer left off)) (hret : s'.pc t = .outside ret) :
      WriteEnds s s' (.run t) buffer (chunksOf id s'.puts) ret

/-- The task cannot wait for room: the write end is not to block, an exception that causes an exit
is pending, or there is no reader. -/
def CannotWait (s : PipeState) (t : ℕ) : Prop :=
  s.wrNowait = true ∨ s.exit t = true ∨ s.readCount ≤ 0

/-- The task is about to give up a write halfway: it has more to write than there is room for, it
cannot wait, and some bytes are put already or still fit. -/
def CutShort (s : PipeState) : PipeCall → Prop
  | .run t =>
      match s.pc t with
      | .lock (.write _ _ left off) =>
          ((fifoBufAvali s.fifo).toNat : ℤ) < left ∧ CannotWait s t ∧
            0 < off + (fifoBufAvali s.fifo).toNat
      | _ => False
  | _ => False

section Ends

variable {s s' : PipeState} {t id : ℕ} {buffer : ℕ → UInt8} {left : ℤ} {off : ℕ} {ret : ℤ}

theorem map_range_eq_nil {n : ℕ} : (List.range n).map buffer = [] ↔ n = 0 := by
  rw [List.map_eq_nil_iff, List.range_eq_nil]

/-- With -1 nothing may have been put. -/
theorem truthful_neg_one {put : List UInt8} : Truthful buffer put (-1) ↔ put = [] := by
  constructor
  · rintro (⟨-, h⟩ | ⟨n, hn, -⟩)
    · exact h
    · omega
  · exact fun h => Or.inl ⟨rfl, h⟩

/-- A wake-up does not concern a task that has left. -/
theorem wakeup_pc_of_outside (h : s.pc t = .outside ret) : s.wakeup.pc t = .outside ret := by
  unfold PipeState.wakeup
  cases hqueue : s.waitQueue with
  | nil => exact h
  | cons u queue =>
      show wakeTask s.pc u t = _
      rcases wakeTask_cases s.pc u with ⟨op, hpc, hwake⟩ | ⟨-, hwake⟩
      · rw [hwake, Function.update_of_ne, h]
        rintro rfl
        rw [h] at hpc
        cases hpc
      · rw [hwake, h]

@[simp] theorem leave_pc (s : PipeState) (t : ℕ) (ret : ℤ) : (s.leave t ret).pc t = .outside ret :=
  Function.update_self ..

@[simp] theorem hold_pc (s : PipeState) (t : ℕ) (op : Op) : (s.hold t op).pc t = .adding op :=
  Function.update_self ..

/-! ## The sections of a write -/

/-- What a section has put, with what the call had put before. -/
theorem pipeFill_section (h : StreamInv s) (hpc : s.pc t = .lock (.write id buffer left off))
    {w : Filling} (hw : w = pipeFill buffer left.toNat ⟨s.fifo, left, off, []⟩) :
    w.left = left - min left.toNat (fifoBufAvali s.fifo).toNat ∧
      w.off = off + min left.toNat (fifoBufAvali s.fifo).toNat ∧
      chunksOf id (s.puts ++ [(id, w.put)]) = (List.range w.off).map buffer := by
  obtain ⟨bytes, -, -, hchunks⟩ := h.inside t id buffer left off (by rw [hpc]; rfl)
  have hspec := pipeFill_spec buffer left.toNat ⟨s.fifo, left, off, []⟩ _ h.fifo le_rfl
  rw [← hw, ← h.fifo.avali] at hspec
  refine ⟨hspec.left, hspec.off, ?_⟩
  rw [chunksOf_append, if_pos rfl, hchunks, hspec.put, hspec.off, map_range_add, List.nil_append]

/-- **Everything fits**: the section returns the number of bytes put. -/
theorem pipeWrite_counts (h : StreamInv s) (hpc : s.pc t = .lock (.write id buffer left off))
    (hfits : left ≤ ((fifoBufAvali s.fifo).toNat : ℤ)) :
    ∃ n : ℕ, (pipeWrite s t id buffer left off).pc t = .outside n ∧
      chunksOf id (pipeWrite s t id buffer left off).puts = (List.range n).map buffer := by
  obtain ⟨w, hw⟩ : ∃ w, w = pipeFill buffer left.toNat ⟨s.fifo, left, off, []⟩ := ⟨_, rfl⟩
  obtain ⟨hleft, -, hchunks⟩ := pipeFill_section h hpc hw
  unfold pipeWrite
  simp only [← hw]
  rw [if_pos (show w.left ≤ 0 by omega)]
  refine ⟨w.off, ?_⟩
  split_ifs
  · refine ⟨wakeup_pc_of_outside (leave_pc _ t w.off), ?_⟩
    rw [(sameData_wakeup _).puts]
    exact hchunks
  · exact ⟨leave_pc _ t w.off, hchunks⟩

/-- **It does not fit and the task cannot wait**: -1, whatever was put. -/
theorem pipeWrite_gives_up (h : StreamInv s) (hpc : s.pc t = .lock (.write id buffer left off))
    (hfull : ((fifoBufAvali s.fifo).toNat : ℤ) < left) (hwait : CannotWait s t) :
    (pipeWrite s t id buffer left off).pc t = .outside (-1) ∧
      chunksOf id (pipeWrite s t id buffer left off).puts =
        (List.range (off + (fifoBufAvali s.fifo).toNat)).map buffer := by
  obtain ⟨w, hw⟩ : ∃ w, w = pipeFill buffer left.toNat ⟨s.fifo, left, off, []⟩ := ⟨_, rfl⟩
  obtain ⟨hleft, hoff, hchunks⟩ := pipeFill_section h hpc hw
  have hoff' : w.off = off + (fifoBufAvali s.fifo).toNat := by omega
  unfold pipeWrite
  simp only [← hw]
  rw [if_neg (show ¬ w.left ≤ 0 by omega), ← hoff']
  by_cases hgo : s.wrNowait = true ∨ s.exit t = true
  · rw [if_pos hgo]
    exact ⟨leave_pc _ t (-1), hchunks⟩
  · have hreaders : s.readCount ≤ 0 := by
      rcases hwait with h | h | h
      · exact absurd (Or.inl h) hgo
      · exact absurd (Or.inr h) hgo
      · exact h
    rw [if_neg hgo, if_pos hreaders]
    exact ⟨leave_pc _ t (-1), hchunks⟩

/-- It does not fit and the task waits: the call goes on. -/
theorem pipeWrite_waits (h : StreamInv s) (hpc : s.pc t = .lock (.write id buffer left off))
    (hfull : ((fifoBufAvali s.fifo).toNat : ℤ) < left) (hwait : ¬ CannotWait s t) :
    (pipeWrite s t id buffer left off).pc t ≠ .outside ret := by
  obtain ⟨w, hw⟩ : ∃ w, w = pipeFill buffer left.toNat ⟨s.fifo, left, off, []⟩ := ⟨_, rfl⟩
  obtain ⟨hleft, -, -⟩ := pipeFill_section h hpc hw
  unfold CannotWait at hwait
  rw [not_or, not_or] at hwait
  obtain ⟨hnowait, hexit, hreaders⟩ := hwait
  unfold pipeWrite
  simp only [← hw]
  rw [if_neg (show ¬ w.left ≤ 0 by omega), if_neg (not_or.2 ⟨hnowait, hexit⟩), if_neg hreaders,
    hold_pc]
  exact Pc.noConfusion

/-- A call that is refused returns -1 and puts nothing. -/
theorem startWrite_refused {buffer : Option (ℕ → UInt8)} {bytes : UInt32}
    (hret : (startWrite s t buffer bytes).pc t = .outside ret) :
    ret = -1 ∧ (startWrite s t buffer bytes).puts = s.puts := by
  cases buffer with
  | none =>
      rw [startWrite, leave_pc, Pc.outside.injEq] at hret
      exact ⟨hret.symm, rfl⟩
  | some buffer =>
      rw [startWrite] at hret ⊢
      split_ifs at hret ⊢
      · rw [leave_pc, Pc.outside.injEq] at hret
        exact ⟨hret.symm, rfl⟩
      · have hpc := (leave_pc s t (-1)).symm.trans hret
        exact ⟨(Pc.outside.inj hpc).symm, rfl⟩
      · simp only [Function.update_self, reduceCtorEq] at hret

end Ends

/-- **What `pipe_write` returns is true** if and only if the call does not give up halfway: in every
run on a new pipe, whatever the other tasks do before the call and while it waits. -/
theorem pipeWrite_truthful_iff (mem : ℕ → UInt8) (calls : List PipeCall) (s : PipeState)
    (hrun : Run.exec pipeStep (createPipe mem) calls = some s) {call : PipeCall} {s' : PipeState}
    (hstep : pipeStep s call = some s') {buffer : ℕ → UInt8} {put : List UInt8} {ret : ℤ}
    (hends : WriteEnds s s' call buffer put ret) : Truthful buffer put ret ↔ ¬ CutShort s call := by
  have h : StreamInv s :=
    Run.exec_invariant streamInv_step calls (createPipe mem) s (streamInv_create mem)
    (Run.along_of_forall (fun _ _ => trivial) _ _) hrun
  cases hends with
  | @refused t buffer bytes ret hret =>
      cases moves_of_pipeStep hstep with
      | write t buffer bytes ret' hpc =>
          obtain ⟨rfl, hputs⟩ := startWrite_refused hret
          refine iff_of_true (Or.inl ⟨rfl, ?_⟩) id
          rw [hputs, List.drop_length]
          rfl
  | @last t id buffer left off ret hpc hret =>
      have hcut : CutShort s (.run t) ↔ ((fifoBufAvali s.fifo).toNat : ℤ) < left ∧ CannotWait s t ∧
          0 < off + (fifoBufAvali s.fifo).toNat := by
        simp only [CutShort, hpc]
      cases moves_of_pipeStep hstep with
      | runRead t buffer bytes hpc' hfree =>
          rw [hpc'] at hpc
          cases hpc
      | add t op hpc' =>
          rw [hpc'] at hpc
          cases hpc
      | runWrite t id' buffer' left' off' hpc' hfree =>
          rw [hpc'] at hpc
          cases hpc
          by_cases hfull : ((fifoBufAvali s.fifo).toNat : ℤ) < left
          · by_cases hwait : CannotWait s t
            · obtain ⟨hpc'', hput⟩ := pipeWrite_gives_up h hpc' hfull hwait
              rw [hpc'', Pc.outside.injEq] at hret
              subst hret
              rw [truthful_neg_one, hput, map_range_eq_nil, hcut, and_iff_right hfull,
                and_iff_right hwait, Nat.pos_iff_ne_zero, not_not]
            · exact absurd hret (pipeWrite_waits h hpc' hfull hwait)
          · obtain ⟨n, hpc'', hput⟩ := pipeWrite_counts h hpc' (not_lt.1 hfull)
            rw [hpc'', Pc.outside.injEq] at hret
            exact iff_of_true (Or.inr ⟨n, hret.symm, hput⟩) fun hc => hfull (hcut.1 hc).1

/-- A task about to write, on a new pipe. -/
def aboutToWrite (nowait : Bool) (bytes : UInt32) : PipeState :=
  { createPipe fun _ => 0 with
    wrNowait := nowait
    pc := Function.update (fun _ => .outside 0) 1
      (.lock (.write 0 (fun i => UInt8.ofNat i) (intOfSize bytes) 0))
    writes := [⟨fun i => UInt8.ofNat i, bytes⟩] }

theorem streamInv_aboutToWrite {calls : List PipeCall} {nowait : Bool} {bytes : UInt32}
    (hrun : Run.exec pipeStep (createPipe fun _ => 0) calls = some (aboutToWrite nowait bytes)) :
    StreamInv (aboutToWrite nowait bytes) :=
  Run.exec_invariant streamInv_step calls _ _ (streamInv_create _)
    (Run.along_of_forall (fun _ _ => trivial) _ _) hrun

/-- Ten bytes fit. -/
theorem pipeWrite_truthful_ten : ∃ s' ret,
    Run.exec pipeStep (createPipe fun _ => 0) [.write 1 (some fun i => UInt8.ofNat i) 10] =
        some (aboutToWrite false 10) ∧
      pipeStep (aboutToWrite false 10) (.run 1) = some s' ∧
      WriteEnds (aboutToWrite false 10) s' (.run 1) (fun i => UInt8.ofNat i)
      (chunksOf 0 s'.puts) ret ∧
      Truthful (fun i => UInt8.ofNat i) (chunksOf 0 s'.puts) ret := by
  have hrun : Run.exec pipeStep (createPipe fun _ => 0)
    [.write 1 (some fun i => UInt8.ofNat i) 10] =
      some (aboutToWrite false 10) := rfl
  have hpc : (aboutToWrite false 10).pc 1 = .lock
    (.write 0 (fun i => UInt8.ofNat i) (intOfSize 10) 0) := rfl
  have hfits : intOfSize 10 ≤ ((fifoBufAvali (aboutToWrite false 10).fifo).toNat : ℤ) := by
    decide +kernel
  obtain ⟨n, hret, -⟩ := pipeWrite_counts (streamInv_aboutToWrite hrun) hpc hfits
  have hends := WriteEnds.last hpc hret
  refine ⟨_, n, hrun, rfl, hends, (pipeWrite_truthful_iff _ _ _ hrun rfl hends).2 fun hcut => ?_⟩
  exact absurd hcut.1 (not_lt.2 hfits)

/-- Five thousand bytes on a pipe that does not block: 4096 of them are put, and -1 is returned. -/
theorem pipeWrite_not_truthful : ∃ s',
    Run.exec pipeStep (createPipe fun _ => 0)
    [.ioctl true, .write 1 (some fun i => UInt8.ofNat i) 5000] =
        some (aboutToWrite true 5000) ∧
      pipeStep (aboutToWrite true 5000) (.run 1) = some s' ∧
      WriteEnds (aboutToWrite true 5000) s' (.run 1) (fun i => UInt8.ofNat i) (chunksOf 0 s'.puts)
      (-1) ∧
      (chunksOf 0 s'.puts).length = 4096 ∧
      ¬ Truthful (fun i => UInt8.ofNat i) (chunksOf 0 s'.puts) (-1) := by
  have hrun : Run.exec pipeStep (createPipe fun _ => 0)
      [.ioctl true, .write 1 (some fun i => UInt8.ofNat i) 5000] = some (aboutToWrite true 5000) :=
        rfl
  have hpc : (aboutToWrite true 5000).pc 1 = .lock
    (.write 0 (fun i => UInt8.ofNat i) (intOfSize 5000) 0) := rfl
  have hfull : ((fifoBufAvali (aboutToWrite true 5000).fifo).toNat : ℤ) < intOfSize 5000 := by
    decide +kernel
  obtain ⟨hret, hput⟩ := pipeWrite_gives_up (streamInv_aboutToWrite hrun) hpc hfull (Or.inl rfl)
  have hlength : (fifoBufAvali (aboutToWrite true 5000).fifo).toNat = 4096 := by decide +kernel
  rw [hlength, Nat.zero_add] at hput
  refine ⟨_, hrun, rfl, .last hpc hret, ?_, ?_⟩
  · rw [hput, List.length_map, List.length_range]
  · rw [truthful_neg_one, hput, map_range_eq_nil]
    norm_num

end Pipe
end LightOS
