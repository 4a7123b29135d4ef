import LightOS.Lib.Run
import LightOS.Lib.Threads
import LightOS.Task.RwLockBasic

/-!
# Reader-writer locks: exclusion and progress

The program of a policy has finitely many control points.  What a step does to the regions of the
program is checked point by point; what follows for any number of tasks is an invariant.

* `moves_of_mem` — what a step does to the regions.
* `RwInv` — who has the mutexes, what `count` counts, and when the readers have `rw_mutex`.
* `rwStep_inv` — a step keeps it.
* `rwlock_ok` — exclusion, the value of `count`, and freedom from deadlock, in every state of every
  run.
-/

namespace LightOS
namespace RwLock

open Threads

/-! ## Control points -/

/-- The control points inside a function. -/
def pointsOf (arg : RwlockArg) (op : RwOp) : List RwPc :=
  (code arg op).tails.flatMap fun
    | [] => []
    | .ifZero i :: rest => [.run op (.ifZero i :: rest), .run op (i :: rest)]
    | i :: rest => [.run op (i :: rest)]

/-- The control points of a policy. -/
def points (arg : RwlockArg) : List RwPc :=
  [.idle, .reading, .writing] ++ pointsOf arg .readLock ++ pointsOf arg .readUnlock ++
    pointsOf arg .writeLock ++ pointsOf arg .writeUnlock

/-- The task has `count_mutex`. -/
def HoldsCount : RwPc → Prop
  | .run _ rest => .unlock .countMutex ∈ rest ∧ .lock .countMutex ∉ rest
  | _ => False

/-- The task has `write_mutex`. -/
def HoldsWrite (arg : RwlockArg) : RwPc → Prop
  | .run .readLock rest => .unlock .writeMutex ∈ rest ∧ .lock .writeMutex ∉ rest
  | .run .writeLock rest => arg ≠ .rdFirst ∧ .lock .writeMutex ∉ rest
  | .run .writeUnlock _ | .writing => arg = .wrFirst
  | _ => False

/-- The task has incremented `count` and not yet decremented it. -/
def Counted : RwPc → Prop
  | .reading => True
  | .run .readLock rest => .inc ∉ rest
  | .run .readUnlock rest => .dec ∈ rest
  | _ => False

/-- The task has `rw_mutex` for writing. -/
def WriterIn : RwPc → Prop
  | .writing => True
  | .run .writeLock rest => .lock .rwMutex ∉ rest
  | .run .writeUnlock rest => .unlock .rwMutex ∈ rest
  | _ => False

/-- The task has `rw_mutex` for the readers and `count` need not show it: it is about to increment
it, or has just decremented it. -/
def Carries : RwPc → Prop
  | .run .readLock (.inc :: _) => True
  | .run .readUnlock (.ifZero _ :: _) => True
  | .run .readUnlock (.unlock .rwMutex :: _) => True
  | _ => False

/-- The task has found `count` to be zero. -/
def FoundZero : RwPc → Prop
  | .run .readLock (.lock .rwMutex :: _) => True
  | .run .readUnlock (.unlock .rwMutex :: _) => True
  | _ => False

instance : DecidablePred HoldsCount := fun p => by unfold HoldsCount; split <;> infer_instance
instance (arg : RwlockArg) : DecidablePred (HoldsWrite arg) := fun p => by
  unfold HoldsWrite; split <;> infer_instance
instance : DecidablePred Counted := fun p => by unfold Counted; split <;> infer_instance
instance : DecidablePred WriterIn := fun p => by unfold WriterIn; split <;> infer_instance
instance : DecidablePred Carries := fun p => by unfold Carries; split <;> infer_instance
instance : DecidablePred FoundZero := fun p => by unfold FoundZero; split <;> infer_instance

/-- What the step `i` does to the regions. -/
structure Moves (arg : RwlockArg) (op : RwOp) (i : RwInstr) (p q : RwPc) : Prop where
  mem : q ∈ points arg
  holdsCount : Crosses HoldsCount (i = .lock .countMutex) (i = .unlock .countMutex) p q
  holdsWrite : Crosses (HoldsWrite arg) (i = .lock .writeMutex) (i = .unlock .writeMutex) p q
  counted : Crosses Counted (i = .inc) (i = .dec) p q
  writerIn : Crosses WriterIn (i = .lock .rwMutex ∧ op = .writeLock)
    (i = .unlock .rwMutex ∧ op = .writeUnlock) p q

/-- The points a step can lead to. -/
def succs (op : RwOp) (i : RwInstr) (rest : List RwInstr) : List RwPc :=
  match i with
  | .ifZero j => [.run op (j :: rest), goOn op rest]
  | _ => [goOn op rest]

/-- The step a control point is at. -/
def instrAt : RwPc → Option (RwOp × RwInstr × List RwInstr)
  | .run op (i :: rest) => some (op, i, rest)
  | _ => none

instance (arg : RwlockArg) (op : RwOp) (i : RwInstr) (p q : RwPc) :
    Decidable (Moves arg op i p q) :=
  decidable_of_iff (q ∈ points arg ∧
      Crosses HoldsCount (i = .lock .countMutex) (i = .unlock .countMutex) p q ∧
      Crosses (HoldsWrite arg) (i = .lock .writeMutex) (i = .unlock .writeMutex) p q ∧
      Crosses Counted (i = .inc) (i = .dec) p q ∧
      Crosses WriterIn (i = .lock .rwMutex ∧ op = .writeLock)
        (i = .unlock .rwMutex ∧ op = .writeUnlock) p q)
    ⟨fun ⟨hmem, hcount, hwrite, hnum, hrw⟩ => ⟨hmem, hcount, hwrite, hnum, hrw⟩,
      fun h => ⟨h.mem, h.holdsCount, h.holdsWrite, h.counted, h.writerIn⟩⟩

theorem moves_points (arg : RwlockArg) : ∀ p ∈ points arg, ∀ x ∈ instrAt p,
    ∀ q ∈ succs x.1 x.2.1 x.2.2, Moves arg x.1 x.2.1 p q := by
  cases arg <;> decide

/-- **What a step does to the regions.** -/
theorem moves_of_mem {arg : RwlockArg} {op : RwOp} {i : RwInstr} {rest : List RwInstr} {p q : RwPc}
    (hp : p ∈ points arg) (hpc : p = .run op (i :: rest)) (hq : q ∈ succs op i rest) :
    Moves arg op i p q := moves_points arg p hp (op, i, rest) (by rw [hpc]; rfl) q hq

/-- What the step `i` does to the readers' hold on `rw_mutex`. -/
def Passes (op : RwOp) (rest : List RwInstr) (p : RwPc) : RwInstr → Prop
  | .inc => Carries p ∧ HoldsCount p ∧ ¬FoundZero (goOn op rest)
  | .dec => HoldsCount p ∧ Carries (goOn op rest) ∧ ¬FoundZero (goOn op rest)
  | .ifZero j =>
      (op = .readLock ∧ ¬Carries p ∧ ¬Carries (.run op (j :: rest)) ∧ Carries (goOn op rest) ∨
        op = .readUnlock ∧ Carries p ∧ Carries (.run op (j :: rest))) ∧ ¬FoundZero (goOn op rest)
  | .lock m =>
      if m = .rwMutex ∧ op = .readLock then
        FoundZero p ∧ Carries (goOn op rest) ∧ ¬FoundZero (goOn op rest)
      else ¬Carries p ∧ ¬Carries (goOn op rest) ∧ ¬FoundZero (goOn op rest)
  | .unlock m =>
      if m = .rwMutex ∧ op = .readUnlock then
        FoundZero p ∧ Carries p ∧ ¬Carries (goOn op rest) ∧ ¬FoundZero (goOn op rest)
      else ¬Carries p ∧ ¬Carries (goOn op rest) ∧ ¬FoundZero (goOn op rest)

instance (op : RwOp) (rest : List RwInstr) (p : RwPc) : DecidablePred (Passes op rest p) :=
  fun i => by
  cases i <;> unfold Passes <;> infer_instance

theorem passes_points (arg : RwlockArg) : ∀ p ∈ points arg, ∀ x ∈ instrAt p,
    Passes x.1 x.2.2 p x.2.1 := by
  cases arg <;> decide

theorem passes_of_mem {arg : RwlockArg} {op : RwOp} {i : RwInstr} {rest : List RwInstr} {p : RwPc}
    (hp : p ∈ points arg) (hpc : p = .run op (i :: rest)) : Passes op rest p i :=
  passes_points arg p hp (op, i, rest) (by rw [hpc]; rfl)

theorem rwMutex_points (arg : RwlockArg) : ∀ p ∈ points arg, ∀ x ∈ instrAt p,
    (x.2.1 = .lock .rwMutex → x.1 = .readLock ∨ x.1 = .writeLock) ∧
      (x.2.1 = .unlock .rwMutex → x.1 = .readUnlock ∨ x.1 = .writeUnlock) := by
  cases arg <;> decide

theorem holdsCount_points
    (arg : RwlockArg) : ∀ p ∈ points arg, Carries p ∨ FoundZero p → HoldsCount p := by
  cases arg <;> decide

/-! ## The invariant -/

/-- The readers have `rw_mutex`. -/
def ReadersIn (s : RwState) : Prop := 0 < s.count ∨ ∃ t, Carries (s.pc t)

/-- Who has the mutexes, and what `count` counts. -/
structure RwInv (arg : RwlockArg) (s : RwState) : Prop where
  mem : ∀ t, s.pc t ∈ points arg
  countMutex : Guards (s.locked .countMutex = true) HoldsCount s.pc
  writeMutex : Guards (s.locked .writeMutex = true) (HoldsWrite arg) s.pc
  finite : (inside Counted s.pc).Finite
  count : s.count = (inside Counted s.pc).ncard
  writer : Guards (s.locked .rwMutex = true ∧ ¬ReadersIn s) WriterIn s.pc
  readers : ReadersIn s → s.locked .rwMutex = true
  zero : ∀ t, FoundZero (s.pc t) → s.count = 0

section Step

variable {arg : RwlockArg} {s s' : RwState} {t : ℕ} {op : RwOp} {i : RwInstr} {rest : List RwInstr}
  {p q : RwPc}

theorem RwInv.count_nonneg (h : RwInv arg s) : 0 ≤ s.count := by
  rw [h.count]
  exact Int.natCast_nonneg _

theorem RwInv.count_pos (h : RwInv arg s) (ht : Counted (s.pc t)) : 0 < s.count := by
  rw [h.count]
  have hpos := (Set.ncard_pos h.finite).2 ⟨t, ht⟩
  exact_mod_cast hpos

/-- What a step writes to the lock. -/
structure Writes (s s' : RwState) (t : ℕ) (i : RwInstr) (q : RwPc) : Prop where
  pc : s'.pc = Function.update s.pc t q
  free : ∀ m, i = .lock m → s.locked m = false
  locked : ∀ m, s'.locked m = if i = .lock m then true else if i = .unlock m then
    false else s.locked m
  count : s'.count = if i = .inc then s.count + 1 else if i = .dec then s.count - 1 else s.count

/-- A step of a function writes what its instruction says. -/
theorem instrStep_writes (hrun : instrStep s t op rest i = some s') :
    ∃ q ∈ succs op i rest, Writes s s' t i q ∧
      (∀ j, i = .ifZero j → q = if s.count = 0 then .run op (j :: rest) else goOn op rest) ∧
      ((∀ j, i ≠ .ifZero j) → q = goOn op rest) := by
  cases i with
  | lock m =>
      simp only [instrStep] at hrun
      split_ifs at hrun with hfree
      cases hrun
      refine ⟨goOn op rest, by simp [succs], ⟨rfl, ?_, ?_, by simp⟩, by simp, by simp⟩
      · rintro m' ⟨⟩
        simpa using hfree
      · intro m'
        by_cases hm : m' = m
        · subst hm; simp
        · simp [hm, Ne.symm hm]
  | unlock m =>
      cases hrun
      refine ⟨goOn op rest, by simp [succs], ⟨rfl, by simp, ?_, by simp⟩, by simp, by simp⟩
      intro m'
      by_cases hm : m' = m
      · subst hm; simp
      · simp [hm, Ne.symm hm]
  | ifZero j =>
      cases hrun
      refine ⟨if s.count = 0 then
        .run op (j :: rest) else goOn op rest, ?_, ⟨rfl, by simp, by simp, by simp⟩, ?_, by simp⟩
      · split_ifs <;> simp [succs]
      · rintro j' ⟨⟩
        rfl
  | inc =>
      cases hrun
      exact ⟨goOn op rest, by simp [succs], ⟨rfl, by simp, by simp, by simp⟩, by simp, by simp⟩
  | dec =>
      cases hrun
      exact ⟨goOn op rest, by simp [succs], ⟨rfl, by simp, by simp, by simp⟩, by simp, by simp⟩

/-- The lock of a mutex that is only taken and given back by the task in its region. -/
theorem Writes.guards {P : RwPc → Prop} {m : RwMutex} (hw : Writes s s' t i q)
    (h : Guards (s.locked m = true) P s.pc)
    (hcross : Crosses P (i = .lock m) (i = .unlock m) (s.pc t) q) :
    Guards (s'.locked m = true) P s'.pc := by
  rw [hw.pc]
  refine h.cross hcross (fun hi => ?_) (fun hi hu => ?_) fun hi hu => ?_
  · rw [hw.locked, if_pos hi, hw.free m hi]
    simp
  · rw [hw.locked, if_neg hi, if_pos hu]
    simp
  · rw [hw.locked, if_neg hi, if_neg hu]

/-- What a step does to the readers' hold on `rw_mutex`: it stays, it is taken by the first reader,
or it is given up by the last. -/
theorem readersIn_step (h : RwInv arg s) (hpc : s.pc t = .run op (i :: rest))
    (hrun : instrStep s t op rest i = some s') :
    (¬(i = .lock .rwMutex ∧ op = .readLock) ∧ ¬(i = .unlock .rwMutex ∧ op = .readUnlock) ∧
        (ReadersIn s' ↔ ReadersIn s)) ∨
      (i = .lock .rwMutex ∧ op = .readLock ∧ ReadersIn s') ∨
      (i = .unlock .rwMutex ∧ op = .readUnlock ∧ ReadersIn s ∧ ¬ReadersIn s') := by
  obtain ⟨q, -, hw, hzero, hnext⟩ := instrStep_writes hrun
  have hp := h.mem t
  have hpass := passes_of_mem hp hpc
  have hself : s'.pc t = q := by rw [hw.pc, Function.update_self]
  have hcarry : Carries q → ReadersIn s' := fun hq => Or.inr ⟨t, by rw [hself]; exact hq⟩
  have hkeep : s'.count = s.count → (Carries q ↔ Carries (s.pc t)) →
      (ReadersIn s' ↔ ReadersIn s) := by
    intro hcount hq
    rw [ReadersIn, ReadersIn, hcount, hw.pc]
    exact or_congr_right (exists_congr (update_iff hq))
  have hcount := hw.count
  cases i with
  | inc =>
      obtain ⟨hcarries, -, -⟩ := hpass
      refine Or.inl ⟨by simp, by simp, iff_of_true (Or.inl ?_) (Or.inr ⟨t, hcarries⟩)⟩
      have hnonneg := h.count_nonneg
      rw [if_pos rfl] at hcount
      omega
  | dec =>
      obtain ⟨-, hcarries, -⟩ := hpass
      have hcounted : Counted (s.pc t) := by
        have hmove := (moves_of_mem hp hpc (q := goOn op rest) (by simp [succs])).counted
        exact hmove.1
      rw [hnext (by simp)] at hcarry
      exact Or.inl ⟨by simp, by simp, iff_of_true (hcarry hcarries) (Or.inl (h.count_pos hcounted))⟩
  | ifZero j =>
      refine Or.inl ⟨by simp, by simp, ?_⟩
      have hq := hzero j rfl
      have hsame : s'.count = s.count := by simpa using hcount
      obtain ⟨⟨-, hnot, hnot', hyes⟩ | ⟨-, hyes, hyes'⟩, -⟩ := hpass
      · by_cases hc : s.count = 0
        · rw [if_pos hc] at hq
          exact hkeep hsame (by rw [hq]; exact iff_of_false hnot' hnot)
        · rw [if_neg hc] at hq
          have hpos : 0 < s.count := lt_of_le_of_ne h.count_nonneg (Ne.symm hc)
          exact iff_of_true (Or.inl (by rw [hsame]; exact hpos)) (Or.inl hpos)
      · by_cases hc : s.count = 0
        · rw [if_pos hc] at hq
          exact hkeep hsame (by rw [hq]; exact iff_of_true hyes' hyes)
        · have hpos : 0 < s.count := lt_of_le_of_ne h.count_nonneg (Ne.symm hc)
          exact iff_of_true (Or.inl (by rw [hsame]; exact hpos)) (Or.inl hpos)
  | lock m =>
      rw [hnext (by simp)] at hcarry hkeep
      by_cases hm : m = .rwMutex ∧ op = .readLock
      · simp only [Passes, if_pos hm] at hpass
        exact Or.inr (Or.inl ⟨by rw [hm.1], hm.2, hcarry hpass.2.1⟩)
      · simp only [Passes, if_neg hm] at hpass
        refine Or.inl ⟨?_, by simp, hkeep (by simpa using hcount) (iff_of_false hpass.2.1 hpass.1)⟩
        rintro ⟨hi, hop⟩
        exact hm ⟨by injection hi, hop⟩
  | unlock m =>
      rw [hnext (by simp)] at hkeep hself
      by_cases hm : m = .rwMutex ∧ op = .readUnlock
      · simp only [Passes, if_pos hm] at hpass
        obtain ⟨hfound, hcarries, hnot, -⟩ := hpass
        refine Or.inr (Or.inr ⟨by rw [hm.1], hm.2, Or.inr ⟨t, hcarries⟩, ?_⟩)
        rintro (hpos | ⟨u, hu⟩)
        · have hsame : s'.count = s.count := by simpa using hcount
          rw [hsame, h.zero t hfound] at hpos
          exact absurd hpos (lt_irrefl _)
        · -- whoever carries the lock has `count_mutex`, which is the task's
          have hut : u ≠ t := by
            rintro rfl
            rw [hself] at hu
            exact hnot hu
          rw [hw.pc, Function.update_of_ne hut] at hu
          exact hut (h.countMutex.unique u t (holdsCount_points arg _ (h.mem u) (Or.inl hu))
            (holdsCount_points arg _ hp (Or.inl hcarries)))
      · simp only [Passes, if_neg hm] at hpass
        refine Or.inl ⟨by simp, ?_, hkeep (by simpa using hcount) (iff_of_false hpass.2.1 hpass.1)⟩
        rintro ⟨hi, hop⟩
        exact hm ⟨by injection hi, hop⟩

/-- The task that has found `count` to be zero has `count_mutex`, so nobody changes `count`. -/
theorem foundZero_step (h : RwInv arg s) (hpc : s.pc t = .run op (i :: rest))
    (hrun : instrStep s t op rest i = some s') {u : ℕ} (hu : FoundZero (s'.pc u)) :
    s'.count = 0 := by
  obtain ⟨q, -, hw, hzero, hnext⟩ := instrStep_writes hrun
  have hp := h.mem t
  have hpass := passes_of_mem hp hpc
  have hcount := hw.count
  rw [hw.pc] at hu
  by_cases hut : u = t
  · rw [hut, Function.update_self] at hu
    cases i with
    | ifZero j =>
        rw [hzero j rfl] at hu
        by_cases hc : s.count = 0
        · simpa [hc] using hcount
        · rw [if_neg hc] at hu
          exact absurd hu hpass.2
    | lock m =>
        rw [hnext (by simp)] at hu
        simp only [Passes] at hpass
        split_ifs at hpass
        · exact absurd hu hpass.2.2
        · exact absurd hu hpass.2.2
    | unlock m =>
        rw [hnext (by simp)] at hu
        simp only [Passes] at hpass
        split_ifs at hpass
        · exact absurd hu hpass.2.2.2
        · exact absurd hu hpass.2.2
    | inc =>
        rw [hnext (by simp)] at hu
        exact absurd hu hpass.2.2
    | dec =>
        rw [hnext (by simp)] at hu
        exact absurd hu hpass.2.2
  · rw [Function.update_of_ne hut] at hu
    have hholds := holdsCount_points arg _ (h.mem u) (Or.inr hu)
    have hother : ¬HoldsCount (s.pc t) := fun ht => hut (h.countMutex.unique u t hholds ht)
    cases i with
    | inc => exact absurd hpass.2.1 hother
    | dec => exact absurd hpass.1 hother
    | lock m => simpa using hcount.trans (by simpa using h.zero u hu)
    | unlock m => simpa using hcount.trans (by simpa using h.zero u hu)
    | ifZero j => simpa using hcount.trans (by simpa using h.zero u hu)

/-- **A step of a function keeps the invariant.** -/
theorem instrStep_inv (h : RwInv arg s) (hpc : s.pc t = .run op (i :: rest))
    (hrun : instrStep s t op rest i = some s') : RwInv arg s' := by
  obtain ⟨q, hq, hw, -, -⟩ := instrStep_writes hrun
  have hmove := moves_of_mem (h.mem t) hpc hq
  obtain ⟨hlockOp, hunlockOp⟩ := rwMutex_points arg _ (h.mem t) (op, i, rest) (by rw [hpc]; rfl)
  obtain ⟨hfinite, hcard⟩ := ncard_cross h.finite hmove.counted
  have hreaders := readersIn_step h hpc hrun
  refine ⟨fun u => ?_, hw.guards h.countMutex hmove.holdsCount,
    hw.guards h.writeMutex hmove.holdsWrite,
    by rw [hw.pc]; exact hfinite, ?_, ?_, fun hin => ?_, fun u => foundZero_step h hpc hrun⟩
  · rw [hw.pc]
    by_cases hut : u = t
    · rw [hut, Function.update_self]
      exact hmove.mem
    · rw [Function.update_of_ne hut]
      exact h.mem u
  · rw [hw.count, hw.pc, hcard, h.count]
  · rw [hw.pc]
    refine h.writer.cross hmove.writerIn (fun henter => ?_)
      (fun _ hleave => ?_) fun henter hleave => ?_
    · -- a writer takes the mutex when it is free, so no reader has it
      have hfree : s.locked .rwMutex = false := hw.free _ henter.1
      have hnone : ¬ReadersIn s := fun hin => by
        rw [h.readers hin] at hfree
        cases hfree
      refine ⟨fun hl => by rw [hfree] at hl; exact Bool.false_ne_true hl.1, ?_, ?_⟩
      · rw [hw.locked, if_pos henter.1]
      · rcases hreaders with ⟨-, -, hsame⟩ | ⟨-, hop, -⟩ | ⟨-, hop, -⟩
        · rwa [hsame]
        · rw [henter.2] at hop
          cases hop
        · rw [henter.2] at hop
          cases hop
    · rw [hw.locked, if_neg (by rw [hleave.1]; simp), if_pos hleave.1]
      simp
    · rcases hreaders with ⟨hlock, hunlock, hsame⟩ | ⟨hi, -, hin⟩ | ⟨hi, -, hin, -⟩
      · have hmutex : s'.locked .rwMutex = s.locked .rwMutex := by
          rw [hw.locked, if_neg, if_neg]
          · exact fun hi => (hunlockOp hi).elim (fun hop => hunlock ⟨hi, hop⟩) fun hop =>
              hleave ⟨hi, hop⟩
          · exact fun hi => (hlockOp hi).elim (fun hop => hlock ⟨hi, hop⟩) fun hop =>
              henter ⟨hi, hop⟩
        rw [hmutex, hsame]
      · have hfree : s.locked .rwMutex = false := hw.free _ hi
        rw [hfree]
        simp [hin]
      · rw [hw.locked, hi]
        simp [hin]
  · rcases hreaders with ⟨hlock, hunlock, hsame⟩ | ⟨hi, -, -⟩ | ⟨-, -, -, hnot⟩
    · have hold := h.readers (hsame.1 hin)
      rw [hw.locked]
      split_ifs with hi hi'
      · rfl
      · -- a writer that gives the mutex back has it
        exfalso
        have hop := (hunlockOp hi').resolve_left fun hop => hunlock ⟨hi', hop⟩
        have hwriter : WriterIn (s.pc t) := by
          have hcross := hmove.writerIn
          rw [Crosses, if_neg fun henter => hi henter.1, if_pos ⟨hi', hop⟩] at hcross
          exact hcross.1
        exact (h.writer.held.2 ⟨t, hwriter⟩).2 (hsame.1 hin)
      · exact hold
    · rw [hw.locked, if_pos hi]
    · exact absurd hin hnot

/-- No region is entered or left when a function is called. -/
structure Starts (arg : RwlockArg) (p q : RwPc) : Prop where
  mem : q ∈ points arg
  holdsCount : HoldsCount q ↔ HoldsCount p
  holdsWrite : HoldsWrite arg q ↔ HoldsWrite arg p
  counted : Counted q ↔ Counted p
  writerIn : WriterIn q ↔ WriterIn p
  carries : Carries q ↔ Carries p
  foundZero : ¬FoundZero q

theorem starts_readLock (arg : RwlockArg) :
    Starts arg .idle (.run .readLock (code arg .readLock)) := by
  cases arg <;> exact ⟨by decide, by decide, by decide, by decide, by decide, by decide, by decide⟩

theorem starts_writeLock
    (arg : RwlockArg) : Starts arg .idle (.run .writeLock (code arg .writeLock)) := by
  cases arg <;> exact ⟨by decide, by decide, by decide, by decide, by decide, by decide, by decide⟩

theorem starts_readUnlock (arg : RwlockArg) :
    Starts arg .reading (.run .readUnlock (code arg .readUnlock)) := by
  cases arg <;> exact ⟨by decide, by decide, by decide, by decide, by decide, by decide, by decide⟩

theorem starts_writeUnlock (arg : RwlockArg) :
    Starts arg .writing (.run .writeUnlock (code arg .writeUnlock)) := by
  cases arg <;> exact ⟨by decide, by decide, by decide, by decide, by decide, by decide, by decide⟩

/-- **A call keeps the invariant.** -/
theorem RwInv.start (h : RwInv arg s) (hstart : Starts arg (s.pc t) q) :
    RwInv arg { s with pc := Function.update s.pc t q } := by
  have hreaders : ReadersIn { s with pc := Function.update s.pc t q } ↔ ReadersIn s :=
    or_congr_right (exists_congr (update_iff hstart.carries))
  refine ⟨fun u => ?_, h.countMutex.keep hstart.holdsCount, h.writeMutex.keep hstart.holdsWrite,
    ?_, ?_, ?_, fun hin => h.readers (hreaders.1 hin), fun u hu => ?_⟩
  · by_cases hut : u = t
    · simp only [hut, Function.update_self]
      exact hstart.mem
    · simp only [Function.update_of_ne hut]
      exact h.mem u
  · rw [inside_keep hstart.counted]
    exact h.finite
  · rw [inside_keep hstart.counted]
    exact h.count
  · rw [hreaders]
    exact h.writer.keep hstart.writerIn
  · by_cases hut : u = t
    · simp only [hut, Function.update_self] at hu
      exact absurd hu hstart.foundZero
    · simp only [Function.update_of_ne hut] at hu
      exact h.zero u hu

/-- **One step keeps the invariant.** -/
theorem rwStep_inv (s : RwState) (c : ℕ × Bool) (s' : RwState) (h : RwInv arg s)
    (hstep : rwStep arg s c = some s') : RwInv arg s' := by
  obtain ⟨t, reads⟩ := c
  simp only [rwStep, taskStep] at hstep
  split at hstep
  · rename_i hpc
    cases hstep
    refine h.start ?_
    rw [hpc]
    cases reads with
    | true => exact starts_readLock arg
    | false => exact starts_writeLock arg
  · rename_i hpc
    cases hstep
    exact h.start (by rw [hpc]; exact starts_readUnlock arg)
  · rename_i hpc
    cases hstep
    exact h.start (by rw [hpc]; exact starts_writeUnlock arg)
  · rename_i hpc
    exact instrStep_inv h hpc hstep
  · cases hstep

theorem rwlockInit_inv (arg : RwlockArg) : RwInv arg rwlockInit := by
  have hnone : ∀ P : RwPc → Prop, ¬P .idle → inside P rwlockInit.pc = ∅ := fun P hP =>
    Set.eq_empty_of_forall_notMem fun _ => hP
  have hguards : ∀ (P : RwPc → Prop) (locked : Prop), ¬locked → ¬P .idle →
      Guards locked P rwlockInit.pc := fun P locked hl hP =>
    ⟨⟨fun h => absurd h hl, fun ⟨_, h⟩ => absurd h hP⟩, fun _ _ h => absurd h hP⟩
  have hreaders : ¬ReadersIn rwlockInit := by
    rintro (hpos | ⟨t, ht⟩)
    · exact lt_irrefl _ hpos
    · exact ht
  have hcounted := hnone Counted id
  refine ⟨fun t => ?_, hguards _ _ (by decide) id, hguards _ _ (by decide) id, ?_, ?_,
    hguards _ _ (by simp [rwlockInit]) id, fun hin => absurd hin hreaders, fun t ht => absurd ht id⟩
  · show RwPc.idle ∈ points arg
    cases arg <;> decide
  · rw [hcounted]
    exact Set.finite_empty
  · rw [hcounted, Set.ncard_empty]
    rfl

/-! ## Progress -/

/-- The mutex a task is about to take. -/
def waitsFor : RwPc → Option RwMutex
  | .run _ (.lock m :: _) => some m
  | _ => none

/-- The task is not outside, and it can make a step. -/
def CanStep (arg : RwlockArg) (s : RwState) (t : ℕ) : Prop :=
  s.pc t ≠ .idle ∧ ∃ reads s', taskStep arg s t reads = some s'

theorem run_points (arg : RwlockArg) (op : RwOp) : ∀ p ∈ points arg, p ≠ .run op [] := by
  cases arg <;> cases op <;> decide

/-- A task waits for nothing but a mutex. -/
theorem canStep_of_free (h : RwInv arg s) (hidle : s.pc t ≠ .idle)
    (hfree : ∀ m, waitsFor (s.pc t) = some m → s.locked m = false) : CanStep arg s t := by
  refine ⟨hidle, true, ?_⟩
  unfold taskStep
  cases hpc : s.pc t with
  | idle => exact absurd hpc hidle
  | reading => exact ⟨_, rfl⟩
  | writing => exact ⟨_, rfl⟩
  | run op rest =>
      cases rest with
      | nil => exact absurd hpc (run_points arg op _ (h.mem t))
      | cons i rest =>
          cases i with
          | lock m =>
              have hm : s.locked m = false := hfree m (by rw [hpc]; rfl)
              exact ⟨_, by simp only [instrStep, hm]; rfl⟩
          | unlock m => exact ⟨_, rfl⟩
          | ifZero j => exact ⟨_, rfl⟩
          | inc => exact ⟨_, rfl⟩
          | dec => exact ⟨_, rfl⟩

/-- What the task that has a mutex may be waiting for. -/
theorem waitsFor_points (arg : RwlockArg) : ∀ p ∈ points arg,
    (WriterIn p ∨ Carries p → waitsFor p = none) ∧
      (Counted p → waitsFor p = none ∨ waitsFor p = some .countMutex) ∧
      (HoldsCount p → waitsFor p = none ∨ waitsFor p = some .rwMutex ∧ FoundZero p) ∧
      (HoldsWrite arg p → waitsFor p ≠ some .writeMutex) ∧
      (WriterIn p ∨ Carries p ∨ Counted p ∨ HoldsCount p ∨ HoldsWrite arg p → p ≠ .idle) := by
  cases arg <;> decide

/-- **Somebody can go on.** -/
theorem progress (h : RwInv arg s) (hbusy : ∃ t, s.pc t ≠ .idle) : ∃ t, CanStep arg s t := by
  have hnothing : ∀ t, s.pc t ≠ .idle → waitsFor (s.pc t) = none → CanStep arg s t :=
    fun t hidle hw =>
    canStep_of_free h hidle fun m hm => by rw [hw] at hm; cases hm
  have hpoint := fun t => waitsFor_points arg _ (h.mem t)
  by_cases hrw : s.locked .rwMutex = true
  · by_cases hreaders : ReadersIn s
    · rcases hreaders with hpos | ⟨t, ht⟩
      · -- a reader is in; only `count_mutex` can keep it, and whoever has that goes on
        obtain ⟨t, ht⟩ : (inside Counted s.pc).Nonempty := by
          rw [← Set.ncard_pos h.finite]
          have hcount := h.count
          omega
        obtain ⟨-, hcounted, -, -, hidle⟩ := hpoint t
        rcases hcounted ht with hw | hw
        · exact ⟨t, hnothing t (hidle (.inr (.inr (.inl ht)))) hw⟩
        · by_cases hlocked : s.locked .countMutex = true
          · obtain ⟨u, hu⟩ := h.countMutex.held.1 hlocked
            obtain ⟨-, -, hholds, -, hidle⟩ := hpoint u
            rcases hholds hu with hw | ⟨-, hzero⟩
            · exact ⟨u, hnothing u (hidle (.inr (.inr (.inr (.inl hu))))) hw⟩
            · rw [h.zero u hzero] at hpos
              exact absurd hpos (lt_irrefl _)
          · refine ⟨t, canStep_of_free h (hidle (.inr (.inr (.inl ht)))) fun m hm => ?_⟩
            rw [hw, Option.some.injEq] at hm
            rw [← hm]
            simpa using hlocked
      · obtain ⟨hcarries, -, -, -, hidle⟩ := hpoint t
        exact ⟨t, hnothing t (hidle (.inr (.inl ht))) (hcarries (Or.inr ht))⟩
    · obtain ⟨t, ht⟩ := h.writer.held.1 ⟨hrw, hreaders⟩
      obtain ⟨hwriter, -, -, -, hidle⟩ := hpoint t
      exact ⟨t, hnothing t (hidle (.inl ht)) (hwriter (Or.inl ht))⟩
  · have hfree : s.locked .rwMutex = false := by simpa using hrw
    by_cases hcount : s.locked .countMutex = true
    · obtain ⟨t, ht⟩ := h.countMutex.held.1 hcount
      obtain ⟨-, -, hholds, -, hidle⟩ := hpoint t
      refine ⟨t, canStep_of_free h (hidle (.inr (.inr (.inr (.inl ht))))) fun m hm => ?_⟩
      rcases hholds ht with hw | ⟨hw, -⟩
      · rw [hw] at hm
        cases hm
      · rw [hw, Option.some.injEq] at hm
        rw [← hm]
        exact hfree
    · have hfree' : s.locked .countMutex = false := by simpa using hcount
      -- only `write_mutex` can be taken
      have hgo : ∀ t, s.pc t ≠ .idle → waitsFor (s.pc t) ≠ some .writeMutex → CanStep arg s t := by
        intro t hidle hw
        refine canStep_of_free h hidle fun m hm => ?_
        cases m with
        | countMutex => exact hfree'
        | rwMutex => exact hfree
        | writeMutex => exact absurd hm hw
      by_cases hwrite : s.locked .writeMutex = true
      · obtain ⟨t, ht⟩ := h.writeMutex.held.1 hwrite
        obtain ⟨-, -, -, hholds, hidle⟩ := hpoint t
        exact ⟨t, hgo t (hidle (.inr (.inr (.inr (.inr ht))))) (hholds ht)⟩
      · obtain ⟨t, hidle⟩ := hbusy
        refine ⟨t, canStep_of_free h hidle fun m _ => ?_⟩
        cases m with
        | countMutex => exact hfree'
        | rwMutex => exact hfree
        | writeMutex => simpa using hwrite

end Step

/-! ## Runs -/

/-- What a reader-writer lock promises. -/
structure RwOk (arg : RwlockArg) (s : RwState) : Prop where
  exclusive : ∀ t u, WriterIn (s.pc t) → ¬Counted (s.pc u)
  writers : ∀ t u, WriterIn (s.pc t) → WriterIn (s.pc u) → t = u
  finite : {t | Counted (s.pc t)}.Finite
  count : s.count = {t | Counted (s.pc t)}.ncard
  progress : (∃ t, s.pc t ≠ .idle) → ∃ t, CanStep arg s t

theorem RwInv.ok {arg : RwlockArg} {s : RwState} (h : RwInv arg s) : RwOk arg s :=
  ⟨fun t _ ht hu => (h.writer.held.2 ⟨t, ht⟩).2 (Or.inl (h.count_pos hu)), h.writer.unique,
    h.finite, h.count, RwLock.progress h⟩

/-- **Reader-writer locks exclude and do not deadlock**, for each policy, in every state any number
of tasks can reach. -/
theorem rwlock_ok (arg : RwlockArg) (steps : List (ℕ × Bool)) (s : RwState)
    (hrun : Run.exec (rwStep arg) rwlockInit steps = some s) : RwOk arg s := by
  have hinv : RwInv arg s :=
    Run.exec_invariant (P := fun _ _ => True)
      (fun s c s' h _ => rwStep_inv s c s' h) steps rwlockInit s
      (rwlockInit_inv arg) (Run.along_of_forall (fun _ _ => trivial) _ _) hrun
  exact hinv.ok

/-- Two readers are in, a writer waits for them with `write_mutex`, and a third reader waits for the
writer. -/
theorem rwlock_ok_wrFirst :
    ∃ s, Run.exec (rwStep .wrFirst) rwlockInit
        (List.replicate 8 (1, true) ++ List.replicate 7 (2, true) ++ List.replicate 2 (3, false) ++
          [(4, true)]) = some s ∧
      s.count = 2 ∧ taskStep .wrFirst s 3 false = none ∧ taskStep .wrFirst s 4 true = none ∧
      RwOk .wrFirst s := by
  have hsome : ((Run.exec (rwStep .wrFirst) rwlockInit
      (List.replicate 8 (1, true) ++ List.replicate 7 (2, true) ++ List.replicate 2 (3, false) ++
        [(4, true)])).map fun s =>
      decide (s.count = 2) && (taskStep .wrFirst s 3 false).isNone &&
        (taskStep .wrFirst s 4 true).isNone) = some true := by decide
  obtain ⟨s, hs, hfacts⟩ := Option.map_eq_some_iff.1 hsome
  simp only [Bool.and_eq_true, decide_eq_true_eq, Option.isNone_iff_eq_none] at hfacts
  exact ⟨s, hs, hfacts.1.1, hfacts.1.2, hfacts.2, rwlock_ok .wrFirst _ s hs⟩

end RwLock
end LightOS
