import LightOS.Fs.FdBasic

/-!
# Counts and slots

The invariant: the count of every object is the number of slots that hold it, and what is
outstanding.  An object is counted once more before a slot takes it, so between the two it is
outstanding.

* `incref_adds`, `Inv.put` — counting once more, and taking.
* `closeObj_adds` — counting once less.
* `closeSlot_spec` — a slot gives its object up.
-/

namespace LightOS
namespace Fd

open KeyedQueue Holders

/-- The count an object keeps; nothing for an object that is gone. -/
def State.count (s : State) : Obj → ℤ
  | (.fsif, h) => (s.files h).getD 0
  | (.pipeRd, id) => ((first Pipe.id id s.pipes).map Pipe.readCount).getD 0
  | (.pipeWr, id) => ((first Pipe.id id s.pipes).map Pipe.writeCount).getD 0

/-- A descriptor is empty, or it holds an object of its type. -/
def WellFormed (d : FileFd) : Prop :=
  d = FileFd.empty ∨ ∃ f, d.fsal = some f ∧ filefdFsal (d.flags &&& fileFdTypeMask) = some f ∧
    0 ≤ d.handle ∧ d.handle < fsalFileOpenNr

/-- The objects are in order: files in use are in the table and counted, pipes are counted at one
end at least and have different numbers. -/
structure ObjectsOk (s : State) : Prop where
  file_open : ∀ h n, s.files h = some n → 0 < n ∧ 0 ≤ h ∧ h < fsalFileOpenNr
  pipe_open : ∀ q ∈ s.pipes, 0 ≤ q.readCount ∧ 0 ≤ q.writeCount ∧ 0 < q.readCount + q.writeCount
  nodup : (s.pipes.map Pipe.id).Nodup

/-- The invariant; `g` is what is outstanding. -/
structure Inv (s : State) (g : Obj → ℕ) : Prop extends ObjectsOk s where
  count_eq : ∀ o, s.count o = s.slots o + g o
  slot : ∀ x, WellFormed (s.fds x)
  absent : ∀ x, x.1 ∉ s.procs → s.fds x = FileFd.empty

/-! ## Descriptors -/

@[simp] theorem obj_empty : obj FileFd.empty = none := rfl

section Descriptor

variable {d : FileFd}

theorem obj_of_flags_eq_zero (h : d.flags = 0) : obj d = none := by
  unfold obj
  rw [h, Nat.zero_and]
  rfl

/-- A descriptor that is not empty holds what its operations and handle say. -/
theorem WellFormed.obj_eq (h : WellFormed d) (hflags : d.flags ≠ 0) :
    ∃ f, d.fsal = some f ∧ filefdFsal (d.flags &&& fileFdTypeMask) = some f ∧
      obj d = some (f, d.handle) ∧ d.isBad = false ∧ 0 ≤ d.handle ∧ d.handle < fsalFileOpenNr := by
  rcases h with rfl | ⟨f, hfsal, htype, hpos, hlt⟩
  · exact absurd rfl hflags
  · refine ⟨f, hfsal, htype, ?_, ?_, hpos, hlt⟩
    · unfold obj
      rw [htype]
      rfl
    · unfold FileFd.isBad
      simp [hfsal, hflags, not_lt.2 hpos]

theorem WellFormed.eq_empty (h : WellFormed d) (hflags : d.flags = 0) : d = FileFd.empty := by
  rcases h with rfl | ⟨f, -, htype, -⟩
  · rfl
  · rw [hflags, Nat.zero_and] at htype
    cases htype

theorem WellFormed.of_obj (h : WellFormed d) {o : Obj} (ho : obj d = some o) :
    d.flags ≠ 0 ∧ d.fsal = some o.1 ∧ d.handle = o.2 ∧
      filefdFsal (d.flags &&& fileFdTypeMask) = some o.1 ∧
      d.isBad = false ∧ 0 ≤ o.2 ∧ o.2 < fsalFileOpenNr := by
  have hflags : d.flags ≠ 0 := by
    intro hzero
    rw [obj_of_flags_eq_zero hzero] at ho
    cases ho
  obtain ⟨f, hfsal, htype, hobj, hbad, hpos, hlt⟩ := h.obj_eq hflags
  rw [hobj, Option.some.injEq] at ho
  subst ho
  exact ⟨hflags, hfsal, rfl, htype, hbad, hpos, hlt⟩

end Descriptor

@[simp] theorem setFd_fds (s : State) (x : Slot) (d : FileFd) :
    (s.setFd x d).fds = Function.update s.fds x d := rfl

@[simp] theorem setFd_procs (s : State) (x : Slot) (d : FileFd) : (s.setFd x d).procs = s.procs :=
  rfl

theorem count_setFd (s : State) (x : Slot) (d : FileFd) : (s.setFd x d).count = s.count := by
  funext o
  obtain ⟨f, i⟩ := o
  cases f <;> rfl

theorem held_setFd (s : State) (x : Slot) (d : FileFd) :
    (s.setFd x d).held = Function.update s.held x (obj d) := by
  funext y
  unfold State.held State.setFd
  by_cases hy : y = x
  · rw [hy, Function.update_self]
    simp only [Function.update_self]
  · rw [Function.update_of_ne hy]
    simp only [Function.update_of_ne hy]

section Inv

variable {s : State} {g : Obj → ℕ} {o : Obj} {x : Slot}

/-- Only finitely many slots are open. -/
theorem Inv.finite (h : Inv s g) (o : Obj) : (holders s.held o).Finite := by
  apply Set.Finite.subset (s.procs ×ˢ (Finset.univ : Finset (Fin localFileOpenNr))).finite_toSet
  intro y hy
  rw [Finset.mem_coe, Finset.mem_product]
  refine ⟨?_, Finset.mem_univ _⟩
  by_contra habsent
  have hheld : obj (s.fds y) = some o := hy
  rw [h.absent y habsent] at hheld
  cases hheld

/-- What a slot holds is counted. -/
theorem Inv.count_pos (h : Inv s g) (hx : s.held x = some o) : 0 < s.count o := by
  have hpos : 0 < s.slots o := (Set.ncard_pos (h.finite o)).2 ⟨x, hx⟩
  rw [h.count_eq]
  omega

/-- Slots stay as they are. -/
theorem slots_congr {s' : State} (hfds : s'.fds = s.fds) : s'.slots = s.slots := by
  funext o
  unfold State.slots State.held
  rw [hfds]

/-- The number of the next pipe does not matter. -/
theorem Inv.setNextId (h : Inv s g) (id : ℤ) : Inv { s with pipeNextId := id } g where
  count_eq o := by
    have heq := h.count_eq o
    obtain ⟨f, i⟩ := o
    cases f <;> exact heq
  file_open := h.file_open
  pipe_open := h.pipe_open
  nodup := h.nodup
  slot := h.slot
  absent := h.absent

end Inv

/-! ## Ends of a pipe -/

/-- The count of an end: of the writing end for its operations, of the reading end otherwise. -/
def Pipe.ends (q : Pipe) : Fsal → ℤ
  | .pipeWr => q.writeCount
  | _ => q.readCount

/-- An end is counted `k` times more. -/
def Pipe.add (q : Pipe) (e : Fsal) (k : ℤ) : Pipe :=
  match e with
  | .pipeWr => { q with writeCount := q.writeCount + k }
  | _ => { q with readCount := q.readCount + k }

/-- What is asked of a pipe on the list. -/
def Pipe.Open (q : Pipe) : Prop :=
  0 ≤ q.readCount ∧ 0 ≤ q.writeCount ∧ 0 < q.readCount + q.writeCount

section Ends

variable {q : Pipe} {e e' : Fsal} {k : ℤ}

@[simp] theorem Pipe.add_id : (q.add e k).id = q.id := by
  cases e <;> rfl

theorem Pipe.ends_add (he : e ≠ .fsif) (he' : e' ≠ .fsif) :
    (q.add e k).ends e' = q.ends e' + if e' = e then k else 0 := by
  cases e <;> cases e' <;> simp_all [Pipe.add, Pipe.ends]

theorem Pipe.Open.add_one (h : q.Open) (e : Fsal) : (q.add e 1).Open := by
  unfold Pipe.Open at h ⊢
  cases e <;> simp only [Pipe.add] <;> omega

/-- An end that was counted may be counted once less. -/
theorem Pipe.Open.sub_one (h : q.Open) (hpos : 0 < q.ends e) :
    0 ≤ (q.add e (-1)).readCount ∧ 0 ≤ (q.add e (-1)).writeCount := by
  unfold Pipe.Open at h
  cases e <;> simp only [Pipe.add, Pipe.ends] at hpos ⊢ <;> omega

theorem closedPipe_id {q' : Pipe} (hq : closedPipe q = some q') : q'.id = q.id := by
  unfold closedPipe at hq
  split_ifs at hq
  cases hq
  rfl

/-- A pipe that is given up counted nothing. -/
theorem closedPipe_spec (h : 0 ≤ q.readCount ∧ 0 ≤ q.writeCount) :
    (∀ e, ((closedPipe q).map fun q' => q'.ends e).getD 0 = q.ends e) ∧
      ∀ q', closedPipe q = some q' → q'.Open := by
  unfold closedPipe
  split_ifs with hclosed
  · refine ⟨fun e => ?_, by simp⟩
    have hzero : q.ends e = 0 := by
      cases e <;> simp only [Pipe.ends] <;> omega
    rw [hzero]
    rfl
  · refine ⟨fun e => rfl, ?_⟩
    rintro q' ⟨⟩
    exact ⟨h.1, h.2, by omega⟩

variable (s : State) (he : e ≠ .fsif) (i : ℤ)

include he

theorem count_pipe : s.count (e, i) = ((first Pipe.id i s.pipes).map fun q => q.ends e).getD 0 := by
  cases e with
  | fsif => exact absurd rfl he
  | pipeRd => rfl
  | pipeWr => rfl

theorem incref_pipe : incref s (e, i) = (first Pipe.id i s.pipes).map fun _ =>
    { s with pipes := change Pipe.id i (fun q => some (q.add e 1)) s.pipes } := by
  cases e with
  | fsif => exact absurd rfl he
  | pipeRd => rfl
  | pipeWr => rfl

theorem closeObj_pipe (closes : ℤ → Bool) : closeObj closes s (e, i) =
    if (first Pipe.id i s.pipes).isNone then (s, false)
    else ({ s with pipes := change Pipe.id i (fun q => closedPipe (q.add e (-1))) s.pipes },
      true) := by
  cases e with
  | fsif => exact absurd rfl he
  | pipeRd => rfl
  | pipeWr => rfl

end Ends

/-! ## Objects -/

/-- The count of one object changes by `k`, and nothing else. -/
structure Adds (s s' : State) (o : Obj) (k : ℤ) : Prop extends ObjectsOk s' where
  count_add : ∀ o', s'.count o' = s.count o' + if o' = o then k else 0
  fds_eq : s'.fds = s.fds
  procs_eq : s'.procs = s.procs

section Objects

variable {s : State} (h : ObjectsOk s) {i : ℤ}

include h

/-- The count of a file is changed. -/
theorem file_adds {k : ℤ} (hrange : 0 ≤ i ∧ i < fsalFileOpenNr) {m : Option ℤ}
    (hm : m.getD 0 = (s.files i).getD 0 + k) (hopen : ∀ n', m = some n' → 0 < n') :
    Adds s { s with files := Function.update s.files i m } (.fsif, i) k where
  file_open j n' hn' := by
    simp only [Function.update_apply] at hn'
    split_ifs at hn' with hj
    · rw [hj]
      exact ⟨hopen n' hn', hrange⟩
    · exact h.file_open j n' hn'
  pipe_open := h.pipe_open
  nodup := h.nodup
  count_add := by
    rintro ⟨f, j⟩
    cases f with
    | fsif =>
        change (Function.update s.files i m j).getD 0 = (s.files j).getD 0 + _
        by_cases hj : j = i
        · rw [hj, Function.update_self, if_pos rfl, hm]
        · rw [Function.update_of_ne hj, if_neg (by simp [hj]), add_zero]
    | pipeRd => rw [if_neg (by simp), add_zero]; rfl
    | pipeWr => rw [if_neg (by simp), add_zero]; rfl
  fds_eq := rfl
  procs_eq := rfl

/-- The count of an end of a pipe is changed. -/
theorem pipe_adds {e : Fsal} (he : e ≠ .fsif) {q : Pipe} (hq : first Pipe.id i s.pipes = some q)
    {f : Pipe → Option Pipe} (hf : ∀ a b, f a = some b → b.id = a.id) {k : ℤ}
    (hends : ∀ e', e' ≠ .fsif →
      ((f q).map fun q' => q'.ends e').getD 0 = q.ends e' + if e' = e then k else 0)
    (hopen : ∀ q', f q = some q' → q'.Open) :
    Adds s { s with pipes := change Pipe.id i f s.pipes } (e, i) k := by
  refine ⟨⟨h.file_open, ?_, nodup_change hf h.nodup⟩, ?_, rfl, rfl⟩
  · intro q' hq'
    rcases mem_change hq' with hold | ⟨a, ha, hfa⟩
    · exact h.pipe_open q' hold
    · rw [hq, Option.some.injEq] at ha
      rw [← ha] at hfa
      exact hopen q' hfa
  · rintro ⟨e', j⟩
    by_cases he' : e' = .fsif
    · subst he'
      have hne : ((.fsif, j) : Obj) ≠ (e, i) := fun heq => he (congrArg Prod.fst heq).symm
      rw [if_neg hne, add_zero]
      rfl
    · rw [count_pipe _ he', count_pipe _ he']
      by_cases hj : j = i
      · subst hj
        rw [first_change_self hf h.nodup, hq, Option.bind_some, hends e' he']
        simp
      · have hne : ((e', j) : Obj) ≠ (e, i) := fun heq => hj (congrArg Prod.snd heq)
        rw [first_change_of_ne hf hj, if_neg hne, add_zero]

/-- A pipe that is counted at an end is on the list. -/
theorem first_of_count_pos {e : Fsal} (he : e ≠ .fsif) (hpos : 0 < s.count (e, i)) :
    ∃ q, first Pipe.id i s.pipes = some q ∧ q.Open ∧ 0 < q.ends e := by
  rw [count_pipe _ he] at hpos
  cases hq : first Pipe.id i s.pipes with
  | none =>
      rw [hq] at hpos
      exact absurd hpos (lt_irrefl 0)
  | some q =>
      rw [hq] at hpos
      exact ⟨q, rfl, h.pipe_open q (first_eq_some hq).1, hpos⟩

/-- A file that is counted is in use. -/
theorem file_of_count_pos (hpos : 0 < s.count (.fsif, i)) :
    ∃ n, s.files i = some n ∧ 0 < n ∧ 0 ≤ i ∧ i < fsalFileOpenNr := by
  change 0 < (s.files i).getD 0 at hpos
  cases hfile : s.files i with
  | none =>
      rw [hfile] at hpos
      exact absurd hpos (by decide)
  | some n => exact ⟨n, rfl, h.file_open i n hfile⟩

/-- **Counting an object once more.** -/
theorem incref_adds {o : Obj} (hpos : 0 < s.count o) :
    ∃ s', incref s o = some s' ∧ Adds s s' o 1 := by
  obtain ⟨e, i⟩ := o
  by_cases he : e = .fsif
  · subst he
    obtain ⟨n, hfile, hn, hrange⟩ := file_of_count_pos h hpos
    refine ⟨_, congrArg (Option.map _) hfile, file_adds h hrange (by rw [hfile]; rfl) ?_⟩
    rintro n' ⟨⟩
    omega
  · obtain ⟨q, hq, hqopen, -⟩ := first_of_count_pos h he hpos
    rw [incref_pipe s he, hq]
    refine ⟨_, rfl, pipe_adds h he hq ?_ (fun e' he' => Pipe.ends_add he he') ?_⟩
    · rintro a b ⟨⟩
      exact Pipe.add_id
    · rintro q' ⟨⟩
      exact hqopen.add_one e

/-- **Counting an object once less**, and giving it up when that was the last. -/
theorem closeObj_adds {o : Obj} (closes : ℤ → Bool) (hpos : 0 < s.count o)
    (hlast : ∀ j, o = (.fsif, j) → s.count o = 1 → closes j = true) :
    ∃ s', closeObj closes s o = (s', true) ∧ Adds s s' o (-1) := by
  obtain ⟨e, i⟩ := o
  by_cases he : e = .fsif
  · subst he
    obtain ⟨n, hfile, hn, hrange⟩ := file_of_count_pos h hpos
    unfold closeObj
    simp only [hfile, if_pos hn]
    by_cases hmore : 0 < n - 1
    · rw [if_pos hmore]
      refine ⟨_, rfl, file_adds h hrange (by rw [hfile]; rfl) ?_⟩
      rintro n' ⟨⟩
      exact hmore
    · have hone : n = 1 := by omega
      have hcount : s.count (.fsif, i) = 1 := by
        change (s.files i).getD 0 = 1
        rw [hfile, hone]
        rfl
      rw [if_neg hmore, if_pos (hlast i rfl hcount)]
      refine ⟨_, rfl, file_adds h hrange ?_ (by simp)⟩
      rw [hfile, hone]
      rfl
  · obtain ⟨q, hq, hqopen, hqpos⟩ := first_of_count_pos h he hpos
    obtain ⟨hends, hopen⟩ := closedPipe_spec (hqopen.sub_one hqpos)
    rw [closeObj_pipe s he, hq, Option.isNone_some, if_neg Bool.false_ne_true]
    refine ⟨_, rfl, pipe_adds h he hq ?_ ?_ hopen⟩
    · intro a b hab
      exact (closedPipe_id hab).trans Pipe.add_id
    · intro e' he'
      rw [hends, Pipe.ends_add he he']

end Objects

/-! ## Slots -/

section Slots

variable {s : State} {g : Obj → ℕ} {o : Obj} {x : Slot}

/-- What the objects are counted more is outstanding. -/
theorem Inv.objects (h : Inv s g) {s' : State} {k : Obj → ℕ} (hok : ObjectsOk s')
    (hcount : ∀ o, s'.count o = s.count o + k o) (hfds : s'.fds = s.fds)
    (hprocs : s'.procs = s.procs) :
    Inv s' (g + k) where
  toObjectsOk := hok
  count_eq o := by
    rw [hcount, h.count_eq, slots_congr hfds, Pi.add_apply]
    push_cast
    omega
  slot := by
    rw [hfds]
    exact h.slot
  absent := by
    rw [hfds, hprocs]
    exact h.absent

/-- An object is counted once more. -/
theorem Inv.adds (h : Inv s g) {s' : State} (hadds : Adds s s' o 1) :
    Inv s' (g + Pi.single o 1) := by
  apply h.objects hadds.toObjectsOk _ hadds.fds_eq hadds.procs_eq
  intro o'
  rw [hadds.count_add, Pi.single_apply]
  split_ifs <;> rfl

theorem Inv.incref (h : Inv s g) (hpos : 0 < s.count o) :
    ∃ s', incref s o = some s' ∧ Inv s' (g + Pi.single o 1) ∧ s'.fds = s.fds ∧
      s'.procs = s.procs := by
  obtain ⟨s', hs', hadds⟩ := incref_adds h.toObjectsOk hpos
  exact ⟨s', hs', h.adds hadds, hadds.fds_eq, hadds.procs_eq⟩

/-- **A slot takes what is outstanding.** -/
theorem Inv.put (h : Inv s (g + Pi.single o 1)) (hempty : s.held x = none) (hproc : x.1 ∈ s.procs)
    {d : FileFd} (hd : WellFormed d) (hobj : obj d = some o) : Inv (s.setFd x d) g where
  file_open := h.file_open
  pipe_open := h.pipe_open
  nodup := h.nodup
  count_eq := by
    intro o'
    have hheld : (s.setFd x d).held = take s.held x o := by
      rw [held_setFd, hobj]
      rfl
    have heq := h.count_eq o'
    rw [Pi.add_apply, Pi.single_apply] at heq
    unfold State.slots at heq ⊢
    rw [count_setFd, hheld, heq]
    by_cases ho : o' = o
    · subst ho
      rw [ncard_take (h.finite o') hempty, if_pos rfl]
      push_cast
      omega
    · rw [holders_take_of_ne hempty ho, if_neg ho]
      push_cast
      omega
  slot := by
    intro y
    rw [setFd_fds, Function.update_apply]
    split_ifs
    · exact hd
    · exact h.slot y
  absent := by
    intro y hy
    rw [setFd_fds, Function.update_of_ne]
    · exact h.absent y hy
    · rintro rfl
      exact hy hproc

/-- The file systems close the files that have their last slots among `xs`. -/
def ClosesLast (closes : ℤ → Bool) (s : State) (xs : Set Slot) : Prop :=
  ∀ j, (holders s.held (.fsif, j)).Nonempty → holders s.held (.fsif, j) ⊆ xs → closes j = true

/-- A slot that holds nothing is empty. -/
theorem Inv.eq_empty (h : Inv s g) (hheld : s.held x = none) : s.fds x = FileFd.empty := by
  apply (h.slot x).eq_empty
  by_contra hflags
  obtain ⟨f, -, -, hobj, -⟩ := (h.slot x).obj_eq hflags
  have hnone : obj (s.fds x) = none := hheld
  rw [hobj] at hnone
  cases hnone

/-- An object that is counted once is held by one slot only. -/
theorem Inv.holders_eq (h : Inv s 0) (hheld : s.held x = some o) (hone : s.count o = 1) :
    holders s.held o = {x} := by
  have hcard : (holders s.held o).ncard = 1 := by
    have heq := h.count_eq o
    rw [hone, Pi.zero_apply] at heq
    unfold State.slots at heq
    omega
  obtain ⟨y, hy⟩ := Set.ncard_eq_one.1 hcard
  have hxy : x ∈ ({y} : Set Slot) := hy ▸ (show x ∈ holders s.held o from hheld)
  rw [hy, Set.mem_singleton_iff.1 hxy]

/-- **A slot is emptied** when its object has been counted once less. -/
theorem Inv.leave (h : Inv s 0) {s' : State} (hadds : Adds s s' o (-1))
    (hheld : s.held x = some o) :
    Inv (s'.setFd x FileFd.empty) 0 where
  file_open := hadds.file_open
  pipe_open := hadds.pipe_open
  nodup := hadds.nodup
  count_eq := by
    intro o'
    have hleave : (s'.setFd x FileFd.empty).held = Holders.leave s.held x := by
      rw [held_setFd, show s'.held = s.held by unfold State.held; rw [hadds.fds_eq]]
      rfl
    have heq := h.count_eq o'
    unfold State.slots at heq ⊢
    rw [count_setFd, hadds.count_add, hleave, heq]
    by_cases ho : o' = o
    · subst ho
      have hcard := ncard_leave (h.finite o') hheld
      rw [if_pos rfl]
      omega
    · rw [holders_leave_of_ne hheld ho, if_neg ho]
      omega
  slot := by
    intro y
    rw [setFd_fds, hadds.fds_eq, Function.update_apply]
    split_ifs
    · exact Or.inl rfl
    · exact h.slot y
  absent := by
    intro y hy
    rw [setFd_procs, hadds.procs_eq] at hy
    rw [setFd_fds, hadds.fds_eq, Function.update_apply]
    split_ifs
    · rfl
    · exact h.absent y hy

/-- **A slot gives its object up.** -/
theorem closeSlot_spec (h : Inv s 0) (closes : ℤ → Bool) (hheld : s.held x = some o)
    (hlast : ClosesLast closes s {x}) :
    ∃ s', closeSlot closes s x = (s', true) ∧ Inv s' 0 ∧
      s'.fds = Function.update s.fds x FileFd.empty ∧ s'.procs = s.procs := by
  obtain ⟨-, hfsal, hhandle, -, hbad, -⟩ := (h.slot x).of_obj hheld
  have hcloses : ∀ j, o = (.fsif, j) → s.count o = 1 → closes j = true := by
    rintro j rfl hone
    apply hlast j ⟨x, hheld⟩
    rw [h.holders_eq hheld hone]
  obtain ⟨s', hclose, hadds⟩ := closeObj_adds h.toObjectsOk closes (h.count_pos hheld) hcloses
  refine ⟨s'.setFd x FileFd.empty, ?_, h.leave hadds hheld, ?_, hadds.procs_eq⟩
  · unfold closeSlot
    rw [hbad, if_neg (by decide), hfsal]
    simp only [hhandle]
    rw [hclose]
    rfl
  · rw [setFd_fds, hadds.fds_eq]

/-- A slot that is empty has nothing to close. -/
theorem closeSlot_empty (h : Inv s 0) (hheld : s.held x = none) (closes : ℤ → Bool) :
    closeSlot closes s x = (s, false) := by
  unfold closeSlot
  rw [h.eq_empty hheld]
  rfl

end Slots

end Fd
end LightOS
