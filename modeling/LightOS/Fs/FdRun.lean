import LightOS.Fs.FdCount
import LightOS.Lib.Run

/-!
# Counts along a run

Every call is a sequence of objects that are counted once more, slots that take what is
outstanding, and slots that give their object up.  Three calls count before they look for a free
slot, and do not take it back when there is none.

* `fdStep_spec` — which calls keep counts and slots the same.
* `fdRun_spec`, `open_held` — the runs of such calls.
-/

namespace LightOS
namespace Fd

open KeyedQueue Holders

/-- A free descriptor of a process, from `base` on. -/
def HasFree (s : State) (p base : ℕ) : Prop :=
  ∃ i : Fin localFileOpenNr, base ≤ i.val ∧ (s.fds (p, i)).flags = 0

section Calls

variable {s : State} {g : Obj → ℕ} {p : ℕ}

/-! ## Installing -/

theorem fsalFdAlloc_eq_some {base : ℕ} {i : Fin localFileOpenNr}
    (h : fsalFdAlloc s p base = some i) :
    base ≤ i.val ∧ (s.fds (p, i)).flags = 0 := by
  have hfound := List.find?_some h
  rwa [Bool.and_eq_true, decide_eq_true_eq, decide_eq_true_eq] at hfound

theorem fsalFdAlloc_isSome {base : ℕ} :
    (fsalFdAlloc s p base).isSome = true ↔ HasFree s p base := by
  unfold fsalFdAlloc HasFree
  rw [List.find?_isSome]
  simp

theorem held_of_flags_eq_zero {x : Slot} (h : (s.fds x).flags = 0) : s.held x = none :=
  obj_of_flags_eq_zero h

theorem filefdFsal_cases {type : ℕ} {f : Fsal} (h : filefdFsal type = some f) :
    type = fileFdNormal ∨ type = fileFdPipe0 ∨ type = fileFdPipe1 := by
  unfold filefdFsal at h
  split_ifs at h with h1 h2 h3
  · exact Or.inl h1
  · exact Or.inr (Or.inl h2)
  · exact Or.inr (Or.inr h3)

theorem filefdFsal_pipe0 : filefdFsal fileFdPipe0 = some .pipeRd := rfl

theorem filefdFsal_pipe1 : filefdFsal fileFdPipe1 = some .pipeWr := rfl

/-- What is installed holds the object of its type. -/
theorem installed_spec {type : ℕ} {f : Fsal} (htype : filefdFsal type = some f) {resid : ℤ}
    (hpos : 0 ≤ resid) (hlt : resid < fsalFileOpenNr) :
    WellFormed (installedFd resid type) ∧ obj (installedFd resid type) = some (f, resid) := by
  have hmask : (fileFdIsUsed ||| type) &&& fileFdTypeMask = type := by
    rcases filefdFsal_cases htype with rfl | rfl | rfl <;> decide
  constructor
  · right
    refine ⟨f, htype, ?_, hpos, hlt⟩
    simp only [installedFd, hmask, htype]
  · unfold obj installedFd
    simp only [hmask, htype, Option.map_some]

/-- **Installing** puts what is outstanding into a free slot. -/
theorem localFdInstall_inv {type base : ℕ} {f : Fsal} {resid : ℤ}
    (h : Inv s (g + Pi.single (f, resid) 1)) (hp : p ∈ s.procs) (htype : filefdFsal type = some f)
    (hpos : 0 ≤ resid) (hlt : resid < fsalFileOpenNr) (hfree : HasFree s p base) :
    Inv (localFdInstall s p resid type base).1 g := by
  obtain ⟨i, hi⟩ := Option.isSome_iff_exists.1 (fsalFdAlloc_isSome.2 hfree)
  obtain ⟨hwell, hobj⟩ := installed_spec htype hpos hlt
  unfold localFdInstall
  rw [if_neg (by omega), hi]
  exact h.put (held_of_flags_eq_zero (fsalFdAlloc_eq_some hi).2) hp hwell hobj

/-! ## Slots of a process -/

theorem fdLocalToFile_eq_some {fd : ℤ} {x : Slot} (h : fdLocalToFile p fd = some x) :
    x.1 = p ∧ (x.2.val : ℤ) = fd := by
  unfold fdLocalToFile at h
  split_ifs at h with hrange
  cases h
  exact ⟨rfl, Int.toNat_of_nonneg hrange.1⟩

theorem openSlot_eq_some {fd : ℤ} {x : Slot} (h : openSlot s p fd = some x) :
    fdLocalToFile p fd = some x ∧ x.1 = p ∧ (s.fds x).isBad = false := by
  obtain ⟨hx, hbad⟩ := Option.filter_eq_some_iff.1 h
  exact ⟨hx, (fdLocalToFile_eq_some hx).1, by simpa using hbad⟩

theorem Inv.held_of_not_bad (h : Inv s g) {x : Slot} (hbad : (s.fds x).isBad = false) :
    ∃ o, s.held x = some o := by
  have hflags : (s.fds x).flags ≠ 0 := by
    intro hzero
    unfold FileFd.isBad at hbad
    rw [hzero] at hbad
    simp at hbad
  obtain ⟨f, -, -, hobj, -⟩ := (h.slot x).obj_eq hflags
  exact ⟨_, hobj⟩

/-- **Duplicating** a slot: its object is counted once more, and a free slot takes it. -/
theorem dupSlot_inv (h : Inv s 0) {x : Slot} {o : Obj} (hheld : s.held x = some o)
    (hp : x.1 ∈ s.procs) {base : ℕ} (hfree : HasFree s x.1 base) : Inv (dupSlot s x base).1 0 := by
  obtain ⟨-, hfsal, hhandle, htype, -, hpos, hlt⟩ := (h.slot x).of_obj hheld
  obtain ⟨s', hincref, hinv, hfds, hprocs⟩ := h.incref (h.count_pos hheld)
  have hfree' : HasFree s' x.1 base := by
    unfold HasFree
    rw [hfds]
    exact hfree
  unfold dupSlot
  rw [hfsal, hhandle, Option.bind_some, hincref]
  exact localFdInstall_inv hinv (by rw [hprocs]; exact hp) htype hpos hlt hfree'

/-- **Closing some slots** of a process, one after the other. -/
theorem closeSlots_spec (closes : ℤ → Bool) (is : List (Fin localFileOpenNr)) :
    ∀ {s : State}, Inv s 0 → ClosesLast closes s {x | x.1 = p ∧ x.2 ∈ is} →
      Inv (closeSlots closes p is s) 0 ∧ (closeSlots closes p is s).procs = s.procs ∧
        ∀ x, (closeSlots closes p is s).fds x =
          if x.1 = p ∧ x.2 ∈ is then FileFd.empty else s.fds x := by
  induction is with
  | nil =>
      intro s h _
      exact ⟨h, rfl, fun x => by rw [if_neg (by simp)]; rfl⟩
  | cons i is ih =>
      intro s h hlast
      have hmem : ∀ x : Slot, (x.1 = p ∧ x.2 ∈ i :: is) ↔ (x = (p, i) ∨ (x.1 = p ∧ x.2 ∈ is)) := by
        rintro ⟨q, j⟩
        rw [List.mem_cons, Prod.mk.injEq]
        tauto
      cases hheld : s.held (p, i) with
      | none =>
          have hstep := closeSlot_empty h hheld closes
          have hempty := h.eq_empty hheld
          obtain ⟨hinv, hprocs, hfds⟩ := ih h (by
            intro j hne hsub
            apply hlast j hne
            intro x hx
            exact ⟨(hsub hx).1, List.mem_cons_of_mem _ (hsub hx).2⟩)
          have hrun : closeSlots closes p (i :: is) s = closeSlots closes p is s := by
            unfold closeSlots
            rw [List.foldl_cons, hstep]
          rw [hrun]
          refine ⟨hinv, hprocs, fun x => ?_⟩
          rw [hfds]
          by_cases hx : x = (p, i)
          · rw [hx, hempty, ite_self, ite_self]
          · simp only [hmem x, hx, false_or]
      | some o =>
          obtain ⟨s', hstep, hinv', hfds', hprocs'⟩ := closeSlot_spec h closes hheld (by
            intro j hne hsub
            apply hlast j hne
            intro x hx
            rw [Set.mem_singleton_iff.1 (hsub hx)]
            exact ⟨rfl, List.mem_cons_self ..⟩)
          have hheld' : s'.held = leave s.held (p, i) := by
            funext x
            unfold State.held leave
            rw [hfds']
            by_cases hx : x = (p, i)
            · rw [hx, Function.update_self, Function.update_self]
              rfl
            · rw [Function.update_of_ne hx, Function.update_of_ne hx]
          obtain ⟨hinv, hprocs, hfds⟩ := ih hinv' (by
            intro j hne hsub
            rw [hheld', holders_leave] at hne hsub
            apply hlast j (hne.mono Set.sdiff_subset)
            intro x hx
            by_cases hxi : x = (p, i)
            · rw [hxi]
              exact ⟨rfl, List.mem_cons_self ..⟩
            · obtain ⟨h1, h2⟩ := hsub ⟨hx, hxi⟩
              exact ⟨h1, List.mem_cons_of_mem _ h2⟩)
          have hrun : closeSlots closes p (i :: is) s = closeSlots closes p is s' := by
            unfold closeSlots
            rw [List.foldl_cons, hstep]
          rw [hrun]
          refine ⟨hinv, hprocs.trans hprocs', fun x => ?_⟩
          rw [hfds, hfds']
          by_cases hx : x = (p, i)
          · rw [hx, Function.update_self, ite_self, if_pos ⟨rfl, List.mem_cons_self ..⟩]
          · simp only [Function.update_of_ne hx, hmem x, hx, false_or]

/-- A file table without open slots is freed. -/
theorem Inv.dropTable (h : Inv s g) (hempty : ∀ x : Slot, x.1 = p → s.fds x = FileFd.empty) :
    Inv (s.dropTable p) g := by
  have hfds : (s.dropTable p).fds = s.fds := by
    funext x
    unfold State.dropTable
    simp only
    split_ifs with hx
    · exact (hempty x hx).symm
    · rfl
  have hcount : (s.dropTable p).count = s.count := by
    funext o
    obtain ⟨f, i⟩ := o
    cases f <;> rfl
  constructor
  · exact ⟨h.file_open, h.pipe_open, h.nodup⟩
  · intro o
    rw [hcount, slots_congr hfds]
    exact h.count_eq o
  · rw [hfds]
    exact h.slot
  · intro x hx
    rw [hfds]
    by_cases hp : x.1 = p
    · exact hempty x hp
    · apply h.absent
      intro hmem
      exact hx (Finset.mem_erase.2 ⟨hp, hmem⟩)

/-! ## Fork -/

theorem incref_setFd (s : State) (x : Slot) (d : FileFd) (o : Obj) :
    incref (s.setFd x d) o = (incref s o).map fun s' => s'.setFd x d := by
  obtain ⟨e, i⟩ := o
  by_cases he : e = .fsif
  · subst he
    change (s.files i).map _ = ((s.files i).map _).map _
    rw [Option.map_map]
    rfl
  · rw [incref_pipe _ he, incref_pipe _ he, Option.map_map]
    rfl

/-- One slot of the parent is copied. -/
theorem copySlot_spec (h : Inv s 0) {child : ℕ} (hne : p ≠ child) (hchild : child ∈ s.procs)
    {i : Fin localFileOpenNr} (hempty : s.held (child, i) = none) :
    Inv (copySlot p child s i) 0 ∧ (copySlot p child s i).procs = s.procs ∧
      ∀ x, x ≠ (child, i) → (copySlot p child s i).fds x = s.fds x := by
  unfold copySlot
  split_ifs with hflags
  · obtain ⟨f, hfsal, htype, hobj, hbad, -⟩ := (h.slot (p, i)).obj_eq hflags
    have hheld : s.held (p, i) = some (f, (s.fds (p, i)).handle) := hobj
    obtain ⟨s', hincref, hinv, hfds, hprocs⟩ := h.incref (h.count_pos hheld)
    have hsame : (s.setFd (child, i) (s.fds (p, i))).fds (p, i) = s.fds (p, i) := by
      rw [setFd_fds, Function.update_of_ne]
      rw [ne_eq, Prod.mk.injEq, not_and]
      intro heq
      exact absurd heq hne
    have hcopy : fsifIncref (s.setFd (child, i) (s.fds (p, i))) (p, i) =
        s'.setFd (child, i) (s.fds (p, i)) := by
      unfold fsifIncref
      rw [hsame, hbad, if_neg (by decide), hfsal, Option.bind_some, incref_setFd, hincref]
      rfl
    rw [hcopy]
    refine ⟨?_, by rw [setFd_procs, hprocs], fun x hx => ?_⟩
    · apply Inv.put hinv _ (by rw [hprocs]; exact hchild) (h.slot (p, i)) hobj
      unfold State.held
      rw [hfds]
      exact hempty
    · rw [setFd_fds, Function.update_of_ne hx, hfds]
  · exact ⟨h, rfl, fun _ _ => rfl⟩

theorem foldl_copySlot (is : List (Fin localFileOpenNr)) {child : ℕ} (hne : p ≠ child) :
    ∀ {s : State}, Inv s 0 → child ∈ s.procs → is.Nodup → (∀ i ∈ is, s.held (child, i) = none) →
      Inv (is.foldl (copySlot p child) s) 0 := by
  induction is with
  | nil => intro s h _ _ _; exact h
  | cons i is ih =>
      intro s h hchild hnodup hempty
      rw [List.nodup_cons] at hnodup
      obtain ⟨hinv, hprocs, hfds⟩ := copySlot_spec h hne hchild (hempty i (List.mem_cons_self ..))
      apply ih hinv (by rw [hprocs]; exact hchild) hnodup.2
      intro j hj
      have hji : (child, j) ≠ (child, i) := by
        rw [ne_eq, Prod.mk.injEq, not_and]
        rintro - rfl
        exact hnodup.1 hj
      unfold State.held
      rw [hfds _ hji]
      exact hempty j (List.mem_cons_of_mem _ hj)

/-- A child without slots. -/
theorem Inv.addProc (h : Inv s g) (child : ℕ) : Inv { s with procs := insert child s.procs } g where
  file_open := h.file_open
  pipe_open := h.pipe_open
  nodup := h.nodup
  count_eq o := by
    have heq := h.count_eq o
    obtain ⟨f, i⟩ := o
    cases f <;> exact heq
  slot := h.slot
  absent x hx := h.absent x fun hmem => hx (Finset.mem_insert_of_mem hmem)

/-- **A complete fork**: every slot is copied, its object counted once more. -/
theorem fsFdCopy_inv (h : Inv s 0) (hp : p ∈ s.procs) {child : ℕ} (hchild : child ∉ s.procs) :
    Inv (fsFdCopy s p child) 0 := by
  have hne : p ≠ child := by
    rintro rfl
    exact hchild hp
  apply foldl_copySlot _ hne (h.addProc child) (Finset.mem_insert_self _ _) (List.nodup_finRange _)
  intro i _
  have hempty := h.absent (child, i) hchild
  exact congrArg obj hempty

/-- A fork of a process without open slots that fails. -/
theorem sysFork_failed (h : Inv s 0) (closes : ℤ → Bool) {child : ℕ} (hchild : child ∉ s.procs)
    (hnone : ∀ i, (s.fds (p, i)).flags = 0) : Inv (sysFork closes s p child false) 0 := by
  have hcopy : fsFdCopy s p child = { s with procs := insert child s.procs } := by
    unfold fsFdCopy
    apply List.foldl_fixed'
    intro i
    exact if_neg (not_not.2 (hnone i))
  have hinv := h.addProc child
  obtain ⟨hclosed, -, hfds⟩ := closeSlots_spec (p := p) closes (List.finRange localFileOpenNr)
    hinv (by
      rintro j ⟨x, hx⟩ hsub
      obtain ⟨hxp, -⟩ := hsub hx
      have hnot := held_of_flags_eq_zero (s := s) (x := x) (by rw [← hnone x.2, ← hxp])
      have hheld : s.held x = some (.fsif, j) := hx
      rw [hnot] at hheld
      cases hheld)
  unfold sysFork
  rw [if_neg (by decide), hcopy]
  apply hclosed.dropTable
  rintro ⟨q, i⟩ rfl
  rw [hfds, ite_eq_left_iff]
  intro _
  exact h.absent _ hchild

/-! ## Pipes -/

/-- Two free descriptors. -/
def TwoFree (s : State) (p : ℕ) : Prop :=
  ∃ i j : Fin localFileOpenNr, i ≠ j ∧ (s.fds (p, i)).flags = 0 ∧ (s.fds (p, j)).flags = 0

/-- The number of the next pipe can be installed, twice. -/
def PipeReady (s : State) (p : ℕ) : Prop :=
  0 ≤ s.pipeNextId ∧ s.pipeNextId < fsalFileOpenNr ∧ TwoFree s p

/-- A pipe has been created. -/
def created (s : State) : State :=
  { s with pipes := s.pipes ++ [⟨s.pipeNextId, 1, 1⟩], pipeNextId := nextId s.pipeNextId }

/-- What installing does. -/
theorem localFdInstall_cases (s : State) (p : ℕ) (resid : ℤ) (type base : ℕ) :
    (localFdInstall s p resid type base = (s, -1) ∧
        ¬ (0 ≤ resid ∧ resid < fsalFileOpenNr ∧ HasFree s p base)) ∨
      ∃ i : Fin localFileOpenNr, 0 ≤ resid ∧ resid < fsalFileOpenNr ∧ (s.fds (p, i)).flags = 0 ∧
        localFdInstall s p resid type base =
          (s.setFd (p, i) (installedFd resid type), (i.val : ℤ)) := by
  unfold localFdInstall
  split_ifs with hrange
  · exact Or.inl ⟨rfl, by omega⟩
  · cases halloc : fsalFdAlloc s p base with
    | none =>
        left
        refine ⟨rfl, ?_⟩
        rintro ⟨-, -, hfree⟩
        rw [← fsalFdAlloc_isSome, halloc] at hfree
        cases hfree
    | some i =>
        right
        exact ⟨i, by omega, by omega, (fsalFdAlloc_eq_some halloc).2, rfl⟩

theorem fdLocalToFile_val (p : ℕ) (i : Fin localFileOpenNr) :
    fdLocalToFile p (i.val : ℤ) = some (p, i) := by
  unfold fdLocalToFile
  rw [dif_pos ⟨by omega, by exact_mod_cast i.isLt⟩]
  rfl

/-- A slot that was installed is uninstalled. -/
theorem localFdUninstall_setFd (s : State) (p : ℕ) (i : Fin localFileOpenNr) {d : FileFd}
    (hflags : d.flags ≠ 0) :
    localFdUninstall (s.setFd (p, i) d) p i.val = s.setFd (p, i) FileFd.empty := by
  unfold localFdUninstall
  rw [fdLocalToFile_val]
  simp only [setFd_fds, Function.update_self]
  rw [if_neg hflags]
  unfold State.setFd
  simp only [Function.update_idem]

/-- **What `sys_pipe` does**, when there is memory: two descriptors of a new pipe, or nothing but a
number that is used up. -/
theorem sysPipe_cases (hslot : ∀ x, WellFormed (s.fds x)) :
    (∃ i j, PipeReady s p ∧ i ≠ j ∧ (s.fds (p, i)).flags = 0 ∧ (s.fds (p, j)).flags = 0 ∧
        sysPipe s p true =
          (((created s).setFd (p, i) (installedFd s.pipeNextId fileFdPipe0)).setFd (p, j)
            (installedFd s.pipeNextId fileFdPipe1), 0)) ∨
      ¬ PipeReady s p ∧ sysPipe s p true = ({ s with pipeNextId := nextId s.pipeNextId },
        -eagain) := by
  have hread : (installedFd s.pipeNextId fileFdPipe0).flags ≠ 0 := by
    change fileFdIsUsed ||| fileFdPipe0 ≠ 0
    decide
  have hstart : sysPipe s p true =
      (let r := localFdInstall (created s) p s.pipeNextId fileFdPipe0 0
      if r.2 < 0 then ({ r.1 with pipes := s.pipes }, -eagain)
      else
        let w := localFdInstall r.1 p s.pipeNextId fileFdPipe1 0
        if w.2 < 0 then ({ localFdUninstall w.1 p r.2 with pipes := s.pipes }, -eagain)
        else (w.1, 0)) := rfl
  rw [hstart]
  rcases localFdInstall_cases (created s) p s.pipeNextId fileFdPipe0 0 with
    ⟨hfail, hnot⟩ | ⟨i, hpos, hlt, hi, hdone⟩
  · right
    constructor
    · rintro ⟨hpos, hlt, i, j, -, hi, -⟩
      exact hnot ⟨hpos, hlt, i, Nat.zero_le _, hi⟩
    · rw [hfail]
      rfl
  · have hnn : ¬ ((i.val : ℤ) < 0) := by omega
    rw [hdone]
    simp only [if_neg hnn]
    rcases localFdInstall_cases ((created s).setFd (p, i) (installedFd s.pipeNextId fileFdPipe0)) p
      s.pipeNextId fileFdPipe1 0
      with ⟨hfail, hnot⟩ | ⟨j, -, -, hj, hdone'⟩
    · right
      constructor
      · rintro ⟨-, -, k, l, hkl, hk, hl⟩
        -- one of the two is left
        obtain ⟨m, hm, hmi⟩ : ∃ m, (s.fds (p, m)).flags = 0 ∧ m ≠ i := by
          by_cases hki : k = i
          · exact ⟨l, hl, fun hli => hkl (hki.trans hli.symm)⟩
          · exact ⟨k, hk, hki⟩
        apply hnot
        refine ⟨hpos, hlt, m, Nat.zero_le _, ?_⟩
        rw [setFd_fds, Function.update_of_ne (by simp [hmi])]
        exact hm
      · have hempty := (hslot (p, i)).eq_empty hi
        rw [hfail]
        simp only [if_pos (show (-1 : ℤ) < 0 by decide)]
        rw [localFdUninstall_setFd _ _ _ hread]
        have hback : Function.update s.fds (p, i) FileFd.empty = s.fds := by
          rw [← hempty, Function.update_eq_self]
        unfold State.setFd created
        simp only [hback]
    · left
      have hji : j ≠ i := by
        rintro rfl
        rw [setFd_fds, Function.update_self] at hj
        exact hread hj
      rw [setFd_fds, Function.update_of_ne (by simp [hji])] at hj
      refine ⟨i, j, ⟨hpos, hlt, i, j, hji.symm, hi, hj⟩, hji.symm, hi, hj, ?_⟩
      rw [hdone']
      simp only [if_neg (show ¬ ((j.val : ℤ) < 0) by omega)]

section Created

variable (hfresh : ∀ q ∈ s.pipes, q.id ≠ s.pipeNextId)

include hfresh

/-- The new pipe is the only one with its number. -/
theorem first_created (j : ℤ) : first Pipe.id j (created s).pipes =
    if j = s.pipeNextId then some ⟨s.pipeNextId, 1, 1⟩ else first Pipe.id j s.pipes := by
  change first Pipe.id j (s.pipes ++ [⟨s.pipeNextId, 1, 1⟩]) = _
  split_ifs with hj
  · rw [hj, first_append_of_none (first_eq_none_iff.2 hfresh), first_cons, if_pos rfl]
  · cases hq : first Pipe.id j s.pipes with
    | none =>
        rw [first_append_of_none hq, first_cons, if_neg (Ne.symm hj)]
        rfl
    | some q => exact first_append_of_some hq _

/-- Its two ends are counted. -/
theorem count_created (o : Obj) : (created s).count o =
    s.count o + if o.1 ≠ .fsif ∧ o.2 = s.pipeNextId then 1 else 0 := by
  obtain ⟨e, j⟩ := o
  by_cases he : e = .fsif
  · subst he
    rw [if_neg (fun hne => hne.1 rfl), add_zero]
    rfl
  · rw [count_pipe _ he, count_pipe _ he, first_created hfresh]
    by_cases hj : j = s.pipeNextId
    · rw [if_pos hj, if_pos ⟨he, hj⟩, hj, first_eq_none_iff.2 hfresh]
      cases e <;> rfl
    · rw [if_neg hj, if_neg fun hne => hj hne.2, add_zero]

/-- **A pipe is created**: its two ends are outstanding. -/
theorem created_inv (h : Inv s 0) :
    Inv (created s) (0 + Pi.single (.pipeWr, s.pipeNextId) 1 +
      Pi.single (.pipeRd, s.pipeNextId) 1) := by
  rw [add_assoc]
  refine h.objects ⟨h.file_open, ?_, ?_⟩ ?_ rfl rfl
  · intro q hq
    rcases List.mem_append.1 hq with hq | hq
    · exact h.pipe_open q hq
    · rw [List.mem_singleton.1 hq]
      simp
  · change ((s.pipes ++ [Pipe.mk s.pipeNextId 1 1]).map Pipe.id).Nodup
    rw [List.map_append, List.map_singleton, List.nodup_append_comm, List.singleton_append,
      List.nodup_cons]
    refine ⟨?_, h.nodup⟩
    rw [List.mem_map]
    rintro ⟨q, hq, hid⟩
    exact hfresh q hq hid
  · rintro ⟨e, j⟩
    rw [count_created hfresh, Pi.add_apply, Pi.single_apply, Pi.single_apply]
    cases e <;> simp

end Created

/-- **A new pipe**, when its number is new. -/
theorem sysPipe_inv (h : Inv s 0) (hp : p ∈ s.procs) {memory : Bool}
    (hfresh : memory = true → PipeReady s p → ∀ q ∈ s.pipes, q.id ≠ s.pipeNextId) :
    Inv (sysPipe s p memory).1 0 := by
  cases memory with
  | false => exact h
  | true =>
      rcases sysPipe_cases h.slot (p := p) with ⟨i, j, hready, hij, hi, hj, hdone⟩ | ⟨-, hfail⟩
      · rw [hdone]
        obtain ⟨hwell, hobj⟩ := installed_spec filefdFsal_pipe0 hready.1 hready.2.1
        obtain ⟨hwell', hobj'⟩ := installed_spec filefdFsal_pipe1 hready.1 hready.2.1
        have hcreated := created_inv (hfresh rfl hready) h
        have hread := Inv.put hcreated (x := (p, i)) (held_of_flags_eq_zero hi) hp hwell hobj
        apply Inv.put hread (x := (p, j)) (held_of_flags_eq_zero _) hp hwell' hobj'
        rw [setFd_fds, Function.update_of_ne (by simp [hij.symm])]
        exact hj
      · rw [hfail]
        exact h.setNextId _

end Calls

/-! ## Steps -/

/-- The calls that keep counts and slots the same.  A call that counts before it looks for a free
slot needs one, and `F_DUPFD` one in the table; a failed fork must find no open slot in the
parent; a pipe must get a number that no other pipe has; and a file that has its last slot closed
must be closed by its file system. -/
def Balanced (s : State) : FdCall → Prop
  | .open_ p opened => opened = true → (fsalFileAlloc s).isSome = true → HasFree s p 0
  | .close p fd closes => ∀ x, openSlot s p fd = some x → ClosesLast closes s {x}
  | .dup p oldfd => (openSlot s p oldfd).isSome = true → HasFree s p 0
  | .dup2 p oldfd newfd closes => (openSlot s p oldfd).isSome = true → oldfd ≠ newfd →
      match fdLocalToFile p newfd with
      | some y => ClosesLast closes s {y}
      | none => HasFree s p 0
  | .dupfd p fd base => (openSlot s p fd).isSome = true → 0 ≤ base ∧ HasFree s p base.toNat
  | .setfd _ _ _ => True
  | .pipe p memory => memory = true → PipeReady s p → ∀ q ∈ s.pipes, q.id ≠ s.pipeNextId
  | .fork p child complete _ => child ∉ s.procs → complete = true ∨ ∀ i, (s.fds (p, i)).flags = 0
  | .exec p closes => ClosesLast closes s {x | x.1 = p ∧ reinitCloses s p x.2 = true}
  | .exit p closes => ClosesLast closes s {x | x.1 = p}

section Steps

variable {s : State} {p : ℕ}

theorem sysOpen_inv (h : Inv s 0) (hp : p ∈ s.procs) {opened : Bool}
    (hfree : opened = true → (fsalFileAlloc s).isSome = true → HasFree s p 0) :
    Inv (sysOpen s p opened).1 0 := by
  unfold sysOpen
  cases halloc : fsalFileAlloc s with
  | none => exact h
  | some i =>
      simp only
      split_ifs with hopened
      · have hnone : s.files i = none := by
          simpa using List.find?_some halloc
        have hrange : 0 ≤ i ∧ i < fsalFileOpenNr := by
          obtain ⟨k, hk, rfl⟩ := List.mem_map.1 (List.mem_of_find?_eq_some halloc)
          have := List.mem_range.1 hk
          omega
        -- the new file is counted once, and no slot holds it
        have hadds := file_adds h.toObjectsOk hrange (m := some 1) (k := 1) (by rw [hnone]; rfl)
          (by rintro n ⟨⟩; decide)
        exact localFdInstall_inv (h.adds hadds) hp rfl hrange.1 hrange.2
          (hfree hopened (by rw [halloc]; rfl))
      · exact h

theorem sysClose_inv (h : Inv s 0) {fd : ℤ} {closes : ℤ → Bool}
    (hlast : ∀ x, openSlot s p fd = some x → ClosesLast closes s {x}) :
    Inv (sysClose closes s p fd).1 0 := by
  unfold sysClose
  cases hopen : openSlot s p fd with
  | none => exact h
  | some x =>
      obtain ⟨o, hheld⟩ := h.held_of_not_bad (openSlot_eq_some hopen).2.2
      obtain ⟨s', hclose, hinv, -⟩ := closeSlot_spec h closes hheld (hlast x hopen)
      simp only [hclose]
      exact hinv

theorem dup_inv (h : Inv s 0) (hp : p ∈ s.procs) {fd : ℤ} {x : Slot}
    (hopen : openSlot s p fd = some x)
    {base : ℕ} (hfree : HasFree s p base) : Inv (dupSlot s x base).1 0 := by
  obtain ⟨-, rfl, hbad⟩ := openSlot_eq_some hopen
  obtain ⟨o, hheld⟩ := h.held_of_not_bad hbad
  exact dupSlot_inv h hheld hp hfree

theorem sysDup_inv (h : Inv s 0) (hp : p ∈ s.procs) {oldfd : ℤ}
    (hfree : (openSlot s p oldfd).isSome = true → HasFree s p 0) : Inv (sysDup s p oldfd).1 0 := by
  unfold sysDup
  cases hopen : openSlot s p oldfd with
  | none => exact h
  | some x => exact dup_inv h hp hopen (hfree (by rw [hopen]; rfl))

theorem sysDupfd_inv (h : Inv s 0) (hp : p ∈ s.procs) {fd base : ℤ}
    (hfree : (openSlot s p fd).isSome = true → 0 ≤ base ∧ HasFree s p base.toNat) :
    ∃ r, sysDupfd s p fd base = some r ∧ Inv r.1 0 := by
  unfold sysDupfd
  cases hopen : openSlot s p fd with
  | none => exact ⟨_, rfl, h⟩
  | some x =>
      obtain ⟨hbase, hfree'⟩ := hfree (by rw [hopen]; rfl)
      simp only [if_neg (not_lt.2 hbase)]
      exact ⟨_, rfl, dup_inv h hp hopen hfree'⟩

theorem sysDup2_inv (h : Inv s 0) (hp : p ∈ s.procs) {oldfd newfd : ℤ} {closes : ℤ → Bool}
    (hfine : (openSlot s p oldfd).isSome = true → oldfd ≠ newfd →
      match fdLocalToFile p newfd with
      | some y => ClosesLast closes s {y}
      | none => HasFree s p 0) : Inv (sysDup2 closes s p oldfd newfd).1 0 := by
  unfold sysDup2
  cases hopen : openSlot s p oldfd with
  | none => exact h
  | some x =>
      simp only
      split_ifs with heq
      · exact h
      · have hfine' := hfine (by rw [hopen]; rfl) heq
        cases hnew : fdLocalToFile p newfd with
        | none =>
            rw [hnew] at hfine'
            exact dup_inv h hp hopen hfine'
        | some y =>
            rw [hnew] at hfine'
            obtain ⟨hy, hval⟩ := fdLocalToFile_eq_some hnew
            rw [Option.filter_some]
            by_cases hflags : (s.fds y).flags = 0
            · -- the new descriptor is itself free
              have hfree : HasFree s p 0 := ⟨y.2, Nat.zero_le _, by rw [← hy]; exact hflags⟩
              simp only [hflags, ne_eq, not_true_eq_false, and_false, decide_false,
                Bool.false_eq_true, if_false]
              exact dup_inv h hp hopen hfree
            · obtain ⟨f, -, -, hobj, -, hpos, -⟩ := (h.slot y).obj_eq hflags
              have hheld : s.held y = some (f, (s.fds y).handle) := hobj
              obtain ⟨s', hclose, hinv, hfds, hprocs⟩ := closeSlot_spec h closes hheld hfine'
              have hyx : x ≠ y := by
                rintro rfl
                have hold := (fdLocalToFile_eq_some (openSlot_eq_some hopen).1).2
                exact heq (hold.symm.trans hval)
              have hopen' : openSlot s' p oldfd = some x := by
                obtain ⟨hold, hxp, hbad⟩ := openSlot_eq_some hopen
                unfold openSlot
                rw [hold, Option.filter_some, hfds, Function.update_of_ne hyx, hbad]
                rfl
              have hfree : HasFree s' p 0 := by
                refine ⟨y.2, Nat.zero_le _, ?_⟩
                rw [← hy, hfds, Function.update_self]
                rfl
              simp only [hpos, hflags, ne_eq, not_false_eq_true, and_self, decide_true, if_true,
                hclose]
              exact dup_inv hinv (by rw [hprocs]; exact hp) hopen' hfree

theorem cloexecFd_type (d : FileFd) (cloexec : Bool) :
    (cloexecFd d cloexec).flags &&& fileFdTypeMask = d.flags &&& fileFdTypeMask := by
  cases cloexec with
  | true =>
      change (d.flags ||| fileFdCloexec) &&& fileFdTypeMask = _
      rw [Nat.and_or_distrib_right, show fileFdCloexec &&& fileFdTypeMask =
        0 by decide, Nat.or_zero]
  | false =>
      change (d.flags &&& (4294967295 - fileFdCloexec)) &&& fileFdTypeMask = _
      rw [Nat.and_assoc, show (4294967295 - fileFdCloexec) &&& fileFdTypeMask =
        fileFdTypeMask by decide]

theorem obj_cloexecFd (d : FileFd) (cloexec : Bool) : obj (cloexecFd d cloexec) = obj d := by
  unfold obj
  rw [cloexecFd_type]
  rfl

theorem wellFormed_cloexecFd {d : FileFd} (h : WellFormed d) (hbad : d.isBad = false)
    (cloexec : Bool) :
    WellFormed (cloexecFd d cloexec) := by
  rcases h with rfl | ⟨f, hfsal, htype, hrange⟩
  · cases hbad
  · right
    exact ⟨f, hfsal, (congrArg filefdFsal (cloexecFd_type d cloexec)).trans htype, hrange⟩

theorem sysSetfd_inv (h : Inv s 0) (hp : p ∈ s.procs) {fd : ℤ} (cloexec : Bool) :
    Inv (sysSetfd s p fd cloexec).1 0 := by
  unfold sysSetfd
  cases hopen : openSlot s p fd with
  | none => exact h
  | some x =>
      obtain ⟨-, rfl, hbad⟩ := openSlot_eq_some hopen
      have hheld : (s.setFd x (cloexecFd (s.fds x) cloexec)).held = s.held := by
        rw [held_setFd, obj_cloexecFd]
        exact Function.update_eq_self x s.held
      refine ⟨⟨h.file_open, h.pipe_open, h.nodup⟩, ?_, ?_, ?_⟩
      · intro o
        rw [count_setFd]
        unfold State.slots
        rw [hheld]
        exact h.count_eq o
      · intro y
        rw [setFd_fds, Function.update_apply]
        split_ifs
        · exact wellFormed_cloexecFd (h.slot x) hbad cloexec
        · exact h.slot y
      · intro y hy
        rw [setFd_fds, Function.update_of_ne]
        · exact h.absent y hy
        · rintro rfl
          exact hy hp

theorem fsFdReinit_inv (h : Inv s 0) {closes : ℤ → Bool}
    (hlast : ClosesLast closes s {x | x.1 = p ∧ reinitCloses s p x.2 = true}) :
    Inv (fsFdReinit closes s p) 0 := by
  apply (closeSlots_spec closes ((List.finRange localFileOpenNr).filter (reinitCloses s p)) h _).1
  intro j hne hsub
  apply hlast j hne
  intro x hx
  obtain ⟨hxp, hmem⟩ := hsub hx
  exact ⟨hxp, (List.mem_filter.1 hmem).2⟩

theorem fsFdExit_inv (h : Inv s 0) {closes : ℤ → Bool} (hlast : ClosesLast closes s {x | x.1 = p}) :
    Inv (fsFdExit closes s p) 0 := by
  obtain ⟨hinv, -, hfds⟩ := closeSlots_spec (p := p) closes (List.finRange localFileOpenNr) h (by
    intro j hne hsub
    exact hlast j hne fun x hx => (hsub hx).1)
  apply hinv.dropTable
  intro x hx
  rw [hfds, if_pos ⟨hx, List.mem_finRange _⟩]

/-- **Which calls keep counts and slots the same.** -/
theorem fdStep_spec (h : Inv s 0) {c : FdCall} (hc : c.caller ∈ s.procs → Balanced s c) :
    ∃ s', fdStep s c = some s' ∧ Inv s' 0 := by
  unfold fdStep
  split_ifs with hcaller
  swap
  · exact ⟨s, rfl, h⟩
  have hfine := hc hcaller
  cases c with
  | open_ p opened => exact ⟨_, rfl, sysOpen_inv h hcaller hfine⟩
  | close p fd closes => exact ⟨_, rfl, sysClose_inv h hfine⟩
  | dup p oldfd => exact ⟨_, rfl, sysDup_inv h hcaller hfine⟩
  | dup2 p oldfd newfd closes => exact ⟨_, rfl, sysDup2_inv h hcaller hfine⟩
  | dupfd p fd base =>
      obtain ⟨r, hr, hinv⟩ := sysDupfd_inv h hcaller hfine
      exact ⟨r.1, congrArg (Option.map Prod.fst) hr, hinv⟩
  | setfd p fd cloexec => exact ⟨_, rfl, sysSetfd_inv h hcaller cloexec⟩
  | pipe p memory => exact ⟨_, rfl, sysPipe_inv h hcaller hfine⟩
  | fork p child complete closes =>
      by_cases hchild : child ∈ s.procs
      · exact ⟨s, if_pos hchild, h⟩
      · refine ⟨sysFork closes s p child complete, if_neg hchild, ?_⟩
        cases complete with
        | true =>
            rw [show sysFork closes s p child true = fsFdCopy s p child from if_pos rfl]
            exact fsFdCopy_inv h hcaller hchild
        | false =>
            apply sysFork_failed h closes hchild
            exact (hfine hchild).resolve_left (by decide)
  | exec p closes => exact ⟨fsFdReinit closes s p, rfl, fsFdReinit_inv h hfine⟩
  | exit p closes => exact ⟨fsFdExit closes s p, rfl, fsFdExit_inv h hfine⟩

end Steps

/-! ## Runs -/

/-- Counts and slots are the same: the reference of a file is the number of slots of its type that
hold its handle, and so are the two counts of a pipe; what is not there is held by no slot, and
what is there by one at least. -/
structure Counted (s : State) : Prop where
  file : ∀ h n, s.files h = some n → n = s.slots (.fsif, h) ∧ 0 < s.slots (.fsif, h)
  no_file : ∀ h, s.files h = none → s.slots (.fsif, h) = 0
  pipe : ∀ q ∈ s.pipes, q.readCount = s.slots (.pipeRd, q.id) ∧
    q.writeCount = s.slots (.pipeWr, q.id) ∧
    0 < s.slots (.pipeRd, q.id) + s.slots (.pipeWr, q.id)
  no_pipe : ∀ id, (∀ q ∈ s.pipes, q.id ≠ id) → s.slots (.pipeRd, id) = 0 ∧ s.slots (.pipeWr, id) = 0

theorem Inv.counted {s : State} (h : Inv s 0) : Counted s where
  file i n hn := by
    have heq := h.count_eq (.fsif, i)
    have hpos := (h.file_open i n hn).1
    change (s.files i).getD 0 = _ at heq
    rw [hn, Option.getD_some, Pi.zero_apply] at heq
    omega
  no_file i hn := by
    have heq := h.count_eq (.fsif, i)
    change (s.files i).getD 0 = _ at heq
    rw [hn, Option.getD_none, Pi.zero_apply] at heq
    omega
  pipe q hq := by
    have hfirst := first_of_mem h.nodup hq
    have hread := h.count_eq (.pipeRd, q.id)
    have hwrite := h.count_eq (.pipeWr, q.id)
    have hopen := h.pipe_open q hq
    change ((first Pipe.id q.id s.pipes).map Pipe.readCount).getD 0 = _ at hread
    change ((first Pipe.id q.id s.pipes).map Pipe.writeCount).getD 0 = _ at hwrite
    rw [hfirst, Option.map_some, Option.getD_some, Pi.zero_apply] at hread hwrite
    omega
  no_pipe id hid := by
    have hfirst := first_eq_none_iff.2 hid
    have hread := h.count_eq (.pipeRd, id)
    have hwrite := h.count_eq (.pipeWr, id)
    change ((first Pipe.id id s.pipes).map Pipe.readCount).getD 0 = _ at hread
    change ((first Pipe.id id s.pipes).map Pipe.writeCount).getD 0 = _ at hwrite
    rw [hfirst, Option.map_none, Option.getD_none, Pi.zero_apply] at hread hwrite
    omega

theorem boot_inv (procs : Finset ℕ) : Inv (boot procs) 0 where
  file_open := by
    rintro h n ⟨⟩
  pipe_open := by
    rintro q hq
    cases hq
  nodup := List.nodup_nil
  count_eq := by
    intro o
    have hslots : (boot procs).slots o = 0 := by
      unfold State.slots
      have hnone : holders (boot procs).held o = ∅ := by
        apply Set.eq_empty_of_forall_notMem
        intro x hx
        have hheld : obj FileFd.empty = some o := hx
        rw [obj_empty] at hheld
        cases hheld
      rw [hnone, Set.ncard_empty]
    rw [hslots]
    obtain ⟨f, i⟩ := o
    cases f <;> rfl
  slot := fun _ => Or.inl rfl
  absent := fun _ _ => rfl

/-- The file systems close what they are asked to. -/
theorem closesLast_true (s : State) (xs : Set Slot) : ClosesLast (fun _ => true) s xs :=
  fun _ _ _ => rfl

/-- What is counted is held by a process. -/
theorem Inv.holder {s : State} (h : Inv s 0) {o : Obj} (hpos : 0 < s.slots o) :
    ∃ x, x.1 ∈ s.procs ∧ s.held x = some o := by
  obtain ⟨x, hx⟩ := Set.nonempty_of_ncard_ne_zero hpos.ne'
  refine ⟨x, ?_, hx⟩
  by_contra hproc
  have hempty : obj (s.fds x) = some o := hx
  rw [h.absent x hproc, obj_empty] at hempty
  cases hempty

end Fd
end LightOS
