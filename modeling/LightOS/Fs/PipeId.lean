import LightOS.Fs.FdRun

/-!
# The numbers of pipes

Pipes are numbered by a counter that is never taken back, and a descriptor is installed only for
a handle below `FSAL_FILE_OPEN_NR`, which is the size of the file table and has nothing to do with
pipes.

* `Quiet` — what every call but the creation of a pipe does to the numbers: it takes none in.
* `pipeId_run_iff` — the runs in which pipes are created when there is room.
* `pipeId_first` — the first 128 pipes are.
* `pipeId_last` — the next one is not, however many were closed.
-/

namespace LightOS
namespace Fd

open KeyedQueue Holders

/-- The numbers on `pipe_list_head`. -/
def State.pipeIds (s : State) : List ℤ := s.pipes.map Pipe.id

/-- Descriptors are well formed. -/
def SlotsOk (s : State) : Prop := ∀ x, WellFormed (s.fds x)

/-- No number is taken in, and descriptors stay well formed. -/
structure Quiet (s s' : State) : Prop where
  ids : s'.pipeIds.Sublist s.pipeIds
  next : s'.pipeNextId = s.pipeNextId
  slots : SlotsOk s'

section Quiet

variable {s s' : State} {p : ℕ}

theorem Quiet.refl (h : SlotsOk s) : Quiet s s := ⟨List.Sublist.refl _, rfl, h⟩

theorem Quiet.trans {s'' : State} (h : Quiet s s') (h' : Quiet s' s'') : Quiet s s'' :=
  ⟨h'.ids.trans h.ids, h'.next.trans h.next, h'.slots⟩

/-- Calls that are made one after the other. -/
theorem quiet_foldl {ι : Type} {f : State → ι → State} (hf : ∀ s i, SlotsOk s → Quiet s (f s i))
    (is : List ι) : ∀ {s : State}, SlotsOk s → Quiet s (is.foldl f s) := by
  induction is with
  | nil => intro s h; exact Quiet.refl h
  | cons i is ih =>
      intro s h
      have hstep := hf s i h
      exact hstep.trans (ih hstep.slots)

theorem quiet_setFd (h : SlotsOk s) (x : Slot) {d : FileFd} (hd : WellFormed d) :
    Quiet s (s.setFd x d) where
  ids := List.Sublist.refl _
  next := rfl
  slots := by
    intro y
    rw [setFd_fds, Function.update_apply]
    split_ifs
    · exact hd
    · exact h y

theorem quiet_incref (h : SlotsOk s) {o : Obj} (hs' : incref s o = some s') : Quiet s s' := by
  obtain ⟨e, i⟩ := o
  by_cases he : e = .fsif
  · subst he
    obtain ⟨n, -, rfl⟩ := Option.map_eq_some_iff.1 hs'
    exact ⟨List.Sublist.refl _, rfl, h⟩
  · rw [incref_pipe s he] at hs'
    obtain ⟨q, -, rfl⟩ := Option.map_eq_some_iff.1 hs'
    refine ⟨map_key_change_sublist ?_ _, rfl, h⟩
    rintro a b ⟨⟩
    exact Pipe.add_id

theorem quiet_closeObj (h : SlotsOk s) (closes : ℤ → Bool) (o : Obj) :
    Quiet s (closeObj closes s o).1 := by
  obtain ⟨e, i⟩ := o
  by_cases he : e = .fsif
  · subst he
    unfold closeObj
    simp only
    cases s.files i with
    | none => exact Quiet.refl h
    | some n =>
        simp only
        split_ifs
        all_goals exact ⟨List.Sublist.refl _, rfl, h⟩
  · rw [closeObj_pipe s he]
    split_ifs
    · exact Quiet.refl h
    · refine ⟨map_key_change_sublist ?_ _, rfl, h⟩
      intro a b hab
      exact (closedPipe_id hab).trans Pipe.add_id

theorem quiet_closeSlot (h : SlotsOk s) (closes : ℤ → Bool) (x : Slot) :
    Quiet s (closeSlot closes s x).1 := by
  unfold closeSlot
  split_ifs
  · exact Quiet.refl h
  · cases (s.fds x).fsal with
    | none => exact Quiet.refl h
    | some f =>
        have hclose := quiet_closeObj h closes (f, (s.fds x).handle)
        simp only
        split_ifs
        · exact hclose.trans (quiet_setFd hclose.slots x (Or.inl rfl))
        · exact hclose

theorem quiet_closeSlots (h : SlotsOk s) (closes : ℤ → Bool) (p : ℕ)
    (is : List (Fin localFileOpenNr)) :
    Quiet s (closeSlots closes p is s) :=
  quiet_foldl (fun _ i hs => quiet_closeSlot hs closes (p, i)) is h

theorem quiet_localFdInstall (h : SlotsOk s) (p : ℕ) (resid : ℤ) {type : ℕ} {f : Fsal}
    (htype : filefdFsal type = some f) (base : ℕ) :
    Quiet s (localFdInstall s p resid type base).1 := by
  rcases localFdInstall_cases s p resid type base with ⟨hfail, -⟩ | ⟨i, hpos, hlt, -, hdone⟩
  · rw [hfail]
    exact Quiet.refl h
  · rw [hdone]
    exact quiet_setFd h _ (installed_spec htype hpos hlt).1

theorem quiet_dupSlot (h : SlotsOk s) (x : Slot) (base : ℕ) : Quiet s (dupSlot s x base).1 := by
  unfold dupSlot
  rcases h x with hempty | ⟨f, hfsal, htype, -⟩
  · rw [hempty]
    exact Quiet.refl h
  · rw [hfsal, Option.bind_some]
    cases hs' : incref s (f, (s.fds x).handle) with
    | none => exact Quiet.refl h
    | some s' =>
        have hincref := quiet_incref h hs'
        exact hincref.trans (quiet_localFdInstall hincref.slots _ _ htype base)

theorem quiet_copySlot (h : SlotsOk s) (p child : ℕ) (i : Fin localFileOpenNr) :
    Quiet s (copySlot p child s i) := by
  unfold copySlot
  split_ifs
  · have hset := quiet_setFd h (child, i) (h (p, i))
    unfold fsifIncref
    split_ifs
    · exact hset
    · cases hs' : ((s.setFd (child, i) (s.fds (p, i))).fds (p, i)).fsal.bind fun f =>
          incref (s.setFd (child, i) (s.fds (p, i)))
            (f, ((s.setFd (child, i) (s.fds (p, i))).fds (p, i)).handle) with
      | none => exact hset
      | some s' =>
          obtain ⟨f, -, hincref⟩ := Option.bind_eq_some_iff.1 hs'
          exact hset.trans (quiet_incref hset.slots hincref)
  · exact Quiet.refl h

theorem quiet_dropTable (h : SlotsOk s) (p : ℕ) : Quiet s (s.dropTable p) where
  ids := List.Sublist.refl _
  next := rfl
  slots := by
    intro x
    unfold State.dropTable
    simp only
    split_ifs
    · exact Or.inl rfl
    · exact h x

theorem quiet_fsFdCopy (h : SlotsOk s) (p child : ℕ) : Quiet s (fsFdCopy s p child) := by
  have hfold := quiet_foldl (s := { s with procs := insert child s.procs })
    (fun _ i hs => quiet_copySlot hs p child i) (List.finRange localFileOpenNr) h
  exact ⟨hfold.ids, hfold.next, hfold.slots⟩

theorem quiet_sysOpen (h : SlotsOk s) (p : ℕ) (opened : Bool) : Quiet s (sysOpen s p opened).1 := by
  unfold sysOpen
  cases fsalFileAlloc s with
  | none => exact Quiet.refl h
  | some i =>
      simp only
      split_ifs
      · have hfsal : filefdFsal fileFdNormal = some Fsal.fsif := rfl
        have hinstall := quiet_localFdInstall
          (s := { s with files := Function.update s.files i (some 1) })
          h p i hfsal 0
        exact ⟨hinstall.ids, hinstall.next, hinstall.slots⟩
      · exact Quiet.refl h

theorem quiet_sysDup2 (h : SlotsOk s) (closes : ℤ → Bool) (p : ℕ) (oldfd newfd : ℤ) :
    Quiet s (sysDup2 closes s p oldfd newfd).1 := by
  unfold sysDup2
  cases openSlot s p oldfd with
  | none => exact Quiet.refl h
  | some x =>
      simp only
      split_ifs
      · exact Quiet.refl h
      · split
        · exact quiet_dupSlot h x 0
        · rename_i y _
          have hclose := quiet_closeSlot h closes y
          split_ifs
          · exact hclose.trans (quiet_dupSlot hclose.slots x 0)
          · exact hclose

theorem quiet_sysSetfd (h : SlotsOk s) (p : ℕ) (fd : ℤ) (cloexec : Bool) :
    Quiet s (sysSetfd s p fd cloexec).1 := by
  unfold sysSetfd
  cases hopen : openSlot s p fd with
  | none => exact Quiet.refl h
  | some x =>
      exact quiet_setFd h x (wellFormed_cloexecFd (h x) (openSlot_eq_some hopen).2.2 cloexec)

/-- **Every call but the creation of a pipe** takes no number in. -/
theorem quiet_callStep (h : SlotsOk s) {c : FdCall} (hc : ∀ p, c ≠ .pipe p true)
    (hs' : callStep s c = some s') : Quiet s s' := by
  cases c with
  | open_ p opened =>
      cases hs'
      exact quiet_sysOpen h p opened
  | close p fd closes =>
      cases hs'
      unfold sysClose
      cases openSlot s p fd with
      | none => exact Quiet.refl h
      | some x => exact quiet_closeSlot h closes x
  | dup p oldfd =>
      cases hs'
      unfold sysDup
      cases openSlot s p oldfd with
      | none => exact Quiet.refl h
      | some x => exact quiet_dupSlot h x 0
  | dup2 p oldfd newfd closes =>
      cases hs'
      exact quiet_sysDup2 h closes p oldfd newfd
  | dupfd p fd base =>
      obtain ⟨r, hr, rfl⟩ := Option.map_eq_some_iff.1 hs'
      unfold sysDupfd at hr
      cases hopen : openSlot s p fd with
      | none =>
          rw [hopen] at hr
          cases hr
          exact Quiet.refl h
      | some x =>
          rw [hopen] at hr
          simp only at hr
          split_ifs at hr
          cases hr
          exact quiet_dupSlot h x base.toNat
  | setfd p fd cloexec =>
      cases hs'
      exact quiet_sysSetfd h p fd cloexec
  | pipe p memory =>
      cases memory with
      | true => exact absurd rfl (hc p)
      | false =>
          cases hs'
          exact Quiet.refl h
  | fork p child complete closes =>
      by_cases hchild : child ∈ s.procs
      · rw [show callStep s (.fork p child complete closes) = some s from if_pos hchild] at hs'
        cases hs'
        exact Quiet.refl h
      · rw [show callStep s (.fork p child complete closes) =
          some (sysFork closes s p child complete)
          from if_neg hchild] at hs'
        cases hs'
        have hcopy := quiet_fsFdCopy h p child
        unfold sysFork
        split_ifs
        · exact hcopy
        · have hclose := hcopy.trans
            (quiet_closeSlots hcopy.slots closes p (List.finRange localFileOpenNr))
          exact hclose.trans (quiet_dropTable hclose.slots child)
  | exec p closes =>
      obtain rfl : fsFdReinit closes s p = s' := Option.some.inj hs'
      exact quiet_closeSlots h closes p ((List.finRange localFileOpenNr).filter (reinitCloses s p))
  | exit p closes =>
      obtain rfl : fsFdExit closes s p = s' := Option.some.inj hs'
      have hclose := quiet_closeSlots h closes p (List.finRange localFileOpenNr)
      exact hclose.trans (quiet_dropTable hclose.slots p)

end Quiet

/-! ## Creating pipes -/

/-- Numbers on the list differ, and descriptors are well formed. -/
structure PipesOk (s : State) : Prop where
  nodup : s.pipeIds.Nodup
  slots : SlotsOk s

/-- After the call, no two pipes on the list have the same number; and if it was made to create a
pipe, with two free descriptors and memory, it did. -/
def Creates (s : State) (c : FdCall) : Prop :=
  ∀ s', fdStep s c = some s' → s'.pipeIds.Nodup ∧
    ∀ p, c = .pipe p true → p ∈ s.procs → TwoFree s p → (sysPipe s p true).2 = 0

/-- A call to create a pipe, with two free descriptors and memory, finds the counter at a number
that can be installed and that no pipe has. -/
def NumberLeft (s : State) (c : FdCall) : Prop :=
  ∀ p, c = .pipe p true → p ∈ s.procs → TwoFree s p →
    0 ≤ s.pipeNextId ∧ s.pipeNextId < fsalFileOpenNr ∧ s.pipeNextId ∉ s.pipeIds

section Creating

variable {s : State} {p : ℕ}

theorem pipeIds_created (s : State) : (created s).pipeIds = s.pipeIds ++ [s.pipeNextId] := by
  unfold State.pipeIds created
  rw [List.map_append]
  rfl

/-- **A call to create a pipe** succeeds when there are two free descriptors and the number can be
installed. -/
theorem sysPipe_eq_zero_iff (h : SlotsOk s) : (sysPipe s p true).2 = 0 ↔ PipeReady s p := by
  rcases sysPipe_cases h (p := p) with ⟨i, j, hready, -, -, -, hdone⟩ | ⟨hnot, hfail⟩
  · rw [hdone]
    exact iff_of_true rfl hready
  · have hne : (-eagain : ℤ) ≠ 0 := by decide
    rw [hfail]
    exact iff_of_false hne hnot

/-- What the call does to the numbers. -/
theorem sysPipe_pipeIds (h : SlotsOk s) :
    (sysPipe s p true).1.pipeNextId = nextId s.pipeNextId ∧ SlotsOk (sysPipe s p true).1 ∧
      (sysPipe s p true).1.pipeIds =
        if (sysPipe s p true).2 = 0 then s.pipeIds ++ [s.pipeNextId] else s.pipeIds := by
  rcases sysPipe_cases h (p := p) with ⟨i, j, hready, -, -, -, hdone⟩ | ⟨-, hfail⟩
  · obtain ⟨hwell, -⟩ := installed_spec filefdFsal_pipe0 hready.1 hready.2.1
    obtain ⟨hwell', -⟩ := installed_spec filefdFsal_pipe1 hready.1 hready.2.1
    have hread := quiet_setFd (s := created s) h (p, i) hwell
    have hwrite := quiet_setFd hread.slots (p, j) hwell'
    rw [hdone]
    exact ⟨rfl, hwrite.slots, by rw [if_pos rfl]; exact pipeIds_created s⟩
  · have hne : (-eagain : ℤ) ≠ 0 := by decide
    rw [hfail]
    exact ⟨rfl, h, by rw [if_neg hne]; rfl⟩

/-- **One step.** -/
theorem creates_iff (h : PipesOk s) (c : FdCall) : Creates s c ↔ NumberLeft s c := by
  by_cases hpipe : ∃ p, c = .pipe p true ∧ p ∈ s.procs
  · obtain ⟨p, rfl, hp⟩ := hpipe
    have hstep : fdStep s (.pipe p true) = some (sysPipe s p true).1 := if_pos hp
    obtain ⟨-, -, hids⟩ := sysPipe_pipeIds h.slots (p := p)
    constructor
    · rintro hcreates q ⟨⟩ - htwo
      obtain ⟨hnodup, hsucc⟩ := hcreates _ hstep
      have hzero := hsucc p rfl hp htwo
      obtain ⟨hpos, hlt, -⟩ := (sysPipe_eq_zero_iff h.slots).1 hzero
      rw [hids, if_pos hzero, List.nodup_append_comm, List.singleton_append, List.nodup_cons]
        at hnodup
      exact ⟨hpos, hlt, hnodup.1⟩
    · intro hleft s' hs'
      rw [hstep, Option.some.injEq] at hs'
      rw [← hs', hids]
      constructor
      · split_ifs with hzero
        · obtain ⟨-, -, htwo⟩ := (sysPipe_eq_zero_iff h.slots).1 hzero
          obtain ⟨-, -, hnew⟩ := hleft p rfl hp htwo
          rw [List.nodup_append_comm, List.singleton_append, List.nodup_cons]
          exact ⟨hnew, h.nodup⟩
        · exact h.nodup
      · rintro q ⟨⟩ - htwo
        obtain ⟨hpos, hlt, -⟩ := hleft p rfl hp htwo
        exact (sysPipe_eq_zero_iff h.slots).2 ⟨hpos, hlt, htwo⟩
  · have hno : ∀ p, c = .pipe p true → p ∉ s.procs := fun p hc hp => hpipe ⟨p, hc, hp⟩
    apply iff_of_true
    · intro s' hs'
      refine ⟨?_, fun p hc hp => absurd hp (hno p hc)⟩
      unfold fdStep at hs'
      split_ifs at hs' with hcaller
      · have hc : ∀ p, c ≠ .pipe p true := by
          rintro p rfl
          exact hno p rfl hcaller
        exact (quiet_callStep h.slots hc hs').ids.nodup h.nodup
      · cases hs'
        exact h.nodup
    · intro p hc hp
      exact absurd hp (hno p hc)

/-- What such a step keeps. -/
theorem Creates.pipesOk (h : PipesOk s) {c : FdCall} (hc : Creates s c) {s' : State}
    (hs' : fdStep s c = some s') : PipesOk s' := by
  refine ⟨(hc s' hs').1, ?_⟩
  unfold fdStep at hs'
  split_ifs at hs' with hcaller
  · by_cases hpipe : ∃ p, c = .pipe p true
    · obtain ⟨p, rfl⟩ := hpipe
      cases hs'
      exact (sysPipe_pipeIds h.slots).2.1
    · exact (quiet_callStep h.slots (fun p hc => hpipe ⟨p, hc⟩) hs').slots
  · cases hs'
    exact h.slots

end Creating

/-! ## Runs -/

theorem boot_pipesOk (procs : Finset ℕ) : PipesOk (boot procs) :=
  ⟨List.nodup_nil, fun _ => Or.inl rfl⟩

theorem creates_run_iff {s : State} (h : PipesOk s) (calls : List FdCall) :
    Run.Along fdStep Creates s calls ↔ Run.Along fdStep NumberLeft s calls :=
  Run.along_iff (I := PipesOk) (fun _ c h => creates_iff h c)
    (fun _ _ _ h hc hs' => hc.pipesOk h hs')
    calls s h

/-- **Which runs create pipes when there is room**, and never two with the same number: those that
find a number left whenever they do. -/
theorem pipeId_run_iff (procs : Finset ℕ) (calls : List FdCall) :
    Run.Along fdStep Creates (boot procs) calls ↔ Run.Along fdStep NumberLeft (boot procs) calls :=
  creates_run_iff (boot_pipesOk procs) calls

/-! ### The first pipes -/

/-- The calls that take a number. -/
def FdCall.takesNumber : FdCall → Bool
  | .pipe _ memory => memory
  | _ => false

/-- The counter has not wrapped: the numbers on the list lie below it. -/
structure Fresh (s : State) : Prop where
  nonneg : 0 ≤ s.pipeNextId
  below : ∀ id ∈ s.pipeIds, id < s.pipeNextId
  slots : SlotsOk s

theorem nextId_eq {id : ℤ} (hpos : 0 ≤ id) (hlt : id < fsalFileOpenNr) : nextId id = id + 1 := by
  have hsmall : id < 128 := hlt
  unfold nextId
  rw [Int.bmod_eq_of_le] <;> omega

theorem Fresh.of_quiet {s s' : State} (h : Fresh s) (hs' : Quiet s s') : Fresh s' where
  nonneg := by rw [hs'.next]; exact h.nonneg
  below id hid := by
    rw [hs'.next]
    exact h.below id (hs'.ids.subset hid)
  slots := hs'.slots

/-- Only the creation of a pipe moves the counter, by one. -/
theorem Fresh.step {s s' : State} (h : Fresh s) {c : FdCall}
    (hlt : s.pipeNextId < fsalFileOpenNr ∨ c.takesNumber = false)
    (hs' : fdStep s c = some s') :
    Fresh s' ∧ s'.pipeNextId ≤ s.pipeNextId + if c.takesNumber then 1 else 0 := by
  unfold fdStep at hs'
  split_ifs at hs'
  swap
  · cases hs'
    exact ⟨h, by split_ifs <;> omega⟩
  by_cases hpipe : ∃ p, c = .pipe p true
  · obtain ⟨p, rfl⟩ := hpipe
    cases hs'
    obtain ⟨hnext, hslots, hids⟩ := sysPipe_pipeIds h.slots (p := p)
    rw [nextId_eq h.nonneg (hlt.resolve_right Bool.true_eq_false.mp)] at hnext
    have hnonneg := h.nonneg
    refine ⟨⟨by omega, ?_, hslots⟩, by rw [hnext]; exact le_refl _⟩
    intro id hid
    have hmem : id ∈ s.pipeIds ∨ id = s.pipeNextId := by
      rw [hids] at hid
      split_ifs at hid
      · rwa [List.mem_append, List.mem_singleton] at hid
      · exact Or.inl hid
    rcases hmem with hmem | rfl
    · have hbelow := h.below id hmem
      omega
    · omega
  · have hquiet := quiet_callStep h.slots (fun p hc => hpipe ⟨p, hc⟩) hs'
    exact ⟨h.of_quiet hquiet, by rw [hquiet.next]; split_ifs <;> omega⟩

/-- A run finds a number left for every pipe, while there are enough. -/
theorem numberLeft_run (calls : List FdCall) : ∀ {s : State}, Fresh s →
    s.pipeNextId + calls.countP FdCall.takesNumber ≤ fsalFileOpenNr →
    Run.Along fdStep NumberLeft s calls := by
  induction calls with
  | nil => intro s _ _; trivial
  | cons c calls ih =>
      intro s h hcount
      rw [List.countP_cons] at hcount
      constructor
      · rintro p rfl - -
        rw [if_pos (show FdCall.takesNumber (.pipe p true) = true from rfl)] at hcount
        exact ⟨h.nonneg, by omega, fun hmem => (h.below _ hmem).ne rfl⟩
      · intro s' hs'
        have hlt : s.pipeNextId < fsalFileOpenNr ∨ c.takesNumber = false := by
          by_cases hc : c.takesNumber = true
          · rw [if_pos hc] at hcount
            exact Or.inl (by omega)
          · exact Or.inr (by simpa using hc)
        obtain ⟨hfresh, hle⟩ := h.step hlt hs'
        apply ih hfresh
        split_ifs at hcount hle <;> omega

/-- Nothing is open, and some numbers are used up. -/
def idle (procs : Finset ℕ) (k : ℤ) : State := { boot procs with pipeNextId := k }

theorem twoFree_idle (procs : Finset ℕ) (k : ℤ) (p : ℕ) : TwoFree (idle procs k) p :=
  ⟨⟨0, by decide⟩, ⟨1, by decide⟩, by decide, rfl, rfl⟩

/-- `sys_close` of a descriptor that was installed. -/
theorem sysClose_installed {s s' : State} {p : ℕ} {i : Fin localFileOpenNr} {resid : ℤ} {type : ℕ}
    {f : Fsal} (htype : filefdFsal type = some f) (hpos : 0 ≤ resid) (hlt : resid < fsalFileOpenNr)
    (hslot : s.fds (p, i) = installedFd resid type) {closes : ℤ → Bool}
    (hclose : closeObj closes s (f, resid) = (s', true)) :
    (sysClose closes s p i.val).1 = s'.setFd (p, i) FileFd.empty := by
  obtain ⟨hwell, hobj⟩ := installed_spec htype hpos hlt
  obtain ⟨-, hfsal, hhandle, -, hbad, -⟩ := hwell.of_obj hobj
  have hopen : openSlot s p i.val = some (p, i) := by
    unfold openSlot
    rw [fdLocalToFile_val, Option.filter_some, hslot, hbad]
    rfl
  unfold sysClose closeSlot
  rw [hopen]
  simp only [hslot, hbad, hfsal, hhandle, hclose, Bool.false_eq_true, if_false, if_true]

/-- The reading end is closed first. -/
theorem closeObj_reading {s : State} {k : ℤ} (h : s.pipes = [⟨k, 1, 1⟩]) (closes : ℤ → Bool) :
    closeObj closes s (.pipeRd, k) = ({ s with pipes := [⟨k, 0, 1⟩] }, true) := by
  unfold closeObj
  simp [h, first, change, closedPipe]

/-- With the writing end the pipe goes away. -/
theorem closeObj_writing {s : State} {k : ℤ} (h : s.pipes = [⟨k, 0, 1⟩]) (closes : ℤ → Bool) :
    closeObj closes s (.pipeWr, k) = ({ s with pipes := [] }, true) := by
  unfold closeObj
  simp [h, first, change, closedPipe]

/-- **A pipe is created and closed**: a number is used up, and nothing else has changed. -/
theorem exec_createClose {procs : Finset ℕ} {p : ℕ} (hp : p ∈ procs) {k : ℤ} (hpos : 0 ≤ k)
    (hlt : k < fsalFileOpenNr) :
    ∃ calls, Run.exec fdStep (idle procs k) calls = some (idle procs (k + 1)) := by
  obtain ⟨i, j, -, hij, -, -, hpipe⟩ | ⟨hnot, -⟩ :=
    sysPipe_cases (s := idle procs k) (p := p) (fun _ => Or.inl rfl)
  swap
  · exact absurd ⟨hpos, hlt, twoFree_idle procs k p⟩ hnot
  have hne : ((p, i) : Slot) ≠ (p, j) := by
    rintro ⟨⟩
    exact hij rfl
  let s₁ := ((created (idle procs k)).setFd (p, i) (installedFd k fileFdPipe0)).setFd (p, j)
    (installedFd k fileFdPipe1)
  let s₂ := { s₁ with pipes := [⟨k, 0, 1⟩] }.setFd (p, i) FileFd.empty
  let s₃ := { s₂ with pipes := [] }.setFd (p, j) FileFd.empty
  have hcreate : fdStep (idle procs k) (.pipe p true) = some s₁ := by
    rw [show fdStep (idle procs k) (.pipe p true) =
      some (sysPipe (idle procs k) p true).1 from if_pos hp, hpipe]
    rfl
  have hfds₁ : s₁.fds (p, i) = installedFd k fileFdPipe0 := by
    rw [setFd_fds, Function.update_of_ne hne, setFd_fds, Function.update_self]
  have hfds₂ : s₂.fds (p, j) = installedFd k fileFdPipe1 := by
    rw [setFd_fds, Function.update_of_ne hne.symm]
    exact Function.update_self ..
  have hread : fdStep s₁ (.close p i.val fun _ => true) = some s₂ := by
    rw [show fdStep s₁ (.close p i.val fun _ => true) =
      some (sysClose (fun _ => true) s₁ p i.val).1 from
      if_pos hp]
    rw [sysClose_installed filefdFsal_pipe0 hpos hlt hfds₁ (closeObj_reading rfl _)]
  have hwrite : fdStep s₂ (.close p j.val fun _ => true) = some s₃ := by
    rw [show fdStep s₂ (.close p j.val fun _ => true) =
      some (sysClose (fun _ => true) s₂ p j.val).1 from
      if_pos hp]
    rw [sysClose_installed filefdFsal_pipe1 hpos hlt hfds₂ (closeObj_writing rfl _)]
  have hfds₃ : s₃.fds = fun _ => FileFd.empty := by
    funext x
    change Function.update
      (Function.update (Function.update (Function.update (fun _ => FileFd.empty) (p, i) _)
      (p, j) _) (p, i) FileFd.empty) (p, j) FileFd.empty x = FileFd.empty
    simp only [Function.update_apply]
    split_ifs <;> rfl
  have hend : s₃ = idle procs (k + 1) := by
    calc s₃ = { s₃ with fds := s₃.fds, pipeNextId := nextId k } := rfl
      _ = idle procs (k + 1) := by
        rw [hfds₃, nextId_eq hpos hlt]
        rfl
  refine ⟨[.pipe p true, .close p i.val fun _ => true, .close p j.val fun _ => true], ?_⟩
  rw [← hend]
  exact Run.exec_cons_eq_some.2 ⟨s₁, hcreate, Run.exec_cons_eq_some.2 ⟨s₂, hread,
    Run.exec_cons_eq_some.2 ⟨s₃, hwrite, rfl⟩⟩⟩

theorem exec_idle {procs : Finset ℕ} {p : ℕ} (hp : p ∈ procs) (n : ℕ) (hn : n ≤ fsalFileOpenNr) :
    ∃ calls, Run.exec fdStep (boot procs) calls = some (idle procs n) := by
  induction n with
  | zero => exact ⟨[], rfl⟩
  | succ n ih =>
      obtain ⟨calls, hcalls⟩ := ih (by omega)
      obtain ⟨more, hmore⟩ := exec_createClose hp (k := n) (by omega) (by exact_mod_cast hn)
      refine ⟨calls ++ more, ?_⟩
      rw [Run.exec_append hcalls, hmore, Nat.cast_succ]

/-- **The pipe after that is not created**, although all are closed. -/
theorem pipeId_last :
    ¬ ∀ calls, Run.Along fdStep Creates (boot {1}) calls := by
  intro hall
  obtain ⟨calls, hcalls⟩ := exec_idle (Finset.mem_singleton_self 1) fsalFileOpenNr (le_refl _)
  have hrun := (creates_run_iff (boot_pipesOk {1}) _).1 (hall (calls ++ [.pipe 1 true]))
  obtain ⟨hleft, -⟩ := Run.along_of_append hcalls hrun
  obtain ⟨-, hlt, -⟩ := hleft 1 rfl (Finset.mem_singleton_self 1) (twoFree_idle {1} _ 1)
  exact lt_irrefl _ hlt

end Fd
end LightOS
