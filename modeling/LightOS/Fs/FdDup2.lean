import LightOS.Fs.FdRun

/-!
# A descriptor that is duplicated to another

`sys_dup2` of `fs/fsif.c` on any table.  It closes the new descriptor if it is open, and then
installs the object of the old one into the *lowest* free descriptor, which is the new one only if
no lower one is free.

* `Duplicates` — what is promised of the call.
* `Lands` — when the lowest free descriptor is the new one, and takes what the old one refers to.
* `sysDup2_iff` — the promise is kept exactly then, and errors change no other descriptor.
-/

namespace LightOS
namespace Fd

open KeyedQueue Holders

/-! ## What is promised -/

/-- The object a descriptor refers to. -/
def heldBy (d : FileFd) : Option Obj := if d.isBad then none else d.fsal.map fun f => (f, d.handle)

/-- The object of a slot is closed once, if it has one, and the slot is given up. -/
def ClosedOnce (closes : ℤ → Bool) (s : State) (y : Slot) (s₁ : State) : Prop :=
  match heldBy (s.fds y) with
  | none => s₁ = s
  | some o => ∃ s', closeObj closes s o = (s', true) ∧ s₁ = s'.setFd y FileFd.empty

/-- What a descriptor refers to is counted once more. -/
def CountedOnce (s₁ : State) (d : FileFd) (s₂ : State) : Prop :=
  (d.fsal.bind fun f => incref s₁ (f, d.handle)) = some s₂

/-- What is promised of a duplication of the slot `x` to the slot `y`, and of its result. -/
structure Duplicates (closes : ℤ → Bool) (s : State) (x y : Slot) (r : State × ℤ) : Prop where
  returned : r.2 = y.2.val
  handle : (r.1.fds y).handle = (s.fds x).handle
  type : (r.1.fds y).flags &&& fileFdTypeMask = (s.fds x).flags &&& fileFdTypeMask
  fsal : (r.1.fds y).fsal = (s.fds x).fsal
  objects : x ≠ y → ∃ s₁ s₂, ClosedOnce closes s y s₁ ∧ CountedOnce s₁ (s.fds x) s₂ ∧
    r.1.files = s₂.files ∧ r.1.pipes = s₂.pipes
  others : ∀ z, z ≠ y → r.1.fds z = s.fds z

/-- The state in which the object is counted: after `sys_close` of a new descriptor that looks
open. -/
def countingState (closes : ℤ → Bool) (s : State) (x y : Slot) : State :=
  if x ≠ y ∧ 0 ≤ (s.fds y).handle ∧ (s.fds y).flags ≠ 0 then (closeSlot closes s y).1 else s

/-- The `incref` of the old descriptor succeeds. -/
def Increfs (closes : ℤ → Bool) (s : State) (x y : Slot) : Prop :=
  ∃ s₂, CountedOnce (countingState closes s x y) (s.fds x) s₂

/-- Closing the object succeeds: a file has other references, or its file system closes it; a pipe
is there. -/
def Closable (closes : ℤ → Bool) (s : State) : Obj → Prop
  | (.fsif, h) => ∃ n, s.files h = some n ∧ (1 < n ∨ closes h = true)
  | (_, id) => (first Pipe.id id s.pipes).isSome = true

/-- The slot `y` is the one that is found free, and takes what `x` refers to. -/
structure Lands (closes : ℤ → Bool) (s : State) (x y : Slot) : Prop where
  lower : ∀ k < y.2, (s.fds (y.1, k)).flags ≠ 0
  free : (s.fds y).flags = 0 ∨ ∃ o, heldBy (s.fds y) = some o ∧ Closable closes s o
  handle : (s.fds x).handle < fsalFileOpenNr
  fsal : filefdFsal ((s.fds x).flags &&& fileFdTypeMask) = (s.fds x).fsal

section Dup2

variable {closes : ℤ → Bool} {s s₁ s₂ : State} {p : ℕ} {x y z : Slot} {o : Obj}

/-! ## What stays -/

theorem incref_fds (h : incref s o = some s₂) : s₂.fds = s.fds := by
  obtain ⟨f, i⟩ := o
  cases f with
  | fsif =>
      obtain ⟨n, -, rfl⟩ := Option.map_eq_some_iff.1 h
      rfl
  | pipeRd =>
      obtain ⟨q, -, rfl⟩ := Option.map_eq_some_iff.1 h
      rfl
  | pipeWr =>
      obtain ⟨q, -, rfl⟩ := Option.map_eq_some_iff.1 h
      rfl

theorem closeObj_fds (closes : ℤ → Bool) (s : State) (o : Obj) :
    (closeObj closes s o).1.fds = s.fds := by
  obtain ⟨f, i⟩ := o
  cases f with
  | fsif =>
      simp only [closeObj]
      cases s.files i with
      | none => rfl
      | some n =>
          simp only
          split_ifs <;> rfl
  | pipeRd =>
      simp only [closeObj]
      split_ifs <;> rfl
  | pipeWr =>
      simp only [closeObj]
      split_ifs <;> rfl

theorem closeObj_snd_iff : (closeObj closes s o).2 = true ↔ Closable closes s o := by
  obtain ⟨f, i⟩ := o
  cases f with
  | fsif =>
      simp only [closeObj, Closable]
      cases hfile : s.files i with
      | none => simp
      | some n =>
          simp only [Option.some.injEq, exists_eq_left']
          -- a count that is not positive is left alone
          by_cases hpos : 0 < n
          · rw [if_pos hpos]
            by_cases hmore : 0 < n - 1
            · rw [if_pos hmore]
              exact iff_of_true rfl (Or.inl (by omega))
            · rw [if_neg hmore]
              have hone : ¬1 < n := by omega
              cases closes i <;> simp [hone]
          · rw [if_neg hpos, if_neg hpos]
            have hone : ¬1 < n := by omega
            cases closes i <;> simp [hone]
  | pipeRd =>
      simp only [closeObj, Closable]
      cases first Pipe.id i s.pipes <;> simp
  | pipeWr =>
      simp only [closeObj, Closable]
      cases first Pipe.id i s.pipes <;> simp

/-- `sys_close` of a slot, by what it refers to. -/
theorem closeSlot_eq (closes : ℤ → Bool) (s : State) (y : Slot) :
    closeSlot closes s y =
      match heldBy (s.fds y) with
      | none => (s, false)
      | some o =>
          if (closeObj closes s o).2 then ((closeObj closes s o).1.setFd y FileFd.empty, true)
          else ((closeObj closes s o).1, false) := by
  unfold closeSlot heldBy
  cases hbad : (s.fds y).isBad with
  | true => rfl
  | false =>
      cases (s.fds y).fsal with
      | none => rfl
      | some f => rfl

theorem closeSlot_fds (hz : z ≠ y) : (closeSlot closes s y).1.fds z = s.fds z := by
  rw [closeSlot_eq]
  cases heldBy (s.fds y) with
  | none => rfl
  | some o =>
      simp only
      split_ifs
      · rw [setFd_fds, Function.update_of_ne hz, closeObj_fds]
      · rw [closeObj_fds]

theorem localFdInstall_error {resid : ℤ} {type base : ℕ}
    (h : (localFdInstall s p resid type base).2 < 0) :
    (localFdInstall s p resid type base).1 = s := by
  rcases localFdInstall_cases s p resid type base with ⟨heq, -⟩ | ⟨i, -, -, -, heq⟩
  · rw [heq]
  · rw [heq] at h
    exact absurd h (by simp)

theorem dupSlot_error {base : ℕ} (h : (dupSlot s x base).2 < 0) :
    (dupSlot s x base).1.fds = s.fds := by
  unfold dupSlot at h ⊢
  cases hincref : (s.fds x).fsal.bind fun f => incref s (f, (s.fds x).handle) with
  | none => rfl
  | some s' =>
      rw [hincref] at h
      obtain ⟨f, -, hf⟩ := Option.bind_eq_some_iff.1 hincref
      simp only at h ⊢
      rw [localFdInstall_error h, incref_fds hf]

/-- **An error changes no descriptor but the new one.** -/
theorem sysDup2_error {oldfd newfd : ℤ} (h : (sysDup2 closes s p oldfd newfd).2 < 0)
    (hz : fdLocalToFile p newfd ≠ some z) : (sysDup2 closes s p oldfd newfd).1.fds z = s.fds z := by
  unfold sysDup2 at h ⊢
  cases hopen : openSlot s p oldfd with
  | none => rfl
  | some x =>
      rw [hopen] at h
      simp only at h ⊢
      split_ifs at h ⊢ with heq
      · rfl
      · cases hnew : (fdLocalToFile p newfd).filter fun y =>
          decide (0 ≤ (s.fds y).handle ∧ (s.fds y).flags ≠ 0) with
        | none =>
            rw [hnew] at h
            simp only at h ⊢
            rw [dupSlot_error h]
        | some y =>
            have hy : z ≠ y := by
              rintro rfl
              exact hz (Option.filter_eq_some_iff.1 hnew).1
            rw [hnew] at h
            simp only at h ⊢
            split_ifs at h ⊢
            · rw [dupSlot_error h, closeSlot_fds hy]
            · exact closeSlot_fds hy

/-! ## Where the object is installed -/

/-- The lowest free descriptor. -/
theorem fsalFdAlloc_zero_iff {j : Fin localFileOpenNr} :
    fsalFdAlloc s p 0 = some j ↔ (s.fds (p, j)).flags = 0 ∧ ∀ k < j, (s.fds (p, k)).flags ≠ 0 := by
  unfold fsalFdAlloc
  rw [List.find?_eq_some_iff_getElem]
  simp only [Nat.zero_le, decide_true, Bool.true_and, decide_eq_true_eq, List.getElem_finRange,
    Bool.not_eq_true', decide_eq_false_iff_not, List.length_finRange]
  refine and_congr_right fun _ => ⟨?_, fun hlower => ?_⟩
  · rintro ⟨i, hi, rfl, hlower⟩ k hk
    exact hlower k.val hk
  · exact ⟨j.val, j.isLt, rfl, fun k hk => hlower ⟨k, by omega⟩ hk⟩

/-- The type of what is installed. -/
theorem installedFd_type (resid : ℤ) (flags : ℕ) :
    (installedFd resid (flags &&& fileFdTypeMask)).flags &&& fileFdTypeMask =
      flags &&& fileFdTypeMask := by
  have hused : fileFdIsUsed &&& fileFdTypeMask = 0 := by decide
  change (fileFdIsUsed ||| (flags &&& fileFdTypeMask)) &&& fileFdTypeMask = _
  rw [Nat.and_or_distrib_right, hused, Nat.zero_or, Nat.and_assoc, Nat.and_self]

theorem nonneg_of_not_bad (hbad : (s.fds x).isBad = false) : 0 ≤ (s.fds x).handle := by
  unfold FileFd.isBad at hbad
  simp only [Bool.or_eq_false_iff, decide_eq_false_iff_not, not_lt] at hbad
  exact hbad.1.1

/-- The last part of the call, in a state in which the other descriptors are as they were. -/
theorem dupSlot_eq (hx : s₁.fds x = s.fds x) (hcount : CountedOnce s₁ (s.fds x) s₂) (base : ℕ) :
    dupSlot s₁ x base =
      localFdInstall s₂ x.1 (s.fds x).handle ((s.fds x).flags &&& fileFdTypeMask) base := by
  unfold CountedOnce at hcount
  unfold dupSlot
  rw [hx, hcount]

/-- The descriptor that is found free is the one that is installed. -/
theorem localFdInstall_of_alloc {resid : ℤ} {type base : ℕ} {j : Fin localFileOpenNr}
    (hpos : 0 ≤ resid) (hlt : resid < fsalFileOpenNr) (halloc : fsalFdAlloc s p base = some j) :
    localFdInstall s p resid type base = (s.setFd (p, j) (installedFd resid type),
      (j.val : ℤ)) := by
  unfold localFdInstall
  rw [if_neg (by omega), halloc]

/-- When a descriptor is installed. -/
theorem localFdInstall_eq_iff {resid : ℤ} {type base : ℕ} {j : Fin localFileOpenNr}
    (hpos : 0 ≤ resid) :
    (localFdInstall s p resid type base).2 = (j.val : ℤ) ↔
      resid < fsalFileOpenNr ∧ fsalFdAlloc s p base = some j := by
  constructor
  · intro h
    unfold localFdInstall at h
    split_ifs at h with hrange
    · simp only at h
      omega
    · cases halloc : fsalFdAlloc s p base with
      | none =>
          rw [halloc] at h
          simp only at h
          omega
      | some i =>
          rw [halloc] at h
          exact ⟨by omega, congrArg some (Fin.ext (Int.ofNat_inj.1 h))⟩
  · rintro ⟨hlt, halloc⟩
    rw [localFdInstall_of_alloc hpos hlt halloc]

/-- What is installed in the new descriptor refers to what the old one does. -/
theorem duplicates_installed (hothers : ∀ z, z ≠ y → s₁.fds z = s.fds z)
    (hclosed : ClosedOnce closes s y s₁)
    (hcount : CountedOnce s₁ (s.fds x) s₂) (hfds : s₂.fds = s₁.fds)
    (hfsal : filefdFsal ((s.fds x).flags &&& fileFdTypeMask) = (s.fds x).fsal) :
    Duplicates closes s x y
      (s₂.setFd y (installedFd (s.fds x).handle ((s.fds x).flags &&& fileFdTypeMask)),
        (y.2.val : ℤ)) := by
  refine ⟨rfl, ?_, ?_, ?_, fun _ => ⟨s₁, s₂, hclosed, hcount, rfl, rfl⟩, fun z hz => ?_⟩
  · rw [setFd_fds, Function.update_self]
    rfl
  · rw [setFd_fds, Function.update_self]
    exact installedFd_type _ _
  · rw [setFd_fds, Function.update_self]
    exact hfsal
  · rw [setFd_fds, Function.update_of_ne hz, hfds, hothers z hz]

/-- **Installing gives the new descriptor exactly if it is the lowest free one.** -/
theorem dupSlot_duplicates_iff (hp : x.1 = y.1) (hxy : x ≠ y) (hbad : (s.fds x).isBad = false)
    (hothers : ∀ z, z ≠ y → s₁.fds z = s.fds z) (hclosed : ClosedOnce closes s y s₁)
    (hcount : CountedOnce s₁ (s.fds x) s₂) :
    Duplicates closes s x y (dupSlot s₁ x 0) ↔
      (∀ k < y.2, (s.fds (y.1, k)).flags ≠ 0) ∧ (s₁.fds y).flags = 0 ∧
        (s.fds x).handle < fsalFileOpenNr ∧
        filefdFsal ((s.fds x).flags &&& fileFdTypeMask) = (s.fds x).fsal := by
  have hfds : s₂.fds = s₁.fds := by
    obtain ⟨f, -, hf⟩ := Option.bind_eq_some_iff.1 hcount
    exact incref_fds hf
  have halloc : fsalFdAlloc s₂ y.1 0 = some y.2 ↔
      (s₁.fds y).flags = 0 ∧ ∀ k < y.2, (s.fds (y.1, k)).flags ≠ 0 := by
    rw [fsalFdAlloc_zero_iff, hfds]
    refine and_congr_right fun _ => forall₂_congr fun k hk => ?_
    rw [hothers (y.1, k) fun heq => hk.ne (congrArg Prod.snd heq)]
  have hpos := nonneg_of_not_bad hbad
  rw [dupSlot_eq (hothers x hxy) hcount, hp]
  constructor
  · intro h
    obtain ⟨hlt, hfound⟩ := (localFdInstall_eq_iff hpos).1 h.returned
    obtain ⟨hfree, hlower⟩ := halloc.1 hfound
    have hfsal := h.fsal
    rw [localFdInstall_of_alloc hpos hlt hfound, setFd_fds, Function.update_self] at hfsal
    exact ⟨hlower, hfree, hlt, hfsal⟩
  · rintro ⟨hlower, hfree, hlt, hfsal⟩
    rw [localFdInstall_of_alloc hpos hlt (halloc.2 ⟨hfree, hlower⟩)]
    exact duplicates_installed hothers hclosed hcount hfds hfsal

theorem openSlot_val {i : Fin localFileOpenNr} (hbad : (s.fds (p, i)).isBad = false) :
    openSlot s p i.val = some (p, i) := by
  unfold openSlot
  rw [fdLocalToFile_val, Option.filter_some, hbad]
  rfl

/-- A descriptor is duplicated to itself. -/
theorem sysDup2_self {i : Fin localFileOpenNr} (hbad : (s.fds (p, i)).isBad = false) :
    sysDup2 closes s p i.val i.val = (s, (i.val : ℤ)) := by
  unfold sysDup2
  rw [openSlot_val hbad]
  simp only [if_true]

/-- A descriptor is duplicated to another. -/
theorem sysDup2_of_ne {i j : Fin localFileOpenNr} (hbad : (s.fds (p, i)).isBad = false)
    (hij : i ≠ j) :
    sysDup2 closes s p i.val j.val =
      if 0 ≤ (s.fds (p, j)).handle ∧ (s.fds (p, j)).flags ≠ 0 then
        if (closeSlot closes s (p, j)).2 then dupSlot (closeSlot closes s (p, j)).1 (p, i) 0
        else ((closeSlot closes s (p, j)).1, -1)
      else dupSlot s (p, i) 0 := by
  have hne : (i.val : ℤ) ≠ j.val := fun heq => hij (Fin.ext (Int.ofNat_inj.1 heq))
  unfold sysDup2
  rw [openSlot_val hbad]
  simp only [if_neg hne, fdLocalToFile_val, Option.filter_some, decide_eq_true_eq]
  by_cases hopen : 0 ≤ (s.fds (p, j)).handle ∧ (s.fds (p, j)).flags ≠ 0
  · rw [if_pos hopen, if_pos hopen]
  · rw [if_neg hopen, if_neg hopen]

/-- A call that does not return the new descriptor keeps no promise. -/
theorem not_duplicates_neg {r : State} : ¬Duplicates closes s x y (r, -1) := by
  intro h
  have hreturned := h.returned
  simp only at hreturned
  omega

theorem heldBy_eq_none (h : ¬(0 ≤ (s.fds y).handle ∧ (s.fds y).flags ≠ 0)) :
    heldBy (s.fds y) = none := by
  have hbad : (s.fds y).isBad = true := by
    unfold FileFd.isBad
    simp only [Bool.or_eq_true, decide_eq_true_eq]
    rcases not_and_or.1 h with hneg | hzero
    · exact Or.inl (Or.inl (not_le.1 hneg))
    · exact Or.inl (Or.inr (not_not.1 hzero))
  rw [heldBy, if_pos hbad]

/-- The new descriptor looks open: it is closed first. -/
theorem dup2_open_iff (hp : x.1 = y.1) (hxy : x ≠ y) (hbad : (s.fds x).isBad = false)
    (hopen : 0 ≤ (s.fds y).handle ∧ (s.fds y).flags ≠ 0)
    (hcount : CountedOnce (closeSlot closes s y).1 (s.fds x) s₂) :
    Duplicates closes s x y
        (if (closeSlot closes s y).2 then
          dupSlot (closeSlot closes s y).1 x 0 else ((closeSlot closes s y).1, -1)) ↔
      Lands closes s x y := by
  rw [closeSlot_eq] at hcount ⊢
  cases hheld : heldBy (s.fds y) with
  | none =>
      -- it looks open, but has no operations
      refine iff_of_false not_duplicates_neg fun h => ?_
      rcases h.free with hzero | ⟨o, ho, -⟩
      · exact hopen.2 hzero
      · rw [hheld] at ho
        cases ho
  | some o =>
      rw [hheld] at hcount
      simp only at hcount ⊢
      by_cases hclosable : Closable closes s o
      · have hclose := closeObj_snd_iff.2 hclosable
        rw [if_pos hclose] at hcount ⊢
        have hclosed : ClosedOnce closes s y ((closeObj closes s o).1.setFd y FileFd.empty) := by
          unfold ClosedOnce
          rw [hheld]
          exact ⟨_, Prod.ext rfl hclose, rfl⟩
        have hothers : ∀ z, z ≠ y → ((closeObj closes s o).1.setFd y FileFd.empty).fds z =
            s.fds z := by
          intro z hz
          rw [setFd_fds, Function.update_of_ne hz, closeObj_fds]
        rw [if_pos rfl, dupSlot_duplicates_iff hp hxy hbad hothers hclosed hcount]
        constructor
        · rintro ⟨hlower, -, hhandle, hfsal⟩
          exact ⟨hlower, Or.inr ⟨o, hheld, hclosable⟩, hhandle, hfsal⟩
        · intro h
          refine ⟨h.lower, ?_, h.handle, h.fsal⟩
          rw [setFd_fds, Function.update_self]
          rfl
      · have hclose : ¬(closeObj closes s o).2 = true :=
          fun htrue => hclosable (closeObj_snd_iff.1 htrue)
        rw [if_neg hclose, if_neg (by simp)]
        refine iff_of_false not_duplicates_neg fun h => ?_
        rcases h.free with hzero | ⟨o', ho', hclosable'⟩
        · exact hopen.2 hzero
        · rw [hheld, Option.some.injEq] at ho'
          exact hclosable (ho' ▸ hclosable')

/-- The new descriptor does not look open: nothing is closed. -/
theorem dup2_closed_iff (hp : x.1 = y.1) (hxy : x ≠ y) (hbad : (s.fds x).isBad = false)
    (hopen : ¬(0 ≤ (s.fds y).handle ∧ (s.fds y).flags ≠ 0)) (hcount : CountedOnce s (s.fds x) s₂) :
    Duplicates closes s x y (dupSlot s x 0) ↔ Lands closes s x y := by
  have hheld := heldBy_eq_none hopen
  have hclosed : ClosedOnce closes s y s := by
    unfold ClosedOnce
    rw [hheld]
  rw [dupSlot_duplicates_iff hp hxy hbad (fun _ _ => rfl) hclosed hcount]
  constructor
  · rintro ⟨hlower, hfree, hhandle, hfsal⟩
    exact ⟨hlower, Or.inl hfree, hhandle, hfsal⟩
  · intro h
    refine ⟨h.lower, ?_, h.handle, h.fsal⟩
    rcases h.free with hzero | ⟨o, ho, -⟩
    · exact hzero
    · rw [hheld] at ho
      cases ho

/-- **When a descriptor is duplicated to a different one.** -/
theorem sysDup2_duplicates_iff {i j : Fin localFileOpenNr} (hij : i ≠ j)
    (hbad : (s.fds (p, i)).isBad = false) (hincref : Increfs closes s (p, i) (p, j)) :
    Duplicates closes s (p, i) (p, j) (sysDup2 closes s p i.val j.val) ↔
      Lands closes s (p, i) (p, j) := by
  have hxy : ((p, i) : Slot) ≠ (p, j) := fun heq => hij (congrArg Prod.snd heq)
  have hp : ((p, i) : Slot).1 = ((p, j) : Slot).1 := rfl
  obtain ⟨s₂, hcount⟩ := hincref
  unfold countingState at hcount
  rw [sysDup2_of_ne hbad hij]
  by_cases hopen : 0 ≤ (s.fds (p, j)).handle ∧ (s.fds (p, j)).flags ≠ 0
  · rw [if_pos ⟨hxy, hopen⟩] at hcount
    rw [if_pos hopen]
    exact dup2_open_iff hp hxy hbad hopen hcount
  · rw [if_neg fun h => hopen h.2] at hcount
    rw [if_neg hopen]
    exact dup2_closed_iff hp hxy hbad hopen hcount

/-- A descriptor that is duplicated to itself stays as it is. -/
theorem sysDup2_duplicates_self {i : Fin localFileOpenNr} (hbad : (s.fds (p, i)).isBad = false) :
    Duplicates closes s (p, i) (p, i) (sysDup2 closes s p i.val i.val) := by
  rw [sysDup2_self hbad]
  exact ⟨rfl, rfl, rfl, rfl, fun h => absurd rfl h, fun _ _ => rfl⟩

end Dup2

/-- **When `sys_dup2` does what is promised**: the descriptors are the same, or the new one is the
lowest free one once what it had is closed.  An error changes no other descriptor. -/
theorem sysDup2_iff (closes : ℤ → Bool) (s : State) (p : ℕ) :
    (∀ i j : Fin localFileOpenNr, (s.fds (p, i)).isBad = false → Increfs closes s (p, i) (p, j) →
      (Duplicates closes s (p, i) (p, j) (sysDup2 closes s p i.val j.val) ↔
        i = j ∨ Lands closes s (p, i) (p, j))) ∧
    (∀ oldfd newfd, (sysDup2 closes s p oldfd newfd).2 < 0 → ∀ z, fdLocalToFile p newfd ≠ some z →
      (sysDup2 closes s p oldfd newfd).1.fds z = s.fds z) := by
  refine ⟨fun i j hbad hincref => ?_, fun oldfd newfd h z hz => sysDup2_error h hz⟩
  by_cases hij : i = j
  · subst hij
    exact iff_of_true (sysDup2_duplicates_self hbad) (Or.inl rfl)
  · rw [sysDup2_duplicates_iff hij hbad hincref]
    exact ⟨Or.inr, fun h => h.resolve_left hij⟩

/-- A process with the first file open as descriptor 0. -/
def oneOpen : State := (sysOpen (boot {0}) 0 true).1

/-- Descriptor 0 is duplicated to 1, the lowest free one. -/
theorem sysDup2_one :
    Duplicates (fun _ => true) oneOpen (0, ⟨0, by decide⟩) (0, ⟨1, by decide⟩)
      (sysDup2 (fun _ => true) oneOpen 0 0 1) := by
  have hincref : Increfs (fun _ => true) oneOpen (0, ⟨0, by decide⟩) (0, ⟨1, by decide⟩) := ⟨_, rfl⟩
  have hiff := (sysDup2_iff (fun _ => true) oneOpen 0).1 ⟨0, by decide⟩ ⟨1, by decide⟩
    (by decide) hincref
  refine hiff.2 (Or.inr ⟨?_, ?_, ?_, ?_⟩)
  · decide
  · exact Or.inl (by decide)
  · decide
  · decide

/-- Descriptor 0 is duplicated to 5, and installed as 1. -/
theorem sysDup2_not_duplicates :
    ¬∀ (closes : ℤ → Bool) (s : State) (p : ℕ) (i j : Fin localFileOpenNr),
    (s.fds (p, i)).isBad = false → Increfs closes s (p, i) (p, j) →
      Duplicates closes s (p, i) (p, j) (sysDup2 closes s p i.val j.val) := by
  intro h
  have hincref : Increfs (fun _ => true) oneOpen (0, ⟨0, by decide⟩) (0, ⟨5, by decide⟩) := ⟨_, rfl⟩
  have hfive := (h (fun _ => true) oneOpen 0 ⟨0, by decide⟩ ⟨5, by decide⟩
    (by decide) hincref).returned
  revert hfive
  decide

end Fd
end LightOS
