import Mathlib

/-!
# Threads at control points

Any number of threads run at once; `pc : ι → κ` says where each of them is.  A set `P` of control
points is a region of their program.  This file follows who is in a region while one thread at a
time moves.

* `Guards` — a lock is taken exactly while a thread is in its region, and never two are.
* `Guards.keep`, `Guards.acquire`, `Guards.release` — a thread stays on its side, enters, leaves.
* `ncard_enter`, `ncard_leave` — the number of threads in a region goes up or down by one;
  `ncard_move` is any move.
* `Crosses` — what a move does to a region, as a condition that can be checked at every control
  point; `Guards.cross` follows the lock.
-/

namespace Threads

variable {ι κ : Type} {pc pc' : ι → κ} {P : κ → Prop} {t u : ι} {k : κ} {locked locked' : Prop}

/-- The lock is taken exactly while a thread is in the region, and at most one thread is. -/
structure Guards (locked : Prop) (P : κ → Prop) (pc : ι → κ) : Prop where
  held : locked ↔ ∃ t, P (pc t)
  unique : ∀ t u, P (pc t) → P (pc u) → t = u

/-- Nobody is in the region of a lock that is free. -/
theorem Guards.not_mem (h : Guards locked P pc) (hfree : ¬locked) (t : ι) : ¬P (pc t) :=
  fun ht => hfree (h.held.2 ⟨t, ht⟩)

/-- Moves that cross no border of the region. -/
theorem Guards.congr (h : Guards locked P pc) (hsame : ∀ u, P (pc' u) ↔ P (pc u)) :
    Guards locked P pc' := by
  refine ⟨h.held.trans (exists_congr fun u => (hsame u).symm), fun t u ht hu => ?_⟩
  exact h.unique t u ((hsame t).1 ht) ((hsame u).1 hu)

/-- The threads in the region. -/
def inside (P : κ → Prop) (pc : ι → κ) : Set ι := {t | P (pc t)}

theorem mem_inside : t ∈ inside P pc ↔ P (pc t) := Iff.rfl

variable [DecidableEq ι]

theorem update_iff (hk : P k ↔ P (pc t)) (u : ι) : P (Function.update pc t k u) ↔ P (pc u) := by
  by_cases hut : u = t
  · rw [hut, Function.update_self]
    exact hk
  · rw [Function.update_of_ne hut]

/-- A thread stays on its side. -/
theorem Guards.keep (h : Guards locked P pc) (hk : P k ↔ P (pc t)) :
    Guards locked P (Function.update pc t k) := h.congr (update_iff hk)

/-- **A thread takes the lock** and enters. -/
theorem Guards.acquire (h : Guards locked P pc) (hfree : ¬locked) (hlocked : locked') (hk : P k) :
    Guards locked' P (Function.update pc t k) := by
  have honly : ∀ u, P (Function.update pc t k u) → u = t := by
    intro u hu
    by_contra hut
    rw [Function.update_of_ne hut] at hu
    exact h.not_mem hfree u hu
  refine ⟨⟨fun _ => ⟨t, ?_⟩, fun _ => hlocked⟩,
    fun u v hu hv => (honly u hu).trans (honly v hv).symm⟩
  rw [Function.update_self]
  exact hk

/-- **The thread in the region leaves** and gives the lock back. -/
theorem Guards.release (h : Guards locked P pc) (ht : P (pc t)) (hk : ¬P k) (hfree : ¬locked') :
    Guards locked' P (Function.update pc t k) := by
  have hnone : ∀ u, ¬P (Function.update pc t k u) := by
    intro u hu
    by_cases hut : u = t
    · rw [hut, Function.update_self] at hu
      exact hk hu
    · rw [Function.update_of_ne hut] at hu
      exact hut (h.unique u t hu ht)
  exact ⟨⟨fun hl => absurd hl hfree, fun ⟨u, hu⟩ => absurd hu (hnone u)⟩,
    fun u _ hu => absurd hu (hnone u)⟩

theorem inside_keep (hk : P k ↔ P (pc t)) : inside P (Function.update pc t k) = inside P pc :=
  Set.ext (update_iff hk)

theorem inside_enter (hk : P k) : inside P (Function.update pc t k) = insert t (inside P pc) := by
  ext u
  rw [mem_inside, Set.mem_insert_iff, mem_inside]
  by_cases hut : u = t
  · rw [hut, Function.update_self]
    exact iff_of_true hk (Or.inl rfl)
  · rw [Function.update_of_ne hut]
    exact ⟨Or.inr, fun h => h.resolve_left hut⟩

theorem inside_leave (hk : ¬P k) : inside P (Function.update pc t k) = inside P pc \ {t} := by
  ext u
  rw [mem_inside, Set.mem_sdiff, Set.mem_singleton_iff, mem_inside]
  by_cases hut : u = t
  · rw [hut, Function.update_self]
    exact iff_of_false hk fun h => h.2 rfl
  · rw [Function.update_of_ne hut]
    exact ⟨fun h => ⟨h, hut⟩, fun h => h.1⟩

/-- One thread more in the region. -/
theorem ncard_enter (hfin : (inside P pc).Finite) (ht : ¬P (pc t)) (hk : P k) :
    (inside P (Function.update pc t k)).Finite ∧
      (inside P (Function.update pc t k)).ncard = (inside P pc).ncard + 1 := by
  rw [inside_enter hk]
  exact ⟨hfin.insert t, Set.ncard_insert_of_notMem ht hfin⟩

/-- One thread less in the region. -/
theorem ncard_leave (hfin : (inside P pc).Finite) (ht : P (pc t)) (hk : ¬P k) :
    (inside P (Function.update pc t k)).Finite ∧
      (inside P (Function.update pc t k)).ncard + 1 = (inside P pc).ncard := by
  rw [inside_leave hk]
  exact ⟨hfin.subset Set.sdiff_subset, Set.ncard_sdiff_singleton_add_one ht hfin⟩

/-- **The number of threads in a region** after a move, for any region. -/
theorem ncard_move [DecidablePred P] (hfin : (inside P pc).Finite) :
    (inside P (Function.update pc t k)).Finite ∧
      ((inside P (Function.update pc t k)).ncard : ℤ) + (if P (pc t) then 1 else 0) =
        (inside P pc).ncard + if P k then 1 else 0 := by
  by_cases ht : P (pc t)
  · by_cases hk : P k
    · rw [inside_keep (iff_of_true hk ht), if_pos ht, if_pos hk]
      exact ⟨hfin, rfl⟩
    · obtain ⟨hfin', hcard⟩ := ncard_leave hfin ht hk
      rw [if_pos ht, if_neg hk]
      exact ⟨hfin', by omega⟩
  · by_cases hk : P k
    · obtain ⟨hfin', hcard⟩ := ncard_enter hfin ht hk
      rw [if_neg ht, if_pos hk]
      exact ⟨hfin', by omega⟩
    · rw [inside_keep (iff_of_false hk ht), if_neg ht, if_neg hk]
      exact ⟨hfin, rfl⟩

/-! ## Moves checked at control points -/

/-- From `p` to `q` the region is entered, left or kept. -/
def Crosses (P : κ → Prop) (enters leaves : Prop) [Decidable enters] [Decidable leaves] (p q : κ) :
    Prop :=
  if enters then ¬P p ∧ P q else if leaves then P p ∧ ¬P q else (P q ↔ P p)

instance (P : κ → Prop) [DecidablePred P] (enters leaves : Prop) [Decidable enters]
    [Decidable leaves] (p q : κ) : Decidable (Crosses P enters leaves p q) :=
  inferInstanceAs (Decidable (if enters then _ else if leaves then _ else _))

variable {enters leaves : Prop} [Decidable enters] [Decidable leaves]

/-- **The lock follows the thread.** -/
theorem Guards.cross (h : Guards locked P pc) (hcross : Crosses P enters leaves (pc t) k)
    (henter : enters → ¬locked ∧ locked') (hleave : ¬enters → leaves → ¬locked')
    (hkeep : ¬enters → ¬leaves → (locked' ↔ locked)) :
    Guards locked' P (Function.update pc t k) := by
  unfold Crosses at hcross
  split_ifs at hcross with he hl
  · exact h.acquire (henter he).1 (henter he).2 hcross.2
  · exact h.release hcross.1 hcross.2 (hleave he hl)
  · have hnew := h.keep hcross
    exact ⟨(hkeep he hl).trans hnew.held, hnew.unique⟩

/-- **The number of threads follows the thread.** -/
theorem ncard_cross (hfin : (inside P pc).Finite) (hcross : Crosses P enters leaves (pc t) k) :
    (inside P (Function.update pc t k)).Finite ∧
      ((inside P (Function.update pc t k)).ncard : ℤ) =
        if enters then ((inside P pc).ncard : ℤ) + 1
        else if leaves then ((inside P pc).ncard : ℤ) - 1 else ((inside P pc).ncard : ℤ) := by
  unfold Crosses at hcross
  split_ifs at hcross ⊢ with he hl
  · obtain ⟨hfin', hcard⟩ := ncard_enter hfin hcross.1 hcross.2
    exact ⟨hfin', by omega⟩
  · obtain ⟨hfin', hcard⟩ := ncard_leave hfin hcross.1 hcross.2
    exact ⟨hfin', by omega⟩
  · rw [inside_keep hcross]
    exact ⟨hfin, rfl⟩

end Threads
