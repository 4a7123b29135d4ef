import Mathlib

/-!
# Counting the holders of a resource

Every party holds at most one resource: `f : τ → Option π`.  This file follows the number of
holders of a resource while one party at a time takes a resource or gives it up.

* `ncard_take`, `ncard_leave` — the count goes up or down by one.
* `holders_take_of_ne`, `holders_leave_of_ne` — the other resources keep their holders.
-/

namespace Holders

variable {τ π : Type} [DecidableEq τ] {f : τ → Option π} {t : τ} {p q : π}

/-- The parties that hold `p`. -/
def holders (f : τ → Option π) (p : π) : Set τ := {t | f t = some p}

/-- Party `t` takes `p`. -/
def take (f : τ → Option π) (t : τ) (p : π) : τ → Option π := Function.update f t (some p)

/-- Party `t` gives up what it holds. -/
def leave (f : τ → Option π) (t : τ) : τ → Option π := Function.update f t none

omit [DecidableEq τ] in
theorem mem_holders : t ∈ holders f p ↔ f t = some p := Iff.rfl

theorem take_eq_some {u : τ} : take f t p u = some q ↔ u = t ∧ p = q ∨ u ≠ t ∧ f u = some q := by
  unfold take
  by_cases h : u = t
  · rw [h, Function.update_self]
    simp
  · rw [Function.update_of_ne h]
    simp [h]

theorem leave_eq_some {u : τ} : leave f t u = some q ↔ u ≠ t ∧ f u = some q := by
  unfold leave
  by_cases h : u = t
  · rw [h, Function.update_self]
    simp
  · rw [Function.update_of_ne h]
    simp [h]

theorem holders_take : holders (take f t p) p = insert t (holders f p) := by
  ext u
  rw [mem_holders, take_eq_some, Set.mem_insert_iff, mem_holders]
  by_cases h : u = t <;> simp [h]

theorem holders_take_of_ne (hfree : f t = none) (hne : q ≠ p) :
    holders (take f t p) q = holders f q := by
  ext u
  rw [mem_holders, take_eq_some, mem_holders]
  by_cases h : u = t
  · simp [h, hfree, hne.symm]
  · simp [h]

theorem holders_leave : holders (leave f t) q = holders f q \ {t} := by
  ext u
  rw [mem_holders, leave_eq_some, Set.mem_sdiff, mem_holders, Set.mem_singleton_iff, and_comm]

theorem holders_leave_of_ne (hheld : f t = some p) (hne : q ≠ p) :
    holders (leave f t) q = holders f q := by
  rw [holders_leave, Set.sdiff_singleton_eq_self]
  rw [mem_holders, hheld, Option.some.injEq]
  exact hne.symm

/-- One holder more. -/
theorem ncard_take (hfin : (holders f p).Finite) (hfree : f t = none) :
    (holders (take f t p) p).ncard = (holders f p).ncard + 1 := by
  rw [holders_take, Set.ncard_insert_of_notMem _ hfin]
  rw [mem_holders, hfree]
  simp

/-- One holder less. -/
theorem ncard_leave (hfin : (holders f p).Finite) (hheld : f t = some p) :
    (holders (leave f t) p).ncard + 1 = (holders f p).ncard := by
  rw [holders_leave]
  exact Set.ncard_sdiff_singleton_add_one hheld hfin

end Holders
