import Mathlib

/-!
# Steps of a constant slope in fixed point

A program that walks along a slope adds a constant `f` in units of `1 / q` and drops the fraction
where it needs a whole number.  After `i` steps it is at `⌊i * f / q⌋`.

* `walk_mono`, `walk_anti` — the walk never turns round.
* `walk_step` — a slope of at most one moves by at most one.
* `walk_eq_iff` — when a place is reached.
-/

namespace FixedPoint

variable {q f i j v : ℤ}

/-- The place after `i` steps. -/
def walk (q f i : ℤ) : ℤ := i * f / q

@[simp] theorem walk_zero (q f : ℤ) : walk q f 0 = 0 := by simp [walk]

theorem walk_eq_iff (hq : 0 < q) : walk q f i = v ↔ v * q ≤ i * f ∧ i * f < (v + 1) * q := by
  unfold walk
  rw [← Int.le_ediv_iff_mul_le hq, ← Int.ediv_lt_iff_lt_mul hq]
  omega

theorem walk_mono (hq : 0 < q) (hf : 0 ≤ f) (hij : i ≤ j) : walk q f i ≤ walk q f j :=
  Int.ediv_le_ediv hq (mul_le_mul_of_nonneg_right hij hf)

theorem walk_anti (hq : 0 < q) (hf : f ≤ 0) (hij : i ≤ j) : walk q f j ≤ walk q f i :=
  Int.ediv_le_ediv hq (mul_le_mul_of_nonpos_right hij hf)

/-- A slope of at most one moves by at most one. -/
theorem walk_step (hq : 0 < q) (hf : |f| ≤ q) (i : ℤ) : |walk q f (i + 1) - walk q f i| ≤ 1 := by
  obtain ⟨hlow, hhigh⟩ := abs_le.1 hf
  have hup : walk q f (i + 1) ≤ walk q f i + 1 := by
    unfold walk
    rw [← Int.add_mul_ediv_right _ _ (ne_of_gt hq)]
    apply Int.ediv_le_ediv hq
    linarith
  have hdown : walk q f i - 1 ≤ walk q f (i + 1) := by
    rw [sub_eq_add_neg]
    unfold walk
    rw [← Int.add_mul_ediv_right _ _ (ne_of_gt hq)]
    apply Int.ediv_le_ediv hq
    linarith
  rw [abs_le]
  constructor <;> linarith

end FixedPoint
