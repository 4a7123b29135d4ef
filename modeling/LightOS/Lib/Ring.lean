import Mathlib

/-!
# Circular buffers

A memory is a function from indices to values.  A transfer of `n` values into a
circular buffer of `size` cells from index `off` on is done as two block copies,
up to the end of the buffer and from its beginning; this file says cell by cell
what such a pair of copies does, and reads the contents of a circular buffer off
as a list.

* `ringWrite_apply`, `ringRead_apply` — the two transfers, cell by cell.
* `contents_ringWrite`, `contents_drop` — what they do to the contents of the buffer.
* `contents_push`, `contents_succ` — the contents one value at a time.
-/

namespace Ring

variable {α : Type}

/-- Copy `n` values of `src` to `dst`, from index `off` on. -/
def memcpy (dst : ℕ → α) (off : ℕ) (src : ℕ → α) (n : ℕ) : ℕ → α :=
  fun i => if off ≤ i ∧ i < off + n then src (i - off) else dst i

theorem memcpy_of_mem {dst src : ℕ → α} {off n i : ℕ} (h : off ≤ i) (h' : i < off + n) :
    memcpy dst off src n i = src (i - off) := if_pos ⟨h, h'⟩

theorem memcpy_of_not_mem {dst src : ℕ → α} {off n i : ℕ} (h : ¬ (off ≤ i ∧ i < off + n)) :
    memcpy dst off src n i = dst i := if_neg h

/-- Write `n` values into a circular buffer: up to its end, then from its start. -/
def ringWrite (buf : ℕ → α) (size off : ℕ) (src : ℕ → α) (n : ℕ) : ℕ → α :=
  let l := min n (size - off)
  memcpy (memcpy buf off src l) 0 (fun i => src (l + i)) (n - l)

/-- Read `n` values of a circular buffer to the start of `dst`. -/
def ringRead (dst buf : ℕ → α) (size off n : ℕ) : ℕ → α :=
  let l := min n (size - off)
  memcpy (memcpy dst 0 (fun i => buf (off + i)) l) l buf (n - l)

/-- A residue of something less than twice the modulus. -/
theorem mod_of_lt_two_mul {x s : ℕ} (h : x < 2 * s) : x % s = if x < s then x else x - s := by
  split_ifs with hx
  · exact Nat.mod_eq_of_lt hx
  · rw [Nat.mod_eq_sub_mod (by omega), Nat.mod_eq_of_lt (by omega)]

/-- Where the two copies of a write land: the cell `d` places after the start
gets value `d`, the cells further on are kept. -/
theorem ringWrite_apply (buf src : ℕ → α) {size off n d : ℕ} (hoff : off < size) (hn : n ≤ size)
    (hd : d < size) :
    ringWrite buf size off src n ((off + d) % size) =
      if d < n then src d else buf ((off + d) % size) := by
  rw [mod_of_lt_two_mul (show off + d < 2 * size by omega), ringWrite]
  by_cases hwrap : off + d < size
  · rw [if_pos hwrap, memcpy_of_not_mem (by omega)]
    by_cases hdn : d < n
    · rw [if_pos hdn, memcpy_of_mem (by omega) (by omega), Nat.add_sub_cancel_left]
    · rw [if_neg hdn, memcpy_of_not_mem (by omega)]
  · rw [if_neg hwrap]
    by_cases hdn : d < n
    · rw [if_pos hdn, memcpy_of_mem (by omega) (by omega)]
      congr 1
      omega
    · rw [if_neg hdn, memcpy_of_not_mem (by omega), memcpy_of_not_mem (by omega)]

/-- A write does not leave the buffer. -/
theorem ringWrite_outside (buf src : ℕ → α) {size off n i : ℕ} (hoff : off < size)
    (hn : n ≤ size) (hi : size ≤ i) : ringWrite buf size off src n i = buf i := by
  rw [ringWrite, memcpy_of_not_mem (by omega), memcpy_of_not_mem (by omega)]

theorem ringRead_apply (dst buf : ℕ → α) {size off n : ℕ} (hoff : off < size) (hn : n ≤ size)
    (i : ℕ) :
    ringRead dst buf size off n i = if i < n then buf ((off + i) % size) else dst i := by
  rw [ringRead]
  by_cases hin : i < n
  · rw [if_pos hin, mod_of_lt_two_mul (show off + i < 2 * size by omega)]
    by_cases hl : i < min n (size - off)
    · rw [memcpy_of_not_mem (by omega), memcpy_of_mem (by omega) (by omega), if_pos (by omega),
        Nat.sub_zero]
    · rw [memcpy_of_mem (by omega) (by omega), if_neg (by omega)]
      congr 1
      omega
  · rw [if_neg hin, memcpy_of_not_mem (by omega), memcpy_of_not_mem (by omega)]

/-! ## Contents -/

/-- The `n` values of a circular buffer from index `out` on. -/
def contents (buf : ℕ → α) (size out n : ℕ) : List α :=
  (List.range n).map fun j => buf ((out + j) % size)

@[simp] theorem length_contents (buf : ℕ → α) (size out n : ℕ) :
    (contents buf size out n).length = n := by simp [contents]

/-- Writing behind the contents appends. -/
theorem contents_ringWrite (buf src : ℕ → α) {size out used n : ℕ} (hpos : 0 < size)
    (hroom : used + n ≤ size) :
    contents (ringWrite buf size ((out + used) % size) src n) size out (used + n) =
      contents buf size out used ++ (List.range n).map src := by
  have hoff := Nat.mod_lt (out + used) hpos
  apply List.ext_getElem (by simp)
  intro j hj hj'
  simp only [length_contents] at hj
  simp only [contents, List.getElem_map, List.getElem_range]
  by_cases hlow : j < used
  · rw [List.getElem_append_left (by simpa using hlow), List.getElem_map, List.getElem_range]
    -- seen from the place of the write, an old cell is further on than what is written
    have hcell : (out + j) % size = ((out + used) % size + (size - used + j)) % size := by
      rw [Nat.mod_add_mod, show out + used + (size - used + j) = out + j + size by omega,
        Nat.add_mod_right]
    rw [hcell]
    by_cases hfull : size - used + j < size
    · rw [ringWrite_apply buf src hoff (by omega) hfull, if_neg (by omega)]
    · omega
  · rw [List.getElem_append_right (by simpa using hlow), List.getElem_map, List.getElem_range]
    have hcell : (out + j) % size = ((out + used) % size + (j - used)) % size := by
      rw [Nat.mod_add_mod, show out + used + (j - used) = out + j by omega]
    rw [hcell, ringWrite_apply buf src hoff (by omega) (by omega), if_pos (by omega)]
    simp

/-- Advancing the start drops. -/
theorem contents_drop (buf : ℕ → α) (size out n k : ℕ) :
    (contents buf size out n).drop k = contents buf size (out + k) (n - k) := by
  apply List.ext_getElem (by simp)
  intro j hj hj'
  simp [contents, Nat.add_assoc]

/-- Storing one value behind the contents appends it. -/
theorem contents_push (buf : ℕ → α) (v : α) {size out used : ℕ} (hroom : used < size) :
    contents (Function.update buf ((out + used) % size) v) size out (used + 1) =
      contents buf size out used ++ [v] := by
  rw [contents, List.range_succ, List.map_append, List.map_singleton, Function.update_self]
  congr 1
  refine List.map_congr_left fun j hj => Function.update_of_ne (fun hcell => ?_) _ _
  -- two places of the ring that are less than its size apart are different cells
  have hj := List.mem_range.1 hj
  have hcongr : j % size = used % size := Nat.ModEq.add_left_cancel' out hcell
  rw [Nat.mod_eq_of_lt (by omega), Nat.mod_eq_of_lt hroom] at hcongr
  omega

/-- The first of the contents. -/
theorem contents_succ (buf : ℕ → α) (size out n : ℕ) :
    contents buf size out (n + 1) = buf (out % size) :: contents buf size (out + 1) n := by
  rw [contents, List.range_succ_eq_map, List.map_cons, List.map_map, Nat.add_zero]
  congr 1
  refine List.map_congr_left fun j _ => ?_
  rw [Function.comp_apply, Nat.add_succ, ← Nat.succ_add]

/-- The contents depend on the start only modulo the size of the buffer. -/
theorem contents_congr (buf : ℕ → α) {size out out' : ℕ} (h : out % size = out' % size) (n : ℕ) :
    contents buf size out n = contents buf size out' n := by
  unfold contents
  apply List.map_congr_left
  intro j _
  rw [Nat.add_mod, h, ← Nat.add_mod]

end Ring
