import Mathlib

/-!
# Tilings of an initial segment by blocks

A block is a run of consecutive indices.  A list of blocks *tiles* the segment
`0, …, n - 1` when every index below `n` lies in exactly one block of the list
and no other index lies in any.  Counting the blocks an index lies in, rather
than asking for disjointness and coverage separately, makes the notion
invariant under permutation and additive under concatenation, so that moving a
block from one list to another, or cutting a block in two, is a rewriting step.

* `Tiles.perm`, `Tiles.halve`, `Tiles.extend` — the ways a tiling changes.
* `Tiles.pairwise_disjoint`, `Tiles.mem_iff`, `Tiles.sum_size` — what a tiling
  says in the usual words.
-/

namespace Tiling

/-- A run of `size` consecutive indices from `start`. -/
structure Block where
  start : ℕ
  size : ℕ
  deriving DecidableEq, Repr

/-- The index `p` lies in the block. -/
def Block.Has (b : Block) (p : ℕ) : Prop := b.start ≤ p ∧ p < b.start + b.size

instance (b : Block) (p : ℕ) : Decidable (b.Has p) := inferInstanceAs (Decidable (_ ∧ _))

theorem has_mk {s k p : ℕ} : (⟨s, k⟩ : Block).Has p ↔ s ≤ p ∧ p < s + k := Iff.rfl

/-- No index lies in both blocks. -/
def Block.Disjoint (a b : Block) : Prop := ∀ p, ¬ (a.Has p ∧ b.Has p)

/-- How many blocks of the list the index `p` lies in. -/
def cover (bs : List Block) (p : ℕ) : ℕ := bs.countP fun b => decide (b.Has p)

/-- Every index below `n` lies in exactly one block, every other index in none. -/
def Tiles (bs : List Block) (n : ℕ) : Prop := ∀ p, cover bs p = if p < n then 1 else 0

/-! ## Counting -/

@[simp] theorem cover_nil (p : ℕ) : cover [] p = 0 := rfl

theorem cover_cons (b : Block) (bs : List Block) (p : ℕ) :
    cover (b :: bs) p = cover bs p + if b.Has p then 1 else 0 := by
  simp [cover, List.countP_cons]

theorem cover_perm {as bs : List Block} (h : as.Perm bs) (p : ℕ) : cover as p = cover bs p :=
  h.countP_eq _

theorem cover_pos_iff {bs : List Block} {p : ℕ} : 0 < cover bs p ↔ ∃ b ∈ bs, b.Has p := by
  simp [cover, List.countP_pos_iff]

/-! ## How tilings change -/

theorem Tiles.perm {as bs : List Block} {n : ℕ} (h : Tiles as n) (hp : as.Perm bs) :
    Tiles bs n := by
  intro p
  rw [← cover_perm hp, h p]

/-- Cutting a block of even size into its two halves. -/
theorem Tiles.halve {bs : List Block} {s k n : ℕ} (h : Tiles (⟨s, 2 * k⟩ :: bs) n) :
    Tiles (⟨s + k, k⟩ :: ⟨s, k⟩ :: bs) n := by
  intro p
  rw [← h p, cover_cons, cover_cons, cover_cons]
  by_cases hlow : (⟨s, k⟩ : Block).Has p
  · rw [if_pos hlow, if_neg (by rw [has_mk] at hlow ⊢; omega),
      if_pos (by rw [has_mk] at hlow ⊢; omega)]
  · by_cases hhigh : (⟨s + k, k⟩ : Block).Has p
    · rw [if_neg hlow, if_pos hhigh, if_pos (by rw [has_mk] at hhigh ⊢; omega)]
    · rw [if_neg hlow, if_neg hhigh, if_neg (by rw [has_mk] at hlow hhigh ⊢; omega)]

/-- Laying one more block at the end of the segment. -/
theorem Tiles.extend {bs : List Block} {n : ℕ} (h : Tiles bs n) (k : ℕ) :
    Tiles (⟨n, k⟩ :: bs) (n + k) := by
  intro p
  rw [cover_cons, h p]
  by_cases hp : (⟨n, k⟩ : Block).Has p
  · rw [if_pos hp, if_neg (by rw [has_mk] at hp; omega), if_pos (by rw [has_mk] at hp; omega)]
  · rw [if_neg hp]
    refine if_congr ?_ rfl rfl
    rw [has_mk] at hp
    omega

theorem tiles_nil : Tiles [] 0 := fun _ => rfl

/-! ## What a tiling says -/

/-- The blocks of a tiling are pairwise disjoint. -/
theorem Tiles.pairwise_disjoint {bs : List Block} {n : ℕ} (h : Tiles bs n) :
    bs.Pairwise Block.Disjoint := by
  have hle : ∀ p, cover bs p ≤ 1 := by
    intro p
    rw [h p]
    split_ifs <;> omega
  clear h
  induction bs with
  | nil => exact List.Pairwise.nil
  | cons b bs ih =>
      rw [List.pairwise_cons]
      constructor
      · rintro c hc p ⟨hb, hcp⟩
        -- an index of both would be counted twice
        have hpos : 0 < cover bs p := cover_pos_iff.2 ⟨c, hc, hcp⟩
        have htwo := hle p
        rw [cover_cons, if_pos hb] at htwo
        omega
      · apply ih
        intro p
        have := hle p
        rw [cover_cons] at this
        omega

/-- The blocks of a tiling cover exactly the segment. -/
theorem Tiles.mem_iff {bs : List Block} {n : ℕ} (h : Tiles bs n) (p : ℕ) :
    p < n ↔ ∃ b ∈ bs, b.Has p := by
  rw [← cover_pos_iff, h p]
  split_ifs with hp
  · simp [hp]
  · simp [hp]

/-- A block of positive size lies inside the segment. -/
theorem Tiles.end_le {bs : List Block} {n : ℕ} (h : Tiles bs n) {b : Block} (hb : b ∈ bs)
    (hpos : 0 < b.size) : b.start + b.size ≤ n := by
  have : b.start + b.size - 1 < n :=
    (h.mem_iff _).2 ⟨b, hb, by unfold Block.Has; omega⟩
  omega

/-- No other block of a tiling starts inside a given one. -/
theorem Tiles.not_has_start {b c : Block} {bs : List Block} {n : ℕ} (h : Tiles (b :: bs) n)
    (hc : c ∈ bs) (hpos : 0 < c.size) : ¬ b.Has c.start := by
  intro hb
  have hd := (List.pairwise_cons.1 h.pairwise_disjoint).1 c hc
  exact hd c.start ⟨hb, le_refl _, by omega⟩

theorem sum_has_eq_size (b : Block) (n : ℕ) (h : b.start + b.size ≤ n) :
    (∑ p ∈ Finset.range n, if b.Has p then 1 else 0) = b.size := by
  rw [← Finset.card_filter]
  have : (Finset.range n).filter (fun p => b.Has p) = Finset.Ico b.start (b.start + b.size) := by
    ext p
    rw [Finset.mem_filter, Finset.mem_range, Finset.mem_Ico, Block.Has]
    omega
  rw [this, Nat.card_Ico]
  omega

theorem sum_cover {bs : List Block} {n : ℕ} (h : ∀ b ∈ bs, b.start + b.size ≤ n) :
    ∑ p ∈ Finset.range n, cover bs p = (bs.map Block.size).sum := by
  induction bs with
  | nil => simp
  | cons b bs ih =>
      simp only [cover_cons, Finset.sum_add_distrib, List.map_cons, List.sum_cons]
      rw [ih fun c hc => h c (List.mem_cons_of_mem _ hc),
        sum_has_eq_size b n (h b (List.mem_cons_self ..)), add_comm]

/-- The sizes of the blocks of a tiling add up to the length of the segment. -/
theorem Tiles.sum_size {bs : List Block} {n : ℕ} (h : Tiles bs n)
    (hpos : ∀ b ∈ bs, 0 < b.size) : (bs.map Block.size).sum = n := by
  rw [← sum_cover fun b hb => h.end_le hb (hpos b hb)]
  calc ∑ p ∈ Finset.range n, cover bs p = ∑ _p ∈ Finset.range n, 1 := by
        apply Finset.sum_congr rfl
        intro p hp
        rw [h p, if_pos (Finset.mem_range.1 hp)]
    _ = n := by simp

/-! ## Families of lists indexed by an initial segment -/

/-- Putting an element in front of one list of a family puts it in front of
their concatenation, up to a permutation. -/
theorem perm_flatMap_update {β : Type} (f : ℕ → List β) (x : β) {i k : ℕ} (hi : i < k) :
    ((List.range k).flatMap (Function.update f i (x :: f i))).Perm
      (x :: (List.range k).flatMap f) := by
  induction k with
  | zero => omega
  | succ k ih =>
      simp only [List.range_succ, List.flatMap_append, List.flatMap_cons, List.flatMap_nil,
        List.append_nil]
      by_cases hik : i = k
      · subst hik
        have hrest : (List.range i).flatMap (Function.update f i (x :: f i)) =
            (List.range i).flatMap f := by
          apply List.flatMap_congr
          intro j hj
          rw [Function.update_of_ne (by have := List.mem_range.1 hj; omega)]
        rw [hrest, Function.update_self]
        exact List.perm_middle
      · rw [Function.update_of_ne (Ne.symm hik)]
        exact (ih (by omega)).append_right _

end Tiling
