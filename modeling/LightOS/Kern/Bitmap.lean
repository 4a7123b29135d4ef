import Mathlib

/-!
# Bitmaps

`lib/bitmap.c`.  A bitmap is a pointer and a length; the model holds the bytes
from the pointer on, also those behind the last one, since `bitmap_scan` reads
one bit too far when it looks for more than one bit.

* `bitmapSet_bit`, `bitmapSetRange_bit` — setting bits.
* `bitmapScan_one` — a scan for one bit finds the first clear one.
* `bitmapScan_run` — a scan for several bits finds clear bits, of which only the
  last can lie behind the end.
-/

namespace LightOS

/-- `bitmap_t`, with the memory its pointer points to. -/
structure Bitmap where
  byteLength : ℕ
  bits : ℕ → BitVec 8

/-- `BITMAP_MASK << bit_odd` as a byte. -/
def bitmapMask (bitOdd : ℕ) : BitVec 8 := 1#8 <<< bitOdd

/-- `bitmap_init`. -/
def bitmapInit (b : Bitmap) : Bitmap :=
  { b with bits := fun i => if i < b.byteLength then 0#8 else b.bits i }

/-- `bitmap_scan_test`. -/
def bitmapScanTest (b : Bitmap) (idx : ℕ) : Bool := b.bits (idx / 8) &&& bitmapMask (idx % 8) != 0#8

/-- The first loop of `bitmap_scan`: skip the bytes that are full. -/
def scanByte (b : Bitmap) : ℕ → ℕ → ℕ
  | 0, idxByte => idxByte
  | left + 1, idxByte => if b.bits idxByte = 255#8 then scanByte b left (idxByte + 1) else idxByte

/-- The second loop of `bitmap_scan`: skip the bits that are set. -/
def scanBit (byte : BitVec 8) : ℕ → ℕ → ℕ
  | 0, idxBit => idxBit
  | left + 1, idxBit =>
      if bitmapMask idxBit &&& byte != 0#8 then scanBit byte left (idxBit + 1) else idxBit

/-- The last loop of `bitmap_scan`, with `bitLeft` rounds to go: `count` clear bits
end before `nextBit`. -/
def scanRun (b : Bitmap) (cnt : ℕ) : ℕ → ℕ → ℕ → Option ℕ
  | 0, _, _ => none
  | bitLeft + 1, nextBit, count =>
      let count' := if bitmapScanTest b nextBit then 0 else count + 1
      if count' = cnt then some (nextBit + 1 - cnt) else scanRun b cnt bitLeft (nextBit + 1) count'

/-- `bitmap_scan`; `none` is `-1`. -/
def bitmapScan (b : Bitmap) (cnt : ℕ) : Option ℕ :=
  let idxByte := scanByte b b.byteLength 0
  if idxByte = b.byteLength then none
  else
    let idxStart := idxByte * 8 + scanBit (b.bits idxByte) 8 0
    if cnt = 1 then some idxStart
    else scanRun b cnt (b.byteLength * 8 - idxStart) (idxStart + 1) 1

/-- `bitmap_set`. -/
def bitmapSet (b : Bitmap) (idx : ℕ) (value : Bool) : Bitmap :=
  let byte := b.bits (idx / 8)
  { b with
    bits := Function.update b.bits (idx / 8)
      (if value then byte ||| bitmapMask (idx % 8) else byte &&& ~~~bitmapMask (idx % 8)) }

/-- The callers' loop over `bitmap_set`: `pages` bits from `idx` on. -/
def bitmapSetRange (b : Bitmap) (idx : ℕ) (value : Bool) : ℕ → Bitmap
  | 0 => b
  | pages + 1 => bitmapSet (bitmapSetRange b idx value pages) (idx + pages) value

/-! ## Bits -/

/-- The bit with a given index. -/
def Bitmap.bit (b : Bitmap) (i : ℕ) : Bool := (b.bits (i / 8)).getLsbD (i % 8)

section Bits

variable {b : Bitmap} {i j : ℕ}

theorem bitmapMask_getLsbD {k : ℕ} (hk : k < 8) (j : ℕ) :
    (bitmapMask k).getLsbD j = decide (j = k) := by
  rw [bitmapMask, BitVec.getLsbD_shiftLeft, BitVec.getLsbD_one]
  by_cases hj : j = k
  · simp [hj, hk]
  · by_cases hlt : j < k
    · simp [hj, hlt]
    · have hne : j - k ≠ 0 := by omega
      simp [hj, hne]

/-- The C condition `byte & (BITMAP_MASK << k)` looks at one bit. -/
theorem and_bitmapMask {k : ℕ} (hk : k < 8) (byte : BitVec 8) :
    (byte &&& bitmapMask k != 0#8) = byte.getLsbD k := by
  cases hbit : byte.getLsbD k with
  | false =>
      have hzero : byte &&& bitmapMask k = 0#8 := by
        apply BitVec.eq_of_getLsbD_eq
        intro j _
        rw [BitVec.getLsbD_and, bitmapMask_getLsbD hk, BitVec.getLsbD_zero]
        by_cases hj : j = k
        · rw [hj, hbit, Bool.false_and]
        · simp [hj]
      rw [hzero]
      rfl
  | true =>
      have hone : byte &&& bitmapMask k ≠ 0#8 := by
        intro hzero
        have hat := congrArg (fun x => x.getLsbD k) hzero
        simp only [BitVec.getLsbD_and, bitmapMask_getLsbD hk, hbit] at hat
        simp at hat
      simpa using hone

theorem bitmapScanTest_eq (b : Bitmap) (i : ℕ) : bitmapScanTest b i = b.bit i :=
  and_bitmapMask (Nat.mod_lt _ (by norm_num)) _

@[simp] theorem bitmapSet_byteLength (idx : ℕ) (value : Bool) :
    (bitmapSet b idx value).byteLength = b.byteLength := rfl

/-- **`bitmap_set` sets one bit.** -/
theorem bitmapSet_bit (b : Bitmap) (i : ℕ) (value : Bool) (j : ℕ) :
    (bitmapSet b i value).bit j = if j = i then value else b.bit j := by
  have hmod : i % 8 < 8 := Nat.mod_lt _ (by norm_num)
  have hmod' : j % 8 < 8 := Nat.mod_lt _ (by norm_num)
  unfold Bitmap.bit bitmapSet
  by_cases hbyte : j / 8 = i / 8
  · rw [hbyte]
    simp only [Function.update_self]
    by_cases hj : j = i
    · subst hj
      cases value <;> simp [bitmapMask_getLsbD hmod, hmod]
    · have hne : (bitmapMask (i % 8)).getLsbD (j % 8) = false := by
        rw [bitmapMask_getLsbD hmod, decide_eq_false_iff_not]
        omega
      rw [if_neg hj]
      cases value
      · simp only [Bool.false_eq_true, if_false, BitVec.getLsbD_and, BitVec.getLsbD_not, hne,
          decide_eq_true hmod', Bool.not_false, Bool.and_true]
      · simp only [if_true, BitVec.getLsbD_or, hne, Bool.or_false]
  · have hj : j ≠ i := fun hj => hbyte (by rw [hj])
    simp only [Function.update_of_ne hbyte, if_neg hj]

@[simp] theorem bitmapSetRange_byteLength (idx : ℕ) (value : Bool) (pages : ℕ) :
    (bitmapSetRange b idx value pages).byteLength = b.byteLength := by
  induction pages with
  | zero => rfl
  | succ pages ih => rw [bitmapSetRange, bitmapSet_byteLength, ih]

theorem bitmapSetRange_bit (b : Bitmap) (idx : ℕ) (value : Bool) (pages j : ℕ) :
    (bitmapSetRange b idx value pages).bit j =
      if idx ≤ j ∧ j < idx + pages then value else b.bit j := by
  induction pages with
  | zero => rw [bitmapSetRange, if_neg (by omega)]
  | succ pages ih =>
      rw [bitmapSetRange, bitmapSet_bit, ih]
      split_ifs <;> first | rfl | omega

/-- A bitmap is its length and its bits. -/
theorem Bitmap.ext_bit {b c : Bitmap} (hlen : b.byteLength = c.byteLength)
    (hbit : ∀ i, b.bit i = c.bit i) : b = c := by
  obtain ⟨n, bs⟩ := b
  obtain ⟨m, cs⟩ := c
  cases hlen
  congr 1
  funext k
  apply BitVec.eq_of_getLsbD_eq
  intro j hj
  have hat := hbit (k * 8 + j)
  have hdiv : (k * 8 + j) / 8 = k := by omega
  have hmod : (k * 8 + j) % 8 = j := by omega
  simpa only [Bitmap.bit, hdiv, hmod] using hat

theorem bitmapInit_bit (hi : i < 8 * b.byteLength) : (bitmapInit b).bit i = false := by
  have hbyte : i / 8 < b.byteLength := by omega
  simp [Bitmap.bit, bitmapInit, hbyte]

end Bits

/-! ## Counting -/

/-- The number of bits that are set. -/
def Bitmap.popcount (b : Bitmap) : ℕ :=
  ((Finset.range (b.byteLength * 8)).filter fun i => b.bit i = true).card

section Popcount

variable {b : Bitmap} {i n : ℕ}

theorem popcount_bitmapInit (b : Bitmap) : (bitmapInit b).popcount = 0 := by
  rw [Bitmap.popcount, Finset.card_eq_zero, Finset.filter_eq_empty_iff]
  intro j hj
  rw [bitmapInit_bit (by simpa [bitmapInit, Nat.mul_comm] using hj)]
  simp

theorem popcount_bitmapSet_true (hi : i < b.byteLength * 8) (hclear : b.bit i = false) :
    (bitmapSet b i true).popcount = b.popcount + 1 := by
  have hinsert : (Finset.range (b.byteLength * 8)).filter
      (fun j => (bitmapSet b i true).bit j = true) =
      insert i ((Finset.range (b.byteLength * 8)).filter fun j => b.bit j = true) := by
    ext j
    simp only [Finset.mem_filter, Finset.mem_range, Finset.mem_insert, bitmapSet_bit]
    by_cases hj : j = i
    · simp [hj, hi]
    · simp [hj]
  rw [Bitmap.popcount, bitmapSet_byteLength, hinsert, Finset.card_insert_of_notMem]
  · rfl
  · simp [hclear]

theorem popcount_bitmapSet_false (hi : i < b.byteLength * 8) (hset : b.bit i = true) :
    (bitmapSet b i false).popcount + 1 = b.popcount := by
  have herase : (Finset.range (b.byteLength * 8)).filter
      (fun j => (bitmapSet b i false).bit j = true) =
      ((Finset.range (b.byteLength * 8)).filter fun j => b.bit j = true).erase i := by
    ext j
    simp only [Finset.mem_filter, Finset.mem_range, Finset.mem_erase, bitmapSet_bit]
    by_cases hj : j = i
    · simp [hj]
    · simp [hj]
  rw [Bitmap.popcount, bitmapSet_byteLength, herase]
  exact Finset.card_erase_add_one (by simp [hi, hset])

theorem exists_clear_of_popcount_lt (hn : n ≤ b.byteLength * 8) (h : b.popcount < n) :
    ∃ i < n, b.bit i = false := by
  by_contra hall
  push Not at hall
  have hsub : Finset.range n ⊆ (Finset.range (b.byteLength * 8)).filter fun j => b.bit j =
      true := by
    intro j hj
    have hj' := Finset.mem_range.1 hj
    refine Finset.mem_filter.2 ⟨Finset.mem_range.2 (by omega), ?_⟩
    simpa using hall j hj'
  have hcard := Finset.card_le_card hsub
  rw [Finset.card_range] at hcard
  exact absurd hcard (not_le.2 h)

theorem bit_of_popcount_eq_zero (h : b.popcount = 0) (hi : i < b.byteLength * 8) :
    b.bit i = false := by
  rw [Bitmap.popcount, Finset.card_eq_zero, Finset.filter_eq_empty_iff] at h
  simpa using h (Finset.mem_range.2 hi)

end Popcount

/-! ## Scans -/

section Scan

variable {b : Bitmap}

/-- A byte is full when all of its bits are set. -/
theorem full_iff {byte : BitVec 8} : byte = 255#8 ↔ ∀ k < 8, byte.getLsbD k = true := by
  constructor
  · rintro rfl k hk
    revert k
    decide
  · intro h
    apply BitVec.eq_of_getLsbD_eq
    intro k hk
    rw [h k hk]
    revert k
    decide

theorem scanByte_spec :
    ∀ (left i : ℕ), (∀ j < i * 8, b.bit j = true) → i + left = b.byteLength →
      (∀ j < scanByte b left i * 8, b.bit j = true) ∧ scanByte b left i ≤ b.byteLength ∧
        (scanByte b left i ≠ b.byteLength → b.bits (scanByte b left i) ≠ 255#8) := by
  intro left
  induction left with
  | zero =>
      intro i hbelow hlen
      exact ⟨hbelow, by rw [scanByte]; omega, fun hne => absurd (by rw [scanByte]; omega) hne⟩
  | succ left ih =>
      intro i hbelow hlen
      rw [scanByte]
      split_ifs with hfull
      · refine ih (i + 1) (fun j hj => ?_) (by omega)
        by_cases hlow : j < i * 8
        · exact hbelow j hlow
        · have hdiv : j / 8 = i := by omega
          rw [Bitmap.bit, hdiv]
          exact full_iff.1 hfull _ (Nat.mod_lt _ (by norm_num))
      · exact ⟨hbelow, by omega, fun _ => hfull⟩

theorem scanBit_spec {byte : BitVec 8} (hfree : ∃ k < 8, byte.getLsbD k = false) :
    ∀ (left i : ℕ), (∀ k < i, byte.getLsbD k = true) → i + left = 8 →
      scanBit byte left i < 8 ∧ byte.getLsbD (scanBit byte left i) = false ∧
        ∀ k < scanBit byte left i, byte.getLsbD k = true := by
  intro left
  induction left with
  | zero =>
      intro i hbelow hlen
      obtain ⟨k, hk, hclear⟩ := hfree
      rw [hbelow k (by omega)] at hclear
      cases hclear
  | succ left ih =>
      intro i hbelow hlen
      rw [scanBit, BitVec.and_comm, and_bitmapMask (show i < 8 by omega)]
      split_ifs with hset
      · refine ih (i + 1) (fun k hk => ?_) (by omega)
        rcases Nat.lt_succ_iff_lt_or_eq.1 hk with hk | rfl
        · exact hbelow k hk
        · exact hset
      · exact ⟨by omega, by simpa using hset, hbelow⟩

/-- Where the first two loops stop: at the first clear bit. -/
theorem firstClear_spec {byte i : ℕ} (hbyte : byte = scanByte b b.byteLength 0)
    (hi : i = scanBit (b.bits byte) 8 0) (h : byte ≠ b.byteLength) :
    byte * 8 + i < b.byteLength * 8 ∧ b.bit (byte * 8 + i) = false ∧
      ∀ j < byte * 8 + i, b.bit j = true := by
  have hspec : (∀ j < byte * 8, b.bit j = true) ∧ byte ≤ b.byteLength ∧
      (byte ≠ b.byteLength → b.bits byte ≠ 255#8) := by
    rw [hbyte]
    exact scanByte_spec b.byteLength 0 (by simp) (Nat.zero_add _)
  obtain ⟨hbelow, hle, hfree⟩ := hspec
  have hnot := hfree h
  rw [ne_eq, full_iff] at hnot
  push Not at hnot
  obtain ⟨k, hk, hclear⟩ := hnot
  obtain ⟨hlt, hbit, hset⟩ := scanBit_spec ⟨k, hk, by simpa using hclear⟩ 8 0 (by simp) (by simp)
  rw [← hi] at hlt hbit hset
  have hdiv : (byte * 8 + i) / 8 = byte := by omega
  have hmod : (byte * 8 + i) % 8 = i := by omega
  refine ⟨by omega, by rw [Bitmap.bit, hdiv, hmod]; exact hbit, fun j hj => ?_⟩
  by_cases hlow : j < byte * 8
  · exact hbelow j hlow
  · have hdiv' : j / 8 = byte := by omega
    rw [Bitmap.bit, hdiv']
    exact hset _ (by omega)

/-- **A scan for one bit** finds the first clear bit, if there is one. -/
theorem bitmapScan_one (b : Bitmap) :
    bitmapScan b 1 = none ∧ (∀ j < b.byteLength * 8, b.bit j = true) ∨
      ∃ i, bitmapScan b 1 = some i ∧ i < b.byteLength * 8 ∧ b.bit i = false ∧
        ∀ j < i, b.bit j = true := by
  by_cases h : scanByte b b.byteLength 0 = b.byteLength
  · have hbelow : ∀ j < scanByte b b.byteLength 0 * 8, b.bit j = true :=
      (scanByte_spec b.byteLength 0 (by simp) (Nat.zero_add _)).1
    rw [h] at hbelow
    exact Or.inl ⟨by rw [bitmapScan, if_pos h], hbelow⟩
  · exact Or.inr ⟨_, by rw [bitmapScan, if_neg h, if_pos rfl], firstClear_spec rfl rfl h⟩

theorem scanRun_spec {cnt : ℕ} :
    ∀ (left next count s : ℕ), count ≤ next → (∀ j, next - count ≤ j → j < next → b.bit j = false) →
      scanRun b cnt left next count = some s →
      (∀ k < cnt, b.bit (s + k) = false) ∧ s + cnt ≤ next + left := by
  intro left
  induction left with
  | zero => intro next count s _ _ h; cases h
  | succ left ih =>
      intro next count s hle hclear h
      rw [scanRun, bitmapScanTest_eq] at h
      obtain ⟨count', hcount'⟩ : ∃ c, c = if b.bit next = true then 0 else count + 1 := ⟨_, rfl⟩
      rw [← hcount'] at h
      have hle' : count' ≤ next + 1 := by
        rw [hcount']
        split_ifs <;> omega
      have hclear' : ∀ j, next + 1 - count' ≤ j → j < next + 1 → b.bit j = false := by
        intro j hlow hhigh
        by_cases hset : b.bit next = true
        · rw [if_pos hset] at hcount'
          omega
        · rw [if_neg hset] at hcount'
          rcases Nat.lt_succ_iff_lt_or_eq.1 hhigh with hj | rfl
          · exact hclear j (by omega) hj
          · simpa using hset
      split_ifs at h with hfound
      · rw [Option.some.injEq] at h
        subst h
        exact ⟨fun k hk => hclear' _ (by omega) (by omega), by omega⟩
      · obtain ⟨hrun, hend⟩ := ih (next + 1) count' s hle' hclear' h
        exact ⟨hrun, by omega⟩

/-- **A scan for several bits** finds clear bits; only the last one can lie behind the
end of the bitmap, by one. -/
theorem bitmapScan_run {cnt s : ℕ} (hcnt : 2 ≤ cnt) (h : bitmapScan b cnt = some s) :
    (∀ k < cnt, b.bit (s + k) = false) ∧ s + cnt ≤ b.byteLength * 8 + 1 := by
  unfold bitmapScan at h
  simp only at h
  split_ifs at h with hfull hone
  · omega
  · obtain ⟨hlt, hbit, -⟩ := firstClear_spec rfl rfl hfull
    generalize scanByte b b.byteLength 0 * 8 +
      scanBit (b.bits (scanByte b b.byteLength 0)) 8 0 = i at h hlt hbit
    have hspec := scanRun_spec _ (i + 1) 1 s (by omega)
      (fun j hlow hhigh => by
        have hj : j = i := by omega
        rw [hj]
        exact hbit) h
    exact ⟨hspec.1, by omega⟩

end Scan

end LightOS
