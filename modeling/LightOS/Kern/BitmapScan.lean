import LightOS.Kern.Bitmap

/-!
# What a scan of a bitmap finds and reads

`bitmap_scan` with the bytes it reads.  It compares an index with the length only after it has read
the byte there, and its last loop goes one bit beyond the end; so a scan keeps to the bitmap if it
finds what it looks for before the end, and only then.

* `scanByteTraced_bytes`, `scanRunTraced_bytes` — what the loops read.
* `bitmapScan_least` — what a scan for several bits finds is the first there is.
* `scan_ok_iff` — when a scan is right and keeps to the bitmap.

The lengths of the bitmaps are such that the index of every bit is a `long`.
-/

namespace LightOS

/-- A value, and the bytes read for it. -/
structure Traced (α : Type) where
  value : α
  bytes : List ℕ

/-- The first loop of `bitmap_scan`. -/
def scanByteTraced (b : Bitmap) : ℕ → ℕ → Traced ℕ
  | 0, idxByte => ⟨idxByte, []⟩
  | left + 1, idxByte =>
      -- the byte is read before the index is compared
      if b.bits idxByte = 255#8 ∧ idxByte < b.byteLength then
        let t := scanByteTraced b left (idxByte + 1)
        ⟨t.value, idxByte :: t.bytes⟩
      else ⟨idxByte, [idxByte]⟩

/-- The last loop of `bitmap_scan`. -/
def scanRunTraced (b : Bitmap) (cnt : ℕ) : ℕ → ℕ → ℕ → Traced (Option ℕ)
  | 0, _, _ => ⟨none, []⟩
  | bitLeft + 1, nextBit, count =>
      let count' := if bitmapScanTest b nextBit then 0 else count + 1
      if count' = cnt then ⟨some (nextBit + 1 - cnt), [nextBit / 8]⟩
      else
        let t := scanRunTraced b cnt bitLeft (nextBit + 1) count'
        ⟨t.value, nextBit / 8 :: t.bytes⟩

/-- `bitmap_scan`, with the bytes it reads. -/
def bitmapScanTraced (b : Bitmap) (cnt : ℕ) : Traced (Option ℕ) :=
  let t := scanByteTraced b (b.byteLength + 1) 0
  if t.value = b.byteLength then ⟨none, t.bytes⟩
  else
    let idxStart := t.value * 8 + scanBit (b.bits t.value) 8 0
    let bytes := t.bytes ++ [t.value]
    if cnt = 1 then ⟨some idxStart, bytes⟩
    else
      let r := scanRunTraced b cnt (b.byteLength * 8 - idxStart) (idxStart + 1) 1
      ⟨r.value, bytes ++ r.bytes⟩

/-- From `s` on, `cnt` bits are clear, and the bitmap has them. -/
def Bitmap.Free (b : Bitmap) (cnt s : ℕ) : Prop :=
  s + cnt ≤ b.byteLength * 8 ∧ ∀ k < cnt, b.bit (s + k) = false

/-- **A scan is right**: it finds the first place where so many bits are clear, it finds nothing
only if there is none, and it keeps to the bitmap. -/
structure ScanOk (b : Bitmap) (cnt : ℕ) : Prop where
  found : ∀ s, (bitmapScanTraced b cnt).value = some s ↔ b.Free cnt s ∧ ∀ t < s, ¬b.Free cnt t
  nothing : (bitmapScanTraced b cnt).value = none ↔ ∀ s, ¬b.Free cnt s
  inspected : ∀ i ∈ (bitmapScanTraced b cnt).bytes, i < b.byteLength

variable {b : Bitmap} {cnt : ℕ}

/-! ## What the loops read -/

theorem scanByteTraced_value : ∀ (left i : ℕ), i + left = b.byteLength →
    (scanByteTraced b (left + 1) i).value = scanByte b left i := by
  intro left
  induction left with
  | zero =>
      intro i hi
      rw [scanByteTraced, if_neg (by omega), scanByte]
  | succ left ih =>
      intro i hi
      rw [scanByteTraced, scanByte]
      by_cases hfull : b.bits i = 255#8
      · rw [if_pos ⟨hfull, by omega⟩, if_pos hfull]
        exact ih (i + 1) (by omega)
      · rw [if_neg fun h => hfull h.1, if_neg hfull]

/-- The first loop reads up to the byte where it stops, and this one too. -/
theorem scanByteTraced_bytes : ∀ (left i : ℕ), i + left = b.byteLength →
    i ≤ (scanByteTraced b (left + 1) i).value ∧
      (∀ j ∈ (scanByteTraced b (left + 1) i).bytes, j ≤ (scanByteTraced b (left + 1) i).value) ∧
        (scanByteTraced b (left + 1) i).value ∈ (scanByteTraced b (left + 1) i).bytes := by
  intro left
  induction left with
  | zero =>
      intro i hi
      rw [scanByteTraced, if_neg (by omega)]
      exact ⟨le_rfl, fun j hj => (List.mem_singleton.1 hj).le, List.mem_singleton_self i⟩
  | succ left ih =>
      intro i hi
      rw [scanByteTraced]
      by_cases hfull : b.bits i = 255#8 ∧ i < b.byteLength
      · rw [if_pos hfull]
        obtain ⟨hstop, hle, hmem⟩ := ih (i + 1) (by omega)
        have hi' := (Nat.le_succ i).trans hstop
        exact ⟨hi', List.forall_mem_cons.2 ⟨hi', hle⟩, List.mem_cons_of_mem i hmem⟩
      · rw [if_neg hfull]
        exact ⟨le_rfl, fun j hj => (List.mem_singleton.1 hj).le, List.mem_singleton_self i⟩

theorem scanRunTraced_value : ∀ (left next count : ℕ),
    (scanRunTraced b cnt left next count).value = scanRun b cnt left next count := by
  intro left
  induction left with
  | zero => exact fun _ _ => rfl
  | succ left ih =>
      intro next count
      rw [scanRunTraced, scanRun]
      by_cases hfound : (if bitmapScanTest b next = true then 0 else count + 1) = cnt
      · simp only [if_pos hfound]
      · simp only [if_neg hfound]
        exact ih (next + 1) _

/-- The last loop reads no further than to the last bit of what it finds, -/
theorem scanRunTraced_found :
    ∀ (left next count s : ℕ), count ≤ next → scanRun b cnt left next count = some s →
    next < s + cnt ∧ ∀ j ∈ (scanRunTraced b cnt left next count).bytes, j * 8 < s + cnt := by
  intro left
  induction left with
  | zero => intro next count s _ h; cases h
  | succ left ih =>
      intro next count s hle h
      rw [scanRun] at h
      rw [scanRunTraced]
      obtain ⟨count', hcount'⟩ : ∃ c, c = if bitmapScanTest b next = true then 0 else count + 1 :=
        ⟨_, rfl⟩
      simp only [← hcount'] at h ⊢
      have hle' : count' ≤ next + 1 := by
        rw [hcount']
        split_ifs <;> omega
      by_cases hfound : count' = cnt
      · rw [if_pos hfound, Option.some.injEq] at h
        rw [if_pos hfound]
        exact ⟨by omega, fun j hj => by rw [List.mem_singleton.1 hj]; omega⟩
      · rw [if_neg hfound] at h
        rw [if_neg hfound]
        obtain ⟨hlt, hbytes⟩ := ih (next + 1) count' s hle' h
        exact ⟨by omega, List.forall_mem_cons.2 ⟨by omega, hbytes⟩⟩

/-- and to the end if it finds nothing. -/
theorem scanRunTraced_nothing :
    ∀ (left next count : ℕ), scanRun b cnt (left + 1) next count = none →
    (next + left) / 8 ∈ (scanRunTraced b cnt (left + 1) next count).bytes := by
  intro left
  induction left with
  | zero =>
      intro next count h
      rw [scanRun] at h
      rw [scanRunTraced]
      by_cases hfound : (if bitmapScanTest b next = true then 0 else count + 1) = cnt
      · simp only [if_pos hfound] at h
        cases h
      · simp only [if_neg hfound]
        exact List.mem_cons_self
  | succ left ih =>
      intro next count h
      rw [scanRun] at h
      rw [scanRunTraced]
      by_cases hfound : (if bitmapScanTest b next = true then 0 else count + 1) = cnt
      · simp only [if_pos hfound] at h
        cases h
      · simp only [if_neg hfound] at h ⊢
        have hlast := ih (next + 1) _ h
        rw [show next + 1 + left = next + (left + 1) by omega] at hlast
        exact List.mem_cons_of_mem _ hlast

/-! ## What they find -/

/-- From `s` on one of `cnt` bits is set. -/
def Bitmap.Blocked (b : Bitmap) (cnt s : ℕ) : Prop := ∃ k < cnt, b.bit (s + k) = true

/-- **The last loop finds the first place there is**: all before the bits it has counted are
blocked. -/
theorem scanRun_least : ∀ (left next count : ℕ), count < cnt →
    (∀ t, t + count < next → b.Blocked cnt t) →
    (∀ s, scanRun b cnt left next count = some s → ∀ t < s, b.Blocked cnt t) ∧
      (scanRun b cnt left next count = none → ∀ t, t + cnt ≤ next + left → b.Blocked cnt t) := by
  intro left
  induction left with
  | zero =>
      intro next count hcount hlow
      exact ⟨(fun _ hs => by cases hs), fun _ t ht => hlow t (by omega)⟩
  | succ left ih =>
      intro next count hcount hlow
      rw [scanRun, bitmapScanTest_eq]
      obtain ⟨count', hcount'⟩ : ∃ c, c = if b.bit next = true then 0 else count + 1 := ⟨_, rfl⟩
      simp only [← hcount']
      have hlow' : ∀ t, t + count' < next + 1 → b.Blocked cnt t := by
        intro t ht
        by_cases hset : b.bit next = true
        · by_cases hold : t + count < next
          · exact hlow t hold
          · -- the bit that ends the count blocks all places within it
            exact ⟨next - t, by omega, by rw [show t + (next - t) = next by omega]; exact hset⟩
        · rw [if_neg hset] at hcount'
          exact hlow t (by omega)
      by_cases hfound : count' = cnt
      · rw [if_pos hfound]
        exact ⟨fun s hs t ht => hlow' t (by cases hs; omega), fun hs => by cases hs⟩
      · rw [if_neg hfound]
        have hcount'' : count' < cnt := by
          split_ifs at hcount' <;> omega
        obtain ⟨hsome, hnone⟩ := ih (next + 1) count' hcount'' hlow'
        exact ⟨hsome, fun hend t ht => hnone hend t (by omega)⟩

/-- **A scan for several bits finds the first place there is**, in the bitmap and the bit behind
it. -/
theorem bitmapScan_least (hcnt : 2 ≤ cnt) :
    (∀ s, bitmapScan b cnt = some s → ∀ t < s, b.Blocked cnt t) ∧
      (bitmapScan b cnt = none → ∀ t, t + cnt ≤ b.byteLength * 8 + 1 → b.Blocked cnt t) := by
  unfold bitmapScan
  simp only
  by_cases hfull : scanByte b b.byteLength 0 = b.byteLength
  · have hset : ∀ j < scanByte b b.byteLength 0 * 8, b.bit j = true :=
      (scanByte_spec b.byteLength 0 (by simp) (Nat.zero_add _)).1
    rw [hfull] at hset
    rw [if_pos hfull]
    exact ⟨nofun, fun _ t ht => ⟨0, by omega, hset _ (by omega)⟩⟩
  · rw [if_neg hfull, if_neg (by omega)]
    obtain ⟨hlt, -, hset⟩ := firstClear_spec rfl rfl hfull
    generalize scanByte b b.byteLength 0 * 8 +
      scanBit (b.bits (scanByte b b.byteLength 0)) 8 0 = i at hlt hset
    have hlow : ∀ t, t + 1 < i + 1 → b.Blocked cnt t := fun t ht => ⟨0, by omega, hset t (by omega)⟩
    obtain ⟨hsome, hnone⟩ := scanRun_least (b.byteLength * 8 - i) (i + 1) 1 (by omega) hlow
    exact ⟨hsome, fun hend t ht => hnone hend t (by omega)⟩

/-! ## When a scan is right -/

theorem bitmapScanTraced_value (b : Bitmap) (cnt : ℕ) :
    (bitmapScanTraced b cnt).value = bitmapScan b cnt := by
  unfold bitmapScanTraced bitmapScan
  simp only [scanByteTraced_value b.byteLength 0 (Nat.zero_add _)]
  by_cases hfull : scanByte b b.byteLength 0 = b.byteLength
  · rw [if_pos hfull, if_pos hfull]
  · rw [if_neg hfull, if_neg hfull]
    by_cases hone : cnt = 1
    · rw [if_pos hone, if_pos hone]
    · rw [if_neg hone, if_neg hone]
      exact scanRunTraced_value _ _ _

/-- Where the first loop stops, it has read. -/
theorem stop_mem_bytes (b : Bitmap) (cnt : ℕ) :
    scanByte b b.byteLength 0 ∈ (bitmapScanTraced b cnt).bytes := by
  have hmem := (scanByteTraced_bytes b.byteLength 0 (Nat.zero_add _)).2.2
  rw [scanByteTraced_value b.byteLength 0 (Nat.zero_add _)] at hmem
  unfold bitmapScanTraced
  simp only [scanByteTraced_value b.byteLength 0 (Nat.zero_add _)]
  split_ifs
  · exact hmem
  · exact List.mem_append_left _ hmem
  · exact List.mem_append_left _ (List.mem_append_left _ hmem)

theorem not_blocked_of_free {s : ℕ} (h : b.Free cnt s) : ¬b.Blocked cnt s := by
  rintro ⟨k, hk, hset⟩
  rw [h.2 k hk] at hset
  cases hset

theorem free_of_not_blocked {s : ℕ} (hle : s + cnt ≤ b.byteLength * 8) (h : ¬b.Blocked cnt s) :
    b.Free cnt s :=
  ⟨hle, fun k hk => Bool.eq_false_iff.2 fun hset => h ⟨k, hk, hset⟩⟩

/-- A scan finds nothing only if there is nothing, and what it finds is clear and comes first. -/
theorem bitmapScan_first (hcnt : 1 ≤ cnt) :
    (∀ s, bitmapScan b cnt = some s → ¬b.Blocked cnt s ∧ ∀ t < s, b.Blocked cnt t) ∧
      (bitmapScan b cnt = none → ∀ t, ¬b.Free cnt t) := by
  by_cases hone : cnt = 1
  · subst hone
    rcases bitmapScan_one b with ⟨hnone, hset⟩ | ⟨i, hi, hlt, hclear, hset⟩
    · rw [hnone]
      exact ⟨nofun, fun _ t ht => not_blocked_of_free ht
        ⟨0, Nat.one_pos, hset _ (by have := ht.1; omega)⟩⟩
    · rw [hi]
      refine ⟨fun s hs => ?_, nofun⟩
      cases hs
      refine ⟨?_, fun t ht => ⟨0, Nat.one_pos, hset t ht⟩⟩
      rintro ⟨k, hk, hkset⟩
      rw [Nat.lt_one_iff.1 hk, Nat.add_zero, hclear] at hkset
      cases hkset
  · obtain ⟨hsome, hnone⟩ := bitmapScan_least (b := b) (show 2 ≤ cnt by omega)
    refine ⟨fun s hs => ⟨?_, hsome s hs⟩, fun hend t ht => ?_⟩
    · rintro ⟨k, hk, hset⟩
      rw [(bitmapScan_run (by omega) hs).1 k hk] at hset
      cases hset
    · exact not_blocked_of_free ht (hnone hend t (by have := ht.1; omega))

/-- A scan that finds a place in the bitmap keeps to it. -/
theorem bytes_of_found {s : ℕ} (hs : bitmapScan b cnt = some s)
    (hle : s + cnt ≤ b.byteLength * 8) :
    ∀ i ∈ (bitmapScanTraced b cnt).bytes, i < b.byteLength := by
  obtain ⟨-, hbytes, -⟩ := scanByteTraced_bytes (b := b) b.byteLength 0 (Nat.zero_add _)
  rw [scanByteTraced_value b.byteLength 0 (Nat.zero_add _)] at hbytes
  unfold bitmapScan at hs
  unfold bitmapScanTraced
  simp only [scanByteTraced_value b.byteLength 0 (Nat.zero_add _)] at hs ⊢
  by_cases hfull : scanByte b b.byteLength 0 = b.byteLength
  · rw [if_pos hfull] at hs
    cases hs
  · obtain ⟨hlt, -, -⟩ := firstClear_spec rfl rfl hfull
    rw [if_neg hfull] at hs ⊢
    have hstop : scanByte b b.byteLength 0 < b.byteLength := by omega
    have hfirst : ∀ i ∈ (scanByteTraced b (b.byteLength + 1) 0).bytes ++
      [scanByte b b.byteLength 0], i < b.byteLength := by
      intro i hi
      rcases List.mem_append.1 hi with hi | hi
      · exact lt_of_le_of_lt (hbytes i hi) hstop
      · exact (List.mem_singleton.1 hi).trans_lt hstop
    by_cases hone : cnt = 1
    · rw [if_pos hone]
      exact hfirst
    · rw [if_neg hone] at hs ⊢
      obtain ⟨-, hrun⟩ := scanRunTraced_found _ _ _ _ (by omega) hs
      intro i hi
      rcases List.mem_append.1 hi with hi | hi
      · exact hfirst i hi
      · have hbit := hrun i hi
        omega

/-- A scan that finds nothing leaves the bitmap. -/
theorem bytes_of_nothing (h : bitmapScan b cnt = none) :
    b.byteLength ∈ (bitmapScanTraced b cnt).bytes := by
  by_cases hfull : scanByte b b.byteLength 0 = b.byteLength
  · have hmem := stop_mem_bytes b cnt
    rwa [hfull] at hmem
  · obtain ⟨hlt, -, -⟩ := firstClear_spec rfl rfl hfull
    unfold bitmapScan at h
    unfold bitmapScanTraced
    simp only [scanByteTraced_value b.byteLength 0 (Nat.zero_add _)] at h ⊢
    rw [if_neg hfull] at h ⊢
    by_cases hone : cnt = 1
    · rw [if_pos hone] at h
      cases h
    · rw [if_neg hone] at h ⊢
      generalize scanByte b b.byteLength 0 * 8 +
        scanBit (b.bits (scanByte b b.byteLength 0)) 8 0 = i at h hlt ⊢
      obtain ⟨left, hleft⟩ : ∃ left, b.byteLength * 8 - i = left + 1 :=
        ⟨b.byteLength * 8 - i - 1, by omega⟩
      rw [hleft] at h ⊢
      have hlast := scanRunTraced_nothing left (i + 1) 1 h
      rw [show (i + 1 + left) / 8 = b.byteLength by omega] at hlast
      exact List.mem_append_right _ hlast

/-- **A scan is right and keeps to the bitmap exactly if there is what it looks for.** -/
theorem scan_ok_iff (b : Bitmap) (cnt : ℕ) (hcnt : 1 ≤ cnt) : ScanOk b cnt ↔ ∃ s, b.Free cnt s := by
  obtain ⟨hfirst, hnothing⟩ := bitmapScan_first (b := b) hcnt
  constructor
  · intro h
    by_contra hnone
    push Not at hnone
    have hvalue := h.nothing.2 hnone
    rw [bitmapScanTraced_value] at hvalue
    exact lt_irrefl _ (h.inspected _ (bytes_of_nothing hvalue))
  · rintro ⟨t, ht⟩
    obtain ⟨s, hs⟩ := Option.ne_none_iff_exists'.1 fun hnone => hnothing hnone t ht
    obtain ⟨hclear, hlow⟩ := hfirst s hs
    have hst : s ≤ t := Nat.le_of_not_lt fun hlt => not_blocked_of_free ht (hlow t hlt)
    have hfree : b.Free cnt s := free_of_not_blocked (by have := ht.1; omega) hclear
    have hleast : ∀ u < s, ¬b.Free cnt u := fun u hu hfree => not_blocked_of_free hfree (hlow u hu)
    refine ⟨fun u => ?_, ?_, bytes_of_found hs hfree.1⟩
    · rw [bitmapScanTraced_value, hs, Option.some.injEq]
      constructor
      · rintro rfl
        exact ⟨hfree, hleast⟩
      · rintro ⟨hu, hulow⟩
        exact le_antisymm (Nat.le_of_not_lt fun hlt => hleast u hlt hu)
          (Nat.le_of_not_lt fun hlt => hulow s hlt hfree)
    · rw [bitmapScanTraced_value, hs]
      exact ⟨nofun, fun hall => absurd hfree (hall s)⟩

/-- Six clear bits between two that are set. -/
theorem scan_ok_six : (1 ≤ 6) ∧ (ScanOk ⟨1, fun _ => 0x81#8⟩ 6 ↔
    ∃ s, Bitmap.Free ⟨1, fun _ => 0x81#8⟩ 6 s) :=
  ⟨by decide, scan_ok_iff ⟨1, fun _ => 0x81#8⟩ 6 (by decide)⟩

/-- **One clear bit at the end is found to be two**, if the next byte of the memory begins with a
clear bit. -/
theorem scan_past_end :
    bitmapScan ⟨1, fun i => if i = 0 then 0x7f#8 else 0#8⟩ 2 = some 7 ∧
      ¬ScanOk ⟨1, fun i => if i = 0 then 0x7f#8 else 0#8⟩ 2 := by
  have hvalue : (bitmapScanTraced ⟨1, fun i => if i = 0 then 0x7f#8 else 0#8⟩ 2).value =
    some 7 := by decide
  refine ⟨by decide, fun h => ?_⟩
  have hfree := ((h.found 7).1 hvalue).1.1
  exact absurd hfree (by decide)

end LightOS
