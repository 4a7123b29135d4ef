import LightOS.Vmm.MemCacheBasic

/-!
# Memory caches: groups

Where the groups and their objects lie, and what is true of one group.

* `GroupOk` — a group whose counts, bitmap, place and marks are in order.
* `Core` — all groups of a cache are, and the pages they hold are theirs alone.
* `object_inj`, `object_lookup` — objects that are different do not overlap, and the node
  of an object's page leads back to its group.
-/

namespace LightOS
namespace MemCache

open MemPool

/-! ## Addresses -/

/-- The virtual address of a page of the normal range. -/
def pageAt (L : PoolLayout) (n : ℕ) : ℕ := n * pageSize + L.start .normal + kernBaseVirAddr

/-- The page of the normal range an address lies in. -/
def nodeAt (L : PoolLayout) (v : ℕ) : ℕ := (v - (L.start .normal + kernBaseVirAddr)) / pageSize

/-- The normal range can be mapped in the kernel half as a whole. -/
def LowMem (L : PoolLayout) : Prop := L.start .normal + L.len .normal ≤ kernBaseVirAddr

section Addresses

variable {L : PoolLayout} {n off : ℕ}

theorem nodeAt_pageAt (L : PoolLayout) (n : ℕ) : nodeAt L (pageAt L n) = n := by
  unfold nodeAt pageAt pageSize
  omega

theorem pageAt_ne_zero (L : PoolLayout) (n : ℕ) : pageAt L n ≠ 0 := by
  unfold pageAt kernBaseVirAddr
  omega

theorem kernPhyAddr2VirAddr_page (hlow : LowMem L) (hn : n < L.len .normal / pageSize) :
    kernPhyAddr2VirAddr (n * pageSize + L.start .normal) = pageAt L n := by
  unfold kernPhyAddr2VirAddr pageAt
  rw [add32_of_lt]
  unfold LowMem kernBaseVirAddr pageSize at *
  omega

theorem kernVirAddr2PhyAddr_page (hlow : LowMem L) (hn : n < L.len .normal / pageSize)
    (hoff : off < pageSize) :
    kernVirAddr2PhyAddr (pageAt L n + off) = n * pageSize + L.start .normal + off := by
  unfold kernVirAddr2PhyAddr pageAt LowMem kernBaseVirAddr pageSize at *
  rw [sub32_of_le (by omega) (by omega)]
  omega

end Addresses

/-! ## One group -/

/-- What the sizes built by `mem_caches_build` have in common. -/
structure ClassOk (size count : ℕ) : Prop where
  size_pos : 0 < size
  count_pos : 0 < count
  bytes : count * size ≤ 4194304
  small : size < 1024 → count * size + 48 ≤ pageSize ∧ divRoundUp count 8 ≤ 16

/-- The pages for the objects of a group. -/
def storePages (size count : ℕ) : ℕ := divRoundUp (count * size) pageSize

/-- The block of pages the objects of a group lie in. -/
def storeBlock (L : PoolLayout) (size count g : ℕ) (G : MemGroup) : LiveAlloc :=
  if size < 1024 then ⟨nodeAt L g, 1⟩ else ⟨nodeAt L G.objects, storePages size count⟩

/-- The blocks of pages of a group. -/
def groupBlocks (L : PoolLayout) (size count g : ℕ) (G : MemGroup) : List LiveAlloc :=
  if size < 1024 then [⟨nodeAt L g, 1⟩]
  else [⟨nodeAt L g, 1⟩, ⟨nodeAt L G.objects, storePages size count⟩]

/-- The group has its record at the start of a page; its objects behind the bitmap or in pages
of their own; these pages point back to it; and its counts and its bitmap agree. -/
structure GroupOk (L : PoolLayout) (size count : ℕ) (nodes : ℕ → MemNode) (g : ℕ) (G : MemGroup) :
    Prop where
  home : g = pageAt L (nodeAt L g)
  objects : G.objects = if size < 1024 then g + 48 else pageAt L (nodeAt L G.objects)
  marked : ∀ k < (storeBlock L size count g G).count,
    (nodes ((storeBlock L size count g G).node + k)).group = some g
  length : G.map.byteLength = divRoundUp count 8
  sum : G.usingCount + G.freeCount = count
  bits : G.map.popcount = G.usingCount
  spare : ∀ i, count ≤ i → i < G.map.byteLength * 8 → G.map.bit i = false

section Group

variable {L : PoolLayout} {size count g : ℕ} {nodes nodes' : ℕ → MemNode} {G G' : MemGroup}

theorem le_divRoundUp (n : ℕ) {step : ℕ} (hstep : 0 < step) : n ≤ divRoundUp n step * step := by
  unfold divRoundUp
  have h₁ := Nat.div_add_mod (n + step - 1) step
  have h₂ := Nat.mod_lt (n + step - 1) hstep
  rw [Nat.mul_comm] at h₁
  omega

theorem storeBlock_mem_groupBlocks :
    storeBlock L size count g G ∈ groupBlocks L size count g G := by
  unfold storeBlock groupBlocks
  split_ifs <;> simp

/-- A group keeps its blocks as long as it keeps its objects where they are. -/
theorem groupBlocks_congr (h : G'.objects = G.objects) :
    groupBlocks L size count g G' = groupBlocks L size count g G := by
  unfold groupBlocks
  rw [h]

/-- Marks on other pages are none of the group's business. -/
theorem GroupOk.congr_nodes (h : GroupOk L size count nodes g G)
    (hnodes : ∀ k < (storeBlock L size count g G).count,
      (nodes' ((storeBlock L size count g G).node + k)).group =
        (nodes ((storeBlock L size count g G).node + k)).group) :
    GroupOk L size count nodes' g G :=
  ⟨h.home, h.objects, fun k hk => (hnodes k hk).trans (h.marked k hk), h.length, h.sum, h.bits,
    h.spare⟩

/-- The bitmap has a bit for every object. -/
theorem GroupOk.count_le (h : GroupOk L size count nodes g G) : count ≤ G.map.byteLength * 8 := by
  rw [h.length]
  exact le_divRoundUp count (by norm_num)

/-- **A scan finds an object**, if one is free: never a spare bit. -/
theorem GroupOk.scan (h : GroupOk L size count nodes g G) (hroom : G.usingCount < count) :
    ∃ idx, bitmapScan G.map 1 = some idx ∧ idx < count ∧ G.map.bit idx = false := by
  obtain ⟨i, hi, hclear⟩ := exists_clear_of_popcount_lt h.count_le (by rw [h.bits]; exact hroom)
  rcases bitmapScan_one G.map with ⟨-, hfull⟩ | ⟨idx, hscan, -, hbit, hfirst⟩
  · rw [hfull i (lt_of_lt_of_le hi h.count_le)] at hclear
    cases hclear
  · refine ⟨idx, hscan, ?_, hbit⟩
    by_contra hge
    rw [hfirst i (by omega)] at hclear
    cases hclear

/-- One more object in use. -/
theorem GroupOk.take (h : GroupOk L size count nodes g G) {idx : ℕ} (hidx : idx < count)
    (hclear : G.map.bit idx = false) (hroom : G.usingCount < count) :
    GroupOk L size count nodes g
      ⟨bitmapSet G.map idx true, G.objects, G.usingCount + 1, G.freeCount - 1⟩ := by
  have hsum := h.sum
  have hle := h.count_le
  refine ⟨h.home, h.objects, h.marked, h.length, ?_, ?_, fun i hlow hhigh => ?_⟩
  · show G.usingCount + 1 + (G.freeCount - 1) = count
    omega
  · show (bitmapSet G.map idx true).popcount = G.usingCount + 1
    rw [popcount_bitmapSet_true (by omega) hclear, h.bits]
  · rw [bitmapSet_bit, if_neg (by omega)]
    exact h.spare i hlow hhigh

/-- One object less in use. -/
theorem GroupOk.give (h : GroupOk L size count nodes g G) {idx : ℕ} (hidx : idx < count)
    (hset : G.map.bit idx = true) :
    0 < G.usingCount ∧ GroupOk L size count nodes g
      ⟨bitmapSet G.map idx false, G.objects, G.usingCount - 1, G.freeCount + 1⟩ := by
  have hsum := h.sum
  have hle := h.count_le
  have hpop := popcount_bitmapSet_false (show idx < G.map.byteLength * 8 by omega) hset
  rw [h.bits] at hpop
  refine ⟨by omega, h.home, h.objects, h.marked, h.length, ?_, ?_, fun i hlow hhigh => ?_⟩
  · show G.usingCount - 1 + (G.freeCount + 1) = count
    omega
  · show (bitmapSet G.map idx false).popcount = G.usingCount - 1
    omega
  · rw [bitmapSet_bit, if_neg (by omega)]
    exact h.spare i hlow hhigh

/-- A group as `mem_group_init` leaves it. -/
theorem groupOk_new {c : Cache} (hsize : c.objectSize = size) (hcount : c.objectCount = count)
    (bits : ℕ → BitVec 8) {objects : ℕ} (hhome : g = pageAt L (nodeAt L g))
    (hobjects : objects = if size < 1024 then g + 48 else pageAt L (nodeAt L objects))
    (hmarked : ∀ k < (storeBlock L size count g (newGroup c bits objects)).count,
      (nodes ((storeBlock L size count g (newGroup c bits objects)).node + k)).group = some g) :
    GroupOk L size count nodes g (newGroup c bits objects) := by
  subst hsize hcount
  refine ⟨hhome, hobjects, hmarked, rfl, Nat.zero_add _, popcount_bitmapInit _, fun i _ hi => ?_⟩
  exact bitmapInit_bit (by rwa [Nat.mul_comm])

/-- **An object lies in the pages for objects.** -/
theorem GroupOk.object_mem (h : GroupOk L size count nodes g G) (hclass : ClassOk size count)
    {i : ℕ} (hi : i < count) :
    pageAt L (storeBlock L size count g G).node ≤ G.objects + i * size ∧
      G.objects + i * size + size ≤
        pageAt L (storeBlock L size count g G).node +
          (storeBlock L size count g G).count * pageSize := by
  have hend : i * size + size ≤ count * size := by
    have hmul := Nat.mul_le_mul_right size hi
    rwa [Nat.succ_mul] at hmul
  have hhome := h.home
  have hobjects := h.objects
  unfold storeBlock
  by_cases hsmall : size < 1024
  · rw [if_pos hsmall] at hobjects ⊢
    have hfits := (hclass.small hsmall).1
    simp only [← hhome, hobjects]
    unfold pageSize at *
    omega
  · rw [if_neg hsmall] at hobjects ⊢
    have hpages := le_divRoundUp (count * size) (show 0 < pageSize by norm_num)
    simp only [← hobjects, storePages]
    omega

end Group

/-! ## All groups -/

/-- The groups of a cache. -/
def Cache.groups (c : Cache) : List ℕ := c.fullGroups ++ c.partialGroups ++ c.freeGroups

/-- The blocks of pages of a group of the cache. -/
def CacheState.blocks (L : PoolLayout) (s : CacheState) (g : ℕ) : List LiveAlloc :=
  groupBlocks L s.cache.objectSize s.cache.objectCount g (s.groups g)

/-- The blocks of pages the cache holds. -/
def CacheState.owned (L : PoolLayout) (s : CacheState) : List LiveAlloc :=
  s.cache.groups.flatMap (s.blocks L)

/-- The cache is of a size `mem_caches_build` builds, its groups are in order, and the pages they
hold are in use for them and for nothing else. -/
structure Core (L : PoolLayout) (boot : MemRangeIdx → ℕ → MemNode) (s : CacheState) : Prop where
  classOk : ClassOk s.cache.objectSize s.cache.objectCount
  pool : ∃ rest, NormalInv L boot s.ranges (s.owned L ++ rest)
  nodup : s.cache.groups.Nodup
  ok : ∀ g ∈ s.cache.groups, GroupOk L s.cache.objectSize s.cache.objectCount
    (s.ranges .normal).nodeTable g (s.groups g)

section Core

variable {L : PoolLayout} {boot : MemRangeIdx → ℕ → MemNode} {s : CacheState} {g g' : ℕ}

/-- Two blocks have no page in common. -/
def PagesApart (a c : LiveAlloc) : Prop := a.node + a.count ≤ c.node ∨ c.node + c.count ≤ a.node

theorem mem_owned {a : LiveAlloc} : a ∈ s.owned L ↔ ∃ g ∈ s.cache.groups, a ∈ s.blocks L g :=
  List.mem_flatMap

/-- Blocks of different groups are apart. -/
theorem Core.blocks_apart (h : Core L boot s) (hg : g ∈ s.cache.groups) (hg' : g' ∈ s.cache.groups)
    (hne : g ≠ g') : ∀ a ∈ s.blocks L g, ∀ c ∈ s.blocks L g', PagesApart a c := by
  obtain ⟨rest, hpool⟩ := h.pool
  have howned : (s.owned L).Pairwise PagesApart := (List.pairwise_append.1 hpool.pairwise).1
  have : Std.Symm fun x y => ∀ a ∈ s.blocks L x, ∀ c ∈ s.blocks L y, PagesApart a c :=
    ⟨fun x y hxy a ha c hc => Or.symm (hxy c hc a ha)⟩
  exact (List.pairwise_flatMap.1 howned).2.forall hg hg' hne

/-- The block with the objects of a group lies in the range. -/
theorem Core.store_end (h : Core L boot s) (hg : g ∈ s.cache.groups) :
    (storeBlock L s.cache.objectSize s.cache.objectCount g (s.groups g)).node +
        (storeBlock L s.cache.objectSize s.cache.objectCount g (s.groups g)).count ≤
      L.len .normal / pageSize := by
  obtain ⟨rest, hpool⟩ := h.pool
  exact (hpool.end_le (List.mem_append_left _ (mem_owned.2 ⟨g, hg, storeBlock_mem_groupBlocks⟩))).2

/-- The address of an object. -/
def CacheState.objectAt (s : CacheState) (g i : ℕ) : ℕ :=
  (s.groups g).objects + i * s.cache.objectSize

/-- **Different objects do not overlap.** -/
theorem object_apart (h : Core L boot s) (hg : g ∈ s.cache.groups) (hg' : g' ∈ s.cache.groups)
    {i j : ℕ} (hi : i < s.cache.objectCount) (hj : j < s.cache.objectCount) (hne : g ≠ g' ∨ i ≠ j) :
    s.objectAt g i + s.cache.objectSize ≤ s.objectAt g' j ∨
      s.objectAt g' j + s.cache.objectSize ≤ s.objectAt g i := by
  by_cases hgg : g = g'
  · subst hgg
    have hij : i ≠ j := hne.resolve_left fun h => h rfl
    unfold CacheState.objectAt
    rcases Nat.lt_or_gt_of_ne hij with hlt | hlt
    · have hmul := Nat.mul_le_mul_right s.cache.objectSize hlt
      rw [Nat.succ_mul] at hmul
      omega
    · have hmul := Nat.mul_le_mul_right s.cache.objectSize hlt
      rw [Nat.succ_mul] at hmul
      omega
  · have hapart := h.blocks_apart hg hg' hgg _ storeBlock_mem_groupBlocks _
      storeBlock_mem_groupBlocks
    have hmem := (h.ok g hg).object_mem h.classOk hi
    have hmem' := (h.ok g' hg').object_mem h.classOk hj
    unfold PagesApart pageAt at *
    unfold CacheState.objectAt pageSize at *
    omega

theorem object_inj (h : Core L boot s) (hg : g ∈ s.cache.groups) (hg' : g' ∈ s.cache.groups)
    {i j : ℕ} (hi : i < s.cache.objectCount) (hj : j < s.cache.objectCount)
    (heq : s.objectAt g i = s.objectAt g' j) : g = g' ∧ i = j := by
  by_contra hne
  have hpos := h.classOk.size_pos
  have hapart := object_apart h hg hg' hi hj (by
    by_cases hgg : g = g'
    · exact Or.inr fun hij => hne ⟨hgg, hij⟩
    · exact Or.inl hgg)
  omega

/-- The node of the page an object starts in is one of those of its group. -/
theorem object_node (h : Core L boot s) (hlow : LowMem L) (hg : g ∈ s.cache.groups) {i : ℕ}
    (hi : i < s.cache.objectCount) :
    ∃ k < (storeBlock L s.cache.objectSize s.cache.objectCount g (s.groups g)).count,
      phyAddrToMemNode s.ranges (kernVirAddr2PhyAddr (s.objectAt g i)) = some (.normal,
        (storeBlock L s.cache.objectSize s.cache.objectCount g (s.groups g)).node + k) := by
  obtain ⟨rest, hpool⟩ := h.pool
  have hend := h.store_end hg
  have hmem := (h.ok g hg).object_mem h.classOk hi
  have hpos := h.classOk.size_pos
  generalize storeBlock L s.cache.objectSize s.cache.objectCount g (s.groups g) = store at *
  obtain ⟨k, hk⟩ : ∃ k, k = (s.objectAt g i - pageAt L store.node) / pageSize := ⟨_, rfl⟩
  obtain ⟨off, hoff⟩ : ∃ off, off = (s.objectAt g i - pageAt L store.node) % pageSize := ⟨_, rfl⟩
  have hlt : off < pageSize := by
    rw [hoff]
    exact Nat.mod_lt _ (by norm_num)
  have haddr : s.objectAt g i = pageAt L (store.node + k) + off := by
    unfold CacheState.objectAt pageAt pageSize at *
    omega
  have hkcount : k < store.count := by
    unfold CacheState.objectAt at *
    unfold pageSize at *
    omega
  refine ⟨k, hkcount, ?_⟩
  rw [haddr, kernVirAddr2PhyAddr_page hlow (by omega) hlt,
    phyAddrToMemNode_normal hpool (by omega) hlt]

/-- **The way back** from an object to its group. -/
theorem object_lookup (h : Core L boot s) (hlow : LowMem L) (hg : g ∈ s.cache.groups) {i : ℕ}
    (hi : i < s.cache.objectCount) :
    ∃ n, phyAddrToMemNode s.ranges (kernVirAddr2PhyAddr (s.objectAt g i)) = some (.normal, n) ∧
      ((s.ranges .normal).nodeTable n).group = some g := by
  obtain ⟨k, hk, hnode⟩ := object_node h hlow hg hi
  exact ⟨_, hnode, (h.ok g hg).marked k hk⟩

/-- An object's address is below the end of the address space. -/
theorem object_lt (h : Core L boot s) (hlow : LowMem L) (hg : g ∈ s.cache.groups) {i : ℕ}
    (hi : i < s.cache.objectCount) : s.objectAt g i < wordSize ∧ s.objectAt g i ≠ 0 := by
  have hend := h.store_end hg
  have hmem := (h.ok g hg).object_mem h.classOk hi
  have hpos := h.classOk.size_pos
  generalize storeBlock L s.cache.objectSize s.cache.objectCount g (s.groups g) = store at *
  unfold CacheState.objectAt pageAt LowMem kernBaseVirAddr wordSize pageSize at *
  omega

end Core

end MemCache
end LightOS
