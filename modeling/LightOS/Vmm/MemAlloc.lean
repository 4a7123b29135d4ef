import LightOS.Vmm.MemAllocGrown

/-!
# Kernel memory: objects come and go

The seventeen caches and the large objects together: what `mem_alloc` hands out is entered into the
books of one cache, or of the list of large objects, and `mem_free` of it takes just this entry out
again.

* `HeapInv` — the books: the live objects of each cache, and the blocks of pages that others hold.
* `HeapInv.put` — a call on one cache keeps the books of the others.
* `memFree_memAlloc` — giving back what was handed out.
* `heapInv_built` — the books of the heap before the first request.
-/

namespace LightOS
namespace MemCache

open MemPool

/-! ## The books -/

/-- The pages of a large object. -/
def largeBlock (L : PoolLayout) (o : LargeMemObject) : LiveAlloc :=
  ⟨nodeAt L o.addr, divRoundUp o.size pageSize⟩

/-- The blocks of pages of all caches. -/
def Heap.cached (L : PoolLayout) (h : Heap) : List LiveAlloc :=
  (List.range maxMemCacheNr).flatMap fun k => (h.at k).owned L

/-- The blocks of pages of all caches and of the large objects. -/
def Heap.owned (L : PoolLayout) (h : Heap) : List LiveAlloc :=
  h.cached L ++ h.large.map (largeBlock L)

/-- The books of the allocator: `live` lists the objects of each cache that are in use, `rest` the
blocks of pages that others have from the pool. -/
structure HeapInv (L : PoolLayout) (boot : MemRangeIdx → ℕ → MemNode) (h : Heap) (live : ℕ → List ℕ)
    (rest : List LiveAlloc) : Prop where
  slab : ∀ k < maxMemCacheNr, SlabInv L boot (h.at k) (live k)
  size : ∀ k < maxMemCacheNr, cacheSizes[k]? = some (h.caches k).objectSize
  addr : ∀ j < maxMemCacheNr, ∀ k < maxMemCacheNr, (h.caches j).addr = (h.caches k).addr → j = k
  marked : ∀ k < maxMemCacheNr, Marked L (h.at k)
  pool : NormalInv L boot h.ranges (h.owned L ++ rest)
  home : ∀ o ∈ h.large, o.addr = pageAt L (nodeAt L o.addr)
  unmarked : ∀ o ∈ h.large, ((h.ranges .normal).nodeTable (nodeAt L o.addr)).cache = none
  records : ∀ o ∈ h.large, o.record ∈ live 0
  nodup : (h.large.map LargeMemObject.record).Nodup

section Heap

variable {L : PoolLayout} {boot : MemRangeIdx → ℕ → MemNode} {h : Heap} {live : ℕ → List ℕ}
  {rest : List LiveAlloc} {s s' : CacheState} {k : ℕ}

@[simp] theorem put_at_self (h : Heap) (k : ℕ) (s : CacheState) : (h.put k s).at k = s := by
  simp [Heap.put, Heap.at]

theorem put_at_of_ne {j : ℕ} (hj : j ≠ k) (h : Heap) (s : CacheState) :
    (h.put k s).at j = ⟨h.caches j, s.groups, s.ranges⟩ := by
  simp [Heap.put, Heap.at, Function.update_of_ne hj]

/-! ## A call on one cache -/

section Congr

variable {t : CacheState} {live : List ℕ}

/-- A cache keeps its blocks while its groups stay as they are. -/
theorem owned_congr (hcache : t.cache = s.cache)
    (hgroups : ∀ x ∈ s.cache.groups, t.groups x = s.groups x) :
    t.owned L = s.owned L := by
  unfold CacheState.owned
  rw [hcache]
  refine List.flatMap_congr fun x hx => ?_
  rw [CacheState.blocks, CacheState.blocks, hcache, hgroups x hx]

/-- **The books of a cache** do not depend on groups of others, nor on blocks of others. -/
theorem SlabInv.congr (h : SlabInv L boot s live) (hcache : t.cache = s.cache)
    (hgroups : ∀ x ∈ s.cache.groups, t.groups x = s.groups x)
    (hpool : ∃ rest, NormalInv L boot t.ranges (s.owned L ++ rest))
    (hnodes : SameNodes s.ranges t.ranges (s.owned L)) : SlabInv L boot t live := by
  refine ⟨⟨?_, ?_, ?_, fun x hx => ?_⟩, fun x => ?_, h.ledger.1, fun o => ?_⟩
  · rw [hcache]
    exact h.core.classOk
  · rwa [owned_congr hcache hgroups]
  · rw [hcache]
    exact h.core.nodup
  · rw [hcache] at hx ⊢
    rw [hgroups x hx]
    exact (h.core.ok x hx).congr_nodes fun k hk => congrArg MemNode.group
      (hnodes _ (mem_owned.2 ⟨x, hx, storeBlock_mem_groupBlocks⟩) k hk)
  · have hlisted := h.listed x
    refine ⟨fun hmem => ?_, fun hmem => ?_, fun hmem => ?_⟩
    · rw [hcache] at hmem ⊢
      rw [hgroups x (mem_groups.2 (Or.inl hmem))]
      exact hlisted.full hmem
    · rw [hcache] at hmem ⊢
      rw [hgroups x (mem_groups.2 (Or.inr (Or.inl hmem)))]
      exact hlisted.part hmem
    · rw [hcache] at hmem
      rw [hgroups x (mem_groups.2 (Or.inr (Or.inr hmem)))]
      exact hlisted.free hmem
  · rw [h.ledger.2, InUse, InUse, hcache]
    refine exists_congr fun x => and_congr_right fun hx => ?_
    have hobject : ∀ i, t.objectAt x i = s.objectAt x i := by
      intro i
      rw [CacheState.objectAt, CacheState.objectAt, hgroups x hx, hcache]
    simp only [hobject, hgroups x hx]

theorem Marked.congr (h : Marked L s) (hcache : t.cache = s.cache)
    (hgroups : ∀ x ∈ s.cache.groups, t.groups x = s.groups x)
    (hnodes : SameNodes s.ranges t.ranges (s.owned L)) : Marked L t := by
  intro x hx k hk
  rw [hcache] at hx hk ⊢
  rw [hgroups x hx] at hk ⊢
  have hsame := hnodes _ (mem_owned.2 ⟨x, hx, storeBlock_mem_groupBlocks⟩) k hk
  exact (congrArg MemNode.cache hsame).trans (h x hx k hk)

end Congr

/-- The blocks that are not those of the cache. -/
def Heap.others (L : PoolLayout) (h : Heap) (k : ℕ) (rest : List LiveAlloc) : List LiveAlloc :=
  ((List.range maxMemCacheNr).erase k).flatMap (fun j => (h.at j).owned L) ++ rest

theorem cached_perm (h : Heap) (hk : k < maxMemCacheNr) :
    (h.cached L ++ rest).Perm ((h.at k).owned L ++ h.others L k rest) := by
  have hperm := (List.perm_cons_erase (List.mem_range.2 hk)).flatMap_right fun j => (h.at j).owned L
  rw [List.flatMap_cons] at hperm
  have happend := hperm.append_right rest
  rwa [List.append_assoc] at happend

theorem owned_perm_others (h : Heap) (hk : k < maxMemCacheNr) :
    (h.owned L ++ rest).Perm ((h.at k).owned L ++
      h.others L k (h.large.map (largeBlock L) ++ rest)) := by
  unfold Heap.owned
  rw [List.append_assoc]
  exact cached_perm h hk

theorem mem_others_of_ne {j : ℕ} (hj : j < maxMemCacheNr) (hne : j ≠ k) {a : LiveAlloc}
    (ha : a ∈ (h.at j).owned L) : a ∈ h.others L k rest :=
  List.mem_append_left _ (List.mem_flatMap.2 ⟨j,
    (List.mem_erase_of_ne hne).2 (List.mem_range.2 hj), ha⟩)

/-- What a call on one cache leaves to the other caches. -/
theorem HeapInv.grown_others (hinv : HeapInv L boot h live rest) (hk : k < maxMemCacheNr)
    (hgrown : Grown L boot (h.at k) s') {j : ℕ} (hj : j < maxMemCacheNr) (hne : j ≠ k) :
    (∀ x ∈ (h.caches j).groups, s'.groups x = h.groups x) ∧
      SameNodes h.ranges s'.ranges ((h.at j).owned L) := by
  obtain ⟨hpool, hnodes⟩ := hgrown.pool _ (hinv.pool.perm (owned_perm_others h hk))
  refine ⟨fun x hx => hgrown.others x fun hmem => ?_,
    fun a ha => hnodes a (mem_others_of_ne hj hne ha)⟩
  -- a page is not the home of groups of two caches
  have hother : (⟨nodeAt L x, 1⟩ : LiveAlloc) ∈ h.others L k (h.large.map (largeBlock L) ++ rest) :=
    mem_others_of_ne hj hne (mem_owned.2 ⟨x, hx, home_mem_groupBlocks⟩)
  have hapart := (List.pairwise_append.1 hpool.pairwise).2.2 _
    (mem_owned.2 ⟨x, hmem, home_mem_groupBlocks⟩) _ hother
  simp only at hapart
  omega

theorem others_put (h : Heap) (k : ℕ) {s : CacheState}
    (hgroups : ∀ j < maxMemCacheNr, j ≠ k → ∀ x ∈ (h.caches j).groups, s.groups x = h.groups x) :
    (h.put k s).others L k rest = h.others L k rest := by
  unfold Heap.others
  refine congrArg (· ++ rest) (List.flatMap_congr fun j hj => ?_)
  have hmem := List.mem_of_mem_erase hj
  have hne : j ≠ k := by
    rintro rfl
    exact List.Nodup.not_mem_erase (List.nodup_range) hj
  rw [put_at_of_ne hne]
  exact owned_congr (s := h.at j) rfl (hgroups j (List.mem_range.1 hmem) hne)

/-- A large object stays without a cache where its nodes stay. -/
theorem HeapInv.unmarked_of_sameNodes (hinv : HeapInv L boot h live rest) {ranges : MemRanges}
    {held : List LiveAlloc} (hnodes : SameNodes h.ranges ranges held) {o : LargeMemObject}
    (ho : o ∈ h.large) (hblock : largeBlock L o ∈ held) (hcount : 0 < (largeBlock L o).count) :
    ((ranges .normal).nodeTable (nodeAt L o.addr)).cache = none := by
  have hsame := hnodes _ hblock 0 hcount
  rw [Nat.add_zero] at hsame
  simp only [largeBlock] at hsame
  have hmark := hinv.unmarked o ho
  rw [← hsame] at hmark
  exact hmark

/-- **A call on one cache** keeps the books of the others. -/
theorem HeapInv.put (hinv : HeapInv L boot h live rest) (hk : k < maxMemCacheNr) {objects : List ℕ}
    (hslab : SlabInv L boot s' objects) (hgrown : Grown L boot (h.at k) s')
    (hrecords : k = 0 → ∀ o ∈ h.large, o.record ∈ objects) :
    HeapInv L boot (h.put k s') (Function.update live k objects) rest := by
  obtain ⟨hpool, hnodes⟩ := hgrown.pool _ (hinv.pool.perm (owned_perm_others h hk))
  have hother := fun j hj hne => hinv.grown_others hk hgrown (j := j) hj hne
  have hpool' : NormalInv L boot (h.put k s').ranges ((h.put k s').owned L ++ rest) := by
    refine hpool.perm (List.Perm.symm ((owned_perm_others _ hk).trans (List.Perm.of_eq ?_)))
    rw [put_at_self, others_put h k fun j hj hne => (hother j hj hne).1]
    rfl
  refine ⟨fun j hj => ?_, fun j hj => ?_, fun i hi j hj => ?_, fun j hj => ?_, hpool', hinv.home,
    fun o ho => ?_, fun o ho => ?_, hinv.nodup⟩
  · by_cases hne : j = k
    · subst hne
      rwa [put_at_self, Function.update_self]
    · rw [put_at_of_ne hne, Function.update_of_ne hne]
      have hview := hpool'.perm (owned_perm_others _ hj)
      rw [put_at_of_ne hne, owned_congr (t := ⟨h.caches j, s'.groups, s'.ranges⟩) (s := h.at j) rfl
        (hother j hj hne).1] at hview
      exact (hinv.slab j hj).congr rfl (hother j hj hne).1 ⟨_, hview⟩ (hother j hj hne).2
  · by_cases hne : j = k
    · subst hne
      simp only [Heap.put, Function.update_self]
      rw [hgrown.size]
      exact hinv.size j hj
    · simp only [Heap.put, Function.update_of_ne hne]
      exact hinv.size j hj
  · have haddr : ∀ j, ((h.put k s').caches j).addr = (h.caches j).addr := by
      intro j
      by_cases hne : j = k
      · subst hne
        simp only [Heap.put, Function.update_self]
        exact hgrown.addr
      · simp only [Heap.put, Function.update_of_ne hne]
    rw [haddr, haddr]
    exact hinv.addr i hi j hj
  · by_cases hne : j = k
    · subst hne
      rw [put_at_self]
      exact hgrown.marked (hinv.marked j hj)
    · rw [put_at_of_ne hne]
      exact (hinv.marked j hj).congr rfl (hother j hj hne).1 (hother j hj hne).2
  · have hlarge : largeBlock L o ∈ h.others L k (h.large.map (largeBlock L) ++ rest) :=
      List.mem_append_right _ (List.mem_append_left _ (List.mem_map_of_mem ho))
    exact hinv.unmarked_of_sameNodes hnodes ho hlarge
      (hpool.end_le (List.mem_append_right _ hlarge)).1
  · by_cases hzero : k = 0
    · subst hzero
      rw [Function.update_self]
      exact hrecords rfl o ho
    · rw [Function.update_of_ne (Ne.symm hzero)]
      exact hinv.records o ho

/-! ## Objects of a cache -/

/-- The node of the page of an object leads to its cache. -/
theorem HeapInv.object_cache (hinv : HeapInv L boot h live rest) (hlow : LowMem L)
    (hk : k < maxMemCacheNr) {o : ℕ} (ho : o ∈ live k) :
    ∃ n, phyAddrToMemNode h.ranges (kernVirAddr2PhyAddr o) = some (.normal, n) ∧
      ((h.ranges .normal).nodeTable n).cache = some (h.caches k).addr := by
  obtain ⟨g, hg, i, hi, -, heq⟩ := ((hinv.slab k hk).ledger.2 o).1 ho
  obtain ⟨j, hj, hnode⟩ := object_node (hinv.slab k hk).core hlow hg hi
  have hmark := hinv.marked k hk g hg j hj
  rw [← heq] at hnode
  generalize (storeBlock L (h.at k).cache.objectSize (h.at k).cache.objectCount g
    ((h.at k).groups g)).node + j = n
    at hnode hmark
  exact ⟨n, hnode, hmark⟩

/-- The address of a cache leads to the cache. -/
theorem HeapInv.find_cache (hinv : HeapInv L boot h live rest) (hk : k < maxMemCacheNr) :
    (List.range maxMemCacheNr).find? (fun j => (h.caches j).addr = (h.caches k).addr) = some k := by
  rw [List.find?_range_eq_some]
  refine ⟨by simp, List.mem_range.2 hk, fun j hj => ?_⟩
  have hne : (h.caches j).addr ≠ (h.caches k).addr := fun heq =>
    hj.ne (hinv.addr j (hj.trans hk) k hk heq)
  simpa using hne

/-- **An object of a cache is given back.** -/
theorem memFreeCached_spec (hinv : HeapInv L boot h live rest) (hlow : LowMem L)
    (hk : k < maxMemCacheNr) {o : ℕ}
    (ho : o ∈ live k) (hrecord : k = 0 → ∀ l ∈ h.large, l.record ≠ o) :
    ∃ h', memFreeCached h o = some h' ∧ h'.large = h.large ∧
      HeapInv L boot h' (Function.update live k ((live k).erase o)) rest := by
  obtain ⟨n, hnode, hcache⟩ := hinv.object_cache hlow hk ho
  obtain ⟨s', hrun, hslab, hgrown⟩ := memCacheDoFree_grown (hinv.slab k hk) hlow ho
  refine ⟨h.put k s', ?_, rfl, hinv.put hk hslab hgrown fun hzero l hl => ?_⟩
  · rw [memFreeCached, if_neg (object_ne_zero (hinv.slab k hk) hlow ho), hnode, Option.bind_some]
    dsimp only
    rw [hcache, Option.bind_some, memCacheFreeObject, hinv.find_cache hk, Option.bind_some, hrun,
      Option.map_some]
  · subst hzero
    exact (List.mem_erase_of_ne (hrecord rfl l hl)).2 (hinv.records l hl)

/-- `mem_free` finds the cache of an object. -/
theorem memFree_eq_cached (hinv : HeapInv L boot h live rest) (hlow : LowMem L)
    (hk : k < maxMemCacheNr) {o : ℕ} (ho : o ∈ live k) : memFree h o = memFreeCached h o := by
  obtain ⟨n, hnode, hcache⟩ := hinv.object_cache hlow hk ho
  have hne := object_ne_zero (hinv.slab k hk) hlow ho
  rw [memFree, if_neg hne, memFreeCached, if_neg hne, hnode, Option.bind_some, Option.bind_some]
  dsimp only
  rw [hcache, Option.bind_some]

/-- **An object of a cache is handed out.** -/
theorem memAllocSmall_spec (hinv : HeapInv L boot h live rest) (hlow : LowMem L) {size p : ℕ}
    {h' : Heap} (hk : sizeClass size < maxMemCacheNr) (hrun : memAllocSmall h size = some (h', p))
    (hp : p ≠ 0) :
    h'.large = h.large ∧
      HeapInv L boot h' (Function.update live (sizeClass size) (p :: live (sizeClass size)))
      rest := by
  obtain ⟨⟨s', o⟩, hobject, heq⟩ := Option.map_eq_some_iff.1 hrun
  rw [Prod.mk.injEq] at heq
  obtain ⟨rfl, rfl⟩ := heq
  obtain ⟨hslab, hgrown⟩ := memCacheAllocObject_grown (hinv.slab _ hk) hlow hobject hp
  refine ⟨rfl, hinv.put hk hslab hgrown fun hzero l hl => ?_⟩
  rw [hzero]
  exact List.mem_cons_of_mem _ (hinv.records l hl)

/-! ## Large objects -/

/-- The books of a cache when only the pool changes. -/
theorem HeapInv.slab_ranges (hinv : HeapInv L boot h live rest) (large : List LargeMemObject)
    {ranges : MemRanges} {extra : List LiveAlloc}
    (hpool : NormalInv L boot ranges (h.cached L ++ extra))
    (hnodes : SameNodes h.ranges ranges (h.cached L)) (hk : k < maxMemCacheNr) :
    SlabInv L boot (Heap.at { h with ranges := ranges, large := large } k) (live k) ∧
      Marked L (Heap.at { h with ranges := ranges, large := large } k) := by
  have hsub : SameNodes (h.at k).ranges ranges ((h.at k).owned L) := fun a ha =>
    hnodes a (List.mem_flatMap.2 ⟨k, List.mem_range.2 hk, ha⟩)
  exact ⟨(hinv.slab k hk).congr rfl (fun _ _ => rfl) ⟨_, hpool.perm (cached_perm h hk)⟩ hsub,
    (hinv.marked k hk).congr rfl (fun _ _ => rfl) hsub⟩

/-- **A large object comes**, with a record that is an object already. -/
theorem HeapInv.addLarge (hinv : HeapInv L boot h live rest) (hlow : LowMem L) {ranges : MemRanges}
    {o : LargeMemObject} (hrun : memCachePageAlloc h.ranges (divRoundUp o.size pageSize) =
      some (ranges, o.addr))
    (haddr : o.addr ≠ 0) (hrecord : o.record ∈ live 0)
    (hfresh : ∀ l ∈ h.large, l.record ≠ o.record) :
    HeapInv L boot { h with ranges := ranges, large := o :: h.large } live rest := by
  obtain ⟨hhome, hpool, hkeep⟩ := memCachePageAlloc_view hinv.pool hlow hrun haddr
  have hnodes : SameNodes h.ranges ranges (h.owned L ++ rest) := fun a ha i hi =>
    hkeep _ (hinv.pool.held_add ha hi)
  have hcached : (largeBlock L o :: (h.owned L ++ rest)).Perm
      (h.cached L ++ ((o :: h.large).map (largeBlock L) ++ rest)) := by
    unfold Heap.owned
    rw [List.append_assoc]
    exact List.perm_middle.symm
  have hslab := fun j (hj : j < maxMemCacheNr) => hinv.slab_ranges (o :: h.large)
    (hpool.perm hcached)
    (fun a ha => hnodes a (List.mem_append_left _ (List.mem_append_left _ ha))) hj
  refine ⟨fun j hj => (hslab j hj).1, hinv.size, hinv.addr, fun j hj => (hslab j hj).2, ?_, ?_, ?_,
    ?_, ?_⟩
  · refine hpool.perm (hcached.trans (List.Perm.of_eq ?_))
    rw [← List.append_assoc]
    rfl
  · intro l hl
    rcases List.mem_cons.1 hl with rfl | hl
    · exact hhome
    · exact hinv.home l hl
  · intro l hl
    rcases List.mem_cons.1 hl with rfl | hl
    · exact memCachePageAlloc_unmarked hinv.pool hlow hrun haddr
    · have hblock : largeBlock L l ∈ h.owned L ++ rest :=
        List.mem_append_left _ (List.mem_append_right _ (List.mem_map_of_mem hl))
      exact hinv.unmarked_of_sameNodes hnodes hl hblock (hinv.pool.end_le hblock).1
  · intro l hl
    rcases List.mem_cons.1 hl with rfl | hl
    · exact hrecord
    · exact hinv.records l hl
  · rw [List.map_cons, List.nodup_cons]
    refine ⟨fun hmem => ?_, hinv.nodup⟩
    obtain ⟨l, hl, heq⟩ := List.mem_map.1 hmem
    exact hfresh l hl heq

/-- **A large object goes**; its record stays an object for now. -/
theorem HeapInv.dropLarge (hinv : HeapInv L boot h live rest) (hlow : LowMem L) {o : LargeMemObject}
    {l₁ l₂ : List LargeMemObject} (hlarge : h.large = l₁ ++ o :: l₂) :
    ∃ ranges, memCachePageFree h.ranges o.addr = some (ranges, 0) ∧
      HeapInv L boot { h with ranges := ranges, large := l₁ ++ l₂ } live rest := by
  have hmem : o ∈ h.large := by
    rw [hlarge]
    simp
  have hsub : ∀ l ∈ l₁ ++ l₂, l ∈ h.large := by
    intro l hl
    rw [hlarge]
    rcases List.mem_append.1 hl with hl | hl
    · exact List.mem_append_left _ hl
    · exact List.mem_append_right _ (List.mem_cons_of_mem _ hl)
  have hperm : (h.owned L ++ rest).Perm
      (largeBlock L o :: (h.cached L ++ ((l₁ ++ l₂).map (largeBlock L) ++ rest))) := by
    unfold Heap.owned
    rw [hlarge, List.append_assoc]
    refine ((List.perm_middle.map (largeBlock L)).append_right rest).append_left _ |>.trans ?_
    exact List.perm_middle
  have hpool := hinv.pool.perm hperm
  obtain ⟨ranges, hrun, hpool', hkeep⟩ := memCachePageFree_spec hpool hlow
  have hnodes : SameNodes h.ranges ranges (h.cached L ++
      ((l₁ ++ l₂).map (largeBlock L) ++ rest)) := by
    intro a ha i hi
    apply hkeep
    have hapart := apart_of_new hpool ha
    have hpos := (hpool.end_le (List.mem_cons_self ..)).1
    omega
  have hslab := fun j (hj : j < maxMemCacheNr) => hinv.slab_ranges (l₁ ++ l₂) hpool'
    (fun a ha => hnodes a (List.mem_append_left _ ha)) hj
  refine ⟨ranges, ?_, fun j hj => (hslab j hj).1, hinv.size, hinv.addr, fun j hj => (hslab j hj).2,
    ?_, ?_, ?_, ?_, ?_⟩
  · rw [hinv.home o hmem]
    exact hrun
  · refine hpool'.perm (List.Perm.of_eq ?_)
    rw [← List.append_assoc]
    rfl
  · exact fun l hl => hinv.home l (hsub l hl)
  · intro l hl
    have hblock : largeBlock L l ∈ h.cached L ++ ((l₁ ++ l₂).map (largeBlock L) ++ rest) :=
      List.mem_append_right _ (List.mem_append_left _ (List.mem_map_of_mem hl))
    exact hinv.unmarked_of_sameNodes hnodes (hsub l hl) hblock (hpool'.end_le hblock).1
  · exact fun l hl => hinv.records l (hsub l hl)
  · have hnodup := hinv.nodup
    rw [hlarge, List.map_append, List.map_cons] at hnodup
    rw [List.map_append]
    exact (List.nodup_middle.1 hnodup).of_cons

/-- A page of the normal range leads to its node. -/
theorem page_node {p : MemRanges} {held : List LiveAlloc} (hpool : NormalInv L boot p held)
    (hlow : LowMem L) {n : ℕ} (hn : n < L.len .normal / pageSize) :
    phyAddrToMemNode p (kernVirAddr2PhyAddr (pageAt L n)) = some (.normal, n) := by
  have hzero : 0 < pageSize := by norm_num
  have hphy := kernVirAddr2PhyAddr_page hlow hn hzero
  have hnode := phyAddrToMemNode_normal hpool hn hzero
  rwa [← hphy, Nat.add_zero] at hnode

/-- The first page of a large object leads to no cache. -/
theorem HeapInv.large_node (hinv : HeapInv L boot h live rest) (hlow : LowMem L)
    {o : LargeMemObject} (ho : o ∈ h.large) :
    ∃ n, phyAddrToMemNode h.ranges (kernVirAddr2PhyAddr o.addr) = some (.normal, n) ∧
      ((h.ranges .normal).nodeTable n).cache = none := by
  have hblock : largeBlock L o ∈ h.owned L ++ rest :=
    List.mem_append_left _ (List.mem_append_right _ (List.mem_map_of_mem ho))
  obtain ⟨hpos, hend⟩ := hinv.pool.end_le hblock
  have hlt : (largeBlock L o).node < L.len .normal / pageSize :=
    lt_of_lt_of_le (Nat.lt_add_of_pos_right hpos) hend
  have hnode := page_node hinv.pool hlow hlt
  refine ⟨(largeBlock L o).node, ?_, hinv.unmarked o ho⟩
  rw [← hnode]
  exact congrArg (fun a => phyAddrToMemNode h.ranges (kernVirAddr2PhyAddr a)) (hinv.home o ho)

/-- **A large object is given back**, and its record with it. -/
theorem memFree_large_spec (hinv : HeapInv L boot h live rest) (hlow : LowMem L)
    {o : LargeMemObject} {l₁ l₂ : List LargeMemObject} (hlarge : h.large = l₁ ++ o :: l₂)
    (hfirst : ∀ l ∈ l₁, l.addr ≠ o.addr) :
    ∃ h', memFree h o.addr = some h' ∧ h'.large = l₁ ++ l₂ ∧
      HeapInv L boot h' (Function.update live 0 ((live 0).erase o.record)) rest := by
  have hmem : o ∈ h.large := by
    rw [hlarge]
    simp
  obtain ⟨n, hnode, hcache⟩ := hinv.large_node hlow hmem
  obtain ⟨ranges, hfree, hdrop⟩ := hinv.dropLarge hlow hlarge
  have hne : o.addr ≠ 0 := by
    rw [hinv.home o hmem]
    exact pageAt_ne_zero L _
  have hnodup := hinv.nodup
  rw [hlarge, List.map_append, List.map_cons] at hnodup
  have hrecord : ∀ l ∈ l₁ ++ l₂, l.record ≠ o.record := by
    intro l hl heq
    have hnot := (List.nodup_cons.1 (List.nodup_middle.1 hnodup)).1
    rw [← List.map_append, ← heq] at hnot
    exact hnot (List.mem_map_of_mem hl)
  obtain ⟨h', hrun, hrest, hinv'⟩ := memFreeCached_spec hdrop hlow (by decide) (hinv.records o hmem)
    fun _ => hrecord
  have hfind : h.large.find? (fun l => l.addr = o.addr) = some o := by
    rw [List.find?_eq_some_iff_append]
    exact ⟨by simp, l₁, l₂, hlarge, fun l hl => by simpa using hfirst l hl⟩
  have herase : h.large.eraseP (fun l => l.addr = o.addr) = l₁ ++ l₂ := by
    rw [hlarge, List.eraseP_append_right _ fun l hl => by simpa using hfirst l hl,
      List.eraseP_cons_of_pos (by simp)]
  refine ⟨h', ?_, hrest, hinv'⟩
  rw [memFree, if_neg hne, hnode, Option.bind_some]
  dsimp only
  rw [hcache]
  dsimp only
  rw [hfind]
  dsimp only
  rw [hfree, Option.bind_some, herase]
  exact hrun

/-! ## What is handed out is given back -/

theorem sizeClass_lt {size : ℕ} (hsize : size ≤ maxMemCacheSize) :
    sizeClass size < maxMemCacheNr := by
  have hmem : (2097152 : ℕ) ∈ cacheSizes := by decide
  exact List.findIdx_lt_length_of_exists ⟨_, hmem, by simpa using hsize⟩

/-- The objects of a cache after one is handed out and given back. -/
theorem update_erase_cons (live : ℕ → List ℕ) (k p : ℕ) :
    Function.update (Function.update live k (p :: live k)) k
      ((Function.update live k (p :: live k) k).erase p) = live := by
  rw [Function.update_self, List.erase_cons_head, Function.update_idem, Function.update_eq_self]

/-- Giving back what `mem_alloc` got from a cache. -/
theorem memFreeCached_memAllocSmall (hinv : HeapInv L boot h live rest) (hlow : LowMem L)
    {size p : ℕ} {h' : Heap}
    (hk : sizeClass size < maxMemCacheNr) (hrun : memAllocSmall h size = some (h', p))
    (hp : p ≠ 0) :
    memFree h' p = memFreeCached h' p ∧
      ∃ h'', memFreeCached h' p = some h'' ∧ h''.large = h.large ∧
        HeapInv L boot h'' live rest := by
  obtain ⟨hlarge, hinv'⟩ := memAllocSmall_spec hinv hlow hk hrun hp
  have hmem : p ∈ Function.update live (sizeClass size) (p :: live (sizeClass size))
      (sizeClass size) := by
    rw [Function.update_self]
    exact List.mem_cons_self ..
  have hfresh : p ∉ live (sizeClass size) := by
    have hnodup := (hinv'.slab _ hk).ledger.1
    rw [Function.update_self] at hnodup
    exact (List.nodup_cons.1 hnodup).1
  have hrecord : sizeClass size = 0 → ∀ l ∈ h'.large, l.record ≠ p := by
    rintro hzero l hl rfl
    rw [hlarge] at hl
    rw [hzero] at hfresh
    exact hfresh (hinv.records l hl)
  obtain ⟨h'', hfree, hlarge', hinv''⟩ := memFreeCached_spec hinv' hlow hk hmem hrecord
  rw [update_erase_cons] at hinv''
  exact ⟨memFree_eq_cached hinv' hlow hk hmem, h'', hfree, hlarge'.trans hlarge, hinv''⟩

/-- **A large object is handed out**, with a record from the smallest cache. -/
theorem memAllocLarge_spec (hinv : HeapInv L boot h live rest) (hlow : LowMem L) {size p : ℕ}
    {h' : Heap} (hrun : memAllocLarge h size = some (h', p)) (hp : p ≠ 0) :
    ∃ r, h'.large = ⟨r, size, p⟩ :: h.large ∧
      HeapInv L boot h' (Function.update live 0 (r :: live 0)) rest := by
  obtain ⟨⟨h₁, r⟩, hsmall, hrun⟩ := Option.bind_eq_some_iff.1 hrun
  dsimp only at hrun
  by_cases hr : r = 0
  · rw [if_pos hr, Option.some.injEq, Prod.mk.injEq] at hrun
    exact absurd hrun.2.symm hp
  rw [if_neg hr] at hrun
  obtain ⟨⟨ranges, a⟩, halloc, hrun⟩ := Option.bind_eq_some_iff.1 hrun
  dsimp only at hrun
  by_cases ha : a = 0
  · rw [if_pos ha, Option.map_eq_some_iff] at hrun
    obtain ⟨h₂, -, heq⟩ := hrun
    rw [Prod.mk.injEq] at heq
    exact absurd heq.2.symm hp
  rw [if_neg ha, Option.some.injEq, Prod.mk.injEq] at hrun
  obtain ⟨rfl, rfl⟩ := hrun
  have hclass : sizeClass sizeofLargeMemObject = 0 := by decide
  obtain ⟨hlarge, hinv₁⟩ := memAllocSmall_spec hinv hlow (by rw [hclass]; decide) hsmall hr
  rw [hclass] at hinv₁
  have hslab := hinv₁.slab 0 (by decide)
  rw [Function.update_self] at hslab
  have hfresh : ∀ l ∈ h₁.large, l.record ≠ r := by
    rintro l hl rfl
    rw [hlarge] at hl
    exact (List.nodup_cons.1 hslab.ledger.1).1 (hinv.records l hl)
  refine ⟨r, by rw [← hlarge], hinv₁.addLarge (o := ⟨r, size, a⟩) hlow halloc ha ?_ hfresh⟩
  rw [Function.update_self]
  exact List.mem_cons_self ..

/-- Giving back what `mem_alloc` got from the page pool. -/
theorem memFree_memAllocLarge (hinv : HeapInv L boot h live rest) (hlow : LowMem L) {size p : ℕ}
    {h' : Heap} (hrun : memAllocLarge h size = some (h', p)) (hp : p ≠ 0) :
    ∃ h'', memFree h' p = some h'' ∧ h''.large = h.large ∧ HeapInv L boot h'' live rest := by
  obtain ⟨r, hlarge, hinv'⟩ := memAllocLarge_spec hinv hlow hrun hp
  obtain ⟨h'', hfree, hrest, hinv''⟩ := memFree_large_spec (o := ⟨r, size, p⟩) hinv' hlow hlarge
    fun _ hl => absurd hl List.not_mem_nil
  rw [update_erase_cons] at hinv''
  exact ⟨h'', hfree, hrest, hinv''⟩

/-- **What `mem_alloc` hands out, `mem_free` takes back**, and nothing else. -/
theorem memFree_memAlloc (hinv : HeapInv L boot h live rest) (hlow : LowMem L) {size p : ℕ}
    {h' : Heap} (hrun : memAlloc h size = some (h', p)) (hp : p ≠ 0) :
    ∃ h'', memFree h' p = some h'' ∧ h''.large = h.large ∧ HeapInv L boot h'' live rest := by
  unfold memAlloc at hrun
  split_ifs at hrun with hbig hmax
  · rw [Option.some.injEq, Prod.mk.injEq] at hrun
    exact absurd hrun.2.symm hp
  · exact memFree_memAllocLarge hinv hlow hrun hp
  · obtain ⟨heq, hfree⟩ :=
      memFreeCached_memAllocSmall hinv hlow (sizeClass_lt (not_lt.1 hbig)) hrun hp
    rwa [heq]

end Heap

/-! ## The heap that is built -/

/-- A cache as `mem_caches_build` leaves it. -/
def builtCache (memCaches : ℕ → ℕ) (k : ℕ) : Cache :=
  ⟨memCaches k, [], [], [], cacheSizes.getD k 0, objectCountOf (cacheSizes.getD k 0)⟩

/-- The heap before the first request. -/
def builtHeap (memCaches : ℕ → ℕ) (groups : ℕ → MemGroup) (ranges : MemRanges) : Heap :=
  ⟨builtCache memCaches, groups, ranges, []⟩

/-- **The books of the heap that is built**, whatever the pool has been used for. -/
theorem heapInv_built {L : PoolLayout} {boot : MemRangeIdx → ℕ → MemNode} {memCaches : ℕ → ℕ}
    {groups : ℕ → MemGroup}
    {ranges : MemRanges} {used : List LiveAlloc} (hpool : NormalInv L boot ranges used)
    (haddr : ∀ j < maxMemCacheNr, ∀ k < maxMemCacheNr, memCaches j = memCaches k → j = k) :
    HeapInv L boot (builtHeap memCaches groups ranges) (fun _ => []) used := by
  have howned : (builtHeap memCaches groups ranges).owned L = [] := by
    simp [Heap.owned, Heap.cached, builtHeap, CacheState.owned, Heap.at, Cache.groups, builtCache]
  refine ⟨fun k hk => ?_, fun k hk => ?_, haddr, fun k hk g hg => ?_, ?_, ?_, ?_, ?_,
    List.nodup_nil⟩
  · have hsize : cacheSizes.getD k 0 ∈ cacheSizes := by
      rw [List.getD_eq_getElem _ _ hk]
      exact List.getElem_mem hk
    exact slabInv_empty hpool rfl (classOk_cacheSizes _ hsize)
  · show cacheSizes[k]? = some (cacheSizes.getD k 0)
    rw [List.getD_eq_getElem _ _ hk]
    exact List.getElem?_eq_getElem hk
  · exact absurd hg List.not_mem_nil
  · rw [howned]
    exact hpool
  all_goals exact fun o ho => absurd ho List.not_mem_nil

end MemCache
end LightOS
