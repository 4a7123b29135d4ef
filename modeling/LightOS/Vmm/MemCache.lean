import LightOS.Vmm.MemCacheGrow

/-!
# Memory caches: runs

A run of `mem_cache_alloc_object`, `mem_cache_free_object` and `mem_cahce_shrink` on one
cache, from an empty cache `mem_caches_build` built.  The state carries the objects handed
out and not given back.

* `memCacheAllocObject_spec` — allocating, from a partial, a free or a new group.
* `slabInv_step` — one call keeps the invariant.
* `memCache_slabOk` — what the invariant says after every run.
-/

namespace LightOS
namespace MemCache

open MemPool

section Alloc

variable {L : PoolLayout} {boot : MemRangeIdx → ℕ → MemNode} {s : CacheState} {live : List ℕ}
  {g : ℕ}

theorem object_ne_zero (h : SlabInv L boot s live) (hlow : LowMem L) {o : ℕ} (ho : o ∈ live) :
    o ≠ 0 := by
  obtain ⟨g, hg, i, hi, -, rfl⟩ := (h.ledger.2 o).1 ho
  exact (object_lt h.core hlow hg hi).2

/-- From a group on the partial list. -/
theorem doAlloc_partial (h : SlabInv L boot s live) (hlow : LowMem L)
    (hg : g ∈ s.cache.partialGroups) :
    (memCacheDoAlloc s g).2 ≠ 0 ∧
      SlabInv L boot (memCacheDoAlloc s g).1 ((memCacheDoAlloc s g).2 :: live) := by
  obtain ⟨idx, -, -, hobject, hinv⟩ := memCacheDoAlloc_spec h.core hlow (fun x _ => h.listed x)
    h.ledger hg ((h.listed g).part hg).2
  rw [hobject]
  exact ⟨object_ne_zero hinv hlow (List.mem_cons_self ..), hinv⟩

/-- The move of a free group to the partial list, before an object is taken from it. -/
theorem doAlloc_free (h : SlabInv L boot s live) (hlow : LowMem L) (hg : g ∈ s.cache.freeGroups) :
    ∀ t : CacheState, t = { s with cache := { s.cache.unlink g with
        partialGroups := (s.cache.unlink g).partialGroups ++ [g] } } →
      (memCacheDoAlloc t g).2 ≠ 0 ∧
        SlabInv L boot (memCacheDoAlloc t g).1 ((memCacheDoAlloc t g).2 :: live) := by
  intro t ht
  have hgroup : g ∈ s.cache.groups := mem_groups.2 (Or.inr (Or.inr hg))
  have hmoved := moved_toPartial h.core.nodup hgroup
  have hsame : t = CacheState.setGroup t g (s.groups g) := by
    rw [ht, CacheState.setGroup, Function.update_eq_self]
  have hcore : Core L boot t := by
    rw [hsame, ht]
    exact h.core.rewrite hmoved.toRearranged rfl (h.core.ok g hgroup)
  have hlisted : ∀ x ≠ g, ListedAt t x := by
    intro x hx
    rw [hsame, ht]
    exact (h.listed x).move hx hmoved
  have hledger : Ledger t live := by
    refine ⟨h.ledger.1, fun o => ?_⟩
    rw [h.ledger.2, ht]
    simp only [InUse, CacheState.objectAt, hmoved.groups.mem_iff]
    rfl
  have hroom : (t.groups g).usingCount < t.cache.objectCount := by
    rw [ht]
    show (s.groups g).usingCount < s.cache.objectCount
    rw [(h.listed g).free hg]
    exact h.core.classOk.count_pos
  obtain ⟨idx, -, -, hobject, hinv⟩ := memCacheDoAlloc_spec hcore hlow hlisted hledger
    (by rw [ht]; simp) hroom
  rw [hobject]
  exact ⟨object_ne_zero hinv hlow (List.mem_cons_self ..), hinv⟩

/-- With a group that has a free object nothing is created. -/
theorem memCacheAllocObject_found (h : SlabInv L boot s live) (hlow : LowMem L) (retries : ℕ)
    (hfound : s.cache.partialGroups ≠ [] ∨ s.cache.freeGroups ≠ []) :
    ∃ s' o, memCacheAllocObject (retries + 1) s = some (s', o) ∧ o ≠ 0 ∧
      SlabInv L boot s' (o :: live) := by
  rw [memCacheAllocObject]
  cases hpart : s.cache.partialGroups with
  | cons g gs =>
      exact ⟨_, _, rfl, doAlloc_partial h hlow (by rw [hpart]; exact List.mem_cons_self ..)⟩
  | nil =>
      cases hfree : s.cache.freeGroups with
      | cons g gs =>
          exact ⟨_, _, rfl, doAlloc_free h hlow (by rw [hfree]; exact List.mem_cons_self ..) _ rfl⟩
      | nil => simp [hpart, hfree] at hfound

/-- **`mem_cache_alloc_object`** returns an object that was not in use, if the groups it has to
create can be created; it retries once at most. -/
theorem memCacheAllocObject_spec (h : SlabInv L boot s live) (hlow : LowMem L) (retries : ℕ)
    (hcreate : s.cache.partialGroups = [] → s.cache.freeGroups = [] →
      (memGroupCreate s).map Prod.snd = some 0) :
    ∃ s' o, memCacheAllocObject (retries + 2) s = some (s', o) ∧ o ≠ 0 ∧
      SlabInv L boot s' (o :: live) := by
  by_cases hfound : s.cache.partialGroups ≠ [] ∨ s.cache.freeGroups ≠ []
  · exact memCacheAllocObject_found h hlow (retries + 1) hfound
  · rw [not_or, not_not, not_not] at hfound
    obtain ⟨s', g, hrun, hinv, -, hfree⟩ := memGroupCreate_spec h hlow (hcreate hfound.1 hfound.2)
    obtain ⟨s'', o, hagain, ho⟩ := memCacheAllocObject_found hinv hlow retries
      (Or.inr (by rw [hfree]; exact List.cons_ne_nil _ _))
    refine ⟨s'', o, ?_, ho⟩
    rw [memCacheAllocObject, hfound.1, hfound.2]
    simp only [hrun, if_true, hagain]

end Alloc

/-! ## Runs -/

/-- The calls on a cache. -/
inductive CacheCall where
  | alloc
  | free (object : ℕ)
  | shrink

/-- A cache and the objects its callers hold. -/
structure CacheRun where
  state : CacheState
  live : List ℕ

/-- One call. -/
def cacheStep (r : CacheRun) : CacheCall → Option CacheRun
  | .alloc => (memCacheAllocObject 2 r.state).map fun so =>
      ⟨so.1, if so.2 = 0 then r.live else so.2 :: r.live⟩
  | .free object => (memCacheDoFree r.state object).map fun s => ⟨s, r.live.erase object⟩
  | .shrink => (memCahceShrink r.state).map fun sn => ⟨sn.1, r.live⟩

/-- A `mem_group_create` that is called succeeds, and an object that is freed is live. -/
def CallOk (r : CacheRun) : CacheCall → Prop
  | .alloc => r.state.cache.partialGroups = [] → r.state.cache.freeGroups = [] →
      (memGroupCreate r.state).map Prod.snd = some 0
  | .free object => object ∈ r.live
  | .shrink => True

instance : ∀ (r : CacheRun) (call : CacheCall), Decidable (CallOk r call)
  | _, .alloc => inferInstanceAs (Decidable (_ → _ → _))
  | _, .free _ => inferInstanceAs (Decidable (_ ∈ _))
  | _, .shrink => isTrue trivial

/-- **One call** goes through and keeps the invariant. -/
theorem slabInv_step {L : PoolLayout} {boot : MemRangeIdx → ℕ → MemNode} (hlow : LowMem L)
    (r : CacheRun)
    (call : CacheCall) (h : SlabInv L boot r.state r.live) (hok : CallOk r call) :
    ∃ r', cacheStep r call = some r' ∧ SlabInv L boot r'.state r'.live := by
  cases call with
  | alloc =>
      obtain ⟨s', o, hrun, hne, hinv⟩ := memCacheAllocObject_spec h hlow 0 hok
      exact ⟨⟨s', o :: r.live⟩, by rw [cacheStep, hrun, Option.map_some, if_neg hne], hinv⟩
  | free object =>
      obtain ⟨s', hrun, hinv⟩ := memCacheDoFree_spec h hlow hok
      exact ⟨⟨s', r.live.erase object⟩, by rw [cacheStep, hrun, Option.map_some], hinv⟩
  | shrink =>
      obtain ⟨s', n, hrun, hinv⟩ := memCahceShrink_spec h hlow
      exact ⟨⟨s', r.live⟩, by rw [cacheStep, hrun, Option.map_some], hinv⟩

/-! ## The caches that are built -/

theorem mem_of_mapM_eq_some {α β : Type} {f : α → Option β} :
    ∀ {l : List α} {ys : List β}, l.mapM f = some ys → ∀ y ∈ ys, ∃ x ∈ l, f x = some y := by
  intro l
  induction l with
  | nil =>
      intro ys h y hy
      rw [List.mapM_nil] at h
      cases h
      cases hy
  | cons x l ih =>
      intro ys h y hy
      rw [List.mapM_cons] at h
      simp only [Option.bind_eq_bind, Option.bind_eq_some_iff, Option.pure_def, Option.some.injEq]
        at h
      obtain ⟨z, hz, zs, hzs, rfl⟩ := h
      rcases List.mem_cons.1 hy with rfl | hy
      · exact ⟨x, List.mem_cons_self .., hz⟩
      · obtain ⟨x', hx', hfx'⟩ := ih hzs y hy
        exact ⟨x', List.mem_cons_of_mem _ hx', hfx'⟩

theorem classOk_cacheSizes : ∀ size ∈ cacheSizes, ClassOk size (objectCountOf size) := by
  have hall : ∀ size ∈ cacheSizes, 0 < size ∧ 0 < objectCountOf size ∧
      objectCountOf size * size ≤ 4194304 ∧ (size < 1024 →
        objectCountOf size * size + 48 ≤ pageSize ∧ divRoundUp (objectCountOf size) 8 ≤ 16) := by
    decide +kernel
  intro size hsize
  obtain ⟨hpos, hcount, hbytes, hsmall⟩ := hall size hsize
  exact ⟨hpos, hcount, hbytes, hsmall⟩

/-- A cache as `mem_caches_build` leaves it. -/
theorem memCachesBuild_spec {memCaches : ℕ → ℕ} {caches : List Cache}
    (hbuild : memCachesBuild memCaches = some caches) {c : Cache} (hc : c ∈ caches) :
    c.groups = [] ∧ ClassOk c.objectSize c.objectCount := by
  obtain ⟨x, hx, hinit⟩ := mem_of_mapM_eq_some hbuild c hc
  have hsize : x.1 ∈ cacheSizes := List.fst_mem_of_mem_zipIdx hx
  have hclass := classOk_cacheSizes x.1 hsize
  rw [memCacheInit, if_neg hclass.size_pos.ne', Option.some.injEq] at hinit
  subst hinit
  exact ⟨rfl, hclass⟩

/-- An empty cache keeps the invariant, whatever the pool has been used for. -/
theorem slabInv_empty {L : PoolLayout} {boot : MemRangeIdx → ℕ → MemNode} {s : CacheState}
    {rest : List LiveAlloc} (hpool : NormalInv L boot s.ranges rest) (hempty : s.cache.groups = [])
    (hclass : ClassOk s.cache.objectSize s.cache.objectCount) : SlabInv L boot s [] := by
  have hnone : ∀ g, g ∉ s.cache.groups := by simp [hempty]
  refine ⟨⟨hclass, ⟨rest, ?_⟩, ?_, fun g hg => absurd hg (hnone g)⟩,
    fun g => ⟨fun hg => ?_, fun hg => ?_, fun hg => ?_⟩, List.nodup_nil, fun o => ?_⟩
  · rw [CacheState.owned, hempty]
    exact hpool
  · rw [hempty]
    exact List.nodup_nil
  · exact absurd (mem_groups.2 (Or.inl hg)) (hnone g)
  · exact absurd (mem_groups.2 (Or.inr (Or.inl hg))) (hnone g)
  · exact absurd (mem_groups.2 (Or.inr (Or.inr hg))) (hnone g)
  · simp [InUse, hempty]

/-! ## What the invariant says to the callers -/

/-- The first address behind the object area of a group. -/
def CacheState.areaEnd (s : CacheState) (g : ℕ) : ℕ :=
  if s.cache.objectSize < 1024 then g + pageSize
  else (s.groups g).objects + objectPages s.cache * pageSize

/-- The state of a cache whose callers hold the objects `live`. -/
structure SlabOk (s : CacheState) (live : List ℕ) : Prop where
  /-- No group is on two lists, or twice on one. -/
  once : s.cache.groups.Nodup
  /-- The list is the one determined by `using_count`. -/
  full : ∀ g ∈ s.cache.groups,
    g ∈ s.cache.fullGroups ↔ (s.groups g).usingCount = s.cache.objectCount
  part : ∀ g ∈ s.cache.groups, g ∈ s.cache.partialGroups ↔
    0 < (s.groups g).usingCount ∧ (s.groups g).usingCount < s.cache.objectCount
  free : ∀ g ∈ s.cache.groups, g ∈ s.cache.freeGroups ↔ (s.groups g).usingCount = 0
  sum : ∀ g ∈ s.cache.groups, (s.groups g).usingCount + (s.groups g).freeCount = s.cache.objectCount
  bits : ∀ g ∈ s.cache.groups, (s.groups g).map.popcount = (s.groups g).usingCount
  /-- A scan of a group objects are taken from finds an object. -/
  scan : ∀ g, g ∈ s.cache.partialGroups ∨ g ∈ s.cache.freeGroups →
    ∃ idx, bitmapScan (s.groups g).map 1 = some idx ∧ idx < s.cache.objectCount
  /-- A live object is an object of a group that is marked in use, and the other way round. -/
  object : ∀ o, o ∈ live ↔ ∃ g ∈ s.cache.groups, ∃ i < s.cache.objectCount,
    (s.groups g).map.bit i = true ∧ o = s.objectAt g i
  disjoint : live.Pairwise fun o o' => o + s.cache.objectSize ≤ o' ∨ o' + s.cache.objectSize ≤ o
  /-- Small objects lie behind the 16 bytes of the bitmap in the page of their group, the others
  in the object pages. -/
  area : s.cache.objectSize < 1024 → ∀ g ∈ s.cache.groups,
    (s.groups g).objects = g + sizeofMemGroup + 16 ∧ (s.groups g).map.byteLength ≤ 16
  inside : ∀ o ∈ live, ∃ g ∈ s.cache.groups,
    (s.groups g).objects ≤ o ∧ o + s.cache.objectSize ≤ s.areaEnd g

section Readout

variable {L : PoolLayout} {boot : MemRangeIdx → ℕ → MemNode} {s : CacheState} {live : List ℕ}
  {g : ℕ}

/-- The list a group is on tells its count, and the other way round. -/
theorem SlabInv.list_iff (h : SlabInv L boot s live) (hg : g ∈ s.cache.groups) :
    (g ∈ s.cache.fullGroups ↔ (s.groups g).usingCount = s.cache.objectCount) ∧
      (g ∈ s.cache.partialGroups ↔
        0 < (s.groups g).usingCount ∧ (s.groups g).usingCount < s.cache.objectCount) ∧
      (g ∈ s.cache.freeGroups ↔ (s.groups g).usingCount = 0) := by
  have hlisted := h.listed g
  have hpos := h.core.classOk.count_pos
  rcases mem_groups.1 hg with hfull | hpart | hfree
  · have hcount := hlisted.full hfull
    refine ⟨⟨fun _ => hcount, fun _ => hfull⟩, ⟨hlisted.part, fun hlt => ?_⟩, hlisted.free,
      fun hz => ?_⟩
    · exact absurd hcount hlt.2.ne
    · omega
  · have hcount := hlisted.part hpart
    refine ⟨⟨hlisted.full, fun heq => ?_⟩, ⟨fun _ => hcount, fun _ => hpart⟩, hlisted.free,
      fun hz => ?_⟩
    · omega
    · omega
  · have hcount := hlisted.free hfree
    refine ⟨⟨hlisted.full, fun heq => ?_⟩, ⟨hlisted.part, fun hlt => ?_⟩, fun _ => hcount,
      fun _ => hfree⟩
    · omega
    · omega

/-- An object lies in the object area of its group. -/
theorem SlabInv.object_inside (h : SlabInv L boot s live) (hg : g ∈ s.cache.groups) {i : ℕ}
    (hi : i < s.cache.objectCount) :
    (s.groups g).objects ≤ s.objectAt g i ∧
      s.objectAt g i + s.cache.objectSize ≤ s.areaEnd g := by
  have hok := h.core.ok g hg
  have hmem := (hok.object_mem h.core.classOk hi).2
  have hhome := hok.home
  have hobjects := hok.objects
  refine ⟨Nat.le_add_right _ _, ?_⟩
  unfold CacheState.areaEnd
  unfold storeBlock at hmem
  by_cases hsmall : s.cache.objectSize < 1024
  · rw [if_pos hsmall] at hmem ⊢
    simp only [← hhome, Nat.one_mul] at hmem
    exact hmem
  · rw [if_neg hsmall] at hmem hobjects ⊢
    simp only [← hobjects] at hmem
    exact hmem

theorem SlabInv.slabOk (h : SlabInv L boot s live) : SlabOk s live := by
  refine ⟨h.core.nodup, fun g hg => (h.list_iff hg).1, fun g hg => (h.list_iff hg).2.1,
    fun g hg => (h.list_iff hg).2.2, fun g hg => (h.core.ok g hg).sum,
    fun g hg => (h.core.ok g hg).bits,
    fun g hg => ?_, h.ledger.2, ?_, fun hsmall g hg => ?_, fun o ho => ?_⟩
  · have hgroup : g ∈ s.cache.groups := mem_groups.2 (Or.inr hg)
    have hroom : (s.groups g).usingCount < s.cache.objectCount := by
      rcases hg with hpart | hfree
      · exact ((h.listed g).part hpart).2
      · rw [(h.listed g).free hfree]
        exact h.core.classOk.count_pos
    obtain ⟨idx, hscan, hidx, -⟩ := (h.core.ok g hgroup).scan hroom
    exact ⟨idx, hscan, hidx⟩
  · apply h.ledger.1.pairwise_of_forall_ne
    intro o ho o' ho' hne
    obtain ⟨g, hg, i, hi, -, rfl⟩ := (h.ledger.2 o).1 ho
    obtain ⟨g', hg', j, hj, -, rfl⟩ := (h.ledger.2 o').1 ho'
    apply object_apart h.core hg hg' hi hj
    by_contra hsame
    rw [not_or, not_not, not_not] at hsame
    exact hne (by rw [hsame.1, hsame.2])
  · have hobjects := (h.core.ok g hg).objects
    rw [if_pos hsmall] at hobjects
    rw [(h.core.ok g hg).length]
    exact ⟨hobjects, (h.core.classOk.small hsmall).2⟩
  · obtain ⟨g, hg, i, hi, -, rfl⟩ := (h.ledger.2 o).1 ho
    exact ⟨g, hg, h.object_inside hg hi⟩

end Readout

/-- **The slab allocator keeps its books.**  Start with a cache as `mem_caches_build` built it and a
page pool in any state its callers can bring it to, and make any calls; if every group that
has to be created can be created and only live objects are freed, no call panics and the
cache is in order after each of them. -/
theorem memCache_slabOk (L : PoolLayout) (boot : MemRangeIdx → ℕ → MemNode) (hlow : LowMem L)
    (memCaches : ℕ → ℕ) (caches : List Cache) (hbuild : memCachesBuild memCaches = some caches)
    (c : Cache) (hc : c ∈ caches) (groups : ℕ → MemGroup) (ranges : MemRanges)
    (used : List LiveAlloc) (hpool : NormalInv L boot ranges used) (calls : List CacheCall)
    (hcalls : Run.Along cacheStep CallOk ⟨⟨c, groups, ranges⟩, []⟩ calls) :
    ∃ r, Run.exec cacheStep ⟨⟨c, groups, ranges⟩, []⟩ calls = some r ∧ SlabOk r.state r.live := by
  obtain ⟨hempty, hclass⟩ := memCachesBuild_spec hbuild hc
  have hstart : SlabInv L boot (CacheState.mk c groups ranges) [] :=
    slabInv_empty hpool hempty hclass
  obtain ⟨r, hrun, hinv⟩ := Run.exec_total
    (I := fun r : CacheRun => SlabInv L boot r.state r.live)
    (slabInv_step hlow) calls _ hstart hcalls
  exact ⟨r, hrun, hinv.slabOk⟩

/-- Fresh pages read as ones, and the pool of the small machine is untouched. -/
def smallCacheState (c : Cache) : CacheState where
  cache := c
  groups := fun _ => ⟨⟨0, fun _ => 255#8⟩, 0, 0, 0⟩
  ranges := (smallLayout.init clearBoot).ranges

/-- Eight objects of 512 bytes fill a group and start another; the second group is emptied and
shrunk away, and an object of the first goes and comes back. -/
theorem memCache_slabOk_smallLayout :
    ∃ r, Run.exec cacheStep ⟨smallCacheState ⟨4256, [], [], [], 512, 7⟩, []⟩
        [.alloc, .alloc, .alloc, .alloc, .alloc, .alloc, .alloc, .alloc, .free 2210390064, .shrink,
          .free 2210396208, .alloc] = some r ∧ SlabOk r.state r.live :=
  memCache_slabOk smallLayout clearBoot (by unfold LowMem; decide) (fun n => 4000 + 64 * n) _ rfl
    ⟨4256, [], [], [], 512, 7⟩ (List.mem_iff_getElem.2 ⟨4, by decide, rfl⟩) _ _ []
    ⟨_, poolInv_init smallLayout clearBoot, rfl⟩ _ (by decide +kernel)

end MemCache
end LightOS
