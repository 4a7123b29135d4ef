import LightOS.Mm.MemPoolComplete
import LightOS.Vmm.MemCache

/-!
# Memory caches: a group that could not be created

`mem_group_create` fails when there is no page for the group, or no pages for its objects.
It gives the page of the group back then, but `mem_group_init` has linked the group already.

* `memGroupCreate_noPage` — without a page for the group nothing happens.
* `memGroupCreate_noObjects` — without pages for the objects the group stays on the free list, in
  a page that is not in use any more.
* `memGroupCreate_intact_iff` — a failure leaves the cache as it was if and only if it was the
  first.
-/

namespace LightOS
namespace MemCache

open MemPool

/-! ## Pages -/

section Pages

variable {L : PoolLayout} {boot : MemRangeIdx → ℕ → MemNode} {p : MemRanges}
  {held : List LiveAlloc} {count : ℕ}

theorem poolSized_of_normalInv (h : NormalInv L boot p held) : ∃ live, PoolSized L ⟨p, live⟩ := by
  obtain ⟨live, hpool, -⟩ := h
  exact ⟨live, fun id => ⟨(hpool id).1.size, (hpool id).2.1⟩⟩

/-- `mem_cache_page_alloc` without room. -/
theorem memCachePageAlloc_full (h : NormalInv L boot p held) (hpos : 1 ≤ count)
    (hmax : count ≤ memSectionMaxSize)
    (hroom : ¬ (p .normal).HasRoom count) : memCachePageAlloc p count = some (p, 0) := by
  obtain ⟨live, hsized⟩ := poolSized_of_normalInv h
  rw [memCachePageAlloc, memNodeAllocPages_full hsized hpos hmax rfl hroom, Option.map_some,
    if_pos rfl]

/-- `mem_cache_page_alloc` with room. -/
theorem memCachePageAlloc_hasRoom (h : NormalInv L boot p held) (hlow : LowMem L) (hpos : 1 ≤ count)
    (hmax : count ≤ memSectionMaxSize) (hroom : (p .normal).HasRoom count) :
    ∃ p' node, memCachePageAlloc p count = some (p', pageAt L node) ∧
      NormalInv L boot p' (⟨node, count⟩ :: held) := by
  have hstart := L.start_pos .normal
  rcases normalAlloc_spec h count with hzero | ⟨p', node, hok, hinv, -⟩
  · obtain ⟨live, hsized⟩ := poolSized_of_normalInv h
    obtain ⟨r, addr, halloc, haddr, -⟩ :=
      memNodeAllocPages_hasRoom hsized hpos hmax
        (show memRangeOfFlags memNodeTypeNormal = some .normal from rfl) hroom
    rw [hzero, Option.some.injEq, Prod.mk.injEq] at halloc
    exact absurd halloc.2.symm haddr
  · obtain ⟨-, hend⟩ := hinv.end_le (List.mem_cons_self ..)
    simp only at hend
    refine ⟨p', node, ?_, hinv⟩
    rw [memCachePageAlloc, hok, Option.map_some, if_neg (by omega),
      kernPhyAddr2VirAddr_page hlow (by omega)]

end Pages

/-! ## The two failures -/

/-- The groups of the cache lie in pages that are in use. -/
def Homed (L : PoolLayout) (boot : MemRangeIdx → ℕ → MemNode) (s : CacheState) : Prop :=
  ∃ held, NormalInv L boot s.ranges held ∧ ∀ g ∈ s.cache.groups, ⟨nodeAt L g, 1⟩ ∈ held

/-- A call has left the lists and the page pool as they were, and no group without its page. -/
structure Intact (L : PoolLayout) (boot : MemRangeIdx → ℕ → MemNode) (s s' : CacheState) :
    Prop where
  fullGroups : s'.cache.fullGroups = s.cache.fullGroups
  partialGroups : s'.cache.partialGroups = s.cache.partialGroups
  freeGroups : s'.cache.freeGroups = s.cache.freeGroups
  homed : Homed L boot s'
  pool : s'.ranges = s.ranges

section Failures

variable {L : PoolLayout} {boot : MemRangeIdx → ℕ → MemNode} {s s' : CacheState}
  {held : List LiveAlloc} {ret : ℤ}

/-- **Without a page for the group** nothing happens. -/
theorem memGroupCreate_noPage (h : NormalInv L boot s.ranges held)
    (hroom : ¬ (s.ranges .normal).HasRoom 1) :
    memGroupCreate s = some (s, -1) := by
  rw [memGroupCreate, memCachePageAlloc_full h le_rfl (by decide) hroom]
  rfl

/-- `mem_group_init` fails after it has linked the group. -/
theorem memGroupInit_failed {node : ℕ} (h : NormalInv L boot s.ranges held) (hlow : LowMem L)
    (hnode : node < L.len .normal / pageSize)
    (hrun : memGroupInit s (pageAt L node) = some (s', ret)) (hfail : ret ≠ 0) :
    s'.cache = { s.cache with freeGroups := pageAt L node :: s.cache.freeGroups } ∧
      s'.ranges = s.ranges := by
  unfold memGroupInit at hrun
  dsimp only at hrun
  by_cases hsmall : s.cache.objectSize < 1024
  · rw [if_pos hsmall, markPage_page h hlow hnode, Option.map_some, Option.some.injEq,
      Prod.mk.injEq] at hrun
    exact absurd hrun.2.symm hfail
  · rw [if_neg hsmall] at hrun
    rcases memCachePageAlloc_spec h hlow (objectPages s.cache) with
      hnone | ⟨p, first, hok, hpool, -⟩
    · simp only [hnone, if_true, Option.some.injEq, Prod.mk.injEq] at hrun
      rw [← hrun.1]
      exact ⟨rfl, rfl⟩
    · obtain ⟨-, hend⟩ := hpool.end_le (List.mem_cons_self ..)
      obtain ⟨q, hmark, -⟩ :=
        markPages_spec hpool hlow s.cache.addr (pageAt L node) (objectPages s.cache) hend
      simp only [hok, if_neg (pageAt_ne_zero L first), hmark, Option.map_some, Option.some.injEq,
        Prod.mk.injEq] at hrun
      exact absurd hrun.2.symm hfail

/-- **Without pages for the objects** the pages in use are as before, but a group is on the free
list whose page is not one of them. -/
theorem memGroupCreate_noObjects (h : NormalInv L boot s.ranges held) (hlow : LowMem L)
    (hroom : (s.ranges .normal).HasRoom 1) (hrun : memGroupCreate s = some (s', ret))
    (hfail : ret ≠ 0) :
    ∃ node, s'.cache = { s.cache with freeGroups := pageAt L node :: s.cache.freeGroups } ∧
      NormalInv L boot s'.ranges held ∧ ∀ a ∈ held, a.node + a.count ≤ node ∨ node < a.node := by
  obtain ⟨p, node, halloc, hpool⟩ := memCachePageAlloc_hasRoom h hlow le_rfl (by decide) hroom
  obtain ⟨-, hend⟩ := hpool.end_le (List.mem_cons_self ..)
  rw [memGroupCreate, halloc] at hrun
  simp only [if_neg (pageAt_ne_zero L node)] at hrun
  cases hinit : memGroupInit { s with ranges := p } (pageAt L node) with
  | none => simp only [hinit, reduceCtorEq] at hrun
  | some r =>
      obtain ⟨t, ret'⟩ := r
      simp only [hinit] at hrun
      by_cases hret : ret' = 0
      · rw [if_pos hret, Option.some.injEq, Prod.mk.injEq] at hrun
        exact absurd hrun.2.symm hfail
      · obtain ⟨hcache, hranges⟩ :=
          memGroupInit_failed hpool hlow (by simp only at hend; omega) hinit hret
        obtain ⟨q, hfree, hafter, -⟩ := memCachePageFree_spec hpool hlow
        rw [if_neg hret, hranges, hfree, Option.map_some, Option.some.injEq, Prod.mk.injEq] at hrun
        refine ⟨node, ?_, ?_, fun a ha => ?_⟩
        · rw [← hrun.1]
          exact hcache
        · rw [← hrun.1]
          exact hafter
        · have hapart := apart_of_new hpool ha
          simp only at hapart
          omega

end Failures

/-- **A failed `mem_group_create`** leaves the cache and the pool as they were if and only if there
was no page for the group. -/
theorem memGroupCreate_intact_iff {L : PoolLayout} {boot : MemRangeIdx → ℕ → MemNode}
    (hlow : LowMem L) {s s' : CacheState} (hhomed : Homed L boot s) {ret : ℤ}
    (hrun : memGroupCreate s = some (s', ret))
    (hfail : ret ≠ 0) : Intact L boot s s' ↔ ¬ (s.ranges .normal).HasRoom 1 := by
  obtain ⟨held, hpool, hgroups⟩ := hhomed
  constructor
  · intro hintact hroom
    obtain ⟨node, hcache, -⟩ := memGroupCreate_noObjects hpool hlow hroom hrun hfail
    have hlists := hintact.freeGroups
    rw [hcache] at hlists
    exact List.cons_ne_self _ _ hlists
  · intro hroom
    rw [memGroupCreate_noPage hpool hroom, Option.some.injEq, Prod.mk.injEq] at hrun
    obtain ⟨rfl, -⟩ := hrun
    exact ⟨rfl, rfl, rfl, ⟨held, hpool, hgroups⟩, rfl⟩

/-- An empty cache, on the page pool of the small machine after some calls. -/
def cacheOn (size count : ℕ) (p : PoolState) : CacheState :=
  { smallCacheState ⟨4256, [], [], [], size, count⟩ with ranges := p.ranges }

theorem homed_cacheOn (size count : ℕ) {calls : List PoolCall} {p : PoolState}
    (hrun : Run.exec poolStep (smallLayout.init clearBoot) calls = some p) :
    Homed smallLayout clearBoot (cacheOn size count p) := by
  have hinv : PoolInv smallLayout clearBoot p :=
    Run.exec_keeps (fun s call s' h hstep => poolInv_step s call s' h
      (freeKnown_of_clear (fun _ _ => rfl) s call) hstep)
      calls _ p (poolInv_init smallLayout clearBoot) hrun
  exact ⟨p.live .normal, ⟨p.live, hinv, rfl⟩, fun g hg => absurd hg List.not_mem_nil⟩

/-- All pages of the normal range are in use: a cache is not touched. -/
theorem memGroupCreate_intact_full :
    ∃ p, Run.exec poolStep (smallLayout.init clearBoot)
        [.alloc 2048 memNodeTypeNormal, .alloc 1024 memNodeTypeNormal] = some p ∧
      Intact smallLayout clearBoot (cacheOn 1024 1024 p) (cacheOn 1024 1024 p) := by
  have hfull : (Run.exec poolStep (smallLayout.init clearBoot)
      [.alloc 2048 memNodeTypeNormal, .alloc 1024 memNodeTypeNormal]).map
        (fun p => (List.range 12).map fun t => ((p.ranges .normal).sections t).freeList) =
      some (List.replicate 12 []) := by decide +kernel
  obtain ⟨p, hp, hlists⟩ := Option.map_eq_some_iff.1 hfull
  have hhomed := homed_cacheOn 1024 1024 hp
  have hroom : ¬ ((cacheOn 1024 1024 p).ranges .normal).HasRoom 1 := by
    rintro ⟨t, -, ht, hne⟩
    have hmem : ((p.ranges .normal).sections t).freeList ∈ List.replicate 12 ([] : List ℕ) :=
      hlists ▸ List.mem_map_of_mem (List.mem_range.2 ht)
    exact hne (List.eq_of_mem_replicate hmem)
  obtain ⟨held, hpool, -⟩ := id hhomed
  exact ⟨p, hp,
    (memGroupCreate_intact_iff (by unfold LowMem; decide) hhomed (memGroupCreate_noPage hpool hroom)
    (by decide)).2 hroom⟩

/-- With 512 pages left there is a page for the group, but not the 1024 for two objects of 2 MB:
the free list is no longer empty. -/
theorem memGroupCreate_not_intact :
    ∃ p s', Run.exec poolStep (smallLayout.init clearBoot)
        [.alloc 2048 memNodeTypeNormal, .alloc 512 memNodeTypeNormal] = some p ∧
      memGroupCreate (cacheOn 2097152 2 p) = some (s', -1) ∧
      ¬ Intact smallLayout clearBoot (cacheOn 2097152 2 p) s' := by
  have hrun : ((Run.exec poolStep (smallLayout.init clearBoot)
      [.alloc 2048 memNodeTypeNormal, .alloc 512 memNodeTypeNormal]).bind fun p =>
        (memGroupCreate (cacheOn 2097152 2 p)).map fun r => (r.1.cache.freeGroups.isEmpty, r.2)) =
      some (false, -1) := by decide +kernel
  obtain ⟨p, hp, hcreate⟩ := Option.bind_eq_some_iff.1 hrun
  obtain ⟨⟨s', ret⟩, hs', heq⟩ := Option.map_eq_some_iff.1 hcreate
  rw [Prod.mk.injEq] at heq
  obtain ⟨hlist, rfl⟩ := heq
  refine ⟨p, s', hp, hs', fun h => ?_⟩
  rw [h.freeGroups] at hlist
  cases hlist

end MemCache
end LightOS
