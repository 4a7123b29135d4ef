import LightOS.Vmm.MemAllocBasic

/-!
# Kernel memory: what a cache leaves to the others

A call on one cache may take pages from the pool and rewrite its own groups; it leaves alone the
blocks that others hold, with their nodes, and the groups of other caches.

* `Grown` — this, said once, for any blocks of others.
* `grown_rewrite`, `grown_memGroupCreate` — one group rewritten, a group that comes.
* `memCacheAllocObject_grown`, `memCacheDoFree_grown` — the calls, with what they do to the cache
  itself.
-/

namespace LightOS
namespace MemCache

open MemPool

section Pages

variable {L : PoolLayout} {boot : MemRangeIdx → ℕ → MemNode} {p p' : MemRanges}
  {held : List LiveAlloc}

/-- A page allocation that succeeds, seen by any holder of blocks. -/
theorem memCachePageAlloc_view (h : NormalInv L boot p held) (hlow : LowMem L) {count a : ℕ}
    (hrun : memCachePageAlloc p count = some (p', a)) (ha : a ≠ 0) :
    a = pageAt L (nodeAt L a) ∧ NormalInv L boot p' (⟨nodeAt L a, count⟩ :: held) ∧
      ∀ n, Held held n → (p' .normal).nodeTable n = (p .normal).nodeTable n := by
  rcases memCachePageAlloc_spec h hlow count with hfail | ⟨p₁, node, hok, hinv, hkeep⟩
  · rw [hfail, Option.some.injEq, Prod.mk.injEq] at hrun
    exact absurd hrun.2.symm ha
  · rw [hok, Option.some.injEq, Prod.mk.injEq] at hrun
    obtain ⟨rfl, rfl⟩ := hrun
    rw [nodeAt_pageAt]
    exact ⟨rfl, hinv, hkeep⟩

theorem memRangeTakeFirst_cache {r r' : MemRange} {i count a : ℕ}
    (hrun : memRangeTakeFirst r i count = (r', a))
    (ha : a ≠ 0) : ∃ node, a = node * pageSize + r'.start ∧ (r'.nodeTable node).cache = none := by
  unfold memRangeTakeFirst at hrun
  cases hlist : (r.sections i).freeList with
  | nil =>
      rw [hlist, Prod.mk.injEq] at hrun
      exact absurd hrun.2.symm ha
  | cons node rest =>
      rw [hlist, Prod.mk.injEq] at hrun
      obtain ⟨rfl, rfl⟩ := hrun
      refine ⟨node, rfl, ?_⟩
      rw [setNode_nodeTable_self]
      rfl

/-- The first node of a block that is handed out belongs to no cache. -/
theorem memRangeAllocPages_cache {r r' : MemRange} {count a : ℕ}
    (hrun : memRangeAllocPages r count = some (r', a))
    (ha : a ≠ 0) : ∃ node, a = node * pageSize + r'.start ∧ (r'.nodeTable node).cache = none := by
  unfold memRangeAllocPages at hrun
  dsimp only at hrun
  have hfail : ∀ t : MemRange, some (t, 0) ≠ some (r', a) := by
    intro t heq
    rw [Option.some.injEq, Prod.mk.injEq] at heq
    exact ha heq.2.symm
  split_ifs at hrun with hempty hbig
  · exact absurd hrun (hfail r)
  · split at hrun
    · cases hrun
    · split_ifs at hrun
      · exact absurd hrun (hfail _)
      · exact memRangeTakeFirst_cache (Option.some.inj hrun) ha
  · exact memRangeTakeFirst_cache (Option.some.inj hrun) ha

/-- **The first page of a block that is handed out** belongs to no cache. -/
theorem memCachePageAlloc_unmarked (h : NormalInv L boot p held) (hlow : LowMem L) {count a : ℕ}
    (hrun : memCachePageAlloc p count = some (p', a)) (ha : a ≠ 0) :
    ((p' .normal).nodeTable (nodeAt L a)).cache = none := by
  have hstart := L.start_pos .normal
  obtain ⟨⟨p₁, addr⟩, halloc, heq⟩ := Option.map_eq_some_iff.1 hrun
  rw [Prod.mk.injEq] at heq
  obtain ⟨rfl, heq⟩ := heq
  have haddr : addr ≠ 0 := by
    rintro rfl
    rw [if_pos rfl] at heq
    exact ha heq.symm
  rcases normalAlloc_spec h count with hfail | ⟨p₂, node, hok, hinv, -⟩
  · rw [hfail, Option.some.injEq, Prod.mk.injEq] at halloc
    exact absurd halloc.2.symm haddr
  rw [hok, Option.some.injEq, Prod.mk.injEq] at halloc
  obtain ⟨rfl, rfl⟩ := halloc
  obtain ⟨-, hend⟩ := hinv.end_le (List.mem_cons_self ..)
  obtain ⟨hpos, -⟩ := hinv.end_le (List.mem_cons_self ..)
  simp only at hend hpos
  rw [if_neg haddr, kernPhyAddr2VirAddr_page hlow (by omega)] at heq
  rw [← heq, nodeAt_pageAt]
  unfold memNodeAllocPages at hok
  split_ifs at hok
  · rw [Option.some.injEq, Prod.mk.injEq] at hok
    exact absurd hok.2.symm haddr
  · rw [Option.some.injEq, Prod.mk.injEq] at hok
    exact absurd hok.2.symm haddr
  · obtain ⟨⟨r, b⟩, hrange, hpair⟩ := Option.map_eq_some_iff.1 hok
    rw [Prod.mk.injEq] at hpair
    obtain ⟨hranges, rfl⟩ := hpair
    obtain ⟨node', hnode, hcache⟩ := memRangeAllocPages_cache hrange haddr
    have hnormal : p₂ .normal = r := by rw [← hranges, Function.update_self]
    rw [← hnormal, hinv.range.2.1] at hnode
    have hsame : node = node' := by
      unfold pageSize at hnode
      omega
    rw [hsame]
    dsimp only
    rw [hnormal]
    exact hcache

/-- The pages of a block are marked with their cache, the others keep their nodes. -/
theorem markPages_nodes (h : NormalInv L boot p held) (hlow : LowMem L) {node : ℕ}
    (cache group : ℕ) :
    ∀ k, node + k ≤ L.len .normal / pageSize →
      ∃ p', markPages p cache group (pageAt L node) k = some p' ∧
        (∀ held, NormalInv L boot p held → NormalInv L boot p' held) ∧
        ∀ m, (p' .normal).nodeTable m =
          if node ≤ m ∧ m < node + k then
            { (p .normal).nodeTable m with cache := some cache, group := some group }
          else (p .normal).nodeTable m := by
  intro k
  induction k with
  | zero =>
      intro _
      exact ⟨p, rfl, fun _ => id, fun m => by rw [if_neg (by omega)]⟩
  | succ k ih =>
      intro hk
      obtain ⟨p', hrun, hinv, hnodes⟩ := ih (by omega)
      have haddr : pageAt L node + k * pageSize = pageAt L (node + k) := by
        unfold pageAt
        ring
      refine ⟨_, ?_, fun held hheld => normalInv_mark (hinv held hheld) (node + k) cache group,
        fun m => ?_⟩
      · rw [markPages, hrun, Option.bind_some, haddr, markPage_page (hinv _ h) hlow (by omega)]
      · rw [memNodeMark, Function.update_self]
        by_cases hm : m = node + k
        · rw [hm, setNode_nodeTable_self, if_pos (by omega), hnodes, if_neg (by omega)]
        · rw [setNode_nodeTable_of_ne _ _ _ hm, hnodes]
          split_ifs <;> first | rfl | omega

end Pages

/-! ## What a call leaves to the others -/

/-- The pages with the objects of a cache are marked with it. -/
def Marked (L : PoolLayout) (s : CacheState) : Prop :=
  ∀ g ∈ s.cache.groups, ∀ k <
    (storeBlock L s.cache.objectSize s.cache.objectCount g (s.groups g)).count,
    ((s.ranges .normal).nodeTable
      ((storeBlock L s.cache.objectSize s.cache.objectCount g (s.groups g)).node + k)).cache =
        some s.cache.addr

/-- The nodes of the pages of the blocks are the same. -/
def SameNodes (p p' : MemRanges) (held : List LiveAlloc) : Prop :=
  ∀ a ∈ held, ∀ k < a.count, (p' .normal).nodeTable (a.node + k) =
    (p .normal).nodeTable (a.node + k)

/-- What a call on a cache may do. -/
structure Grown (L : PoolLayout) (boot : MemRangeIdx → ℕ → MemNode) (s s' : CacheState) : Prop where
  addr : s'.cache.addr = s.cache.addr
  size : s'.cache.objectSize = s.cache.objectSize
  groups : ∀ x ∈ s.cache.groups, x ∈ s'.cache.groups
  others : ∀ x, x ∉ s'.cache.groups → s'.groups x = s.groups x
  pool : ∀ rest, NormalInv L boot s.ranges (s.owned L ++ rest) →
    NormalInv L boot s'.ranges (s'.owned L ++ rest) ∧ SameNodes s.ranges s'.ranges rest
  marked : Marked L s → Marked L s'

section Grown

variable {L : PoolLayout} {boot : MemRangeIdx → ℕ → MemNode} {s s' s'' : CacheState}
  {live : List ℕ} {g : ℕ}
  {c : Cache} {G : MemGroup}

theorem Grown.refl (s : CacheState) : Grown L boot s s :=
  ⟨rfl, rfl, fun _ => id, fun _ _ => rfl, fun _ h => ⟨h, fun _ _ _ _ => rfl⟩, id⟩

theorem Grown.trans (h : Grown L boot s s') (h' : Grown L boot s' s'') : Grown L boot s s'' where
  addr := h'.addr.trans h.addr
  size := h'.size.trans h.size
  groups := fun x hx => h'.groups x (h.groups x hx)
  others := fun x hx => (h'.others x hx).trans (h.others x fun hx' => hx (h'.groups x hx'))
  pool := by
    intro rest hrest
    obtain ⟨hpool, hkeep⟩ := h.pool rest hrest
    obtain ⟨hpool', hkeep'⟩ := h'.pool rest hpool
    exact ⟨hpool', fun a ha k hk => (hkeep' a ha k hk).trans (hkeep a ha k hk)⟩
  marked := fun hm => h'.marked (h.marked hm)

/-- **One group rewritten in place**, and the lists rearranged. -/
theorem grown_rewrite (hc : Rearranged s.cache c) (haddr : c.addr = s.cache.addr)
    (hg : g ∈ s.cache.groups) (hobjects : G.objects = (s.groups g).objects) :
    Grown L boot s (CacheState.setGroup { s with cache := c } g G) := by
  have hobjs : ∀ x, ((CacheState.setGroup { s with cache := c } g G).groups x).objects =
      (s.groups x).objects := setGroup_objects (s := { s with cache := c }) hobjects
  have hblocks : ∀ x, CacheState.blocks L (CacheState.setGroup { s with cache := c } g G) x =
      s.blocks L x := by
    intro x
    simp only [CacheState.blocks, setGroup_cache, hc.size, hc.count]
    exact groupBlocks_congr (hobjs x)
  have howned : (CacheState.owned L (CacheState.setGroup { s with cache := c } g G)).Perm
      (s.owned L) := by
    unfold CacheState.owned
    rw [funext hblocks]
    exact hc.groups.flatMap_right _
  refine ⟨haddr, hc.size, fun x => hc.groups.mem_iff.2, fun x hx => ?_,
    fun rest hrest => ⟨?_, fun _ _ _ _ => rfl⟩, fun hm x hx k hk => ?_⟩
  · have hne : x ≠ g := by
      rintro rfl
      exact hx (hc.groups.mem_iff.2 hg)
    exact setGroup_of_ne hne
  · exact NormalInv.perm hrest (howned.symm.append_right rest)
  · have hstore : storeBlock L c.objectSize c.objectCount x
        ((CacheState.setGroup { s with cache := c } g G).groups x) =
        storeBlock L s.cache.objectSize s.cache.objectCount x (s.groups x) := by
      unfold storeBlock
      rw [hc.size, hc.count, hobjs]
    rw [setGroup_cache] at hk hx ⊢
    rw [hstore] at hk ⊢
    rw [haddr]
    exact hm x (hc.groups.mem_iff.1 hx) k hk

/-- **A group comes**, with blocks of pages that were not in use. -/
theorem grown_new {p : MemRanges} (hg : g ∉ s.cache.groups)
    (hpool : ∀ rest, NormalInv L boot s.ranges (s.owned L ++ rest) →
      NormalInv L boot p (groupBlocks L s.cache.objectSize s.cache.objectCount g G ++
        (s.owned L ++ rest)) ∧
        SameNodes s.ranges p (s.owned L ++ rest))
    (hbefore : ∃ rest, NormalInv L boot s.ranges (s.owned L ++ rest))
    (hmarks : ∀ k < (storeBlock L s.cache.objectSize s.cache.objectCount g G).count,
      ((p .normal).nodeTable ((storeBlock L s.cache.objectSize s.cache.objectCount g G).node +
        k)).cache =
        some s.cache.addr) :
    Grown L boot s (CacheState.setGroup
      { s with cache := { s.cache with freeGroups := g :: s.cache.freeGroups }, ranges := p } g
      G) := by
  have hperm : ({ s.cache with freeGroups := g :: s.cache.freeGroups } : Cache).groups.Perm
      (g :: s.cache.groups) := List.perm_middle
  have hne : ∀ x ∈ s.cache.groups, x ≠ g := fun x hx heq => hg (heq ▸ hx)
  refine ⟨rfl, rfl, fun x hx => hperm.mem_iff.2 (List.mem_cons_of_mem _ hx), fun x hx => ?_,
    fun rest hrest => ?_, fun hm x hx k hk => ?_⟩
  · have hx' : x ≠ g := by
      rintro rfl
      exact hx (hperm.mem_iff.2 (List.mem_cons_self ..))
    exact setGroup_of_ne hx'
  · obtain ⟨hnew, hkeep⟩ := hpool rest hrest
    refine ⟨hnew.perm ?_, fun a ha => hkeep a (List.mem_append_right _ ha)⟩
    rw [← List.append_assoc]
    refine List.Perm.append_right rest (List.Perm.symm ((hperm.flatMap_right _).trans ?_))
    rw [List.flatMap_cons, CacheState.blocks, setGroup_self]
    refine List.Perm.append_left _ (List.Perm.of_eq (List.flatMap_congr fun x hx => ?_))
    rw [CacheState.blocks, setGroup_of_ne (hne x hx)]
    rfl
  · rcases List.mem_cons.1 (hperm.mem_iff.1 hx) with rfl | hx
    · rw [setGroup_self] at hk ⊢
      exact hmarks k hk
    · obtain ⟨rest, hrest⟩ := hbefore
      rw [setGroup_of_ne (hne x hx)] at hk ⊢
      have hstore := List.mem_append_left rest
        (mem_owned (L := L).2 ⟨x, hx, storeBlock_mem_groupBlocks⟩)
      exact (congrArg MemNode.cache ((hpool rest hrest).2 _ hstore k hk)).trans (hm x hx k hk)

/-- Blocks that come into use are not those of a group. -/
theorem not_mem_groups_of_home {p : MemRanges} {held : List LiveAlloc}
    (hpool : NormalInv L boot p (⟨nodeAt L g, 1⟩ :: held)) (hheld : ∀ a ∈ s.owned L, a ∈ held) :
    g ∉ s.cache.groups := by
  intro hmem
  have hapart := apart_of_new hpool (hheld _ (mem_owned.2 ⟨g, hmem, home_mem_groupBlocks⟩))
  simp only at hapart
  omega

/-- A new block is taken, and its pages are marked. -/
theorem sameNodes_marked {p₁ p₂ p₃ : MemRanges} {held : List LiveAlloc} {node count : ℕ}
    {cache group : Option ℕ}
    (hbefore : NormalInv L boot p₁ held) (hpool : NormalInv L boot p₂ (⟨node, count⟩ :: held))
    (hkeep : ∀ n, Held held n → (p₂ .normal).nodeTable n = (p₁ .normal).nodeTable n)
    (hnodes : ∀ m, (p₃ .normal).nodeTable m =
      if node ≤ m ∧ m < node + count then
        { (p₂ .normal).nodeTable m with cache := cache, group := group }
      else (p₂ .normal).nodeTable m) : SameNodes p₁ p₃ held := by
  intro a ha k hk
  have hapart := apart_of_new hpool ha
  simp only at hapart
  rw [hnodes, if_neg (by omega), hkeep _ (hbefore.held_add ha hk)]

/-- A group that is made has a page, and its initialisation succeeds. -/
theorem memGroupCreate_ok (hrun : memGroupCreate s = some (s', 0)) :
    ∃ p group, memCachePageAlloc s.ranges 1 = some (p, group) ∧ group ≠ 0 ∧
      memGroupInit { s with ranges := p } group = some (s', 0) := by
  unfold memGroupCreate at hrun
  cases halloc : memCachePageAlloc s.ranges 1 with
  | none => simp [halloc] at hrun
  | some pa =>
      obtain ⟨p, group⟩ := pa
      simp only [halloc] at hrun
      by_cases hzero : group = 0
      · simp [hzero] at hrun
      rw [if_neg hzero] at hrun
      refine ⟨p, group, rfl, hzero, ?_⟩
      cases hinit : memGroupInit { s with ranges := p } group with
      | none => simp [hinit] at hrun
      | some r =>
          obtain ⟨s₁, ret⟩ := r
          simp only [hinit] at hrun
          have hret : ret = 0 := by
            by_contra hret
            rw [if_neg hret] at hrun
            simp at hrun
          subst hret
          rwa [if_pos rfl] at hrun

/-- The objects of the new group are in its page. -/
theorem grown_memGroupInit_small (hlow : LowMem L) {rest : List LiveAlloc} {p : MemRanges}
    {group : ℕ} (hbefore : NormalInv L boot s.ranges (s.owned L ++ rest))
    (halloc : memCachePageAlloc s.ranges 1 = some (p, group)) (hgroup : group ≠ 0)
    (hsmall : s.cache.objectSize < 1024) (hinit : memGroupInit { s with ranges := p } group =
      some (s', 0)) :
    Grown L boot s s' := by
  have hhome := (memCachePageAlloc_view hbefore hlow halloc hgroup).1
  have hview := fun rest' (hrest : NormalInv L boot s.ranges (s.owned L ++ rest')) =>
    (memCachePageAlloc_view hrest hlow halloc hgroup).2
  have hg : group ∉ s.cache.groups :=
    not_mem_groups_of_home (hview rest hbefore).1 fun a ha => List.mem_append_left _ ha
  obtain ⟨-, hend⟩ := (hview rest hbefore).1.end_le (List.mem_cons_self ..)
  simp only at hend
  obtain ⟨p₂, hmark, hinv, hnodes⟩ :=
    markPages_nodes (hview rest hbefore).1 hlow s.cache.addr group 1 hend
  unfold memGroupInit at hinit
  rw [← hhome, markPages, markPages, Option.bind_some, Nat.zero_mul, Nat.add_zero] at hmark
  simp only [if_pos hsmall, hmark, Option.map_some, Option.some.injEq, Prod.mk.injEq] at hinit
  obtain ⟨rfl, -⟩ := hinit
  refine grown_new hg (fun rest' hrest => ⟨?_, ?_⟩) ⟨rest, hbefore⟩ fun k hk => ?_
  · rw [groupBlocks, if_pos hsmall]
    exact hinv _ (hview rest' hrest).1
  · exact sameNodes_marked hrest (hview rest' hrest).1 (hview rest' hrest).2 hnodes
  · rw [storeBlock, if_pos hsmall] at hk ⊢
    simp only at hk ⊢
    rw [hnodes, if_pos (by omega)]

/-- The objects of the new group get pages of their own. -/
theorem grown_memGroupInit_large (hlow : LowMem L) {rest : List LiveAlloc} {p : MemRanges}
    {group : ℕ} (hbefore : NormalInv L boot s.ranges (s.owned L ++ rest))
    (halloc : memCachePageAlloc s.ranges 1 = some (p, group)) (hgroup : group ≠ 0)
    (hlarge : ¬ s.cache.objectSize < 1024) (hinit : memGroupInit { s with ranges := p } group =
      some (s', 0)) :
    Grown L boot s s' := by
  have hview := fun rest' (hrest : NormalInv L boot s.ranges (s.owned L ++ rest')) =>
    (memCachePageAlloc_view hrest hlow halloc hgroup).2
  have hg : group ∉ s.cache.groups :=
    not_mem_groups_of_home (hview rest hbefore).1 fun a ha => List.mem_append_left _ ha
  unfold memGroupInit at hinit
  simp only [if_neg hlarge] at hinit
  cases halloc₂ : memCachePageAlloc p (objectPages s.cache) with
  | none => simp [halloc₂] at hinit
  | some pb =>
      obtain ⟨p₁, objects⟩ := pb
      simp only [halloc₂] at hinit
      by_cases hnone : objects = 0
      · simp [hnone] at hinit
      rw [if_neg hnone] at hinit
      have hstore := (memCachePageAlloc_view (hview rest hbefore).1 hlow halloc₂ hnone).1
      have hview₂ := fun rest' (hrest : NormalInv L boot s.ranges (s.owned L ++ rest')) =>
        (memCachePageAlloc_view (hview rest' hrest).1 hlow halloc₂ hnone).2
      obtain ⟨-, hend₂⟩ := (hview₂ rest hbefore).1.end_le (List.mem_cons_self ..)
      obtain ⟨p₂, hmark, hinv, hnodes⟩ :=
        markPages_nodes (hview₂ rest hbefore).1 hlow s.cache.addr group (objectPages s.cache) hend₂
      rw [← hstore] at hmark
      simp only [hmark, Option.map_some, Option.some.injEq, Prod.mk.injEq] at hinit
      obtain ⟨rfl, -⟩ := hinit
      refine grown_new hg (fun rest' hrest => ⟨?_, fun a ha k hk => ?_⟩)
        ⟨rest, hbefore⟩ fun k hk => ?_
      · rw [groupBlocks, if_neg hlarge]
        exact hinv _ ((hview₂ rest' hrest).1.perm (List.Perm.swap ..))
      · have hsame := sameNodes_marked (hview rest' hrest).1 (hview₂ rest' hrest).1
          (hview₂ rest' hrest).2 hnodes
        rw [hsame a (List.mem_cons_of_mem _ ha) k hk,
          (hview rest' hrest).2 _ (hrest.held_add ha hk)]
      · rw [storeBlock, if_neg hlarge] at hk ⊢
        simp only [newGroup] at hk ⊢
        rw [hnodes, if_pos ⟨Nat.le_add_right _ _, Nat.add_lt_add_left hk _⟩]

/-- **`mem_group_create`**, when it succeeds. -/
theorem grown_memGroupCreate (h : SlabInv L boot s live) (hlow : LowMem L)
    (hrun : memGroupCreate s = some (s', 0)) : Grown L boot s s' := by
  obtain ⟨rest, hbefore⟩ := h.core.pool
  obtain ⟨p, group, halloc, hgroup, hinit⟩ := memGroupCreate_ok hrun
  by_cases hsmall : s.cache.objectSize < 1024
  · exact grown_memGroupInit_small hlow hbefore halloc hgroup hsmall hinit
  · exact grown_memGroupInit_large hlow hbefore halloc hgroup hsmall hinit

/-! ## The calls -/

/-- An object is taken from a group of the cache. -/
theorem grown_memCacheDoAlloc (h : s.cache.groups.Nodup) (hg : g ∈ s.cache.groups) :
    Grown L boot s (memCacheDoAlloc s g).1 := by
  unfold memCacheDoAlloc
  dsimp only
  cases bitmapScan (s.groups g).map 1 with
  | none => exact Grown.refl s
  | some idx =>
      dsimp only
      split_ifs
      · exact grown_rewrite (moved_toFull h hg).toRearranged rfl hg rfl
      · exact grown_rewrite Rearranged.rfl rfl hg rfl

/-- With a group that has a free object nothing is created. -/
theorem memCacheAllocObject_found_grown (h : SlabInv L boot s live) (hlow : LowMem L) (retries : ℕ)
    {o : ℕ} (hfound : s.cache.partialGroups ≠ [] ∨ s.cache.freeGroups ≠ [])
    (hrun : memCacheAllocObject (retries + 1) s = some (s', o)) :
    SlabInv L boot s' (o :: live) ∧ Grown L boot s s' := by
  rw [memCacheAllocObject] at hrun
  cases hpart : s.cache.partialGroups with
  | cons g gs =>
      have hg : g ∈ s.cache.partialGroups := by rw [hpart]; exact List.mem_cons_self ..
      simp only [hpart, Option.some.injEq] at hrun
      obtain ⟨_, hinv⟩ := doAlloc_partial h hlow hg
      have hgrown : Grown L boot s (memCacheDoAlloc s g).1 :=
        grown_memCacheDoAlloc h.core.nodup (mem_groups.2 (Or.inr (Or.inl hg)))
      rw [hrun] at hinv hgrown
      exact ⟨hinv, hgrown⟩
  | nil =>
      cases hfree : s.cache.freeGroups with
      | nil => simp [hpart, hfree] at hfound
      | cons g gs =>
          have hg : g ∈ s.cache.freeGroups := by rw [hfree]; exact List.mem_cons_self ..
          have hgroup : g ∈ s.cache.groups := mem_groups.2 (Or.inr (Or.inr hg))
          have hmoved := moved_toPartial h.core.nodup hgroup
          obtain ⟨t, ht⟩ : ∃ t : CacheState, t = { s with cache := { s.cache.unlink g with
              partialGroups := (s.cache.unlink g).partialGroups ++ [g] } } := ⟨_, rfl⟩
          simp only [hpart, hfree, Option.some.injEq, ← ht] at hrun
          have hinv := (doAlloc_free h hlow hg t ht).2
          have hsame : t = CacheState.setGroup t g (s.groups g) := by
            rw [ht, CacheState.setGroup, Function.update_eq_self]
          have hfirst : Grown L boot s t := by
            rw [hsame, ht]
            exact grown_rewrite hmoved.toRearranged rfl hgroup rfl
          have hnodup : t.cache.groups.Nodup := by
            rw [ht]
            exact hmoved.groups.nodup_iff.2 h.core.nodup
          have hsecond : Grown L boot t (memCacheDoAlloc t g).1 :=
            grown_memCacheDoAlloc hnodup (hfirst.groups g hgroup)
          rw [hrun] at hinv hsecond
          exact ⟨hinv, hfirst.trans hsecond⟩

/-- **`mem_cache_alloc_object`**, when it returns an object. -/
theorem memCacheAllocObject_grown (h : SlabInv L boot s live) (hlow : LowMem L) {o : ℕ}
    (hrun : memCacheAllocObject 2 s = some (s', o)) (ho : o ≠ 0) :
    SlabInv L boot s' (o :: live) ∧ Grown L boot s s' := by
  by_cases hfound : s.cache.partialGroups ≠ [] ∨ s.cache.freeGroups ≠ []
  · exact memCacheAllocObject_found_grown h hlow 1 hfound hrun
  · rw [not_or, not_not, not_not] at hfound
    rw [memCacheAllocObject, hfound.1, hfound.2] at hrun
    cases hcreate : memGroupCreate s with
    | none => simp [hcreate] at hrun
    | some r =>
        obtain ⟨s₁, ret⟩ := r
        simp only [hcreate] at hrun
        have hret : ret = 0 := by
          by_contra hret
          rw [if_neg hret, Option.some.injEq, Prod.mk.injEq] at hrun
          exact ho hrun.2.symm
        subst hret
        rw [if_pos rfl] at hrun
        obtain ⟨s₂, g, hcreate₂, hinv, -, hfree⟩ :=
          memGroupCreate_spec h hlow (by rw [hcreate]; rfl)
        rw [hcreate, Option.some.injEq, Prod.mk.injEq] at hcreate₂
        obtain ⟨rfl, -⟩ := hcreate₂
        have hone : s₁.cache.freeGroups ≠ [] := by
          rw [hfree]
          exact List.cons_ne_nil _ _
        obtain ⟨hinv', hgrown⟩ := memCacheAllocObject_found_grown hinv hlow 0 (Or.inr hone) hrun
        exact ⟨hinv', (grown_memGroupCreate h hlow hcreate).trans hgrown⟩

/-- **`mem_cache_free_object`** of an object in use. -/
theorem memCacheDoFree_grown (h : SlabInv L boot s live) (hlow : LowMem L) {o : ℕ} (ho : o ∈ live) :
    ∃ s', memCacheDoFree s o = some s' ∧ SlabInv L boot s' (live.erase o) ∧ Grown L boot s s' := by
  obtain ⟨s', hrun, hinv⟩ := memCacheDoFree_spec h hlow ho
  refine ⟨s', hrun, hinv, ?_⟩
  obtain ⟨g, hg, i, hi, -, rfl⟩ := (h.ledger.2 o).1 ho
  obtain ⟨n, hnode, hgroup⟩ := object_lookup h.core hlow hg hi
  rw [memCacheDoFree, hnode, Option.bind_some, hgroup, Option.bind_some] at hrun
  split_ifs at hrun
  rw [Option.some.injEq] at hrun
  subst hrun
  unfold memCacheDoFreeAt
  dsimp only
  split_ifs
  · exact grown_rewrite (moved_toFree h.core.nodup hg).toRearranged rfl hg rfl
  · exact grown_rewrite (moved_toPartial h.core.nodup hg).toRearranged rfl hg rfl
  · exact grown_rewrite Rearranged.rfl rfl hg rfl

end Grown

end MemCache
end LightOS
