import LightOS.Vmm.MemCacheObject

/-!
# Memory caches: new groups and groups that go

`mem_group_create` and `group_destory` keep the invariant of a cache, and so does
`mem_cahce_shrink`.

* `slabInv_new`, `slabInv_drop` — a group comes, an empty group goes.
* `memGroupCreate_spec` — creating a group, when there are pages for it.
* `memCacheDoShrink_spec` — destroying the free groups one by one.
-/

namespace LightOS
namespace MemCache

open MemPool

/-! ## Pages -/

section Pages

variable {L : PoolLayout} {boot : MemRangeIdx → ℕ → MemNode} {p : MemRanges} {held : List LiveAlloc}

/-- `mem_cache_page_alloc`: it fails and nothing changes, or a block comes into use. -/
theorem memCachePageAlloc_spec (h : NormalInv L boot p held) (hlow : LowMem L) (count : ℕ) :
    memCachePageAlloc p count = some (p, 0) ∨
      ∃ p' node, memCachePageAlloc p count = some (p', pageAt L node) ∧
        NormalInv L boot p' (⟨node, count⟩ :: held) ∧
        ∀ n, Held held n → (p' .normal).nodeTable n = (p .normal).nodeTable n := by
  have hstart := L.start_pos .normal
  rcases normalAlloc_spec h count with hfail | ⟨p', node, hok, hinv, hkeep⟩
  · left
    rw [memCachePageAlloc, hfail, Option.map_some, if_pos rfl]
  · right
    obtain ⟨hpos, hend⟩ := hinv.end_le (List.mem_cons_self ..)
    refine ⟨p', node, ?_, hinv, hkeep⟩
    simp only at hpos hend
    rw [memCachePageAlloc, hok, Option.map_some, if_neg (by omega),
      kernPhyAddr2VirAddr_page hlow (by omega)]

/-- `mem_cache_page_free` of a block in use. -/
theorem memCachePageFree_spec {a : LiveAlloc} (h : NormalInv L boot p (a :: held))
    (hlow : LowMem L) :
    ∃ p', memCachePageFree p (pageAt L a.node) = some (p', 0) ∧ NormalInv L boot p' held ∧
      ∀ n ≠ a.node, (p' .normal).nodeTable n = (p .normal).nodeTable n := by
  have hstart := L.start_pos .normal
  obtain ⟨hpos, hend⟩ := h.end_le (List.mem_cons_self ..)
  obtain ⟨p', hfree, hinv, hkeep⟩ := normalFree_spec h
  have hphy := kernVirAddr2PhyAddr_page (n := a.node) hlow (by omega)
    (show 0 < pageSize by norm_num)
  simp only [Nat.add_zero] at hphy
  refine ⟨p', ?_, hinv, hkeep⟩
  rw [memCachePageFree, if_neg (pageAt_ne_zero L a.node), hphy, if_neg (by omega), hfree,
    Option.map_some]

theorem markPage_page (h : NormalInv L boot p held) (hlow : LowMem L) {n : ℕ}
    (hn : n < L.len .normal / pageSize) (cache group : ℕ) :
    markPage p cache group (pageAt L n) = some (memNodeMark p (.normal, n) cache group) := by
  have hphy := kernVirAddr2PhyAddr_page hlow hn (show 0 < pageSize by norm_num)
  have hnode := phyAddrToMemNode_normal h hn (show 0 < pageSize by norm_num)
  simp only [Nat.add_zero] at hphy hnode
  rw [markPage, hphy, hnode, Option.map_some]

theorem markPages_spec (h : NormalInv L boot p held) (hlow : LowMem L) {node : ℕ}
    (cache group : ℕ) :
    ∀ k, node + k ≤ L.len .normal / pageSize →
      ∃ p', markPages p cache group (pageAt L node) k = some p' ∧ NormalInv L boot p' held ∧
        ∀ m, ((p' .normal).nodeTable m).group =
          if node ≤ m ∧ m < node + k then some group else ((p .normal).nodeTable m).group := by
  intro k
  induction k with
  | zero =>
      intro _
      exact ⟨p, rfl, h, fun m => by rw [if_neg (by omega)]⟩
  | succ k ih =>
      intro hk
      obtain ⟨p', hrun, hinv, hmarks⟩ := ih (by omega)
      have haddr : pageAt L node + k * pageSize = pageAt L (node + k) := by
        unfold pageAt
        ring
      refine ⟨_, ?_, normalInv_mark hinv (node + k) cache group, fun m => ?_⟩
      · rw [markPages, hrun, Option.bind_some, haddr, markPage_page hinv hlow (by omega)]
      · rw [memNodeMark_group, hmarks]
        split_ifs <;> first | rfl | omega

end Pages

/-! ## A group comes -/

section New

variable {L : PoolLayout} {boot : MemRangeIdx → ℕ → MemNode} {s : CacheState} {live : List ℕ}
  {g : ℕ}
  {G : MemGroup} {p : MemRanges} {rest : List LiveAlloc}

theorem home_mem_groupBlocks {size count : ℕ} : ⟨nodeAt L g, 1⟩ ∈ groupBlocks L size count g G := by
  unfold groupBlocks
  split_ifs <;> simp

/-- Pages that come into use were not the home of a group. -/
theorem not_mem_groups_of_new
    (hpool : NormalInv L boot p (groupBlocks L s.cache.objectSize s.cache.objectCount g G ++
      (s.owned L ++ rest))) : g ∉ s.cache.groups := by
  intro hmem
  have hapart := (List.pairwise_append.1 hpool.pairwise).2.2 _ home_mem_groupBlocks ⟨nodeAt L g, 1⟩
    (List.mem_append_left _ (mem_owned.2 ⟨g, hmem, home_mem_groupBlocks⟩))
  simp only at hapart
  omega

/-- The objects in use stay the same when a group without any comes. -/
theorem inUse_new (hg : g ∉ s.cache.groups) (hclear : ∀ i < s.cache.objectCount, G.map.bit i =
    false)
    {s' : CacheState} (hgroups : s'.cache.groups.Perm (g :: s.cache.groups))
    (hsize : s'.cache.objectSize = s.cache.objectSize)
    (hcount : s'.cache.objectCount = s.cache.objectCount) (hself : s'.groups g = G)
    (hothers : ∀ x ≠ g, s'.groups x = s.groups x) (o : ℕ) : InUse s' o ↔ InUse s o := by
  constructor
  · rintro ⟨x, hx, i, hi, hbit, heq⟩
    rw [hcount] at hi
    rcases List.mem_cons.1 (hgroups.mem_iff.1 hx) with rfl | hx
    · rw [hself, hclear i hi] at hbit
      cases hbit
    · have hne : x ≠ g := fun h => hg (h ▸ hx)
      rw [hothers x hne] at hbit
      rw [CacheState.objectAt, hothers x hne, hsize] at heq
      exact ⟨x, hx, i, hi, hbit, heq⟩
  · rintro ⟨x, hx, i, hi, hbit, heq⟩
    have hne : x ≠ g := fun h => hg (h ▸ hx)
    refine ⟨x, hgroups.mem_iff.2 (List.mem_cons_of_mem _ hx), i, by rwa [hcount], ?_, ?_⟩
    · rwa [hothers x hne]
    · rw [CacheState.objectAt, hothers x hne, hsize]
      exact heq

/-- **A group comes**: it is linked with its pages, all its objects free. -/
theorem slabInv_new (h : SlabInv L boot s live)
    (hpool : NormalInv L boot p (groupBlocks L s.cache.objectSize s.cache.objectCount g G ++
      (s.owned L ++ rest)))
    (hok : GroupOk L s.cache.objectSize s.cache.objectCount (p .normal).nodeTable g G)
    (husing : G.usingCount = 0)
    (hmarks : ∀ a ∈ s.owned L, ∀ k < a.count, ((p .normal).nodeTable (a.node + k)).group =
      ((s.ranges .normal).nodeTable (a.node + k)).group) :
    SlabInv L boot (CacheState.setGroup
      { s with cache := { s.cache with freeGroups := g :: s.cache.freeGroups }, ranges := p } g G)
      live := by
  have hg := not_mem_groups_of_new hpool
  have hperm : ({ s.cache with freeGroups := g :: s.cache.freeGroups } : Cache).groups.Perm
      (g :: s.cache.groups) := List.perm_middle
  have hne : ∀ x ∈ s.cache.groups, x ≠ g := fun x hx heq => hg (heq ▸ hx)
  refine ⟨⟨h.core.classOk, ⟨rest, hpool.perm ?_⟩, ?_, fun x hx => ?_⟩, fun x => ?_, h.ledger.1,
    fun o => ?_⟩
  · rw [← List.append_assoc]
    refine List.Perm.append_right rest (List.Perm.symm ((hperm.flatMap_right _).trans ?_))
    rw [List.flatMap_cons, CacheState.blocks, setGroup_self]
    refine List.Perm.append_left _ (List.Perm.of_eq (List.flatMap_congr fun x hx => ?_))
    rw [CacheState.blocks, setGroup_of_ne (hne x hx)]
    rfl
  · exact hperm.nodup_iff.2 (List.nodup_cons.2 ⟨hg, h.core.nodup⟩)
  · rcases List.mem_cons.1 (hperm.mem_iff.1 hx) with rfl | hx
    · rw [setGroup_self]
      exact hok
    · rw [setGroup_of_ne (hne x hx)]
      exact (h.core.ok x hx).congr_nodes (hmarks _
        (mem_owned.2 ⟨x, hx, storeBlock_mem_groupBlocks⟩))
  · by_cases hx : x = g
    · subst hx
      refine ⟨fun hmem => ?_, fun hmem => ?_, fun _ => ?_⟩
      · exact absurd (mem_groups.2 (Or.inl (show x ∈ s.cache.fullGroups from hmem))) hg
      · exact absurd (mem_groups.2 (Or.inr (Or.inl (show x ∈ s.cache.partialGroups from hmem)))) hg
      · rw [setGroup_self, husing]
    · have hlisted := h.listed x
      refine ⟨fun hmem => ?_, fun hmem => ?_, fun hmem => ?_⟩
      · rw [setGroup_of_ne hx]
        exact hlisted.full hmem
      · rw [setGroup_of_ne hx]
        exact hlisted.part hmem
      · rw [setGroup_of_ne hx]
        exact hlisted.free ((List.mem_cons.1 hmem).resolve_left hx)
  · have hclear : ∀ i < s.cache.objectCount, G.map.bit i = false := fun i hi =>
      bit_of_popcount_eq_zero (hok.bits.trans husing) (lt_of_lt_of_le hi hok.count_le)
    rw [h.ledger.2]
    symm
    apply inUse_new hg hclear
    · exact hperm
    · rfl
    · rfl
    · exact setGroup_self
    · exact fun x hx => setGroup_of_ne hx

/-- Blocks held before are apart from a block that comes into use. -/
theorem apart_of_new {a c : LiveAlloc} {held : List LiveAlloc} (h : NormalInv L boot p (c :: held))
    (ha : a ∈ held) : c.node + c.count ≤ a.node ∨ a.node + a.count ≤ c.node :=
  List.rel_of_pairwise_cons h.pairwise ha

/-- What `mem_group_init` leaves when the objects are in the page of the group. -/
theorem memGroupInit_eq_small (hpool : NormalInv L boot p rest) (hlow : LowMem L)
    (hsmall : s.cache.objectSize < 1024) {node : ℕ} (hnode : node < L.len .normal / pageSize) :
    memGroupInit { s with ranges := p } (pageAt L node) = some (CacheState.setGroup
      { s with
        cache := { s.cache with freeGroups := pageAt L node :: s.cache.freeGroups }
        ranges := memNodeMark p (.normal, node) s.cache.addr (pageAt L node) } (pageAt L node)
      (newGroup s.cache (s.groups (pageAt L node)).map.bits (pageAt L node + 48)), 0) := by
  rw [memGroupInit, if_pos hsmall, markPage_page hpool hlow hnode]
  rfl

/-- What `mem_group_init` leaves when the objects have pages of their own. -/
theorem memGroupInit_eq_large (hlarge : ¬ s.cache.objectSize < 1024) {node first : ℕ}
    {p₁ p₂ : MemRanges}
    (halloc : memCachePageAlloc p (objectPages s.cache) = some (p₁, pageAt L first))
    (hmark : markPages p₁ s.cache.addr (pageAt L node) (pageAt L first) (objectPages s.cache) =
      some p₂) :
    memGroupInit { s with ranges := p } (pageAt L node) = some (CacheState.setGroup
      { s with
        cache := { s.cache with freeGroups := pageAt L node :: s.cache.freeGroups }
        ranges := p₂ } (pageAt L node)
      (newGroup s.cache (s.groups (pageAt L node)).map.bits (pageAt L first)), 0) := by
  rw [memGroupInit, if_neg hlarge]
  simp only [halloc, if_neg (pageAt_ne_zero L first), hmark, Option.map_some]

/-- `mem_group_init` with the objects in the page of the group. -/
theorem memGroupInit_small (h : SlabInv L boot s live) (hlow : LowMem L)
    (hsmall : s.cache.objectSize < 1024) {node : ℕ}
    (hbefore : NormalInv L boot s.ranges (s.owned L ++ rest))
    (hpool : NormalInv L boot p (⟨node, 1⟩ :: (s.owned L ++ rest)))
    (hkeep : ∀ n, Held (s.owned L ++ rest) n →
      (p .normal).nodeTable n = (s.ranges .normal).nodeTable n) :
    ∃ s', memGroupInit { s with ranges := p } (pageAt L node) = some (s', 0) ∧
      SlabInv L boot s' live ∧ s'.cache.partialGroups = s.cache.partialGroups ∧
      s'.cache.freeGroups = pageAt L node :: s.cache.freeGroups := by
  obtain ⟨-, hend⟩ := hpool.end_le (List.mem_cons_self ..)
  simp only at hend
  have hmarked := normalInv_mark hpool node s.cache.addr (pageAt L node)
  have hrun := memGroupInit_eq_small hpool hlow hsmall
    (show node < L.len .normal / pageSize by omega)
  refine ⟨_, hrun, ?_, rfl, rfl⟩
  apply slabInv_new h
  · rw [groupBlocks, if_pos hsmall, nodeAt_pageAt]
    exact hmarked
  · refine groupOk_new rfl rfl _ ?_ ?_ fun k hk => ?_
    · rw [nodeAt_pageAt]
    · rw [if_pos hsmall]
    · rw [storeBlock, if_pos hsmall, nodeAt_pageAt] at hk ⊢
      simp only at hk ⊢
      rw [memNodeMark_group, if_pos (by omega)]
  · rfl
  · intro a ha k hk
    have hmem : a ∈ s.owned L ++ rest := List.mem_append_left _ ha
    have hapart := apart_of_new hpool hmem
    simp only at hapart
    rw [memNodeMark_group, if_neg (by omega), hkeep _ (hbefore.held_add hmem hk)]

/-- `mem_group_init` with the objects in pages of their own. -/
theorem memGroupInit_large (h : SlabInv L boot s live) (hlow : LowMem L)
    (hlarge : ¬ s.cache.objectSize < 1024) {node : ℕ}
    (hbefore : NormalInv L boot s.ranges (s.owned L ++ rest))
    (hpool : NormalInv L boot p (⟨node, 1⟩ :: (s.owned L ++ rest)))
    (hkeep : ∀ n, Held (s.owned L ++ rest) n →
      (p .normal).nodeTable n = (s.ranges .normal).nodeTable n) :
    (∃ s', memGroupInit { s with ranges := p } (pageAt L node) = some (s', -1)) ∨
      ∃ s', memGroupInit { s with ranges := p } (pageAt L node) = some (s', 0) ∧
        SlabInv L boot s' live ∧ s'.cache.partialGroups = s.cache.partialGroups ∧
        s'.cache.freeGroups = pageAt L node :: s.cache.freeGroups := by
  rcases memCachePageAlloc_spec hpool hlow (objectPages s.cache) with
    hfail | ⟨p₁, first, hok, hpool₁, hkeep₁⟩
  · left
    rw [memGroupInit, if_neg hlarge]
    simp only [hfail]
    exact ⟨_, rfl⟩
  right
  obtain ⟨hpos, hend⟩ := hpool₁.end_le (List.mem_cons_self ..)
  simp only at hpos hend
  obtain ⟨p₂, hmark, hpool₂, hmarks⟩ := markPages_spec hpool₁ hlow s.cache.addr (pageAt L node)
    (objectPages s.cache) hend
  have hrun := memGroupInit_eq_large hlarge hok hmark
  refine ⟨_, hrun, ?_, rfl, rfl⟩
  apply slabInv_new h
  · rw [groupBlocks, if_neg hlarge, nodeAt_pageAt]
    simp only [newGroup, nodeAt_pageAt]
    exact hpool₂.perm (List.Perm.swap ..)
  · refine groupOk_new rfl rfl _ ?_ ?_ fun k hk => ?_
    · rw [nodeAt_pageAt]
    · rw [if_neg hlarge, nodeAt_pageAt]
    · rw [storeBlock, if_neg hlarge] at hk ⊢
      simp only [newGroup, nodeAt_pageAt] at hk ⊢
      rw [hmarks, if_pos ⟨Nat.le_add_right _ _, Nat.add_lt_add_left hk _⟩]
  · rfl
  · intro a ha k hk
    have hmem : a ∈ s.owned L ++ rest := List.mem_append_left _ ha
    have hapart := apart_of_new hpool₁ (List.mem_cons_of_mem _ hmem)
    have hheld := hbefore.held_add hmem hk
    simp only at hapart
    rw [hmarks, if_neg (by omega), hkeep₁ _ (hpool.held_add (List.mem_cons_of_mem _ hmem) hk),
      hkeep _ hheld]

/-- **`mem_group_create`**, when it succeeds, adds a group to the free list. -/
theorem memGroupCreate_spec (h : SlabInv L boot s live) (hlow : LowMem L)
    (hsuccess : (memGroupCreate s).map Prod.snd = some 0) :
    ∃ s' g, memGroupCreate s = some (s', 0) ∧ SlabInv L boot s' live ∧
      s'.cache.partialGroups = s.cache.partialGroups ∧
      s'.cache.freeGroups = g :: s.cache.freeGroups := by
  obtain ⟨rest, hbefore⟩ := h.core.pool
  rcases memCachePageAlloc_spec hbefore hlow 1 with hfail | ⟨p, node, hok, hpool, hkeep⟩
  · rw [memGroupCreate, hfail] at hsuccess
    cases hsuccess
  · have hne := pageAt_ne_zero L node
    by_cases hsmall : s.cache.objectSize < 1024
    · obtain ⟨s', hrun, hinv, hpart, hfree⟩ := memGroupInit_small h hlow hsmall hbefore hpool hkeep
      refine ⟨s', pageAt L node, ?_, hinv, hpart, hfree⟩
      rw [memGroupCreate, hok]
      simp only [if_neg hne, hrun, if_true]
    · rcases memGroupInit_large h hlow hsmall hbefore hpool hkeep with
        ⟨s', hrun⟩ | ⟨s', hrun, hinv, hpart, hfree⟩
      · rw [memGroupCreate, hok] at hsuccess
        simp [hne, hrun] at hsuccess
      · refine ⟨s', pageAt L node, ?_, hinv, hpart, hfree⟩
        rw [memGroupCreate, hok]
        simp only [if_neg hne, hrun, if_true]

end New

/-! ## A group goes -/

section Drop

variable {L : PoolLayout} {boot : MemRangeIdx → ℕ → MemNode} {s : CacheState} {live : List ℕ}
  {g : ℕ}
  {p : MemRanges} {rest : List LiveAlloc}

/-- The blocks of the cache without those of one group. -/
theorem owned_perm (h : s.cache.groups.Nodup) (hg : g ∈ s.cache.groups) (p : MemRanges) :
    (s.owned L).Perm (s.blocks L g ++
      CacheState.owned L { s with cache := s.cache.unlink g, ranges := p }) := by
  have hperm := (List.perm_cons_erase hg).flatMap_right (s.blocks L)
  rw [List.flatMap_cons, ← unlink_groups h] at hperm
  exact hperm

/-- **A group goes**: it had no object in use, and its pages are given back. -/
theorem slabInv_drop (h : SlabInv L boot s live) (hg : g ∈ s.cache.freeGroups)
    (hpool : NormalInv L boot p (CacheState.owned L
      { s with cache := s.cache.unlink g, ranges := p } ++
      rest))
    (hmarks : ∀ x ∈ s.cache.groups, x ≠ g → ∀ a ∈ s.blocks L x, ∀ k < a.count,
      ((p .normal).nodeTable (a.node + k)).group =
        ((s.ranges .normal).nodeTable (a.node + k)).group) :
    SlabInv L boot { s with cache := s.cache.unlink g, ranges := p } live := by
  have hgroup : g ∈ s.cache.groups := mem_groups.2 (Or.inr (Or.inr hg))
  have hok := h.core.ok g hgroup
  have hmem : ∀ x, x ∈ (s.cache.unlink g).groups ↔ x ≠ g ∧ x ∈ s.cache.groups := by
    intro x
    rw [unlink_groups h.core.nodup]
    exact h.core.nodup.mem_erase_iff
  refine ⟨⟨h.core.classOk, ⟨rest, hpool⟩, ?_, fun x hx => ?_⟩, fun x => ?_, h.ledger.1, fun o => ?_⟩
  · simp only [unlink_groups h.core.nodup]
    exact h.core.nodup.erase g
  · obtain ⟨hne, hx⟩ := (hmem x).1 hx
    exact (h.core.ok x hx).congr_nodes (hmarks x hx hne _ storeBlock_mem_groupBlocks)
  · have hlisted := h.listed x
    refine ⟨fun hx => ?_, fun hx => ?_, fun hx => ?_⟩
    · exact hlisted.full ((mem_unlink h.core.nodup).1.1 hx).2
    · exact hlisted.part ((mem_unlink h.core.nodup).2.1.1 hx).2
    · exact hlisted.free ((mem_unlink h.core.nodup).2.2.1 hx).2
  · have hclear : ∀ i < s.cache.objectCount, (s.groups g).map.bit i = false := fun i hi =>
      bit_of_popcount_eq_zero (hok.bits.trans ((h.listed g).free hg))
        (lt_of_lt_of_le hi hok.count_le)
    rw [h.ledger.2]
    constructor
    · rintro ⟨x, hx, i, hi, hbit, heq⟩
      refine ⟨x, (hmem x).2 ⟨?_, hx⟩, i, hi, hbit, heq⟩
      rintro rfl
      rw [hclear i hi] at hbit
      cases hbit
    · rintro ⟨x, hx, i, hi, hbit, heq⟩
      exact ⟨x, ((hmem x).1 hx).2, i, hi, hbit, heq⟩

/-- **`group_destory`** of a free group gives its pages back. -/
theorem groupDestory_spec (h : SlabInv L boot s live) (hlow : LowMem L)
    (hg : g ∈ s.cache.freeGroups) :
    ∃ p, groupDestory s g = some ({ s with cache := s.cache.unlink g, ranges := p }, 0) ∧
      SlabInv L boot { s with cache := s.cache.unlink g, ranges := p } live := by
  have hgroup : g ∈ s.cache.groups := mem_groups.2 (Or.inr (Or.inr hg))
  have hok := h.core.ok g hgroup
  obtain ⟨rest, hbefore⟩ := h.core.pool
  have hpool := hbefore.perm ((owned_perm h.core.nodup hgroup s.ranges).append_right rest)
  have hapart : ∀ x ∈ s.cache.groups, x ≠ g → ∀ a ∈ s.blocks L x, ∀ k < a.count,
      ∀ b ∈ s.blocks L g, a.node + k ≠ b.node := by
    intro x hx hne a ha k hk b hb
    have hpos := (hbefore.end_le (List.mem_append_left _ (mem_owned.2 ⟨g, hgroup, hb⟩))).1
    have hab := h.core.blocks_apart hx hgroup hne a ha b hb
    unfold PagesApart at hab
    omega
  by_cases hsmall : s.cache.objectSize < 1024
  · have hblocks : s.blocks L g = [⟨nodeAt L g, 1⟩] := by
      rw [CacheState.blocks, groupBlocks, if_pos hsmall]
    rw [hblocks] at hpool hapart
    obtain ⟨p, hfree, hinv, hkeep⟩ := memCachePageFree_spec hpool hlow
    rw [← hok.home] at hfree
    refine ⟨p, ?_, slabInv_drop h hg hinv fun x hx hne a ha k hk => ?_⟩
    · rw [groupDestory, if_pos hsmall, hfree, Option.map_some]
    · rw [hkeep _ (hapart x hx hne a ha k hk _ (List.mem_singleton_self _))]
  · have hblocks : s.blocks L g = [⟨nodeAt L g, 1⟩, ⟨nodeAt L (s.groups g).objects,
        storePages s.cache.objectSize s.cache.objectCount⟩] := by
      rw [CacheState.blocks, groupBlocks, if_neg hsmall]
    have hobjects := hok.objects
    rw [if_neg hsmall] at hobjects
    rw [hblocks] at hpool hapart
    obtain ⟨p₁, hfree₁, hinv₁, hkeep₁⟩ :=
      memCachePageFree_spec (hpool.perm (List.Perm.swap ..)) hlow
    obtain ⟨p₂, hfree₂, hinv₂, hkeep₂⟩ := memCachePageFree_spec hinv₁ hlow
    rw [← hobjects] at hfree₁
    rw [← hok.home] at hfree₂
    refine ⟨p₂, ?_, slabInv_drop h hg hinv₂ fun x hx hne a ha k hk => ?_⟩
    · rw [groupDestory, if_neg hsmall, hfree₁]
      simp only [ne_eq, not_true_eq_false, if_false, hfree₂, Option.map_some]
    · rw [hkeep₂ _ (hapart x hx hne a ha k hk _ (by simp)),
        hkeep₁ _ (hapart x hx hne a ha k hk _ (by simp))]

/-- The loop of `mem_cache_do_shrink` over groups of the free list. -/
theorem memCacheDoShrink_spec (hlow : LowMem L) :
    ∀ (groups : List ℕ) (s : CacheState), SlabInv L boot s live → groups.Nodup →
      (∀ g ∈ groups, g ∈ s.cache.freeGroups) →
      ∃ s' n, memCacheDoShrink groups s = some (s', n) ∧ SlabInv L boot s' live := by
  intro groups
  induction groups with
  | nil =>
      intro s h _ _
      exact ⟨s, 0, rfl, h⟩
  | cons g groups ih =>
      intro s h hnodup hfree
      obtain ⟨hnot, hnodup⟩ := List.nodup_cons.1 hnodup
      obtain ⟨p, hrun, hinv⟩ := groupDestory_spec h hlow (hfree g (List.mem_cons_self ..))
      have hrest : ∀ x ∈ groups, x ∈ (s.cache.unlink g).freeGroups := by
        intro x hx
        refine (mem_unlink h.core.nodup).2.2.2 ⟨?_, hfree x (List.mem_cons_of_mem _ hx)⟩
        rintro rfl
        exact hnot hx
      obtain ⟨s', n, hshrink, hinv'⟩ := ih _ hinv hnodup hrest
      refine ⟨s', n + 1, ?_, hinv'⟩
      rw [memCacheDoShrink, hrun, Option.bind_some, hshrink, Option.map_some, if_pos rfl]

/-- **`mem_cahce_shrink`** keeps the objects in use. -/
theorem memCahceShrink_spec (h : SlabInv L boot s live) (hlow : LowMem L) :
    ∃ s' n, memCahceShrink s = some (s', n) ∧ SlabInv L boot s' live := by
  obtain ⟨s', n, hrun, hinv⟩ := memCacheDoShrink_spec hlow s.cache.freeGroups s h
    (groups_nodup h.core.nodup).2.2.1 fun g hg => hg
  exact ⟨s', _, by rw [memCahceShrink, hrun, Option.map_some], hinv⟩

end Drop

end MemCache
end LightOS
