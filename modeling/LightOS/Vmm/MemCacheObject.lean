import LightOS.Vmm.MemCacheGroup

/-!
# Memory caches: taking and giving back an object

The invariant of a cache together with the objects its callers hold, and that
`mem_cache_do_alloc` and `mem_cache_do_free` keep it.

* `ListedAt` — a group is on the list its counts put it on.
* `SlabInv` — all groups are, and the objects in use are those the bitmaps say.
* `memCacheDoAlloc_spec`, `memCacheDoFree_spec` — the two operations on objects.
-/

namespace LightOS
namespace MemCache

open MemPool

/-! ## The three lists -/

section Lists

variable {c : Cache} {g x : ℕ}

theorem groups_nodup (h : c.groups.Nodup) :
    c.fullGroups.Nodup ∧ c.partialGroups.Nodup ∧ c.freeGroups.Nodup ∧
      (∀ x ∈ c.fullGroups, x ∉ c.partialGroups ∧ x ∉ c.freeGroups) ∧
      ∀ x ∈ c.partialGroups, x ∉ c.freeGroups := by
  obtain ⟨hfp, hfree, hapart⟩ := List.nodup_append'.1 h
  obtain ⟨hfull, hpartial, hfp'⟩ := List.nodup_append'.1 hfp
  refine ⟨hfull, hpartial, hfree, fun x hx => ⟨fun hp => hfp' hx hp, fun hf => ?_⟩,
    fun x hx hf => ?_⟩
  · exact hapart (List.mem_append_left _ hx) hf
  · exact hapart (List.mem_append_right _ hx) hf

theorem mem_groups : x ∈ c.groups ↔ x ∈ c.fullGroups ∨ x ∈ c.partialGroups ∨ x ∈ c.freeGroups := by
  simp only [Cache.groups, List.mem_append, or_assoc]

/-- Unlinking takes a group off the lists, and only that group. -/
theorem mem_unlink (h : c.groups.Nodup) :
    (x ∈ (c.unlink g).fullGroups ↔ x ≠ g ∧ x ∈ c.fullGroups) ∧
      (x ∈ (c.unlink g).partialGroups ↔ x ≠ g ∧ x ∈ c.partialGroups) ∧
      (x ∈ (c.unlink g).freeGroups ↔ x ≠ g ∧ x ∈ c.freeGroups) := by
  obtain ⟨hfull, hpartial, hfree, -, -⟩ := groups_nodup h
  exact ⟨hfull.mem_erase_iff, hpartial.mem_erase_iff, hfree.mem_erase_iff⟩

theorem unlink_groups (h : c.groups.Nodup) : (c.unlink g).groups = c.groups.erase g := by
  obtain ⟨hfull, hpartial, hfree, -, -⟩ := groups_nodup h
  rw [h.erase_eq_filter]
  simp only [Cache.groups, Cache.unlink, List.filter_append, hfull.erase_eq_filter,
    hpartial.erase_eq_filter, hfree.erase_eq_filter]

/-- A group that moves to the end of a list stays a group of the cache. -/
theorem groups_move (h : c.groups.Nodup) (hg : g ∈ c.groups) {c' : Cache}
    (hc : c'.groups.Perm (g :: (c.unlink g).groups)) : c'.groups.Perm c.groups := by
  rw [unlink_groups h] at hc
  exact hc.trans (List.perm_cons_erase hg).symm

theorem groups_pushFull :
    ({ c with fullGroups := c.fullGroups ++ [g] } : Cache).groups.Perm (g :: c.groups) := by
  simp only [Cache.groups, List.append_assoc, List.singleton_append]
  exact List.perm_middle

theorem groups_pushPartial :
    ({ c with partialGroups := c.partialGroups ++ [g] } : Cache).groups.Perm (g :: c.groups) := by
  simp only [Cache.groups, List.append_assoc, List.singleton_append]
  rw [← List.append_assoc, ← List.append_assoc c.fullGroups]
  exact List.perm_middle

theorem groups_pushFree :
    ({ c with freeGroups := c.freeGroups ++ [g] } : Cache).groups.Perm (g :: c.groups) := by
  simp only [Cache.groups]
  rw [← List.append_assoc]
  exact List.perm_append_singleton ..

end Lists

/-! ## The invariant -/

/-- A group is on the list its counts put it on. -/
structure ListedAt (s : CacheState) (g : ℕ) : Prop where
  full : g ∈ s.cache.fullGroups → (s.groups g).usingCount = s.cache.objectCount
  part : g ∈ s.cache.partialGroups →
    0 < (s.groups g).usingCount ∧ (s.groups g).usingCount < s.cache.objectCount
  free : g ∈ s.cache.freeGroups → (s.groups g).usingCount = 0

/-- The object is marked in the bitmap of a group. -/
def InUse (s : CacheState) (o : ℕ) : Prop :=
  ∃ g ∈ s.cache.groups, ∃ i < s.cache.objectCount, (s.groups g).map.bit i = true ∧
    o = s.objectAt g i

/-- The objects the callers hold are those in use. -/
def Ledger (s : CacheState) (live : List ℕ) : Prop := live.Nodup ∧ ∀ o, o ∈ live ↔ InUse s o

/-- The invariant of a cache whose callers hold the objects `live`. -/
structure SlabInv (L : PoolLayout) (boot : MemRangeIdx → ℕ → MemNode) (s : CacheState)
    (live : List ℕ) : Prop where
  core : Core L boot s
  listed : ∀ g, ListedAt s g
  ledger : Ledger s live

section Rewrite

variable {L : PoolLayout} {boot : MemRangeIdx → ℕ → MemNode} {s : CacheState} {g : ℕ} {c : Cache}
  {G : MemGroup}

@[simp] theorem setGroup_cache : (s.setGroup g G).cache = s.cache := rfl

@[simp] theorem setGroup_ranges : (s.setGroup g G).ranges = s.ranges := rfl

@[simp] theorem setGroup_self : (s.setGroup g G).groups g = G := Function.update_self ..

theorem setGroup_of_ne {x : ℕ} (h : x ≠ g) : (s.setGroup g G).groups x = s.groups x :=
  Function.update_of_ne h ..

theorem setGroup_objects (hobjects : G.objects = (s.groups g).objects) (x : ℕ) :
    ((s.setGroup g G).groups x).objects = (s.groups x).objects := by
  by_cases hx : x = g
  · rw [hx, setGroup_self, hobjects]
  · rw [setGroup_of_ne hx]

/-- The lists of a cache rearranged, with the same sizes. -/
structure Rearranged (c c' : Cache) : Prop where
  size : c'.objectSize = c.objectSize
  count : c'.objectCount = c.objectCount
  groups : c'.groups.Perm c.groups

theorem Rearranged.rfl {c : Cache} : Rearranged c c := ⟨Eq.refl _, Eq.refl _, List.Perm.refl _⟩

/-- One group rewritten in place, and the lists rearranged. -/
theorem Core.rewrite (h : Core L boot s) (hc : Rearranged s.cache c)
    (hobjects : G.objects = (s.groups g).objects)
    (hok : GroupOk L s.cache.objectSize s.cache.objectCount (s.ranges .normal).nodeTable g G) :
    Core L boot (CacheState.setGroup { s with cache := c } g G) := by
  have hblocks : ∀ x, CacheState.blocks L (CacheState.setGroup { s with cache := c } g G) x =
      s.blocks L x := by
    intro x
    simp only [CacheState.blocks, setGroup_cache, hc.size, hc.count]
    exact groupBlocks_congr (setGroup_objects (s := { s with cache := c }) hobjects x)
  obtain ⟨rest, hpool⟩ := h.pool
  refine ⟨?_, ⟨rest, hpool.perm (List.Perm.append_right rest ?_)⟩, ?_, fun x hx => ?_⟩
  · rw [setGroup_cache, hc.size, hc.count]
    exact h.classOk
  · unfold CacheState.owned
    rw [funext hblocks]
    exact (hc.groups.flatMap_right _).symm
  · exact hc.groups.nodup_iff.2 h.nodup
  · rw [setGroup_cache, hc.size, hc.count]
    by_cases hxg : x = g
    · rw [hxg, setGroup_self]
      exact hok
    · rw [setGroup_of_ne hxg]
      exact h.ok x (hc.groups.mem_iff.1 hx)

/-- The objects in use after one bit of a group was written. -/
theorem inUse_rewrite (hc : Rearranged s.cache c) (hobjects : G.objects = (s.groups g).objects)
    {idx : ℕ} {value : Bool} (hmap : G.map = bitmapSet (s.groups g).map idx value) (o : ℕ) :
    InUse (CacheState.setGroup { s with cache := c } g G) o ↔
      ∃ x ∈ s.cache.groups, ∃ i < s.cache.objectCount,
        (if x = g ∧ i = idx then value else (s.groups x).map.bit i) = true ∧
          o = s.objectAt x i := by
  have hbit : ∀ x i, ((CacheState.setGroup { s with cache := c } g G).groups x).map.bit i =
      if x = g ∧ i = idx then value else (s.groups x).map.bit i := by
    intro x i
    by_cases hx : x = g
    · rw [hx, setGroup_self, hmap, bitmapSet_bit]
      simp only [true_and]
    · rw [setGroup_of_ne hx, if_neg fun h => hx h.1]
  have hobject : ∀ x i, CacheState.objectAt (CacheState.setGroup { s with cache := c } g G) x i =
      s.objectAt x i := by
    intro x i
    rw [CacheState.objectAt, setGroup_objects (s := { s with cache := c }) hobjects, setGroup_cache,
      hc.size]
    rfl
  simp only [InUse, hbit, hobject, setGroup_cache, hc.count, hc.groups.mem_iff]

theorem Ledger.take {live : List ℕ} (hl : Ledger s live) (h : Core L boot s)
    (hc : Rearranged s.cache c) (hobjects : G.objects = (s.groups g).objects) {idx : ℕ}
    (hmap : G.map = bitmapSet (s.groups g).map idx true) (hg : g ∈ s.cache.groups)
    (hidx : idx < s.cache.objectCount) (hclear : (s.groups g).map.bit idx = false) :
    Ledger (CacheState.setGroup { s with cache := c } g G) (s.objectAt g idx :: live) := by
  refine ⟨List.nodup_cons.2 ⟨fun hmem => ?_, hl.1⟩, fun o => ?_⟩
  · obtain ⟨x, hx, i, hi, hbit, heq⟩ := (hl.2 _).1 hmem
    obtain ⟨rfl, rfl⟩ := object_inj h hg hx hidx hi heq
    rw [hclear] at hbit
    cases hbit
  · rw [List.mem_cons, hl.2, inUse_rewrite hc hobjects hmap]
    constructor
    · rintro (rfl | ⟨x, hx, i, hi, hbit, heq⟩)
      · exact ⟨g, hg, idx, hidx, if_pos ⟨rfl, rfl⟩, rfl⟩
      · refine ⟨x, hx, i, hi, ?_, heq⟩
        split_ifs
        · rfl
        · exact hbit
    · rintro ⟨x, hx, i, hi, hbit, heq⟩
      split_ifs at hbit with hat
      · rw [hat.1, hat.2] at heq
        exact Or.inl heq
      · exact Or.inr ⟨x, hx, i, hi, hbit, heq⟩

theorem Ledger.give {live : List ℕ} (hl : Ledger s live) (h : Core L boot s)
    (hc : Rearranged s.cache c) (hobjects : G.objects = (s.groups g).objects) {idx : ℕ}
    (hmap : G.map = bitmapSet (s.groups g).map idx false) (hg : g ∈ s.cache.groups)
    (hidx : idx < s.cache.objectCount) :
    Ledger (CacheState.setGroup { s with cache := c } g G) (live.erase (s.objectAt g idx)) := by
  refine ⟨hl.1.erase _, fun o => ?_⟩
  rw [hl.1.mem_erase_iff, hl.2, inUse_rewrite hc hobjects hmap]
  constructor
  · rintro ⟨hne, x, hx, i, hi, hbit, heq⟩
    refine ⟨x, hx, i, hi, ?_, heq⟩
    rwa [if_neg]
    rintro ⟨rfl, rfl⟩
    exact hne heq
  · rintro ⟨x, hx, i, hi, hbit, heq⟩
    split_ifs at hbit with hat
    refine ⟨fun hobject => hat ?_, x, hx, i, hi, hbit, heq⟩
    exact object_inj h hx hg hi hidx (heq.symm.trans hobject)

end Rewrite

/-! ## The operations on objects -/

/-- The cache with a group moved to the end of another list, or left where it is. -/
structure Moved (c c' : Cache) (g : ℕ) : Prop extends Rearranged c c' where
  full : ∀ x ≠ g, x ∈ c'.fullGroups → x ∈ c.fullGroups
  part : ∀ x ≠ g, x ∈ c'.partialGroups → x ∈ c.partialGroups
  free : ∀ x ≠ g, x ∈ c'.freeGroups → x ∈ c.freeGroups

section Operations

variable {L : PoolLayout} {boot : MemRangeIdx → ℕ → MemNode} {s : CacheState} {live : List ℕ}
  {g : ℕ}
  {c : Cache} {G : MemGroup}

theorem moved_self : Moved c c g :=
  ⟨Rearranged.rfl, fun _ _ => id, fun _ _ => id, fun _ _ => id⟩

theorem moved_toFull (h : c.groups.Nodup) (hg : g ∈ c.groups) :
    Moved c { c.unlink g with fullGroups := (c.unlink g).fullGroups ++ [g] } g := by
  refine ⟨⟨rfl, rfl, groups_move h hg groups_pushFull⟩, fun x hx hmem => ?_, fun x _ hmem => ?_,
    fun x _ hmem => ?_⟩
  · simp only [List.mem_append, List.mem_singleton, hx, or_false] at hmem
    exact ((mem_unlink h).1.1 hmem).2
  · exact ((mem_unlink h).2.1.1 hmem).2
  · exact ((mem_unlink h).2.2.1 hmem).2

theorem moved_toPartial (h : c.groups.Nodup) (hg : g ∈ c.groups) :
    Moved c { c.unlink g with partialGroups := (c.unlink g).partialGroups ++ [g] } g := by
  refine ⟨⟨rfl, rfl, groups_move h hg groups_pushPartial⟩, fun x _ hmem => ?_, fun x hx hmem => ?_,
    fun x _ hmem => ?_⟩
  · exact ((mem_unlink h).1.1 hmem).2
  · simp only [List.mem_append, List.mem_singleton, hx, or_false] at hmem
    exact ((mem_unlink h).2.1.1 hmem).2
  · exact ((mem_unlink h).2.2.1 hmem).2

theorem moved_toFree (h : c.groups.Nodup) (hg : g ∈ c.groups) :
    Moved c { c.unlink g with freeGroups := (c.unlink g).freeGroups ++ [g] } g := by
  refine ⟨⟨rfl, rfl, groups_move h hg groups_pushFree⟩, fun x _ hmem => ?_, fun x _ hmem => ?_,
    fun x hx hmem => ?_⟩
  · exact ((mem_unlink h).1.1 hmem).2
  · exact ((mem_unlink h).2.1.1 hmem).2
  · simp only [List.mem_append, List.mem_singleton, hx, or_false] at hmem
    exact ((mem_unlink h).2.2.1 hmem).2

/-- The other groups stay where they are. -/
theorem ListedAt.move {x : ℕ} (h : ListedAt s x) (hx : x ≠ g) (hmoved : Moved s.cache c g) :
    ListedAt (CacheState.setGroup { s with cache := c } g G) x := by
  constructor
  · rw [setGroup_of_ne hx, setGroup_cache, hmoved.count]
    exact fun hmem => h.full (hmoved.full x hx hmem)
  · rw [setGroup_of_ne hx, setGroup_cache, hmoved.count]
    exact fun hmem => h.part (hmoved.part x hx hmem)
  · rw [setGroup_of_ne hx]
    exact fun hmem => h.free (hmoved.free x hx hmem)

/-- One group rewritten and moved to the list it now belongs on. -/
theorem slabInv_rewrite (h : Core L boot s) (hlisted : ∀ x ≠ g, ListedAt s x)
    (hmoved : Moved s.cache c g) (hobjects : G.objects = (s.groups g).objects)
    (hok : GroupOk L s.cache.objectSize s.cache.objectCount (s.ranges .normal).nodeTable g G)
    (hledger : Ledger (CacheState.setGroup { s with cache := c } g G) live)
    (hg : ListedAt (CacheState.setGroup { s with cache := c } g G) g) :
    SlabInv L boot (CacheState.setGroup { s with cache := c } g G) live := by
  refine ⟨h.rewrite hmoved.toRearranged hobjects hok, fun x => ?_, hledger⟩
  by_cases hx : x = g
  · rw [hx]
    exact hg
  · exact (hlisted x hx).move hx hmoved

theorem ClassOk.count_le {size count : ℕ} (h : ClassOk size count) : count ≤ 4194304 :=
  (Nat.le_mul_of_pos_right count h.size_pos).trans h.bytes

/-- **`mem_cache_do_alloc`** on a group with a free object: the scan finds one of the objects of
the group, and the group is on the right list afterwards. -/
theorem memCacheDoAlloc_spec (h : Core L boot s) (hlow : LowMem L)
    (hlisted : ∀ x ≠ g, ListedAt s x) (hledger : Ledger s live) (hg : g ∈ s.cache.partialGroups)
    (hroom : (s.groups g).usingCount < s.cache.objectCount) :
    ∃ idx, bitmapScan (s.groups g).map 1 = some idx ∧ idx < s.cache.objectCount ∧
      (memCacheDoAlloc s g).2 = s.objectAt g idx ∧
      SlabInv L boot (memCacheDoAlloc s g).1 (s.objectAt g idx :: live) := by
  have hgroup : g ∈ s.cache.groups := mem_groups.2 (Or.inr (Or.inl hg))
  have hok := h.ok g hgroup
  have hsum := hok.sum
  have hcount := h.classOk.count_le
  obtain ⟨idx, hscan, hidx, hclear⟩ := hok.scan hroom
  have husing : add32 (s.groups g).usingCount 1 = (s.groups g).usingCount + 1 :=
    add32_of_lt (by omega)
  have hfree : sub32 (s.groups g).freeCount 1 = (s.groups g).freeCount - 1 :=
    sub32_of_le (by omega) (by omega)
  have hobject : add32 (s.groups g).objects (idx * s.cache.objectSize) = s.objectAt g idx :=
    add32_of_lt (object_lt h hlow hgroup hidx).1
  have hkeep : ∀ c, Moved s.cache c g →
      ListedAt (CacheState.setGroup { s with cache := c } g
        ⟨bitmapSet (s.groups g).map idx true, (s.groups g).objects, (s.groups g).usingCount + 1,
          (s.groups g).freeCount - 1⟩) g →
      SlabInv L boot (CacheState.setGroup { s with cache := c } g
        ⟨bitmapSet (s.groups g).map idx true, (s.groups g).objects, (s.groups g).usingCount + 1,
          (s.groups g).freeCount - 1⟩) (s.objectAt g idx :: live) := by
    intro c hmoved
    exact slabInv_rewrite h hlisted hmoved rfl (hok.take hidx hclear hroom)
      (hledger.take h hmoved.toRearranged (by rfl) (by rfl) hgroup hidx hclear)
  unfold memCacheDoAlloc
  simp only [hscan, husing, hfree, hobject]
  refine ⟨idx, rfl, hidx, rfl, ?_⟩
  by_cases hlast : (s.groups g).freeCount - 1 = 0
  · simp only [if_pos hlast]
    refine hkeep _ (moved_toFull h.nodup hgroup) ⟨fun _ => ?_, fun hmem => ?_, fun hmem => ?_⟩
    · rw [setGroup_self]
      show (s.groups g).usingCount + 1 = s.cache.objectCount
      omega
    · exact absurd rfl ((mem_unlink h.nodup).2.1.1 hmem).1
    · exact absurd rfl ((mem_unlink h.nodup).2.2.1 hmem).1
  · simp only [if_neg hlast]
    refine hkeep _ moved_self ⟨fun hmem => ?_, fun _ => ?_, fun hmem => ?_⟩
    · exact absurd hg ((groups_nodup h.nodup).2.2.2.1 g hmem).1
    · rw [setGroup_self]
      show 0 < (s.groups g).usingCount + 1 ∧ (s.groups g).usingCount + 1 < s.cache.objectCount
      omega
    · exact absurd hmem ((groups_nodup h.nodup).2.2.2.2 g hg)

/-- **`mem_cache_do_free`** of an object in use: it does not panic, and the group is on the right
list afterwards. -/
theorem memCacheDoFree_spec (h : SlabInv L boot s live) (hlow : LowMem L) {o : ℕ} (ho : o ∈ live) :
    ∃ s', memCacheDoFree s o = some s' ∧ SlabInv L boot s' (live.erase o) := by
  obtain ⟨g, hg, i, hi, hbit, rfl⟩ := (h.ledger.2 o).1 ho
  have hok := h.core.ok g hg
  have hsum := hok.sum
  have hcount := h.core.classOk.count_le
  obtain ⟨hpos, hgive⟩ := hok.give hi hbit
  obtain ⟨n, hnode, hgroup⟩ := object_lookup h.core hlow hg hi
  have hindex : objectIndex s g (s.objectAt g i) = i := by
    have hle : (s.groups g).objects ≤ s.objectAt g i := Nat.le_add_right _ _
    rw [objectIndex, sub32_of_le hle (object_lt h.core hlow hg hi).1, CacheState.objectAt,
      Nat.add_sub_cancel_left, Nat.mul_div_cancel _ h.core.classOk.size_pos]
  have husing : sub32 (s.groups g).usingCount 1 = (s.groups g).usingCount - 1 :=
    sub32_of_le (by omega) (by omega)
  have hfree : add32 (s.groups g).freeCount 1 = (s.groups g).freeCount + 1 := add32_of_lt (by omega)
  have hkeep : ∀ c, Moved s.cache c g →
      ListedAt (CacheState.setGroup { s with cache := c } g
        ⟨bitmapSet (s.groups g).map i false, (s.groups g).objects, (s.groups g).usingCount - 1,
          (s.groups g).freeCount + 1⟩) g →
      SlabInv L boot (CacheState.setGroup { s with cache := c } g
        ⟨bitmapSet (s.groups g).map i false, (s.groups g).objects, (s.groups g).usingCount - 1,
          (s.groups g).freeCount + 1⟩) (live.erase (s.objectAt g i)) := by
    intro c hmoved
    exact slabInv_rewrite h.core (fun x _ => h.listed x) hmoved rfl hgive
      (h.ledger.give h.core hmoved.toRearranged (by rfl) (by rfl) hg hi)
  have hle := hok.count_le
  have hrun : memCacheDoFree s (s.objectAt g i) = some (memCacheDoFreeAt s g i) := by
    rw [memCacheDoFree, hnode, Option.bind_some, hgroup, Option.bind_some, hindex,
      if_neg (by omega)]
  refine ⟨_, hrun, ?_⟩
  unfold memCacheDoFreeAt
  simp only [husing, hfree]
  by_cases hlast : (s.groups g).usingCount - 1 = 0
  · simp only [if_pos hlast]
    refine hkeep _ (moved_toFree h.core.nodup hg) ⟨fun hmem => ?_, fun hmem => ?_, fun _ => ?_⟩
    · exact absurd rfl ((mem_unlink h.core.nodup).1.1 hmem).1
    · exact absurd rfl ((mem_unlink h.core.nodup).2.1.1 hmem).1
    · rw [setGroup_self]
      exact hlast
  simp only [if_neg hlast]
  by_cases hfull : (s.groups g).usingCount = s.cache.objectCount
  · simp only [if_pos hfull]
    refine hkeep _ (moved_toPartial h.core.nodup hg) ⟨fun hmem => ?_, fun _ => ?_, fun hmem => ?_⟩
    · exact absurd rfl ((mem_unlink h.core.nodup).1.1 hmem).1
    · rw [setGroup_self]
      show 0 < (s.groups g).usingCount - 1 ∧ (s.groups g).usingCount - 1 < s.cache.objectCount
      omega
    · exact absurd rfl ((mem_unlink h.core.nodup).2.2.1 hmem).1
  · simp only [if_neg hfull]
    refine hkeep _ moved_self ⟨fun hmem => ?_, fun hmem => ?_, fun hmem => ?_⟩
    · exact absurd ((h.listed g).full hmem) hfull
    · rw [setGroup_self]
      show 0 < (s.groups g).usingCount - 1 ∧ (s.groups g).usingCount - 1 < s.cache.objectCount
      have hpart := (h.listed g).part hmem
      omega
    · exact absurd ((h.listed g).free hmem) hpos.ne'

end Operations

end MemCache
end LightOS
