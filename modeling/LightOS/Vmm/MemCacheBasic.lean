import LightOS.Kern.Bitmap
import LightOS.Mm.MemPoolNode

/-!
# Memory caches: the model

`vmm/memcache.c`: a cache hands out objects of one size from *groups*.  A group is a page
with a record, a bitmap and, if the objects are small, the objects; larger objects lie
in pages of their own.  Groups are on one of three lists by how many of their objects are
in use, and the node of each page with objects points back to the group.

A group is named by its address, and the three intrusive lists are lists of addresses in
list order.  The bitmap of a group lies in the group's page as the page was handed out,
so a new group starts with whatever its page held.  Names and flags of caches and groups
are left out, nothing reads them; the lock is left out, the calls are taken one after the
other.  A call that panics returns `none`.
-/

namespace LightOS
namespace MemCache

open MemPool

/-- `SIZEOF_MEM_GROUP`. -/
abbrev sizeofMemGroup : ℕ := 32

/-- `DIV_ROUND_UP`. -/
def divRoundUp (x step : ℕ) : ℕ := (x + step - 1) / step

/-- `ALIGN_WITH`, for steps that are powers of two. -/
def alignWith (x step : ℕ) : ℕ := divRoundUp x step * step

/-- `kern_phy_addr2vir_addr`. -/
def kernPhyAddr2VirAddr (addr : ℕ) : ℕ := add32 addr kernBaseVirAddr

/-- `kern_vir_addr2phy_addr`. -/
def kernVirAddr2PhyAddr (addr : ℕ) : ℕ := sub32 addr kernBaseVirAddr

/-- `mem_group_t`. -/
structure MemGroup where
  map : Bitmap
  objects : ℕ
  usingCount : ℕ
  freeCount : ℕ

/-- `mem_cache_t`, and where it lies. -/
structure Cache where
  addr : ℕ
  fullGroups : List ℕ
  partialGroups : List ℕ
  freeGroups : List ℕ
  objectSize : ℕ
  objectCount : ℕ

/-- A cache, the groups by their addresses, and the page pool. -/
structure CacheState where
  cache : Cache
  groups : ℕ → MemGroup
  ranges : MemRanges

/-! ## Setting up -/

/-- The sizes of `cache_size`, with large allocations configured. -/
def cacheSizes : List ℕ :=
  [32, 64, 128, 256, 512, 1024, 2048, 4096, 8192, 16384, 32768, 65536, 131072, 262144, 524288,
    1048576, 2097152]

/-- The number of objects of a group, as `mem_cache_init` computes it. -/
def objectCountOf (size : ℕ) : ℕ :=
  if size < 1024 then (pageSize - alignWith sizeofMemGroup 8 - 16) / size
  else if size ≤ 131072 then 1048576 / size
  else if size ≤ 4194304 then 4194304 / size
  else 4

/-- `mem_cache_init`. -/
def memCacheInit (addr size : ℕ) : Option Cache :=
  if size = 0 then none
  else
    some { addr := addr, fullGroups := [], partialGroups := [], freeGroups := []
           objectSize := size, objectCount := objectCountOf size }

/-- `mem_caches_build`, with the addresses of the entries of `mem_caches`. -/
def memCachesBuild (memCaches : ℕ → ℕ) : Option (List Cache) :=
  cacheSizes.zipIdx.mapM fun x => memCacheInit (memCaches x.2) x.1

/-! ## Pages -/

/-- `mem_cache_page_alloc`; zero is the null pointer. -/
def memCachePageAlloc (p : MemRanges) (count : ℕ) : Option (MemRanges × ℕ) :=
  (memNodeAllocPages p count memNodeTypeNormal).map fun ra =>
    (ra.1, if ra.2 = 0 then 0 else kernPhyAddr2VirAddr ra.2)

/-- `mem_cache_page_free`; it does not look at what `page_free` returns. -/
def memCachePageFree (p : MemRanges) (address : ℕ) : Option (MemRanges × ℤ) :=
  if address = 0 then some (p, -1)
  else if kernVirAddr2PhyAddr address = 0 then some (p, -1)
  else (memNodeFreePages p (kernVirAddr2PhyAddr address)).map fun pr => (pr.1, 0)

/-- Mark the node of the page at `vaddr` with a cache and a group. -/
def markPage (p : MemRanges) (cache group vaddr : ℕ) : Option MemRanges :=
  (phyAddrToMemNode p (kernVirAddr2PhyAddr vaddr)).map fun node => memNodeMark p node cache group

/-- The loop of `mem_group_init`: mark pages from `objects` on. -/
def markPages (p : MemRanges) (cache group objects : ℕ) : ℕ → Option MemRanges
  | 0 => some p
  | i + 1 =>
      (markPages p cache group objects i).bind fun p' =>
        markPage p' cache group (objects + i * pageSize)

/-! ## Groups -/

/-- Write one group. -/
def CacheState.setGroup (s : CacheState) (group : ℕ) (G : MemGroup) : CacheState :=
  { s with groups := Function.update s.groups group G }

/-- The pages for the objects of a group that do not fit in its own page. -/
def objectPages (c : Cache) : ℕ := divRoundUp (c.objectCount * c.objectSize) pageSize

/-- The record of a new group: the bitmap lies behind it, in memory that reads as `bits`. -/
def newGroup (c : Cache) (bits : ℕ → BitVec 8) (objects : ℕ) : MemGroup where
  map := bitmapInit { byteLength := divRoundUp c.objectCount 8, bits := bits }
  objects := objects
  usingCount := 0
  freeCount := c.objectCount

/-- `mem_group_init`: the group is linked first.  When there are no pages for the objects, the
counts keep the values the page held. -/
def memGroupInit (s : CacheState) (group : ℕ) : Option (CacheState × ℤ) :=
  let c := s.cache
  let bits := (s.groups group).map.bits
  let linked : CacheState := { s with cache := { c with freeGroups := group :: c.freeGroups } }
  if c.objectSize < 1024 then
    (markPage s.ranges c.addr group group).map fun ranges =>
      ({ linked with ranges := ranges }.setGroup group
        (newGroup c bits (group + sizeofMemGroup + 16)), 0)
  else
    match memCachePageAlloc s.ranges (objectPages c) with
    | none => none
    | some (ranges, objects) =>
        if objects = 0 then
          some ({ linked with ranges := ranges }.setGroup group
            { s.groups group with map := (newGroup c bits 0).map, objects := 0 }, -1)
        else
          (markPages ranges c.addr group objects (objectPages c)).map fun ranges =>
            ({ linked with ranges := ranges }.setGroup group (newGroup c bits objects), 0)

/-- `mem_group_create`. -/
def memGroupCreate (s : CacheState) : Option (CacheState × ℤ) :=
  match memCachePageAlloc s.ranges 1 with
  | none => none
  | some (ranges, group) =>
      if group = 0 then some ({ s with ranges := ranges }, -1)
      else
        match memGroupInit { s with ranges := ranges } group with
        | none => none
        | some (s', ret) =>
            if ret = 0 then some (s', 0)
            else
              (memCachePageFree s'.ranges group).map fun pr => ({ s' with ranges := pr.1 }, -1)

/-- `list_del` of a group: it leaves the list it is on. -/
def Cache.unlink (c : Cache) (group : ℕ) : Cache :=
  { c with
    fullGroups := c.fullGroups.erase group
    partialGroups := c.partialGroups.erase group
    freeGroups := c.freeGroups.erase group }

/-! ## Objects -/

/-- `mem_cache_do_alloc`; zero is the null pointer. -/
def memCacheDoAlloc (s : CacheState) (group : ℕ) : CacheState × ℕ :=
  let G := s.groups group
  match bitmapScan G.map 1 with
  | none => (s, 0)
  | some idx =>
      let G' : MemGroup :=
        { map := bitmapSet G.map idx true, objects := G.objects
          usingCount := add32 G.usingCount 1, freeCount := sub32 G.freeCount 1 }
      let unlinked := s.cache.unlink group
      ({ s with
          cache := if G'.freeCount = 0 then
            { unlinked with fullGroups := unlinked.fullGroups ++ [group] }
            else s.cache }.setGroup group G', add32 G.objects (idx * s.cache.objectSize))

/-- `mem_cache_alloc_object`, with a bound on its retries (see `memCacheAllocObject_spec`). -/
def memCacheAllocObject : ℕ → CacheState → Option (CacheState × ℕ)
  | 0, _ => none
  | retries + 1, s =>
      match s.cache.partialGroups with
      | group :: _ => some (memCacheDoAlloc s group)
      | [] =>
          match s.cache.freeGroups with
          | group :: _ =>
              let unlinked := s.cache.unlink group
              some (memCacheDoAlloc { s with
                cache := { unlinked with partialGroups := unlinked.partialGroups ++ [group] } }
                  group)
          | [] =>
              match memGroupCreate s with
              | none => none
              | some (s', ret) => if ret = 0 then memCacheAllocObject retries s' else some (s', 0)

/-- The locked part of `mem_cache_do_free`: an object of a group is given back. -/
def memCacheDoFreeAt (s : CacheState) (group index : ℕ) : CacheState :=
  let G := s.groups group
  let G' : MemGroup :=
    { map := bitmapSet G.map index false, objects := G.objects
      usingCount := sub32 G.usingCount 1, freeCount := add32 G.freeCount 1 }
  let unlinked := s.cache.unlink group
  { s with
    cache :=
      if G'.usingCount = 0 then { unlinked with freeGroups := unlinked.freeGroups ++ [group] }
      else if G.usingCount = s.cache.objectCount then
        { unlinked with partialGroups := unlinked.partialGroups ++ [group] }
      else s.cache }.setGroup group G'

/-- The index `mem_cache_do_free` computes for an object. -/
def objectIndex (s : CacheState) (group object : ℕ) : ℕ :=
  sub32 object (s.groups group).objects / s.cache.objectSize

/-- `mem_cache_do_free`, that is `mem_cache_free_object`. -/
def memCacheDoFree (s : CacheState) (object : ℕ) : Option CacheState :=
  (phyAddrToMemNode s.ranges (kernVirAddr2PhyAddr object)).bind fun x =>
    ((s.ranges x.1).nodeTable x.2).group.bind fun group =>
      if (s.groups group).map.byteLength * 8 < objectIndex s group object then none
      else some (memCacheDoFreeAt s group (objectIndex s group object))

/-! ## Shrinking -/

/-- `group_destory`. -/
def groupDestory (s : CacheState) (group : ℕ) : Option (CacheState × ℤ) :=
  let s₁ : CacheState := { s with cache := s.cache.unlink group }
  if s.cache.objectSize < 1024 then
    (memCachePageFree s₁.ranges group).map fun pr => ({ s₁ with ranges := pr.1 }, pr.2)
  else
    match memCachePageFree s₁.ranges (s.groups group).objects with
    | none => none
    | some (ranges, ret) =>
        if ret ≠ 0 then some ({ s₁ with ranges := ranges }, -1)
        else
          (memCachePageFree ranges group).map fun pr => ({ s₁ with ranges := pr.1 }, pr.2)

/-- The loop of `mem_cache_do_shrink`; the next group is read before a group goes. -/
def memCacheDoShrink : List ℕ → CacheState → Option (CacheState × ℕ)
  | [], s => some (s, 0)
  | group :: rest, s =>
      (groupDestory s group).bind fun sr =>
        (memCacheDoShrink rest sr.1).map fun tr => (tr.1, if sr.2 = 0 then tr.2 + 1 else tr.2)

/-- `mem_cahce_shrink`: the bytes that were given back. -/
def memCahceShrink (s : CacheState) : Option (CacheState × ℕ) :=
  (memCacheDoShrink s.cache.freeGroups s).map fun sr =>
    (sr.1, sr.2 * s.cache.objectCount * s.cache.objectSize % wordSize)

end MemCache
end LightOS
