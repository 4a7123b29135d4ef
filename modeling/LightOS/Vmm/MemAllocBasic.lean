import LightOS.Vmm.MemCache

/-!
# Kernel memory: the model

`mem_alloc`, `mem_alloc_align` and `mem_free` of `vmm/memcache.c`.  Requests up to 2 MB go to one
of the seventeen caches; larger ones get pages of their own and a record on a list.  A free finds
the cache by the node of the page.

The caches share the groups, which are named by their addresses, and the page pool.  A call that
panics, or that would wait for the lock it holds, returns `none`; zero is the null pointer.
-/

namespace LightOS
namespace MemCache

open MemPool

/-- `MAX_MEM_CACHE_NR`. -/
abbrev maxMemCacheNr : ℕ := 17

/-- `MAX_MEM_CACHE_SIZE`. -/
abbrev maxMemCacheSize : ℕ := 2097152

/-- `MAX_MEM_OBJECT_SIZE`: 24 MB. -/
abbrev maxMemObjectSize : ℕ := 25165824

/-- `sizeof(large_mem_object_t)`. -/
abbrev sizeofLargeMemObject : ℕ := 16

/-- `large_mem_object_t`, and where it lies. -/
structure LargeMemObject where
  record : ℕ
  size : ℕ
  addr : ℕ

/-- `mem_caches` with their groups, `large_mem_object_list`, and the page pool. -/
structure Heap where
  caches : ℕ → Cache
  groups : ℕ → MemGroup
  ranges : MemRanges
  large : List LargeMemObject

/-- One of the caches. -/
def Heap.at (h : Heap) (k : ℕ) : CacheState := ⟨h.caches k, h.groups, h.ranges⟩

/-- What a call on one of the caches leaves. -/
def Heap.put (h : Heap) (k : ℕ) (s : CacheState) : Heap :=
  { h with caches := Function.update h.caches k s.cache, groups := s.groups, ranges := s.ranges }

/-! ## Giving back -/

/-- `mem_cache_free_object` of the cache with this address. -/
def memCacheFreeObject (h : Heap) (cache object : ℕ) : Option Heap :=
  ((List.range maxMemCacheNr).find? fun k => (h.caches k).addr = cache).bind fun k =>
    (memCacheDoFree (h.at k) object).map (h.put k)

/-- `mem_free` while `large_mem_mutex` is held: only an object of a cache can be given back. -/
def memFreeCached (h : Heap) (object : ℕ) : Option Heap :=
  if object = 0 then some h
  else
    (phyAddrToMemNode h.ranges (kernVirAddr2PhyAddr object)).bind fun x =>
      ((h.ranges x.1).nodeTable x.2).cache.bind fun cache => memCacheFreeObject h cache object

/-- `mem_free`. -/
def memFree (h : Heap) (object : ℕ) : Option Heap :=
  if object = 0 then some h
  else
    (phyAddrToMemNode h.ranges (kernVirAddr2PhyAddr object)).bind fun x =>
      match ((h.ranges x.1).nodeTable x.2).cache with
      | some cache => memCacheFreeObject h cache object
      | none =>
          match h.large.find? fun o => o.addr = object with
          | none => some h
          | some o =>
              (memCachePageFree h.ranges o.addr).bind fun pr =>
                -- the record is given back with the lock still held
                memFreeCached
                  { h with large := h.large.eraseP fun o => o.addr = object, ranges := pr.1 }
                  o.record

/-! ## Allocating -/

/-- The first entry of `cache_size` that is large enough. -/
def sizeClass (size : ℕ) : ℕ := cacheSizes.findIdx fun s => size ≤ s

/-- `mem_alloc` from a cache. -/
def memAllocSmall (h : Heap) (size : ℕ) : Option (Heap × ℕ) :=
  (memCacheAllocObject 2 (h.at (sizeClass size))).map fun so => (h.put (sizeClass size) so.1, so.2)

/-- `mem_alloc` of pages. -/
def memAllocLarge (h : Heap) (size : ℕ) : Option (Heap × ℕ) :=
  (memAllocSmall h sizeofLargeMemObject).bind fun ho =>
    if ho.2 = 0 then some (ho.1, 0)
    else
      (memCachePageAlloc ho.1.ranges (divRoundUp size pageSize)).bind fun pa =>
        if pa.2 = 0 then (memFree { ho.1 with ranges := pa.1 } ho.2).map fun h => (h, 0)
        else some ({ ho.1 with ranges := pa.1, large := ⟨ho.2, size, pa.2⟩ :: ho.1.large }, pa.2)

/-- `mem_alloc`. -/
def memAlloc (h : Heap) (size : ℕ) : Option (Heap × ℕ) :=
  if maxMemCacheSize < size then
    if maxMemObjectSize < size then some (h, 0) else memAllocLarge h size
  else memAllocSmall h size

/-- `p & ~(align - 1)`, in 32 bits. -/
def alignDown (p align : ℕ) : ℕ := p &&& (4294967295 - (align - 1))

/-- `mem_alloc_align`. -/
def memAllocAlign (h : Heap) (size align : ℕ) : Option (Heap × ℕ) :=
  (memAlloc h size).map fun hp => (hp.1, if hp.2 = 0 then 0 else alignDown hp.2 align)

end MemCache
end LightOS
