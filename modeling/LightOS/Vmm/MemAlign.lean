import LightOS.Vmm.MemAlloc

/-!
# Kernel memory: aligned objects

`mem_alloc_align` takes an object as `mem_alloc` finds it and clears the low bits of its address.
It rounds down, so the address stays in the object only if there was nothing to round.

* `Heap.next` — where the next object lies, read off the lists, the bitmap and the page pool.
* `memAlloc_next` — this is where `mem_alloc` goes.
* `memAllocAlign_keeps_iff` — an aligned request keeps its promise if and only if the next object
  is aligned.
-/

namespace LightOS
namespace MemCache

open MemPool

/-! ## Where the next object lies -/

/-- The first object of a group that is not in use; zero when there is none. -/
def freeObject (s : CacheState) (group : ℕ) : ℕ :=
  match bitmapScan (s.groups group).map 1 with
  | none => 0
  | some idx => add32 (s.groups group).objects (idx * s.cache.objectSize)

/-- The first object of a group that is still to be created; zero when there are no pages for it. -/
def newObject (s : CacheState) : ℕ :=
  match memCachePageAlloc s.ranges 1 with
  | none => 0
  | some (ranges, group) =>
      if group = 0 then 0
      else if s.cache.objectSize < 1024 then group + sizeofMemGroup + 16
      else ((memCachePageAlloc ranges (objectPages s.cache)).map Prod.snd).getD 0

/-- The next object of a cache: of the first partial group, of the first free one, or of a new one.
-/
def nextObject (s : CacheState) : ℕ :=
  match s.cache.partialGroups, s.cache.freeGroups with
  | group :: _, _ => freeObject s group
  | [], group :: _ => freeObject s group
  | [], [] => newObject s

/-- The pages of the next large object, after its record; zero when one of them is not to be had. -/
def nextPages (h : Heap) (size : ℕ) : ℕ :=
  match memAllocSmall h sizeofLargeMemObject with
  | none => 0
  | some (h', record) =>
      if record = 0 then 0
      else ((memCachePageAlloc h'.ranges (divRoundUp size pageSize)).map Prod.snd).getD 0

/-- Where the next object of so many bytes lies. -/
def Heap.next (h : Heap) (size : ℕ) : ℕ :=
  if maxMemCacheSize < size then if maxMemObjectSize < size then 0 else nextPages h size
  else nextObject (h.at (sizeClass size))

section Next

variable {L : PoolLayout} {boot : MemRangeIdx → ℕ → MemNode} {h h' : Heap} {live : ℕ → List ℕ}
  {rest : List LiveAlloc} {s : CacheState} {objects : List ℕ}

theorem memCacheDoAlloc_snd (s : CacheState) (group : ℕ) :
    (memCacheDoAlloc s group).2 = freeObject s group := by
  unfold memCacheDoAlloc freeObject
  cases hscan : bitmapScan (s.groups group).map 1 <;> simp only [hscan]

theorem pageAt_bound (hlow : LowMem L) {n : ℕ} (hn : n < L.len .normal / pageSize) :
    kernBaseVirAddr ≤ pageAt L n ∧ pageAt L n + pageSize ≤ wordSize := by
  unfold LowMem pageAt at *
  unfold kernBaseVirAddr pageSize wordSize at *
  omega

/-- The first scan of a new group finds its first object. -/
theorem freeObject_new {c : Cache} (hcount : 0 < c.objectCount) {group place : ℕ}
    {bits : ℕ → BitVec 8}
    (hgroup : s.groups group = newGroup c bits place) (hplace : place < wordSize) :
    freeObject s group = place := by
  have hlength : 0 < (newGroup c bits place).map.byteLength * 8 := by
    have hbytes := le_divRoundUp c.objectCount (show 0 < 8 by norm_num)
    exact lt_of_lt_of_le hcount hbytes
  have hclear : (newGroup c bits place).map.bit 0 = false := by
    apply bitmapInit_bit
    rwa [Nat.mul_comm]
  unfold freeObject
  rw [hgroup]
  rcases bitmapScan_one (newGroup c bits place).map with ⟨-, hfull⟩ | ⟨idx, hscan, -, -, hfirst⟩
  · rw [hfull 0 hlength] at hclear
    cases hclear
  · have hzero : idx = 0 := by
      by_contra hne
      rw [hfirst 0 (Nat.pos_of_ne_zero hne)] at hclear
      cases hclear
    rw [hscan, hzero]
    simp only [Nat.zero_mul]
    exact add32_of_lt hplace

/-- **`mem_group_create`** makes a group whose first object is where `newObject` says, or fails. -/
theorem memGroupCreate_new (hinv : SlabInv L boot s objects) (hlow : LowMem L) :
    (∃ s' ret, memGroupCreate s = some (s', ret) ∧ ret ≠ 0 ∧ newObject s = 0) ∨
      ∃ s' group bits, memGroupCreate s = some (s', 0) ∧
        s'.cache.partialGroups = s.cache.partialGroups ∧
        s'.cache.freeGroups = group :: s.cache.freeGroups ∧
        s'.groups group = newGroup s.cache bits (newObject s) ∧ newObject s < wordSize := by
  obtain ⟨others, hbefore⟩ := hinv.core.pool
  rcases memCachePageAlloc_spec hbefore hlow 1 with hfail | ⟨p, node, hok, hpool, -⟩
  · exact Or.inl ⟨s, -1, by simp [memGroupCreate, hfail], by norm_num, by simp [newObject, hfail]⟩
  have hne := pageAt_ne_zero L node
  have hnode : node < L.len .normal / pageSize :=
    lt_of_lt_of_le (Nat.lt_succ_self _) (hpool.end_le (List.mem_cons_self ..)).2
  have hcreate : ∀ t, memGroupInit { s with ranges := p } (pageAt L node) = some (t, 0) →
      memGroupCreate s = some (t, 0) := by
    intro t ht
    rw [memGroupCreate, hok]
    simp only [if_neg hne, ht, if_true]
  by_cases hsmall : s.cache.objectSize < 1024
  · have hplace : newObject s = pageAt L node + 48 := by
      rw [newObject, hok]
      simp only [if_neg hne, if_pos hsmall]
    refine Or.inr ⟨_, pageAt L node, (s.groups (pageAt L node)).map.bits,
      hcreate _ (memGroupInit_eq_small hpool hlow hsmall hnode), rfl, rfl, ?_, ?_⟩
    · rw [setGroup_self, hplace]
    · rw [hplace]
      exact lt_of_lt_of_le (Nat.add_lt_add_left (by norm_num) _) (pageAt_bound hlow hnode).2
  · rcases memCachePageAlloc_spec hpool hlow (objectPages s.cache) with
      hfail | ⟨p₁, first, hok₁, hpool₁, -⟩
    · -- the page of the group goes back
      obtain ⟨t, hinit, hranges⟩ : ∃ t, memGroupInit { s with ranges := p } (pageAt L node) =
        some (t, -1) ∧
          t.ranges = p := by
        rw [memGroupInit, if_neg hsmall]
        simp only [hfail, if_true]
        exact ⟨_, rfl, rfl⟩
      obtain ⟨q, hfree, -⟩ := memCachePageFree_spec hpool hlow
      refine Or.inl ⟨{ t with ranges := q }, -1, ?_, by norm_num, ?_⟩
      · rw [memGroupCreate, hok]
        simp only [if_neg hne, hinit]
        rw [if_neg (by norm_num), hranges, hfree, Option.map_some]
      · rw [newObject, hok]
        simp only [if_neg hne, if_neg hsmall, hfail, Option.map_some, Option.getD_some]
    · obtain ⟨hpos, hend⟩ := hpool₁.end_le (List.mem_cons_self ..)
      obtain ⟨p₂, hmark, -⟩ :=
        markPages_spec hpool₁ hlow s.cache.addr (pageAt L node) (objectPages s.cache) hend
      have hplace : newObject s = pageAt L first := by
        rw [newObject, hok]
        simp only [if_neg hne, if_neg hsmall, hok₁, Option.map_some, Option.getD_some]
      refine Or.inr ⟨_, pageAt L node, (s.groups (pageAt L node)).map.bits,
        hcreate _ (memGroupInit_eq_large hsmall hok₁ hmark), rfl, rfl, ?_, ?_⟩
      · rw [setGroup_self, hplace]
      · rw [hplace]
        exact lt_of_lt_of_le (Nat.lt_add_of_pos_right (by norm_num))
          (pageAt_bound hlow (lt_of_lt_of_le (Nat.lt_add_of_pos_right hpos) hend)).2

/-- From a group that is there, an object is taken without a retry. -/
theorem memCacheAllocObject_found_next (retries : ℕ) (s : CacheState)
    (hfound : s.cache.partialGroups ≠ [] ∨ s.cache.freeGroups ≠ []) :
    ∃ s', memCacheAllocObject (retries + 1) s = some (s', nextObject s) := by
  rw [memCacheAllocObject, nextObject]
  cases hpart : s.cache.partialGroups with
  | cons g gs =>
      refine ⟨(memCacheDoAlloc s g).1, ?_⟩
      dsimp only
      rw [← memCacheDoAlloc_snd]
  | nil =>
      cases hfree : s.cache.freeGroups with
      | nil => simp [hpart, hfree] at hfound
      | cons g gs =>
          dsimp only
          obtain ⟨t, ht⟩ : ∃ t : CacheState, t = { s with cache := { s.cache.unlink g with
              partialGroups := (s.cache.unlink g).partialGroups ++ [g] } } := ⟨_, rfl⟩
          have hsame : freeObject s g = freeObject t g := by
            rw [ht]
            rfl
          refine ⟨(memCacheDoAlloc t g).1, ?_⟩
          rw [hsame, ← memCacheDoAlloc_snd, ← ht]

/-- **`mem_cache_alloc_object`** goes where the next object lies. -/
theorem memCacheAllocObject_next (hinv : SlabInv L boot s objects) (hlow : LowMem L) :
    ∃ s', memCacheAllocObject 2 s = some (s', nextObject s) := by
  by_cases hfound : s.cache.partialGroups ≠ [] ∨ s.cache.freeGroups ≠ []
  · exact memCacheAllocObject_found_next 1 s hfound
  rw [not_or, not_not, not_not] at hfound
  have hnext : nextObject s = newObject s := by
    rw [nextObject, hfound.1, hfound.2]
  rw [hnext, memCacheAllocObject, hfound.1, hfound.2]
  dsimp only
  rcases memGroupCreate_new hinv hlow with
    ⟨t, ret, hrun, hret, hplace⟩ | ⟨t, g, bits, hrun, hpart, hfree, hgroup, hplace⟩
  · refine ⟨t, ?_⟩
    rw [hrun, hplace]
    dsimp only
    rw [if_neg hret]
  · rw [hfound.1] at hpart
    rw [hfound.2] at hfree
    obtain ⟨s', hagain⟩ :=
      memCacheAllocObject_found_next 0 t (Or.inr (by rw [hfree]; exact List.cons_ne_nil _ _))
    have hfirst : nextObject t = newObject s := by
      rw [nextObject, hpart, hfree]
      exact freeObject_new hinv.core.classOk.count_pos hgroup hplace
    refine ⟨s', ?_⟩
    rw [hrun]
    dsimp only
    rw [if_pos rfl, hagain, hfirst]

/-- `mem_alloc` from a cache goes where the next object lies. -/
theorem memAllocSmall_next (hinv : HeapInv L boot h live rest) (hlow : LowMem L) {size : ℕ}
    (hk : sizeClass size < maxMemCacheNr) :
    ∃ h', memAllocSmall h size = some (h', nextObject (h.at (sizeClass size))) := by
  obtain ⟨s', hrun⟩ := memCacheAllocObject_next (hinv.slab _ hk) hlow
  exact ⟨_, by rw [memAllocSmall, hrun, Option.map_some]⟩

/-- `mem_alloc` of pages goes where the next pages lie. -/
theorem memAllocLarge_next (hinv : HeapInv L boot h live rest) (hlow : LowMem L) (size : ℕ) :
    ∃ h', memAllocLarge h size = some (h', nextPages h size) := by
  have hclass : sizeClass sizeofLargeMemObject < maxMemCacheNr := by decide
  obtain ⟨h₁, hsmall⟩ := memAllocSmall_next hinv hlow hclass
  generalize nextObject (h.at (sizeClass sizeofLargeMemObject)) = r at hsmall
  unfold memAllocLarge nextPages
  rw [hsmall, Option.bind_some]
  dsimp only
  by_cases hr : r = 0
  · exact ⟨h₁, by rw [if_pos hr, if_pos hr]⟩
  rw [if_neg hr, if_neg hr]
  obtain ⟨-, hinv₁⟩ := memAllocSmall_spec hinv hlow hclass hsmall hr
  generalize divRoundUp size pageSize = count
  rcases memCachePageAlloc_spec hinv₁.pool hlow count with hfail | ⟨p, node, hok, -⟩
  · -- the record goes back
    obtain ⟨heq, h₂, hfree, -⟩ := memFreeCached_memAllocSmall hinv hlow hclass hsmall hr
    have hheap : ({ h₁ with ranges := h₁.ranges } : Heap) = h₁ := rfl
    refine ⟨h₂, ?_⟩
    rw [hfail, Option.bind_some]
    dsimp only
    rw [if_pos rfl, hheap, heq, hfree, Option.map_some, Option.map_some, Option.getD_some]
  · rw [hok, Option.bind_some]
    dsimp only
    rw [if_neg (pageAt_ne_zero L node), Option.map_some, Option.getD_some]
    exact ⟨_, rfl⟩

/-- **`mem_alloc`** goes where the next object lies. -/
theorem memAlloc_next (hinv : HeapInv L boot h live rest) (hlow : LowMem L) (size : ℕ) :
    ∃ h', memAlloc h size = some (h', h.next size) := by
  unfold memAlloc Heap.next
  split_ifs with hbig hmax
  · exact ⟨h, rfl⟩
  · exact memAllocLarge_next hinv hlow size
  · exact memAllocSmall_next hinv hlow (sizeClass_lt (not_lt.1 hbig))

/-- What `mem_alloc` hands out lies in the kernel's half. -/
theorem memAlloc_bounds (hinv : HeapInv L boot h live rest) (hlow : LowMem L) {size p : ℕ}
    (hrun : memAlloc h size = some (h', p)) (hp : p ≠ 0) : kernBaseVirAddr ≤ p ∧ p < wordSize := by
  unfold memAlloc at hrun
  split_ifs at hrun with hbig hmax
  · rw [Option.some.injEq, Prod.mk.injEq] at hrun
    exact absurd hrun.2.symm hp
  · obtain ⟨r, hlarge, hinv'⟩ := memAllocLarge_spec hinv hlow hrun hp
    have hmem : (⟨r, size, p⟩ : LargeMemObject) ∈ h'.large := by
      rw [hlarge]
      exact List.mem_cons_self ..
    have hblock : largeBlock L ⟨r, size, p⟩ ∈ h'.owned L ++ rest :=
      List.mem_append_left _ (List.mem_append_right _ (List.mem_map_of_mem hmem))
    obtain ⟨hpos, hend⟩ := hinv'.pool.end_le hblock
    have hbound := pageAt_bound hlow (lt_of_lt_of_le (Nat.lt_add_of_pos_right hpos) hend)
    have hhome : p = pageAt L (largeBlock L ⟨r, size, p⟩).node := hinv'.home _ hmem
    rw [← hhome] at hbound
    exact ⟨hbound.1, lt_of_lt_of_le (Nat.lt_add_of_pos_right (by norm_num)) hbound.2⟩
  · have hk := sizeClass_lt (not_lt.1 hbig)
    obtain ⟨-, hinv'⟩ := memAllocSmall_spec hinv hlow hk hrun hp
    have hslab := hinv'.slab _ hk
    rw [Function.update_self] at hslab
    obtain ⟨g, hg, i, hi, -, heq⟩ := (hslab.ledger.2 p).1 (List.mem_cons_self ..)
    have hend := hslab.core.store_end hg
    have hmem := (hslab.core.ok g hg).object_mem hslab.core.classOk hi
    rw [heq]
    refine ⟨le_trans ?_ hmem.1, (object_lt hslab.core hlow hg hi).1⟩
    unfold pageAt
    exact Nat.le_add_left _ _

end Next

/-! ## Rounding -/

/-- Clearing the low bits rounds down. -/
theorem alignDown_two_pow {p e : ℕ} (hp : p < wordSize) (he : e ≤ 32) :
    alignDown p (2 ^ e) = 2 ^ e * (p / 2 ^ e) := by
  have hsplit : (2 : ℕ) ^ 32 = 2 ^ e * 2 ^ (32 - e) := by
    rw [← pow_add, Nat.add_sub_cancel' he]
  have hpos : 0 < 2 ^ e := by positivity
  have hmask : 4294967295 - (2 ^ e - 1) = 2 ^ e * (2 ^ (32 - e) - 1) := by
    rw [Nat.mul_sub, ← hsplit]
    norm_num
    omega
  rw [alignDown, hmask]
  apply Nat.eq_of_testBit_eq
  intro i
  rw [Nat.testBit_and, Nat.testBit_two_pow_mul, Nat.testBit_two_pow_mul,
    Nat.testBit_two_pow_sub_one, Nat.testBit_div_two_pow]
  by_cases hi : e ≤ i
  · rw [Nat.sub_add_cancel hi]
    by_cases hword : i < 32
    · have hlow : i - e < 32 - e := by omega
      simp [hi, hlow]
    · have hzero : p.testBit i = false :=
        Nat.testBit_lt_two_pow (lt_of_lt_of_le hp
          (Nat.pow_le_pow_right (show 0 < 2 by norm_num) (not_lt.1 hword)))
      simp [hzero]
  · simp [hi]

/-! ## The promise -/

/-- The bytes of the object that `mem_alloc` hands out for a request. -/
def objectBytes (size : ℕ) : ℕ :=
  if maxMemCacheSize < size then divRoundUp size pageSize * pageSize
  else cacheSizes.getD (sizeClass size) 0

/-- What an aligned request promises: the address is aligned, the bytes lie in the object that
`mem_alloc` has handed out, and giving the address back gives back this object and nothing else. -/
def KeepsAligned (L : PoolLayout) (boot : MemRangeIdx → ℕ → MemNode) (h : Heap) (live : ℕ → List ℕ)
    (rest : List LiveAlloc) (size align : ℕ) : Prop :=
  ∀ h' q, memAllocAlign h size align = some (h', q) → q ≠ 0 →
    align ∣ q ∧ ∃ p, memAlloc h size = some (h', p) ∧ p ≤ q ∧ q + size ≤ p + objectBytes size ∧
      ∃ h'', memFree h' q = some h'' ∧ h''.large = h.large ∧ HeapInv L boot h'' live rest

theorem le_objectBytes (size : ℕ) : size ≤ objectBytes size := by
  unfold objectBytes
  split_ifs with hbig
  · exact le_divRoundUp size (by norm_num)
  · have hlt : sizeClass size < cacheSizes.length := sizeClass_lt (not_lt.1 hbig)
    rw [List.getD_eq_getElem _ _ hlt]
    have hfound := List.findIdx_getElem (w := hlt)
    exact of_decide_eq_true hfound

section Promise

variable {L : PoolLayout} {boot : MemRangeIdx → ℕ → MemNode} {h : Heap} {live : ℕ → List ℕ}
  {rest : List LiveAlloc}
  {size e : ℕ}

/-- An object that is not aligned is left at its lower end. -/
theorem next_aligned_of_keeps (hinv : HeapInv L boot h live rest) (hlow : LowMem L) (he : e < 31)
    (hkeeps : KeepsAligned L boot h live rest size (2 ^ e)) : 2 ^ e ∣ h.next size := by
  obtain ⟨h', hrun⟩ := memAlloc_next hinv hlow size
  generalize h.next size = p at hrun
  by_cases hp : p = 0
  · rw [hp]
    exact dvd_zero _
  obtain ⟨hbase, hword⟩ := memAlloc_bounds hinv hlow hrun hp
  have hdown := alignDown_two_pow hword (show e ≤ 32 by omega)
  have hsmall : 2 ^ e ≤ p := by
    have hpow : (2 : ℕ) ^ e ≤ 2 ^ 30 := Nat.pow_le_pow_right (by norm_num) (by omega)
    exact le_trans hpow (le_trans (by norm_num) hbase)
  have hne : alignDown p (2 ^ e) ≠ 0 := by
    rw [hdown]
    exact (Nat.mul_pos (by positivity) (Nat.div_pos hsmall (by positivity))).ne'
  have halign : memAllocAlign h size (2 ^ e) = some (h', alignDown p (2 ^ e)) := by
    rw [memAllocAlign, hrun, Option.map_some]
    dsimp only
    rw [if_neg hp]
  obtain ⟨hdvd, p', hrun', hle, -⟩ := hkeeps _ _ halign hne
  rw [hrun, Option.some.injEq, Prod.mk.injEq] at hrun'
  obtain ⟨-, rfl⟩ := hrun'
  have heq : alignDown p (2 ^ e) = p := le_antisymm (by rw [hdown]; exact Nat.mul_div_le p _) hle
  rwa [heq] at hdvd

/-- An object that is aligned is left as it is. -/
theorem keeps_of_next_aligned (hinv : HeapInv L boot h live rest) (hlow : LowMem L) (he : e < 31)
    (hnext : 2 ^ e ∣ h.next size) : KeepsAligned L boot h live rest size (2 ^ e) := by
  intro h' q halign hq
  obtain ⟨h₁, hrun⟩ := memAlloc_next hinv hlow size
  generalize h.next size = p at hrun hnext
  rw [memAllocAlign, hrun, Option.map_some, Option.some.injEq, Prod.mk.injEq] at halign
  obtain ⟨rfl, heq⟩ := halign
  dsimp only at heq
  have hp : p ≠ 0 := by
    rintro rfl
    exact hq heq.symm
  have hword := (memAlloc_bounds hinv hlow hrun hp).2
  rw [if_neg hp, alignDown_two_pow hword (by omega), Nat.mul_div_cancel' hnext] at heq
  subst heq
  exact ⟨hnext, p, hrun, le_rfl, Nat.add_le_add_left (le_objectBytes size) p,
    memFree_memAlloc hinv hlow hrun hp⟩

end Promise

/-- The heap of the small machine. -/
def smallHeap : Heap :=
  builtHeap (fun k => 4000 + 64 * k) (fun _ => ⟨⟨0, fun _ => 255#8⟩, 0, 0, 0⟩)
    (smallLayout.init clearBoot).ranges

theorem heapInv_smallHeap : HeapInv smallLayout clearBoot smallHeap (fun _ => []) [] :=
  heapInv_built ⟨_, poolInv_init smallLayout clearBoot, rfl⟩ fun j _ k _ heq => by omega


/-- **An aligned request** keeps its promise if and only if the next object of its size is aligned
as it is. -/
theorem memAllocAlign_keeps_iff {L : PoolLayout} {boot : MemRangeIdx → ℕ → MemNode} {h : Heap}
    {live : ℕ → List ℕ}
    {rest : List LiveAlloc} (hinv : HeapInv L boot h live rest) (hlow : LowMem L) (size : ℕ)
    {e : ℕ} (he : e < 31) :
    KeepsAligned L boot h live rest size (2 ^ e) ↔ 2 ^ e ∣ h.next size :=
  ⟨next_aligned_of_keeps hinv hlow he, keeps_of_next_aligned hinv hlow he⟩

/-- An object of 32 bytes at a multiple of 16. -/
theorem memAllocAlign_keeps_smallHeap :
    smallHeap.next 32 = 2210394160 ∧ KeepsAligned smallLayout clearBoot smallHeap (fun _ => [])
    [] 32 (2 ^ 4) :=
  ⟨by decide +kernel,
    (memAllocAlign_keeps_iff heapInv_smallHeap (by unfold LowMem; decide) 32 (by norm_num)).2
    (by decide +kernel)⟩

/-- An object of 32 bytes at a multiple of 64: the address is that of the record of the group, and
giving it back panics. -/
theorem memAllocAlign_smallHeap :
    HeapInv smallLayout clearBoot smallHeap (fun _ => []) [] ∧ LowMem smallLayout ∧
      (memAllocAlign smallHeap 32 64).map Prod.snd = some 2210394112 ∧
      ((memAllocAlign smallHeap 32 64).bind fun hq => memFree hq.1 hq.2).isNone ∧
      ¬ KeepsAligned smallLayout clearBoot smallHeap (fun _ => []) [] 32 (2 ^ 6) := by
  have hlow : LowMem smallLayout := by unfold LowMem; decide
  refine ⟨heapInv_smallHeap, hlow, by decide +kernel, by decide +kernel, fun hkeeps => ?_⟩
  have hdvd := next_aligned_of_keeps heapInv_smallHeap hlow (by norm_num) hkeeps
  exact absurd hdvd (by decide +kernel)

/-! ## Small objects -/

section Small

variable {L : PoolLayout} {boot : MemRangeIdx → ℕ → MemNode} {h : Heap} {live : ℕ → List ℕ}
  {rest : List LiveAlloc}
  {size e : ℕ}

/-- The classes of the sizes up to 512 bytes. -/
theorem sizeClass_small (hsize : size ≤ 512) :
    ∃ c, cacheSizes[sizeClass size]? = some c ∧ 32 ∣ c ∧ c < 1024 := by
  have hle : sizeClass size ≤ sizeClass 512 := by
    refine List.findIdx_le_findIdx fun s _ hs => ?_
    simp only [decide_eq_true_eq] at hs ⊢
    exact hsize.trans hs
  rw [show sizeClass 512 = 4 by decide] at hle
  generalize sizeClass size = k at hle
  interval_cases k <;> exact ⟨_, rfl, by decide, by decide⟩

/-- **Up to 512 bytes** the objects lie 48 bytes behind the start of a page, so only alignments up
to 16 are kept. -/
theorem next_small_iff (hinv : HeapInv L boot h live rest) (hlow : LowMem L)
    (hpage : pageSize ∣ L.start .normal)
    (hsize : size ≤ 512) (hnext : h.next size ≠ 0) : 2 ^ e ∣ h.next size ↔ e ≤ 4 := by
  have hcached : ¬ maxMemCacheSize < size := by
    unfold maxMemCacheSize
    omega
  have hk := sizeClass_lt (not_lt.1 hcached)
  obtain ⟨c, hc, hdvd, hlt⟩ := sizeClass_small hsize
  obtain ⟨h', hrun⟩ := memAllocSmall_next hinv hlow hk
  have heq : h.next size = nextObject (h.at (sizeClass size)) := by
    rw [Heap.next, if_neg hcached]
  rw [heq] at hnext ⊢
  generalize nextObject (h.at (sizeClass size)) = p at hrun hnext
  obtain ⟨-, hinv'⟩ := memAllocSmall_spec hinv hlow hk hrun hnext
  have hclass := hinv'.size _ hk
  have hslab := hinv'.slab _ hk
  rw [Function.update_self] at hslab
  obtain ⟨g, hg, i, hi, -, rfl⟩ := (hslab.ledger.2 p).1 (List.mem_cons_self ..)
  have hok := hslab.core.ok g hg
  have hobject : (h'.at (sizeClass size)).cache.objectSize = c := by
    rw [hc, Option.some.injEq] at hclass
    exact hclass.symm
  have hstart := hok.objects
  rw [hobject, if_pos hlt] at hstart
  obtain ⟨d, rfl⟩ := hdvd
  obtain ⟨m, hm⟩ := hpage
  have hhome := hok.home
  unfold pageAt at hhome
  generalize nodeAt L g = n at hhome
  rw [hm] at hhome
  have haddr : (h'.at (sizeClass size)).objectAt g i =
      32 * ((n + m) * 128 + 67108864 + 1 + i * d) + 16 := by
    unfold CacheState.objectAt
    rw [hobject, hstart, hhome]
    unfold pageSize kernBaseVirAddr
    ring
  rw [haddr]
  generalize (n + m) * 128 + 67108864 + 1 + i * d = units
  constructor
  · intro hdvd
    by_contra hlarge
    have hpow : (32 : ℕ) ∣ 2 ^ e := pow_dvd_pow 2 (show 5 ≤ e by omega)
    have := hpow.trans hdvd
    omega
  · intro hsmall
    have hpow : 2 ^ e ∣ (16 : ℕ) := pow_dvd_pow 2 (show e ≤ 4 from hsmall)
    exact hpow.trans (by omega)

end Small

theorem next_small_smallHeap : 2 ^ 4 ∣ smallHeap.next 32 :=
  (next_small_iff heapInv_smallHeap (by unfold LowMem; decide) (by decide) (by norm_num)
    (by decide +kernel)).2 le_rfl

end MemCache
end LightOS
