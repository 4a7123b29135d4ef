import LightOS.Mm.PageBasic
import LightOS.Lib.LinkedList
import LightOS.Lib.Interval

/-!
# Memory spaces of a process: the model

`vmm/memspace.c` and `xbook/memspace.h`: the memory spaces of an address space
are records on a singly linked list in address order.  The list is modelled as
it is in memory, as records that point to records, since two of the functions
rearrange it by hand.

Records come from `mem_alloc`.  What it returns call by call is a parameter, the
`supply` of the state; it never returns a record that is allocated already.  How
often each record was returned and how often it was passed to `mem_space_free`
is counted.  A record that is handed out holds whatever it held before.
-/

namespace LightOS
namespace Vm

open LinkedList Interval

/-- `MEM_SPACE_MAP_FIXED`. -/
abbrev memSpaceMapFixed : ℕ := 16

/-- `MEM_SPACE_MAP_STACK`. -/
abbrev memSpaceMapStack : ℕ := 32

/-- `MEM_SPACE_MAP_HEAP`. -/
abbrev memSpaceMapHeap : ℕ := 64

/-- `MEM_SPACE_MAP_SHARED`. -/
abbrev memSpaceMapShared : ℕ := 128

/-- `MEM_SPACE_MAP_REMAP`. -/
abbrev memSpaceMapRemap : ℕ := 256

/-- `MAX_MEM_SPACE_STACK_SIZE`. -/
abbrev maxMemSpaceStackSize : ℕ := 16777216

/-- `MAX_MEM_SPACE_HEAP_SIZE`. -/
abbrev maxMemSpaceHeapSize : ℕ := 536870912

/-- `-1` as an `unsigned long`. -/
abbrev minusOne : ℕ := 4294967295

/-- The number of places a record of `mem_alloc` can have in memory. -/
abbrev recSlots : ℕ := 134217728

/-- A `mem_space_t *` that is not null. -/
abbrev RecPtr := Fin recSlots

/-- The bound on walks along the list; a list without a cycle is shorter. -/
abbrev walkRounds : ℕ := 134217729

/-- The attributes of a `mem_space_t`.  `vmm` is the address of the owner. -/
structure Attrs where
  pageProt : ℕ
  flags : ℕ
  vmm : ℕ
  deriving DecidableEq

/-- `mem_space_t`. -/
structure MemSpace extends Attrs where
  start : ℕ
  end_ : ℕ
  next : Option RecPtr

/-- The fields of `vmm_t` the modelled functions use. -/
structure Vmm where
  memSpaceHead : Option RecPtr
  heapStart : ℕ
  heapEnd : ℕ
  mapStart : ℕ
  mapEnd : ℕ

/-- One address space: the records, the `vmm_t` and its address, the history of
the records, what `mem_alloc` is going to return, and the page tables. -/
structure AddrSpace where
  recs : RecPtr → MemSpace
  vmm : Vmm
  vmmAddr : ℕ
  allocs : RecPtr → ℕ
  frees : RecPtr → ℕ
  supply : List (Option RecPtr)
  mm : Mm

namespace AddrSpace

variable (s : AddrSpace)

/-- The links of the records. -/
def next : RecPtr → Option RecPtr := fun p => (s.recs p).next

/-- Rewrite one record. -/
def modify (p : RecPtr) (f : MemSpace → MemSpace) : AddrSpace :=
  { s with recs := Function.update s.recs p (f (s.recs p)) }

/-- Write the link of `prev`, or the head of the list if `prev` is null. -/
def setLink (prev x : Option RecPtr) : AddrSpace :=
  match prev with
  | none => { s with vmm := { s.vmm with memSpaceHead := x } }
  | some q => s.modify q fun r => { r with next := x }

/-- The interval a record stands for. -/
def span (p : RecPtr) : Span Attrs := ⟨(s.recs p).start, (s.recs p).end_, (s.recs p).toAttrs⟩

end AddrSpace

/-! ## Records -/

/-- `mem_space_alloc`. -/
def memSpaceAlloc (s : AddrSpace) : AddrSpace × Option RecPtr :=
  match s.supply with
  | some p :: rest =>
      if s.allocs p ≤ s.frees p then
        ({ s with supply := rest, allocs := Function.update s.allocs p (s.allocs p + 1) }, some p)
      else ({ s with supply := rest }, none)
  | none :: rest => ({ s with supply := rest }, none)
  | [] => (s, none)

/-- `mem_space_free`. -/
def memSpaceFree (s : AddrSpace) (p : RecPtr) : AddrSpace :=
  { s with frees := Function.update s.frees p (s.frees p + 1) }

/-- `mem_space_init`. -/
def memSpaceInit (s : AddrSpace) (p : RecPtr) (start end_ pageProt flags : ℕ) : AddrSpace :=
  s.modify p fun _ =>
    { start := start, end_ := end_, pageProt := pageProt, flags := flags, vmm := 0, next := none }

/-- `mem_space_remove`. -/
def memSpaceRemove (s : AddrSpace) (space : RecPtr) (prev : Option RecPtr) : AddrSpace :=
  memSpaceFree (s.setLink prev (s.recs space).next) space

/-- `mem_space_find_prev`: the first space that ends above `addr`, and the one
before it. -/
def memSpaceFindPrev (s : AddrSpace) (addr : ℕ) : Option (Option RecPtr × Option RecPtr) :=
  search s.next (fun p => decide (addr < (s.recs p).end_)) walkRounds none s.vmm.memSpaceHead

/-- `mem_space_find`. -/
def memSpaceFind (s : AddrSpace) (addr : ℕ) : Option (Option RecPtr) :=
  (memSpaceFindPrev s addr).map Prod.snd

/-- `mem_space_find_intersection`. -/
def memSpaceFindIntersection (s : AddrSpace) (start end_ : ℕ) : Option (Option RecPtr) :=
  (memSpaceFind s start).map fun space =>
    match space with
    | none => none
    | some p => if end_ ≤ (s.recs p).start then none else some p

/-! ## Insertion -/

/-- The two records may be merged as far as their attributes go. -/
def sameAttrs (s : AddrSpace) (p q : RecPtr) : Bool :=
  (s.recs p).pageProt == (s.recs q).pageProt && (s.recs p).flags == (s.recs q).flags

/-- `prev` takes over the interval of `space` and the link to `p`, and `space` is
freed. -/
def extendPrev (s : AddrSpace) (prev space : RecPtr) (p : Option RecPtr) : AddrSpace :=
  memSpaceFree (s.modify prev fun r => { r with end_ := (s.recs space).end_, next := p }) space

/-- Merge `prev` and `space`; the result names the record that is left. -/
def mergePrev (s : AddrSpace) (prev : Option RecPtr) (space : RecPtr) (p : Option RecPtr) :
    AddrSpace × RecPtr :=
  match prev with
  | none => (s, space)
  | some q =>
      if (s.recs q).end_ = (s.recs space).start ∧ sameAttrs s q space then
        (extendPrev s q space p, q)
      else (s, space)

/-- Merge `space` and `p`: `space` takes over the interval and the link of `p`,
and `space` is freed. -/
def mergeNext (s : AddrSpace) (space : RecPtr) (p : Option RecPtr) : AddrSpace :=
  match p with
  | none => s
  | some q =>
      if (s.recs space).end_ = (s.recs q).start ∧ sameAttrs s space q then
        memSpaceFree
          (s.modify space fun r => { r with end_ := (s.recs q).end_, next := (s.recs q).next })
          space
      else s

/-- The part of `mem_space_insert` that links `space` between `prev` and `p`. -/
def linkSpace (s : AddrSpace) (prev : Option RecPtr) (space : RecPtr) (p : Option RecPtr) :
    AddrSpace :=
  ((s.modify space fun r => { r with next := p }).setLink prev (some space)).modify space fun r =>
    { r with vmm := s.vmmAddr }

/-- `mem_space_insert`. -/
def memSpaceInsert (s : AddrSpace) (space : RecPtr) : Option AddrSpace :=
  match search s.next (fun p => decide ((s.recs space).end_ ≤ (s.recs p).start)) walkRounds none
      s.vmm.memSpaceHead with
  | none => none
  | some (prev, p) =>
      let s₁ := linkSpace s prev space p
      if hasFlag (s₁.recs space).flags memSpaceMapShared then some s₁
      else
        let merged := mergePrev s₁ prev space p
        some (mergeNext merged.1 merged.2 p)

/-! ## Mapping -/

/-- The loop of `mem_space_get_unmaped`. -/
def getUnmapedLoop (s : AddrSpace) (len : ℕ) : ℕ → ℕ → Option RecPtr → Option ℕ
  | 0, _, _ => none
  | _ + 1, addr, none => some addr
  | rounds + 1, addr, some space =>
      if sub32 userVmmSize len < add32 addr userVmmBaseAddr then some minusOne
      else if s.vmm.mapEnd ≤ add32 addr len then some minusOne
      else if add32 addr len ≤ (s.recs space).start then some addr
      else getUnmapedLoop s len rounds (s.recs space).end_ (s.recs space).next

/-- `mem_space_get_unmaped`. -/
def memSpaceGetUnmaped (s : AddrSpace) (len : ℕ) : Option ℕ :=
  (memSpaceFind s s.vmm.mapStart).bind fun space =>
    getUnmapedLoop s len walkRounds s.vmm.mapStart space

/-- The part of `do_mem_space_map` that settles the address: `minusOne` if the
request is refused. -/
def mapPlace (s : AddrSpace) (addr len flags : ℕ) : Option ℕ :=
  if hasFlag flags memSpaceMapFixed then
    if ¬ PageAligned addr then some minusOne
    else
      (memSpaceFind s addr).map fun p =>
        match p with
        | none => addr
        | some q => if (s.recs q).start < add32 addr len then minusOne else addr
  else memSpaceGetUnmaped s len

/-- The protection `do_mem_space_map` stores. -/
def mapProt (prot flags : ℕ) : ℕ :=
  if hasFlag flags memSpaceMapRemap then prot ||| protRemap else prot

/-- The part of `do_mem_space_map` that fills the page tables. -/
def mapPages (mm : Mm) (addr paddr len prot flags : ℕ) : Option Mm :=
  if hasFlag flags memSpaceMapShared then pageMapAddrFixed mm addr paddr len prot
  else (pageMapAddrSafe mm addr len prot).map Prod.fst

/-- The refused requests of `do_mem_space_map`; `len` is a multiple of the page
size already. -/
def MapRefused (addr len prot : ℕ) : Prop :=
  prot = 0 ∨ len = 0 ∨ userVmmSize < len ∨ userVmmTopAddr < addr ∨
    sub32 userVmmTopAddr len < addr ∨ addr < userVmmBaseAddr

instance (addr len prot : ℕ) : Decidable (MapRefused addr len prot) := by
  unfold MapRefused
  infer_instance

/-- `do_mem_space_map`. -/
def doMemSpaceMap (s : AddrSpace) (addr paddr len prot flags : ℕ) : Option (AddrSpace × ℕ) :=
  if MapRefused addr (pageAlign len) prot then some (s, minusOne)
  else
    match mapPlace s addr (pageAlign len) flags with
    | none => none
    | some place =>
        if place = minusOne then some (s, minusOne)
        else
          match memSpaceAlloc s with
          | (s', none) => some (s', minusOne)
          | (s', some space) =>
              let init := memSpaceInit s' space place (add32 place (pageAlign len))
                (mapProt prot flags) flags
              match memSpaceInsert init space with
              | none => none
              | some s'' =>
                  (mapPages s''.mm place paddr (pageAlign len) (mapProt prot flags) flags).map
                    fun mm => ({ s'' with mm := mm }, place)

/-! ## Unmapping -/

/-- The refused requests of `do_mem_space_unmap`. -/
def UnmapRefused (addr len : ℕ) : Prop :=
  ¬ PageAligned addr ∨ userVmmTopAddr < addr ∨ sub32 userVmmTopAddr len < addr ∨
    addr < userVmmBaseAddr ∨ pageAlign len = 0

instance (addr len : ℕ) : Decidable (UnmapRefused addr len) := by
  unfold UnmapRefused
  infer_instance

/-- The part of `do_mem_space_unmap` that cuts `[addr, end_)` out of `space`. -/
def splitSpace (s : AddrSpace) (space spaceNew : RecPtr) (addr end_ : ℕ) : AddrSpace :=
  let s₁ := s.modify spaceNew fun r =>
    { r with start := end_, end_ := (s.recs space).end_, next := (s.recs space).next }
  s₁.modify space fun r => { r with end_ := addr, next := some spaceNew }

/-- The part of `do_mem_space_unmap` that removes empty halves. -/
def removeEmpty (s : AddrSpace) (prev : Option RecPtr) (space spaceNew : RecPtr) : AddrSpace :=
  let first : AddrSpace × Option RecPtr :=
    if (s.recs space).start = (s.recs space).end_ then (memSpaceRemove s space prev, prev)
    else (s, some space)
  if (first.1.recs spaceNew).start = (first.1.recs spaceNew).end_ then
    memSpaceRemove first.1 spaceNew first.2
  else first.1

/-- `do_mem_space_unmap`. -/
def doMemSpaceUnmap (s : AddrSpace) (addr len : ℕ) : Option (AddrSpace × ℤ) :=
  if UnmapRefused addr len then some (s, -1)
  else
    match memSpaceFindPrev s addr with
    | none => none
    | some (_, none) => some (s, -1)
    | some (prev, some space) =>
        if addr < (s.recs space).start ∨ (s.recs space).end_ < add32 addr (pageAlign len) then
          some (s, 0)
        else
          match pageUnmapAddrSafe s.mm addr (pageAlign len)
              (hasFlag (s.recs space).flags memSpaceMapShared) with
          | none => none
          | some mm =>
              match memSpaceAlloc { s with mm := mm } with
              | (s', none) => some (s', -1)
              | (s', some spaceNew) =>
                  some (removeEmpty (splitSpace s' space spaceNew addr (add32 addr (pageAlign len)))
                    prev space spaceNew, 0)

/-! ## The heap -/

/-- The tail of `do_mem_space_expend_heap`, after the range has been unmapped. -/
def heapInsert (s : AddrSpace) (addr len : ℕ) : Option (AddrSpace × ℕ) :=
  match memSpaceAlloc s with
  | (s', none) => some (s', minusOne)
  | (s', some space) =>
      (memSpaceInsert (memSpaceInit s' space addr (add32 addr len)
        (protUser ||| protWrite ||| protExec) memSpaceMapHeap) space).map fun s'' => (s'', addr)

/-- `do_mem_space_expend_heap`. -/
def doMemSpaceExpendHeap (s : AddrSpace) (addr len : ℕ) : Option (AddrSpace × ℕ) :=
  if pageAlign len = 0 then some (s, addr)
  else
    match doMemSpaceUnmap s addr (pageAlign len) with
    | none => none
    | some (s', ret) =>
        if ret = -1 then some (s', minusOne)
        else if addr = 0 then heapInsert s' addr (pageAlign len)
        else
          match memSpaceFind s' (addr - 1) with
          | none => none
          | some none => heapInsert s' addr (pageAlign len)
          | some (some space) =>
              if (s'.recs space).end_ = addr ∧ (s'.recs space).flags = memSpaceMapHeap then
                some (s'.modify space fun r => { r with end_ := add32 addr (pageAlign len) }, addr)
              else heapInsert s' addr (pageAlign len)

/-- Write `vmm->heap_end`. -/
def setHeapEnd (s : AddrSpace) (heap : ℕ) : AddrSpace :=
  { s with vmm := { s.vmm with heapEnd := heap } }

/-- `sys_mem_space_expend_heap`. -/
def sysMemSpaceExpendHeap (s : AddrSpace) (heap : ℕ) : Option (AddrSpace × ℕ) :=
  let newHeap := pageAlign heap
  let oldHeap := pageAlign s.vmm.heapEnd
  if heap < s.vmm.heapStart then some (s, s.vmm.heapEnd)
  else if newHeap = oldHeap then some (setHeapEnd s heap, heap)
  else if heap ≤ s.vmm.heapEnd then
    match doMemSpaceUnmap s newHeap (sub32 oldHeap newHeap) with
    | none => none
    | some (s', ret) =>
        if ret = 0 then some (setHeapEnd s' heap, heap) else some (s', s'.vmm.heapEnd)
  else if add32 s.vmm.heapStart maxMemSpaceHeapSize < heap then some (s, s.vmm.heapEnd)
  else
    match memSpaceFindIntersection s oldHeap (add32 newHeap pageSize) with
    | none => none
    | some (some _) => some (s, s.vmm.heapEnd)
    | some none =>
        match doMemSpaceExpendHeap s oldHeap (sub32 newHeap oldHeap) with
        | none => none
        | some (s', ret) =>
            if ret = oldHeap then some (setHeapEnd s' heap, heap) else some (s', s'.vmm.heapEnd)

end Vm
end LightOS
