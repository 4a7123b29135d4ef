import LightOS.Kern.Bitmap
import LightOS.Mm.PageBasic

/-!
# Kernel virtual areas: the model

`vmm/virmem.c`: the kernel hands out areas of a window of virtual addresses.  A
bitmap says which pages of the window belong to an area; areas that are freed go to
a list ordered by size, with their pages and their bits, and are handed out again
from there.

The two lists are lists of areas; an area carries the address of its record.  As in
the model of the memory spaces, what `mem_alloc` returns for a record is a parameter,
the `supply`, and it is counted how often each record was allocated and freed.  A
record that was freed while linked stays linked; should it be handed out again
then (`relinks`), the lists are no lists any more and the model stops.  The lock and the interrupt
flag are left out: the calls are taken one after the other.
-/

namespace LightOS
namespace VirMem

/-- `VIR_MEM_BASE`. -/
abbrev virMemBase : ℕ := 4022337536

/-- `VIR_MEM_END`. -/
abbrev virMemEnd : ℕ := 4290772992

/-- `vir_mem_t`, and where it lies. -/
structure VirArea where
  ptr : ℕ
  addr : ℕ
  size : ℕ
  deriving DecidableEq

/-- `vir_addr_bitmap`, the two lists, the history of the records, what `mem_alloc` is
going to return, and the page tables. -/
structure VirState where
  bitmap : Bitmap
  usingVirMemList : List VirArea
  freeVirMemList : List VirArea
  allocs : ℕ → ℕ
  frees : ℕ → ℕ
  supply : List (Option ℕ)
  mm : Mm

/-- `vir_mem_init`, on a bitmap with the contents `bits`. -/
def virMemInit (bits : ℕ → BitVec 8) (allocs frees : ℕ → ℕ) (supply : List (Option ℕ)) (mm : Mm) :
    VirState where
  bitmap := bitmapInit { byteLength := 8192, bits := bits }
  usingVirMemList := []
  freeVirMemList := []
  allocs := allocs
  frees := frees
  supply := supply
  mm := mm

/-! ## Addresses -/

/-- `vir_addr_alloc`; zero is failure. -/
def virAddrAlloc (b : Bitmap) (size : ℕ) : Bitmap × ℕ :=
  if pageAlign size = 0 then (b, 0)
  else
    match bitmapScan b (pageAlign size / pageSize) with
    | none => (b, 0)
    | some idx =>
        (bitmapSetRange b idx true (pageAlign size / pageSize), add32 virMemBase (idx * pageSize))

/-- `vir_addr_free`; nobody looks at what it returns.  The index is not `-1`: it is the
quotient of an unsigned number. -/
def virAddrFree (b : Bitmap) (vaddr size : ℕ) : Bitmap :=
  if size = 0 then b
  else bitmapSetRange b (sub32 vaddr virMemBase / pageSize) false (pageAlign size / pageSize)

/-! ## Records -/

/-- The areas of both lists. -/
def VirState.areas (s : VirState) : List VirArea := s.usingVirMemList ++ s.freeVirMemList

/-- `mem_alloc` is going to return a record that is still linked. -/
def VirState.relinks (s : VirState) : Bool :=
  match s.supply with
  | some p :: _ => decide (s.allocs p ≤ s.frees p) && s.areas.any fun a => a.ptr == p
  | _ => false

/-- `mem_alloc(sizeof(vir_mem_t))`. -/
def recordAlloc (s : VirState) : VirState × Option ℕ :=
  match s.supply with
  | some p :: rest =>
      if s.allocs p ≤ s.frees p then
        ({ s with supply := rest, allocs := Function.update s.allocs p (s.allocs p + 1) }, some p)
      else ({ s with supply := rest }, none)
  | none :: rest => ({ s with supply := rest }, none)
  | [] => (s, none)

/-- `mem_free` of a record. -/
def recordFree (s : VirState) (p : ℕ) : VirState :=
  { s with frees := Function.update s.frees p (s.frees p + 1) }

/-! ## Allocation -/

/-- The protection of the areas, `PROT_KERN | PROT_WRITE`. -/
abbrev virMemProt : ℕ := protKern ||| protWrite

/-- `vir_mem_do_alloc`.  The record is linked before the pages are entered, and it stays
linked when that fails. -/
def virMemDoAlloc (s : VirState) (size : ℕ) : Option (VirState × ℕ) :=
  let reserved := virAddrAlloc s.bitmap size
  if reserved.2 = 0 then some (s, 0)
  else
    match recordAlloc { s with bitmap := reserved.1 } with
    | (s', none) => some ({ s' with bitmap := virAddrFree s'.bitmap reserved.2 size }, 0)
    | (s', some area) =>
        if s'.areas.any fun a => a.ptr == area then none
        else
          let linked : VirState :=
            { s' with usingVirMemList := s'.usingVirMemList ++ [⟨area, reserved.2, size⟩] }
          match pageMapAddr linked.mm reserved.2 size virMemProt with
          | none => none
          | some (mm, ret) =>
              if ret = 0 then some ({ linked with mm := mm }, reserved.2)
              else
                some (recordFree
                  { linked with mm := mm, bitmap := virAddrFree linked.bitmap reserved.2 size }
                  area, 0)

/-- The size `vir_mem_alloc` asks for: one page more than the caller. -/
def areaSize (size : ℕ) : ℕ := add32 (pageAlign size) pageSize

/-- The area of the free list `vir_mem_alloc` takes: the first that is not larger than what is
asked for. -/
def freeTarget (s : VirState) (size : ℕ) : Option VirArea :=
  s.freeVirMemList.find? fun area => decide (area.size ≤ areaSize size)

/-- `vir_mem_alloc`. -/
def virMemAlloc (s : VirState) (size : ℕ) : Option (VirState × ℕ) :=
  if pageAlign size = 0 then some (s, 0)
  else
    match freeTarget s size with
    | some target =>
        some ({ s with
          usingVirMemList := s.usingVirMemList ++ [target]
          freeVirMemList := s.freeVirMemList.erase target }, target.addr)
    | none => virMemDoAlloc s (areaSize size)

/-! ## Freeing -/

/-- The loop of `vir_mem_do_free`: put `target` before the first area that is at least as
large. -/
def virMemInsert (target : VirArea) : List VirArea → List VirArea
  | [] => [target]
  | area :: rest =>
      if area.size < target.size then area :: virMemInsert target rest else target :: area :: rest

/-- `vir_mem_do_free`: `inserted` is not set when the list was empty. -/
def virMemDoFree (s : VirState) (target : VirArea) : VirState × Bool :=
  ({ s with
    usingVirMemList := s.usingVirMemList.erase target
    freeVirMemList := virMemInsert target s.freeVirMemList }, !s.freeVirMemList.isEmpty)

/-- `vir_mem_free`. -/
def virMemFree (s : VirState) (ptr : ℕ) : VirState × ℤ :=
  if ptr = 0 then (s, -1)
  else if ptr < virMemBase ∨ virMemEnd ≤ ptr then (s, -1)
  else
    match s.usingVirMemList.find? fun area => decide (area.addr = ptr) with
    | none => (s, -1)
    | some target =>
        let freed := virMemDoFree s target
        (freed.1, if freed.2 then 0 else -1)

end VirMem
end LightOS
