import LightOS.Mm.MemPoolBasic

/-!
# Page tables: the model

`arch/x86/mach-i386/mm/page.c`: the functions that enter pages into the current
page directory and take them out, and the page pool they draw from.  The
directory and the tables are reached through the directory's last entry, which
maps the directory itself; so the table entries of the last 4 MB of addresses
*are* the directory entries.

Entries are words.  A call that ends in `panic`, in a failed `assert` or in a
loop that never ends returns `none`.
-/

namespace LightOS

open MemPool

/-! ## Bits -/

/-- The C condition `word & flag`. -/
def hasFlag (word flag : ℕ) : Bool := word &&& flag != 0

/-- `PAGE_ATTR_PRESENT`. -/
abbrev pageAttrPresent : ℕ := 1

/-- `PAGE_ATTR_READ`. -/
abbrev pageAttrRead : ℕ := 0

/-- `PAGE_ATTR_WRITE`. -/
abbrev pageAttrWrite : ℕ := 2

/-- `PAGE_ATTR_SYSTEM`. -/
abbrev pageAttrSystem : ℕ := 0

/-- `PAGE_ATTR_USER`. -/
abbrev pageAttrUser : ℕ := 4

/-- `PROT_WRITE`. -/
abbrev protWrite : ℕ := 2

/-- `PROT_EXEC`. -/
abbrev protExec : ℕ := 4

/-- `PROT_KERN`. -/
abbrev protKern : ℕ := 8

/-- `PROT_USER`. -/
abbrev protUser : ℕ := 16

/-- `PROT_REMAP`. -/
abbrev protRemap : ℕ := 32

/-- `word & ~PAGE_ATTR_PRESENT`. -/
def clearPresent (word : ℕ) : ℕ := word &&& 4294967294

/-! ## The tables -/

/-- The page pool and the current page directory: directory entries by directory
index, table entries by virtual page number. -/
structure Mm where
  ranges : MemRanges
  pde : ℕ → ℕ
  pte : ℕ → ℕ

/-- `PAGE_DIR_ENTRY_IDX`. -/
def dirIdx (vaddr : ℕ) : ℕ := vaddr / 4194304

/-- `PAGE_TABLE_ENTRY_IDX`. -/
def tableIdx (vaddr : ℕ) : ℕ := vaddr / 4096 % 1024

/-- `*vir_addr_to_table_entry(vaddr)`. -/
def Mm.entry (m : Mm) (vaddr : ℕ) : ℕ :=
  if dirIdx vaddr = 1023 then m.pde (tableIdx vaddr) else m.pte (vaddr / 4096)

/-- Write `*vir_addr_to_table_entry(vaddr)`. -/
def Mm.setEntry (m : Mm) (vaddr e : ℕ) : Mm :=
  if dirIdx vaddr = 1023 then { m with pde := Function.update m.pde (tableIdx vaddr) e }
  else { m with pte := Function.update m.pte (vaddr / 4096) e }

/-- Enter a table into the directory and clear it. -/
def Mm.newTable (m : Mm) (i e : ℕ) : Mm :=
  { m with pde := Function.update m.pde i e, pte := fun n => if n / 1024 = i then 0 else m.pte n }

/-- The address has a page: its directory entry and its table entry are present. -/
def Mm.present (m : Mm) (vaddr : ℕ) : Bool :=
  hasFlag (m.pde (dirIdx vaddr)) pageAttrPresent && hasFlag (m.entry vaddr) pageAttrPresent

/-! ## Single pages -/

/-- `page_alloc_user(1)`. -/
def pageAllocUser (m : Mm) : Option (Mm × ℕ) :=
  (memNodeAllocPages m.ranges 1 memNodeTypeUser).map fun ra => ({ m with ranges := ra.1 }, ra.2)

/-- `page_free`; nobody looks at what it returns. -/
def pageFree (m : Mm) (addr : ℕ) : Option Mm :=
  (memNodeFreePages m.ranges addr).map fun rr => { m with ranges := rr.1 }

/-- The part of `page_link_addr` and `page_link_addr_unsafe` that sets up a missing
page table.  The directory's own entry cannot be missing: without it no entry
can be reached. -/
def pageLinkTable (m : Mm) (va attr : ℕ) : Option Mm :=
  match pageAllocUser m with
  | none => none
  | some (m', pageTable) =>
      if pageTable = 0 ∨ dirIdx va = 1023 then none
      else some (m'.newTable (dirIdx va) (pageTable ||| attr ||| pageAttrPresent))

/-- `page_link_addr`. -/
def pageLinkAddr (m : Mm) (va pa attr : ℕ) : Option Mm :=
  if hasFlag (m.pde (dirIdx va)) pageAttrPresent then
    if hasFlag (m.entry va) pageAttrPresent then none
    else some (m.setEntry va (pa ||| attr ||| pageAttrPresent))
  else (pageLinkTable m va attr).map fun m' => m'.setEntry va (pa ||| attr ||| pageAttrPresent)

/-- `page_link_addr_unsafe`: a page that is there already is freed first. -/
def pageLinkAddrUnsafe (m : Mm) (va pa attr : ℕ) : Option Mm :=
  if hasFlag (m.pde (dirIdx va)) pageAttrPresent then
    if hasFlag (m.entry va) pageAttrPresent then
      (pageFree m (pageMask (m.entry va))).map fun m' =>
        m'.setEntry va (pa ||| attr ||| pageAttrPresent)
    else some (m.setEntry va (pa ||| attr ||| pageAttrPresent))
  else (pageLinkTable m va attr).map fun m' => m'.setEntry va (pa ||| attr ||| pageAttrPresent)

/-- `addr_vir2phy`. -/
def addrVir2Phy (m : Mm) (vaddr : ℕ) : ℕ := pageMask (m.entry vaddr) + vaddr % 4096

/-! ## Ranges of pages -/

/-- The attributes `page_map_addr` and `page_map_addr_fixed` compute. -/
def pageAttrOf (prot : ℕ) : ℕ :=
  (if hasFlag prot protUser then pageAttrUser else pageAttrSystem) |||
    (if hasFlag prot protWrite then pageAttrWrite else pageAttrRead)

/-- The attributes `page_map_addr_safe` computes: both branches of its second
test set the write bit. -/
def pageAttrOfSafe (prot : ℕ) : ℕ :=
  (if hasFlag prot protUser then pageAttrUser else pageAttrSystem) |||
    (if hasFlag prot protWrite then pageAttrWrite else pageAttrWrite)

/-- How many rounds a loop over pages can make before it meets a page again. -/
abbrev pageRounds : ℕ := 1048577

/-- The loop of `page_map_addr`. -/
def pageMapLoop (attr end_ : ℕ) : ℕ → Mm → ℕ → Option (Mm × ℤ)
  | 0, _, _ => none
  | rounds + 1, m, start =>
      if start < end_ then
        match pageAllocUser m with
        | none => none
        | some (m', pageAddr) =>
            if pageAddr = 0 then some (m', -1)
            else
              match pageLinkAddr m' start pageAddr attr with
              | none => none
              | some m'' => pageMapLoop attr end_ rounds m'' (add32 start pageSize)
      else some (m, 0)

/-- `page_map_addr`. -/
def pageMapAddr (m : Mm) (start len prot : ℕ) : Option (Mm × ℤ) :=
  pageMapLoop (pageAttrOf prot) (add32 (pageMask start) len) pageRounds m (pageMask start)

/-- The loop of `page_map_addr_fixed`. -/
def pageMapFixedLoop (prot end_ : ℕ) : ℕ → Mm → ℕ → ℕ → Option Mm
  | 0, _, _, _ => none
  | rounds + 1, m, first, pages =>
      if first < end_ then
        match if hasFlag prot protRemap then pageLinkAddrUnsafe m first pages (pageAttrOf prot)
          else pageLinkAddr m first pages (pageAttrOf prot) with
        | none => none
        | some m' => pageMapFixedLoop prot end_ rounds m' (add32 first pageSize)
            (add32 pages pageSize)
      else some m

/-- `page_map_addr_fixed`; it always returns zero. -/
def pageMapAddrFixed (m : Mm) (start addr len prot : ℕ) : Option Mm :=
  pageMapFixedLoop prot (add32 (pageMask start) (pageAlign len)) pageRounds m (pageMask start) addr

/-- The loop of `page_map_addr_safe`. -/
def pageMapSafeLoop (attr : ℕ) : ℕ → Mm → ℕ → Option (Mm × ℤ)
  | 0, m, _ => some (m, 0)
  | pages + 1, m, vaddr =>
      if m.present vaddr then pageMapSafeLoop attr pages m (add32 vaddr pageSize)
      else
        match pageAllocUser m with
        | none => none
        | some (m', pageAddr) =>
            if pageAddr = 0 then some (m', -1)
            else
              match pageLinkAddr m' vaddr pageAddr attr with
              | none => none
              | some m'' => pageMapSafeLoop attr pages m'' (add32 vaddr pageSize)

/-- `page_map_addr_safe`. -/
def pageMapAddrSafe (m : Mm) (start len prot : ℕ) : Option (Mm × ℤ) :=
  pageMapSafeLoop (pageAttrOfSafe prot) (pageAlign len / pageSize) m (pageMask start)

/-- `is_page_table_empty`, for the table of `vaddr`. -/
def isPageTableEmpty (m : Mm) (vaddr : ℕ) : Bool :=
  (List.range 1024).all fun j => !hasFlag (m.entry (dirIdx vaddr * 4194304 + j * 4096))
    pageAttrPresent

/-- The body of the inner loop of `page_unmap_addr_safe`: one page. -/
def pageUnmapPage (m : Mm) (vaddr : ℕ) (fixed : Bool) : Option Mm :=
  if hasFlag (m.entry vaddr) pageAttrPresent then
    (if fixed then some m else pageFree m (addrVir2Phy m vaddr)).map fun m' =>
      m'.setEntry vaddr (clearPresent (m.entry vaddr))
  else some m

/-- The end of `page_unmap_addr_safe`: a table that has become empty is freed. -/
def pageUnmapTable (m : Mm) (vaddr : ℕ) : Option Mm :=
  if isPageTableEmpty m vaddr then
    (pageFree m (pageMask (m.pde (dirIdx vaddr)))).map fun m' =>
      { m' with pde := Function.update m'.pde (dirIdx vaddr) (clearPresent (m.pde (dirIdx vaddr))) }
  else some m

/-- The loops of `page_unmap_addr_safe`. -/
def pageUnmapLoop (fixed : Bool) : ℕ → Mm → ℕ → Option Mm
  | 0, m, _ => some m
  | pages + 1, m, vaddr =>
      if hasFlag (m.pde (dirIdx vaddr)) pageAttrPresent then
        match pageUnmapPage m vaddr fixed with
        | none => none
        | some m' =>
            if pages = 0 then pageUnmapTable m' vaddr
            else pageUnmapLoop fixed pages m' (add32 vaddr pageSize)
      else pageUnmapLoop fixed pages m (add32 vaddr pageSize)

/-- `page_unmap_addr_safe`; it always returns zero. -/
def pageUnmapAddrSafe (m : Mm) (start len : ℕ) (fixed : Bool) : Option Mm :=
  pageUnmapLoop fixed (pageAlign len / pageSize) m (pageMask start)

end LightOS
