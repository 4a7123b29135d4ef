import LightOS.Mm.Params
import LightOS.Lib.Tiling

/-!
# The physical page pool: the model

`arch/x86/mach-i386/mm/mempool.c` keeps the physical pages of each of three
memory ranges in twelve *sections*.  Section `i` owns a list of free blocks of
`2 ^ i` pages; a block is named by the node of its first page in the range's
node table.  An allocation takes the first free block of the smallest section
that is large enough, splitting blocks of larger sections when that section is
empty; a free puts the block back.  Blocks are split and never joined.

Pointers into the node table are page indices, pointers to a section are its
index in the range, and the intrusive free lists are lists of page indices in
list order.  The node table comes from `boot_mem_alloc`, which hands out memory
as it finds it, so its initial contents are a parameter.  A call that panics
returns `none`.
-/

namespace LightOS
namespace MemPool

open Tiling

/-- `MEM_SECTION_MAX_NR`. -/
abbrev memSectionMaxNr : ℕ := 12

/-- `MEM_SECTION_MAX_SIZE`. -/
abbrev memSectionMaxSize : ℕ := 2048

/-- The indices of `mem_ranges`. -/
inductive MemRangeIdx where
  | dma
  | normal
  | user
  deriving DecidableEq, Repr

/-- `mem_node_t`: what is known about one physical page.  The link of the free
list is not a field here, it is the node's place in a section's list. -/
structure MemNode where
  count : ℕ
  reference : ℕ
  memSection : Option ℕ
  cache : Option ℕ
  group : Option ℕ

/-- `mem_section_t`. -/
structure MemSection where
  freeList : List ℕ
  nodeCount : ℕ
  sectionSize : ℕ

/-- `mem_range_t`. -/
structure MemRange where
  start : ℕ
  end_ : ℕ
  pages : ℕ
  sections : ℕ → MemSection
  nodeTable : ℕ → MemNode

/-- The three ranges, `mem_ranges`. -/
abbrev MemRanges := MemRangeIdx → MemRange

/-- Write one section of the range. -/
def MemRange.setSection (r : MemRange) (i : ℕ) (s : MemSection) : MemRange :=
  { r with sections := Function.update r.sections i s }

/-- Write one node of the node table. -/
def MemRange.setNode (r : MemRange) (n : ℕ) (x : MemNode) : MemRange :=
  { r with nodeTable := Function.update r.nodeTable n x }

/-! ## Setting up a range -/

/-- `mem_node_init`. -/
def memNodeInit (ref size : ℕ) : MemNode :=
  { count := size, reference := ref, memSection := none, cache := none, group := none }

/-- `mem_section_init`. -/
def memSectionInit (size : ℕ) : MemSection :=
  { freeList := [], nodeCount := 0, sectionSize := size }

/-- The loop of `mem_section_setup`, after `k` rounds: node after node is
initialised, linked at the tail of the section's list and marked. -/
def memSectionSetupLoop (r : MemRange) (i nodeBase : ℕ) : ℕ → MemRange
  | 0 => r
  | k + 1 =>
      let r' := memSectionSetupLoop r i nodeBase k
      let next := nodeBase + k * (r'.sections i).sectionSize
      (r'.setNode next { memNodeInit 0 0 with memSection := some i }).setSection i
        { r'.sections i with freeList := (r'.sections i).freeList ++ [next] }

/-- `mem_section_setup`. -/
def memSectionSetup (r : MemRange) (i nodeBase sectionCount : ℕ) : MemRange :=
  memSectionSetupLoop (r.setSection i { r.sections i with nodeCount := sectionCount })
    i nodeBase sectionCount

/-- The loop of `mem_range_init`.  The first argument is `section_off + 1`; at
zero the assertion of the loop body would fail, which
`memRangeInitLoop_tiles` rules out. -/
def memRangeInitLoop : ℕ → ℕ → ℕ → MemRange → MemRange
  | 0, _, _, r => r
  | off + 1, pages, nodeBase, r =>
      if 0 < pages then
        let size := 2 ^ off
        let big := pages / size
        let small := pages % size
        if 0 < big then
          memRangeInitLoop off (pages - big * size) (nodeBase + big * size)
            (memSectionSetup r off nodeBase big)
        else if 0 < small then
          -- everything left goes to the section of single pages
          memSectionSetup r 0 nodeBase small
        else memRangeInitLoop off pages nodeBase r
      else r

/-- `mem_range_init`, on a node table with the contents `boot`. -/
def memRangeInit (boot : ℕ → MemNode) (start len : ℕ) : MemRange :=
  memRangeInitLoop memSectionMaxNr (len / pageSize) 0
    { start := start, end_ := start + len, pages := len / pageSize
      sections := fun i => memSectionInit (2 ^ i), nodeTable := boot }

/-! ## Splitting, allocating and freeing in one range -/

/-- The search of `mem_range_split_section`: the first section above `s` with a
free block. -/
def memRangeNextFree (r : MemRange) (s : ℕ) : Option ℕ :=
  (List.range' (s + 1) (memSectionMaxNr - 1 - s)).find? fun t => !(r.sections t).freeList.isEmpty

/-- One round of `mem_range_split_section`: the first block of section `t` is cut
in two, and both halves go to the front of the section below. -/
def memRangeSplitOnce (r : MemRange) (t : ℕ) : MemRange :=
  match (r.sections t).freeList with
  | [] => r
  | node :: rest =>
      let half := (r.sections t).sectionSize / 2
      let below := r.sections (t - 1)
      (((r.setSection t { r.sections t with
            freeList := rest, nodeCount := (r.sections t).nodeCount - 1 }).setNode node
          { memNodeInit 1 half with memSection := some (t - 1) }).setNode (node + half)
          { memNodeInit 1 half with memSection := some (t - 1) }).setSection (t - 1)
        { below with
          freeList := (node + half) :: node :: below.freeList, nodeCount := below.nodeCount + 2 }

/-- `mem_range_split_section`, with a bound on the depth of its recursion; `none`
is a recursion deeper than the bound (see `memRangeSplitSection_keeps`). -/
def memRangeSplitSection : ℕ → MemRange → ℕ → Option (MemRange × ℤ)
  | 0, _, _ => none
  | fuel + 1, r, s =>
      if !(r.sections s).freeList.isEmpty then some (r, 0)
      else
        match memRangeNextFree r s with
        | none => some (r, -1)
        | some t => memRangeSplitSection fuel (memRangeSplitOnce r t) s

/-- The section `mem_node_alloc_pages` picks: the first one whose blocks are
large enough, the last one if none is. -/
def memRangeSectionFor (r : MemRange) (count : ℕ) : ℕ :=
  ((List.range memSectionMaxNr).find? fun i => decide (count ≤ (r.sections i).sectionSize)).getD
    (memSectionMaxNr - 1)

/-- The tail of `mem_node_alloc_pages`: take the first block of section `i`.  The
result is its physical address. -/
def memRangeTakeFirst (r : MemRange) (i count : ℕ) : MemRange × ℕ :=
  match (r.sections i).freeList with
  | [] => (r, 0)
  | node :: rest =>
      (((r.setSection i { r.sections i with
            freeList := rest, nodeCount := (r.sections i).nodeCount - 1 }).setNode node
          { memNodeInit 1 count with memSection := some i }), node * pageSize + r.start)

/-- `mem_node_alloc_pages` once the range is chosen. -/
def memRangeAllocPages (r : MemRange) (count : ℕ) : Option (MemRange × ℕ) :=
  let i := memRangeSectionFor r count
  if (r.sections i).freeList.isEmpty then
    if (r.sections i).sectionSize = memSectionMaxSize then some (r, 0)
    else
      match memRangeSplitSection memSectionMaxNr r i with
      | none => none
      | some (r', ret) => if ret < 0 then some (r', 0) else some (memRangeTakeFirst r' i count)
  else some (memRangeTakeFirst r i count)

/-- The index `phy_addr_to_mem_node` computes inside the range of `addr`. -/
def MemRange.nodeOf (r : MemRange) (addr : ℕ) : ℕ := (addr - r.start) / pageSize

/-- `mem_node_free_pages` once the range is found. -/
def memRangeFreePages (r : MemRange) (addr : ℕ) : MemRange × ℤ :=
  let node := r.nodeOf addr
  match (r.nodeTable node).memSection with
  | none => (r, -1)
  | some i =>
      if node ∈ (r.sections i).freeList then (r, -1)
      else
        ((r.setNode node (memNodeInit 0 0)).setSection i
          { r.sections i with
            freeList := node :: (r.sections i).freeList
            nodeCount := (r.sections i).nodeCount + 1 }, 0)

/-! ## The pool -/

/-- `MEM_NODE_TYPE_DMA`. -/
abbrev memNodeTypeDma : ℕ := 1

/-- `MEM_NODE_TYPE_NORMAL`. -/
abbrev memNodeTypeNormal : ℕ := 2

/-- `MEM_NODE_TYPE_USER`. -/
abbrev memNodeTypeUser : ℕ := 4

/-- The range the flags of an allocation select. -/
def memRangeOfFlags (flags : ℕ) : Option MemRangeIdx :=
  if flags &&& memNodeTypeDma ≠ 0 then some .dma
  else if flags &&& memNodeTypeNormal ≠ 0 then some .normal
  else if flags &&& memNodeTypeUser ≠ 0 then some .user
  else none

/-- `mem_range_get_by_phy_addr`: the first range the address lies in; the kernel
panics when there is none. -/
def memRangeGetByPhyAddr (p : MemRanges) (addr : ℕ) : Option MemRangeIdx :=
  [MemRangeIdx.dma, .normal, .user].find? fun id =>
    decide ((p id).start ≤ addr ∧ addr < (p id).end_)

/-- `mem_node_alloc_pages`: the new pool and the physical address, zero on
failure. -/
def memNodeAllocPages (p : MemRanges) (count flags : ℕ) : Option (MemRanges × ℕ) :=
  if count = 0 then some (p, 0)
  else if memSectionMaxSize < count then some (p, 0)
  else
    match memRangeOfFlags flags with
    | none => none
    | some id => (memRangeAllocPages (p id) count).map fun ra => (Function.update p id ra.1, ra.2)

/-- `mem_node_free_pages`, for an address in a whole page of a range.  Behind the last one the
index is past the node table and the code reads what lies there: `PhysMem.memNodeFreeAt` has
the addresses of the tables and follows it. -/
def memNodeFreePages (p : MemRanges) (addr : ℕ) : Option (MemRanges × ℤ) :=
  if addr = 0 then some (p, -1)
  else
    match memRangeGetByPhyAddr p addr with
    | none => none
    | some id =>
        some (Function.update p id (memRangeFreePages (p id) addr).1,
          (memRangeFreePages (p id) addr).2)

/-! ## The section of a request -/

/-- The smallest section whose blocks hold `count` pages. -/
def orderOf (count : ℕ) : ℕ :=
  ((List.range memSectionMaxNr).find? fun i => decide (count ≤ 2 ^ i)).getD (memSectionMaxNr - 1)

theorem orderOf_lt (count : ℕ) : orderOf count < memSectionMaxNr := by
  unfold orderOf
  cases h : (List.range memSectionMaxNr).find? fun i => decide (count ≤ 2 ^ i) with
  | none => decide
  | some i => exact List.mem_range.1 (List.mem_of_find?_eq_some h)

/-- Blocks of the section of a request hold the request. -/
theorem le_two_pow_orderOf {count : ℕ} (h : count ≤ memSectionMaxSize) :
    count ≤ 2 ^ orderOf count := by
  unfold orderOf
  cases hf : (List.range memSectionMaxNr).find? fun i => decide (count ≤ 2 ^ i) with
  | none => exact h
  | some i => simpa using List.find?_some hf

theorem memRangeSectionFor_eq {r : MemRange}
    (hsize : ∀ i < memSectionMaxNr, (r.sections i).sectionSize = 2 ^ i) (count : ℕ) :
    memRangeSectionFor r count = orderOf count := by
  unfold memRangeSectionFor orderOf
  congr 1
  refine List.find?_congr fun i hi => ?_
  rw [hsize i (List.mem_range.1 hi)]

/-! ## Field lemmas -/

section Fields

variable (r : MemRange) (i n : ℕ) (s : MemSection) (x : MemNode)

@[simp] theorem setSection_sections_self : (r.setSection i s).sections i = s :=
  Function.update_self ..

theorem setSection_sections_of_ne {j : ℕ} (h : j ≠ i) :
    (r.setSection i s).sections j = r.sections j :=
  Function.update_of_ne h ..

@[simp] theorem setSection_nodeTable : (r.setSection i s).nodeTable = r.nodeTable := rfl
@[simp] theorem setSection_pages : (r.setSection i s).pages = r.pages := rfl
@[simp] theorem setSection_start : (r.setSection i s).start = r.start := rfl
@[simp] theorem setSection_end : (r.setSection i s).end_ = r.end_ := rfl

@[simp] theorem setNode_nodeTable_self : (r.setNode n x).nodeTable n = x :=
  Function.update_self ..

theorem setNode_nodeTable_of_ne {m : ℕ} (h : m ≠ n) :
    (r.setNode n x).nodeTable m = r.nodeTable m :=
  Function.update_of_ne h ..

@[simp] theorem setNode_sections : (r.setNode n x).sections = r.sections := rfl
@[simp] theorem setNode_pages : (r.setNode n x).pages = r.pages := rfl
@[simp] theorem setNode_start : (r.setNode n x).start = r.start := rfl
@[simp] theorem setNode_end : (r.setNode n x).end_ = r.end_ := rfl

end Fields

end MemPool
end LightOS
