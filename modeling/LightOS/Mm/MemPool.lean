import LightOS.Mm.MemPoolRange
import LightOS.Lib.Run

/-!
# The physical page pool: main results

Runs of `mem_node_alloc_pages` and `mem_node_free_pages` over the three memory
ranges.  A run keeps a ledger of what the callers hold: an allocation that
returns a non-zero address enters it, a free that returns zero leaves it.

* `poolInv_step` — every call keeps the invariant of the ranges.
* `tiled_of_inv` — in a state with the invariant the free blocks and the blocks of the
  ledger partition the pages of each range.
* `memNodeAllocPages_spec` — what an allocation does in a state that satisfies the
  invariant; in particular it comes back.
-/

namespace LightOS
namespace MemPool

open Tiling

/-! ## Layouts and runs -/

/-- Where the ranges lie, as `physic_memory_init` passes it to `mem_range_init`:
above address zero, inside the 32-bit address space, apart from each other. -/
structure PoolLayout where
  start : MemRangeIdx → ℕ
  len : MemRangeIdx → ℕ
  start_pos : ∀ id, 0 < start id
  fits : ∀ id, start id + len id ≤ wordSize
  apart : ∀ id id', id ≠ id' → start id + len id ≤ start id' ∨ start id' + len id' ≤ start id

/-- The pool right after `mem_range_init` of each range. -/
def PoolLayout.ranges (L : PoolLayout) (boot : MemRangeIdx → ℕ → MemNode) : MemRanges :=
  fun id => memRangeInit (boot id) (L.start id) (L.len id)

/-- The pool and, for each range, the allocations its callers hold. -/
structure PoolState where
  ranges : MemRanges
  live : MemRangeIdx → List LiveAlloc

/-- The two calls. -/
inductive PoolCall where
  | alloc (count flags : ℕ)
  | free (addr : ℕ)

/-- One call.  The ledger is kept from what the call returns alone. -/
def poolStep (s : PoolState) : PoolCall → Option PoolState
  | .alloc count flags =>
      match memNodeAllocPages s.ranges count flags with
      | none => none
      | some (p, addr) =>
          if addr = 0 then some ⟨p, s.live⟩
          else
            (memRangeGetByPhyAddr p addr).map fun id =>
              ⟨p, Function.update s.live id (⟨(p id).nodeOf addr, count⟩ :: s.live id)⟩
  | .free addr =>
      match memNodeFreePages s.ranges addr with
      | none => none
      | some (p, ret) =>
          if ret ≠ 0 then some ⟨p, s.live⟩
          else
            (memRangeGetByPhyAddr s.ranges addr).map fun id =>
              ⟨p, Function.update s.live id (dropNode (s.live id) ((s.ranges id).nodeOf addr))⟩

/-- A pool as it is set up, with nothing allocated. -/
def PoolLayout.init (L : PoolLayout) (boot : MemRangeIdx → ℕ → MemNode) : PoolState :=
  ⟨L.ranges boot, fun _ => []⟩

/-- A free is made of a page whose node was clear at boot, or of a page that is
the first of some block.  Allocations are unrestricted. -/
def FreeKnown (boot : MemRangeIdx → ℕ → MemNode) (s : PoolState) : PoolCall → Prop
  | .alloc _ _ => True
  | .free addr => ∀ id, memRangeGetByPhyAddr s.ranges addr = some id →
      (s.ranges id).Known (boot id) (s.live id) ((s.ranges id).nodeOf addr)

/-! ## The invariant of the pool -/

/-- Every range keeps its invariant and its place. -/
def PoolInv (L : PoolLayout) (boot : MemRangeIdx → ℕ → MemNode) (s : PoolState) : Prop :=
  ∀ id, (s.ranges id).Inv (boot id) (s.live id) ∧ (s.ranges id).start = L.start id ∧
    (s.ranges id).end_ = L.start id + L.len id ∧ (s.ranges id).pages = L.len id / pageSize

theorem poolInv_init (L : PoolLayout) (boot : MemRangeIdx → ℕ → MemNode) :
    PoolInv L boot (L.init boot) := fun id => memRangeInit_inv (boot id) (L.start id) (L.len id)

/-- An address inside a range is looked up in that range. -/
theorem memRangeGetByPhyAddr_eq {L : PoolLayout} {p : MemRanges}
    (hstart : ∀ id, (p id).start = L.start id)
    (hend : ∀ id, (p id).end_ = L.start id + L.len id) {addr : ℕ} {id : MemRangeIdx}
    (hlo : L.start id ≤ addr) (hhi : addr < L.start id + L.len id) :
    memRangeGetByPhyAddr p addr = some id := by
  have huniq : ∀ id', decide ((p id').start ≤ addr ∧ addr < (p id').end_) = true → id' = id := by
    intro id' h
    by_contra hne
    rw [decide_eq_true_eq, hstart, hend] at h
    rcases L.apart id' id hne with h' | h'
    · omega
    · omega
  cases hf : memRangeGetByPhyAddr p addr with
  | none =>
      have := List.find?_eq_none.1 hf id (by cases id <;> simp)
      rw [decide_eq_true_eq, hstart, hend] at this
      exact absurd ⟨hlo, hhi⟩ this
  | some id' =>
      have := List.find?_some hf
      rw [huniq id' this]

/-- Replacing one range and its ledger by a pair that satisfies the invariant. -/
theorem poolInv_update {L : PoolLayout} {boot : MemRangeIdx → ℕ → MemNode} {s : PoolState}
    (h : PoolInv L boot s) {id : MemRangeIdx} {r : MemRange} {live : List LiveAlloc}
    (hinv : r.Inv (boot id) live) (hstart : r.start = (s.ranges id).start)
    (hend : r.end_ = (s.ranges id).end_) (hpages : r.pages = (s.ranges id).pages) :
    PoolInv L boot ⟨Function.update s.ranges id r, Function.update s.live id live⟩ := by
  intro id'
  by_cases hid : id' = id
  · subst hid
    simp only [Function.update_self]
    obtain ⟨-, hs, he, hp⟩ := h id'
    exact ⟨hinv, hstart.trans hs, hend.trans he, hpages.trans hp⟩
  · simp only [Function.update_of_ne hid]
    exact h id'

/-- The address of a live block lies in its range, and its page is the first of
the block. -/
theorem live_addr (L : PoolLayout) (id : MemRangeIdx) {boot : ℕ → MemNode} {r : MemRange}
    {node count : ℕ} {live : List LiveAlloc} (h : r.Inv boot (⟨node, count⟩ :: live))
    (hstart : r.start = L.start id) (hpages : r.pages = L.len id / pageSize) :
    L.start id ≤ node * pageSize + r.start ∧
      node * pageSize + r.start < L.start id + L.len id ∧
      r.nodeOf (node * pageSize + r.start) = node := by
  have hmem : (⟨node, 2 ^ orderOf count⟩ : Block) ∈ r.blocks (⟨node, count⟩ :: live) :=
    mem_blocks.2 (Or.inr ⟨⟨node, count⟩, by simp, rfl⟩)
  have hle : node + 2 ^ orderOf count ≤ r.pages := h.tiles.end_le hmem (Nat.two_pow_pos _)
  have hpow := Nat.two_pow_pos (orderOf count)
  simp only [hpages, pageSize] at hle ⊢
  refine ⟨by omega, by omega, ?_⟩
  · rw [MemRange.nodeOf, Nat.add_sub_cancel, Nat.mul_div_cancel _ (by norm_num)]

/-- **An allocation from a known range comes back.**  It either leaves the pool
alone and returns zero, or returns the address of a block that has become live. -/
theorem memNodeAllocPages_spec {L : PoolLayout} {boot : MemRangeIdx → ℕ → MemNode}
    {s : PoolState} (h : PoolInv L boot s) (count : ℕ) {flags : ℕ} {id : MemRangeIdx}
    (hid : memRangeOfFlags flags = some id) :
    memNodeAllocPages s.ranges count flags = some (s.ranges, 0) ∨
      ∃ r node, memNodeAllocPages s.ranges count flags =
          some (Function.update s.ranges id r, node * pageSize + r.start) ∧
        0 < count ∧ count ≤ memSectionMaxSize ∧
        r.Inv (boot id) (⟨node, count⟩ :: s.live id) ∧ r.start = (s.ranges id).start ∧
        r.end_ = (s.ranges id).end_ ∧ r.pages = (s.ranges id).pages := by
  unfold memNodeAllocPages
  by_cases hzero : count = 0
  · exact Or.inl (if_pos hzero)
  · rw [if_neg hzero]
    by_cases hbig : memSectionMaxSize < count
    · exact Or.inl (if_pos hbig)
    · rw [if_neg hbig, hid]
      simp only
      rcases memRangeAllocPages_spec (h id).1 (Nat.pos_of_ne_zero hzero) (not_lt.1 hbig) with
        hfail | ⟨r, node, hok, hinv, hstart, hend, hpages⟩
      · left
        rw [hfail]
        simp
      · refine Or.inr ⟨r, node, ?_, Nat.pos_of_ne_zero hzero, not_lt.1 hbig, hinv, hstart, hend,
          hpages⟩
        rw [hok, hstart]
        rfl

theorem poolInv_step {L : PoolLayout} {boot : MemRangeIdx → ℕ → MemNode} (s : PoolState)
    (call : PoolCall) (s' : PoolState) (h : PoolInv L boot s) (hknown : FreeKnown boot s call)
    (hstep : poolStep s call = some s') : PoolInv L boot s' := by
  cases call with
  | alloc count flags =>
      simp only [poolStep] at hstep
      cases hid : memRangeOfFlags flags with
      | none =>
          -- no range: the call panics unless the request is refused before
          unfold memNodeAllocPages at hstep
          by_cases hzero : count = 0
          · simp only [if_pos hzero] at hstep
            cases hstep
            exact h
          · by_cases hbig : memSectionMaxSize < count
            · simp only [if_neg hzero, if_pos hbig] at hstep
              cases hstep
              exact h
            · simp [if_neg hzero, if_neg hbig, hid] at hstep
      | some id =>
          rcases memNodeAllocPages_spec h count hid with
            hfail | ⟨r, node, hok, -, -, hinv, hstart, hend, hpages⟩
          · rw [hfail] at hstep
            simp only [if_pos] at hstep
            cases hstep
            exact h
          · obtain ⟨-, hs, -, hp⟩ := h id
            obtain ⟨hlo, hhi, hnode⟩ :=
              live_addr L id hinv (hstart.trans hs) (hpages.trans hp)
            have hnz : node * pageSize + r.start ≠ 0 := by
              have := L.start_pos id
              omega
            have hinv' := poolInv_update h hinv hstart hend hpages
            have hget : memRangeGetByPhyAddr (Function.update s.ranges id r)
                (node * pageSize + r.start) = some id :=
              memRangeGetByPhyAddr_eq (fun j => (hinv' j).2.1) (fun j => (hinv' j).2.2.1) hlo hhi
            rw [hok] at hstep
            simp only [if_neg hnz, hget, Option.map_some, Function.update_self, hnode] at hstep
            cases hstep
            exact hinv'
  | free addr =>
      simp only [poolStep, memNodeFreePages] at hstep
      by_cases hzero : addr = 0
      · rw [if_pos hzero] at hstep
        simp only [ne_eq, reduceCtorEq, not_false_eq_true, if_true] at hstep
        cases hstep
        exact h
      · rw [if_neg hzero] at hstep
        cases hget : memRangeGetByPhyAddr s.ranges addr with
        | none => simp [hget] at hstep
        | some id =>
            simp only [hget] at hstep
            rcases memRangeFreePages_spec (h id).1 (hknown id hget) with
              hfail | ⟨r, hok, -, hinv, hstart, hend, hpages⟩
            · rw [hfail] at hstep
              simp only [Function.update_eq_self] at hstep
              rw [if_pos (by decide)] at hstep
              cases hstep
              exact h
            · rw [hok] at hstep
              simp only [ne_eq, not_true_eq_false, if_false, Option.map_some] at hstep
              cases hstep
              exact poolInv_update h hinv hstart hend hpages

/-! ## What the invariant says to the callers -/

/-- The free pages `mem_get_free_page_nr` counts in one range. -/
def MemRange.freePageNr (r : MemRange) : ℕ :=
  ((List.range memSectionMaxNr).map fun i =>
    (r.sections i).nodeCount * (r.sections i).sectionSize).sum

/-- The free blocks and the blocks of the live allocations partition the page
indices `0, …, pages - 1`, and the books are right. -/
structure MemRange.Tiled (r : MemRange) (live : List LiveAlloc) (pages : ℕ) : Prop where
  /-- Blocks are pairwise disjoint. -/
  disjoint : (r.blocks live).Pairwise Block.Disjoint
  /-- Together they are exactly the pages of the range. -/
  covers : ∀ p, p < pages ↔ ∃ b ∈ r.blocks live, b.Has p
  /-- A block of section `i` is `2 ^ i` pages long. -/
  sectionSize : ∀ i < memSectionMaxNr, (r.sections i).sectionSize = 2 ^ i
  /-- So is the block of an allocation that came from section `i`. -/
  liveSize : ∀ a ∈ live, ∃ i < memSectionMaxNr,
    (r.nodeTable a.node).memSection = some i ∧ a.block = ⟨a.node, 2 ^ i⟩
  /-- The counter of a section is the length of its free list. -/
  nodeCount : ∀ i < memSectionMaxNr, (r.sections i).nodeCount = (r.sections i).freeList.length
  /-- No page is lost and none is counted twice. -/
  total : r.freePageNr + (live.map fun a => (r.sections (orderOf a.count)).sectionSize).sum = pages
  /-- No two live allocations share a page. -/
  liveDisjoint : (live.map LiveAlloc.block).Pairwise Block.Disjoint
  /-- An allocation spans what was asked for. -/
  span : ∀ a ∈ live, a.count ≤ a.block.size

theorem sum_freeBlocks {boot : ℕ → MemNode} {r : MemRange} {live : List LiveAlloc}
    (h : r.Inv boot live) : (r.freeBlocks.map Block.size).sum = r.freePageNr := by
  rw [MemRange.freeBlocks, MemRange.freePageNr, List.map_flatMap, List.flatMap, List.sum_flatten,
    List.map_map]
  congr 1
  apply List.map_congr_left
  intro i hi
  have hi' := List.mem_range.1 hi
  rw [h.count i hi', h.size i hi']
  simp [MemRange.sectionBlocks, List.map_const', Function.comp_def]

theorem tiled_of_inv {boot : ℕ → MemNode} {r : MemRange} {live : List LiveAlloc}
    (h : r.Inv boot live) : r.Tiled live r.pages := by
  refine ⟨h.tiles.pairwise_disjoint, h.tiles.mem_iff, h.size, ?_, h.count, ?_, ?_, ?_⟩
  · intro a ha
    exact ⟨orderOf a.count, orderOf_lt _, h.liveNode a ha, rfl⟩
  · have hsum := h.tiles.sum_size fun b hb => size_pos_of_mem_blocks hb
    rw [MemRange.blocks, List.map_append, List.sum_append, sum_freeBlocks h] at hsum
    rw [← hsum, List.map_map]
    congr 2
    apply List.map_congr_left
    intro a _
    exact h.size _ (orderOf_lt _)
  · exact (List.pairwise_append.1 h.tiles.pairwise_disjoint).2.1
  · intro a ha
    exact le_two_pow_orderOf (h.liveCount a ha).2

/-- On a node table that is handed out clear, any address may be freed. -/
theorem freeKnown_of_clear {boot : MemRangeIdx → ℕ → MemNode}
    (h : ∀ id n, (boot id n).memSection = none) (s : PoolState) (call : PoolCall) :
    FreeKnown boot s call := by
  cases call with
  | alloc count flags => trivial
  | free addr => exact fun id _ => Or.inl (h id _)

/-- A small machine: the 8 MB of DMA memory every machine has, 12 MB of kernel
memory and three pages of user memory. -/
def smallLayout : PoolLayout where
  start
    | .dma => 8388608
    | .normal => 50331648
    | .user => 67108864
  len
    | .dma => 8388608
    | .normal => 12582912
    | .user => 12288
  start_pos := by intro id; cases id <;> decide
  fits := by intro id; cases id <;> decide
  apart := by
    intro id id' h
    cases id <;> cases id' <;> first | exact absurd rfl h | decide

/-- Memory that reads as zero. -/
def clearBoot : MemRangeIdx → ℕ → MemNode := fun _ _ => memNodeInit 0 0

end MemPool
end LightOS
