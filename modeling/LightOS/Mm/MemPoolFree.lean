import LightOS.Mm.PhysMem

/-!
# The physical page pool: freeing what is not allocated

`mem_node_free_pages` finds the node of an address and decides by two tests whether its block
is allocated: the node points to a section, and it is not on the free list of that section.
On node tables that start out clear the tests are right for every node, through all the
different ways in which setting up, splitting, allocating and freeing write the pointer.

They are made of the node the address leads to, and that need not be a node of the address's
range.  A range counts whole pages, its end does not, so an address in the part of a page at
the end of a range leads one node beyond the table; where the tables touch, that is the first
node of the next table, and the block of another range is freed.

* `memRangeFreeNode_live`, `memRangeFreeNode_dead` — the tests are right.
* `memInv_step` — the pool keeps its invariant under frees of any addresses.
* `memPool_tiled` — on boot memory with any contents the blocks partition the pages of each
  range, in every run that frees through known nodes only.
* `memNodeFree_iff` — an address in a range is freed as it should be exactly when it does not
  lead to an allocated block behind the table of its range.
-/

namespace LightOS
namespace PhysMem

open MemPool

/-! ## Freeing through the node -/

/-- The end of `mem_node_free_pages`: the block of the node goes to the front of the list of
its section. -/
def memRangePutBack (r : MemRange) (node i : ℕ) : MemRange :=
  (r.setNode node (memNodeInit 0 0)).setSection i
    { r.sections i with
      freeList := node :: (r.sections i).freeList
      nodeCount := (r.sections i).nodeCount + 1 }

/-- `mem_node_free_pages` once the node is found, in the range whose table holds it. -/
def memRangeFreeNode (r : MemRange) (node : ℕ) : MemRange × ℤ :=
  match (r.nodeTable node).memSection with
  | none => (r, -1)
  | some i => if node ∈ (r.sections i).freeList then (r, -1) else (memRangePutBack r node i, 0)

/-- The node at an address; `none` is an address beside the tables, where nothing was written. -/
def nodeAt (m : Memory) (node : ℕ) : Option (MemRangeIdx × ℕ) :=
  (memRangeGetByMemNode m node).map fun id => (id, (node - m.table id) / sizeofMemNode)

/-- `mem_node_free_pages`, through the address of the node; `none` is a panic.  The memory
beside the tables is as clear as the tables were, so a node there has no section. -/
def memNodeFreeAt (m : Memory) (addr : ℕ) : Option (Memory × ℤ) :=
  if addr = 0 then some (m, -1)
  else
    (phyAddrToNode m addr).map fun node =>
      match nodeAt m node with
      | none => (m, -1)
      | some (id, n) =>
          ({ m with ranges := Function.update m.ranges id (memRangeFreeNode (m.ranges id) n).1 },
            (memRangeFreeNode (m.ranges id) n).2)

/-- The memory, and for each range the blocks that were allocated and are not back on a list. -/
structure MemState where
  mem : Memory
  live : MemRangeIdx → List LiveAlloc

/-- The blocks in use once the block of a node is back on its list. -/
def MemState.released (s : MemState) (addr : ℕ) : MemRangeIdx → List LiveAlloc :=
  match (phyAddrToNode s.mem addr).bind (nodeAt s.mem) with
  | none => s.live
  | some (id, n) => Function.update s.live id (dropNode (s.live id) n)

/-- One call: an allocation, as before, or a free. -/
def memStep (s : MemState) : PoolCall → Option MemState
  | .alloc count flags =>
      (poolStep ⟨s.mem.ranges, s.live⟩ (.alloc count flags)).map fun p =>
        ⟨{ s.mem with ranges := p.ranges }, p.live⟩
  | .free addr =>
      (memNodeFreeAt s.mem addr).map fun mr =>
        if mr.2 = 0 then ⟨mr.1, s.released addr⟩ else ⟨mr.1, s.live⟩

/-! ## The tests are right -/

section Range

variable {boot : ℕ → MemNode} {r : MemRange} {live : List LiveAlloc}

/-- It is the function of the pool, at the page of the node. -/
theorem memRangeFreeNode_eq (r : MemRange) (n : ℕ) :
    memRangeFreeNode r n = memRangeFreePages r (n * pageSize + r.start) := by
  have hnode : r.nodeOf (n * pageSize + r.start) = n := by
    rw [MemRange.nodeOf, Nat.add_sub_cancel, Nat.mul_div_cancel _ (by norm_num)]
  unfold memRangeFreePages
  rw [hnode]
  rfl

/-- **The first page of an allocated block is freed**, into the section it was taken from. -/
theorem memRangeFreeNode_live (h : r.Inv boot live) {a : LiveAlloc} (ha : a ∈ live) :
    memRangeFreeNode r a.node = (memRangePutBack r a.node (memRangeSectionFor r a.count), 0) := by
  have hself : a.block.Has a.node := ⟨le_rfl, Nat.lt_add_of_pos_right (Nat.two_pow_pos _)⟩
  have hnot : a.node ∉ (r.sections (MemPool.orderOf a.count)).freeList := by
    intro hmem
    refine not_has_of_held h ⟨a, ha, hself⟩
      (mem_freeBlocks.2 ⟨_, orderOf_lt _, a.node, hmem, rfl⟩) ?_
    exact ⟨le_rfl, Nat.lt_add_of_pos_right (Nat.two_pow_pos _)⟩
  unfold memRangeFreeNode
  rw [h.liveNode a ha, memRangeSectionFor_eq h.size]
  exact if_neg hnot

/-- **No other page is freed**: neither a free block nor a page inside of a block. -/
theorem memRangeFreeNode_dead (h : r.Inv boot live) {n : ℕ}
    (hclear : (boot n).memSection = none) (hdead : ∀ a ∈ live, a.node ≠ n) :
    memRangeFreeNode r n = (r, -1) := by
  unfold memRangeFreeNode
  cases hmark : (r.nodeTable n).memSection with
  | none => rfl
  | some i =>
      refine if_pos ?_
      by_contra hnot
      obtain ⟨a, ha, hnode, -⟩ := live_of_marked h (Or.inl hclear) hmark hnot
      exact hdead a ha hnode

end Range

/-! ## Where an address leads -/

/-- The pool is in order and the tables are in their places. -/
def MemInv (L : TableLayout) (boot : MemRangeIdx → ℕ → MemNode) (s : MemState) : Prop :=
  PoolInv L.toPoolLayout boot ⟨s.mem.ranges, s.live⟩ ∧ s.mem.table = L.table

section Tables

variable {L : TableLayout} {boot : MemRangeIdx → ℕ → MemNode} {s : MemState}

theorem MemInv.range (h : MemInv L boot s) (id : MemRangeIdx) :
    (s.mem.ranges id).Inv (boot id) (s.live id) ∧ (s.mem.ranges id).start = L.start id ∧
      (s.mem.ranges id).end_ = L.start id + L.len id ∧
      (s.mem.ranges id).pages = L.len id / pageSize := h.1 id

/-- The node at an address that is the place of a node of a table. -/
theorem nodeAt_table (h : MemInv L boot s) {id : MemRangeIdx} {n : ℕ}
    (hn : n < L.len id / pageSize) :
    nodeAt s.mem (L.table id + n * sizeofMemNode) = some (id, n) := by
  have hlt : n * sizeofMemNode < L.len id / pageSize * sizeofMemNode :=
    Nat.mul_lt_mul_of_pos_right hn (by decide)
  have hfind := (L.memRangeGetByMemNode_iff h.2 (fun id => (h.range id).2.2.2) id
    (L.table id + n * sizeofMemNode)).2 ⟨Nat.le_add_right .., Nat.add_lt_add_left hlt _⟩
  unfold nodeAt
  rw [hfind, Option.map_some, h.2, Nat.add_sub_cancel_left, Nat.mul_div_cancel _ (by decide)]

/-- An address of a range leads to a node of its table, or one behind it. -/
theorem phyAddrToNode_eq (h : MemInv L boot s) {id : MemRangeIdx} {addr : ℕ}
    (hlo : (s.mem.ranges id).start ≤ addr) (hhi : addr < (s.mem.ranges id).end_) :
    addr ≠ 0 ∧ (s.mem.ranges id).nodeOf addr ≤ L.len id / pageSize ∧
      phyAddrToNode s.mem addr =
        some (L.table id + (s.mem.ranges id).nodeOf addr * sizeofMemNode) := by
  obtain ⟨-, hstart, hend, -⟩ := h.range id
  rw [hstart] at hlo
  rw [hend] at hhi
  have hget : memRangeGetByPhyAddr s.mem.ranges addr = some id :=
    memRangeGetByPhyAddr_eq (fun id => (h.range id).2.1) (fun id => (h.range id).2.2.1) hlo hhi
  have hpos := L.start_pos id
  have hzero : addr ≠ 0 := by omega
  have hle : (s.mem.ranges id).nodeOf addr ≤ L.len id / pageSize := by
    rw [MemRange.nodeOf, hstart]
    exact Nat.div_le_div_right (by omega)
  refine ⟨hzero, hle, ?_⟩
  unfold phyAddrToNode phyAddrToMemNode
  rw [if_neg hzero, if_neg hzero, hget, Option.map_some, Option.map_some, L.nodePtr_eq h.2 hle]

/-- The free of an address of a range, by the node it leads to. -/
theorem memNodeFreeAt_eq (h : MemInv L boot s) {id : MemRangeIdx} {addr : ℕ}
    (hlo : (s.mem.ranges id).start ≤ addr) (hhi : addr < (s.mem.ranges id).end_) :
    memNodeFreeAt s.mem addr = some
      (match nodeAt s.mem (L.table id + (s.mem.ranges id).nodeOf addr * sizeofMemNode) with
      | none => (s.mem, -1)
      | some (id', n) =>
          ({ s.mem with ranges :=
              Function.update s.mem.ranges id' (memRangeFreeNode (s.mem.ranges id') n).1 },
            (memRangeFreeNode (s.mem.ranges id') n).2)) := by
  obtain ⟨hzero, -, hnode⟩ := phyAddrToNode_eq h hlo hhi
  unfold memNodeFreeAt
  rw [if_neg hzero, hnode, Option.map_some]

/-! ## Runs -/

theorem memInv_alloc (h : MemInv L boot s) {count flags : ℕ} {s' : MemState}
    (hstep : memStep s (.alloc count flags) = some s') : MemInv L boot s' := by
  obtain ⟨p, hp, rfl⟩ := Option.map_eq_some_iff.1 hstep
  exact ⟨poolInv_step _ (.alloc count flags) p h.1 trivial hp, h.2⟩

/-- A known node whose block is not allocated is left alone, one whose block is allocated is
freed, and the ledger knows. -/
theorem memInv_freeNode (h : MemInv L boot s) {id : MemRangeIdx} {n : ℕ}
    (hknown : (s.mem.ranges id).Known (boot id) (s.live id) n) :
    memRangeFreeNode (s.mem.ranges id) n = (s.mem.ranges id, -1) ∨
      ∃ r', memRangeFreeNode (s.mem.ranges id) n = (r', 0) ∧
        MemInv L boot ⟨{ s.mem with ranges := Function.update s.mem.ranges id r' },
          Function.update s.live id (dropNode (s.live id) n)⟩ := by
  have hnode : (s.mem.ranges id).nodeOf (n * pageSize + (s.mem.ranges id).start) = n := by
    rw [MemRange.nodeOf, Nat.add_sub_cancel, Nat.mul_div_cancel _ (by norm_num)]
  rw [memRangeFreeNode_eq]
  rcases memRangeFreePages_spec (h.range id).1 (hnode.symm ▸ hknown) with
    hfail | ⟨r', hok, -, hinv, hstart, hend, hpages⟩
  · exact Or.inl hfail
  · rw [hnode] at hinv
    exact Or.inr ⟨r', hok, poolInv_update h.1 hinv hstart hend hpages, h.2⟩

theorem memInv_free (h : MemInv L boot s) {addr : ℕ} {s' : MemState}
    (hknown : ∀ id n, (phyAddrToNode s.mem addr).bind (nodeAt s.mem) = some (id, n) →
      (s.mem.ranges id).Known (boot id) (s.live id) n)
    (hstep : memStep s (.free addr) = some s') : MemInv L boot s' := by
  obtain ⟨⟨m', ret⟩, hfree, rfl⟩ := Option.map_eq_some_iff.1 hstep
  unfold memNodeFreeAt at hfree
  split_ifs at hfree with hzero
  · cases hfree
    rw [if_neg (show ¬ (-1 : ℤ) = 0 by decide)]
    exact h
  · obtain ⟨node, hnode, hresult⟩ := Option.map_eq_some_iff.1 hfree
    cases hat : nodeAt s.mem node with
    | none =>
        rw [hat] at hresult
        cases hresult
        rw [if_neg (show ¬ (-1 : ℤ) = 0 by decide)]
        exact h
    | some x =>
        obtain ⟨id, n⟩ := x
        simp only [hat] at hresult
        have hleads : (phyAddrToNode s.mem addr).bind (nodeAt s.mem) = some (id, n) := by
          rw [hnode, Option.bind_some, hat]
        rcases memInv_freeNode h (hknown id n hleads) with hfail | ⟨r', hok, hinv⟩
        · rw [hfail, Function.update_eq_self] at hresult
          cases hresult
          rw [if_neg (show ¬ (-1 : ℤ) = 0 by decide)]
          exact h
        · rw [hok] at hresult
          cases hresult
          have hreleased : s.released addr =
              Function.update s.live id (dropNode (s.live id) n) := by
            unfold MemState.released
            rw [hleads]
          rw [if_pos rfl, hreleased]
          exact hinv

/-- **On clear tables every call keeps the pool in order**, also a free of an address that
leads astray. -/
theorem memInv_step (s : MemState) (call : PoolCall) (s' : MemState) (h : MemInv L clearBoot s)
    (hstep : memStep s call = some s') : MemInv L clearBoot s' := by
  cases call with
  | alloc count flags => exact memInv_alloc h hstep
  | free addr => exact memInv_free h (fun _ _ _ => Or.inl rfl) hstep

end Tables

/-! ## Boot memory that is not clear -/

/-- A free through memory beside the tables in which `clear` finds something left. -/
def Strays (clear : ℕ → Bool) (s : MemState) : PoolCall → Bool
  | .alloc _ _ => false
  | .free addr => addr != 0 && (phyAddrToNode s.mem addr).any fun node =>
      (nodeAt s.mem node).isNone && !clear node

/-- One call on boot memory as it was found.  `clear` tells where the memory beside the tables
reads as a node without a section; elsewhere the code writes through what it finds there, and
the model stops. -/
def bootStep (clear : ℕ → Bool) (s : MemState) (call : PoolCall) : Option MemState :=
  if Strays clear s call then none else memStep s call

/-- A free is made through clear memory beside the tables, or through a node that had no
section before boot or is the first of a block.  Allocations are unrestricted. -/
def NodeKnown (boot : MemRangeIdx → ℕ → MemNode) (clear : ℕ → Bool) (s : MemState)
    (call : PoolCall) : Prop :=
  Strays clear s call = false ∧ ∀ addr, call = .free addr → ∀ id n,
    (phyAddrToNode s.mem addr).bind (nodeAt s.mem) = some (id, n) →
      (s.mem.ranges id).Known (boot id) (s.live id) n

/-- The memory as it is set up, on node tables that hold `boot`. -/
def TableLayout.SetUpOn (L : TableLayout) (boot : MemRangeIdx → ℕ → MemNode) (m : Memory) : Prop :=
  m.ranges = L.ranges boot ∧ m.table = L.table

theorem memInv_setUp {L : TableLayout} {boot : MemRangeIdx → ℕ → MemNode} {m : Memory}
    (hup : L.SetUpOn boot m) : MemInv L boot ⟨m, fun _ => []⟩ := by
  refine ⟨?_, hup.2⟩
  rw [hup.1]
  exact poolInv_init L.toPoolLayout boot

theorem memInv_bootStep {L : TableLayout} {boot : MemRangeIdx → ℕ → MemNode} {clear : ℕ → Bool}
    (s : MemState) (call : PoolCall) (s' : MemState) (h : MemInv L boot s)
    (hknown : NodeKnown boot clear s call) (hstep : bootStep clear s call = some s') :
    MemInv L boot s' := by
  unfold bootStep at hstep
  rw [hknown.1, if_neg Bool.false_ne_true] at hstep
  cases call with
  | alloc count flags => exact memInv_alloc h hstep
  | free addr => exact memInv_free h (hknown.2 addr rfl) hstep

/-- **The pool is tiled.**  Whatever the lengths of the ranges, whatever the boot memory of the
node tables held and whatever calls were made, the free blocks and the blocks of the live
allocations partition each range, as long as no block is freed through a node that boot left
with a section and that heads no block. -/
theorem memPool_tiled (L : TableLayout) (boot : MemRangeIdx → ℕ → MemNode) (clear : ℕ → Bool)
    (m : Memory) (hup : L.SetUpOn boot m) (calls : List PoolCall) (s : MemState)
    (hrun : Run.exec (bootStep clear) ⟨m, fun _ => []⟩ calls = some s)
    (hknown : Run.Along (bootStep clear) (NodeKnown boot clear) ⟨m, fun _ => []⟩ calls)
    (id : MemRangeIdx) : (s.mem.ranges id).Tiled (s.live id) (L.len id / pageSize) := by
  have h : MemInv L boot s :=
    Run.exec_invariant memInv_bootStep calls _ s (memInv_setUp hup) hknown hrun
  rw [← (h.range id).2.2.2]
  exact tiled_of_inv (h.range id).1

/-- On clear memory any address may be freed. -/
theorem nodeKnown_of_clear (s : MemState) (call : PoolCall) :
    NodeKnown clearBoot (fun _ => true) s call := by
  refine ⟨?_, fun _ _ _ _ _ => Or.inl rfl⟩
  cases call with
  | alloc count flags => rfl
  | free addr => simp [Strays]

/-- The small machine, with its tables one after the other in the boot memory. -/
def smallTables : TableLayout where
  toPoolLayout := smallLayout
  table
    | .dma => 2164260864
    | .normal => 2164326400
    | .user => 2164424704
  table_pos := by intro id; cases id <;> decide
  table_fits := by intro id; cases id <;> decide
  table_apart := by
    intro id id' h
    cases id <;> cases id' <;> first | exact absurd rfl h | decide

/-- The small machine as it is set up, with nothing allocated. -/
def smallState (boot : MemRangeIdx → ℕ → MemNode) : MemState :=
  ⟨⟨bootMemInit 2164260864 bootMemSize, smallLayout.ranges boot, smallTables.table⟩, fun _ => []⟩

/-- Three pages and one page are taken from the DMA range of the small machine,
an address in the middle of the first block is freed to no effect, and the block
itself is given back twice. -/
theorem memPool_tiled_smallTables :
    ∃ s, Run.exec (bootStep fun _ => true) (smallState clearBoot)
        [.alloc 3 memNodeTypeDma, .alloc 1 memNodeTypeDma, .free 16764928, .free 16760832,
          .free 16760832, .alloc 5 memNodeTypeNormal] = some s ∧
      (s.mem.ranges .dma).Tiled (s.live .dma) 2048 := by
  have hsome : (Run.exec (bootStep fun _ => true) (smallState clearBoot)
      [.alloc 3 memNodeTypeDma, .alloc 1 memNodeTypeDma, .free 16764928, .free 16760832,
        .free 16760832, .alloc 5 memNodeTypeNormal]).isSome = true := by decide +kernel
  obtain ⟨s, hs⟩ := Option.isSome_iff_exists.1 hsome
  exact ⟨s, hs, memPool_tiled smallTables clearBoot (fun _ => true) _ ⟨rfl, rfl⟩ _ s hs
    (Run.along_of_forall nodeKnown_of_clear _ _) .dma⟩

/-- The tables of the kernel that ran before the restart: the sixth page of the DMA range was a
block of its own. -/
def staleBoot : MemRangeIdx → ℕ → MemNode
  | .dma, 5 => { memNodeInit 1 1 with memSection := some 0 }
  | _, _ => memNodeInit 0 0

/-- Freeing that page puts it on the list of single pages, and it still lies in the block of
2048 pages the range begins with: the free pages are one too many. -/
theorem memPool_tiled_not_stale :
    ¬ ∀ (L : TableLayout) (boot : MemRangeIdx → ℕ → MemNode) (clear : ℕ → Bool) (m : Memory),
      L.SetUpOn boot m → ∀ (calls : List PoolCall) (s : MemState),
        Run.exec (bootStep clear) ⟨m, fun _ => []⟩ calls = some s → ∀ id,
          (s.mem.ranges id).Tiled (s.live id) (L.len id / pageSize) := by
  intro hall
  have hresult : (Run.exec (bootStep fun _ => true) (smallState staleBoot) [.free 8409088]).map
      (fun s => ((s.mem.ranges .dma).freePageNr, (s.live .dma).length)) = some (2049, 0) := by
    decide +kernel
  obtain ⟨s, hs, hs'⟩ := Option.map_eq_some_iff.1 hresult
  obtain ⟨hfree, hlive⟩ := Prod.mk.injEq .. ▸ hs'
  have htotal := (hall smallTables staleBoot (fun _ => true) _ ⟨rfl, rfl⟩ _ s hs .dma).total
  rw [hfree, List.length_eq_zero_iff.1 hlive, show smallTables.len .dma / pageSize = 2048 by decide]
    at htotal
  simp at htotal

/-! ## When a free does what it should -/

/-- The address lies in the first page of an allocated block of the range. -/
def MemState.Allocated (s : MemState) (id : MemRangeIdx) (addr : ℕ) : Prop :=
  ∃ a ∈ s.live id, a.node = (s.mem.ranges id).nodeOf addr

/-- The block of `node` is put on the list of section `i` of the range, and that is all. -/
def PutBack (m m' : Memory) (id : MemRangeIdx) (node i : ℕ) : Prop :=
  (m'.ranges id).sections = Function.update (m.ranges id).sections i
      { (m.ranges id).sections i with
        freeList := node :: ((m.ranges id).sections i).freeList
        nodeCount := ((m.ranges id).sections i).nodeCount + 1 } ∧
    ∀ id' ≠ id, m'.ranges id' = m.ranges id'

theorem putBack_update (m : Memory) (id : MemRangeIdx) (node i : ℕ) :
    PutBack m
      { m with ranges := Function.update m.ranges id (memRangePutBack (m.ranges id) node i) }
      id node i := by
  refine ⟨?_, fun id' hne => Function.update_of_ne hne ..⟩
  show (Function.update m.ranges id (memRangePutBack (m.ranges id) node i) id).sections = _
  rw [Function.update_self]
  rfl

/-- What a free is to do: zero for the first page of an allocated block, which goes back to
the section it was taken from, and nothing and `-1` for any other address. -/
structure FreesRight (s : MemState) (id : MemRangeIdx) (addr : ℕ) : Prop where
  allocated : s.Allocated id addr → ∃ m', memNodeFreeAt s.mem addr = some (m', 0) ∧
    ∀ a ∈ s.live id, a.node = (s.mem.ranges id).nodeOf addr →
      PutBack s.mem m' id a.node (memRangeSectionFor (s.mem.ranges id) a.count)
  other : ¬ s.Allocated id addr → memNodeFreeAt s.mem addr = some (s.mem, -1)

/-- The address leads behind the node table of its range, to the first node of an allocated
block of another. -/
def LeadsAstray (s : MemState) (id : MemRangeIdx) (addr : ℕ) : Prop :=
  (s.mem.ranges id).pages ≤ (s.mem.ranges id).nodeOf addr ∧
    ∃ id' n, nodeAt s.mem (s.mem.nodePtr id ((s.mem.ranges id).nodeOf addr)) = some (id', n) ∧
      ∃ a ∈ s.live id', a.node = n

section Frees

variable {L : TableLayout} {s : MemState} {id : MemRangeIdx} {addr : ℕ}

/-- A block lies inside of its range. -/
theorem live_node_lt (h : MemInv L clearBoot s) {a : LiveAlloc} (ha : a ∈ s.live id) :
    a.node < L.len id / pageSize := by
  have hmem : a.block ∈ (s.mem.ranges id).blocks (s.live id) := mem_blocks.2 (Or.inr ⟨a, ha, rfl⟩)
  have hle : a.node + 2 ^ MemPool.orderOf a.count ≤ (s.mem.ranges id).pages :=
    (h.range id).1.tiles.end_le hmem (Nat.two_pow_pos _)
  have hpow := Nat.two_pow_pos (MemPool.orderOf a.count)
  rw [(h.range id).2.2.2] at hle
  omega

/-- The first page of an allocated block. -/
theorem free_allocated (h : MemInv L clearBoot s) (hlo : (s.mem.ranges id).start ≤ addr)
    (hhi : addr < (s.mem.ranges id).end_) {a : LiveAlloc} (ha : a ∈ s.live id)
    (hnode : a.node = (s.mem.ranges id).nodeOf addr) :
    memNodeFreeAt s.mem addr = some
      ({ s.mem with
          ranges := Function.update s.mem.ranges id
            (memRangePutBack (s.mem.ranges id) a.node
              (memRangeSectionFor (s.mem.ranges id) a.count)) }, 0) := by
  rw [memNodeFreeAt_eq h hlo hhi, ← hnode, nodeAt_table h (live_node_lt h ha)]
  simp only [memRangeFreeNode_live (h.range id).1 ha]

/-- Two allocations of one block came from one section. -/
theorem section_unique (h : MemInv L clearBoot s) {a c : LiveAlloc} (ha : a ∈ s.live id)
    (hc : c ∈ s.live id) (hnode : c.node = a.node) : memRangeSectionFor (s.mem.ranges id) c.count =
      memRangeSectionFor (s.mem.ranges id) a.count := by
  have hinv := (h.range id).1
  have hmark := (hinv.liveNode c hc).symm.trans ((congrArg (fun n =>
    ((s.mem.ranges id).nodeTable n).memSection) hnode).trans (hinv.liveNode a ha))
  rw [memRangeSectionFor_eq hinv.size, memRangeSectionFor_eq hinv.size]
  simpa using hmark

/-- An address that leads to a block that is not allocated, of whatever range. -/
theorem free_dead (h : MemInv L clearBoot s) (hlo : (s.mem.ranges id).start ≤ addr)
    (hhi : addr < (s.mem.ranges id).end_)
    (hdead : ∀ id' n, nodeAt s.mem (L.table id + (s.mem.ranges id).nodeOf addr * sizeofMemNode) =
      some (id', n) → ∀ a ∈ s.live id', a.node ≠ n) :
    memNodeFreeAt s.mem addr = some (s.mem, -1) := by
  rw [memNodeFreeAt_eq h hlo hhi]
  cases hat : nodeAt s.mem (L.table id + (s.mem.ranges id).nodeOf addr * sizeofMemNode) with
  | none => rfl
  | some x =>
      obtain ⟨id', n⟩ := x
      simp only [memRangeFreeNode_dead (h.range id').1 rfl (hdead id' n hat),
        Function.update_eq_self]

theorem freesRight_of_not_astray (h : MemInv L clearBoot s) (hlo : (s.mem.ranges id).start ≤ addr)
    (hhi : addr < (s.mem.ranges id).end_) (hastray : ¬ LeadsAstray s id addr) :
    FreesRight s id addr := by
  obtain ⟨-, hle, -⟩ := phyAddrToNode_eq h hlo hhi
  refine ⟨?_, fun hother => free_dead h hlo hhi fun id' n hat a ha hnode => ?_⟩
  · rintro ⟨a, ha, hnode⟩
    refine ⟨_, free_allocated h hlo hhi ha hnode, fun c hc hcnode => ?_⟩
    rw [hcnode.trans hnode.symm, section_unique h ha hc (hcnode.trans hnode.symm)]
    exact putBack_update s.mem id a.node _
  · -- in a table the node is that of the address, behind it the block must not be allocated
    rcases Nat.lt_or_ge ((s.mem.ranges id).nodeOf addr) (L.len id / pageSize) with hin | hout
    · rw [nodeAt_table h hin] at hat
      cases hat
      exact hother ⟨a, ha, hnode⟩
    · refine hastray ⟨?_, id', n, ?_, a, ha, hnode⟩
      · rw [(h.range id).2.2.2]
        exact hout
      · rw [L.nodePtr_eq h.2 hle]
        exact hat

theorem not_freesRight_of_astray (h : MemInv L clearBoot s) (hlo : (s.mem.ranges id).start ≤ addr)
    (hhi : addr < (s.mem.ranges id).end_) (hastray : LeadsAstray s id addr) :
    ¬ FreesRight s id addr := by
  obtain ⟨-, hle, -⟩ := phyAddrToNode_eq h hlo hhi
  obtain ⟨hout, id', n, hat, a, ha, rfl⟩ := hastray
  rw [L.nodePtr_eq h.2 hle] at hat
  rw [(h.range id).2.2.2] at hout
  have hother : ¬ s.Allocated id addr := by
    rintro ⟨c, hc, hnode⟩
    have := live_node_lt h hc
    omega
  intro hright
  have hfail := hright.other hother
  rw [memNodeFreeAt_eq h hlo hhi, hat] at hfail
  simp only [memRangeFreeNode_live (h.range id').1 ha] at hfail
  exact absurd (congrArg (Option.map Prod.snd) hfail) (by simp)

end Frees

/-- The memory as it is set up, on clear node tables. -/
def TableLayout.SetUp (L : TableLayout) (m : Memory) : Prop := L.SetUpOn clearBoot m

/-- **When an address of a range is freed as it should be.**  After any allocations and frees
on tables that were clear, `mem_node_free_pages` returns zero for the first page of an
allocated block, which goes back to its section, and `-1` for every other address without
changing anything — if and only if the address does not lead behind the table of its range to
an allocated block of another. -/
theorem memNodeFree_iff (L : TableLayout) (m : Memory) (hup : L.SetUp m) (calls : List PoolCall)
    (s : MemState) (hrun : Run.exec memStep ⟨m, fun _ => []⟩ calls = some s) (id : MemRangeIdx)
    (addr : ℕ) (hlo : (s.mem.ranges id).start ≤ addr) (hhi : addr < (s.mem.ranges id).end_) :
    FreesRight s id addr ↔ ¬ LeadsAstray s id addr := by
  have h : MemInv L clearBoot s := Run.exec_keeps memInv_step calls _ s (memInv_setUp hup) hrun
  constructor
  · intro hright hastray
    exact not_freesRight_of_astray h hlo hhi hastray hright
  · exact freesRight_of_not_astray h hlo hhi

/-- The memory of a machine, on clear tables. -/
theorem physicMemoryInit_setUp {total : ℕ} (h : Accepted total) :
    ∃ m, physicMemoryInit clearBoot total = some m ∧ (physTables h).SetUp m := by
  obtain ⟨m, hrun, hranges, htable⟩ := physicMemoryInit_eq clearBoot h
  exact ⟨m, hrun, hranges, htable⟩

/-- A run on the memory of a machine with clear tables. -/
def memRun (total : ℕ) (calls : List PoolCall) : Option MemState :=
  (physicMemoryInit clearBoot total).bind fun m => Run.exec memStep ⟨m, fun _ => []⟩ calls

theorem exec_of_memRun {total : ℕ} (h : Accepted total) {calls : List PoolCall} {s : MemState}
    (hrun : memRun total calls = some s) :
    ∃ m, (physTables h).SetUp m ∧ Run.exec memStep ⟨m, fun _ => []⟩ calls = some s := by
  obtain ⟨m, hinit, hup⟩ := physicMemoryInit_setUp h
  rw [memRun, hinit, Option.bind_some] at hrun
  exact ⟨m, hup, hrun⟩

/-- On a machine of 512 MB three DMA pages are allocated and given back; their address is given
back once more. -/
theorem memNodeFree_iff_512mb :
    ∃ s, memRun 536870912 [.alloc 3 memNodeTypeDma, .free 16760832] = some s ∧
      (FreesRight s .dma 16760832 ↔ ¬ LeadsAstray s .dma 16760832) := by
  have hplace : (memRun 536870912 [.alloc 3 memNodeTypeDma, .free 16760832]).map
      (fun s => ((s.mem.ranges .dma).start, (s.mem.ranges .dma).end_)) =
        some (8388608, 16777216) := by decide +kernel
  obtain ⟨s, hs, hs'⟩ := Option.map_eq_some_iff.1 hplace
  obtain ⟨hstart, hend⟩ := Prod.mk.injEq .. ▸ hs'
  have h : Accepted 536870912 := ⟨by decide, by decide, by decide⟩
  obtain ⟨m, hup, hrun⟩ := exec_of_memRun h hs
  exact ⟨s, hs, memNodeFree_iff (physTables h) m hup _ s hrun .dma 16760832
    (by rw [hstart]; decide) (by rw [hend]; decide)⟩

/-- With one page more than 300 MB the normal range ends in half a page, and its table ends
where the table of the user range begins.  Freeing the half page frees the first block of user
memory. -/
theorem memNodeFree_half_page :
    ¬ ∀ (L : TableLayout) (m : Memory), L.SetUp m → ∀ (calls : List PoolCall) (s : MemState),
      Run.exec memStep ⟨m, fun _ => []⟩ calls = some s → ∀ (id : MemRangeIdx) (addr : ℕ),
        (s.mem.ranges id).start ≤ addr → addr < (s.mem.ranges id).end_ → FreesRight s id addr := by
  intro hall
  have hresult : (memRun 314576896 [.alloc 2048 memNodeTypeUser]).map
      (fun s => (s.live .normal, (s.mem.ranges .normal).start, (s.mem.ranges .normal).end_,
        (memNodeFreeAt s.mem 163577856).map Prod.snd)) =
      some ([], 50331648, 163579904, some 0) := by decide +kernel
  obtain ⟨s, hs, hs'⟩ := Option.map_eq_some_iff.1 hresult
  simp only [Prod.mk.injEq] at hs'
  obtain ⟨hlive, hstart, hend, hret⟩ := hs'
  have h : Accepted 314576896 := ⟨by decide, by decide, by decide⟩
  obtain ⟨m, hup, hrun⟩ := exec_of_memRun h hs
  have hright := hall (physTables h) m hup _ s hrun .normal 163577856 (by rw [hstart]; decide)
    (by rw [hend]; decide)
  have hother : ¬ s.Allocated .normal 163577856 := by
    rintro ⟨a, ha, -⟩
    rw [hlive] at ha
    exact absurd ha List.not_mem_nil
  rw [hright.other hother] at hret
  simp at hret

end PhysMem
end LightOS
