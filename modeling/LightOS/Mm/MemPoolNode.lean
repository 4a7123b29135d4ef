import LightOS.Mm.MemPool

/-!
# The physical page pool: the pages of a caller

What a caller that holds pages of the normal range may rely on: the blocks it holds are
apart, the nodes of their pages change only by its own marks, and what it gives back is
taken.

* `NormalInv` — the pool, as seen by a caller that holds given blocks.
* `normalAlloc_spec`, `normalFree_spec` — allocating and freeing a block.
* `phyAddrToMemNode_normal`, `normalInv_mark` — looking up and marking the node of a page.
-/

namespace LightOS
namespace MemPool

open Tiling

/-- `phy_addr_to_mem_node`; `none` is the null pointer, or the panic for an address outside of
all ranges. -/
def phyAddrToMemNode (p : MemRanges) (addr : ℕ) : Option (MemRangeIdx × ℕ) :=
  if addr = 0 then none else (memRangeGetByPhyAddr p addr).map fun id => (id, (p id).nodeOf addr)

/-- `MEM_NODE_MARK_CHACHE_GROUP`. -/
def memNodeMark (p : MemRanges) (x : MemRangeIdx × ℕ) (cache group : ℕ) : MemRanges :=
  Function.update p x.1 ((p x.1).setNode x.2
    { (p x.1).nodeTable x.2 with cache := some cache, group := some group })

/-! ## Nodes of pages in use -/

/-- The page belongs to a block of the list. -/
def Held (live : List LiveAlloc) (n : ℕ) : Prop := ∃ a ∈ live, a.block.Has n

section Range

variable {boot : ℕ → MemNode} {r r' : MemRange} {live : List LiveAlloc}

theorem not_has_of_held (h : r.Inv boot live) {n : ℕ} (hn : Held live n) {b : Block}
    (hb : b ∈ r.freeBlocks) : ¬ b.Has n := by
  obtain ⟨a, ha, hhas⟩ := hn
  have hdisjoint := (List.pairwise_append.1 h.tiles.pairwise_disjoint).2.2 b hb a.block
    (List.mem_map_of_mem ha)
  exact fun hbn => hdisjoint n ⟨hbn, hhas⟩

theorem splitOnce_keep (h : r.Inv boot live) {u : ℕ} (hu : u + 1 < memSectionMaxNr)
    (hne : (r.sections (u + 1)).freeList ≠ []) {n : ℕ} (hn : Held live n) :
    (memRangeSplitOnce r (u + 1)).nodeTable n = r.nodeTable n := by
  obtain ⟨node, rest, hlist⟩ := List.exists_cons_of_ne_nil hne
  obtain ⟨-, -, -, -, hkeep, -⟩ := splitOnce_fields hlist (h.size (u + 1) hu)
  have hnot : ¬ (⟨node, 2 ^ (u + 1)⟩ : Block).Has n :=
    not_has_of_held h hn (mem_freeBlocks.2 ⟨u + 1, hu, node, by simp [hlist], rfl⟩)
  have hpow := Nat.two_pow_pos u
  rw [has_mk, pow_succ] at hnot
  exact hkeep n (by omega) (by omega)

theorem splitSection_keep {s : ℕ} :
    ∀ {fuel : ℕ} {r r' : MemRange} {ret : ℤ}, r.Inv boot live →
      memRangeSplitSection fuel r s = some (r', ret) →
      r'.Inv boot live ∧ ∀ n, Held live n → r'.nodeTable n = r.nodeTable n := by
  intro fuel
  induction fuel with
  | zero => intro r r' ret _ hrun; cases hrun
  | succ fuel ih =>
      intro r r' ret h hrun
      rw [memRangeSplitSection] at hrun
      split_ifs at hrun with hempty
      · cases hrun
        exact ⟨h, fun n _ => rfl⟩
      · split at hrun
        · cases hrun
          exact ⟨h, fun n _ => rfl⟩
        · rename_i t hfind
          obtain ⟨hst, ht, hne⟩ := memRangeNextFree_spec hfind
          obtain ⟨u, rfl⟩ : ∃ u, t = u + 1 := ⟨t - 1, by omega⟩
          obtain ⟨node, rest, hlist⟩ := List.exists_cons_of_ne_nil hne
          obtain ⟨hinv, hkeep⟩ := ih (inv_splitOnce h ht hlist) hrun
          exact ⟨hinv, fun n hn => (hkeep n hn).trans (splitOnce_keep h ht hne hn)⟩

theorem takeFirst_keep (h : r.Inv boot live) {i : ℕ} (hi : i < memSectionMaxNr) (count : ℕ) {n : ℕ}
    (hn : Held live n) : (memRangeTakeFirst r i count).1.nodeTable n = r.nodeTable n := by
  unfold memRangeTakeFirst
  split
  · rfl
  · rename_i node rest hlist
    have hnot : ¬ (⟨node, 2 ^ i⟩ : Block).Has n :=
      not_has_of_held h hn (mem_freeBlocks.2 ⟨i, hi, node, by simp [hlist], rfl⟩)
    have hpow := Nat.two_pow_pos i
    rw [has_mk] at hnot
    rw [setNode_nodeTable_of_ne _ _ _ (by omega), setSection_nodeTable]

/-- **An allocation leaves the nodes of pages in use alone.** -/
theorem memRangeAllocPages_keep (h : r.Inv boot live) {count addr : ℕ}
    (hrun : memRangeAllocPages r count = some (r', addr)) {n : ℕ} (hn : Held live n) :
    r'.nodeTable n = r.nodeTable n := by
  unfold memRangeAllocPages at hrun
  simp only [memRangeSectionFor_eq h.size] at hrun
  have hlt := orderOf_lt count
  split_ifs at hrun
  · cases hrun
    rfl
  · split at hrun
    · cases hrun
    · rename_i t ret hsplit
      obtain ⟨ht, hkeep⟩ := splitSection_keep h hsplit
      split_ifs at hrun
      · cases hrun
        exact hkeep n hn
      · rw [Option.some.injEq] at hrun
        have hlast := takeFirst_keep ht hlt count hn
        rw [hrun] at hlast
        exact hlast.trans (hkeep n hn)
  · rw [Option.some.injEq] at hrun
    have hlast := takeFirst_keep h hlt count hn
    rwa [hrun] at hlast

/-- The order in which the allocations are listed does not matter. -/
theorem MemRange.Inv.perm {live' : List LiveAlloc} (h : r.Inv boot live) (hperm : live.Perm live') :
    r.Inv boot live' := by
  have hblocks : (r.blocks live).Perm (r.blocks live') := (hperm.map _).append_left _
  refine ⟨⟨h.size, h.tiles.perm hblocks, h.freeNode, fun a ha => h.liveNode a (hperm.mem_iff.2 ha),
    fun a ha => h.liveCount a (hperm.mem_iff.2 ha), fun n hn => h.interior n fun b hb => ?_⟩,
      h.count⟩
  exact hn b (hblocks.mem_iff.1 hb)

/-- The invariant looks at the section of a node only. -/
theorem inv_setNode (h : r.Inv boot live) {n : ℕ} {x : MemNode}
    (hx : x.memSection = (r.nodeTable n).memSection) : (r.setNode n x).Inv boot live := by
  have hsec : ∀ m, ((r.setNode n x).nodeTable m).memSection = (r.nodeTable m).memSection := by
    intro m
    by_cases hm : m = n
    · subst hm
      rw [setNode_nodeTable_self, hx]
    · rw [setNode_nodeTable_of_ne _ _ _ hm]
  refine ⟨⟨h.size, h.tiles, fun i hi m hm => ?_, fun a ha => ?_, h.liveCount, fun m hm => ?_⟩,
    h.count⟩
  · rw [hsec]
    exact h.freeNode i hi m hm
  · rw [hsec]
    exact h.liveNode a ha
  · rw [hsec]
    exact h.interior m hm

theorem nodeOf_page {r : MemRange} {n off : ℕ} (hoff : off < pageSize) :
    r.nodeOf (n * pageSize + r.start + off) = n := by
  unfold MemRange.nodeOf pageSize at *
  omega

/-- **A block that is in use is taken back**, and only the node of its first page changes. -/
theorem memRangeFreePages_live {a : LiveAlloc} (h : r.Inv boot (a :: live)) :
    ∃ r', memRangeFreePages r (a.node * pageSize + r.start) = (r', 0) ∧ r'.Inv boot live ∧
      r'.start = r.start ∧ r'.end_ = r.end_ ∧ r'.pages = r.pages ∧
      ∀ n ≠ a.node, r'.nodeTable n = r.nodeTable n := by
  have hnode : r.nodeOf (a.node * pageSize + r.start) = a.node := by
    unfold MemRange.nodeOf pageSize
    omega
  have hmark := h.liveNode a (List.mem_cons_self ..)
  have hnot : a.node ∉ (r.sections (orderOf a.count)).freeList := by
    intro hmem
    have hheld : Held (a :: live) a.node :=
      ⟨a, List.mem_cons_self .., le_rfl, Nat.lt_add_of_pos_right (Nat.two_pow_pos _)⟩
    refine not_has_of_held h hheld (mem_freeBlocks.2 ⟨_, orderOf_lt _, a.node, hmem, rfl⟩) ?_
    exact ⟨le_rfl, Nat.lt_add_of_pos_right (Nat.two_pow_pos _)⟩
  have hdrop : dropNode (a :: live) a.node = live := by simp [dropNode]
  have hknown : r.Known boot (a :: live) (r.nodeOf (a.node * pageSize + r.start)) := by
    rw [hnode]
    exact Or.inr ⟨a.block, mem_blocks.2 (Or.inr ⟨a, List.mem_cons_self .., rfl⟩), rfl⟩
  rcases memRangeFreePages_spec h hknown with hfail | ⟨r', hok, -, hinv, hstart, hend, hpages⟩
  · rw [memRangeFreePages, hnode] at hfail
    simp only [hmark, if_neg hnot] at hfail
    exact absurd (congrArg Prod.snd hfail) (by simp)
  · rw [hnode, hdrop] at hinv
    refine ⟨r', hok, hinv, hstart, hend, hpages, fun n hn => ?_⟩
    rw [memRangeFreePages, hnode] at hok
    simp only [hmark, if_neg hnot, Prod.mk.injEq, and_true] at hok
    rw [← hok, setSection_nodeTable, setNode_nodeTable_of_ne _ _ _ hn]

end Range

/-! ## A caller of the pool -/

/-- The pool keeps its invariant, and `held` is what is in use in range `id`. -/
def RangeInv (L : PoolLayout) (boot : MemRangeIdx → ℕ → MemNode) (id : MemRangeIdx) (p : MemRanges)
    (held : List LiveAlloc) : Prop :=
  ∃ live, PoolInv L boot ⟨p, live⟩ ∧ live id = held

section OneRange

variable {L : PoolLayout} {boot : MemRangeIdx → ℕ → MemNode} {id : MemRangeIdx} {p : MemRanges}
  {held : List LiveAlloc}

theorem RangeInv.range (h : RangeInv L boot id p held) :
    (p id).Inv (boot id) held ∧ (p id).start = L.start id ∧ (p id).pages = L.len id / pageSize := by
  obtain ⟨live, hinv, rfl⟩ := h
  exact ⟨(hinv id).1, (hinv id).2.1, (hinv id).2.2.2⟩

/-- Replacing the range. -/
theorem RangeInv.update (h : RangeInv L boot id p held) {r : MemRange} {held' : List LiveAlloc}
    (hinv : r.Inv (boot id) held') (hstart : r.start = (p id).start)
    (hend : r.end_ = (p id).end_) (hpages : r.pages = (p id).pages) :
    RangeInv L boot id (Function.update p id r) held' := by
  obtain ⟨live, hpool, -⟩ := h
  exact ⟨Function.update live id held', poolInv_update hpool hinv hstart hend hpages,
    Function.update_self ..⟩

theorem RangeInv.perm (h : RangeInv L boot id p held) {held' : List LiveAlloc}
    (hperm : held.Perm held') : RangeInv L boot id p held' := by
  have hupdate := h.update (h.range.1.perm hperm) rfl rfl rfl
  rwa [Function.update_eq_self] at hupdate

/-- Blocks in use lie in the range, and hold what was asked for. -/
theorem RangeInv.end_le (h : RangeInv L boot id p held) {a : LiveAlloc} (ha : a ∈ held) :
    0 < a.count ∧ a.node + a.count ≤ L.len id / pageSize := by
  obtain ⟨hinv, -, hpages⟩ := h.range
  have hle : a.block.start + a.block.size ≤ (p id).pages :=
    hinv.tiles.end_le (mem_blocks.2 (Or.inr ⟨a, ha, rfl⟩)) (Nat.two_pow_pos _)
  have hcount := le_two_pow_orderOf (hinv.liveCount a ha).2
  simp only [LiveAlloc.block] at hle
  exact ⟨(hinv.liveCount a ha).1, by omega⟩

/-- The pages asked for are pages of the block. -/
theorem RangeInv.held_add (h : RangeInv L boot id p held) {a : LiveAlloc} (ha : a ∈ held) {k : ℕ}
    (hk : k < a.count) : Held held (a.node + k) := by
  have hcount := le_two_pow_orderOf (h.range.1.liveCount a ha).2
  refine ⟨a, ha, Nat.le_add_right _ _, ?_⟩
  simp only [LiveAlloc.block]
  omega

/-- Blocks in use are apart. -/
theorem RangeInv.pairwise (h : RangeInv L boot id p held) :
    held.Pairwise fun a c => a.node + a.count ≤ c.node ∨ c.node + c.count ≤ a.node := by
  obtain ⟨hinv, -, -⟩ := h.range
  have hdisjoint := (List.pairwise_append.1 hinv.tiles.pairwise_disjoint).2.1
  refine (List.pairwise_map.1 hdisjoint).imp_of_mem fun {a c} ha hc hd => ?_
  have hacount := le_two_pow_orderOf (hinv.liveCount a ha).2
  have hccount := le_two_pow_orderOf (hinv.liveCount c hc).2
  have hapos := (hinv.liveCount a ha).1
  have hcpos := (hinv.liveCount c hc).1
  by_contra hover
  rw [not_or, not_le, not_le] at hover
  refine hd (max a.node c.node) ⟨⟨le_max_left .., ?_⟩, le_max_right .., ?_⟩
  · simp only [LiveAlloc.block]
    omega
  · simp only [LiveAlloc.block]
    omega

/-- **Allocating from a range.**  It fails and nothing changes, or a block comes into use; the
nodes of the blocks in use stay as they are. -/
theorem rangeAlloc_spec (h : RangeInv L boot id p held) {flags : ℕ}
    (hflags : memRangeOfFlags flags = some id) (count : ℕ) :
    memNodeAllocPages p count flags = some (p, 0) ∨
      ∃ p' node, memNodeAllocPages p count flags = some (p', node * pageSize + L.start id) ∧
        RangeInv L boot id p' (⟨node, count⟩ :: held) ∧
        ∀ n, Held held n → (p' id).nodeTable n = (p id).nodeTable n := by
  obtain ⟨live, hpool, rfl⟩ := h
  obtain ⟨hrange, hstart, -⟩ := RangeInv.range ⟨live, hpool, rfl⟩
  rcases memNodeAllocPages_spec hpool count hflags with
    hfail | ⟨r, node, hok, hpos, hmax, hinv, hstart', hend, hpages⟩
  · exact Or.inl hfail
  · rw [hstart', hstart] at hok
    refine Or.inr ⟨_, node, hok, ?_, fun n hn => ?_⟩
    · exact ⟨_, poolInv_update hpool hinv hstart' hend hpages, Function.update_self ..⟩
    · rw [Function.update_self]
      rw [memNodeAllocPages, if_neg (by omega), if_neg (by omega), hflags] at hok
      obtain ⟨⟨r', a⟩, halloc, heq⟩ := Option.map_eq_some_iff.1 hok
      rw [Prod.mk.injEq] at heq
      have hr : r' = r := by
        have := congrFun heq.1 id
        rwa [Function.update_self, Function.update_self] at this
      rw [hr] at halloc
      exact memRangeAllocPages_keep hrange halloc hn

/-- An address in a page of the range. -/
theorem RangeInv.getByPhyAddr (h : RangeInv L boot id p held) {n off : ℕ}
    (hn : n < L.len id / pageSize) (hoff : off < pageSize) :
    memRangeGetByPhyAddr p (n * pageSize + L.start id + off) = some id := by
  obtain ⟨live, hpool, -⟩ := h
  refine memRangeGetByPhyAddr_eq (fun id => (hpool id).2.1) (fun id => (hpool id).2.2.1) ?_ ?_
  · omega
  · unfold pageSize at *
    omega

/-- **Giving a block back.** -/
theorem rangeFree_spec {a : LiveAlloc} (h : RangeInv L boot id p (a :: held)) :
    ∃ p', memNodeFreePages p (a.node * pageSize + L.start id) = some (p', 0) ∧
      RangeInv L boot id p' held ∧ ∀ n ≠ a.node, (p' id).nodeTable n = (p id).nodeTable n := by
  obtain ⟨hinv, hstart, -⟩ := h.range
  obtain ⟨hpos, hend⟩ := h.end_le (List.mem_cons_self ..)
  have hstartPos := L.start_pos id
  obtain ⟨r, hok, hinv', hstart', hend', hpages, hkeep⟩ := memRangeFreePages_live hinv
  have hget := h.getByPhyAddr (show a.node < L.len id / pageSize by omega)
    (show 0 < pageSize by norm_num)
  rw [Nat.add_zero] at hget
  rw [hstart] at hok
  refine ⟨Function.update p id r, ?_, h.update hinv' hstart' hend' hpages, fun n hn => ?_⟩
  · rw [memNodeFreePages, if_neg (by omega), hget]
    simp only [hok]
  · rw [Function.update_self, hkeep n hn]

end OneRange

/-- The pool keeps its invariant, and `held` is what is in use in the normal range. -/
def NormalInv (L : PoolLayout) (boot : MemRangeIdx → ℕ → MemNode) (p : MemRanges)
    (held : List LiveAlloc) : Prop :=
  ∃ live, PoolInv L boot ⟨p, live⟩ ∧ live .normal = held

section Normal

variable {L : PoolLayout} {boot : MemRangeIdx → ℕ → MemNode} {p : MemRanges} {held : List LiveAlloc}

theorem NormalInv.range (h : NormalInv L boot p held) :
    (p .normal).Inv (boot .normal) held ∧ (p .normal).start = L.start .normal ∧
      (p .normal).pages = L.len .normal / pageSize := RangeInv.range h

theorem NormalInv.perm (h : NormalInv L boot p held) {held' : List LiveAlloc}
    (hperm : held.Perm held') : NormalInv L boot p held' := RangeInv.perm h hperm

theorem NormalInv.end_le (h : NormalInv L boot p held) {a : LiveAlloc} (ha : a ∈ held) :
    0 < a.count ∧ a.node + a.count ≤ L.len .normal / pageSize := RangeInv.end_le h ha

theorem NormalInv.held_add (h : NormalInv L boot p held) {a : LiveAlloc} (ha : a ∈ held) {k : ℕ}
    (hk : k < a.count) : Held held (a.node + k) := RangeInv.held_add h ha hk

theorem NormalInv.pairwise (h : NormalInv L boot p held) :
    held.Pairwise fun a c => a.node + a.count ≤ c.node ∨ c.node + c.count ≤ a.node :=
  RangeInv.pairwise h

/-- **Allocating from the normal range.** -/
theorem normalAlloc_spec (h : NormalInv L boot p held) (count : ℕ) :
    memNodeAllocPages p count memNodeTypeNormal = some (p, 0) ∨
      ∃ p' node, memNodeAllocPages p count memNodeTypeNormal =
          some (p', node * pageSize + L.start .normal) ∧
        NormalInv L boot p' (⟨node, count⟩ :: held) ∧
        ∀ n, Held held n → (p' .normal).nodeTable n = (p .normal).nodeTable n :=
  rangeAlloc_spec h rfl count

/-- **The node of a page of the range.** -/
theorem phyAddrToMemNode_normal (h : NormalInv L boot p held) {n off : ℕ}
    (hn : n < L.len .normal / pageSize) (hoff : off < pageSize) :
    phyAddrToMemNode p (n * pageSize + L.start .normal + off) = some (.normal, n) := by
  have hpos := L.start_pos .normal
  rw [phyAddrToMemNode, if_neg (by omega), RangeInv.getByPhyAddr h hn hoff, Option.map_some,
    ← h.range.2.1, nodeOf_page hoff]

/-- **Giving a block of the normal range back.** -/
theorem normalFree_spec {a : LiveAlloc} (h : NormalInv L boot p (a :: held)) :
    ∃ p', memNodeFreePages p (a.node * pageSize + L.start .normal) = some (p', 0) ∧
      NormalInv L boot p' held ∧
      ∀ n ≠ a.node, (p' .normal).nodeTable n = (p .normal).nodeTable n := rangeFree_spec h

theorem memNodeMark_group (n cache group m : ℕ) :
    ((memNodeMark p (.normal, n) cache group .normal).nodeTable m).group =
      if m = n then some group else ((p .normal).nodeTable m).group := by
  rw [memNodeMark, Function.update_self]
  by_cases hm : m = n
  · rw [if_pos hm, hm, setNode_nodeTable_self]
  · rw [if_neg hm, setNode_nodeTable_of_ne _ _ _ hm]

/-- Marking the node of a page. -/
theorem normalInv_mark (h : NormalInv L boot p held) (n cache group : ℕ) :
    NormalInv L boot (memNodeMark p (.normal, n) cache group) held :=
  RangeInv.update h (inv_setNode h.range.1 rfl) rfl rfl rfl

end Normal

end MemPool
end LightOS
