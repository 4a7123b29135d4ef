import LightOS.Mm.MemPool

/-!
# The physical page pool: allocation is complete

An allocation fails only for want of a free block that is large enough.  The search of
`mem_range_split_section` looks at all sections above the one of the request, and every block
it finds there is carried down, one section for each call of the recursion, until the section
of the request has a block to give.

The argument needs to know the sizes of the sections and nothing about the node table, so it
holds in every state a run reaches, whatever addresses were freed in it.

* `memNodeAllocPages_hasRoom`, `memNodeAllocPages_full` — an allocation with room, and without.
* `sized_step` — every call keeps the sizes of the sections.
* `memNodeAllocPages_complete` — an allocation succeeds exactly when there is room.
-/

namespace LightOS
namespace MemPool

/-! ## Sections of the right sizes -/

/-- Section `i` is for blocks of `2 ^ i` pages. -/
def MemRange.Sized (r : MemRange) : Prop :=
  ∀ i < memSectionMaxNr, (r.sections i).sectionSize = 2 ^ i

section Sized

variable {r : MemRange}

theorem MemRange.Sized.setSection (h : r.Sized) {i : ℕ} {s : MemSection}
    (hs : s.sectionSize = (r.sections i).sectionSize) : (r.setSection i s).Sized := by
  intro j hj
  by_cases hji : j = i
  · subst hji
    rw [setSection_sections_self, hs]
    exact h j hj
  · rw [setSection_sections_of_ne _ _ _ hji]
    exact h j hj

theorem MemRange.Sized.setNode (h : r.Sized) (n : ℕ) (x : MemNode) : (r.setNode n x).Sized := h

theorem sized_splitOnce (h : r.Sized) (t : ℕ) : (memRangeSplitOnce r t).Sized := by
  unfold memRangeSplitOnce
  split
  · exact h
  · dsimp only
    refine MemRange.Sized.setSection
      (((MemRange.Sized.setSection h ?_).setNode _ _).setNode _ _) ?_
    · rfl
    -- what is written below `t` are the fields of that section as they were before
    by_cases ht : t - 1 = t
    · rw [setNode_sections, setNode_sections, ht, setSection_sections_self]
    · rw [setNode_sections, setNode_sections, setSection_sections_of_ne _ _ _ ht]

theorem sized_takeFirst (h : r.Sized) (i count : ℕ) :
    (memRangeTakeFirst r i count).1.Sized ∧ (memRangeTakeFirst r i count).1.start = r.start := by
  unfold memRangeTakeFirst
  split
  · exact ⟨h, rfl⟩
  · dsimp only
    refine ⟨(MemRange.Sized.setSection h ?_).setNode _ _, rfl⟩
    rfl

theorem sized_freePages (h : r.Sized) (addr : ℕ) :
    (memRangeFreePages r addr).1.Sized ∧ (memRangeFreePages r addr).1.start = r.start := by
  unfold memRangeFreePages
  dsimp only
  split
  · exact ⟨h, rfl⟩
  · split_ifs
    · exact ⟨h, rfl⟩
    · exact ⟨(h.setNode _ _).setSection rfl, rfl⟩

/-- With room, an allocation gives the address of a page of the range. -/
theorem sized_allocPages (h : r.Sized) {count : ℕ} (hroom : r.HasRoom count) :
    ∃ r' node, memRangeAllocPages r count = some (r', node * pageSize + r.start) ∧ r'.Sized ∧
      r'.start = r.start := by
  obtain ⟨r', node, rest, halloc, hsized, hlist, hstart, -⟩ :=
    memRangeAllocPages_room (P := MemRange.Sized) (fun _ h => h)
      (fun r u _ _ h _ _ => sized_splitOnce h (u + 1)) h hroom
  obtain ⟨hsized', hstart'⟩ := sized_takeFirst hsized (orderOf count) count
  have haddr : (memRangeTakeFirst r' (orderOf count) count).2 = node * pageSize + r'.start := by
    simp only [memRangeTakeFirst, hlist]
  refine ⟨(memRangeTakeFirst r' (orderOf count) count).1, node, ?_, hsized', hstart'.trans hstart⟩
  rw [halloc, ← hstart, ← haddr]

end Sized

/-! ## Allocating from the pool -/

/-- Every range has its sections and starts where the layout puts it. -/
def PoolSized (L : PoolLayout) (s : PoolState) : Prop :=
  ∀ id, (s.ranges id).Sized ∧ (s.ranges id).start = L.start id

section Pool

variable {L : PoolLayout} {s : PoolState} {count flags : ℕ} {id : MemRangeIdx}

theorem poolSized_init (L : PoolLayout) (boot : MemRangeIdx → ℕ → MemNode) :
    PoolSized L (L.init boot) :=
  fun id => ⟨(poolInv_init L boot id).1.size, (poolInv_init L boot id).2.1⟩

theorem poolSized_update (h : PoolSized L s) {r : MemRange} (hsized : r.Sized)
    (hstart : r.start = (s.ranges id).start) (live : MemRangeIdx → List LiveAlloc) :
    PoolSized L ⟨Function.update s.ranges id r, live⟩ := by
  intro id'
  by_cases hid : id' = id
  · subst hid
    simp only [Function.update_self]
    exact ⟨hsized, hstart.trans (h id').2⟩
  · simp only [Function.update_of_ne hid]
    exact h id'

/-- The allocation of a request that is not refused at once. -/
theorem memNodeAllocPages_eq (p : MemRanges) (hpos : 1 ≤ count) (hmax : count ≤ memSectionMaxSize)
    (hid : memRangeOfFlags flags = some id) :
    memNodeAllocPages p count flags =
      (memRangeAllocPages (p id) count).map fun ra => (Function.update p id ra.1, ra.2) := by
  unfold memNodeAllocPages
  rw [if_neg (by omega), if_neg (not_lt.2 hmax), hid]

/-- **With room the address is not zero.** -/
theorem memNodeAllocPages_hasRoom (h : PoolSized L s) (hpos : 1 ≤ count)
    (hmax : count ≤ memSectionMaxSize) (hid : memRangeOfFlags flags = some id)
    (hroom : (s.ranges id).HasRoom count) :
    ∃ r addr, memNodeAllocPages s.ranges count flags = some (Function.update s.ranges id r, addr) ∧
      addr ≠ 0 ∧ r.Sized ∧ r.start = (s.ranges id).start := by
  obtain ⟨r, node, halloc, hsized, hstart⟩ := sized_allocPages (h id).1 hroom
  refine ⟨r, node * pageSize + (s.ranges id).start, ?_, ?_, hsized, hstart⟩
  · rw [memNodeAllocPages_eq s.ranges hpos hmax hid, halloc]
    rfl
  · have hlow := L.start_pos id
    rw [(h id).2]
    omega

/-- **Without room nothing happens.** -/
theorem memNodeAllocPages_full (h : PoolSized L s) (hpos : 1 ≤ count)
    (hmax : count ≤ memSectionMaxSize) (hid : memRangeOfFlags flags = some id)
    (hroom : ¬ (s.ranges id).HasRoom count) :
    memNodeAllocPages s.ranges count flags = some (s.ranges, 0) := by
  rw [memNodeAllocPages_eq s.ranges hpos hmax hid, memRangeAllocPages_noRoom (h id).1 hroom]
  simp

/-- Whatever an allocation answers, the sections keep their sizes. -/
theorem sized_alloc (h : PoolSized L s) {p : MemRanges} {addr : ℕ}
    (hrun : memNodeAllocPages s.ranges count flags = some (p, addr))
    (live : MemRangeIdx → List LiveAlloc) : PoolSized L ⟨p, live⟩ := by
  by_cases hzero : count = 0
  · rw [memNodeAllocPages, if_pos hzero] at hrun
    cases hrun
    exact h
  · by_cases hbig : memSectionMaxSize < count
    · rw [memNodeAllocPages, if_neg hzero, if_pos hbig] at hrun
      cases hrun
      exact h
    · cases hid : memRangeOfFlags flags with
      | none => simp [memNodeAllocPages, hzero, hbig, hid] at hrun
      | some id =>
          have hpos := Nat.one_le_iff_ne_zero.2 hzero
          have hmax := not_lt.1 hbig
          by_cases hroom : (s.ranges id).HasRoom count
          · obtain ⟨r, addr', halloc, -, hsized, hstart⟩ :=
              memNodeAllocPages_hasRoom h hpos hmax hid hroom
            rw [halloc] at hrun
            cases hrun
            exact poolSized_update h hsized hstart live
          · rw [memNodeAllocPages_full h hpos hmax hid hroom] at hrun
            cases hrun
            exact h

/-- And so does a free, of any address whatever. -/
theorem sized_free (h : PoolSized L s) {p : MemRanges} {addr : ℕ} {ret : ℤ}
    (hrun : memNodeFreePages s.ranges addr = some (p, ret))
    (live : MemRangeIdx → List LiveAlloc) : PoolSized L ⟨p, live⟩ := by
  unfold memNodeFreePages at hrun
  split_ifs at hrun
  · cases hrun
    exact h
  · split at hrun
    · cases hrun
    · rename_i id hget
      cases hrun
      obtain ⟨hsized, hstart⟩ := sized_freePages (h id).1 addr
      exact poolSized_update h hsized hstart live

theorem sized_step (s : PoolState) (call : PoolCall) (s' : PoolState) (h : PoolSized L s)
    (hstep : poolStep s call = some s') : PoolSized L s' := by
  cases call with
  | alloc count flags =>
      simp only [poolStep] at hstep
      split at hstep
      · cases hstep
      · rename_i p addr hrun
        split_ifs at hstep
        · cases hstep
          exact sized_alloc h hrun _
        · obtain ⟨id, -, rfl⟩ := Option.map_eq_some_iff.1 hstep
          exact sized_alloc h hrun _
  | free addr =>
      simp only [poolStep] at hstep
      split at hstep
      · cases hstep
      · rename_i p ret hrun
        split_ifs at hstep
        · cases hstep
          exact sized_free h hrun _
        · obtain ⟨id, -, rfl⟩ := Option.map_eq_some_iff.1 hstep
          exact sized_free h hrun _

end Pool

/-! ## Completeness -/

/-- The size of the smallest blocks a request of `count` pages fits in. -/
def MemRange.SmallestFor (r : MemRange) (count size : ℕ) : Prop :=
  IsLeast {x | ∃ j < memSectionMaxNr, (r.sections j).sectionSize = x ∧ count ≤ x} size

/-- No smaller section than the one of the request is large enough. -/
theorem orderOf_le {count j : ℕ} (hj : j < memSectionMaxNr) (h : count ≤ 2 ^ j) :
    orderOf count ≤ j := by
  unfold orderOf
  cases hf : (List.range memSectionMaxNr).find? fun i => decide (count ≤ 2 ^ i) with
  | none =>
      have := List.find?_eq_none.1 hf j (List.mem_range.2 hj)
      exact absurd (decide_eq_true h) this
  | some i =>
      obtain ⟨-, -, hbefore⟩ := List.find?_range_eq_some.1 hf
      by_contra hlt
      have := hbefore j (not_le.1 hlt)
      simp [h] at this

theorem smallestFor_orderOf {r : MemRange} (h : r.Sized) {count : ℕ}
    (hmax : count ≤ memSectionMaxSize) : r.SmallestFor count (2 ^ orderOf count) := by
  refine ⟨⟨orderOf count, orderOf_lt count, h _ (orderOf_lt count), le_two_pow_orderOf hmax⟩, ?_⟩
  rintro x ⟨j, hj, rfl, hcount⟩
  rw [h j hj] at hcount ⊢
  exact Nat.pow_le_pow_right (by decide) (orderOf_le hj hcount)

/-- Room for a request is a free block of a section that is no smaller. -/
theorem hasRoom_iff {r : MemRange} (h : r.Sized) {count : ℕ} (hmax : count ≤ memSectionMaxSize) :
    r.HasRoom count ↔ ∃ i < memSectionMaxNr, (r.sections i).freeList ≠ [] ∧
      ∃ size, r.SmallestFor count size ∧ size ≤ (r.sections i).sectionSize := by
  constructor
  · rintro ⟨i, hle, hi, hne⟩
    refine ⟨i, hi, hne, 2 ^ orderOf count, smallestFor_orderOf h hmax, ?_⟩
    rw [h i hi]
    exact Nat.pow_le_pow_right (by decide) hle
  · rintro ⟨i, hi, hne, size, hsmallest, hsize⟩
    refine ⟨i, orderOf_le hi ?_, hi, hne⟩
    obtain ⟨-, -, -, hcount⟩ := hsmallest.1
    rw [← h i hi]
    exact hcount.trans hsize

/-- The recursion of the split comes back, from whatever section it is started. -/
theorem memRangeSplitSection_returns {r : MemRange} (h : r.Sized) {i : ℕ}
    (hi : i < memSectionMaxNr) :
    ∃ r' ret, memRangeSplitSection memSectionMaxNr r i = some (r', ret) := by
  have hkeeps := memRangeSplitSection_keeps (P := MemRange.Sized) (s := i) (fun _ h => h)
    (fun r u _ _ h _ _ => sized_splitOnce h (u + 1)) memSectionMaxNr r h
  by_cases hfull : ∀ t, i ≤ t → t < memSectionMaxNr → (r.sections t).freeList = []
  · exact ⟨r, -1, memRangeSplitSection_noRoom 11 hfull hi⟩
  · push Not at hfull
    obtain ⟨t, hit, ht, hne⟩ := hfull
    rcases eq_or_lt_of_le hit with rfl | hlt
    · obtain ⟨r', hsplit, -⟩ := hkeeps (Or.inl ⟨hne, by decide⟩)
      exact ⟨r', 0, hsplit⟩
    · obtain ⟨r', hsplit, -⟩ := hkeeps (Or.inr ⟨t, hlt, ht, hne, by omega⟩)
      exact ⟨r', 0, hsplit⟩

/-- **An allocation succeeds exactly when there is room.**  After any calls, a request the
pool serves comes back, with an address other than zero if and only if its range has a free
block in a section no smaller than the smallest one the request fits in; if not, nothing has
changed in any range.  The split, from whatever section it is asked for, comes back too. -/
theorem memNodeAllocPages_complete (L : PoolLayout) (boot : MemRangeIdx → ℕ → MemNode)
    (calls : List PoolCall) (s : PoolState)
    (hrun : Run.exec poolStep (L.init boot) calls = some s) (count flags : ℕ) (id : MemRangeIdx)
    (hpos : 1 ≤ count) (hmax : count ≤ memSectionMaxSize)
    (hid : memRangeOfFlags flags = some id) :
    ∃ p addr, memNodeAllocPages s.ranges count flags = some (p, addr) ∧
      (addr ≠ 0 ↔ ∃ i < memSectionMaxNr, ((s.ranges id).sections i).freeList ≠ [] ∧
        ∃ size, (s.ranges id).SmallestFor count size ∧
          size ≤ ((s.ranges id).sections i).sectionSize) ∧
      (addr = 0 → p = s.ranges) ∧
      ∀ i < memSectionMaxNr, ∃ r' ret,
        memRangeSplitSection memSectionMaxNr (s.ranges id) i = some (r', ret) := by
  have hsized : PoolSized L s :=
    Run.exec_keeps sized_step calls (L.init boot) s (poolSized_init L boot) hrun
  have hreturns : ∀ i < memSectionMaxNr, ∃ r' ret,
      memRangeSplitSection memSectionMaxNr (s.ranges id) i = some (r', ret) :=
    fun i hi => memRangeSplitSection_returns (hsized id).1 hi
  rw [← hasRoom_iff (hsized id).1 hmax]
  by_cases hroom : (s.ranges id).HasRoom count
  · obtain ⟨r, addr, halloc, haddr, -⟩ := memNodeAllocPages_hasRoom hsized hpos hmax hid hroom
    exact ⟨_, addr, halloc, iff_of_true haddr hroom, fun h => absurd h haddr, hreturns⟩
  · exact ⟨s.ranges, 0, memNodeAllocPages_full hsized hpos hmax hid hroom,
      iff_of_false (fun h => h rfl) hroom, fun _ => rfl, hreturns⟩

/-- The three user pages of the small machine are three blocks.  With one of them left, a request
for two pages finds no room. -/
theorem memNodeAllocPages_complete_smallLayout :
    ∃ s, Run.exec poolStep (smallLayout.init clearBoot)
        [.alloc 1 memNodeTypeUser, .alloc 1 memNodeTypeUser] = some s ∧
      ∃ p addr, memNodeAllocPages s.ranges 2 memNodeTypeUser = some (p, addr) ∧
        (addr ≠ 0 ↔ ∃ i < memSectionMaxNr, ((s.ranges .user).sections i).freeList ≠ [] ∧
          ∃ size, (s.ranges .user).SmallestFor 2 size ∧
            size ≤ ((s.ranges .user).sections i).sectionSize) ∧
        (addr = 0 → p = s.ranges) ∧
        ∀ i < memSectionMaxNr, ∃ r' ret,
          memRangeSplitSection memSectionMaxNr (s.ranges .user) i = some (r', ret) := by
  have hsome : (Run.exec poolStep (smallLayout.init clearBoot)
      [.alloc 1 memNodeTypeUser, .alloc 1 memNodeTypeUser]).isSome = true := by decide +kernel
  obtain ⟨s, hs⟩ := Option.isSome_iff_exists.1 hsome
  exact ⟨s, hs, memNodeAllocPages_complete smallLayout clearBoot _ s hs 2 memNodeTypeUser .user
    (by decide) (by decide) (by decide)⟩

end MemPool
end LightOS
