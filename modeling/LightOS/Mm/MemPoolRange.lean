import LightOS.Mm.MemPoolBasic

/-!
# The physical page pool: one range

The invariant of one memory range and the operations that keep it.  The free
blocks on the section lists together with the blocks of the live allocations
tile the pages of the range; the marks in the node table say which section a
block belongs to, well enough for a free to put it back where it came from.

* `memRangeInit_inv` — `mem_range_init` establishes the invariant, whatever the
  length of the range.
* `memRangeSplitSection_keeps` — the recursive split comes back and keeps it.
* `memRangeAllocPages_spec`, `memRangeFreePages_spec` — an allocation makes one
  free block live, a free makes one live block free, and a call that fails
  changes nothing.
-/

namespace LightOS
namespace MemPool

open Tiling

/-! ## Blocks -/

/-- An allocation that has not been freed: the first page of its block and the
number of pages that was asked for. -/
structure LiveAlloc where
  node : ℕ
  count : ℕ
  deriving DecidableEq, Repr

/-- The block an allocation occupies: a whole block of the section it came from. -/
def LiveAlloc.block (a : LiveAlloc) : Block := ⟨a.node, 2 ^ orderOf a.count⟩

/-- The free blocks of section `i`. -/
def MemRange.sectionBlocks (r : MemRange) (i : ℕ) : List Block :=
  (r.sections i).freeList.map fun n => ⟨n, 2 ^ i⟩

/-- The free blocks of the range, section after section. -/
def MemRange.freeBlocks (r : MemRange) : List Block :=
  (List.range memSectionMaxNr).flatMap r.sectionBlocks

/-- All blocks of the range: the free ones and those of the live allocations. -/
def MemRange.blocks (r : MemRange) (live : List LiveAlloc) : List Block :=
  r.freeBlocks ++ live.map LiveAlloc.block

theorem mem_freeBlocks {r : MemRange} {b : Block} :
    b ∈ r.freeBlocks ↔
      ∃ i < memSectionMaxNr, ∃ n ∈ (r.sections i).freeList, b = ⟨n, 2 ^ i⟩ := by
  simp only [MemRange.freeBlocks, List.mem_flatMap, List.mem_range, MemRange.sectionBlocks,
    List.mem_map, eq_comm (a := b)]

theorem mem_blocks {r : MemRange} {live : List LiveAlloc} {b : Block} :
    b ∈ r.blocks live ↔
      (∃ i < memSectionMaxNr, ∃ n ∈ (r.sections i).freeList, b = ⟨n, 2 ^ i⟩) ∨
        ∃ a ∈ live, b = a.block := by
  rw [MemRange.blocks, List.mem_append, mem_freeBlocks, List.mem_map]
  simp only [eq_comm (a := b)]

/-- Blocks are never empty. -/
theorem size_pos_of_mem_blocks {r : MemRange} {live : List LiveAlloc} {b : Block}
    (h : b ∈ r.blocks live) : 0 < b.size := by
  rcases mem_blocks.1 h with ⟨i, -, n, -, rfl⟩ | ⟨a, -, rfl⟩
  · exact Nat.two_pow_pos i
  · exact Nat.two_pow_pos _

/-- Putting a node on one free list, wherever in it, adds its block to the free
blocks. -/
theorem freeBlocks_push {r r' : MemRange} {i n : ℕ} (hi : i < memSectionMaxNr)
    (hlist : (r'.sections i).freeList.Perm (n :: (r.sections i).freeList))
    (hother : ∀ j ≠ i, (r'.sections j).freeList = (r.sections j).freeList) :
    r'.freeBlocks.Perm (⟨n, 2 ^ i⟩ :: r.freeBlocks) := by
  have hfam : r'.freeBlocks.Perm ((List.range memSectionMaxNr).flatMap
      (Function.update r.sectionBlocks i (⟨n, 2 ^ i⟩ :: r.sectionBlocks i))) := by
    apply List.Perm.flatMap_left _
    intro j _
    by_cases hj : j = i
    · subst hj
      rw [Function.update_self]
      exact hlist.map _
    · rw [Function.update_of_ne hj, MemRange.sectionBlocks, hother j hj]
      exact List.Perm.refl _
  exact hfam.trans (perm_flatMap_update _ _ hi)

/-! ## The invariant of a range -/

/-- The invariant of a range whose node table started with the contents `boot`
and whose live allocations are `live`, apart from its counters. -/
structure MemRange.Shape (boot : ℕ → MemNode) (r : MemRange) (live : List LiveAlloc) : Prop where
  /-- Section `i` holds blocks of `2 ^ i` pages. -/
  size : ∀ i < memSectionMaxNr, (r.sections i).sectionSize = 2 ^ i
  /-- Free and live blocks tile the pages of the range. -/
  tiles : Tiles (r.blocks live) r.pages
  /-- A free node is marked with its section, or not at all once it was freed. -/
  freeNode : ∀ i < memSectionMaxNr, ∀ n ∈ (r.sections i).freeList,
    (r.nodeTable n).memSection = none ∨ (r.nodeTable n).memSection = some i
  /-- The node of a live allocation is marked with the section it came from. -/
  liveNode : ∀ a ∈ live, (r.nodeTable a.node).memSection = some (orderOf a.count)
  /-- Only sizes the allocator serves are live. -/
  liveCount : ∀ a ∈ live, 0 < a.count ∧ a.count ≤ memSectionMaxSize
  /-- A node that heads no block still has its boot contents. -/
  interior : ∀ n, (∀ b ∈ r.blocks live, b.start ≠ n) →
    (r.nodeTable n).memSection = (boot n).memSection

/-- The invariant of a range: its shape, and counters that count. -/
structure MemRange.Inv (boot : ℕ → MemNode) (r : MemRange) (live : List LiveAlloc) : Prop
    extends MemRange.Shape boot r live where
  count : ∀ i < memSectionMaxNr, (r.sections i).nodeCount = (r.sections i).freeList.length

/-- No block but `b` starts inside `b`. -/
theorem start_ne_of_tiles {b c : Block} {bs : List Block} {n m : ℕ} (h : Tiles (b :: bs) n)
    (hc : c ∈ bs) (hpos : 0 < c.size) (hm : b.Has m) : c.start ≠ m := by
  rintro rfl
  exact h.not_has_start hc hpos hm

/-! ## Splitting -/

/-- The lists and the nodes after one split of section `u + 1`. -/
theorem splitOnce_fields {r : MemRange} {u node : ℕ} {rest : List ℕ}
    (hlist : (r.sections (u + 1)).freeList = node :: rest)
    (hsize : (r.sections (u + 1)).sectionSize = 2 ^ (u + 1)) :
    (memRangeSplitOnce r (u + 1)).sections (u + 1) =
        { r.sections (u + 1) with
          freeList := rest, nodeCount := (r.sections (u + 1)).nodeCount - 1 } ∧
      (memRangeSplitOnce r (u + 1)).sections u =
        { r.sections u with
          freeList := (node + 2 ^ u) :: node :: (r.sections u).freeList
          nodeCount := (r.sections u).nodeCount + 2 } ∧
      (∀ j, j ≠ u → j ≠ u + 1 → (memRangeSplitOnce r (u + 1)).sections j = r.sections j) ∧
      (∀ n, n = node ∨ n = node + 2 ^ u →
        ((memRangeSplitOnce r (u + 1)).nodeTable n).memSection = some u) ∧
      (∀ n, n ≠ node → n ≠ node + 2 ^ u →
        (memRangeSplitOnce r (u + 1)).nodeTable n = r.nodeTable n) ∧
      (memRangeSplitOnce r (u + 1)).pages = r.pages := by
  have hhalf : (r.sections (u + 1)).sectionSize / 2 = 2 ^ u := by
    rw [hsize, pow_succ, Nat.mul_div_cancel _ (by norm_num)]
  simp only [memRangeSplitOnce, hlist, hhalf, Nat.add_sub_cancel]
  refine ⟨?_, ?_, ?_, ?_, ?_, rfl⟩
  · rw [setSection_sections_of_ne _ _ _ (by omega)]
    simp
  · simp
  · intro j hju hjt
    rw [setSection_sections_of_ne _ _ _ hju, setNode_sections, setNode_sections,
      setSection_sections_of_ne _ _ _ hjt]
  · rintro n (rfl | rfl)
    · by_cases hn : n = n + 2 ^ u
      · exact absurd hn (by have := Nat.two_pow_pos u; omega)
      · rw [setSection_nodeTable, setNode_nodeTable_of_ne _ _ _ hn, setNode_nodeTable_self]
    · rw [setSection_nodeTable, setNode_nodeTable_self]
  · intro n hn hn'
    rw [setSection_nodeTable, setNode_nodeTable_of_ne _ _ _ hn',
      setNode_nodeTable_of_ne _ _ _ hn, setSection_nodeTable]

/-- The blocks before a split are the block that is cut and the others, the
blocks after it are the two halves and the others. -/
theorem splitOnce_blocks {r : MemRange} (live : List LiveAlloc) {u node : ℕ} {rest : List ℕ}
    (hu : u + 1 < memSectionMaxNr) (hlist : (r.sections (u + 1)).freeList = node :: rest)
    (hsize : (r.sections (u + 1)).sectionSize = 2 ^ (u + 1)) :
    ∃ bs, (r.blocks live).Perm (⟨node, 2 * 2 ^ u⟩ :: bs) ∧
      ((memRangeSplitOnce r (u + 1)).blocks live).Perm
        (⟨node + 2 ^ u, 2 ^ u⟩ :: ⟨node, 2 ^ u⟩ :: bs) ∧
      ∀ a ∈ live, a.block ∈ bs := by
  obtain ⟨ht, hb, hother, -, -, -⟩ := splitOnce_fields hlist hsize
  -- the range with the block taken off its list, and with the first half put back
  let r₁ : MemRange := r.setSection (u + 1) { r.sections (u + 1) with freeList := rest }
  let r₂ : MemRange := r₁.setSection u
    { r.sections u with freeList := node :: (r.sections u).freeList }
  have h₁ : r.freeBlocks.Perm (⟨node, 2 ^ (u + 1)⟩ :: r₁.freeBlocks) := by
    refine freeBlocks_push hu ?_ fun j hj => ?_
    · rw [hlist, setSection_sections_self]
    · rw [setSection_sections_of_ne _ _ _ hj]
  have h₂ : r₂.freeBlocks.Perm (⟨node, 2 ^ u⟩ :: r₁.freeBlocks) := by
    refine freeBlocks_push (by omega) ?_ fun j hj => ?_
    · rw [setSection_sections_self, setSection_sections_of_ne _ _ _ (by omega)]
    · rw [setSection_sections_of_ne _ _ _ hj]
  have h₃ : (memRangeSplitOnce r (u + 1)).freeBlocks.Perm
      (⟨node + 2 ^ u, 2 ^ u⟩ :: r₂.freeBlocks) := by
    refine freeBlocks_push (by omega) ?_ fun j hj => ?_
    · rw [hb, setSection_sections_self]
    · rw [setSection_sections_of_ne _ _ _ hj]
      by_cases hjt : j = u + 1
      · subst hjt
        rw [ht, setSection_sections_self]
      · rw [setSection_sections_of_ne _ _ _ hjt, hother j hj hjt]
  refine ⟨r₁.freeBlocks ++ live.map LiveAlloc.block, ?_, ?_, ?_⟩
  · rw [← pow_succ']
    exact h₁.append_right _
  · exact (h₃.trans (h₂.cons _)).append_right _
  · exact fun a ha => List.mem_append_right _ (List.mem_map_of_mem ha)

theorem inv_splitOnce {boot : ℕ → MemNode} {r : MemRange} {live : List LiveAlloc}
    (h : r.Inv boot live) {u node : ℕ} {rest : List ℕ} (hu : u + 1 < memSectionMaxNr)
    (hlist : (r.sections (u + 1)).freeList = node :: rest) :
    (memRangeSplitOnce r (u + 1)).Inv boot live := by
  have hsize := h.size (u + 1) hu
  obtain ⟨ht, hb, hother, hmark, hkeep, hpages⟩ := splitOnce_fields hlist hsize
  obtain ⟨bs, hold, hnew, hlive⟩ := splitOnce_blocks live hu hlist hsize
  have htiles : Tiles (⟨node, 2 * 2 ^ u⟩ :: bs) r.pages := h.tiles.perm hold
  have hpow := Nat.two_pow_pos u
  -- no other block starts at a node the split writes
  have hfar : ∀ b ∈ bs, b.start ≠ node ∧ b.start ≠ node + 2 ^ u := by
    intro b hbs
    have hpos := size_pos_of_mem_blocks (hold.mem_iff.2 (List.mem_cons_of_mem _ hbs))
    exact ⟨start_ne_of_tiles htiles hbs hpos (has_mk.2 ⟨by omega, by omega⟩),
      start_ne_of_tiles htiles hbs hpos (has_mk.2 ⟨by omega, by omega⟩)⟩
  refine ⟨⟨?_, ?_, ?_, ?_, h.liveCount, ?_⟩, ?_⟩
  · intro i hi
    by_cases hiu : i = u
    · rw [hiu, hb]; exact h.size u (by omega)
    · by_cases hit : i = u + 1
      · rw [hit, ht]; exact hsize
      · rw [hother i hiu hit]; exact h.size i hi
  · rw [hpages]
    exact htiles.halve.perm hnew.symm
  · intro i hi n hn
    by_cases hnode : n = node ∨ n = node + 2 ^ u
    · -- a node the split marked is on the list of section `u`, and on no other
      have hmem : (⟨n, 2 ^ i⟩ : Block) ∈
          ⟨node + 2 ^ u, 2 ^ u⟩ :: ⟨node, 2 ^ u⟩ :: bs :=
        hnew.mem_iff.1 (mem_blocks.2 (Or.inl ⟨i, hi, n, hn, rfl⟩))
      have hiu : 2 ^ i = 2 ^ u := by
        rcases List.mem_cons.1 hmem with heq | hmem
        · exact congrArg Block.size heq
        · rcases List.mem_cons.1 hmem with heq | hmem
          · exact congrArg Block.size heq
          · rcases hnode with hn' | hn'
            · exact absurd hn' (hfar _ hmem).1
            · exact absurd hn' (hfar _ hmem).2
      rw [Nat.pow_right_injective (le_refl 2) hiu]
      exact Or.inr (hmark n hnode)
    · obtain ⟨hn₁, hn₂⟩ := not_or.1 hnode
      rw [hkeep n hn₁ hn₂]
      apply h.freeNode i hi n
      by_cases hiu : i = u
      · subst hiu
        rw [hb] at hn
        simpa [hn₁, hn₂] using hn
      · by_cases hit : i = u + 1
        · subst hit
          rw [ht] at hn
          rw [hlist]
          exact List.mem_cons_of_mem _ hn
        · rwa [hother i hiu hit] at hn
  · intro a ha
    have hbs := hfar _ (hlive a ha)
    rw [hkeep a.node hbs.1 hbs.2]
    exact h.liveNode a ha
  · intro n hn
    have hn₁ : n ≠ node := fun heq =>
      hn ⟨node, 2 ^ u⟩ (hnew.mem_iff.2 (by simp)) heq.symm
    have hn₂ : n ≠ node + 2 ^ u := fun heq =>
      hn ⟨node + 2 ^ u, 2 ^ u⟩ (hnew.mem_iff.2 (by simp)) heq.symm
    rw [hkeep n hn₁ hn₂]
    apply h.interior n
    intro b hb'
    rcases List.mem_cons.1 (hold.mem_iff.1 hb') with rfl | hbs
    · exact Ne.symm hn₁
    · exact hn b (hnew.mem_iff.2 (by simp [hbs]))
  · intro i hi
    by_cases hiu : i = u
    · rw [hiu, hb, h.count u (by omega)]; rfl
    · by_cases hit : i = u + 1
      · rw [hit, ht, h.count (u + 1) hu, hlist]; rfl
      · rw [hother i hiu hit]; exact h.count i hi

theorem memRangeNextFree_spec {r : MemRange} {s t : ℕ} (h : memRangeNextFree r s = some t) :
    s < t ∧ t < memSectionMaxNr ∧ (r.sections t).freeList ≠ [] := by
  have hmem := List.mem_range'_1.1 (List.mem_of_find?_eq_some h)
  have hne := List.find?_some h
  refine ⟨by omega, by omega, ?_⟩
  simpa using hne

/-- The search finds a section no higher than any section with a free block. -/
theorem memRangeNextFree_le {r : MemRange} {s t : ℕ} (hst : s < t) (ht : t < memSectionMaxNr)
    (hne : (r.sections t).freeList ≠ []) : ∃ t' ≤ t, memRangeNextFree r s = some t' := by
  have hmem : t ∈ List.range' (s + 1) (memSectionMaxNr - 1 - s) :=
    List.mem_range'_1.2 ⟨by omega, by omega⟩
  cases hf : memRangeNextFree r s with
  | none =>
      have := List.find?_eq_none.1 hf t hmem
      exact absurd (by simpa using hne) this
  | some t' =>
      refine ⟨t', ?_, rfl⟩
      by_contra hlt
      obtain ⟨-, as, bs, heq, hbefore⟩ := List.find?_eq_some_iff_append.1 hf
      have hsorted : (as ++ t' :: bs).Pairwise (· < ·) := by
        rw [← heq]
        exact List.pairwise_lt_range'
      have hin : t ∈ as := by
        rw [heq, List.mem_append, List.mem_cons] at hmem
        rcases hmem with hin | rfl | hin
        · exact hin
        · omega
        · have := (List.pairwise_cons.1 (List.pairwise_append.1 hsorted).2.1).1 t hin
          omega
      exact absurd (hbefore t hin) (by simpa using hne)

/-- Without a free block above, splitting gives up at once. -/
theorem memRangeSplitSection_noRoom {r : MemRange} {s : ℕ} (fuel : ℕ)
    (hfull : ∀ t, s ≤ t → t < memSectionMaxNr → (r.sections t).freeList = [])
    (hs : s < memSectionMaxNr) : memRangeSplitSection (fuel + 1) r s = some (r, -1) := by
  have hnone : memRangeNextFree r s = none := by
    cases hf : memRangeNextFree r s with
    | none => rfl
    | some t =>
        obtain ⟨hst, ht, hne⟩ := memRangeNextFree_spec hf
        exact absurd (hfull t hst.le ht) hne
  simp [memRangeSplitSection, hfull s le_rfl hs, hnone]

/-- **Splitting returns and does its work**, and keeps whatever a single split
keeps.  When some section at or above `s` has a free block,
`mem_range_split_section` comes back after at most one recursive call for each
section in between, and then section `s` has a free block. -/
theorem memRangeSplitSection_keeps {P : MemRange → Prop} {s : ℕ}
    (hsize : ∀ r, P r → ∀ i < memSectionMaxNr, (r.sections i).sectionSize = 2 ^ i)
    (hkeep : ∀ r u node rest, P r → u + 1 < memSectionMaxNr →
      (r.sections (u + 1)).freeList = node :: rest → P (memRangeSplitOnce r (u + 1))) :
    ∀ (fuel : ℕ) (r : MemRange), P r →
      (((r.sections s).freeList ≠ [] ∧ 0 < fuel) ∨
        (∃ t, s < t ∧ t < memSectionMaxNr ∧ (r.sections t).freeList ≠ [] ∧ t - s < fuel)) →
      ∃ r', memRangeSplitSection fuel r s = some (r', 0) ∧ P r' ∧
        (r'.sections s).freeList ≠ [] ∧ r'.start = r.start ∧ r'.end_ = r.end_ ∧
        r'.pages = r.pages := by
  intro fuel
  induction fuel with
  | zero =>
      rintro r - (⟨-, h⟩ | ⟨t, -, -, -, h⟩)
      · exact absurd h (lt_irrefl _)
      · exact absurd h (Nat.not_lt_zero _)
  | succ fuel ih =>
      intro r hP hroom
      rw [memRangeSplitSection]
      by_cases hs : (r.sections s).freeList = []
      · obtain ⟨t, hst, ht, hne, hfuel⟩ : ∃ t, s < t ∧ t < memSectionMaxNr ∧
            (r.sections t).freeList ≠ [] ∧ t - s < fuel + 1 := by
          rcases hroom with ⟨h, -⟩ | h
          · exact absurd hs h
          · exact h
        obtain ⟨t', hle, hfind⟩ := memRangeNextFree_le hst ht hne
        obtain ⟨hst', ht', hne'⟩ := memRangeNextFree_spec hfind
        obtain ⟨u, rfl⟩ : ∃ u, t' = u + 1 := ⟨t' - 1, by omega⟩
        obtain ⟨node, rest, hlist⟩ := List.exists_cons_of_ne_nil hne'
        have hP' := hkeep r u node rest hP ht' hlist
        obtain ⟨-, hb, -, -, -, hpages⟩ := splitOnce_fields hlist (hsize r hP (u + 1) ht')
        have hne'' : ((memRangeSplitOnce r (u + 1)).sections u).freeList ≠ [] := by
          rw [hb]
          simp
        have hnext : ((((memRangeSplitOnce r (u + 1)).sections s).freeList ≠ [] ∧ 0 < fuel) ∨
            ∃ t, s < t ∧ t < memSectionMaxNr ∧
              ((memRangeSplitOnce r (u + 1)).sections t).freeList ≠ [] ∧ t - s < fuel) := by
          by_cases hus : u = s
          · subst hus
            exact Or.inl ⟨hne'', by omega⟩
          · exact Or.inr ⟨u, by omega, by omega, hne'', by omega⟩
        obtain ⟨r', hr', hP'', hdone, hstart, hend, hpg⟩ := ih _ hP' hnext
        refine ⟨r', ?_, hP'', hdone, ?_, ?_, hpg.trans hpages⟩
        · rw [if_neg (by simpa using hs), hfind]
          exact hr'
        · rw [hstart]
          simp only [memRangeSplitOnce, hlist]
          rfl
        · rw [hend]
          simp only [memRangeSplitOnce, hlist]
          rfl
      · exact ⟨r, by rw [if_pos (by simpa using hs)], hP, hs, rfl, rfl, rfl⟩

/-! ## Allocating -/

/-- Taking the first block of the section of a request turns that block from a
free one into a live one. -/
theorem inv_takeFirst {boot : ℕ → MemNode} {r : MemRange} {live : List LiveAlloc}
    (h : r.Inv boot live) {count node : ℕ} {rest : List ℕ} (hpos : 0 < count)
    (hmax : count ≤ memSectionMaxSize)
    (hlist : (r.sections (orderOf count)).freeList = node :: rest) :
    (memRangeTakeFirst r (orderOf count) count).1.Inv boot (⟨node, count⟩ :: live) ∧
      (memRangeTakeFirst r (orderOf count) count).2 = node * pageSize + r.start := by
  set i := orderOf count with hi
  have hilt : i < memSectionMaxNr := orderOf_lt count
  simp only [memRangeTakeFirst, hlist]
  refine ⟨?_, trivial⟩
  set r' : MemRange := (r.setSection i { r.sections i with
      freeList := rest, nodeCount := (r.sections i).nodeCount - 1 }).setNode node
    { memNodeInit 1 count with memSection := some i } with hr'
  have hself : (r'.sections i).freeList = rest := by
    rw [hr', setNode_sections, setSection_sections_self]
  have hother : ∀ j ≠ i, r'.sections j = r.sections j := fun j hj => by
    rw [hr', setNode_sections, setSection_sections_of_ne _ _ _ hj]
  have hfree : r.freeBlocks.Perm (⟨node, 2 ^ i⟩ :: r'.freeBlocks) := by
    refine freeBlocks_push hilt ?_ fun j hj => ?_
    · rw [hlist, hself]
    · rw [hother j hj]
  have hold : (r.blocks live).Perm
      (⟨node, 2 ^ i⟩ :: (r'.freeBlocks ++ live.map LiveAlloc.block)) :=
    hfree.append_right _
  have hnew : (r'.blocks (⟨node, count⟩ :: live)).Perm
      (⟨node, 2 ^ i⟩ :: (r'.freeBlocks ++ live.map LiveAlloc.block)) := List.perm_middle
  have htiles := h.tiles.perm hold
  have hhas : (⟨node, 2 ^ i⟩ : Block).Has node :=
    has_mk.2 ⟨le_refl _, by have := Nat.two_pow_pos i; omega⟩
  have hfar : ∀ b ∈ r'.freeBlocks ++ live.map LiveAlloc.block, b.start ≠ node := fun b hb =>
    start_ne_of_tiles htiles hb
      (size_pos_of_mem_blocks (hold.mem_iff.2 (List.mem_cons_of_mem _ hb))) hhas
  have hkeep : ∀ n ≠ node, r'.nodeTable n = r.nodeTable n := fun n hn => by
    rw [hr', setNode_nodeTable_of_ne _ _ _ hn, setSection_nodeTable]
  refine ⟨⟨?_, ?_, ?_, ?_, ?_, ?_⟩, ?_⟩
  · intro j hj
    by_cases hji : j = i
    · rw [hji, hr', setNode_sections, setSection_sections_self]
      exact h.size i hilt
    · rw [hother j hji]; exact h.size j hj
  · exact htiles.perm hnew.symm
  · intro j hj n hn
    have hne : n ≠ node := hfar ⟨n, 2 ^ j⟩
      (List.mem_append_left _ (mem_freeBlocks.2 ⟨j, hj, n, hn, rfl⟩))
    rw [hkeep n hne]
    apply h.freeNode j hj n
    by_cases hji : j = i
    · subst hji
      rw [hself] at hn
      rw [hlist]
      exact List.mem_cons_of_mem _ hn
    · rwa [hother j hji] at hn
  · intro a ha
    rcases List.mem_cons.1 ha with rfl | ha
    · rw [hr', setNode_nodeTable_self]
    · rw [hkeep a.node (hfar a.block (List.mem_append_right _ (List.mem_map_of_mem ha)))]
      exact h.liveNode a ha
  · intro a ha
    rcases List.mem_cons.1 ha with rfl | ha
    · exact ⟨hpos, hmax⟩
    · exact h.liveCount a ha
  · intro n hn
    have hne : n ≠ node := fun heq =>
      hn ⟨node, 2 ^ i⟩ (hnew.mem_iff.2 (List.mem_cons_self ..)) heq.symm
    rw [hkeep n hne]
    exact h.interior n fun b hb => hn b (hnew.mem_iff.2 (hold.mem_iff.1 hb))
  · intro j hj
    by_cases hji : j = i
    · rw [hji, hself, hr', setNode_sections, setSection_sections_self]
      show (r.sections i).nodeCount - 1 = rest.length
      rw [h.count i hilt, hlist]
      rfl
    · rw [hother j hji]; exact h.count j hj

/-- The sections a request can be served from. -/
def MemRange.HasRoom (r : MemRange) (count : ℕ) : Prop :=
  ∃ t, orderOf count ≤ t ∧ t < memSectionMaxNr ∧ (r.sections t).freeList ≠ []

/-- Without room nothing happens. -/
theorem memRangeAllocPages_noRoom {r : MemRange} {count : ℕ}
    (hsize : ∀ i < memSectionMaxNr, (r.sections i).sectionSize = 2 ^ i)
    (hroom : ¬ r.HasRoom count) : memRangeAllocPages r count = some (r, 0) := by
  have hfull : ∀ t, orderOf count ≤ t → t < memSectionMaxNr → (r.sections t).freeList = [] := by
    intro t ht hlt
    by_contra hne
    exact hroom ⟨t, ht, hlt, hne⟩
  have hempty := hfull _ le_rfl (orderOf_lt count)
  have hsplit : memRangeSplitSection memSectionMaxNr r (orderOf count) = some (r, -1) :=
    memRangeSplitSection_noRoom 11 hfull (orderOf_lt count)
  unfold memRangeAllocPages
  simp only [memRangeSectionFor_eq hsize, hsplit]
  rw [if_pos (by simpa using hempty)]
  split_ifs with htop hneg
  · rfl
  · rfl
  · exact absurd (by decide) hneg

/-- With room the section of the request is filled, if need be, and its first
block is taken. -/
theorem memRangeAllocPages_room {P : MemRange → Prop} {r : MemRange} {count : ℕ}
    (hsize : ∀ r, P r → ∀ i < memSectionMaxNr, (r.sections i).sectionSize = 2 ^ i)
    (hkeep : ∀ r u node rest, P r → u + 1 < memSectionMaxNr →
      (r.sections (u + 1)).freeList = node :: rest → P (memRangeSplitOnce r (u + 1)))
    (h : P r) (hroom : r.HasRoom count) :
    ∃ r' node rest, memRangeAllocPages r count =
        some (memRangeTakeFirst r' (orderOf count) count) ∧ P r' ∧
      (r'.sections (orderOf count)).freeList = node :: rest ∧ r'.start = r.start ∧
      r'.end_ = r.end_ ∧ r'.pages = r.pages := by
  unfold memRangeAllocPages
  simp only [memRangeSectionFor_eq (hsize r h)]
  by_cases hempty : (r.sections (orderOf count)).freeList = []
  · obtain ⟨t, hst, ht, hne⟩ := hroom
    have hlt : orderOf count < t := lt_of_le_of_ne hst fun heq => hne (heq ▸ hempty)
    have htop : (r.sections (orderOf count)).sectionSize ≠ memSectionMaxSize := by
      rw [hsize r h _ (orderOf_lt count)]
      intro heq
      have h11 : orderOf count = 11 :=
        Nat.pow_right_injective le_rfl (heq.trans (by norm_num : memSectionMaxSize = 2 ^ 11))
      have : t < 12 := ht
      omega
    obtain ⟨r', hsplit, hP', hne', hplace⟩ := memRangeSplitSection_keeps hsize hkeep
      memSectionMaxNr r h (Or.inr ⟨t, hlt, ht, hne, by omega⟩)
    obtain ⟨node, rest, hlist⟩ := List.exists_cons_of_ne_nil hne'
    refine ⟨r', node, rest, ?_, hP', hlist, hplace⟩
    rw [if_pos (by simpa using hempty), if_neg htop, hsplit]
    exact if_neg (lt_irrefl _)
  · obtain ⟨node, rest, hlist⟩ := List.exists_cons_of_ne_nil hempty
    exact ⟨r, node, rest, if_neg (by simpa using hempty), h, hlist, rfl, rfl, rfl⟩

/-- **Allocation in a range.**  It always comes back: either with address zero
and the range as it was, or with the address of a block that has become live. -/
theorem memRangeAllocPages_spec {boot : ℕ → MemNode} {r : MemRange} {live : List LiveAlloc}
    (h : r.Inv boot live) {count : ℕ} (hpos : 0 < count) (hmax : count ≤ memSectionMaxSize) :
    memRangeAllocPages r count = some (r, 0) ∨
      ∃ r' node, memRangeAllocPages r count = some (r', node * pageSize + r.start) ∧
        r'.Inv boot (⟨node, count⟩ :: live) ∧ r'.start = r.start ∧ r'.end_ = r.end_ ∧
        r'.pages = r.pages := by
  by_cases hroom : r.HasRoom count
  · obtain ⟨r', node, rest, halloc, hinv, hlist, hstart, hend, hpages⟩ :=
      memRangeAllocPages_room (P := fun r => r.Inv boot live) (fun _ h => h.size)
        (fun _ _ _ _ h hu hlist => inv_splitOnce h hu hlist) h hroom
    obtain ⟨hinv', haddr⟩ := inv_takeFirst hinv hpos hmax hlist
    refine Or.inr ⟨(memRangeTakeFirst r' (orderOf count) count).1, node, ?_, hinv', ?_, ?_, ?_⟩
    · rw [halloc, ← hstart, ← haddr]
    · simp only [memRangeTakeFirst, hlist]; exact hstart
    · simp only [memRangeTakeFirst, hlist]; exact hend
    · simp only [memRangeTakeFirst, hlist]; exact hpages
  · exact Or.inl (memRangeAllocPages_noRoom h.size hroom)

/-! ## Freeing -/

/-- The allocations that stay live when the block at `node` is freed. -/
def dropNode (live : List LiveAlloc) (node : ℕ) : List LiveAlloc :=
  live.eraseP fun a => decide (a.node = node)

theorem perm_dropNode {live : List LiveAlloc} {a : LiveAlloc} {node : ℕ} (ha : a ∈ live)
    (hnode : a.node = node) : ∃ c, c.node = node ∧ live.Perm (c :: dropNode live node) := by
  obtain ⟨c, l₁, l₂, -, hc, hl, hdrop⟩ :=
    List.exists_of_eraseP (p := fun a => decide (a.node = node)) ha (by simpa using hnode)
  refine ⟨c, by simpa using hc, ?_⟩
  rw [dropNode, hdrop, hl]
  exact List.perm_middle

/-- What a page must satisfy for `mem_node_free_pages` to be called on it: its
node was clear when the node table was handed out, or it is the first page of a
block, that is, `mem_node_alloc_pages` knows it. -/
def MemRange.Known (boot : ℕ → MemNode) (r : MemRange) (live : List LiveAlloc) (n : ℕ) : Prop :=
  (boot n).memSection = none ∨ ∃ b ∈ r.blocks live, b.start = n

/-- A node that is marked with a section and is not on that section's list
belongs to a live allocation from that section. -/
theorem live_of_marked {boot : ℕ → MemNode} {r : MemRange} {live : List LiveAlloc}
    (h : r.Inv boot live) {n i : ℕ} (hknown : r.Known boot live n)
    (hmark : (r.nodeTable n).memSection = some i) (hnot : n ∉ (r.sections i).freeList) :
    ∃ a ∈ live, a.node = n ∧ orderOf a.count = i := by
  have hhead : ∃ b ∈ r.blocks live, b.start = n := by
    rcases hknown with hclear | hhead
    · by_contra hno
      have := h.interior n fun b hb heq => hno ⟨b, hb, heq⟩
      rw [hmark, hclear] at this
      exact absurd this (by simp)
    · exact hhead
  obtain ⟨b, hb, rfl⟩ := hhead
  rcases mem_blocks.1 hb with ⟨j, hj, m, hm, rfl⟩ | ⟨a, ha, rfl⟩
  · rcases h.freeNode j hj m hm with hnone | hsome
    · rw [hnone] at hmark
      exact absurd hmark (by simp)
    · rw [hsome] at hmark
      obtain rfl : j = i := by simpa using hmark
      exact absurd hm hnot
  · refine ⟨a, ha, rfl, ?_⟩
    have := h.liveNode a ha
    rw [show a.node = a.block.start from rfl, hmark] at this
    simpa using this.symm

/-- **Freeing in a range.**  Either nothing happens and the result is `-1`, or the
address lies in the first page of a live block and that block becomes free. -/
theorem memRangeFreePages_spec {boot : ℕ → MemNode} {r : MemRange} {live : List LiveAlloc}
    (h : r.Inv boot live) {addr : ℕ} (hknown : r.Known boot live (r.nodeOf addr)) :
    memRangeFreePages r addr = (r, -1) ∨
      ∃ r', memRangeFreePages r addr = (r', 0) ∧ (∃ a ∈ live, a.node = r.nodeOf addr) ∧
        r'.Inv boot (dropNode live (r.nodeOf addr)) ∧ r'.start = r.start ∧ r'.end_ = r.end_ ∧
        r'.pages = r.pages := by
  unfold memRangeFreePages
  set node := r.nodeOf addr with hnodeOf
  cases hmark : (r.nodeTable node).memSection with
  | none => exact Or.inl (by simp [hmark])
  | some i =>
      simp only [hmark]
      by_cases hin : node ∈ (r.sections i).freeList
      · exact Or.inl (if_pos hin)
      · rw [if_neg hin]
        obtain ⟨a, ha, hanode, horder⟩ := live_of_marked h hknown hmark hin
        obtain ⟨c, hcnode, hperm⟩ := perm_dropNode ha hanode
        have hcmem : c ∈ live := hperm.mem_iff.2 (List.mem_cons_self ..)
        have hcorder : orderOf c.count = i := by
          have := h.liveNode c hcmem
          rw [hcnode, hmark] at this
          simpa using this.symm
        have hilt : i < memSectionMaxNr := horder ▸ orderOf_lt a.count
        refine Or.inr ⟨_, rfl, ⟨a, ha, hanode⟩, ?_, rfl, rfl, rfl⟩
        set r' : MemRange := (r.setNode node (memNodeInit 0 0)).setSection i
          { r.sections i with
            freeList := node :: (r.sections i).freeList
            nodeCount := (r.sections i).nodeCount + 1 } with hr'
        have hself : (r'.sections i).freeList = node :: (r.sections i).freeList := by
          rw [hr', setSection_sections_self]
        have hother : ∀ j ≠ i, r'.sections j = r.sections j := fun j hj => by
          rw [hr', setSection_sections_of_ne _ _ _ hj, setNode_sections]
        have hkeep : ∀ n ≠ node, r'.nodeTable n = r.nodeTable n := fun n hn => by
          rw [hr', setSection_nodeTable, setNode_nodeTable_of_ne _ _ _ hn]
        -- the block moves from the live blocks to the free ones
        set bs := r.freeBlocks ++ (dropNode live node).map LiveAlloc.block with hbs
        have hold : (r.blocks live).Perm (⟨node, 2 ^ i⟩ :: bs) := by
          have hblock : c.block = ⟨node, 2 ^ i⟩ := by rw [LiveAlloc.block, hcnode, hcorder]
          rw [← hblock]
          exact ((hperm.map _).append_left _).trans List.perm_middle
        have hnew : (r'.blocks (dropNode live node)).Perm (⟨node, 2 ^ i⟩ :: bs) := by
          have hfree : r'.freeBlocks.Perm (⟨node, 2 ^ i⟩ :: r.freeBlocks) := by
            refine freeBlocks_push hilt ?_ fun j hj => ?_
            · rw [hself]
            · rw [hother j hj]
          exact hfree.append_right _
        have htiles := h.tiles.perm hold
        have hhas : (⟨node, 2 ^ i⟩ : Block).Has node :=
          has_mk.2 ⟨le_refl _, by have := Nat.two_pow_pos i; omega⟩
        have hsub : ∀ d ∈ dropNode live node, d ∈ live := fun d hd =>
          hperm.mem_iff.2 (List.mem_cons_of_mem _ hd)
        refine ⟨⟨?_, htiles.perm hnew.symm, ?_, ?_, fun d hd => h.liveCount d (hsub d hd), ?_⟩, ?_⟩
        · intro j hj
          by_cases hji : j = i
          · rw [hji, hr', setSection_sections_self]
            exact h.size i hilt
          · rw [hother j hji]; exact h.size j hj
        · intro j hj n hn
          by_cases hne : n = node
          · rw [hne, hr', setSection_nodeTable, setNode_nodeTable_self]
            exact Or.inl rfl
          · rw [hkeep n hne]
            apply h.freeNode j hj n
            by_cases hji : j = i
            · subst hji
              rw [hself] at hn
              exact (List.mem_cons.1 hn).resolve_left hne
            · rwa [hother j hji] at hn
        · intro d hd
          have hdbs : d.block ∈ bs := List.mem_append_right _ (List.mem_map_of_mem hd)
          have hne : d.node ≠ node :=
            start_ne_of_tiles htiles hdbs (Nat.two_pow_pos _) hhas
          rw [hkeep d.node hne]
          exact h.liveNode d (hsub d hd)
        · intro n hn
          have hne : n ≠ node := fun heq =>
            hn ⟨node, 2 ^ i⟩ (hnew.mem_iff.2 (List.mem_cons_self ..)) heq.symm
          rw [hkeep n hne]
          exact h.interior n fun b hb => hn b (hnew.mem_iff.2 (hold.mem_iff.1 hb))
        · intro j hj
          by_cases hji : j = i
          · rw [hji, hr', setSection_sections_self]
            show (r.sections i).nodeCount + 1 = (node :: (r.sections i).freeList).length
            rw [h.count i hilt, List.length_cons]
          · rw [hother j hji]; exact h.count j hj

/-! ## Setting up -/

/-- The range as far as it has been carved: only its first `n` pages count. -/
def MemRange.upTo (r : MemRange) (n : ℕ) : MemRange := { r with pages := n }

/-- One round of `mem_section_setup` lays one more block at the end. -/
theorem shape_setupNode {boot : ℕ → MemNode} {r : MemRange} {i n : ℕ}
    (hi : i < memSectionMaxNr) (h : (r.upTo n).Shape boot []) :
    (((r.setNode n { memNodeInit 0 0 with memSection := some i }).setSection i
        { r.sections i with freeList := (r.sections i).freeList ++ [n] }).upTo
      (n + 2 ^ i)).Shape boot [] := by
  set r' : MemRange := (r.setNode n { memNodeInit 0 0 with memSection := some i }).setSection i
    { r.sections i with freeList := (r.sections i).freeList ++ [n] } with hr'
  have hself : (r'.sections i).freeList = (r.sections i).freeList ++ [n] := by
    rw [hr', setSection_sections_self]
  have hother : ∀ j ≠ i, r'.sections j = r.sections j := fun j hj => by
    rw [hr', setSection_sections_of_ne _ _ _ hj, setNode_sections]
  have hkeep : ∀ m ≠ n, r'.nodeTable m = r.nodeTable m := fun m hm => by
    rw [hr', setSection_nodeTable, setNode_nodeTable_of_ne _ _ _ hm]
  have hnew : ((r'.upTo (n + 2 ^ i)).blocks []).Perm (⟨n, 2 ^ i⟩ :: (r.upTo n).blocks []) := by
    refine List.Perm.append_right _ (freeBlocks_push hi ?_ fun j hj => ?_)
    · show (r'.sections i).freeList.Perm (n :: (r.sections i).freeList)
      rw [hself]
      exact List.perm_append_comm
    · show (r'.sections j).freeList = (r.sections j).freeList
      rw [hother j hj]
  refine ⟨?_, (h.tiles.extend _).perm hnew.symm, ?_, by simp, by simp, ?_⟩
  · intro j hj
    show (r'.sections j).sectionSize = 2 ^ j
    by_cases hji : j = i
    · rw [hji, hr', setSection_sections_self]
      exact h.size i hi
    · rw [hother j hji]; exact h.size j hj
  · intro j hj m hm
    change m ∈ (r'.sections j).freeList at hm
    show (r'.nodeTable m).memSection = none ∨ (r'.nodeTable m).memSection = some j
    -- what was on a list before starts below `n`, the end of what is carved
    have hbelow : ∀ k < memSectionMaxNr, ∀ m ∈ (r.sections k).freeList, m < n := by
      intro k hk m hm
      have hmem : (⟨m, 2 ^ k⟩ : Block) ∈ (r.upTo n).blocks [] :=
        mem_blocks.2 (Or.inl ⟨k, hk, m, hm, rfl⟩)
      have hle : m + 2 ^ k ≤ n := h.tiles.end_le hmem (Nat.two_pow_pos k)
      have := Nat.two_pow_pos k
      omega
    by_cases hji : j = i
    · subst hji
      rw [hself] at hm
      rcases List.mem_append.1 hm with hm | hm
      · rw [hkeep m (by have := hbelow j hj m hm; omega)]
        exact h.freeNode j hj m hm
      · rw [List.mem_singleton.1 hm, hr', setSection_nodeTable, setNode_nodeTable_self]
        exact Or.inr rfl
    · rw [hother j hji] at hm
      rw [hkeep m (by have := hbelow j hj m hm; omega)]
      exact h.freeNode j hj m hm
  · intro m hm
    have hne : m ≠ n := fun heq =>
      hm ⟨n, 2 ^ i⟩ (hnew.mem_iff.2 (List.mem_cons_self ..)) heq.symm
    show (r'.nodeTable m).memSection = _
    rw [hkeep m hne]
    exact h.interior m fun b hb => hm b (hnew.mem_iff.2 (List.mem_cons_of_mem _ hb))

/-- The shape of a range does not depend on the counter of a section. -/
theorem shape_setCount {boot : ℕ → MemNode} {r : MemRange} {i c n : ℕ}
    (h : (r.upTo n).Shape boot []) :
    ((r.setSection i { r.sections i with nodeCount := c }).upTo n).Shape boot [] := by
  set r' := r.setSection i { r.sections i with nodeCount := c } with hr'
  have hsec : ∀ j, (r'.sections j).freeList = (r.sections j).freeList ∧
      (r'.sections j).sectionSize = (r.sections j).sectionSize := by
    intro j
    by_cases hj : j = i
    · rw [hj, hr', setSection_sections_self]
      exact ⟨rfl, rfl⟩
    · rw [hr', setSection_sections_of_ne _ _ _ hj]
      exact ⟨rfl, rfl⟩
  have hblocks : (r'.upTo n).blocks [] = (r.upTo n).blocks [] := by
    have : (r'.upTo n).sectionBlocks = (r.upTo n).sectionBlocks := by
      funext j
      show ((r'.sections j).freeList.map _) = _
      rw [(hsec j).1]
      rfl
    rw [MemRange.blocks, MemRange.freeBlocks, this]
    rfl
  refine ⟨fun j hj => (hsec j).2.trans (h.size j hj), ?_, ?_, by simp, by simp, ?_⟩
  · rw [hblocks]
    exact h.tiles
  · intro j hj m hm
    exact h.freeNode j hj m ((hsec j).1 ▸ hm)
  · intro m hm
    exact h.interior m (hblocks ▸ hm)

/-- `mem_section_setup` of an empty section carves `c` blocks, writes their
number in the counter and leaves the other sections alone. -/
theorem memSectionSetup_spec {boot : ℕ → MemNode} {r : MemRange} {i n : ℕ}
    (hi : i < memSectionMaxNr) (h : (r.upTo n).Shape boot []) (c : ℕ)
    (hempty : (r.sections i).freeList = []) :
    ((memSectionSetup r i n c).upTo (n + c * 2 ^ i)).Shape boot [] ∧
      ((memSectionSetup r i n c).sections i).nodeCount =
        ((memSectionSetup r i n c).sections i).freeList.length ∧
      (∀ j ≠ i, (memSectionSetup r i n c).sections j = r.sections j) ∧
      (memSectionSetup r i n c).start = r.start ∧ (memSectionSetup r i n c).end_ = r.end_ ∧
      (memSectionSetup r i n c).pages = r.pages := by
  -- the counter is written first and kept by the loop, whose rounds each link a node
  set r₀ := r.setSection i { r.sections i with nodeCount := c } with hr₀
  have hloop : ∀ k, ((memSectionSetupLoop r₀ i n k).upTo (n + k * 2 ^ i)).Shape boot [] ∧
      ((memSectionSetupLoop r₀ i n k).sections i).freeList.length = k ∧
      ((memSectionSetupLoop r₀ i n k).sections i).nodeCount = c ∧
      (∀ j ≠ i, (memSectionSetupLoop r₀ i n k).sections j = r.sections j) ∧
      (memSectionSetupLoop r₀ i n k).start = r.start ∧
      (memSectionSetupLoop r₀ i n k).end_ = r.end_ ∧
      (memSectionSetupLoop r₀ i n k).pages = r.pages := by
    intro k
    induction k with
    | zero =>
        refine ⟨?_, ?_, ?_, ?_, rfl, rfl, rfl⟩
        · rw [Nat.zero_mul, Nat.add_zero]
          exact shape_setCount h
        · rw [memSectionSetupLoop, hr₀, setSection_sections_self, hempty]
          rfl
        · rw [memSectionSetupLoop, hr₀, setSection_sections_self]
        · intro j hj
          rw [memSectionSetupLoop, hr₀, setSection_sections_of_ne _ _ _ hj]
    | succ k ih =>
        obtain ⟨hshape, hlen, hcount, hother, hstart, hend, hpages⟩ := ih
        have hnext : n + k * ((memSectionSetupLoop r₀ i n k).sections i).sectionSize =
            n + k * 2 ^ i := by
          rw [show ((memSectionSetupLoop r₀ i n k).sections i).sectionSize = 2 ^ i from
            hshape.size i hi]
        simp only [memSectionSetupLoop, hnext]
        refine ⟨?_, ?_, ?_, ?_, hstart, hend, hpages⟩
        · rw [Nat.succ_mul, ← Nat.add_assoc]
          exact shape_setupNode hi hshape
        · rw [setSection_sections_self]
          show (((memSectionSetupLoop r₀ i n k).sections i).freeList ++ _).length = k + 1
          rw [List.length_append, hlen]
          rfl
        · rw [setSection_sections_self]
          exact hcount
        · intro j hj
          rw [setSection_sections_of_ne _ _ _ hj, setNode_sections]
          exact hother j hj
  obtain ⟨hshape, hlen, hcount, hother, hstart, hend, hpages⟩ := hloop c
  exact ⟨hshape, hcount.trans hlen.symm, hother, hstart, hend, hpages⟩

/-- The loop of `mem_range_init` carves what is left of the range, whatever is
left: below section `k` fewer than `2 ^ k` pages remain, except on entry. -/
theorem memRangeInitLoop_inv {boot : ℕ → MemNode} : ∀ (k pages n : ℕ) (r : MemRange),
    k ≤ memSectionMaxNr → (pages < 2 ^ k ∨ k = memSectionMaxNr) →
    (∀ j < k, (r.sections j).freeList = []) → (r.upTo n).Inv boot [] →
    ((memRangeInitLoop k pages n r).upTo (n + pages)).Inv boot [] ∧
      (memRangeInitLoop k pages n r).start = r.start ∧
      (memRangeInitLoop k pages n r).end_ = r.end_ ∧
      (memRangeInitLoop k pages n r).pages = r.pages := by
  intro k
  induction k with
  | zero =>
      intro pages n r _ hlt _ h
      have hzero : pages = 0 := by
        rcases hlt with hlt | hlt
        · simpa using hlt
        · exact absurd hlt (by norm_num)
      subst hzero
      exact ⟨h, rfl, rfl, rfl⟩
  | succ k ih =>
      intro pages n r hk hlt hempty h
      -- setting up one empty section keeps the invariant
      have hset : ∀ i < k + 1, ∀ c,
          ((memSectionSetup r i n c).upTo (n + c * 2 ^ i)).Inv boot [] ∧
            (∀ j ≠ i, (memSectionSetup r i n c).sections j = r.sections j) ∧
            (memSectionSetup r i n c).start = r.start ∧
            (memSectionSetup r i n c).end_ = r.end_ ∧
            (memSectionSetup r i n c).pages = r.pages := by
        intro i hi c
        obtain ⟨hshape, hcount, hother, hrest⟩ :=
          memSectionSetup_spec (by omega) h.toShape c (hempty i hi)
        refine ⟨⟨hshape, fun j hj => ?_⟩, hother, hrest⟩
        by_cases hji : j = i
        · rw [hji]; exact hcount
        · show ((memSectionSetup r i n c).sections j).nodeCount = _
          rw [hother j hji]
          exact (h.count j hj).trans (by rw [MemRange.upTo, MemRange.upTo, hother j hji])
      have hdiv := Nat.div_add_mod pages (2 ^ k)
      have hmod := Nat.mod_lt pages (Nat.two_pow_pos k)
      rw [memRangeInitLoop]
      by_cases hpages : 0 < pages
      · rw [if_pos hpages]
        by_cases hbig : 0 < pages / 2 ^ k
        · simp only [if_pos hbig]
          obtain ⟨hinv, hother, hstart, hend, hpg⟩ := hset k (by omega) (pages / 2 ^ k)
          have hleft : pages - pages / 2 ^ k * 2 ^ k = pages % 2 ^ k := by
            rw [Nat.mul_comm]; omega
          obtain ⟨hinv', hstart', hend', hpg'⟩ := ih (pages - pages / 2 ^ k * 2 ^ k)
            (n + pages / 2 ^ k * 2 ^ k) (memSectionSetup r k n (pages / 2 ^ k)) (by omega)
            (Or.inl (by rw [hleft]; exact hmod))
            (fun j hj => by rw [hother j (by omega)]; exact hempty j (by omega)) hinv
          have hsum : n + pages / 2 ^ k * 2 ^ k + (pages - pages / 2 ^ k * 2 ^ k) = n + pages := by
            rw [hleft, Nat.mul_comm]; omega
          rw [hsum] at hinv'
          exact ⟨hinv', hstart'.trans hstart, hend'.trans hend, hpg'.trans hpg⟩
        · have hzero : pages / 2 ^ k = 0 := Nat.eq_zero_of_not_pos hbig
          have hsmall : pages % 2 ^ k = pages := by
            rw [hzero] at hdiv; omega
          simp only [if_neg hbig, hsmall, if_pos hpages]
          obtain ⟨hinv, -, hrest⟩ := hset 0 (by omega) pages
          rw [pow_zero, Nat.mul_one] at hinv
          exact ⟨hinv, hrest⟩
      · obtain rfl : pages = 0 := by omega
        rw [if_neg hpages]
        exact ⟨h, rfl, rfl, rfl⟩

/-- **A range as `mem_range_init` leaves it**: every page is in one free block. -/
theorem memRangeInit_inv (boot : ℕ → MemNode) (start len : ℕ) :
    (memRangeInit boot start len).Inv boot [] ∧ (memRangeInit boot start len).start = start ∧
      (memRangeInit boot start len).end_ = start + len ∧
      (memRangeInit boot start len).pages = len / pageSize := by
  have hinit : (({ start := start, end_ := start + len, pages := len / pageSize
                   sections := fun i => memSectionInit (2 ^ i)
                   nodeTable := boot } : MemRange).upTo 0).Inv boot [] := by
    have hblocks : ∀ r : MemRange, (∀ j, (r.sections j).freeList = []) → r.blocks [] = [] := by
      intro r hr
      simp [MemRange.blocks, MemRange.freeBlocks, MemRange.sectionBlocks, hr]
    refine ⟨⟨fun i _ => rfl, ?_, ?_, by simp, by simp, fun n _ => rfl⟩, fun i _ => rfl⟩
    · rw [hblocks _ fun j => rfl]
      exact tiles_nil
    · intro i _ n hn
      exact absurd hn List.not_mem_nil
  obtain ⟨hinv, hstart, hend, hpages⟩ := memRangeInitLoop_inv memSectionMaxNr (len / pageSize) 0 _
    (le_refl _) (Or.inr rfl) (fun j _ => rfl) hinit
  refine ⟨?_, hstart, hend, hpages⟩
  rw [Nat.zero_add] at hinv
  have hself : (memRangeInit boot start len).upTo (len / pageSize) =
      memRangeInit boot start len := by
    have : (memRangeInit boot start len).pages = len / pageSize := hpages
    rw [MemRange.upTo, ← this]
  rw [← hself]
  exact hinv

end MemPool
end LightOS
