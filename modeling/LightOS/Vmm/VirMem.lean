import LightOS.Vmm.VirMemBasic
import LightOS.Mm.Page
import LightOS.Mm.MemPool

/-!
# Kernel virtual areas

Runs of `vir_mem_alloc` and `vir_mem_free`, with `mem_alloc` and the page pool behaving
as they like, and with the byte behind the bitmap changed at any time by whoever owns
it.

* `virMemAlloc_cases` — what an allocation does.
* `virMem_allocsOk` — in every run in which an area taken from the free list is large
  enough, allocations are mapped and apart.
* `virMem_areas` — areas are that in every run.
* `virMemAlloc_noTrace_iff` — when a failed allocation leaves no trace.
-/

namespace LightOS
namespace VirMem

/-! ## Addresses -/

section Addresses

variable {b : Bitmap} {n idx : ℕ}

/-- The size of an area is zero, since it ran over, or two pages at least. -/
theorem areaSize_cases {size : ℕ} (h : pageAlign size ≠ 0) :
    areaSize size = 0 ∨ PageAligned (areaSize size) ∧ 8192 ≤ areaSize size ∧
      areaSize size < wordSize ∧ areaSize size = pageAlign size + pageSize := by
  have halign := pageAligned_pageAlign size
  have hlt := pageAlign_lt size
  unfold areaSize PageAligned add32 pageSize wordSize at *
  omega

/-- **Reserving addresses** sets bits that were clear; the first page lies in the window, and only
the last can lie behind its end. -/
theorem virAddrAlloc_cases (hlen : b.byteLength = 8192) (hn : pageAlign n ≠ 0) :
    bitmapScan b (pageAlign n / pageSize) = none ∧ virAddrAlloc b n = (b, 0) ∨
      ∃ idx, bitmapScan b (pageAlign n / pageSize) = some idx ∧
        virAddrAlloc b n =
          (bitmapSetRange b idx true (pageAlign n / pageSize), virMemBase + idx * pageSize) ∧
        (∀ j, idx ≤ j → j < idx + pageAlign n / pageSize → b.bit j = false) ∧
        idx < 65536 ∧ idx + pageAlign n / pageSize ≤ 65537 := by
  have halign := pageAligned_pageAlign n
  have hlt := pageAlign_lt n
  have hpages : 0 < pageAlign n / pageSize := by
    unfold PageAligned at halign
    unfold pageSize
    omega
  rw [virAddrAlloc, if_neg hn]
  cases hscan : bitmapScan b (pageAlign n / pageSize) with
  | none => exact Or.inl ⟨rfl, rfl⟩
  | some idx =>
      have hrun : (∀ j, idx ≤ j → j < idx + pageAlign n / pageSize → b.bit j = false) ∧
          idx < 65536 ∧ idx + pageAlign n / pageSize ≤ 65537 := by
        by_cases hone : pageAlign n / pageSize = 1
        · -- one page is looked for in another way, and lies in the window
          rw [hone] at hscan ⊢
          rcases bitmapScan_one b with ⟨hnone, -⟩ | ⟨i, hsome, hi, hclear, -⟩
          · rw [hnone] at hscan
            cases hscan
          · rw [hsome, Option.some.injEq] at hscan
            subst hscan
            refine ⟨fun j hlow hhigh => ?_, by omega, by omega⟩
            obtain rfl : j = i := by omega
            exact hclear
        · obtain ⟨hclear, hend⟩ := bitmapScan_run (by omega) hscan
          rw [hlen] at hend
          refine ⟨fun j hlow hhigh => ?_, by omega, hend⟩
          have hj := hclear (j - idx) (by omega)
          rwa [Nat.add_sub_cancel' hlow] at hj
      refine Or.inr ⟨idx, rfl, ?_, hrun⟩
      have hend := hrun.2.2
      simp only
      rw [add32_of_lt]
      unfold virMemBase pageSize
      omega

/-- **Giving reserved addresses back** restores the bitmap. -/
theorem virAddrFree_reserved (hpos : n ≠ 0) (hidx : idx ≤ 65537)
    (hclear : ∀ j, idx ≤ j → j < idx + pageAlign n / pageSize → b.bit j = false) :
    virAddrFree (bitmapSetRange b idx true (pageAlign n / pageSize))
    (virMemBase + idx * pageSize) n = b := by
  have hback : sub32 (virMemBase + idx * pageSize) virMemBase / pageSize = idx := by
    unfold sub32 virMemBase pageSize
    omega
  rw [virAddrFree, if_neg hpos, hback]
  apply Bitmap.ext_bit (by simp)
  intro j
  rw [bitmapSetRange_bit, bitmapSetRange_bit]
  split_ifs with hin
  · rw [hclear j hin.1 hin.2]
  · rfl

end Addresses

/-! ## Allocation -/

theorem recordAlloc_cases (s : VirState) :
    (∃ rest, recordAlloc s = ({ s with supply := rest }, none)) ∨
      ∃ p rest, s.allocs p ≤ s.frees p ∧ recordAlloc s =
        ({ s with supply := rest, allocs := Function.update s.allocs p (s.allocs p + 1) },
          some p) := by
  unfold recordAlloc
  split
  · rename_i p rest _
    split_ifs with hfree
    · exact Or.inr ⟨p, rest, hfree, rfl⟩
    · exact Or.inl ⟨rest, rfl⟩
  · exact Or.inl ⟨_, rfl⟩
  · exact Or.inl ⟨s.supply, rfl⟩

/-- Whether there is a record does not depend on the bitmap. -/
theorem recordAlloc_snd (s : VirState) (b : Bitmap) :
    (recordAlloc { s with bitmap := b }).2 = (recordAlloc s).2 := by
  unfold recordAlloc
  rcases s.supply with _ | ⟨_ | p, rest⟩
  · rfl
  · rfl
  · simp only
    split_ifs <;> rfl

/-- The ways in which `vir_mem_alloc` gives up before it enters pages, if there is no free
area to take. -/
def StopsBeforeMapping (s : VirState) (size : ℕ) : Prop :=
  pageAlign size = 0 ∨ areaSize size = 0 ∨
    bitmapScan s.bitmap (areaSize size / pageSize) = none ∨ (recordAlloc s).2 = none

instance (s : VirState) (size : ℕ) : Decidable (StopsBeforeMapping s size) :=
  inferInstanceAs (Decidable (_ ∨ _))

/-- Entering the pages of a new area. -/
def mapArea (s : VirState) (size : ℕ) : Option (Mm × ℤ) :=
  pageMapAddr s.mm (virAddrAlloc s.bitmap (areaSize size)).2 (areaSize size) virMemProt

/-- The state in which the pages of a new area are entered: the addresses are reserved and the
record is linked. -/
def linkArea (s : VirState) (idx size p : ℕ) (rest : List (Option ℕ)) : VirState :=
  { s with
    bitmap := bitmapSetRange s.bitmap idx true (size / pageSize)
    usingVirMemList := s.usingVirMemList ++ [⟨p, virMemBase + idx * pageSize, size⟩]
    allocs := Function.update s.allocs p (s.allocs p + 1)
    supply := rest }

/-- A new area of `size` bytes is made at page `idx` of the window, with the record `p`; its pages
are entered, or not. -/
structure MakesArea (s s' : VirState) (size ret idx p : ℕ) (rest : List (Option ℕ)) (mm : Mm)
    (r : ℤ) :
    Prop where
  clear : ∀ j, idx ≤ j → j < idx + size / pageSize → s.bitmap.bit j = false
  lt : idx < 65536
  le : idx + size / pageSize ≤ 65537
  record : s.allocs p ≤ s.frees p
  fresh : ∀ a ∈ s.areas, a.ptr ≠ p
  reserved : (virAddrAlloc s.bitmap size).2 = virMemBase + idx * pageSize
  map : pageMapAddr s.mm (virMemBase + idx * pageSize) size virMemProt = some (mm, r)
  length : s'.bitmap.byteLength = s.bitmap.byteLength
  result : r = 0 ∧ ret = virMemBase + idx * pageSize ∧
    s' = { linkArea s idx size p rest with mm := mm } ∨
    r ≠ 0 ∧ ret = 0 ∧ s'.usingVirMemList = (linkArea s idx size p rest).usingVirMemList ∧
      s'.freeVirMemList = s.freeVirMemList

/-- `vir_mem_do_alloc`: it gives up early and has only asked for a record, or it makes a new area.
-/
theorem virMemDoAlloc_cases {s s' : VirState} {size ret : ℕ} (hlen : s.bitmap.byteLength = 8192)
    (hzero : pageAlign size ≠ 0) (h : virMemDoAlloc s (areaSize size) = some (s', ret)) :
    StopsBeforeMapping s size ∧ ret = 0 ∧ (∃ rest, s' = { s with supply := rest }) ∨
      ¬ StopsBeforeMapping s size ∧
        ∃ idx p rest mm r, MakesArea s s' (areaSize size) ret idx p rest mm r := by
  unfold virMemDoAlloc at h
  rcases areaSize_cases hzero with hwrap | ⟨halign, hlow, hlt, -⟩
  · have hnone : (virAddrAlloc s.bitmap (areaSize size)).2 = 0 := by
      rw [hwrap]
      rfl
    simp only [hnone] at h
    cases h
    exact Or.inl ⟨Or.inr (Or.inl hwrap), rfl, s.supply, rfl⟩
  · have hself := pageAlign_eq_self halign hlt
    have hcases := virAddrAlloc_cases (n := areaSize size) hlen (by rw [hself]; omega)
    have hback := fun idx => @virAddrFree_reserved s.bitmap (areaSize size) idx (by omega)
    rw [hself] at hcases hback
    rcases hcases with ⟨hscan, hnone⟩ | ⟨idx, hscan, hsome, hclear, hidx, hend⟩
    · simp only [hnone] at h
      cases h
      exact Or.inl ⟨Or.inr (Or.inr (Or.inl hscan)), rfl, s.supply, rfl⟩
    · have hne : virMemBase + idx * pageSize ≠ 0 := by
        unfold virMemBase
        omega
      have hrestore := hback idx (le_trans (Nat.le_add_right _ _) hend) hclear
      simp only [hsome, if_neg hne] at h
      have hsnd := recordAlloc_snd s (bitmapSetRange s.bitmap idx true (areaSize size / pageSize))
      rcases recordAlloc_cases
          { s with bitmap := bitmapSetRange s.bitmap idx true (areaSize size / pageSize) } with
        ⟨rest, hrecord⟩ | ⟨p, rest, hfree, hrecord⟩
      · simp only [hrecord, hrestore] at h
        cases h
        refine Or.inl ⟨Or.inr (Or.inr (Or.inr ?_)), rfl, rest, rfl⟩
        rw [← hsnd, hrecord]
      · simp only [hrecord] at h
        split_ifs at h with hlinked
        have hstops : ¬ StopsBeforeMapping s size := by
          rintro (hstop | hstop | hstop | hstop)
          · exact hzero hstop
          · omega
          · rw [hscan] at hstop
            cases hstop
          · rw [← hsnd, hrecord] at hstop
            cases hstop
        have hfresh : ∀ a ∈ s.areas, a.ptr ≠ p := by
          intro a ha hp
          exact hlinked (List.any_eq_true.2 ⟨a, ha, by simp [hp]⟩)
        split at h
        · cases h
        · rename_i mm r hmap
          refine Or.inr ⟨hstops, idx, p, rest, mm, r, hclear, hidx, hend, hfree, hfresh,
            by rw [hsome], hmap, ?_, ?_⟩
          · split_ifs at h with hret
            · cases h
              exact bitmapSetRange_byteLength _ _ _
            · rw [Option.some.injEq, Prod.mk.injEq] at h
              rw [← h.1, recordFree, hrestore]
          · split_ifs at h with hret
            · cases h
              exact Or.inl ⟨hret, rfl, rfl⟩
            · rw [Option.some.injEq, Prod.mk.injEq] at h
              refine Or.inr ⟨hret, h.2.symm, ?_, ?_⟩
              · rw [← h.1, recordFree, linkArea]
              · rw [← h.1, recordFree]

/-- **What an allocation does.**  It gives up early and has only asked for a record; it takes
an area from the free list; or it makes a new area, whose pages it can enter or not. -/
theorem virMemAlloc_cases {s s' : VirState} {size ret : ℕ} (hlen : s.bitmap.byteLength = 8192)
    (h : virMemAlloc s size = some (s', ret)) :
    StopsBeforeMapping s size ∧ ret = 0 ∧ (∃ rest, s' = { s with supply := rest }) ∨
      (∃ target, freeTarget s size = some target ∧ ret = target.addr ∧
        s' = { s with
          usingVirMemList := s.usingVirMemList ++ [target]
          freeVirMemList := s.freeVirMemList.erase target }) ∨
      ¬ StopsBeforeMapping s size ∧ freeTarget s size = none ∧
        ∃ idx p rest mm r, MakesArea s s' (areaSize size) ret idx p rest mm r := by
  unfold virMemAlloc at h
  by_cases hzero : pageAlign size = 0
  · rw [if_pos hzero] at h
    cases h
    exact Or.inl ⟨Or.inl hzero, rfl, s.supply, rfl⟩
  · rw [if_neg hzero] at h
    split at h
    · rename_i target htarget
      cases h
      exact Or.inr (Or.inl ⟨target, htarget, rfl, rfl⟩)
    · rename_i htarget
      rcases virMemDoAlloc_cases hlen hzero h with hstops | ⟨hstops, hmakes⟩
      · exact Or.inl hstops
      · exact Or.inr (Or.inr ⟨hstops, htarget, hmakes⟩)

/-! ## The invariant -/

/-- The area lies in the window, its bits are set and its pages are there.  The last page can
lie behind the end of the window, and then its bit is not one of the bitmap. -/
structure AreaOk (b : Bitmap) (mm : Mm) (a : VirArea) : Prop where
  place : ∃ i n, a.addr = virMemBase + i * 4096 ∧ a.size = n * 4096 ∧ 2 ≤ n ∧ i + n ≤ 65537 ∧
    ∀ j, i ≤ j → j < i + n → j < 65536 → b.bit j = true
  mapped : ∀ v, a.addr ≤ v → v < a.addr + a.size → mm.present v = true

/-- The areas have no address in common. -/
def Apart (a c : VirArea) : Prop := a.addr + a.size ≤ c.addr ∨ c.addr + c.size ≤ a.addr

instance : Std.Symm Apart := ⟨fun _ _ h => Or.symm h⟩

/-- What every run keeps. -/
structure VirInv (s : VirState) : Prop where
  length : s.bitmap.byteLength = 8192
  ok : ∀ a ∈ s.areas, AreaOk s.bitmap s.mm a
  apart : s.areas.Pairwise Apart
  books : ∀ p, s.frees p ≤ s.allocs p
  linked : ∀ a ∈ s.areas, s.frees a.ptr < s.allocs a.ptr

section Invariant

variable {s s' : VirState} {a c : VirArea}

theorem AreaOk.addr_pos (h : AreaOk s.bitmap s.mm a) : virMemBase ≤ a.addr ∧ 0 < a.size := by
  obtain ⟨i, n, haddr, hsize, hn, -⟩ := h.place
  omega

/-- Areas that are apart start at different addresses. -/
theorem Apart.addr_ne (h : Apart a c) (ha : 0 < a.size) (hc : 0 < c.size) : a.addr ≠ c.addr := by
  unfold Apart at h
  omega

theorem AreaOk.mono {b b' : Bitmap} {mm mm' : Mm} (h : AreaOk b mm a)
    (hbits : ∀ j < 65536, b.bit j = true → b'.bit j = true)
    (hmm : ∀ v, mm.present v = true → mm'.present v = true) : AreaOk b' mm' a := by
  obtain ⟨i, n, haddr, hsize, hn, hend, hset⟩ := h.place
  exact ⟨⟨i, n, haddr, hsize, hn, hend, fun j hlow hhigh hj => hbits j hj (hset j hlow hhigh hj)⟩,
    fun v hlow hhigh => hmm v (h.mapped v hlow hhigh)⟩

/-- Moving areas from list to list. -/
theorem VirInv.perm (h : VirInv s) (hperm : s'.areas.Perm s.areas) (hbitmap : s'.bitmap = s.bitmap)
    (hmm : s'.mm = s.mm) (hallocs : s'.allocs = s.allocs) (hfrees : s'.frees = s.frees) :
    VirInv s' := by
  refine ⟨by rw [hbitmap]; exact h.length, fun a ha => ?_, ?_, ?_, fun a ha => ?_⟩
  · rw [hbitmap, hmm]
    exact h.ok a (hperm.mem_iff.1 ha)
  · exact (hperm.pairwise_iff fun h => symm h).2 h.apart
  · rw [hallocs, hfrees]
    exact h.books
  · rw [hallocs, hfrees]
    exact h.linked a (hperm.mem_iff.1 ha)

/-- **A new area is apart from the others**: their bits are set, its bits were clear.  An area
that reaches behind the end of the bitmap also contains the last page before it. -/
theorem apart_of_clear {b : Bitmap} {mm : Mm} {idx n : ℕ} (h : AreaOk b mm a) (hn : 2 ≤ n)
    (hend : idx + n ≤ 65537) (hclear : ∀ j, idx ≤ j → j < idx + n → b.bit j = false) (p : ℕ) :
    Apart a ⟨p, virMemBase + idx * 4096, n * 4096⟩ := by
  obtain ⟨i, k, haddr, hsize, hk, hend', hset⟩ := h.place
  have hdisjoint : i + k ≤ idx ∨ idx + n ≤ i := by
    by_contra hover
    rw [not_or, not_le, not_le] at hover
    obtain ⟨j, hj⟩ : ∃ j, j = min (max i idx) 65535 := ⟨_, rfl⟩
    have hon := hset j (by omega) (by omega) (by omega)
    rw [hclear j (by omega) (by omega)] at hon
    cases hon
  unfold Apart
  rw [haddr, hsize]
  show virMemBase + i * 4096 + k * 4096 ≤ virMemBase + idx * 4096 ∨
    virMemBase + idx * 4096 + n * 4096 ≤ virMemBase + i * 4096
  omega

/-- Making a new area. -/
theorem virInv_link (h : VirInv s) {idx n p : ℕ} {rest : List (Option ℕ)} {mm : Mm} {r : ℤ}
    (hn : PageAligned n) (hlow : 8192 ≤ n) (hend : idx + n / pageSize ≤ 65537)
    (hclear : ∀ j, idx ≤ j → j < idx + n / pageSize → s.bitmap.bit j = false)
    (hfree : s.allocs p ≤ s.frees p)
    (hmap : pageMapAddr s.mm (virMemBase + idx * pageSize) n virMemProt = some (mm, r))
    (hr : r = 0) :
    VirInv { linkArea s idx n p rest with mm := mm } := by
  have hsize : n = n / 4096 * 4096 := by
    unfold PageAligned at hn
    omega
  have hpages : 2 ≤ n / 4096 := by omega
  unfold pageSize at *
  obtain ⟨hkeep, hall⟩ := pageMapAddr_present hmap
    (by unfold PageAligned virMemBase; omega) (by unfold virMemBase wordSize; omega)
  have hmapped : ∀ v, virMemBase + idx * 4096 ≤ v → v < virMemBase + idx * 4096 + n →
      mm.present v = true := by
    rcases hall with ⟨-, hall⟩ | hbad
    · exact hall
    · rw [hr] at hbad
      exact absurd hbad (by decide)
  have hset : ∀ j, (bitmapSetRange s.bitmap idx true (n / 4096)).bit j =
      if idx ≤ j ∧ j < idx + n / 4096 then true else s.bitmap.bit j := bitmapSetRange_bit _ _ _ _
  have hperm : ({ linkArea s idx n p rest with mm := mm } : VirState).areas.Perm
      (⟨p, virMemBase + idx * 4096, n⟩ :: s.areas) := by
    simp only [VirState.areas, linkArea, List.append_assoc]
    exact List.perm_middle
  have hbooks : ∀ q, s.frees q ≤ Function.update s.allocs p (s.allocs p + 1) q ∧
      s.allocs q ≤ Function.update s.allocs p (s.allocs p + 1) q := by
    intro q
    have := h.books q
    by_cases hq : q = p
    · subst hq
      rw [Function.update_self]
      omega
    · rw [Function.update_of_ne hq]
      omega
  refine ⟨by simp [linkArea, h.length], fun c hc => ?_, ?_, fun q => (hbooks q).1, fun c hc => ?_⟩
  · rcases List.mem_cons.1 (hperm.mem_iff.1 hc) with rfl | hc
    · refine ⟨⟨idx, n / 4096, rfl, hsize, hpages, hend, fun j hlow hhigh _ => ?_⟩, hmapped⟩
      show (bitmapSetRange s.bitmap idx true (n / 4096)).bit j = true
      rw [hset, if_pos ⟨hlow, hhigh⟩]
    · refine (h.ok c hc).mono (fun j _ hj => ?_) hkeep
      show (bitmapSetRange s.bitmap idx true (n / 4096)).bit j = true
      rw [hset, hj, ite_self]
  · refine (hperm.pairwise_iff fun h => symm h).2 (List.pairwise_cons.2 ⟨fun c hc => ?_, h.apart⟩)
    have hapart := apart_of_clear (h.ok c hc) hpages hend hclear p
    rw [← hsize] at hapart
    exact symm hapart
  · rcases List.mem_cons.1 (hperm.mem_iff.1 hc) with rfl | hc
    · show s.frees p < Function.update s.allocs p (s.allocs p + 1) p
      rw [Function.update_self]
      have := h.books p
      omega
    · exact lt_of_lt_of_le (h.linked c hc) (hbooks c.ptr).2

/-- The order of the free list. -/
def NoLarger (a c : VirArea) : Prop := a.size ≤ c.size

instance : DecidableRel NoLarger := fun a c => inferInstanceAs (Decidable (a.size ≤ c.size))

instance : Std.Total NoLarger := ⟨fun a c => Nat.le_total a.size c.size⟩

instance : IsTrans VirArea NoLarger := ⟨fun _ _ _ hac hcd => Nat.le_trans hac hcd⟩

/-- The loop of `vir_mem_do_free` is the insertion into an ordered list. -/
theorem virMemInsert_eq_orderedInsert (target : VirArea) (l : List VirArea) :
    virMemInsert target l = l.orderedInsert NoLarger target := by
  induction l with
  | nil => rfl
  | cons area rest ih =>
      rw [virMemInsert, List.orderedInsert_cons, ih]
      by_cases hlt : area.size < target.size
      · have hnot : ¬ NoLarger target area := not_le.2 hlt
        rw [if_pos hlt, if_neg hnot]
      · have hle : NoLarger target area := not_lt.1 hlt
        rw [if_neg hlt, if_pos hle]

theorem virMemInsert_perm (target : VirArea) (l : List VirArea) :
    (virMemInsert target l).Perm (target :: l) := by
  rw [virMemInsert_eq_orderedInsert]
  exact List.perm_orderedInsert NoLarger target l

/-- Moving an area from the first list to the second. -/
theorem perm_release {used : List VirArea} (hmem : a ∈ used) (free : List VirArea) :
    (used.erase a ++ virMemInsert a free).Perm (used ++ free) := by
  refine ((virMemInsert_perm a free).append_left _).trans (List.perm_middle.trans ?_)
  rw [← List.cons_append]
  exact (List.perm_cons_erase hmem).symm.append_right _

/-- Moving an area from the second list to the end of the first. -/
theorem perm_take (used : List VirArea) {free : List VirArea} (hmem : a ∈ free) :
    (used ++ [a] ++ free.erase a).Perm (used ++ free) := by
  rw [List.append_assoc]
  exact (List.perm_cons_erase hmem).symm.append_left _

/-- **What a free does**: nothing, or it moves the area that starts at the pointer. -/
theorem virMemFree_cases (s : VirState) (ptr : ℕ) :
    (virMemFree s ptr).1 = s ∨ ∃ target ∈ s.usingVirMemList, target.addr = ptr ∧
      (virMemFree s ptr).1 = (virMemDoFree s target).1 := by
  unfold virMemFree
  split_ifs
  · exact Or.inl rfl
  · exact Or.inl rfl
  · split
    · exact Or.inl rfl
    · rename_i target hfind
      exact Or.inr ⟨target, List.mem_of_find?_eq_some hfind,
        by simpa using List.find?_some hfind, rfl⟩

theorem virInv_free (h : VirInv s) (ptr : ℕ) : VirInv (virMemFree s ptr).1 := by
  rcases virMemFree_cases s ptr with heq | ⟨target, hmem, -, heq⟩
  · rw [heq]
    exact h
  · rw [heq]
    exact h.perm (perm_release hmem _) rfl rfl rfl rfl

/-- Taking an area from the free list. -/
theorem virInv_take (h : VirInv s) {target : VirArea} (hmem : target ∈ s.freeVirMemList) :
    VirInv { s with
      usingVirMemList := s.usingVirMemList ++ [target]
      freeVirMemList := s.freeVirMemList.erase target } :=
  h.perm (perm_take _ hmem) rfl rfl rfl rfl

theorem freeTarget_mem {size : ℕ} {target : VirArea} (h : freeTarget s size = some target) :
    target ∈ s.freeVirMemList := List.mem_of_find?_eq_some h

end Invariant

/-! ## Runs -/

/-- The two calls, and a change of the byte behind the bitmap. -/
inductive VirCall where
  | alloc (size : ℕ)
  | free (ptr : ℕ)
  | behind (byte : BitVec 8)

/-- The allocator, and the allocations that are live: what was returned and the size that was
asked for. -/
structure VirRun where
  mem : VirState
  live : List (ℕ × ℕ)

/-- Write the byte behind the bitmap. -/
def writeBehind (b : Bitmap) (byte : BitVec 8) : Bitmap :=
  { b with bits := Function.update b.bits b.byteLength byte }

/-- One call. -/
def virStep (s : VirRun) : VirCall → Option VirRun
  | .alloc size =>
      (virMemAlloc s.mem size).map fun r =>
        ⟨r.1, if r.2 = 0 then s.live else (r.2, size) :: s.live⟩
  | .free ptr => some ⟨(virMemFree s.mem ptr).1, s.live.filter fun r => decide (r.1 ≠ ptr)⟩
  | .behind byte => some { s with mem := { s.mem with bitmap := writeBehind s.mem.bitmap byte } }

/-- Page allocation succeeds: if the call gets as far as entering the pages of a new area, the
pool has enough of them. -/
def PagesSucceed (s : VirRun) : VirCall → Prop
  | .alloc size =>
      StopsBeforeMapping s.mem size ∨ (freeTarget s.mem size).isSome = true ∨
        (mapArea s.mem size).map Prod.snd ≠ some (-1)
  | .free _ => True
  | .behind _ => True

/-- The area the call would take from the free list has room for what is asked for. -/
def ReuseFits (s : VirRun) : VirCall → Prop
  | .alloc size => ∀ target ∈ freeTarget s.mem size, pageAlign size ≤ target.size
  | .free _ => True
  | .behind _ => True

instance (s : VirRun) : (call : VirCall) → Decidable (PagesSucceed s call)
  | .alloc _ => inferInstanceAs (Decidable (_ ∨ _))
  | .free _ => isTrue trivial
  | .behind _ => isTrue trivial

instance (s : VirRun) : (call : VirCall) → Decidable (ReuseFits s call)
  | .alloc size => inferInstanceAs (Decidable (∀ target ∈ freeTarget s.mem size, _))
  | .free _ => isTrue trivial
  | .behind _ => isTrue trivial

section Runs

variable {s s' : VirRun}

/-- The byte behind the bitmap holds none of its bits. -/
theorem writeBehind_bit {b : Bitmap} (hlen : b.byteLength = 8192) (byte : BitVec 8) {j : ℕ}
    (hj : j < 65536) : (writeBehind b byte).bit j = b.bit j := by
  have hne : j / 8 ≠ b.byteLength := by omega
  simp only [Bitmap.bit, writeBehind, Function.update_of_ne hne]

theorem virInv_behind (h : VirInv s.mem) (byte : BitVec 8) :
    VirInv { s.mem with bitmap := writeBehind s.mem.bitmap byte } :=
  ⟨h.length, fun a ha => (h.ok a ha).mono
    (fun j hj hset => by rw [writeBehind_bit h.length byte hj, hset]) fun _ hv => hv,
    h.apart, h.books, h.linked⟩

/-- An allocation, if the pages of a new area can be entered: it stops early, or links an area
at the end of the list of areas in use. -/
theorem virMemAlloc_spec {size ret : ℕ} {t : VirState} (h : VirInv s.mem)
    (hpages : PagesSucceed s (.alloc size)) (hrun : virMemAlloc s.mem size = some (t, ret)) :
    VirInv t ∧
      (StopsBeforeMapping s.mem size ∧ ret = 0 ∧ (∃ rest, t = { s.mem with supply := rest }) ∨
        ∃ a, ret = a.addr ∧ t.usingVirMemList = s.mem.usingVirMemList ++ [a] ∧
          (freeTarget s.mem size = some a ∨ pageAlign size ≤ a.size)) := by
  rcases virMemAlloc_cases h.length hrun with
    ⟨hstops, rfl, rest, rfl⟩ | ⟨target, htarget, rfl, rfl⟩ |
    ⟨hstops, htarget, idx, p, rest, mm, r, hmakes⟩
  · exact ⟨⟨h.length, h.ok, h.apart, h.books, h.linked⟩, Or.inl ⟨hstops, rfl, rest, rfl⟩⟩
  · exact ⟨virInv_take h (freeTarget_mem htarget), Or.inr ⟨target, rfl, rfl, Or.inl htarget⟩⟩
  · have hzero : pageAlign size ≠ 0 := fun hz => hstops (Or.inl hz)
    obtain ⟨halign, hlow, -, hsum⟩ :=
      (areaSize_cases hzero).resolve_left fun hz => hstops (Or.inr (Or.inl hz))
    have hr : r = 0 := by
      rcases hpages with hstop | hsome | hne
      · exact absurd hstop hstops
      · rw [htarget] at hsome
        cases hsome
      · rw [mapArea, hmakes.reserved, hmakes.map, Option.map_some] at hne
        have hend := hmakes.le
        have hfits : idx * 4096 + areaSize size ≤ 65537 * 4096 := by
          unfold PageAligned at halign
          unfold pageSize at hend
          omega
        rcases (pageMapAddr_present hmakes.map (by unfold PageAligned virMemBase pageSize; omega)
          (by unfold virMemBase pageSize wordSize; omega)).2 with ⟨hr, -⟩ | hr
        · exact hr
        · rw [hr] at hne
          exact absurd rfl hne
    rcases hmakes.result with ⟨-, rfl, rfl⟩ | ⟨hne, -⟩
    · refine ⟨virInv_link h halign hlow hmakes.le hmakes.clear hmakes.record hmakes.map hr,
        Or.inr ⟨_, rfl, rfl, Or.inr ?_⟩⟩
      show pageAlign size ≤ areaSize size
      omega
    · exact absurd hr hne

theorem virInv_step (s : VirRun) (call : VirCall) (s' : VirRun) (h : VirInv s.mem)
    (hpages : PagesSucceed s call) (hstep : virStep s call = some s') : VirInv s'.mem := by
  cases call with
  | alloc size =>
      obtain ⟨⟨t, ret⟩, hrun, rfl⟩ := Option.map_eq_some_iff.1 hstep
      exact (virMemAlloc_spec h hpages hrun).1
  | free ptr =>
      cases hstep
      exact virInv_free h ptr
  | behind byte =>
      cases hstep
      exact virInv_behind h byte

/-- Before the first call. -/
theorem virInv_init {allocs frees : ℕ → ℕ} (hbooks : ∀ p, frees p ≤ allocs p) (bits : ℕ → BitVec 8)
    (supply : List (Option ℕ)) (mm : Mm) : VirInv (virMemInit bits allocs frees supply mm) :=
  ⟨rfl, by simp [VirState.areas, virMemInit], by simp [VirState.areas, virMemInit], hbooks,
    by simp [VirState.areas, virMemInit]⟩

end Runs

/-! ## Live allocations -/

/-- Live allocations are mapped, and have no address in common. -/
def AllocsOk (s : VirRun) : Prop :=
  (∀ r ∈ s.live, ∀ v, r.1 ≤ v → v < r.1 + pageAlign r.2 → s.mem.mm.present v = true) ∧
    s.live.Pairwise fun r t => r.1 + pageAlign r.2 ≤ t.1 ∨ t.1 + pageAlign t.2 ≤ r.1

/-- Every live allocation has an area in use of its own, which is large enough. -/
structure LiveInv (s : VirRun) : Prop where
  inv : VirInv s.mem
  backed : ∀ r ∈ s.live, ∃ a ∈ s.mem.usingVirMemList, a.addr = r.1 ∧ pageAlign r.2 ≤ a.size
  nodup : (s.live.map Prod.fst).Nodup

section Live

variable {s : VirRun}

theorem VirInv.apart_using {s : VirState} (h : VirInv s) {a c : VirArea}
    (ha : a ∈ s.usingVirMemList) (hc : c ∈ s.usingVirMemList) (hne : a ≠ c) : Apart a c :=
  h.apart.forall (List.mem_append_left _ ha) (List.mem_append_left _ hc) hne

/-- One more allocation, backed by an area that was linked at the end. -/
theorem LiveInv.push (h : LiveInv s) {t : VirState} {a : VirArea} {size : ℕ} (ht : VirInv t)
    (husing : t.usingVirMemList = s.mem.usingVirMemList ++ [a]) (hsize : pageAlign size ≤ a.size) :
    LiveInv ⟨t, (a.addr, size) :: s.live⟩ := by
  have hmem : a ∈ t.usingVirMemList := by simp [husing]
  refine ⟨ht, fun r hr => ?_, List.nodup_cons.2 ⟨?_, h.nodup⟩⟩
  · rcases List.mem_cons.1 hr with rfl | hr
    · exact ⟨a, hmem, rfl, hsize⟩
    · obtain ⟨c, hc, haddr, hle⟩ := h.backed r hr
      exact ⟨c, by simp [husing, hc], haddr, hle⟩
  · intro hlive
    obtain ⟨r, hr, hra⟩ := List.mem_map.1 hlive
    obtain ⟨c, hc, haddr, -⟩ := h.backed r hr
    have hapart : Apart c a := by
      have hpairs := ht.apart
      rw [VirState.areas, husing, List.append_assoc, List.pairwise_append] at hpairs
      exact hpairs.2.2 c hc a (by simp)
    have hcpos := (ht.ok c (by simp [VirState.areas, husing, hc])).addr_pos.2
    have hapos := (ht.ok a (List.mem_append_left _ hmem)).addr_pos.2
    exact hapart.addr_ne hcpos hapos (haddr.trans hra)

theorem liveInv_step (s : VirRun) (call : VirCall) (s' : VirRun) (h : LiveInv s)
    (hcond : PagesSucceed s call ∧ ReuseFits s call) (hstep : virStep s call = some s') :
    LiveInv s' := by
  cases call with
  | alloc size =>
      obtain ⟨⟨t, ret⟩, hrun, rfl⟩ := Option.map_eq_some_iff.1 hstep
      obtain ⟨ht, hcases⟩ := virMemAlloc_spec h.inv hcond.1 hrun
      rcases hcases with ⟨-, rfl, rest, rfl⟩ | ⟨a, rfl, husing, hfits⟩
      · exact ⟨ht, h.backed, h.nodup⟩
      · have hpos := (ht.ok a (List.mem_append_left _ (by simp [husing]))).addr_pos.1
        have hne : a.addr ≠ 0 := by
          unfold virMemBase at hpos
          omega
        have hsize : pageAlign size ≤ a.size := by
          rcases hfits with htarget | hle
          · exact hcond.2 a htarget
          · exact hle
        simp only [if_neg hne]
        exact h.push ht husing hsize
  | free ptr =>
      cases hstep
      have hsub : (s.live.filter fun r => decide (r.1 ≠ ptr)).Sublist s.live := List.filter_sublist
      refine ⟨virInv_free h.inv ptr, fun r hr => ?_, h.nodup.sublist (hsub.map _)⟩
      obtain ⟨hlive, hne⟩ := List.mem_filter.1 hr
      obtain ⟨a, ha, haddr, hle⟩ := h.backed r hlive
      refine ⟨a, ?_, haddr, hle⟩
      rcases virMemFree_cases s.mem ptr with heq | ⟨target, -, htarget, heq⟩
      · rw [heq]
        exact ha
      · rw [heq]
        refine (List.mem_erase_of_ne fun hat => ?_).2 ha
        rw [hat, htarget] at haddr
        simp [haddr] at hne
  | behind byte =>
      cases hstep
      exact ⟨virInv_behind h.inv byte, h.backed, h.nodup⟩

theorem LiveInv.allocsOk (h : LiveInv s) : AllocsOk s := by
  constructor
  · intro r hr v hlow hhigh
    obtain ⟨a, ha, haddr, hle⟩ := h.backed r hr
    exact (h.inv.ok a (List.mem_append_left _ ha)).mapped v (by omega) (by omega)
  · have hpairs : s.live.Pairwise fun r t => r.1 ≠ t.1 := List.pairwise_map.1 h.nodup
    refine hpairs.imp_of_mem fun {r t} hr ht hne => ?_
    obtain ⟨a, ha, haddr, hle⟩ := h.backed r hr
    obtain ⟨c, hc, haddr', hle'⟩ := h.backed t ht
    have hapart := h.inv.apart_using ha hc fun hac => hne (by rw [← haddr, ← haddr', hac])
    unfold Apart at hapart
    omega

end Live

/-- **Allocations are mapped and apart**, in every run from the start in which pages can be
allocated and every area that is taken from the free list is large enough. -/
theorem virMem_allocsOk (bits : ℕ → BitVec 8) (allocs frees : ℕ → ℕ)
    (hbooks : ∀ p, frees p ≤ allocs p) (supply : List (Option ℕ)) (mm : Mm) (calls : List VirCall)
    (s : VirRun)
    (hrun : Run.exec virStep ⟨virMemInit bits allocs frees supply mm, []⟩ calls = some s)
    (hpages : Run.Along virStep PagesSucceed ⟨virMemInit bits allocs frees supply mm, []⟩ calls)
    (hreuse : Run.Along virStep ReuseFits ⟨virMemInit bits allocs frees supply mm, []⟩ calls) :
    AllocsOk s := by
  have hstart : LiveInv ⟨virMemInit bits allocs frees supply mm, []⟩ :=
    ⟨virInv_init hbooks bits supply mm, by simp, by simp⟩
  have hinv : LiveInv s :=
    Run.exec_invariant liveInv_step calls _ s hstart (Run.along_and calls _ hpages hreuse) hrun
  exact hinv.allocsOk

/-- **The areas are apart and mapped**, and no record is freed twice, also in runs in which an area
is too small. -/
theorem virMem_areas (bits : ℕ → BitVec 8) (allocs frees : ℕ → ℕ) (hbooks : ∀ p, frees p ≤ allocs p)
    (supply : List (Option ℕ)) (mm : Mm) (calls : List VirCall) (s : VirRun)
    (hrun : Run.exec virStep ⟨virMemInit bits allocs frees supply mm, []⟩ calls = some s)
    (hpages : Run.Along virStep PagesSucceed ⟨virMemInit bits allocs frees supply mm, []⟩ calls) :
    VirInv s.mem :=
  Run.exec_invariant (I := fun s => VirInv s.mem) virInv_step calls _ s
    (virInv_init hbooks bits supply mm) hpages hrun

/-- Before anything is mapped, on the small machine with `userLen` bytes of user memory, and with
a byte behind the bitmap that is not clear. -/
def emptyWindow (userLen : ℕ) (supply : List (Option ℕ)) : VirRun :=
  ⟨virMemInit (fun _ => 170#8) (fun _ => 0) (fun _ => 0) supply
    { ranges := Function.update (MemPool.smallLayout.ranges MemPool.clearBoot) .user
        (MemPool.memRangeInit (MemPool.clearBoot .user) 67108864 userLen)
      pde := fun _ => 0, pte := fun _ => 0 }, []⟩

/-- Two areas, of which the first is freed and taken again for less than its size, and a third
one. -/
theorem virMem_allocsOk_reused :
    ∃ s, Run.exec virStep (emptyWindow 65536 [some 1, some 2, some 3])
        [.alloc 4096, .alloc 1, .free 4022337536, .alloc 3000, .behind 255#8, .alloc 8192] =
          some s ∧
      s.live.length = 3 ∧ AllocsOk s := by
  have hsome : (Run.exec virStep (emptyWindow 65536 [some 1, some 2, some 3])
      [.alloc 4096, .alloc 1, .free 4022337536, .alloc 3000, .behind 255#8, .alloc 8192]).map
        (fun s => s.live.length) = some 3 := by decide +kernel
  obtain ⟨s, hs, hlive⟩ := Option.map_eq_some_iff.1 hsome
  exact ⟨s, hs, hlive, virMem_allocsOk _ _ _ (fun _ => le_rfl) _ _ _ s hs (by decide +kernel)
    (by decide +kernel)⟩

/-- An area of two pages is freed; the next request, for sixteen pages, gets it. -/
theorem virMem_not_allocsOk :
    ∃ s, Run.exec virStep (emptyWindow 65536 [some 1])
        [.alloc 4096, .free 4022337536, .alloc 65536] = some s ∧
      Run.Along virStep PagesSucceed (emptyWindow 65536 [some 1])
        [.alloc 4096, .free 4022337536, .alloc 65536] ∧ ¬ AllocsOk s := by
  have hsome : (Run.exec virStep (emptyWindow 65536 [some 1])
      [.alloc 4096, .free 4022337536, .alloc 65536]).map
        (fun s => (s.live, s.mem.mm.present 4022345728)) =
      some ([(4022337536, 65536)], false) := by decide +kernel
  obtain ⟨s, hs, hvals⟩ := Option.map_eq_some_iff.1 hsome
  rw [Prod.mk.injEq] at hvals
  refine ⟨s, hs, by decide +kernel, fun hok => ?_⟩
  have hpresent := hok.1 (4022337536, 65536) (by rw [hvals.1]; simp) 4022345728 (by decide +kernel)
    (by decide +kernel)
  rw [hvals.2] at hpresent
  cases hpresent

theorem virMem_areas_two : ∃ s, Run.exec virStep (emptyWindow 65536 [some 1])
    [.alloc 4096, .free 4022337536, .alloc 65536] = some s ∧ VirInv s.mem := by
  obtain ⟨s, hs⟩ := Option.isSome_iff_exists.1
    (by decide +kernel : (Run.exec virStep (emptyWindow 65536 [some 1])
    [.alloc 4096, .free 4022337536, .alloc 65536]).isSome = true)
  exact ⟨s, hs, virMem_areas _ _ _ (fun _ => le_rfl) _ _ _ s hs (by decide +kernel)⟩

/-! ## Failed allocations -/

/-- The bitmap, the lists and the page tables are as before, and no record that was freed is
linked. -/
def NoTrace (s s' : VirState) : Prop :=
  s'.bitmap = s.bitmap ∧ s'.usingVirMemList = s.usingVirMemList ∧
    s'.freeVirMemList = s.freeVirMemList ∧ (∀ v, s'.mm.present v = s.mm.present v) ∧
    ∀ a ∈ s'.areas, s'.frees a.ptr < s'.allocs a.ptr

/-- **When a failed allocation leaves no trace**, in every state reached by a run in which pages
could be allocated: if and only if it has failed before the pages were entered. -/
theorem virMemAlloc_noTrace_iff (bits : ℕ → BitVec 8) (allocs frees : ℕ → ℕ)
    (hbooks : ∀ p, frees p ≤ allocs p) (supply : List (Option ℕ)) (mm : Mm) (calls : List VirCall)
    (s : VirRun)
    (hrun : Run.exec virStep ⟨virMemInit bits allocs frees supply mm, []⟩ calls = some s)
    (hpages : Run.Along virStep PagesSucceed ⟨virMemInit bits allocs frees supply mm, []⟩ calls)
    (size : ℕ) (s' : VirState) (hfail : virMemAlloc s.mem size = some (s', 0)) :
    NoTrace s.mem s' ↔ StopsBeforeMapping s.mem size := by
  have hinv : VirInv s.mem :=
    Run.exec_invariant (I := fun s => VirInv s.mem) virInv_step calls _ s
      (virInv_init hbooks bits supply mm) hpages hrun
  rcases virMemAlloc_cases hinv.length hfail with
    ⟨hstops, -, rest, rfl⟩ | ⟨target, htarget, hret, -⟩ |
    ⟨hstops, -, idx, p, rest, mm', r, hmakes⟩
  · exact ⟨fun _ => hstops, fun _ => ⟨rfl, rfl, rfl, fun _ => rfl, hinv.linked⟩⟩
  · have hpos := (hinv.ok target (List.mem_append_right _ (freeTarget_mem htarget))).addr_pos.1
    unfold virMemBase at hpos
    omega
  · rcases hmakes.result with ⟨-, hret, -⟩ | ⟨-, -, husing, -⟩
    · unfold virMemBase at hret
      omega
    · refine ⟨fun hno => ?_, fun hstop => absurd hstop hstops⟩
      -- the new area is still linked
      have hlists := hno.2.1
      rw [husing, linkArea] at hlists
      simp at hlists

/-- There is no record for the second area. -/
theorem virMemAlloc_noTrace_record :
    ∃ s s', Run.exec virStep (emptyWindow 65536 [some 1, none]) [.alloc 4096] = some s ∧
      virMemAlloc s.mem 8192 = some (s', 0) ∧ NoTrace s.mem s' := by
  have hsome : ((Run.exec virStep (emptyWindow 65536 [some 1, none]) [.alloc 4096]).bind
      fun s => (virMemAlloc s.mem 8192).map Prod.snd) = some 0 := by decide +kernel
  have hstops : (Run.exec virStep (emptyWindow 65536 [some 1, none]) [.alloc 4096]).map
      (fun s => decide (StopsBeforeMapping s.mem 8192)) = some true := by decide +kernel
  obtain ⟨s, hs, hlast⟩ := Option.bind_eq_some_iff.1 hsome
  obtain ⟨⟨s', ret⟩, hfail, rfl⟩ := Option.map_eq_some_iff.1 hlast
  rw [hs, Option.map_some, Option.some.injEq, decide_eq_true_eq] at hstops
  exact ⟨s, s', hs, hfail, (virMemAlloc_noTrace_iff _ _ _ (fun _ => le_rfl) _ _ _ s hs
    (by decide +kernel) 8192 s' hfail).2 hstops⟩

/-- Three pages of user memory hold a page table and two of the three pages of the area: the
allocation fails, with the area linked, its record freed and the two pages present. -/
theorem virMemAlloc_trace :
    ∃ s', virMemAlloc (emptyWindow 12288 [some 1]).mem 8192 = some (s', 0) ∧
      ¬ NoTrace (emptyWindow 12288 [some 1]).mem s' := by
  have hsome : (virMemAlloc (emptyWindow 12288 [some 1]).mem 8192).map
      (fun sr => (sr.2, sr.1.usingVirMemList)) = some (0, [⟨1, 4022337536, 12288⟩]) := by
    decide +kernel
  obtain ⟨⟨s', ret⟩, hrun, hvals⟩ := Option.map_eq_some_iff.1 hsome
  rw [Prod.mk.injEq] at hvals
  obtain ⟨rfl, husing⟩ := hvals
  refine ⟨s', hrun, fun hno => ?_⟩
  have hlists := hno.2.1
  rw [husing] at hlists
  cases hlists

end VirMem
end LightOS
