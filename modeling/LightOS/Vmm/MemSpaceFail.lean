import LightOS.Vmm.MemSpaceOwned
import LightOS.Mm.PageUnmap

/-!
# Memory spaces of a process: calls that fail

What `do_mem_space_map`, `do_mem_space_map_viraddr` and `do_mem_space_unmap` have done by the time
they return `-1`, for every list of spaces, every contents of the page tables and every request,
one that runs over the end of the address space included.

* `pageUnmapAddrSafe_same_iff` — when `page_unmap_addr_safe` leaves everything as it was.
* `doMemSpaceMapBy_clean` — a mapping fails before it has done anything.
* `fails_clean_iff` — an unmapping that fails has taken the pages out already.
-/

namespace LightOS
namespace PageUnmap

/-! ## When nothing is unmapped -/

/-- None of the pages from `start` on is there, and the table of the last one is not there or not
empty. -/
def NothingMapped (m : Mm) (start pages : ℕ) : Prop :=
  (∀ i < pages, m.present (add32 start (i * pageSize)) = false) ∧
    (0 < pages → hasFlag (m.pde (dirIdx (add32 start ((pages - 1) * pageSize)))) pageAttrPresent =
      true →
      isPageTableEmpty m (add32 start ((pages - 1) * pageSize)) = false)

section Same

variable {m m' : Mm} {v w : ℕ} {pages : ℕ} {fixed : Bool}

theorem add32_next (v i : ℕ) :
    add32 (add32 v pageSize) (i * pageSize) = add32 v ((i + 1) * pageSize) := by
  unfold add32
  rw [Nat.mod_add_mod, Nat.add_assoc, Nat.add_comm pageSize, ← Nat.succ_mul]

theorem nothingMapped_zero (m : Mm) (v : ℕ) : NothingMapped m v 0 :=
  ⟨fun i hi => absurd hi (Nat.not_lt_zero i), fun h => absurd h (lt_irrefl 0)⟩

theorem nothingMapped_one (hv : v < wordSize) :
    NothingMapped m v 1 ↔ m.present v = false ∧
      (hasFlag (m.pde (dirIdx v)) pageAttrPresent = true → isPageTableEmpty m v = false) := by
  have hself : add32 v (0 * pageSize) = v := by
    rw [Nat.zero_mul]
    exact add32_of_lt hv
  unfold NothingMapped
  rw [Nat.sub_self, hself]
  refine ⟨fun h => ⟨?_, h.2 one_pos⟩, fun h => ⟨fun i hi => ?_, fun _ => h.2⟩⟩
  · have hfirst := h.1 0 one_pos
    rwa [hself] at hfirst
  · rw [Nat.lt_one_iff.1 hi, hself]
    exact h.1

/-- The first page and the others. -/
theorem nothingMapped_succ (hv : v < wordSize) (hpages : pages ≠ 0) :
    NothingMapped m v (pages + 1) ↔ m.present v = false ∧
      NothingMapped m (add32 v pageSize) pages := by
  have hself : add32 v (0 * pageSize) = v := by
    rw [Nat.zero_mul]
    exact add32_of_lt hv
  obtain ⟨n, rfl⟩ := Nat.exists_eq_succ_of_ne_zero hpages
  unfold NothingMapped
  simp only [add32_next, Nat.succ_eq_add_one, Nat.add_sub_cancel]
  refine ⟨fun h => ⟨?_, fun i hi => h.1 (i + 1) (Nat.succ_lt_succ hi),
    fun _ => h.2 (Nat.succ_pos _)⟩, fun h => ⟨fun i hi => ?_, fun _ => h.2.2 (Nat.succ_pos _)⟩⟩
  · have hfirst := h.1 0 (Nat.succ_pos _)
    rwa [hself] at hfirst
  · cases i with
    | zero =>
        rw [hself]
        exact h.1
    | succ i => exact h.2.1 i (Nat.lt_of_succ_lt_succ hi)

/-- Presence is only taken away: the entry of a page. -/
theorem clearPage_present (h : hasFlag ((clearPage m v).entry w) pageAttrPresent = true) :
    hasFlag (m.entry w) pageAttrPresent = true := by
  unfold clearPage at h
  split_ifs at h with hpte
  · rw [setEntry_entry] at h
    split_ifs at h with hpage
    · rw [hasFlag_clearPresent] at h
      cases h
    · exact h
  · exact h

/-- Presence is only taken away: a table. -/
theorem releaseTable_present (h : hasFlag ((releaseTable m v).mm.entry w) pageAttrPresent = true) :
    hasFlag (m.entry w) pageAttrPresent = true := by
  unfold releaseTable at h
  split_ifs at h with hempty
  · unfold dropTable Mm.entry at h
    unfold Mm.entry
    split_ifs at h ⊢ with hdir
    · dsimp only at h
      by_cases hidx : tableIdx w = dirIdx v
      · rw [hidx, Function.update_self, hasFlag_clearPresent] at h
        cases h
      · rwa [Function.update_of_ne hidx] at h
    · exact h
  · exact h

/-- **Presence is only taken away.** -/
theorem unmapTraced_present (fixed : Bool) :
    ∀ (pages : ℕ) (m : Mm) (v : ℕ),
      hasFlag ((unmapTraced fixed pages m v).mm.entry w) pageAttrPresent = true →
        hasFlag (m.entry w) pageAttrPresent = true := by
  intro pages
  induction pages with
  | zero =>
      intro m v h
      rwa [unmapTraced] at h
  | succ pages ih =>
      intro m v h
      rw [unmapTraced] at h
      split_ifs at h with hpde hlast
      · rw [after_mm] at h
        exact clearPage_present (releaseTable_present h)
      · rw [after_mm] at h
        exact clearPage_present (ih _ _ h)
      · exact ih _ _ h

/-- A page that is there goes, and does not come back. -/
theorem clearPage_gone (hpte : hasFlag (m.entry v) pageAttrPresent = true) :
    hasFlag ((clearPage m v).entry v) pageAttrPresent = false := by
  rw [clearPage, if_pos hpte, setEntry_entry, if_pos rfl, hasFlag_clearPresent]

/-- The table of the last page stays only if it is not empty. -/
theorem releaseTable_same (hpde : hasFlag (m.pde (dirIdx v)) pageAttrPresent = true)
    (hsame : (releaseTable m v).mm.pde = m.pde) : isPageTableEmpty m v = false := by
  by_contra hempty
  rw [releaseTable_of_empty (Bool.eq_true_of_not_eq_false hempty)] at hsame
  have hgone := congrFun hsame (dirIdx v)
  simp only [dropTable, Function.update_self] at hgone
  rw [← hgone, hasFlag_clearPresent] at hpde
  cases hpde

/-- **The tables are as before** only if there was nothing to do. -/
theorem nothingMapped_of_same (fixed : Bool) :
    ∀ (pages : ℕ) (m : Mm) (v : ℕ), v < wordSize →
      (unmapTraced fixed pages m v).mm.pde = m.pde →
      (∀ w, (unmapTraced fixed pages m v).mm.entry w = m.entry w) → NothingMapped m v pages := by
  intro pages
  induction pages with
  | zero => exact fun m v _ _ _ => nothingMapped_zero m v
  | succ pages ih =>
      intro m v hv hdir hentry
      rw [unmapTraced] at hdir hentry
      by_cases hpde : hasFlag (m.pde (dirIdx v)) pageAttrPresent = true
      · simp only [if_pos hpde, after_mm] at hdir hentry
        have habsent : hasFlag (m.entry v) pageAttrPresent = false := by
          by_contra hpte
          have hthere := Bool.eq_true_of_not_eq_false hpte
          have hgone := clearPage_gone hthere
          rw [← hentry v] at hthere
          split_ifs at hthere with hlast
          · rw [releaseTable_present hthere] at hgone
            cases hgone
          · rw [unmapTraced_present fixed _ _ _ hthere] at hgone
            cases hgone
        have hclear : clearPage m v = m := if_neg (by rw [habsent]; exact Bool.false_ne_true)
        have hnot : m.present v = false := by rw [Mm.present, habsent, Bool.and_false]
        rw [hclear] at hdir hentry
        by_cases hlast : pages = 0
        · subst hlast
          rw [if_pos rfl] at hdir
          exact (nothingMapped_one hv).2 ⟨hnot, fun h => releaseTable_same h hdir⟩
        · simp only [if_neg hlast] at hdir hentry
          exact (nothingMapped_succ hv hlast).2 ⟨hnot, ih m _ (add32_lt ..) hdir hentry⟩
      · simp only [if_neg hpde] at hdir hentry
        have hnot : m.present v = false := by
          rw [Mm.present, Bool.eq_false_of_not_eq_true hpde, Bool.false_and]
        by_cases hlast : pages = 0
        · subst hlast
          exact (nothingMapped_one hv).2 ⟨hnot, fun h => absurd h hpde⟩
        · exact (nothingMapped_succ hv hlast).2 ⟨hnot, ih m _ (add32_lt ..) hdir hentry⟩

/-- **Where there is nothing to do**, nothing happens. -/
theorem unmapTraced_of_nothingMapped (fixed : Bool) :
    ∀ (pages : ℕ) (m : Mm) (v : ℕ), v < wordSize → NothingMapped m v pages →
      unmapTraced fixed pages m v = ⟨m, [], []⟩ := by
  intro pages
  induction pages with
  | zero => exact fun m v _ _ => rfl
  | succ pages ih =>
      intro m v hv hnone
      rw [unmapTraced]
      have hnot : m.present v = false := by
        by_cases hlast : pages = 0
        · subst hlast
          exact ((nothingMapped_one hv).1 hnone).1
        · exact ((nothingMapped_succ hv hlast).1 hnone).1
      by_cases hpde : hasFlag (m.pde (dirIdx v)) pageAttrPresent = true
      · have habsent : hasFlag (m.entry v) pageAttrPresent ≠ true := by
          rw [Mm.present, hpde, Bool.true_and] at hnot
          rw [hnot]
          exact Bool.false_ne_true
        have hclear : clearPage m v = m := if_neg habsent
        have hfrees : pageFrees m v fixed = [] := if_neg habsent
        rw [if_pos hpde, hclear, hfrees]
        by_cases hlast : pages = 0
        · subst hlast
          have hkeeps := ((nothingMapped_one hv).1 hnone).2 hpde
          rw [if_pos rfl, releaseTable_of_not_empty (by rw [hkeeps]; exact Bool.false_ne_true)]
          rfl
        · rw [if_neg hlast, ih m _ (add32_lt ..) ((nothingMapped_succ hv hlast).1 hnone).2]
          rfl
      · rw [if_neg hpde]
        by_cases hlast : pages = 0
        · subst hlast
          rfl
        · exact ih m _ (add32_lt ..) ((nothingMapped_succ hv hlast).1 hnone).2

/-- **`page_unmap_addr_safe`** leaves the tables and the pool as they were if and only if nothing
of the range is there. -/
theorem pageUnmapAddrSafe_same_iff {start len : ℕ} (hstart : start < wordSize)
    (hrun : pageUnmapAddrSafe m start len fixed = some m') :
    m' = m ↔ NothingMapped m (pageMask start) (pageAlign len / pageSize) := by
  have hfirst : pageMask start < wordSize := lt_of_le_of_lt (pageMask_le start) hstart
  rw [pageUnmapAddrSafe_traced, Option.map_eq_some_iff] at hrun
  obtain ⟨r, hfree, rfl⟩ := hrun
  constructor
  · intro hsame
    refine nothingMapped_of_same fixed _ m _ hfirst ?_ fun w => ?_
    · have hdir := congrArg Mm.pde hsame
      rwa [onPool_pde] at hdir
    · have hentry := congrArg (fun mm => Mm.entry mm w) hsame
      simp only [onPool_entry] at hentry
      exact hentry
  · intro hnone
    have htraced : pageUnmapTraced m start len fixed = ⟨m, [], []⟩ :=
      unmapTraced_of_nothingMapped fixed _ m _ hfirst hnone
    rw [htraced] at hfree ⊢
    simp only [Unmapping.frees, List.map_nil, List.append_nil, freeAll, Option.some.injEq] at hfree
    subst hfree
    rfl

end Same

end PageUnmap

namespace Vm

open LinkedList PageUnmap

/-! ## Mapping kernel memory -/

/-- The loop of `do_mem_space_map_viraddr`: one page after the other. -/
def mapViraddrLoop (prot vend : ℕ) : ℕ → Mm → ℕ → ℕ → Option Mm
  | 0, _, _, _ => none
  | rounds + 1, m, vstart, vaddr =>
      if vaddr < vend then
        (pageMapAddrFixed m vstart (sub32 vaddr kernBaseVirAddr) pageSize prot).bind fun m' =>
          mapViraddrLoop prot vend rounds m' (add32 vstart pageSize) (add32 vaddr pageSize)
      else some m

/-- The part of `do_mem_space_map_viraddr` that fills the page tables. -/
def mapViraddrPages (mm : Mm) (addr vaddr len prot flags : ℕ) : Option Mm :=
  if hasFlag flags memSpaceMapShared then
    mapViraddrLoop prot (add32 vaddr len) pageRounds mm addr vaddr
  else (pageMapAddrSafe mm addr len prot).map Prod.fst

/-- What `do_mem_space_map` and `do_mem_space_map_viraddr` have in common; they fill the page
tables from different sources. -/
def doMemSpaceMapBy (fill : Mm → ℕ → Option Mm) (s : AddrSpace) (addr len prot flags : ℕ) :
    Option (AddrSpace × ℕ) :=
  if MapRefused addr (pageAlign len) prot then some (s, minusOne)
  else
    match mapPlace s addr (pageAlign len) flags with
    | none => none
    | some place =>
        if place = minusOne then some (s, minusOne)
        else
          match memSpaceAlloc s with
          | (s', none) => some (s', minusOne)
          | (s', some space) =>
              let init := memSpaceInit s' space place (add32 place (pageAlign len))
                (mapProt prot flags) flags
              match memSpaceInsert init space with
              | none => none
              | some s'' => (fill s''.mm place).map fun mm => ({ s'' with mm := mm }, place)

theorem doMemSpaceMap_eq (s : AddrSpace) (addr paddr len prot flags : ℕ) :
    doMemSpaceMap s addr paddr len prot flags = doMemSpaceMapBy
      (fun mm place => mapPages mm place paddr (pageAlign len) (mapProt prot flags) flags) s addr
      len prot flags := rfl

/-- `do_mem_space_map_viraddr`. -/
def doMemSpaceMapViraddr (s : AddrSpace) (addr vaddr len prot flags : ℕ) : Option (AddrSpace × ℕ) :=
  doMemSpaceMapBy (fun mm place => mapViraddrPages mm place vaddr (pageAlign len)
    (mapProt prot flags) flags)
    s addr len prot flags

/-! ## What has been done by then -/

/-- The spaces with their records, the page tables and the page pool are as before. -/
structure SameSpace (s s' : AddrSpace) : Prop where
  recs : s'.recs = s.recs
  vmm : s'.vmm = s.vmm
  mm : s'.mm = s.mm

/-- If the call fails, nothing has changed. -/
def FailsClean {α : Type} (s : AddrSpace) (failed : α) (result : Option (AddrSpace × α)) : Prop :=
  ∀ s', result = some (s', failed) → SameSpace s s'

section Fail

variable {s s' : AddrSpace} {addr len prot flags : ℕ}

theorem SameSpace.rfl : SameSpace s s := ⟨Eq.refl _, Eq.refl _, Eq.refl _⟩

/-- A record that is not to be had changes nothing but what `mem_alloc` is going to return. -/
theorem memSpaceAlloc_none (h : (memSpaceAlloc s).2 = none) :
    ∃ rest, memSpaceAlloc s = ({ s with supply := rest }, none) := by
  unfold memSpaceAlloc at h ⊢
  split at h
  · split_ifs at h ⊢ with hfree
    exact ⟨_, rfl⟩
  · exact ⟨_, rfl⟩
  · exact ⟨_, rfl⟩

/-- **A mapping fails before it has done anything.** -/
theorem doMemSpaceMapBy_clean (fill : Mm → ℕ → Option Mm) (s : AddrSpace)
    (addr len prot flags : ℕ) :
    FailsClean s minusOne (doMemSpaceMapBy fill s addr len prot flags) := by
  intro s' hrun
  unfold doMemSpaceMapBy at hrun
  split_ifs at hrun with hrefused
  · cases hrun
    exact SameSpace.rfl
  split at hrun
  · cases hrun
  rename_i place hplace
  split_ifs at hrun with hnone
  · cases hrun
    exact SameSpace.rfl
  split at hrun
  · rename_i t halloc
    obtain ⟨rest, hrest⟩ := memSpaceAlloc_none (congrArg Prod.snd halloc)
    rw [halloc, Prod.mk.injEq] at hrest
    cases hrun
    rw [hrest.1]
    exact ⟨rfl, rfl, rfl⟩
  · rename_i t space halloc
    dsimp only at hrun
    split at hrun
    · cases hrun
    · -- past the record the call returns its place
      obtain ⟨mm, -, heq⟩ := Option.map_eq_some_iff.1 hrun
      rw [Prod.mk.injEq] at heq
      exact absurd heq.2 hnone

/-- The requests of `do_mem_space_unmap` that change nothing when they fail: they do not get as far
as the pages, or a record is to be had, or the pages are not there, or `page_unmap_addr_safe`
panics over a frame. -/
def UnmapFailsClean (s : AddrSpace) (addr len : ℕ) : Prop :=
  ∀ p, CutsInto s addr len p → (memSpaceAlloc s).2 = none →
    pageUnmapAddrSafe s.mm addr (pageAlign len) (hasFlag (s.recs p).flags memSpaceMapShared) ≠
      none →
    NothingMapped s.mm addr (pageAlign len / pageSize)

/-- What is left of the pages when there is no record. -/
theorem unmap_same_iff {p : RecPtr} (hcuts : CutsInto s addr len p) {mm : Mm} {fixed : Bool}
    (hrun : pageUnmapAddrSafe s.mm addr (pageAlign len) fixed = some mm) :
    mm = s.mm ↔ NothingMapped s.mm addr (pageAlign len / pageSize) := by
  have hrefused := hcuts.1
  unfold UnmapRefused at hrefused
  rw [not_or, not_or, not_not] at hrefused
  have haddr : addr < wordSize := lt_of_le_of_lt (not_lt.1 hrefused.2.1) (by norm_num)
  have hsame := pageUnmapAddrSafe_same_iff haddr hrun
  rwa [pageMask_eq_self hrefused.1, pageAlign_eq_self (pageAligned_pageAlign len)
    (pageAlign_lt len)] at hsame

/-- **Without a record** the pages go and the spaces stay. -/
theorem doMemSpaceUnmap_noRecord {p : RecPtr} (hcuts : CutsInto s addr len p)
    (hrecord : (memSpaceAlloc s).2 = none)
    {mm : Mm} (hpages : pageUnmapAddrSafe s.mm addr (pageAlign len)
      (hasFlag (s.recs p).flags memSpaceMapShared) = some mm) :
    ∃ rest, doMemSpaceUnmap s addr len = some ({ s with mm := mm, supply := rest }, -1) := by
  obtain ⟨hrefused, hfind, hlow, hhigh⟩ := hcuts
  obtain ⟨⟨prev, found⟩, hprev, rfl⟩ := Option.map_eq_some_iff.1 hfind
  obtain ⟨rest, hrest⟩ := memSpaceAlloc_none ((memSpaceAlloc_setMm s mm).trans hrecord)
  refine ⟨rest, ?_⟩
  unfold doMemSpaceUnmap
  rw [if_neg hrefused, hprev]
  simp only [if_neg (not_or.2 ⟨not_lt.2 hlow, not_lt.2 hhigh⟩), hpages, hrest]

/-- **An unmapping that fails** has changed nothing if and only if nothing of its range was there.
-/
theorem doMemSpaceUnmap_clean_iff (s : AddrSpace) (addr len : ℕ) :
    FailsClean s (-1 : ℤ) (doMemSpaceUnmap s addr len) ↔ UnmapFailsClean s addr len := by
  constructor
  · intro hclean p hcuts hrecord hreturns
    obtain ⟨mm, hpages⟩ := Option.ne_none_iff_exists'.1 hreturns
    obtain ⟨rest, hrun⟩ := doMemSpaceUnmap_noRecord hcuts hrecord hpages
    exact (unmap_same_iff hcuts hpages).1 (hclean _ hrun).mm
  · intro hgood s' hrun
    rcases doMemSpaceUnmap_pages hrun with ⟨rfl, -⟩ | ⟨p, hcuts, hpages, hret⟩
    · exact SameSpace.rfl
    · have hrecord : (memSpaceAlloc s).2 = none := by
        rcases hret with ⟨-, hnone⟩ | ⟨hzero, -⟩
        · exact hnone
        · exact absurd hzero (by norm_num)
      have hnothing := hgood p hcuts hrecord (by rw [hpages]; exact Option.some_ne_none _)
      obtain ⟨rest, hagain⟩ := doMemSpaceUnmap_noRecord hcuts hrecord hpages
      rw [hrun, Option.some.injEq, Prod.mk.injEq] at hagain
      rw [hagain.1]
      exact ⟨rfl, rfl, (unmap_same_iff hcuts hpages).2 hnothing⟩

/-- **Calls that fail**: the mappings change nothing, and an unmapping changes nothing if and only
if nothing of its range was there. -/
theorem fails_clean_iff (s : AddrSpace) (addr len : ℕ) :
    (FailsClean s (-1 : ℤ) (doMemSpaceUnmap s addr len) ↔ UnmapFailsClean s addr len) ∧
      ∀ paddr vaddr prot flags, FailsClean s minusOne (doMemSpaceMap s addr paddr len prot flags) ∧
        FailsClean s minusOne (doMemSpaceMapViraddr s addr vaddr len prot flags) := by
  refine ⟨doMemSpaceUnmap_clean_iff s addr len, fun paddr vaddr prot flags => ⟨?_, ?_⟩⟩
  · rw [doMemSpaceMap_eq]
    exact doMemSpaceMapBy_clean _ s addr len prot flags
  · exact doMemSpaceMapBy_clean _ s addr len prot flags

end Fail

/-- Two shared pages that are there, and no record to be had. -/
def noRecordSpace : AddrSpace :=
  { singleSpace with
    recs := fun _ => ⟨⟨6, 144, 2160000000⟩, 65536, 73728, none⟩
    supply := []
    mm :=
      { ranges := MemPool.smallLayout.ranges MemPool.clearBoot
        pde := fun d => if d = 0 then 67117063 else 0
        pte := fun n => if n = 16 then 67108871 else if n = 17 then 67112967 else 0 } }

/-- The first of the two pages is unmapped: the call fails, and the page is gone. -/
theorem doMemSpaceUnmap_not_clean :
    noRecordSpace.mm.present 65536 = true ∧
      (doMemSpaceUnmap noRecordSpace 65536 4096).map (fun sr => (sr.2, sr.1.mm.present 65536)) =
        some (-1, false) ∧
      ¬ FailsClean noRecordSpace (-1 : ℤ) (doMemSpaceUnmap noRecordSpace 65536 4096) := by
  have hthere : noRecordSpace.mm.present 65536 = true := by decide +kernel
  have hgone : (doMemSpaceUnmap noRecordSpace 65536 4096).map
    (fun sr => (sr.2, sr.1.mm.present 65536)) =
      some (-1, false) := by decide +kernel
  refine ⟨hthere, hgone, fun hclean => ?_⟩
  obtain ⟨⟨s', ret⟩, hrun, heq⟩ := Option.map_eq_some_iff.1 hgone
  rw [Prod.mk.injEq] at heq
  obtain ⟨rfl, habsent⟩ := heq
  rw [(hclean s' hrun).mm, hthere] at habsent
  cases habsent

end Vm
end LightOS
