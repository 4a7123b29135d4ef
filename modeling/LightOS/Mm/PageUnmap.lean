import LightOS.Mm.MemPoolNode
import LightOS.Mm.Page

/-!
# Taking a range out of the page tables

`page_unmap_addr_safe`, for every range and every contents of the tables: what it leaves
in them, and what it passes to `page_free`.

* `pageUnmapAddrSafe_traced` — the calls of `page_free`, as a list, and the tables beside
  them.
* `clearRange_entry` — the loop over the pages, one entry at a time.
* `unmap_ok_iff` — the range is gone, nothing else is, and every frame is freed once; but
  of the tables that become empty only that of the last page is given back.
-/

namespace LightOS
namespace PageUnmap

open MemPool

/-! ## The calls of `page_free` -/

/-- What `page_unmap_addr_safe` leaves in the tables, the frames of pages it has passed to
`page_free`, and the tables it has passed there: their directory indices and frames. -/
structure Unmapping where
  mm : Mm
  pages : List ℕ
  tables : List (ℕ × ℕ)

/-- One page goes. -/
def clearPage (m : Mm) (vaddr : ℕ) : Mm :=
  if hasFlag (m.entry vaddr) pageAttrPresent then m.setEntry vaddr (clearPresent (m.entry vaddr))
  else m

/-- What is passed to `page_free` for one page. -/
def pageFrees (m : Mm) (vaddr : ℕ) (fixed : Bool) : List ℕ :=
  if hasFlag (m.entry vaddr) pageAttrPresent then (if fixed then [] else [addrVir2Phy m vaddr])
  else []

/-- The directory entry of a table goes. -/
def dropTable (m : Mm) (i : ℕ) : Mm :=
  { m with pde := Function.update m.pde i (clearPresent (m.pde i)) }

/-- The end of `page_unmap_addr_safe`. -/
def releaseTable (m : Mm) (vaddr : ℕ) : Unmapping :=
  if isPageTableEmpty m vaddr then
    ⟨dropTable m (dirIdx vaddr), [], [(dirIdx vaddr, pageMask (m.pde (dirIdx vaddr)))]⟩
  else ⟨m, [], []⟩

/-- Pages passed to `page_free` before the rest. -/
def Unmapping.after (frames : List ℕ) (t : Unmapping) : Unmapping :=
  { t with pages := frames ++ t.pages }

/-- The loops of `page_unmap_addr_safe`, with the calls of `page_free` written down. -/
def unmapTraced (fixed : Bool) : ℕ → Mm → ℕ → Unmapping
  | 0, m, _ => ⟨m, [], []⟩
  | pages + 1, m, vaddr =>
      if hasFlag (m.pde (dirIdx vaddr)) pageAttrPresent then
        .after (pageFrees m vaddr fixed)
          (if pages = 0 then releaseTable (clearPage m vaddr) vaddr
          else unmapTraced fixed pages (clearPage m vaddr) (add32 vaddr pageSize))
      else unmapTraced fixed pages m (add32 vaddr pageSize)

/-- `page_unmap_addr_safe`, with the calls of `page_free` written down. -/
def pageUnmapTraced (m : Mm) (start len : ℕ) (fixed : Bool) : Unmapping :=
  unmapTraced fixed (pageAlign len / pageSize) m (pageMask start)

/-- `page_free` of one frame after the other. -/
def freeAll : List ℕ → MemRanges → Option MemRanges
  | [], r => some r
  | frame :: frames, r => (memNodeFreePages r frame).bind fun rr => freeAll frames rr.1

/-- All that is passed to `page_free`, in order. -/
def Unmapping.frees (t : Unmapping) : List ℕ := t.pages ++ t.tables.map Prod.snd

/-- The tables, on a pool. -/
def onPool (m : Mm) (r : MemRanges) : Mm := { m with ranges := r }

/-- The trace, with its tables on a pool. -/
def Unmapping.over (t : Unmapping) (r : MemRanges) : Unmapping := { t with mm := onPool t.mm r }

section Trace

variable {m : Mm} {vaddr : ℕ} {fixed : Bool}

@[simp] theorem onPool_ranges (m : Mm) (r : MemRanges) : (onPool m r).ranges = r := rfl

@[simp] theorem onPool_pde (m : Mm) (r : MemRanges) : (onPool m r).pde = m.pde := rfl

@[simp] theorem onPool_entry (m : Mm) (r : MemRanges) (v : ℕ) : (onPool m r).entry v = m.entry v :=
  rfl

@[simp] theorem onPool_onPool (m : Mm) (r r' : MemRanges) : onPool (onPool m r) r' = onPool m r' :=
  rfl

theorem map_onPool (o : Option MemRanges) (m : Mm) (r : MemRanges) :
    (o.map fun r' => onPool (onPool m r) r') = o.map fun r' => onPool m r' := rfl

theorem onPool_self (m : Mm) : onPool m m.ranges = m := rfl

@[simp] theorem over_mm (t : Unmapping) (r : MemRanges) : (t.over r).mm = onPool t.mm r := rfl

@[simp] theorem over_frees (t : Unmapping) (r : MemRanges) : (t.over r).frees = t.frees := rfl

@[simp] theorem after_mm (frames : List ℕ) (t : Unmapping) : (t.after frames).mm = t.mm := rfl

@[simp] theorem after_pages (frames : List ℕ) (t : Unmapping) :
    (t.after frames).pages = frames ++ t.pages := rfl

@[simp] theorem after_tables (frames : List ℕ) (t : Unmapping) :
    (t.after frames).tables = t.tables := rfl

theorem after_frees (frames : List ℕ) (t : Unmapping) :
    (t.after frames).frees = frames ++ t.frees :=
  List.append_assoc ..

theorem after_after (frames frames' : List ℕ) (t : Unmapping) :
    (t.after frames').after frames = t.after (frames ++ frames') :=
  congrArg (fun pages => (⟨t.mm, pages, t.tables⟩ : Unmapping)) (List.append_assoc ..).symm

theorem after_over (frames : List ℕ) (t : Unmapping) (r : MemRanges) :
    (t.over r).after frames = (t.after frames).over r := rfl

theorem setEntry_onPool (m : Mm) (r : MemRanges) (v e : ℕ) :
    (onPool m r).setEntry v e = onPool (m.setEntry v e) r := by
  unfold Mm.setEntry
  split_ifs <;> rfl

theorem setEntry_ranges (m : Mm) (v e : ℕ) : (m.setEntry v e).ranges = m.ranges := by
  unfold Mm.setEntry
  split_ifs <;> rfl

theorem clearPage_onPool (m : Mm) (r : MemRanges) (v : ℕ) :
    clearPage (onPool m r) v = onPool (clearPage m v) r := by
  rw [clearPage, clearPage, onPool_entry]
  by_cases hpte : hasFlag (m.entry v) pageAttrPresent = true
  · rw [if_pos hpte, if_pos hpte, setEntry_onPool]
  · rw [if_neg hpte, if_neg hpte]

theorem pageFrees_onPool (m : Mm) (r : MemRanges) (v : ℕ) (fixed : Bool) :
    pageFrees (onPool m r) v fixed = pageFrees m v fixed := by
  rw [pageFrees, pageFrees, addrVir2Phy, addrVir2Phy, onPool_entry]

theorem isPageTableEmpty_congr {m m' : Mm} (h : ∀ w, m'.entry w = m.entry w) (v : ℕ) :
    isPageTableEmpty m' v = isPageTableEmpty m v := by
  simp only [isPageTableEmpty, h]

theorem releaseTable_of_empty {m : Mm} {v : ℕ} (h : isPageTableEmpty m v = true) :
    releaseTable m v = ⟨dropTable m (dirIdx v), [], [(dirIdx v, pageMask (m.pde (dirIdx v)))]⟩ :=
      if_pos h

theorem releaseTable_of_not_empty {m : Mm} {v : ℕ} (h : isPageTableEmpty m v ≠ true) :
    releaseTable m v = ⟨m, [], []⟩ := if_neg h

theorem releaseTable_onPool (m : Mm) (r : MemRanges) (v : ℕ) :
    releaseTable (onPool m r) v = (releaseTable m v).over r := by
  have hempty : isPageTableEmpty (onPool m r) v = isPageTableEmpty m v :=
    isPageTableEmpty_congr (onPool_entry m r) v
  by_cases h : isPageTableEmpty m v = true
  · rw [releaseTable_of_empty h, releaseTable_of_empty (hempty.trans h), onPool_pde]
    rfl
  · rw [releaseTable_of_not_empty h, releaseTable_of_not_empty (fun h' => h (hempty.symm.trans h'))]
    rfl

/-- What happens to the tables does not depend on the pool. -/
theorem unmapTraced_onPool (fixed : Bool) (r : MemRanges) :
    ∀ (pages : ℕ) (m : Mm) (v : ℕ),
      unmapTraced fixed pages (onPool m r) v = (unmapTraced fixed pages m v).over r := by
  intro pages
  induction pages with
  | zero => intro m v; rfl
  | succ pages ih =>
      intro m v
      rw [unmapTraced, unmapTraced, onPool_pde, clearPage_onPool, pageFrees_onPool]
      by_cases hpde : hasFlag (m.pde (dirIdx v)) pageAttrPresent = true
      · rw [if_pos hpde, if_pos hpde]
        by_cases hlast : pages = 0
        · rw [if_pos hlast, if_pos hlast, releaseTable_onPool, after_over]
        · rw [if_neg hlast, if_neg hlast, ih, after_over]
      · rw [if_neg hpde, if_neg hpde, ih]

theorem pageFree_eq (m : Mm) (frame : ℕ) :
    pageFree m frame = (memNodeFreePages m.ranges frame).map fun rr => onPool m rr.1 := rfl

/-- One page: what is passed to `page_free`, and the entry that is cleared. -/
theorem pageUnmapPage_traced (m : Mm) (v : ℕ) (fixed : Bool) :
    pageUnmapPage m v fixed = (freeAll (pageFrees m v fixed) m.ranges).map fun r =>
      onPool (clearPage m v) r := by
  unfold pageUnmapPage pageFrees clearPage
  by_cases hpte : hasFlag (m.entry v) pageAttrPresent = true
  · rw [if_pos hpte, if_pos hpte, if_pos hpte]
    cases fixed with
    | true =>
        simp only [if_true, freeAll, Option.map_some]
        rw [← setEntry_ranges m v (clearPresent (m.entry v)), onPool_self]
    | false =>
        simp only [Bool.false_eq_true, if_false, pageFree_eq, freeAll]
        cases memNodeFreePages m.ranges (addrVir2Phy m v) with
        | none => rfl
        | some rr => simp only [Option.map_some, Option.bind_some, setEntry_onPool]
  · rw [if_neg hpte, if_neg hpte, if_neg hpte]
    rfl

/-- The table of the last page. -/
theorem pageUnmapTable_traced (m : Mm) (v : ℕ) :
    pageUnmapTable m v = (freeAll (releaseTable m v).frees m.ranges).map fun r =>
      onPool (releaseTable m v).mm r := by
  by_cases h : isPageTableEmpty m v = true
  · rw [pageUnmapTable, if_pos h, releaseTable_of_empty h, pageFree_eq]
    simp only [Unmapping.frees, List.map_cons, List.map_nil, List.nil_append, freeAll]
    cases memNodeFreePages m.ranges (pageMask (m.pde (dirIdx v))) <;> rfl
  · rw [pageUnmapTable, if_neg h, releaseTable_of_not_empty h]
    rfl

theorem freeAll_append (fs gs : List ℕ) (r : MemRanges) :
    freeAll (fs ++ gs) r = (freeAll fs r).bind (freeAll gs) := by
  induction fs generalizing r with
  | nil => rfl
  | cons f fs ih =>
      simp only [List.cons_append, freeAll]
      cases memNodeFreePages r f with
      | none => rfl
      | some rr => exact ih rr.1

theorem pageUnmapLoop_traced (fixed : Bool) :
    ∀ (pages : ℕ) (m : Mm) (v : ℕ), pageUnmapLoop fixed pages m v =
      (freeAll (unmapTraced fixed pages m v).frees m.ranges).map
        fun r => onPool (unmapTraced fixed pages m v).mm r := by
  intro pages
  induction pages with
  | zero => intro m v; rfl
  | succ pages ih =>
      intro m v
      rw [pageUnmapLoop, unmapTraced]
      by_cases hpde : hasFlag (m.pde (dirIdx v)) pageAttrPresent = true
      · rw [if_pos hpde, if_pos hpde, pageUnmapPage_traced, after_frees, after_mm, freeAll_append]
        cases freeAll (pageFrees m v fixed) m.ranges with
        | none => rfl
        | some r =>
            rw [Option.map_some, Option.bind_some]
            by_cases hlast : pages = 0
            · rw [if_pos hlast]
              change (if pages = 0 then pageUnmapTable (onPool (clearPage m v) r) v else _) = _
              rw [if_pos hlast, pageUnmapTable_traced, releaseTable_onPool, over_frees, over_mm,
                onPool_ranges, map_onPool]
            · rw [if_neg hlast]
              change (if pages = 0 then
                _ else pageUnmapLoop fixed pages (onPool (clearPage m v) r) _) = _
              rw [if_neg hlast, ih, unmapTraced_onPool, over_frees, over_mm, onPool_ranges,
                map_onPool]
      · rw [if_neg hpde, if_neg hpde]
        rw [ih]

/-- **The calls of `page_free`**: `page_unmap_addr_safe` passes the frames of the trace to it one
after the other, and leaves the tables of the trace. -/
theorem pageUnmapAddrSafe_traced (m : Mm) (start len : ℕ) (fixed : Bool) :
    pageUnmapAddrSafe m start len fixed =
      (freeAll (pageUnmapTraced m start len fixed).frees m.ranges).map
        fun r => onPool (pageUnmapTraced m start len fixed).mm r :=
  pageUnmapLoop_traced fixed _ m _

end Trace

/-! ## Where the directory's entries are -/

/-- The page that maps the table of a directory index. -/
def tablePage (i : ℕ) : ℕ := windowStart + i * pageSize

section Pages

variable {m : Mm} {v w i : ℕ}

/-- A directory entry is a table entry of the window. -/
theorem entry_tablePage (hi : i < 1024) : m.entry (tablePage i) = m.pde i := by
  have hdir : dirIdx (tablePage i) = 1023 := by
    unfold dirIdx tablePage windowStart pageSize
    omega
  have hidx : tableIdx (tablePage i) = i := by
    unfold tableIdx tablePage windowStart pageSize
    omega
  rw [Mm.entry, if_pos hdir, hidx]

theorem entry_of_page (h : v / 4096 = w / 4096) : m.entry v = m.entry w := by
  simp only [Mm.entry, tableIdx, h, dirIdx_eq_of_page h]

theorem dirIdx_lt (hv : v < wordSize) : dirIdx v < 1024 := by
  unfold wordSize at hv
  unfold dirIdx
  omega

/-- An address below the last page is not mapped by a table before it. -/
theorem tablePage_ne (hv : v + pageSize < wordSize) (hvw : v / 4096 ≤ w / 4096) :
    v / 4096 ≠ tablePage (dirIdx w) / 4096 ∨ v / 4096 = w / 4096 := by
  unfold pageSize wordSize at hv
  unfold tablePage dirIdx windowStart pageSize
  omega

/-! ## One page -/

/-- A page goes, if it is there. -/
def clearAt (m : Mm) (vaddr : ℕ) : Mm :=
  if m.present vaddr then m.setEntry vaddr (clearPresent (m.entry vaddr)) else m

theorem clearAt_of_pde (hpde : hasFlag (m.pde (dirIdx v)) pageAttrPresent = true) :
    clearAt m v = clearPage m v := by
  rw [clearAt, clearPage, Mm.present, hpde, Bool.true_and]

theorem clearAt_of_missing (hpde : hasFlag (m.pde (dirIdx v)) pageAttrPresent ≠ true) :
    clearAt m v = m := by
  rw [clearAt, Mm.present, Bool.eq_false_of_not_eq_true hpde, Bool.false_and,
    if_neg Bool.false_ne_true]

/-- Writing one entry, seen from all of them. -/
theorem setEntry_entry (m : Mm) (v w e : ℕ) :
    (m.setEntry v e).entry w = if w / 4096 = v / 4096 then e else m.entry w := by
  unfold Mm.setEntry
  by_cases hdir : dirIdx v = 1023
  · rw [if_pos hdir]
    by_cases hdirw : dirIdx w = 1023
    · have hidx : tableIdx w = tableIdx v ↔ w / 4096 = v / 4096 := by
        unfold dirIdx at hdir hdirw
        unfold tableIdx
        omega
      rw [Mm.entry, if_pos hdirw, Mm.entry, if_pos hdirw]
      simp only [Function.update_apply, hidx]
    · rw [Mm.entry, if_neg hdirw, Mm.entry, if_neg hdirw, if_neg]
      intro hpage
      exact hdirw ((dirIdx_eq_of_page hpage).trans hdir)
  · rw [if_neg hdir]
    by_cases hdirw : dirIdx w = 1023
    · rw [Mm.entry, if_pos hdirw, Mm.entry, if_pos hdirw, if_neg]
      intro hpage
      exact hdir ((dirIdx_eq_of_page hpage).symm.trans hdirw)
    · rw [Mm.entry, if_neg hdirw, Mm.entry, if_neg hdirw]
      simp only [Function.update_apply]

theorem clearAt_entry (m : Mm) (v w : ℕ) :
    (clearAt m v).entry w =
      if w / 4096 = v / 4096 ∧ m.present w = true then clearPresent (m.entry w) else m.entry w := by
  unfold clearAt
  by_cases hpresent : m.present v = true
  · rw [if_pos hpresent, setEntry_entry]
    by_cases hpage : w / 4096 = v / 4096
    · rw [if_pos hpage, if_pos ⟨hpage, (present_of_page hpage).trans hpresent⟩, entry_of_page hpage]
    · rw [if_neg hpage, if_neg fun h : _ ∧ _ => hpage h.1]
  · rw [if_neg hpresent, if_neg]
    rintro ⟨hpage, h⟩
    exact hpresent ((present_of_page hpage).symm.trans h)

/-- The tables of the pages after it stay in the directory. -/
theorem clearAt_pde (hv : v + pageSize < wordSize) (hw : w < wordSize) (hvw : v / 4096 < w / 4096) :
    (clearAt m v).pde (dirIdx w) = m.pde (dirIdx w) := by
  have hdir := dirIdx_lt hw
  have hpage : tablePage (dirIdx w) < wordSize := by
    unfold tablePage windowStart pageSize wordSize
    omega
  rw [← entry_tablePage hdir, ← entry_tablePage hdir, clearAt_entry, if_neg]
  rintro ⟨heq, -⟩
  rcases tablePage_ne hv hvw.le with h | h <;> omega

/-- The pages after it stay. -/
theorem clearAt_present (hv : v + pageSize < wordSize) (hw : w < wordSize)
    (hvw : v / 4096 < w / 4096) :
    (clearAt m v).present w = m.present w := by
  rw [Mm.present, Mm.present, clearAt_pde hv hw hvw, clearAt_entry, if_neg]
  rintro ⟨heq, -⟩
  omega

end Pages

/-! ## The loop over the pages -/

/-- One page after the other goes. -/
def clearRange : ℕ → Mm → ℕ → Mm
  | 0, m, _ => m
  | pages + 1, m, v => clearRange pages (clearAt m v) (v + pageSize)

/-- The pages of a range that are there. -/
def presentPages (m : Mm) (v pages : ℕ) : List ℕ := (List.range' v pages pageSize).filter m.present

/-- Their frames. -/
def rangeFrames (m : Mm) (v pages : ℕ) : List ℕ := (presentPages m v pages).map (addrVir2Phy m)

section Loop

variable {m : Mm} {v w pages : ℕ}

/-- **The loop over the pages**, one entry at a time. -/
theorem clearRange_entry :
    ∀ {pages : ℕ} {m : Mm} {v : ℕ}, v + pages * pageSize + pageSize ≤ wordSize → w < wordSize →
      (clearRange pages m v).entry w =
        if v / 4096 ≤ w / 4096 ∧ w / 4096 < v / 4096 + pages ∧
          m.present w = true then clearPresent (m.entry w)
        else m.entry w := by
  intro pages
  induction pages with
  | zero =>
      intro m v _ _
      rw [clearRange, if_neg]
      omega
  | succ pages ih =>
      intro m v hfit hw
      unfold pageSize wordSize at hfit
      have hv : v + pageSize < wordSize := by
        unfold pageSize wordSize
        omega
      have hstep : (v + pageSize) / 4096 = v / 4096 + 1 := by
        unfold pageSize
        omega
      rw [clearRange, ih (by unfold pageSize wordSize; omega) hw, hstep]
      rcases lt_trichotomy (w / 4096) (v / 4096) with hlt | heq | hgt
      · rw [if_neg (by omega), if_neg (by omega), clearAt_entry, if_neg (by omega)]
      · rw [if_neg (by omega), clearAt_entry]
        by_cases hpresent : m.present w = true
        · rw [if_pos ⟨heq, hpresent⟩, if_pos ⟨heq.ge, by omega, hpresent⟩]
        · rw [if_neg fun h : _ ∧ _ => hpresent h.2, if_neg fun h : _ ∧ _ ∧ _ => hpresent h.2.2]
      · rw [clearAt_present hv hw hgt, clearAt_entry, if_neg fun h : _ ∧ _ => hgt.ne' h.1]
        by_cases hin : w / 4096 < v / 4096 + (pages + 1) ∧ m.present w = true
        · rw [if_pos ⟨by omega, by omega, hin.2⟩, if_pos ⟨hgt.le, hin⟩]
        · rw [if_neg fun h : _ ∧ _ ∧ _ => hin ⟨by omega, h.2.2⟩, if_neg fun h : _ ∧ _ ∧
            _ => hin h.2]

theorem mem_range'_page {u : ℕ} (hu : u ∈ List.range' v pages pageSize) :
    v / 4096 ≤ u / 4096 ∧ u ≤ v + pages * pageSize := by
  obtain ⟨k, hk, rfl⟩ := List.mem_range'.1 hu
  unfold pageSize
  omega

/-- The frames after a page that goes stay. -/
theorem rangeFrames_clearAt (hfit : v + (pages + 1) * pageSize + pageSize ≤ wordSize) :
    rangeFrames (clearAt m v) (v + pageSize) pages = rangeFrames m (v + pageSize) pages := by
  unfold pageSize wordSize at hfit
  have hlater : ∀ u ∈ List.range' (v + pageSize) pages pageSize, u < wordSize ∧
      v / 4096 < u / 4096 := by
    intro u hu
    have := mem_range'_page hu
    unfold pageSize at this
    unfold wordSize
    omega
  have hv : v + pageSize < wordSize := by
    unfold pageSize wordSize
    omega
  unfold rangeFrames presentPages
  rw [List.filter_congr fun u hu => clearAt_present hv (hlater u hu).1 (hlater u hu).2]
  refine List.map_congr_left fun u hu => ?_
  obtain ⟨hlt, hpage⟩ := hlater u (List.mem_of_mem_filter hu)
  rw [addrVir2Phy, addrVir2Phy, clearAt_entry, if_neg fun h : _ ∧ _ => hpage.ne' h.1]

theorem rangeFrames_zero (m : Mm) (v : ℕ) : rangeFrames m v 0 = [] := rfl

theorem rangeFrames_succ (m : Mm) (v pages : ℕ) :
    rangeFrames m v (pages + 1) =
      (if m.present v then [addrVir2Phy m v] else []) ++ rangeFrames m (v + pageSize) pages := by
  rw [rangeFrames, presentPages, List.range'_succ, List.filter_cons]
  cases m.present v <;> rfl

theorem pageFrees_of_pde {fixed : Bool} (hpde : hasFlag (m.pde (dirIdx v)) pageAttrPresent = true) :
    pageFrees m v fixed = if fixed then [] else if m.present v then [addrVir2Phy m v] else [] := by
  rw [pageFrees, Mm.present, hpde, Bool.true_and]
  cases fixed with
  | false => rfl
  | true => exact ite_self _

theorem present_of_missing (hpde : hasFlag (m.pde (dirIdx v)) pageAttrPresent ≠ true) :
    m.present v = false := by
  rw [Mm.present, Bool.eq_false_of_not_eq_true hpde, Bool.false_and]

/-- **The loops of `page_unmap_addr_safe`**: the pages that are there go, and the table of the
last one is looked at. -/
theorem unmapTraced_eq (fixed : Bool) :
    ∀ (pages : ℕ) (m : Mm) (v : ℕ), v + (pages + 1) * pageSize + pageSize ≤ wordSize →
      unmapTraced fixed (pages + 1) m v =
        .after (if fixed then [] else rangeFrames m v (pages + 1))
          (if hasFlag (m.pde (dirIdx (v + pages * pageSize))) pageAttrPresent then
            releaseTable (clearRange (pages + 1) m v) (v + pages * pageSize)
          else ⟨clearRange (pages + 1) m v, [], []⟩) := by
  intro pages
  induction pages with
  | zero =>
      intro m v _
      rw [unmapTraced, Nat.zero_mul, Nat.add_zero v, if_pos rfl, clearRange, clearRange,
        rangeFrames_succ]
      by_cases hpde : hasFlag (m.pde (dirIdx v)) pageAttrPresent = true
      · rw [if_pos hpde, if_pos hpde, pageFrees_of_pde hpde, clearAt_of_pde hpde, rangeFrames_zero,
          List.append_nil]
      · rw [if_neg hpde, if_neg hpde, clearAt_of_missing hpde, present_of_missing hpde]
        cases fixed <;> rfl
  | succ pages ih =>
      intro m v hfit
      unfold pageSize wordSize at hfit
      have hv : v + pageSize < wordSize := by
        unfold pageSize wordSize
        omega
      have hlast : v + pageSize + pages * pageSize = v + (pages + 1) * pageSize := by
        unfold pageSize
        omega
      have hlater : v + (pages + 1) * pageSize < wordSize ∧
          v / 4096 < (v + (pages + 1) * pageSize) / 4096 := by
        unfold pageSize wordSize
        omega
      have hfit' : v + pageSize + (pages + 1) * pageSize + pageSize ≤ wordSize := by
        unfold pageSize wordSize
        omega
      have hmore := ih (clearAt m v) (v + pageSize) hfit'
      rw [hlast, clearAt_pde hv hlater.1 hlater.2, rangeFrames_clearAt
        (by unfold pageSize wordSize; omega)] at hmore
      have hadd : add32 v pageSize = v + pageSize := add32_of_lt hv
      rw [unmapTraced, hadd, rangeFrames_succ, clearRange, if_neg (Nat.succ_ne_zero pages)]
      by_cases hpde : hasFlag (m.pde (dirIdx v)) pageAttrPresent = true
      · rw [if_pos hpde, ← clearAt_of_pde hpde, hmore, pageFrees_of_pde hpde, after_after]
        cases fixed <;> rfl
      · rw [clearAt_of_missing hpde] at hmore
        rw [if_neg hpde, hmore, present_of_missing hpde, clearAt_of_missing hpde]
        rfl

end Loop

/-! ## The range and the tables -/

/-- The address is in the range. -/
def InRange (start len w : ℕ) : Prop := start ≤ w ∧ w < start + len

/-- The address of an entry of a table. -/
def tableAddr (i j : ℕ) : ℕ := i * 4194304 + j * 4096

/-- Nothing is present in the table. -/
def TableEmpty (m : Mm) (i : ℕ) : Prop :=
  ∀ j < 1024, hasFlag (m.entry (tableAddr i j)) pageAttrPresent = false

/-- All that is present in the table is in the range. -/
def Covered (m : Mm) (start len i : ℕ) : Prop :=
  ∀ j < 1024, hasFlag (m.entry (tableAddr i j)) pageAttrPresent = true →
    InRange start len (tableAddr i j)

/-- The table of the last page. -/
def lastTable (start len : ℕ) : ℕ := dirIdx (start + len - pageSize)

/-- The table of the last page is there, and is left with nothing in it. -/
def TableGoes (m : Mm) (start len : ℕ) : Prop :=
  0 < len ∧ hasFlag (m.pde (lastTable start len)) pageAttrPresent = true ∧
    Covered m start len (lastTable start len)

instance (start len w : ℕ) : Decidable (InRange start len w) := inferInstanceAs (Decidable (_ ∧ _))

instance (m : Mm) (start len i : ℕ) : Decidable (Covered m start len i) :=
  Nat.decidableBallLT 1024 fun j _ =>
    hasFlag (m.entry (tableAddr i j)) pageAttrPresent = true → InRange start len (tableAddr i j)

instance (m : Mm) (start len : ℕ) : Decidable (TableGoes m start len) :=
  inferInstanceAs (Decidable (_ ∧ _))

section Range

variable {m : Mm} {start len v w i j : ℕ} {fixed : Bool}

theorem tableAddr_lt (hi : i < 1024) (hj : j < 1024) : tableAddr i j < wordSize := by
  unfold tableAddr wordSize
  omega

theorem dirIdx_tableAddr (hj : j < 1024) : dirIdx (tableAddr i j) = i := by
  unfold dirIdx tableAddr
  omega

/-- The directory is mapped as the last of its tables. -/
theorem tableAddr_last (j : ℕ) : tableAddr 1023 j = tablePage j := by
  unfold tableAddr tablePage windowStart pageSize
  omega

theorem isPageTableEmpty_iff : isPageTableEmpty m v = true ↔ TableEmpty m (dirIdx v) := by
  rw [isPageTableEmpty, List.all_eq_true]
  refine forall_congr' fun j => ?_
  rw [List.mem_range, Bool.not_eq_true']
  rfl

/-- A range in whole pages. -/
theorem inRange_page (hstart : PageAligned start) (hlen : PageAligned len) :
    InRange start len w ↔ start / 4096 ≤ w / 4096 ∧ w / 4096 < start / 4096 + len / pageSize := by
  unfold PageAligned at hstart hlen
  unfold InRange pageSize
  omega

/-- The directory's own page is past every range. -/
theorem not_inRange_own (hstart : PageAligned start) (hlen : PageAligned len)
    (hfit : start + len < wordSize) :
    ¬ InRange start len (tablePage 1023) := by
  unfold PageAligned at hstart hlen
  unfold wordSize at hfit
  unfold InRange tablePage windowStart pageSize
  omega

/-- The directory never becomes empty. -/
theorem not_covered_own (hstart : PageAligned start) (hlen : PageAligned len)
    (hfit : start + len < wordSize)
    (hpde : hasFlag (m.pde 1023) pageAttrPresent = true) : ¬ Covered m start len 1023 := by
  intro h
  have hown := h 1023 (by norm_num)
  rw [tableAddr_last, entry_tablePage (by norm_num)] at hown
  exact not_inRange_own hstart hlen hfit (hown hpde)

theorem TableGoes.ne (h : TableGoes m start len) (hstart : PageAligned start)
    (hlen : PageAligned len) (hfit : start + len < wordSize) : lastTable start len ≠ 1023 := by
  obtain ⟨-, hpde, hcovered⟩ := h
  intro heq
  rw [heq] at hpde hcovered
  exact not_covered_own hstart hlen hfit hpde hcovered

/-- The range does not reach the page of the table of its last page. -/
theorem not_inRange_lastTable (hstart : PageAligned start) (hlen : PageAligned len)
    (hfit : start + len < wordSize) :
    ¬ InRange start len (tablePage (lastTable start len)) := by
  unfold PageAligned at hstart hlen
  unfold wordSize at hfit
  unfold InRange tablePage lastTable dirIdx windowStart pageSize
  omega

end Range

/-! ## What the call leaves -/

/-- The entries after the call, the frames of pages that are passed to `page_free`, and the table.
-/
structure Left (m : Mm) (start len : ℕ) (fixed : Bool) (t : Unmapping) : Prop where
  entry : ∀ w < wordSize, Ordinary w → t.mm.entry w =
    if InRange start len w ∧ m.present w = true then clearPresent (m.entry w) else m.entry w
  pde : ∀ i < 1024, t.mm.pde i =
    if TableGoes m start len ∧ i = lastTable start len ∨
      InRange start len (tablePage i) ∧ m.present (tablePage i) = true
    then clearPresent (m.pde i) else m.pde i
  pages : t.pages = if fixed then [] else rangeFrames m start (len / pageSize)
  tables : t.tables = if TableGoes m start len then
    [(lastTable start len, pageMask (m.pde (lastTable start len)))] else []

section Call

variable {m : Mm} {start len : ℕ} {fixed : Bool}

theorem clearRange_inRange (hstart : PageAligned start) (hlen : PageAligned len)
    (hfit : start + len < wordSize) {w : ℕ} (hw : w < wordSize) :
    (clearRange (len / pageSize) m start).entry w =
      if InRange start len w ∧ m.present w = true then clearPresent (m.entry w) else m.entry w := by
  have hend : start + len / pageSize * pageSize + pageSize ≤ wordSize := by
    unfold PageAligned at hstart hlen
    unfold wordSize at hfit
    unfold pageSize wordSize
    omega
  rw [clearRange_entry hend hw]
  simp only [inRange_page hstart hlen, and_assoc]

/-- The table of the last page is empty after the loop if all of it is in the range. -/
theorem tableEmpty_clearRange (hstart : PageAligned start) (hlen : PageAligned len)
    (hfit : start + len < wordSize)
    {i : ℕ} (hi : i < 1024) (hpde : hasFlag (m.pde i) pageAttrPresent = true) :
    TableEmpty (clearRange (len / pageSize) m start) i ↔ Covered m start len i := by
  refine forall_congr' fun j => forall_congr' fun hj => ?_
  rw [clearRange_inRange hstart hlen hfit (tableAddr_lt hi hj), Mm.present, dirIdx_tableAddr hj,
    hpde, Bool.true_and]
  by_cases hpte : hasFlag (m.entry (tableAddr i j)) pageAttrPresent = true
  · by_cases hin : InRange start len (tableAddr i j)
    · rw [if_pos ⟨hin, hpte⟩, hasFlag_clearPresent]
      exact iff_of_true rfl fun _ => hin
    · rw [if_neg fun h : _ ∧ _ => hin h.1, hpte]
      exact iff_of_false Bool.noConfusion fun h => hin (h rfl)
  · rw [if_neg fun h : _ ∧ _ => hpte h.2, Bool.eq_false_of_not_eq_true hpte]
    exact iff_of_true rfl fun h => Bool.noConfusion h

theorem clearRange_directory (hstart : PageAligned start) (hlen : PageAligned len)
    (hfit : start + len < wordSize) {i : ℕ} (hi : i < 1024) :
    (clearRange (len / pageSize) m start).pde i =
      if InRange start len (tablePage i) ∧ m.present (tablePage i) = true then
        clearPresent (m.pde i) else m.pde i := by
  rw [← entry_tablePage hi, clearRange_inRange hstart hlen hfit
    (tableAddr_last i ▸ tableAddr_lt (by norm_num) hi), entry_tablePage hi]

/-- No table is given back. -/
theorem left_of_stays (hstart : PageAligned start) (hlen : PageAligned len)
    (hfit : start + len < wordSize) (hstays : ¬ TableGoes m start len) :
    Left m start len fixed (.after (if fixed then [] else rangeFrames m start (len / pageSize))
      ⟨clearRange (len / pageSize) m start, [], []⟩) where
  entry w hw _ := clearRange_inRange hstart hlen hfit hw
  pde i hi := by
    simp only [hstays, false_and, false_or]
    exact clearRange_directory hstart hlen hfit hi
  pages := List.append_nil _
  tables := (if_neg hstays).symm

/-- The table of the last page is given back. -/
theorem left_of_goes (hstart : PageAligned start) (hlen : PageAligned len)
    (hfit : start + len < wordSize)
    {C : Mm} (hC : C = clearRange (len / pageSize) m start) (hgoes : TableGoes m start len) :
    Left m start len fixed (.after (if fixed then [] else rangeFrames m start (len / pageSize))
      ⟨dropTable C (lastTable start len), [],
        [(lastTable start len, pageMask (C.pde (lastTable start len)))]⟩) := by
  have hdir : lastTable start len < 1024 := dirIdx_lt (lt_of_le_of_lt (Nat.sub_le ..) hfit)
  have hout := not_inRange_lastTable hstart hlen hfit
  have hlast : C.pde (lastTable start len) = m.pde (lastTable start len) := by
    rw [hC, clearRange_directory hstart hlen hfit hdir, if_neg fun h : _ ∧ _ => hout h.1]
  refine ⟨fun w hw hord => ?_, fun i hi => ?_, List.append_nil _, ?_⟩
  · rw [entry_of_ordinary hord, ← clearRange_inRange hstart hlen hfit hw, ← hC,
      entry_of_ordinary hord]
    rfl
  · simp only [after_mm, dropTable, hlast, Function.update_apply, hgoes, true_and]
    by_cases hi' : i = lastTable start len
    · rw [if_pos hi', if_pos (Or.inl hi'), hi']
    · rw [if_neg hi', hC, clearRange_directory hstart hlen hfit hi]
      simp only [hi', false_or]
  · rw [after_tables, if_pos hgoes, hlast]

/-- **What `page_unmap_addr_safe` leaves**: of the tables it looks at that of the last page alone.
-/
theorem pageUnmapTraced_left (hstart : PageAligned start) (hlen : PageAligned len)
    (hfit : start + len < wordSize) :
    Left m start len fixed (pageUnmapTraced m start len fixed) := by
  have hlt : len < 4294967296 := by
    unfold wordSize at hfit
    omega
  rw [pageUnmapTraced, pageMask_eq_self hstart, pageAlign_eq_self hlen hlt]
  rcases Nat.eq_zero_or_pos len with rfl | hpos
  · have hstays : ¬ TableGoes m start 0 := fun h => absurd h.1 (lt_irrefl 0)
    have hleft : Left m start 0 fixed _ := left_of_stays hstart hlen hfit hstays
    cases fixed <;> exact hleft
  · obtain ⟨n, hn⟩ : ∃ n, len / pageSize = n + 1 := by
      unfold PageAligned at hlen
      exact ⟨len / pageSize - 1, by unfold pageSize; omega⟩
    have hlast : start + n * pageSize = start + len - pageSize := by
      unfold PageAligned at hlen
      unfold pageSize at hn ⊢
      omega
    have hend : start + (n + 1) * pageSize + pageSize ≤ wordSize := by
      unfold PageAligned at hstart hlen
      unfold wordSize at hfit
      unfold pageSize at hn
      unfold pageSize wordSize
      omega
    rw [hn, unmapTraced_eq fixed n m start hend, ← hn, hlast]
    have hdir : lastTable start len < 1024 := dirIdx_lt (lt_of_le_of_lt (Nat.sub_le ..) hfit)
    change Left m start len fixed
      (.after _ (if hasFlag (m.pde (lastTable start len)) pageAttrPresent then _ else _))
    by_cases hpde : hasFlag (m.pde (lastTable start len)) pageAttrPresent = true
    · rw [if_pos hpde]
      have hempty := isPageTableEmpty_iff.trans (tableEmpty_clearRange hstart hlen hfit hdir hpde)
      by_cases hcovered : Covered m start len (lastTable start len)
      · rw [releaseTable_of_empty (hempty.2 hcovered)]
        exact left_of_goes hstart hlen hfit rfl ⟨hpos, hpde, hcovered⟩
      · rw [releaseTable_of_not_empty fun h => hcovered (hempty.1 h)]
        exact left_of_stays hstart hlen hfit fun h => hcovered h.2.2
    · rw [if_neg hpde]
      exact left_of_stays hstart hlen hfit fun h => hpde h.2.1

end Call

namespace Left

variable {m : Mm} {start len : ℕ} {fixed : Bool} {t : Unmapping}

/-- Nothing becomes present in the directory. -/
theorem pde_present (h : Left m start len fixed t) {i : ℕ} (hi : i < 1024)
    (hpde : hasFlag (t.mm.pde i) pageAttrPresent = true) :
    hasFlag (m.pde i) pageAttrPresent = true := by
  rw [h.pde i hi] at hpde
  split_ifs at hpde
  · rw [hasFlag_clearPresent] at hpde
    cases hpde
  · exact hpde

/-- Of the window there are the directory's entries. -/
theorem entry_window (m : Mm) {w : ℕ} (hdir : dirIdx w = 1023) :
    m.entry w = m.pde (tableIdx w) ∧ tableIdx w < 1024 ∧
      w / 4096 = tablePage (tableIdx w) / 4096 := by
  refine ⟨if_pos hdir, Nat.mod_lt _ (by norm_num), ?_⟩
  unfold dirIdx at hdir
  unfold tablePage tableIdx windowStart pageSize
  omega

/-- No page of the range is left. -/
theorem gone (h : Left m start len fixed t) (hstart : PageAligned start) (hlen : PageAligned len)
    {w : ℕ} (hw : w < wordSize) (hin : InRange start len w) : t.mm.present w = false := by
  refine Bool.eq_false_of_not_eq_true fun hpresent => ?_
  rw [Mm.present, Bool.and_eq_true] at hpresent
  obtain ⟨hpde, hpte⟩ := hpresent
  have hpde' := h.pde_present (dirIdx_lt hw) hpde
  by_cases hdir : dirIdx w = 1023
  · obtain ⟨-, hidx, hpage⟩ := entry_window m hdir
    rw [(entry_window t.mm hdir).1] at hpte
    have hthere : m.present (tablePage (tableIdx w)) = true := by
      rw [← present_of_page hpage, Mm.present, hpde', (entry_window m hdir).1,
        h.pde_present hidx hpte, Bool.and_self]
    have hin' : InRange start len (tablePage (tableIdx w)) := by
      rw [inRange_page hstart hlen, ← hpage]
      exact (inRange_page hstart hlen).1 hin
    rw [h.pde _ hidx, if_pos (Or.inr ⟨hin', hthere⟩), hasFlag_clearPresent] at hpte
    cases hpte
  · rw [h.entry w hw hdir] at hpte
    split_ifs at hpte with hcond
    · rw [hasFlag_clearPresent] at hpte
      cases hpte
    · exact hcond ⟨hin, by rw [Mm.present, hpde', hpte, Bool.and_self]⟩

/-- A table is left with nothing in it if all that was there is in the range. -/
theorem tableEmpty_iff (h : Left m start len fixed t) (hstart : PageAligned start)
    (hlen : PageAligned len) (hfit : start + len < wordSize) {i : ℕ} (hi : i < 1024)
    (hpde : hasFlag (m.pde i) pageAttrPresent = true) :
    TableEmpty t.mm i ↔ Covered m start len i := by
  by_cases hown : i = 1023
  · subst hown
    refine iff_of_false (fun hempty => ?_) (not_covered_own hstart hlen hfit hpde)
    have hlast := hempty 1023 (by norm_num)
    rw [tableAddr_last, entry_tablePage (by norm_num), h.pde 1023 hi, if_neg, hpde] at hlast
    · cases hlast
    · rintro (⟨hgoes, heq⟩ | ⟨hin, -⟩)
      · exact hgoes.ne hstart hlen hfit heq.symm
      · exact not_inRange_own hstart hlen hfit hin
  · rw [← tableEmpty_clearRange hstart hlen hfit hi hpde]
    refine forall_congr' fun j => forall_congr' fun hj => ?_
    have hord : Ordinary (tableAddr i j) := by
      rw [Ordinary, dirIdx_tableAddr hj]
      exact hown
    rw [h.entry _ (tableAddr_lt hi hj) hord, clearRange_inRange hstart hlen hfit
      (tableAddr_lt hi hj)]

end Left

/-! ## What is promised -/

/-- What is promised of `page_unmap_addr_safe`. -/
structure Unmaps (m : Mm) (start len : ℕ) (fixed : Bool) (t : Unmapping) : Prop where
  /-- The frames are passed to `page_free` one after the other; nothing else happens to the pool. -/
  run : pageUnmapAddrSafe m start len fixed = (freeAll t.frees m.ranges).map fun r => onPool t.mm r
  /-- No page of the range is left. -/
  gone : ∀ w < wordSize, InRange start len w → t.mm.present w = false
  /-- The entries of the other pages are as before, -/
  others : ∀ w < wordSize, Ordinary w → ¬ InRange start len w → t.mm.entry w = m.entry w
  /-- and in the directory those of the tables that stay. -/
  directory : ∀ i < 1024, i ∉ t.tables.map Prod.fst → ¬ InRange start len (tablePage i) →
    t.mm.pde i = m.pde i
  /-- A table that is given back has nothing in it. -/
  released : ∀ i ∈ t.tables.map Prod.fst, TableEmpty t.mm i
  /-- The frames of the range are freed once, -/
  freed : fixed = false → ∀ frame ∈ rangeFrames m start (len / pageSize), t.frees.count frame = 1
  /-- and those of a fixed range are not. -/
  kept : fixed = true → ∀ frame ∈ rangeFrames m start (len / pageSize), frame ∉ t.frees
  /-- A table with something in it, left with nothing in it, is freed. -/
  tables : ∀ i < 1024, hasFlag (m.pde i) pageAttrPresent = true → ¬ TableEmpty m i →
    TableEmpty t.mm i →
    pageMask (m.pde i) ∈ t.frees ∧ hasFlag (t.mm.pde i) pageAttrPresent = false

/-- The range shares no frames, and does not use up a table before that of its last page. -/
structure WithinTable (m : Mm) (start len : ℕ) (fixed : Bool) : Prop where
  once : fixed = false → (rangeFrames m start (len / pageSize)).Nodup
  apart : TableGoes m start len → pageMask (m.pde (lastTable start len)) ∉ rangeFrames m start
    (len / pageSize)
  tables : ∀ i < 1024, hasFlag (m.pde i) pageAttrPresent = true → ¬ TableEmpty m i →
    Covered m start len i →
    i = lastTable start len ∨
      fixed = false ∧ InRange start len (tablePage i) ∧ m.present (tablePage i) = true

/-- Each of `xs` once in `xs` and what follows. -/
theorem count_append_eq_one_iff {xs ys : List ℕ} :
    (∀ x ∈ xs, (xs ++ ys).count x = 1) ↔ xs.Nodup ∧ ∀ x ∈ xs, x ∉ ys := by
  rw [List.nodup_iff_count_eq_one, ← forall₂_and]
  refine forall₂_congr fun x hx => ?_
  have hpos := List.count_pos_iff.2 hx
  rw [List.count_append, ← List.count_eq_zero]
  omega

section Settled

variable {m : Mm} {start len : ℕ} {fixed : Bool} {t : Unmapping}

/-- What is passed to `page_free` for tables. -/
theorem Left.mem_tables (h : Left m start len fixed t) {frame : ℕ} :
    frame ∈ t.tables.map Prod.snd ↔ TableGoes m start len ∧
      frame = pageMask (m.pde (lastTable start len)) := by
  rw [h.tables]
  by_cases hgoes : TableGoes m start len
  · rw [if_pos hgoes, List.map_singleton, List.mem_singleton]
    exact (and_iff_right hgoes).symm
  · rw [if_neg hgoes]
    exact iff_of_false List.not_mem_nil fun h => hgoes h.1

theorem Left.mem_released (h : Left m start len fixed t) {i : ℕ} :
    i ∈ t.tables.map Prod.fst ↔ TableGoes m start len ∧ i = lastTable start len := by
  rw [h.tables]
  by_cases hgoes : TableGoes m start len
  · rw [if_pos hgoes, List.map_singleton, List.mem_singleton]
    exact (and_iff_right hgoes).symm
  · rw [if_neg hgoes]
    exact iff_of_false List.not_mem_nil fun h => hgoes h.1

/-- Freed once, and those of a fixed range not at all. -/
theorem Left.frees_iff (h : Left m start len fixed t) :
    ((fixed = false → ∀ frame ∈ rangeFrames m start (len / pageSize), t.frees.count frame = 1) ∧
      (fixed = true → ∀ frame ∈ rangeFrames m start (len / pageSize), frame ∉ t.frees)) ↔
      (fixed = false → (rangeFrames m start (len / pageSize)).Nodup) ∧
        (TableGoes m start len → pageMask (m.pde (lastTable start len)) ∉ rangeFrames m start
          (len / pageSize)) := by
  have hapart : (∀ frame ∈ rangeFrames m start (len / pageSize), frame ∉ t.tables.map Prod.snd) ↔
      (TableGoes m start len → pageMask (m.pde (lastTable start len)) ∉ rangeFrames m start
        (len / pageSize)) := by
    simp only [h.mem_tables]
    exact ⟨fun hall hgoes hmem => hall _ hmem ⟨hgoes, rfl⟩,
      fun hall frame hmem hgoes => hall hgoes.1 (hgoes.2 ▸ hmem)⟩
  rw [← hapart]
  have hpages := h.pages
  cases fixed with
  | false =>
      rw [if_neg Bool.false_ne_true] at hpages
      simp only [Unmapping.frees, hpages, count_append_eq_one_iff, forall_const,
        Bool.false_eq_true, false_imp_iff, and_true]
  | true =>
      rw [if_pos rfl] at hpages
      simp only [Unmapping.frees, hpages, List.nil_append, forall_const, Bool.true_eq_false,
        false_imp_iff, true_and]

/-- A page that is there and in the range is among those passed to `page_free`. -/
theorem mem_rangeFrames (hstart : PageAligned start) (hlen : PageAligned len) {w : ℕ}
    (hw : PageAligned w) (hin : InRange start len w) (hpresent : m.present w = true) :
    pageMask (m.entry w) ∈ rangeFrames m start (len / pageSize) := by
  refine List.mem_map.2 ⟨w, List.mem_filter.2
    ⟨List.mem_range'.2 ⟨(w - start) / pageSize, ?_, ?_⟩, hpresent⟩, ?_⟩
  · unfold PageAligned at hstart hlen hw
    unfold InRange at hin
    unfold pageSize
    omega
  · unfold PageAligned at hstart hw
    unfold InRange at hin
    unfold pageSize
    omega
  · rw [addrVir2Phy, hw, Nat.add_zero]

/-- **The tables**: those the range uses up are freed if and only if it ends in them, or
takes their pages out of the window. -/
theorem Left.tables_iff (h : Left m start len fixed t) (hstart : PageAligned start)
    (hlen : PageAligned len) (hfit : start + len < wordSize) {i : ℕ} (hi : i < 1024)
    (hpde : hasFlag (m.pde i) pageAttrPresent = true)
    (hused : ¬ TableEmpty m i) (hcovered : Covered m start len i) :
    (pageMask (m.pde i) ∈ t.frees ∧ hasFlag (t.mm.pde i) pageAttrPresent = false) ↔
      i = lastTable start len ∨
        fixed = false ∧ InRange start len (tablePage i) ∧ m.present (tablePage i) = true := by
  have hpos : 0 < len := by
    by_contra hzero
    refine hused fun j hj => Bool.eq_false_of_not_eq_true fun hpte => ?_
    have := hcovered j hj hpte
    unfold InRange at this
    omega
  constructor
  · rintro ⟨hfree, hcleared⟩
    rw [h.pde i hi] at hcleared
    split_ifs at hcleared with hcond
    · rcases hcond with ⟨-, hlast⟩ | ⟨hin, hpresent⟩
      · exact Or.inl hlast
      · refine Or.inr ⟨Bool.eq_false_of_not_eq_true fun hfixed => ?_, hin, hpresent⟩
        rw [Unmapping.frees, h.pages, if_pos hfixed, List.nil_append, h.mem_tables] at hfree
        have hne := hfree.1.ne hstart hlen hfit
        -- past a page of the window there are pages of the window only
        unfold lastTable dirIdx pageSize at hne
        unfold InRange tablePage windowStart pageSize at hin
        unfold wordSize at hfit
        unfold PageAligned at hstart hlen
        omega
    · rw [hpde] at hcleared
      cases hcleared
  · rintro (rfl | ⟨rfl, hin, hpresent⟩)
    · have hgoes : TableGoes m start len := ⟨hpos, hpde, hcovered⟩
      refine ⟨List.mem_append_right _ (h.mem_tables.2 ⟨hgoes, rfl⟩), ?_⟩
      rw [h.pde _ hi, if_pos (Or.inl ⟨hgoes, rfl⟩), hasFlag_clearPresent]
    · refine ⟨List.mem_append_left _ ?_, ?_⟩
      · have hpage : PageAligned (tablePage i) := by
          unfold PageAligned tablePage windowStart pageSize
          omega
        have hmem := mem_rangeFrames hstart hlen hpage hin hpresent
        rw [entry_tablePage hi] at hmem
        rw [h.pages, if_neg Bool.false_ne_true]
        exact hmem
      · rw [h.pde _ hi, if_pos (Or.inr ⟨hin, hpresent⟩), hasFlag_clearPresent]

end Settled

/-- **Unmapping a range**: the pages go, the others stay, the frames are freed once and the tables
that are used up are freed, if and only if no frame is there twice and the range uses up no
table but that of its last page. -/
theorem unmaps_iff {start len : ℕ} (hstart : PageAligned start) (hlen : PageAligned len)
    (hfit : start + len < wordSize) (m : Mm) (fixed : Bool) :
    Unmaps m start len fixed (pageUnmapTraced m start len fixed) ↔
      WithinTable m start len fixed := by
  have h : Left m start len fixed (pageUnmapTraced m start len fixed) :=
    pageUnmapTraced_left hstart hlen hfit
  constructor
  · intro hok
    obtain ⟨honce, hapart⟩ := h.frees_iff.1 ⟨hok.freed, hok.kept⟩
    refine ⟨honce, hapart, fun i hi hpde hused hcovered => ?_⟩
    have hempty := (h.tableEmpty_iff hstart hlen hfit hi hpde).2 hcovered
    exact (h.tables_iff hstart hlen hfit hi hpde hused hcovered).1
      (hok.tables i hi hpde hused hempty)
  · intro hok
    obtain ⟨hfreed, hkept⟩ := h.frees_iff.2 ⟨hok.once, hok.apart⟩
    exact
      { run := pageUnmapAddrSafe_traced m start len fixed
        gone := fun w hw hin => h.gone hstart hlen hw hin
        others := fun w hw hord hout =>
          by rw [h.entry w hw hord, if_neg fun hc : _ ∧ _ => hout hc.1]
        directory := fun i hi hstays hout => by
          rw [h.mem_released] at hstays
          rw [h.pde i hi, if_neg (not_or.2 ⟨hstays, fun hc => hout hc.1⟩)]
        released := fun i hrel => by
          obtain ⟨hgoes, rfl⟩ := h.mem_released.1 hrel
          exact (h.tableEmpty_iff hstart hlen hfit
            (dirIdx_lt (lt_of_le_of_lt (Nat.sub_le ..) hfit)) hgoes.2.1).2
            hgoes.2.2
        freed := hfreed
        kept := hkept
        tables := fun i hi hpde hused hempty =>
          have hcovered := (h.tableEmpty_iff hstart hlen hfit hi hpde).1 hempty
          (h.tables_iff hstart hlen hfit hi hpde hused hcovered).2
          (hok.tables i hi hpde hused hcovered) }

/-- A directory with one table, its second, and one page in that. -/
def pageInTable (n : ℕ) : Mm where
  ranges := smallLayout.ranges clearBoot
  pde := fun i => if i = 1 then 4103 else if i = 1023 then 8199 else 0
  pte := fun k => if k = n then 12295 else 0

section OnePage

variable {n start len i : ℕ}

theorem pageInTable_table (hi : hasFlag ((pageInTable n).pde i) pageAttrPresent = true) :
    i = 1 ∨ i = 1023 := by
  by_contra hne
  obtain ⟨hne1, hne2⟩ := not_or.1 hne
  simp only [pageInTable, if_neg hne1, if_neg hne2, hasFlag_zero, Bool.false_eq_true] at hi

theorem pageInTable_entry {j : ℕ} (hj : j < 1024) :
    (pageInTable n).entry (tableAddr 1 j) = if 1024 + j = n then 12295 else 0 := by
  have hord : Ordinary (tableAddr 1 j) := by
    rw [Ordinary, dirIdx_tableAddr hj]
    norm_num
  have hpage : tableAddr 1 j / 4096 = 1024 + j := by
    unfold tableAddr
    omega
  rw [entry_of_ordinary hord, hpage, pageInTable]

/-- The table is used up by the ranges with that page. -/
theorem pageInTable_covered (hin : InRange start len (n * 4096)) :
    Covered (pageInTable n) start len 1 := by
  intro j hj hpte
  rw [pageInTable_entry hj] at hpte
  split_ifs at hpte with hn
  · have haddr : tableAddr 1 j = n * 4096 := by
      unfold tableAddr
      omega
    rwa [haddr]
  · cases hpte

theorem pageInTable_used (hn : 1024 ≤ n ∧ n < 2048) : ¬ TableEmpty (pageInTable n) 1 := by
  intro hempty
  have hpte := hempty (n - 1024) (by omega)
  rw [pageInTable_entry (by omega), if_pos (by omega)] at hpte
  cases hpte

end OnePage

/-- The page at `0x400000` goes, and its table with it. -/
theorem unmaps_first :
    Unmaps (pageInTable 1024) 4194304 4096 false
    (pageUnmapTraced (pageInTable 1024) 4194304 4096 false) := by
  refine (unmaps_iff (by decide) (by decide) (by decide) (pageInTable 1024) false).2
    ⟨fun _ => by decide, fun _ => by decide, fun i _ hpde _ hcovered => ?_⟩
  rcases pageInTable_table hpde with rfl | rfl
  · exact Or.inl rfl
  · exact absurd hcovered (not_covered_own (by decide) (by decide) (by decide) hpde)

/-- The last page of the table and the first of the next one: the table has nothing in it any more,
and stays. -/
theorem unmaps_not_across :
    ¬ Unmaps (pageInTable 2047) 8384512 8192 false
    (pageUnmapTraced (pageInTable 2047) 8384512 8192 false) := by
  intro hok
  have hleft : Left (pageInTable 2047) 8384512 8192 false
    (pageUnmapTraced (pageInTable 2047) 8384512 8192 false) :=
    pageUnmapTraced_left (by decide) (by decide) (by decide)
  have hcovered : Covered (pageInTable 2047) 8384512 8192 1 := pageInTable_covered (by decide)
  have hused : ¬ TableEmpty (pageInTable 2047) 1 := pageInTable_used (by decide)
  have hempty := (hleft.tableEmpty_iff (by decide) (by decide) (by decide) (by decide) rfl).2
    hcovered
  have hwhere := (hleft.tables_iff (by decide) (by decide) (by decide)
    (by decide) rfl hused hcovered).1
    (hok.tables 1 (by decide) rfl hused hempty)
  exact absurd hwhere (by decide)

end PageUnmap
end LightOS
