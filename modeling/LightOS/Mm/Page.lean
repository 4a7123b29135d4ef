import LightOS.Mm.PageBasic

/-!
# Page tables: what the mapping functions change

`Mm.lookup` is the page table as the processor sees it, below the window through
which the directory is reached.

* `pageLinkAddr_lookup` — linking a page changes one entry.
* `Grows` — what a mapping routine may do: enter fresh page frames, with given
  attributes, where there was nothing.
* `pageMapAddr_spec`, `pageMapAddrSafe_spec`, `pageMapAddrFixed_spec` — the three
  mapping routines.
-/

namespace LightOS

open MemPool

/-! ## Bits -/

theorem hasFlag_two_pow (word i : ℕ) : hasFlag word (2 ^ i) = word.testBit i := by
  rw [hasFlag, Nat.and_two_pow]
  cases word.testBit i <;> simp

theorem hasFlag_present (word : ℕ) : hasFlag word pageAttrPresent = word.testBit 0 :=
  hasFlag_two_pow word 0

theorem hasFlag_write (word : ℕ) : hasFlag word pageAttrWrite = word.testBit 1 :=
  hasFlag_two_pow word 1

@[simp] theorem hasFlag_clearPresent (e : ℕ) :
    hasFlag (clearPresent e) pageAttrPresent = false := by
  rw [hasFlag_present, clearPresent, Nat.testBit_and]
  simp

@[simp] theorem hasFlag_present_or (word : ℕ) :
    hasFlag (word ||| pageAttrPresent) pageAttrPresent = true := by
  rw [hasFlag_present, Nat.testBit_or]
  simp

@[simp] theorem hasFlag_zero (flag : ℕ) : hasFlag 0 flag = false := by simp [hasFlag]

/-- The write bit of an entry comes from the address or from the attributes. -/
theorem write_entry (pa attr : ℕ) :
    hasFlag (pa ||| attr ||| pageAttrPresent) pageAttrWrite =
      (hasFlag pa pageAttrWrite || hasFlag attr pageAttrWrite) := by
  simp only [hasFlag_write, Nat.testBit_or]
  rw [show pageAttrPresent.testBit 1 = false by decide, Bool.or_false]

/-- The address of a page frame has no attribute bits. -/
theorem hasFlag_write_of_pageAligned {a : ℕ} (h : PageAligned a) :
    hasFlag a pageAttrWrite = false := by
  have hmod : a % 4 = 0 := by
    unfold PageAligned at h
    omega
  rw [hasFlag_write, Nat.testBit_eq_decide_div_mod_eq, decide_eq_false_iff_not]
  omega

theorem hasFlag_pageAttrOf (prot : ℕ) :
    hasFlag (pageAttrOf prot) pageAttrWrite = hasFlag prot protWrite := by
  unfold pageAttrOf
  cases hasFlag prot protUser <;> cases hasFlag prot protWrite <;> decide

/-! ## The tables -/

/-- Outside the window through which the directory is reached. -/
def Ordinary (vaddr : ℕ) : Prop := dirIdx vaddr ≠ 1023

/-- The entry the processor uses for an address, if it is present. -/
def Mm.lookup (m : Mm) (vaddr : ℕ) : Option ℕ :=
  if m.present vaddr then some (m.entry vaddr) else none

section Tables

variable {m m' : Mm} {v va e : ℕ}

theorem lookup_congr (hpde : m'.pde = m.pde) (hpte : m'.pte = m.pte) (v : ℕ) :
    m'.lookup v = m.lookup v := by
  obtain ⟨r, d, t⟩ := m
  obtain ⟨r', d', t'⟩ := m'
  cases hpde
  cases hpte
  rfl

theorem entry_of_ordinary (h : Ordinary v) : m.entry v = m.pte (v / 4096) := if_neg h

theorem dirIdx_eq_of_page (h : v / 4096 = va / 4096) : dirIdx v = dirIdx va := by
  unfold dirIdx
  omega

/-- Addresses of one page have one entry. -/
theorem lookup_of_page (hv : Ordinary v) (hva : Ordinary va) (h : v / 4096 = va / 4096) :
    m.lookup v = m.lookup va := by
  simp only [Mm.lookup, Mm.present, entry_of_ordinary hv, entry_of_ordinary hva, h,
    dirIdx_eq_of_page h]

theorem present_iff : m.present v = true ↔ m.lookup v ≠ none := by
  unfold Mm.lookup
  cases m.present v <;> simp

/-- Writing one entry. -/
theorem setEntry_lookup (hv : Ordinary v) (hva : Ordinary va)
    (hpde : hasFlag (m.pde (dirIdx va)) pageAttrPresent = true) (e : ℕ) :
    (m.setEntry va (e ||| pageAttrPresent)).lookup v =
      if v / 4096 = va / 4096 then some (e ||| pageAttrPresent) else m.lookup v := by
  have hset : m.setEntry va (e ||| pageAttrPresent) =
      { m with pte := Function.update m.pte (va / 4096) (e ||| pageAttrPresent) } := if_neg hva
  simp only [Mm.lookup, Mm.present, entry_of_ordinary hv, hset]
  by_cases hpage : v / 4096 = va / 4096
  · rw [if_pos hpage, hpage, Function.update_self, dirIdx_eq_of_page hpage, hpde]
    simp
  · rw [if_neg hpage, Function.update_of_ne hpage]

/-- A new table has no pages. -/
theorem newTable_lookup (hv : Ordinary v) {i : ℕ}
    (hpde : hasFlag (m.pde i) pageAttrPresent = false) :
    (m.newTable i (e ||| pageAttrPresent)).lookup v = m.lookup v := by
  simp only [Mm.lookup, Mm.present, entry_of_ordinary hv, Mm.newTable]
  have hidx : v / 4096 / 1024 = dirIdx v := by
    unfold dirIdx
    omega
  rw [hidx]
  by_cases hi : dirIdx v = i
  · rw [if_pos hi, hi, hpde]
    simp
  · rw [Function.update_of_ne hi, if_neg hi]

end Tables

/-! ## The pool behind the tables -/

/-- The frames of the pool lie on page boundaries. -/
def Mm.Framed (m : Mm) : Prop := PageAligned (m.ranges .user).start

instance (m : Mm) : Decidable m.Framed := inferInstanceAs (Decidable (PageAligned _))

theorem memRangeSplitSection_start {s : ℕ} :
    ∀ {fuel : ℕ} {r r' : MemRange} {ret : ℤ},
      memRangeSplitSection fuel r s = some (r', ret) → r'.start = r.start := by
  intro fuel
  induction fuel with
  | zero => intro r r' ret h; cases h
  | succ fuel ih =>
      intro r r' ret h
      rw [memRangeSplitSection] at h
      split_ifs at h
      · cases h
        rfl
      · split at h
        · cases h
          rfl
        · rw [ih h, memRangeSplitOnce]
          split <;> rfl

theorem memRangeTakeFirst_spec (r : MemRange) (i count : ℕ) :
    (memRangeTakeFirst r i count).1.start = r.start ∧
      ((memRangeTakeFirst r i count).2 = 0 ∨
        ∃ node, (memRangeTakeFirst r i count).2 = node * pageSize + r.start) := by
  unfold memRangeTakeFirst
  split
  · exact ⟨rfl, Or.inl rfl⟩
  · exact ⟨rfl, Or.inr ⟨_, rfl⟩⟩

theorem memRangeAllocPages_start {r r' : MemRange} {count a : ℕ}
    (h : memRangeAllocPages r count = some (r', a)) :
    r'.start = r.start ∧ (a = 0 ∨ ∃ node, a = node * pageSize + r.start) := by
  unfold memRangeAllocPages at h
  simp only at h
  split_ifs at h
  · cases h
    exact ⟨rfl, Or.inl rfl⟩
  · split at h
    · cases h
    · rename_i t ret hsplit
      have hstart := memRangeSplitSection_start hsplit
      split_ifs at h
      · cases h
        exact ⟨hstart, Or.inl rfl⟩
      · have hspec := memRangeTakeFirst_spec t (memRangeSectionFor r count) count
        rw [Option.some.injEq] at h
        rw [h, hstart] at hspec
        exact hspec
  · have hspec := memRangeTakeFirst_spec r (memRangeSectionFor r count) count
    rw [Option.some.injEq] at h
    rw [h] at hspec
    exact hspec

/-- An allocation leaves the tables alone and returns a frame. -/
theorem pageAllocUser_spec {m m' : Mm} {a : ℕ} (h : pageAllocUser m = some (m', a)) :
    m'.pde = m.pde ∧ m'.pte = m.pte ∧ (m.Framed → m'.Framed ∧ PageAligned a) := by
  obtain ⟨⟨p, b⟩, halloc, heq⟩ := Option.map_eq_some_iff.1 h
  rw [Prod.mk.injEq] at heq
  obtain ⟨rfl, rfl⟩ := heq
  refine ⟨rfl, rfl, fun hm => ?_⟩
  unfold Mm.Framed PageAligned at *
  rw [memNodeAllocPages, if_neg (by decide), if_neg (by decide),
    show memRangeOfFlags memNodeTypeUser = some .user by decide] at halloc
  obtain ⟨⟨r, c⟩, hrange, heq⟩ := Option.map_eq_some_iff.1 halloc
  rw [Prod.mk.injEq] at heq
  obtain ⟨rfl, rfl⟩ := heq
  obtain ⟨hstart, haddr⟩ := memRangeAllocPages_start hrange
  simp only [Function.update_self, hstart]
  refine ⟨hm, ?_⟩
  rcases haddr with rfl | ⟨node, rfl⟩
  · rfl
  · unfold pageSize
    omega

/-- A free leaves the tables alone. -/
theorem pageFree_spec {m m' : Mm} {a : ℕ} (h : pageFree m a = some m') :
    m'.pde = m.pde ∧ m'.pte = m.pte ∧ (m.Framed → m'.Framed) := by
  obtain ⟨⟨p, ret⟩, hfree, rfl⟩ := Option.map_eq_some_iff.1 h
  refine ⟨rfl, rfl, fun hm => ?_⟩
  unfold Mm.Framed at *
  unfold memNodeFreePages at hfree
  split_ifs at hfree
  · cases hfree
    exact hm
  · split at hfree
    · cases hfree
    · rename_i id hid
      cases hfree
      by_cases huser : MemRangeIdx.user = id
      · subst huser
        simp only [Function.update_self]
        unfold memRangeFreePages
        simp only
        split
        · exact hm
        · split_ifs <;> exact hm
      · show PageAligned (Function.update m.ranges id _ MemRangeIdx.user).start
        rw [Function.update_of_ne huser]
        exact hm

/-! ## Linking a page -/

section Link

variable {m m' : Mm} {va pa attr : ℕ}

/-- Setting up a missing table. -/
theorem pageLinkTable_spec (h : pageLinkTable m va attr = some m')
    (hpde : hasFlag (m.pde (dirIdx va)) pageAttrPresent = false) :
    (∀ v, Ordinary v → m'.lookup v = m.lookup v) ∧ Ordinary va ∧
      hasFlag (m'.pde (dirIdx va)) pageAttrPresent = true ∧ (m.Framed → m'.Framed) := by
  unfold pageLinkTable at h
  split at h
  · cases h
  · rename_i t table halloc
    obtain ⟨htpde, htpte, hframed⟩ := pageAllocUser_spec halloc
    split_ifs at h with hfail
    rw [not_or] at hfail
    cases h
    refine ⟨fun v hv => ?_, hfail.2, ?_, fun hm => (hframed hm).1⟩
    · rw [newTable_lookup hv (by rw [htpde]; exact hpde), lookup_congr htpde htpte]
    · simp [Mm.newTable]

/-- **Linking a page changes one entry**, which was not present. -/
theorem pageLinkAddr_lookup (h : pageLinkAddr m va pa attr = some m') (hva : Ordinary va) :
    m.lookup va = none ∧ (m.Framed → m'.Framed) ∧ ∀ v, Ordinary v → m'.lookup v =
      if v / 4096 = va / 4096 then some (pa ||| attr ||| pageAttrPresent) else m.lookup v := by
  unfold pageLinkAddr at h
  by_cases hpde : hasFlag (m.pde (dirIdx va)) pageAttrPresent = true
  · rw [if_pos hpde] at h
    split_ifs at h with hpte
    cases h
    refine ⟨by simp [Mm.lookup, Mm.present, hpte], ?_, fun v hv => setEntry_lookup hv hva hpde _⟩
    rw [Mm.setEntry, if_neg hva]
    exact fun hm => hm
  · rw [if_neg hpde] at h
    obtain ⟨t, htable, rfl⟩ := Option.map_eq_some_iff.1 h
    obtain ⟨hkeep, -, htpde, hframed⟩ := pageLinkTable_spec htable (Bool.eq_false_iff.2 hpde)
    refine ⟨by simp [Mm.lookup, Mm.present, hpde], ?_, fun v hv => ?_⟩
    · rw [Mm.setEntry, if_neg hva]
      exact hframed
    · rw [setEntry_lookup hv hva htpde, hkeep v hv]

/-- Linking over a page that is there already changes one entry. -/
theorem pageLinkAddrUnsafe_lookup (h : pageLinkAddrUnsafe m va pa attr = some m')
    (hva : Ordinary va) :
    (m.Framed → m'.Framed) ∧ ∀ v, Ordinary v → m'.lookup v =
      if v / 4096 = va / 4096 then some (pa ||| attr ||| pageAttrPresent) else m.lookup v := by
  unfold pageLinkAddrUnsafe at h
  by_cases hpde : hasFlag (m.pde (dirIdx va)) pageAttrPresent = true
  · rw [if_pos hpde] at h
    split_ifs at h with hpte
    · obtain ⟨t, hfree, rfl⟩ := Option.map_eq_some_iff.1 h
      obtain ⟨htpde, htpte, hframed⟩ := pageFree_spec hfree
      refine ⟨?_, fun v hv => ?_⟩
      · rw [Mm.setEntry, if_neg hva]
        exact hframed
      · rw [setEntry_lookup hv hva (by rw [htpde]; exact hpde), lookup_congr htpde htpte]
    · cases h
      refine ⟨?_, fun v hv => setEntry_lookup hv hva hpde _⟩
      rw [Mm.setEntry, if_neg hva]
      exact fun hm => hm
  · rw [if_neg hpde] at h
    obtain ⟨t, htable, rfl⟩ := Option.map_eq_some_iff.1 h
    obtain ⟨hkeep, -, htpde, hframed⟩ := pageLinkTable_spec htable (Bool.eq_false_iff.2 hpde)
    refine ⟨?_, fun v hv => ?_⟩
    · rw [Mm.setEntry, if_neg hva]
      exact hframed
    · rw [setEntry_lookup hv hva htpde, hkeep v hv]

end Link

/-! ## Mapping a range -/

/-- Between `m` and `m'` fresh frames with the attributes `attr` were entered, at
pages that satisfy `P` and had no frame. -/
def Grows (attr : ℕ) (P : ℕ → Prop) (m m' : Mm) : Prop :=
  ∀ v, Ordinary v → m'.lookup v = m.lookup v ∨
    m.lookup v = none ∧ P (v / 4096) ∧
      ∃ pa, PageAligned pa ∧ m'.lookup v = some (pa ||| attr ||| pageAttrPresent)

theorem Grows.of_eq {attr : ℕ} {P : ℕ → Prop} {m m' : Mm} (hpde : m'.pde = m.pde)
    (hpte : m'.pte = m.pte) : Grows attr P m m' := fun v _ => Or.inl (lookup_congr hpde hpte v)

theorem Grows.trans {attr : ℕ} {P Q : ℕ → Prop} {m₁ m₂ m₃ : Mm} (h : Grows attr P m₁ m₂)
    (h' : Grows attr Q m₂ m₃) : Grows attr (fun n => P n ∨ Q n) m₁ m₃ := by
  intro v hv
  rcases h v hv with heq | ⟨hnone, hP, pa, hpa, hsome⟩
  · rcases h' v hv with heq' | ⟨hnone', hQ, pa, hpa, hsome⟩
    · exact Or.inl (heq'.trans heq)
    · exact Or.inr ⟨heq ▸ hnone', Or.inr hQ, pa, hpa, hsome⟩
  · rcases h' v hv with heq' | ⟨hnone', -⟩
    · exact Or.inr ⟨hnone, Or.inl hP, pa, hpa, heq'.trans hsome⟩
    · rw [hsome] at hnone'
      cases hnone'

theorem Grows.mono {attr : ℕ} {P Q : ℕ → Prop} {m m' : Mm} (h : Grows attr P m m')
    (hPQ : ∀ n, P n → Q n) : Grows attr Q m m' := by
  intro v hv
  rcases h v hv with heq | ⟨hnone, hP, hsome⟩
  · exact Or.inl heq
  · exact Or.inr ⟨hnone, hPQ _ hP, hsome⟩

theorem grows_link {m m' m'' : Mm} {va pa attr : ℕ} (halloc : pageAllocUser m = some (m', pa))
    (hlink : pageLinkAddr m' va pa attr = some m'') (hva : Ordinary va) (hm : m.Framed) :
    Grows attr (fun n => n = va / 4096) m m'' ∧ m''.Framed := by
  obtain ⟨hpde, hpte, hframed⟩ := pageAllocUser_spec halloc
  obtain ⟨hnone, hframed', hlookup⟩ := pageLinkAddr_lookup hlink hva
  obtain ⟨hm', hpa⟩ := hframed hm
  refine ⟨fun v hv => ?_, hframed' hm'⟩
  rw [hlookup v hv]
  by_cases hpage : v / 4096 = va / 4096
  · rw [if_pos hpage]
    refine Or.inr ⟨?_, hpage, pa, hpa, rfl⟩
    rw [lookup_of_page hv hva hpage, ← lookup_congr hpde hpte]
    exact hnone
  · rw [if_neg hpage]
    exact Or.inl (lookup_congr hpde hpte v)

/-- The first address of the window through which the directory is reached. -/
abbrev windowStart : ℕ := 4290772992

theorem ordinary_of_lt {v : ℕ} (h : v < windowStart) : Ordinary v := by
  unfold Ordinary dirIdx windowStart at *
  omega

section Ranges

variable {attr end_ prot : ℕ}

theorem pageMapSafeLoop_spec :
    ∀ {pages : ℕ} {m m' : Mm} {vaddr : ℕ} {ret : ℤ},
      pageMapSafeLoop attr pages m vaddr = some (m', ret) → PageAligned vaddr →
      vaddr + pages * pageSize ≤ windowStart → m.Framed →
      Grows attr (fun n => vaddr / 4096 ≤ n ∧ n < vaddr / 4096 + pages) m m' ∧ m'.Framed := by
  intro pages
  induction pages with
  | zero =>
      intro m m' vaddr ret h halign hfits hm
      cases h
      exact ⟨Grows.of_eq rfl rfl, hm⟩
  | succ pages ih =>
      intro m m' vaddr ret h halign hfits hm
      have hnext : add32 vaddr pageSize = vaddr + 4096 := by
        unfold windowStart pageSize at *
        exact add32_of_lt (by omega)
      have halign' : PageAligned (vaddr + 4096) := by
        unfold PageAligned at *
        omega
      have hfits' : vaddr + 4096 + pages * pageSize ≤ windowStart := by
        unfold windowStart pageSize at *
        omega
      have hdiv : (vaddr + 4096) / 4096 = vaddr / 4096 + 1 := by omega
      rw [pageMapSafeLoop, hnext] at h
      split_ifs at h with hpresent
      · obtain ⟨hgrows, hm'⟩ := ih h halign' hfits' hm
        exact ⟨hgrows.mono fun n hn => by omega, hm'⟩
      · split at h
        · cases h
        · rename_i t pa halloc
          obtain ⟨hpde, hpte, hframed⟩ := pageAllocUser_spec halloc
          split_ifs at h with hzero
          · cases h
            exact ⟨Grows.of_eq hpde hpte, (hframed hm).1⟩
          · split at h
            · cases h
            · rename_i u hlink
              have hva : Ordinary vaddr := ordinary_of_lt (by unfold pageSize at hfits; omega)
              obtain ⟨hgrows, hu⟩ := grows_link halloc hlink hva hm
              obtain ⟨hgrows', hm'⟩ := ih h halign' hfits' hu
              refine ⟨(hgrows.trans hgrows').mono fun n hn => ?_, hm'⟩
              omega

/-- **`page_map_addr_safe`** enters frames where there are none. -/
theorem pageMapAddrSafe_spec {m m' : Mm} {start len : ℕ} {ret : ℤ}
    (h : pageMapAddrSafe m start len prot = some (m', ret))
    (hfits : pageMask start + pageAlign len ≤ windowStart) (hm : m.Framed) :
    Grows (pageAttrOfSafe prot)
      (fun n => start / 4096 ≤ n ∧ n < start / 4096 + pageAlign len / 4096) m m' ∧ m'.Framed := by
  have hlen := pageAligned_pageAlign len
  have hdiv : pageMask start / 4096 = start / 4096 := by
    unfold pageMask
    omega
  have hspec := pageMapSafeLoop_spec h (pageAligned_pageMask start)
    (by unfold PageAligned pageSize at *; omega) hm
  rwa [hdiv] at hspec

theorem pageMapLoop_spec :
    ∀ {rounds : ℕ} {m m' : Mm} {start : ℕ} {ret : ℤ},
      pageMapLoop attr end_ rounds m start = some (m', ret) → PageAligned start →
      end_ ≤ windowStart → m.Framed →
      Grows attr (fun n => start / 4096 ≤ n ∧ n * 4096 < end_) m m' ∧ m'.Framed := by
  intro rounds
  induction rounds with
  | zero => intro m m' start ret h; cases h
  | succ rounds ih =>
      intro m m' start ret h halign hfits hm
      rw [pageMapLoop] at h
      split_ifs at h with hstart
      · have hnext : add32 start pageSize = start + 4096 := by
          unfold windowStart pageSize at *
          exact add32_of_lt (by omega)
        have halign' : PageAligned (start + 4096) := by
          unfold PageAligned at *
          omega
        rw [hnext] at h
        split at h
        · cases h
        · rename_i t pa halloc
          obtain ⟨hpde, hpte, hframed⟩ := pageAllocUser_spec halloc
          split_ifs at h with hzero
          · cases h
            exact ⟨Grows.of_eq hpde hpte, (hframed hm).1⟩
          · split at h
            · cases h
            · rename_i u hlink
              have hva : Ordinary start := ordinary_of_lt (lt_of_lt_of_le hstart hfits)
              obtain ⟨hgrows, hu⟩ := grows_link halloc hlink hva hm
              obtain ⟨hgrows', hm'⟩ := ih h halign' hfits hu
              refine ⟨(hgrows.trans hgrows').mono fun n hn => ?_, hm'⟩
              unfold PageAligned at halign
              omega
      · cases h
        exact ⟨Grows.of_eq rfl rfl, hm⟩

/-- **`page_map_addr`** enters frames where there are none. -/
theorem pageMapAddr_spec {m m' : Mm} {start len : ℕ} {ret : ℤ}
    (h : pageMapAddr m start len prot = some (m', ret))
    (hfits : pageMask start + len ≤ windowStart) (hm : m.Framed) :
    Grows (pageAttrOf prot) (fun n => start / 4096 ≤ n ∧ n * 4096 < pageMask start + len) m m' ∧
      m'.Framed := by
  have hdiv : pageMask start / 4096 = start / 4096 := by
    unfold pageMask
    omega
  have hend : add32 (pageMask start) len = pageMask start + len :=
    add32_of_lt (lt_of_le_of_lt hfits (by norm_num))
  rw [pageMapAddr, hend] at h
  have hspec := pageMapLoop_spec h (pageAligned_pageMask start) hfits hm
  rwa [hdiv] at hspec

/-- Advancing by a page keeps the attribute bits of an address. -/
theorem hasFlag_write_add32
    (a : ℕ) : hasFlag (add32 a pageSize) pageAttrWrite = hasFlag a pageAttrWrite := by
  have hbit : add32 a pageSize / 2 ^ 1 % 2 = a / 2 ^ 1 % 2 := by
    unfold add32 pageSize
    omega
  rw [hasFlag_write, hasFlag_write, Nat.testBit_eq_decide_div_mod_eq,
    Nat.testBit_eq_decide_div_mod_eq, hbit]

theorem pageMapFixedLoop_spec :
    ∀ {rounds : ℕ} {m m' : Mm} {first pages : ℕ},
      pageMapFixedLoop prot end_ rounds m first pages = some m' → PageAligned first →
      end_ ≤ windowStart →
      (m.Framed → m'.Framed) ∧ ∀ v, Ordinary v →
        ¬ (first / 4096 ≤ v / 4096 ∧ v / 4096 * 4096 < end_) ∧ m'.lookup v = m.lookup v ∨
        (first / 4096 ≤ v / 4096 ∧ v / 4096 * 4096 < end_) ∧
          ∃ pa, hasFlag pa pageAttrWrite = hasFlag pages pageAttrWrite ∧
            m'.lookup v = some (pa ||| pageAttrOf prot ||| pageAttrPresent) := by
  intro rounds
  induction rounds with
  | zero => intro m m' first pages h; cases h
  | succ rounds ih =>
      intro m m' first pages h halign hfits
      rw [pageMapFixedLoop] at h
      by_cases hfirst : first < end_
      · rw [if_pos hfirst] at h
        have hva : Ordinary first := ordinary_of_lt (lt_of_lt_of_le hfirst hfits)
        have hnext : add32 first pageSize = first + 4096 := by
          unfold windowStart pageSize at *
          exact add32_of_lt (by omega)
        have halign' : PageAligned (first + 4096) := by
          unfold PageAligned at *
          omega
        rw [hnext] at h
        split at h
        · cases h
        · rename_i t hlink
          have hone : (m.Framed → t.Framed) ∧ ∀ v, Ordinary v → t.lookup v =
              if v / 4096 = first / 4096 then some (pages ||| pageAttrOf prot ||| pageAttrPresent)
              else m.lookup v := by
            split_ifs at hlink with hremap
            · exact pageLinkAddrUnsafe_lookup hlink hva
            · exact (pageLinkAddr_lookup hlink hva).2
          obtain ⟨hframed, hrest⟩ := ih h halign' hfits
          refine ⟨fun hm => hframed (hone.1 hm), fun v hv => ?_⟩
          have hv' := hone.2 v hv
          unfold PageAligned at halign
          rcases hrest v hv with ⟨hout, heq⟩ | ⟨hin, pa, hpa, hsome⟩
          · by_cases hpage : v / 4096 = first / 4096
            · rw [if_pos hpage] at hv'
              exact Or.inr ⟨by omega, pages, rfl, heq.trans hv'⟩
            · rw [if_neg hpage] at hv'
              exact Or.inl ⟨by omega, heq.trans hv'⟩
          · exact Or.inr ⟨by omega, pa, hpa.trans (hasFlag_write_add32 pages), hsome⟩
      · rw [if_neg hfirst] at h
        cases h
        refine ⟨fun hm => hm, fun v _ => Or.inl ⟨?_, rfl⟩⟩
        unfold PageAligned at halign
        omega

/-- **`page_map_addr_fixed`** sets every entry of the range. -/
theorem pageMapAddrFixed_spec {m m' : Mm} {start addr len : ℕ}
    (h : pageMapAddrFixed m start addr len prot = some m')
    (hfits : pageMask start + pageAlign len ≤ windowStart) :
    (m.Framed → m'.Framed) ∧ ∀ v, Ordinary v →
      ¬ (start / 4096 ≤ v / 4096 ∧ v / 4096 * 4096 < pageMask start + pageAlign len) ∧
          m'.lookup v = m.lookup v ∨
        (start / 4096 ≤ v / 4096 ∧ v / 4096 * 4096 < pageMask start + pageAlign len) ∧
          ∃ pa, hasFlag pa pageAttrWrite = hasFlag addr pageAttrWrite ∧
            m'.lookup v = some (pa ||| pageAttrOf prot ||| pageAttrPresent) := by
  have hdiv : pageMask start / 4096 = start / 4096 := by
    unfold pageMask
    omega
  have hend : add32 (pageMask start) (pageAlign len) = pageMask start + pageAlign len :=
    add32_of_lt (lt_of_le_of_lt hfits (by norm_num))
  rw [pageMapAddrFixed, hend] at h
  have hspec := pageMapFixedLoop_spec h (pageAligned_pageMask start) hfits
  rwa [hdiv] at hspec

end Ranges

/-! ## Presence

Linking pages never makes a page go away, whatever the address: an address in the
window of the directory sets a directory entry that was not present. -/

section Presence

variable {m m' : Mm} {v va pa attr e : ℕ}

/-- Addresses of one page are present together. -/
theorem present_of_page {w : ℕ} (h : v / 4096 = w / 4096) : m.present v = m.present w := by
  simp only [Mm.present, Mm.entry, tableIdx, h, dirIdx_eq_of_page h]

theorem update_present {f : ℕ → ℕ} {i : ℕ} (h : hasFlag (f i) pageAttrPresent = true) (j e : ℕ) :
    hasFlag (Function.update f j (e ||| pageAttrPresent) i) pageAttrPresent = true := by
  by_cases hij : i = j
  · subst hij
    rw [Function.update_self, hasFlag_present_or]
  · rw [Function.update_of_ne hij, h]

/-- Writing an entry that is present. -/
theorem setEntry_present (hpde : hasFlag (m.pde (dirIdx va)) pageAttrPresent = true) (e : ℕ) :
    (∀ v, m.present v = true → (m.setEntry va (e ||| pageAttrPresent)).present v = true) ∧
      (m.setEntry va (e ||| pageAttrPresent)).present va = true := by
  by_cases hva : dirIdx va = 1023
  · have hset : m.setEntry va (e ||| pageAttrPresent) =
        { m with pde := Function.update m.pde (tableIdx va) (e ||| pageAttrPresent) } := if_pos hva
    rw [hset]
    constructor
    · intro v hv
      rw [Mm.present, Bool.and_eq_true] at hv ⊢
      refine ⟨update_present hv.1 _ _, ?_⟩
      by_cases hwin : dirIdx v = 1023
      · rw [Mm.entry, if_pos hwin] at hv ⊢
        exact update_present hv.2 _ _
      · rw [Mm.entry, if_neg hwin] at hv ⊢
        exact hv.2
    · rw [Mm.present, Bool.and_eq_true, Mm.entry, if_pos hva]
      refine ⟨update_present hpde _ _, ?_⟩
      simp only [Function.update_self, hasFlag_present_or]
  · have hset : m.setEntry va (e ||| pageAttrPresent) =
        { m with pte := Function.update m.pte (va / 4096) (e ||| pageAttrPresent) } := if_neg hva
    rw [hset]
    constructor
    · intro v hv
      rw [Mm.present, Bool.and_eq_true] at hv ⊢
      refine ⟨hv.1, ?_⟩
      by_cases hwin : dirIdx v = 1023
      · rw [Mm.entry, if_pos hwin] at hv ⊢
        exact hv.2
      · rw [Mm.entry, if_neg hwin] at hv ⊢
        exact update_present hv.2 _ _
    · rw [Mm.present, Bool.and_eq_true, Mm.entry, if_neg hva]
      refine ⟨hpde, ?_⟩
      simp only [Function.update_self, hasFlag_present_or]

/-- A new table where there was none. -/
theorem newTable_present {i : ℕ} (hpde : hasFlag (m.pde i) pageAttrPresent = false) (e : ℕ)
    (hv : m.present v = true) : (m.newTable i (e ||| pageAttrPresent)).present v = true := by
  rw [Mm.present, Bool.and_eq_true] at hv ⊢
  have hne : dirIdx v ≠ i := by
    rintro rfl
    rw [hpde] at hv
    exact absurd hv.1 (by simp)
  refine ⟨update_present hv.1 _ _, ?_⟩
  by_cases hwin : dirIdx v = 1023
  · rw [Mm.entry, if_pos hwin] at hv ⊢
    exact update_present hv.2 _ _
  · have hidx : v / 4096 / 1024 ≠ i := by
      unfold dirIdx at hne
      omega
    rw [Mm.entry, if_neg hwin] at hv ⊢
    simp only [Mm.newTable, if_neg hidx]
    exact hv.2

/-- **Linking a page** makes its address present, and keeps what is present. -/
theorem pageLinkAddr_present (h : pageLinkAddr m va pa attr = some m') :
    (∀ v, m.present v = true → m'.present v = true) ∧ m'.present va = true := by
  unfold pageLinkAddr at h
  by_cases hpde : hasFlag (m.pde (dirIdx va)) pageAttrPresent = true
  · rw [if_pos hpde] at h
    split_ifs at h with hpte
    cases h
    exact setEntry_present hpde _
  · rw [if_neg hpde] at h
    obtain ⟨t, htable, rfl⟩ := Option.map_eq_some_iff.1 h
    have htpde := (pageLinkTable_spec htable (Bool.eq_false_iff.2 hpde)).2.2.1
    obtain ⟨hkeep, hthere⟩ := setEntry_present htpde (pa ||| attr)
    refine ⟨fun v hv => hkeep v ?_, hthere⟩
    unfold pageLinkTable at htable
    split at htable
    · cases htable
    · rename_i u table halloc
      obtain ⟨hupde, hupte, -⟩ := pageAllocUser_spec halloc
      split_ifs at htable with hfail
      cases htable
      apply newTable_present (by rw [hupde]; exact Bool.eq_false_iff.2 hpde) _
      rw [← hv]
      simp only [Mm.present, Mm.entry, hupde, hupte]

theorem pageMapLoop_present {end_ : ℕ} (hend : end_ + 4096 ≤ wordSize) :
    ∀ {rounds : ℕ} {m m' : Mm} {start : ℕ} {ret : ℤ},
      pageMapLoop attr end_ rounds m start = some (m', ret) → PageAligned start →
      (∀ v, m.present v = true → m'.present v = true) ∧
        (ret = 0 ∧ (∀ v, start ≤ v → v < end_ → m'.present v = true) ∨ ret = -1) := by
  intro rounds
  induction rounds with
  | zero => intro m m' start ret h; cases h
  | succ rounds ih =>
      intro m m' start ret h halign
      rw [pageMapLoop] at h
      by_cases hstart : start < end_
      · rw [if_pos hstart] at h
        have hnext : add32 start pageSize = start + 4096 := by
          unfold wordSize at hend
          unfold pageSize
          exact add32_of_lt (by omega)
        rw [hnext] at h
        split at h
        · cases h
        · rename_i t pa halloc
          obtain ⟨hpde, hpte, -⟩ := pageAllocUser_spec halloc
          have hsame : ∀ v, t.present v = m.present v := fun v => by
            simp only [Mm.present, Mm.entry, hpde, hpte]
          split_ifs at h with hzero
          · cases h
            exact ⟨fun v hv => by rw [hsame, hv], Or.inr rfl⟩
          · split at h
            · cases h
            · rename_i u hlink
              obtain ⟨hkeep, hthere⟩ := pageLinkAddr_present hlink
              obtain ⟨hkeep', hrest⟩ := ih h (by unfold PageAligned at *; omega)
              refine ⟨fun v hv => hkeep' v (hkeep v (by rw [hsame, hv])), ?_⟩
              rcases hrest with ⟨hret, hall⟩ | hret
              · refine Or.inl ⟨hret, fun v hlow hhigh => ?_⟩
                by_cases hpage : v / 4096 = start / 4096
                · rw [present_of_page hpage]
                  exact hkeep' start hthere
                · refine hall v ?_ hhigh
                  unfold PageAligned at halign
                  omega
              · exact Or.inr hret
      · rw [if_neg hstart] at h
        cases h
        exact ⟨fun v hv => hv, Or.inl ⟨rfl, fun v hlow hhigh => by omega⟩⟩

/-- **`page_map_addr`** keeps what is present; it returns zero when the whole range is. -/
theorem pageMapAddr_present {start len prot : ℕ} {ret : ℤ}
    (h : pageMapAddr m start len prot = some (m', ret)) (halign : PageAligned start)
    (hend : start + len + 4096 ≤ wordSize) :
    (∀ v, m.present v = true → m'.present v = true) ∧
      (ret = 0 ∧ (∀ v, start ≤ v → v < start + len → m'.present v = true) ∨ ret = -1) := by
  have hsum : add32 start len = start + len := add32_of_lt (by unfold wordSize at hend; omega)
  rw [pageMapAddr, pageMask_eq_self halign, hsum] at h
  exact pageMapLoop_present hend h halign

end Presence

end LightOS
