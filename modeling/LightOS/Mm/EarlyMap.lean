import LightOS.Mm.PhysMem
import LightOS.Mm.Page

/-!
# The early mapping of kernel memory

`setup_paging` and `kern_page_map_early` of `arch/x86/mach-i386/mm/page.c`.  The directory and the
tables are words of the physical memory, and once paging is on the kernel reaches them through the
tables themselves: the directory at its high address, the tables at their low ones.

The pointer to a table moves by `PAGE_SIZE` words, so that there are 16 KB from one table to the
next.

* `bootMapped_setupPaging` — what the boot leaves: the first 8 MB are mapped to themselves, low and
  high.
* `Progress.setDir`, `Progress.setPage` — what one store does, and that it keeps the mapping it
  goes through.
* `kernPageMapEarly_maps` — every page of the interval is mapped, and where the tables lie.
-/

namespace LightOS
namespace EarlyMap

open PhysMem

/-! ## The model -/

/-- `KERN_PAGE_DIR_PHY_ADDR`. -/
abbrev kernPageDirPhyAddr : ℕ := 0x3F2000

/-- `KERN_PAGE_DIR_VIR_ADDR`. -/
abbrev kernPageDirVirAddr : ℕ := kernBaseVirAddr + kernPageDirPhyAddr

/-- `KERN_PAGE_TABLE_PHY_ADDR`. -/
abbrev kernPageTablePhyAddr : ℕ := 0x3F3000

/-- `PAGE_TABLE_HAD_USED`. -/
abbrev pageTableHadUsed : ℕ := 2

/-- `PAGE_TABLE_ENTRY_NR`. -/
abbrev pageTableEntryNr : ℕ := 1024

/-- `KERN_PAGE_DIR_ENTRY_OFF`. -/
abbrev kernPageDirEntryOff : ℕ := 512

/-- `KERN_PAGE_ATTR`. -/
abbrev kernPageAttr : ℕ := pageAttrPresent ||| pageAttrWrite ||| pageAttrSystem

/-- The words of the physical memory, by their addresses. -/
abbrev Ram : Type := ℕ → ℕ

/-- How the processor translates an address, under the kernel's directory. -/
def walk (m : Ram) (vaddr : ℕ) : Option ℕ :=
  let pde := m (kernPageDirPhyAddr + 4 * dirIdx vaddr)
  if hasFlag pde pageAttrPresent then
    let pte := m (pageMask pde + 4 * tableIdx vaddr)
    if hasFlag pte pageAttrPresent then some (pageMask pte + vaddr % 4096) else none
  else none

/-- A word is stored; `none` is a page fault. -/
def store (m : Ram) (vaddr value : ℕ) : Option Ram :=
  (walk m vaddr).map fun a => Function.update m a value

/-- The loop over `j`, from `j` on. -/
def fillTable (pteAddr : ℕ) : ℕ → ℕ → Ram → ℕ → Option (Ram × ℕ)
  | 0, _, m, start => some (m, start)
  | rounds + 1, j, m, start =>
      (store m (add32 pteAddr (4 * j)) (start ||| kernPageAttr)).bind fun m =>
        fillTable pteAddr rounds (j + 1) m (add32 start pageSize)

/-- A table is entered into the directory, and its first `count` entries are filled. -/
def mapTable (m : Ram) (i pteAddr start count : ℕ) : Option (Ram × ℕ) :=
  let pdeOff := kernPageDirEntryOff + pageTableHadUsed
  (store m (add32 kernPageDirVirAddr (4 * (pdeOff + i))) (pteAddr ||| kernPageAttr)).bind fun m =>
    fillTable pteAddr count 0 m start

/-- The loop over `i`, from `i` on; it leaves `i`, `pte_addr` and `start`. -/
def mapTables : ℕ → ℕ → Ram → ℕ → ℕ → Option (Ram × ℕ × ℕ × ℕ)
  | 0, i, m, pteAddr, start => some (m, i, pteAddr, start)
  | rounds + 1, i, m, pteAddr, start =>
      (mapTable m i pteAddr start pageTableEntryNr).bind fun r =>
        -- `pte_addr += PAGE_SIZE` counts words
        mapTables rounds (i + 1) r.1 (add32 pteAddr (4 * pageSize)) r.2

/-- `kern_page_map_early`. -/
def kernPageMapEarly (m : Ram) (start end_ : ℕ) : Option Ram :=
  let pdeNr := sub32 end_ start / (pageTableEntryNr * pageSize)
  let pteNr := sub32 end_ start / pageSize % pageTableEntryNr
  let pteAddr := kernPageTablePhyAddr + pageSize * pageTableHadUsed
  (mapTables pdeNr 0 m pteAddr start).bind fun r =>
    if 0 < pteNr then (mapTable r.1 r.2.1 r.2.2.1 r.2.2.2 pteNr).map Prod.fst else some r.1

/-- The loop of `setup_paging` that fills its tables. -/
def fillBoot : ℕ → ℕ → Ram → ℕ → Ram
  | 0, _, m, _ => m
  | rounds + 1, i, m, phyAddr =>
      fillBoot rounds (i + 1) (Function.update m (kernPageTablePhyAddr + 4 * i)
        (phyAddr ||| kernPageAttr))
        (phyAddr + pageSize)

/-- The words of the directory that `setup_paging` writes. -/
def setDirectory (m : Ram) : Ram :=
  let pgdir := kernPageDirPhyAddr
  let pgtbl := kernPageTablePhyAddr
  let set (m : Ram) (i table : ℕ) : Ram :=
    Function.update m (pgdir + 4 * i) (table ||| kernPageAttr)
  let m := set (set m 0 pgtbl) 512 pgtbl
  let m := set (set m 1 (pgtbl + 4 * 1024)) 513 (pgtbl + 4 * 1024)
  let m := set (set m 2 (pgtbl + 4 * 2048)) 514 (pgtbl + 4 * 2048)
  set m 1023 pgdir

/-- `setup_paging`, up to the moment when paging is switched on. -/
def setupPaging (m : Ram) : Ram :=
  let m : Ram := fun a => if kernPageDirPhyAddr ≤ a ∧ a < kernPageDirPhyAddr + pageSize then 0
    else m a
  setDirectory (fillBoot (1024 * 3) 0 m 0)

/-! ## What is promised -/

/-- The first tables of the boot: they map 8 MB, for low and for high addresses. -/
structure BootMapped (m : Ram) : Prop where
  low : ∀ t < pageTableHadUsed, m (kernPageDirPhyAddr + 4 * t) =
    (kernPageTablePhyAddr + 4096 * t) ||| kernPageAttr
  high : ∀ t < pageTableHadUsed,
    m (kernPageDirPhyAddr + 4 * (kernPageDirEntryOff + t)) =
      (kernPageTablePhyAddr + 4096 * t) ||| kernPageAttr
  entry : ∀ i < pageTableHadUsed * pageTableEntryNr, m (kernPageTablePhyAddr + 4 * i) =
    (4096 * i) ||| kernPageAttr

/-- The directory entry of the table with this number. -/
def dirSlot (i : ℕ) : ℕ := kernPageDirPhyAddr + 4 * (kernPageDirEntryOff + pageTableHadUsed + i)

/-- The table that the directory has there. -/
def tableOf (m : Ram) (i : ℕ) : ℕ := pageMask (m (dirSlot i))

/-- How many tables the whole pages of so many bytes take. -/
def tableCount (size : ℕ) : ℕ := (size / 4096 + 1023) / 1024

/-- What is promised of the mapping of the addresses from the DMA range to `end_`. -/
structure MapsEarly (m m' : Ram) (end_ : ℕ) : Prop where
  mapped : ∀ p, p % 4096 = 0 → dmaMemAddr ≤ p → p + 4096 ≤ end_ →
    ∀ o < 4096, walk m' (kernBaseVirAddr + p + o) = some (p + o)
  disjoint : ∀ i < tableCount (end_ - dmaMemAddr), ∀ j < tableCount (end_ - dmaMemAddr), i ≠ j →
    tableOf m' i + 4096 ≤ tableOf m' j ∨ tableOf m' j + 4096 ≤ tableOf m' i
  between : ∀ i < tableCount (end_ - dmaMemAddr),
    kernPageTablePhyAddr + 4096 * pageTableHadUsed ≤ tableOf m' i ∧ tableOf m' i + 4096 ≤ dmaMemAddr
  rest : ∀ a, m' a ≠ m a →
    ∃ i < tableCount (end_ - dmaMemAddr), a = dirSlot i ∨
      (tableOf m' i ≤ a ∧ a < tableOf m' i + 4096)

/-! ## Walking -/

section Walk

variable {m : Ram} {a t vaddr v : ℕ}

theorem or_kernPageAttr (h : a % 4096 = 0) : a ||| kernPageAttr = a + 3 := by
  have hor := Nat.two_pow_add_eq_or_of_lt (i := 12) (b := 3) (by decide) (a / 4096)
  have ha : 2 ^ 12 * (a / 4096) = a := by omega
  rw [ha] at hor
  exact hor.symm

theorem pageMask_or_attr (h : a % 4096 = 0) : pageMask (a ||| kernPageAttr) = a := by
  rw [or_kernPageAttr h, pageMask]
  omega

theorem hasFlag_or_attr (a : ℕ) : hasFlag (a ||| kernPageAttr) pageAttrPresent = true := by
  rw [hasFlag_present, Nat.testBit_or]
  simp

/-- An address with a table and a page in it is translated. -/
theorem walk_eq (ht : t % 4096 = 0) (ha : a % 4096 = 0)
    (hpde : m (kernPageDirPhyAddr + 4 * dirIdx vaddr) = t ||| kernPageAttr)
    (hpte : m (t + 4 * tableIdx vaddr) = a ||| kernPageAttr) :
    walk m vaddr = some (a + vaddr % 4096) := by
  unfold walk
  simp only [hpde, hasFlag_or_attr, if_true, pageMask_or_attr ht, hpte, pageMask_or_attr ha]

/-- **The first 8 MB are mapped to themselves**, low and high. -/
theorem BootMapped.walk (h : BootMapped m) (hv : v < dmaMemAddr) :
    EarlyMap.walk m v = some v ∧ EarlyMap.walk m (kernBaseVirAddr + v) = some v := by
  have hv8 : v < 8388608 := hv
  have hd : v / 4194304 < 2 := by omega
  have hi : v / 4096 < 2048 := by omega
  have hentry := h.entry (v / 4096) hi
  have htable : kernPageTablePhyAddr = 4141056 := rfl
  have ht : (kernPageTablePhyAddr + 4096 * (v / 4194304)) % 4096 = 0 := by omega
  have ha : 4096 * (v / 4096) % 4096 = 0 := Nat.mul_mod_right _ _
  have hsum : 4096 * (v / 4096) + v % 4096 = v := Nat.div_add_mod v 4096
  constructor
  · have hpde : m (kernPageDirPhyAddr + 4 * dirIdx v) = _ := h.low _ hd
    have hslot : kernPageTablePhyAddr + 4096 * (v / 4194304) + 4 * tableIdx v =
        kernPageTablePhyAddr + 4 * (v / 4096) := by
      unfold tableIdx
      omega
    have hpte := hentry
    rw [← hslot] at hpte
    rw [walk_eq ht ha hpde hpte, hsum]
  · have hdir : dirIdx (kernBaseVirAddr + v) = kernPageDirEntryOff + v / 4194304 := by
      unfold dirIdx kernBaseVirAddr kernPageDirEntryOff
      omega
    have hpde : m (kernPageDirPhyAddr + 4 * dirIdx (kernBaseVirAddr + v)) = _ := hdir ▸ h.high _ hd
    have hslot : kernPageTablePhyAddr + 4096 * (v / 4194304) + 4 * tableIdx (kernBaseVirAddr + v) =
        kernPageTablePhyAddr + 4 * (v / 4096) := by
      unfold tableIdx kernBaseVirAddr
      omega
    have hpte := hentry
    rw [← hslot] at hpte
    have hoff : (kernBaseVirAddr + v) % 4096 = v % 4096 := by
      unfold kernBaseVirAddr
      omega
    rw [walk_eq ht ha hpde hpte, hoff, hsum]

theorem BootMapped.store (h : BootMapped m) (hv : v < dmaMemAddr) (value : ℕ) :
    EarlyMap.store m v value = some (Function.update m v value) ∧
      EarlyMap.store m (kernBaseVirAddr + v) value = some (Function.update m v value) := by
  unfold EarlyMap.store
  rw [(h.walk hv).1, (h.walk hv).2]
  exact ⟨rfl, rfl⟩

end Walk

/-! ## The progress of the loops -/

/-- The address of the table with this number. -/
def tableAddr (i : ℕ) : ℕ := 0x3F5000 + 0x4000 * i

/-- Where the entry of the page with this number is. -/
def pageSlot (k : ℕ) : ℕ := tableAddr (k / 1024) + 4 * (k % 1024)

/-- So many tables are in the directory and so many pages in the tables, and all else is as it was.
-/
structure Progress (m₀ m : Ram) (start tables pages : ℕ) : Prop where
  dir : ∀ i < tables, m (dirSlot i) = tableAddr i ||| kernPageAttr
  page : ∀ k < pages, m (pageSlot k) = (start + 4096 * k) ||| kernPageAttr
  frame : ∀ a, (∀ i < tables, a ≠ dirSlot i) → (∀ k < pages, a ≠ pageSlot k) → m a = m₀ a

section Progress

variable {m₀ m : Ram} {start tables pages : ℕ}

theorem dirSlot_eq (i : ℕ) : dirSlot i = 0x3F2808 + 4 * i := by
  unfold dirSlot
  have hdir : kernPageDirPhyAddr = 0x3F2000 := rfl
  have hoff : kernPageDirEntryOff = 512 := rfl
  have hused : pageTableHadUsed = 2 := rfl
  omega

theorem pageSlot_eq (k : ℕ) : pageSlot k = 0x3F5000 + 0x4000 * (k / 1024) + 4 * (k % 1024) := rfl

theorem dirSlot_ne_pageSlot {i : ℕ} (hi : i ≤ 258) (k : ℕ) : dirSlot i ≠ pageSlot k := by
  rw [dirSlot_eq, pageSlot_eq]
  omega

theorem pageSlot_injective : Function.Injective pageSlot := by
  intro k l h
  rw [pageSlot_eq, pageSlot_eq] at h
  omega

theorem Progress.init (m₀ : Ram) (start : ℕ) : Progress m₀ m₀ start 0 0 where
  dir := fun _ hi => absurd hi (Nat.not_lt_zero _)
  page := fun _ hk => absurd hk (Nat.not_lt_zero _)
  frame := fun _ _ _ => rfl

/-- **The mapping that the stores go through stays.** -/
theorem Progress.bootMapped (h : Progress m₀ m start tables pages) (hboot : BootMapped m₀)
    (htables : tables ≤ 258) : BootMapped m := by
  have hkeep : ∀ a, a < 0x3F2808 ∨ (0x3F3000 ≤ a ∧ a < 0x3F5000) → m a = m₀ a := by
    intro a ha
    apply h.frame
    · intro i hi
      rw [dirSlot_eq]
      omega
    · intro k _
      rw [pageSlot_eq]
      omega
  have hdir : kernPageDirPhyAddr = 0x3F2000 := rfl
  have htable : kernPageTablePhyAddr = 0x3F3000 := rfl
  have hoff : kernPageDirEntryOff = 512 := rfl
  have hused : pageTableHadUsed = 2 := rfl
  have hnr : pageTableHadUsed * pageTableEntryNr = 2048 := rfl
  refine ⟨fun t ht => ?_, fun t ht => ?_, fun i hi => ?_⟩
  · rw [hkeep _ (by omega)]
    exact hboot.low t ht
  · rw [hkeep _ (by omega)]
    exact hboot.high t ht
  · rw [hkeep _ (by omega)]
    exact hboot.entry i hi

/-- One more table is entered into the directory. -/
theorem Progress.setDir (h : Progress m₀ m start tables pages) (htables : tables ≤ 258) :
    Progress m₀ (Function.update m (dirSlot tables) (tableAddr tables ||| kernPageAttr)) start
    (tables + 1)
      pages where
  dir := by
    intro i hi
    rcases Nat.lt_succ_iff_lt_or_eq.1 hi with hlt | rfl
    · have hne : dirSlot i ≠ dirSlot tables := by
        rw [dirSlot_eq, dirSlot_eq]
        omega
      rw [Function.update_of_ne hne, h.dir i hlt]
    · rw [Function.update_self]
  page := fun k hk =>
    by rw [Function.update_of_ne (dirSlot_ne_pageSlot htables k).symm, h.page k hk]
  frame := by
    intro a hdir hpage
    rw [Function.update_of_ne (hdir tables (Nat.lt_succ_self _))]
    exact h.frame a (fun i hi => hdir i (Nat.lt_succ_of_lt hi)) hpage

/-- One more page is entered into its table. -/
theorem Progress.setPage (h : Progress m₀ m start tables pages) (htables : tables ≤ 258) :
    Progress m₀ (Function.update m (pageSlot pages) ((start + 4096 * pages) ||| kernPageAttr))
    start tables
      (pages + 1) where
  dir := fun i hi =>
    by rw [Function.update_of_ne (dirSlot_ne_pageSlot (by omega) pages), h.dir i hi]
  page := by
    intro k hk
    rcases Nat.lt_succ_iff_lt_or_eq.1 hk with hlt | rfl
    · rw [Function.update_of_ne fun heq => hlt.ne (pageSlot_injective heq), h.page k hlt]
    · rw [Function.update_self]
  frame := by
    intro a hdir hpage
    rw [Function.update_of_ne (hpage pages (Nat.lt_succ_self _))]
    exact h.frame a hdir fun k hk => hpage k (Nat.lt_succ_of_lt hk)

end Progress

/-! ## The loops -/

section Loops

variable {m₀ m : Ram} {start : ℕ}

theorem add32_entry {i j : ℕ} (hi : i < 258) (hj : j < 1024) :
    add32 (tableAddr i) (4 * j) = pageSlot (1024 * i + j) := by
  rw [pageSlot_eq, tableAddr, add32_of_lt (by omega)]
  omega

theorem add32_table {i : ℕ} (hi : i < 258) :
    add32 (tableAddr i) (4 * pageSize) = tableAddr (i + 1) := by
  unfold tableAddr pageSize
  rw [add32_of_lt (by omega)]
  omega

theorem add32_page {k : ℕ} (h : start + 4096 * (k + 1) < 4294967296) :
    add32 (start + 4096 * k) pageSize = start + 4096 * (k + 1) := by
  have hsum : start + 4096 * k + pageSize = start + 4096 * (k + 1) :=
    Nat.add_assoc start (4096 * k) 4096
  rw [add32_of_lt (by rwa [hsum]), hsum]

theorem pageSlot_lt {k : ℕ} (hk : k < 264192) : pageSlot k < dmaMemAddr := by
  change _ < 0x800000
  rw [pageSlot_eq]
  omega

theorem dirSlot_lt {i : ℕ} (hi : i < 258) : dirSlot i < dmaMemAddr := by
  change _ < 0x800000
  rw [dirSlot_eq]
  omega

/-- The pointer to an entry of the directory. -/
theorem add32_dir {i : ℕ} (hi : i < 258) :
    add32 kernPageDirVirAddr (4 * (kernPageDirEntryOff + pageTableHadUsed + i)) =
      kernBaseVirAddr + dirSlot i := by
  unfold kernPageDirVirAddr kernBaseVirAddr kernPageDirPhyAddr kernPageDirEntryOff pageTableHadUsed
  rw [add32_of_lt (by omega), dirSlot_eq]
  omega

/-- **The inner loop** enters the pages of one table. -/
theorem fillTable_progress (hboot : BootMapped m₀) {i tables : ℕ} (hi : i < 258)
    (htables : tables ≤ 258) (count j : ℕ) (hcount : j + count ≤ 1024)
    (hword : start + 4096 * (1024 * i + j + count) < 4294967296)
    (h : Progress m₀ m start tables (1024 * i + j)) :
    ∃ m', fillTable (tableAddr i) count j m (start + 4096 * (1024 * i + j)) =
        some (m', start + 4096 * (1024 * i + j + count)) ∧
      Progress m₀ m' start tables (1024 * i + j + count) := by
  induction count generalizing m j with
  | zero => exact ⟨m, rfl, h⟩
  | succ count ih =>
      obtain ⟨m', hrun, hprog⟩ := ih (j + 1) (by omega) (by omega) (h.setPage htables)
      have hlast : 1024 * i + (j + 1) + count = 1024 * i + j + (count + 1) := by omega
      rw [hlast] at hrun hprog
      have hword' : start + 4096 * (1024 * i + j + 1) < 4294967296 :=
        lt_of_le_of_lt (by omega) hword
      have hk : 1024 * i + j < 264192 := by omega
      have hj : j < 1024 := by omega
      refine ⟨m', ?_, hprog⟩
      rw [fillTable, add32_entry hi hj, ((h.bootMapped hboot htables).store (pageSlot_lt hk) _).1,
        Option.bind_some, add32_page hword']
      exact hrun

/-- A table is entered and its first pages are. -/
theorem mapTable_progress (hboot : BootMapped m₀) {i : ℕ} (hi : i < 258) {count : ℕ}
    (hcount : count ≤ 1024) (hword : start + 4096 * (1024 * i + count) < 4294967296)
    (h : Progress m₀ m start i (1024 * i)) :
    ∃ m', mapTable m i (tableAddr i) (start + 4096 * (1024 * i)) count =
        some (m', start + 4096 * (1024 * i + count)) ∧
      Progress m₀ m' start (i + 1) (1024 * i + count) := by
  obtain ⟨m', hrun, hprog⟩ :=
    fillTable_progress hboot hi (by omega) count 0 (by omega) (by simpa using hword)
      (h.setDir hi.le)
  refine ⟨m', ?_, hprog⟩
  unfold mapTable
  dsimp only
  rw [add32_dir hi, ((h.bootMapped hboot hi.le).store (dirSlot_lt hi) _).2, Option.bind_some]
  exact hrun

/-- **The outer loop** fills whole tables. -/
theorem mapTables_progress (hboot : BootMapped m₀) (rounds i : ℕ) (hrounds : i + rounds ≤ 258)
    (hword : start + 4096 * (1024 * (i + rounds)) < 4294967296)
    (h : Progress m₀ m start i (1024 * i)) :
    ∃ m', mapTables rounds i m (tableAddr i) (start + 4096 * (1024 * i)) =
        some (m', i + rounds, tableAddr (i + rounds), start + 4096 * (1024 * (i + rounds))) ∧
      Progress m₀ m' start (i + rounds) (1024 * (i + rounds)) := by
  induction rounds generalizing m i with
  | zero => exact ⟨m, rfl, h⟩
  | succ rounds ih =>
      have hword' : start + 4096 * (1024 * i + 1024) < 4294967296 := lt_of_le_of_lt (by omega) hword
      obtain ⟨m₁, hrun₁, hprog₁⟩ := mapTable_progress hboot (by omega) le_rfl hword' h
      have hnext : 1024 * i + 1024 = 1024 * (i + 1) := by omega
      rw [hnext] at hprog₁ hrun₁
      obtain ⟨m', hrun, hprog⟩ := ih (i + 1) (by omega) (by omega) hprog₁
      have hlast : i + 1 + rounds = i + (rounds + 1) := by omega
      rw [hlast] at hrun hprog
      refine ⟨m', ?_, hprog⟩
      rw [mapTables, hrun₁, Option.bind_some, add32_table (by omega)]
      exact hrun

end Loops

/-! ## The mapping -/

section Map

variable {m₀ m m' : Ram} {size : ℕ}

/-- **What `kern_page_map_early` leaves** when it starts with the DMA range. -/
theorem kernPageMapEarly_progress (hboot : BootMapped m) (hsize : size ≤ 1082130432) :
    ∃ m', kernPageMapEarly m dmaMemAddr (dmaMemAddr + size) = some m' ∧
      Progress m m' dmaMemAddr (tableCount size) (size / 4096) := by
  obtain ⟨pdeNr, hpde⟩ : ∃ n, size / 4194304 = n := ⟨_, rfl⟩
  obtain ⟨pteNr, hpte⟩ : ∃ n, size / 4096 % 1024 = n := ⟨_, rfl⟩
  have hle : pdeNr ≤ 258 := by omega
  have hpages : size / 4096 = 1024 * pdeNr + pteNr := by omega
  have hsub : sub32 (dmaMemAddr + size) dmaMemAddr = size := by
    rw [sub32_of_le (Nat.le_add_right _ _) (lt_of_le_of_lt (Nat.add_le_add_left hsize _)
      (by decide)), Nat.add_sub_cancel_left]
  have hword : dmaMemAddr + 4096 * (1024 * (0 + pdeNr)) < 4294967296 := by
    change 8388608 + _ < _
    omega
  obtain ⟨m₁, hrun, hprog⟩ :=
    mapTables_progress hboot pdeNr 0 (by omega) hword (Progress.init m dmaMemAddr)
  rw [Nat.zero_add] at hrun hprog
  unfold kernPageMapEarly
  simp only [hsub]
  have hrun' : mapTables (size / (pageTableEntryNr * pageSize)) 0 m
      (kernPageTablePhyAddr + pageSize * pageTableHadUsed) dmaMemAddr =
        some (m₁, pdeNr, tableAddr pdeNr, dmaMemAddr + 4096 * (1024 * pdeNr)) := by
    rw [← hrun, ← hpde]
    rfl
  rw [hrun', Option.bind_some]
  have hrem : size / pageSize % pageTableEntryNr = pteNr := hpte
  rw [hrem, hpages]
  dsimp only
  by_cases hpos : 0 < pteNr
  · have hlt : pdeNr < 258 := by omega
    have hcount : tableCount size = pdeNr + 1 := by
      unfold tableCount
      omega
    have hword' : dmaMemAddr + 4096 * (1024 * pdeNr + pteNr) < 4294967296 := by
      change 8388608 + _ < _
      omega
    obtain ⟨m₂, hrun₂, hprog₂⟩ := mapTable_progress hboot hlt (by omega) hword' hprog
    rw [if_pos hpos, hrun₂, hcount]
    exact ⟨m₂, rfl, hprog₂⟩
  · have hzero : pteNr = 0 := by omega
    have hcount : tableCount size = pdeNr := by
      unfold tableCount
      omega
    rw [if_neg hpos, hcount, hzero]
    exact ⟨m₁, rfl, hprog⟩

theorem tableAddr_aligned (i : ℕ) : tableAddr i % 4096 = 0 := by
  unfold tableAddr
  omega

theorem Progress.tableOf_eq {start tables pages i : ℕ} (h : Progress m₀ m start tables pages)
    (hi : i < tables) :
    tableOf m i = tableAddr i := by
  rw [tableOf, h.dir i hi, pageMask_or_attr (tableAddr_aligned i)]

/-- A page that was entered is reached at its high address. -/
theorem Progress.walk {tables pages k o : ℕ} (h : Progress m₀ m dmaMemAddr tables pages)
    (hk : k < pages) (htable : k / 1024 < tables) (ho : o < 4096) :
    EarlyMap.walk m (kernBaseVirAddr + (dmaMemAddr + 4096 * k) + o) =
      some (dmaMemAddr + 4096 * k + o) := by
  have hva : kernBaseVirAddr + (dmaMemAddr + 4096 * k) + o = 2155872256 + (4096 * k + o) := by
    unfold kernBaseVirAddr dmaMemAddr mb
    omega
  rw [hva]
  have hdir : kernPageDirPhyAddr + 4 * dirIdx (2155872256 + (4096 * k + o)) =
      dirSlot (k / 1024) := by
    rw [dirSlot_eq]
    unfold kernPageDirPhyAddr dirIdx
    omega
  have hslot : tableAddr (k / 1024) + 4 * tableIdx (2155872256 + (4096 * k + o)) = pageSlot k := by
    unfold tableIdx pageSlot
    omega
  have haligned : (dmaMemAddr + 4096 * k) % 4096 = 0 := by
    unfold dmaMemAddr mb
    omega
  rw [walk_eq (tableAddr_aligned _) haligned (hdir ▸ h.dir _ htable) (hslot ▸ h.page k hk)]
  congr 2
  omega

/-- **What is promised follows** from all pages being entered. -/
theorem Progress.mapsEarly (h : Progress m m' dmaMemAddr (tableCount size) (size / 4096))
    (hsize : size ≤ 1082130432) : MapsEarly m m' (dmaMemAddr + size) := by
  have hcount : tableCount size ≤ 258 := by
    unfold tableCount
    omega
  have hdiff : dmaMemAddr + size - dmaMemAddr = size := Nat.add_sub_cancel_left _ _
  refine ⟨?_, ?_, ?_, ?_⟩
  · intro p hp hstart hend o ho
    have hdma : dmaMemAddr % 4096 = 0 := by decide
    obtain ⟨k, rfl⟩ : ∃ k, p = dmaMemAddr + 4096 * k := ⟨(p - dmaMemAddr) / 4096, by omega⟩
    have hk : k < size / 4096 := by omega
    refine h.walk hk ?_ ho
    unfold tableCount
    omega
  · intro i hi j hj hne
    rw [hdiff] at hi hj
    rw [h.tableOf_eq hi, h.tableOf_eq hj]
    unfold tableAddr
    omega
  · intro i hi
    rw [hdiff] at hi
    rw [h.tableOf_eq hi]
    constructor
    · change 0x3F5000 ≤ _
      unfold tableAddr
      omega
    · change _ ≤ 0x800000
      unfold tableAddr
      omega
  · intro a ha
    rw [hdiff]
    by_contra hnot
    push Not at hnot
    refine ha (h.frame a (fun i hi => (hnot i hi).1) ?_)
    rintro k hk rfl
    have hi : k / 1024 < tableCount size := by
      unfold tableCount
      omega
    have hout := (hnot _ hi).2
    rw [h.tableOf_eq hi] at hout
    unfold pageSlot at hout
    omega

end Map

/-! ## The boot -/

section Boot

variable {m : Ram}

theorem fillBoot_eq (rounds i : ℕ) (m : Ram) (a : ℕ) :
    fillBoot rounds i m (4096 * i) (kernPageTablePhyAddr + 4 * a) =
      if i ≤ a ∧ a < i + rounds then (4096 * a) ||| kernPageAttr
      else m (kernPageTablePhyAddr + 4 * a) := by
  induction rounds generalizing i m with
  | zero => rw [fillBoot, if_neg (by omega)]
  | succ rounds ih =>
      have hnext : 4096 * i + pageSize = 4096 * (i + 1) := rfl
      rw [fillBoot, hnext, ih]
      by_cases ha : a = i
      · subst ha
        rw [if_neg (by omega), if_pos (by omega), Function.update_self]
      · rw [Function.update_of_ne (by omega)]
        split_ifs with h1 h2 h2
        · rfl
        · omega
        · omega
        · rfl

/-- The words of the tables are not in the directory. -/
theorem setDirectory_table (m : Ram) (i : ℕ) :
    setDirectory m (kernPageTablePhyAddr + 4 * i) = m (kernPageTablePhyAddr + 4 * i) := by
  have hne : ∀ j < 1024, kernPageTablePhyAddr + 4 * i ≠ kernPageDirPhyAddr + 4 * j := by
    intro j hj
    unfold kernPageTablePhyAddr kernPageDirPhyAddr
    omega
  unfold setDirectory
  dsimp only
  rw [Function.update_of_ne (hne 1023 (by decide)), Function.update_of_ne (hne 514 (by decide)),
    Function.update_of_ne (hne 2 (by decide)), Function.update_of_ne (hne 513 (by decide)),
    Function.update_of_ne (hne 1 (by decide)), Function.update_of_ne (hne 512 (by decide)),
    Function.update_of_ne (hne 0 (by decide))]

/-- **The boot leaves the mapping of the first 8 MB.** -/
theorem bootMapped_setupPaging (m : Ram) : BootMapped (setupPaging m) := by
  refine ⟨fun t ht => ?_, fun t ht => ?_, fun i hi => ?_⟩
  · interval_cases t <;> rfl
  · interval_cases t <;> rfl
  · have hi' : i < 2048 := hi
    unfold setupPaging
    rw [setDirectory_table]
    exact (fillBoot_eq (1024 * 3) 0 _ i).trans (if_pos (by omega))

end Boot

/-- **The early mapping** of a machine with up to one gigabyte of normal memory reaches every page,
and its tables lie apart from each other behind those of the boot and below the DMA range. -/
theorem kernPageMapEarly_maps {m : Ram} (hboot : BootMapped m) {normal : ℕ}
    (hnormal : normal ≤ gb) :
    ∃ m', kernPageMapEarly m dmaMemAddr (add32 normalMemAddr normal) = some m' ∧
      MapsEarly m m' (normalMemAddr + normal) := by
  have hsize : dmaMemSize + normal ≤ 1082130432 := Nat.add_le_add_left hnormal _
  have hend : add32 normalMemAddr normal = dmaMemAddr + (dmaMemSize + normal) := by
    rw [add32_of_lt (lt_of_le_of_lt (Nat.add_le_add_left hnormal _) (by decide))]
    exact Nat.add_assoc _ _ _
  obtain ⟨m', hrun, hprog⟩ := kernPageMapEarly_progress hboot hsize
  refine ⟨m', by rw [hend, hrun], ?_⟩
  have hmaps := hprog.mapsEarly hsize
  rwa [← Nat.add_assoc] at hmaps

/-- A machine with 300 MB, after its boot. -/
theorem kernPageMapEarly_maps_300 :
    ∃ m', kernPageMapEarly (setupPaging fun _ => 0) dmaMemAddr (add32 normalMemAddr 146800640) =
      some m' ∧
      MapsEarly (setupPaging fun _ => 0) m' (normalMemAddr + 146800640) :=
  kernPageMapEarly_maps (bootMapped_setupPaging _) (by decide)

end EarlyMap
end LightOS
