import LightOS.Mm.MemPoolNode

/-!
# Setting up physical memory

`arch/x86/mach-i386/mm/phymem.c` divides the memory of the machine into the DMA, the
normal and the user range, and `mem_range_init` gives each range a node table from the
boot memory (`bootmem.c`).  `MemPool` keeps a node by its index; here the tables have
addresses, since `mem_node_to_phy_addr` finds the range of a node by comparing pointers.

The sizes are half of what is left of the memory, in bytes, while a range counts whole
pages only.  So everything depends on whether the half is a whole number of pages.

* `physicMemoryInit_eq` — setting up succeeds, and where the ranges and their tables lie.
* `physicMemoryInit_laidOut_iff` — the layout is sound exactly when the machine has an even
  number of pages, or so many that the normal range is cut at one gigabyte (`Halves`).
* `physicMemoryInit_odd` — one page more than 300 MB, where it is not.
-/

namespace LightOS
namespace PhysMem

open MemPool

/-! ## The model -/

/-- `MB`. -/
abbrev mb : ℕ := 1048576

/-- `GB`. -/
abbrev gb : ℕ := 1073741824

/-- `DMA_MEM_ADDR`. -/
abbrev dmaMemAddr : ℕ := 8 * mb

/-- `DMA_MEM_SIZE`. -/
abbrev dmaMemSize : ℕ := 8 * mb

/-- `NORMAL_MEM_ADDR`. -/
abbrev normalMemAddr : ℕ := dmaMemAddr + dmaMemSize

/-- `KERN_BLACKHOLE_MEM_SIZE`. -/
abbrev kernBlackholeMemSize : ℕ := 4 * mb

/-- `BOOT_MEM_ADDR`. -/
abbrev bootMemAddr : ℕ := normalMemAddr

/-- `BOOT_MEM_SIZE`. -/
abbrev bootMemSize : ℕ := 32 * mb

/-- `SIZEOF_MEM_NODE`: eight words. -/
abbrev sizeofMemNode : ℕ := 32

/-- `boot_mem_t`. -/
structure BootMem where
  startAddr : ℕ
  curAddr : ℕ
  topAddr : ℕ

/-- `boot_mem_init`. -/
def bootMemInit (start size : ℕ) : BootMem :=
  { startAddr := start, curAddr := start, topAddr := add32 start size }

/-- `boot_mem_alloc`: the allocator moves on even when it has nothing to give. -/
def bootMemAlloc (b : BootMem) (size : ℕ) : BootMem × ℕ :=
  let cur := add32 b.curAddr (pageAlign size)
  ({ b with curAddr := cur }, if b.topAddr ≤ cur then 0 else b.curAddr)

/-- The boot memory, `mem_ranges`, and the addresses of the node tables. -/
structure Memory where
  boot : BootMem
  ranges : MemRanges
  table : MemRangeIdx → ℕ

/-- `mem_range_init`; `none` is the panic for want of boot memory.  `content` is what the
boot memory holds where the tables come to lie. -/
def memRangeInitAt (content : MemRangeIdx → ℕ → MemNode) (id : MemRangeIdx) (start len : ℕ)
    (m : Memory) : Option Memory :=
  let (boot, table) := bootMemAlloc m.boot (len / pageSize * sizeofMemNode)
  if table = 0 then none
  else some
    { boot := boot
      ranges := Function.update m.ranges id (memRangeInit (content id) start len)
      table := Function.update m.table id table }

/-- `unused_size`. -/
abbrev unusedSize : ℕ := kernBlackholeMemSize + normalMemAddr

/-- `normal_size` and `user_size`, as `physic_memory_init` computes them. -/
def physicSizes (total : ℕ) : ℕ × ℕ :=
  let normal := sub32 total unusedSize / 2
  let user := sub32 (sub32 total unusedSize) normal
  if gb < normal then
    let more := sub32 normal gb
    (sub32 normal more, add32 user more)
  else (normal, user)

/-- The tables and ranges before `physic_memory_init`: static data, all zero. -/
def blankMemory (boot : BootMem) : Memory :=
  { boot := boot
    ranges := fun _ =>
      { start := 0, end_ := 0, pages := 0
        sections := fun _ => { freeList := [], nodeCount := 0, sectionSize := 0 }
        nodeTable := fun _ => memNodeInit 0 0 }
    table := fun _ => 0 }

/-- `physic_memory_init` on a machine with `total` bytes; `none` is the failed assertion or
the panic of `mem_range_init`. -/
def physicMemoryInit (content : MemRangeIdx → ℕ → MemNode) (total : ℕ) : Option Memory :=
  if total < 300 * mb then none
  else
    let (normal, user) := physicSizes total
    let m := blankMemory (bootMemInit (add32 kernBaseVirAddr bootMemAddr) bootMemSize)
    (memRangeInitAt content .dma dmaMemAddr dmaMemSize m).bind fun m =>
    (memRangeInitAt content .normal (bootMemAddr + bootMemSize) (sub32 normal bootMemSize) m).bind
      fun m =>
    memRangeInitAt content .user (add32 normalMemAddr normal) (sub32 user kernBlackholeMemSize) m

/-- The address of a node: `node_table + index`. -/
def Memory.nodePtr (m : Memory) (id : MemRangeIdx) (index : ℕ) : ℕ :=
  add32 (m.table id) (index * sizeofMemNode)

/-- `phy_addr_to_mem_node`, as an address; `none` is a panic. -/
def phyAddrToNode (m : Memory) (addr : ℕ) : Option ℕ :=
  if addr = 0 then some 0
  else (phyAddrToMemNode m.ranges addr).map fun x => m.nodePtr x.1 x.2

/-- `mem_range_get_by_mem_node`: the first range whose table the node lies in; the kernel
panics when there is none. -/
def memRangeGetByMemNode (m : Memory) (node : ℕ) : Option MemRangeIdx :=
  [MemRangeIdx.dma, .normal, .user].find? fun id =>
    decide (m.table id ≤ node ∧ node < m.nodePtr id (m.ranges id).pages)

/-- `mem_node_to_phy_addr`; `none` is a panic. -/
def memNodeToPhyAddr (m : Memory) (node : ℕ) : Option ℕ :=
  if node = 0 then some 0
  else
    (memRangeGetByMemNode m node).map fun id =>
      add32 ((node - m.table id) / sizeofMemNode * pageSize % wordSize) (m.ranges id).start

/-! ## The places of the node tables -/

/-- A layout of the ranges with the places of their node tables, one node for each whole page:
in memory, and apart from each other. -/
structure TableLayout extends PoolLayout where
  table : MemRangeIdx → ℕ
  table_pos : ∀ id, 0 < table id
  table_fits : ∀ id, table id + len id / pageSize * sizeofMemNode < wordSize
  table_apart : ∀ id id', id ≠ id' → table id + len id / pageSize * sizeofMemNode ≤ table id' ∨
    table id' + len id' / pageSize * sizeofMemNode ≤ table id

section Tables

variable (L : TableLayout) {m : Memory}

/-- The address of a node of a table, and of the one behind its last. -/
theorem TableLayout.nodePtr_eq (htable : m.table = L.table) {id : MemRangeIdx} {index : ℕ}
    (hindex : index ≤ L.len id / pageSize) :
    m.nodePtr id index = L.table id + index * sizeofMemNode := by
  have hmul := Nat.mul_le_mul_right sizeofMemNode hindex
  have hfits := L.table_fits id
  unfold Memory.nodePtr
  rw [htable]
  exact add32_of_lt ((Nat.add_le_add_left hmul _).trans_lt hfits)

/-- A node is found in the range whose table it lies in, and in no other. -/
theorem TableLayout.memRangeGetByMemNode_iff (htable : m.table = L.table)
    (hpages : ∀ id, (m.ranges id).pages = L.len id / pageSize) (id : MemRangeIdx) (node : ℕ) :
    memRangeGetByMemNode m node = some id ↔
      L.table id ≤ node ∧ node < L.table id + L.len id / pageSize * sizeofMemNode := by
  have htest : ∀ id', (m.table id' ≤ node ∧ node < m.nodePtr id' (m.ranges id').pages) ↔
      (L.table id' ≤ node ∧ node < L.table id' + L.len id' / pageSize * sizeofMemNode) := by
    intro id'
    rw [hpages id', L.nodePtr_eq htable le_rfl, htable]
  unfold memRangeGetByMemNode
  simp only [htest]
  constructor
  · intro hfind
    simpa using List.find?_some hfind
  · rintro ⟨hlo, hhi⟩
    have huniq : ∀ id', decide (L.table id' ≤ node ∧
        node < L.table id' + L.len id' / pageSize * sizeofMemNode) = decide (id' = id) := by
      intro id'
      rw [decide_eq_decide]
      refine ⟨fun hin => ?_, fun heq => heq ▸ ⟨hlo, hhi⟩⟩
      by_contra hne
      rcases L.table_apart id' id hne with hbelow | hbelow
      · omega
      · omega
    simp only [huniq]
    cases id <;> decide

end Tables

/-! ## Where the ranges lie -/

/-- The bytes of the normal range and of the boot memory in front of it: half of what is
left after the first 16 MB and the 4 MB at the top, one gigabyte at most. -/
def normalSize (total : ℕ) : ℕ := min ((total - 20971520) / 2) 1073741824

/-- Where the three ranges start: at 8 MB, at 48 MB, and after the normal range. -/
def rangeStart (total : ℕ) : MemRangeIdx → ℕ
  | .dma => 8388608
  | .normal => 50331648
  | .user => 16777216 + normalSize total

/-- How long the three ranges are. -/
def rangeLen (total : ℕ) : MemRangeIdx → ℕ
  | .dma => 8388608
  | .normal => normalSize total - 33554432
  | .user => total - 25165824 - normalSize total

/-- The number of whole pages of a range. -/
def rangePages (total : ℕ) (id : MemRangeIdx) : ℕ := rangeLen total id / 4096

/-- Where the node tables lie, one after the other in the boot memory. -/
def rangeTable (total : ℕ) : MemRangeIdx → ℕ
  | .dma => 2164260864
  | .normal => 2164326400
  | .user => 2164326400 + pageAlign (rangePages total .normal * 32)

/-- The sizes of a machine that `physic_memory_init` is for. -/
structure Accepted (total : ℕ) : Prop where
  aligned : total % 4096 = 0
  least : 314572800 ≤ total
  word : total < 4294967296

section Layout

variable {total : ℕ}

theorem normalSize_le (total : ℕ) : normalSize total ≤ 1073741824 := min_le_right _ _

theorem normalSize_two_le (total : ℕ) : 2 * normalSize total ≤ total - 20971520 := by
  have := min_le_left ((total - 20971520) / 2) 1073741824
  unfold normalSize
  omega

theorem le_normalSize (h : Accepted total) : 146800640 ≤ normalSize total := by
  have hleast := h.least
  apply le_min
  · omega
  · omega

/-- The 32-bit arithmetic of the division does not run over. -/
theorem physicSizes_eq (h : Accepted total) :
    physicSizes total = (normalSize total, total - 20971520 - normalSize total) := by
  have hleast := h.least
  have hword := h.word
  unfold physicSizes normalSize
  rw [show sub32 total unusedSize = total - 20971520 from sub32_of_le (by norm_num; omega) hword]
  obtain ⟨rest, hrest⟩ : ∃ rest, total - 20971520 = rest := ⟨_, rfl⟩
  have hlt : rest < 4294967296 := by omega
  have hhalf : sub32 rest (rest / 2) = rest - rest / 2 := sub32_of_le (by omega) hlt
  simp only [hrest, hhalf]
  split_ifs with hcut
  · have hle : (1073741824 : ℕ) ≤ rest / 2 := hcut.le
    have hmore : sub32 (rest / 2) gb = rest / 2 - 1073741824 := sub32_of_le hle (by omega)
    have hnormal : sub32 (rest / 2) (rest / 2 - 1073741824) = 1073741824 := by
      rw [sub32_of_le (by omega) (by omega)]
      omega
    have huser : add32 (rest - rest / 2) (rest / 2 - 1073741824) = rest - 1073741824 := by
      rw [add32_of_lt (by omega)]
      omega
    rw [hmore, hnormal, huser, min_eq_right hle]
  · have hle : rest / 2 ≤ 1073741824 := not_lt.1 hcut
    rw [min_eq_left hle]

theorem rangeEnd_dma (total : ℕ) : rangeStart total .dma + rangeLen total .dma = 16777216 := by
  rw [show rangeStart total .dma = 8388608 from rfl, show rangeLen total .dma = 8388608 from rfl]

theorem rangeEnd_normal (h : Accepted total) :
    rangeStart total .normal + rangeLen total .normal = 16777216 + normalSize total := by
  have := le_normalSize h
  rw [show rangeStart total .normal = 50331648 from rfl,
    show rangeLen total .normal = normalSize total - 33554432 from rfl]
  omega

theorem rangeEnd_user (h : Accepted total) :
    rangeStart total .user + rangeLen total .user = total - 8388608 := by
  have := normalSize_two_le total
  have := le_normalSize h
  rw [show rangeStart total .user = 16777216 + normalSize total from rfl,
    show rangeLen total .user = total - 25165824 - normalSize total from rfl]
  omega

/-- The layout, as the page pool wants it. -/
def physLayout (h : Accepted total) : PoolLayout where
  start := rangeStart total
  len := rangeLen total
  start_pos := by
    intro id
    cases id <;> simp [rangeStart]
  fits := by
    intro id
    have hword := h.word
    have hle := normalSize_le total
    have hdma := rangeEnd_dma total
    have hnormal := rangeEnd_normal h
    have huser := rangeEnd_user h
    rw [wordSize]
    cases id with
    | dma => omega
    | normal => omega
    | user => omega
  apart := by
    have hle := le_normalSize h
    have hend := rangeEnd_normal h
    have hdma := rangeEnd_dma total
    have hnormal : rangeStart total .normal = 50331648 := rfl
    have huser : rangeStart total .user = 16777216 + normalSize total := rfl
    intro id id' hne
    cases id <;> cases id' <;> first | exact absurd rfl hne | omega

theorem ranges_apply (h : Accepted total) (content : MemRangeIdx → ℕ → MemNode) (id : MemRangeIdx) :
    (physLayout h).ranges content id =
      memRangeInit (content id) (rangeStart total id) (rangeLen total id) := rfl

/-! ## Setting up -/

theorem pageAlign_le {v : ℕ} (h : v + 4095 < 4294967296) : pageAlign v ≤ v + 4095 := by
  unfold pageAlign
  rw [add32_of_lt h]
  exact pageMask_le _

/-- The boot memory gives what it has room for. -/
theorem bootMemAlloc_eq {b : BootMem} {size : ℕ} (hroom : b.curAddr + pageAlign size < b.topAddr)
    (htop : b.topAddr ≤ 4294967296) :
    bootMemAlloc b size = ({ b with curAddr := b.curAddr + pageAlign size }, b.curAddr) := by
  unfold bootMemAlloc
  simp only [add32_of_lt (hroom.trans_le htop), if_neg (not_le.2 hroom)]

/-- A range whose table fits into the boot memory is set up. -/
theorem memRangeInitAt_eq (content : MemRangeIdx → ℕ → MemNode) (id : MemRangeIdx) {start len : ℕ}
    {first cur : ℕ} {ranges : MemRanges} {table : MemRangeIdx → ℕ}
    (hroom : cur + pageAlign (len / 4096 * 32) < 2197815296) (hpos : 0 < cur) :
    memRangeInitAt content id start len ⟨⟨first, cur, 2197815296⟩, ranges, table⟩ = some
      ⟨⟨first, cur + pageAlign (len / 4096 * 32), 2197815296⟩,
        Function.update ranges id (memRangeInit (content id) start len),
        Function.update table id cur⟩ := by
  unfold memRangeInitAt
  rw [bootMemAlloc_eq hroom (show 2197815296 ≤ 4294967296 by decide)]
  exact if_neg hpos.ne'

/-- The node tables of all three ranges fit into the boot memory. -/
theorem tables_fit (h : Accepted total) :
    rangeTable total .user + pageAlign (rangePages total .user * 32) < 2197815296 := by
  have hword := h.word
  have hle := normalSize_le total
  have hend := rangeEnd_normal h
  have huser := rangeEnd_user h
  have hnormal : rangeStart total .normal = 50331648 := rfl
  have hstart : rangeStart total .user = 16777216 + normalSize total := rfl
  have h1 : rangePages total .normal * 32 ≤ rangeLen total .normal / 128 := by
    unfold rangePages
    omega
  have h2 : rangePages total .user * 32 ≤ rangeLen total .user / 128 := by
    unfold rangePages
    omega
  have h3 := pageAlign_le (v := rangePages total .normal * 32) (by omega)
  have h4 := pageAlign_le (v := rangePages total .user * 32) (by omega)
  have htable : rangeTable total .user = 2164326400 + pageAlign (rangePages total .normal * 32) :=
    rfl
  omega

theorem pageAlign_dmaTable (total : ℕ) : pageAlign (rangeLen total .dma / 4096 * 32) = 65536 := by
  rw [show rangeLen total .dma = 8388608 from rfl]
  decide

theorem bootMemory : blankMemory (bootMemInit (add32 kernBaseVirAddr bootMemAddr) bootMemSize) =
    ⟨⟨2164260864, 2164260864, 2197815296⟩, (blankMemory ⟨0, 0, 0⟩).ranges, fun _ => 0⟩ := by
  have hstart : add32 kernBaseVirAddr bootMemAddr = 2164260864 := by decide
  have htop : add32 2164260864 bootMemSize = 2197815296 := by decide
  unfold blankMemory bootMemInit
  rw [hstart, htop]

/-- The sizes handed to `mem_range_init`. -/
theorem rangeSizes_eq (h : Accepted total) :
    sub32 (normalSize total) bootMemSize = rangeLen total .normal ∧
      add32 normalMemAddr (normalSize total) = rangeStart total .user ∧
      sub32 (total - 20971520 - normalSize total) kernBlackholeMemSize = rangeLen total .user := by
  have hword := h.word
  have hle := le_normalSize h
  have htwo := normalSize_two_le total
  refine ⟨?_, ?_, ?_⟩
  · rw [show bootMemSize = 33554432 by norm_num, sub32_of_le (by omega) (by omega)]
    rfl
  · rw [show normalMemAddr = 16777216 by norm_num, add32_of_lt (by omega)]
    rfl
  · rw [show kernBlackholeMemSize = 4194304 by norm_num, sub32_of_le (by omega) (by omega),
      show rangeLen total .user = total - 25165824 - normalSize total from rfl]
    omega

/-- **Setting up succeeds** on every machine it is for, and this is where everything lies. -/
theorem physicMemoryInit_eq (content : MemRangeIdx → ℕ → MemNode) (h : Accepted total) :
    ∃ m, physicMemoryInit content total = some m ∧ m.ranges = (physLayout h).ranges content ∧
      m.table = rangeTable total := by
  have hleast := h.least
  have hfit := tables_fit h
  have htable : rangeTable total .user = 2164326400 + pageAlign (rangePages total .normal * 32) :=
    rfl
  have hdma : dmaMemAddr = rangeStart total .dma := by norm_num [rangeStart]
  have hdmaLen : dmaMemSize = rangeLen total .dma := by
    rw [show rangeLen total .dma = 8388608 from rfl]
    norm_num
  have hnormal : bootMemAddr + bootMemSize = rangeStart total .normal := by norm_num [rangeStart]
  obtain ⟨hnormalLen, huser, huserLen⟩ := rangeSizes_eq h
  unfold physicMemoryInit
  rw [if_neg (by norm_num; omega), physicSizes_eq h]
  simp only [hnormalLen, huser, huserLen, bootMemory]
  rw [hdma, hdmaLen, hnormal]
  -- the tables are handed out one after the other
  rw [memRangeInitAt_eq content .dma (by rw [pageAlign_dmaTable]; decide) (by decide),
    Option.bind_some, pageAlign_dmaTable,
    memRangeInitAt_eq content .normal (by unfold rangePages at *; omega) (by decide),
    Option.bind_some,
    memRangeInitAt_eq content .user (by unfold rangePages at *; omega) (by omega)]
  refine ⟨_, rfl, ?_, ?_⟩
  · funext id
    rw [ranges_apply]
    cases id <;> simp [Function.update]
  · funext id
    cases id with
    | dma => rfl
    | normal => rfl
    | user => rfl

/-! ## Nodes and addresses -/

/-- The tables, which are as long as their ranges have pages, lie one after the other. -/
theorem rangeTable_le (h : Accepted total) :
    rangeTable total .dma + rangePages total .dma * 32 ≤ rangeTable total .normal ∧
      rangeTable total .normal + rangePages total .normal * 32 ≤ rangeTable total .user ∧
      rangeTable total .user + rangePages total .user * 32 < 4294967296 := by
  have hword := h.word
  have hle := normalSize_le total
  have hend := rangeEnd_normal h
  have huser := rangeEnd_user h
  have hfit := tables_fit h
  have hdma := pageAlign_dmaTable total
  have hn : rangePages total .normal * 32 + 4095 < 4294967296 := by
    unfold rangePages
    omega
  have hu : rangePages total .user * 32 + 4095 < 4294967296 := by
    unfold rangePages
    omega
  have h1 := le_pageAlign (v := rangePages total .normal * 32) (by omega)
  have h2 := le_pageAlign (v := rangePages total .user * 32) (by omega)
  have hfirst : rangePages total .dma * 32 = 65536 := by
    rw [rangePages, show rangeLen total .dma = 8388608 from rfl]
  have t0 : rangeTable total .dma = 2164260864 := rfl
  have t1 : rangeTable total .normal = 2164326400 := rfl
  have t2 : rangeTable total .user = 2164326400 + pageAlign (rangePages total .normal * 32) := rfl
  refine ⟨?_, ?_, ?_⟩ <;> omega

/-- The layout with its tables. -/
def physTables (h : Accepted total) : TableLayout where
  toPoolLayout := physLayout h
  table := rangeTable total
  table_pos := by
    intro id
    cases id <;> simp [rangeTable]
  table_fits := by
    obtain ⟨h0, h1, h2⟩ := rangeTable_le h
    intro id
    change rangeTable total id + rangePages total id * 32 < 4294967296
    cases id <;> omega
  table_apart := by
    obtain ⟨h0, h1, h2⟩ := rangeTable_le h
    intro id id' hne
    change rangeTable total id + rangePages total id * 32 ≤ rangeTable total id' ∨
      rangeTable total id' + rangePages total id' * 32 ≤ rangeTable total id
    cases id <;> cases id' <;> first | exact absurd rfl hne | omega

/-- The address of a node of a table. -/
theorem nodePtr_eq (h : Accepted total) {m : Memory} (htable : m.table = rangeTable total)
    {id : MemRangeIdx} {index : ℕ} (hindex : index ≤ rangePages total id) :
    m.nodePtr id index = rangeTable total id + index * 32 :=
  (physTables h).nodePtr_eq htable hindex

/-- A node is found in the range whose table it lies in. -/
theorem memRangeGetByMemNode_eq (h : Accepted total) {m : Memory}
    (htable : m.table = rangeTable total)
    (hpages : ∀ id, (m.ranges id).pages = rangePages total id) (id : MemRangeIdx) (node : ℕ)
    (hlo : rangeTable total id ≤ node) (hhi : node <
      rangeTable total id + rangePages total id * 32) :
    memRangeGetByMemNode m node = some id :=
  ((physTables h).memRangeGetByMemNode_iff htable hpages id node).2 ⟨hlo, hhi⟩

/-- What `physic_memory_init` is to set up. -/
structure LaidOut (total : ℕ) (m : Memory) : Prop where
  aligned : ∀ id, PageAligned (m.ranges id).start
  apart : ∀ id id', id ≠ id' →
    (m.ranges id).end_ ≤ (m.ranges id').start ∨ (m.ranges id').end_ ≤ (m.ranges id).start
  boot : ∀ id, (m.ranges id).end_ ≤ bootMemAddr ∨ bootMemAddr + bootMemSize ≤ (m.ranges id).start
  inside : ∀ id, (m.ranges id).end_ ≤ total
  node : ∀ id addr, (m.ranges id).start ≤ addr → addr < (m.ranges id).end_ →
    ∃ node, phyAddrToNode m addr = some node ∧ m.table id ≤ node ∧
      node < m.table id + (m.ranges id).pages * sizeofMemNode ∧
      memNodeToPhyAddr m node = some (pageMask addr)

/-- When the half is a whole number of pages, so are all starts and lengths. -/
theorem rangeStart_aligned (h : Accepted total) (heven : normalSize total % 4096 = 0)
    (id : MemRangeIdx) : rangeStart total id % 4096 = 0 ∧ rangeLen total id % 4096 = 0 := by
  have haligned := h.aligned
  have hle := le_normalSize h
  have htwo := normalSize_two_le total
  have h0 : rangeStart total .dma = 8388608 := rfl
  have h1 : rangeStart total .normal = 50331648 := rfl
  have h2 : rangeStart total .user = 16777216 + normalSize total := rfl
  have h3 : rangeLen total .dma = 8388608 := rfl
  have h4 : rangeLen total .normal = normalSize total - 33554432 := rfl
  have h5 : rangeLen total .user = total - 25165824 - normalSize total := rfl
  cases id <;> omega

/-- The node of an address, in a range of whole pages. -/
theorem node_spec (h : Accepted total) {content : MemRangeIdx → ℕ → MemNode} {m : Memory}
    (hranges : m.ranges = (physLayout h).ranges content) (htable : m.table = rangeTable total)
    {id : MemRangeIdx} (hstart : rangeStart total id % 4096 = 0)
    (hlen : rangeLen total id % 4096 = 0) {addr : ℕ} (hlo : rangeStart total id ≤ addr)
    (hhi : addr < rangeStart total id + rangeLen total id) :
    ∃ node, phyAddrToNode m addr = some node ∧ m.table id ≤ node ∧
      node < m.table id + (m.ranges id).pages * sizeofMemNode ∧
      memNodeToPhyAddr m node = some (pageMask addr) := by
  have hinv := poolInv_init (physLayout h) content
  have hplace : ∀ id, (m.ranges id).start = rangeStart total id ∧
      (m.ranges id).end_ = rangeStart total id + rangeLen total id ∧
      (m.ranges id).pages = rangePages total id := by
    intro id
    rw [hranges]
    exact ⟨(hinv id).2.1, (hinv id).2.2.1, (hinv id).2.2.2⟩
  have hget : memRangeGetByPhyAddr m.ranges addr = some id :=
    memRangeGetByPhyAddr_eq (L := physLayout h) (fun id => (hplace id).1)
      (fun id => (hplace id).2.1) hlo hhi
  -- the index computed from the address, and its node
  obtain ⟨index, hindex⟩ : ∃ index, (addr - rangeStart total id) / 4096 = index := ⟨_, rfl⟩
  have hlt : index < rangePages total id := by
    unfold rangePages
    omega
  have hnode : phyAddrToNode m addr = some (rangeTable total id + index * 32) := by
    have hpos : addr ≠ 0 := by
      have := (physLayout h).start_pos id
      have : (physLayout h).start id = rangeStart total id := rfl
      omega
    unfold phyAddrToNode phyAddrToMemNode
    rw [if_neg hpos, if_neg hpos, hget, Option.map_some, Option.map_some, MemRange.nodeOf,
      (hplace id).1, hindex, nodePtr_eq h htable hlt.le]
  refine ⟨_, hnode, ?_, ?_, ?_⟩
  · rw [htable]
    omega
  · have hmul : index * 32 < rangePages total id * 32 := Nat.mul_lt_mul_of_pos_right hlt (by decide)
    rw [htable, (hplace id).2.2]
    exact Nat.add_lt_add_left hmul _
  · have hfind := memRangeGetByMemNode_eq h htable (fun id => (hplace id).2.2) id
      (rangeTable total id + index * 32) (by omega) (by omega)
    have hpos : rangeTable total id + index * 32 ≠ 0 := by
      cases id <;> simp [rangeTable]
    have hfits : rangeStart total id + rangeLen total id ≤ 4294967296 := (physLayout h).fits id
    have hbase : (rangeTable total id + index * 32 - rangeTable total id) / sizeofMemNode =
        index := by
      rw [Nat.add_sub_cancel_left, Nat.mul_div_cancel _ (by decide)]
    have hback : index * 4096 + rangeStart total id = pageMask addr := by
      unfold pageMask
      omega
    unfold memNodeToPhyAddr
    rw [if_neg hpos, hfind, Option.map_some, htable, (hplace id).1, hbase]
    have hlocal : index * pageSize % wordSize = index * 4096 :=
      Nat.mod_eq_of_lt (by norm_num; omega)
    rw [hlocal, add32_of_lt (by omega), hback]

/-- The machine has an even number of pages, or so many that the normal range is cut at one
gigabyte. -/
def Halves (total : ℕ) : Prop := total / 4096 % 2 = 0 ∨ 1073741824 < (total - 20971520) / 2

instance (total : ℕ) : Decidable (Halves total) := inferInstanceAs (Decidable (_ ∨ _))

theorem normalSize_whole_iff (h : Accepted total) : normalSize total % 4096 = 0 ↔ Halves total := by
  have haligned := h.aligned
  have hleast := h.least
  unfold Halves
  rcases Nat.lt_or_ge 1073741824 ((total - 20971520) / 2) with hcut | hcut
  · rw [show normalSize total = 1073741824 from min_eq_right hcut.le]
    simp [hcut]
  · rw [show normalSize total = (total - 20971520) / 2 from min_eq_left hcut]
    omega

/-- With halves of whole pages everything is in order. -/
theorem laidOut_of_halves (h : Accepted total) (hhalves : Halves total)
    {content : MemRangeIdx → ℕ → MemNode} {m : Memory}
    (hranges : m.ranges = (physLayout h).ranges content) (htable : m.table = rangeTable total) :
    LaidOut total m := by
  have heven := (normalSize_whole_iff h).2 hhalves
  have hinv := poolInv_init (physLayout h) content
  have hplace : ∀ id, (m.ranges id).start = rangeStart total id ∧
      (m.ranges id).end_ = rangeStart total id + rangeLen total id := by
    intro id
    rw [hranges]
    exact ⟨(hinv id).2.1, (hinv id).2.2.1⟩
  refine ⟨?_, ?_, ?_, ?_, ?_⟩
  · intro id
    rw [(hplace id).1]
    exact (rangeStart_aligned h heven id).1
  · intro id id' hne
    rw [(hplace id).1, (hplace id).2, (hplace id').1, (hplace id').2]
    exact (physLayout h).apart id id' hne
  · intro id
    rw [(hplace id).1, (hplace id).2, show bootMemAddr = 16777216 by norm_num,
      show bootMemSize = 33554432 by norm_num]
    cases id with
    | dma =>
        left
        exact (rangeEnd_dma total).le
    | normal =>
        right
        exact le_refl 50331648
    | user =>
        right
        have hle := le_normalSize h
        rw [show rangeStart total .user = 16777216 + normalSize total from rfl]
        omega
  · intro id
    have hleast := h.least
    have hle := normalSize_two_le total
    have hdma := rangeEnd_dma total
    have hnormal := rangeEnd_normal h
    have huser := rangeEnd_user h
    rw [(hplace id).2]
    cases id <;> omega
  · intro id addr hlo hhi
    rw [(hplace id).1] at hlo
    rw [(hplace id).2] at hhi
    obtain ⟨hs, hl⟩ := rangeStart_aligned h heven id
    exact node_spec h hranges htable hs hl hlo hhi

/-- The user range starts where the half ends. -/
theorem halves_of_laidOut (h : Accepted total) {content : MemRangeIdx → ℕ → MemNode} {m : Memory}
    (hrun : physicMemoryInit content total = some m) (hlaid : LaidOut total m) : Halves total := by
  obtain ⟨m', hrun', hranges, -⟩ := physicMemoryInit_eq content h
  rw [hrun] at hrun'
  cases hrun'
  have hstart : (m.ranges .user).start = 16777216 + normalSize total := by
    rw [hranges]
    exact (poolInv_init (physLayout h) content .user).2.1
  have huser := hlaid.aligned .user
  rw [hstart, PageAligned] at huser
  apply (normalSize_whole_iff h).1
  omega

/-- **The layout is sound exactly when the half is a whole number of pages.** -/
theorem physicMemoryInit_laidOut_iff (content : MemRangeIdx → ℕ → MemNode) (h : Accepted total) :
    (∃ m, physicMemoryInit content total = some m ∧ LaidOut total m) ↔ Halves total := by
  constructor
  · rintro ⟨m, hrun, hlaid⟩
    exact halves_of_laidOut h hrun hlaid
  · intro hhalves
    obtain ⟨m, hrun, hranges, htable⟩ := physicMemoryInit_eq content h
    exact ⟨m, hrun, laidOut_of_halves h hhalves hranges htable⟩

end Layout

/-- On a machine of 512 MB the layout is sound. -/
theorem physicMemoryInit_laidOut_512mb :
    Accepted 536870912 ∧ Halves 536870912 ∧
      ∃ m, physicMemoryInit (fun _ _ => memNodeInit 0 0) 536870912 = some m ∧
        LaidOut 536870912 m := by
  have h : Accepted 536870912 := ⟨by decide, by decide, by decide⟩
  have hhalves : Halves 536870912 := by decide
  exact ⟨h, hhalves, (physicMemoryInit_laidOut_iff _ h).2 hhalves⟩

/-- With one page more than 300 MB the user range starts in the middle of a page. -/
theorem physicMemoryInit_odd :
    ¬ ∀ total, Accepted total → ∀ content, ∃ m, physicMemoryInit content total = some m ∧
      LaidOut total m := by
  intro hall
  have h : Accepted 314576896 := ⟨by decide, by decide, by decide⟩
  obtain ⟨m, hrun, hlaid⟩ := hall 314576896 h fun _ _ => memNodeInit 0 0
  have hhalves := halves_of_laidOut h hrun hlaid
  revert hhalves
  decide

end PhysMem
end LightOS
