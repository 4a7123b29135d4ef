import LightOS.Vmm.MemSpaceOwned

/-!
# Loading an ELF image

`proc_load_image` and `proc_load_segment` of `task/process.c`, with the checks of
the ELF header that `do_execute` in `task/exec.c` makes first.  The file is given by
what a read stores and returns; nothing else is known of it, so it may be short, it
may fail, and the bytes are whatever an attacker put there.

The model keeps a list of the writes into user memory, each with the range that the
`mem_space_mmap` before it has mapped.  Of the fields of `vmm_t` the heap's two are
kept: no function here reads the borders of code and data.

* `procLoadSegment_inside` — when the file data of one segment stay in its pages.
* `zeroFill_inside` — when the zeros behind them do.
* `procLoadImage_confined` — the loader stays inside the mapped pages, exactly if each
  segment it gets to fits (`SegFits`).
-/

namespace LightOS
namespace Elf

open Vm

/-! ## The file -/

/-- An open file: the bytes that a read of `n` bytes at an offset stores, and the
value it returns, as an `unsigned long`. -/
structure ExecFile where
  read : ℕ → ℕ → List UInt8 × ℕ
  stored_le : ∀ off n, (read off n).1.length ≤ n

/-- A file on which no read fails. -/
def ExecFile.ofBytes (bytes : List UInt8) : ExecFile where
  read := fun off n => ((bytes.drop off).take n, ((bytes.drop off).take n).length)
  stored_le := fun _ n => List.length_take_le n _

/-- `kfile_lseek` to `off` and `kfile_read`. -/
def kfileRead (f : ExecFile) (off buffer nbytes : ℕ) : List UInt8 × ℕ :=
  if nbytes = 0 ∨ buffer = 0 then ([], minusOne) else f.read off nbytes

/-- A half word at byte `i`, little endian. -/
def half (bytes : List UInt8) (i : ℕ) : ℕ :=
  (bytes.getD i 0).toNat + 256 * (bytes.getD (i + 1) 0).toNat

/-- A word at byte `i`. -/
def word (bytes : List UInt8) (i : ℕ) : ℕ := half bytes i + 65536 * half bytes (i + 2)

/-- The fields of `Elf32_Ehdr` that are looked at. -/
structure Elf32Ehdr where
  eIdent : List UInt8
  eType : ℕ
  eMachine : ℕ
  eVersion : ℕ
  ePhoff : ℕ
  ePhentsize : ℕ
  ePhnum : ℕ

/-- The fields of `Elf32_Phdr` that are looked at. -/
structure Elf32Phdr where
  pType : ℕ
  pOffset : ℕ
  pVaddr : ℕ
  pFilesz : ℕ
  pMemsz : ℕ
  pFlags : ℕ

/-- `sizeof(struct Elf32_Ehdr)`. -/
abbrev sizeofEhdr : ℕ := 52

/-- `sizeof(struct Elf32_Phdr)`. -/
abbrev sizeofPhdr : ℕ := 32

def decodeEhdr (b : List UInt8) : Elf32Ehdr where
  eIdent := b.take 16
  eType := half b 16
  eMachine := half b 18
  eVersion := word b 20
  ePhoff := word b 28
  ePhentsize := half b 42
  ePhnum := half b 44

/-- What a read leaves in a header that was cleared before. -/
def decodePhdr (b : List UInt8) : Elf32Phdr where
  pType := word b 0
  pOffset := word b 4
  pVaddr := word b 8
  pFilesz := word b 16
  pMemsz := word b 20
  pFlags := word b 24

/-- `PT_LOAD`. -/
abbrev ptLoad : ℕ := 1

/-- `ELF32_PHDR_CODE`. -/
abbrev elf32PhdrCode : ℕ := 5

/-- `ELF32_PHDR_DATA`. -/
abbrev elf32PhdrData : ℕ := 6

/-- `ELF32_PHDR_CODE_DATA`. -/
abbrev elf32PhdrCodeData : ℕ := 7

/-- The header checks of `do_execute`; `stSize` is the size `kfile_stat` reports, and
`buffer` the address of the header on the kernel's stack. -/
def doExecuteHeader (f : ExecFile) (stSize buffer : ℕ) : Option Elf32Ehdr :=
  if stSize = 0 then none
  else if (kfileRead f 0 buffer sizeofEhdr).2 ≠ sizeofEhdr then none
  else
    let hdr := decodeEhdr (kfileRead f 0 buffer sizeofEhdr).1
    if hdr.eIdent.take 7 ≠ [127, 69, 76, 70, 1, 1, 1] ∨ hdr.eType ≠ 2 ∨ hdr.eMachine ≠ 3 ∨
        hdr.eVersion ≠ 1 ∨ 1024 < hdr.ePhnum ∨ hdr.ePhentsize ≠ sizeofPhdr then none
    else some hdr

/-! ## The loader -/

/-- A write of `len` bytes from `addr` upwards, and the range `mem_space_mmap` mapped
before it. -/
structure SegWrite where
  addr : ℕ
  len : ℕ
  mapStart : ℕ
  mapLen : ℕ

/-- The address space, the range mapped last, and the writes so far. -/
structure LoadState where
  space : AddrSpace
  mapStart : ℕ
  mapLen : ℕ
  writes : List SegWrite

/-- `len` bytes are written from `addr` upwards. -/
def LoadState.write (st : LoadState) (addr len : ℕ) : LoadState :=
  { st with writes := st.writes ++ [⟨addr, len, st.mapStart, st.mapLen⟩] }

/-- `occupy_pages` of `proc_load_segment`. -/
def occupyPages (vaddr memSz : ℕ) : ℕ :=
  let sizeInFirstPage := pageSize - vaddr % pageSize
  if sizeInFirstPage < memSz then
    sub32 (add32 (memSz - sizeInFirstPage) pageSize) 1 / pageSize + 1
  else 1

/-- `occupy_pages * PAGE_SIZE`. -/
def segmentLen (vaddr memSz : ℕ) : ℕ := occupyPages vaddr memSz * pageSize % wordSize

/-- The `mem_space_mmap` of `proc_load_segment`. -/
def segmentMmap (s : AddrSpace) (vaddr memSz : ℕ) : Option (AddrSpace × ℕ) :=
  doMemSpaceMap s (pageMask vaddr) 0 (segmentLen vaddr memSz) (protUser ||| protWrite)
    memSpaceMapFixed

/-- `proc_load_segment`. -/
def procLoadSegment (f : ExecFile) (st : LoadState) (offset fileSz memSz vaddr : ℕ) :
    Option (LoadState × ℤ) :=
  match segmentMmap st.space vaddr memSz with
  | none => none
  | some (space, retaddr) =>
      if retaddr = minusOne then some ({ st with space := space }, -1)
      else
        let data := kfileRead f offset vaddr fileSz
        let mapped : LoadState :=
          { st with
            space := space
            mapStart := retaddr
            mapLen := pageAlign (segmentLen vaddr memSz) }
        some (mapped.write vaddr data.1.length, if data.2 ≠ fileSz then -1 else 0)

/-- `vmm->heap_start` and `vmm->heap_end` are set to one address. -/
def setHeap (s : AddrSpace) (brk : ℕ) : AddrSpace :=
  { s with vmm := { s.vmm with heapStart := brk, heapEnd := brk } }

/-- The end of the loop's body: where the heap goes. -/
def placeHeap (s : AddrSpace) (ph : Elf32Phdr) : AddrSpace :=
  let progEnd := add32 ph.pVaddr ph.pMemsz
  let brk := pageAlign (add32 (pageAlign progEnd) pageSize)
  let s' :=
    if ph.pFlags = elf32PhdrCode then setHeap s brk
    else if ph.pFlags = elf32PhdrData then setHeap s brk
    else if ph.pFlags = elf32PhdrCodeData then setHeap s brk
    else s
  if s'.vmm.heapStart = 0 ∧ s'.vmm.heapEnd = 0 then setHeap s' (pageAlign (add32 progEnd pageSize))
  else s'

/-- How one turn of the loop ends: it goes on, it returns, or the kernel halts. -/
inductive Turn where
  | next (st : LoadState)
  | ret (st : LoadState) (code : ℤ)
  | halt (st : LoadState)

/-- The state a turn ends in. -/
def Turn.state : Turn → LoadState
  | .next st => st
  | .ret st _ => st
  | .halt st => st

/-- The zeros behind the file data of a segment. -/
def zeroFill (st : LoadState) (ph : Elf32Phdr) : LoadState :=
  if ph.pFilesz < ph.pMemsz then
    st.write (add32 ph.pVaddr ph.pFilesz) (ph.pMemsz - ph.pFilesz)
  else st

/-- The body of the loop for a header of type `PT_LOAD`. -/
def loadSegmentTurn (f : ExecFile) (st : LoadState) (ph : Elf32Phdr) : Turn :=
  match procLoadSegment f st ph.pOffset ph.pFilesz ph.pMemsz ph.pVaddr with
  | none => .halt st
  | some (st', code) =>
      if code ≠ 0 then .ret st' (-1)
      else
        let filled := zeroFill st' ph
        .next { filled with space := placeHeap filled.space ph }

/-- The body of the loop of `proc_load_image`; `buffer` is the address of `prog_header`
on the kernel's stack. -/
def loadTurn (f : ExecFile) (phentsize buffer off : ℕ) (st : LoadState) : Turn :=
  let head := kfileRead f off buffer phentsize
  if head.2 ≠ phentsize then .ret st (-1)
  else
    let ph := decodePhdr head.1
    if ph.pType = ptLoad then loadSegmentTurn f st ph else .next st

/-- The loop of `proc_load_image`. -/
def loadLoop (f : ExecFile) (phentsize buffer : ℕ) : ℕ → ℕ → LoadState → Turn
  | 0, _, st => .ret st 0
  | phnum + 1, off, st =>
      match loadTurn f phentsize buffer off st with
      | .next st' => loadLoop f phentsize buffer phnum (add32 off phentsize) st'
      | stopped => stopped

/-- `proc_load_image`. -/
def procLoadImage (f : ExecFile) (hdr : Elf32Ehdr) (buffer : ℕ) (s : AddrSpace) : Turn :=
  loadLoop f hdr.ePhentsize buffer hdr.ePhnum hdr.ePhoff ⟨s, 0, 0, []⟩

/-- The part of `do_execute` that reads the header and loads the image, into the address
space it has emptied; `ehdr` and `phdr` are the addresses of the two headers on the kernel's
stack. -/
def doExecuteLoad (f : ExecFile) (stSize ehdr phdr : ℕ) (s : AddrSpace) : Option Turn :=
  (doExecuteHeader f stSize ehdr).map fun hdr => procLoadImage f hdr phdr s

/-! ## Confinement -/

/-- Every byte of the write lies in the range that was mapped for it. -/
def SegWrite.Inside (w : SegWrite) : Prop :=
  ∀ i < w.len, w.mapStart ≤ add32 w.addr i ∧ add32 w.addr i < w.mapStart + w.mapLen

instance (w : SegWrite) : Decidable w.Inside :=
  inferInstanceAs (Decidable (∀ i < w.len, _))

/-- All writes are inside. -/
def Confined (st : LoadState) : Prop := ∀ w ∈ st.writes, w.Inside

instance (st : LoadState) : Decidable (Confined st) :=
  inferInstanceAs (Decidable (∀ w ∈ st.writes, w.Inside))

/-- The file data that are delivered end inside the mapped pages, and if zeros follow
them, the memory size from the start of the first page on does not run past the end
of the addresses (or the file size does so too). -/
def SegFits (f : ExecFile) (ph : Elf32Phdr) : Prop :=
  let data := kfileRead f ph.pOffset ph.pVaddr ph.pFilesz
  ph.pVaddr % pageSize + data.1.length ≤ pageAlign (segmentLen ph.pVaddr ph.pMemsz) ∧
    (data.2 = ph.pFilesz → ph.pFilesz < ph.pMemsz →
      ph.pVaddr % pageSize + ph.pMemsz ≤ wordSize ∨ wordSize ≤ ph.pVaddr % pageSize + ph.pFilesz)

/-- Whether `mem_space_mmap` maps the pages of the segment. -/
def segmentMapped (s : AddrSpace) (ph : Elf32Phdr) : Bool :=
  match segmentMmap s ph.pVaddr ph.pMemsz with
  | none => false
  | some (_, retaddr) => retaddr != minusOne

/-- The segment that the header at `off` describes, if it is a `PT_LOAD` one that gets
its pages, fits into them. -/
def TurnFits (f : ExecFile) (phentsize buffer off : ℕ) (st : LoadState) : Prop :=
  let head := kfileRead f off buffer phentsize
  head.2 = phentsize → (decodePhdr head.1).pType = ptLoad →
    segmentMapped st.space (decodePhdr head.1) = true → SegFits f (decodePhdr head.1)

/-- Every segment the loop gets to fits. -/
def LoopFits (f : ExecFile) (phentsize buffer : ℕ) : ℕ → ℕ → LoadState → Prop
  | 0, _, _ => True
  | phnum + 1, off, st =>
      TurnFits f phentsize buffer off st ∧
        match loadTurn f phentsize buffer off st with
        | .next st' => LoopFits f phentsize buffer phnum (add32 off phentsize) st'
        | _ => True

/-- Every segment of the image that the loader gets to fits. -/
def ImageFits (f : ExecFile) (hdr : Elf32Ehdr) (buffer : ℕ) (s : AddrSpace) : Prop :=
  LoopFits f hdr.ePhentsize buffer hdr.ePhnum hdr.ePhoff ⟨s, 0, 0, []⟩

/-! ## The mapped pages -/

theorem half_lt (bytes : List UInt8) (i : ℕ) : half bytes i < 65536 := by
  have hlow := (bytes.getD i 0).toNat_lt
  have hhigh := (bytes.getD (i + 1) 0).toNat_lt
  unfold half
  omega

theorem word_lt (bytes : List UInt8) (i : ℕ) : word bytes i < 4294967296 := by
  have hlow := half_lt bytes i
  have hhigh := half_lt bytes (i + 2)
  unfold word
  omega

theorem occupyPages_eq (vaddr memSz : ℕ) :
    occupyPages vaddr memSz =
      if 4096 - vaddr % 4096 < memSz then
        sub32 (add32 (memSz - (4096 - vaddr % 4096)) 4096) 1 / 4096 + 1
      else 1 := rfl

/-- As long as the memory size does not run past the end of the addresses, the pages
hold all of it. -/
theorem le_segmentLen {vaddr memSz : ℕ} (hpos : pageAlign (segmentLen vaddr memSz) ≠ 0)
    (hfit : vaddr % 4096 + memSz ≤ 4294967296) :
    vaddr % 4096 + memSz ≤ pageAlign (segmentLen vaddr memSz) := by
  have hfirst : vaddr % 4096 < 4096 := Nat.mod_lt _ (by norm_num)
  unfold segmentLen wordSize pageSize pageAlign pageMask add32 at hpos ⊢
  rw [occupyPages_eq] at hpos ⊢
  unfold sub32 add32 at hpos ⊢
  split_ifs at hpos ⊢ with hmore
  · omega
  · omega

/-- Past that, the page count wraps and one page is left. -/
theorem segmentLen_of_wrap {vaddr memSz : ℕ} (hlt : memSz < 4294967296)
    (hwrap : 4294967296 < vaddr % 4096 + memSz) : pageAlign (segmentLen vaddr memSz) = 4096 := by
  have hfirst : vaddr % 4096 < 4096 := Nat.mod_lt _ (by norm_num)
  have hmore : 4096 - vaddr % 4096 < memSz := by omega
  have hone : occupyPages vaddr memSz = 1 := by
    rw [occupyPages_eq, if_pos hmore]
    unfold sub32 add32
    omega
  rw [segmentLen, hone]
  rfl

/-- A mapping that is granted starts at the page of `vaddr` and ends in the user half. -/
theorem segmentMmap_some {s s' : AddrSpace} {vaddr memSz ret : ℕ}
    (h : segmentMmap s vaddr memSz = some (s', ret)) (hret : ret ≠ minusOne) :
    ret = pageMask vaddr ∧ pageAlign (segmentLen vaddr memSz) ≠ 0 ∧
      pageMask vaddr + pageAlign (segmentLen vaddr memSz) ≤ 2147483648 := by
  unfold segmentMmap doMemSpaceMap at h
  split_ifs at h with hrefused
  · cases h
    exact absurd rfl hret
  · have hplace : ∀ place, mapPlace s (pageMask vaddr) (pageAlign (segmentLen vaddr memSz))
        memSpaceMapFixed = some place → place ≠ minusOne → place = pageMask vaddr := by
      intro place hplace hne
      have hfixed : hasFlag memSpaceMapFixed memSpaceMapFixed = true := by decide
      rw [mapPlace, if_pos hfixed, if_neg (not_not_intro (pageAligned_pageMask vaddr))] at hplace
      obtain ⟨p, -, hp⟩ := Option.map_eq_some_iff.1 hplace
      cases p with
      | none => exact hp.symm
      | some q =>
        simp only at hp
        split_ifs at hp
        · exact absurd hp.symm hne
        · exact hp.symm
    have hbounds : pageAlign (segmentLen vaddr memSz) ≠ 0 ∧
        pageMask vaddr + pageAlign (segmentLen vaddr memSz) ≤ 2147483648 := by
      unfold MapRefused userVmmSize userVmmTopAddr sub32 at hrefused
      omega
    refine ⟨?_, hbounds⟩
    cases hat : mapPlace s (pageMask vaddr) (pageAlign (segmentLen vaddr memSz)) memSpaceMapFixed
      with
    | none => simp [hat] at h
    | some place =>
      simp only [hat] at h
      split_ifs at h with hfail
      · cases h
        exact absurd rfl hret
      · rcases halloc : memSpaceAlloc s with ⟨t, _ | space⟩
        · simp only [halloc] at h
          cases h
          exact absurd rfl hret
        · simp only [halloc] at h
          split at h
          · cases h
          · obtain ⟨mm, -, hmm⟩ := Option.map_eq_some_iff.1 h
            cases hmm
            exact hplace ret hat hret

/-! ## One segment -/

/-- File data written at `vaddr` stay inside exactly if they end inside. -/
theorem fileData_inside (len : ℕ) {vaddr mapLen : ℕ} (hpos : mapLen ≠ 0)
    (haligned : mapLen % 4096 = 0) (htop : pageMask vaddr + mapLen ≤ 2147483648) :
    (SegWrite.mk vaddr len (pageMask vaddr) mapLen).Inside ↔ vaddr % 4096 + len ≤ mapLen := by
  unfold SegWrite.Inside
  unfold pageMask at htop ⊢
  constructor
  · intro hin
    by_contra hout
    -- the first byte behind the mapped pages
    have := hin (mapLen - vaddr % 4096) (by simp only; omega)
    simp only [add32] at this
    omega
  · intro hfit i hi
    simp only at hi
    simp only [add32]
    omega

/-- The zeros behind the file data stay inside exactly if the memory size does not run
past the end of the addresses, or the file size does so too. -/
theorem zeroFill_inside {vaddr fileSz memSz : ℕ} (hmem : memSz < 4294967296)
    (hless : fileSz < memSz) (hpos : pageAlign (segmentLen vaddr memSz) ≠ 0)
    (htop : pageMask vaddr + pageAlign (segmentLen vaddr memSz) ≤ 2147483648) :
    (SegWrite.mk (add32 vaddr fileSz) (memSz - fileSz) (pageMask vaddr)
        (pageAlign (segmentLen vaddr memSz))).Inside ↔
      vaddr % 4096 + memSz ≤ 4294967296 ∨ 4294967296 ≤ vaddr % 4096 + fileSz := by
  by_cases hfit : vaddr % 4096 + memSz ≤ 4294967296
  · have hle := le_segmentLen hpos hfit
    refine ⟨fun _ => Or.inl hfit, fun _ i hi => ?_⟩
    simp only at hi
    simp only [add32]
    unfold pageMask at htop ⊢
    omega
  · have hlen := segmentLen_of_wrap hmem (not_le.1 hfit)
    rw [hlen] at htop ⊢
    unfold pageMask at htop ⊢
    constructor
    · intro hin
      by_contra hout
      -- the byte just below the mapped page
      have := hin (4294967295 - (vaddr % 4096 + fileSz)) (by simp only; omega)
      simp only [add32] at this
      omega
    · rintro (h | h) i hi
      · exact absurd h hfit
      · simp only at hi
        simp only [add32]
        omega

theorem confined_write {st : LoadState} {addr len : ℕ} :
    Confined (st.write addr len) ↔
      Confined st ∧ (SegWrite.mk addr len st.mapStart st.mapLen).Inside := by
  simp [Confined, LoadState.write, or_imp, forall_and]

/-- What a `PT_LOAD` segment writes stays inside exactly if the segment fits, or gets
no pages. -/
theorem loadSegmentTurn_confined (f : ExecFile) (st : LoadState) (ph : Elf32Phdr)
    (hmem : ph.pMemsz < 4294967296) :
    Confined (loadSegmentTurn f st ph).state ↔
      Confined st ∧ (segmentMapped st.space ph = true → SegFits f ph) := by
  unfold loadSegmentTurn procLoadSegment segmentMapped
  cases hmap : segmentMmap st.space ph.pVaddr ph.pMemsz with
  | none => simp [Turn.state]
  | some mapped =>
    obtain ⟨space, retaddr⟩ := mapped
    by_cases hfail : retaddr = minusOne
    · simp [hfail, Turn.state, Confined]
    · obtain ⟨rfl, hpos, htop⟩ := segmentMmap_some hmap hfail
      have haligned : pageAlign (segmentLen ph.pVaddr ph.pMemsz) % 4096 = 0 :=
        pageAligned_pageAlign _
      have hdata := fileData_inside (kfileRead f ph.pOffset ph.pVaddr ph.pFilesz).1.length
        hpos haligned htop
      set mapped : LoadState :=
        { st with space := space, mapStart := pageMask ph.pVaddr
                  mapLen := pageAlign (segmentLen ph.pVaddr ph.pMemsz) } with hmapped
      set stored := (kfileRead f ph.pOffset ph.pVaddr ph.pFilesz).1.length with hstored
      have hwrite : Confined (mapped.write ph.pVaddr stored) ↔
          Confined st ∧ ph.pVaddr % 4096 + stored ≤ pageAlign (segmentLen ph.pVaddr ph.pMemsz) := by
        rw [confined_write, hdata]
        rfl
      simp only [hfail, if_false, bne_iff_ne, ne_eq, not_false_eq_true, forall_const, SegFits,
        pageSize, wordSize]
      by_cases hread : (kfileRead f ph.pOffset ph.pVaddr ph.pFilesz).2 = ph.pFilesz
      · by_cases hless : ph.pFilesz < ph.pMemsz
        · have hzero := zeroFill_inside hmem hless hpos htop
          have hboth : Confined ((mapped.write ph.pVaddr stored).write (add32 ph.pVaddr ph.pFilesz)
              (ph.pMemsz - ph.pFilesz)) ↔ _ := confined_write.trans (and_congr hwrite hzero)
          simp only [hread, not_true_eq_false, if_false, zeroFill, hless, if_true, Turn.state,
            forall_const, ← and_assoc]
          exact hboth
        · simp only [hread, not_true_eq_false, if_false, zeroFill, hless, Turn.state,
            forall_const, false_implies, and_true]
          exact hwrite
      · simp only [hread, not_false_eq_true, if_true, Turn.state, false_implies, and_true]
        exact hwrite

/-- One turn of the loop. -/
theorem loadTurn_confined (f : ExecFile) (phentsize buffer off : ℕ) (st : LoadState) :
    Confined (loadTurn f phentsize buffer off st).state ↔
      Confined st ∧ TurnFits f phentsize buffer off st := by
  unfold loadTurn TurnFits
  by_cases hread : (kfileRead f off buffer phentsize).2 = phentsize
  · by_cases hload : (decodePhdr (kfileRead f off buffer phentsize).1).pType = ptLoad
    · have hturn := loadSegmentTurn_confined f st (decodePhdr (kfileRead f off buffer phentsize).1)
        (word_lt _ _)
      simpa [hread, hload] using hturn
    · simp [hread, hload, Turn.state]
  · simp [hread, Turn.state]

/-! ## The image -/

/-- The loop stays inside exactly if each segment it gets to fits: by induction on the
headers left. -/
theorem loadLoop_confined (f : ExecFile) (phentsize buffer : ℕ) :
    ∀ (phnum off : ℕ) (st : LoadState),
      Confined (loadLoop f phentsize buffer phnum off st).state ↔
        Confined st ∧ LoopFits f phentsize buffer phnum off st := by
  intro phnum
  induction phnum with
  | zero => intro off st; simp [loadLoop, LoopFits, Turn.state]
  | succ phnum ih =>
    intro off st
    have hturn := loadTurn_confined f phentsize buffer off st
    rw [loadLoop, LoopFits, ← and_assoc, ← hturn]
    cases hres : loadTurn f phentsize buffer off st with
    | next st' => exact ih _ st'
    | ret st' code => simp
    | halt st' => simp

/-- **ELF loading is confined** for the files that pass the checks of `do_execute`, exactly
if every `PT_LOAD` segment the loader maps fits into its pages. -/
theorem procLoadImage_confined (f : ExecFile) (stSize ehdr phdr : ℕ) (s : AddrSpace) :
    (∀ turn, doExecuteLoad f stSize ehdr phdr s = some turn → Confined turn.state) ↔
      ∀ hdr, doExecuteHeader f stSize ehdr = some hdr → ImageFits f hdr phdr s := by
  have himage : ∀ hdr, Confined (procLoadImage f hdr phdr s).state ↔ ImageFits f hdr phdr s := by
    intro hdr
    have hstart : Confined ⟨s, 0, 0, []⟩ := by simp [Confined]
    rw [procLoadImage, loadLoop_confined, ImageFits]
    exact and_iff_right hstart
  simp only [doExecuteLoad, Option.map_eq_some_iff]
  constructor
  · intro h hdr hhdr
    exact (himage hdr).1 (h _ ⟨hdr, hhdr, rfl⟩)
  · rintro h turn ⟨hdr, hhdr, rfl⟩
    exact (himage hdr).2 (h hdr hhdr)

/-- A header word, little endian. -/
def wordBytes (w : ℕ) : List UInt8 :=
  [UInt8.ofNat w, UInt8.ofNat (w / 256), UInt8.ofNat (w / 65536), UInt8.ofNat (w / 16777216)]

/-- An ELF file with the program headers right behind its header; each segment is given by
its offset, its address and its sizes in the file and in memory. -/
def elfFile (segments : List (ℕ × ℕ × ℕ × ℕ)) (data : List UInt8) : List UInt8 :=
  [127, 69, 76, 70, 1, 1, 1, 0, 0, 0, 0, 0, 0, 0, 0, 0, 2, 0, 3, 0] ++ wordBytes 1 ++ wordBytes 0 ++
    wordBytes 52 ++ wordBytes 0 ++ wordBytes 0 ++ [52, 0, 32, 0, UInt8.ofNat segments.length, 0] ++
    [0, 0, 0, 0, 0, 0] ++
    segments.flatMap (fun g => wordBytes 1 ++ wordBytes g.1 ++ wordBytes g.2.1 ++ wordBytes 0 ++
      wordBytes g.2.2.1 ++ wordBytes g.2.2.2 ++ wordBytes 7 ++ wordBytes 4096) ++ data

/-- The second segment has two bytes in the file and one in memory, the last of its page;
the other byte is written over the first segment. -/
theorem procLoadImage_fails :
    ∃ turn, doExecuteLoad (ExecFile.ofBytes (elfFile [(116, 8192, 1, 1), (116, 8191, 2, 1)]
      [65, 66]))
        118 2147500000 2147500100 (emptySpace [some 0, some 1]) = some turn ∧
      ¬ Confined turn.state := by
  have hbad : (doExecuteLoad
      (ExecFile.ofBytes (elfFile [(116, 8192, 1, 1), (116, 8191, 2, 1)] [65, 66]))
        118 2147500000 2147500100 (emptySpace [some 0, some 1])).map
      (fun turn => decide (Confined turn.state)) = some false := by decide +kernel
  obtain ⟨turn, hturn, hout⟩ := Option.map_eq_some_iff.1 hbad
  exact ⟨turn, hturn, of_decide_eq_false hout⟩

end Elf
end LightOS
