import LightOS.Task.ElfLoad

/-!
# Where the heap starts

`proc_load_image` places the heap anew for every segment with the flags of code, of data or of
both, and for the first segment of all; the segment that does so last decides, not the one that
ends last.

* `loadLoop_heap` — the heap after the loop, as a fold over the `PT_LOAD` headers.
* `heapRun_eq` — the fold is the place behind the segment that decides.
* `procLoadImage_heapAbove_iff` — the heap is above the image if and only if no segment ends more
  than a page above the page in which the deciding one ends.
-/

namespace LightOS
namespace Elf

open Vm

/-! ## The segments of the image -/

/-- Where the segment ends in memory. -/
def Elf32Phdr.segEnd (ph : Elf32Phdr) : ℕ := ph.pVaddr + ph.pMemsz

/-- The flags are those of code, of data, or of both. -/
def Elf32Phdr.KnownFlags (ph : Elf32Phdr) : Prop :=
  ph.pFlags = elf32PhdrCode ∨ ph.pFlags = elf32PhdrData ∨ ph.pFlags = elf32PhdrCodeData

instance (ph : Elf32Phdr) : Decidable ph.KnownFlags := inferInstanceAs (Decidable (_ ∨ _))

/-- The `PT_LOAD` headers among `phnum` ones from `off` on. -/
def loadHeaders (f : ExecFile) (phentsize buffer : ℕ) : ℕ → ℕ → List Elf32Phdr
  | 0, _ => []
  | phnum + 1, off =>
      let ph := decodePhdr (kfileRead f off buffer phentsize).1
      let later := loadHeaders f phentsize buffer phnum (add32 off phentsize)
      if ph.pType = ptLoad then ph :: later else later

/-- The `PT_LOAD` headers of the image. -/
def imageSegments (f : ExecFile) (hdr : Elf32Ehdr) (buffer : ℕ) : List Elf32Phdr :=
  loadHeaders f hdr.ePhentsize buffer hdr.ePhnum hdr.ePhoff

/-- The heap of the process is above the image. -/
structure HeapAbove (segments : List Elf32Phdr) (vmm : Vmm) : Prop where
  aligned : PageAligned vmm.heapStart
  empty : vmm.heapStart = vmm.heapEnd
  above : ∀ ph ∈ segments, ph.segEnd ≤ vmm.heapStart

/-- The segment that decides where the heap is: the last one with the flags of code or data, or the
first one if none has them. -/
def heapSegment (segments : List Elf32Phdr) : Option Elf32Phdr :=
  (segments.reverse.find? fun ph => decide ph.KnownFlags).or segments.head?

/-- No segment runs past the end of the addresses, or ends more than a page above the page in which
the deciding one ends. -/
def EndsBelow (segments : List Elf32Phdr) : Prop :=
  ∀ g ∈ heapSegment segments, ∀ ph ∈ segments,
    ph.segEnd ≤ wordSize ∧ ph.segEnd ≤ (g.segEnd + 4095) / 4096 * 4096 + pageSize

instance (segments : List Elf32Phdr) : Decidable (EndsBelow segments) :=
  Option.decidableForallMem (heapSegment segments)

/-! ## The place of the heap -/

/-- Where the heap is placed for a segment. -/
def heapPlace (ph : Elf32Phdr) : ℕ :=
  pageAlign (add32 (pageAlign (add32 ph.pVaddr ph.pMemsz)) pageSize)

/-- What one segment does to the place of the heap, 0 if there is none. -/
def heapTurn (brk : ℕ) (ph : Elf32Phdr) : ℕ := if ph.KnownFlags ∨ brk = 0 then heapPlace ph else brk

/-- What is known of a segment that has got its pages. -/
structure Mapped (ph : Elf32Phdr) : Prop where
  vaddr : ph.pVaddr < 2147483648
  memsz : ph.pMemsz < 4294967296
  fits : ph.segEnd ≤ 2147483648 ∨ 4294967296 < ph.segEnd

section Place

variable {ph : Elf32Phdr} {s : AddrSpace}

theorem Mapped.heapPlace_eq (h : Mapped ph) :
    heapPlace ph = (add32 ph.pVaddr ph.pMemsz + 4095) / 4096 * 4096 + 4096 ∧
      heapPlace ph ≤ 2147487744 := by
  obtain ⟨hvaddr, hmemsz, hfits⟩ := h
  unfold heapPlace Elf32Phdr.segEnd pageAlign pageMask add32 pageSize at *
  omega

theorem Mapped.heapPlace_ne_zero (h : Mapped ph) : heapPlace ph ≠ 0 := by
  rw [h.heapPlace_eq.1]
  omega

theorem pageAligned_heapPlace (ph : Elf32Phdr) : PageAligned (heapPlace ph) :=
  pageAligned_pageAlign _

theorem Mapped.fallback (h : Mapped ph) :
    pageAlign (add32 (add32 ph.pVaddr ph.pMemsz) pageSize) = heapPlace ph := by
  obtain ⟨hvaddr, hmemsz, hfits⟩ := h
  unfold heapPlace Elf32Phdr.segEnd pageAlign pageMask add32 pageSize at *
  omega

/-- The three branches for the flags do the same. -/
theorem placeHeap_eq (s : AddrSpace) (ph : Elf32Phdr) :
    placeHeap s ph =
      let s' := if ph.KnownFlags then setHeap s (heapPlace ph) else s
      if s'.vmm.heapStart = 0 ∧ s'.vmm.heapEnd = 0 then
        setHeap s' (pageAlign (add32 (add32 ph.pVaddr ph.pMemsz) pageSize))
      else s' := by
  have hflags : ∀ placed : AddrSpace,
      (if ph.pFlags = elf32PhdrCode then placed else if ph.pFlags = elf32PhdrData then placed
        else if ph.pFlags = elf32PhdrCodeData then placed else s) = if ph.KnownFlags then
          placed else s := by
    intro placed
    by_cases hknown : ph.KnownFlags
    · rw [if_pos hknown]
      rcases hknown with h | h | h <;> simp [h]
    · obtain ⟨hcode, hrest⟩ := not_or.1 hknown
      obtain ⟨hdata, hboth⟩ := not_or.1 hrest
      rw [if_neg hknown, if_neg hcode, if_neg hdata, if_neg hboth]
  unfold placeHeap
  simp only [hflags]
  rfl

/-- The heap after one segment. -/
theorem placeHeap_heap (h : Mapped ph) (hempty : s.vmm.heapStart = s.vmm.heapEnd) :
    (placeHeap s ph).vmm.heapStart = heapTurn s.vmm.heapStart ph ∧
      (placeHeap s ph).vmm.heapEnd = heapTurn s.vmm.heapStart ph := by
  rw [placeHeap_eq, heapTurn, h.fallback]
  by_cases hknown : ph.KnownFlags
  · have hplaced : ¬ ((setHeap s (heapPlace ph)).vmm.heapStart = 0 ∧
      (setHeap s (heapPlace ph)).vmm.heapEnd = 0) :=
      fun hzero => h.heapPlace_ne_zero hzero.1
    simp only [if_pos hknown, if_neg hplaced,
      if_pos (Or.inl hknown : ph.KnownFlags ∨ s.vmm.heapStart = 0)]
    exact ⟨rfl, rfl⟩
  · simp only [if_neg hknown, or_iff_right hknown, ← hempty, and_self]
    by_cases hzero : s.vmm.heapStart = 0
    · rw [if_pos hzero, if_pos hzero]
      exact ⟨rfl, rfl⟩
    · rw [if_neg hzero, if_neg hzero]
      exact ⟨rfl, hempty.symm⟩

end Place

/-! ## The mapping of a segment leaves the heap alone -/

section Frame

variable {s s' : AddrSpace} {x : RecPtr}

theorem frame_mergePrev (s : AddrSpace) (prev : Option RecPtr) (x : RecPtr) (p : Option RecPtr) :
    Frame s (mergePrev s prev x p).1 := by
  unfold mergePrev
  cases prev with
  | none => exact Frame.refl s
  | some q =>
      simp only
      split_ifs
      · exact (frame_modify s q _).trans (frame_free _ x)
      · exact Frame.refl s

theorem frame_mergeNext (s : AddrSpace) (x : RecPtr) (p : Option RecPtr) :
    Frame s (mergeNext s x p) := by
  unfold mergeNext
  cases p with
  | none => exact Frame.refl s
  | some q =>
      simp only
      split_ifs
      · exact (frame_modify s x _).trans (frame_free _ x)
      · exact Frame.refl s

/-- `mem_space_insert` touches the list alone. -/
theorem frame_memSpaceInsert (h : memSpaceInsert s x = some s') : Frame s s' := by
  unfold memSpaceInsert at h
  split at h
  · cases h
  · rename_i prev p _
    have hlink := frame_linkSpace s prev x p
    simp only at h
    split_ifs at h
    · cases h
      exact hlink
    · cases h
      exact (hlink.trans (frame_mergePrev _ prev x p)).trans (frame_mergeNext _ _ p)

/-- So does the mapping, but for the page tables. -/
theorem doMemSpaceMap_vmm {addr paddr len prot flags ret : ℕ}
    (h : doMemSpaceMap s addr paddr len prot flags = some (s', ret)) :
    s'.vmm.heapStart = s.vmm.heapStart ∧ s'.vmm.heapEnd = s.vmm.heapEnd := by
  unfold doMemSpaceMap at h
  split_ifs at h with hrefused
  · cases h
    exact ⟨rfl, rfl⟩
  · split at h
    · cases h
    · rename_i place _
      split_ifs at h
      · cases h
        exact ⟨rfl, rfl⟩
      · have halloc := frame_alloc s
        split at h
        · rename_i t heq
          rw [heq] at halloc
          cases h
          exact ⟨halloc.heapStart, halloc.heapEnd⟩
        · rename_i t y heq
          rw [heq] at halloc
          simp only at h
          split at h
          · cases h
          · rename_i u hins
            obtain ⟨mm, -, hmm⟩ := Option.map_eq_some_iff.1 h
            cases hmm
            have hall := (halloc.trans (frame_modify t y _)).trans (frame_memSpaceInsert hins)
            exact ⟨hall.heapStart, hall.heapEnd⟩

end Frame

/-! ## The loop -/

section Loop

variable {f : ExecFile} {phentsize buffer : ℕ} {st st' : LoadState} {ph : Elf32Phdr}

theorem zeroFill_space (st : LoadState) (ph : Elf32Phdr) : (zeroFill st ph).space = st.space := by
  unfold zeroFill
  split_ifs <;> rfl

/-- A segment that is loaded has got its pages, and places the heap. -/
theorem loadSegmentTurn_heap (hvaddr : ph.pVaddr < 4294967296) (hmemsz : ph.pMemsz < 4294967296)
    (hempty : st.space.vmm.heapStart = st.space.vmm.heapEnd)
    (hturn : loadSegmentTurn f st ph = .next st') :
    Mapped ph ∧ st'.space.vmm.heapStart = heapTurn st.space.vmm.heapStart ph ∧
      st'.space.vmm.heapEnd = heapTurn st.space.vmm.heapStart ph := by
  unfold loadSegmentTurn procLoadSegment at hturn
  cases hmap : segmentMmap st.space ph.pVaddr ph.pMemsz with
  | none =>
      rw [hmap] at hturn
      cases hturn
  | some mapped =>
      obtain ⟨space, retaddr⟩ := mapped
      simp only [hmap] at hturn
      by_cases hfail : retaddr = minusOne
      · simp only [if_pos hfail] at hturn
        rw [if_pos (by decide)] at hturn
        cases hturn
      · simp only [if_neg hfail] at hturn
        split_ifs at hturn with hread hfalse
        · exact absurd (by decide : (-1 : ℤ) ≠ 0) hfalse
        · obtain ⟨-, hpos, htop⟩ := segmentMmap_some hmap hfail
          have hmapped : Mapped ph := by
            have hlow : pageMask ph.pVaddr < 2147483648 := by omega
            refine ⟨by unfold pageMask at hlow; omega, hmemsz, ?_⟩
            by_cases hfit : ph.pVaddr % 4096 + ph.pMemsz ≤ 4294967296
            · have hle := le_segmentLen hpos hfit
              left
              unfold Elf32Phdr.segEnd
              unfold pageMask at htop
              omega
            · right
              unfold Elf32Phdr.segEnd
              omega
          obtain ⟨hstart, hend⟩ := doMemSpaceMap_vmm hmap
          rw [Turn.next.injEq] at hturn
          rw [← hturn, ← hstart]
          simp only [zeroFill_space]
          exact ⟨hmapped, placeHeap_heap hmapped (hstart.trans (hempty.trans hend.symm))⟩

/-- One turn of the loop. -/
theorem loadTurn_heap {off : ℕ} (hempty : st.space.vmm.heapStart = st.space.vmm.heapEnd)
    (hturn : loadTurn f phentsize buffer off st = .next st') :
    let ph := decodePhdr (kfileRead f off buffer phentsize).1
    if ph.pType = ptLoad then
      Mapped ph ∧ st'.space.vmm.heapStart = heapTurn st.space.vmm.heapStart ph ∧
        st'.space.vmm.heapEnd = heapTurn st.space.vmm.heapStart ph
    else st' = st := by
  unfold loadTurn at hturn
  simp only at hturn ⊢
  by_cases hread : (kfileRead f off buffer phentsize).2 ≠ phentsize
  · rw [if_pos hread] at hturn
    cases hturn
  · rw [if_neg hread] at hturn
    by_cases hload : (decodePhdr (kfileRead f off buffer phentsize).1).pType = ptLoad
    · rw [if_pos hload] at hturn ⊢
      exact loadSegmentTurn_heap (word_lt _ _) (word_lt _ _) hempty hturn
    · rw [if_neg hload] at hturn ⊢
      exact (Turn.next.inj hturn).symm

/-- A turn that ends the loop fails. -/
theorem loadTurn_ret {off : ℕ} {code : ℤ} (hturn : loadTurn f phentsize buffer off st =
    .ret st' code) : code = -1 := by
  unfold loadTurn loadSegmentTurn at hturn
  simp only at hturn
  split_ifs at hturn
  · exact (Turn.ret.inj hturn).2.symm
  · split at hturn
    · cases hturn
    · split_ifs at hturn
      exact (Turn.ret.inj hturn).2.symm

/-- **The heap after the loop**, by induction on the headers left. -/
theorem loadLoop_heap (f : ExecFile) (phentsize buffer : ℕ) :
    ∀ (phnum off : ℕ) (st st' : LoadState), st.space.vmm.heapStart = st.space.vmm.heapEnd →
      loadLoop f phentsize buffer phnum off st = .ret st' 0 →
      (∀ ph ∈ loadHeaders f phentsize buffer phnum off, Mapped ph) ∧
        st'.space.vmm.heapStart =
          (loadHeaders f phentsize buffer phnum off).foldl heapTurn st.space.vmm.heapStart ∧
        st'.space.vmm.heapEnd = st'.space.vmm.heapStart := by
  intro phnum
  induction phnum with
  | zero =>
      intro off st st' hempty hrun
      obtain ⟨rfl, -⟩ := Turn.ret.inj hrun
      exact ⟨by simp [loadHeaders], rfl, hempty.symm⟩
  | succ phnum ih =>
      intro off st st' hempty hrun
      rw [loadLoop] at hrun
      rw [loadHeaders]
      cases hturn : loadTurn f phentsize buffer off st with
      | next st₁ =>
          rw [hturn] at hrun
          have hstep := loadTurn_heap hempty hturn
          simp only at hstep hrun ⊢
          by_cases hload : (decodePhdr (kfileRead f off buffer phentsize).1).pType = ptLoad
          · rw [if_pos hload] at hstep ⊢
            obtain ⟨hmapped, hstart, hend⟩ := hstep
            obtain ⟨hall, hfold, hsame⟩ := ih _ st₁ st' (hstart.trans hend.symm) hrun
            exact ⟨List.forall_mem_cons.2 ⟨hmapped, hall⟩,
              by rw [hfold, hstart, List.foldl_cons], hsame⟩
          · rw [if_neg hload] at hstep ⊢
            subst hstep
            exact ih _ st₁ st' hempty hrun
      | ret st₁ code =>
          rw [hturn] at hrun
          obtain ⟨-, rfl⟩ := Turn.ret.inj hrun
          exact absurd (loadTurn_ret hturn) (by decide)
      | halt st₁ =>
          rw [hturn] at hrun
          cases hrun

end Loop

/-! ## The segment that decides -/

section Decide

variable {segments : List Elf32Phdr}

/-- One more segment decides if it has the flags, or if there is no other. -/
theorem heapSegment_concat (segments : List Elf32Phdr) (ph : Elf32Phdr) :
    heapSegment (segments ++ [ph]) = if ph.KnownFlags then
      some ph else (heapSegment segments).or (some ph) := by
  rw [heapSegment, heapSegment, List.reverse_concat, List.head?_append, List.head?_singleton]
  by_cases hknown : ph.KnownFlags
  · rw [if_pos hknown, List.find?_cons_of_pos (by simpa using hknown), Option.some_or]
  · rw [if_neg hknown, List.find?_cons_of_neg (by simpa using hknown), Option.or_assoc]

theorem mem_of_mem_heapSegment {g : Elf32Phdr} (h : g ∈ heapSegment segments) : g ∈ segments := by
  rcases Option.or_eq_some_iff.1 h with hfind | ⟨-, hhead⟩
  · exact List.mem_reverse.1 (List.mem_of_find?_eq_some hfind)
  · exact List.mem_of_head? hhead

/-- Some segment decides. -/
theorem heapSegment_ne_none (h : segments ≠ []) : heapSegment segments ≠ none := by
  cases segments with
  | nil => exact absurd rfl h
  | cons ph segments =>
      rw [heapSegment, List.head?_cons]
      cases ((ph :: segments).reverse.find? fun ph => decide ph.KnownFlags) <;> simp

/-- **The fold is the place behind the segment that decides**, by induction on the segments from
the last one. -/
theorem heapRun_eq (hmapped : ∀ ph ∈ segments, Mapped ph) :
    segments.foldl heapTurn 0 = ((heapSegment segments).map heapPlace).getD 0 := by
  induction segments using List.reverseRecOn with
  | nil => rfl
  | append_singleton segments ph ih =>
      have hbefore : ∀ g ∈ segments, Mapped g := fun g hg => hmapped g (List.mem_append_left _ hg)
      rw [List.foldl_append, List.foldl_cons, List.foldl_nil, ih hbefore, heapTurn,
        heapSegment_concat]
      by_cases hknown : ph.KnownFlags
      · rw [if_pos (Or.inl hknown), if_pos hknown, Option.map_some, Option.getD_some]
      · rw [if_neg hknown]
        cases hdecide : heapSegment segments with
        | none => exact if_pos (Or.inr rfl)
        | some g =>
            have hplace := (hbefore g (mem_of_mem_heapSegment hdecide)).heapPlace_ne_zero
            exact if_neg (not_or.2 ⟨hknown, hplace⟩)

/-- The ends of the segments, compared with the place behind one of them. -/
theorem ends_le_heapPlace_iff (hmapped : ∀ ph ∈ segments, Mapped ph) {g : Elf32Phdr}
    (hg : g ∈ segments) :
    (∀ ph ∈ segments, ph.segEnd ≤ heapPlace g) ↔
      ∀ ph ∈ segments, ph.segEnd ≤ wordSize ∧
        ph.segEnd ≤ (g.segEnd + 4095) / 4096 * 4096 + pageSize := by
  obtain ⟨hplace, hle⟩ := (hmapped g hg).heapPlace_eq
  have hsum : g.segEnd ≤ wordSize → heapPlace g = (g.segEnd + 4095) / 4096 * 4096 + pageSize := by
    intro hend
    have hfits := (hmapped g hg).fits
    unfold wordSize at hend
    rw [hplace, add32_of_lt (by unfold Elf32Phdr.segEnd at *; omega)]
    rfl
  constructor
  · intro hall ph hph
    have hend : g.segEnd ≤ wordSize := (hall g hg).trans (hle.trans (by norm_num))
    rw [← hsum hend]
    exact ⟨(hall ph hph).trans (hle.trans (by norm_num)), hall ph hph⟩
  · intro hall ph hph
    rw [hsum (hall g hg).1]
    exact (hall ph hph).2

end Decide

/-! ## The image -/

/-- **The heap starts above the image** if and only if no segment ends more than a page above the
page in which the segment that decides ends. -/
theorem procLoadImage_heapAbove_iff {f : ExecFile} {buffer : ℕ} {hdr : Elf32Ehdr} {s : AddrSpace}
    {st : LoadState} (hstart : s.vmm.heapStart = 0) (hend : s.vmm.heapEnd = 0)
    (hsegment : imageSegments f hdr buffer ≠ []) (hrun : procLoadImage f hdr buffer s = .ret st 0) :
    HeapAbove (imageSegments f hdr buffer) st.space.vmm ↔
      EndsBelow (imageSegments f hdr buffer) := by
  obtain ⟨hall, hfold, hsame⟩ :=
    loadLoop_heap f hdr.ePhentsize buffer hdr.ePhnum hdr.ePhoff ⟨s, 0, 0, []⟩ st
    (hstart.trans hend.symm) hrun
  have hmapped : ∀ ph ∈ imageSegments f hdr buffer, Mapped ph := hall
  obtain ⟨g, hg⟩ := Option.ne_none_iff_exists'.1 (heapSegment_ne_none hsegment)
  have hmem := mem_of_mem_heapSegment hg
  have hplace : st.space.vmm.heapStart = heapPlace g := by
    rw [hfold, hstart]
    exact (heapRun_eq hmapped).trans (congrArg (fun o => (Option.map heapPlace o).getD 0) hg)
  have hends := ends_le_heapPlace_iff hmapped hmem
  rw [EndsBelow, hg]
  simp only [Option.mem_some_iff, forall_eq']
  rw [← hends, ← hplace]
  constructor
  · exact HeapAbove.above
  · exact fun habove => ⟨by rw [hplace]; exact pageAligned_heapPlace g, hsame.symm, habove⟩

/-- An ELF file like that of `elfFile` whose segments have their flags in front. -/
def flaggedElf (segments : List (ℕ × ℕ × ℕ × ℕ × ℕ)) (data : List UInt8) : List UInt8 :=
  (elfFile (segments.map Prod.snd) []).take sizeofEhdr ++
    segments.flatMap (fun g => wordBytes 1 ++ wordBytes g.2.1 ++ wordBytes g.2.2.1 ++ wordBytes 0 ++
      wordBytes g.2.2.2.1 ++ wordBytes g.2.2.2.2 ++ wordBytes g.1 ++ wordBytes 4096) ++ data

/-- The loader on such a file, in a process without spaces. -/
def loadFlagged (segments : List (ℕ × ℕ × ℕ × ℕ × ℕ)) : Turn :=
  let bytes := flaggedElf segments [65]
  procLoadImage (.ofBytes bytes) (decodeEhdr bytes) 2147500100
  (emptySpace [some ⟨0, by decide⟩, some ⟨1, by decide⟩])

/-- The segments of such a file. -/
def segmentsOf (segments : List (ℕ × ℕ × ℕ × ℕ × ℕ)) : List Elf32Phdr :=
  let bytes := flaggedElf segments [65]
  imageSegments (.ofBytes bytes) (decodeEhdr bytes) 2147500100

/-- The image was accepted. -/
def Turn.accepted : Turn → Bool
  | .ret _ code => code == 0
  | _ => false

theorem Turn.of_accepted {turn : Turn} (h : turn.accepted = true) : ∃ st, turn = .ret st 0 := by
  cases turn with
  | ret st code => exact ⟨st, by rw [eq_of_beq h]⟩
  | next st => cases h
  | halt st => cases h

/-- Code at `0x2000`, data at `0x3000`. -/
theorem procLoadImage_heapAbove_codeData :
    ∃ st, loadFlagged [(5, 116, 8192, 1, 1), (6, 116, 12288, 1, 8192)] = .ret st 0 ∧
      HeapAbove (segmentsOf [(5, 116, 8192, 1, 1), (6, 116, 12288, 1, 8192)]) st.space.vmm := by
  obtain ⟨st, hst⟩ : ∃ st, loadFlagged [(5, 116, 8192, 1, 1), (6, 116, 12288, 1, 8192)] =
    .ret st 0 :=
    Turn.of_accepted (by decide +kernel)
  exact ⟨st, hst, (procLoadImage_heapAbove_iff rfl rfl (by decide +kernel) hst).2
    (by decide +kernel)⟩

/-- Code at `0x2000`, and data that are only read, with the flags of neither, at `0x10000`: the
heap starts at `0x4000`. -/
theorem procLoadImage_not_heapAbove :
    ∃ st, loadFlagged [(5, 116, 8192, 1, 1), (4, 116, 65536, 1, 1)] = .ret st 0 ∧
      segmentsOf [(5, 116, 8192, 1, 1), (4, 116, 65536, 1, 1)] ≠ [] ∧
      ¬ HeapAbove (segmentsOf [(5, 116, 8192, 1, 1), (4, 116, 65536, 1, 1)]) st.space.vmm := by
  obtain ⟨st, hst⟩ : ∃ st, loadFlagged [(5, 116, 8192, 1, 1), (4, 116, 65536, 1, 1)] = .ret st 0 :=
    Turn.of_accepted (by decide +kernel)
  refine ⟨st, hst, by decide +kernel, fun habove => ?_⟩
  have hheap : (loadFlagged [(5, 116, 8192, 1, 1),
      (4, 116, 65536, 1, 1)]).state.space.vmm.heapStart = 16384 := by
    decide +kernel
  rw [hst] at hheap
  have hall : ∀ ph ∈ segmentsOf [(5, 116, 8192, 1, 1), (4, 116, 65536, 1, 1)], ph.segEnd ≤ 16384 :=
    fun ph hph => (habove.above ph hph).trans (le_of_eq hheap)
  exact absurd hall (by decide +kernel)

end Elf
end LightOS
