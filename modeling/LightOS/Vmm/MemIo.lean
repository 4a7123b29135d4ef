import LightOS.Vmm.VirMem

/-!
# I/O memory

`memio_remap` and `memio_unmap` of `vmm/virmem.c`, with `hal_memio_remap` and
`hal_memio_unmap` of `arch/x86/mach-i386/mm/memio.c`, on the state of the kernel's
virtual areas.

* `memioRemap_returns` — when `memio_remap` comes back.
* `memioRemap_found` — if a range of addresses is found, it is reserved and returned,
  or there is no record and everything is as before.
* `memioUnmap_keeps` — taking a mapping back frees nothing and fails.
* `memIo_ok_iff` — in which runs the two calls are a lifecycle.
-/

namespace LightOS
namespace VirMem

/-! ## The page tables -/

/-- The loop of `hal_memio_remap`. -/
def halMemioRemapLoop (end_ : ℕ) : ℕ → Mm → ℕ → ℕ → Option Mm
  | 0, _, _, _ => none
  | rounds + 1, m, vaddr, paddr =>
      if vaddr < end_ then
        match pageLinkAddr m vaddr paddr (pageAttrWrite ||| pageAttrSystem) with
        | none => none
        | some m' =>
            halMemioRemapLoop end_ rounds m' (add32 vaddr pageSize) (add32 paddr pageSize)
      else some m

/-- `hal_memio_remap`; zero is success. -/
def halMemioRemap (m : Mm) (paddr vaddr size : ℕ) : Option (Mm × ℤ) :=
  (halMemioRemapLoop (add32 vaddr size) pageRounds m vaddr paddr).map fun m' => (m', 0)

/-- `page_unlink_addr`.  The entry of an address without a table cannot be read. -/
def pageUnlinkAddr (m : Mm) (vaddr : ℕ) : Option Mm :=
  if hasFlag (m.pde (dirIdx vaddr)) pageAttrPresent then
    if hasFlag (m.entry vaddr) pageAttrPresent then
      some (m.setEntry vaddr (clearPresent (m.entry vaddr)))
    else some m
  else none

/-- The loop of `hal_memio_unmap`. -/
def halMemioUnmapLoop (end_ : ℕ) : ℕ → Mm → ℕ → Option Mm
  | 0, _, _ => none
  | rounds + 1, m, addr =>
      if addr < end_ then
        match pageUnlinkAddr m addr with
        | none => none
        | some m' => halMemioUnmapLoop end_ rounds m' (add32 addr pageSize)
      else some m

/-- `hal_memio_unmap`; zero is success. -/
def halMemioUnmap (m : Mm) (addr size : ℕ) : Option (Mm × ℤ) :=
  (halMemioUnmapLoop (add32 addr size) pageRounds m addr).map fun m' => (m', 0)

/-! ## The calls -/

/-- `memio_remap`.  It takes `-1` for the failure of `vir_addr_alloc`. -/
def memioRemap (s : VirState) (paddr size : ℕ) : Option (VirState × ℕ) :=
  if paddr = 0 ∨ size = 0 then some (s, 0)
  else
    let reserved := virAddrAlloc s.bitmap size
    if reserved.2 = wordSize - 1 then some ({ s with bitmap := reserved.1 }, 0)
    else
      match recordAlloc { s with bitmap := reserved.1 } with
      | (s', none) => some ({ s' with bitmap := virAddrFree s'.bitmap reserved.2 size }, 0)
      | (s', some area) =>
          if s'.areas.any fun a => a.ptr == area then none
          else
            let target : VirArea := ⟨area, reserved.2, size⟩
            let linked : VirState := { s' with usingVirMemList := s'.usingVirMemList ++ [target] }
            match halMemioRemap linked.mm paddr reserved.2 size with
            | none => none
            | some (mm, ret) =>
                if ret ≠ 0 then
                  some (recordFree
                    { linked with
                      mm := mm
                      usingVirMemList := linked.usingVirMemList.erase target
                      bitmap := virAddrFree linked.bitmap reserved.2 size } area, 0)
                else some ({ linked with mm := mm }, reserved.2)

/-- `memio_unmap`.  It takes a value other than zero for the success of `hal_memio_unmap`. -/
def memioUnmap (s : VirState) (vaddr : ℕ) : Option (VirState × ℤ) :=
  if vaddr = 0 then some (s, -1)
  else if vaddr < virMemBase ∨ virMemEnd ≤ vaddr then some (s, -1)
  else
    match s.usingVirMemList.find? fun area => decide (area.addr = vaddr) with
    | none => some (s, -1)
    | some target =>
        match halMemioUnmap s.mm target.addr target.size with
        | none => none
        | some (mm, ret) =>
            if ret ≠ 0 then
              some (recordFree
                { s with
                  mm := mm
                  usingVirMemList := s.usingVirMemList.erase target
                  bitmap := virAddrFree s.bitmap vaddr target.size } target.ptr, 0)
            else some ({ s with mm := mm }, -1)

/-! ## What the calls do -/

theorem halMemioRemap_ret {m mm : Mm} {paddr vaddr size : ℕ} {ret : ℤ}
    (h : halMemioRemap m paddr vaddr size = some (mm, ret)) : ret = 0 := by
  obtain ⟨m', -, heq⟩ := Option.map_eq_some_iff.1 h
  rw [Prod.mk.injEq] at heq
  exact heq.2.symm

theorem halMemioUnmap_ret {m mm : Mm} {addr size : ℕ} {ret : ℤ}
    (h : halMemioUnmap m addr size = some (mm, ret)) : ret = 0 := by
  obtain ⟨m', -, heq⟩ := Option.map_eq_some_iff.1 h
  rw [Prod.mk.injEq] at heq
  exact heq.2.symm

/-- **Taking a mapping back** frees nothing and fails, whatever the address. -/
theorem memioUnmap_keeps {s t : VirState} {vaddr : ℕ} {ret : ℤ}
    (h : memioUnmap s vaddr = some (t, ret)) : ret = -1 ∧ ∃ mm, t = { s with mm := mm } := by
  unfold memioUnmap at h
  split_ifs at h with hnull hrange
  · cases h
    exact ⟨rfl, s.mm, rfl⟩
  · cases h
    exact ⟨rfl, s.mm, rfl⟩
  · cases hfind : s.usingVirMemList.find? fun area => decide (area.addr = vaddr) with
    | none =>
        rw [hfind] at h
        cases h
        exact ⟨rfl, s.mm, rfl⟩
    | some target =>
        rw [hfind] at h
        simp only at h
        cases hhal : halMemioUnmap s.mm target.addr target.size with
        | none =>
            rw [hhal] at h
            cases h
        | some result =>
            obtain ⟨mm, code⟩ := result
            rw [hhal] at h
            simp only [halMemioUnmap_ret hhal, ne_eq, not_true_eq_false, if_false,
              Option.some.injEq, Prod.mk.injEq] at h
            exact ⟨h.2.symm, mm, h.1.symm⟩

section Addresses

variable {b : Bitmap} {n idx : ℕ}

/-- The number of pages `vir_addr_alloc` reserves. -/
abbrev pagesOf (n : ℕ) : ℕ := pageAlign n / pageSize

/-- **Reserving addresses**, of any number of pages: it fails with zero, or sets bits that were
clear. -/
theorem virAddrAlloc_split (hlen : b.byteLength = 8192) (n : ℕ) :
    virAddrAlloc b n = (b, 0) ∨
      ∃ idx, virAddrAlloc b n = (bitmapSetRange b idx true (pagesOf n),
        virMemBase + idx * pageSize) ∧
        0 < pagesOf n ∧ idx < 65536 ∧ idx + pagesOf n ≤ 65537 ∧
        ∀ j, idx ≤ j → j < idx + pagesOf n → b.bit j = false := by
  by_cases hzero : pageAlign n = 0
  · exact Or.inl (if_pos hzero)
  · rcases virAddrAlloc_cases hlen hzero with ⟨-, hnone⟩ | ⟨idx, -, hsome, hclear, hidx, hend⟩
    · exact Or.inl hnone
    · have halign := pageAligned_pageAlign n
      have hpages : 0 < pagesOf n := by
        unfold PageAligned at halign
        unfold pagesOf pageSize
        omega
      exact Or.inr ⟨idx, hsome, hpages, hidx, hend, hclear⟩

/-- What `vir_addr_free` clears when it is given the address zero: bits behind the window. -/
theorem virAddrFree_zero (hpos : n ≠ 0) :
    virAddrFree b 0 n = bitmapSetRange b 66560 false (pagesOf n) := by
  rw [virAddrFree, if_neg hpos]
  rfl

/-- Clearing bits changes nothing if and only if they are clear. -/
theorem bitmapSetRange_false_eq_self {pages : ℕ} :
    bitmapSetRange b idx false pages = b ↔ ∀ k < pages, b.bit (idx + k) = false := by
  constructor
  · intro h k hk
    rw [← h, bitmapSetRange_bit, if_pos (by omega)]
  · intro h
    apply Bitmap.ext_bit (by simp)
    intro j
    rw [bitmapSetRange_bit]
    split_ifs with hin
    · have hj := h (j - idx) (by omega)
      rw [← hj, Nat.add_sub_cancel' hin.1]
    · rfl

end Addresses

/-! ## The lifecycle -/

/-- Everything but the outcomes of `mem_alloc` to come is as before. -/
def Unchanged (s t : VirState) : Prop :=
  t.bitmap = s.bitmap ∧ t.usingVirMemList = s.usingVirMemList ∧
    t.freeVirMemList = s.freeVirMemList ∧ t.allocs = s.allocs ∧ t.frees = s.frees ∧ t.mm = s.mm

/-- A range of addresses for `n` bytes was free before and is reserved now. -/
def Reserved (s t : VirState) (n : ℕ) : Prop :=
  0 < pagesOf n ∧
    ∃ idx, ∀ j, idx ≤ j → j < idx + pagesOf n → s.bitmap.bit j = false ∧ t.bitmap.bit j = true

/-- **What `memio_remap` promises**: it returns `NULL` if and only if no range of addresses was
reserved, and then nothing changed. -/
def RemapOk (s t : VirState) (n v : ℕ) : Prop :=
  (v = 0 ↔ ¬ Reserved s t n) ∧ (v = 0 → Unchanged s t)

/-- **What `memio_unmap` promises** for an area of `n` bytes that lies at `v`: it returns zero,
no area at `v` is in use, and the bits of the area are clear. -/
def UnmapOk (t : VirState) (v n : ℕ) (ret : ℤ) : Prop :=
  ret = 0 ∧ (∀ a ∈ t.usingVirMemList, a.addr ≠ v) ∧
    ∀ j, (v - virMemBase) / pageSize ≤ j → j < (v - virMemBase) / pageSize + pagesOf n →
      t.bitmap.bit j = false

theorem Unchanged.not_reserved {s t : VirState} {n : ℕ} (h : Unchanged s t) : ¬ Reserved s t n := by
  rintro ⟨hpages, idx, hbits⟩
  obtain ⟨hclear, hset⟩ := hbits idx le_rfl (by omega)
  rw [h.1, hclear] at hset
  cases hset

theorem Unchanged.remapOk {s t : VirState} {n : ℕ} (h : Unchanged s t) : RemapOk s t n 0 :=
  ⟨⟨fun _ => h.not_reserved, fun _ => rfl⟩, fun _ => h⟩

/-- `memio_remap` has what it needs for a range it has found: there is no record, or one that is not
linked already, and `hal_memio_remap` comes back. -/
def RemapGoes (s : VirState) (p n : ℕ) : Prop :=
  (recordAlloc s).2 = none ∨
    s.relinks = false ∧ (halMemioRemap s.mm p (virAddrAlloc s.bitmap n).2 n).isSome

/-- When `memio_remap` can be relied on: the arguments are refused, a range of addresses is found
and there is what it needs, or there is neither a range nor a record and the bits that are cleared
then, behind the window, are clear. -/
def RemapFine (s : VirState) (p n : ℕ) : Prop :=
  p = 0 ∨ n = 0 ∨ (virAddrAlloc s.bitmap n).2 ≠ 0 ∧ RemapGoes s p n ∨
    (virAddrAlloc s.bitmap n).2 = 0 ∧ (recordAlloc s).2 = none ∧
      ∀ k < pagesOf n, s.bitmap.bit (66560 + k) = false

section Remap

variable {s t : VirState} {p n v : ℕ}

/-- A record that there is comes from the head of the supply. -/
theorem relinks_eq {area : ℕ} (h : (recordAlloc s).2 = some area) :
    s.relinks = s.areas.any fun a => a.ptr == area := by
  unfold recordAlloc at h
  unfold VirState.relinks
  rcases hsupply : s.supply with _ | ⟨_ | q, rest⟩
  · rw [hsupply] at h
    cases h
  · rw [hsupply] at h
    cases h
  · rw [hsupply] at h
    simp only at h
    split_ifs at h with hfree
    cases h
    simp [hfree]

/-- **When `memio_remap` comes back**: it does not where it would link a record twice, or where
`hal_memio_remap` finds a page that is there already or no page for a table. -/
theorem memioRemap_returns (hlen : s.bitmap.byteLength = 8192) (hp : p ≠ 0) (hn : n ≠ 0) :
    memioRemap s p n ≠ none ↔ RemapGoes s p n := by
  have hlast : (virAddrAlloc s.bitmap n).2 ≠ wordSize - 1 := by
    rcases virAddrAlloc_split hlen n with hnone | ⟨idx, hsome, -, -, hend, -⟩
    · rw [hnone]
      exact (by decide : (0 : ℕ) ≠ wordSize - 1)
    · rw [hsome]
      unfold virMemBase pageSize wordSize
      omega
  have hrecord := recordAlloc_snd s (virAddrAlloc s.bitmap n).1
  unfold memioRemap RemapGoes
  rw [if_neg (by simp [hp, hn])]
  simp only [if_neg hlast]
  rcases recordAlloc_cases { s with bitmap := (virAddrAlloc s.bitmap n).1 } with
    ⟨rest, heq⟩ | ⟨area, rest, -, heq⟩
  · rw [heq] at hrecord ⊢
    exact iff_of_true (Option.some_ne_none _) (Or.inl hrecord.symm)
  · rw [heq] at hrecord ⊢
    rw [← hrecord, relinks_eq hrecord.symm]
    have hareas : ∀ b supply allocs, VirState.areas { s with
        bitmap := b, supply := supply, allocs := allocs } = s.areas := fun _ _ _ => rfl
    simp only [hareas, reduceCtorEq, false_or]
    cases hlinked : s.areas.any fun a => a.ptr == area with
    | true => simp
    | false =>
        cases hhal : halMemioRemap s.mm p (virAddrAlloc s.bitmap n).2 n with
        | none => simp
        | some result =>
            have hret : ¬ result.2 ≠ 0 := by simp [halMemioRemap_ret hhal]
            simp [hret]

/-- **If a range of addresses is found**, it is reserved and returned, or there is no record and
everything is as before. -/
theorem memioRemap_found (hlen : s.bitmap.byteLength = 8192) (hp : p ≠ 0) (hn : n ≠ 0)
    (hfound : (virAddrAlloc s.bitmap n).2 ≠ 0) (h : memioRemap s p n = some (t, v)) :
    v = 0 ∧ Unchanged s t ∨ v ≠ 0 ∧ Reserved s t n ∧ t.bitmap.byteLength = 8192 := by
  rcases virAddrAlloc_split hlen n with hnone | ⟨idx, hsome, hpages, -, hend, hclear⟩
  · rw [hnone] at hfound
    exact absurd rfl hfound
  · have hlow : virMemBase + idx * pageSize ≠ 0 := by
      unfold virMemBase
      omega
    have hhigh : virMemBase + idx * pageSize ≠ wordSize - 1 := by
      unfold virMemBase pageSize wordSize
      omega
    unfold memioRemap at h
    rw [if_neg (by simp [hp, hn])] at h
    simp only [hsome, if_neg hhigh] at h
    rcases recordAlloc_cases { s with bitmap := bitmapSetRange s.bitmap idx true (pagesOf n) } with
      ⟨rest, hrecord⟩ | ⟨area, rest, -, hrecord⟩
    · simp only [hrecord, virAddrFree_reserved hn (by omega) hclear] at h
      cases h
      exact Or.inl ⟨rfl, rfl, rfl, rfl, rfl, rfl, rfl⟩
    · simp only [hrecord] at h
      split_ifs at h with hlinked
      split at h
      · cases h
      · rename_i mm ret hhal
        have hret : ¬ ret ≠ 0 := by simp [halMemioRemap_ret hhal]
        rw [if_neg hret] at h
        cases h
        refine Or.inr ⟨hlow, ⟨hpages, idx, fun j hj hj' => ⟨hclear j hj hj', ?_⟩⟩,
          by simpa using hlen⟩
        simp only [bitmapSetRange_bit, if_pos (And.intro hj hj')]

/-- If no range of addresses is found, `NULL` is returned; nothing has changed if and only if there
is no record either and the bits behind the window that are cleared then were clear. -/
theorem memioRemap_exhausted (hp : p ≠ 0) (hn : n ≠ 0)
    (hnone : virAddrAlloc s.bitmap n = (s.bitmap, 0)) (h : memioRemap s p n = some (t, v)) :
    v = 0 ∧ t.bitmap.byteLength = s.bitmap.byteLength ∧
      (Unchanged s t ↔
        (recordAlloc s).2 = none ∧ ∀ k < pagesOf n, s.bitmap.bit (66560 + k) = false) := by
  have hword : (0 : ℕ) ≠ wordSize - 1 := by decide
  unfold memioRemap at h
  rw [if_neg (by simp [hp, hn])] at h
  simp only [hnone, if_neg hword] at h
  rcases recordAlloc_cases s with ⟨rest, hrecord⟩ | ⟨area, rest, -, hrecord⟩
  · simp only [hrecord, virAddrFree_zero hn] at h
    cases h
    refine ⟨rfl, by simp, ?_⟩
    rw [hrecord, ← bitmapSetRange_false_eq_self]
    exact ⟨fun hsame => ⟨rfl, hsame.1⟩, fun hsame => ⟨hsame.2, rfl, rfl, rfl, rfl, rfl⟩⟩
  · -- the record is linked, and stays linked
    simp only [hrecord] at h
    split_ifs at h with hlinked
    split at h
    · cases h
    · rename_i mm ret hhal
      have hret : ¬ ret ≠ 0 := by simp [halMemioRemap_ret hhal]
      rw [if_neg hret] at h
      cases h
      refine ⟨rfl, rfl, ?_⟩
      rw [hrecord]
      constructor
      · intro hsame
        have hlists := hsame.2.1
        simp at hlists
      · intro hboth
        cases hboth.1

/-- **When `memio_remap` comes back and keeps its promise.** -/
theorem remapOk_iff (hlen : s.bitmap.byteLength = 8192) :
    (∃ t v, memioRemap s p n = some (t, v) ∧ RemapOk s t n v) ↔ RemapFine s p n := by
  by_cases hargs : p = 0 ∨ n = 0
  · refine iff_of_true ⟨s, 0, by rw [memioRemap, if_pos hargs], ?_⟩ ?_
    · exact Unchanged.remapOk ⟨rfl, rfl, rfl, rfl, rfl, rfl⟩
    · exact hargs.imp_right Or.inl
  · obtain ⟨hp, hn⟩ := not_or.1 hargs
    have hreturns := memioRemap_returns hlen hp hn
    rw [RemapFine, or_iff_right hp, or_iff_right hn]
    by_cases hfound : (virAddrAlloc s.bitmap n).2 = 0
    · have hnone : virAddrAlloc s.bitmap n = (s.bitmap, 0) := by
        rcases virAddrAlloc_split hlen n with hnone | ⟨idx, hsome, -⟩
        · exact hnone
        · rw [hsome] at hfound
          unfold virMemBase at hfound
          omega
      rw [or_iff_right fun hgoes => hgoes.1 hfound, and_iff_right hfound]
      constructor
      · rintro ⟨t, v, hremap, hok⟩
        obtain ⟨rfl, -, hiff⟩ := memioRemap_exhausted hp hn hnone hremap
        exact hiff.1 (hok.2 rfl)
      · intro hfine
        obtain ⟨⟨t, v⟩, hremap⟩ := Option.ne_none_iff_exists'.1 (hreturns.2 (Or.inl hfine.1))
        obtain ⟨rfl, -, hiff⟩ := memioRemap_exhausted hp hn hnone hremap
        exact ⟨t, 0, hremap, (hiff.2 hfine).remapOk⟩
    · rw [or_iff_left fun hgone => hfound hgone.1, and_iff_right hfound, ← hreturns]
      constructor
      · rintro ⟨t, v, hremap, -⟩
        rw [hremap]
        exact Option.some_ne_none _
      · intro hne
        obtain ⟨⟨t, v⟩, hremap⟩ := Option.ne_none_iff_exists'.1 hne
        refine ⟨t, v, hremap, ?_⟩
        rcases memioRemap_found hlen hp hn hfound hremap with ⟨rfl, hsame⟩ | ⟨hv, hreserved, -⟩
        · exact hsame.remapOk
        · exact ⟨⟨fun h => absurd h hv, fun hno => absurd hreserved hno⟩, fun h => absurd h hv⟩

theorem memioRemap_byteLength (hlen : s.bitmap.byteLength = 8192)
    (h : memioRemap s p n = some (t, v)) : t.bitmap.byteLength = 8192 := by
  by_cases hargs : p = 0 ∨ n = 0
  · rw [memioRemap, if_pos hargs] at h
    cases h
    exact hlen
  · obtain ⟨hp, hn⟩ := not_or.1 hargs
    rcases virAddrAlloc_split hlen n with hnone | ⟨idx, hsome, -⟩
    · rw [(memioRemap_exhausted hp hn hnone h).2.1, hlen]
    · have hfound : (virAddrAlloc s.bitmap n).2 ≠ 0 := by
        rw [hsome]
        unfold virMemBase
        omega
      rcases memioRemap_found hlen hp hn hfound h with ⟨-, hsame⟩ | ⟨-, -, hlen'⟩
      · rw [hsame.1, hlen]
      · exact hlen'

end Remap

/-! ## Runs -/

/-- The calls, and the memory behind the bitmap changing. -/
inductive MemIoCall where
  | remap (paddr size : ℕ)
  | unmap (vaddr : ℕ)
  | alloc (size : ℕ)
  | free (ptr : ℕ)
  | behind (bits : ℕ → BitVec 8)

/-- The state, and the mappings that were made and not yet taken back: their addresses and
sizes. -/
structure MemIoRun where
  mem : VirState
  live : List (ℕ × ℕ)

/-- The mapping at `v` ends. -/
def MemIoRun.forget (s : MemIoRun) (v : ℕ) (mem : VirState) : MemIoRun :=
  ⟨mem, s.live.filter fun r => decide (r.1 ≠ v)⟩

/-- One call. -/
def memIoStep (s : MemIoRun) : MemIoCall → Option MemIoRun
  | .remap paddr size =>
      (memioRemap s.mem paddr size).map fun tv =>
        if tv.2 = 0 then ⟨tv.1, s.live⟩ else ⟨tv.1, (tv.2, size) :: s.live⟩
  | .unmap vaddr => (memioUnmap s.mem vaddr).map fun tr => s.forget vaddr tr.1
  | .alloc size => (virMemAlloc s.mem size).map fun tv => ⟨tv.1, s.live⟩
  | .free ptr => some (s.forget ptr (virMemFree s.mem ptr).1)
  | .behind bits =>
      some { s with
        mem := { s.mem with
          bitmap := { s.mem.bitmap with
            bits := fun i => if i < s.mem.bitmap.byteLength then s.mem.bitmap.bits i
              else bits i } } }

/-- `vir_mem_alloc` comes to link a record that is linked already. -/
def AllocRelinks (s : VirState) (size : ℕ) : Prop :=
  pageAlign size ≠ 0 ∧ freeTarget s size = none ∧
    (virAddrAlloc s.bitmap (areaSize size)).2 ≠ 0 ∧ s.relinks = true

instance (s : VirState) (size : ℕ) : Decidable (AllocRelinks s size) :=
  inferInstanceAs (Decidable (_ ∧ _))

/-- A call keeps its promise: any `memio_remap`, and `memio_unmap` of a mapping that was made and
not yet taken back.  What is asked of `vir_mem_alloc` is that the lists stay lists. -/
def MemIoOk (s : MemIoRun) : MemIoCall → Prop
  | .remap paddr size => ∃ t v, memioRemap s.mem paddr size = some (t, v) ∧ RemapOk s.mem t size v
  | .unmap vaddr => ∀ size, (vaddr, size) ∈ s.live →
      ∃ t ret, memioUnmap s.mem vaddr = some (t, ret) ∧ UnmapOk t vaddr size ret
  | .alloc size => ¬ AllocRelinks s.mem size
  | _ => True

/-- A call can be relied on: `memio_remap` when a range is found and there is what it needs,
`memio_unmap` of nothing that is mapped, and `vir_mem_alloc` when it links no record a second
time. -/
def MemIoFine (s : MemIoRun) : MemIoCall → Prop
  | .remap paddr size => RemapFine s.mem paddr size
  | .unmap vaddr => ∀ r ∈ s.live, r.1 ≠ vaddr
  | .alloc size => ¬ AllocRelinks s.mem size
  | _ => True

/-- Before the first call. -/
def memIoInit (bits : ℕ → BitVec 8) (allocs frees : ℕ → ℕ) (supply : List (Option ℕ)) (mm : Mm) :
    MemIoRun :=
  ⟨virMemInit bits allocs frees supply mm, []⟩

theorem memIoOk_iff_fine (s : MemIoRun) (call : MemIoCall) (hlen : s.mem.bitmap.byteLength = 8192) :
    MemIoOk s call ↔ MemIoFine s call := by
  cases call with
  | remap paddr size => exact remapOk_iff hlen
  | unmap vaddr =>
      constructor
      · rintro hok r hr rfl
        obtain ⟨t, ret, hunmap, hret, -⟩ := hok r.2 hr
        rw [(memioUnmap_keeps hunmap).1] at hret
        cases hret
      · intro hfine size hlive
        exact absurd rfl (hfine _ hlive)
  | alloc size => exact Iff.rfl
  | free ptr => exact Iff.rfl
  | behind bits => exact Iff.rfl

theorem virMemAlloc_byteLength {s t : VirState} {size ret : ℕ} (hlen : s.bitmap.byteLength = 8192)
    (h : virMemAlloc s size = some (t, ret)) : t.bitmap.byteLength = 8192 := by
  rcases virMemAlloc_cases hlen h with
    ⟨-, -, rest, rfl⟩ | ⟨target, -, -, rfl⟩ | ⟨-, -, idx, p, rest, mm, r, hmakes⟩
  · exact hlen
  · exact hlen
  · exact hmakes.length.trans hlen

theorem memIoStep_byteLength (s : MemIoRun) (call : MemIoCall) (s' : MemIoRun)
    (hlen : s.mem.bitmap.byteLength = 8192) (h : memIoStep s call = some s') :
    s'.mem.bitmap.byteLength = 8192 := by
  cases call with
  | remap paddr size =>
      obtain ⟨⟨t, v⟩, hremap, rfl⟩ := Option.map_eq_some_iff.1 h
      have hkept := memioRemap_byteLength hlen hremap
      split_ifs <;> exact hkept
  | unmap vaddr =>
      obtain ⟨⟨t, ret⟩, hunmap, rfl⟩ := Option.map_eq_some_iff.1 h
      obtain ⟨-, mm, rfl⟩ := memioUnmap_keeps hunmap
      exact hlen
  | alloc size =>
      obtain ⟨⟨t, ret⟩, halloc, rfl⟩ := Option.map_eq_some_iff.1 h
      exact virMemAlloc_byteLength hlen halloc
  | free ptr =>
      cases h
      rcases virMemFree_cases s.mem ptr with heq | ⟨target, -, -, heq⟩
      · simpa only [MemIoRun.forget, heq] using hlen
      · simpa only [MemIoRun.forget, heq, virMemDoFree] using hlen
  | behind bits =>
      cases h
      exact hlen

/-- **In which runs the two calls are a lifecycle**: every call keeps its promise if and only if
every `memio_remap` finds a range and what it needs, or fails for lack of everything, nothing that
is mapped is ever taken back, and no record is linked twice. -/
theorem memIo_ok_iff (bits : ℕ → BitVec 8) (allocs frees : ℕ → ℕ) (supply : List (Option ℕ))
    (mm : Mm) (calls : List MemIoCall) :
    Run.Along memIoStep MemIoOk (memIoInit bits allocs frees supply mm) calls ↔
      Run.Along memIoStep MemIoFine (memIoInit bits allocs frees supply mm) calls :=
  Run.along_iff (I := fun s => s.mem.bitmap.byteLength = 8192) memIoOk_iff_fine
    (fun s call s' hlen _ h => memIoStep_byteLength s call s' hlen h) calls _ rfl

/-- Before the first call, on the small machine. -/
def memIoStart (supply : List (Option ℕ)) : MemIoRun := ⟨(emptyWindow 65536 supply).mem, []⟩

/-- A device is mapped and taken back: the mapping stays. -/
theorem memIo_not_ok :
    ∃ s, Run.exec memIoStep (memIoStart [some 1]) [.remap 4244635648 4096, .unmap 4022337536] =
        some s ∧
      ¬ Run.Along memIoStep MemIoOk (memIoStart [some 1])
        [.remap 4244635648 4096, .unmap 4022337536] := by
  have hsome : (Run.exec memIoStep (memIoStart [some 1])
      [.remap 4244635648 4096, .unmap 4022337536]).isSome = true := by decide +kernel
  obtain ⟨s, hs⟩ := Option.isSome_iff_exists.1 hsome
  have hmapped : (memIoStep (memIoStart [some 1]) (.remap 4244635648 4096)).map
      (fun t => (t.live, (memioUnmap t.mem 4022337536).map Prod.snd)) =
      some ([(4022337536, 4096)], some (-1)) := by decide +kernel
  obtain ⟨t, ht, hvals⟩ := Option.map_eq_some_iff.1 hmapped
  rw [Prod.mk.injEq] at hvals
  obtain ⟨⟨u, ret⟩, hunmap, rfl⟩ := Option.map_eq_some_iff.1 hvals.2
  refine ⟨s, hs, fun hok => ?_⟩
  obtain ⟨u', ret, hunmap', hret, -⟩ := (hok.2 t ht).1 4096 (by simp [hvals.1])
  rw [hunmap] at hunmap'
  cases hunmap'
  cases hret

end VirMem
end LightOS
