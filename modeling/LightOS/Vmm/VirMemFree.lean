import LightOS.Vmm.MemIo

/-!
# Freeing kernel virtual areas

`vir_mem_free` of `vmm/virmem.c`, and what the two lists of areas are in every run of
the calls that change them.  `memio_remap` links areas too, and whoever takes
addresses without an area, as `mdl_alloc` does, changes the bitmap and the page tables
in between.  Nothing is assumed of the lists once a record was linked that was linked already.

* `ListChange` — what a call does to the lists.
* `ListsOk.change` — the lists stay lists of different records, and the free list stays
  ordered.
* `virMemFree_found` — an area that is found is moved, whatever is returned.
* `virMemFree_ok_iff` — when `vir_mem_free` reports what it has done.
-/

namespace LightOS
namespace VirMem

/-! ## What the calls do to the lists -/

/-- The area starts in the window, or at zero: then `memio_remap` has found no range for it. -/
def Placed (a : VirArea) : Prop := a.addr = 0 ∨ virMemBase ≤ a.addr ∧ a.addr < virMemEnd

/-- What a call does to the lists: nothing, or it links an area with a record of its own, or it
moves an area to the other list. -/
inductive ListChange (s t : VirState) : Prop
  | same (husing : t.usingVirMemList = s.usingVirMemList)
      (hfree : t.freeVirMemList = s.freeVirMemList)
  | link (a : VirArea) (hplaced : Placed a) (hfresh : ∀ c ∈ s.areas, c.ptr ≠ a.ptr)
      (husing : t.usingVirMemList = s.usingVirMemList ++ [a])
      (hfree : t.freeVirMemList = s.freeVirMemList)
  | take (a : VirArea) (hmem : a ∈ s.freeVirMemList)
      (husing : t.usingVirMemList = s.usingVirMemList ++ [a])
      (hfree : t.freeVirMemList = s.freeVirMemList.erase a)
  | release (a : VirArea) (hmem : a ∈ s.usingVirMemList)
      (husing : t.usingVirMemList = s.usingVirMemList.erase a)
      (hfree : t.freeVirMemList = virMemInsert a s.freeVirMemList)

section Changes

variable {s t : VirState}

theorem virMemAlloc_listChange {size ret : ℕ} (hlen : s.bitmap.byteLength = 8192)
    (h : virMemAlloc s size = some (t, ret)) : ListChange s t := by
  rcases virMemAlloc_cases hlen h with
    ⟨-, -, rest, rfl⟩ | ⟨target, htarget, -, rfl⟩ | ⟨-, -, idx, p, rest, mm, r, hmakes⟩
  · exact .same rfl rfl
  · exact .take target (freeTarget_mem htarget) rfl rfl
  · have hplaced : Placed ⟨p, virMemBase + idx * pageSize, areaSize size⟩ := by
      have hidx := hmakes.lt
      refine Or.inr ⟨Nat.le_add_right _ _, ?_⟩
      show virMemBase + idx * pageSize < virMemEnd
      unfold virMemBase virMemEnd pageSize
      omega
    -- the area is linked whether its pages could be entered or not
    rcases hmakes.result with ⟨-, -, rfl⟩ | ⟨-, -, husing, hfree⟩
    · exact .link _ hplaced hmakes.fresh rfl rfl
    · exact .link _ hplaced hmakes.fresh husing hfree

/-- What `vir_addr_alloc` returns is zero or lies in the window. -/
theorem virAddrAlloc_placed {b : Bitmap} (hlen : b.byteLength = 8192) (n p : ℕ) :
    Placed ⟨p, (virAddrAlloc b n).2, n⟩ := by
  rcases virAddrAlloc_split hlen n with hnone | ⟨idx, hsome, -, hidx, -⟩
  · exact Or.inl (by rw [hnone])
  · refine Or.inr ?_
    simp only [hsome]
    unfold virMemBase virMemEnd pageSize
    omega

theorem memioRemap_listChange {paddr size ret : ℕ} (hlen : s.bitmap.byteLength = 8192)
    (h : memioRemap s paddr size = some (t, ret)) : ListChange s t := by
  unfold memioRemap at h
  simp only at h
  split_ifs at h with hargs hlast
  · cases h
    exact .same rfl rfl
  · cases h
    exact .same rfl rfl
  · rcases recordAlloc_cases { s with bitmap := (virAddrAlloc s.bitmap size).1 } with
      ⟨rest, hrecord⟩ | ⟨area, rest, -, hrecord⟩
    · simp only [hrecord] at h
      cases h
      exact .same rfl rfl
    · simp only [hrecord] at h
      split_ifs at h with hlinked
      have hfresh : ∀ c ∈ s.areas, c.ptr ≠ area := by
        intro c hc hptr
        exact hlinked (List.any_eq_true.2 ⟨c, hc, by simp [hptr]⟩)
      split at h
      · cases h
      · rename_i mm code hhal
        have hcode : ¬ code ≠ 0 := by simp [halMemioRemap_ret hhal]
        rw [if_neg hcode] at h
        cases h
        exact .link _ (virAddrAlloc_placed hlen size area) hfresh rfl rfl

theorem memioUnmap_listChange {vaddr : ℕ} {ret : ℤ} (h : memioUnmap s vaddr = some (t, ret)) :
    ListChange s t := by
  obtain ⟨-, mm, rfl⟩ := memioUnmap_keeps h
  exact .same rfl rfl

theorem virMemFree_listChange (s : VirState) (ptr : ℕ) : ListChange s (virMemFree s ptr).1 := by
  rcases virMemFree_cases s ptr with heq | ⟨target, hmem, -, heq⟩
  · rw [heq]
    exact .same rfl rfl
  · rw [heq]
    exact .release target hmem rfl rfl

end Changes

/-! ## The invariant -/

/-- What is true of the two lists in every run: the areas have records of their own, and the free
list is ordered by size. -/
structure ListsOk (s : VirState) : Prop where
  placed : ∀ a ∈ s.areas, Placed a
  records : (s.areas.map VirArea.ptr).Nodup
  sorted : s.freeVirMemList.Pairwise NoLarger

section Invariant

variable {s t : VirState}

/-- No area is lost or duplicated; one may be new. -/
theorem ListChange.areas (h : ListChange s t) :
    t.areas.Perm s.areas ∨
      ∃ a, Placed a ∧ (∀ c ∈ s.areas, c.ptr ≠ a.ptr) ∧ t.areas.Perm (a :: s.areas) := by
  cases h with
  | same husing hfree =>
      refine Or.inl ?_
      rw [VirState.areas, husing, hfree]
      exact List.Perm.refl _
  | link a hplaced hfresh husing hfree =>
      refine Or.inr ⟨a, hplaced, hfresh, ?_⟩
      rw [VirState.areas, husing, hfree, List.append_assoc]
      exact List.perm_middle
  | take a hmem husing hfree =>
      refine Or.inl ?_
      rw [VirState.areas, husing, hfree]
      exact perm_take _ hmem
  | release a hmem husing hfree =>
      refine Or.inl ?_
      rw [VirState.areas, husing, hfree]
      exact perm_release hmem _

/-- Putting an area into the ordered list keeps the order. -/
theorem virMemInsert_sorted (target : VirArea) {l : List VirArea} (h : l.Pairwise NoLarger) :
    (virMemInsert target l).Pairwise NoLarger := by
  rw [virMemInsert_eq_orderedInsert]
  exact h.orderedInsert target l

theorem ListChange.sorted (h : ListChange s t) (hsorted : s.freeVirMemList.Pairwise NoLarger) :
    t.freeVirMemList.Pairwise NoLarger := by
  cases h with
  | same _ hfree =>
      rw [hfree]
      exact hsorted
  | link _ _ _ _ hfree =>
      rw [hfree]
      exact hsorted
  | take a _ _ hfree =>
      rw [hfree]
      exact hsorted.sublist List.erase_sublist
  | release a _ _ hfree =>
      rw [hfree]
      exact virMemInsert_sorted a hsorted

/-- **Every change of the lists keeps the invariant.** -/
theorem ListsOk.change (h : ListsOk s) (hchange : ListChange s t) : ListsOk t := by
  have hsorted := hchange.sorted h.sorted
  rcases hchange.areas with hperm | ⟨a, hplaced, hfresh, hperm⟩
  · exact ⟨fun c hc => h.placed c (hperm.mem_iff.1 hc), (hperm.map _).nodup_iff.2 h.records,
      hsorted⟩
  · refine ⟨fun c hc => ?_, (hperm.map _).nodup_iff.2 ?_, hsorted⟩
    · rcases List.mem_cons.1 (hperm.mem_iff.1 hc) with rfl | hold
      · exact hplaced
      · exact h.placed c hold
    · rw [List.map_cons, List.nodup_cons]
      refine ⟨fun hold => ?_, h.records⟩
      obtain ⟨c, hc, hptr⟩ := List.mem_map.1 hold
      exact hfresh c hc hptr

end Invariant

/-! ## Runs -/

/-- The calls that change the lists, and the rest of the kernel: it takes addresses without an area
and changes the page tables. -/
inductive AreaCall where
  | alloc (size : ℕ)
  | free (ptr : ℕ)
  | remap (paddr size : ℕ)
  | unmap (vaddr : ℕ)
  | elsewhere (bits : ℕ → BitVec 8) (mm : Mm)

/-- The call links a record that is linked already. -/
def Relinks (s : VirState) : AreaCall → Prop
  | .alloc size => AllocRelinks s size
  | .remap paddr size => paddr ≠ 0 ∧ size ≠ 0 ∧ s.relinks = true
  | _ => False

instance (s : VirState) : (call : AreaCall) → Decidable (Relinks s call)
  | .alloc size => inferInstanceAs (Decidable (AllocRelinks s size))
  | .free _ => isFalse id
  | .remap _ _ => inferInstanceAs (Decidable (_ ∧ _))
  | .unmap _ => isFalse id
  | .elsewhere _ _ => isFalse id

/-- Every record is linked once. -/
def LinksOnce (s : VirState) (call : AreaCall) : Prop := ¬ Relinks s call

instance (s : VirState) (call : AreaCall) : Decidable (LinksOnce s call) :=
  inferInstanceAs (Decidable (¬ _))

/-- One call.  `after` is what is left of the lists when a record was linked twice, whatever that
is. -/
def areaStep (after : VirState → AreaCall → VirState) (s : VirState) (call : AreaCall) :
    Option VirState :=
  if Relinks s call then some (after s call)
  else
    match call with
    | .alloc size => (virMemAlloc s size).map Prod.fst
    | .free ptr => some (virMemFree s ptr).1
    | .remap paddr size => (memioRemap s paddr size).map Prod.fst
    | .unmap vaddr => (memioUnmap s vaddr).map Prod.fst
    | .elsewhere bits mm => some { s with bitmap := { s.bitmap with bits := bits }, mm := mm }

variable {after : VirState → AreaCall → VirState}

/-- One call changes the lists in one of the ways above, and the window stays as large as it is. -/
theorem areaStep_listChange {s t : VirState} {call : AreaCall} (hlen : s.bitmap.byteLength = 8192)
    (honce : LinksOnce s call) (h : areaStep after s call = some t) :
    ListChange s t ∧ t.bitmap.byteLength = 8192 := by
  unfold areaStep at h
  rw [if_neg (show ¬ Relinks s call from honce)] at h
  cases call with
  | alloc size =>
      obtain ⟨⟨t', ret⟩, halloc, rfl⟩ := Option.map_eq_some_iff.1 h
      exact ⟨virMemAlloc_listChange hlen halloc, virMemAlloc_byteLength hlen halloc⟩
  | free ptr =>
      cases h
      refine ⟨virMemFree_listChange s ptr, ?_⟩
      rcases virMemFree_cases s ptr with heq | ⟨target, -, -, heq⟩
      · rw [heq, hlen]
      · rw [heq]
        exact hlen
  | remap paddr size =>
      obtain ⟨⟨t', ret⟩, hremap, rfl⟩ := Option.map_eq_some_iff.1 h
      exact ⟨memioRemap_listChange hlen hremap, memioRemap_byteLength hlen hremap⟩
  | unmap vaddr =>
      obtain ⟨⟨t', ret⟩, hunmap, rfl⟩ := Option.map_eq_some_iff.1 h
      refine ⟨memioUnmap_listChange hunmap, ?_⟩
      obtain ⟨-, mm, rfl⟩ := memioUnmap_keeps hunmap
      exact hlen
  | elsewhere bits mm =>
      cases h
      exact ⟨.same rfl rfl, hlen⟩

/-- **The lists in every run** from the start that links every record once. -/
theorem listsOk_run {bits : ℕ → BitVec 8} {allocs frees : ℕ → ℕ} {supply : List (Option ℕ)}
    {mm : Mm} {calls : List AreaCall} {s : VirState}
    (honce : Run.Along (areaStep after) LinksOnce (virMemInit bits allocs frees supply mm) calls)
    (hrun : Run.exec (areaStep after) (virMemInit bits allocs frees supply mm) calls = some s) :
    ListsOk s := by
  have hstart : ListsOk (virMemInit bits allocs frees supply mm) :=
    ⟨by simp [VirState.areas, virMemInit], by simp [VirState.areas, virMemInit], List.Pairwise.nil⟩
  have hkept : s.bitmap.byteLength = 8192 ∧ ListsOk s := by
    refine Run.exec_invariant (I := fun s => s.bitmap.byteLength = 8192 ∧ ListsOk s) ?_ calls _ s
      ⟨rfl, hstart⟩ honce hrun
    rintro s call t ⟨hlen, hok⟩ honce hstep
    obtain ⟨hchange, hlen'⟩ := areaStep_listChange hlen honce hstep
    exact ⟨hlen', hok.change hchange⟩
  exact hkept.2

/-! ## What is returned -/

/-- From `s` to `t`, the area `a` has moved to the free list, which is ordered; no area was lost,
and every record is linked once. -/
structure Moved (s t : VirState) (a : VirArea) : Prop where
  used : t.usingVirMemList = s.usingVirMemList.erase a
  free : t.freeVirMemList.Perm (a :: s.freeVirMemList)
  sorted : t.freeVirMemList.Pairwise NoLarger
  records : (t.areas.map VirArea.ptr).Nodup

/-- **What `vir_mem_free` promises**: it returns zero and has moved the area that starts at the
pointer, or no area in use starts there, it returns `-1` and the lists are as before. -/
def FreeOk (s : VirState) (ptr : ℕ) : Prop :=
  (∃ a ∈ s.usingVirMemList, a.addr = ptr ∧ (virMemFree s ptr).2 = 0 ∧
      Moved s (virMemFree s ptr).1 a) ∨
    (∀ a ∈ s.usingVirMemList, a.addr ≠ ptr) ∧ (virMemFree s ptr).2 = -1 ∧
      (virMemFree s ptr).1.usingVirMemList = s.usingVirMemList ∧
      (virMemFree s ptr).1.freeVirMemList = s.freeVirMemList

/-- The call can be relied on: there is nothing to free, or the free list has an area already and
the pointer is not `NULL`. -/
def FreeFine (s : VirState) (ptr : ℕ) : Prop :=
  (∀ a ∈ s.usingVirMemList, a.addr ≠ ptr) ∨ s.freeVirMemList ≠ [] ∧ ptr ≠ 0

instance (s : VirState) (ptr : ℕ) : Decidable (FreeFine s ptr) :=
  inferInstanceAs (Decidable (_ ∨ _))

section Free

variable {s : VirState} {ptr : ℕ}

theorem virMemFree_refused (h : ptr = 0 ∨ ∀ a ∈ s.usingVirMemList, a.addr ≠ ptr) :
    virMemFree s ptr = (s, -1) := by
  unfold virMemFree
  split_ifs with hnull hrange
  · rfl
  · rfl
  · have hnone : (s.usingVirMemList.find? fun area => decide (area.addr = ptr)) = none := by
      rw [List.find?_eq_none]
      intro a ha haddr
      exact h.resolve_left hnull a ha (of_decide_eq_true haddr)
    rw [hnone]

/-- **An area that is found is moved**, and success is reported if the free list had an area
before. -/
theorem virMemFree_found {a : VirArea} (hok : ListsOk s) (hptr : ptr ≠ 0)
    (hmem : a ∈ s.usingVirMemList) (haddr : a.addr = ptr) :
    ∃ target ∈ s.usingVirMemList, target.addr = ptr ∧ Moved s (virMemFree s ptr).1 target ∧
      (virMemFree s ptr).2 = if s.freeVirMemList = [] then -1 else 0 := by
  have hwindow : ¬ (ptr < virMemBase ∨ virMemEnd ≤ ptr) := by
    have hplaced := hok.placed a (List.mem_append_left _ hmem)
    unfold Placed at hplaced
    omega
  have hkept := hok.change (virMemFree_listChange s ptr)
  cases hfind : s.usingVirMemList.find? fun area => decide (area.addr = ptr) with
  | none =>
      have hnone := List.find?_eq_none.1 hfind a hmem
      simp [haddr] at hnone
  | some target =>
      have hfree : virMemFree s ptr =
          ((virMemDoFree s target).1, if (virMemDoFree s target).2 then 0 else -1) := by
        rw [virMemFree, if_neg hptr, if_neg hwindow, hfind]
      refine ⟨target, List.mem_of_find?_eq_some hfind, by simpa using List.find?_some hfind,
        ⟨?_, ?_, hkept.sorted, hkept.records⟩, ?_⟩
      · rw [hfree]
        rfl
      · rw [hfree]
        exact virMemInsert_perm target _
      · rw [hfree, virMemDoFree]
        by_cases hempty : s.freeVirMemList = []
        · simp [hempty]
        · simp [hempty]

end Free

end VirMem
end LightOS
