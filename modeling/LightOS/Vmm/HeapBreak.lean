import LightOS.Vmm.MemSpaceOrder

/-!
# Memory spaces of a process: the heap break

The heap of a process is `[heap_start, PAGE_ALIGN(heap_end))`.  A call that moves the break
grows the space that ends there, makes the first one, cuts the end off, or only writes
`heap_end`.  Nothing on the list says which space is the heap but its flags, so the heap is
what the break says as long as no other space comes to carry these flags.

* `HeapIs` — the spaces with the flags of the heap make up an interval.
* `heap_shrink`, `heap_grow` — cutting the heap and extending it.
* `sysMemSpaceExpendHeap_cases` — all a call that moves the break can do.
* `heap_run` — in every run that makes no other space with the flags of the heap, the heap
  spaces cover exactly what the break says.
-/

namespace LightOS
namespace Vm

open LinkedList Interval

/-! ## The spaces of the heap -/

/-- A space with exactly the flags `do_mem_space_expend_heap` gives and looks for. -/
def IsHeap (t : Span Attrs) : Prop := t.attr.flags = memSpaceMapHeap

/-- The heap is one space `[a, b)`, or none if that is empty. -/
structure HeapIs (l : List (Span Attrs)) (a b : ℕ) : Prop where
  only : ∀ t ∈ l, IsHeap t → t.start = a ∧ t.end_ = b
  there : a < b → ∃ t ∈ l, IsHeap t

section Spans

variable {l l' k₁ k₂ : List (Span Attrs)} {t : Span Attrs} {a b e addr : ℕ} {attr : Attrs}

/-- Lists with the same heap spaces. -/
theorem HeapIs.of_same (h : HeapIs l a b) (hsame : ∀ t, IsHeap t → (t ∈ l' ↔ t ∈ l)) :
    HeapIs l' a b := by
  refine ⟨fun t ht hheap => h.only t ((hsame t hheap).1 ht) hheap, fun hab => ?_⟩
  obtain ⟨t, ht, hheap⟩ := h.there hab
  exact ⟨t, (hsame t hheap).2 ht, hheap⟩

/-- Inserting a space that is not of the heap. -/
theorem HeapIs.inserted (h : HeapIs l a b) (hins : Inserted Merges t l l') (ht : ¬ IsHeap t) :
    HeapIs l' a b := by
  refine h.of_same fun u hu => ?_
  have hne : u ≠ t := fun heq => ht (heq ▸ hu)
  cases hins with
  | insert l₁ l₂ below above => simp [hne]
  | extend l₁ v l₂ below above touch joins =>
      -- the space that is joined to is no heap space either
      have hflags : v.attr.flags = t.attr.flags := joins.1.2
      have hv : u ≠ v := fun heq => ht (hflags.symm.trans (heq ▸ hu))
      have hv' : u ≠ ⟨v.start, t.end_, v.attr⟩ := by
        rintro rfl
        exact ht (hflags.symm.trans hu)
      simp [hv, hv']

/-- Cutting a space that is not of the heap. -/
theorem HeapIs.cut_other (h : HeapIs (k₁ ++ t :: k₂) a b) (ht : ¬ IsHeap t)
    (habove : e ≠ t.end_ → attr.flags ≠ memSpaceMapHeap) :
    HeapIs (k₁ ++ (t.below addr ++ t.above e attr) ++ k₂) a b := by
  refine h.of_same fun u hu => ?_
  have hne : u ≠ t := fun heq => ht (heq ▸ hu)
  have hb : u ∉ t.below addr := by
    intro hmem
    rw [(mem_below hmem).1] at hu
    exact ht hu
  have ha : u ∉ t.above e attr := by
    intro hmem
    obtain ⟨rfl, hend⟩ := mem_above hmem
    exact habove hend hu
  simp [hne, hb, ha]

/-- In a sorted list the heap is only one of the spaces. -/
theorem HeapIs.unique (h : HeapIs (k₁ ++ t :: k₂) a b) (hsorted : Sorted (k₁ ++ t :: k₂))
    (ht : IsHeap t) : ∀ u ∈ k₁ ++ k₂, ¬ IsHeap u := by
  intro u hu hheap
  obtain ⟨htstart, htend⟩ := h.only t (by simp) ht
  obtain ⟨hustart, huend⟩ := h.only u (by
    rcases List.mem_append.1 hu with hu | hu
    · exact List.mem_append_left _ hu
    · exact List.mem_append_right _ (List.mem_cons_of_mem _ hu)) hheap
  have hne := hsorted.2 t (by simp)
  obtain ⟨-, hk₂, hcross⟩ := sorted_append.1 hsorted
  rcases List.mem_append.1 hu with hu | hu
  · have := hcross u hu t (by simp)
    omega
  · have := (sorted_cons.1 hk₂).2.2 u hu
    omega

/-- Putting something else in the place of the heap space. -/
theorem HeapIs.replace (h : HeapIs (k₁ ++ t :: k₂) a b) (hsorted : Sorted (k₁ ++ t :: k₂))
    (ht : IsHeap t) {m : List (Span Attrs)} {b' : ℕ} (hm : HeapIs m a b') :
    HeapIs (k₁ ++ m ++ k₂) a b' := by
  have huniq := h.unique hsorted ht
  refine hm.of_same fun u hu => ?_
  have h₁ : u ∉ k₁ := fun hmem => huniq u (List.mem_append_left _ hmem) hu
  have h₂ : u ∉ k₂ := fun hmem => huniq u (List.mem_append_right _ hmem) hu
  simp [h₁, h₂]

/-- Cutting off the end of the heap, up to where it ended. -/
theorem HeapIs.cut_heap (h : HeapIs (k₁ ++ t :: k₂) a b) (hsorted : Sorted (k₁ ++ t :: k₂))
    (ht : IsHeap t) : HeapIs (k₁ ++ (t.below addr ++ t.above b attr) ++ k₂) a addr := by
  obtain ⟨hstart, hend⟩ := h.only t (by simp) ht
  refine h.replace hsorted ht ⟨fun u hu _ => ?_, fun hlt => ?_⟩
  · rcases List.mem_append.1 hu with hu | hu
    · rw [(mem_below hu).1]
      exact ⟨hstart, rfl⟩
    · exact absurd hend.symm (mem_above hu).2
  · refine ⟨⟨t.start, addr, t.attr⟩, List.mem_append_left _ ?_, ht⟩
    rw [Span.below, if_neg (by omega)]
    exact List.mem_singleton_self _

/-- The first space of the heap. -/
theorem HeapIs.first {prot vmm : ℕ} (h : HeapIs l a a) (hsorted : Sorted l)
    (hins : Inserted Merges ⟨a, e, ⟨prot, memSpaceMapHeap, vmm⟩⟩ l l') : HeapIs l' a e := by
  have hnone : ∀ u ∈ l, ¬ IsHeap u := by
    intro u hu hheap
    have := h.only u hu hheap
    have := hsorted.2 u hu
    omega
  cases hins with
  | insert l₁ l₂ below above =>
      refine ⟨fun u hu hheap => ?_, fun _ => ⟨⟨a, e, ⟨prot, memSpaceMapHeap, vmm⟩⟩, by simp, rfl⟩⟩
      simp only [List.mem_append, List.mem_cons] at hu
      rcases hu with hu | rfl | hu
      · exact absurd hheap (hnone u (by simp [hu]))
      · exact ⟨rfl, rfl⟩
      · exact absurd hheap (hnone u (by simp [hu]))
  | extend l₁ v l₂ below above touch joins => exact absurd joins.1.2 (hnone v (by simp))

/-- The heap spaces cover the interval, and nothing else. -/
theorem HeapIs.covers (h : HeapIs l a b) (x : ℕ) :
    (∃ t ∈ l, IsHeap t ∧ t.Has x) ↔ a ≤ x ∧ x < b := by
  constructor
  · rintro ⟨t, ht, hheap, hx⟩
    obtain ⟨rfl, rfl⟩ := h.only t ht hheap
    exact hx
  · rintro ⟨hlo, hhi⟩
    obtain ⟨t, ht, hheap⟩ := h.there (lt_of_le_of_lt hlo hhi)
    obtain ⟨rfl, rfl⟩ := h.only t ht hheap
    exact ⟨t, ht, hheap, hlo, hhi⟩

/-- Every other space lies beside the heap. -/
theorem HeapIs.apart (h : HeapIs l a b) (hsorted : Sorted l) (ht : t ∈ l) (hother : ¬ IsHeap t)
    {x : ℕ} (hx : t.Has x) : ¬ (a ≤ x ∧ x < b) := by
  intro hin
  obtain ⟨u, hu, hheap, hux⟩ := (h.covers x).2 hin
  have hattr := (hsorted.attrAt_eq ht hx).symm.trans (hsorted.attrAt_eq hu hux)
  rw [Option.some.injEq] at hattr
  exact hother (show t.attr.flags = _ from hattr ▸ hheap)

end Spans

/-! ## The invariant -/

/-- The list is in order and its heap spaces are what the break says, which keeps to its
bounds. -/
structure HeapInv (held : List RecPtr) (s : AddrSpace) (l : List RecPtr) : Prop where
  space : SpaceInv held s l
  start : PageAddr s.vmm.heapStart
  le : s.vmm.heapStart ≤ s.vmm.heapEnd
  max : s.vmm.heapEnd ≤ s.vmm.heapStart + maxMemSpaceHeapSize
  word : s.vmm.heapEnd ≤ 4294963200
  heap : HeapIs (s.spans l) s.vmm.heapStart (pageAlign s.vmm.heapEnd)

/-- The same list and the same break. -/
def Unchanged (s s' : AddrSpace) : Prop :=
  ∃ l, s.Listed l ∧ s'.Listed l ∧ s'.recs = s.recs ∧ s'.vmm.heapEnd = s.vmm.heapEnd

section Calls

variable {s s' : AddrSpace} {l held : List RecPtr}

theorem HeapInv.heapEnd_le (h : HeapInv held s l) : s.vmm.heapEnd ≤ pageAlign s.vmm.heapEnd :=
  le_pageAlign h.word

/-- **The end of the heap is cut off**, or there is no record for what is above and nothing
happens to the list. -/
theorem heap_shrink (h : HeapInv held s l) {new : ℕ} (hnew : PageAligned new)
    (hlo : s.vmm.heapStart ≤ new) (hhi : new < pageAlign s.vmm.heapEnd) {r : ℤ}
    (hrun : doMemSpaceUnmap s new (sub32 (pageAlign s.vmm.heapEnd) new) = some (s', r)) :
    Frame { s with mm := s'.mm } s' ∧ (r = -1 ∧ SpaceInv held s' l ∧ s'.recs = s.recs ∨
      r = 0 ∧ ∃ l', SpaceInv held s' l' ∧ HeapIs (s'.spans l') s.vmm.heapStart new) := by
  have hword := pageAlign_lt s.vmm.heapEnd
  have hold := pageAligned_pageAlign s.vmm.heapEnd
  obtain ⟨old, hdef⟩ : ∃ old, pageAlign s.vmm.heapEnd = old := ⟨_, rfl⟩
  rw [hdef] at hhi hword hold hrun
  have hlen : PageAligned (old - new) := by
    unfold PageAligned at *
    omega
  rw [sub32_of_le hhi.le hword] at hrun
  have hself : pageAlign (old - new) = old - new := pageAlign_eq_self hlen (by omega)
  have hend : add32 new (old - new) = old := by
    rw [add32_of_lt (by omega)]
    omega
  obtain ⟨t, ht, hheap⟩ := h.heap.there (by omega)
  obtain ⟨hstart, hend'⟩ := h.heap.only t ht hheap
  obtain ⟨p, hp, rfl⟩ := List.mem_map.1 ht
  rw [hdef] at hend'
  -- the heap space is the first one that ends above the new break
  have hfirst : ∀ k₁ q k₂, l = k₁ ++ q :: k₂ → (∀ u ∈ k₁, (s.recs u).end_ ≤ new) →
      new < (s.recs q).end_ → q = p := by
    rintro k₁ q k₂ rfl hbefore hq
    have hsorted := h.space.ok.1
    rw [spans_append] at hsorted
    obtain ⟨-, hk₂, -⟩ := sorted_append.1 hsorted
    rcases List.mem_append.1 hp with hp | hp
    · have := hbefore p hp
      simp only [span_end] at hend'
      omega
    · rcases List.mem_cons.1 hp with rfl | hp
      · rfl
      · have := (sorted_cons.1 hk₂).2.2 (s.span p) (List.mem_map_of_mem hp)
        simp only [span_start, span_end] at this hstart
        omega
  obtain ⟨hframe, hcases⟩ := doMemSpaceUnmap_spec h.space.owned hrun
  rw [hself, hend] at hcases
  refine ⟨hframe, ?_⟩
  rcases hcases with ⟨rfl, howned, hrecs⟩ | ⟨-, -, -, k₁, q, k₂, hl, hbefore, hq, hout⟩ |
    ⟨rfl, -, l', x, rest, -, howned, hcut⟩
  · exact Or.inl ⟨rfl, h.space.congr howned hrecs hframe.mapStart, hrecs⟩
  · obtain rfl := hfirst k₁ q k₂ hl hbefore hq
    simp only [span_start, span_end] at hstart hend'
    omega
  · refine Or.inr ⟨rfl, l', ⟨howned, h.space.ok.cut hcut hhi.le ⟨hnew, hhi.trans hword⟩
      ⟨hold, hword⟩, by rw [hframe.mapStart]; exact h.space.mapStart⟩, ?_⟩
    obtain ⟨k₁, q, k₂, hl, -, hbefore, hinside, -, hspans⟩ :=
      memSpaceFind_of_cut h.space.owned.chain hcut
    obtain rfl := hfirst k₁ q k₂ hl hbefore hinside.2
    have hheap' := h.heap
    have hsorted := h.space.ok.1
    rw [hl, spans_append, hdef] at hheap'
    rw [hl, spans_append] at hsorted
    rw [hspans]
    exact hheap'.cut_heap hsorted hheap

/-- **The heap is extended**, or there is no record for its first space. -/
theorem heap_grow (h : HeapInv held s l) {new ret : ℕ} (hnew : PageAligned new)
    (hlt : pageAlign s.vmm.heapEnd < new) (hword : new + pageSize < wordSize)
    (hgap : Gap s l (pageAlign s.vmm.heapEnd) (new + pageSize))
    (hrun : doMemSpaceExpendHeap s (pageAlign s.vmm.heapEnd) (new - pageAlign s.vmm.heapEnd) =
      some (s', ret)) :
    Frame { s with mm := s'.mm } s' ∧ (Refused held s s' l ret ∨
      ret = pageAlign s.vmm.heapEnd ∧ ∃ l', SpaceInv held s' l' ∧
        HeapIs (s'.spans l') s.vmm.heapStart new) := by
  have hlow := h.heapEnd_le
  have hle := h.le
  have hold := pageAligned_pageAlign s.vmm.heapEnd
  obtain ⟨old, hdef⟩ : ∃ old, pageAlign s.vmm.heapEnd = old := ⟨_, rfl⟩
  have hheap := h.heap
  rw [hdef] at hlt hgap hrun hlow hold hheap ⊢
  have hsum : old + (new - old) = new := by omega
  have hlen : PageAligned (new - old) := by
    unfold PageAligned at *
    omega
  have hsize : 0 < pageSize := by norm_num
  rw [← hsum] at hgap
  obtain ⟨hframe, hcases⟩ := expendHeap_cases h.space (by rw [hsum]; exact ⟨hnew, by omega⟩)
    ⟨hold, by omega⟩ hlen (by omega) hgap hrun
  rw [hsum] at hcases
  refine ⟨hframe, hcases.imp_right fun hok => ⟨hok.1, ?_⟩⟩
  rcases hok.2 with ⟨p, ⟨hfind, hend, hflags⟩, rfl, hinv⟩ | ⟨hnot, l', hinv, hins⟩
  · refine ⟨l, hinv, ?_⟩
    obtain ⟨l₁, l₂, rfl, -, -⟩ := memSpaceFind_split h.space.owned.chain hfind
    rw [modify_end_spans (List.nodup_append.1 h.space.owned.nodup).1]
    have hsorted := h.space.ok.1
    rw [spans_append] at hheap hsorted
    have hp : IsHeap (s.span p) := hflags
    have hstart := (hheap.only (s.span p) (by simp [AddrSpace.spans]) hp).1
    rw [List.append_cons]
    refine hheap.replace hsorted hp ⟨fun u hu _ => ?_, fun _ => ⟨_, List.mem_singleton_self _, hp⟩⟩
    rw [List.mem_singleton.1 hu]
    exact ⟨hstart, rfl⟩
  · refine ⟨l', hinv, ?_⟩
    -- a heap that is there would have been extended
    have hempty : s.vmm.heapStart = old := by
      by_contra hne
      obtain ⟨t, ht, ht'⟩ := hheap.there (by omega)
      obtain ⟨hstart, hend⟩ := hheap.only t ht ht'
      obtain ⟨p, hp, rfl⟩ := List.mem_map.1 ht
      obtain ⟨l₁, l₂, rfl⟩ := List.append_of_mem hp
      have hsorted := h.space.ok.1
      rw [spans_append] at hsorted
      simp only [span_start, span_end] at hstart hend
      refine hnot p (by omega) ⟨memSpaceFind_of_split h.space.owned.chain (fun q hq => ?_) ?_,
        hend, ht'⟩
      · have := (sorted_append.1 hsorted).2.2 (s.span q) (List.mem_map_of_mem hq) (s.span p)
          (by simp [AddrSpace.spans])
        simp only [span_start, span_end] at this
        omega
      · omega
    rw [hempty] at hheap ⊢
    exact hheap.first h.space.ok.1 hins

/-- Above the user half nothing is unmapped, so the heap does not grow there. -/
theorem expendHeap_above_top {old len : ℕ} (hold : userVmmTopAddr < old)
    (hpos : pageAlign len ≠ 0) : doMemSpaceExpendHeap s old len = some (s, minusOne) := by
  have hrefused : UnmapRefused old (pageAlign len) := Or.inr (Or.inl hold)
  unfold doMemSpaceExpendHeap doMemSpaceUnmap
  rw [if_neg hpos, if_pos hrefused]
  exact if_pos rfl

/-- The break has moved, and the heap with it. -/
structure Moved (held : List RecPtr) (s s' : AddrSpace) (heap : ℕ) : Prop where
  le : s.vmm.heapStart ≤ heap
  max : heap ≤ s.vmm.heapStart + maxMemSpaceHeapSize
  word : heap ≤ 4294963200
  heapStart : s'.vmm.heapStart = s.vmm.heapStart
  heapEnd : s'.vmm.heapEnd = heap
  heap : ∃ l', SpaceInv held s' l' ∧ HeapIs (s'.spans l') s.vmm.heapStart (pageAlign heap)

/-- The call has failed and returns the break as it is. -/
structure Kept (held : List RecPtr) (s s' : AddrSpace) (l : List RecPtr) : Prop where
  space : SpaceInv held s' l
  recs : s'.recs = s.recs
  heapStart : s'.vmm.heapStart = s.vmm.heapStart
  heapEnd : s'.vmm.heapEnd = s.vmm.heapEnd

theorem Kept.refl (h : HeapInv held s l) : Kept held s s l := ⟨h.space, rfl, rfl, rfl⟩

/-- Rounding up keeps a bound that is a multiple of the page size. -/
theorem pageAlign_le_of_le {v b : ℕ} (hb : PageAligned b) (hv : v ≤ b) : pageAlign v ≤ b := by
  unfold PageAligned at hb
  unfold pageAlign pageMask add32
  omega

/-- The largest break is a multiple of the page size. -/
theorem maxBreak_aligned (h : PageAddr s.vmm.heapStart) :
    PageAligned (s.vmm.heapStart + maxMemSpaceHeapSize) := by
  have h₁ := h.1
  unfold PageAligned maxMemSpaceHeapSize at *
  omega

/-- A request above the break is granted up to the largest break only. -/
theorem granted_le (h : HeapInv held s l) {heap : ℕ}
    (hbig : heap ≤ add32 s.vmm.heapStart maxMemSpaceHeapSize) :
    heap ≤ s.vmm.heapStart + maxMemSpaceHeapSize ∧ heap ≤ 4294963200 := by
  have haligned := maxBreak_aligned h.start
  have hword := h.start.2
  unfold PageAligned at haligned
  unfold add32 at hbig
  unfold wordSize at hword
  unfold maxMemSpaceHeapSize at *
  omega

/-- A break so close to the end of memory that rounding it runs over. -/
theorem pageAlign_wraps {heap : ℕ} (hlow : 4294963200 < heap) (hword : heap < wordSize) :
    pageAlign heap = 0 := by
  unfold wordSize at hword
  unfold pageAlign pageMask add32
  omega

/-- Shrinking the heap. -/
theorem heap_below (h : HeapInv held s l) {heap ret : ℕ} (hlow : s.vmm.heapStart ≤ heap)
    (hle : heap ≤ s.vmm.heapEnd) (hsame : pageAlign heap ≠ pageAlign s.vmm.heapEnd) {t : AddrSpace}
    {r : ℤ}
    (hunmap : doMemSpaceUnmap s (pageAlign heap)
      (sub32 (pageAlign s.vmm.heapEnd) (pageAlign heap)) =
      some (t, r))
    (hend : (s', ret) = if r = 0 then (setHeapEnd t heap, heap) else (t, t.vmm.heapEnd)) :
    Kept held s s' l ∨ ret = heap ∧ Moved held s s' heap := by
  have hword := hle.trans h.word
  have hmono := pageAlign_le_of_le (pageAligned_pageAlign s.vmm.heapEnd) (hle.trans h.heapEnd_le)
  have hlt := lt_of_le_of_ne hmono hsame
  obtain ⟨hframe, hcases⟩ := heap_shrink h (pageAligned_pageAlign heap)
    (hlow.trans (le_pageAlign hword)) hlt hunmap
  rcases hcases with ⟨rfl, hspace, hrecs⟩ | ⟨rfl, l', hspace, hheap⟩
  · rw [if_neg (by decide)] at hend
    cases hend
    exact Or.inl ⟨hspace, hrecs, hframe.heapStart, hframe.heapEnd⟩
  · rw [if_pos rfl] at hend
    cases hend
    exact Or.inr ⟨rfl, hlow, hle.trans h.max, hword, hframe.heapStart, rfl, l',
      spaceInv_setHeapEnd hspace _, hheap⟩

/-- Growing the heap. -/
theorem heap_above (h : HeapInv held s l) {heap ret : ℕ} (hlt : s.vmm.heapEnd < heap)
    (hbig : heap ≤ add32 s.vmm.heapStart maxMemSpaceHeapSize)
    (hsame : pageAlign heap ≠ pageAlign s.vmm.heapEnd)
    (hfind : memSpaceFindIntersection s (pageAlign s.vmm.heapEnd)
      (add32 (pageAlign heap) pageSize) =
      some none) {t : AddrSpace} {r : ℕ}
    (hexpend : doMemSpaceExpendHeap s (pageAlign s.vmm.heapEnd)
      (sub32 (pageAlign heap) (pageAlign s.vmm.heapEnd)) = some (t, r))
    (hend : (s', ret) = if r = pageAlign s.vmm.heapEnd then (setHeapEnd t heap, heap)
      else (t, t.vmm.heapEnd)) :
    Kept held s s' l ∨ ret = heap ∧ Moved held s s' heap := by
  obtain ⟨hmax, hword⟩ := granted_le h hbig
  have hnew := le_pageAlign hword
  have hmono := pageAlign_le_of_le (pageAligned_pageAlign heap) (hlt.le.trans hnew)
  have hgrows := lt_of_le_of_ne hmono hsame.symm
  have htop := pageAlign_le_of_le (maxBreak_aligned h.start) hmax
  have hold := h.heapEnd_le
  have hstart := h.le
  have hnewA := pageAligned_pageAlign heap
  have holdA := pageAligned_pageAlign s.vmm.heapEnd
  have hminus : minusOne ≠ pageAlign s.vmm.heapEnd := by
    intro heq
    rw [← heq] at holdA
    exact absurd holdA (by decide)
  rw [sub32_of_le hgrows.le (pageAlign_lt heap)] at hexpend
  by_cases habove : userVmmTopAddr < pageAlign s.vmm.heapEnd
  · have hlen : PageAligned (pageAlign heap - pageAlign s.vmm.heapEnd) := by
      unfold PageAligned at *
      omega
    have hne : pageAlign (pageAlign heap - pageAlign s.vmm.heapEnd) ≠ 0 := by
      rw [pageAlign_eq_self hlen (lt_of_le_of_lt (Nat.sub_le _ _) (pageAlign_lt heap))]
      omega
    rw [expendHeap_above_top habove hne] at hexpend
    cases hexpend
    rw [if_neg hminus] at hend
    cases hend
    exact Or.inl (Kept.refl h)
  · have hfits : pageAlign heap + pageSize < wordSize := by
      norm_num at htop habove ⊢
      omega
    rw [add32_of_lt hfits] at hfind
    have hgap := gap_of_findIntersection h.space hfind
    obtain ⟨hframe, hcases⟩ := heap_grow h hnewA hgrows hfits hgap hexpend
    rcases hcases with hfail | ⟨rfl, l', hspace, hheap⟩
    · rw [hfail.ret, if_neg hminus] at hend
      cases hend
      exact Or.inl ⟨hfail.inv, hfail.recs, hframe.heapStart, hframe.heapEnd⟩
    · rw [if_pos rfl] at hend
      cases hend
      exact Or.inr ⟨rfl, hstart.trans hlt.le, hmax, hword, hframe.heapStart, rfl, l',
        spaceInv_setHeapEnd hspace _, hheap⟩

/-- **All a call that moves the break can do.**  It fails and changes nothing; or the break and
the heap move; or the request is so close to the end of memory that rounding it runs over to
zero, and that is where a heap ends that starts there and is not used. -/
theorem sysMemSpaceExpendHeap_cases (h : HeapInv held s l) {heap ret : ℕ} (hword : heap < wordSize)
    (hrun : sysMemSpaceExpendHeap s heap = some (s', ret)) :
    Kept held s s' l ∨ ret = heap ∧
      (Moved held s s' heap ∨ 4294963200 < heap ∧ s.vmm.heapEnd = 0) := by
  cases breakCall_of_run hrun with
  | refuse hend =>
      cases hend
      exact Or.inl (Kept.refl h)
  | inside hlow hsame hend =>
      cases hend
      refine Or.inr ⟨rfl, ?_⟩
      by_cases hwrap : heap ≤ 4294963200
      · -- the break moves inside its page
        have hle := (le_pageAlign hwrap).trans_eq hsame
        have hbound := pageAlign_le_of_le (maxBreak_aligned h.start) h.max
        exact Or.inl ⟨hlow, hle.trans hbound, hwrap, rfl, rfl, l, spaceInv_setHeapEnd h.space _,
          by rw [hsame]; exact h.heap⟩
      · have hzero := hsame.symm.trans (pageAlign_wraps (not_le.1 hwrap) hword)
        have hle := h.heapEnd_le
        exact Or.inr ⟨not_le.1 hwrap, by omega⟩
  | shrink hlow hsame hle t r hunmap hend =>
      exact (heap_below h hlow hle hsame hunmap hend).imp_right fun hok => ⟨hok.1, Or.inl hok.2⟩
  | grow hsame hlt hbig hfind t r hexpend hend =>
      exact (heap_above h hlt hbig hsame hfind hexpend hend).imp_right fun hok =>
        ⟨hok.1, Or.inl hok.2⟩

end Calls

/-! ## Runs -/

/-- The range of an unmapping does not meet the heap. -/
def ApartFromHeap (s : AddrSpace) (addr len : ℕ) : Prop :=
  addr + pageAlign len ≤ s.vmm.heapStart ∨ pageAlign s.vmm.heapEnd ≤ addr

/-- The unmapping leaves something of the space above its range. -/
def LeavesAbove (s : AddrSpace) (addr len : ℕ) : Prop :=
  match memSpaceFind s addr with
  | some (some p) => (s.recs p).start ≤ addr ∧ add32 addr (pageAlign len) < (s.recs p).end_
  | _ => False

/-- The record `mem_space_alloc` hands out next does not hold the flags of the heap from its
last use. -/
def RecordClean (s : AddrSpace) : Prop :=
  match s.supply with
  | some x :: _ => (s.recs x).flags ≠ memSpaceMapHeap
  | _ => True

/-- What a call has to stay clear of so that the heap stays what the break says: a mapping that
merges with the space above, runs past the end of the address space or has the flags of the
heap; an unmapping in the heap, past the end of the address space, or whose upper rest gets a
record that was a heap space; and a break that rounds to zero while the heap is `[0, 0)`. -/
def HeapCallOk (s : AddrSpace) : VmCall → Prop
  | .map addr _ len prot flags =>
      ¬ MapRefused addr (pageAlign len) prot →
        ∀ place ∈ mapPlace s addr (pageAlign len) flags, place ≠ minusOne →
          MapOk s place (pageAlign len) prot flags ∧ flags ≠ memSpaceMapHeap
  | .unmap addr len => ApartFromHeap s addr len ∧ UnmapOk s addr len ∧
      (LeavesAbove s addr len → RecordClean s)
  | .heap heap => heap < wordSize ∧ (heap ≤ 4294963200 ∨ s.vmm.heapEnd ≠ 0)

instance (s : AddrSpace) (addr len : ℕ) : Decidable (ApartFromHeap s addr len) :=
  inferInstanceAs (Decidable (_ ∨ _))

instance (s : AddrSpace) (addr len : ℕ) : Decidable (LeavesAbove s addr len) := by
  unfold LeavesAbove
  split <;> infer_instance

instance (s : AddrSpace) : Decidable (RecordClean s) := by
  unfold RecordClean
  split <;> infer_instance

instance (s : AddrSpace) : (call : VmCall) → Decidable (HeapCallOk s call)
  | .map _ _ _ _ _ => inferInstanceAs (Decidable (_ → _))
  | .unmap _ _ => inferInstanceAs (Decidable (_ ∧ _))
  | .heap _ => inferInstanceAs (Decidable (_ ∧ _))

section Step

variable {s s' : AddrSpace} {l l' held : List RecPtr}

/-- A call that does not touch the break or the heap. -/
theorem HeapInv.keep (h : HeapInv held s l) (hspace : SpaceInv held s' l')
    (hstart : s'.vmm.heapStart = s.vmm.heapStart) (hend : s'.vmm.heapEnd = s.vmm.heapEnd)
    (hheap : HeapIs (s'.spans l') s.vmm.heapStart (pageAlign s.vmm.heapEnd)) :
    HeapInv held s' l' := by
  refine ⟨hspace, ?_, ?_, ?_, ?_, ?_⟩
  · rw [hstart]
    exact h.start
  · rw [hstart, hend]
    exact h.le
  · rw [hstart, hend]
    exact h.max
  · rw [hend]
    exact h.word
  · rw [hstart, hend]
    exact hheap

theorem heapInv_map (h : HeapInv held s l) {addr paddr len prot flags ret : ℕ}
    (hcond : HeapCallOk s (.map addr paddr len prot flags))
    (hrun : doMemSpaceMap s addr paddr len prot flags = some (s', ret)) :
    ∃ l', HeapInv held s' l' := by
  have hcond' : CallOk s (.map addr paddr len prot flags) := fun hrefused place hplace hne =>
    (hcond hrefused place hplace hne).1
  rcases spaceInv_map_cases h.space hcond' hrun with
    ⟨hspace, hrecs, hframe⟩ | ⟨⟨hrefused, hplace, hne⟩, -, -, l', hspace, hins, -, hframe⟩
  · refine ⟨l, h.keep hspace hframe.heapStart hframe.heapEnd ?_⟩
    rw [spans_of_recs hrecs]
    exact h.heap
  · exact ⟨l', h.keep hspace hframe.heapStart hframe.heapEnd
      (h.heap.inserted hins (hcond hrefused ret hplace hne).2)⟩

theorem heapInv_unmap (h : HeapInv held s l) {addr len : ℕ} {ret : ℤ}
    (hcond : HeapCallOk s (.unmap addr len))
    (hrun : doMemSpaceUnmap s addr len = some (s', ret)) : ∃ l', HeapInv held s' l' := by
  obtain ⟨hapart, hok, hclean⟩ := hcond
  obtain ⟨hframe, hcases⟩ := spaceInv_unmap_cases h.space hok hrun
  rcases hcases with ⟨hspace, hrecs⟩ | ⟨hrefused, l', x, rest, hsupply, hspace, hcut⟩
  · refine ⟨l, h.keep hspace hframe.heapStart hframe.heapEnd ?_⟩
    rw [spans_of_recs hrecs]
    exact h.heap
  · refine ⟨l', h.keep hspace hframe.heapStart hframe.heapEnd ?_⟩
    obtain ⟨k₁, p, k₂, rfl, hfind, -, hinside, hwithin, hspans⟩ :=
      memSpaceFind_of_cut h.space.owned.chain hcut
    have hheap := h.heap
    rw [spans_append] at hheap
    rw [hspans]
    refine HeapIs.cut_other hheap ?_ ?_
    · -- the range starts in the space that is cut, so that is not the heap
      intro hp
      obtain ⟨hstart, hend⟩ := h.heap.only (s.span p) (by simp [AddrSpace.spans]) hp
      have hpos : pageAlign len ≠ 0 := fun hzero => hrefused (by simp [UnmapRefused, hzero])
      have h₁ := hinside.1
      have h₂ := hinside.2
      rcases hapart with hbelow | habove
      · omega
      · omega
    · intro hne
      have habove : LeavesAbove s addr len := by
        rw [LeavesAbove, hfind]
        exact ⟨hinside.1, lt_of_le_of_ne hwithin hne⟩
      have hrecord := hclean habove
      rw [RecordClean, hsupply] at hrecord
      exact hrecord

theorem heapInv_heap (h : HeapInv held s l) {heap ret : ℕ} (hcond : HeapCallOk s (.heap heap))
    (hrun : sysMemSpaceExpendHeap s heap = some (s', ret)) : ∃ l', HeapInv held s' l' := by
  rcases sysMemSpaceExpendHeap_cases h hcond.1 hrun with hkept | ⟨-, hmoved | ⟨hwrap, hzero⟩⟩
  · refine ⟨l, h.keep hkept.space hkept.heapStart hkept.heapEnd ?_⟩
    rw [spans_of_recs hkept.recs]
    exact h.heap
  · obtain ⟨l', hspace, hheap⟩ := hmoved.heap
    refine ⟨l', hspace, ?_, ?_, ?_, ?_, ?_⟩
    · rw [hmoved.heapStart]
      exact h.start
    · rw [hmoved.heapStart, hmoved.heapEnd]
      exact hmoved.le
    · rw [hmoved.heapStart, hmoved.heapEnd]
      exact hmoved.max
    · rw [hmoved.heapEnd]
      exact hmoved.word
    · rw [hmoved.heapStart, hmoved.heapEnd]
      exact hheap
  · rcases hcond.2 with hle | hne
    · omega
    · exact absurd hzero hne

end Step

theorem heapInv_step {held : List RecPtr} (s : AddrSpace) (call : VmCall) (s' : AddrSpace)
    (h : ∃ l, HeapInv held s l) (hcond : HeapCallOk s call) (hstep : vmStep s call = some s') :
    ∃ l, HeapInv held s' l := by
  obtain ⟨l, h⟩ := h
  cases call with
  | map addr paddr len prot flags =>
      obtain ⟨⟨t, ret⟩, hrun, rfl⟩ := Option.map_eq_some_iff.1 hstep
      exact heapInv_map h hcond hrun
  | unmap addr len =>
      obtain ⟨⟨t, ret⟩, hrun, rfl⟩ := Option.map_eq_some_iff.1 hstep
      exact heapInv_unmap h hcond hrun
  | heap heap =>
      obtain ⟨⟨t, ret⟩, hrun, rfl⟩ := Option.map_eq_some_iff.1 hstep
      exact heapInv_heap h hcond hrun

/-- The heap is what the break says. -/
structure HeapRight (s : AddrSpace) (l : List RecPtr) : Prop where
  /-- The heap spaces cover exactly the heap. -/
  covers : ∀ x, (∃ t ∈ s.spans l, IsHeap t ∧ t.Has x) ↔
    s.vmm.heapStart ≤ x ∧ x < pageAlign s.vmm.heapEnd
  /-- The break keeps to its bounds. -/
  bounds : s.vmm.heapStart ≤ s.vmm.heapEnd ∧
    s.vmm.heapEnd - s.vmm.heapStart ≤ maxMemSpaceHeapSize
  /-- No other space meets the heap. -/
  apart : ∀ t ∈ s.spans l, ¬ IsHeap t → ∀ x, t.Has x →
    ¬ (s.vmm.heapStart ≤ x ∧ x < pageAlign s.vmm.heapEnd)
  /-- A request that is not granted changes nothing. -/
  failed : ∀ heap < wordSize, ∀ s' ret, sysMemSpaceExpendHeap s heap = some (s', ret) →
    ret ≠ heap → Unchanged s s'

theorem heapRight_of_inv {held : List RecPtr} {s : AddrSpace} {l : List RecPtr}
    (h : HeapInv held s l) : HeapRight s l := by
  have hmax := h.max
  refine ⟨h.heap.covers, ⟨h.le, by omega⟩,
    fun t ht hother x hx => h.heap.apart h.space.ok.1 ht hother hx, ?_⟩
  intro heap hword s' ret hrun hne
  rcases sysMemSpaceExpendHeap_cases h hword hrun with hkept | ⟨heq, -⟩
  · exact ⟨l, h.space.owned.chain, hkept.space.owned.chain, hkept.recs, hkept.heapEnd⟩
  · exact absurd heq hne

/-- A process that has not used its heap. -/
structure HeapUnused (held : List RecPtr) (s : AddrSpace) (l : List RecPtr) : Prop where
  space : SpaceInv held s l
  start : PageAddr s.vmm.heapStart
  empty : s.vmm.heapEnd = s.vmm.heapStart
  none : ∀ t ∈ s.spans l, ¬ IsHeap t

theorem HeapUnused.heapInv {held : List RecPtr} {s : AddrSpace} {l : List RecPtr}
    (h : HeapUnused held s l) : HeapInv held s l := by
  have haligned := h.start.1
  have hword := h.start.2
  have hself : pageAlign s.vmm.heapStart = s.vmm.heapStart := pageAlign_eq_self haligned hword
  unfold PageAligned at haligned
  unfold wordSize at hword
  have hempty := h.empty
  refine ⟨h.space, h.start, h.empty.ge, h.empty.le.trans (Nat.le_add_right _ _), by omega, ?_⟩
  rw [h.empty, hself]
  exact ⟨fun t ht hheap => absurd hheap (h.none t ht), fun hlt => absurd hlt (lt_irrefl _)⟩

/-- **The heap is what the break says** in every run of mappings, unmappings and moves of the
break that starts with an unused heap and whose calls meet the condition. -/
theorem heap_run (held l₀ : List RecPtr) (s₀ : AddrSpace) (h₀ : HeapUnused held s₀ l₀)
    (calls : List VmCall) (s : AddrSpace) (hrun : Run.exec vmStep s₀ calls = some s)
    (hcond : Run.Along vmStep HeapCallOk s₀ calls) : ∃ l, s.Listed l ∧ HeapRight s l := by
  have hinv : ∃ l, HeapInv held s l :=
    Run.exec_invariant heapInv_step calls s₀ s ⟨l₀, h₀.heapInv⟩ hcond hrun
  obtain ⟨l, h⟩ := hinv
  exact ⟨l, h.space.owned.chain, heapRight_of_inv h⟩

theorem heapUnused_emptySpace (supply : List (Option RecPtr)) :
    HeapUnused [] (emptySpace supply) [] :=
  ⟨⟨owned_emptySpace supply, ⟨sorted_nil, by simp [AddrSpace.spans]⟩,
    (by decide : PageAligned 1610612736), by norm_num [emptySpace]⟩,
    ⟨(by decide : PageAligned 0), by norm_num [emptySpace]⟩, rfl, by simp [AddrSpace.spans]⟩

/-- A stack, a heap that grows twice and shrinks, and a private mapping that loses its middle. -/
theorem heap_run_emptySpace :
    ∃ s, Run.exec vmStep (emptySpace [some 0, some 1, some 2, some 3, some 4])
        [.map 2147467264 0 16384 18 48, .heap 5000, .heap 20000, .map 0 0 12288 22 0,
          .heap 100, .unmap 1610616832 4096] = some s ∧ ∃ l, s.Listed l ∧ HeapRight s l := by
  have hsome : (Run.exec vmStep (emptySpace [some 0, some 1, some 2, some 3, some 4])
      [.map 2147467264 0 16384 18 48, .heap 5000, .heap 20000, .map 0 0 12288 22 0,
        .heap 100, .unmap 1610616832 4096]).isSome = true := by decide +kernel
  obtain ⟨s, hs⟩ := Option.isSome_iff_exists.1 hsome
  exact ⟨s, hs, heap_run [] [] _ (heapUnused_emptySpace _) _ s hs (by decide +kernel)⟩

/-- The heap is used and given back.  Later the middle of a private mapping is unmapped, and
the record for the page above it is the one of the heap: now there is a heap space although
the heap is empty. -/
theorem heap_stale_record :
    ∃ s, Run.exec vmStep (emptySpace [some 0, some 1, some 2, some 3, some 1])
        [.map 2147467264 0 16384 18 48, .heap 4096, .heap 0, .map 65536 0 12288 22 16,
          .unmap 69632 4096] = some s ∧
      ¬ ∃ l, s.Listed l ∧ HeapRight s l := by
  have hlinks : (Run.exec vmStep (emptySpace [some 0, some 1, some 2, some 3, some 1])
      [.map 2147467264 0 16384 18 48, .heap 4096, .heap 0, .map 65536 0 12288 22 16,
        .unmap 69632 4096]).map (fun s =>
          (s.vmm.heapEnd, s.vmm.memSpaceHead, s.next 3, s.next 1, s.next 0)) =
      some (0, some 3, some 1, some 0, none) := by decide +kernel
  have hspan : (Run.exec vmStep (emptySpace [some 0, some 1, some 2, some 3, some 1])
      [.map 2147467264 0 16384 18 48, .heap 4096, .heap 0, .map 65536 0 12288 22 16,
        .unmap 69632 4096]).map (fun s => ((s.recs 1).start, (s.recs 1).end_, (s.recs 1).flags)) =
      some (73728, 77824, 64) := by decide +kernel
  obtain ⟨s, hs, hvals⟩ := Option.map_eq_some_iff.1 hlinks
  rw [hs, Option.map_some, Option.some.injEq] at hspan
  simp only [Prod.mk.injEq] at hvals hspan
  obtain ⟨hend, hhead, h₃, h₁, h₀⟩ := hvals
  obtain ⟨hstart₁, hend₁, hflags⟩ := hspan
  refine ⟨s, hs, ?_⟩
  rintro ⟨l, hl, hright⟩
  have hl' : s.Listed [3, 1, 0] := ⟨hhead, h₃, h₁, h₀⟩
  have hcovers := (hright.covers 73728).1
    ⟨s.span 1, by rw [hl.unique hl']; simp [AddrSpace.spans], hflags, hstart₁.le,
      by rw [span_end, hend₁]; decide⟩
  rw [hend, show pageAlign 0 = 0 by decide] at hcovers
  omega

end Vm
end LightOS
