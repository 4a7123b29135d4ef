import LightOS.Vmm.MemSpaceOwned

/-!
# Memory spaces of a process: the order of the list

Runs of `do_mem_space_map`, `do_mem_space_unmap` and `sys_mem_space_expend_heap`
on one address space, with `mem_alloc` and the page pool behaving as they like.

* `memSpace_wellFormed` — in every run that never merges a new space with the one
  above it and in which no range runs past the end of the address space, the
  list stays sorted, disjoint and page aligned.
* `doMemSpaceMap_cases` — what a mapping does to the list and the page tables.
* `spaceInv_map_cases`, `spaceInv_unmap_cases`, `breakCall_of_run` — what the calls do to a list in
  order.
-/

namespace LightOS
namespace Vm

open LinkedList Interval

/-! ## Order of the list -/

/-- The address of a page. -/
def PageAddr (v : ℕ) : Prop := PageAligned v ∧ v < wordSize

theorem PageAddr.add {a b : ℕ} (ha : PageAddr a) (hb : PageAligned b) (hlt : a + b < wordSize) :
    PageAddr (a + b) := by
  refine ⟨?_, hlt⟩
  have h₁ := ha.1
  unfold PageAligned at *
  omega

/-- Sorted, disjoint, non-empty and page aligned. -/
def SpansOk (l : List (Span Attrs)) : Prop :=
  Sorted l ∧ ∀ t ∈ l, PageAddr t.start ∧ PageAddr t.end_

theorem SpansOk.inserted {join : Attrs → Attrs → Prop} {t : Span Attrs} {l l' : List (Span Attrs)}
    (h : SpansOk l) (hins : Inserted join t l l') (ht : t.start < t.end_)
    (hstart : PageAddr t.start)
    (hend : PageAddr t.end_) (hgap : ∀ u ∈ l, u.end_ ≤ t.start ∨ t.end_ ≤ u.start) : SpansOk l' :=
  ⟨hins.sorted h.1 ht hgap, hins.forall_ends h.2 hstart hend⟩

theorem SpansOk.cut {a e : ℕ} {attr : Attrs} {l l' : List (Span Attrs)} (h : SpansOk l)
    (hcut : Cut a e attr l l') (hae : a ≤ e) (ha : PageAddr a) (he : PageAddr e) : SpansOk l' :=
  ⟨hcut.sorted h.1 hae, hcut.forall_ends h.2 ha he⟩

section Place

variable {s : AddrSpace} {l held : List RecPtr}

/-- Room for a new space: every space ends at or below `a` or starts at or above `e`. -/
def Gap (s : AddrSpace) (l : List RecPtr) (a e : ℕ) : Prop :=
  ∀ q ∈ l, (s.recs q).end_ ≤ a ∨ e ≤ (s.recs q).start

/-- Everything up to a point of a sorted list ends below `a`, what follows starts
above `e`. -/
theorem gap_of_split {l₁ l₂ : List RecPtr} {a e : ℕ} (hsorted : Sorted (s.spans (l₁ ++ l₂)))
    (h₁ : ∀ q ∈ l₁, (s.recs q).end_ ≤ a) (h₂ : ∀ q ∈ l₂.head?, e ≤ (s.recs q).start) :
    Gap s (l₁ ++ l₂) a e := by
  rw [spans_append] at hsorted
  have habove : ∀ t ∈ s.spans l₂, e ≤ t.start := by
    apply above_of_head (sorted_append.1 hsorted).2.1
    intro t ht
    rw [AddrSpace.spans, List.head?_map] at ht
    obtain ⟨q, hq, rfl⟩ := Option.mem_map.1 ht
    exact h₂ q hq
  intro q hq
  rcases List.mem_append.1 hq with hq | hq
  · exact Or.inl (h₁ q hq)
  · exact Or.inr (habove (s.span q) (List.mem_map_of_mem hq))

/-- The loop of `mem_space_get_unmaped` keeps everything behind it below the
address it considers. -/
theorem getUnmapedLoop_spec {len : ℕ} {l₂ : List RecPtr} :
    ∀ {l₁ : List RecPtr} {p : Option RecPtr} {addr rounds a : ℕ},
      Seg s.next p l₂ none → SpansOk (s.spans (l₁ ++ l₂)) →
      (∀ q ∈ l₁, (s.recs q).end_ ≤ addr) → PageAddr addr →
      getUnmapedLoop s len rounds addr p = some a →
      a = minusOne ∨ PageAddr a ∧ Gap s (l₁ ++ l₂) a (add32 a len) := by
  induction l₂ with
  | nil =>
      intro l₁ p addr rounds a hseg hok hbelow haddr hrun
      cases hseg
      cases rounds with
      | zero => cases hrun
      | succ rounds =>
          cases hrun
          exact Or.inr ⟨haddr, fun q hq => Or.inl (hbelow q (by simpa using hq))⟩
  | cons q l₂ ih =>
      intro l₁ p addr rounds a hseg hok hbelow haddr hrun
      obtain ⟨rfl, hseg⟩ := hseg
      cases rounds with
      | zero => cases hrun
      | succ rounds =>
          rw [getUnmapedLoop] at hrun
          split_ifs at hrun with htop hmap hfits
          · cases hrun
            exact Or.inl rfl
          · cases hrun
            exact Or.inl rfl
          · cases hrun
            exact Or.inr ⟨haddr, gap_of_split hok.1 hbelow fun r hr => by
              rw [List.head?_cons, Option.mem_some_iff] at hr
              rw [← hr]
              exact hfits⟩
          · rw [List.append_cons] at hok ⊢
            have hsorted := hok.1
            rw [spans_append, spans_append] at hsorted
            have hlast := (sorted_append.1 hsorted).1.end_le_of_concat
            refine ih hseg hok ?_ (hok.2 (s.span q) (List.mem_map_of_mem (by simp))).2 hrun
            intro r hr
            apply hlast (s.span r)
            rcases List.mem_append.1 hr with hr | hr
            · exact List.mem_append_left _ (List.mem_map_of_mem hr)
            · rw [List.mem_singleton.1 hr]
              exact List.mem_append_right _ (by simp)

/-- **Where `do_mem_space_map` puts a space there is room for it.** -/
theorem mapPlace_spec (h : Owned s l held) (hok : SpansOk (s.spans l))
    (hmap : PageAddr s.vmm.mapStart) {addr len flags a : ℕ} (haddr : addr ≤ userVmmTopAddr)
    (hrun : mapPlace s addr len flags = some a) :
    a = minusOne ∨ PageAddr a ∧ Gap s l a (add32 a len) := by
  unfold mapPlace at hrun
  split_ifs at hrun with hfixed halign
  · have haddr' : PageAddr addr := ⟨halign, lt_of_le_of_lt haddr (by norm_num)⟩
    obtain ⟨l₁, l₂, rfl, hbelow, -, hfind⟩ := memSpaceFindPrev_spec h.chain addr
    rw [memSpaceFind, hfind, Option.map_some, Option.map_some] at hrun
    cases l₂ with
    | nil =>
        cases hrun
        exact Or.inr ⟨haddr', fun q hq => Or.inl (hbelow q (by simpa using hq))⟩
    | cons q l₂ =>
        simp only [List.head?_cons, Option.some.injEq] at hrun
        split_ifs at hrun with hover
        · exact Or.inl hrun.symm
        · rw [← hrun]
          refine Or.inr ⟨haddr', gap_of_split hok.1 hbelow fun r hr => ?_⟩
          rw [List.head?_cons, Option.mem_some_iff] at hr
          rw [← hr]
          exact not_lt.1 hover
  · cases hrun
    exact Or.inl rfl
  · obtain ⟨p, hfind, hloop⟩ := Option.bind_eq_some_iff.1 hrun
    obtain ⟨l₁, l₂, rfl, hbelow, -, hprev⟩ := memSpaceFindPrev_spec h.chain s.vmm.mapStart
    rw [memSpaceFind, hprev, Option.map_some, Option.some.injEq] at hfind
    obtain ⟨m, -, hseg⟩ := seg_append.1 h.chain
    rw [hseg.head_eq] at hseg
    rw [← hfind] at hloop
    exact getUnmapedLoop_spec hseg hok hbelow hmap hloop

end Place

/-! ## Mapping -/

/-- **What a mapping does.**  It fails and leaves the list and the page tables
alone, or it inserts a space where there is room for it and fills the tables. -/
theorem doMemSpaceMap_cases {s s' : AddrSpace} {l held : List RecPtr} (h : Owned s l held)
    {addr paddr len prot flags ret : ℕ}
    (hmerge : ¬ MapRefused addr (pageAlign len) prot →
      ∀ place, mapPlace s addr (pageAlign len) flags = some place → place ≠ minusOne →
        ¬ MergesRight s (add32 place (pageAlign len)) (mapProt prot flags) flags)
    (hrun : doMemSpaceMap s addr paddr len prot flags = some (s', ret)) :
    ret = minusOne ∧ Owned s' l held ∧ s'.recs = s.recs ∧ Frame s s' ∨
      ret ≠ minusOne ∧ ∃ l', ¬ MapRefused addr (pageAlign len) prot ∧
        mapPlace s addr (pageAlign len) flags = some ret ∧ Owned s' l' held ∧
        Inserted Merges
          ⟨ret, add32 ret (pageAlign len), ⟨mapProt prot flags, flags, s.vmmAddr⟩⟩
          (s.spans l) (s'.spans l') ∧
        mapPages s.mm ret paddr (pageAlign len) (mapProt prot flags) flags = some s'.mm ∧
        Frame { s with mm := s'.mm } s' := by
  unfold doMemSpaceMap at hrun
  by_cases hrefused : MapRefused addr (pageAlign len) prot
  · rw [if_pos hrefused] at hrun
    cases hrun
    exact Or.inl ⟨rfl, h, rfl, Frame.refl s⟩
  · rw [if_neg hrefused] at hrun
    cases hplace : mapPlace s addr (pageAlign len) flags with
    | none => simp [hplace] at hrun
    | some place =>
        simp only [hplace] at hrun
        by_cases hfail : place = minusOne
        · rw [if_pos hfail] at hrun
          cases hrun
          exact Or.inl ⟨rfl, h, rfl, Frame.refl s⟩
        · rw [if_neg hfail] at hrun
          have hframe := frame_alloc s
          rcases memSpaceAlloc_spec h with ⟨t, halloc, ht, hrecs⟩ | ⟨t, x, rest, halloc, ht, hrecs,
            -⟩
          · rw [halloc] at hrun hframe
            cases hrun
            exact Or.inl ⟨rfl, ht, hrecs, hframe⟩
          · rw [halloc] at hrun hframe
            have hmerge' := fun hm => hmerge hrefused place hplace hfail
              (mergesRight_congr h ht (fun q _ => by rw [hrecs]) hm)
            obtain ⟨u, l', hins, howned, hframe', hinserted⟩ := insertNew_spec ht place hmerge'
            have hall := hframe.trans hframe'
            simp only [hins] at hrun
            obtain ⟨mm, hpages, hs'⟩ := Option.map_eq_some_iff.1 hrun
            rw [Prod.mk.injEq] at hs'
            obtain ⟨rfl, rfl⟩ := hs'
            rw [hall.mm] at hpages
            rw [spans_of_recs hrecs, show t.vmmAddr = s.vmmAddr from hframe.vmmAddr] at hinserted
            refine Or.inr ⟨hfail, l', hrefused, rfl, ?_, hinserted, hpages, ?_⟩
            · exact howned.congr (fun _ _ => rfl) rfl rfl rfl
            · exact ⟨rfl, hall.vmmAddr, hall.heapStart, hall.heapEnd, hall.mapStart, hall.mapEnd⟩

/-! ## Runs -/

/-- The three calls on an address space. -/
inductive VmCall where
  | map (addr paddr len prot flags : ℕ)
  | unmap (addr len : ℕ)
  | heap (heap : ℕ)

/-- One call. -/
def vmStep (s : AddrSpace) : VmCall → Option AddrSpace
  | .map addr paddr len prot flags => (doMemSpaceMap s addr paddr len prot flags).map Prod.fst
  | .unmap addr len => (doMemSpaceUnmap s addr len).map Prod.fst
  | .heap heap => (sysMemSpaceExpendHeap s heap).map Prod.fst

/-- The list from the head is sorted, disjoint, non-empty and page aligned. -/
def WellFormed (s : AddrSpace) : Prop :=
  ∃ l, s.Listed l ∧ Sorted (s.spans l) ∧
    ∀ t ∈ s.spans l, PageAligned t.start ∧ PageAligned t.end_

/-- A mapping that lies below the end of the address space and does not merge with
the space above it. -/
def MapOk (s : AddrSpace) (addr len prot flags : ℕ) : Prop :=
  addr + len < wordSize ∧ ¬ MergesRight s (addr + len) (mapProt prot flags) flags

/-- An unmapping that, if it starts inside a space, ends below the end of the
address space. -/
def UnmapOk (s : AddrSpace) (addr len : ℕ) : Prop :=
  wordSize ≤ addr + pageAlign len →
    ∀ space ∈ memSpaceFind s addr, ∀ p ∈ space, addr < (s.recs p).start

/-- What a call has to stay clear of: a merge with the space above, and ranges that
run past the end of the address space. -/
def CallOk (s : AddrSpace) : VmCall → Prop
  | .map addr _ len prot flags =>
      ¬ MapRefused addr (pageAlign len) prot →
        ∀ place ∈ mapPlace s addr (pageAlign len) flags, place ≠ minusOne →
          MapOk s place (pageAlign len) prot flags
  | .unmap addr len => UnmapOk s addr len
  | .heap heap =>
      if heap ≤ s.vmm.heapEnd then
        UnmapOk s (pageAlign heap) (sub32 (pageAlign s.vmm.heapEnd) (pageAlign heap))
      else heap ≤ add32 s.vmm.heapStart maxMemSpaceHeapSize → heap ≤ 4294959104

instance (s : AddrSpace) (addr len prot flags : ℕ) : Decidable (MapOk s addr len prot flags) :=
  inferInstanceAs (Decidable (_ ∧ _))

instance (s : AddrSpace) (addr len : ℕ) : Decidable (UnmapOk s addr len) :=
  inferInstanceAs (Decidable (_ → _))

instance (s : AddrSpace) : (call : VmCall) → Decidable (CallOk s call)
  | .map _ _ _ _ _ => inferInstanceAs (Decidable (_ → _))
  | .unmap _ _ => inferInstanceAs (Decidable (UnmapOk _ _ _))
  | .heap _ => by
      unfold CallOk
      infer_instance

/-- What every run keeps. -/
structure SpaceInv (held : List RecPtr) (s : AddrSpace) (l : List RecPtr) : Prop where
  owned : Owned s l held
  ok : SpansOk (s.spans l)
  mapStart : PageAddr s.vmm.mapStart

section Step

variable {s s' : AddrSpace} {l held : List RecPtr} {a e len ret : ℕ}

/-- Changes that keep the records and the list. -/
theorem SpaceInv.congr (h : SpaceInv held s l) (howned : Owned s' l held) (hrecs : s'.recs = s.recs)
    (hmap : s'.vmm.mapStart = s.vmm.mapStart) : SpaceInv held s' l :=
  ⟨howned, by rw [spans_of_recs hrecs]; exact h.ok, by rw [hmap]; exact h.mapStart⟩

/-- Putting a space into a gap. -/
theorem SpaceInv.inserted {l' : List RecPtr} {join : Attrs → Attrs → Prop} {t : Span Attrs}
    (h : SpaceInv held s l) (howned : Owned s' l' held)
    (hins : Inserted join t (s.spans l) (s'.spans l')) (ht : t.start < t.end_)
    (hstart : PageAddr t.start) (hend : PageAddr t.end_) (hgap : Gap s l t.start t.end_)
    (hmap : s'.vmm.mapStart = s.vmm.mapStart) : SpaceInv held s' l' := by
  refine ⟨howned, h.ok.inserted hins ht hstart hend fun u hu => ?_, by rw [hmap]; exact h.mapStart⟩
  obtain ⟨q, hq, rfl⟩ := List.mem_map.1 hu
  exact hgap q hq

/-- **What an unmapping does to a list in order**: nothing, or it cuts a space. -/
theorem spaceInv_unmap_cases (h : SpaceInv held s l) {addr len : ℕ} {ret : ℤ}
    (hcond : UnmapOk s addr len) (hrun : doMemSpaceUnmap s addr len = some (s', ret)) :
    Frame { s with mm := s'.mm } s' ∧ (SpaceInv held s' l ∧ s'.recs = s.recs ∨
      ¬ UnmapRefused addr len ∧ ∃ l' x rest, s.supply = some x :: rest ∧ SpaceInv held s' l' ∧
        Cut addr (add32 addr (pageAlign len)) (s.recs x).toAttrs (s.spans l) (s'.spans l')) := by
  obtain ⟨hframe, hcases⟩ := doMemSpaceUnmap_spec h.owned hrun
  refine ⟨hframe, ?_⟩
  rcases hcases with ⟨-, howned, hrecs⟩ | ⟨-, -, rfl, -⟩ |
    ⟨-, hrefused, l', x, rest, hsupply, howned, hcut⟩
  · exact Or.inl ⟨h.congr howned hrecs hframe.mapStart, hrecs⟩
  · exact Or.inl ⟨h, rfl⟩
  · refine Or.inr ⟨hrefused, l', x, rest, hsupply, ?_, hcut⟩
    simp only [UnmapRefused, not_or, not_not, not_lt] at hrefused
    obtain ⟨halign, htop, -, -, -⟩ := hrefused
    have haddr : PageAddr addr := ⟨halign, lt_of_le_of_lt htop (by norm_num)⟩
    have hlen := pageAligned_pageAlign len
    have hend : PageAddr (add32 addr (pageAlign len)) := by
      refine ⟨?_, add32_lt _ _⟩
      unfold PageAligned add32 at *
      omega
    refine ⟨howned, h.ok.cut hcut ?_ haddr hend, by rw [hframe.mapStart]; exact h.mapStart⟩
    by_contra hwrap
    -- a range that runs over starts inside no space, but the cut was made in one
    have hover : wordSize ≤ addr + pageAlign len := by
      by_contra hfits
      rw [add32_of_lt (not_le.1 hfits)] at hwrap
      omega
    obtain ⟨-, p, -, -, hfind, -, hinside, -, -⟩ := memSpaceFind_of_cut h.owned.chain hcut
    exact absurd hinside.1 (not_le.2 (hcond hover _ hfind p rfl))

theorem spaceInv_unmap (h : SpaceInv held s l) {addr len : ℕ} {ret : ℤ} (hcond : UnmapOk s addr len)
    (hrun : doMemSpaceUnmap s addr len = some (s', ret)) : ∃ l', SpaceInv held s' l' := by
  rcases (spaceInv_unmap_cases h hcond hrun).2 with ⟨hinv, -⟩ | ⟨-, l', x, rest, -, hinv, -⟩
  · exact ⟨l, hinv⟩
  · exact ⟨l', hinv⟩

/-- **What a mapping does to a list in order**: nothing, or it puts a space into a gap. -/
theorem spaceInv_map_cases (h : SpaceInv held s l) {addr paddr len prot flags ret : ℕ}
    (hcond : CallOk s (.map addr paddr len prot flags))
    (hrun : doMemSpaceMap s addr paddr len prot flags = some (s', ret)) :
    SpaceInv held s' l ∧ s'.recs = s.recs ∧ Frame s s' ∨
      (¬ MapRefused addr (pageAlign len) prot ∧
          mapPlace s addr (pageAlign len) flags = some ret ∧ ret ≠ minusOne) ∧
        PageAddr ret ∧ Gap s l ret (ret + pageAlign len) ∧ ∃ l', SpaceInv held s' l' ∧
          Inserted Merges
            ⟨ret, ret + pageAlign len, ⟨mapProt prot flags, flags, s.vmmAddr⟩⟩
            (s.spans l) (s'.spans l') ∧
          mapPages s.mm ret paddr (pageAlign len) (mapProt prot flags) flags = some s'.mm ∧
          Frame { s with mm := s'.mm } s' := by
  have hmerge : ¬ MapRefused addr (pageAlign len) prot →
      ∀ place, mapPlace s addr (pageAlign len) flags = some place → place ≠ minusOne →
        ¬ MergesRight s (add32 place (pageAlign len)) (mapProt prot flags) flags := by
    intro hrefused place hplace hne
    obtain ⟨hfits, hno⟩ := hcond hrefused place hplace hne
    rwa [add32_of_lt hfits]
  rcases doMemSpaceMap_cases h.owned hmerge hrun with
    ⟨-, howned, hrecs, hframe⟩ | ⟨hne, l', hrefused, hplace, howned, hins, hpages, hframe⟩
  · exact Or.inl ⟨h.congr howned hrecs hframe.mapStart, hrecs, hframe⟩
  · obtain ⟨hfits, -⟩ := hcond hrefused ret hplace hne
    have hgiven := hrefused
    simp only [MapRefused, not_or, not_lt] at hgiven
    obtain ⟨-, hlen, -, htop, -, -⟩ := hgiven
    obtain ⟨hpage, hgap⟩ := (mapPlace_spec h.owned h.ok h.mapStart htop hplace).resolve_left hne
    rw [add32_of_lt hfits] at hins hgap
    have hinv : SpaceInv held s' l' :=
      h.inserted howned hins (show ret < ret + pageAlign len by omega) hpage
        (hpage.add (pageAligned_pageAlign len) hfits) hgap hframe.mapStart
    exact Or.inr ⟨⟨hrefused, hplace, hne⟩, hpage, hgap, l', hinv, hins, hpages, hframe⟩

theorem spaceInv_map (h : SpaceInv held s l) {addr paddr len prot flags ret : ℕ}
    (hcond : CallOk s (.map addr paddr len prot flags))
    (hrun : doMemSpaceMap s addr paddr len prot flags = some (s', ret)) :
    ∃ l', SpaceInv held s' l' := by
  rcases spaceInv_map_cases h hcond hrun with ⟨hinv, -⟩ | ⟨-, -, -, l', hinv, -⟩
  · exact ⟨l, hinv⟩
  · exact ⟨l', hinv⟩

/-- The span of a new part of the heap. -/
abbrev heapSpan (s : AddrSpace) (a e : ℕ) : Span Attrs :=
  ⟨a, e, ⟨protUser ||| protWrite ||| protExec, memSpaceMapHeap, s.vmmAddr⟩⟩

/-- The call has failed and left the list as it was. -/
structure Refused (held : List RecPtr) (s s' : AddrSpace) (l : List RecPtr) (ret : ℕ) : Prop where
  ret : ret = minusOne
  inv : SpaceInv held s' l
  recs : s'.recs = s.recs

/-- **A heap space is put into a gap** that reaches further than the space. -/
theorem heapInsert_cases (h : SpaceInv held s l) (hfits : PageAddr (a + len)) (ha : PageAddr a)
    (hpos : 0 < len) (hgap : Gap s l a (a + len + pageSize))
    (hrun : heapInsert s a len = some (s', ret)) :
    Frame s s' ∧ (Refused held s s' l ret ∨
      ret = a ∧ ∃ l', SpaceInv held s' l' ∧
        Inserted Merges (heapSpan s a (a + len)) (s.spans l) (s'.spans l')) := by
  unfold heapInsert at hrun
  have hframe := frame_alloc s
  rw [add32_of_lt hfits.2] at hrun
  rcases memSpaceAlloc_spec h.owned with ⟨t, halloc, ht, hrecs⟩ | ⟨t, x, rest, halloc, ht, hrecs, -⟩
  · rw [halloc] at hrun hframe
    cases hrun
    exact ⟨hframe, Or.inl ⟨rfl, h.congr ht hrecs hframe.mapStart, hrecs⟩⟩
  · rw [halloc] at hrun hframe
    have hspans : t.spans l = s.spans l := spans_of_recs hrecs l
    have hmerge : ¬ MergesRight t (a + len) (protUser ||| protWrite ||| protExec)
        memSpaceMapHeap := by
      rintro ⟨-, q, hq, hstart, -, -⟩
      rw [nextSpace_eq ht.chain] at hq
      have hmem := List.mem_of_find?_eq_some hq
      have hne := h.ok.1.2 (s.span q) (List.mem_map_of_mem hmem)
      rw [hrecs] at hstart
      rcases hgap q hmem with hlow | hhigh
      · simp only [span_start, span_end] at hne
        omega
      · unfold pageSize at hhigh
        omega
    obtain ⟨u, l', hins, howned, hframe', hinserted⟩ := insertNew_spec ht a hmerge
    simp only [hins, Option.map_some, Option.some.injEq, Prod.mk.injEq] at hrun
    obtain ⟨rfl, rfl⟩ := hrun
    rw [hspans, show t.vmmAddr = s.vmmAddr from hframe.vmmAddr] at hinserted
    refine ⟨hframe.trans hframe', Or.inr ⟨rfl, l', h.inserted howned hinserted
      (Nat.lt_add_of_pos_right hpos) ha hfits ?_ (hframe.trans hframe').mapStart, hinserted⟩⟩
    intro q hq
    exact (hgap q hq).imp_right fun hhigh => (Nat.le_add_right _ _).trans hhigh

/-- The intervals after one of them was given another end. -/
theorem modify_end_spans {l₁ l₂ : List RecPtr} {p : RecPtr} (hnd : (l₁ ++ p :: l₂).Nodup) (e : ℕ) :
    (s.modify p fun r => { r with end_ := e }).spans (l₁ ++ p :: l₂) =
      s.spans l₁ ++ ⟨(s.span p).start, e, (s.span p).attr⟩ :: s.spans l₂ := by
  have hkeep : ∀ q, q ≠ p → (s.modify p fun r => { r with end_ := e }).span q = s.span q :=
    fun q hq => modify_span_of_ne s p _ hq
  rw [spans_append, spans_congr fun q hq => hkeep q fun hqp =>
    (List.nodup_append.1 hnd).2.2 q hq p (by simp) hqp]
  congr 1
  show (s.modify p _).span p :: (s.modify p _).spans l₂ = _
  rw [spans_congr fun q hq => hkeep q fun hqp =>
    (List.nodup_cons.1 (List.nodup_append.1 hnd).2.1).1 (hqp ▸ hq)]
  simp [AddrSpace.span]

/-- The heap space that ends where the new part starts is made longer. -/
theorem spaceInv_heapExtend (h : SpaceInv held s l) (hfits : PageAddr (a + len)) (ha : PageAddr a)
    (hpos : 0 < len) (hgap : Gap s l a (a + len + pageSize)) {p : RecPtr}
    (hfind : memSpaceFind s (a - 1) = some (some p)) (hend : (s.recs p).end_ = a) :
    SpaceInv held (s.modify p fun r => { r with end_ := a + len }) l := by
  obtain ⟨l₁, l₂, rfl, hbefore, -⟩ := memSpaceFind_split h.owned.chain hfind
  have hnd := (List.nodup_append.1 h.owned.nodup).1
  have hsorted := h.ok.1
  rw [show l₁ ++ p :: l₂ = l₁ ++ ([p] ++ l₂) from rfl, spans_append, spans_append] at hsorted
  have hne : ∀ q ∈ l₁ ++ p :: l₂, (s.recs q).start < (s.recs q).end_ := fun q hq =>
    h.ok.1.2 (s.span q) (List.mem_map_of_mem hq)
  have hins : Inserted (fun _ _ => True) ⟨a, a + len, (s.span p).attr⟩ (s.spans (l₁ ++ p :: l₂))
      ((s.modify p fun r => { r with end_ := a + len }).spans (l₁ ++ p :: l₂)) := by
    rw [modify_end_spans hnd, spans_append]
    refine Inserted.extend _ _ _ ?_ ?_ hend trivial
    · intro u hu
      have hu' : u.start < a := by
        rcases List.mem_append.1 hu with hu | hu
        · obtain ⟨q, hq, rfl⟩ := List.mem_map.1 hu
          have h₁ := hbefore q hq
          have h₂ := hne q (by simp [hq])
          simp only [span_start]
          omega
        · rw [List.mem_singleton.1 hu, span_start, ← hend]
          exact hne p (by simp)
      show ¬ a + len ≤ u.start
      omega
    · intro u hu
      have hmem := List.mem_of_head? hu
      obtain ⟨q, hq, rfl⟩ := List.mem_map.1 hmem
      have hpq := (sorted_append.1 (sorted_append.1 hsorted).2.1).2.2 (s.span p)
        (by simp [AddrSpace.spans])
        (s.span q) hmem
      have h₂ := hne q (by simp [hq])
      simp only [span_end, span_start] at hpq ⊢
      rcases hgap q (by simp [hq]) with hlow | hhigh
      · omega
      · show a + len ≤ _
        omega
  refine h.inserted (h.owned.congr (fun q _ => ?_) rfl rfl rfl) hins
    (Nat.lt_add_of_pos_right hpos) ha hfits ?_ rfl
  · rw [modify_next_eq _ _ (fun r => { r with end_ := a + len }) fun _ => rfl]
  · intro q hq
    exact (hgap q hq).imp_right fun hhigh => (Nat.le_add_right _ _).trans hhigh

/-- What the heap space is that `do_mem_space_expend_heap` makes longer. -/
def ExtendsHeap (s : AddrSpace) (a : ℕ) (p : RecPtr) : Prop :=
  memSpaceFind s (a - 1) = some (some p) ∧ (s.recs p).end_ = a ∧ (s.recs p).flags = memSpaceMapHeap

/-- **Growing the heap** into a gap that reaches further than the new part.  It fails and leaves
the list alone; or the space that ends where the new part starts and has exactly the flags of
the heap is made longer; or, if there is none, a new space is put in. -/
theorem expendHeap_cases (h : SpaceInv held s l) (hfits : PageAddr (a + len)) (ha : PageAddr a)
    (hlen : PageAligned len) (hpos : 0 < len) (hgap : Gap s l a (a + len + pageSize))
    (hrun : doMemSpaceExpendHeap s a len = some (s', ret)) :
    Frame { s with mm := s'.mm } s' ∧ (Refused held s s' l ret ∨
      ret = a ∧ ((∃ p, ExtendsHeap s a p ∧ s' = (s.modify p fun r => { r with end_ := a + len }) ∧
          SpaceInv held s' l) ∨
        (∀ p, a ≠ 0 → ¬ ExtendsHeap s a p) ∧ ∃ l', SpaceInv held s' l' ∧
          Inserted Merges (heapSpan s a (a + len)) (s.spans l) (s'.spans l'))) := by
  have hself : pageAlign len = len :=
    pageAlign_eq_self hlen (lt_of_le_of_lt (Nat.le_add_left _ _) hfits.2)
  unfold doMemSpaceExpendHeap at hrun
  rw [hself, if_neg (by omega)] at hrun
  cases hunmap : doMemSpaceUnmap s a len with
  | none => simp [hunmap] at hrun
  | some tr =>
      obtain ⟨t, r⟩ := tr
      simp only [hunmap] at hrun
      obtain ⟨hframe, hcases⟩ := doMemSpaceUnmap_spec h.owned hunmap
      rcases hcases with ⟨rfl, howned, hrecs⟩ | ⟨rfl, -, rfl, -⟩ | ⟨-, -, l', x, rest, -, -, hcut⟩
      · rw [if_pos rfl] at hrun
        cases hrun
        exact ⟨hframe, Or.inl ⟨rfl, h.congr howned hrecs hframe.mapStart, hrecs⟩⟩
      · rw [if_neg (by decide)] at hrun
        -- the new space, if the heap is not made longer in place
        have hnew : (∀ p, a ≠ 0 → ¬ ExtendsHeap t a p) → heapInsert t a len = some (s', ret) →
            Frame { t with mm := s'.mm } s' ∧ (Refused held t s' l ret ∨
              ret = a ∧ ((∃ p, ExtendsHeap t a p ∧
                  s' = (t.modify p fun r => { r with end_ := a + len }) ∧ SpaceInv held s' l) ∨
                (∀ p, a ≠ 0 → ¬ ExtendsHeap t a p) ∧ ∃ l', SpaceInv held s' l' ∧
                  Inserted Merges (heapSpan t a (a + len)) (t.spans l) (s'.spans l'))) := by
          intro hnot hins
          obtain ⟨hframe', hres⟩ := heapInsert_cases h hfits ha hpos hgap hins
          refine ⟨?_, hres.imp_right fun hok => ⟨hok.1, Or.inr ⟨hnot, hok.2⟩⟩⟩
          rw [hframe'.mm]
          exact hframe'
        by_cases hzero : a = 0
        · rw [if_pos hzero] at hrun
          exact hnew (fun _ hne => absurd hzero hne) hrun
        · rw [if_neg hzero] at hrun
          split at hrun
          · cases hrun
          · rename_i hfind
            refine hnew (fun p _ hp => ?_) hrun
            have := hp.1
            rw [hfind] at this
            cases this
          · rename_i p hfind
            by_cases hheap : (t.recs p).end_ = a ∧ (t.recs p).flags = memSpaceMapHeap
            · rw [if_pos hheap, add32_of_lt hfits.2] at hrun
              cases hrun
              exact ⟨frame_modify _ _ _, Or.inr ⟨rfl, Or.inl ⟨p, ⟨hfind, hheap⟩, rfl,
                spaceInv_heapExtend h hfits ha hpos hgap hfind hheap.1⟩⟩⟩
            · rw [if_neg hheap] at hrun
              refine hnew (fun q _ hq => hheap ?_) hrun
              have := hq.1
              rw [hfind, Option.some.injEq, Option.some.injEq] at this
              subst this
              exact hq.2
      · -- nothing is there to be cut
        obtain ⟨l₁, p, l₂, rfl, -, -, hinside, -, -⟩ := memSpaceFind_of_cut h.owned.chain hcut
        have h₁ := hinside.1
        have h₂ := hinside.2
        simp only [span_start, span_end] at h₁ h₂
        rcases hgap p (by simp) with hlow | hhigh
        · omega
        · omega

/-- Growing the heap keeps the list in order. -/
theorem spaceInv_expendHeap (h : SpaceInv held s l) (hfits : PageAddr (a + len)) (ha : PageAddr a)
    (hlen : PageAligned len) (hpos : 0 < len) (hgap : Gap s l a (a + len + pageSize))
    (hrun : doMemSpaceExpendHeap s a len = some (s', ret)) : ∃ l', SpaceInv held s' l' := by
  obtain ⟨-, hfail | ⟨-, ⟨p, -, -, hinv⟩ | ⟨-, l', hinv, -⟩⟩⟩ :=
    expendHeap_cases h hfits ha hlen hpos hgap hrun
  · exact ⟨l, hfail.inv⟩
  · exact ⟨l, hinv⟩
  · exact ⟨l', hinv⟩

theorem spaceInv_setHeapEnd (h : SpaceInv held s l) (heap : ℕ) :
    SpaceInv held (setHeapEnd s heap) l :=
  h.congr (h.owned.congr (fun _ _ => rfl) rfl rfl rfl) rfl rfl

/-- What `mem_space_find_intersection` does not find is not there. -/
theorem gap_of_findIntersection (h : SpaceInv held s l)
    (hfind : memSpaceFindIntersection s a e = some none) : Gap s l a e := by
  obtain ⟨l₁, l₂, rfl, hbefore, -, hprev⟩ := memSpaceFindPrev_spec h.owned.chain a
  rw [memSpaceFindIntersection, memSpaceFind, hprev, Option.map_some, Option.map_some] at hfind
  apply gap_of_split h.ok.1 hbefore
  intro q hq
  rw [hq] at hfind
  simp only [Option.some.injEq, ite_eq_left_iff, reduceCtorEq, imp_false, not_not] at hfind
  exact hfind

/-- What a call that moves the break to `heap` does: it refuses, or the break stays in its page, or
the heap is to shrink, or to grow where there is room. -/
inductive BreakCall (s : AddrSpace) (heap : ℕ) (s' : AddrSpace) (ret : ℕ) : Prop
  | refuse (hend : (s', ret) = (s, s.vmm.heapEnd))
  | inside (hlow : s.vmm.heapStart ≤ heap) (hsame : pageAlign heap = pageAlign s.vmm.heapEnd)
      (hend : (s', ret) = (setHeapEnd s heap, heap))
  | shrink (hlow : s.vmm.heapStart ≤ heap) (hne : pageAlign heap ≠ pageAlign s.vmm.heapEnd)
      (hle : heap ≤ s.vmm.heapEnd) (t : AddrSpace) (r : ℤ)
      (hunmap : doMemSpaceUnmap s (pageAlign heap)
        (sub32 (pageAlign s.vmm.heapEnd) (pageAlign heap)) =
        some (t, r))
      (hend : (s', ret) = if r = 0 then (setHeapEnd t heap, heap) else (t, t.vmm.heapEnd))
  | grow (hne : pageAlign heap ≠ pageAlign s.vmm.heapEnd) (hlt : s.vmm.heapEnd < heap)
      (hbig : heap ≤ add32 s.vmm.heapStart maxMemSpaceHeapSize)
      (hfind : memSpaceFindIntersection s (pageAlign s.vmm.heapEnd)
        (add32 (pageAlign heap) pageSize) =
        some none) (t : AddrSpace) (r : ℕ)
      (hexpend : doMemSpaceExpendHeap s (pageAlign s.vmm.heapEnd)
        (sub32 (pageAlign heap) (pageAlign s.vmm.heapEnd)) = some (t, r))
      (hend : (s', ret) = if r = pageAlign s.vmm.heapEnd then (setHeapEnd t heap, heap)
        else (t, t.vmm.heapEnd))

/-- **The cases of a call that moves the break.** -/
theorem breakCall_of_run {heap ret : ℕ} (hrun : sysMemSpaceExpendHeap s heap = some (s', ret)) :
    BreakCall s heap s' ret := by
  unfold sysMemSpaceExpendHeap at hrun
  simp only at hrun
  by_cases hlow : heap < s.vmm.heapStart
  · rw [if_pos hlow] at hrun
    exact .refuse (Option.some.inj hrun).symm
  · rw [if_neg hlow] at hrun
    by_cases hsame : pageAlign heap = pageAlign s.vmm.heapEnd
    · rw [if_pos hsame] at hrun
      exact .inside (not_lt.1 hlow) hsame (Option.some.inj hrun).symm
    · rw [if_neg hsame] at hrun
      by_cases hshrink : heap ≤ s.vmm.heapEnd
      · rw [if_pos hshrink] at hrun
        split at hrun
        · cases hrun
        · rename_i t r hunmap
          rw [← apply_ite some] at hrun
          exact .shrink (not_lt.1 hlow) hsame hshrink t r hunmap (Option.some.inj hrun).symm
      · rw [if_neg hshrink] at hrun
        by_cases hbig : add32 s.vmm.heapStart maxMemSpaceHeapSize < heap
        · rw [if_pos hbig] at hrun
          exact .refuse (Option.some.inj hrun).symm
        · rw [if_neg hbig] at hrun
          split at hrun
          · cases hrun
          · exact .refuse (Option.some.inj hrun).symm
          · rename_i hfind
            split at hrun
            · cases hrun
            · rename_i t r hexpend
              rw [← apply_ite some] at hrun
              exact .grow hsame (not_le.1 hshrink) (not_lt.1 hbig) hfind t r hexpend
                (Option.some.inj hrun).symm

/-- The end of such a call, whether the break is written or not. -/
theorem spaceInv_breakEnd {t : AddrSpace} (ht : SpaceInv held t l) {heap ret : ℕ} {c : Prop}
    [Decidable c] (hend : (s', ret) = if c then (setHeapEnd t heap, heap) else (t, t.vmm.heapEnd)) :
    SpaceInv held s' l := by
  split_ifs at hend
  · cases hend
    exact spaceInv_setHeapEnd ht heap
  · cases hend
    exact ht

theorem spaceInv_heap (h : SpaceInv held s l) {heap : ℕ} (hcond : CallOk s (.heap heap))
    (hrun : sysMemSpaceExpendHeap s heap = some (s', ret)) : ∃ l', SpaceInv held s' l' := by
  simp only [CallOk] at hcond
  cases breakCall_of_run hrun with
  | refuse hend =>
      cases hend
      exact ⟨l, h⟩
  | inside _ _ hend =>
      cases hend
      exact ⟨l, spaceInv_setHeapEnd h _⟩
  | shrink _ _ hle t r hunmap hend =>
      rw [if_pos hle] at hcond
      obtain ⟨l', ht⟩ := spaceInv_unmap h hcond hunmap
      exact ⟨l', spaceInv_breakEnd ht hend⟩
  | grow hsame hgrows hbig hfind t r hexpend hend =>
      rw [if_neg (not_le.2 hgrows)] at hcond
      have htop := hcond hbig
      obtain ⟨old, hold⟩ : ∃ old, old = pageAlign s.vmm.heapEnd := ⟨_, rfl⟩
      obtain ⟨new, hnew⟩ : ∃ new, new = pageAlign heap := ⟨_, rfl⟩
      have hnewA : PageAligned new := hnew ▸ pageAligned_pageAlign heap
      have holdA : PageAligned old := hold ▸ pageAligned_pageAlign s.vmm.heapEnd
      have hlt : old < new ∧ new ≤ 4294959104 := by
        rw [hold, hnew]
        unfold pageAlign pageMask add32 at hsame ⊢
        omega
      have hsum : old + (new - old) = new := by omega
      have hlenA : PageAligned (new - old) := by
        unfold PageAligned at *
        omega
      rw [← hold, ← hnew] at hfind hexpend
      rw [add32_of_lt (show new + pageSize < 4294967296 by unfold pageSize; omega)] at hfind
      rw [sub32_of_le (le_of_lt hlt.1) (by omega)] at hexpend
      have hgap := gap_of_findIntersection h hfind
      rw [← hsum] at hgap
      obtain ⟨l', ht⟩ := spaceInv_expendHeap h
        (by rw [hsum]; exact ⟨hnewA, by unfold wordSize; omega⟩)
        ⟨holdA, by unfold wordSize; omega⟩ hlenA (by omega) hgap hexpend
      exact ⟨l', spaceInv_breakEnd ht hend⟩

end Step

theorem spaceInv_step {held : List RecPtr} (s : AddrSpace) (call : VmCall) (s' : AddrSpace)
    (h : ∃ l, SpaceInv held s l) (hcond : CallOk s call) (hstep : vmStep s call = some s') :
    ∃ l, SpaceInv held s' l := by
  obtain ⟨l, h⟩ := h
  cases call with
  | map addr paddr len prot flags =>
      obtain ⟨⟨t, ret⟩, hrun, rfl⟩ := Option.map_eq_some_iff.1 hstep
      exact spaceInv_map h hcond hrun
  | unmap addr len =>
      obtain ⟨⟨t, ret⟩, hrun, rfl⟩ := Option.map_eq_some_iff.1 hstep
      exact spaceInv_unmap h hcond hrun
  | heap heap =>
      obtain ⟨⟨t, ret⟩, hrun, rfl⟩ := Option.map_eq_some_iff.1 hstep
      exact spaceInv_heap h hcond hrun

/-- **The list stays in order.**  From an empty list, in every run that never merges
a new space with the one above it and whose ranges stay below the end of the
address space. -/
theorem memSpace_wellFormed (held : List RecPtr) (s₀ : AddrSpace) (h₀ : Owned s₀ [] held)
    (hmap : PageAligned s₀.vmm.mapStart ∧ s₀.vmm.mapStart < wordSize) (calls : List VmCall)
    (s : AddrSpace) (hrun : Run.exec vmStep s₀ calls = some s)
    (hcond : Run.Along vmStep CallOk s₀ calls) : WellFormed s := by
  have hstart : SpaceInv held s₀ [] := ⟨h₀, ⟨sorted_nil, by simp [AddrSpace.spans]⟩, hmap⟩
  have hinv : ∃ l, SpaceInv held s l :=
    Run.exec_invariant spaceInv_step calls s₀ s ⟨[], hstart⟩ hcond hrun
  obtain ⟨l, h⟩ := hinv
  exact ⟨l, h.owned.chain, h.ok.1, fun t ht => ⟨(h.ok.2 t ht).1.1, (h.ok.2 t ht).2.1⟩⟩

/-- A stack below the top of the user half, a private mapping, a heap that grows
into one, shrinks, and a hole in the mapping. -/
theorem memSpace_wellFormed_emptySpace :
    ∃ s, Run.exec vmStep (emptySpace [some 0, some 1, some 2, some 3, some 4])
        [.map 2147467264 0 16384 18 48, .map 0 0 12288 22 0, .heap 8192, .heap 4096,
          .unmap 1610616832 4096] = some s ∧ WellFormed s := by
  have hsome : (Run.exec vmStep (emptySpace [some 0, some 1, some 2, some 3, some 4])
      [.map 2147467264 0 16384 18 48, .map 0 0 12288 22 0, .heap 8192, .heap 4096,
        .unmap 1610616832 4096]).isSome = true := by decide +kernel
  obtain ⟨s, hs⟩ := Option.isSome_iff_exists.1 hsome
  exact ⟨s, hs, memSpace_wellFormed [] _ (owned_emptySpace _)
    (by decide) _ s hs (by decide +kernel)⟩

/-- A space is mapped right below one with the same protection and flags; the next
mapping gets the record that was freed while it stayed on the list, and links it
to itself. -/
theorem memSpace_not_wellFormed :
    ∃ s, Run.exec vmStep (emptySpace [some 0, some 1, some 1])
        [.map 8192 0 4096 22 16, .map 4096 0 4096 22 16, .map 32768 0 4096 22 16] = some s ∧
      ¬ WellFormed s := by
  have hsome : (Run.exec vmStep (emptySpace [some 0, some 1, some 1])
      [.map 8192 0 4096 22 16, .map 4096 0 4096 22 16, .map 32768 0 4096 22 16]).map
        (fun s => (s.vmm.memSpaceHead, s.next 1)) = some (some 1, some 1) := by decide +kernel
  obtain ⟨s, hs, hvals⟩ := Option.map_eq_some_iff.1 hsome
  simp only [Prod.mk.injEq] at hvals
  obtain ⟨hhead, hloop⟩ := hvals
  refine ⟨s, hs, ?_⟩
  rintro ⟨l, hchain, -⟩
  rw [AddrSpace.Listed, hhead] at hchain
  exact not_seg_of_loop hloop l hchain

end Vm
end LightOS
