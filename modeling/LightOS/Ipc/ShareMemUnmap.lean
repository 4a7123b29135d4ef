import LightOS.Ipc.ShareMemBasic
import LightOS.Vmm.MemSpaceFail

/-!
# Shared memory: what an unmapping does

`share_mem_unmap`, for every address, every table of segments and every contents of the page tables
of a process whose spaces are in order.

* `shareMemUnmap_found` — the space is the first one that ends above the address, the segment the
  one whose first frame the address has; neither is compared with the other.
* `doMemSpaceUnmap_whole` — the space goes, or there is no record and only its pages go.
* `shareMemUnmap_exact_iff` — when the call removes the space the address lies in, or nothing.
-/

namespace LightOS

namespace PageUnmap

open MemPool

/-! ## The pages of a range -/

/-- Nothing of the range is there, and no table to give back. -/
def NothingThere (m : Mm) (start len : ℕ) : Prop :=
  (∀ w < wordSize, InRange start len w → m.present w = false) ∧ ¬ TableGoes m start len

/-- A table that is given back is one of the pool's frames. -/
def TableFrameOk (m : Mm) (start len : ℕ) : Prop :=
  TableGoes m start len → memNodeFreePages m.ranges (pageMask (m.pde (lastTable start len))) ≠ none

section Pages

variable {m : Mm} {start len : ℕ} {fixed : Bool} {t : Unmapping}

/-- A range of the user half has no page of the window. -/
theorem ordinary_of_inRange {w : ℕ} (hin : InRange start len w)
    (htop : start + len ≤ userVmmTopAddr) : Ordinary w :=
  ordinary_of_lt (lt_trans (lt_of_lt_of_le hin.2 htop) (by norm_num))

theorem not_inRange_tablePage (htop : start + len ≤ userVmmTopAddr) (i : ℕ) :
    ¬ InRange start len (tablePage i) := by
  unfold InRange tablePage windowStart
  unfold userVmmTopAddr at htop
  omega

/-- The directory is as before unless the table goes. -/
theorem Left.same (h : Left m start len fixed t) (htop : start + len ≤ userVmmTopAddr) {i : ℕ}
    (hi : i < 1024) (hstays : ¬ TableGoes m start len) : t.mm.pde i = m.pde i := by
  rw [h.pde i hi, if_neg]
  rintro (⟨hgoes, -⟩ | ⟨hin, -⟩)
  · exact hstays hgoes
  · exact not_inRange_tablePage htop i hin

/-- All entries are as before only if there was nothing to do. -/
theorem Left.same_iff (h : Left m start len fixed t) (htop : start + len ≤ userVmmTopAddr) :
    (∀ w < wordSize, t.mm.entry w = m.entry w) ↔ NothingThere m start len := by
  constructor
  · intro hsame
    refine ⟨fun w hw hin => Bool.eq_false_of_not_eq_true fun hpresent => ?_, fun hgoes => ?_⟩
    · have hcleared := h.entry w hw (ordinary_of_inRange hin htop)
      rw [if_pos ⟨hin, hpresent⟩, hsame w hw] at hcleared
      rw [Mm.present, Bool.and_eq_true, hcleared, hasFlag_clearPresent] at hpresent
      cases hpresent.2
    · have hword : start + len < wordSize := lt_of_le_of_lt htop (by norm_num)
      have hidx : lastTable start len < 1024 := dirIdx_lt (lt_of_le_of_lt (Nat.sub_le ..) hword)
      have hpage : tablePage (lastTable start len) < wordSize := by
        unfold tablePage windowStart pageSize wordSize
        omega
      have hcleared := h.pde _ hidx
      rw [if_pos (Or.inl ⟨hgoes, rfl⟩), ← entry_tablePage hidx, hsame _ hpage,
        entry_tablePage hidx] at hcleared
      have hthere := hgoes.2.1
      rw [hcleared, hasFlag_clearPresent] at hthere
      cases hthere
  · rintro ⟨hnone, hstays⟩ w hw
    by_cases hdir : dirIdx w = 1023
    · rw [(Left.entry_window t.mm hdir).1, (Left.entry_window m hdir).1,
        h.same htop (Left.entry_window m hdir).2.1 hstays]
    · rw [h.entry w hw hdir, if_neg]
      rintro ⟨hin, hpresent⟩
      rw [hnone w hw hin] at hpresent
      cases hpresent

theorem rangeFrames_nothing (htop : start + len ≤ userVmmTopAddr)
    (hnone : NothingThere m start len) :
    rangeFrames m start (len / pageSize) = [] := by
  rw [rangeFrames, presentPages, List.map_eq_nil_iff, List.filter_eq_nil_iff]
  intro w hw hpresent
  obtain ⟨i, hi, rfl⟩ := List.mem_range'.1 hw
  have hin : InRange start len (start + pageSize * i) := by
    unfold InRange pageSize at *
    omega
  rw [hnone.1 _ (lt_trans (lt_of_lt_of_le hin.2 htop) (by norm_num)) hin] at hpresent
  cases hpresent

/-- Where there is nothing to do, the call comes back, and nothing has changed. -/
theorem pageUnmapAddrSafe_nothing (fixed : Bool) (hstart : PageAligned start)
    (hlen : PageAligned len)
    (htop : start + len ≤ userVmmTopAddr) (hnone : NothingThere m start len) :
    ∃ m', pageUnmapAddrSafe m start len fixed = some m' ∧ m'.ranges = m.ranges := by
  have h : Left m start len fixed _ :=
    pageUnmapTraced_left hstart hlen (lt_of_le_of_lt htop (by norm_num))
  have hfrees : (pageUnmapTraced m start len fixed).frees = [] := by
    rw [Unmapping.frees, h.pages, h.tables, if_neg hnone.2, rangeFrames_nothing htop hnone,
      ite_self]
    rfl
  rw [pageUnmapAddrSafe_traced, hfrees]
  exact ⟨_, rfl, rfl⟩

/-- The pages of a segment are not freed, so the call comes back unless a table is no frame of the
pool. -/
theorem pageUnmapAddrSafe_fixed (hstart : PageAligned start) (hlen : PageAligned len)
    (htop : start + len ≤ userVmmTopAddr) :
    pageUnmapAddrSafe m start len true ≠ none ↔ TableFrameOk m start len := by
  have h : Left m start len true _ :=
    pageUnmapTraced_left hstart hlen (lt_of_le_of_lt htop (by norm_num))
  rw [pageUnmapAddrSafe_traced, Unmapping.frees, h.pages, if_pos rfl, List.nil_append, h.tables,
    ne_eq, Option.map_eq_none_iff]
  unfold TableFrameOk
  by_cases hgoes : TableGoes m start len
  · rw [if_pos hgoes, forall_prop_of_true hgoes]
    simp only [List.map_cons, List.map_nil, freeAll]
    cases memNodeFreePages m.ranges (pageMask (m.pde (lastTable start len))) <;> simp
  · rw [if_neg hgoes]
    exact iff_of_true (Option.some_ne_none _) fun hg => absurd hg hgoes

/-- What the call leaves, wherever it comes back. -/
theorem pageUnmapAddrSafe_left (hstart : PageAligned start) (hlen : PageAligned len)
    (htop : start + len ≤ userVmmTopAddr) {m' : Mm}
    (hrun : pageUnmapAddrSafe m start len fixed = some m') :
    ∃ t, Left m start len fixed t ∧ ∃ r, m' = onPool t.mm r := by
  rw [pageUnmapAddrSafe_traced] at hrun
  obtain ⟨r, -, rfl⟩ := Option.map_eq_some_iff.1 hrun
  exact ⟨_, pageUnmapTraced_left hstart hlen (lt_of_le_of_lt htop (by norm_num)), r, rfl⟩

end Pages

end PageUnmap

namespace Shm

open LinkedList Interval Vm MemPool PageUnmap

/-! ## A space of the user half -/

/-- The spaces of a process are in order and in the user half, each with a record of its own. -/
structure SpacesOk (a : AddrSpace) (k : List RecPtr) : Prop where
  owned : Owned a k []
  ok : SpansOk (a.spans k)
  top : ∀ sp ∈ a.spans k, sp.end_ ≤ userVmmTopAddr

/-- The other spaces of a sorted list are below or above. -/
theorem sorted_apart {l₁ l₂ : List (Span Attrs)} {sp u : Span Attrs} (h : Sorted (l₁ ++ sp :: l₂))
    (hu : u ∈ l₁ ++ l₂) :
    u.end_ ≤ sp.start ∨ sp.end_ ≤ u.start := by
  obtain ⟨-, htail, hcross⟩ := sorted_append.1 h
  rcases List.mem_append.1 hu with hu | hu
  · exact Or.inl (hcross u hu sp (by simp))
  · exact Or.inr ((sorted_cons.1 htail).2.2 u hu)

section Whole

variable {a b : AddrSpace} {k l₁ l₂ m₁ m₂ : List RecPtr} {p q : RecPtr} {addr len : ℕ} {ret : ℤ}

/-- Unmapping a space of the user half as a whole. -/
theorem cutsInto_whole {p : RecPtr} (hfind : memSpaceFind a (a.recs p).start = some (some p))
    (hstart : PageAligned (a.recs p).start) (hend : PageAligned (a.recs p).end_)
    (hlt : (a.recs p).start < (a.recs p).end_) (htop : (a.recs p).end_ ≤ userVmmTopAddr) :
    pageAlign (sub32 (a.recs p).end_ (a.recs p).start) = (a.recs p).end_ - (a.recs p).start ∧
      CutsInto a (a.recs p).start (sub32 (a.recs p).end_ (a.recs p).start) p := by
  have hlen : sub32 (a.recs p).end_ (a.recs p).start = (a.recs p).end_ - (a.recs p).start :=
    sub32_of_le (le_of_lt hlt) (lt_of_le_of_lt htop (by norm_num))
  have halign : pageAlign ((a.recs p).end_ - (a.recs p).start) =
      (a.recs p).end_ - (a.recs p).start := by
    refine pageAlign_eq_self ?_ ?_
    · unfold PageAligned at *
      omega
    · unfold userVmmTopAddr at htop
      omega
  rw [hlen, halign]
  refine ⟨rfl, ?_, hfind, le_rfl, ?_⟩
  · rw [UnmapRefused, halign, sub32_of_le (by omega) (by norm_num)]
    unfold userVmmTopAddr userVmmBaseAddr at *
    rintro (hbad | hbad | hbad | hbad | hbad)
    · exact hbad hstart
    all_goals omega
  · rw [halign, add32_of_lt (by unfold userVmmTopAddr at htop; omega)]
    omega

/-- The range lies in a space: the call does not come back only if `page_unmap_addr_safe` does not.
-/
theorem doMemSpaceUnmap_ne_none (h : CutsInto a addr len p) :
    doMemSpaceUnmap a addr len ≠ none ↔ pageUnmapAddrSafe a.mm addr (pageAlign len)
    (isShared (a.recs p)) ≠ none := by
  obtain ⟨hrefused, hfind, hlow, hhigh⟩ := h
  obtain ⟨⟨prev, found⟩, hprev, rfl⟩ := Option.map_eq_some_iff.1 hfind
  unfold doMemSpaceUnmap
  simp only [if_neg hrefused, hprev, if_neg (not_or.2 ⟨not_lt.2 hlow, not_lt.2 hhigh⟩),
    ← isShared.eq_1]
  cases pageUnmapAddrSafe a.mm addr (pageAlign len) (isShared (a.recs p)) with
  | none => exact iff_of_false (fun h => h rfl) fun h => h rfl
  | some mm =>
      refine iff_of_true ?_ (Option.some_ne_none _)
      simp only
      split <;> exact Option.some_ne_none _

/-- The space below which an address lies is found from its start as well. -/
theorem SpacesOk.found (h : SpacesOk a k) (hfind : memSpaceFind a addr = some (some p)) :
    (∃ l₁ l₂, k = l₁ ++ p :: l₂) ∧ addr < (a.recs p).end_ ∧
      CutsInto a (a.recs p).start (sub32 (a.recs p).end_ (a.recs p).start) p := by
  obtain ⟨l₁, l₂, rfl, -, hend⟩ := memSpaceFind_split h.owned.chain hfind
  have hp : a.span p ∈ a.spans (l₁ ++ p :: l₂) := List.mem_map_of_mem (by simp)
  obtain ⟨hstart, hstop⟩ := h.ok.2 _ hp
  have hlt := h.ok.1.2 _ hp
  have hbefore : ∀ q ∈ l₁, (a.recs q).end_ ≤ (a.recs p).start := by
    have hsorted := h.ok.1
    rw [spans_append] at hsorted
    exact fun q hq => (sorted_append.1 hsorted).2.2 _ (List.mem_map_of_mem hq) _
      (List.mem_map_of_mem (by simp))
  have hfirst := memSpaceFind_of_split h.owned.chain hbefore hlt
  exact ⟨⟨l₁, l₂, rfl⟩, hend, (cutsInto_whole hfirst hstart.1 hstop.1 hlt (h.top _ hp)).2⟩

/-- The range of a whole space. -/
theorem SpacesOk.range (h : SpacesOk a (l₁ ++ p :: l₂)) :
    PageAligned (a.recs p).start ∧ PageAligned ((a.recs p).end_ - (a.recs p).start) ∧
      (a.recs p).start < (a.recs p).end_ ∧
      (a.recs p).start + ((a.recs p).end_ - (a.recs p).start) ≤ userVmmTopAddr ∧
      pageAlign (sub32 (a.recs p).end_ (a.recs p).start) = (a.recs p).end_ - (a.recs p).start := by
  have hp : a.span p ∈ a.spans (l₁ ++ p :: l₂) := List.mem_map_of_mem (by simp)
  obtain ⟨⟨hstart, -⟩, ⟨hstop, -⟩⟩ := h.ok.2 _ hp
  have hlt := h.ok.1.2 _ hp
  have htop := h.top _ hp
  simp only [span_start, span_end] at hstart hstop hlt htop
  have halign : PageAligned ((a.recs p).end_ - (a.recs p).start) := by
    unfold PageAligned at *
    omega
  refine ⟨hstart, halign, hlt, by omega, ?_⟩
  rw [sub32_of_le hlt.le (lt_of_le_of_lt htop (by norm_num))]
  exact pageAlign_eq_self halign (lt_of_le_of_lt (Nat.sub_le ..)
    (lt_of_le_of_lt htop (by norm_num)))

/-- The range of a space that is found. -/
theorem SpacesOk.found_range (h : SpacesOk a k) (hfind : memSpaceFind a addr = some (some p)) :
    PageAligned (a.recs p).start ∧ PageAligned ((a.recs p).end_ - (a.recs p).start) ∧
      (a.recs p).start < (a.recs p).end_ ∧
      (a.recs p).start + ((a.recs p).end_ - (a.recs p).start) ≤ userVmmTopAddr ∧
      pageAlign (sub32 (a.recs p).end_ (a.recs p).start) = (a.recs p).end_ - (a.recs p).start := by
  obtain ⟨⟨m₁, m₂, rfl⟩, -⟩ := h.found hfind
  exact h.range

/-- The addresses of a space are those of its range. -/
theorem has_iff_inRange (hlt : (a.recs p).start < (a.recs p).end_) (w : ℕ) :
    (a.span p).Has w ↔ InRange (a.recs p).start ((a.recs p).end_ - (a.recs p).start) w := by
  rw [Span.Has, InRange, span_start, span_end]
  omega

/-- **A space is unmapped as a whole**: it goes, or there is no record and only its pages go. -/
theorem doMemSpaceUnmap_whole (h : SpacesOk a k) (hfind : memSpaceFind a addr = some (some p))
    (hrun : doMemSpaceUnmap a (a.recs p).start (sub32 (a.recs p).end_ (a.recs p).start) =
      some (b, ret)) :
    pageUnmapAddrSafe a.mm (a.recs p).start ((a.recs p).end_ - (a.recs p).start)
    (isShared (a.recs p)) = some b.mm ∧
      Frame { a with mm := b.mm } b ∧
      (ret = -1 ∧ (memSpaceAlloc a).2 = none ∧ (∃ rest, b = { a with mm := b.mm, supply := rest }) ∨
        ret = 0 ∧ (memSpaceAlloc a).2 ≠ none ∧ ∃ l₁ l₂ k', k = l₁ ++ p :: l₂ ∧ Owned b k' [] ∧
          b.spans k' = a.spans l₁ ++ a.spans l₂) := by
  obtain ⟨⟨m₁, m₂, rfl⟩, -, hcuts⟩ := h.found hfind
  obtain ⟨-, -, hlt, htop, hlen⟩ := h.range
  have hsum : add32 (a.recs p).start ((a.recs p).end_ - (a.recs p).start) = (a.recs p).end_ := by
    rw [add32_of_lt (lt_of_le_of_lt htop (by norm_num))]
    omega
  rcases doMemSpaceUnmap_cases h.owned hrun with
    ⟨-, hnot⟩ | ⟨q, l₁, l₂, hq, hl, hpages, hframe, hrest⟩
  · exact absurd hcuts (hnot p)
  · have hqp := hq.2.1
    rw [hcuts.2.1, Option.some.injEq, Option.some.injEq] at hqp
    subst hqp
    rw [hlen] at hpages hrest
    refine ⟨hpages, hframe, ?_⟩
    rcases hrest with ⟨-, hnone, -⟩ | ⟨hret, x, k', halloc, howned, -, hnew⟩
    · rw [← hlen] at hpages
      obtain ⟨rest, hfail⟩ := doMemSpaceUnmap_noRecord hcuts hnone hpages
      rw [hrun, Option.some.injEq, Prod.mk.injEq] at hfail
      exact Or.inl ⟨hfail.2, hnone, rest, hfail.1⟩
    · refine Or.inr ⟨hret, by rw [halloc]; exact Option.some_ne_none _, l₁, l₂, k', hl, howned, ?_⟩
      rw [hnew, hsum, Span.below, if_pos (span_start ..), Span.above, if_pos (span_end ..).symm,
        List.append_nil, List.append_nil]

/-- Which space is gone can be told from what is left. -/
theorem SpacesOk.gone_unique (h : SpacesOk a k) (hp : k = m₁ ++ p :: m₂) (hq : k = l₁ ++ q :: l₂)
    (hleft : a.spans l₁ ++ a.spans l₂ = a.spans m₁ ++ a.spans m₂) : q = p := by
  by_contra hne
  have hmem : q ∈ m₁ ++ m₂ := by
    have hq' : q ∈ m₁ ++ p :: m₂ := by
      rw [← hp, hq]
      simp
    simpa [hne] using hq'
  have hspan : a.span q ∈ a.spans l₁ ++ a.spans l₂ := by
    rw [hleft, ← spans_append]
    exact List.mem_map_of_mem hmem
  have hsorted := h.ok.1
  rw [hq, spans_append] at hsorted
  have hlt := hsorted.2 (a.span q) (by simp [AddrSpace.spans])
  rcases sorted_apart hsorted hspan with hle | hle <;> omega

end Whole

/-! ## What is promised -/

/-- The address lies in a shared space of the process, which is mapped from segment `i`. -/
structure MapsAt (s : ShmState) (t addr : ℕ) (p : RecPtr) (i : ℕ) : Prop where
  has : ((s.space t).span p).Has addr
  shared : isShared ((s.space t).recs p) = true
  segment : SharedAs s.table (s.space t).mm ((s.space t).span p) i

/-- The space `p` between `l₁` and `l₂` is gone, and segment `i` has a link less. -/
structure Detached (s s' : ShmState) (t : ℕ) (l₁ : List RecPtr) (p : RecPtr) (l₂ : List RecPtr)
    (i : ℕ) : Prop where
  spaces : ∃ k, Owned (s'.space t) k [] ∧ (s'.space t).spans k =
    (s.space t).spans l₁ ++ (s.space t).spans l₂
  gone : ∀ w < wordSize, ((s.space t).span p).Has w → (s'.space t).mm.present w = false
  pages : ∀ w < wordSize, Ordinary w → ¬ ((s.space t).span p).Has w →
    (s'.space t).mm.entry w = (s.space t).mm.entry w
  rest : Frame { s.space t with mm := (s'.space t).mm } (s'.space t)
  others : ∀ u ≠ t, s'.procs u = s.procs u
  pids : s'.pids = s.pids
  table : s'.table = addAll s.table (Pi.single i (-1))

/-- Nothing has changed, but for what `mem_alloc` is going to return. -/
structure Untouched (s s' : ShmState) (t : ℕ) : Prop where
  spaces : ∃ rest, s'.space t = { s.space t with mm := (s'.space t).mm, supply := rest }
  entries : ∀ w < wordSize, (s'.space t).mm.entry w = (s.space t).mm.entry w
  ranges : s'.ranges = s.ranges
  others : ∀ u ≠ t, s'.procs u = s.procs u
  pids : s'.pids = s.pids
  table : s'.table = s.table

/-- What is promised of `share_mem_unmap` of an address: it returns 0 and the shared space the
address lies in is gone, or it returns -1 and nothing has changed. -/
def ExactUnmap (s : ShmState) (t : ℕ) (k : List RecPtr) (addr : ℕ)
    (result : Option (ShmState × ℤ)) : Prop :=
  ∃ s' ret, result = some (s', ret) ∧
    (ret = 0 ∧ (∃ l₁ p l₂ i, k = l₁ ++ p :: l₂ ∧ MapsAt s t addr p i ∧ Detached s s' t l₁ p l₂ i) ∨
      ret = -1 ∧ Untouched s s' t)

/-- The space found for the address is a shared one the address lies in, mapped from the segment
found, and a record is there; or no record is there, and nothing of the space. -/
def UnmapGood (s : ShmState) (t addr : ℕ) (p : RecPtr) (i : ℕ) : Prop :=
  let r := (s.space t).recs p
  (memSpaceAlloc (s.space t)).2 ≠ none ∧ MapsAt s t addr p i ∧
    TableFrameOk (s.space t).mm r.start (r.end_ - r.start) ∨
    (memSpaceAlloc (s.space t)).2 = none ∧ NothingThere (s.space t).mm r.start (r.end_ - r.start)

/-- No address is given, or it lies above all spaces, or a segment is found for it, through a page
table that is there, that is not private, and its unmapping is right. -/
def ExactAt (s : ShmState) (t shmaddr addr : ℕ) : Prop :=
  shmaddr ≠ 0 → ∀ p, memSpaceFind (s.space t) addr = some (some p) →
    ∃ i, segmentAt s t addr = some i ∧
      hasFlag (s.table i).flags shareMemPrivate = false ∧ UnmapGood s t addr p i

section Exact

variable {s s' : ShmState} {t shmaddr shmflg addr i : ℕ} {k l₁ l₂ : List RecPtr} {p : RecPtr}
  {ret : ℤ}

/-- **The call, for a space that is found.** -/
theorem shareMemUnmap_found (hzero : shmaddr ≠ 0)
    (hfind : memSpaceFind (s.space t) (unmapAddr shmaddr shmflg) = some (some p)) :
    shareMemUnmap s t shmaddr shmflg =
      match segmentAt s t (unmapAddr shmaddr shmflg) with
      | none => none
      | some i =>
          if hasFlag (s.table i).flags shareMemPrivate then some (addLinks s i (-1), 0)
          else
            (doMemSpaceUnmap (s.space t) ((s.space t).recs p).start
                (sub32 ((s.space t).recs p).end_ ((s.space t).recs p).start)).map fun ar =>
              if ar.2 = -1 then (s.setSpace t ar.1, -1)
              else (addLinks (s.setSpace t ar.1) i (-1), ar.2) := by
  unfold shareMemUnmap
  simp only [if_neg hzero, show (if hasFlag shmflg ipcRnd then pageMask shmaddr else shmaddr) =
    unmapAddr shmaddr shmflg from rfl, hfind]
  rfl

/-- Nothing at all happens. -/
theorem untouched_self (s : ShmState) (t : ℕ) : Untouched s s t :=
  ⟨⟨(s.space t).supply, rfl⟩, fun _ _ => rfl, rfl, fun _ _ => rfl, rfl, rfl⟩

/-- Where the spaces are the same, none is gone. -/
theorem not_detached (hspace : s'.space t = s.space t) (h : Owned (s.space t) (l₁ ++ p :: l₂) []) :
    ¬ Detached s s' t l₁ p l₂ i := by
  intro hgone
  obtain ⟨k, howned, hleft⟩ := hgone.spaces
  rw [hspace] at howned hleft
  obtain rfl := howned.chain.unique h.chain
  have hlen := congrArg List.length hleft
  simp only [AddrSpace.spans, List.length_map, List.length_append, List.length_cons] at hlen
  omega

/-- A link less is a link less of one segment. -/
theorem addAll_single_injective {table : ℕ → ShareMem} {i j : ℕ}
    (h : addAll table (Pi.single i (-1)) = addAll table (Pi.single j (-1))) : i = j := by
  by_contra hne
  have hi := congrArg ShareMem.links (congrFun h i)
  simp only [addAll, Pi.single_eq_same, Pi.single_eq_of_ne hne] at hi
  omega

/-- **With a record the space is gone**, and its segment has a link less. -/
theorem detached_of_unmapped {b : AddrSpace} (h : SpacesOk (s.space t) k)
    (hfind : memSpaceFind (s.space t) addr = some (some p))
    (hdo : doMemSpaceUnmap (s.space t) ((s.space t).recs p).start
      (sub32 ((s.space t).recs p).end_ ((s.space t).recs p).start) = some (b, 0)) :
    ∃ l₁ l₂, k = l₁ ++ p :: l₂ ∧ Detached s (addLinks (s.setSpace t b) i (-1)) t l₁ p l₂ i := by
  obtain ⟨hstart, halign, hlt, htop, -⟩ := h.found_range hfind
  obtain ⟨hpages, hframe, ⟨hret, -⟩ | ⟨-, -, l₁, l₂, k', hk', howned, hspans⟩⟩ :=
    doMemSpaceUnmap_whole h hfind hdo
  · cases hret
  · obtain ⟨u, hleft, pool, hmm⟩ := pageUnmapAddrSafe_left hstart halign htop hpages
    have hspace : (addLinks (s.setSpace t b) i (-1)).space t = b := setSpace_space s t b
    refine ⟨l₁, l₂, hk', ⟨k', ?_, ?_⟩, fun w hw hin => ?_, fun w hw hord hout => ?_, ?_,
      fun v hv => ?_, rfl, ?_⟩
    · rw [hspace]
      exact howned
    · rw [hspace]
      exact hspans
    · rw [hspace, hmm]
      exact hleft.gone hstart halign hw ((has_iff_inRange hlt w).1 hin)
    · rw [hspace, hmm, onPool_entry, hleft.entry w hw hord, if_neg]
      exact fun hin => hout ((has_iff_inRange hlt w).2 hin.1)
    · rw [hspace]
      exact hframe
    · exact Function.update_of_ne hv ..
    · rw [addLinks_eq]
      rfl

/-- What is gone is the space that was found, and the link that of the segment that was found. -/
theorem detached_unique {b : AddrSpace} {q : RecPtr} {j : ℕ} (h : SpacesOk (s.space t) k)
    (hfind : memSpaceFind (s.space t) addr = some (some p))
    (hdo : doMemSpaceUnmap (s.space t) ((s.space t).recs p).start
      (sub32 ((s.space t).recs p).end_ ((s.space t).recs p).start) = some (b, 0))
    (hq : k = l₁ ++ q :: l₂)
    (hdetached : Detached s (addLinks (s.setSpace t b) i (-1)) t l₁ q l₂ j) :
    q = p ∧ j = i := by
  obtain ⟨m₁, m₂, hp, hfound⟩ := detached_of_unmapped (i := i) h hfind hdo
  obtain ⟨k', howned, hspans⟩ := hdetached.spaces
  obtain ⟨k'', howned', hspans'⟩ := hfound.spaces
  obtain rfl := howned.chain.unique howned'.chain
  refine ⟨h.gone_unique hp hq (hspans.symm.trans hspans'), ?_⟩
  exact addAll_single_injective (hdetached.table.symm.trans hfound.table)

/-- **Without a record nothing has changed exactly if nothing was there.** -/
theorem untouched_iff {b : AddrSpace} (h : SpacesOk (s.space t) k)
    (hfind : memSpaceFind (s.space t) addr = some (some p))
    (hdo : doMemSpaceUnmap (s.space t) ((s.space t).recs p).start
      (sub32 ((s.space t).recs p).end_ ((s.space t).recs p).start) = some (b, -1)) :
    Untouched s (s.setSpace t b) t ↔
      NothingThere (s.space t).mm ((s.space t).recs p).start
        (((s.space t).recs p).end_ - ((s.space t).recs p).start) := by
  obtain ⟨hstart, halign, -, htop, -⟩ := h.found_range hfind
  obtain ⟨hpages, -, ⟨-, -, hsame⟩ | ⟨hret, -⟩⟩ := doMemSpaceUnmap_whole h hfind hdo
  · obtain ⟨u, hleft, pool, hmm⟩ := pageUnmapAddrSafe_left hstart halign htop hpages
    constructor
    · intro huntouched
      have hentries := huntouched.entries
      rw [setSpace_space, hmm] at hentries
      exact (hleft.same_iff htop).1 hentries
    · intro hthere
      obtain ⟨m', hm', hranges⟩ :=
        pageUnmapAddrSafe_nothing (isShared ((s.space t).recs p)) hstart halign htop hthere
      rw [hm', Option.some.injEq] at hpages
      refine ⟨?_, ?_, ?_, fun v hv => Function.update_of_ne hv .., rfl, rfl⟩
      · rw [setSpace_space]
        exact hsame
      · rw [setSpace_space, hmm]
        exact (hleft.same_iff htop).2 hthere
      · exact (congrArg Mm.ranges hpages).symm.trans hranges
  · cases hret

/-- **The unmapping of the space that is found.** -/
theorem exactUnmap_found_iff (h : SpacesOk (s.space t) k)
    (hfind : memSpaceFind (s.space t) addr = some (some p)) :
    ExactUnmap s t k addr ((doMemSpaceUnmap (s.space t) ((s.space t).recs p).start
        (sub32 ((s.space t).recs p).end_ ((s.space t).recs p).start)).map fun ar =>
          if ar.2 = -1 then (s.setSpace t ar.1, -1)
          else (addLinks (s.setSpace t ar.1) i (-1), ar.2)) ↔
      UnmapGood s t addr p i := by
  obtain ⟨hstart, halign, -, htop, hlen⟩ := h.found_range hfind
  have hback := doMemSpaceUnmap_ne_none (h.found hfind).2.2
  rw [hlen] at hback
  constructor
  · rintro ⟨s', ret, hrun, hcase⟩
    obtain ⟨⟨b, r⟩, hdo, heq⟩ := Option.map_eq_some_iff.1 hrun
    obtain ⟨hpages, -, ⟨rfl, hnone, -⟩ | ⟨rfl, hrecord, -⟩⟩ := doMemSpaceUnmap_whole h hfind hdo
    · rw [if_pos rfl, Prod.mk.injEq] at heq
      obtain ⟨rfl, rfl⟩ := heq
      obtain ⟨hzero, -⟩ | ⟨-, huntouched⟩ := hcase
      · cases hzero
      · exact Or.inr ⟨hnone, (untouched_iff h hfind hdo).1 huntouched⟩
    · rw [if_neg (show ¬ (0 : ℤ) = -1 by decide), Prod.mk.injEq] at heq
      obtain ⟨rfl, rfl⟩ := heq
      obtain ⟨-, l₁', q, l₂', j, hq, hmaps, hdetached⟩ | ⟨hfail, -⟩ := hcase
      · obtain ⟨rfl, rfl⟩ := detached_unique h hfind hdo hq hdetached
        refine Or.inl ⟨hrecord, hmaps, (pageUnmapAddrSafe_fixed hstart halign htop).1 ?_⟩
        rw [← hmaps.shared, hpages]
        exact Option.some_ne_none _
      · cases hfail
  · rintro (⟨hrecord, hmaps, htable⟩ | ⟨hnone, hthere⟩)
    · rw [hmaps.shared, pageUnmapAddrSafe_fixed hstart halign htop] at hback
      obtain ⟨⟨b, r⟩, hdo⟩ := Option.ne_none_iff_exists'.1 (hback.2 htable)
      obtain ⟨-, -, ⟨-, hnone, -⟩ | ⟨rfl, -⟩⟩ := doMemSpaceUnmap_whole h hfind hdo
      · exact absurd hnone hrecord
      · obtain ⟨l₁, l₂, hk, hdetached⟩ := detached_of_unmapped (i := i) h hfind hdo
        refine ⟨_, 0, ?_, Or.inl ⟨rfl, l₁, p, l₂, i, hk, hmaps, hdetached⟩⟩
        rw [hdo, Option.map_some, if_neg (show ¬ (0 : ℤ) = -1 by decide)]
    · obtain ⟨m', hm', -⟩ :=
        pageUnmapAddrSafe_nothing (isShared ((s.space t).recs p)) hstart halign htop hthere
      obtain ⟨⟨b, r⟩, hdo⟩ :=
        Option.ne_none_iff_exists'.1 (hback.2 (by rw [hm']; exact Option.some_ne_none _))
      obtain ⟨-, -, ⟨rfl, -⟩ | ⟨-, hrecord, -⟩⟩ := doMemSpaceUnmap_whole h hfind hdo
      · refine ⟨_, -1, ?_, Or.inr ⟨rfl, (untouched_iff h hfind hdo).2 hthere⟩⟩
        rw [hdo, Option.map_some, if_pos rfl]
      · exact absurd hnone hrecord

/-- The call, for a space and a segment that are found. -/
theorem exactUnmap_segment_iff (h : SpacesOk (s.space t) k) (hzero : shmaddr ≠ 0)
    (hfind : memSpaceFind (s.space t) (unmapAddr shmaddr shmflg) = some (some p))
    (hseg : segmentAt s t (unmapAddr shmaddr shmflg) = some i)
    (hprivate : hasFlag (s.table i).flags shareMemPrivate = false) :
    ExactUnmap s t k (unmapAddr shmaddr shmflg) (shareMemUnmap s t shmaddr shmflg) ↔
      UnmapGood s t (unmapAddr shmaddr shmflg) p i := by
  rw [← exactUnmap_found_iff h hfind, shareMemUnmap_found hzero hfind, hseg]
  simp only [hprivate, Bool.false_eq_true, if_false]

/-- **An unmapping is exact** if and only if the address lies above all spaces, or the space found
for it and the segment found for it belong together. -/
theorem shareMemUnmap_exact_iff (h : SpacesOk (s.space t) k) :
    ExactUnmap s t k (unmapAddr shmaddr shmflg) (shareMemUnmap s t shmaddr shmflg) ↔
      ExactAt s t shmaddr (unmapAddr shmaddr shmflg) := by
  by_cases hzero : shmaddr = 0
  · refine iff_of_true ⟨s, -1, ?_, Or.inr ⟨rfl, untouched_self s t⟩⟩ fun hne => absurd hzero hne
    rw [shareMemUnmap, if_pos hzero]
  · rw [ExactAt, forall_prop_of_true hzero]
    cases hlookup : (k.find? fun q => decide (unmapAddr shmaddr shmflg <
      ((s.space t).recs q).end_)) with
    | none =>
        have hfind := memSpaceFind_eq h.owned.chain (unmapAddr shmaddr shmflg)
        rw [hlookup] at hfind
        refine iff_of_true ⟨s, -1, ?_, Or.inr ⟨rfl, untouched_self s t⟩⟩ fun p hp => ?_
        · unfold shareMemUnmap
          simp only [if_neg hzero, show (if hasFlag shmflg ipcRnd then
            pageMask shmaddr else shmaddr) =
            unmapAddr shmaddr shmflg from rfl, hfind]
        · rw [hfind] at hp
          cases hp
    | some p =>
        have hfind := memSpaceFind_eq h.owned.chain (unmapAddr shmaddr shmflg)
        rw [hlookup] at hfind
        simp only [hfind, Option.some.injEq, forall_eq']
        cases hseg : segmentAt s t (unmapAddr shmaddr shmflg) with
        | none =>
            rw [shareMemUnmap_found hzero hfind, hseg]
            refine iff_of_false (fun hexact => ?_) fun hgood => ?_
            · obtain ⟨s', ret, hrun, -⟩ := hexact
              cases hrun
            · obtain ⟨i, hi, -⟩ := hgood
              cases hi
        | some i =>
            simp only [Option.some.injEq, exists_eq_left']
            by_cases hprivate : hasFlag (s.table i).flags shareMemPrivate = true
            · rw [shareMemUnmap_found hzero hfind, hseg]
              simp only [hprivate, if_true]
              refine iff_of_false (fun hexact => ?_) fun hgood => ?_
              · -- no space goes, and the call returns 0
                obtain ⟨s', ret, hrun, hcase⟩ := hexact
                rw [Option.some.injEq, Prod.mk.injEq] at hrun
                obtain ⟨rfl, rfl⟩ := hrun
                obtain ⟨-, l₁, q, l₂, j, rfl, -, hdetached⟩ | ⟨hfail, -⟩ := hcase
                · exact not_detached (show (addLinks s i (-1)).space t = s.space t from rfl)
                    h.owned hdetached
                · cases hfail
              · cases hgood.1
            · have hprivate' := Bool.eq_false_of_not_eq_true hprivate
              rw [exactUnmap_segment_iff h hzero hfind hseg hprivate']
              exact (and_iff_right hprivate').symm

end Exact

/-- Sixteen pages of user memory. -/
def shmLayout : PoolLayout where
  start := smallLayout.start
  len
    | .dma => 8388608
    | .normal => 12582912
    | .user => 65536
  start_pos := smallLayout.start_pos
  fits := by intro id; cases id <;> decide
  apart := by
    intro id id' h
    cases id <;> cases id' <;> first | exact absurd rfl h | decide

/-- Process 1 after it has mapped two segments of one page each and has unmapped the first one: the
second one is at `0x60001000`, and the entry of the page below still has the frame of the first
one. -/
def onceUnmapped : ShmState where
  table i := if i = 0 then ⟨67108864, 1, 0, 0, [97]⟩ else if i = 1 then ⟨67112960, 1, 0, 1, [98]⟩
    else ⟨0, 0, 0, 0, []⟩
  ranges := shmLayout.ranges clearBoot
  pids := {1}
  procs _ :=
    { singleSpace with
      recs := fun _ => ⟨⟨6, 144, 2160000000⟩, 1610616832, 1610620928, none⟩
      mm :=
        { ranges := shmLayout.ranges clearBoot
          pde := fun d => if d = 384 then 67117063 else 0
          pte := fun n => if n = 393216 then 67108870 else if n = 393217 then 67112967 else 0 } }

theorem onceUnmapped_spaces : SpacesOk (onceUnmapped.space 1) [0] := by
  refine ⟨⟨?_, by decide, fun p => ?_⟩, ⟨?_, ?_⟩, ?_⟩
  · exact ⟨rfl, rfl⟩
  · simp only [onceUnmapped, ShmState.space, singleSpace, emptySpace, List.append_nil,
      List.count_singleton]
    by_cases hp : p = 0
    · simp [hp]
    · simp [hp, Ne.symm hp]
  · exact sorted_singleton.2 (by decide)
  · intro u hu
    rw [List.mem_singleton.1 hu]
    exact ⟨⟨by decide, by decide⟩, ⟨by decide, by decide⟩⟩
  · intro u hu
    rw [List.mem_singleton.1 hu]
    decide

theorem onceUnmapped_find {addr : ℕ} {p : RecPtr}
    (hfind : memSpaceFind (onceUnmapped.space 1) addr = some (some p)) :
    p = 0 := by
  rw [memSpaceFind_eq onceUnmapped_spaces.owned.chain, Option.some.injEq] at hfind
  exact List.mem_singleton.1 (List.mem_of_find?_eq_some hfind)

/-- The second segment is unmapped. -/
theorem shareMemUnmap_exact_second :
    ExactUnmap onceUnmapped 1 [0] (unmapAddr 1610616832 0)
    (shareMemUnmap onceUnmapped 1 1610616832 0) := by
  refine (shareMemUnmap_exact_iff onceUnmapped_spaces).2 fun _ p hfind => ?_
  obtain rfl := onceUnmapped_find hfind
  refine ⟨1, by decide, by decide,
    Or.inl ⟨by decide, ⟨by decide, by decide, ?_⟩, fun _ => by decide⟩⟩
  refine ⟨⟨by decide, by decide, by decide⟩, by decide, fun j hj => ?_⟩
  obtain rfl : j = 0 := Nat.lt_one_iff.1 hj
  exact ⟨67112967, by decide, by decide, by decide⟩

/-- **The first segment is unmapped again**: the frame in the entry is that of the first segment,
and the space above goes, which is that of the second one. -/
theorem shareMemUnmap_not_exact :
    ¬ ExactUnmap onceUnmapped 1 [0] (unmapAddr 1610612736 0)
    (shareMemUnmap onceUnmapped 1 1610612736 0) := by
  have hfind : memSpaceFind (onceUnmapped.space 1) (unmapAddr 1610612736 0) = some (some 0) := by
    rw [memSpaceFind_eq onceUnmapped_spaces.owned.chain]
    decide
  have hseg : segmentAt onceUnmapped 1 (unmapAddr 1610612736 0) = some 0 := by decide +kernel
  intro hexact
  obtain ⟨-, hmaps, -⟩ | ⟨hnone, -⟩ :=
    (exactUnmap_segment_iff onceUnmapped_spaces (by decide) hfind hseg (by decide)).1 hexact
  · exact absurd hmaps.has (by decide)
  · exact absurd hnone (by decide)

end Shm
end LightOS
