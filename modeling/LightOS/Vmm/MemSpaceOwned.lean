import LightOS.Vmm.MemSpaceList
import LightOS.Mm.MemPool

/-!
# Memory spaces of a process: records and unmapping

* `memSpace_owned` — in every run that never merges a new space with the one above
  it, exactly the records on the list are allocated.
* `doMemSpaceUnmap_exact_iff` — when an unmapping that reports success has removed
  exactly the range it was given.
-/

namespace LightOS
namespace Vm

open LinkedList Interval

/-! ## Lookups on the list -/

section Lookups

variable {s : AddrSpace} {l : List RecPtr}

theorem find?_of_split {l₁ l₂ : List RecPtr} {stop : RecPtr → Bool}
    (h₁ : ∀ q ∈ l₁, stop q = false) (h₂ : ∀ q ∈ l₂.head?, stop q = true) :
    (l₁ ++ l₂).find? stop = l₂.head? := by
  rw [List.find?_append, List.find?_eq_none.2 fun q hq => by simp [h₁ q hq], Option.none_or]
  cases l₂ with
  | nil => rfl
  | cons q l₂ => rw [List.find?_cons_of_pos (h₂ q rfl), List.head?_cons]

theorem memSpaceFind_eq (h : s.Listed l) (addr : ℕ) :
    memSpaceFind s addr = some (l.find? fun q => decide (addr < (s.recs q).end_)) := by
  obtain ⟨l₁, l₂, rfl, h₁, h₂, hrun⟩ := listed_search h fun p => decide (addr < (s.recs p).end_)
  rw [memSpaceFind, memSpaceFindPrev, hrun, find?_of_split h₁ h₂, Option.map_some]

theorem nextSpace_eq (h : s.Listed l) (end_ : ℕ) :
    nextSpace s end_ = l.find? fun q => decide (end_ ≤ (s.recs q).start) := by
  obtain ⟨l₁, l₂, rfl, h₁, h₂, hrun⟩ := listed_search h fun p => decide (end_ ≤ (s.recs p).start)
  rw [nextSpace, hrun, find?_of_split h₁ h₂, Option.bind_some]

/-- The space below which an address lies, in terms of the intervals. -/
theorem memSpaceFind_split (h : s.Listed l) {addr : ℕ} {p : RecPtr}
    (hfind : memSpaceFind s addr = some (some p)) :
    ∃ l₁ l₂, l = l₁ ++ p :: l₂ ∧ (∀ q ∈ l₁, (s.recs q).end_ ≤ addr) ∧ addr < (s.recs p).end_ := by
  rw [memSpaceFind_eq h, Option.some.injEq, List.find?_eq_some_iff_append] at hfind
  obtain ⟨hp, l₁, l₂, rfl, hbefore⟩ := hfind
  exact ⟨l₁, l₂, rfl, fun q hq => by simpa using hbefore q hq, by simpa using hp⟩

theorem memSpaceFind_of_split {l₁ l₂ : List RecPtr} {p : RecPtr} (h : s.Listed (l₁ ++ p :: l₂))
    {addr : ℕ} (hbefore : ∀ q ∈ l₁, (s.recs q).end_ ≤ addr) (hp : addr < (s.recs p).end_) :
    memSpaceFind s addr = some (some p) := by
  rw [memSpaceFind_eq h, find?_of_split (fun q hq => by simpa using hbefore q hq), List.head?_cons]
  intro q hq
  rw [List.head?_cons, Option.mem_some_iff] at hq
  rw [← hq]
  simpa using hp

/-- A cut is made in the space `mem_space_find` finds. -/
theorem memSpaceFind_of_cut (h : s.Listed l) {addr e : ℕ} {attr : Attrs}
    {l' : List (Span Attrs)} (hcut : Cut addr e attr (s.spans l) l') :
    ∃ l₁ p l₂, l = l₁ ++ p :: l₂ ∧ memSpaceFind s addr = some (some p) ∧
      (∀ q ∈ l₁, (s.recs q).end_ ≤ addr) ∧ (s.span p).Has addr ∧ e ≤ (s.recs p).end_ ∧
      l' = s.spans l₁ ++ ((s.span p).below addr ++ (s.span p).above e attr) ++ s.spans l₂ := by
  generalize hspans : s.spans l = spans at hcut
  obtain ⟨k₁, t, k₂, hbefore, hinside, hwithin⟩ := hcut
  obtain ⟨l₁, rest, rfl, rfl, hrest⟩ := List.map_eq_append_iff.1 hspans
  obtain ⟨p, l₂, rfl, rfl, rfl⟩ := List.map_eq_cons_iff.1 hrest
  have hbefore' : ∀ q ∈ l₁, (s.recs q).end_ ≤ addr := fun q hq =>
    hbefore (s.span q) (List.mem_map_of_mem hq)
  exact ⟨l₁, p, l₂, rfl, memSpaceFind_of_split h hbefore' hinside.2, hbefore', hinside, hwithin,
    rfl⟩

/-- **What an unmapping does.**  Nothing happens at all, or the range lies in a space: its pages go
away, and then the range is cut out of the space, if there is a record for what is above. -/
theorem doMemSpaceUnmap_cases {held : List RecPtr} (h : Owned s l held) {s' : AddrSpace}
    {addr len : ℕ} {ret : ℤ} (hrun : doMemSpaceUnmap s addr len = some (s', ret)) :
    (s' = s ∧ ∀ p, ¬ CutsInto s addr len p) ∨ ∃ p l₁ l₂, CutsInto s addr len p ∧ l = l₁ ++ p :: l₂ ∧
      pageUnmapAddrSafe s.mm addr (pageAlign len) (hasFlag (s.recs p).flags memSpaceMapShared) =
        some s'.mm ∧ Frame { s with mm := s'.mm } s' ∧
      (ret = -1 ∧ (memSpaceAlloc s).2 = none ∧ Owned s' l held ∧ s'.recs = s.recs ∨
        ret = 0 ∧ ∃ x l', (memSpaceAlloc s).2 = some x ∧ Owned s' l' held ∧
          Cut addr (add32 addr (pageAlign len)) (s.recs x).toAttrs (s.spans l) (s'.spans l') ∧
          s'.spans l' = s.spans l₁ ++ ((s.span p).below addr ++
            (s.span p).above (add32 addr (pageAlign len)) (s.recs x).toAttrs) ++ s.spans l₂) := by
  obtain ⟨hframe, hspec⟩ := doMemSpaceUnmap_spec h hrun
  rcases doMemSpaceUnmap_pages hrun with hnone | ⟨p, hcuts, hpages, hret⟩
  · exact Or.inl hnone
  · refine Or.inr ⟨p, ?_⟩
    rcases hspec with ⟨hfail, howned, hrecs⟩ | ⟨-, -, -, l₁, q, l₂, hl, hbefore, hq, hout⟩ |
      ⟨hzero, -, l', x, rest, hsupply, howned, hcut⟩
    · obtain ⟨l₁, l₂, hl, -, -⟩ := memSpaceFind_split h.chain hcuts.2.1
      have hnone := (hret.resolve_right fun hr => by omega).2
      exact ⟨l₁, l₂, hcuts, hl, hpages, hframe, Or.inl ⟨hfail, hnone, howned, hrecs⟩⟩
    · -- the space that is found is the one the range lies in
      have hfind := memSpaceFind_of_split (hl ▸ h.chain) hbefore hq
      rw [hcuts.2.1, Option.some.injEq, Option.some.injEq] at hfind
      subst hfind
      exact absurd hout (by have := hcuts.2.2; omega)
    · obtain ⟨l₁, q, l₂, hl, hfind, -, -, -, hspans⟩ := memSpaceFind_of_cut h.chain hcut
      rw [hcuts.2.1, Option.some.injEq, Option.some.injEq] at hfind
      subst hfind
      have halloc : (memSpaceAlloc s).2 = some x := by
        have hsome := (hret.resolve_left fun hr => by omega).2
        unfold memSpaceAlloc at hsome ⊢
        rw [hsupply] at hsome ⊢
        simp only at hsome ⊢
        split_ifs at hsome ⊢
        · rfl
        · exact absurd rfl hsome
      exact ⟨l₁, l₂, hcuts, hl, hpages, hframe,
        Or.inr ⟨hzero, x, l', halloc, howned, hcut, hspans⟩⟩

end Lookups

/-! ## A new record -/

section Init

variable {s : AddrSpace} {l held : List RecPtr} {x : RecPtr}

theorem Owned.not_mem (h : Owned s l (x :: held)) : ∀ q ∈ l, q ≠ x := fun q hq hqx =>
  (List.nodup_append.1 h.nodup).2.2 q hq x (by simp) hqx

/-- Initialising a record that is not on the list. -/
theorem owned_init (h : Owned s l (x :: held)) (start end_ pageProt flags : ℕ) :
    Owned (memSpaceInit s x start end_ pageProt flags) l (x :: held) ∧
      ∀ q ∈ l, (memSpaceInit s x start end_ pageProt flags).recs q = s.recs q := by
  have hrecs : ∀ q ∈ l, (memSpaceInit s x start end_ pageProt flags).recs q = s.recs q :=
    fun q hq => modify_recs_of_ne s x _ (h.not_mem q hq)
  exact ⟨h.congr (fun q hq => by rw [AddrSpace.next, hrecs q hq, AddrSpace.next]) rfl rfl rfl,
    hrecs⟩

/-- Whether an insertion merges to the right depends on the list alone. -/
theorem mergesRight_congr {s' : AddrSpace} {held' : List RecPtr} (h : Owned s l held)
    (h' : Owned s' l held') (hrecs : ∀ q ∈ l, s'.recs q = s.recs q) {end_ pageProt flags : ℕ}
    (hmerge : MergesRight s' end_ pageProt flags) : MergesRight s end_ pageProt flags := by
  obtain ⟨hshared, q, hq, hstart, hprot, hflags⟩ := hmerge
  have hfind : l.find? (fun q => decide (end_ ≤ (s'.recs q).start)) =
      l.find? fun q => decide (end_ ≤ (s.recs q).start) :=
    List.find?_congr fun r hr => by rw [hrecs r hr]
  rw [nextSpace_eq h'.chain, hfind] at hq
  have hmem := List.mem_of_find?_eq_some hq
  rw [hrecs q hmem] at hstart hprot hflags
  exact ⟨hshared, q, by rw [nextSpace_eq h.chain]; exact hq, hstart, hprot, hflags⟩

/-- **A new space.**  A record is taken from the allocator, filled in and inserted. -/
theorem insertNew_spec (h : Owned s l (x :: held)) (start : ℕ) {end_ pageProt flags : ℕ}
    (hmerge : ¬ MergesRight s end_ pageProt flags) :
    ∃ s' l', memSpaceInsert (memSpaceInit s x start end_ pageProt flags) x = some s' ∧
      Owned s' l' held ∧ Frame s s' ∧
      Inserted Merges ⟨start, end_, ⟨pageProt, flags, s.vmmAddr⟩⟩ (s.spans l) (s'.spans l') := by
  obtain ⟨hinit, hrecs⟩ := owned_init h start end_ pageProt flags
  have hx : (memSpaceInit s x start end_ pageProt flags).recs x =
      { start := start, end_ := end_, pageProt := pageProt, flags := flags, vmm := 0,
        next := none } :=
    modify_recs_self ..
  have hspan : insertedSpan (memSpaceInit s x start end_ pageProt flags) x =
      ⟨start, end_, ⟨pageProt, flags, s.vmmAddr⟩⟩ := by
    rw [insertedSpan, hx]
    rfl
  have hspans : (memSpaceInit s x start end_ pageProt flags).spans l = s.spans l :=
    spans_congr fun q hq => by rw [AddrSpace.span, hrecs q hq, AddrSpace.span]
  obtain ⟨s', l', hins, howned, hframe, hinserted⟩ := memSpaceInsert_spec hinit (by
    rw [hx]
    exact fun hm => hmerge (mergesRight_congr h hinit hrecs hm))
  rw [hspan, hspans] at hinserted
  exact ⟨s', l', hins, howned, (frame_modify s x _).trans hframe, hinserted⟩

end Init

/-! ## Ownership of the records -/

/-- `mem_space_insert` of a new record, and `do_mem_space_unmap`. -/
inductive ListCall where
  | insert (start end_ pageProt flags : ℕ)
  | unmap (addr len : ℕ)

/-- One call.  A caller of `mem_space_insert` takes the record from
`mem_space_alloc` and gives up when there is none. -/
def listStep (s : AddrSpace) : ListCall → Option AddrSpace
  | .insert start end_ pageProt flags =>
      match memSpaceAlloc s with
      | (s', none) => some s'
      | (s', some space) => memSpaceInsert (memSpaceInit s' space start end_ pageProt flags) space
  | .unmap addr len => (doMemSpaceUnmap s addr len).map Prod.fst

/-- The records reachable from the head are allocated, and no other record is,
but for those that are held elsewhere. -/
def RecordsOwned (held : List RecPtr) (s : AddrSpace) : Prop :=
  ∃ l, s.Listed l ∧ (∀ p ∈ l, s.allocs p = s.frees p + 1) ∧
    ∀ p, p ∉ l → p ∉ held → s.allocs p = s.frees p

/-- The insertion does not merge the new space with the one above it. -/
def NoRightMerge (s : AddrSpace) : ListCall → Prop
  | .insert _ end_ pageProt flags => ¬ MergesRight s end_ pageProt flags
  | .unmap _ _ => True

instance (s : AddrSpace) : (call : ListCall) → Decidable (NoRightMerge s call)
  | .insert _ _ _ _ => inferInstanceAs (Decidable (¬ _))
  | .unmap _ _ => isTrue trivial

theorem recordsOwned_of_owned {s : AddrSpace} {l held : List RecPtr} (h : Owned s l held) :
    RecordsOwned held s := by
  refine ⟨l, h.chain, fun p hp => ?_, fun p hp hheld => ?_⟩
  · rw [h.books, List.count_eq_one_of_mem h.nodup (by simp [hp])]
  · rw [h.books, List.count_eq_zero_of_not_mem (by simp [hp, hheld]), Nat.add_zero]

theorem owned_listStep {held : List RecPtr} (s : AddrSpace) (call : ListCall) (s' : AddrSpace)
    (h : ∃ l, Owned s l held) (hcond : NoRightMerge s call) (hstep : listStep s call = some s') :
    ∃ l, Owned s' l held := by
  obtain ⟨l, h⟩ := h
  cases call with
  | insert start end_ pageProt flags =>
      simp only [listStep] at hstep
      rcases memSpaceAlloc_spec h with ⟨t, halloc, ht, -⟩ | ⟨t, x, rest, halloc, ht, hrecs, -⟩
      · rw [halloc] at hstep
        cases hstep
        exact ⟨l, ht⟩
      · rw [halloc] at hstep
        have hmerge : ¬ MergesRight t end_ pageProt flags := fun hm =>
          hcond (mergesRight_congr h ht (fun q _ => by rw [hrecs]) hm)
        obtain ⟨s'', l', hins, howned, -, -⟩ := insertNew_spec ht start hmerge
        simp only [hins] at hstep
        cases hstep
        exact ⟨l', howned⟩
  | unmap addr len =>
      obtain ⟨⟨t, ret⟩, hunmap, rfl⟩ := Option.map_eq_some_iff.1 hstep
      rcases (doMemSpaceUnmap_spec h hunmap).2 with
        ⟨-, howned, -⟩ | ⟨-, -, rfl, -⟩ | ⟨-, -, l', x, rest, -, howned, -⟩
      · exact ⟨l, howned⟩
      · exact ⟨l, h⟩
      · exact ⟨l', howned⟩

/-- **Exactly the records on the list are allocated.**  From any list whose records
are, in every run that never merges a new space with the one above it. -/
theorem memSpace_owned (held l : List RecPtr) (s₀ : AddrSpace) (h₀ : Owned s₀ l held)
    (calls : List ListCall) (s : AddrSpace) (hrun : Run.exec listStep s₀ calls = some s)
    (hcond : Run.Along listStep NoRightMerge s₀ calls) : RecordsOwned held s := by
  have hinv : ∃ l, Owned s l held :=
    Run.exec_invariant owned_listStep calls s₀ s ⟨l, h₀⟩ hcond hrun
  obtain ⟨l', h⟩ := hinv
  exact recordsOwned_of_owned h

/-- A process with no memory spaces on a small machine, whose records come out of
a fresh group of `mem_alloc`. -/
def emptySpace (supply : List (Option RecPtr)) : AddrSpace where
  recs := fun _ => ⟨⟨0, 0, 0⟩, 0, 0, none⟩
  vmm :=
    { memSpaceHead := none, heapStart := 0, heapEnd := 0
      mapStart := 1610612736, mapEnd := 1879048192 }
  vmmAddr := 2160000000
  allocs := fun _ => 0
  frees := fun _ => 0
  supply := supply
  mm :=
    { ranges := MemPool.smallLayout.ranges MemPool.clearBoot, pde := fun _ => 0, pte := fun _ => 0 }

theorem owned_emptySpace (supply : List (Option RecPtr)) : Owned (emptySpace supply) [] [] :=
  ⟨rfl, List.nodup_nil, fun _ => rfl⟩

/-- Three spaces, the second merged into the first, and a hole cut into it. -/
theorem memSpace_owned_emptySpace :
    ∃ s, Run.exec listStep (emptySpace [some 0, some 1, some 2, some 1])
        [.insert 4096 8192 22 0, .insert 8192 20480 22 0, .insert 40960 45056 18 0,
          .unmap 8192 4096] = some s ∧ RecordsOwned [] s := by
  have hsome : (Run.exec listStep (emptySpace [some 0, some 1, some 2, some 1])
      [.insert 4096 8192 22 0, .insert 8192 20480 22 0, .insert 40960 45056 18 0,
        .unmap 8192 4096]).isSome = true := by decide +kernel
  obtain ⟨s, hs⟩ := Option.isSome_iff_exists.1 hsome
  exact ⟨s, hs, memSpace_owned [] [] _ (owned_emptySpace _) _ s hs (by decide +kernel)⟩

/-- A space is inserted right below one with the same protection and flags: the
record that stays on the list is the one that is freed, and the other one is
neither on the list nor freed. -/
theorem memSpace_not_owned :
    ∃ s, Run.exec listStep (emptySpace [some 0, some 1])
        [.insert 8192 12288 22 0, .insert 4096 8192 22 0] = some s ∧ ¬ RecordsOwned [] s := by
  have hsome : (Run.exec listStep (emptySpace [some 0, some 1])
      [.insert 8192 12288 22 0, .insert 4096 8192 22 0]).map
        (fun s => (s.vmm.memSpaceHead, s.allocs 1, s.frees 1)) = some (some 1, 1, 1) := by
    decide +kernel
  obtain ⟨s, hs, hvals⟩ := Option.map_eq_some_iff.1 hsome
  simp only [Prod.mk.injEq] at hvals
  obtain ⟨hhead, hallocs, hfrees⟩ := hvals
  refine ⟨s, hs, ?_⟩
  rintro ⟨l, hchain, hlinked, -⟩
  rw [AddrSpace.Listed, hhead] at hchain
  cases l with
  | nil => exact absurd hchain (by simp)
  | cons p l =>
      obtain ⟨hp, -⟩ := hchain
      cases hp
      have := hlinked 1 (by simp)
      omega

/-! ## What an unmapping removes -/

/-- Afterwards the list covers what it covered before except `[addr, e)`, and every
address that is left has the attributes it had. -/
def Removed (s s' : AddrSpace) (addr e : ℕ) : Prop :=
  ∃ l l', s.Listed l ∧ s'.Listed l' ∧
    ∀ a, attrAt (s'.spans l') a = if addr ≤ a ∧ a < e then none else attrAt (s.spans l) a

/-- With `p` the first space that ends above `addr`: the range lies in the hole below
`p`; or it starts inside `p` and ends where `p` ends; or it ends inside `p`, and the
record `mem_space_alloc` is going to return holds the attributes of `p` already. -/
def RemovesExactly (s : AddrSpace) (addr len : ℕ) : Prop :=
  ∃ p, memSpaceFind s addr = some (some p) ∧
    (addr + pageAlign len ≤ (s.recs p).start ∨
      (s.recs p).start ≤ addr ∧ addr + pageAlign len = (s.recs p).end_ ∨
      (s.recs p).start ≤ addr ∧ addr + pageAlign len < (s.recs p).end_ ∧
        ∃ x rest, s.supply = some x :: rest ∧ (s.recs x).toAttrs = (s.recs p).toAttrs)

section Exact

variable {s s' : AddrSpace} {l l' held held' : List RecPtr} {addr len e : ℕ}

/-- The two lists a state change is about are the ones there are. -/
theorem removed_iff (h : Owned s l held) (h' : Owned s' l' held') :
    Removed s s' addr e ↔
      ∀ a, attrAt (s'.spans l') a = if addr ≤ a ∧ a < e then none else attrAt (s.spans l) a := by
  constructor
  · rintro ⟨k, k', hk, hk', heq⟩
    rw [hk.unique h.chain, hk'.unique h'.chain] at heq
    exact heq
  · exact fun heq => ⟨l, l', h.chain, h'.chain, heq⟩

/-- Leaving everything alone removes exactly a range that was not covered. -/
theorem removed_self_iff {l₁ l₂ : List RecPtr} {p : RecPtr} (h : Owned s (l₁ ++ p :: l₂) held)
    (hsorted : Sorted (s.spans (l₁ ++ p :: l₂))) (hbefore : ∀ q ∈ l₁, (s.recs q).end_ ≤ addr)
    (hp : addr < (s.recs p).end_) (he : addr < e) :
    Removed s s addr e ↔ e ≤ (s.recs p).start := by
  have hsplit := hsorted
  rw [spans_append] at hsplit
  obtain ⟨-, htail, -⟩ := sorted_append.1 hsplit
  rw [removed_iff h h]
  constructor
  · intro heq
    by_contra hover
    have hcover : (s.span p).Has (max addr (s.recs p).start) :=
      ⟨le_max_right _ _, max_lt hp (sorted_cons.1 htail).1⟩
    have hnone := heq (max addr (s.recs p).start)
    rw [if_pos ⟨le_max_left _ _, max_lt he (not_le.1 hover)⟩] at hnone
    exact attrAt_ne_none (List.mem_map_of_mem (by simp)) hcover hnone
  · intro hhole a
    split_ifs with hin
    · apply attrAt_eq_none
      intro t ht hta
      have h₁ := hta.1
      have h₂ := hta.2
      rw [spans_append, List.mem_append] at ht
      rcases ht with ht | ht
      · obtain ⟨q, hq, rfl⟩ := List.mem_map.1 ht
        have := hbefore q hq
        simp only [span_end] at h₂
        omega
      · have := htail.start_le_of_cons t ht
        simp only [span_start] at this
        omega
    · rfl

/-- A space the lookup finds is the only one it finds. -/
theorem removesExactly_iff {p : RecPtr} (hfind : memSpaceFind s addr = some (some p)) :
    RemovesExactly s addr len ↔
      addr + pageAlign len ≤ (s.recs p).start ∨
        (s.recs p).start ≤ addr ∧ addr + pageAlign len = (s.recs p).end_ ∨
        (s.recs p).start ≤ addr ∧ addr + pageAlign len < (s.recs p).end_ ∧
          ∃ x rest, s.supply = some x :: rest ∧ (s.recs x).toAttrs = (s.recs p).toAttrs := by
  constructor
  · rintro ⟨q, hq, hcases⟩
    rw [hfind, Option.some.injEq, Option.some.injEq] at hq
    subst hq
    exact hcases
  · exact fun hcases => ⟨p, hfind, hcases⟩

/-- **When an unmapping removes exactly its range.**  On a well-formed list, for a
call that reports success: if and only if the range lies in a hole, or inside one
space up to its end, or inside one space with the new record already holding the
attributes of that space. -/
theorem doMemSpaceUnmap_exact_iff (h : Owned s l held) (hsorted : Sorted (s.spans l))
    (hword : ∀ t ∈ s.spans l, t.end_ < wordSize)
    (hrun : doMemSpaceUnmap s addr len = some (s', 0)) :
    Removed s s' addr (addr + pageAlign len) ↔ RemovesExactly s addr len := by
  rcases (doMemSpaceUnmap_spec h hrun).2 with
    ⟨hret, -, -⟩ | ⟨-, hrefused, rfl, l₁, p, l₂, rfl, hbefore, hp, hout⟩ |
    ⟨-, hrefused, l', x, rest, hsupply, howned, hcut⟩
  · exact absurd hret (by decide)
  · have hpos : pageAlign len ≠ 0 := fun hzero => hrefused (by simp [UnmapRefused, hzero])
    have hend := hword (s'.span p) (List.mem_map_of_mem (by simp))
    rw [removed_self_iff h hsorted hbefore hp (by omega),
      removesExactly_iff (memSpaceFind_of_split h.chain hbefore hp)]
    have hnot : ¬ ((s'.recs p).start ≤ addr ∧ addr + pageAlign len ≤ (s'.recs p).end_) := by
      rintro ⟨hlow, hhigh⟩
      rw [add32_of_lt (lt_of_le_of_lt hhigh hend)] at hout
      omega
    constructor
    · exact Or.inl
    · rintro (hhole | ⟨hlow, hhigh⟩ | ⟨hlow, hhigh, -⟩)
      · exact hhole
      · exact absurd ⟨hlow, le_of_eq hhigh⟩ hnot
      · exact absurd ⟨hlow, le_of_lt hhigh⟩ hnot
  · have hpos : pageAlign len ≠ 0 := fun hzero => hrefused (by simp [UnmapRefused, hzero])
    obtain ⟨l₁, p, l₂, rfl, hfind, hbefore, hinside, hwithin, hspans⟩ :=
      memSpaceFind_of_cut h.chain hcut
    have hend := hword (s.span p) (List.mem_map_of_mem (by simp))
    have hlow := hinside.1
    simp only [span_start, span_end] at hlow hend
    rw [removed_iff h howned, removesExactly_iff hfind, hspans]
    by_cases hfits : addr + pageAlign len < wordSize
    · rw [add32_of_lt hfits] at hwithin ⊢
      rw [spans_append] at hsorted ⊢
      refine (cut_exact_iff (s.recs x).toAttrs hsorted hinside (Nat.le_add_right _ _) hwithin).trans
        ⟨fun hor => Or.inr ?_, ?_⟩
      · by_cases hexact : addr + pageAlign len = (s.recs p).end_
        · exact Or.inl ⟨hlow, hexact⟩
        · exact Or.inr ⟨hlow, lt_of_le_of_ne hwithin hexact, x, rest, hsupply,
            hor.resolve_left hexact⟩
      · rintro (hhole | ⟨-, hexact⟩ | ⟨-, -, y, rest', hy, hattrs⟩)
        · omega
        · exact Or.inl hexact
        · rw [hsupply, List.cons.injEq, Option.some.injEq] at hy
          rw [← hy.1] at hattrs
          exact Or.inr hattrs
    · -- the end of the range has run over
      have hwrap : add32 addr (pageAlign len) < addr := by
        have := pageAlign_lt len
        have := hinside.2
        simp only [span_end] at this
        unfold add32 wordSize at *
        omega
      constructor
      · intro heq
        have hnone := heq addr
        rw [if_pos ⟨le_rfl, by omega⟩] at hnone
        exact absurd hnone (attrAt_cut_of_lt _ hinside hwrap)
      · rintro (hhole | ⟨-, hexact⟩ | ⟨-, hless, -⟩) <;> omega

end Exact

/-- Three pages of private memory, and a record that reads as zero to be handed out
next. -/
def singleSpace : AddrSpace :=
  { emptySpace [some 1] with
    recs := Function.update (emptySpace []).recs 0 ⟨⟨22, 16, 2160000000⟩, 65536, 77824, none⟩
    vmm := { (emptySpace []).vmm with memSpaceHead := some 0 }
    allocs := Function.update (fun _ => 0) 0 1 }

theorem owned_singleSpace : Owned singleSpace [0] [] := by
  refine ⟨⟨rfl, rfl⟩, List.nodup_singleton 0, fun p => ?_⟩
  show Function.update (fun _ => 0) 0 1 p = 0 + [0].count p
  by_cases hp : p = 0
  · simp [hp]
  · simp [hp, Ne.symm hp]

theorem sorted_singleSpace : Sorted (singleSpace.spans [0]) ∧
    ∀ t ∈ singleSpace.spans [0], t.end_ < wordSize := by
  constructor
  · exact sorted_singleton.2 (by decide +kernel)
  · intro t ht
    rw [List.mem_singleton.1 ht]
    decide +kernel

/-- The last two pages are unmapped. -/
theorem doMemSpaceUnmap_exact_singleSpace :
    ∃ s', doMemSpaceUnmap singleSpace 69632 8192 = some (s', 0) ∧
      Removed singleSpace s' 69632 (69632 + pageAlign 8192) := by
  have hsome : (doMemSpaceUnmap singleSpace 69632 8192).map Prod.snd = some 0 := by decide +kernel
  obtain ⟨⟨s', ret⟩, hrun, rfl⟩ := Option.map_eq_some_iff.1 hsome
  exact ⟨s', hrun, (doMemSpaceUnmap_exact_iff owned_singleSpace sorted_singleSpace.1
    sorted_singleSpace.2 hrun).2
    ⟨0, by decide +kernel, Or.inr (Or.inl ⟨by decide +kernel, by decide +kernel⟩)⟩⟩

/-- The middle page is unmapped: the page above it is left without protection bits,
flags and owner. -/
theorem doMemSpaceUnmap_not_exact :
    ∃ s', doMemSpaceUnmap singleSpace 69632 4096 = some (s', 0) ∧
      ¬ Removed singleSpace s' 69632 (69632 + pageAlign 4096) := by
  have hlinks : (doMemSpaceUnmap singleSpace 69632 4096).map (fun sr =>
      (sr.2, sr.1.vmm.memSpaceHead, sr.1.next 0, sr.1.next 1)) =
      some (0, some 0, some 1, none) := by decide +kernel
  have hspans : (doMemSpaceUnmap singleSpace 69632 4096).map (fun sr => sr.1.spans [0, 1]) =
      some [⟨65536, 69632, ⟨22, 16, 2160000000⟩⟩, ⟨73728, 77824, ⟨0, 0, 0⟩⟩] := by decide +kernel
  obtain ⟨⟨s', ret⟩, hrun, hvals⟩ := Option.map_eq_some_iff.1 hlinks
  simp only [Prod.mk.injEq] at hvals
  obtain ⟨rfl, hhead, hnext₀, hnext₁⟩ := hvals
  rw [hrun, Option.map_some, Option.some.injEq] at hspans
  refine ⟨s', hrun, ?_⟩
  rintro ⟨l, l', hl, hl', heq⟩
  have hl'' : s'.Listed [0, 1] := ⟨hhead, hnext₀, hnext₁⟩
  have hat := heq 73728
  rw [hl.unique owned_singleSpace.chain, hl'.unique hl'', hspans] at hat
  exact absurd hat (by decide +kernel)

end Vm
end LightOS
