import LightOS.Vmm.MemSpaceBasic

/-!
# Memory spaces of a process: the linked list

What the functions that rearrange the list do to it, as long as every record on
the list is allocated and no record is on it twice.  The list of records stands
for a list of intervals, and the two functions refine the operations of
`Lib/Interval.lean` on it.

* `memSpaceInsert_spec` — an insertion that does not merge with the space above is
  an `Inserted`.
* `doMemSpaceUnmap_spec` — an unmapping leaves the list alone or is a `Cut`.
-/

namespace LightOS
namespace Vm

open LinkedList Interval

/-! ## Field lemmas -/

section Fields

variable (s : AddrSpace) (p : RecPtr) (f : MemSpace → MemSpace)

@[simp] theorem modify_recs_self : (s.modify p f).recs p = f (s.recs p) := Function.update_self ..

theorem modify_recs_of_ne {q : RecPtr} (h : q ≠ p) : (s.modify p f).recs q = s.recs q :=
  Function.update_of_ne h ..

@[simp] theorem modify_vmm : (s.modify p f).vmm = s.vmm := rfl
@[simp] theorem modify_vmmAddr : (s.modify p f).vmmAddr = s.vmmAddr := rfl
@[simp] theorem modify_allocs : (s.modify p f).allocs = s.allocs := rfl
@[simp] theorem modify_frees : (s.modify p f).frees = s.frees := rfl
@[simp] theorem modify_mm : (s.modify p f).mm = s.mm := rfl

theorem modify_next : (s.modify p f).next = Function.update s.next p (f (s.recs p)).next := by
  funext q
  by_cases h : q = p
  · subst h
    simp [AddrSpace.next]
  · rw [Function.update_of_ne h, AddrSpace.next, modify_recs_of_ne _ _ _ h, AddrSpace.next]

/-- A record whose link is kept. -/
theorem modify_next_eq (h : ∀ r, (f r).next = r.next) : (s.modify p f).next = s.next := by
  rw [modify_next, h]
  exact Function.update_eq_self p s.next

@[simp] theorem span_start : (s.span p).start = (s.recs p).start := rfl
@[simp] theorem span_end : (s.span p).end_ = (s.recs p).end_ := rfl
@[simp] theorem span_attr : (s.span p).attr = (s.recs p).toAttrs := rfl

theorem modify_span_of_ne {q : RecPtr} (h : q ≠ p) : (s.modify p f).span q = s.span q := by
  rw [AddrSpace.span, modify_recs_of_ne _ _ _ h, AddrSpace.span]

variable (prev x : Option RecPtr)

/-- Writing a link of the list is redirecting a pointer. -/
theorem setLink_redirect :
    ((s.setLink prev x).next, (s.setLink prev x).vmm.memSpaceHead) =
      redirect s.next s.vmm.memSpaceHead prev x := by
  cases prev with
  | none => rfl
  | some q => rw [AddrSpace.setLink, modify_next, modify_vmm, redirect]

theorem setLink_next : (s.setLink prev x).next = (redirect s.next s.vmm.memSpaceHead prev x).1 :=
  congrArg Prod.fst (setLink_redirect s prev x)

theorem setLink_head :
    (s.setLink prev x).vmm.memSpaceHead = (redirect s.next s.vmm.memSpaceHead prev x).2 :=
  congrArg Prod.snd (setLink_redirect s prev x)

/-- A link is no part of the interval. -/
@[simp] theorem setLink_span : (s.setLink prev x).span = s.span := by
  cases prev with
  | none => rfl
  | some q =>
      funext r
      by_cases h : r = q
      · subst h
        simp [AddrSpace.setLink, AddrSpace.span]
      · exact modify_span_of_ne s q (fun r => { r with next := x }) h

@[simp] theorem setLink_allocs : (s.setLink prev x).allocs = s.allocs := by cases prev <;> rfl
@[simp] theorem setLink_supply : (s.setLink prev x).supply = s.supply := by cases prev <;> rfl
@[simp] theorem setLink_frees : (s.setLink prev x).frees = s.frees := by cases prev <;> rfl

end Fields

/-! ## What no list operation touches -/

/-- The parts of the state that are not the list. -/
structure Frame (s s' : AddrSpace) : Prop where
  mm : s'.mm = s.mm
  vmmAddr : s'.vmmAddr = s.vmmAddr
  heapStart : s'.vmm.heapStart = s.vmm.heapStart
  heapEnd : s'.vmm.heapEnd = s.vmm.heapEnd
  mapStart : s'.vmm.mapStart = s.vmm.mapStart
  mapEnd : s'.vmm.mapEnd = s.vmm.mapEnd

theorem Frame.refl (s : AddrSpace) : Frame s s := ⟨rfl, rfl, rfl, rfl, rfl, rfl⟩

theorem Frame.trans {s t u : AddrSpace} (h : Frame s t) (h' : Frame t u) : Frame s u :=
  ⟨h'.mm.trans h.mm, h'.vmmAddr.trans h.vmmAddr, h'.heapStart.trans h.heapStart,
    h'.heapEnd.trans h.heapEnd, h'.mapStart.trans h.mapStart, h'.mapEnd.trans h.mapEnd⟩

theorem frame_modify (s : AddrSpace) (p : RecPtr) (f : MemSpace → MemSpace) :
    Frame s (s.modify p f) := ⟨rfl, rfl, rfl, rfl, rfl, rfl⟩

theorem frame_free (s : AddrSpace) (p : RecPtr) : Frame s (memSpaceFree s p) :=
  ⟨rfl, rfl, rfl, rfl, rfl, rfl⟩

theorem frame_setLink (s : AddrSpace) (prev x : Option RecPtr) : Frame s (s.setLink prev x) := by
  cases prev with
  | none => exact ⟨rfl, rfl, rfl, rfl, rfl, rfl⟩
  | some q => exact frame_modify s q fun r => { r with next := x }

theorem frame_alloc (s : AddrSpace) : Frame s (memSpaceAlloc s).1 := by
  unfold memSpaceAlloc
  split
  · split_ifs <;> exact ⟨rfl, rfl, rfl, rfl, rfl, rfl⟩
  · exact ⟨rfl, rfl, rfl, rfl, rfl, rfl⟩
  · exact Frame.refl s

/-! ## Walking along the list -/

/-- The list from the head consists of the records `l`. -/
abbrev AddrSpace.Listed (s : AddrSpace) (l : List RecPtr) : Prop :=
  Seg s.next s.vmm.memSpaceHead l none

section Walk

variable {s : AddrSpace} {l : List RecPtr}

/-- Every walk along the list comes to an end. -/
theorem listed_search (h : s.Listed l) (stop : RecPtr → Bool) :
    ∃ l₁ l₂, l = l₁ ++ l₂ ∧ (∀ q ∈ l₁, stop q = false) ∧ (∀ q ∈ l₂.head?, stop q = true) ∧
      search s.next stop walkRounds none s.vmm.memSpaceHead = some (l₁.getLast?, l₂.head?) := by
  have hcard := h.nodup.length_le_card
  rw [Fintype.card_fin] at hcard
  obtain ⟨l₁, l₂, hl, h₁, h₂, hrun⟩ := search_spec stop none h (Nat.lt_succ_of_le hcard)
  exact ⟨l₁, l₂, hl, h₁, h₂, by simpa using hrun⟩

/-- `mem_space_find_prev` finds the first space that ends above the address. -/
theorem memSpaceFindPrev_spec (h : s.Listed l) (addr : ℕ) :
    ∃ l₁ l₂, l = l₁ ++ l₂ ∧ (∀ q ∈ l₁, (s.recs q).end_ ≤ addr) ∧
      (∀ q ∈ l₂.head?, addr < (s.recs q).end_) ∧
      memSpaceFindPrev s addr = some (l₁.getLast?, l₂.head?) := by
  obtain ⟨l₁, l₂, hl, h₁, h₂, hrun⟩ := listed_search h fun p => decide (addr < (s.recs p).end_)
  exact ⟨l₁, l₂, hl, fun q hq => by simpa using h₁ q hq, fun q hq => by simpa using h₂ q hq, hrun⟩

end Walk

/-! ## Ownership -/

/-- The list starting at the head consists of the records `l`, and exactly these
and the records in `held` are allocated: each was returned by `mem_space_alloc`
once more than it was passed to `mem_space_free`, every other record as often. -/
structure Owned (s : AddrSpace) (l held : List RecPtr) : Prop where
  chain : s.Listed l
  nodup : (l ++ held).Nodup
  books : ∀ p, s.allocs p = s.frees p + (l ++ held).count p

section Owned

variable {s s' : AddrSpace} {l held : List RecPtr} {x : RecPtr}

/-- Changes that keep the links and the books. -/
theorem Owned.congr (h : Owned s l held) (hnext : ∀ p ∈ l, s'.next p = s.next p)
    (hhead : s'.vmm.memSpaceHead = s.vmm.memSpaceHead) (hallocs : s'.allocs = s.allocs)
    (hfrees : s'.frees = s.frees) : Owned s' l held := by
  refine ⟨?_, h.nodup, by rw [hallocs, hfrees]; exact h.books⟩
  rw [AddrSpace.Listed, hhead]
  exact h.chain.congr hnext

/-- The same books, another list of the same records. -/
theorem Owned.relink (h : Owned s l held) {l' held' : List RecPtr}
    (hperm : (l' ++ held').Perm (l ++ held)) (hallocs : s'.allocs = s.allocs)
    (hfrees : s'.frees = s.frees) (hchain : Seg s'.next s'.vmm.memSpaceHead l' none) :
    Owned s' l' held' := by
  refine ⟨hchain, hperm.nodup_iff.2 h.nodup, fun p => ?_⟩
  rw [hallocs, hfrees, h.books, hperm.count_eq]

/-- Moving a record between the list and the hand of the caller. -/
theorem perm_move (l₁ l₂ held : List RecPtr) (x : RecPtr) :
    (l₁ ++ x :: l₂ ++ held).Perm (l₁ ++ l₂ ++ x :: held) := by
  rw [List.append_assoc, List.cons_append]
  refine List.perm_middle.trans ?_
  rw [← List.append_assoc]
  exact List.perm_middle.symm

/-- Freeing a record that is held. -/
theorem Owned.free (h : Owned s l (x :: held)) : Owned (memSpaceFree s x) l held := by
  have hperm : (l ++ x :: held).Perm (x :: (l ++ held)) := List.perm_middle
  refine ⟨h.chain, (List.nodup_cons.1 (hperm.nodup_iff.1 h.nodup)).2, fun p => ?_⟩
  have hbooks := h.books p
  rw [hperm.count_eq, List.count_cons] at hbooks
  show s.allocs p = Function.update s.frees x (s.frees x + 1) p + _
  by_cases hp : p = x
  · subst hp
    rw [Function.update_self]
    rw [if_pos (by simp)] at hbooks
    omega
  · rw [Function.update_of_ne hp]
    rw [if_neg (by simpa using Ne.symm hp)] at hbooks
    omega

/-- **What `mem_space_alloc` returns is not on the list.** -/
theorem memSpaceAlloc_spec (h : Owned s l held) :
    (∃ s', memSpaceAlloc s = (s', none) ∧ Owned s' l held ∧ s'.recs = s.recs) ∨
      ∃ s' x rest, memSpaceAlloc s = (s', some x) ∧ Owned s' l (x :: held) ∧ s'.recs = s.recs ∧
        s.supply = some x :: rest := by
  unfold memSpaceAlloc
  split
  · rename_i x rest hsupply
    by_cases hx : s.allocs x ≤ s.frees x
    · rw [if_pos hx]
      refine Or.inr ⟨_, x, rest, rfl, ?_, rfl, hsupply⟩
      have hmem : x ∉ l ++ held := by
        rw [← List.count_eq_zero]
        have := h.books x
        omega
      have hperm : (l ++ x :: held).Perm (x :: (l ++ held)) := List.perm_middle
      refine ⟨h.chain, hperm.nodup_iff.2 (List.nodup_cons.2 ⟨hmem, h.nodup⟩), fun p => ?_⟩
      have hbooks := h.books p
      show Function.update s.allocs x (s.allocs x + 1) p = s.frees p + (l ++ x :: held).count p
      rw [hperm.count_eq, List.count_cons]
      by_cases hp : p = x
      · subst hp
        rw [Function.update_self, if_pos (by simp)]
        omega
      · rw [Function.update_of_ne hp, if_neg (by simpa using Ne.symm hp)]
        omega
    · rw [if_neg hx]
      exact Or.inl ⟨_, rfl, h.congr (fun _ _ => rfl) rfl rfl rfl, rfl⟩
  · exact Or.inl ⟨_, rfl, h.congr (fun _ _ => rfl) rfl rfl rfl, rfl⟩
  · exact Or.inl ⟨_, rfl, h, rfl⟩

/-- The intervals of the records. -/
def AddrSpace.spans (s : AddrSpace) (l : List RecPtr) : List (Span Attrs) := l.map s.span

theorem spans_append (s : AddrSpace) (l₁ l₂ : List RecPtr) :
    s.spans (l₁ ++ l₂) = s.spans l₁ ++ s.spans l₂ := List.map_append ..

theorem spans_congr {l : List RecPtr} (h : ∀ p ∈ l, s'.span p = s.span p) :
    s'.spans l = s.spans l :=
  List.map_congr_left h

theorem spans_of_recs (h : s'.recs = s.recs) (l : List RecPtr) : s'.spans l = s.spans l :=
  spans_congr fun p _ => by rw [AddrSpace.span, h, AddrSpace.span]

end Owned

/-! ## Insertion -/

/-- The space before which `mem_space_insert` puts a space that ends at `end_`. -/
def nextSpace (s : AddrSpace) (end_ : ℕ) : Option RecPtr :=
  (search s.next (fun p => decide (end_ ≤ (s.recs p).start)) walkRounds none
    s.vmm.memSpaceHead).bind Prod.snd

/-- Inserting a private space that ends at `end_` would merge it with the space
above: that space starts there and has the same protection and flags. -/
def MergesRight (s : AddrSpace) (end_ pageProt flags : ℕ) : Prop :=
  hasFlag flags memSpaceMapShared = false ∧ ∃ q, nextSpace s end_ = some q ∧
    (s.recs q).start = end_ ∧ (s.recs q).pageProt = pageProt ∧ (s.recs q).flags = flags

instance (s : AddrSpace) (end_ pageProt flags : ℕ) :
    Decidable (MergesRight s end_ pageProt flags) :=
  match h : nextSpace s end_ with
  | none => isFalse (by simp [MergesRight, h])
  | some q =>
      decidable_of_iff (hasFlag flags memSpaceMapShared = false ∧ (s.recs q).start = end_ ∧
        (s.recs q).pageProt = pageProt ∧ (s.recs q).flags = flags) (by simp [MergesRight, h])

/-- The attributes `mem_space_insert` compares. -/
def JoinsAttrs (a b : Attrs) : Prop := a.pageProt = b.pageProt ∧ a.flags = b.flags

/-- `mem_space_insert` joins a private space to one with the same attributes. -/
def Merges (a b : Attrs) : Prop := JoinsAttrs a b ∧ hasFlag b.flags memSpaceMapShared = false

theorem sameAttrs_iff {s : AddrSpace} {p q : RecPtr} :
    sameAttrs s p q = true ↔ JoinsAttrs (s.recs p).toAttrs (s.recs q).toAttrs := by
  simp [sameAttrs, JoinsAttrs]

section Insert

variable {s : AddrSpace} {l₁ l₂ held : List RecPtr} {x : RecPtr}

/-- The interval a record stands for once it is on the list. -/
def insertedSpan (s : AddrSpace) (x : RecPtr) : Span Attrs :=
  ⟨(s.recs x).start, (s.recs x).end_, { (s.recs x).toAttrs with vmm := s.vmmAddr }⟩

theorem frame_linkSpace (s : AddrSpace) (prev : Option RecPtr) (x : RecPtr) (p : Option RecPtr) :
    Frame s (linkSpace s prev x p) :=
  ((frame_modify s x _).trans (frame_setLink _ prev (some x))).trans (frame_modify _ x _)

theorem linkSpace_span_self (prev : Option RecPtr) (p : Option RecPtr) :
    (linkSpace s prev x p).span x = insertedSpan s x := by
  have hspan := congrFun (setLink_span (s.modify x fun r => { r with next := p }) prev (some x)) x
  simp only [AddrSpace.span, modify_recs_self, Span.mk.injEq] at hspan
  obtain ⟨hstart, hend, hattrs⟩ := hspan
  simp only [linkSpace, AddrSpace.span, modify_recs_self, insertedSpan, hstart, hend, hattrs]

theorem linkSpace_span_of_ne (prev p : Option RecPtr) {q : RecPtr} (h : q ≠ x) :
    (linkSpace s prev x p).span q = s.span q := by
  rw [linkSpace, modify_span_of_ne _ _ _ h, setLink_span, modify_span_of_ne _ _ _ h]

theorem linkSpace_next (prev p : Option RecPtr) :
    (linkSpace s prev x p).next =
      (redirect (Function.update s.next x p) s.vmm.memSpaceHead prev (some x)).1 := by
  rw [linkSpace, modify_next_eq _ _ (fun r => { r with vmm := s.vmmAddr }) fun _ => rfl,
    setLink_next, modify_next, modify_vmm]

theorem linkSpace_head (prev p : Option RecPtr) :
    (linkSpace s prev x p).vmm.memSpaceHead =
      (redirect (Function.update s.next x p) s.vmm.memSpaceHead prev (some x)).2 := by
  rw [linkSpace, modify_vmm, setLink_head, modify_next, modify_vmm]

/-- Linking a record between two parts of the list. -/
theorem owned_linkSpace (h : Owned s (l₁ ++ l₂) (x :: held)) :
    Owned (linkSpace s l₁.getLast? x l₂.head?) (l₁ ++ x :: l₂) held := by
  obtain ⟨hnd, -, hdis⟩ := List.nodup_append.1 h.nodup
  have hx : x ∉ l₁ ++ l₂ := fun hmem => hdis x hmem x (by simp) rfl
  apply h.relink (perm_move l₁ l₂ held x) (by simp [linkSpace]) (by simp [linkSpace])
  rw [linkSpace_next, linkSpace_head]
  exact seg_insert hnd h.chain hx

/-- The link of the record that has just been put in. -/
theorem linkSpace_next_self (h : Owned s (l₁ ++ l₂) (x :: held)) :
    (linkSpace s l₁.getLast? x l₂.head?).next x = l₂.head? := by
  obtain ⟨m, -, -, htail⟩ := seg_append.1 (owned_linkSpace h).chain
  exact htail.head_eq

/-- Where `mem_space_insert` stops, and what it means for a merge to the right. -/
theorem not_mergesRight {end_ pageProt flags : ℕ} {p : Option RecPtr} {prev : Option RecPtr}
    (hmerge : ¬ MergesRight s end_ pageProt flags)
    (hshared : hasFlag flags memSpaceMapShared = false)
    (hrun : search s.next (fun p => decide (end_ ≤ (s.recs p).start)) walkRounds none
      s.vmm.memSpaceHead = some (prev, p)) {q : RecPtr} (hq : q ∈ p) :
    ¬ ((s.recs q).start = end_ ∧ (s.recs q).pageProt = pageProt ∧ (s.recs q).flags = flags) := by
  rintro ⟨h₁, h₂, h₃⟩
  refine hmerge ⟨hshared, q, ?_, h₁, h₂, h₃⟩
  rw [nextSpace, hrun]
  exact hq

/-- A record that does not touch the next one with equal attributes is not merged
with it. -/
theorem mergeNext_eq {p : Option RecPtr} {y : RecPtr}
    (h : ∀ q ∈ p, ¬ ((s.recs y).end_ = (s.recs q).start ∧
      JoinsAttrs (s.recs y).toAttrs (s.recs q).toAttrs)) : mergeNext s y p = s := by
  cases p with
  | none => rfl
  | some q =>
      rw [mergeNext]
      exact if_neg fun hq => h q rfl ⟨hq.1, sameAttrs_iff.1 hq.2⟩

theorem mergePrev_cases (prev : Option RecPtr) (x : RecPtr) (p : Option RecPtr) :
    mergePrev s prev x p = (s, x) ∨
      ∃ q, prev = some q ∧ (s.recs q).end_ = (s.recs x).start ∧
        JoinsAttrs (s.recs q).toAttrs (s.recs x).toAttrs ∧
        mergePrev s prev x p = (extendPrev s q x p, q) := by
  cases prev with
  | none => exact Or.inl rfl
  | some q =>
      rw [mergePrev]
      by_cases h : (s.recs q).end_ = (s.recs x).start ∧ sameAttrs s q x = true
      · exact Or.inr ⟨q, rfl, h.1, sameAttrs_iff.1 h.2, if_pos h⟩
      · exact Or.inl (if_neg h)

theorem extendPrev_span_self (q : RecPtr) (p : Option RecPtr) :
    (extendPrev s q x p).span q = ⟨(s.recs q).start, (s.recs x).end_, (s.recs q).toAttrs⟩ := by
  simp [AddrSpace.span, extendPrev, memSpaceFree]

theorem extendPrev_span_of_ne {q r : RecPtr} (h : r ≠ q) (p : Option RecPtr) :
    (extendPrev s q x p).span r = s.span r :=
  modify_span_of_ne s q (fun r => { r with end_ := (s.recs x).end_, next := p }) h

/-- Merging the new record into the one before it takes it off the list again. -/
theorem extendPrev_spec {l₀ : List RecPtr} {q : RecPtr} (h : Owned s (l₀ ++ [q] ++ x :: l₂) held)
    (hnext : s.next x = l₂.head?) :
    Owned (extendPrev s q x l₂.head?) (l₀ ++ q :: l₂) held ∧
      (extendPrev s q x l₂.head?).spans (l₀ ++ q :: l₂) =
        s.spans l₀ ++ ⟨(s.recs q).start, (s.recs x).end_, (s.recs q).toAttrs⟩ :: s.spans l₂ := by
  have hnd := (List.nodup_append.1 h.nodup).1
  constructor
  · have hheld : Owned (s.modify q fun r => { r with end_ := (s.recs x).end_, next := l₂.head? })
        (l₀ ++ [q] ++ l₂) (x :: held) := by
      refine h.relink (perm_move _ l₂ held x).symm rfl rfl ?_
      have hseg := seg_remove hnd h.chain
      rw [List.getLast?_concat, hnext] at hseg
      rw [modify_next]
      exact hseg
    rw [List.append_cons]
    exact hheld.free
  · have hq₀ : q ∉ l₀ := fun hmem =>
      (List.nodup_append.1 (List.nodup_append.1 hnd).1).2.2 q hmem q (by simp) rfl
    have hq₂ : q ∉ l₂ := fun hmem =>
      (List.nodup_append.1 hnd).2.2 q (by simp) q (by simp [hmem]) rfl
    have hkeep : ∀ l : List RecPtr, q ∉ l → (extendPrev s q x l₂.head?).spans l = s.spans l := by
      intro l hql
      refine spans_congr fun r hr => extendPrev_span_of_ne ?_ _
      rintro rfl
      exact hql hr
    rw [spans_append, hkeep l₀ hq₀]
    show _ ++ (extendPrev s q x l₂.head?).span q :: (extendPrev s q x l₂.head?).spans l₂ = _
    rw [extendPrev_span_self, hkeep l₂ hq₂]

/-- **An insertion that does not merge to the right.** -/
theorem memSpaceInsert_spec {l : List RecPtr} (h : Owned s l (x :: held))
    (hmerge : ¬ MergesRight s (s.recs x).end_ (s.recs x).pageProt (s.recs x).flags) :
    ∃ s' l', memSpaceInsert s x = some s' ∧ Owned s' l' held ∧ Frame s s' ∧
      Inserted Merges (insertedSpan s x) (s.spans l) (s'.spans l') := by
  obtain ⟨l₁, l₂, rfl, h₁, h₂, hrun⟩ :=
    listed_search h.chain fun p => decide ((s.recs x).end_ ≤ (s.recs p).start)
  obtain ⟨hnd, -, hdis⟩ := List.nodup_append.1 h.nodup
  have hbelow : ∀ t ∈ s.spans l₁, ¬ (s.recs x).end_ ≤ t.start := by
    intro t ht
    obtain ⟨q, hq, rfl⟩ := List.mem_map.1 ht
    simpa using h₁ q hq
  have habove : ∀ t ∈ (s.spans l₂).head?, (s.recs x).end_ ≤ t.start := by
    intro t ht
    rw [AddrSpace.spans, List.head?_map] at ht
    obtain ⟨q, hq, rfl⟩ := Option.mem_map.1 ht
    simpa using h₂ q hq
  -- the list with the record linked and nothing merged
  obtain ⟨s₁, hs₁⟩ : ∃ s₁, s₁ = linkSpace s l₁.getLast? x l₂.head? := ⟨_, rfl⟩
  have howned : Owned s₁ (l₁ ++ x :: l₂) held := hs₁ ▸ owned_linkSpace h
  have hframe : Frame s s₁ := hs₁ ▸ frame_linkSpace s l₁.getLast? x l₂.head?
  have hself : s₁.span x = insertedSpan s x := hs₁ ▸ linkSpace_span_self l₁.getLast? l₂.head?
  have hkeep : ∀ q ∈ l₁ ++ l₂, s₁.span q = s.span q := fun q hq =>
    hs₁ ▸ linkSpace_span_of_ne _ _ fun hqx => hdis q hq x (by simp) hqx
  have hxend : (s₁.recs x).end_ = (s.recs x).end_ := congrArg Span.end_ hself
  have hxattrs : JoinsAttrs (s₁.recs x).toAttrs (s.recs x).toAttrs := by
    rw [show (s₁.recs x).toAttrs = _ from congrArg Span.attr hself]
    exact ⟨rfl, rfl⟩
  have hplain : ∃ s' l', some s₁ = some s' ∧ Owned s' l' held ∧ Frame s s' ∧
      Inserted Merges (insertedSpan s x) (s.spans (l₁ ++ l₂)) (s'.spans l') := by
    refine ⟨s₁, l₁ ++ x :: l₂, rfl, howned, hframe, ?_⟩
    rw [spans_append, spans_append, spans_congr fun q hq => hkeep q (List.mem_append_left _ hq)]
    show Inserted _ _ _ (_ ++ s₁.span x :: s₁.spans l₂)
    rw [hself, spans_congr fun q hq => hkeep q (List.mem_append_right _ hq)]
    exact Inserted.insert _ _ hbelow habove
  rw [memSpaceInsert, hrun]
  simp only [← hs₁, hxattrs.2]
  by_cases hshared : hasFlag (s.recs x).flags memSpaceMapShared = true
  · rw [if_pos hshared]
    exact hplain
  · rw [if_neg hshared]
    -- whichever record is left, it is not merged with the one after it
    have hstop : ∀ t y, (t.recs y).end_ = (s.recs x).end_ →
        JoinsAttrs (t.recs y).toAttrs (s.recs x).toAttrs →
        (∀ q ∈ l₂, t.span q = s.span q) → mergeNext t y l₂.head? = t := by
      intro t y hend hattrs hsame
      apply mergeNext_eq
      intro q hq hjoin
      have hspan := hsame q (List.mem_of_head? hq)
      have hstart : (t.recs q).start = (s.recs q).start := congrArg Span.start hspan
      have hqattrs : (t.recs q).toAttrs = (s.recs q).toAttrs := congrArg Span.attr hspan
      rw [hstart, hqattrs, hend] at hjoin
      exact not_mergesRight hmerge (Bool.eq_false_iff.2 hshared) hrun hq
        ⟨hjoin.1.symm, hjoin.2.1.symm.trans hattrs.1, hjoin.2.2.symm.trans hattrs.2⟩
    rcases mergePrev_cases (s := s₁) l₁.getLast? x l₂.head? with
      hnone | ⟨q, hq, hend, hattrs, hmerged⟩
    · rw [hnone]
      simp only
      rw [hstop s₁ x hxend hxattrs fun q hq => hkeep q (List.mem_append_right _ hq)]
      exact hplain
    · obtain ⟨l₀, rfl⟩ : ∃ l₀, l₁ = l₀ ++ [q] := List.getLast?_eq_some_iff.1 hq
      obtain ⟨howned', hspans'⟩ := extendPrev_spec howned (hs₁ ▸ linkSpace_next_self h)
      have hjoin : JoinsAttrs (s₁.recs q).toAttrs (s.recs x).toAttrs :=
        ⟨hattrs.1.trans hxattrs.1, hattrs.2.trans hxattrs.2⟩
      have hq₂ : ∀ r ∈ l₂, r ≠ q := fun r hr hrq =>
        (List.nodup_append.1 hnd).2.2 q (by simp) r hr hrq.symm
      have hqspan := extendPrev_span_self (s := s₁) (x := x) q l₂.head?
      rw [hmerged]
      simp only
      rw [hstop _ q ((congrArg Span.end_ hqspan).trans hxend)
        (by rw [show ((extendPrev s₁ q x l₂.head?).recs q).toAttrs = _ from
          congrArg Span.attr hqspan]; exact hjoin)
        fun r hr => (extendPrev_span_of_ne (hq₂ r hr) _).trans (hkeep r (by simp [hr]))]
      refine ⟨_, l₀ ++ q :: l₂, rfl, howned',
        (hframe.trans (frame_modify _ _ _)).trans (frame_free _ _), ?_⟩
      have hsq := hkeep q (by simp)
      rw [hspans', spans_congr fun r hr => hkeep r (by simp [hr]),
        spans_congr fun r hr => hkeep r (by simp [hr]), hxend, List.append_assoc, spans_append,
        show (s₁.recs q).start = (s.span q).start from congrArg Span.start hsq,
        show (s₁.recs q).toAttrs = (s.span q).attr from congrArg Span.attr hsq]
      refine Inserted.extend _ _ _ ?_ habove ?_ ?_
      · simpa [AddrSpace.spans, insertedSpan] using hbelow
      · rw [← hsq, span_end, hend]
        exact congrArg Span.start hself
      · rw [← hsq]
        exact ⟨hjoin, Bool.eq_false_iff.2 hshared⟩

end Insert

/-! ## Unmapping -/

section Unmap

variable {s : AddrSpace} {l₁ l₂ held : List RecPtr} {p x : RecPtr} {addr e : ℕ}

@[simp] theorem memSpaceRemove_span (s : AddrSpace) (p : RecPtr) (prev : Option RecPtr) :
    (memSpaceRemove s p prev).span = s.span := setLink_span s prev _

theorem frame_remove (s : AddrSpace) (p : RecPtr) (prev : Option RecPtr) :
    Frame s (memSpaceRemove s p prev) := (frame_setLink s prev _).trans (frame_free _ p)

/-- Removing a record from the list frees it. -/
theorem owned_remove (h : Owned s (l₁ ++ p :: l₂) held) :
    Owned (memSpaceRemove s p l₁.getLast?) (l₁ ++ l₂) held := by
  have hheld : Owned (s.setLink l₁.getLast? (s.recs p).next) (l₁ ++ l₂) (p :: held) := by
    apply h.relink (perm_move l₁ l₂ held p).symm (setLink_allocs ..) (setLink_frees ..)
    rw [setLink_next, setLink_head]
    exact seg_remove (List.nodup_append.1 h.nodup).1 h.chain
  exact hheld.free

/-- The new record goes behind the one that is cut. -/
theorem owned_splitSpace (h : Owned s (l₁ ++ [p] ++ l₂) (x :: held)) :
    Owned (splitSpace s p x addr e) (l₁ ++ [p] ++ x :: l₂) held := by
  obtain ⟨hnd, -, hdis⟩ := List.nodup_append.1 h.nodup
  have hx : x ∉ l₁ ++ [p] ++ l₂ := fun hmem => hdis x hmem x (by simp) rfl
  have hpx : p ≠ x := fun hpx => hx (by simp [hpx])
  have hlast : s.next p = l₂.head? := by
    obtain ⟨m, h₁, h₂⟩ := seg_append.1 h.chain
    rw [h₁.last_next, h₂.head_eq]
  refine h.relink (perm_move _ l₂ held x) rfl rfl ?_
  have hseg := seg_insert hnd h.chain hx
  rw [List.getLast?_concat, ← hlast] at hseg
  rw [splitSpace, modify_next, modify_next]
  exact hseg

theorem splitSpace_span_left (hpx : p ≠ x) :
    (splitSpace s p x addr e).span p = ⟨(s.recs p).start, addr, (s.recs p).toAttrs⟩ := by
  simp [splitSpace, AddrSpace.span, modify_recs_of_ne s x _ hpx]

theorem splitSpace_span_right (hpx : p ≠ x) :
    (splitSpace s p x addr e).span x = ⟨e, (s.recs p).end_, (s.recs x).toAttrs⟩ := by
  rw [splitSpace, modify_span_of_ne _ _ _ (Ne.symm hpx)]
  simp [AddrSpace.span]

theorem splitSpace_span_of_ne {q : RecPtr} (hqp : q ≠ p) (hqx : q ≠ x) :
    (splitSpace s p x addr e).span q = s.span q := by
  rw [splitSpace, modify_span_of_ne _ _ _ hqp, modify_span_of_ne _ _ _ hqx]

theorem frame_splitSpace (s : AddrSpace) (p x : RecPtr) (addr e : ℕ) :
    Frame s (splitSpace s p x addr e) := ⟨rfl, rfl, rfl, rfl, rfl, rfl⟩

theorem removeEmpty_span (s : AddrSpace) (prev : Option RecPtr) (p x : RecPtr) :
    (removeEmpty s prev p x).span = s.span := by
  unfold removeEmpty
  by_cases hp : (s.recs p).start = (s.recs p).end_
  · simp only [if_pos hp]
    split_ifs <;> simp
  · simp only [if_neg hp]
    split_ifs <;> simp

theorem frame_removeEmpty (s : AddrSpace) (prev : Option RecPtr) (p x : RecPtr) :
    Frame s (removeEmpty s prev p x) := by
  unfold removeEmpty
  by_cases hp : (s.recs p).start = (s.recs p).end_
  · simp only [if_pos hp]
    split_ifs
    · exact (frame_remove s p prev).trans (frame_remove _ x _)
    · exact frame_remove s p prev
  · simp only [if_neg hp]
    split_ifs
    · exact frame_remove s x _
    · exact Frame.refl s

/-- The records `removeEmpty` leaves. -/
def keptHalves (s : AddrSpace) (p x : RecPtr) : List RecPtr :=
  (if (s.recs p).start = (s.recs p).end_ then [] else [p]) ++
    (if (s.recs x).start = (s.recs x).end_ then [] else [x])

/-- The pointer to the record before moves when the first half goes. -/
theorem owned_removeEmpty (h : Owned s (l₁ ++ [p] ++ x :: l₂) held) :
    Owned (removeEmpty s l₁.getLast? p x) (l₁ ++ keptHalves s p x ++ l₂) held := by
  unfold removeEmpty keptHalves
  have h' : Owned s (l₁ ++ p :: (x :: l₂)) held := by simpa using h
  by_cases hp : (s.recs p).start = (s.recs p).end_
  · have hspan := congrFun (memSpaceRemove_span s p l₁.getLast?) x
    have hstart : ((memSpaceRemove s p l₁.getLast?).recs x).start = (s.recs x).start :=
      congrArg Span.start hspan
    have hend : ((memSpaceRemove s p l₁.getLast?).recs x).end_ = (s.recs x).end_ :=
      congrArg Span.end_ hspan
    simp only [if_pos hp, hstart, hend]
    by_cases hx : (s.recs x).start = (s.recs x).end_
    · rw [if_pos hx, if_pos hx]
      simpa using owned_remove (owned_remove h')
    · rw [if_neg hx, if_neg hx]
      simpa using owned_remove h'
  · simp only [if_neg hp]
    by_cases hx : (s.recs x).start = (s.recs x).end_
    · rw [if_pos hx, if_pos hx]
      have hrem := owned_remove h
      rw [List.getLast?_concat] at hrem
      simpa using hrem
    · rw [if_neg hx, if_neg hx]
      simpa using h

/-- **The two halves of a cut.** -/
theorem split_spec (addr e : ℕ) (h : Owned s (l₁ ++ [p] ++ l₂) (x :: held))
    (hbefore : ∀ q ∈ l₁, (s.recs q).end_ ≤ addr)
    (hinside : (s.recs p).start ≤ addr ∧ addr < (s.recs p).end_) (hwithin : e ≤ (s.recs p).end_) :
    ∃ l', Owned (removeEmpty (splitSpace s p x addr e) l₁.getLast? p x) l' held ∧
      Cut addr e (s.recs x).toAttrs (s.spans (l₁ ++ [p] ++ l₂))
        ((removeEmpty (splitSpace s p x addr e) l₁.getLast? p x).spans l') := by
  obtain ⟨hnd, -, hdis⟩ := List.nodup_append.1 h.nodup
  have hx : ∀ q ∈ l₁ ++ [p] ++ l₂, q ≠ x := fun q hq hqx => hdis q hq x (by simp) hqx
  have hpx : p ≠ x := hx p (by simp)
  have hp₁ : ∀ q ∈ l₁, q ≠ p := fun q hq hqp =>
    (List.nodup_append.1 (List.nodup_append.1 hnd).1).2.2 q hq p (by simp) hqp
  have hp₂ : ∀ q ∈ l₂, q ≠ p := fun q hq hqp =>
    (List.nodup_append.1 hnd).2.2 p (by simp) q hq hqp.symm
  have hleft : (splitSpace s p x addr e).span p = _ := splitSpace_span_left hpx
  have hright : (splitSpace s p x addr e).span x = _ := splitSpace_span_right hpx
  refine ⟨_, owned_removeEmpty (owned_splitSpace h), ?_⟩
  have hspan := removeEmpty_span (splitSpace s p x addr e) l₁.getLast? p x
  rw [AddrSpace.spans, AddrSpace.spans, hspan]
  -- the halves that are kept are the intervals that are left
  have hhalves : (keptHalves (splitSpace s p x addr e) p x).map (splitSpace s p x addr e).span =
      (s.span p).below addr ++ (s.span p).above e (s.recs x).toAttrs := by
    have hpstart : ((splitSpace s p x addr e).recs p).start = (s.recs p).start :=
      congrArg Span.start hleft
    have hpend : ((splitSpace s p x addr e).recs p).end_ = addr := congrArg Span.end_ hleft
    have hxstart : ((splitSpace s p x addr e).recs x).start = e := congrArg Span.start hright
    have hxend : ((splitSpace s p x addr e).recs x).end_ = (s.recs p).end_ :=
      congrArg Span.end_ hright
    rw [keptHalves, List.map_append, hpstart, hpend, hxstart, hxend, Span.below, Span.above]
    congr 1
    · split_ifs with hif hif' hif'
      · rfl
      · exact absurd hif hif'
      · exact absurd hif' hif
      · rw [List.map_singleton, hleft]
        rfl
    · split_ifs with hif hif' hif'
      · rfl
      · exact absurd hif hif'
      · exact absurd hif' hif
      · rw [List.map_singleton, hright]
        rfl
  have hkeep₁ : l₁.map (splitSpace s p x addr e).span = l₁.map s.span :=
    List.map_congr_left fun q hq => splitSpace_span_of_ne (hp₁ q hq) (hx q (by simp [hq]))
  have hkeep₂ : l₂.map (splitSpace s p x addr e).span = l₂.map s.span :=
    List.map_congr_left fun q hq => splitSpace_span_of_ne (hp₂ q hq) (hx q (by simp [hq]))
  simp only [List.map_append, hhalves, hkeep₁, hkeep₂, List.map_singleton]
  rw [List.append_assoc (l₁.map s.span), List.singleton_append]
  refine Cut.cut _ _ _ ?_ hinside hwithin
  intro t ht
  obtain ⟨q, hq, rfl⟩ := List.mem_map.1 ht
  exact hbefore q hq

/-- **What an unmapping does to the list.**  It fails and leaves the list alone; it
finds the range not inside the space it looks at, leaves everything alone and
reports success; or it cuts the range out of that space, with the attributes the
new record happened to hold for what is above. -/
theorem doMemSpaceUnmap_spec {l : List RecPtr} (h : Owned s l held) {len : ℕ} {s' : AddrSpace}
    {ret : ℤ} (hrun : doMemSpaceUnmap s addr len = some (s', ret)) :
    Frame { s with mm := s'.mm } s' ∧
      (ret = -1 ∧ Owned s' l held ∧ s'.recs = s.recs ∨
        ret = 0 ∧ ¬ UnmapRefused addr len ∧ s' = s ∧
          (∃ l₁ p l₂, l = l₁ ++ p :: l₂ ∧ (∀ q ∈ l₁, (s.recs q).end_ ≤ addr) ∧
            addr < (s.recs p).end_ ∧
            (addr < (s.recs p).start ∨ (s.recs p).end_ < add32 addr (pageAlign len))) ∨
        ret = 0 ∧ ¬ UnmapRefused addr len ∧
          ∃ l' x rest, s.supply = some x :: rest ∧ Owned s' l' held ∧
            Cut addr (add32 addr (pageAlign len)) (s.recs x).toAttrs (s.spans l)
            (s'.spans l')) := by
  unfold doMemSpaceUnmap at hrun
  by_cases hrefused : UnmapRefused addr len
  · rw [if_pos hrefused] at hrun
    cases hrun
    exact ⟨Frame.refl s, Or.inl ⟨rfl, h, rfl⟩⟩
  · rw [if_neg hrefused] at hrun
    obtain ⟨l₁, l₂, rfl, hbefore, habove, hfind⟩ := memSpaceFindPrev_spec h.chain addr
    rw [hfind] at hrun
    cases l₂ with
    | nil =>
        cases hrun
        exact ⟨Frame.refl s, Or.inl ⟨rfl, h, rfl⟩⟩
    | cons p l₂ =>
        simp only [List.head?_cons] at hrun
        have hp := habove p rfl
        by_cases hout : addr < (s.recs p).start ∨ (s.recs p).end_ < add32 addr (pageAlign len)
        · rw [if_pos hout] at hrun
          cases hrun
          exact ⟨Frame.refl s, Or.inr (Or.inl
            ⟨rfl, hrefused, rfl, l₁, p, l₂, rfl, hbefore, hp, hout⟩)⟩
        · rw [if_neg hout] at hrun
          rw [not_or, not_lt, not_lt] at hout
          split at hrun
          · cases hrun
          · rename_i mm hmm
            have hmmOwned : Owned { s with mm := mm } (l₁ ++ p :: l₂) held :=
              h.congr (fun _ _ => rfl) rfl rfl rfl
            have hframe := frame_alloc { s with mm := mm }
            rcases memSpaceAlloc_spec hmmOwned with
              ⟨t, halloc, howned, hrecs⟩ | ⟨t, x, rest, halloc, howned, hrecs, hsupply⟩
            · rw [halloc] at hrun hframe
              cases hrun
              rw [hframe.mm]
              exact ⟨hframe, Or.inl ⟨rfl, howned, hrecs⟩⟩
            · rw [halloc] at hrun hframe
              cases hrun
              have hsame : t.recs = s.recs := hrecs
              have hspans : t.spans (l₁ ++ [p] ++ l₂) = s.spans (l₁ ++ p :: l₂) := by
                rw [spans_of_recs hsame, ← List.append_cons]
              rw [List.append_cons] at howned
              obtain ⟨l', howned', hcut⟩ := split_spec addr (add32 addr (pageAlign len)) howned
                (by rwa [hsame]) (by rw [hsame]; exact ⟨hout.1, hp⟩) (by rw [hsame]; exact hout.2)
              have hall := (hframe.trans (frame_splitSpace t p x addr
                (add32 addr (pageAlign len)))).trans
                (frame_removeEmpty _ l₁.getLast? p x)
              rw [hspans, hsame] at hcut
              rw [hall.mm]
              exact ⟨hall, Or.inr (Or.inr ⟨rfl, hrefused, l', x, rest, hsupply, howned', hcut⟩)⟩

/-- The page tables play no part in `mem_space_alloc`. -/
theorem memSpaceAlloc_setMm (s : AddrSpace) (mm : Mm) :
    (memSpaceAlloc { s with mm := mm }).2 = (memSpaceAlloc s).2 := by
  simp only [memSpaceAlloc]
  split
  · split_ifs <;> rfl
  · rfl
  · rfl

/-- The call goes through, and its range lies in the space `p`. -/
def CutsInto (s : AddrSpace) (addr len : ℕ) (p : RecPtr) : Prop :=
  ¬ UnmapRefused addr len ∧ memSpaceFind s addr = some (some p) ∧ (s.recs p).start ≤ addr ∧
    add32 addr (pageAlign len) ≤ (s.recs p).end_

/-- **What an unmapping does to the page tables.**  Nothing happens at all, or the range lies in
the space that is found and its pages go away; then the call fails only if there is no record. -/
theorem doMemSpaceUnmap_pages {len : ℕ} {s' : AddrSpace} {ret : ℤ}
    (hrun : doMemSpaceUnmap s addr len = some (s', ret)) :
    (s' = s ∧ ∀ p, ¬ CutsInto s addr len p) ∨ ∃ p, CutsInto s addr len p ∧
      pageUnmapAddrSafe s.mm addr (pageAlign len) (hasFlag (s.recs p).flags memSpaceMapShared) =
        some s'.mm ∧
      (ret = -1 ∧ (memSpaceAlloc s).2 = none ∨ ret = 0 ∧ (memSpaceAlloc s).2 ≠ none) := by
  unfold doMemSpaceUnmap at hrun
  by_cases hrefused : UnmapRefused addr len
  · rw [if_pos hrefused] at hrun
    cases hrun
    exact Or.inl ⟨rfl, fun p hp => hp.1 hrefused⟩
  · rw [if_neg hrefused] at hrun
    split at hrun
    · cases hrun
    · rename_i prev hfind
      cases hrun
      refine Or.inl ⟨rfl, fun p hp => ?_⟩
      have hp := hp.2.1
      rw [memSpaceFind, hfind] at hp
      cases hp
    · rename_i prev p hfind
      have hfind' : memSpaceFind s addr = some (some p) := by
        rw [memSpaceFind, hfind, Option.map_some]
      by_cases hout : addr < (s.recs p).start ∨ (s.recs p).end_ < add32 addr (pageAlign len)
      · rw [if_pos hout] at hrun
        cases hrun
        refine Or.inl ⟨rfl, fun q hq => ?_⟩
        obtain ⟨-, hq, hlow, hhigh⟩ := hq
        rw [hfind', Option.some.injEq, Option.some.injEq] at hq
        subst hq
        omega
      · rw [if_neg hout] at hrun
        rw [not_or, not_lt, not_lt] at hout
        split at hrun
        · cases hrun
        · rename_i mm hmm
          have hframe := frame_alloc { s with mm := mm }
          have hleft := memSpaceAlloc_setMm s mm
          refine Or.inr ⟨p, ⟨hrefused, hfind', hout⟩, ?_⟩
          split at hrun
          · rename_i t halloc
            rw [halloc] at hframe hleft
            cases hrun
            exact ⟨by rw [hframe.mm]; exact hmm, Or.inl ⟨rfl, hleft.symm⟩⟩
          · rename_i t x halloc
            rw [halloc] at hframe hleft
            cases hrun
            have hall := (hframe.trans (frame_splitSpace t p x addr
              (add32 addr (pageAlign len)))).trans
              (frame_removeEmpty _ prev p x)
            refine ⟨by rw [hall.mm]; exact hmm, Or.inr ⟨rfl, ?_⟩⟩
            rw [← hleft]
            exact Option.some_ne_none x

end Unmap

end Vm
end LightOS
