import LightOS.Vmm.MemSpaceOrder
import LightOS.Mm.Page

/-!
# Page faults

`page_do_fault` of `arch/x86/mach-i386/mm/page.c`, which grows stacks downwards
and enters missing pages.  A fault is given by the faulting address (`cr2`), the
stack pointer and the error code.  Sending the signal that kills the process does
not change its memory.

* `pageDoFault_cases` — what a fault does to the list and the page tables.
* `pageDoFault_inside` — in every run of faults in which no kernel-mode access hits
  a hole below a space and no stack grows past its limit at once, faults that are
  handled are handled inside a space, and stacks keep their limit.
-/

namespace LightOS
namespace Vm

open LinkedList Interval

/-! ## The model -/

/-- `PAGE_ERR_PROTECT`. -/
abbrev pageErrProtect : ℕ := 1

/-- `PAGE_ERR_WRITE`. -/
abbrev pageErrWrite : ℕ := 2

/-- `PAGE_ERR_USER`. -/
abbrev pageErrUser : ℕ := 4

/-- `do_handle_no_page`. -/
def doHandleNoPage (mm : Mm) (addr prot : ℕ) : Option (Mm × ℤ) := pageMapAddr mm addr pageSize prot

/-- `do_page_no_write`: `none` is its failure. -/
def doPageNoWrite (mm : Mm) (addr : ℕ) : Option Mm :=
  if ¬ (userVmmBaseAddr ≤ addr ∧ addr < userVmmTopAddr) then none
  else if ¬ mm.present addr then none
  else some (mm.setEntry addr (mm.entry addr ||| pageAttrWrite))

/-- `do_expand_stack`. -/
def doExpandStack (s : AddrSpace) (space : RecPtr) (addr : ℕ) : AddrSpace :=
  s.modify space fun r => { r with start := pageMask addr }

/-- `do_protection_fault`. -/
def doProtectionFault (s : AddrSpace) (space : RecPtr) (addr : ℕ) (write : Bool) :
    Option (AddrSpace × ℤ) :=
  if write then
    match doPageNoWrite s.mm addr with
    | none => some (s, -1)
    | some mm =>
        (doHandleNoPage mm addr (s.recs space).pageProt).map fun mr =>
          ({ s with mm := mr.1 }, if mr.2 = 0 then 0 else -1)
  else some (s, -1)

/-- The stack may grow down to `addr`: the test of `page_do_fault`. -/
def StackGrows (s : AddrSpace) (space : RecPtr) (addr esp : ℕ) : Prop :=
  hasFlag (s.recs space).flags memSpaceMapStack = true ∧
    sub32 (s.recs space).end_ (s.recs space).start < maxMemSpaceStackSize ∧ esp ≤ add32 addr 32

instance (s : AddrSpace) (space : RecPtr) (addr esp : ℕ) :
    Decidable (StackGrows s space addr esp) :=
  inferInstanceAs (Decidable (_ ∧ _))

/-- The part of `page_do_fault` about addresses below the space: a user-mode fault
grows the stack or is refused, a kernel-mode fault goes on. -/
def faultBelow (s : AddrSpace) (space : RecPtr) (addr esp errorCode : ℕ) : Option AddrSpace :=
  if addr < (s.recs space).start ∧ hasFlag errorCode pageErrUser = true then
    if StackGrows s space addr esp then some (doExpandStack s space addr) else none
  else some s

/-- `page_do_fault`. -/
def pageDoFault (s : AddrSpace) (addr esp errorCode : ℕ) : Option (AddrSpace × ℤ) :=
  if ¬ (userVmmBaseAddr ≤ addr ∧ addr < userVmmTopAddr) then
    if hasFlag errorCode pageErrUser then some (s, -1) else none
  else if addr < pageSize then some (s, -1)
  else
    match memSpaceFind s addr with
    | none => none
    | some none => some (s, -1)
    | some (some space) =>
        match faultBelow s space addr esp errorCode with
        | none => some (s, -1)
        | some t =>
            if hasFlag errorCode pageErrProtect then
              doProtectionFault t space addr (hasFlag errorCode pageErrWrite)
            else
              (doHandleNoPage t.mm addr (t.recs space).pageProt).map fun mr =>
                ({ t with mm := mr.1 }, 0)

/-! ## Protection faults -/

/-- A page that is present cannot be linked again. -/
theorem pageLinkAddr_of_present {m : Mm} {va : ℕ} (h : m.present va = true) (pa attr : ℕ) :
    pageLinkAddr m va pa attr = none := by
  rw [Mm.present, Bool.and_eq_true] at h
  rw [pageLinkAddr, if_pos h.1, if_pos h.2]

theorem present_pageMask {m : Mm} {addr : ℕ} (h : addr < userVmmTopAddr) :
    m.present (pageMask addr) = m.present addr := by
  have hpage : pageMask addr / 4096 = addr / 4096 := by
    unfold pageMask
    omega
  have hord : Ordinary addr := ordinary_of_lt (lt_trans h (by norm_num))
  have hord' : Ordinary (pageMask addr) :=
    ordinary_of_lt (lt_of_le_of_lt (pageMask_le addr) (lt_trans h (by norm_num)))
  simp only [Mm.present, entry_of_ordinary hord, entry_of_ordinary hord', hpage,
    dirIdx_eq_of_page hpage]

/-- Setting the write bit of a page that is present. -/
theorem doPageNoWrite_spec {m m' : Mm} {addr : ℕ} (h : doPageNoWrite m addr = some m') :
    addr < userVmmTopAddr ∧ m.present addr = true ∧ m'.present addr = true ∧
      (m.Framed → m'.Framed) ∧
      ∀ v, Ordinary v → v / 4096 ≠ addr / 4096 → m'.lookup v = m.lookup v := by
  unfold doPageNoWrite at h
  split_ifs at h with huser hpresent
  rw [Option.some.injEq] at h
  subst h
  have hva : Ordinary addr := ordinary_of_lt (lt_trans huser.2 (by norm_num))
  have hset : m.setEntry addr (m.entry addr ||| pageAttrWrite) =
      { m with pte := Function.update m.pte (addr / 4096) (m.entry addr ||| pageAttrWrite) } :=
    if_neg hva
  refine ⟨huser.2, hpresent, ?_, ?_, ?_⟩
  · rw [Mm.present, Bool.and_eq_true, entry_of_ordinary hva] at hpresent
    rw [hset, Mm.present, Bool.and_eq_true, entry_of_ordinary hva, entry_of_ordinary hva]
    refine ⟨hpresent.1, ?_⟩
    show hasFlag (Function.update m.pte (addr / 4096) _ (addr / 4096)) pageAttrPresent = true
    rw [Function.update_self, hasFlag_present, Nat.testBit_or, ← hasFlag_present, hpresent.2,
      Bool.true_or]
  · rw [hset]
    exact fun hm => hm
  · intro v hv hpage
    rw [hset]
    simp only [Mm.lookup, Mm.present, entry_of_ordinary hv, Function.update_of_ne hpage]

/-- A page that is present cannot be mapped: the attempt fails for want of a frame,
or does not come back. -/
theorem doHandleNoPage_of_present {m m' : Mm} {addr prot : ℕ} {ret : ℤ}
    (haddr : addr < userVmmTopAddr)
    (hpresent : m.present addr = true) (h : doHandleNoPage m addr prot = some (m', ret)) :
    ret = -1 ∧ m'.pde = m.pde ∧ m'.pte = m.pte ∧ (m.Framed → m'.Framed) := by
  have hend : pageMask addr < add32 (pageMask addr) pageSize := by
    have := pageMask_le addr
    unfold add32 pageSize userVmmTopAddr at *
    omega
  rw [doHandleNoPage, pageMapAddr, pageRounds, pageMapLoop, if_pos hend] at h
  split at h
  · cases h
  · rename_i t pa halloc
    obtain ⟨hpde, hpte, hframed⟩ := pageAllocUser_spec halloc
    split_ifs at h with hzero
    · cases h
      exact ⟨rfl, hpde, hpte, fun hm => (hframed hm).1⟩
    · have hthere : t.present (pageMask addr) = true := by
        rw [present_pageMask haddr, ← hpresent]
        simp only [Mm.present, Mm.entry, hpde, hpte]
      rw [pageLinkAddr_of_present hthere] at h
      cases h

/-- **A protection fault never succeeds.**  If the access was a write to a page that is
present, its write bit is set; otherwise nothing changes. -/
theorem doProtectionFault_spec {s s' : AddrSpace} {p : RecPtr} {addr : ℕ} {write : Bool} {ret : ℤ}
    (h : doProtectionFault s p addr write = some (s', ret)) :
    ret = -1 ∧ ∃ mm, s' = { s with mm := mm } ∧ (s.mm.Framed → mm.Framed) ∧
      (mm = s.mm ∨ write = true ∧ s.mm.present addr = true ∧
        ∀ v, Ordinary v → v / 4096 ≠ addr / 4096 → mm.lookup v = s.mm.lookup v) := by
  unfold doProtectionFault at h
  split_ifs at h with hwrite
  · split at h
    · cases h
      exact ⟨rfl, s.mm, rfl, fun hm => hm, Or.inl rfl⟩
    · rename_i mm hset
      obtain ⟨haddr, hbefore, hafter, hframed, hother⟩ := doPageNoWrite_spec hset
      obtain ⟨⟨mm', r⟩, hpage, heq⟩ := Option.map_eq_some_iff.1 h
      obtain ⟨rfl, hpde, hpte, hframed'⟩ := doHandleNoPage_of_present haddr hafter hpage
      rw [Prod.mk.injEq] at heq
      obtain ⟨rfl, rfl⟩ := heq
      refine ⟨by norm_num, mm', rfl, fun hm => hframed' (hframed hm), Or.inr ⟨hwrite, hbefore, ?_⟩⟩
      intro v hv hpage'
      rw [lookup_congr hpde hpte, hother v hv hpage']
  · cases h
    exact ⟨rfl, s.mm, rfl, fun hm => hm, Or.inl rfl⟩

/-! ## Faults -/

/-- **What a fault does.**  It is refused and nothing changes, or there is a space above
the address; that space is grown down to the address if it is a stack and the fault
comes from user mode; then the fault is a protection fault, or a page is entered and
the fault counts as handled. -/
theorem pageDoFault_cases {s s' : AddrSpace} {addr esp errorCode : ℕ} {ret : ℤ}
    (h : pageDoFault s addr esp errorCode = some (s', ret)) :
    s' = s ∧ ret = -1 ∨
      ∃ p t, pageSize ≤ addr ∧ addr < userVmmTopAddr ∧ memSpaceFind s addr = some (some p) ∧
        (t = s ∧ ¬ (addr < (s.recs p).start ∧ hasFlag errorCode pageErrUser = true) ∨
          t = doExpandStack s p addr ∧ addr < (s.recs p).start ∧
            hasFlag errorCode pageErrUser = true ∧ StackGrows s p addr esp) ∧
        (hasFlag errorCode pageErrProtect = true ∧
            doProtectionFault t p addr (hasFlag errorCode pageErrWrite) = some (s', ret) ∨
          hasFlag errorCode pageErrProtect = false ∧ ret = 0 ∧
            ∃ mm r, doHandleNoPage t.mm addr (t.recs p).pageProt = some (mm, r) ∧
              s' = { t with mm := mm }) := by
  unfold pageDoFault at h
  by_cases huser : userVmmBaseAddr ≤ addr ∧ addr < userVmmTopAddr
  · rw [if_neg (not_not.2 huser)] at h
    by_cases hlow : addr < pageSize
    · rw [if_pos hlow] at h
      cases h
      exact Or.inl ⟨rfl, rfl⟩
    · rw [if_neg hlow] at h
      split at h
      · cases h
      · cases h
        exact Or.inl ⟨rfl, rfl⟩
      · rename_i p hfind
        split at h
        · cases h
          exact Or.inl ⟨rfl, rfl⟩
        · rename_i t hbelow
          refine Or.inr ⟨p, t, not_lt.1 hlow, huser.2, hfind, ?_, ?_⟩
          · unfold faultBelow at hbelow
            split_ifs at hbelow with hhole hgrows
            · cases hbelow
              exact Or.inr ⟨rfl, hhole.1, hhole.2, hgrows⟩
            · cases hbelow
              exact Or.inl ⟨rfl, hhole⟩
          · split_ifs at h with hprotect
            · exact Or.inl ⟨hprotect, h⟩
            · obtain ⟨⟨mm, r⟩, hpage, heq⟩ := Option.map_eq_some_iff.1 h
              cases heq
              exact Or.inr ⟨Bool.eq_false_iff.2 hprotect, rfl, mm, r, hpage, rfl⟩
  · rw [if_pos huser] at h
    split_ifs at h
    cases h
    exact Or.inl ⟨rfl, rfl⟩

/-! ## Runs of faults -/

/-- The registers a fault is described by. -/
structure Fault where
  addr : ℕ
  esp : ℕ
  errorCode : ℕ

/-- One fault. -/
def faultStep (s : AddrSpace) (f : Fault) : Option AddrSpace :=
  (pageDoFault s f.addr f.esp f.errorCode).map Prod.fst

/-- The list is sorted, disjoint and page aligned, and no stack is above its limit. -/
structure StacksOk (s : AddrSpace) (l : List RecPtr) : Prop where
  listed : s.Listed l
  ok : SpansOk (s.spans l)
  limit : ∀ t ∈ s.spans l, hasFlag t.attr.flags memSpaceMapStack = true →
    t.end_ - t.start ≤ maxMemSpaceStackSize

/-- The page of `addr` lies inside a space of the list. -/
def InsideSpace (s : AddrSpace) (l : List RecPtr) (addr : ℕ) : Prop :=
  ∃ t ∈ s.spans l, t.start ≤ pageMask addr ∧ pageMask addr + pageSize ≤ t.end_

/-- What a fault in the hole below a space has to stay clear of: from user mode, growing a
stack past its limit at once; from kernel mode, a page that is missing. -/
def FaultOk (s : AddrSpace) (f : Fault) : Prop :=
  pageSize ≤ f.addr → f.addr < userVmmTopAddr → ∀ p, memSpaceFind s f.addr = some (some p) →
    f.addr < (s.recs p).start →
      if hasFlag f.errorCode pageErrUser then
        StackGrows s p f.addr f.esp → (s.recs p).end_ - pageMask f.addr ≤ maxMemSpaceStackSize
      else hasFlag f.errorCode pageErrProtect = true

instance (s : AddrSpace) (f : Fault) : Decidable (FaultOk s f) :=
  match h : memSpaceFind s f.addr with
  | none => isTrue (by simp [FaultOk, h])
  | some none => isTrue (by simp [FaultOk, h])
  | some (some p) =>
      decidable_of_iff (pageSize ≤ f.addr → f.addr < userVmmTopAddr → f.addr < (s.recs p).start →
        if hasFlag f.errorCode pageErrUser then
          StackGrows s p f.addr f.esp → (s.recs p).end_ - pageMask f.addr ≤ maxMemSpaceStackSize
        else hasFlag f.errorCode pageErrProtect = true) (by simp [FaultOk, h])

section Faults

variable {s s' : AddrSpace} {l : List RecPtr} {addr : ℕ}

/-- The page tables are no part of the list. -/
theorem StacksOk.setMm (h : StacksOk s l) (mm : Mm) : StacksOk { s with mm := mm } l :=
  ⟨h.listed, h.ok, h.limit⟩

/-- Growing the space above a hole down into the hole. -/
theorem doExpandStack_spans {l₁ l₂ : List RecPtr} {p : RecPtr} (hnd : (l₁ ++ p :: l₂).Nodup) :
    (doExpandStack s p addr).spans (l₁ ++ p :: l₂) =
      s.spans l₁ ++ ⟨pageMask addr, (s.recs p).end_, (s.recs p).toAttrs⟩ :: s.spans l₂ := by
  have hkeep : ∀ q, q ≠ p → (doExpandStack s p addr).span q = s.span q :=
    fun q hq => modify_span_of_ne s p _ hq
  rw [spans_append, spans_congr fun q hq => hkeep q fun hqp =>
    (List.nodup_append.1 hnd).2.2 q hq p (by simp) hqp]
  congr 1
  show (doExpandStack s p addr).span p :: (doExpandStack s p addr).spans l₂ = _
  rw [spans_congr fun q hq => hkeep q fun hqp =>
    (List.nodup_cons.1 (List.nodup_append.1 hnd).2.1).1 (hqp ▸ hq)]
  simp [doExpandStack, AddrSpace.span]

/-- The links are left alone. -/
theorem doExpandStack_next (p : RecPtr) : (doExpandStack s p addr).next = s.next :=
  modify_next_eq _ _ (fun r => { r with start := pageMask addr }) fun _ => rfl

/-- The only new interval is that of the stack. -/
theorem mem_doExpandStack {p : RecPtr} (hlisted : s.Listed l) (hp : p ∈ l) {t : Span Attrs}
    (ht : t ∈ (doExpandStack s p addr).spans l) :
    t = ⟨pageMask addr, (s.recs p).end_, (s.recs p).toAttrs⟩ ∨ t ∈ s.spans l := by
  obtain ⟨l₁, l₂, rfl⟩ := List.append_of_mem hp
  rw [doExpandStack_spans hlisted.nodup, List.mem_append, List.mem_cons] at ht
  rw [spans_append, List.mem_append]
  rcases ht with ht | rfl | ht
  · exact Or.inr (Or.inl ht)
  · exact Or.inl rfl
  · exact Or.inr (Or.inr (List.mem_cons_of_mem _ ht))

/-- **A stack grows into the hole below it** and stays apart from its neighbours. -/
theorem spansOk_expand (hlisted : s.Listed l) (hok : SpansOk (s.spans l)) {p : RecPtr}
    (hfind : memSpaceFind s addr = some (some p)) (hhole : addr < (s.recs p).start) :
    SpansOk ((doExpandStack s p addr).spans l) := by
  obtain ⟨l₁, l₂, rfl, hbefore, hend⟩ := memSpaceFind_split hlisted hfind
  have hp : p ∈ l₁ ++ p :: l₂ := by simp
  have hmask := pageMask_le addr
  refine ⟨?_, fun t ht => ?_⟩
  · have hsorted := hok.1
    rw [spans_append] at hsorted
    obtain ⟨hl₁, htail, hcross⟩ := sorted_append.1 hsorted
    obtain ⟨-, hl₂, hafter⟩ := sorted_cons.1 htail
    rw [doExpandStack_spans hlisted.nodup]
    refine sorted_append.2 ⟨hl₁, sorted_cons.2 ⟨lt_of_le_of_lt hmask hend, hl₂, hafter⟩, ?_⟩
    intro t ht u hu
    rcases List.mem_cons.1 hu with rfl | hu
    · -- an aligned end at or below the address is at or below its page
      obtain ⟨q, hq, rfl⟩ := List.mem_map.1 ht
      have h₁ := hbefore q hq
      have h₂ := (hok.2 (s.span q) (List.mem_map_of_mem (by simp [hq]))).2.1
      simp only [span_end] at h₂ ⊢
      unfold PageAligned at h₂
      unfold pageMask
      omega
    · exact hcross t ht u (List.mem_cons_of_mem _ hu)
  · have hpOk := hok.2 (s.span p) (List.mem_map_of_mem hp)
    rcases mem_doExpandStack hlisted hp ht with rfl | ht
    · refine ⟨⟨pageAligned_pageMask addr, ?_⟩, hpOk.2⟩
      exact lt_of_le_of_lt hmask (lt_trans hhole hpOk.1.2)
    · exact hok.2 t ht

theorem stacksOk_expand (h : StacksOk s l) {p : RecPtr}
    (hfind : memSpaceFind s addr = some (some p)) (hhole : addr < (s.recs p).start)
    (hlimit : (s.recs p).end_ - pageMask addr ≤ maxMemSpaceStackSize) :
    StacksOk (doExpandStack s p addr) l := by
  refine ⟨?_, spansOk_expand h.listed h.ok hfind hhole, fun t ht hstack => ?_⟩
  · rw [AddrSpace.Listed, doExpandStack_next]
    exact h.listed
  · obtain ⟨l₁, l₂, hl, -⟩ := memSpaceFind_split h.listed hfind
    rcases mem_doExpandStack h.listed (by simp [hl]) ht with rfl | ht
    · exact hlimit
    · exact h.limit t ht hstack

/-- An address between the ends of an aligned space has its page inside. -/
theorem insideSpace_of_mem (h : StacksOk s l) {p : RecPtr} (hp : p ∈ l)
    (hstart : (s.recs p).start ≤ addr) (hend : addr < (s.recs p).end_) : InsideSpace s l addr := by
  obtain ⟨hs, he⟩ := h.ok.2 (s.span p) (List.mem_map_of_mem hp)
  refine ⟨s.span p, List.mem_map_of_mem hp, ?_⟩
  have h₁ := hs.1
  have h₂ := he.1
  simp only [span_start, span_end] at h₁ h₂ ⊢
  unfold PageAligned at h₁ h₂
  unfold pageMask pageSize
  omega

/-- One fault. -/
theorem stacksOk_fault (h : StacksOk s l) {f : Fault} {ret : ℤ} (hcond : FaultOk s f)
    (hrun : pageDoFault s f.addr f.esp f.errorCode = some (s', ret)) :
    StacksOk s' l ∧ (ret = 0 → InsideSpace s' l f.addr) := by
  rcases pageDoFault_cases hrun with
    ⟨rfl, rfl⟩ | ⟨p, t, hlow, htop, hfind, hbelow, hrest⟩
  · exact ⟨h, fun hret => absurd hret (by decide)⟩
  · have hcond' := hcond hlow htop p hfind
    obtain ⟨l₁, l₂, hl, -, hend⟩ := memSpaceFind_split h.listed hfind
    have hp : p ∈ l := by simp [hl]
    have ht : StacksOk t l := by
      rcases hbelow with ⟨rfl, -⟩ | ⟨rfl, hhole, huser, hgrows⟩
      · exact h
      · have hlimit := hcond' hhole
        rw [if_pos huser] at hlimit
        exact stacksOk_expand h hfind hhole (hlimit hgrows)
    rcases hrest with ⟨-, hprot⟩ | ⟨hprot, rfl, mm, r, -, rfl⟩
    · obtain ⟨rfl, mm, rfl, -⟩ := doProtectionFault_spec hprot
      exact ⟨ht.setMm mm, fun hret => absurd hret (by decide)⟩
    · refine ⟨ht.setMm mm, fun _ => insideSpace_of_mem (ht.setMm mm) hp ?_ ?_⟩
      · rcases hbelow with ⟨rfl, huser⟩ | ⟨rfl, -⟩
        · by_contra hhole
          have hnot := hcond' (not_le.1 hhole)
          rw [if_neg fun hu => huser ⟨not_le.1 hhole, hu⟩, hprot] at hnot
          cases hnot
        · show ((doExpandStack s p f.addr).recs p).start ≤ f.addr
          simp [doExpandStack, pageMask_le]
      · rcases hbelow with ⟨rfl, -⟩ | ⟨rfl, -⟩
        · exact hend
        · show f.addr < ((doExpandStack s p f.addr).recs p).end_
          simpa [doExpandStack] using hend

end Faults

/-- **Handled faults are handled inside a space.**  From any list in order whose stacks keep
their limit, in every run of faults that meet the condition, the list stays in order,
stacks keep their limit, and a fault that returns zero has its page inside a space. -/
theorem pageDoFault_inside (s₀ : AddrSpace) (l : List RecPtr) (h₀ : StacksOk s₀ l)
    (faults : List Fault) (s : AddrSpace) (hrun : Run.exec faultStep s₀ faults = some s)
    (hcond : Run.Along faultStep FaultOk s₀ faults) :
    StacksOk s l ∧ ∀ f s' ret, FaultOk s f → pageDoFault s f.addr f.esp f.errorCode =
      some (s', ret) →
      StacksOk s' l ∧ (ret = 0 → InsideSpace s' l f.addr) := by
  have hstep : ∀ s f s', StacksOk s l → FaultOk s f → faultStep s f = some s' → StacksOk s' l := by
    intro s f s' h hf hs
    obtain ⟨⟨t, ret⟩, hfault, rfl⟩ := Option.map_eq_some_iff.1 hs
    exact (stacksOk_fault h hf hfault).1
  have h := Run.exec_invariant hstep faults s₀ s h₀ hcond hrun
  exact ⟨h, fun f s' ret hf hfault => stacksOk_fault h hf hfault⟩

/-- A stack of four pages below the top of the user half. -/
def stackSpace : AddrSpace :=
  { singleSpace with
    recs := fun _ => ⟨⟨18, 48, 2160000000⟩, 2147467264, 2147483648, none⟩
    supply := [] }

theorem stacksOk_stackSpace : StacksOk stackSpace [0] := by
  refine ⟨⟨rfl, rfl⟩, ⟨sorted_singleton.2 (by decide +kernel), ?_⟩, ?_⟩
  · intro t ht
    rw [List.mem_singleton.1 ht]
    exact ⟨⟨by decide +kernel, by decide +kernel⟩, by decide +kernel, by decide +kernel⟩
  · intro t ht _
    rw [List.mem_singleton.1 ht]
    decide +kernel

/-- The stack is touched, then grows by two pages, then the kernel reads from it. -/
theorem pageDoFault_inside_stackSpace :
    ∃ s s', Run.exec faultStep stackSpace [⟨2147483000, 2147483000, 6⟩,
      ⟨2147460000, 2147460000, 6⟩] =
        some s ∧
      pageDoFault s 2147465000 2147460000 0 = some (s', 0) ∧ InsideSpace s' [0] 2147465000 := by
  have hsome : ((Run.exec faultStep stackSpace
      [⟨2147483000, 2147483000, 6⟩, ⟨2147460000, 2147460000, 6⟩]).bind fun s =>
        (pageDoFault s 2147465000 2147460000 0).map Prod.snd) = some 0 := by decide +kernel
  have hok : ((Run.exec faultStep stackSpace
      [⟨2147483000, 2147483000, 6⟩, ⟨2147460000, 2147460000, 6⟩]).map fun s =>
        decide (FaultOk s ⟨2147465000, 2147460000, 0⟩)) = some true := by decide +kernel
  obtain ⟨s, hs, hlast⟩ := Option.bind_eq_some_iff.1 hsome
  obtain ⟨⟨s', ret⟩, hfault, rfl⟩ := Option.map_eq_some_iff.1 hlast
  rw [hs, Option.map_some, Option.some.injEq, decide_eq_true_eq] at hok
  have hall := pageDoFault_inside stackSpace [0] stacksOk_stackSpace _ s hs (by decide +kernel)
  exact ⟨s, s', hs, hfault, (hall.2 _ s' 0 hok hfault).2 rfl⟩

/-- A kernel-mode access far below the stack enters a page outside of every space, and a
user-mode access there makes the stack larger than its limit in one step; both
faults return zero. -/
theorem pageDoFault_not_inside :
    (∃ s', pageDoFault stackSpace 1073741824 1073741824 0 = some (s', 0) ∧ s'.Listed [0] ∧
        ¬ InsideSpace s' [0] 1073741824) ∧
      ∃ s', pageDoFault stackSpace 1073741824 1073741824 4 = some (s', 0) ∧ s'.Listed [0] ∧
        ¬ ∀ t ∈ s'.spans [0], hasFlag t.attr.flags memSpaceMapStack = true →
          t.end_ - t.start ≤ maxMemSpaceStackSize := by
  have hkernel : (pageDoFault stackSpace 1073741824 1073741824 0).map
      (fun sr => (sr.2, sr.1.vmm.memSpaceHead, sr.1.next 0, sr.1.span 0)) =
      some (0, some 0, none, ⟨2147467264, 2147483648, ⟨18, 48, 2160000000⟩⟩) := by decide +kernel
  have huser : (pageDoFault stackSpace 1073741824 1073741824 4).map
      (fun sr => (sr.2, sr.1.vmm.memSpaceHead, sr.1.next 0, sr.1.span 0)) =
      some (0, some 0, none, ⟨1073741824, 2147483648, ⟨18, 48, 2160000000⟩⟩) := by decide +kernel
  obtain ⟨⟨s₁, r₁⟩, hrun₁, hvals₁⟩ := Option.map_eq_some_iff.1 hkernel
  obtain ⟨⟨s₂, r₂⟩, hrun₂, hvals₂⟩ := Option.map_eq_some_iff.1 huser
  simp only [Prod.mk.injEq] at hvals₁ hvals₂
  obtain ⟨rfl, hhead₁, hnext₁, hspan₁⟩ := hvals₁
  obtain ⟨rfl, hhead₂, hnext₂, hspan₂⟩ := hvals₂
  refine ⟨⟨s₁, hrun₁, ⟨hhead₁, hnext₁⟩, ?_⟩, s₂, hrun₂, ⟨hhead₂, hnext₂⟩, ?_⟩
  · rintro ⟨t, ht, hlow, -⟩
    rw [List.mem_singleton.1 ht, hspan₁] at hlow
    exact absurd hlow (by decide +kernel)
  · intro hlimit
    have := hlimit (s₂.span 0) (List.mem_singleton.2 rfl)
    rw [hspan₂] at this
    exact absurd (this (by decide +kernel)) (by decide +kernel)

end Vm
end LightOS
