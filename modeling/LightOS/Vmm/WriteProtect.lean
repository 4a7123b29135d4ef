import LightOS.Vmm.Fault

/-!
# Write protection of user pages

Runs of `do_mem_space_map`, `page_do_fault` and `page_map_addr_safe` on one address
space.  The three mapping routines compute the attributes of a page each for
itself, and the handler of protection faults changes them again.

* `mapPages_spec`, `protInv_page` — what a mapping and a fault do to the pages of the
  spaces that may not be written.
* `pages_writeProtected` — in every run that meets the condition no page of a space
  without `PROT_WRITE` can be written.
-/

namespace LightOS
namespace Vm

open LinkedList Interval

/-! ## Calls -/

/-- The three calls that enter pages. -/
inductive ProtCall where
  | map (addr paddr len prot flags : ℕ)
  | fault (f : Fault)
  | mapSafe (start len prot : ℕ)

/-- One call. -/
def protStep (s : AddrSpace) : ProtCall → Option AddrSpace
  | .map addr paddr len prot flags => (doMemSpaceMap s addr paddr len prot flags).map Prod.fst
  | .fault f => faultStep s f
  | .mapSafe start len prot =>
      (pageMapAddrSafe s.mm start len prot).map fun mr => { s with mm := mr.1 }

/-- If there is a page at the address, it cannot be written. -/
def NoWrite (m : Mm) (v : ℕ) : Prop := ∀ e ∈ m.lookup v, hasFlag e pageAttrWrite = false

instance (m : Mm) (v : ℕ) : Decidable (NoWrite m v) :=
  inferInstanceAs (Decidable (∀ e ∈ m.lookup v, _))

/-- No page of a space without `PROT_WRITE` can be written. -/
def WriteProtected (s : AddrSpace) : Prop :=
  ∃ l, s.Listed l ∧ ∀ t ∈ s.spans l, hasFlag t.attr.pageProt protWrite = false →
    ∀ v, t.Has v → v < userVmmTopAddr → NoWrite s.mm v

/-- The address lies in a space without `PROT_WRITE`. -/
def ReadOnlyAt (s : AddrSpace) (v : ℕ) : Prop :=
  ∃ p, memSpaceFind s v = some (some p) ∧ (s.recs p).start ≤ v ∧
    hasFlag (s.recs p).pageProt protWrite = false

instance (s : AddrSpace) (v : ℕ) : Decidable (ReadOnlyAt s v) :=
  match h : memSpaceFind s v with
  | none => isFalse (by simp [ReadOnlyAt, h])
  | some none => isFalse (by simp [ReadOnlyAt, h])
  | some (some p) =>
      decidable_of_iff ((s.recs p).start ≤ v ∧ hasFlag (s.recs p).pageProt protWrite = false)
        (by simp [ReadOnlyAt, h])

/-! ## Conditions -/

/-- Of a mapping without `PROT_WRITE`: it is shared and the write bit of the physical
address is clear, or every page of the range is there already and cannot be
written. -/
def ReadOnlyMapOk (m : Mm) (place paddr len flags : ℕ) : Prop :=
  if hasFlag flags memSpaceMapShared then hasFlag paddr pageAttrWrite = false
  else ∀ i < len / pageSize, place + i * pageSize < userVmmTopAddr →
    m.present (place + i * pageSize) = true ∧ NoWrite m (place + i * pageSize)

/-- A mapping below the window of the directory that keeps the list in order. -/
def MapProtOk (s : AddrSpace) (place paddr len prot flags : ℕ) : Prop :=
  MapOk s place len prot flags ∧ place + len ≤ windowStart ∧
    (hasFlag prot protWrite = false → ReadOnlyMapOk s.mm place paddr len flags)

/-- With `p` the space above the address, and `p` without `PROT_WRITE`: a stack does not
grow over pages that can be written, and a write to a page that is present is not a
write to `p`. -/
def FaultProtOk (s : AddrSpace) (f : Fault) (p : RecPtr) : Prop :=
  hasFlag (s.recs p).pageProt protWrite = false →
    (f.addr < (s.recs p).start → hasFlag f.errorCode pageErrUser = true →
      StackGrows s p f.addr f.esp →
        ∀ i < ((s.recs p).start - pageMask f.addr) / pageSize,
          NoWrite s.mm (pageMask f.addr + i * pageSize)) ∧
    (hasFlag f.errorCode pageErrProtect = true → hasFlag f.errorCode pageErrWrite = true →
      s.mm.present f.addr = true → f.addr < (s.recs p).start ∧
        ¬ (hasFlag f.errorCode pageErrUser = true ∧ StackGrows s p f.addr f.esp))

instance (m : Mm) (place paddr len flags : ℕ) :
    Decidable (ReadOnlyMapOk m place paddr len flags) := by
  unfold ReadOnlyMapOk
  infer_instance

instance (s : AddrSpace) (place paddr len prot flags : ℕ) :
    Decidable (MapProtOk s place paddr len prot flags) :=
  inferInstanceAs (Decidable (_ ∧ _))

instance (s : AddrSpace) (f : Fault) (p : RecPtr) : Decidable (FaultProtOk s f p) :=
  inferInstanceAs (Decidable (_ → _))

/-- What a call has to stay clear of. -/
def ProtOk (s : AddrSpace) : ProtCall → Prop
  | .map addr paddr len prot flags =>
      ¬ MapRefused addr (pageAlign len) prot →
        ∀ place ∈ mapPlace s addr (pageAlign len) flags, place ≠ minusOne →
          MapProtOk s place paddr (pageAlign len) prot flags
  | .fault f =>
      pageSize ≤ f.addr → f.addr < userVmmTopAddr →
        ∀ p, memSpaceFind s f.addr = some (some p) → FaultProtOk s f p
  | .mapSafe start len _ =>
      pageMask start + pageAlign len ≤ windowStart ∧
        ∀ i < pageAlign len / pageSize, pageMask start + i * pageSize < userVmmTopAddr →
          ReadOnlyAt s (pageMask start + i * pageSize) →
            s.mm.present (pageMask start + i * pageSize) = true

instance (s : AddrSpace) : (call : ProtCall) → Decidable (ProtOk s call)
  | .map _ _ _ _ _ => inferInstanceAs (Decidable (_ → _))
  | .fault f =>
      match h : memSpaceFind s f.addr with
      | none => isTrue (by simp [ProtOk, h])
      | some none => isTrue (by simp [ProtOk, h])
      | some (some p) =>
          decidable_of_iff (pageSize ≤ f.addr → f.addr < userVmmTopAddr → FaultProtOk s f p)
            (by simp [ProtOk, h])
  | .mapSafe _ _ _ => inferInstanceAs (Decidable (_ ∧ _))

/-! ## The invariant -/

/-- What every run keeps. -/
structure ProtInv (held : List RecPtr) (s : AddrSpace) (l : List RecPtr) : Prop where
  inv : SpaceInv held s l
  framed : s.mm.Framed
  prot : ∀ t ∈ s.spans l, hasFlag t.attr.pageProt protWrite = false →
    ∀ v, t.Has v → v < userVmmTopAddr → NoWrite s.mm v

theorem ordinary_of_user {v : ℕ} (h : v < userVmmTopAddr) : Ordinary v :=
  ordinary_of_lt (lt_trans h (by norm_num))

theorem NoWrite.congr {m m' : Mm} {v w : ℕ} (h : NoWrite m w) (heq : m'.lookup v = m.lookup w) :
    NoWrite m' v := by
  rw [NoWrite, heq]
  exact h

section Spans

variable {s : AddrSpace} {l : List RecPtr} {t : Span Attrs} {v w : ℕ}

/-- Aligned intervals contain whole pages. -/
theorem has_of_page (hok : SpansOk (s.spans l)) (ht : t ∈ s.spans l) (hv : t.Has v)
    (hpage : w / 4096 = v / 4096) : t.Has w := by
  obtain ⟨hstart, hend⟩ := hok.2 t ht
  have h₁ := hstart.1
  have h₂ := hend.1
  unfold Span.Has PageAligned at *
  omega

/-- The interval an address lies in is the one `mem_space_find` finds. -/
theorem memSpaceFind_of_has (hlisted : s.Listed l) (hok : SpansOk (s.spans l)) (ht : t ∈ s.spans l)
    (hv : t.Has v) : ∃ p ∈ l, t = s.span p ∧ memSpaceFind s v = some (some p) := by
  obtain ⟨p, hp, rfl⟩ := List.mem_map.1 ht
  refine ⟨p, hp, rfl, ?_⟩
  obtain ⟨l₁, l₂, rfl⟩ := List.append_of_mem hp
  have hsorted := hok.1
  rw [spans_append] at hsorted
  refine memSpaceFind_of_split hlisted (fun q hq => ?_) hv.2
  have hbelow := (sorted_append.1 hsorted).2.2 (s.span q) (List.mem_map_of_mem hq) (s.span p)
    (List.mem_cons_self ..)
  exact le_trans hbelow hv.1

theorem readOnlyAt_of_has (hlisted : s.Listed l) (hok : SpansOk (s.spans l)) (ht : t ∈ s.spans l)
    (hv : t.Has v) (hprot : hasFlag t.attr.pageProt protWrite = false) : ReadOnlyAt s v := by
  obtain ⟨p, -, rfl, hfind⟩ := memSpaceFind_of_has hlisted hok ht hv
  exact ⟨p, hfind, hv.1, hprot⟩

end Spans

/-! ## Mapping -/

/-- `PROT_REMAP` is not the write bit. -/
theorem hasFlag_mapProt (prot flags : ℕ) :
    hasFlag (mapProt prot flags) protWrite = hasFlag prot protWrite := by
  unfold mapProt
  split_ifs
  · show hasFlag (prot ||| protRemap) (2 ^ 1) = hasFlag prot (2 ^ 1)
    rw [hasFlag_two_pow, hasFlag_two_pow, Nat.testBit_or, show protRemap.testBit 1 =
      false by decide, Bool.or_false]
  · rfl

/-- An entry whose address part and attributes are without the write bit. -/
theorem noWrite_entry {m : Mm} {v pa prot : ℕ} (hpa : hasFlag pa pageAttrWrite = false)
    (hprot : hasFlag prot protWrite = false)
    (h : m.lookup v = some (pa ||| pageAttrOf prot ||| pageAttrPresent)) : NoWrite m v := by
  intro e he
  rw [h, Option.mem_some_iff] at he
  rw [← he, write_entry, hpa, hasFlag_pageAttrOf, hprot, Bool.or_false]

/-- **What `do_mem_space_map` enters.**  Entries outside of the range stay as they are, and
a range without `PROT_WRITE` gets no page that can be written. -/
theorem mapPages_spec {m m' : Mm} {place paddr len prot flags : ℕ}
    (h : mapPages m place paddr len (mapProt prot flags) flags = some m')
    (hplace : PageAligned place)
    (hlen : PageAligned len) (hfits : place + len ≤ windowStart) (hm : m.Framed) :
    m'.Framed ∧
      (∀ v, Ordinary v → ¬ (place ≤ v ∧ v < place + len) → m'.lookup v = m.lookup v) ∧
      (hasFlag prot protWrite = false → ReadOnlyMapOk m place paddr len flags →
        ∀ v, v < userVmmTopAddr → place ≤ v → v < place + len → NoWrite m' v) := by
  have hself : pageAlign len = len :=
    pageAlign_eq_self hlen (lt_of_le_of_lt (Nat.le_add_left len place)
      (lt_of_le_of_lt hfits (by norm_num)))
  have hmask : pageMask place = place := pageMask_eq_self hplace
  have hfits' : pageMask place + pageAlign len ≤ windowStart := by rwa [hmask, hself]
  unfold PageAligned at hplace hlen
  unfold mapPages at h
  split_ifs at h with hshared
  · obtain ⟨hframed, hspec⟩ := pageMapAddrFixed_spec h hfits'
    rw [hmask, hself] at hspec
    refine ⟨hframed hm, fun v hv hout => ?_, fun hprot hcond v huser hlow hhigh => ?_⟩
    · rcases hspec v hv with ⟨-, heq⟩ | ⟨hin, -⟩
      · exact heq
      · omega
    · rw [ReadOnlyMapOk, if_pos hshared] at hcond
      rcases hspec v (ordinary_of_user huser) with ⟨hout, -⟩ | ⟨-, pa, hpa, hsome⟩
      · omega
      · exact noWrite_entry (hpa.trans hcond) (by rw [hasFlag_mapProt]; exact hprot) hsome
  · obtain ⟨⟨t, ret⟩, hsafe, rfl⟩ := Option.map_eq_some_iff.1 h
    obtain ⟨hgrows, hframed⟩ := pageMapAddrSafe_spec hsafe hfits' hm
    rw [hself] at hgrows
    refine ⟨hframed, fun v hv hout => ?_, fun hprot hcond v huser hlow hhigh => ?_⟩
    · rcases hgrows v hv with heq | ⟨-, hin, -⟩
      · exact heq
      · omega
    · rw [ReadOnlyMapOk, if_neg hshared] at hcond
      obtain ⟨i, hi⟩ : ∃ i, i = v / 4096 - place / 4096 := ⟨_, rfl⟩
      have hv := ordinary_of_user huser
      have hpage : v / 4096 = (place + i * pageSize) / 4096 := by
        unfold pageSize
        omega
      have huser' : place + i * pageSize < userVmmTopAddr := by
        unfold pageSize userVmmTopAddr at *
        omega
      obtain ⟨hpresent, hno⟩ := hcond i (by unfold pageSize; omega) huser'
      have hold : m.lookup v = m.lookup (place + i * pageSize) :=
        lookup_of_page hv (ordinary_of_user huser') hpage
      rcases hgrows v hv with heq | ⟨hnone, -⟩
      · exact hno.congr (heq.trans hold)
      · exact absurd (hold ▸ hnone) (present_iff.1 hpresent)

section Step

variable {s s' : AddrSpace} {l held : List RecPtr}

theorem protInv_map (h : ProtInv held s l) {addr paddr len prot flags ret : ℕ}
    (hcond : ProtOk s (.map addr paddr len prot flags))
    (hrun : doMemSpaceMap s addr paddr len prot flags = some (s', ret)) :
    ∃ l', ProtInv held s' l' := by
  have hcall : CallOk s (.map addr paddr len prot flags) :=
    fun hrefused place hplace hne => (hcond hrefused place hplace hne).1
  rcases spaceInv_map_cases h.inv hcall hrun with
    ⟨hinv, hrecs, hframe⟩ |
    ⟨⟨hrefused, hplace, hne⟩, hpage, hgap, l', hinv, hins, hpages, hframe⟩
  · refine ⟨l, hinv, by rw [hframe.mm]; exact h.framed, ?_⟩
    rw [spans_of_recs hrecs, hframe.mm]
    exact h.prot
  · obtain ⟨-, hwindow, hreadOnly⟩ := hcond hrefused ret hplace hne
    obtain ⟨hframed, hout, hin⟩ :=
      mapPages_spec hpages hpage.1 (pageAligned_pageAlign len) hwindow h.framed
    refine ⟨l', hinv, hframed, fun t ht hprot v hv huser => ?_⟩
    rcases hins.mem_cases ht hv with ⟨u, hu, huv, hattr⟩ | ⟨hnew, hattr⟩
    · -- an old space has no page in the range
      obtain ⟨q, hq, rfl⟩ := List.mem_map.1 hu
      refine (h.prot _ hu (by rw [hattr]; exact hprot) v huv huser).congr
        (hout v (ordinary_of_user huser) ?_)
      have h₁ := huv.1
      have h₂ := huv.2
      simp only [span_start, span_end] at h₁ h₂
      rcases hgap q hq with hlow | hhigh <;> omega
    · have hsame : t.attr.pageProt = mapProt prot flags := by
        rcases hattr with hattr | ⟨⟨hattr, -⟩, -⟩
        · rw [hattr]
        · exact hattr
      rw [hsame, hasFlag_mapProt] at hprot
      exact hin hprot (hreadOnly hprot) v huser hnew.1 hnew.2

/-! ## Faults -/

/-- A stack grows over pages that cannot be written, or may be written itself. -/
theorem protInv_expand (h : ProtInv held s l) {addr : ℕ} {p : RecPtr}
    (hfind : memSpaceFind s addr = some (some p)) (hhole : addr < (s.recs p).start)
    (hcond : hasFlag (s.recs p).pageProt protWrite = false →
      ∀ i < ((s.recs p).start - pageMask addr) / pageSize,
        NoWrite s.mm (pageMask addr + i * pageSize)) :
    ProtInv held (doExpandStack s p addr) l := by
  have hlisted := h.inv.owned.chain
  obtain ⟨l₁, l₂, hl, -⟩ := memSpaceFind_split hlisted hfind
  have hp : p ∈ l := by simp [hl]
  have howned : Owned (doExpandStack s p addr) l held :=
    h.inv.owned.congr (fun q _ => by rw [doExpandStack_next]) rfl rfl rfl
  refine ⟨⟨howned, spansOk_expand hlisted h.inv.ok hfind hhole, h.inv.mapStart⟩, h.framed, ?_⟩
  intro t ht hprot v hv huser
  rcases mem_doExpandStack hlisted hp ht with rfl | ht
  · have hlow : pageMask addr ≤ v := hv.1
    have hhigh : v < (s.recs p).end_ := hv.2
    by_cases hold : (s.recs p).start ≤ v
    · exact h.prot (s.span p) (List.mem_map_of_mem hp) hprot v ⟨hold, hhigh⟩ huser
    · obtain ⟨i, hi⟩ : ∃ i, i = v / 4096 - pageMask addr / 4096 := ⟨_, rfl⟩
      have hstart := (h.inv.ok.2 (s.span p) (List.mem_map_of_mem hp)).1.1
      have hmask := pageAligned_pageMask addr
      simp only [span_start] at hstart
      unfold PageAligned at hstart hmask
      have hpage : v / 4096 = (pageMask addr + i * pageSize) / 4096 := by
        unfold pageSize
        omega
      have hrange : i < ((s.recs p).start - pageMask addr) / pageSize := by
        unfold pageSize
        omega
      have huser' : pageMask addr + i * pageSize < userVmmTopAddr := by
        unfold pageSize userVmmTopAddr at *
        omega
      exact (hcond hprot i hrange).congr
        (lookup_of_page (ordinary_of_user huser) (ordinary_of_user huser') hpage)
  · exact h.prot t ht hprot v hv huser

/-- **Changing the page of one address.**  It is enough to look at the space the address
lies in. -/
theorem protInv_page (h : ProtInv held s l) {addr : ℕ} {p : RecPtr} {mm : Mm}
    (hfind : memSpaceFind s addr = some (some p)) (hframed : mm.Framed)
    (hother : ∀ v, Ordinary v → v / 4096 ≠ addr / 4096 → mm.lookup v = s.mm.lookup v)
    (hpage : (s.recs p).start ≤ addr → hasFlag (s.recs p).pageProt protWrite = false →
      ∀ v, v < userVmmTopAddr → v / 4096 = addr / 4096 → NoWrite s.mm v → NoWrite mm v) :
    ProtInv held { s with mm := mm } l := by
  have howned : Owned { s with mm := mm } l held := h.inv.owned.congr (fun _ _ => rfl) rfl rfl rfl
  refine ⟨⟨howned, h.inv.ok, h.inv.mapStart⟩, hframed, fun t ht hprot v hv huser => ?_⟩
  have hno := h.prot t ht hprot v hv huser
  by_cases hsame : v / 4096 = addr / 4096
  · have hhas := has_of_page h.inv.ok ht hv hsame.symm
    obtain ⟨q, -, rfl, hfind'⟩ := memSpaceFind_of_has h.inv.owned.chain h.inv.ok ht hhas
    rw [hfind, Option.some.injEq, Option.some.injEq] at hfind'
    subst hfind'
    exact hpage hhas.1 hprot v huser hsame hno
  · exact hno.congr (hother v (ordinary_of_user huser) hsame)

theorem protInv_fault (h : ProtInv held s l) {f : Fault} {ret : ℤ} (hcond : ProtOk s (.fault f))
    (hrun : pageDoFault s f.addr f.esp f.errorCode = some (s', ret)) : ProtInv held s' l := by
  rcases pageDoFault_cases hrun with
    ⟨rfl, -⟩ | ⟨p, t, hlow, htop, hfind, hbelow, hrest⟩
  · exact h
  · have hok := hcond hlow htop p hfind
    have hmm : t.mm = s.mm := by
      rcases hbelow with ⟨rfl, -⟩ | ⟨rfl, -⟩ <;> rfl
    have hpageProt : (t.recs p).pageProt = (s.recs p).pageProt := by
      rcases hbelow with ⟨rfl, -⟩ | ⟨rfl, -⟩
      · rfl
      · simp [doExpandStack]
    have ht : ProtInv held t l := by
      rcases hbelow with ⟨rfl, -⟩ | ⟨rfl, hhole, huser, hgrows⟩
      · exact h
      · exact protInv_expand h hfind hhole fun hprot => (hok hprot).1 hhole huser hgrows
    have hfind' : memSpaceFind t f.addr = some (some p) := by
      rcases hbelow with ⟨rfl, -⟩ | ⟨rfl, -⟩
      · exact hfind
      · rw [memSpaceFind_eq ht.inv.owned.chain, ← hfind, memSpaceFind_eq h.inv.owned.chain]
        congr 2
        funext q
        by_cases hq : q = p
        · subst hq
          simp [doExpandStack]
        · rw [doExpandStack, modify_recs_of_ne _ _ _ hq]
    rcases hrest with ⟨hprotect, hprot⟩ | ⟨-, -, mm, r, hmap, rfl⟩
    · obtain ⟨-, mm, rfl, hframed, rfl | ⟨hwrite, hpresent, hother⟩⟩ := doProtectionFault_spec hprot
      · exact ht
      · apply protInv_page ht hfind' (hframed ht.framed) hother
        intro hstart hreadOnly
        -- the page would have to be one of a space that may not be written
        rw [hpageProt] at hreadOnly
        rw [hmm] at hpresent
        obtain ⟨hhole, hgrows⟩ := (hok hreadOnly).2 hprotect hwrite hpresent
        rcases hbelow with ⟨rfl, -⟩ | ⟨-, -, huser, hgrows'⟩
        · omega
        · exact absurd ⟨huser, hgrows'⟩ hgrows
    · have hfits : pageMask f.addr + pageSize ≤ windowStart := by
        have := pageMask_le f.addr
        unfold pageSize windowStart userVmmTopAddr at *
        omega
      obtain ⟨hgrows, hframed⟩ := pageMapAddr_spec hmap hfits ht.framed
      refine protInv_page ht hfind' hframed (fun v hv hne => ?_) fun hstart hreadOnly v huser _
        hno => ?_
      · rcases hgrows v hv with heq | ⟨-, hrange, -⟩
        · exact heq
        · unfold pageMask pageSize at hrange
          omega
      · rcases hgrows v (ordinary_of_user huser) with heq | ⟨-, -, pa, hpa, hsome⟩
        · exact hno.congr heq
        · exact noWrite_entry (hasFlag_write_of_pageAligned hpa) hreadOnly hsome

/-! ## Pages entered directly -/

theorem protInv_mapSafe (h : ProtInv held s l) {start len prot : ℕ} {mm : Mm} {ret : ℤ}
    (hcond : ProtOk s (.mapSafe start len prot))
    (hrun : pageMapAddrSafe s.mm start len prot = some (mm, ret)) :
    ProtInv held { s with mm := mm } l := by
  obtain ⟨hgrows, hframed⟩ := pageMapAddrSafe_spec hrun hcond.1 h.framed
  have howned : Owned { s with mm := mm } l held := h.inv.owned.congr (fun _ _ => rfl) rfl rfl rfl
  refine ⟨⟨howned, h.inv.ok, h.inv.mapStart⟩, hframed, fun t ht hprot v hv huser => ?_⟩
  rcases hgrows v (ordinary_of_user huser) with heq | ⟨hnone, hrange, -⟩
  · exact (h.prot t ht hprot v hv huser).congr heq
  · -- a missing page of a space that may not be written is not in the range
    obtain ⟨i, hi⟩ : ∃ i, i = v / 4096 - start / 4096 := ⟨_, rfl⟩
    have hpage : v / 4096 = (pageMask start + i * pageSize) / 4096 := by
      unfold pageMask pageSize
      omega
    have huser' : pageMask start + i * pageSize < userVmmTopAddr := by
      unfold pageMask pageSize userVmmTopAddr at *
      omega
    have hreadOnly := readOnlyAt_of_has h.inv.owned.chain h.inv.ok ht
      (has_of_page h.inv.ok ht hv hpage.symm) hprot
    have hpresent := hcond.2 i (by unfold pageSize; omega) huser' hreadOnly
    rw [lookup_of_page (ordinary_of_user huser) (ordinary_of_user huser') hpage] at hnone
    exact absurd hnone (present_iff.1 hpresent)

end Step

/-! ## Runs -/

theorem protInv_step {held : List RecPtr} (s : AddrSpace) (call : ProtCall) (s' : AddrSpace)
    (h : ∃ l, ProtInv held s l) (hcond : ProtOk s call) (hstep : protStep s call = some s') :
    ∃ l, ProtInv held s' l := by
  obtain ⟨l, h⟩ := h
  cases call with
  | map addr paddr len prot flags =>
      obtain ⟨⟨t, ret⟩, hrun, rfl⟩ := Option.map_eq_some_iff.1 hstep
      exact protInv_map h hcond hrun
  | fault f =>
      obtain ⟨⟨t, ret⟩, hrun, rfl⟩ := Option.map_eq_some_iff.1 hstep
      exact ⟨l, protInv_fault h hcond hrun⟩
  | mapSafe start len prot =>
      obtain ⟨⟨mm, ret⟩, hrun, rfl⟩ := Option.map_eq_some_iff.1 hstep
      exact ⟨l, protInv_mapSafe h hcond hrun⟩

/-- **No page of a space without `PROT_WRITE` can be written**, in every run from an empty
list that meets the condition. -/
theorem pages_writeProtected (held : List RecPtr) (s₀ : AddrSpace) (h₀ : Owned s₀ [] held)
    (hmap : PageAligned s₀.vmm.mapStart ∧ s₀.vmm.mapStart < wordSize) (hframed : s₀.mm.Framed)
    (calls : List ProtCall) (s : AddrSpace) (hrun : Run.exec protStep s₀ calls = some s)
    (hcond : Run.Along protStep ProtOk s₀ calls) : WriteProtected s := by
  have hstart : ProtInv held s₀ [] :=
    ⟨⟨h₀, ⟨sorted_nil, by simp [AddrSpace.spans]⟩, hmap⟩, hframed, by simp [AddrSpace.spans]⟩
  have hinv : ∃ l, ProtInv held s l :=
    Run.exec_invariant protInv_step calls s₀ s ⟨[], hstart⟩ hcond hrun
  obtain ⟨l, h⟩ := hinv
  exact ⟨l, h.inv.owned.chain, h.prot⟩

/-- A shared mapping that may only be read, a private one that may be written, a stack that
is touched and grows, and pages entered beside them. -/
theorem pages_writeProtected_emptySpace :
    ∃ s, Run.exec protStep (emptySpace [some 0, some 1, some 2])
        [.map 65536 20480 8192 17 144, .map 0 0 8192 18 0, .map 2147467264 0 4096 18 48,
          .fault ⟨2147460000, 2147460000, 6⟩, .mapSafe 131072 4096 17] = some s ∧
      WriteProtected s := by
  have hsome : (Run.exec protStep (emptySpace [some 0, some 1, some 2])
      [.map 65536 20480 8192 17 144, .map 0 0 8192 18 0, .map 2147467264 0 4096 18 48,
        .fault ⟨2147460000, 2147460000, 6⟩, .mapSafe 131072 4096 17]).isSome = true := by
    decide +kernel
  obtain ⟨s, hs⟩ := Option.isSome_iff_exists.1 hsome
  exact ⟨s, hs, pages_writeProtected [] _ (owned_emptySpace _) (by decide)
    (by decide +kernel) _ s hs
    (by decide +kernel)⟩

/-- A private mapping with `PROT_USER | PROT_READ`: its page can be written. -/
theorem pages_not_writeProtected :
    ∃ s, Run.exec protStep (emptySpace [some 0]) [.map 65536 0 4096 17 16] = some s ∧
      ¬ WriteProtected s := by
  have hsome : (Run.exec protStep (emptySpace [some 0]) [.map 65536 0 4096 17 16]).map
      (fun s => (s.vmm.memSpaceHead, s.next 0, s.span 0, decide (NoWrite s.mm 65536))) =
      some (some 0, none, ⟨65536, 69632, ⟨17, 16, 2160000000⟩⟩, false) := by decide +kernel
  obtain ⟨s, hs, hvals⟩ := Option.map_eq_some_iff.1 hsome
  simp only [Prod.mk.injEq, decide_eq_false_iff_not] at hvals
  obtain ⟨hhead, hnext, hspan, hwrite⟩ := hvals
  refine ⟨s, hs, ?_⟩
  rintro ⟨l, hlisted, hprot⟩
  have hl : s.Listed [0] := ⟨hhead, hnext⟩
  rw [hlisted.unique hl] at hprot
  refine hwrite (hprot (s.span 0) (List.mem_singleton.2 rfl) ?_ 65536 ?_ (by decide +kernel))
  · rw [hspan]
    decide
  · rw [hspan]
    decide +kernel

end Vm
end LightOS
