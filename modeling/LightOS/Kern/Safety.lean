import LightOS.Mm.MemPool
import LightOS.Mm.PageBasic

/-!
# Checking user pointers

`kernel/safety.c` and the two page walks of `arch/x86/mach-i386/mm/page.c` it uses.
Before the kernel copies to or from a user address it compares the range with the
user half of the address space and looks at the page table entries.  Both
computations are on 32-bit words; the walk rounds the length up to whole pages and
the start down to its page.

A walk that meets an address without a page table reads through an absent directory
entry; that is a fault of the kernel outside the user half, which halts it.  The
copy itself may fault as well, and what becomes of it then is a parameter: `memcpy`
gives the page tables it leaves behind, or `none` if it never returns.

* `pageWalk_true` — what a walk that succeeds has seen.
* `memCopyUser_sound` — the copy from and the copy to a user address succeed on
  nothing but a range of pages that are there, exactly under `CopyCovered`.
-/

namespace LightOS

/-! ## The model -/

/-- `safety_check_range`; `vmm` says whether the task has one. -/
def safetyCheckRange (vmm : Bool) (src nbytes : ℕ) : ℤ :=
  if vmm = true ∧ ¬ (userVmmBaseAddr ≤ src ∧ add32 src nbytes < userVmmTopAddr) then -1 else 0

/-- The loop of `page_readable` and `page_writable`: `attrs` is the test on the entry,
and `count` is counted in pages. -/
def pageWalk (m : Mm) (attrs : ℕ → Bool) : ℕ → ℕ → Option Bool
  | 0, _ => some true
  | count + 1, addr =>
      if hasFlag (m.pde (dirIdx addr)) pageAttrPresent then
        if attrs (m.entry addr) then pageWalk m attrs count (add32 addr pageSize)
        else some false
      else none

/-- The test of `page_readable`. -/
def readableEntry (pte : ℕ) : Bool := hasFlag pte pageAttrPresent

/-- The tests of `page_writable`. -/
def writableEntry (pte : ℕ) : Bool := hasFlag pte pageAttrPresent && hasFlag pte pageAttrWrite

/-- `page_readable`. -/
def pageReadable (m : Mm) (vaddr nbytes : ℕ) : Option Bool :=
  pageWalk m readableEntry (pageAlign nbytes / pageSize) (pageMask vaddr)

/-- `page_writable`. -/
def pageWritable (m : Mm) (vaddr nbytes : ℕ) : Option Bool :=
  pageWalk m writableEntry (pageAlign nbytes / pageSize) (pageMask vaddr)

/-- What the two copies have in common: `user` is the address that is checked. -/
def memCopyUser (memcpy : Mm → ℕ → ℕ → ℕ → Option Mm) (walk : Mm → ℕ → ℕ → Option Bool)
    (m : Mm) (vmm : Bool) (user dest src nbytes : ℕ) : Option (Mm × ℤ) :=
  if safetyCheckRange vmm user nbytes < 0 then some (m, -1)
  else
    match walk m user nbytes with
    | none => none
    | some false => some (m, -1)
    | some true =>
        if dest ≠ 0 ∧ src ≠ 0 then (memcpy m dest src nbytes).map fun m' => (m', 0)
        else some (m, 0)

/-- `mem_copy_from_user`. -/
def memCopyFromUser (memcpy : Mm → ℕ → ℕ → ℕ → Option Mm) (m : Mm) (vmm : Bool)
    (dest src nbytes : ℕ) : Option (Mm × ℤ) :=
  memCopyUser memcpy pageReadable m vmm src dest src nbytes

/-- `mem_copy_to_user`. -/
def memCopyToUser (memcpy : Mm → ℕ → ℕ → ℕ → Option Mm) (m : Mm) (vmm : Bool)
    (dest src nbytes : ℕ) : Option (Mm × ℤ) :=
  memCopyUser memcpy pageWritable m vmm dest dest src nbytes

/-! ## What a successful copy should mean -/

/-- The address has a page whose entry passes the test. -/
def PageOk (m : Mm) (attrs : ℕ → Bool) (addr : ℕ) : Prop :=
  hasFlag (m.pde (dirIdx addr)) pageAttrPresent = true ∧ attrs (m.entry addr) = true

instance (m : Mm) (attrs : ℕ → Bool) (addr : ℕ) : Decidable (PageOk m attrs addr) :=
  inferInstanceAs (Decidable (_ ∧ _))

/-- The range `[a, a + n)` does not wrap, lies in the user half, and all its pages
are there and pass the test. -/
structure UserRange (m : Mm) (attrs : ℕ → Bool) (a n : ℕ) : Prop where
  noWrap : a + n < wordSize
  inUser : ∀ b, a ≤ b → b < a + n → userVmmBaseAddr ≤ b ∧ b < userVmmTopAddr
  pages : ∀ b, a ≤ b → b < a + n → PageOk m attrs b

/-- `safety_check_range` accepts the range, and the pages the walk visits, counted
from the page of the start, all pass the test. -/
def CopyAccepted (m : Mm) (attrs : ℕ → Bool) (a n : ℕ) : Prop :=
  add32 a n < userVmmTopAddr ∧
    ∀ i < pageAlign n / pageSize, PageOk m attrs (add32 (pageMask a) (i * pageSize))

instance (m : Mm) (attrs : ℕ → Bool) (a n : ℕ) : Decidable (CopyAccepted m attrs a n) :=
  inferInstanceAs (Decidable (_ ∧ ∀ i < pageAlign n / pageSize, _))

/-- The end of the range does not wrap, and the page of its last byte passes the test:
what neither computation of the check looks at. -/
def CopyCovered (m : Mm) (attrs : ℕ → Bool) (a n : ℕ) : Prop :=
  a + n < wordSize ∧ (n = 0 ∨ PageOk m attrs (a + n - 1))

instance (m : Mm) (attrs : ℕ → Bool) (a n : ℕ) : Decidable (CopyCovered m attrs a n) :=
  inferInstanceAs (Decidable (_ ∧ (_ ∨ _)))

/-! ## The walk -/

/-- Whether an address has a page depends on its page only. -/
theorem PageOk.congr {m : Mm} {attrs : ℕ → Bool} {a b : ℕ} (h : PageOk m attrs a)
    (hab : a / 4096 = b / 4096) : PageOk m attrs b := by
  have hdir : dirIdx b = dirIdx a := by
    unfold dirIdx
    omega
  have htable : tableIdx b = tableIdx a := by
    unfold tableIdx
    omega
  have hentry : m.entry b = m.entry a := by
    unfold Mm.entry
    rw [hdir, htable, hab]
  unfold PageOk at h ⊢
  rwa [hdir, hentry]

/-- A walk that succeeds has seen a good page at each of its addresses. -/
theorem pageWalk_true (m : Mm) (attrs : ℕ → Bool) (count : ℕ) {addr : ℕ} (haddr : addr < wordSize) :
    pageWalk m attrs count addr = some true ↔
      ∀ i < count, PageOk m attrs (add32 addr (i * pageSize)) := by
  induction count generalizing addr with
  | zero => simp [pageWalk]
  | succ count ih =>
    have hfirst : add32 addr (0 * pageSize) = addr := by
      unfold add32 pageSize
      unfold wordSize at haddr
      omega
    have hrest : ∀ i, add32 (add32 addr pageSize) (i * pageSize) =
        add32 addr ((i + 1) * pageSize) := by
      intro i
      unfold add32 pageSize
      omega
    have hsplit : (∀ i < count + 1, PageOk m attrs (add32 addr (i * pageSize))) ↔
        PageOk m attrs addr ∧ ∀ i < count, PageOk m attrs (add32 addr ((i + 1) * pageSize)) := by
      rw [Nat.forall_lt_succ_left, hfirst]
    rw [hsplit, pageWalk]
    have hstep := @ih (add32 addr pageSize) (add32_lt _ _)
    simp only [hrest] at hstep
    by_cases hpde : hasFlag (m.pde (dirIdx addr)) pageAttrPresent = true
    · by_cases hpte : attrs (m.entry addr) = true
      · simp [hpde, hpte, hstep, PageOk]
      · simp [hpde, hpte, PageOk]
    · simp [hpde, PageOk]

/-- When the copy returns 0: the range is accepted, and the copy comes back. -/
theorem memCopyUser_eq_zero (memcpy : Mm → ℕ → ℕ → ℕ → Option Mm) (dest src : ℕ) {attrs : ℕ → Bool}
    {walk : Mm → ℕ → ℕ → Option Bool} {m : Mm} {user n : ℕ}
    (hwalk : walk m user n = pageWalk m attrs (pageAlign n / pageSize) (pageMask user))
    (huser : user < wordSize) :
    (∃ m', memCopyUser memcpy walk m true user dest src n = some (m', 0)) ↔
      CopyAccepted m attrs user n ∧
        (dest ≠ 0 → src ≠ 0 → memcpy m dest src n ≠ none) := by
  have hmask : pageMask user < wordSize := lt_of_le_of_lt (pageMask_le user) huser
  by_cases hrange : add32 user n < userVmmTopAddr
  · have hcheck : ¬ safetyCheckRange true user n < 0 := by simp [safetyCheckRange, hrange]
    have hiff := pageWalk_true m attrs (pageAlign n / pageSize) hmask
    rw [memCopyUser, if_neg hcheck, hwalk, CopyAccepted, ← hiff]
    rcases hres : pageWalk m attrs (pageAlign n / pageSize) (pageMask user) with _ | _ | _
    · simp
    · simp
    · by_cases hnull : dest ≠ 0 ∧ src ≠ 0
      · cases hcopy : memcpy m dest src n <;> simp [hnull, hrange]
      · simp only [hnull, if_false, hrange, true_and]
        refine ⟨fun _ hd hs => absurd ⟨hd, hs⟩ hnull, fun _ => ⟨m, rfl⟩⟩
  · have hcheck : safetyCheckRange true user n < 0 := by simp [safetyCheckRange, hrange]
    simp [memCopyUser, hcheck, CopyAccepted, hrange]

/-! ## Soundness -/

/-- An accepted range is a user range if its end does not wrap and its last page is
there: the walk has seen all the pages before that one. -/
theorem CopyCovered.userRange {m : Mm} {attrs : ℕ → Bool} {a n : ℕ}
    (h : CopyCovered m attrs a n) (hacc : CopyAccepted m attrs a n) : UserRange m attrs a n := by
  obtain ⟨hwrap, hlast⟩ := h
  obtain ⟨hrange, hpages⟩ := hacc
  unfold pageSize at hpages
  have hend : a + n < 2147483648 := by rwa [add32_of_lt hwrap] at hrange
  refine ⟨hwrap, fun b _ hb => ⟨Nat.zero_le _, lt_trans hb hend⟩, fun b hab hb => ?_⟩
  have hcount : pageAlign n / 4096 = (n + 4095) / 4096 := by
    unfold pageAlign pageMask add32
    omega
  by_cases hi : b / 4096 - a / 4096 < pageAlign n / 4096
  · apply (hpages _ hi).congr
    unfold add32 pageMask
    omega
  · obtain hzero | hok := hlast
    · omega
    · apply hok.congr
      omega

theorem UserRange.covered {m : Mm} {attrs : ℕ → Bool} {a n : ℕ} (h : UserRange m attrs a n) :
    CopyCovered m attrs a n := by
  refine ⟨h.noWrap, ?_⟩
  by_cases hn : n = 0
  · exact Or.inl hn
  · exact Or.inr (h.pages _ (by omega) (by omega))

/-- A copy that succeeds only on user ranges: exactly when the range is not accepted,
the copy does not come back, or the end of the range is covered. -/
theorem memCopyUser_covered {memcpy : Mm → ℕ → ℕ → ℕ → Option Mm} {attrs : ℕ → Bool}
    {walk : Mm → ℕ → ℕ → Option Bool} {m : Mm} {user dest src n : ℕ}
    (hwalk : walk m user n = pageWalk m attrs (pageAlign n / pageSize) (pageMask user))
    (huser : user < wordSize) :
    (∀ m', memCopyUser memcpy walk m true user dest src n = some (m', 0) →
        UserRange m attrs user n) ↔
      ¬ CopyAccepted m attrs user n ∨ (dest ≠ 0 ∧ src ≠ 0 ∧ memcpy m dest src n = none) ∨
        CopyCovered m attrs user n := by
  have hzero := memCopyUser_eq_zero memcpy dest src hwalk huser
  constructor
  · intro hsound
    by_contra hnot
    push Not at hnot
    obtain ⟨hacc, hcopy, huncovered⟩ := hnot
    obtain ⟨m', hret⟩ := hzero.2 ⟨hacc, hcopy⟩
    exact huncovered (hsound m' hret).covered
  · intro hcond m' hret
    obtain ⟨hacc, hcopy⟩ := hzero.1 ⟨m', hret⟩
    obtain hnacc | ⟨hd, hs, hnone⟩ | hcov := hcond
    · exact absurd hacc hnacc
    · exact absurd hnone (hcopy hd hs)
    · exact hcov.userRange hacc

/-- The copies from and to a user address by a task with a `vmm` succeed only on ranges
that do not wrap, lie in the user half and have all their pages there (and writable):
exactly when the check refuses the range, or the copy never comes back, or the end of
the range does not wrap and the page of its last byte is there (and writable). -/
theorem memCopyUser_sound (memcpy : Mm → ℕ → ℕ → ℕ → Option Mm) (m : Mm) (a n buf : ℕ)
    (ha : a < wordSize) :
    ((∀ m', memCopyFromUser memcpy m true buf a n = some (m', 0) → UserRange m readableEntry a n) ↔
      ¬ CopyAccepted m readableEntry a n ∨ (buf ≠ 0 ∧ a ≠ 0 ∧ memcpy m buf a n = none) ∨
        CopyCovered m readableEntry a n) ∧
    ((∀ m', memCopyToUser memcpy m true a buf n = some (m', 0) → UserRange m writableEntry a n) ↔
      ¬ CopyAccepted m writableEntry a n ∨ (a ≠ 0 ∧ buf ≠ 0 ∧ memcpy m a buf n = none) ∨
        CopyCovered m writableEntry a n) :=
  ⟨memCopyUser_covered rfl ha, memCopyUser_covered rfl ha⟩

/-- Page tables with one user page, at 4096, that can be written. -/
def onePage : Mm where
  ranges := MemPool.smallLayout.ranges MemPool.clearBoot
  pde := fun i => if i = 0 then 7 else 0
  pte := fun n => if n = 1 then 7 else 0

/-- On that page both functions keep to it. -/
theorem memCopyUser_sound_onePage :
    (∀ m', memCopyFromUser (fun m _ _ _ => some m) onePage true 9000 4100 4092 = some (m', 0) →
      UserRange onePage readableEntry 4100 4092) ∧
    (∀ m', memCopyToUser (fun m _ _ _ => some m) onePage true 4100 9000 4092 = some (m', 0) →
      UserRange onePage writableEntry 4100 4092) := by
  obtain ⟨hfrom, hto⟩ := memCopyUser_sound (fun m _ _ _ => some m) onePage 4100 4092 9000
    (by decide)
  exact ⟨hfrom.2 (Or.inr (Or.inr (by decide))), hto.2 (Or.inr (Or.inr (by decide)))⟩

/-- Two bytes across the end of the page are accepted, and so is a length that wraps:
rounded up to pages it is 0, and no page is looked at. -/
theorem memCopyUser_fails :
    (memCopyFromUser (fun m _ _ _ => some m) onePage true 0 8191 2 = some (onePage, 0) ∧
      ¬ UserRange onePage readableEntry 8191 2) ∧
    (memCopyToUser (fun m _ _ _ => some m) onePage true 8191 0 2 = some (onePage, 0) ∧
      ¬ UserRange onePage writableEntry 8191 2) ∧
    (memCopyFromUser (fun m _ _ _ => some m) onePage true 0 40960 4294967295 = some (onePage, 0) ∧
      ¬ UserRange onePage readableEntry 40960 4294967295) ∧
    memCopyToUser (fun m _ _ _ => some m) onePage true 40960 0 4294967295 = some (onePage, 0) ∧
      ¬ UserRange onePage writableEntry 40960 4294967295 := by
  refine ⟨⟨rfl, fun h => ?_⟩, ⟨rfl, fun h => ?_⟩, ⟨rfl, fun h => ?_⟩, rfl, fun h => ?_⟩
  · exact absurd (h.pages 8192 (by decide) (by decide)) (by decide)
  · exact absurd (h.pages 8192 (by decide) (by decide)) (by decide)
  · exact absurd h.noWrap (by decide)
  · exact absurd h.noWrap (by decide)

end LightOS
