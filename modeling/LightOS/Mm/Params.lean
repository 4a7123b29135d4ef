import Mathlib

/-!
# Machine parameters of the memory manager

The constants of `arch/page.h`, `arch/phymem.h`, `arch/mempool.h`, `xbook/vmm.h`
and `xbook/memspace.h` that the modelled functions read, for the configuration
the kernel is built with (`CONFIG_KERN_LOWMEM` is 0: the kernel sits in the high
half), and the page arithmetic on 32-bit words.  Addresses and lengths are
natural numbers below `wordSize`; where the C code lets a sum or a difference
run over, the model says so with `add32` and `sub32`.
-/

namespace LightOS

/-- The number of values of an `unsigned long`. -/
abbrev wordSize : ℕ := 4294967296

/-- `a + b` on 32-bit words. -/
def add32 (a b : ℕ) : ℕ := (a + b) % 4294967296

/-- `a - b` on 32-bit words. -/
def sub32 (a b : ℕ) : ℕ := (a + (4294967296 - b)) % 4294967296

/-- `PAGE_SIZE`, that is `1U << PAGE_SHIFT`. -/
abbrev pageSize : ℕ := 4096

/-- `value & PAGE_MASK`: the page address of `value`. -/
def pageMask (value : ℕ) : ℕ := value / 4096 * 4096

/-- `PAGE_ALIGN(value)`: round up to a whole number of pages, on 32-bit words. -/
def pageAlign (value : ℕ) : ℕ := pageMask (add32 value 4095)

/-- The address of a page: `value & ~PAGE_MASK` is zero. -/
def PageAligned (value : ℕ) : Prop := value % 4096 = 0

instance (value : ℕ) : Decidable (PageAligned value) := inferInstanceAs (Decidable (_ = _))

/-- `KERN_BASE_VIR_ADDR`: where physical memory is mapped in the kernel half. -/
abbrev kernBaseVirAddr : ℕ := 2147483648

/-- `USER_VMM_BASE_ADDR`. -/
abbrev userVmmBaseAddr : ℕ := 0

/-- `USER_VMM_SIZE`. -/
abbrev userVmmSize : ℕ := 2147483648

/-- `USER_VMM_TOP_ADDR`. -/
abbrev userVmmTopAddr : ℕ := 2147483648

/-! ## Page arithmetic -/

theorem add32_lt (a b : ℕ) : add32 a b < 4294967296 := Nat.mod_lt _ (by norm_num)

theorem sub32_lt (a b : ℕ) : sub32 a b < 4294967296 := Nat.mod_lt _ (by norm_num)

theorem add32_of_lt {a b : ℕ} (h : a + b < 4294967296) : add32 a b = a + b := Nat.mod_eq_of_lt h

theorem sub32_of_le {a b : ℕ} (h : b ≤ a) (ha : a < 4294967296) : sub32 a b = a - b := by
  unfold sub32
  omega

theorem pageAligned_pageMask (v : ℕ) : PageAligned (pageMask v) := by
  unfold PageAligned pageMask
  omega

theorem pageAligned_pageAlign (v : ℕ) : PageAligned (pageAlign v) := pageAligned_pageMask _

theorem pageMask_le (v : ℕ) : pageMask v ≤ v := by
  unfold pageMask
  omega

theorem pageMask_eq_self {v : ℕ} (h : PageAligned v) : pageMask v = v := by
  unfold PageAligned at h
  unfold pageMask
  omega

theorem pageAlign_lt (v : ℕ) : pageAlign v < 4294967296 := by
  have := pageMask_le (add32 v 4095)
  have := add32_lt v 4095
  unfold pageAlign
  omega

theorem pageAlign_eq_self {v : ℕ} (h : PageAligned v) (hlt : v < 4294967296) : pageAlign v = v := by
  unfold PageAligned at h
  unfold pageAlign pageMask add32
  omega

/-- Rounding up does not go down unless it runs past the last page. -/
theorem le_pageAlign {v : ℕ} (h : v ≤ 4294963200) : v ≤ pageAlign v := by
  unfold pageAlign pageMask add32
  omega

end LightOS
