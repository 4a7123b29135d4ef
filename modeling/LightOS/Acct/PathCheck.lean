import LightOS.Acct.Basic
import LightOS.Fs.PathBasic

/-!
# The permission check and the path that is opened

The calls of `fs/fsif.c` that take a path (`sys_open`, `sys_access`, `sys_unlink`, `sys_stat`,
`sys_mkdir`, `sys_rmdir`, `sys_opendir`, and `sys_rename` twice) first ask
`account_selfcheck_permission` about the string of the caller, then hand `build_path` of it to
the file system.  So the check sees a spelling and the file system sees the file.

* `sameDecision_iff` — for which account states, working directories and strings the two
  decisions agree; for all account states at once, when the string agrees with its normal form
  as far as an entry can reach.
* `not_sameDecision_acct` — the account directory, spelled relative to the root.
-/

namespace LightOS
namespace Acct

open FsPath

/-! ## The decision -/

/-- The decision on the string of the caller is the decision on the path that is opened. -/
def SameDecision (s : AccountState) (cwd : Option (List Char)) (path : List Char) : Prop :=
  ∃ abs, buildPath cwd path = some abs ∧
    accountSelfcheckPermission s path permisionAttrFile =
      accountSelfcheckPermission s abs permisionAttrFile

/-! ## The entries that count -/

/-- A string the current account is kept from: that of a file entry bound to it. -/
def FileEntry (s : AccountState) (e : List Char) : Prop :=
  ∃ i, s.current = some i ∧ ∃ data, Bound s.db (s.table i) data ∧
    attrType data.attr = attrType permisionAttrFile ∧ data.str = e

theorem FileEntry.length_lt {s : AccountState} {e : List Char} (h : FileEntry s e) :
    e.length < 32 := by
  obtain ⟨-, -, data, -, -, rfl⟩ := h
  exact data.fits

/-- **What is refused**: the strings behind an entry that counts. -/
theorem selfcheck_eq_zero_iff (s : AccountState) (p : List Char) :
    accountSelfcheckPermission s p permisionAttrFile = 0 ↔ ∃ e, FileEntry s e ∧ e <+: p := by
  unfold accountSelfcheckPermission
  cases hcur : s.current with
  | none =>
      constructor
      · intro h
        cases h
      · rintro ⟨e, ⟨i, hi, -⟩, -⟩
        rw [hcur] at hi
        cases hi
  | some i =>
      simp only [accountCheckPermission_eq_zero_iff]
      constructor
      · rintro ⟨data, hbound, htype, hprefix⟩
        exact ⟨data.str, ⟨i, hcur, data, hbound, htype, rfl⟩, hprefix⟩
      · rintro ⟨e, ⟨i', hi', data, hbound, htype, rfl⟩, hprefix⟩
        rw [hcur, Option.some.injEq] at hi'
        subst hi'
        exact ⟨data, hbound, htype, hprefix⟩

theorem selfcheck_cases (s : AccountState) (p : List Char) :
    accountSelfcheckPermission s p permisionAttrFile = 0 ∨
      accountSelfcheckPermission s p permisionAttrFile = -1 := by
  unfold accountSelfcheckPermission
  cases s.current with
  | none => exact Or.inr rfl
  | some i => exact accountCheckPermission_cases ..

/-- Two strings get the same answer when both are refused or neither is. -/
theorem selfcheck_eq_iff (s : AccountState) (p q : List Char) :
    accountSelfcheckPermission s p permisionAttrFile =
        accountSelfcheckPermission s q permisionAttrFile ↔
      ((∃ e, FileEntry s e ∧ e <+: p) ↔ ∃ e, FileEntry s e ∧ e <+: q) := by
  rw [← selfcheck_eq_zero_iff, ← selfcheck_eq_zero_iff]
  rcases selfcheck_cases s p with hp | hp <;> rcases selfcheck_cases s q with hq | hq <;>
    simp [hp, hq]

/-! ## One entry -/

/-- The state in which the current account is kept from one string only. -/
def oneEntry (e : List Char) (h : e.length < permisionStrLen) : AccountState :=
  { table := fun _ => { accountInit with
      flags := accountFlagUsed + accountFlagLogined + accountLevelUser
      dataIndex := fun i => if i = 0 then 0 else -1 }
    current := some 0
    db := { length := 1
            datasets := fun i => if i = 0 then ⟨permisionAttrFile, e, h⟩ else emptyData } }

theorem fileEntry_oneEntry_iff {e : List Char} (h : e.length < permisionStrLen) (x : List Char) :
    FileEntry (oneEntry e h) x ↔ x = e := by
  constructor
  · rintro ⟨i, -, data, ⟨j, hpos, hsel⟩, -, rfl⟩
    have hj : j = 0 := by
      by_contra hne
      simp [oneEntry, hne] at hpos
    subst hj
    have hdata : data = ⟨permisionAttrFile, e, h⟩ := by
      have := hsel.symm
      simpa [oneEntry, permissionDatabaseSelectByIndex] using this
    rw [hdata]
  · rintro rfl
    exact ⟨0, rfl, ⟨permisionAttrFile, x, h⟩, ⟨0, le_refl (0 : ℤ), rfl⟩, rfl, rfl⟩

/-- Entries reach 31 characters into a string. -/
theorem prefix_iff_of_take_eq {e p q : List Char} (he : e.length < 32) (h : p.take 31 = q.take 31) :
    e <+: p ↔ e <+: q := by
  have hp : e <+: p.take 31 ↔ e <+: p := by
    rw [List.prefix_take_iff]
    exact and_iff_left (by omega)
  have hq : e <+: q.take 31 ↔ e <+: q := by
    rw [List.prefix_take_iff]
    exact and_iff_left (by omega)
  rw [← hp, h, hq]

/-- **Entries of one string tell two strings apart** unless they agree on 31 characters. -/
theorem forall_selfcheck_eq_iff (p q : List Char) :
    (∀ s, accountSelfcheckPermission s p permisionAttrFile =
      accountSelfcheckPermission s q permisionAttrFile) ↔ p.take 31 = q.take 31 := by
  constructor
  · intro h
    have hone : ∀ e : List Char, e.length < 32 → (e <+: p ↔ e <+: q) := by
      intro e he
      have hs := (selfcheck_eq_iff _ p q).1 (h (oneEntry e he))
      simpa only [fileEntry_oneEntry_iff, exists_eq_left] using hs
    have hp := (hone (p.take 31) (by rw [List.length_take]; omega)).1 (List.take_prefix _ _)
    have hq := (hone (q.take 31) (by rw [List.length_take]; omega)).2 (List.take_prefix _ _)
    have hpq : p.take 31 <+: q.take 31 := List.prefix_take_iff.2 ⟨hp, List.length_take_le _ _⟩
    have hqp : q.take 31 <+: p.take 31 := List.prefix_take_iff.2 ⟨hq, List.length_take_le _ _⟩
    exact hpq.eq_of_length_le hqp.length_le
  · intro h s
    rw [selfcheck_eq_iff]
    have hiff : ∀ e, FileEntry s e ∧ e <+: p ↔ FileEntry s e ∧ e <+: q := by
      intro e
      exact and_congr_right fun he => prefix_iff_of_take_eq he.length_lt h
    simp only [hiff]

/-! ## Main results -/

/-- The entries agree on a string and its normal form: one of them is a prefix of both, or
there are entries that are a prefix of one of them only on both sides, or on neither. -/
def EntriesAgree (s : AccountState) (p q : List Char) : Prop :=
  (∃ e, FileEntry s e ∧ e <+: p ∧ e <+: q) ∨
    ((∃ e, FileEntry s e ∧ e <+: p ∧ ¬ e <+: q) ↔ ∃ e, FileEntry s e ∧ e <+: q ∧ ¬ e <+: p)

theorem selfcheck_eq_iff_entriesAgree (s : AccountState) (p q : List Char) :
    accountSelfcheckPermission s p permisionAttrFile =
      accountSelfcheckPermission s q permisionAttrFile ↔ EntriesAgree s p q := by
  rw [selfcheck_eq_iff]
  unfold EntriesAgree
  by_cases hboth : ∃ e, FileEntry s e ∧ e <+: p ∧ e <+: q
  · obtain ⟨e, he, hp, hq⟩ := hboth
    exact iff_of_true (iff_of_true ⟨e, he, hp⟩ ⟨e, he, hq⟩) (Or.inl ⟨e, he, hp, hq⟩)
  · rw [or_iff_right hboth]
    have hp : ∀ e, FileEntry s e ∧ e <+: p ↔ FileEntry s e ∧ e <+: p ∧ ¬ e <+: q := fun e =>
      ⟨fun h => ⟨h.1, h.2, fun hq => hboth ⟨e, h.1, h.2, hq⟩⟩, fun h => ⟨h.1, h.2.1⟩⟩
    have hq : ∀ e, FileEntry s e ∧ e <+: q ↔ FileEntry s e ∧ e <+: q ∧ ¬ e <+: p := fun e =>
      ⟨fun h => ⟨h.1, h.2, fun hp => hboth ⟨e, h.1, hp, h.2⟩⟩, fun h => ⟨h.1, h.2.1⟩⟩
    simp only [← hp, ← hq]

/-- On strings an entry can reach the end of, agreeing as far as entries reach is being in
normal form. -/
theorem take_normalForm_iff {cwd : Option (List Char)} {p : List Char} (hlen : p.length ≤ 31) :
    p.take 31 = (normalForm cwd p).take 31 ↔ Canonical p := by
  rw [← normalForm_eq_self_iff cwd p, List.take_of_length_le hlen]
  constructor
  · intro h
    have hhead : p.head? = some '/' := by
      rw [h, List.head?_take, if_neg (by decide), head?_normalForm]
    have hshort : (normalForm cwd p).length ≤ p.length := length_normalForm_le hhead
    rw [List.take_of_length_le (hshort.trans hlen)] at h
    exact h.symm
  · intro h
    rw [h, List.take_of_length_le hlen]

theorem sameDecision_of_room {s : AccountState} {cwd : Option (List Char)} {p : List Char}
    (hroom : HasRoom cwd p) : SameDecision s cwd p ↔
      accountSelfcheckPermission s p permisionAttrFile =
        accountSelfcheckPermission s (normalForm cwd p) permisionAttrFile := by
  unfold SameDecision
  rw [buildPath_eq hroom]
  constructor
  · rintro ⟨abs, habs, heq⟩
    cases habs
    exact heq
  · intro heq
    exact ⟨_, rfl, heq⟩

theorem hasRoom_of_sameDecision {s : AccountState} {cwd : Option (List Char)} {p : List Char}
    (h : SameDecision s cwd p) : HasRoom cwd p := by
  by_contra hroom
  obtain ⟨abs, habs, -⟩ := h
  rw [buildPath_eq_none hroom] at habs
  cases habs

theorem forall_sameDecision_iff (cwd : Option (List Char)) (p : List Char) :
    (∀ s, SameDecision s cwd p) ↔ HasRoom cwd p ∧ p.take 31 = (normalForm cwd p).take 31 := by
  constructor
  · intro h
    have hroom := hasRoom_of_sameDecision (h (oneEntry [] (by decide)))
    refine ⟨hroom, (forall_selfcheck_eq_iff _ _).1 fun s => ?_⟩
    exact (sameDecision_of_room hroom).1 (h s)
  · rintro ⟨hroom, htake⟩ s
    exact (sameDecision_of_room hroom).2 ((forall_selfcheck_eq_iff _ _).2 htake s)

/-- **Where the check and the file system agree.**  For all account states at once: on the
strings that fit and agree with their normal form on 31 characters, which on strings of at most
31 characters are those in normal form.  In one state: where the entries do not tell the string
and its normal form apart. -/
theorem sameDecision_iff (cwd : Option (List Char)) (p : List Char) :
    ((∀ s, SameDecision s cwd p) ↔ HasRoom cwd p ∧ p.take 31 = (normalForm cwd p).take 31) ∧
      (p.length ≤ 31 ∧ (∀ s, SameDecision s cwd p) ↔
        p.length ≤ 31 ∧ HasRoom cwd p ∧ Canonical p) ∧
      ∀ s, SameDecision s cwd p ↔ HasRoom cwd p ∧ EntriesAgree s p (normalForm cwd p) := by
  refine ⟨forall_sameDecision_iff cwd p, ?_, fun s => ?_⟩
  · apply and_congr_right
    intro hlen
    rw [forall_sameDecision_iff, take_normalForm_iff hlen]
  · constructor
    · intro h
      have hroom := hasRoom_of_sameDecision h
      exact ⟨hroom, (selfcheck_eq_iff_entriesAgree s _ _).1 ((sameDecision_of_room hroom).1 h)⟩
    · rintro ⟨hroom, hagree⟩
      exact (sameDecision_of_room hroom).2 ((selfcheck_eq_iff_entriesAgree s _ _).2 hagree)

/-- An account kept from the account directory may name it relative to the root. -/
theorem not_sameDecision_acct : ¬ ∀ s cwd p, SameDecision s cwd p := by
  intro h
  have hroom : HasRoom (some ['/']) ['a', 'c', 'c', 't'] := by decide
  have hsame := (sameDecision_of_room hroom).1
    (h (oneEntry ['/', 'a', 'c', 'c', 't'] (by decide)) (some ['/']) ['a', 'c', 'c', 't'])
  have hform : normalForm (some ['/']) ['a', 'c', 'c', 't'] = ['/', 'a', 'c', 'c', 't'] := by decide
  rw [hform, selfcheck_eq_iff] at hsame
  simp only [fileEntry_oneEntry_iff, exists_eq_left] at hsame
  exact absurd (hsame.2 (List.prefix_refl _)) (by decide)

end Acct
end LightOS
