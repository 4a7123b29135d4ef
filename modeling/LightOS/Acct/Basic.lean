import LightOS.Lib.Components

/-!
# Accounts and the permission database: the data

`kernel/account.c` and `kernel/permission.c`.  The database is a table of entries, an
attribute word and a string each; an entry with a zero attribute is a free slot.  An account
keeps the indices of the entries it may *not* touch, and the check walks over them.

Tables are functions on their indices.  A fixed-size character field is a list of characters
with the proof that it and its terminating zero fit.

* `accountCheckPermission_eq_zero_iff` — what the check refuses.
-/

namespace LightOS
namespace Acct

open Components

/-! ## Constants of `xbook/account.h` -/

/-- `ACCOUNT_NR`. -/
abbrev accountNr : ℕ := 8

/-- `ACCOUNT_NAME_LEN`. -/
abbrev accountNameLen : ℕ := 32

/-- `ACCOUNT_PASSWORD_LEN`. -/
abbrev accountPasswordLen : ℕ := 128

/-- `ACCOUNT_LEVEL_ROOT`. -/
abbrev accountLevelRoot : ℕ := 1

/-- `ACCOUNT_LEVEL_USER`. -/
abbrev accountLevelUser : ℕ := 2

/-- `ACCOUNT_LEVEL_MASK`. -/
abbrev accountLevelMask : ℕ := 0xff

/-- `ACCOUNT_FLAG_USED`. -/
abbrev accountFlagUsed : ℕ := 2147483648

/-- `ACCOUNT_FLAG_LOGINED`. -/
abbrev accountFlagLogined : ℕ := 65536

/-- `PERMISION_STR_LEN`. -/
abbrev permisionStrLen : ℕ := 32

/-- `PERMISION_DATABASE_LEN`. -/
abbrev permisionDatabaseLen : ℕ := 32

/-- `PERMISION_ATTR_DEVICE`. -/
abbrev permisionAttrDevice : ℕ := 1

/-- `PERMISION_ATTR_FILE`. -/
abbrev permisionAttrFile : ℕ := 2

/-- `PERMISION_ATTR_FIFO`. -/
abbrev permisionAttrFifo : ℕ := 4

/-- `PERMISION_ATTR_TYPE_MASK`. -/
abbrev permisionAttrTypeMask : ℕ := 0xffff

/-- `PERMISION_ATTR_READ`. -/
abbrev permisionAttrRead : ℕ := 65536

/-- `PERMISION_ATTR_WRITE`. -/
abbrev permisionAttrWrite : ℕ := 131072

/-- `PERMISION_ATTR_EXEC`. -/
abbrev permisionAttrExec : ℕ := 262144

/-- `PERMISION_ATTR_HOME`. -/
abbrev permisionAttrHome : ℕ := 524288

/-- `HOME_DIR_PATH`. -/
abbrev homeDirPath : List Char := ['/', 'h', 'o', 'm', 'e']

/-- `EPERM`. -/
abbrev eperm : ℤ := 1

/-- `EINVAL`. -/
abbrev einval : ℤ := 22

/-! ## The tables -/

/-- `permission_data_t`. -/
structure PermissionData where
  attr : ℕ
  str : List Char
  fits : str.length < permisionStrLen
  deriving DecidableEq

/-- A free slot of the database. -/
def emptyData : PermissionData := ⟨0, [], by decide⟩

/-- `permission_database_t`, without its lock. -/
structure PermissionDatabase where
  length : ℕ
  datasets : Fin permisionDatabaseLen → PermissionData

/-- `account_t`, without its lock and without `index_len`, which is counted and never read. -/
structure Account where
  name : List Char
  password : List Char
  flags : ℕ
  dataIndex : Fin permisionDatabaseLen → ℤ
  name_fits : name.length < accountNameLen
  password_fits : password.length < accountPasswordLen

/-- What `account_init` makes of a slot. -/
def accountInit : Account :=
  { name := [], password := [], flags := 0, dataIndex := fun _ => -1
    name_fits := by decide, password_fits := by decide }

/-- `account_table`, `account_current` and `permission_db`. -/
structure AccountState where
  table : Fin accountNr → Account
  current : Option (Fin accountNr)
  db : PermissionDatabase

/-- The slot is taken. -/
def Account.used (a : Account) : Bool := a.flags &&& accountFlagUsed ≠ 0

/-- The level of the account. -/
def Account.level (a : Account) : ℕ := a.flags &&& accountLevelMask

/-- The type of an attribute word. -/
def attrType (attr : ℕ) : ℕ := attr &&& permisionAttrTypeMask

/-! ## The check -/

/-- `permission_database_select_by_index`. -/
def permissionDatabaseSelectByIndex (db : PermissionDatabase) (index : ℕ) : Option PermissionData :=
  if h : index < permisionDatabaseLen then some (db.datasets ⟨index, h⟩) else none

/-- `account_check_permission`: zero if an entry bound to the account is a prefix of the
string and of its type.  `strncmp` over the length of the entry compares a prefix. -/
def accountCheckPermission (db : PermissionDatabase) (account : Account) (str : List Char)
    (attr : ℕ) : ℤ :=
  if (List.finRange permisionDatabaseLen).any fun i =>
      decide (0 ≤ account.dataIndex i) &&
        match permissionDatabaseSelectByIndex db (account.dataIndex i).toNat with
        | some data => data.str.isPrefixOf str && decide (attrType data.attr = attrType attr)
        | none => false
  then 0 else -1

/-- `account_selfcheck_permission`. -/
def accountSelfcheckPermission (s : AccountState) (str : List Char) (attr : ℕ) : ℤ :=
  match s.current with
  | none => -1
  | some i => accountCheckPermission s.db (s.table i) str attr

/-- An entry is bound to the account: one of its indices leads to it. -/
def Bound (db : PermissionDatabase) (account : Account) (data : PermissionData) : Prop :=
  ∃ i, 0 ≤ account.dataIndex i ∧
    permissionDatabaseSelectByIndex db (account.dataIndex i).toNat = some data

/-- **What the check refuses**: strings behind a bound entry of their type. -/
theorem accountCheckPermission_eq_zero_iff (db : PermissionDatabase) (account : Account)
    (str : List Char) (attr : ℕ) :
    accountCheckPermission db account str attr = 0 ↔
      ∃ data, Bound db account data ∧ attrType data.attr = attrType attr ∧ data.str <+: str := by
  unfold accountCheckPermission
  constructor
  · intro h
    split_ifs at h with hany
    obtain ⟨i, -, hi⟩ := List.any_eq_true.1 hany
    rw [Bool.and_eq_true, decide_eq_true_eq] at hi
    obtain ⟨hpos, hmatch⟩ := hi
    cases hsel : permissionDatabaseSelectByIndex db (account.dataIndex i).toNat with
    | none =>
        rw [hsel] at hmatch
        cases hmatch
    | some data =>
        rw [hsel] at hmatch
        simp only [Bool.and_eq_true, decide_eq_true_eq] at hmatch
        exact ⟨data, ⟨i, hpos, hsel⟩, hmatch.2, List.isPrefixOf_iff_prefix.1 hmatch.1⟩
  · rintro ⟨data, ⟨i, hpos, hsel⟩, htype, hprefix⟩
    apply if_pos
    apply List.any_eq_true.2
    refine ⟨i, List.mem_finRange i, ?_⟩
    rw [Bool.and_eq_true, decide_eq_true_eq, hsel]
    simp only [Bool.and_eq_true, decide_eq_true_eq]
    exact ⟨hpos, List.isPrefixOf_iff_prefix.2 hprefix, htype⟩

/-- The check has two answers. -/
theorem accountCheckPermission_cases (db : PermissionDatabase) (account : Account) (str : List Char)
    (attr : ℕ) : accountCheckPermission db account str attr = 0 ∨
      accountCheckPermission db account str attr = -1 := by
  unfold accountCheckPermission
  split_ifs
  · exact Or.inl rfl
  · exact Or.inr rfl

end Acct
end LightOS
