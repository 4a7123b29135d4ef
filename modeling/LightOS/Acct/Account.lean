import LightOS.Acct.Permission

/-!
# Accounts

`kernel/account.c`: looking accounts up, pushing and popping them, logging in and out, and
registering and unregistering.  Registering changes the account table, the permission database
and two files one after the other; whether the files can be written is an argument of the model.
A call that writes past a fixed-size buffer returns `none`.
-/

namespace LightOS
namespace Acct

open Slots Components

/-! ## Names and passwords -/

/-- `IS_VALID_ACCOUNT_WORD`.  Of the capitals only `Z` is one. -/
def isValidAccountWord (w : Char) : Bool :=
  ('a' ≤ w && w ≤ 'z') || ('Z' ≤ w && w ≤ 'Z') || ('0' ≤ w && w ≤ '9') || w = '_'

/-- `IS_VALID_PASSWORD_WORD`. -/
def isValidPasswordWord (w : Char) : Bool :=
  isValidAccountWord w || w ∈ ['$', '@', '!', '%', '*', '#', '~', '?']

/-- `account_name_check`. -/
def accountNameCheck (name : List Char) : ℤ := if name.all isValidAccountWord then 0 else -1

/-- `account_password_check`. -/
def accountPasswordCheck (password : List Char) : ℤ :=
  if password.all isValidPasswordWord then 0 else -1

/-! ## The table -/

/-- `account_find_by_name`. -/
def accountFindByName (s : AccountState) (name : List Char) : Option (Fin accountNr) :=
  (List.finRange accountNr).find? fun i => (s.table i).used && decide (name = (s.table i).name)

/-- Write one account. -/
def AccountState.setAccount (s : AccountState) (i : Fin accountNr) (a : Account) : AccountState :=
  { s with table := Function.update s.table i a }

/-- The account `account_push` makes: name and password are cut to what fits. -/
def pushedAccount (name password : List Char) (attr : ℕ) : Account :=
  { accountInit with
    name := name.take (accountNameLen - 1)
    password := password.take (accountPasswordLen - 1)
    flags := accountFlagUsed ||| attr
    name_fits := (List.length_take_le _ _).trans_lt (by decide)
    password_fits := (List.length_take_le _ _).trans_lt (by decide) }

/-- `account_push`, with the `account_alloc` in it. -/
def accountPush (s : AccountState) (name password : List Char) (attr : ℕ) : AccountState × ℤ :=
  match firstFree Account.used s.table with
  | none => (s, -1)
  | some i => (s.setAccount i (pushedAccount name password attr), 0)

/-- `account_free`. -/
def Account.free (a : Account) : Account := { a with flags := 0 }

/-- `account_pop`. -/
def accountPop (s : AccountState) (name : List Char) : AccountState × ℤ :=
  match accountFindByName s name with
  | none => (s, -1)
  | some i => (s.setAccount i (s.table i).free, 0)

/-! ## Binding -/

/-- `account_add_index`: the first slot of the index table that is empty. -/
def accountAddIndex (a : Account) (index : ℕ) : Account :=
  match firstFree (fun x : ℤ => x ≠ -1) a.dataIndex with
  | none => a
  | some i => { a with dataIndex := Function.update a.dataIndex i index }

/-- The entry is a home whose last component is the name of the account. -/
def ownHome (name : List Char) (data : PermissionData) : Bool :=
  data.attr &&& permisionAttrHome ≠ 0 &&
    match lastIdx '/' data.str with
    | some slash => decide (data.str.drop (slash + 1) = name)
    | none => false

/-- `__account_bind_perm` on slot `i`, as `permission_database_foreach` calls it. -/
def accountBindOne (db : PermissionDatabase) (a : Account) (i : Fin permisionDatabaseLen) :
    Account :=
  if (db.datasets i).taken then
    if ownHome a.name (db.datasets i) then a else accountAddIndex a i.val
  else a

/-- `account_bind_perm`. -/
def accountBindPerm (db : PermissionDatabase) (a : Account) : Account :=
  if a.level < accountLevelUser then a
  else (List.finRange permisionDatabaseLen).foldl (accountBindOne db) a

/-- `account_debind_perm`. -/
def accountDebindPerm (a : Account) : Account := { a with dataIndex := fun _ => -1 }

/-- The flags with `ACCOUNT_FLAG_LOGINED` cleared. -/
def clearLogined (flags : ℕ) : ℕ := flags &&& (4294967295 - accountFlagLogined)

/-- The account has logged in and not out again. -/
def Account.logined (a : Account) : Bool := a.flags &&& accountFlagLogined ≠ 0

/-- The account as `account_login` leaves it. -/
def loginAccount (db : PermissionDatabase) (a : Account) : Account :=
  let a := if a.logined then { accountDebindPerm a with flags := clearLogined a.flags } else a
  let a := accountBindPerm db a
  { a with flags := a.flags ||| accountFlagLogined }

/-- `account_login`. -/
def accountLogin (s : AccountState) (name password : List Char) : AccountState × ℤ :=
  if accountNameCheck name < 0 then (s, -einval)
  else if accountPasswordCheck password < 0 then (s, -einval)
  else
    match accountFindByName s name with
    | none => (s, -1)
    | some i =>
        if (s.table i).password ≠ password then (s, -1)
        else ({ s.setAccount i (loginAccount s.db (s.table i)) with current := some i }, 0)

/-- `account_logout`. -/
def accountLogout (s : AccountState) (name : List Char) : AccountState × ℤ :=
  if accountNameCheck name < 0 then (s, -einval)
  else
    match accountFindByName s name with
    | none => (s, -1)
    | some i =>
        if s.current ≠ some i then (s, -1)
        else
          ({ s.setAccount i { accountDebindPerm (s.table i) with
                flags := clearLogined (s.table i).flags } with current := none }, 0)

/-! ## Registering -/

/-- The size of the buffer for a home path. -/
abbrev homeBufLen : ℕ := 42

/-- The home path of a name, `str` in the source. -/
def homePath (name : List Char) : List Char := homeDirPath ++ '/' :: name

/-- The attribute of a home. -/
abbrev homeAttr : ℕ :=
  permisionAttrHome ||| (permisionAttrRead ||| permisionAttrWrite) ||| permisionAttrFile

/-- The current account, if there is one, is not a root account. -/
def AccountState.notRoot (s : AccountState) : Bool :=
  match s.current with
  | none => false
  | some i => (s.table i).level ≠ accountLevelRoot

/-- The tail of `account_register`, once the account is pushed.  `sync` is the outcome of
`account_sync`, which writes both files and leaves the tables alone. -/
def registerHome (s : AccountState) (name : List Char) (sync : Bool) : Option (AccountState × ℤ) :=
  if homeBufLen ≤ (homePath name).length then none
  else
    (permissionDatabaseInsert s.db homeAttr (homePath name)).map fun (db, index) =>
      if index < 0 then ((accountPop { s with db := db } name).1, -1)
      else if sync then ({ s with db := db }, 0)
      else ((accountPop { s with db := (permissionDatabaseDelete db index.toNat).1 } name).1, -1)

/-- `account_register`. -/
def accountRegister (s : AccountState) (name password : List Char) (flags : ℕ) (sync : Bool) :
    Option (AccountState × ℤ) :=
  if accountNameCheck name < 0 then some (s, -einval)
  else if accountPasswordCheck password < 0 then some (s, -einval)
  else if s.notRoot then some (s, -eperm)
  else
    match accountFindByName s name with
    | some _ => some (s, -1)
    | none =>
        match accountPush s name password flags with
        | (s', ret) => if ret < 0 then some (s', -1) else registerHome s' name sync

/-- The tail of `account_unregister` for account `i`, once the guards are passed. -/
def unregisterHome (s : AccountState) (name : List Char) (i : Fin accountNr) (sync : Bool) :
    Option (AccountState × ℤ) :=
  if homeBufLen ≤ (homePath name).length then none
  else
    match permissionDatabaseSelect s.db (homePath name) with
    | none => some (s, -1)
    | some backup =>
        match permissionDatabaseDeleteByData s.db (homePath name) with
        | (db, ret) =>
          if ret < 0 then some ({ s with db := db }, -1)
          else
            let account := s.table i
            match accountPop { s with db := db } name with
            | (s', ret) =>
              if ret < 0 then
                (permissionDatabaseInsert s'.db backup.attr backup.str).map fun (db, _) =>
                  ({ s' with db := db }, -1)
              else if sync then some (s', 0)
              else
                -- the account is pushed again from its name, password and level
                let s'' := (accountPush s' account.name account.password account.level).1
                (permissionDatabaseInsert s''.db backup.attr backup.str).map fun (db, _) =>
                  ({ s'' with db := db }, -1)

/-- `account_unregister`. -/
def accountUnregister (s : AccountState) (name : List Char) (sync : Bool) :
    Option (AccountState × ℤ) :=
  if accountNameCheck name < 0 then some (s, -einval)
  else if s.notRoot then some (s, -eperm)
  else
    match accountFindByName s name with
    | none => some (s, -1)
    | some i =>
        match s.current with
        | none => some (s, -1)
        | some cur =>
            if i = cur then some (s, -1)
            else if (s.table i).level ≤ (s.table cur).level then some (s, -1)
            else unregisterHome s name i sync

end Acct
end LightOS
