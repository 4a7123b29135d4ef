import LightOS.Acct.Register

/-!
# Homes

What an account may touch after it has logged in.  `account_bind_perm` binds every entry of the
database except the homes whose last component is the name of the account, and
`account_check_permission` refuses every string that has a bound entry in front, in the middle
of a component or not.

* `bound_loginAccount_iff` — the entries bound by logging in.
* `accountLogin_lockedOut_iff` — when the check refuses what it should: the paths at or below a
  file entry other than the account's own home.
* `accountLogin_bobby` — the home of `bob` keeps `bobby` out of its own.
-/

namespace LightOS
namespace Acct

open Slots Components

/-! ## Binding all entries -/

/-- The slot of the index table holds an index. -/
abbrev isIndex (x : ℤ) : Bool := x ≠ -1

/-- The entry of slot `i` is bound to the account. -/
def keeps (db : PermissionDatabase) (name : List Char) (i : Fin permisionDatabaseLen) : Bool :=
  (db.datasets i).taken && !ownHome name (db.datasets i)

theorem accountAddIndex_filled {a : Account} {k : ℕ} (h : Filled isIndex a.dataIndex k)
    (hk : k < permisionDatabaseLen) (index : ℕ) :
    Filled isIndex (accountAddIndex a index).dataIndex (k + 1) ∧
      taken isIndex (accountAddIndex a index).dataIndex =
        taken isIndex a.dataIndex ++ [(index : ℤ)] := by
  have hindex : isIndex (index : ℤ) = true := by
    rw [isIndex, decide_eq_true_eq]
    omega
  have hadd : (accountAddIndex a index).dataIndex =
      Function.update a.dataIndex ⟨k, hk⟩ (index : ℤ) := by
    unfold accountAddIndex
    rw [h.firstFree hk]
  rw [hadd]
  exact h.insert hk hindex

/-- Binding a list of slots appends the ones that are kept to the index table. -/
theorem foldl_bindOne_taken (db : PermissionDatabase) (l : List (Fin permisionDatabaseLen)) :
    ∀ (a : Account) (k : ℕ), Filled isIndex a.dataIndex k → k + l.length ≤ permisionDatabaseLen →
      taken isIndex (l.foldl (accountBindOne db) a).dataIndex =
        taken isIndex a.dataIndex ++ (l.filter (keeps db a.name)).map fun i => (i.val : ℤ) := by
  induction l with
  | nil => intro a k _ _; simp
  | cons i l ih =>
      intro a k hfilled hlen
      rw [List.length_cons] at hlen
      have hname := (accountBindOne_keep db a i).2
      rw [List.foldl_cons]
      by_cases hkeep : keeps db a.name i = true
      · have hbind : accountBindOne db a i = accountAddIndex a i.val := by
          unfold keeps at hkeep
          rw [Bool.and_eq_true, Bool.not_eq_true'] at hkeep
          unfold accountBindOne
          rw [if_pos hkeep.1, if_neg (by rw [hkeep.2]; decide)]
        obtain ⟨hfilled', htaken⟩ := accountAddIndex_filled hfilled (by omega) i.val
        rw [← hbind] at hfilled' htaken
        rw [ih _ (k + 1) hfilled' (by omega), htaken, hname, List.filter_cons_of_pos hkeep,
          List.map_cons, List.append_assoc]
        rfl
      · have hbind : accountBindOne db a i = a := by
          unfold keeps at hkeep
          unfold accountBindOne
          split_ifs with htaken hown
          · rfl
          · rw [htaken, Bool.true_and, Bool.not_eq_true', Bool.not_eq_false] at hkeep
            exact absurd hkeep hown
          · rfl
        rw [hbind, ih a k hfilled (by omega), List.filter_cons_of_neg hkeep]

/-- Accounts that are not logged in have no indices. -/
def AccountState.Idle (s : AccountState) : Prop :=
  ∀ a ∈ s.accounts, a.logined = false → a.dataIndex = fun _ => -1

theorem filled_zero : Filled isIndex (fun _ : Fin permisionDatabaseLen => (-1 : ℤ)) 0 := by
  intro i
  simp

theorem taken_none : taken isIndex (fun _ : Fin permisionDatabaseLen => (-1 : ℤ)) = [] := by
  apply List.eq_nil_iff_forall_not_mem.2
  intro x hx
  obtain ⟨i, hused, -⟩ := mem_taken.1 hx
  simp at hused

/-- Clearing the login flag leaves the level. -/
theorem level_clearLogined (flags : ℕ) :
    clearLogined flags &&& accountLevelMask = flags &&& accountLevelMask := by
  unfold clearLogined
  rw [Nat.and_assoc]
  rfl

/-- The indices of a user that has logged in. -/
theorem taken_loginAccount (db : PermissionDatabase) {a : Account}
    (hidle : a.logined = false → a.dataIndex = fun _ => -1) (huser : accountLevelUser ≤ a.level) :
    taken isIndex (loginAccount db a).dataIndex =
      ((List.finRange permisionDatabaseLen).filter (keeps db a.name)).map fun i => (i.val : ℤ) := by
  have hbind : ∀ b : Account, b.name = a.name → accountLevelUser ≤ b.level →
      (b.dataIndex = fun _ => -1) → taken isIndex (accountBindPerm db b).dataIndex =
        ((List.finRange permisionDatabaseLen).filter (keeps db a.name)).map fun i =>
          (i.val : ℤ) := by
    intro b hname hlevel hindex
    unfold accountBindPerm
    rw [if_neg (not_lt.2 hlevel), foldl_bindOne_taken db _ b 0 (hindex ▸ filled_zero)
      (by rw [List.length_finRange]; exact le_refl _), hindex, taken_none, hname, List.nil_append]
  unfold loginAccount
  split_ifs with hlog
  · exact hbind _ rfl (huser.trans_eq (level_clearLogined a.flags).symm) rfl
  · exact hbind a rfl huser (hidle (by simpa using hlog))

/-- **The entries bound by logging in**: all but the account's own homes. -/
theorem bound_loginAccount_iff (db : PermissionDatabase) {a : Account}
    (hidle : a.logined = false → a.dataIndex = fun _ => -1) (huser : accountLevelUser ≤ a.level)
    (d : PermissionData) :
    Bound db (loginAccount db a) d ↔ d ∈ db.entries ∧ ownHome a.name d = false := by
  have htaken := taken_loginAccount db hidle huser
  have hmem : ∀ x : ℤ, (∃ i, isIndex ((loginAccount db a).dataIndex i) = true ∧
      (loginAccount db a).dataIndex i = x) ↔ ∃ j, keeps db a.name j = true ∧ (j.val : ℤ) = x := by
    intro x
    rw [← mem_taken, htaken, List.mem_map]
    simp only [List.mem_filter, List.mem_finRange, true_and]
  have hselect : ∀ j : Fin permisionDatabaseLen,
      permissionDatabaseSelectByIndex db ((j.val : ℤ)).toNat = some (db.datasets j) := by
    intro j
    unfold permissionDatabaseSelectByIndex
    simp only [Int.toNat_natCast, dif_pos j.isLt]
  constructor
  · rintro ⟨i, hpos, hsel⟩
    obtain ⟨j, hkeep, hj⟩ := (hmem _).1 ⟨i, by rw [isIndex, decide_eq_true_eq]; omega, rfl⟩
    rw [← hj, hselect, Option.some.injEq] at hsel
    unfold keeps at hkeep
    rw [Bool.and_eq_true, Bool.not_eq_true', hsel] at hkeep
    exact ⟨mem_entries.2 ⟨j, hsel ▸ hkeep.1, hsel⟩, hkeep.2⟩
  · rintro ⟨hd, hown⟩
    obtain ⟨j, hj, rfl⟩ := mem_entries.1 hd
    have hkeep : keeps db a.name j = true := by
      rw [keeps, hj, hown]
      rfl
    obtain ⟨i, -, hi⟩ := (hmem j.val).2 ⟨j, hkeep, rfl⟩
    exact ⟨i, by rw [hi]; omega, by rw [hi]; exact hselect j⟩

/-! ## Homes -/

/-- The entry is a home. -/
def isHome (d : PermissionData) : Bool := d.attr &&& permisionAttrHome ≠ 0

/-- The homes of the database are those `account_register` makes. -/
def HomesRegistered (db : PermissionDatabase) : Prop :=
  ∀ d ∈ db.entries, isHome d = true →
    ∃ m, accountNameCheck m = 0 ∧ d.str = homePath m ∧ d.attr = homeAttr

/-- The path is the string or lies below it. -/
def Covers (e p : List Char) : Prop := p = e ∨ e ++ ['/'] <+: p

theorem Covers.prefix {e p : List Char} (h : Covers e p) : e <+: p := by
  rcases h with rfl | h
  · exact List.prefix_refl _
  · exact (List.prefix_append e ['/']).trans h

theorem sep_not_mem_name {m : List Char} (h : accountNameCheck m = 0) : '/' ∉ m := by
  intro hmem
  unfold accountNameCheck at h
  split_ifs at h with hall
  exact absurd (List.all_eq_true.1 hall '/' hmem) (by decide)

/-- The binding rule singles out the account's own home. -/
theorem ownHome_iff {db : PermissionDatabase} (h : HomesRegistered db) {d : PermissionData}
    (hd : d ∈ db.entries) (name : List Char) :
    ownHome name d = true ↔ isHome d = true ∧ d.str = homePath name := by
  unfold ownHome
  rw [Bool.and_eq_true]
  apply and_congr_right
  intro hhome
  obtain ⟨m, hm, hstr, -⟩ := h d hd hhome
  have hlast : lastIdx '/' (homePath m) = some 5 :=
    lastIdx_append_cons homeDirPath (sep_not_mem_name hm)
  have hdrop : (homePath m).drop (5 + 1) = m := rfl
  rw [hstr, hlast]
  simp only [hdrop, decide_eq_true_eq]
  constructor
  · rintro rfl
    rfl
  · intro heq
    exact homePath_injective heq

/-- The entry is of the type of files. -/
def isFile (d : PermissionData) : Prop := attrType d.attr = attrType permisionAttrFile

/-- What the account is to be kept from: paths at or below a file entry that is not its home. -/
def LockedOut (db : PermissionDatabase) (name p : List Char) : Prop :=
  ∃ d ∈ db.entries, isFile d ∧ d.str ≠ homePath name ∧ Covers d.str p

/-- Every file entry bound to the account whose string the path starts with is one of those, or
another one is: the path does not go on in the middle of the last component. -/
def Separated (db : PermissionDatabase) (name p : List Char) : Prop :=
  ∀ d ∈ db.entries, isFile d → ¬ (isHome d = true ∧ d.str = homePath name) → d.str <+: p →
    d.str ≠ homePath name ∧ Covers d.str p ∨ LockedOut db name p

/-- No other home's name is the beginning of this one. -/
def NoShorterName (db : PermissionDatabase) (name : List Char) : Prop :=
  ∀ d ∈ db.entries, isHome d = true → ∀ m, d.str = homePath m → m <+: name → m = name

/-- The home of another account is bound and refuses the path. -/
def OtherHomeRefuses (db : PermissionDatabase) (a : Account) (p : List Char) : Prop :=
  ∃ d, Bound db a d ∧ isHome d = true ∧ d.str ≠ homePath a.name ∧ isFile d ∧ d.str <+: p

section Login

variable {db : PermissionDatabase} {a : Account}

/-- What the check refuses a user that has logged in. -/
theorem check_loginAccount_iff (h : HomesRegistered db)
    (hidle : a.logined = false → a.dataIndex = fun _ => -1)
    (huser : accountLevelUser ≤ a.level) (p : List Char) :
    accountCheckPermission db (loginAccount db a) p permisionAttrFile = 0 ↔
      ∃ d ∈ db.entries, isFile d ∧ ¬ (isHome d = true ∧ d.str = homePath a.name) ∧ d.str <+: p := by
  rw [accountCheckPermission_eq_zero_iff]
  constructor
  · rintro ⟨d, hbound, hfile, hprefix⟩
    obtain ⟨hd, hown⟩ := (bound_loginAccount_iff db hidle huser d).1 hbound
    refine ⟨d, hd, hfile, fun hhome => ?_, hprefix⟩
    rw [(ownHome_iff h hd a.name).2 hhome] at hown
    cases hown
  · rintro ⟨d, hd, hfile, hown, hprefix⟩
    refine ⟨d, (bound_loginAccount_iff db hidle huser d).2 ⟨hd, ?_⟩, hfile, hprefix⟩
    rw [← ownHome_iff h hd a.name, Bool.not_eq_true] at hown
    exact hown

/-- What the account is to be kept from is always refused. -/
theorem check_of_lockedOut (h : HomesRegistered db)
    (hidle : a.logined = false → a.dataIndex = fun _ => -1)
    (huser : accountLevelUser ≤ a.level) {p : List Char} (hlocked : LockedOut db a.name p) :
    accountCheckPermission db (loginAccount db a) p permisionAttrFile = 0 := by
  obtain ⟨d, hd, hfile, hne, hcovers⟩ := hlocked
  exact (check_loginAccount_iff h hidle huser p).2
    ⟨d, hd, hfile, fun hown => hne hown.2, hcovers.prefix⟩

/-- **The check refuses exactly what it should on the paths that are separated.** -/
theorem check_lockedOut_iff (h : HomesRegistered db)
    (hidle : a.logined = false → a.dataIndex = fun _ => -1)
    (huser : accountLevelUser ≤ a.level) (p : List Char) :
    (accountCheckPermission db (loginAccount db a) p permisionAttrFile = 0 ↔
      LockedOut db a.name p) ↔
      Separated db a.name p := by
  constructor
  · intro hiff d hd hfile hown hprefix
    right
    exact hiff.1 ((check_loginAccount_iff h hidle huser p).2 ⟨d, hd, hfile, hown, hprefix⟩)
  · intro hsep
    constructor
    · intro hcheck
      obtain ⟨d, hd, hfile, hown, hprefix⟩ := (check_loginAccount_iff h hidle huser p).1 hcheck
      rcases hsep d hd hfile hown hprefix with ⟨hne, hcovers⟩ | hlocked
      · exact ⟨d, hd, hfile, hne, hcovers⟩
      · exact hlocked
    · exact check_of_lockedOut h hidle huser

/-- A name before a separator is the beginning of what stands in front of the separator. -/
theorem prefix_of_covers {m name p : List Char} (hm : '/' ∉ m) (hcovers : Covers (homePath name) p)
    ( hprefix : homePath m <+: p) : m <+: name := by
  obtain ⟨r, hr⟩ : ∃ r, homePath m <+: homePath name ++ r ∧ (r = [] ∨ ∃ t, r = '/' :: t) := by
    rcases hcovers with rfl | ⟨t, rfl⟩
    · exact ⟨[], by rwa [List.append_nil], Or.inl rfl⟩
    · exact ⟨'/' :: t, by rwa [List.append_assoc] at hprefix, Or.inr ⟨t, rfl⟩⟩
  obtain ⟨hpre, hform⟩ := hr
  have hpre' : m <+: name ++ r := by
    have heq : homePath name ++ r = (homeDirPath ++ ['/']) ++ (name ++ r) := by
      simp [homePath]
    rw [heq, show homePath m = (homeDirPath ++ ['/']) ++ m by simp [homePath],
      List.prefix_append_right_inj] at hpre
    exact hpre
  rcases Nat.le_total m.length name.length with hle | hle
  · exact List.prefix_of_prefix_length_le hpre' (List.prefix_append _ _) hle
  · -- a longer name would reach the separator
    obtain ⟨u, rfl⟩ := List.prefix_of_prefix_length_le (List.prefix_append name r) hpre' hle
    rw [List.prefix_append_right_inj] at hpre'
    cases u with
    | nil => simp
    | cons c u =>
        rcases hform with rfl | ⟨t, rfl⟩
        · exact absurd hpre'.length_le (by simp)
        · rw [List.cons_prefix_cons] at hpre'
          rw [hpre'.1] at hm
          simp at hm

/-- **An account is kept out of its home by another one's** exactly when the other name is the
beginning of its own. -/
theorem otherHome_iff (h : HomesRegistered db)
    (hidle : a.logined = false → a.dataIndex = fun _ => -1) (huser : accountLevelUser ≤ a.level) :
    (∀ p, Covers (homePath a.name) p → ¬ OtherHomeRefuses db (loginAccount db a) p) ↔
      NoShorterName db a.name := by
  have hname := (loginAccount_keep db a).1
  constructor
  · intro hall d hd hhome m hstr hprefix
    by_contra hne
    have hstr' : d.str ≠ homePath a.name := fun heq => hne (homePath_injective (hstr ▸ heq))
    apply hall (homePath a.name) (Or.inl rfl)
    refine ⟨d, (bound_loginAccount_iff db hidle huser d).2 ⟨hd, ?_⟩, hhome, by rwa [hname], ?_, ?_⟩
    · rw [← Bool.not_eq_true, ownHome_iff h hd a.name]
      exact fun hown => hstr' hown.2
    · obtain ⟨-, -, -, hattr⟩ := h d hd hhome
      unfold isFile
      rw [hattr]
      rfl
    · rw [hstr]
      unfold homePath
      rw [List.prefix_append_right_inj, List.cons_prefix_cons]
      exact ⟨rfl, hprefix⟩
  · rintro hshort p hcovers ⟨d, hbound, hhome, hne, -, hprefix⟩
    obtain ⟨hd, -⟩ := (bound_loginAccount_iff db hidle huser d).1 hbound
    obtain ⟨m, hm, hstr, -⟩ := h d hd hhome
    rw [hname] at hne
    rw [hstr] at hprefix
    have hpre := prefix_of_covers (sep_not_mem_name hm) hcovers hprefix
    exact hne (hstr.trans (congrArg homePath (hshort d hd hhome m hstr hpre)))

end Login

/-! ## Main results -/

theorem accountLogin_current {s s' : AccountState} {name password : List Char} {i : Fin accountNr}
    (hlogin : accountLogin s name password = (s', 0)) (hcur : s'.current = some i) :
    (s.table i).used = true ∧ (s.table i).name = name ∧ s'.db = s.db ∧
      s'.table i = loginAccount s.db (s.table i) := by
  unfold accountLogin at hlogin
  split_ifs at hlogin
  · rw [Prod.mk.injEq] at hlogin
    exact absurd hlogin.2 (by decide)
  · rw [Prod.mk.injEq] at hlogin
    exact absurd hlogin.2 (by decide)
  · cases hfind : accountFindByName s name with
    | none =>
        simp only [hfind, Prod.mk.injEq] at hlogin
        exact absurd hlogin.2 (by decide)
    | some j =>
        simp only [hfind] at hlogin
        split_ifs at hlogin
        · rw [Prod.mk.injEq] at hlogin
          exact absurd hlogin.2 (by decide)
        · rw [Prod.mk.injEq] at hlogin
          obtain ⟨rfl, -⟩ := hlogin
          have hij : j = i := by simpa using hcur
          subst hij
          obtain ⟨hused, hname⟩ := accountFindByName_eq_some hfind
          exact ⟨hused, hname, rfl, Function.update_self ..⟩

/-- **What a user is refused after logging in.**  Every path at or below a file entry other than
its own home is refused; nothing else is, exactly when the path is separated from the entries;
and no other account's home keeps it out of its own exactly when no other name is the beginning
of its name. -/
theorem accountLogin_lockedOut_iff {s s' : AccountState} {name password : List Char}
    {i : Fin accountNr} (hidle : s.Idle) (hhomes : HomesRegistered s.db)
    (hlogin : accountLogin s name password = (s', 0)) (hcur : s'.current = some i)
    (huser : accountLevelUser ≤ (s.table i).level) :
    (∀ p, (accountCheckPermission s'.db (s'.table i) p permisionAttrFile = 0 ↔
        LockedOut s'.db name p) ↔ Separated s'.db name p) ∧
      (∀ p, LockedOut s'.db name p →
        accountCheckPermission s'.db (s'.table i) p permisionAttrFile = 0) ∧
      ((∀ p, Covers (homePath name) p → ¬ OtherHomeRefuses s'.db (s'.table i) p) ↔
        NoShorterName s'.db name) := by
  obtain ⟨hused, rfl, hdb, htable⟩ := accountLogin_current hlogin hcur
  have hindex := hidle (s.table i) (mem_accounts.2 ⟨i, hused, rfl⟩)
  rw [hdb, htable]
  exact ⟨check_lockedOut_iff hhomes hindex huser, fun p => check_of_lockedOut hhomes hindex huser,
    otherHome_iff hhomes hindex huser⟩

/-! ## Two users -/

/-- The account of a user. -/
def userAccount (name : List Char) (h : name.length < accountNameLen) : Account :=
  { accountInit with
    name := name
    password := ['x']
    flags := accountFlagUsed + accountLevelUser
    name_fits := h
    password_fits := by decide }

/-- The users `bob` and `bobby`, their homes, and root logged in. -/
def bobState : AccountState :=
  { bootState with
    table := fun i => match i.val with
      | 0 => rootAccount
      | 1 => userAccount ['b', 'o', 'b'] (by decide)
      | 2 => userAccount ['b', 'o', 'b', 'b', 'y'] (by decide)
      | _ => accountInit
    db := { length := 2
            datasets := fun i => match i.val with
              | 0 => ⟨homeAttr, homePath ['b', 'o', 'b'], by decide⟩
              | 1 => ⟨homeAttr, homePath ['b', 'o', 'b', 'b', 'y'], by decide⟩
              | _ => emptyData } }

theorem bobState_entries : bobState.db.entries =
    [⟨homeAttr, homePath ['b', 'o', 'b'], by decide⟩,
      ⟨homeAttr, homePath ['b', 'o', 'b', 'b', 'y'], by decide⟩] := rfl

theorem bobState_idle : bobState.Idle := by
  intro a ha hlog
  have haccounts : bobState.accounts = [rootAccount, userAccount ['b', 'o', 'b'] (by decide),
      userAccount ['b', 'o', 'b', 'b', 'y'] (by decide)] := rfl
  rw [haccounts] at ha
  simp only [List.mem_cons, List.not_mem_nil, or_false] at ha
  rcases ha with rfl | rfl | rfl
  · exact absurd hlog (by decide)
  · rfl
  · rfl

theorem bobState_homes : HomesRegistered bobState.db := by
  intro d hd _
  rw [bobState_entries] at hd
  simp only [List.mem_cons, List.not_mem_nil, or_false] at hd
  rcases hd with rfl | rfl
  · exact ⟨['b', 'o', 'b'], by decide, rfl, rfl⟩
  · exact ⟨['b', 'o', 'b', 'b', 'y'], by decide, rfl, rfl⟩

/-- `bob` after logging in. -/
theorem accountLogin_lockedOut_bob :
    ∃ s', accountLogin bobState ['b', 'o', 'b'] ['x'] = (s', 0) ∧ s'.current = some 1 ∧
      (∀ p, (accountCheckPermission s'.db (s'.table 1) p permisionAttrFile = 0 ↔
          LockedOut s'.db ['b', 'o', 'b'] p) ↔ Separated s'.db ['b', 'o', 'b'] p) ∧
        (∀ p, LockedOut s'.db ['b', 'o', 'b'] p →
          accountCheckPermission s'.db (s'.table 1) p permisionAttrFile = 0) ∧
        ((∀ p, Covers (homePath ['b', 'o', 'b']) p → ¬ OtherHomeRefuses s'.db (s'.table 1) p) ↔
          NoShorterName s'.db ['b', 'o', 'b']) := by
  have hret : (accountLogin bobState ['b', 'o', 'b'] ['x']).2 = 0 := by decide +kernel
  have hcur : (accountLogin bobState ['b', 'o', 'b'] ['x']).1.current = some 1 := by decide +kernel
  have hlogin : accountLogin bobState ['b', 'o', 'b'] ['x'] =
      ((accountLogin bobState ['b', 'o', 'b'] ['x']).1, 0) := Prod.ext rfl hret
  exact ⟨_, hlogin, hcur, accountLogin_lockedOut_iff bobState_idle bobState_homes hlogin hcur
    (by decide)⟩

/-- **The home of `bob` keeps `bobby` out of its own.** -/
theorem accountLogin_bobby :
    ¬ ∀ (s s' : AccountState) (name password : List Char) (i : Fin accountNr), s.Idle →
      HomesRegistered s.db → accountLogin s name password = (s', 0) → s'.current = some i →
      accountLevelUser ≤ (s.table i).level →
      ∀ p, accountCheckPermission s'.db (s'.table i) p permisionAttrFile = 0 ↔
        LockedOut s'.db name p := by
  intro hall
  have hret : (accountLogin bobState ['b', 'o', 'b', 'b', 'y'] ['x']).2 = 0 := by decide +kernel
  have hcur : (accountLogin bobState ['b', 'o', 'b', 'b', 'y'] ['x']).1.current = some 2 := by
    decide +kernel
  have hlogin : accountLogin bobState ['b', 'o', 'b', 'b', 'y'] ['x'] =
      ((accountLogin bobState ['b', 'o', 'b', 'b', 'y'] ['x']).1, 0) := Prod.ext rfl hret
  obtain ⟨-, -, hdb, htable⟩ := accountLogin_current hlogin hcur
  have hiff := hall _ _ _ _ _ bobState_idle bobState_homes hlogin hcur (by decide)
    (homePath ['b', 'o', 'b', 'b', 'y'])
  rw [htable, hdb] at hiff
  have hcheck : accountCheckPermission bobState.db (loginAccount bobState.db (bobState.table 2))
      (homePath ['b', 'o', 'b', 'b', 'y']) permisionAttrFile = 0 := by decide +kernel
  obtain ⟨d, hd, -, hne, hcovers⟩ := hiff.1 hcheck
  rw [bobState_entries] at hd
  simp only [List.mem_cons, List.not_mem_nil, or_false] at hd
  rcases hd with rfl | rfl
  · exact absurd hcovers (by unfold Covers; decide)
  · exact hne rfl

end Acct
end LightOS
