import LightOS.Acct.Account
import LightOS.Lib.Run

/-!
# Registering and unregistering accounts

Runs of the account calls.  A run keeps the tables consistent: names are apart, every user has
one home entry, the counter of the database counts, and a call that fails leaves both tables as
they were.  Two things the code does are kept out of the runs: a name whose home path does not
fit into an entry is written past it, and when the files cannot be written an account that is
logged in is put back as one that is not.

* `acctCall_spec` — what one call does to consistent tables.
* `acctRun_consistent` — the run lemma.
* `accountRegister_long_name` — a name of 26 letters.
-/

namespace LightOS
namespace Acct

open Slots

/-! ## Consistent tables -/

/-- The accounts in use, in the order of their slots. -/
def AccountState.accounts (s : AccountState) : List Account := taken Account.used s.table

/-- The flag words the calls produce: a level, logged in or not. -/
def FlagsOk (flags : ℕ) : Prop :=
  flags ∈ [accountFlagUsed + accountLevelRoot, accountFlagUsed + accountLevelUser,
    accountFlagUsed + accountFlagLogined + accountLevelRoot,
    accountFlagUsed + accountFlagLogined + accountLevelUser]

instance (flags : ℕ) : Decidable (FlagsOk flags) := inferInstanceAs (Decidable (_ ∈ _))

/-- The entry is the home of the name. -/
def homeOf (name : List Char) (d : PermissionData) : Bool :=
  d.attr &&& permisionAttrHome ≠ 0 && decide (d.str = homePath name)

/-- What a list of accounts and a list of entries have to do with each other. -/
structure Matching (accounts : List Account) (entries : List PermissionData) : Prop where
  names : (accounts.map Account.name).Nodup
  flags : ∀ a ∈ accounts, FlagsOk a.flags
  idle : ∀ a ∈ accounts, a.logined = false → a.dataIndex = fun _ => -1
  home : ∀ a ∈ accounts, a.level = accountLevelUser → entries.countP (homeOf a.name) = 1
  owned : ∀ d ∈ entries, ∀ name, d.str = homePath name →
    d.attr = homeAttr ∧ name ∈ accounts.map Account.name

/-- The tables are consistent. -/
structure AccountState.Consistent (s : AccountState) : Prop where
  db : s.db.Inv
  matching : Matching s.accounts s.db.entries

/-- Both tables hold the same, up to the order of the slots. -/
def SameTables (s s' : AccountState) : Prop :=
  s'.accounts.Perm s.accounts ∧ s'.db.entries.Perm s.db.entries ∧ s'.db.length = s.db.length

section Matching

variable {accounts accounts' : List Account} {entries entries' : List PermissionData}

theorem homePath_injective {m n : List Char} (h : homePath m = homePath n) : m = n := by
  unfold homePath at h
  rw [List.append_cancel_left_eq, List.cons.injEq] at h
  exact h.2

theorem Matching.perm (h : Matching accounts entries) (ha : accounts'.Perm accounts)
    (he : entries'.Perm entries) : Matching accounts' entries' := by
  have hnames := ha.map Account.name
  refine ⟨hnames.nodup_iff.2 h.names, fun a hm => h.flags a (ha.mem_iff.1 hm),
    fun a hm => h.idle a (ha.mem_iff.1 hm), fun a hm hl => ?_, fun d hd name hstr => ?_⟩
  · rw [he.countP_eq]
    exact h.home a (ha.mem_iff.1 hm) hl
  · obtain ⟨hattr, hname⟩ := h.owned d (he.mem_iff.1 hd) name hstr
    exact ⟨hattr, hnames.mem_iff.2 hname⟩

/-- Entries of other names do not count. -/
theorem countP_homeOf_eq_zero (h : Matching accounts entries) {name : List Char}
    (hnew : name ∉ accounts.map Account.name) : entries.countP (homeOf name) = 0 := by
  rw [List.countP_eq_zero]
  intro d hd hhome
  simp only [homeOf, Bool.and_eq_true, decide_eq_true_eq] at hhome
  exact hnew (h.owned d hd name hhome.2).2

theorem homeOf_mk {name : List Char} {d : PermissionData} (hattr : d.attr = homeAttr)
    (hstr : d.str = homePath name) : homeOf name d = true := by
  unfold homeOf
  rw [hattr, hstr]
  simp

theorem homeOf_of_str_ne {name m : List Char} {d : PermissionData} (hstr : d.str = homePath m)
    (hne : m ≠ name) : homeOf name d = false := by
  unfold homeOf
  rw [hstr, decide_eq_false fun h => hne (homePath_injective h), Bool.and_false]

/-- A new account with a home of its own. -/
theorem Matching.register (h : Matching accounts entries) {a : Account} {d : PermissionData}
    (hnew : a.name ∉ accounts.map Account.name) (hflags : FlagsOk a.flags)
    (hidle : a.dataIndex = fun _ => -1) (hattr : d.attr = homeAttr)
    (hstr : d.str = homePath a.name) :
    Matching (a :: accounts) (d :: entries) := by
  have hown := homeOf_mk hattr hstr
  refine ⟨?_, ?_, ?_, ?_, ?_⟩
  · rw [List.map_cons, List.nodup_cons]
    exact ⟨hnew, h.names⟩
  · intro b hb
    rcases List.mem_cons.1 hb with rfl | hb
    · exact hflags
    · exact h.flags b hb
  · intro b hb hlog
    rcases List.mem_cons.1 hb with rfl | hb
    · exact hidle
    · exact h.idle b hb hlog
  · intro b hb hlevel
    rcases List.mem_cons.1 hb with rfl | hb
    · rw [List.countP_cons_of_pos hown, countP_homeOf_eq_zero h hnew]
    · have hne : a.name ≠ b.name := fun heq => hnew (heq ▸ List.mem_map_of_mem hb)
      rw [List.countP_cons_of_neg (by rw [homeOf_of_str_ne hstr hne]; decide)]
      exact h.home b hb hlevel
  · intro e he name hname
    rcases List.mem_cons.1 he with rfl | he
    · rw [hstr] at hname
      rw [← homePath_injective hname]
      exact ⟨hattr, List.mem_cons_self ..⟩
    · obtain ⟨h1, h2⟩ := h.owned e he name hname
      exact ⟨h1, List.mem_cons_of_mem _ h2⟩

/-- An account is taken out together with its home. -/
theorem Matching.unregister {a : Account} {d : PermissionData}
    (h : Matching (a :: accounts) (d :: entries)) (hlevel : a.level = accountLevelUser)
    (hstr : d.str = homePath a.name) : Matching accounts entries := by
  have hnames := h.names
  rw [List.map_cons, List.nodup_cons] at hnames
  have hown := homeOf_mk (h.owned d (List.mem_cons_self ..) _ hstr).1 hstr
  have hone := h.home a (List.mem_cons_self ..) hlevel
  rw [List.countP_cons_of_pos hown, Nat.add_eq_right, List.countP_eq_zero] at hone
  refine ⟨hnames.2, fun b hb => h.flags b (List.mem_cons_of_mem _ hb),
    fun b hb => h.idle b (List.mem_cons_of_mem _ hb), ?_, ?_⟩
  · intro b hb hlevel'
    have hne : a.name ≠ b.name := fun heq => hnames.1 (heq ▸ List.mem_map_of_mem hb)
    have hcount := h.home b (List.mem_cons_of_mem _ hb) hlevel'
    rwa [List.countP_cons_of_neg (by rw [homeOf_of_str_ne hstr hne]; decide)] at hcount
  · intro e he name hname
    obtain ⟨hattr, hmem⟩ := h.owned e (List.mem_cons_of_mem _ he) name hname
    refine ⟨hattr, ?_⟩
    rw [List.map_cons, List.mem_cons] at hmem
    apply hmem.resolve_left
    rintro rfl
    exact hone e he (homeOf_mk hattr hname)

/-- An account is written over by one with the same name and level. -/
theorem Matching.replace {a b : Account} (h : Matching (a :: accounts) entries)
    (hname : b.name = a.name) (hlevel : b.level = a.level) (hflags : FlagsOk b.flags)
    (hidle : b.logined = false → b.dataIndex = fun _ => -1) : Matching (b :: accounts) entries := by
  refine ⟨?_, ?_, ?_, ?_, ?_⟩
  · rw [List.map_cons, hname]
    exact h.names
  · intro c hc
    rcases List.mem_cons.1 hc with rfl | hc
    · exact hflags
    · exact h.flags c (List.mem_cons_of_mem _ hc)
  · intro c hc hlog
    rcases List.mem_cons.1 hc with rfl | hc
    · exact hidle hlog
    · exact h.idle c (List.mem_cons_of_mem _ hc) hlog
  · intro c hc hlevel'
    rcases List.mem_cons.1 hc with rfl | hc
    · rw [hname]
      exact h.home a (List.mem_cons_self ..) (hlevel ▸ hlevel')
    · exact h.home c (List.mem_cons_of_mem _ hc) hlevel'
  · intro e he name hstr
    rw [List.map_cons, hname]
    exact h.owned e he name hstr

end Matching

/-! ## The table operations -/

section Table

variable {s : AccountState}

theorem mem_accounts {a : Account} :
    a ∈ s.accounts ↔ ∃ i, (s.table i).used = true ∧ s.table i = a :=
  mem_taken

theorem accountFindByName_eq_some {name : List Char} {i : Fin accountNr}
    (h : accountFindByName s name = some i) :
    (s.table i).used = true ∧ (s.table i).name = name := by
  have hfound := List.find?_some h
  rw [Bool.and_eq_true, decide_eq_true_eq] at hfound
  exact ⟨hfound.1, hfound.2.symm⟩

theorem accounts_db (db : PermissionDatabase) :
    AccountState.accounts { s with db := db } = s.accounts := by
  unfold AccountState.accounts
  rfl

/-- Looking an account up does not read the database. -/
theorem accountFindByName_db (db : PermissionDatabase) (name : List Char) :
    accountFindByName { s with db := db } name = accountFindByName s name := by
  unfold accountFindByName
  rfl

theorem accountFindByName_eq_none_iff {name : List Char} :
    accountFindByName s name = none ↔ name ∉ s.accounts.map Account.name := by
  unfold accountFindByName
  rw [List.find?_eq_none]
  constructor
  · intro hnone hmem
    obtain ⟨a, ha, rfl⟩ := List.mem_map.1 hmem
    obtain ⟨i, hused, rfl⟩ := mem_accounts.1 ha
    have := hnone i (List.mem_finRange i)
    simp [hused] at this
  · intro hnot i _
    rw [Bool.and_eq_true, decide_eq_true_eq]
    rintro ⟨hused, rfl⟩
    exact hnot (List.mem_map_of_mem (mem_accounts.2 ⟨i, hused, rfl⟩))

/-- A level an account is given. -/
inductive Level where
  | root
  | user

/-- The flags of a level. -/
def Level.flags : Level → ℕ
  | .root => accountLevelRoot
  | .user => accountLevelUser

theorem pushedAccount_used (name password : List Char) (level : Level) :
    (pushedAccount name password level.flags).used = true := by
  unfold Account.used
  cases level
  · exact (by decide :
      decide ((accountFlagUsed ||| accountLevelRoot) &&& accountFlagUsed ≠ 0) = true)
  · exact (by decide :
      decide ((accountFlagUsed ||| accountLevelUser) &&& accountFlagUsed ≠ 0) = true)

theorem pushedAccount_flagsOk (name password : List Char) (level : Level) :
    FlagsOk (pushedAccount name password level.flags).flags := by
  cases level
  · exact (by decide : FlagsOk (accountFlagUsed ||| accountLevelRoot))
  · exact (by decide : FlagsOk (accountFlagUsed ||| accountLevelUser))

theorem free_used (a : Account) : a.free.used = false := by simp [Account.used, Account.free]

/-- Popping an account of the table. -/
theorem accountPop_spec {name : List Char} {i : Fin accountNr}
    (h : accountFindByName s name = some i) :
    accountPop s name = (s.setAccount i (s.table i).free, 0) ∧
      s.accounts.Perm (s.table i :: (s.setAccount i (s.table i).free).accounts) := by
  obtain ⟨hused, -⟩ := accountFindByName_eq_some h
  refine ⟨?_, taken_perm_cons_update hused (free_used _)⟩
  unfold accountPop
  rw [h]

/-- **Popping what was just pushed** leaves the accounts as they were. -/
theorem accountPop_push {i : Fin accountNr} {a : Account}
    (hfree : firstFree Account.used s.table = some i)
    (hused : a.used = true) (hnew : a.name ∉ s.accounts.map Account.name)
    (db : PermissionDatabase) :
    ∃ s', accountPop { s.setAccount i a with db := db } a.name = (s', 0) ∧
      s'.accounts.Perm s.accounts ∧ s'.db = db := by
  have hperm : (s.setAccount i a).accounts.Perm (a :: s.accounts) :=
    taken_update_perm_cons (firstFree_eq_some hfree) hused
  obtain ⟨j, hj⟩ : ∃ j, accountFindByName { s.setAccount i a with db := db } a.name = some j := by
    apply Option.ne_none_iff_exists'.1
    rw [Ne, accountFindByName_eq_none_iff, not_not]
    exact (hperm.map Account.name).mem_iff.2 (List.mem_cons_self ..)
  -- the only account with the name is the new one
  have hji : j = i := by
    obtain ⟨hju, hjn⟩ := accountFindByName_eq_some hj
    by_contra hne
    have htable : (s.setAccount i a).table j = s.table j := Function.update_of_ne hne _ _
    rw [show ({ s.setAccount i a with db := db } : AccountState).table j = s.table j from htable]
      at hju hjn
    exact hnew (List.mem_map.2 ⟨s.table j, mem_accounts.2 ⟨j, hju, rfl⟩, hjn⟩)
  subst hji
  obtain ⟨hpop, hback⟩ := accountPop_spec hj
  refine ⟨_, hpop, ?_, rfl⟩
  have hself : ({ s.setAccount j a with db := db } : AccountState).table j = a :=
    Function.update_self ..
  rw [hself] at hback ⊢
  exact (hback.symm.trans hperm).cons_inv

end Table

/-! ## Registering -/

theorem SameTables.refl (s : AccountState) : SameTables s s :=
  ⟨List.Perm.refl _, List.Perm.refl _, rfl⟩

/-- Tables that hold the same are consistent alike. -/
theorem AccountState.Consistent.of_perm {s : AccountState} (h : s.Consistent) (s' : AccountState)
    (hdb : s'.db.Inv) (ha : s'.accounts.Perm s.accounts) (he : s'.db.entries.Perm s.db.entries) :
    s'.Consistent ∧ SameTables s s' := by
  refine ⟨⟨hdb, h.matching.perm ha he⟩, ha, he, ?_⟩
  rw [hdb.length_eq, h.db.length_eq, he.length_eq]

/-- What a call leaves behind: consistent tables, the same ones if the call failed. -/
def CallOk (s : AccountState) (r : Option (AccountState × ℤ)) : Prop :=
  ∃ s' ret, r = some (s', ret) ∧ s'.Consistent ∧ (ret < 0 → SameTables s s')

theorem callOk_refused {s : AccountState} (h : s.Consistent) (ret : ℤ) : CallOk s (some (s, ret)) :=
  ⟨s, ret, rfl, h, fun _ => SameTables.refl s⟩

/-- The call is turned down before it changes a table. -/
def RegisterRefused (s : AccountState) (name password : List Char) : Prop :=
  accountNameCheck name < 0 ∨ accountPasswordCheck password < 0 ∨ s.notRoot = true ∨
    accountFindByName s name ≠ none ∨ firstFree Account.used s.table = none

theorem length_homePath (name : List Char) : (homePath name).length = name.length + 6 := by
  unfold homePath
  simp

/-- The end of `account_register`, of an account that is pushed with its whole name. -/
theorem registerHome_ok {s : AccountState} (h : s.Consistent) {i : Fin accountNr} {a : Account}
    (hfree : firstFree Account.used s.table = some i) (hused : a.used = true)
    (hflags : FlagsOk a.flags)
    (hidle : a.dataIndex = fun _ => -1) (hnew : a.name ∉ s.accounts.map Account.name)
    (hlen : a.name.length ≤ 25 ∨ a.name.length ≤ 31 ∧ s.db.Full) (sync : Bool) :
    CallOk s (registerHome (s.setAccount i a) a.name sync) := by
  have hperm : (s.setAccount i a).accounts.Perm (a :: s.accounts) :=
    taken_update_perm_cons (firstFree_eq_some hfree) hused
  have hbuf : ¬ homeBufLen ≤ (homePath a.name).length := by
    rw [length_homePath]
    simp only [homeBufLen]
    omega
  unfold registerHome
  rw [if_neg hbuf, show (s.setAccount i a).db = s.db from rfl]
  by_cases hfull : s.db.Full
  · rw [permissionDatabaseInsert_full hfull]
    obtain ⟨s', hpop, haccounts, hdb⟩ := accountPop_push hfree hused hnew s.db
    have hsame := h.of_perm s' (hdb ▸ h.db) haccounts (hdb ▸ List.Perm.refl _)
    exact ⟨s', -1, by simp only [Option.map_some, hpop]; rfl, hsame.1, fun _ => hsame.2⟩
  · have hshort : a.name.length ≤ 25 := hlen.resolve_right fun h' => hfull h'.2
    have hfits : (homePath a.name).length < permisionStrLen := by
      rw [length_homePath]
      simp only [permisionStrLen]
      omega
    obtain ⟨j, hj, hinsert⟩ := permissionDatabaseInsert_spec h.db hfull homeAttr hfits
    rw [hinsert]
    have hindex : ¬ (j.val : ℤ) < 0 := by omega
    simp only [Option.map_some, if_neg hindex]
    cases sync with
    | true =>
        obtain ⟨hinv, hentries⟩ := h.db.put (d := ⟨homeAttr, homePath a.name, hfits⟩) hj rfl
        refine ⟨_, 0, rfl, ⟨hinv, ?_⟩, fun hneg => absurd hneg (by decide)⟩
        exact (h.matching.register hnew hflags hidle rfl rfl).perm hperm hentries
    | false =>
        obtain ⟨db', hdelete, hentries, -, hinv⟩ :=
          permissionDatabaseDelete_insert h.db hj ⟨homeAttr, homePath a.name, hfits⟩
        obtain ⟨s', hpop, haccounts, hdb⟩ := accountPop_push hfree hused hnew db'
        subst hdb
        have hsame := h.of_perm s' hinv haccounts (hentries ▸ List.Perm.refl _)
        refine ⟨s', -1, ?_, hsame.1, fun _ => hsame.2⟩
        simp only [Int.toNat_natCast, hdelete, hpop]
        rfl

/-- The names `account_register` can store. -/
def RegisterOk (s : AccountState) (name password : List Char) : Prop :=
  name.length ≤ 25 ∨ name.length ≤ 31 ∧ s.db.Full ∨ RegisterRefused s name password

/-- **Registering keeps the tables consistent**, and leaves them alone when it fails. -/
theorem accountRegister_ok {s : AccountState} (h : s.Consistent) {name password : List Char}
    (hok : RegisterOk s name password) (level : Level) (sync : Bool) :
    CallOk s (accountRegister s name password level.flags sync) := by
  unfold accountRegister
  split_ifs with hname hpassword hroot
  · exact callOk_refused h _
  · exact callOk_refused h _
  · exact callOk_refused h _
  · cases hfind : accountFindByName s name with
    | some i => exact callOk_refused h _
    | none =>
        unfold accountPush
        cases hfree : firstFree Account.used s.table with
        | none => exact callOk_refused h _
        | some i =>
            have hlen : name.length ≤ 25 ∨ name.length ≤ 31 ∧ s.db.Full := by
              rcases hok with hok | hok | hok | hok | hok | hok | hok
              · exact Or.inl hok
              · exact Or.inr hok
              · exact absurd hok hname
              · exact absurd hok hpassword
              · exact absurd hok hroot
              · exact absurd hfind hok
              · rw [hfree] at hok
                cases hok
            have hstored : (pushedAccount name password level.flags).name = name := by
              apply List.take_of_length_le
              simp only [accountNameLen]
              omega
            have hnew := accountFindByName_eq_none_iff.1 hfind
            have hhome := registerHome_ok h hfree (pushedAccount_used name password level)
              (pushedAccount_flagsOk name password level) rfl (by rwa [hstored])
              (by rwa [hstored]) sync
            rw [hstored] at hhome
            exact hhome

/-! ## Unregistering -/

/-- The account a call of `account_unregister` goes on to remove, when no guard turns it down. -/
def removes (s : AccountState) (name : List Char) : Option (Fin accountNr) :=
  if accountNameCheck name < 0 ∨ s.notRoot = true then none
  else
    match accountFindByName s name, s.current with
    | some i, some cur =>
        if i = cur ∨ (s.table i).level ≤ (s.table cur).level then none else some i
    | _, _ => none

/-- The outcomes with which `account_unregister` can put things back: the files are written, or
the account to be removed is not logged in. -/
def UnregisterOk (s : AccountState) (name : List Char) (sync : Bool) : Prop :=
  sync = true ∨ ∀ i, removes s name = some i → (s.table i).logined = false

/-- An account that is not logged in is the one pushed from its name, password and level. -/
theorem pushedAccount_self {a : Account} (hflags : FlagsOk a.flags) (hlog : a.logined = false)
    (hidle : a.dataIndex = fun _ => -1) : pushedAccount a.name a.password a.level = a := by
  obtain ⟨name, password, flags, dataIndex, hname, hpassword⟩ := a
  simp only at hidle
  subst hidle
  have hn : name.take (accountNameLen - 1) = name :=
    List.take_of_length_le (Nat.le_of_lt_succ hname)
  have hp : password.take (accountPasswordLen - 1) = password :=
    List.take_of_length_le (Nat.le_of_lt_succ hpassword)
  have hf : accountFlagUsed ||| (flags &&& accountLevelMask) = flags := by
    simp only [FlagsOk, List.mem_cons, List.not_mem_nil, or_false] at hflags
    rcases hflags with rfl | rfl | rfl | rfl
    · decide
    · decide
    · simp [Account.logined] at hlog
    · simp [Account.logined] at hlog
  unfold pushedAccount Account.level
  simp only [hn, hp, hf, accountInit]

/-- Of the levels in use, the one above a root account's is that of a user. -/
theorem level_eq_user {a : Account} (hflags : FlagsOk a.flags) (hlt : accountLevelRoot < a.level) :
    a.level = accountLevelUser := by
  unfold Account.level at *
  simp only [FlagsOk, List.mem_cons, List.not_mem_nil, or_false] at hflags
  rcases hflags with hf | hf | hf | hf
  · rw [hf] at hlt
    exact absurd hlt (by decide)
  · rw [hf]
    decide
  · rw [hf] at hlt
    exact absurd hlt (by decide)
  · rw [hf]
    decide

/-- The home entry of a user is found. -/
theorem select_home {s : AccountState} (h : s.Consistent) {a : Account} (ha : a ∈ s.accounts)
    (hlevel : a.level = accountLevelUser) :
    ∃ d, permissionDatabaseSelect s.db (homePath a.name) = some d := by
  apply Option.ne_none_iff_exists'.1
  intro hnone
  have hall := permissionDatabaseSelect_eq_none_iff (homePath a.name) |>.1 hnone
  have hone := h.matching.home a ha hlevel
  have hpos : 0 < s.db.entries.countP (homeOf a.name) := by omega
  obtain ⟨d, hd, hhome⟩ := List.countP_pos_iff.1 hpos
  simp only [homeOf, Bool.and_eq_true, decide_eq_true_eq] at hhome
  exact hall d hd hhome.2

/-- An account that was taken out is pushed again, while a slot is free. -/
theorem accountPush_back {s : AccountState} {i : Fin accountNr} (hfree : (s.table i).used = false)
    {a : Account} (hused : a.used = true) (hself : pushedAccount a.name a.password a.level = a) :
    ∃ k, accountPush s a.name a.password a.level = (s.setAccount k a, 0) ∧
      (s.setAccount k a).accounts.Perm (a :: s.accounts) := by
  obtain ⟨k, hk⟩ := exists_firstFree hfree
  refine ⟨k, ?_, taken_update_perm_cons (firstFree_eq_some hk) hused⟩
  unfold accountPush
  rw [hk, hself]

/-- There is room in a database with a cleared entry. -/
theorem not_full_clear (db : PermissionDatabase) (j : Fin permisionDatabaseLen) :
    ¬ (db.clear j).Full := by
  have hfree : ((db.clear j).datasets j).taken = false := by
    rw [show (db.clear j).datasets j = emptyData from Function.update_self .., emptyData_taken]
  obtain ⟨k, hk⟩ := exists_firstFree hfree
  intro hfull
  rw [show firstFree PermissionData.taken (db.clear j).datasets = none from hfull] at hk
  cases hk

/-- The end of `account_unregister`, of a user. -/
theorem unregisterHome_ok {s : AccountState} (h : s.Consistent) {name : List Char}
    {i : Fin accountNr}
    (hfind : accountFindByName s name = some i) (hlevel : (s.table i).level = accountLevelUser)
    {sync : Bool} (hok : sync = true ∨ (s.table i).logined = false) :
    CallOk s (unregisterHome s name i sync) := by
  obtain ⟨hused, rfl⟩ := accountFindByName_eq_some hfind
  have hmem : s.table i ∈ s.accounts := mem_accounts.2 ⟨i, hused, rfl⟩
  have hbuf : ¬ homeBufLen ≤ (homePath (s.table i).name).length := by
    have := (s.table i).name_fits
    rw [length_homePath]
    simp only [homeBufLen, accountNameLen] at *
    omega
  obtain ⟨d, hsel⟩ := select_home h hmem hlevel
  have hne : homePath (s.table i).name ≠ [] := by
    intro hnil
    have := congrArg List.length hnil
    rw [length_homePath] at this
    simp at this
  obtain ⟨j, hj, htaken, hstr, hdelete⟩ := permissionDatabaseDeleteByData_spec h.db hne hsel
  have htaken' : (s.db.datasets j).taken = true := hj ▸ htaken
  obtain ⟨hinv, hentries⟩ := h.db.clear htaken'
  rw [hj] at hentries
  have hfind' : accountFindByName { s with db := s.db.clear j } (s.table i).name = some i :=
    (accountFindByName_db _ _).trans hfind
  obtain ⟨hpop, haccounts⟩ := accountPop_spec hfind'
  -- the tables without the account and without its home
  obtain ⟨s', hs'⟩ : ∃ s', ({ s with db := s.db.clear j } : AccountState).setAccount i
    (s.table i).free = s' :=
    ⟨_, rfl⟩
  have hsimp : ({ s with db := s.db.clear j } : AccountState).table i = s.table i := rfl
  rw [hsimp, hs'] at hpop haccounts
  rw [accounts_db] at haccounts
  have hdb' : s'.db = s.db.clear j := by rw [← hs']; rfl
  have hboth : Matching (s.table i :: s'.accounts) (d :: s'.db.entries) :=
    h.matching.perm haccounts.symm (hdb' ▸ hentries.symm)
  unfold unregisterHome
  rw [if_neg hbuf]
  simp only [hsel, hdelete, hpop, lt_irrefl, if_false]
  cases sync with
  | true =>
      refine ⟨s', 0, rfl, ⟨hdb' ▸ hinv, hboth.unregister hlevel hstr⟩, fun hneg => ?_⟩
      exact absurd hneg (by decide)
  | false =>
      have hlog : (s.table i).logined = false := hok.resolve_left (by decide)
      have hself := pushedAccount_self (h.matching.flags _ hmem) hlog (h.matching.idle _ hmem hlog)
      have hfree : (s'.table i).used = false := by
        rw [← hs', show (AccountState.setAccount _ i (s.table i).free).table i =
          (s.table i).free from
          Function.update_self .., free_used]
      obtain ⟨k, hpush, hpushed⟩ := accountPush_back hfree hused hself
      obtain ⟨l, hl, hinsert⟩ :=
        permissionDatabaseInsert_spec hinv (not_full_clear s.db j) d.attr d.fits
      have hput := hinv.put (d := d) hl htaken
      have hdbs : (s'.setAccount k (s.table i)).db = s.db.clear j := hdb'
      simp only [hpush, hdbs, hinsert, Option.map_some]
      have hsame := h.of_perm
        { s'.setAccount k (s.table i) with
          db := { length := (s.db.clear j).length + 1
                  datasets := Function.update (s.db.clear j).datasets l d } }
        hput.1 (hpushed.trans haccounts.symm) (hput.2.trans hentries.symm)
      exact ⟨_, -1, rfl, hsame.1, fun _ => hsame.2⟩

/-- **Unregistering keeps the tables consistent**, and puts them back when it fails. -/
theorem accountUnregister_ok {s : AccountState} (h : s.Consistent) {name : List Char} {sync : Bool}
    (hok : UnregisterOk s name sync) : CallOk s (accountUnregister s name sync) := by
  unfold accountUnregister
  split_ifs with hname hroot
  · exact callOk_refused h _
  · exact callOk_refused h _
  · cases hfind : accountFindByName s name with
    | none => exact callOk_refused h _
    | some i =>
        cases hcur : s.current with
        | none => exact callOk_refused h _
        | some cur =>
            simp only
            split_ifs with hself hlevel
            · exact callOk_refused h _
            · exact callOk_refused h _
            · obtain ⟨hused, -⟩ := accountFindByName_eq_some hfind
              have hroot' : (s.table cur).level = accountLevelRoot := by
                unfold AccountState.notRoot at hroot
                rw [hcur] at hroot
                simpa using hroot
              have huser : (s.table i).level = accountLevelUser := by
                apply level_eq_user (h.matching.flags _ (mem_accounts.2 ⟨i, hused, rfl⟩))
                omega
              have hremoves : removes s name = some i := by
                unfold removes
                rw [if_neg (by rintro (h1 | h1) <;> contradiction), hfind, hcur]
                simp only
                rw [if_neg (by rintro (h1 | h1) <;> contradiction)]
              exact unregisterHome_ok h hfind huser (hok.imp_right fun hall => hall i hremoves)

/-! ## Logging in and out -/

theorem used_of_flagsOk {a : Account} (h : FlagsOk a.flags) : a.used = true := by
  unfold Account.used
  simp only [FlagsOk, List.mem_cons, List.not_mem_nil, or_false] at h
  rcases h with h | h | h | h <;> rw [h] <;> decide

theorem accountAddIndex_flags (a : Account) (index : ℕ) :
    (accountAddIndex a index).flags = a.flags := by
  unfold accountAddIndex
  split <;> rfl

theorem accountAddIndex_name (a : Account) (index : ℕ) :
    (accountAddIndex a index).name = a.name := by
  unfold accountAddIndex
  split <;> rfl

theorem accountBindOne_keep (db : PermissionDatabase) (a : Account) (i : Fin permisionDatabaseLen) :
    (accountBindOne db a i).flags = a.flags ∧ (accountBindOne db a i).name = a.name := by
  unfold accountBindOne
  split_ifs
  · exact ⟨rfl, rfl⟩
  · exact ⟨accountAddIndex_flags _ _, accountAddIndex_name _ _⟩
  · exact ⟨rfl, rfl⟩

theorem foldl_bindOne_keep (db : PermissionDatabase) (l : List (Fin permisionDatabaseLen)) :
    ∀ a : Account, (l.foldl (accountBindOne db) a).flags = a.flags ∧
      (l.foldl (accountBindOne db) a).name = a.name := by
  induction l with
  | nil => intro a; exact ⟨rfl, rfl⟩
  | cons i l ih =>
      intro a
      obtain ⟨hflags, hname⟩ := ih (accountBindOne db a i)
      obtain ⟨hflags', hname'⟩ := accountBindOne_keep db a i
      exact ⟨hflags.trans hflags', hname.trans hname'⟩

/-- Binding changes the index table only. -/
theorem accountBindPerm_keep (db : PermissionDatabase) (a : Account) :
    (accountBindPerm db a).flags = a.flags ∧ (accountBindPerm db a).name = a.name := by
  unfold accountBindPerm
  split_ifs
  · exact ⟨rfl, rfl⟩
  · exact foldl_bindOne_keep db _ a

/-- Logging in writes the flags and the indices. -/
theorem loginAccount_keep (db : PermissionDatabase) (a : Account) :
    (loginAccount db a).name = a.name ∧ (loginAccount db a).flags =
      (if a.logined then clearLogined a.flags else a.flags) ||| accountFlagLogined := by
  unfold loginAccount
  split_ifs with hlog
  · obtain ⟨hflags, hname⟩ := accountBindPerm_keep db
      { accountDebindPerm a with flags := clearLogined a.flags }
    exact ⟨hname, congrArg (· ||| accountFlagLogined) hflags⟩
  · obtain ⟨hflags, hname⟩ := accountBindPerm_keep db a
    exact ⟨hname, congrArg (· ||| accountFlagLogined) hflags⟩

/-- What logging in does to an account, its indices aside. -/
theorem loginAccount_spec (db : PermissionDatabase) {a : Account} (h : FlagsOk a.flags) :
    (loginAccount db a).name = a.name ∧ (loginAccount db a).level = a.level ∧
      FlagsOk (loginAccount db a).flags ∧ (loginAccount db a).logined = true := by
  obtain ⟨hname, hflags⟩ := loginAccount_keep db a
  refine ⟨hname, ?_⟩
  unfold Account.level Account.logined
  rw [hflags]
  unfold Account.logined
  simp only [FlagsOk, List.mem_cons, List.not_mem_nil, or_false] at h
  rcases h with h | h | h | h <;> rw [h] <;> decide

/-- What logging out does to the flags of an account. -/
theorem clearLogined_spec {flags : ℕ} (h : FlagsOk flags) : FlagsOk (clearLogined flags) ∧
    clearLogined flags &&& accountLevelMask = flags &&& accountLevelMask := by
  simp only [FlagsOk, List.mem_cons, List.not_mem_nil, or_false] at h
  rcases h with h | h | h | h <;> rw [h] <;> decide

/-- An account of the table is written over. -/
theorem AccountState.Consistent.setAccount {s : AccountState} (h : s.Consistent) {i : Fin accountNr}
    {b : Account} (hused : (s.table i).used = true) (hname : b.name = (s.table i).name)
    (hlevel : b.level = (s.table i).level) (hflags : FlagsOk b.flags)
    (hidle : b.logined = false → b.dataIndex = fun _ => -1) (current : Option (Fin accountNr)) :
    AccountState.Consistent { s.setAccount i b with current := current } := by
  obtain ⟨rest, hold, hnew⟩ := taken_update_replace hused (used_of_flagsOk hflags)
  refine ⟨h.db, ?_⟩
  have hmatching := h.matching.perm hold.symm (List.Perm.refl _)
  exact (hmatching.replace hname hlevel hflags hidle).perm hnew (List.Perm.refl _)

theorem accountLogin_ok {s : AccountState} (h : s.Consistent) (name password : List Char) :
    CallOk s (some (accountLogin s name password)) := by
  unfold accountLogin
  split_ifs with hname hpassword
  · exact callOk_refused h _
  · exact callOk_refused h _
  · cases hfind : accountFindByName s name with
    | none => exact callOk_refused h _
    | some i =>
        simp only
        split_ifs with hmatch
        · exact callOk_refused h _
        · obtain ⟨hused, -⟩ := accountFindByName_eq_some hfind
          have hold := h.matching.flags _ (mem_accounts.2 ⟨i, hused, rfl⟩)
          obtain ⟨hn, hl, hf, hlog⟩ := loginAccount_spec s.db hold
          refine ⟨_, 0, rfl, ?_, fun hneg => absurd hneg (by decide)⟩
          apply h.setAccount hused hn hl hf
          intro hno
          rw [hlog] at hno
          cases hno

theorem accountLogout_ok {s : AccountState} (h : s.Consistent) (name : List Char) :
    CallOk s (some (accountLogout s name)) := by
  unfold accountLogout
  split_ifs with hname
  · exact callOk_refused h _
  · cases hfind : accountFindByName s name with
    | none => exact callOk_refused h _
    | some i =>
        simp only
        split_ifs with hcur
        · exact callOk_refused h _
        · obtain ⟨hused, -⟩ := accountFindByName_eq_some hfind
          obtain ⟨hf, hl⟩ := clearLogined_spec (h.matching.flags _ (mem_accounts.2 ⟨i, hused, rfl⟩))
          refine ⟨_, 0, rfl, ?_, fun hneg => absurd hneg (by decide)⟩
          exact h.setAccount (b := { accountDebindPerm (s.table i) with
            flags := clearLogined (s.table i).flags }) hused rfl hl hf (fun _ => rfl) none

/-! ## Runs -/

/-- The calls. -/
inductive AcctCall where
  | register (name password : List Char) (level : Level) (sync : Bool)
  | unregister (name : List Char) (sync : Bool)
  | login (name password : List Char)
  | logout (name : List Char)

/-- One call: the new state and what it returns, `none` if it writes past a buffer. -/
def acctCall (s : AccountState) : AcctCall → Option (AccountState × ℤ)
  | .register name password level sync => accountRegister s name password level.flags sync
  | .unregister name sync => accountUnregister s name sync
  | .login name password => some (accountLogin s name password)
  | .logout name => some (accountLogout s name)

/-- The state after a call. -/
def acctStep (s : AccountState) (c : AcctCall) : Option AccountState := (acctCall s c).map Prod.fst

/-- The calls whose arguments and outcomes the code can handle. -/
def AcctOk (s : AccountState) : AcctCall → Prop
  | .register name password _ _ => RegisterOk s name password
  | .unregister name sync => UnregisterOk s name sync
  | .login _ _ => True
  | .logout _ => True

/-- **One call** of this kind keeps the tables consistent, writes past no buffer, and leaves the
tables alone when it fails. -/
theorem acctCall_spec {s : AccountState} (h : s.Consistent) {c : AcctCall} (hok : AcctOk s c) :
    CallOk s (acctCall s c) := by
  cases c with
  | register name password level sync => exact accountRegister_ok h hok level sync
  | unregister name sync => exact accountUnregister_ok h hok
  | login name password => exact accountLogin_ok h name password
  | logout name => exact accountLogout_ok h name

theorem acctRun_consistent {s : AccountState} (h : s.Consistent) {calls : List AcctCall}
    (hok : Run.Along acctStep AcctOk s calls) :
    ∃ s', Run.exec acctStep s calls = some s' ∧ s'.Consistent := by
  apply Run.exec_total _ calls s h hok
  intro s c hs hc
  obtain ⟨s', ret, hcall, hs', -⟩ := acctCall_spec hs hc
  exact ⟨s', by rw [acctStep, hcall]; rfl, hs'⟩

/-- What is asked of the account tables in every state. -/
structure AccountState.Good (s : AccountState) : Prop where
  names : (s.accounts.map Account.name).Nodup
  home : ∀ a ∈ s.accounts, a.level = accountLevelUser → s.db.entries.countP (homeOf a.name) = 1
  length : s.db.length = s.db.entries.length

theorem AccountState.Consistent.good {s : AccountState} (h : s.Consistent) : s.Good :=
  ⟨h.matching.names, h.matching.home, h.db.length_eq⟩

/-- **Runs of the account calls.**  From consistent tables, a run whose names can be stored and
whose failed removals can be put back ends, and where it ends the names are apart, every user
has one home entry and the counter is right; a further call of this kind writes past no buffer,
and if it fails both tables hold what they held. -/
theorem acctRun_spec {s : AccountState} (h : s.Consistent) {calls : List AcctCall}
    (hok : Run.Along acctStep AcctOk s calls) :
    ∃ s', Run.exec acctStep s calls = some s' ∧ s'.Good ∧
      ∀ c, AcctOk s' c → ∃ s'' ret, acctCall s' c = some (s'', ret) ∧
        (ret < 0 → SameTables s' s'') := by
  obtain ⟨s', hrun, hs'⟩ := acctRun_consistent h hok
  refine ⟨s', hrun, hs'.good, fun c hc => ?_⟩
  obtain ⟨s'', ret, hcall, -, hsame⟩ := acctCall_spec hs' hc
  exact ⟨s'', ret, hcall, hsame⟩

/-! ## The first boot -/

/-- The entries of `permission_auto_insert`. -/
def bootDatasets (i : Fin permisionDatabaseLen) : PermissionData :=
  match i.val with
  | 0 => ⟨permisionAttrDevice ||| (permisionAttrRead ||| permisionAttrWrite),
      ['d', 'i', 's', 'k', '0'], by decide⟩
  | 1 => ⟨permisionAttrDevice ||| (permisionAttrRead ||| permisionAttrWrite),
      ['d', 'i', 's', 'k', '1'], by decide⟩
  | 2 => ⟨permisionAttrFile ||| (permisionAttrRead ||| permisionAttrWrite),
      ['/', 'a', 'c', 'c', 't'], by decide⟩
  | 3 => ⟨permisionAttrFile ||| (permisionAttrRead ||| permisionAttrWrite),
      ['/', 's', 'b', 'i', 'n', '/', 'i', 'n', 'i', 't'], by decide⟩
  | _ => emptyData

/-- The root account, logged in. -/
def rootAccount : Account :=
  { accountInit with
    name := ['r', 'o', 'o', 't']
    password := ['1', '2', '3', '4']
    flags := accountFlagUsed + accountFlagLogined + accountLevelRoot
    name_fits := by decide
    password_fits := by decide }

/-- The tables after `account_manager_init` on a disk without account files. -/
def bootState : AccountState :=
  { table := fun i => if i.val = 0 then rootAccount else accountInit
    current := some ⟨0, by decide⟩
    db := { length := 4, datasets := bootDatasets } }

theorem bootState_accounts : bootState.accounts = [rootAccount] := rfl

theorem bootState_entries :
    bootState.db.entries = [bootDatasets 0, bootDatasets 1, bootDatasets 2, bootDatasets 3] := rfl

theorem bootState_consistent : bootState.Consistent := by
  refine ⟨⟨?_, ?_⟩, ?_, ?_, ?_, ?_, ?_⟩
  · rw [bootState_entries]
    rfl
  · intro i
    revert i
    decide
  · rw [bootState_accounts]
    decide
  · rw [bootState_accounts]
    intro a ha
    rw [List.mem_singleton.1 ha]
    decide
  · rw [bootState_accounts]
    intro a ha hlog
    rw [List.mem_singleton.1 ha] at hlog
    exact absurd hlog (by decide)
  · rw [bootState_accounts]
    intro a ha hlevel
    rw [List.mem_singleton.1 ha] at hlevel
    exact absurd hlevel (by decide)
  · -- no entry starts with the home directory
    rw [bootState_entries]
    intro d hd name hstr
    have hhead : d.str.take 6 = ['/', 'h', 'o', 'm', 'e', '/'] := by
      rw [hstr]
      rfl
    simp only [List.mem_cons, List.not_mem_nil, or_false] at hd
    rcases hd with rfl | rfl | rfl | rfl <;> exact absurd hhead (by decide)

/-- A run that registers a user and removes it again. -/
theorem acctRun_spec_bob :
    ∃ s', Run.exec acctStep bootState
        [.register ['b', 'o', 'b'] ['x'] .user true, .unregister ['b', 'o', 'b'] true] = some s' ∧
      s'.Good ∧ ∀ c, AcctOk s' c →
        ∃ s'' ret, acctCall s' c = some (s'', ret) ∧ (ret < 0 → SameTables s' s'') :=
  acctRun_spec bootState_consistent
    ⟨Or.inl (by decide), fun _ _ => ⟨Or.inl rfl, fun _ _ => trivial⟩⟩

/-- **A name of 26 letters** is written past the string field of its home entry. -/
theorem accountRegister_long_name :
    ¬ ∀ (s : AccountState) (calls : List AcctCall), s.Consistent →
      ∃ s', Run.exec acctStep s calls = some s' ∧ s'.Good := by
  intro h
  obtain ⟨s', hrun, -⟩ := h bootState
    [.register (List.replicate 26 'a') ['x'] .user true] bootState_consistent
  have hnone : (acctStep bootState (.register (List.replicate 26 'a') ['x'] .user true)).isNone =
      true := by
    decide +kernel
  rw [Option.isNone_iff_eq_none] at hnone
  rw [Run.exec, hnone] at hrun
  cases hrun

end Acct
end LightOS
