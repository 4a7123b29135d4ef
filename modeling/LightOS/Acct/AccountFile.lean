import LightOS.Acct.Home
import LightOS.Acct.Sconf

/-!
# The account file

`account_sync_data` writes a line of level, name and password for every account,
`account_load_from_file` reads the lines back into the table.  The buffer the file is read into
is not terminated, so the loader goes on into whatever follows it in memory; a name or password
of more than 15 characters is cut by `sconf_read`; and both level letters are read as root.

* `accountLoad_spec` — what is loaded from the file of a list of accounts.
* `accountFile_roundTrip_iff` — the tables that come back.
-/

namespace LightOS
namespace Acct

open Slots Sconf

/-! ## Writing -/

/-- The letter of a level. -/
def levelStr (level : ℕ) : List Char := if level = accountLevelRoot then ['S'] else ['U']

/-- The line of an account, up to the line break. -/
def accountLine (a : Account) : List Char :=
  sconfWrite (sconfWrite (sconfWrite [] (levelStr a.level)) a.name) a.password

/-- `account_build_file_buf`. -/
def accountBuildFileBuf (a : Account) : List Char := sconfWriteline (accountLine a)

/-- `account_sync_data`: what is in the file afterwards, when it can be opened and written. -/
def accountSyncData (s : AccountState) : List Char := s.accounts.flatMap accountBuildFileBuf

/-! ## Reading -/

/-- The level the letter stands for.  Both letters stand for root. -/
def scanLevel (attrBuf : List Char) : ℕ :=
  if attrBuf.head? = some 'S' then accountLevelRoot
  else if attrBuf.head? = some 'U' then accountLevelRoot
  else 0

/-- `account_scan_line`. -/
def accountScanLine (blank : FieldBuf → Bool) (s : AccountState) (line : List Char) :
    Option (AccountState × ℤ) :=
  if line = [] then some (s, -1)
  else
    (readField (blank .attr) line 32).bind fun (attrBuf, q) =>
      if q = [] then some (s, -1)
      else
        (readField (blank .str) q 32).bind fun (nameBuf, q) =>
          if q = [] then some (s, -1)
          else
            (readField (blank .password) q 32).map fun (pwdBuf, _) =>
              accountPush s (cstr nameBuf) (cstr pwdBuf) (scanLevel attrBuf)

/-- `account_load_from_file`: the table, the value returned, and the number of bytes looked at.
An empty file is refused before it is read; a line that cannot be pushed is passed over. -/
def accountLoadFromFile (env : Surroundings) (s : AccountState) (file : List Char) :
    Option (AccountState × ℤ × ℕ) :=
  if file = [] then some (s, -1, 0)
  else
    (loadLoop (fun s line => (accountScanLine env.blank s line).map Prod.fst)
      (file.length + env.after.length + 1) (file ++ env.after) s).map fun r => (r.1, 0, r.2)

/-! ## Characters of names and passwords -/

theorem plain_of_valid {c : Char} (h : isValidPasswordWord c = true) : Plain c := by
  refine ⟨?_, ?_, ?_, ?_⟩
  · rintro rfl
    exact absurd h (by decide)
  · rintro rfl
    exact absurd h (by decide)
  · by_contra hspace
    rw [Bool.not_eq_false, isspace, decide_eq_true_eq] at hspace
    simp only [List.mem_cons, List.not_mem_nil, or_false] at hspace
    rcases hspace with rfl | rfl | rfl | rfl | rfl | rfl <;> exact absurd h (by decide)
  · by_contra hbreak
    rw [Bool.not_eq_false, isBreak, Bool.or_eq_true, decide_eq_true_eq, decide_eq_true_eq] at hbreak
    rcases hbreak with rfl | rfl <;> exact absurd h (by decide)

theorem plain_name {name : List Char} (h : accountNameCheck name = 0) : ∀ c ∈ name, Plain c := by
  intro c hc
  unfold accountNameCheck at h
  split_ifs at h with hall
  apply plain_of_valid
  rw [isValidPasswordWord, List.all_eq_true.1 hall c hc, Bool.true_or]

theorem plain_password {password : List Char} (h : accountPasswordCheck password = 0) :
    ∀ c ∈ password, Plain c := by
  intro c hc
  unfold accountPasswordCheck at h
  split_ifs at h with hall
  exact plain_of_valid (List.all_eq_true.1 hall c hc)

/-- Names and passwords of the accounts are valid. -/
def Checked (a : Account) : Prop :=
  accountNameCheck a.name = 0 ∧ accountPasswordCheck a.password = 0

theorem accountLine_eq (a : Account) :
    accountLine a = levelStr a.level ++ ',' :: (a.name ++ ',' :: (a.password ++ [','])) := by
  unfold accountLine sconfWrite
  simp

theorem accountSyncData_eq (s : AccountState) :
    accountSyncData s = fileOf (s.accounts.map accountLine) := by
  unfold accountSyncData fileOf
  rw [List.flatMap_map]
  rfl

theorem levelStr_cases (level : ℕ) : levelStr level = ['S'] ∨ levelStr level = ['U'] := by
  unfold levelStr
  split_ifs
  · exact Or.inl rfl
  · exact Or.inr rfl

theorem plain_levelStr (level : ℕ) : ∀ c ∈ levelStr level, Plain c := by
  intro c hc
  rcases levelStr_cases level with h | h
  · rw [h, List.mem_singleton] at hc
    rw [hc]
    decide
  · rw [h, List.mem_singleton] at hc
    rw [hc]
    decide

theorem isLine_accountLine {a : Account} (h : Checked a) : IsLine (accountLine a) := by
  intro c hc
  rw [accountLine_eq] at hc
  simp only [List.mem_append, List.mem_cons, List.not_mem_nil, or_false] at hc
  rcases hc with hc | rfl | hc | rfl | hc | rfl
  · exact (plain_levelStr _ c hc).2.2.2
  · decide
  · exact (plain_name h.1 c hc).2.2.2
  · decide
  · exact (plain_password h.2 c hc).2.2.2
  · decide

theorem nul_not_mem_accountLine {a : Account} (h : Checked a) : nul ∉ accountLine a := by
  rw [accountLine_eq]
  simp only [List.mem_append, List.mem_cons, List.not_mem_nil, or_false]
  rintro (hc | hc | hc | hc | hc | hc)
  · exact nul_not_mem (plain_levelStr _) hc
  · exact absurd hc (by decide)
  · exact nul_not_mem (plain_name h.1) hc
  · exact absurd hc (by decide)
  · exact nul_not_mem (plain_password h.2) hc
  · exact absurd hc (by decide)

theorem length_accountLine (a : Account) :
    (accountLine a).length = a.name.length + a.password.length + 4 := by
  have hlevel : (levelStr a.level).length = 1 := by
    rcases levelStr_cases a.level with h | h <;> rw [h] <;> rfl
  rw [accountLine_eq]
  simp only [List.length_append, List.length_cons, List.length_nil, hlevel]
  omega

/-! ## Scanning a line -/

/-- The level field: whatever follows, the letter is read as root. -/
theorem readField_level (blank : Bool) (level : ℕ) {t : List Char}
    (ht : t = [] ∨ ∃ r, t = ',' :: r) :
    ∃ buf, readField blank (levelStr level ++ t) 32 = some (buf, t.drop 1) ∧
      scanLevel buf = accountLevelRoot := by
  rcases ht with rfl | ⟨r, rfl⟩
  · rcases levelStr_cases level with h | h <;> rw [h] <;> cases blank <;> exact ⟨_, rfl, rfl⟩
  · obtain ⟨t, ht⟩ := readField_plain blank (plain_levelStr level)
      (by rcases levelStr_cases level with h | h <;> rw [h] <;> decide)
      (by rcases levelStr_cases level with h | h <;> simp [h]) r
    refine ⟨_, ht, ?_⟩
    rcases levelStr_cases level with h | h <;> rw [h] <;> rfl

/-- **Scanning what is left of a line** pushes at most one account, at the level of root; its
name and password are no longer than they were, and as long only if they are short. -/
theorem accountScanLine_prefix {a : Account} (h : Checked a) {t : List Char}
    (ht : t <+: accountLine a) {blank : FieldBuf → Bool} {s s' : AccountState} {ret : ℤ}
    (hscan : accountScanLine blank s t = some (s', ret)) :
    s' = s ∨ ∃ n p, s' = (accountPush s n p accountLevelRoot).1 ∧
      n.length ≤ a.name.length ∧ (n.length = a.name.length → a.name.length ≤ 15) ∧
      p.length ≤ a.password.length ∧ (p.length = a.password.length → a.password.length ≤ 15) := by
  unfold accountScanLine at hscan
  split_ifs at hscan with hnil
  · cases hscan
    exact Or.inl rfl
  · -- the line starts with the letter, which may be all of it
    obtain ⟨t', rfl, ht', hrest⟩ : ∃ t', t = levelStr a.level ++ t' ∧
      (t' = [] ∨ ∃ r, t' = ',' :: r) ∧
        t'.drop 1 <+: a.name ++ ',' :: (a.password ++ [',']) := by
      obtain ⟨x, hx⟩ : ∃ x, levelStr a.level = [x] := by
        rcases levelStr_cases a.level with hl | hl
        · exact ⟨_, hl⟩
        · exact ⟨_, hl⟩
      rw [accountLine_eq, hx] at ht
      obtain ⟨y, t', rfl⟩ := List.exists_cons_of_ne_nil hnil
      rw [List.singleton_append, List.cons_prefix_cons] at ht
      obtain ⟨rfl, ht⟩ := ht
      refine ⟨t', by rw [hx]; rfl, ?_⟩
      cases t' with
      | nil => exact ⟨Or.inl rfl, List.nil_prefix⟩
      | cons z t' =>
          rw [List.cons_prefix_cons] at ht
          obtain ⟨rfl, ht⟩ := ht
          exact ⟨Or.inr ⟨t', rfl⟩, ht⟩
    obtain ⟨attrBuf, hattr, hlevel⟩ := readField_level (blank .attr) a.level ht'
    rw [hattr, Option.bind_some] at hscan
    simp only [hlevel] at hscan
    split_ifs at hscan
    · cases hscan
      exact Or.inl rfl
    · obtain ⟨⟨nameBuf, q⟩, hname, hscan⟩ := Option.bind_eq_some_iff.1 hscan
      obtain ⟨hq, hnle, hneq⟩ :=
        readField_prefix (sep_not_mem (plain_name h.1)) (nul_not_mem (plain_name h.1)) hrest hname
      simp only at hscan
      split_ifs at hscan
      · cases hscan
        exact Or.inl rfl
      · obtain ⟨⟨pwdBuf, q'⟩, hpwd, hpush⟩ := Option.map_eq_some_iff.1 hscan
        obtain ⟨-, hple, hpeq⟩ :=
          readField_prefix (sep_not_mem (plain_password h.2))
            (nul_not_mem (plain_password h.2)) hq hpwd
        right
        exact ⟨cstr nameBuf, cstr pwdBuf, (congrArg Prod.fst hpush).symm, hnle, hneq, hple, hpeq⟩

/-- **Scanning a line that is not cut** pushes the account, at the level of root. -/
theorem accountScanLine_short {a : Account} (h : Checked a) (hname : a.name.length ≤ 15)
    (hpassword : a.password.length ≤ 15) (s : AccountState) :
    accountScanLine quiet.blank s (accountLine a) =
      some (accountPush s a.name a.password accountLevelRoot) := by
  obtain ⟨attrBuf, hattr, hlevel⟩ := readField_level (quiet.blank .attr) a.level
    (t := ',' :: (a.name ++ ',' :: (a.password ++ [',']))) (Or.inr ⟨_, rfl⟩)
  obtain ⟨t, ht⟩ := readField_plain (quiet.blank .str) (plain_name h.1) hname (fun _ => rfl)
    (a.password ++ [','])
  obtain ⟨u, hu⟩ := readField_plain (quiet.blank .password) (plain_password h.2) hpassword
    (fun _ => rfl) []
  unfold accountScanLine
  rw [accountLine_eq, if_neg (by simp), hattr, Option.bind_some]
  simp only [List.drop_succ_cons, List.drop_zero]
  rw [if_neg (by simp), ht, Option.bind_some]
  simp only
  rw [if_neg (by simp), hu, Option.map_some, hlevel,
    cstr_append_nul (nul_not_mem (plain_name h.1)),
    cstr_append_nul (nul_not_mem (plain_password h.2))]

/-! ## Loading a file -/

/-- Name, password and level: what is to come back. -/
def entry (a : Account) : List Char × List Char × ℕ := (a.name, a.password, a.level)

/-- The length of an entry; a lost one has none. -/
def weight (e : List Char × List Char × ℕ) : ℕ := e.1.length + e.2.1.length + 1

/-- Name and password are not cut by `sconf_read`. -/
def Short (a : Account) : Prop := a.name.length ≤ 15 ∧ a.password.length ≤ 15

instance (a : Account) : Decidable (Short a) := inferInstanceAs (Decidable (_ ∧ _))

/-- The scanner as the loader uses it. -/
abbrev scan (blank : FieldBuf → Bool) (s : AccountState) (line : List Char) : Option AccountState :=
  (accountScanLine blank s line).map Prod.fst

theorem pushedAccount_entry (name password : List Char) :
    entry (pushedAccount name password accountLevelRoot) =
      (name.take 31, password.take 127, accountLevelRoot) := by
  have hlevel : (accountFlagUsed ||| accountLevelRoot) &&& accountLevelMask =
    accountLevelRoot := by decide
  exact congrArg (fun level => (name.take 31, password.take 127, level)) hlevel

/-- One push, on entries. -/
theorem accountPush_entries (s : AccountState) (name password : List Char) :
    (accountPush s name password accountLevelRoot).1 = s ∨
      ((accountPush s name password accountLevelRoot).1.accounts.map entry).Perm
        ((name.take 31, password.take 127, accountLevelRoot) :: s.accounts.map entry) := by
  unfold accountPush
  cases hfree : firstFree Account.used s.table with
  | none => exact Or.inl rfl
  | some i =>
      right
      have hperm : (s.setAccount i (pushedAccount name password accountLevelRoot)).accounts.Perm
          (pushedAccount name password accountLevelRoot :: s.accounts) :=
        taken_update_perm_cons (firstFree_eq_some hfree) (pushedAccount_used name password .root)
      have hentries := hperm.map entry
      rwa [List.map_cons, pushedAccount_entry] at hentries

/-- One line of a file adds at most one entry, at the level of root and no heavier than the
account of the line, and lighter if that is not short. -/
theorem scanLine_spec {a : Account} (h : Checked a) {blank : FieldBuf → Bool} {s s' : AccountState}
    (hscan : scanLine (scan blank) s (accountLine a) = some s') :
    ∃ es : List (List Char × List Char × ℕ), (s'.accounts.map entry).Perm
    (es ++ s.accounts.map entry) ∧
      (∀ e ∈ es, e.2.2 = accountLevelRoot) ∧ (es.map weight).sum ≤ weight (entry a) ∧
      (¬ Short a → (es.map weight).sum < weight (entry a)) := by
  obtain ⟨buf, hbuf, hscan⟩ := Option.bind_eq_some_iff.1 hscan
  obtain ⟨⟨s'', ret⟩, hline, rfl⟩ := Option.map_eq_some_iff.1 hscan
  have hpre : cstr buf <+: accountLine a := by
    have hlen : (accountLine a).length < lineLen := by
      by_contra hge
      rw [bufferOf_eq_none (not_lt.1 hge)] at hbuf
      cases hbuf
    obtain ⟨buf', hbuf', hcstr⟩ := cstr_bufferOf _ (nul_not_mem_accountLine h) hlen
    rw [hbuf, Option.some.injEq] at hbuf'
    rw [hbuf', hcstr]
    exact List.take_prefix _ _
  have hnone : ∃ es : List (List Char × List Char × ℕ),
      (s.accounts.map entry).Perm (es ++ s.accounts.map entry) ∧
      (∀ e ∈ es, e.2.2 = accountLevelRoot) ∧ (es.map weight).sum ≤ weight (entry a) ∧
      (¬ Short a → (es.map weight).sum < weight (entry a)) :=
    ⟨[], List.Perm.refl _, by simp, Nat.zero_le _, fun _ => Nat.succ_pos _⟩
  rcases accountScanLine_prefix h hpre hline with rfl | ⟨n, p, rfl, hnle, hneq, hple, hpeq⟩
  · exact hnone
  · rcases accountPush_entries s n p with heq | hperm
    · rw [heq]
      exact hnone
    · refine ⟨[(n.take 31, p.take 127, accountLevelRoot)], hperm, ?_, ?_, ?_⟩
      · intro e he
        rw [List.mem_singleton.1 he]
      · simp only [List.map_cons, List.map_nil, List.sum_singleton, weight, entry, List.length_take]
        omega
      · intro hshort
        simp only [List.map_cons, List.map_nil, List.sum_singleton, weight, entry, List.length_take]
        unfold Short at hshort
        omega

/-- **What is loaded from the file of a list of accounts**: entries at the level of root, no
heavier than the accounts, and lighter if one of them is not short. -/
theorem accountLoad_spec (as : List Account) {blank : FieldBuf → Bool} :
    ∀ {s s' : AccountState}, (∀ a ∈ as, Checked a) →
      (as.map accountLine).foldlM (scanLine (scan blank)) s = some s' →
      ∃ es : List (List Char × List Char × ℕ),
      (s'.accounts.map entry).Perm (es ++ s.accounts.map entry) ∧
        (∀ e ∈ es, e.2.2 = accountLevelRoot) ∧
        (es.map weight).sum ≤ ((as.map entry).map weight).sum ∧
        ((∃ a ∈ as, ¬ Short a) → (es.map weight).sum < ((as.map entry).map weight).sum) := by
  induction as with
  | nil =>
      intro s s' _ hrun
      cases hrun
      exact ⟨[], List.Perm.refl _, by simp, le_refl _, by simp⟩
  | cons a as ih =>
      intro s s' hchecked hrun
      rw [List.map_cons, List.foldlM_cons, Option.bind_eq_bind, Option.bind_eq_some_iff] at hrun
      obtain ⟨s₁, hfirst, hrun⟩ := hrun
      obtain ⟨es, hperm, hroot, hle, hlt⟩ :=
        scanLine_spec (hchecked a (List.mem_cons_self ..)) hfirst
      obtain ⟨fs, hperm', hroot', hle', hlt'⟩ :=
        ih (fun b hb => hchecked b (List.mem_cons_of_mem _ hb)) hrun
      refine ⟨fs ++ es, ?_, ?_, ?_, ?_⟩
      · rw [List.append_assoc]
        exact hperm'.trans (hperm.append_left fs)
      · intro e he
        rcases List.mem_append.1 he with he | he
        · exact hroot' e he
        · exact hroot e he
      · simp only [List.map_append, List.sum_append, List.map_cons, List.sum_cons]
        omega
      · rintro ⟨b, hb, hshort⟩
        simp only [List.map_append, List.sum_append, List.map_cons, List.sum_cons]
        rcases List.mem_cons.1 hb with rfl | hb
        · have := hlt hshort
          omega
        · have := hlt' ⟨b, hb, hshort⟩
          omega

/-- **The file of short accounts** is loaded whole, at the level of root. -/
theorem accountLoad_short (as : List Account) :
    ∀ {s : AccountState} {k : ℕ}, (∀ a ∈ as, Checked a ∧ Short a) → Filled Account.used s.table k →
      k + as.length ≤ accountNr →
      ∃ s', (as.map accountLine).foldlM (scanLine (scan quiet.blank)) s = some s' ∧
        s'.accounts.map entry = s.accounts.map entry ++
          as.map fun a => (a.name, a.password, accountLevelRoot) := by
  induction as with
  | nil =>
      intro s k _ _ _
      exact ⟨s, rfl, by simp⟩
  | cons a as ih =>
      intro s k h hfilled hlen
      rw [List.length_cons] at hlen
      obtain ⟨hchecked, hname, hpassword⟩ := h a (List.mem_cons_self ..)
      obtain ⟨hfilled', htaken⟩ := hfilled.insert (by omega)
        (pushedAccount_used a.name a.password .root)
      obtain ⟨s', hrun, hentries⟩ := ih
        (s := s.setAccount ⟨k, by omega⟩ (pushedAccount a.name a.password Level.root.flags))
        (fun b hb => h b (List.mem_cons_of_mem _ hb)) hfilled' (by omega)
      have hline : scanLine (scan quiet.blank) s (accountLine a) =
          some (s.setAccount ⟨k, by omega⟩ (pushedAccount a.name a.password Level.root.flags)) := by
        have hlength := length_accountLine a
        rw [scanLine_short _ s (nul_not_mem_accountLine hchecked) (by simp only [lineLen]; omega)]
        unfold scan
        rw [accountScanLine_short hchecked hname hpassword, Option.map_some]
        unfold accountPush
        rw [hfilled.firstFree (by omega)]
        rfl
      refine ⟨s', ?_, ?_⟩
      · rw [List.map_cons, List.foldlM_cons, hline]
        exact hrun
      · have hpushed : entry (pushedAccount a.name a.password Level.root.flags) =
            (a.name, a.password, accountLevelRoot) := by
          have h1 : a.name.take 31 = a.name := List.take_of_length_le (by omega)
          have h2 : a.password.take 127 = a.password := List.take_of_length_le (by omega)
          have hpush := pushedAccount_entry a.name a.password
          rwa [h1, h2] at hpush
        have haccounts : (s.setAccount ⟨k, by omega⟩
            (pushedAccount a.name a.password Level.root.flags)).accounts =
              s.accounts ++ [pushedAccount a.name a.password Level.root.flags] := htaken
        rw [hentries, haccounts, List.map_append, List.append_assoc, List.map_singleton, hpushed]
        rfl

/-! ## Main results -/

/-- The tables with no account. -/
def emptyAccounts (s : AccountState) : AccountState :=
  { table := fun _ => accountInit, current := none, db := s.db }

theorem emptyAccounts_filled (s : AccountState) :
    Filled Account.used (emptyAccounts s).table 0 := by
  intro i
  have hfree : accountInit.used = false := by decide
  rw [show (emptyAccounts s).table i = accountInit from rfl, hfree]
  simp

theorem emptyAccounts_accounts (s : AccountState) : (emptyAccounts s).accounts = [] := by
  apply List.eq_nil_iff_forall_not_mem.2
  intro a ha
  obtain ⟨i, hused, -⟩ := mem_accounts.1 ha
  rw [emptyAccounts_filled s i] at hused
  simp at hused

/-- The accounts come back from the file, as a multiset of name, password and level. -/
def RoundTrip (env : Surroundings) (s : AccountState) : Prop :=
  ∃ s' ret n, accountLoadFromFile env (emptyAccounts s) (accountSyncData s) = some (s', ret, n) ∧
    (s'.accounts.map entry).Perm (s.accounts.map entry)

/-- The accounts come back, and the loader looks at bytes of the file only. -/
def RoundTripInside (env : Surroundings) (s : AccountState) : Prop :=
  ∃ s' ret n, accountLoadFromFile env (emptyAccounts s) (accountSyncData s) = some (s', ret, n) ∧
    (s'.accounts.map entry).Perm (s.accounts.map entry) ∧ n ≤ (accountSyncData s).length

theorem accountSyncData_eq_nil_iff (s : AccountState) :
    accountSyncData s = [] ↔ s.accounts = [] := by
  unfold accountSyncData
  cases hs : s.accounts with
  | nil => simp
  | cons a as =>
      rw [List.flatMap_cons, accountBuildFileBuf, sconfWriteline]
      simp

/-- A loader that reads the file at all reads past it. -/
theorem roundTripInside_iff (env : Surroundings) (s : AccountState) :
    RoundTripInside env s ↔ s.accounts = [] := by
  constructor
  · rintro ⟨s', ret, n, hload, -, hn⟩
    by_contra hne
    rw [← accountSyncData_eq_nil_iff] at hne
    unfold accountLoadFromFile at hload
    rw [if_neg hne] at hload
    obtain ⟨r, hr, heq⟩ := Option.map_eq_some_iff.1 hload
    have hcount := loadLoop_inspected _ (by rw [List.length_append]; omega) hr
    rw [Prod.mk.injEq, Prod.mk.injEq] at heq
    rw [List.length_append] at hcount
    omega
  · intro hnil
    have hfile := (accountSyncData_eq_nil_iff s).2 hnil
    refine ⟨emptyAccounts s, -1, 0, ?_, ?_, Nat.zero_le _⟩
    · unfold accountLoadFromFile
      rw [if_pos hfile]
    · rw [emptyAccounts_accounts, hnil]

/-- When a zero follows the file, loading is scanning its lines. -/
theorem accountLoadFromFile_quiet {s : AccountState} (h : ∀ a ∈ s.accounts, Checked a)
    (hne : s.accounts ≠ []) :
    accountLoadFromFile quiet (emptyAccounts s) (accountSyncData s) =
      ((s.accounts.map accountLine).foldlM (scanLine (scan quiet.blank)) (emptyAccounts s)).map
      fun t =>
        (t, 0, (accountSyncData s).length + 1) := by
  have hlines : ∀ l ∈ s.accounts.map accountLine, IsLine l := by
    intro l hl
    obtain ⟨a, ha, rfl⟩ := List.mem_map.1 hl
    exact isLine_accountLine (h a ha)
  unfold accountLoadFromFile
  rw [if_neg (fun hnil => hne ((accountSyncData_eq_nil_iff s).1 hnil)),
    show quiet.after = [] from rfl, List.append_nil,
    accountSyncData_eq]
  have hloop := loadLoop_lines (scan quiet.blank) (s.accounts.map accountLine)
    ((fileOf (s.accounts.map accountLine)).length + ([] : List Char).length + 1)
    (emptyAccounts s) hlines
    (by simp)
  rw [hloop, Option.map_map]
  rfl

theorem roundTrip_quiet_iff {s : AccountState} (h : ∀ a ∈ s.accounts, Checked a) :
    RoundTrip quiet s ↔ ∀ a ∈ s.accounts, a.level = accountLevelRoot ∧ Short a := by
  by_cases hne : s.accounts = []
  · obtain ⟨s', ret, n, hload, hperm, -⟩ := (roundTripInside_iff quiet s).2 hne
    refine iff_of_true ⟨s', ret, n, hload, hperm⟩ ?_
    rw [hne]
    simp
  · constructor
    · rintro ⟨s', ret, n, hload, hperm⟩
      rw [accountLoadFromFile_quiet h hne] at hload
      obtain ⟨t, hrun, heq⟩ := Option.map_eq_some_iff.1 hload
      rw [Prod.mk.injEq] at heq
      obtain ⟨rfl, -⟩ := heq
      obtain ⟨es, hes, hroot, -, hlt⟩ := accountLoad_spec s.accounts h hrun
      rw [emptyAccounts_accounts, List.map_nil, List.append_nil] at hes
      have hsame : es.Perm (s.accounts.map entry) := hes.symm.trans hperm
      intro a ha
      constructor
      · exact hroot _ (hsame.mem_iff.2 (List.mem_map_of_mem ha))
      · by_contra hshort
        have hless := hlt ⟨a, ha, hshort⟩
        rw [(hsame.map weight).sum_eq] at hless
        exact lt_irrefl _ hless
    · intro hall
      obtain ⟨t, hrun, hentries⟩ := accountLoad_short s.accounts (s := emptyAccounts s) (k := 0)
        (fun a ha => ⟨h a ha, (hall a ha).2⟩) (emptyAccounts_filled s)
        (by rw [Nat.zero_add]; exact length_taken_le _ _)
      refine ⟨t, 0, (accountSyncData s).length + 1, ?_, ?_⟩
      · rw [accountLoadFromFile_quiet h hne, hrun]
        rfl
      · rw [hentries, emptyAccounts_accounts, List.map_nil, List.nil_append]
        apply List.Perm.of_eq
        apply List.map_congr_left
        intro a ha
        rw [entry, (hall a ha).1]

/-- **Which account tables come back from their file.**  With the loader looking at the file
only: those without accounts, whatever surrounds the buffers.  When a zero happens to follow the
file: those whose accounts are all root accounts with names and passwords of at most 15
characters. -/
theorem accountFile_roundTrip_iff {s : AccountState} (h : ∀ a ∈ s.accounts, Checked a) :
    (∀ env, RoundTripInside env s ↔ s.accounts = []) ∧
      (RoundTrip quiet s ↔ ∀ a ∈ s.accounts, a.level = accountLevelRoot ∧ Short a) :=
  ⟨fun env => roundTripInside_iff env s, roundTrip_quiet_iff h⟩

/-- The tables after the first boot. -/
theorem accountFile_roundTrip_boot :
    (∀ env, RoundTripInside env bootState ↔ bootState.accounts = []) ∧
      (RoundTrip quiet bootState ↔
        ∀ a ∈ bootState.accounts, a.level = accountLevelRoot ∧ Short a) := by
  apply accountFile_roundTrip_iff
  rw [bootState_accounts]
  intro a ha
  rw [List.mem_singleton.1 ha]
  exact ⟨by decide, by decide⟩

/-- **Users come back as root accounts**, even when a zero follows the file. -/
theorem accountFile_users :
    ¬ ∀ s : AccountState, (∀ a ∈ s.accounts, Checked a) → RoundTrip quiet s := by
  intro hall
  have haccounts : bobState.accounts = [rootAccount, userAccount ['b', 'o', 'b'] (by decide),
      userAccount ['b', 'o', 'b', 'b', 'y'] (by decide)] := rfl
  have hchecked : ∀ a ∈ bobState.accounts, Checked a := by
    rw [haccounts]
    intro a ha
    simp only [List.mem_cons, List.not_mem_nil, or_false] at ha
    rcases ha with rfl | rfl | rfl <;> exact ⟨by decide, by decide⟩
  have hback := (roundTrip_quiet_iff hchecked).1 (hall bobState hchecked)
    (userAccount ['b', 'o', 'b'] (by decide)) (by rw [haccounts]; simp)
  exact absurd hback.1 (by decide)

end Acct
end LightOS
