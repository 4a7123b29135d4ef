import LightOS.Acct.Permission
import LightOS.Acct.Sconf

/-!
# The permission file

`permission_database_sync` writes a line of five letters and the string for every entry,
`permission_scan_insert` reads the lines back into the database.  The letters stand for the type
and four flags; other bits of the attribute word are not written.  A string of more than 15
characters is cut by `sconf_read`, and as for the account file the loader goes on into what
follows the buffer of the file.

* `scanAttr_attrLetters` — the letters give back the bits they stand for.
* `permissionLoad_spec` — what is loaded from the file of a list of entries.
* `permissionFile_roundTrip_iff` — the databases that come back.
-/

namespace LightOS
namespace Acct

open Slots Sconf

/-! ## Writing -/

/-- The letter of a type. -/
def typeLetter (attr : ℕ) : Char :=
  if attr &&& permisionAttrDevice ≠ 0 then '0'
  else if attr &&& permisionAttrFile ≠ 0 then '1'
  else if attr &&& permisionAttrFifo ≠ 0 then '2'
  else '-'

/-- The letter of a flag. -/
def flagLetter (attr mask : ℕ) (letter : Char) : Char := if attr &&& mask ≠ 0 then letter else '-'

/-- The letters of an attribute word. -/
def attrLetters (attr : ℕ) : List Char :=
  [typeLetter attr, flagLetter attr permisionAttrRead 'R', flagLetter attr permisionAttrWrite 'W',
    flagLetter attr permisionAttrExec 'X', flagLetter attr permisionAttrHome 'H']

/-- The line of an entry, up to the line break. -/
def permissionLine (d : PermissionData) : List Char :=
  sconfWrite (sconfWrite [] (attrLetters d.attr)) d.str

/-- `permission_data_to_buf`. -/
def permissionDataToBuf (d : PermissionData) : List Char := sconfWriteline (permissionLine d)

/-- `permission_database_sync`: what is in the file afterwards, when it can be opened and written.
-/
def permissionDatabaseSync (db : PermissionDatabase) : List Char :=
  db.entries.flatMap permissionDataToBuf

/-! ## Reading -/

/-- The type a letter stands for. -/
def scanType (c : Char) : ℕ :=
  if c = '0' then permisionAttrDevice
  else if c = '1' then permisionAttrFile
  else if c = '2' then permisionAttrFifo
  else 0

/-- The flag a letter stands for. -/
def scanFlag (c letter : Char) (mask : ℕ) : ℕ := if c = letter then mask else 0

/-- The attribute word of the five bytes at the front of a buffer. -/
def scanAttr (buf : List Char) : ℕ :=
  scanType (buf.getD 0 nul) ||| scanFlag (buf.getD 1 nul) 'R' permisionAttrRead |||
    scanFlag (buf.getD 2 nul) 'W' permisionAttrWrite |||
      scanFlag (buf.getD 3 nul) 'X' permisionAttrExec |||
      scanFlag (buf.getD 4 nul) 'H' permisionAttrHome

/-- `permission_scan_line`. -/
def permissionScanLine (blank : FieldBuf → Bool) (db : PermissionDatabase) (line : List Char) :
    Option (PermissionDatabase × ℤ) :=
  if line = [] then some (db, -1)
  else
    (readField (blank .attr) line 32).bind fun (attrBuf, q) =>
      if q = [] then some (db, -1)
      else
        (readField (blank .str) q 32).bind fun (dataBuf, _) =>
          (permissionDatabaseInsert db (scanAttr attrBuf) (cstr dataBuf)).map fun r =>
            (r.1, if 0 ≤ r.2 then 0 else -1)

/-- `permission_scan_insert`.  An empty file is refused before it is read; a line that cannot be
inserted is passed over. -/
def permissionScanInsert (env : Surroundings) (db : PermissionDatabase) (file : List Char) :
    Option (PermissionDatabase × ℤ) :=
  if file = [] then some (db, -1)
  else
    (loadLoop (fun db line => (permissionScanLine env.blank db line).map Prod.fst)
      (file.length + env.after.length + 1) (file ++ env.after) db).map fun r => (r.1, 0)

/-! ## The letters -/

/-- The bits that have a letter. -/
abbrev lettered : ℕ := 0xf0007

theorem scanFlag_flagLetter (attr i : ℕ) (letter : Char) (h : letter ≠ '-') :
    scanFlag (flagLetter attr (2 ^ i) letter) letter (2 ^ i) = attr &&& 2 ^ i := by
  unfold scanFlag flagLetter
  rw [Nat.and_two_pow]
  cases attr.testBit i with
  | false => simp [h.symm]
  | true => simp

/-- A type bit alone: device, file or FIFO. -/
def OneType (attr : ℕ) : Prop := attr &&& 7 = 1 ∨ attr &&& 7 = 2 ∨ attr &&& 7 = 4

instance (attr : ℕ) : Decidable (OneType attr) := inferInstanceAs (Decidable (_ ∨ _))

theorem scanType_typeLetter {attr : ℕ} (h : OneType attr) :
    scanType (typeLetter attr) = attr &&& 7 := by
  have hbit : ∀ m : ℕ, 7 &&& m = m → attr &&& m = (attr &&& 7) &&& m := by
    intro m hm
    rw [Nat.and_assoc, hm]
  unfold typeLetter
  rw [hbit permisionAttrDevice (by decide), hbit permisionAttrFile (by decide),
    hbit permisionAttrFifo (by decide)]
  rcases h with h | h | h <;> rw [h] <;> decide

/-- **The letters give back the bits they stand for.** -/
theorem scanAttr_attrLetters {attr : ℕ} (h : OneType attr) (t : List Char) :
    scanAttr (attrLetters attr ++ t) = attr &&& lettered := by
  have hread := scanFlag_flagLetter attr 16 'R' (by decide)
  have hwrite := scanFlag_flagLetter attr 17 'W' (by decide)
  have hexec := scanFlag_flagLetter attr 18 'X' (by decide)
  have hhome := scanFlag_flagLetter attr 19 'H' (by decide)
  have hbits : lettered = 7 ||| 2 ^ 16 ||| 2 ^ 17 ||| 2 ^ 18 ||| 2 ^ 19 := by decide
  rw [hbits, Nat.and_or_distrib_left, Nat.and_or_distrib_left, Nat.and_or_distrib_left,
    Nat.and_or_distrib_left, ← hread, ← hwrite, ← hexec, ← hhome, ← scanType_typeLetter h]
  rfl

/-! ## Lines -/

/-- The entry can be written on a line of its own: one type bit, and a string that is not empty
and has no separators, line breaks or blanks around it. -/
structure Writable (d : PermissionData) : Prop where
  one_type : OneType d.attr
  str_ne : d.str ≠ []
  sep : ',' ∉ d.str
  no_nul : nul ∉ d.str
  no_break : IsLine d.str
  first : ∀ c ∈ d.str.head?, isspace c = false
  last : ∀ c ∈ d.str.getLast?, isspace c = false

theorem plain_attrLetters (attr : ℕ) : ∀ c ∈ attrLetters attr, Plain c := by
  have hflag : ∀ (mask : ℕ) {letter : Char}, Plain letter →
      Plain (flagLetter attr mask letter) := by
    intro mask letter hletter
    unfold flagLetter
    split_ifs
    · exact hletter
    · decide
  have htype : Plain (typeLetter attr) := by
    unfold typeLetter
    split_ifs <;> decide
  intro c hc
  simp only [attrLetters, List.mem_cons, List.not_mem_nil, or_false] at hc
  rcases hc with rfl | rfl | rfl | rfl | rfl
  · exact htype
  · exact hflag _ (by decide)
  · exact hflag _ (by decide)
  · exact hflag _ (by decide)
  · exact hflag _ (by decide)

theorem permissionLine_eq (d : PermissionData) :
    permissionLine d = attrLetters d.attr ++ ',' :: (d.str ++ [',']) := by
  unfold permissionLine sconfWrite
  simp

theorem permissionDatabaseSync_eq (db : PermissionDatabase) :
    permissionDatabaseSync db = fileOf (db.entries.map permissionLine) := by
  unfold permissionDatabaseSync fileOf
  rw [List.flatMap_map]
  rfl

theorem permissionDatabaseSync_eq_nil_iff (db : PermissionDatabase) :
    permissionDatabaseSync db = [] ↔ db.entries = [] := by
  unfold permissionDatabaseSync
  cases hs : db.entries with
  | nil => simp
  | cons d ds =>
      rw [List.flatMap_cons, permissionDataToBuf, sconfWriteline]
      simp

/-- What comes back of an entry: the bits with letters, and a string that is shorter than it was
unless it was short. -/
structure ReadBack (d e : PermissionData) : Prop where
  attr : e.attr = d.attr &&& lettered
  short : d.str.length ≤ 15 → e.str = d.str
  long : 15 < d.str.length → e.str.length < d.str.length

section Writable

variable {d : PermissionData} (h : Writable d)

include h

theorem Writable.isLine : IsLine (permissionLine d) := by
  intro c hc
  rw [permissionLine_eq] at hc
  simp only [List.mem_append, List.mem_cons, List.not_mem_nil, or_false] at hc
  rcases hc with hc | rfl | hc | rfl
  · exact (plain_attrLetters _ c hc).2.2.2
  · decide
  · exact h.no_break c hc
  · decide

theorem Writable.nul_not_mem_line : nul ∉ permissionLine d := by
  rw [permissionLine_eq]
  simp only [List.mem_append, List.mem_cons, List.not_mem_nil, or_false]
  rintro (hc | hc | hc | hc)
  · exact nul_not_mem (plain_attrLetters _) hc
  · exact absurd hc (by decide)
  · exact h.no_nul hc
  · exact absurd hc (by decide)

omit h in
/-- Lines are shorter than half of the buffer. -/
theorem length_permissionLine (d : PermissionData) : 2 * (permissionLine d).length < lineLen := by
  have hlen : (permissionLine d).length = d.str.length + 7 := by
    rw [permissionLine_eq, attrLetters]
    simp
  have hfits := d.fits
  simp only [permisionStrLen, lineLen] at *
  omega

/-- **Scanning the line of an entry** inserts what comes back of it. -/
theorem Writable.scanLine_spec (db : PermissionDatabase) :
    ∃ e, ReadBack d e ∧ permissionScanLine quiet.blank db (permissionLine d) =
      (permissionDatabaseInsert db e.attr e.str).map fun r => (r.1, if 0 ≤ r.2 then 0 else -1) := by
  obtain ⟨t, ht⟩ := readField_plain (quiet.blank .attr) (plain_attrLetters d.attr)
    (by simp [attrLetters]) (fun _ => rfl) (d.str ++ [','])
  have hattr := scanAttr_attrLetters h.one_type (nul :: t)
  have hfits := d.fits
  obtain ⟨buf, hbuf⟩ : ∃ buf, readField (quiet.blank .str) (d.str ++ [',']) 32 = some (buf, []) :=
    readField_false h.sep hfits []
  obtain ⟨-, hle, heq⟩ := readField_prefix h.sep h.no_nul (List.prefix_refl _) hbuf
  have hshort : d.str.length ≤ 15 → cstr buf = d.str := by
    intro hlen
    obtain ⟨u, hu⟩ := readField_self (quiet.blank .str) h.sep h.no_nul h.first h.last
      (fun _ => rfl) hlen []
    rw [hbuf, Option.some.injEq, Prod.mk.injEq] at hu
    rw [hu.1]
    exact cstr_append_nul h.no_nul u
  refine ⟨⟨d.attr &&& lettered, cstr buf, hle.trans_lt hfits⟩, ⟨rfl, hshort, ?_⟩, ?_⟩
  · intro hlong
    apply lt_of_le_of_ne hle
    intro hsame
    have := heq hsame
    omega
  · unfold permissionScanLine
    rw [permissionLine_eq, if_neg (by simp [attrLetters]), ht, Option.bind_some]
    simp only
    rw [if_neg (by simp [h.str_ne]), hbuf, Option.bind_some]
    simp only [hattr]

/-- The type comes back, so the slot is taken. -/
theorem Writable.readBack_taken {e : PermissionData} (hback : ReadBack d e) : e.taken = true := by
  have htype : e.attr &&& 7 = d.attr &&& 7 := by
    rw [hback.attr, Nat.and_assoc, show lettered &&& 7 = 7 by decide]
  have hne : e.attr ≠ 0 := by
    intro hzero
    rw [hzero, Nat.zero_and] at htype
    rcases h.one_type with hd | hd | hd <;> rw [hd] at htype <;> cases htype
  exact decide_eq_true hne

end Writable

/-! ## Loading a file -/

/-- The database with no entry. -/
def emptyDatabase : PermissionDatabase := { length := 0, datasets := fun _ => emptyData }

theorem emptyDatabase_filled : Filled PermissionData.taken emptyDatabase.datasets 0 := by
  intro i
  rw [show emptyDatabase.datasets i = emptyData from rfl, emptyData_taken]
  simp

theorem emptyDatabase_entries : emptyDatabase.entries = [] := by
  apply List.eq_nil_iff_forall_not_mem.2
  intro d hd
  obtain ⟨i, htaken, -⟩ := mem_entries.1 hd
  rw [emptyDatabase_filled i] at htaken
  simp at htaken

/-- The scanner as the loader uses it. -/
abbrev permissionScan (blank : FieldBuf → Bool) (db : PermissionDatabase) (line : List Char) :
    Option PermissionDatabase :=
  (permissionScanLine blank db line).map Prod.fst

/-- **What is loaded from the file of a list of entries**: what comes back of each, in order. -/
theorem permissionLoad_spec (ds : List PermissionData) :
    ∀ (db : PermissionDatabase) (k : ℕ), (∀ d ∈ ds, Writable d) → db.length = k →
      Filled PermissionData.taken db.datasets k → k + ds.length ≤ permisionDatabaseLen →
      ∃ db' es, (ds.map permissionLine).foldlM (scanLine (permissionScan quiet.blank)) db =
        some db' ∧
        db'.entries = db.entries ++ es ∧ List.Forall₂ ReadBack ds es := by
  induction ds with
  | nil =>
      intro db k _ _ _ _
      exact ⟨db, [], rfl, (List.append_nil _).symm, List.Forall₂.nil⟩
  | cons d ds ih =>
      intro db k hds hlength hfilled hroom
      rw [List.length_cons] at hroom
      have hd := hds d (List.mem_cons_self ..)
      obtain ⟨e, hback, hscan⟩ := hd.scanLine_spec db
      have hk : k < permisionDatabaseLen := by omega
      obtain ⟨hfilled', htaken⟩ := hfilled.insert hk (hd.readBack_taken hback)
      have hlt : db.length < permisionDatabaseLen := by rwa [hlength]
      have hinsert : permissionDatabaseInsert db e.attr e.str = some
          ({ length := db.length + 1, datasets := Function.update db.datasets ⟨k, hk⟩ e },
            (k : ℤ)) := by
        unfold permissionDatabaseInsert permissionDatabaseFreesolt permissionDataInit
        rw [if_neg (not_le.2 hlt), hfilled.firstFree hk]
        simp only [dif_pos e.fits, Option.map_some]
        rw [add32_of_lt (by simp only [permisionDatabaseLen] at hlt; omega)]
      have hline : scanLine (permissionScan quiet.blank) db (permissionLine d) =
          some { length := db.length + 1, datasets := Function.update db.datasets ⟨k, hk⟩ e } := by
        rw [scanLine_short _ db hd.nul_not_mem_line (length_permissionLine d)]
        unfold permissionScan
        rw [hscan, hinsert]
        rfl
      obtain ⟨db', es, hrun, hentries, hall⟩ := ih
        { length := db.length + 1, datasets := Function.update db.datasets ⟨k, hk⟩ e } (k + 1)
        (fun d' hd' => hds d' (List.mem_cons_of_mem _ hd')) (by rw [hlength]) hfilled' (by omega)
      refine ⟨db', e :: es, ?_, ?_, List.Forall₂.cons hback hall⟩
      · rw [List.map_cons, List.foldlM_cons, hline]
        exact hrun
      · rw [hentries, show PermissionDatabase.entries
          { length := db.length + 1, datasets := Function.update db.datasets ⟨k, hk⟩ e } =
            db.entries ++ [e] from htaken, List.append_assoc]
        rfl

/-- Entries that come back as they are: short strings, and no bits without a letter. -/
theorem readBack_self_iff {d : PermissionData} :
    ReadBack d d ↔ d.str.length ≤ 15 ∧ d.attr &&& lettered = d.attr := by
  constructor
  · intro hback
    refine ⟨?_, hback.attr.symm⟩
    by_contra hlong
    exact lt_irrefl _ (hback.long (not_le.1 hlong))
  · rintro ⟨hshort, hattr⟩
    exact ⟨hattr.symm, fun _ => rfl, fun hlong => absurd hshort (not_le.2 hlong)⟩

theorem ReadBack.eq_of_self {d e : PermissionData} (hback : ReadBack d e) (hself : ReadBack d d) :
    e = d := by
  have hattr : e.attr = d.attr := hback.attr.trans hself.attr.symm
  have hstr : e.str = d.str := hback.short (readBack_self_iff.1 hself).1
  cases d
  cases e
  cases hattr
  cases hstr
  rfl

/-! ## Main results -/

/-- The entries come back from the file, in order. -/
def FileRoundTrip (env : Surroundings) (db : PermissionDatabase) : Prop :=
  ∃ db' ret, permissionScanInsert env emptyDatabase (permissionDatabaseSync db) = some (db', ret) ∧
    db'.entries = db.entries

section RoundTrip

variable {db : PermissionDatabase} (h : ∀ d ∈ db.entries, Writable d)

theorem fileRoundTrip_of_nil (env : Surroundings) (hnil : db.entries = []) :
    FileRoundTrip env db := by
  refine ⟨emptyDatabase, -1, ?_, ?_⟩
  · unfold permissionScanInsert
    rw [if_pos ((permissionDatabaseSync_eq_nil_iff db).2 hnil)]
  · rw [emptyDatabase_entries, hnil]

include h

theorem isLine_lines : ∀ l ∈ db.entries.map permissionLine, IsLine l := by
  intro l hl
  obtain ⟨d, hd, rfl⟩ := List.mem_map.1 hl
  exact (h d hd).isLine

theorem fileRoundTrip_quiet_iff :
    FileRoundTrip quiet db ↔ ∀ d ∈ db.entries, d.str.length ≤ 15 ∧
      d.attr &&& lettered = d.attr := by
  by_cases hne : db.entries = []
  · apply iff_of_true (fileRoundTrip_of_nil quiet hne)
    rw [hne]
    simp
  · obtain ⟨db', es, hrun, hentries, hall⟩ := permissionLoad_spec db.entries emptyDatabase 0 h rfl
      emptyDatabase_filled (by rw [Nat.zero_add]; exact length_taken_le _ _)
    rw [emptyDatabase_entries, List.nil_append] at hentries
    have hload : permissionScanInsert quiet emptyDatabase (permissionDatabaseSync db) =
        some (db', 0) := by
      have hloop := loadLoop_lines (permissionScan quiet.blank) (db.entries.map permissionLine)
        ((permissionDatabaseSync db).length + ([] : List Char).length + 1) emptyDatabase
        (isLine_lines h) (by rw [permissionDatabaseSync_eq]; simp)
      unfold permissionScanInsert
      rw [if_neg fun hnil => hne ((permissionDatabaseSync_eq_nil_iff db).1 hnil),
        show quiet.after = [] from rfl, List.append_nil,
        permissionDatabaseSync_eq] at *
      rw [hloop, hrun]
      rfl
    constructor
    · rintro ⟨db'', ret, hload', hsame⟩ d hd
      rw [hload, Option.some.injEq, Prod.mk.injEq] at hload'
      obtain ⟨rfl, -⟩ := hload'
      rw [← hentries, hsame] at hall
      exact readBack_self_iff.1 (List.forall₂_same.1 hall d hd)
    · intro hgood
      refine ⟨db', 0, hload, ?_⟩
      rw [hentries]
      apply List.ext_getElem hall.length_eq.symm
      intro i hi hi'
      have hback := List.Forall₂.get hall hi' hi
      exact hback.eq_of_self (readBack_self_iff.2 (hgood _ (List.getElem_mem hi')))

/-- Where something long follows the buffer, reading runs past a line buffer. -/
theorem fileRoundTrip_any_iff : (∀ env, FileRoundTrip env db) ↔ db.entries = [] := by
  constructor
  · intro hall
    by_contra hne
    have hnul : nul ∉ List.replicate lineLen 'a' := by
      rw [List.mem_replicate]
      rintro ⟨-, heq⟩
      cases heq
    obtain ⟨db', ret, hload, -⟩ := hall ⟨List.replicate lineLen 'a', hnul, quiet.blank⟩
    have hlong : IsLine (List.replicate lineLen 'a') := by
      intro c hc
      rw [(List.mem_replicate.1 hc).2]
      decide
    unfold permissionScanInsert at hload
    rw [if_neg fun hnil => hne ((permissionDatabaseSync_eq_nil_iff db).1 hnil)] at hload
    obtain ⟨r, hr, -⟩ := Option.map_eq_some_iff.1 hload
    have hle := length_le_fileOf (db.entries.map permissionLine)
    rw [permissionDatabaseSync_eq] at hr
    rw [loadLoop_append _ _ _ _ _ (isLine_lines h) (by omega)] at hr
    obtain ⟨t, -, hr⟩ := Option.bind_eq_some_iff.1 hr
    obtain ⟨r', hr', -⟩ := Option.map_eq_some_iff.1 hr
    obtain ⟨k, hk⟩ : ∃ k, (fileOf (db.entries.map permissionLine)).length +
        (List.replicate lineLen 'a').length + 1 - (db.entries.map permissionLine).length = k + 1 :=
      ⟨_, (Nat.sub_add_cancel (by omega)).symm⟩
    rw [hk, loadLoop_long hlong (by rw [List.length_replicate])] at hr'
    cases hr'
  · intro hnil env
    exact fileRoundTrip_of_nil env hnil

end RoundTrip

/-- The databases built by inserting and deleting. -/
inductive Built : PermissionDatabase → Prop
  | empty : Built emptyDatabase
  | insert {db db' : PermissionDatabase} {ret : ℤ} (attr : ℕ) (str : List Char) :
      Built db → permissionDatabaseInsert db attr str = some (db', ret) → Built db'
  | delete {db : PermissionDatabase} (index : ℕ) :
      Built db → Built (permissionDatabaseDelete db index).1
  | deleteByData {db : PermissionDatabase} (str : List Char) :
      Built db → Built (permissionDatabaseDeleteByData db str).1

/-- **Which databases come back from their file.**  Whatever follows the buffer of the file: only
those without entries.  When a zero happens to follow it: those whose strings have at most 15
characters and whose attributes have no bits but the type and the four flags. -/
theorem permissionFile_roundTrip_iff {db : PermissionDatabase} (h : ∀ d ∈ db.entries, Writable d) :
    ((∀ env, FileRoundTrip env db) ↔ db.entries = []) ∧
      (FileRoundTrip quiet db ↔ ∀ d ∈ db.entries, d.str.length ≤ 15 ∧
        d.attr &&& lettered = d.attr) :=
  ⟨fileRoundTrip_any_iff h, fileRoundTrip_quiet_iff h⟩

/-- A file below a home directory, with a name of 17 characters. -/
def homeFile : PermissionData :=
  ⟨permisionAttrFile, ['/', 'h', 'o', 'm', 'e', '/', 'a', 'b', 'c', 'd', 'e', 'f', 'g', 'h', 'i',
    'j', 'k'], by decide⟩

/-- The database with that entry. -/
def homeFileDatabase : PermissionDatabase :=
  { length := 1, datasets := Function.update (fun _ => emptyData) ⟨0, by decide⟩ homeFile }

theorem homeFileDatabase_entries : homeFileDatabase.entries = [homeFile] := rfl

theorem homeFileDatabase_writable : ∀ d ∈ homeFileDatabase.entries, Writable d := by
  rw [homeFileDatabase_entries]
  intro d hd
  rw [List.mem_singleton.1 hd]
  have hplain : ∀ c ∈ homeFile.str, Plain c := by
    intro c hc
    have hall : homeFile.str.all (fun c => decide (Plain c)) = true := rfl
    exact of_decide_eq_true (List.all_eq_true.1 hall c hc)
  exact {
    one_type := by decide
    str_ne := by decide
    sep := sep_not_mem hplain
    no_nul := nul_not_mem hplain
    no_break := fun c hc => (hplain c hc).2.2.2
    first := fun c hc => (hplain c (List.mem_of_mem_head? hc)).2.2.1
    last := fun c hc => (hplain c (List.mem_of_mem_getLast? hc)).2.2.1 }

theorem permissionFile_roundTrip_home :
    ((∀ env, FileRoundTrip env homeFileDatabase) ↔ homeFileDatabase.entries = []) ∧
      (FileRoundTrip quiet homeFileDatabase ↔
        ∀ d ∈ homeFileDatabase.entries, d.str.length ≤ 15 ∧ d.attr &&& lettered = d.attr) :=
  permissionFile_roundTrip_iff homeFileDatabase_writable

/-- **A long string comes back shorter**, even when a zero follows the file. -/
theorem permissionFile_long_string :
    ¬ ∀ db, Built db → (∀ d ∈ db.entries, Writable d) → FileRoundTrip quiet db := by
  intro hall
  have hbuilt : Built homeFileDatabase := Built.insert homeFile.attr homeFile.str Built.empty
    (show permissionDatabaseInsert emptyDatabase homeFile.attr homeFile.str =
      some (homeFileDatabase, 0) from rfl)
  have hback := hall homeFileDatabase hbuilt homeFileDatabase_writable
  have hshort := (fileRoundTrip_quiet_iff homeFileDatabase_writable).1 hback homeFile
    (by rw [homeFileDatabase_entries]; exact List.mem_singleton_self _)
  exact absurd hshort.1 (by decide)

end Acct
end LightOS
