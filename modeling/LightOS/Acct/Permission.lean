import LightOS.Acct.Basic
import LightOS.Lib.Slots
import LightOS.Mm.Params

/-!
# The permission database

`kernel/permission.c`: entries are put into the first free slot, and taken out by index or by
string.  The counter `length` is kept next to the table, and `strcpy` fills the string field
without looking at its size; a call that writes past the field returns `none`.

* `permissionDatabaseInsert_spec`, `permissionDatabaseDelete_insert` — an insertion, and taking
  it back.
* `permissionDatabaseDeleteByData_spec` — the entry of a string is taken out.
-/

namespace LightOS
namespace Acct

open Slots

/-! ## The calls -/

/-- The slot holds an entry. -/
def PermissionData.taken (d : PermissionData) : Bool := d.attr ≠ 0

/-- The entries of the database, in the order of their slots. -/
def PermissionDatabase.entries (db : PermissionDatabase) : List PermissionData :=
  Slots.taken PermissionData.taken db.datasets

/-- `permission_data_init` of a string; `none` if the string runs past the field. -/
def permissionDataInit (attr : ℕ) (str : List Char) : Option PermissionData :=
  if h : str.length < permisionStrLen then some ⟨attr, str, h⟩ else none

/-- `permission_database_freesolt`. -/
def permissionDatabaseFreesolt (db : PermissionDatabase) : Option (Fin permisionDatabaseLen) :=
  firstFree PermissionData.taken db.datasets

/-- `permission_database_insert`: the slot, or -1. -/
def permissionDatabaseInsert (db : PermissionDatabase) (attr : ℕ) (str : List Char) :
    Option (PermissionDatabase × ℤ) :=
  if permisionDatabaseLen ≤ db.length then some (db, -1)
  else
    match permissionDatabaseFreesolt db with
    | none => some (db, -1)
    | some solt =>
        (permissionDataInit attr str).map fun data =>
          ({ length := add32 db.length 1, datasets := Function.update db.datasets solt data },
            solt.val)

/-- An entry is cleared. -/
def PermissionDatabase.clear (db : PermissionDatabase) (i : Fin permisionDatabaseLen) :
    PermissionDatabase :=
  { length := sub32 db.length 1, datasets := Function.update db.datasets i emptyData }

/-- `permission_database_delete`. -/
def permissionDatabaseDelete (db : PermissionDatabase) (index : ℕ) : PermissionDatabase × ℤ :=
  if h : index < permisionDatabaseLen then (db.clear ⟨index, h⟩, 0) else (db, -1)

/-- `permission_database_delete_by_data`: the first slot with the string, taken or not. -/
def permissionDatabaseDeleteByData (db : PermissionDatabase) (str : List Char) :
    PermissionDatabase × ℤ :=
  match (List.finRange permisionDatabaseLen).find? fun i => decide ((db.datasets i).str = str) with
  | some i => (db.clear i, 0)
  | none => (db, -1)

/-- `permission_database_select`: the first entry with the string. -/
def permissionDatabaseSelect (db : PermissionDatabase) (str : List Char) : Option PermissionData :=
  ((List.finRange permisionDatabaseLen).find? fun i =>
    (db.datasets i).taken && decide ((db.datasets i).str = str)).map db.datasets

/-! ## What the calls keep -/

/-- The counter counts, and free slots have no string. -/
structure PermissionDatabase.Inv (db : PermissionDatabase) : Prop where
  length_eq : db.length = db.entries.length
  free_str : ∀ i, (db.datasets i).taken = false → (db.datasets i).str = []

section Database

variable {db : PermissionDatabase}

theorem emptyData_taken : emptyData.taken = false := rfl

theorem mem_entries {d : PermissionData} :
    d ∈ db.entries ↔ ∃ i, (db.datasets i).taken = true ∧ db.datasets i = d := mem_taken

/-- The database is full: no slot is free. -/
def PermissionDatabase.Full (db : PermissionDatabase) : Prop := permissionDatabaseFreesolt db = none

instance (db : PermissionDatabase) : Decidable db.Full := inferInstanceAs (Decidable (_ = none))

theorem PermissionDatabase.Inv.length_lt (h : db.Inv) {i : Fin permisionDatabaseLen}
    (hfree : (db.datasets i).taken = false) : db.length < permisionDatabaseLen := by
  rw [h.length_eq]
  exact length_taken_lt hfree

/-- A full database takes nothing. -/
theorem permissionDatabaseInsert_full (hfull : db.Full) (attr : ℕ) (str : List Char) :
    permissionDatabaseInsert db attr str = some (db, -1) := by
  unfold permissionDatabaseInsert
  split_ifs
  · rfl
  · rw [show permissionDatabaseFreesolt db = none from hfull]

/-- **An insertion** into a database that is not full, when the string fits. -/
theorem permissionDatabaseInsert_spec (h : db.Inv) (hfull : ¬ db.Full) (attr : ℕ) {str : List Char}
    (hfits : str.length < permisionStrLen) :
    ∃ i, (db.datasets i).taken = false ∧
      permissionDatabaseInsert db attr str = some
        ({ length := db.length + 1
           datasets := Function.update db.datasets i ⟨attr, str, hfits⟩ }, (i.val : ℤ)) := by
  obtain ⟨i, hi⟩ := Option.ne_none_iff_exists'.1 hfull
  have hfree : (db.datasets i).taken = false := firstFree_eq_some hi
  have hlt := h.length_lt hfree
  refine ⟨i, hfree, ?_⟩
  unfold permissionDatabaseInsert permissionDataInit
  rw [if_neg (not_le.2 hlt), hi]
  simp only [dif_pos hfits, Option.map_some]
  rw [add32_of_lt (by simp only [permisionDatabaseLen] at hlt; omega)]

/-- A database with a new entry in a free slot. -/
theorem PermissionDatabase.Inv.put (h : db.Inv) {i : Fin permisionDatabaseLen} {d : PermissionData}
    (hfree : (db.datasets i).taken = false) (hd : d.taken = true) :
    PermissionDatabase.Inv
        { length := db.length + 1, datasets := Function.update db.datasets i d } ∧
      (PermissionDatabase.entries
        { length := db.length + 1, datasets := Function.update db.datasets i d }).Perm
          (d :: db.entries) := by
  have hperm := taken_update_perm_cons (x := d) hfree hd
  refine ⟨⟨?_, ?_⟩, hperm⟩
  · rw [PermissionDatabase.entries, hperm.length_eq, List.length_cons, h.length_eq]
    rfl
  · intro j hj
    by_cases hji : j = i
    · subst hji
      simp only [Function.update_self] at hj
      rw [hd] at hj
      cases hj
    · simp only [Function.update_of_ne hji] at hj ⊢
      exact h.free_str j hj

/-- A database without one of its entries. -/
theorem PermissionDatabase.Inv.clear (h : db.Inv) {i : Fin permisionDatabaseLen}
    (hused : (db.datasets i).taken = true) :
    (db.clear i).Inv ∧ db.entries.Perm (db.datasets i :: (db.clear i).entries) := by
  have hperm := taken_perm_cons_update hused emptyData_taken
  have hlen : db.length = (db.clear i).entries.length + 1 := by
    rw [h.length_eq]
    exact hperm.length_eq
  have hlt : (db.clear i).entries.length < permisionDatabaseLen := by
    apply length_taken_lt (i := i)
    simp only [PermissionDatabase.clear, Function.update_self]
    rfl
  refine ⟨⟨?_, ?_⟩, hperm⟩
  · rw [show (db.clear i).length = sub32 db.length 1 from rfl, hlen, sub32_of_le (by omega)
      (by simp only [permisionDatabaseLen] at hlt; omega)]
    omega
  · intro j hj
    by_cases hji : j = i
    · subst hji
      simp only [PermissionDatabase.clear, Function.update_self]
      rfl
    · simp only [PermissionDatabase.clear, Function.update_of_ne hji] at hj ⊢
      exact h.free_str j hj

/-- **Taking an insertion back** leaves the entries and the counter as they were. -/
theorem permissionDatabaseDelete_insert (h : db.Inv) {i : Fin permisionDatabaseLen}
    (hfree : (db.datasets i).taken = false) (d : PermissionData) :
    ∃ db', permissionDatabaseDelete
        { length := db.length + 1, datasets := Function.update db.datasets i d } i = (db', 0) ∧
      db'.entries = db.entries ∧ db'.length = db.length ∧ db'.Inv := by
  have hlt := h.length_lt hfree
  have hentries : PermissionDatabase.entries
      { length := db.length, datasets := Function.update db.datasets i emptyData } = db.entries :=
    taken_update_of_free hfree emptyData_taken
  refine ⟨{ length := db.length, datasets := Function.update db.datasets i emptyData }, ?_,
    hentries, rfl, ⟨?_, ?_⟩⟩
  · unfold permissionDatabaseDelete PermissionDatabase.clear
    rw [dif_pos i.isLt]
    simp only [Function.update_idem]
    rw [sub32_of_le (by omega) (by simp only [permisionDatabaseLen] at hlt; omega),
      Nat.add_sub_cancel]
  · rw [hentries]
    exact h.length_eq
  · intro j hj
    by_cases hji : j = i
    · subst hji
      simp only [Function.update_self]
      rfl
    · simp only [Function.update_of_ne hji] at hj ⊢
      exact h.free_str j hj

/-- **Taking out by string**: where a string is that of an entry, the entry selected is the one
that is deleted. -/
theorem permissionDatabaseDeleteByData_spec (h : db.Inv) {str : List Char} (hstr : str ≠ [])
    {d : PermissionData} (hsel : permissionDatabaseSelect db str = some d) :
    ∃ i, db.datasets i = d ∧ d.taken = true ∧ d.str = str ∧
      permissionDatabaseDeleteByData db str = (db.clear i, 0) := by
  -- slots with the string are taken
  have hsame : (fun i => decide ((db.datasets i).str = str)) =
      fun i => (db.datasets i).taken && decide ((db.datasets i).str = str) := by
    funext i
    cases htaken : (db.datasets i).taken with
    | true => rw [Bool.true_and]
    | false =>
        rw [Bool.false_and, h.free_str i htaken]
        exact decide_eq_false (Ne.symm hstr)
  obtain ⟨i, hi, rfl⟩ := Option.map_eq_some_iff.1 hsel
  have hfound := List.find?_some hi
  rw [Bool.and_eq_true, decide_eq_true_eq] at hfound
  refine ⟨i, rfl, hfound.1, hfound.2, ?_⟩
  unfold permissionDatabaseDeleteByData
  rw [hsame, hi]

/-- A string is selected when it is that of an entry. -/
theorem permissionDatabaseSelect_eq_none_iff (str : List Char) :
    permissionDatabaseSelect db str = none ↔ ∀ d ∈ db.entries, d.str ≠ str := by
  unfold permissionDatabaseSelect
  rw [Option.map_eq_none_iff, List.find?_eq_none]
  constructor
  · rintro hnone d hd rfl
    obtain ⟨i, hi, rfl⟩ := mem_entries.1 hd
    have := hnone i (List.mem_finRange i)
    simp [hi] at this
  · intro hall i _
    rw [Bool.and_eq_true, decide_eq_true_eq]
    rintro ⟨htaken, hstr⟩
    exact hall _ (mem_entries.2 ⟨i, htaken, rfl⟩) hstr

end Database

end Acct
end LightOS
