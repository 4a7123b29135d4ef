import LightOS.Fs.PathBasic
import LightOS.Lib.Slots

/-!
# The mount table

`fs/fsal/path.c` keeps a table of mounted file systems, with the physical path, the abstract
path and the device of each.  A lookup copies the path up to its second separator into a local
buffer and compares that with one of the strings of the entries; `fsal_path_switch` puts the
physical path in the place of the abstract one.  The first entry ever inserted is the master
entry, which paths that are mounted nowhere go to.

Strings are lists of characters without their zero.  Lookups and rewriting work on the values
of the strings; what fits where is accounted for in `nameBytes` and `fsalPathInsert`, which
returns `none` if it writes outside of a buffer.

* `strchr_append`, `lookupName_path` — what a lookup compares.
-/

namespace LightOS
namespace FsPath

open Components Slots

/-- `FASL_PATH_LEN`. -/
abbrev faslPathLen : ℕ := 24

/-- `FASL_PATH_NR`. -/
abbrev faslPathNr : ℕ := 12

/-- `fsal_path_t`; `fsal` is the address of the file system, zero in a free entry. -/
structure FsalEntry where
  fsal : ℕ
  path : List Char
  alpath : List Char
  devpath : List Char
  deriving DecidableEq

/-- `fsal_path_table` and `fsal_master_path`. -/
structure PathTable where
  entries : Fin faslPathNr → FsalEntry
  master : Option (Fin faslPathNr)

/-- `fsal_path_init`. -/
def fsalPathInit : PathTable := { entries := fun _ => ⟨0, [], [], []⟩, master := none }

/-- The entry is used. -/
def FsalEntry.used (e : FsalEntry) : Bool := e.fsal ≠ 0

/-- `fsal_path_type_t`. -/
inductive FsalPathType
  | physic
  | virtual
  | device
  deriving DecidableEq

/-- The string of an entry that a lookup compares. -/
def FsalEntry.key (e : FsalEntry) : FsalPathType → List Char
  | .physic => e.path
  | .virtual => e.alpath
  | .device => e.devpath

/-! ## Looking up -/

/-- `strchr`: the string from the first `c` on. -/
def strchr (s : List Char) (c : Char) : Option (List Char) :=
  match s.dropWhile (· ≠ c) with
  | [] => none
  | x :: r => some (x :: r)

/-- `strrchr` and one further: what follows the last `c`. -/
def afterLast (s : List Char) (c : Char) : Option (List Char) :=
  if c ∈ s then some (s.rtakeWhile (· ≠ c)) else none

/-- The local name of a lookup, and the number of bytes copied to it: the path up to its second
separator, or all of it and its zero.  `p` is the path from its first separator on. -/
def lookupName (path p : List Char) : List Char × ℕ :=
  match strchr p.tail '/' with
  | some q => (path.take (path.length - q.length), path.length - q.length)
  | none => (path, path.length + 1)

/-- The loop over the table. -/
def PathTable.search (t : PathTable) (ptype : FsalPathType) (name : List Char) :
    Option (Fin faslPathNr) :=
  (List.finRange faslPathNr).find? fun i =>
    (t.entries i).used && decide (name = (t.entries i).key ptype)

/-- `fsal_path_find_with_type`. -/
def fsalPathFindWithType (t : PathTable) (ptype : FsalPathType) (path : List Char)
    (inmaster : Bool) :
    Option (Fin faslPathNr) :=
  match strchr path '/' with
  | none => none
  | some p =>
      if p.tail = [] ∧ inmaster = true then t.master
      else
        match t.search ptype (lookupName path p).1 with
        | some i => some i
        | none => if inmaster = true then t.master else none

/-- The bytes that `fsal_path_find_with_type` copies into its buffer of `FASL_PATH_LEN`. -/
def nameBytes (path : List Char) (inmaster : Bool) : ℕ :=
  match strchr path '/' with
  | none => 0
  | some p => if p.tail = [] ∧ inmaster = true then 0 else (lookupName path p).2

/-- `fsal_path_find`. -/
abbrev fsalPathFind (t : PathTable) (alpath : List Char) (inmaster : Bool) :
    Option (Fin faslPathNr) :=
  fsalPathFindWithType t .virtual alpath inmaster

/-! ## Rewriting -/

/-- The condition under which `fsal_path_switch` keeps the first component. -/
def keepsTopLevel (t : PathTable) (fpath : Fin faslPathNr) (topLevel : List Char) : Prop :=
  t.master = some fpath ∧ topLevel.tail ≠ [] ∧ (t.entries fpath).alpath ≠ topLevel

instance (t : PathTable) (fpath : Fin faslPathNr) (topLevel : List Char) :
    Decidable (keepsTopLevel t fpath topLevel) := inferInstanceAs (Decidable (_ ∧ _))

/-- `fsal_path_switch`: the new path and what is left in the buffer of the old one; `none` for
the error. -/
def fsalPathSwitch (t : PathTable) (fpath : Fin faslPathNr) (oldPath : List Char) :
    Option (List Char × List Char) :=
  match strchr oldPath '/' with
  | none => none
  | some topLevel =>
      match strchr topLevel.tail '/' with
      | none =>
          some ((t.entries fpath).path ++ (if keepsTopLevel t fpath topLevel then
            topLevel else []), oldPath)
      | some start =>
          if start.tail = [] then
            -- the separator at the end is cut off, from the old path too
            some ((t.entries fpath).path ++
              (if keepsTopLevel t fpath topLevel.dropLast then topLevel.dropLast else []),
              oldPath.dropLast)
          else
            some ((t.entries fpath).path ++
              (if fsalPathFind t topLevel false = none then topLevel else start), oldPath)

/-- A path on its way to a file system: looked up, the master entry included, and rewritten. -/
def route (t : PathTable) (path : List Char) : Option (List Char) :=
  (fsalPathFind t path true).bind fun fpath => (fsalPathSwitch t fpath path).map Prod.fst

/-! ## Inserting and removing -/

/-- `fsal_path_alloc`. -/
def fsalPathAlloc (t : PathTable) : Option (Fin faslPathNr) := firstFree FsalEntry.used t.entries

/-- The string and its zero fit a field. -/
def Fits (s : List Char) : Prop := s.length < faslPathLen

instance (s : List Char) : Decidable (Fits s) := inferInstanceAs (Decidable (_ < _))

/-- The device name that is stored. -/
def deviceName (devpath : List Char) : List Char := (afterLast devpath '/').getD devpath

/-- `fsal_path_insert`. -/
def fsalPathInsert (t : PathTable) (devpath path alpath : List Char) (fsal : ℕ) :
    Option (PathTable × ℤ) :=
  if fsal = 0 then some (t, -1)
  else if faslPathLen < nameBytes alpath false then none
  else if fsalPathFind t alpath false ≠ none then some (t, -1)
  else
    match fsalPathAlloc t with
    | none => some (t, -1)
    | some i =>
        if Fits path ∧ Fits alpath ∧ Fits (deviceName devpath) then
          some ({ entries := Function.update t.entries i ⟨fsal, path, alpath, deviceName devpath⟩
                  master := if t.master = none then some i else t.master }, 0)
        else none

/-- An entry is given up: the address and the physical path are cleared. -/
def PathTable.free (t : PathTable) (i : Fin faslPathNr) : PathTable :=
  { t with entries := Function.update t.entries i { t.entries i with fsal := 0, path := [] } }

/-- The end of both removals: the entry that was found is given up. -/
def PathTable.giveUp (t : PathTable) : Option (Fin faslPathNr) → PathTable × ℤ
  | some i => (t.free i, 0)
  | none => (t, -1)

/-- The entry that `fsal_path_remove` finds: by the physical path, or by the name behind the last
separator, which may be the device of the entry. -/
def removed (t : PathTable) (path : List Char) : Option (Fin faslPathNr) :=
  (List.finRange faslPathNr).find? fun i => (t.entries i).used &&
    (decide (path = (t.entries i).path) || decide (afterLast path '/' = some (t.entries i).devpath))

/-- `fsal_path_remove`, without setting down the device. -/
def fsalPathRemove (t : PathTable) (path : List Char) : PathTable × ℤ := t.giveUp (removed t path)

/-- `fsal_path_remove_alpath`. -/
def fsalPathRemoveAlpath (t : PathTable) (alpath : List Char) : PathTable × ℤ :=
  t.giveUp (t.search .virtual alpath)

/-! ## What a lookup compares -/

theorem strchr_of_not_mem {s : List Char} {c : Char} (h : c ∉ s) : strchr s c = none := by
  unfold strchr
  rw [List.dropWhile_eq_nil_iff.2]
  intro x hx
  rw [decide_eq_true_eq]
  rintro rfl
  exact h hx

theorem strchr_append {s : List Char} {c : Char} (h : c ∉ s) (r : List Char) :
    strchr (s ++ c :: r) c = some (c :: r) := by
  unfold strchr
  rw [List.dropWhile_append_of_pos, List.dropWhile_cons_of_neg (by simp)]
  intro x hx
  rw [decide_eq_true_eq]
  rintro rfl
  exact h hx

theorem strchr_cons_self (c : Char) (r : List Char) : strchr (c :: r) c = some (c :: r) :=
  strchr_append (s := []) (by simp) r

/-- The second separator of a path is that in front of its second component. -/
theorem strchr_join {c : List Char} (hc : IsComp '/' c) (cs : List (List Char)) :
    strchr (c ++ join '/' cs) '/' = if cs = [] then none else some (join '/' cs) := by
  cases cs with
  | nil =>
      rw [join_nil, List.append_nil, if_pos rfl]
      exact strchr_of_not_mem hc.2
  | cons d cs =>
      rw [if_neg (by simp), join_cons]
      exact strchr_append hc.2 _

/-- **The name looked up** is the first component. -/
theorem lookupName_path {c : List Char} (hc : IsComp '/' c) (cs : List (List Char)) :
    (lookupName ('/' :: (c ++ join '/' cs)) ('/' :: (c ++ join '/' cs))).1 = '/' :: c := by
  unfold lookupName
  rw [List.tail_cons, strchr_join hc]
  split_ifs with hcs
  · rw [hcs, join_nil, List.append_nil]
  · simp only
    have hlen : ('/' :: (c ++ join '/' cs)).length - (join '/' cs).length = ('/' :: c).length := by
      simp only [List.length_cons, List.length_append]
      omega
    rw [hlen, ← List.cons_append]
    exact List.take_left

section Search

variable {t : PathTable} {ptype : FsalPathType} {name : List Char} {i : Fin faslPathNr}

theorem search_eq_some (h : t.search ptype name = some i) :
    (t.entries i).used = true ∧ (t.entries i).key ptype = name := by
  have hfound := List.find?_some h
  rw [Bool.and_eq_true, decide_eq_true_eq] at hfound
  exact ⟨hfound.1, hfound.2.symm⟩

theorem search_eq_none_iff :
    t.search ptype name = none ↔ ∀ i, (t.entries i).used = true →
      (t.entries i).key ptype ≠ name := by
  unfold PathTable.search
  rw [List.find?_eq_none]
  constructor
  · intro hnone i hused heq
    have := hnone i (List.mem_finRange i)
    simp [hused, heq] at this
  · intro hall i _
    rw [Bool.and_eq_true, decide_eq_true_eq]
    rintro ⟨hused, heq⟩
    exact hall i hused heq.symm

end Search

end FsPath
end LightOS
