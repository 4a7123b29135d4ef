import LightOS.Fs.FsalPath
import LightOS.Lib.Run

/-!
# The integrity of the mount table

A run is a sequence of insertions, removals and lookups, with strings as they come.  A call that
writes outside of a field or of the local buffer of a lookup stops the run.

An insertion looks its abstract path up first, but compares only what is in front of the second
separator of it, and nothing at all when it has none; strings are copied with `strcpy`; and the
master entry stays the master when it is removed.

* `pathStep_ok_iff` — which calls keep the table in order.
* `pathTable_run_iff` — the runs that stay in order are those of such calls.
-/

namespace LightOS
namespace FsPath

open Slots

/-! ## What a lookup copies -/

/-- What is in front of the second separator of a string that has one at all. -/
def topName (s : List Char) : List Char :=
  s.takeWhile (· ≠ '/') ++ '/' :: (s.dropWhile (· ≠ '/')).tail.takeWhile (· ≠ '/')

/-- A name that fits the buffer of a lookup: with its zero, which is not copied if a second
separator ends the name.  Without a separator nothing is copied, and neither for the root when the
master entry is asked for. -/
def ShortName (s : List Char) (inmaster : Bool) : Prop :=
  '/' ∈ s → ((s.dropWhile (· ≠ '/')).tail = [] ∧ inmaster = true) ∨
    (topName s).length + (if topName s = s then 1 else 0) ≤ faslPathLen

theorem takeWhile_sep {a : List Char} (h : '/' ∉ a) : a.takeWhile (· ≠ '/') = a := by
  apply List.takeWhile_eq_self_iff.2
  intro x hx
  rw [decide_eq_true_eq]
  rintro rfl
  exact h hx

theorem dropWhile_sep {a : List Char} (h : '/' ∉ a) (b : List Char) :
    (a ++ '/' :: b).dropWhile (· ≠ '/') = '/' :: b := by
  rw [List.dropWhile_append_of_pos, List.dropWhile_cons_of_neg (by simp)]
  intro x hx
  rw [decide_eq_true_eq]
  rintro rfl
  exact h hx

theorem takeWhile_append_sep {a : List Char} (h : '/' ∉ a) (b : List Char) :
    (a ++ '/' :: b).takeWhile (· ≠ '/') = a := by
  rw [List.takeWhile_append_of_pos, List.takeWhile_cons_of_neg (by simp), List.append_nil]
  intro x hx
  rw [decide_eq_true_eq]
  rintro rfl
  exact h hx

theorem topName_append {a : List Char} (h : '/' ∉ a) (b : List Char) :
    topName (a ++ '/' :: b) = a ++ '/' :: b.takeWhile (· ≠ '/') := by
  unfold topName
  rw [takeWhile_append_sep h, dropWhile_sep h, List.tail_cons]

/-- **What a lookup copies and compares.** -/
theorem lookupName_topName {a : List Char} (h : '/' ∉ a) (b : List Char) :
    lookupName (a ++ '/' :: b) ('/' :: b) = (topName (a ++ '/' :: b),
      (topName (a ++ '/' :: b)).length + if topName (a ++ '/' :: b) = a ++ '/' :: b then
        1 else 0) := by
  unfold lookupName
  rw [topName_append h, List.tail_cons]
  by_cases hb : '/' ∈ b
  · obtain ⟨c, d, rfl, hc⟩ := List.eq_append_cons_of_mem hb
    rw [strchr_append hc, takeWhile_append_sep hc]
    have hlen : (a ++ '/' :: (c ++ '/' :: d)).length - ('/' :: d).length =
        (a ++ '/' :: c).length := by
      simp only [List.length_append, List.length_cons]
      omega
    have hne : a ++ '/' :: c ≠ a ++ '/' :: (c ++ '/' :: d) := by
      intro heq
      have := congrArg List.length heq
      simp only [List.length_append, List.length_cons] at this
      omega
    have hsplit : a ++ '/' :: (c ++ '/' :: d) = (a ++ '/' :: c) ++ '/' :: d := by simp
    simp only
    rw [if_neg hne, hlen, hsplit, List.take_left]
    rfl
  · rw [strchr_of_not_mem hb, takeWhile_sep hb, if_pos rfl]

theorem nameBytes_le_iff (s : List Char) (inmaster : Bool) :
    nameBytes s inmaster ≤ faslPathLen ↔ ShortName s inmaster := by
  unfold nameBytes ShortName
  by_cases hs : '/' ∈ s
  · obtain ⟨a, b, rfl, ha⟩ := List.eq_append_cons_of_mem hs
    rw [strchr_append ha, dropWhile_sep ha]
    simp only [lookupName_topName ha, List.tail_cons]
    by_cases hroot : b = [] ∧ inmaster = true
    · exact iff_of_true (by rw [if_pos hroot]; exact Nat.zero_le _) fun _ => Or.inl hroot
    · rw [if_neg hroot]
      constructor
      · intro hle _
        exact Or.inr hle
      · intro himp
        exact (himp hs).resolve_left hroot
  · rw [strchr_of_not_mem hs]
    exact iff_of_true (Nat.zero_le _) fun hmem => absurd hmem hs

/-! ## Tables in order -/

/-- The table is in order: the abstract paths of used entries differ, all strings fit, and the
master is a used entry. -/
structure PathTable.Ok (t : PathTable) : Prop where
  distinct : ∀ i j, (t.entries i).used = true → (t.entries j).used = true →
    (t.entries i).alpath = (t.entries j).alpath → i = j
  fits : ∀ i, (t.entries i).used = true →
    Fits (t.entries i).path ∧ Fits (t.entries i).alpath ∧ Fits (t.entries i).devpath
  master_used : ∀ i, t.master = some i → (t.entries i).used = true

/-- An abstract path that a lookup does not find: it has no separator, or no used entry has what
is in front of the second one. -/
def Unlisted (t : PathTable) (alpath : List Char) : Prop :=
  '/' ∈ alpath → ∀ i, (t.entries i).used = true → (t.entries i).alpath ≠ topName alpath

theorem find_eq_none_iff (t : PathTable) (alpath : List Char) :
    fsalPathFind t alpath false = none ↔ Unlisted t alpath := by
  unfold fsalPathFind fsalPathFindWithType Unlisted
  by_cases hs : '/' ∈ alpath
  · obtain ⟨a, b, rfl, ha⟩ := List.eq_append_cons_of_mem hs
    rw [strchr_append ha]
    simp only [lookupName_topName ha, Bool.false_eq_true, and_false, if_false]
    cases hsearch : t.search .virtual (topName (a ++ '/' :: b)) with
    | none => exact iff_of_true rfl fun _ => search_eq_none_iff.1 hsearch
    | some i =>
        obtain ⟨hused, hkey⟩ := search_eq_some hsearch
        apply iff_of_false (by simp)
        intro hall
        exact hall hs i hused hkey
  · rw [strchr_of_not_mem hs]
    exact iff_of_true rfl fun hmem => absurd hmem hs

/-- An insertion that gets as far as writing an entry: the path is not found and an entry is
free. -/
def Accepted (t : PathTable) (alpath : List Char) : Prop :=
  Unlisted t alpath ∧ ∃ i, (t.entries i).used = false

section Order

variable {t : PathTable} {i : Fin faslPathNr}

/-- **Giving an entry up** keeps the order unless it is the master. -/
theorem PathTable.Ok.free_iff (h : t.Ok) : (t.free i).Ok ↔ t.master ≠ some i := by
  have hfree : ((t.free i).entries i).used = false := by
    have hself : (t.free i).entries i = { t.entries i with fsal := 0, path := [] } :=
      Function.update_self ..
    rw [hself]
    rfl
  have hother : ∀ {j}, ((t.free i).entries j).used = true →
      j ≠ i ∧ (t.free i).entries j = t.entries j := by
    intro j hj
    have hne : j ≠ i := by
      rintro rfl
      rw [hfree] at hj
      cases hj
    exact ⟨hne, Function.update_of_ne hne _ _⟩
  constructor
  · intro hok hmaster
    have := hok.master_used i hmaster
    rw [hfree] at this
    cases this
  · intro hmaster
    constructor
    · intro j k hj hk heq
      obtain ⟨-, hj'⟩ := hother hj
      obtain ⟨-, hk'⟩ := hother hk
      rw [hj'] at hj heq
      rw [hk'] at hk heq
      exact h.distinct j k hj hk heq
    · intro j hj
      obtain ⟨-, hj'⟩ := hother hj
      rw [hj'] at hj ⊢
      exact h.fits j hj
    · intro j hj
      have hne : j ≠ i := by
        rintro rfl
        exact hmaster hj
      have hkept : (t.free i).entries j = t.entries j := Function.update_of_ne hne _ _
      rw [hkept]
      exact h.master_used j hj

/-- **Writing an entry** keeps the order when no used entry has its abstract path. -/
theorem PathTable.Ok.put_iff (h : t.Ok) (hfree : (t.entries i).used = false) {e : FsalEntry}
    (hused : e.used = true) (hfits : Fits e.path ∧ Fits e.alpath ∧ Fits e.devpath) :
    PathTable.Ok { entries := Function.update t.entries i e
                   master := if t.master = none then some i else t.master } ↔
      ∀ j, (t.entries j).used = true → (t.entries j).alpath ≠ e.alpath := by
  have hother : ∀ {j}, (t.entries j).used = true →
      Function.update t.entries i e j = t.entries j := by
    intro j hj
    apply Function.update_of_ne
    rintro rfl
    rw [hfree] at hj
    cases hj
  constructor
  · intro hok j hj heq
    have hji : j = i := by
      apply hok.distinct j i
      · simp only [hother hj, hj]
      · simp only [Function.update_self, hused]
      · simp only [hother hj, Function.update_self, heq]
    subst hji
    rw [hfree] at hj
    cases hj
  · intro hfresh
    constructor
    · intro j k hj hk heq
      simp only [Function.update_apply] at hj hk heq
      split_ifs at hj hk heq with hji hki hki
      · rw [hji, hki]
      · exact absurd heq.symm (hfresh k hk)
      · exact absurd heq (hfresh j hj)
      · exact h.distinct j k hj hk heq
    · intro j hj
      simp only [Function.update_apply] at hj ⊢
      split_ifs at hj ⊢ with hji
      · exact hfits
      · exact h.fits j hj
    · intro j hj
      simp only at hj ⊢
      split_ifs at hj with hnone
      · cases hj
        rw [Function.update_self]
        exact hused
      · have hjused := h.master_used j hj
        rw [hother hjused]
        exact hjused

end Order

/-! ## Runs -/

/-- The calls.  Paths that are looked up are shorter than `MAX_PATH`. -/
inductive PathCall
  | insert (devpath path alpath : List Char) (fsal : ℕ)
  | remove (path : List Char)
  | removeAlpath (alpath : List Char)
  | find (ptype : FsalPathType) (path : List Char) (inmaster : Bool) (short : path.length < maxPath)

/-- One call. -/
def pathStep (t : PathTable) : PathCall → Option PathTable
  | .insert devpath path alpath fsal => (fsalPathInsert t devpath path alpath fsal).map Prod.fst
  | .remove path => some (fsalPathRemove t path).1
  | .removeAlpath alpath => some (fsalPathRemoveAlpath t alpath).1
  | .find _ path inmaster _ => if faslPathLen < nameBytes path inmaster then none else some t

/-- The call keeps inside of its buffers and leaves the table in order. -/
def KeepsOrder (t : PathTable) (c : PathCall) : Prop := ∃ t', pathStep t c = some t' ∧ t'.Ok

/-- The calls that do no harm.  An insertion needs a short name to look up, and if it is accepted,
strings that fit and an abstract path that no used entry has; a removal must not meet the master
entry; a lookup needs a short name. -/
def Harmless (t : PathTable) : PathCall → Prop
  | .insert devpath path alpath fsal => fsal ≠ 0 → ShortName alpath false ∧
      (Accepted t alpath → Fits path ∧ Fits alpath ∧ Fits (deviceName devpath) ∧
        ∀ i, (t.entries i).used = true → (t.entries i).alpath ≠ alpath)
  | .remove path => ∀ i, removed t path = some i → t.master ≠ some i
  | .removeAlpath alpath => ∀ i, t.search .virtual alpath = some i → t.master ≠ some i
  | .find _ path inmaster _ => ShortName path inmaster

theorem insert_keepsOrder_iff {t : PathTable} (h : t.Ok) (devpath path alpath : List Char)
    (fsal : ℕ) :
    KeepsOrder t (.insert devpath path alpath fsal) ↔
      Harmless t (.insert devpath path alpath fsal) := by
  change (∃ t', (fsalPathInsert t devpath path alpath fsal).map Prod.fst = some t' ∧ t'.Ok) ↔
    (fsal ≠ 0 → ShortName alpath false ∧ (Accepted t alpath → Fits path ∧ Fits alpath ∧
      Fits (deviceName devpath) ∧ ∀ i, (t.entries i).used = true → (t.entries i).alpath ≠ alpath))
  unfold fsalPathInsert
  by_cases hfsal : fsal = 0
  · rw [if_pos hfsal]
    exact iff_of_true ⟨t, rfl, h⟩ fun hne => absurd hfsal hne
  rw [if_neg hfsal, ← nameBytes_le_iff]
  by_cases hbytes : faslPathLen < nameBytes alpath false
  · rw [if_pos hbytes]
    apply iff_of_false
    · rintro ⟨t', ht', -⟩
      cases ht'
    · intro himp
      exact absurd hbytes (not_lt.2 (himp hfsal).1)
  rw [if_neg hbytes]
  by_cases hfind : fsalPathFind t alpath false = none
  swap
  · rw [if_pos hfind]
    apply iff_of_true ⟨t, rfl, h⟩
    intro _
    exact ⟨not_lt.1 hbytes, fun hacc => absurd ((find_eq_none_iff t alpath).2 hacc.1) hfind⟩
  rw [if_neg (not_not.2 hfind)]
  have hunlisted := (find_eq_none_iff t alpath).1 hfind
  unfold fsalPathAlloc
  cases halloc : firstFree FsalEntry.used t.entries with
  | none =>
      apply iff_of_true ⟨t, rfl, h⟩
      intro _
      refine ⟨not_lt.1 hbytes, fun hacc => ?_⟩
      obtain ⟨i, hi⟩ := hacc.2
      rw [firstFree_eq_none_iff.1 halloc i] at hi
      cases hi
  | some i =>
      have hfree := firstFree_eq_some halloc
      have hacc : Accepted t alpath := ⟨hunlisted, i, hfree⟩
      have hused : (FsalEntry.mk fsal path alpath (deviceName devpath)).used = true :=
        decide_eq_true hfsal
      by_cases hfits : Fits path ∧ Fits alpath ∧ Fits (deviceName devpath)
      · have hput := h.put_iff hfree hused hfits
        simp only [if_pos hfits, Option.map_some]
        constructor
        · rintro ⟨t', ht', hok⟩ _
          cases ht'
          exact ⟨not_lt.1 hbytes, fun _ => ⟨hfits.1, hfits.2.1, hfits.2.2, hput.1 hok⟩⟩
        · intro himp
          exact ⟨_, rfl, hput.2 ((himp hfsal).2 hacc).2.2.2⟩
      · simp only [if_neg hfits, Option.map_none]
        apply iff_of_false
        · rintro ⟨t', ht', -⟩
          cases ht'
        · intro himp
          obtain ⟨hpath, halpath, hdev, -⟩ := (himp hfsal).2 hacc
          exact hfits ⟨hpath, halpath, hdev⟩

/-- Giving up what is found. -/
theorem giveUp_keepsOrder_iff {t : PathTable} (h : t.Ok) (found : Option (Fin faslPathNr)) :
    (∃ t', some (t.giveUp found).1 = some t' ∧ t'.Ok) ↔
      ∀ i, found = some i → t.master ≠ some i := by
  cases found with
  | none => exact iff_of_true ⟨t, rfl, h⟩ fun i hi => by cases hi
  | some i =>
      constructor
      · rintro ⟨t', ht', hok⟩ j hj
        cases ht'
        cases hj
        exact h.free_iff.1 hok
      · intro hmaster
        exact ⟨t.free i, rfl, h.free_iff.2 (hmaster i rfl)⟩

theorem find_keepsOrder_iff {t : PathTable} (h : t.Ok) (path : List Char) (inmaster : Bool) :
    (∃ t', (if faslPathLen < nameBytes path inmaster then none else some t) = some t' ∧ t'.Ok) ↔
      ShortName path inmaster := by
  rw [← nameBytes_le_iff]
  by_cases hbytes : faslPathLen < nameBytes path inmaster
  · rw [if_pos hbytes]
    apply iff_of_false
    · rintro ⟨t', ht', -⟩
      cases ht'
    · exact not_le.2 hbytes
  · rw [if_neg hbytes]
    exact iff_of_true ⟨t, rfl, h⟩ (not_lt.1 hbytes)

/-- **Which calls keep the table in order.** -/
theorem pathStep_ok_iff {t : PathTable} (h : t.Ok) (c : PathCall) :
    KeepsOrder t c ↔ Harmless t c := by
  cases c with
  | insert devpath path alpath fsal => exact insert_keepsOrder_iff h devpath path alpath fsal
  | remove path => exact giveUp_keepsOrder_iff h (removed t path)
  | removeAlpath alpath => exact giveUp_keepsOrder_iff h (t.search .virtual alpath)
  | find ptype path inmaster short => exact find_keepsOrder_iff h path inmaster

theorem fsalPathInit_ok : fsalPathInit.Ok where
  distinct := by
    intro i j hi
    cases hi
  fits := by
    intro i hi
    cases hi
  master_used := by
    intro i hi
    cases hi

/-- **Which runs stay in order**: after every call the abstract paths of used entries differ, the
strings fit, the master is a used entry, and no lookup has written past its buffer, exactly when
all calls of the run are harmless. -/
theorem pathTable_run_iff (calls : List PathCall) :
    Run.Along pathStep KeepsOrder fsalPathInit calls ↔
      Run.Along pathStep Harmless fsalPathInit calls := by
  apply Run.along_iff (I := PathTable.Ok) (fun t c h => pathStep_ok_iff h c) _ calls fsalPathInit
    fsalPathInit_ok
  rintro t c t' _ ⟨t'', ht'', hok⟩ ht'
  rw [ht', Option.some.injEq] at ht''
  rwa [ht'']

/-- A disk is mounted at `/root` and unmounted. -/
theorem pathTable_unmount_root :
    ¬ ∀ calls, Run.Along pathStep KeepsOrder fsalPathInit calls := by
  intro hall
  obtain ⟨-, hrest⟩ := hall [.insert ['r', 'a', 'm', '0'] ['0', ':'] ['/', 'r', 'o', 'o', 't'] 1,
    .removeAlpath ['/', 'r', 'o', 'o', 't']]
  obtain ⟨t', ht', hok⟩ := (hrest _ rfl).1
  cases ht'
  exact absurd (hok.master_used 0 rfl) (by decide)

end FsPath
end LightOS
