import LightOS.Fs.FsalPath

/-!
# Where a path goes

One rule: a path whose first component is mounted goes to that entry, without the component; any
other path goes to the master entry, whole.

* `find_path` — the entry that a lookup finds.
* `route_path` — the rule.
-/

namespace LightOS
namespace FsPath

open Components

/-- A mount table as it is meant to be: abstract paths are single components and differ, and the
master entry is used. -/
structure Mounted (t : PathTable) (master : Fin faslPathNr) : Prop where
  single : ∀ i, (t.entries i).used = true → ∃ c, IsComp '/' c ∧ (t.entries i).alpath = '/' :: c
  distinct : ∀ i j, (t.entries i).used = true → (t.entries j).used = true →
    (t.entries i).alpath = (t.entries j).alpath → i = j
  master_eq : t.master = some master
  master_used : (t.entries master).used = true

section Route

variable {t : PathTable} {c : List Char} {cs : List (List Char)} {i : Fin faslPathNr}

/-- A lookup below a component compares that. -/
theorem find_path (hc : IsComp '/' c) (cs : List (List Char)) (inmaster : Bool) :
    fsalPathFind t ('/' :: (c ++ join '/' cs)) inmaster =
      match t.search .virtual ('/' :: c) with
      | some i => some i
      | none => if inmaster = true then t.master else none := by
  have htail : ¬ (('/' :: (c ++ join '/' cs)).tail = [] ∧ inmaster = true) := by
    rintro ⟨hnil, -⟩
    exact hc.1 (List.append_eq_nil_iff.1 hnil).1
  unfold fsalPathFind fsalPathFindWithType
  rw [strchr_cons_self]
  simp only
  rw [if_neg htail]
  exact congrArg (fun name => match t.search .virtual name with
    | some i => some i
    | none => if inmaster = true then t.master else none) (lookupName_path hc cs)

/-- The entry a component is mounted in is the one that is found. -/
theorem search_mounted {master : Fin faslPathNr} (h : Mounted t master)
    (hused : (t.entries i).used = true) (halpath : (t.entries i).alpath = '/' :: c) :
    t.search .virtual ('/' :: c) = some i := by
  cases hs : t.search .virtual ('/' :: c) with
  | none => exact absurd halpath (search_eq_none_iff.1 hs i hused)
  | some j =>
      obtain ⟨hj, hkey⟩ := search_eq_some hs
      rw [h.distinct i j hused hj (halpath.trans hkey.symm)]

/-- A path below a mounted component loses the component. -/
theorem switch_mounted (hc : IsComp '/' c) (hcs : ∀ d ∈ cs, IsComp '/' d)
    (halpath : (t.entries i).alpath = '/' :: c) (hsearch : t.search .virtual ('/' :: c) = some i) :
    (fsalPathSwitch t i ('/' :: (c ++ join '/' cs))).map Prod.fst =
      some ((t.entries i).path ++ join '/' cs) := by
  unfold fsalPathSwitch
  rw [strchr_cons_self]
  simp only [List.tail_cons]
  rw [strchr_join hc]
  cases cs with
  | nil =>
      have hdrop : ¬ keepsTopLevel t i ('/' :: (c ++ join '/' [])) := by
        rintro ⟨-, -, hne⟩
        rw [join_nil, List.append_nil] at hne
        exact hne halpath
      rw [if_pos rfl]
      simp only
      rw [if_neg hdrop]
      rfl
  | cons d cs =>
      have htail : (join '/' (d :: cs)).tail ≠ [] := by
        intro hnil
        exact (hcs d (List.mem_cons_self ..)).1 (List.append_eq_nil_iff.1 hnil).1
      have hfind := find_path (t := t) hc (d :: cs) false
      rw [hsearch] at hfind
      rw [if_neg (by simp)]
      simp only
      rw [if_neg htail, hfind, if_neg (by simp)]
      rfl

/-- A path below a component that is not mounted is kept whole. -/
theorem switch_unmounted (hc : IsComp '/' c) (hcs : ∀ d ∈ cs, IsComp '/' d)
    (hmaster : t.master = some i)
    (hused : (t.entries i).used = true) (hsearch : t.search .virtual ('/' :: c) = none) :
    (fsalPathSwitch t i ('/' :: (c ++ join '/' cs))).map Prod.fst =
      some ((t.entries i).path ++ join '/' (c :: cs)) := by
  unfold fsalPathSwitch
  rw [strchr_cons_self]
  simp only [List.tail_cons]
  rw [strchr_join hc]
  cases cs with
  | nil =>
      have hkeep : keepsTopLevel t i ('/' :: (c ++ join '/' [])) := by
        refine ⟨hmaster, ?_, ?_⟩
        · rw [join_nil, List.append_nil]
          exact hc.1
        · rw [join_nil, List.append_nil]
          exact search_eq_none_iff.1 hsearch i hused
      rw [if_pos rfl]
      simp only
      rw [if_pos hkeep]
      rfl
  | cons d cs =>
      have htail : (join '/' (d :: cs)).tail ≠ [] := by
        intro hnil
        exact (hcs d (List.mem_cons_self ..)).1 (List.append_eq_nil_iff.1 hnil).1
      have hfind := find_path (t := t) hc (d :: cs) false
      rw [hsearch, if_neg (by decide)] at hfind
      rw [if_neg (by simp)]
      simp only
      rw [if_neg htail, hfind, if_pos rfl]
      rfl

end Route

/-- The root itself goes to the master entry. -/
theorem route_root {t : PathTable} {master : Fin faslPathNr} (h : t.master = some master) :
    route t ['/'] = some (t.entries master).path := by
  have hfind : fsalPathFind t ['/'] true = some master := h
  have hdrop : ¬ keepsTopLevel t master ['/'] := fun hkeep => hkeep.2.1 rfl
  have hswitch : fsalPathSwitch t master ['/'] = some ((t.entries master).path ++ [], ['/']) := by
    have hstep : fsalPathSwitch t master ['/'] =
        some ((t.entries master).path ++ (if keepsTopLevel t master ['/'] then ['/'] else []),
          ['/']) := rfl
    rw [hstep, if_neg hdrop]
  unfold route
  rw [hfind, Option.bind_some, hswitch, List.append_nil]
  rfl

/-- **Where a path goes.**  Below a mounted component: to that entry, with the rest of the path.
Otherwise: to the master entry, with the whole path, which is nothing for the root. -/
theorem route_path {t : PathTable} {master : Fin faslPathNr} (h : Mounted t master)
    {cs : List (List Char)} (hcs : ∀ c ∈ cs, IsComp '/' c) :
    (∀ c rest i, cs = c :: rest → (t.entries i).used = true → (t.entries i).alpath = '/' :: c →
      route t (path '/' cs) = some ((t.entries i).path ++ join '/' rest)) ∧
    ((∀ c rest, cs = c :: rest → ∀ i, (t.entries i).used = true → (t.entries i).alpath ≠ '/' :: c) →
      route t (path '/' cs) = some ((t.entries master).path ++ join '/' cs)) := by
  constructor
  · rintro c rest i rfl hused halpath
    have hc := hcs c (List.mem_cons_self ..)
    have hsearch := search_mounted h hused halpath
    unfold route
    rw [path_cons, find_path hc, hsearch]
    exact switch_mounted hc (fun d hd => hcs d (List.mem_cons_of_mem _ hd)) halpath hsearch
  · intro hnone
    cases cs with
    | nil =>
        rw [path_nil, join_nil, List.append_nil]
        exact route_root h.master_eq
    | cons c rest =>
        have hc := hcs c (List.mem_cons_self ..)
        have hsearch : t.search .virtual ('/' :: c) = none :=
          search_eq_none_iff.2 (hnone c rest rfl)
        unfold route
        rw [path_cons, find_path hc, hsearch]
        simp only [if_true]
        rw [h.master_eq]
        exact switch_unmounted hc (fun d hd => hcs d (List.mem_cons_of_mem _ hd)) h.master_eq
          h.master_used hsearch

/-- The disk at `/root`, which is the master entry, and the devices at `/dev`. -/
def bootTable : PathTable :=
  { entries := fun i =>
      if i = 0 then ⟨1, ['0', ':'], ['/', 'r', 'o', 'o', 't'], ['r', 'a', 'm', '0']⟩
      else if i = 1 then ⟨2, ['/', 'd', 'e', 'v', 'f', 's'], ['/', 'd', 'e', 'v'],
        ['r', 'a', 'm', '0']⟩
      else ⟨0, [], [], []⟩
    master := some 0 }

theorem bootTable_used {i : Fin faslPathNr} (h : (bootTable.entries i).used = true) :
    i = 0 ∨ i = 1 := by
  revert i
  decide

theorem bootTable_mounted : Mounted bootTable 0 where
  single := by
    intro i hi
    rcases bootTable_used hi with rfl | rfl
    · exact ⟨['r', 'o', 'o', 't'], ⟨by decide, by decide⟩, rfl⟩
    · exact ⟨['d', 'e', 'v'], ⟨by decide, by decide⟩, rfl⟩
  distinct := by
    intro i j hi hj heq
    rcases bootTable_used hi with rfl | rfl <;> rcases bootTable_used hj with rfl | rfl
    · rfl
    · exact absurd heq (by decide)
    · exact absurd heq (by decide)
    · rfl
  master_eq := rfl
  master_used := rfl

/-- `/dev/tty` and `/bin/sh`. -/
theorem route_path_boot :
    route bootTable (path '/' [['d', 'e', 'v'], ['t', 't', 'y']]) =
        some (['/', 'd', 'e', 'v', 'f', 's'] ++ join '/' [['t', 't', 'y']]) ∧
      route bootTable (path '/' [['b', 'i', 'n'], ['s', 'h']]) =
        some (['0', ':'] ++ join '/' [['b', 'i', 'n'], ['s', 'h']]) := by
  constructor
  · apply (route_path bootTable_mounted _).1 ['d', 'e', 'v'] [['t', 't', 'y']] 1 rfl rfl rfl
    intro c hc
    simp only [List.mem_cons, List.not_mem_nil, or_false] at hc
    rcases hc with rfl | rfl <;> exact ⟨by decide, by decide⟩
  · apply (route_path bootTable_mounted _).2
    · rintro c rest ⟨⟩ i hi
      rcases bootTable_used hi with rfl | rfl <;> decide
    · intro c hc
      simp only [List.mem_cons, List.not_mem_nil, or_false] at hc
      rcases hc with rfl | rfl <;> exact ⟨by decide, by decide⟩

end FsPath
end LightOS
