import Mathlib

/-!
# Cells on lists

Cells of a heap are kept on lists, one list under each key.  A cell that is on a list is
allocated, and it is there once: on one list, at one position.

* `Placed` — the invariant.
* `Placed.append`, `Placed.remove`, `Placed.clear` — a fresh cell is appended to a list, the
  first cell of a list is taken off it, a list is given up.
* `Placed.release` — a cell that is on no list is freed.
* `Full` — the invariant when there are no other allocated cells; `Full.enter`, `Full.move`,
  `Full.moveAll`, `Full.leave` say how cells come, change lists and go.
-/

namespace Places

variable {κ ρ : Type} [DecidableEq κ] [DecidableEq ρ]

/-- Every cell on a list is allocated and is on the lists only once. -/
structure Placed (lists : κ → List ρ) (live : ρ → Bool) : Prop where
  nodup : ∀ k, (lists k).Nodup
  apart : ∀ k k' r, r ∈ lists k → r ∈ lists k' → k = k'
  live : ∀ k, ∀ r ∈ lists k, live r = true

variable {lists : κ → List ρ} {live : ρ → Bool}

omit [DecidableEq κ] [DecidableEq ρ] in
theorem placed_empty (live : ρ → Bool) : Placed (fun _ : κ => []) live :=
  ⟨fun _ => List.nodup_nil, by simp, by simp⟩

/-- A fresh cell is appended to a list. -/
theorem Placed.append (h : Placed lists live) {r : ρ} (hr : live r = false) (k : κ) :
    Placed (Function.update lists k (lists k ++ [r])) (Function.update live r true) := by
  have hfresh : ∀ j, r ∉ lists j := by
    intro j hj
    rw [h.live j r hj] at hr
    cases hr
  have hmem : ∀ j x, x ∈ Function.update lists k (lists k ++ [r]) j →
      x ∈ lists j ∨ x = r ∧ j = k := by
    intro j x hx
    by_cases hj : j = k
    · subst hj
      rw [Function.update_self] at hx
      obtain hx | hx := List.mem_append.1 hx
      · exact Or.inl hx
      · exact Or.inr ⟨List.mem_singleton.1 hx, rfl⟩
    · rw [Function.update_of_ne hj] at hx
      exact Or.inl hx
  refine ⟨fun j => ?_, fun j j' x hx hx' => ?_, fun j x hx => ?_⟩
  · by_cases hj : j = k
    · subst hj
      rw [Function.update_self]
      refine List.nodup_append.2 ⟨h.nodup j, List.nodup_singleton r, fun x hx y hy hxy => ?_⟩
      rw [List.mem_singleton] at hy
      exact hfresh j (hy ▸ hxy ▸ hx)
    · rw [Function.update_of_ne hj]
      exact h.nodup j
  · obtain hold | ⟨hxr, hjk⟩ := hmem j x hx
    · obtain hold' | ⟨hxr, -⟩ := hmem j' x hx'
      · exact h.apart j j' x hold hold'
      · exact absurd (hxr ▸ hold) (hfresh j)
    · obtain hold' | ⟨-, hjk'⟩ := hmem j' x hx'
      · exact absurd (hxr ▸ hold') (hfresh j')
      · exact hjk.trans hjk'.symm
  · obtain hx | ⟨rfl, -⟩ := hmem j x hx
    · by_cases hxr : x = r
      · rw [hxr, Function.update_self]
      · rw [Function.update_of_ne hxr]
        exact h.live j x hx
    · rw [Function.update_self]

omit [DecidableEq κ] [DecidableEq ρ] in
/-- Lists that keep some of their cells, in some order, keep the invariant. -/
theorem Placed.sublists {lists' : κ → List ρ} (h : Placed lists live)
    (hsub : ∀ k, (lists' k).Sublist (lists k)) : Placed lists' live :=
  ⟨fun k => (h.nodup k).sublist (hsub k),
    fun k k' r hr hr' => h.apart k k' r ((hsub k).subset hr) ((hsub k').subset hr'),
    fun k r hr => h.live k r ((hsub k).subset hr)⟩

omit [DecidableEq ρ] in
/-- The first cell is taken off a list: after that it is on none. -/
theorem Placed.remove (h : Placed lists live) {k : κ} {r : ρ} {rest : List ρ}
    (hk : lists k = r :: rest) :
    Placed (Function.update lists k rest) live ∧ ∀ j, r ∉ Function.update lists k rest j := by
  have hsub : ∀ j, (Function.update lists k rest j).Sublist (lists j) := by
    intro j
    by_cases hj : j = k
    · subst hj
      rw [Function.update_self, hk]
      exact List.sublist_cons_self r rest
    · rw [Function.update_of_ne hj]
  refine ⟨h.sublists hsub, fun j hj => ?_⟩
  have hjk : j = k := h.apart j k r ((hsub j).subset hj) (by rw [hk]; exact List.mem_cons_self)
  subst hjk
  rw [Function.update_self] at hj
  have hnodup := h.nodup j
  rw [hk] at hnodup
  exact (List.nodup_cons.1 hnodup).1 hj

omit [DecidableEq κ] in
/-- A cell that is on no list is freed. -/
theorem Placed.release (h : Placed lists live) {r : ρ} (hr : ∀ k, r ∉ lists k) :
    Placed lists (Function.update live r false) := by
  refine ⟨h.nodup, h.apart, fun k x hx => ?_⟩
  have hxr : x ≠ r := fun e => hr k (e ▸ hx)
  rw [Function.update_of_ne hxr]
  exact h.live k x hx

/-! ## Nothing else is allocated -/

/-- Every allocated cell is on a list, once. -/
structure Full (lists : κ → List ρ) (live : ρ → Bool) : Prop where
  placed : Placed lists live
  full : ∀ r, live r = true → ∃ k, r ∈ lists k

omit [DecidableEq κ] [DecidableEq ρ] in
theorem full_empty : Full (fun _ : κ => []) fun _ : ρ => false :=
  ⟨placed_empty _, by simp⟩

/-- A cell that is not allocated is put on an empty list. -/
theorem Full.enter (h : Full lists live) {r : ρ} {k : κ} (hr : live r = false) (hk : lists k = []) :
    Full (Function.update lists k [r]) (Function.update live r true) := by
  have hplaced := h.placed.append hr k
  rw [hk, List.nil_append] at hplaced
  refine ⟨hplaced, fun x hx => ?_⟩
  by_cases hxr : x = r
  · exact ⟨k, by rw [Function.update_self, hxr]; exact List.mem_singleton_self r⟩
  · rw [Function.update_of_ne hxr] at hx
    obtain ⟨j, hj⟩ := h.full x hx
    have hjk : j ≠ k := by
      rintro rfl
      rw [hk] at hj
      cases hj
    exact ⟨j, by rwa [Function.update_of_ne hjk]⟩

omit [DecidableEq ρ] in
/-- **The first cell of a list goes to the front of another one.** -/
theorem Full.move (h : Full lists live) {r : ρ} {rest : List ρ} {k j : κ} (hk : lists k = r :: rest)
    (hjk : j ≠ k) :
    Full (Function.update (Function.update lists k rest) j (r :: lists j)) live := by
  obtain ⟨hplaced, hout⟩ := h.placed.remove hk
  have hj : Function.update lists k rest j = lists j := Function.update_of_ne hjk _ _
  have hmem : ∀ i x, x ∈ Function.update (Function.update lists k rest) j (r :: lists j) i →
      x = r ∧ i = j ∨ x ∈ Function.update lists k rest i := by
    intro i x hx
    by_cases hij : i = j
    · rw [hij, Function.update_self] at hx
      rcases List.mem_cons.1 hx with hxr | hx
      · exact Or.inl ⟨hxr, hij⟩
      · exact Or.inr (by rwa [hij, hj])
    · rw [Function.update_of_ne hij] at hx
      exact Or.inr hx
  refine ⟨⟨fun i => ?_, fun i i' x hx hx' => ?_, fun i x hx => ?_⟩, fun x hx => ?_⟩
  · by_cases hij : i = j
    · rw [hij, Function.update_self]
      exact List.nodup_cons.2 ⟨hj ▸ hout j, h.placed.nodup j⟩
    · rw [Function.update_of_ne hij]
      exact hplaced.nodup i
  · rcases hmem i x hx with ⟨hxr, hij⟩ | hold <;> rcases hmem i' x hx' with ⟨hxr', hij'⟩ | hold'
    · rw [hij, hij']
    · exact absurd (hxr ▸ hold') (hout i')
    · exact absurd (hxr' ▸ hold) (hout i)
    · exact hplaced.apart i i' x hold hold'
  · rcases hmem i x hx with ⟨hxr, -⟩ | hold
    · rw [hxr]
      exact h.placed.live k r (by rw [hk]; exact List.mem_cons_self)
    · exact hplaced.live i x hold
  · by_cases hxr : x = r
    · exact ⟨j, by rw [Function.update_self, hxr]; exact List.mem_cons_self⟩
    · obtain ⟨i, hi⟩ := h.full x hx
      by_cases hij : i = j
      · refine ⟨j, ?_⟩
        rw [Function.update_self]
        exact List.mem_cons_of_mem _ (hij ▸ hi)
      · refine ⟨i, ?_⟩
        rw [Function.update_of_ne hij]
        by_cases hik : i = k
        · rw [hik, hk] at hi
          rw [hik, Function.update_self]
          exact (List.mem_cons.1 hi).resolve_left hxr
        · rwa [Function.update_of_ne hik]

omit [DecidableEq ρ] in
/-- **A list becomes another one**, which was empty. -/
theorem Full.moveAll (h : Full lists live) {k j : κ} (hj : lists j = []) (hjk : j ≠ k) :
    Full (Function.update (Function.update lists k []) j (lists k)) live := by
  -- the lists are the old ones with two names exchanged
  have hold : ∀ i, ∃ i', Function.update (Function.update lists k []) j (lists k) i = lists i' ∧
      (i' = if i = j then k else if i = k then j else i) := by
    intro i
    refine ⟨_, ?_, rfl⟩
    split_ifs with hij hik
    · rw [hij, Function.update_self]
    · rw [Function.update_of_ne hij, hik, Function.update_self, hj]
    · rw [Function.update_of_ne hij, Function.update_of_ne hik]
  refine ⟨⟨fun i => ?_, fun i i' x hx hx' => ?_, fun i x hx => ?_⟩, fun x hx => ?_⟩
  · obtain ⟨i', heq, -⟩ := hold i
    rw [heq]
    exact h.placed.nodup i'
  · obtain ⟨m, heq, hm⟩ := hold i
    obtain ⟨m', heq', hm'⟩ := hold i'
    rw [heq] at hx
    rw [heq'] at hx'
    have hsame := h.placed.apart m m' x hx hx'
    rw [hm, hm'] at hsame
    split_ifs at hsame <;> simp_all
  · obtain ⟨i', heq, -⟩ := hold i
    rw [heq] at hx
    exact h.placed.live i' x hx
  · obtain ⟨i, hi⟩ := h.full x hx
    have hij : i ≠ j := by
      rintro rfl
      rw [hj] at hi
      cases hi
    by_cases hik : i = k
    · exact ⟨j, by rw [Function.update_self, ← hik]; exact hi⟩
    · exact ⟨i, by rwa [Function.update_of_ne hij, Function.update_of_ne hik]⟩

/-- **The first cell of a list is freed.** -/
theorem Full.leave (h : Full lists live) {r : ρ} {rest : List ρ} {k : κ}
    (hk : lists k = r :: rest) :
    Full (Function.update lists k rest) (Function.update live r false) := by
  obtain ⟨hplaced, hout⟩ := h.placed.remove hk
  refine ⟨hplaced.release hout, fun x hx => ?_⟩
  have hxr : x ≠ r := by
    rintro rfl
    rw [Function.update_self] at hx
    cases hx
  rw [Function.update_of_ne hxr] at hx
  obtain ⟨i, hi⟩ := h.full x hx
  refine ⟨i, ?_⟩
  by_cases hik : i = k
  · rw [hik, hk] at hi
    rw [hik, Function.update_self]
    exact (List.mem_cons.1 hi).resolve_left hxr
  · rwa [Function.update_of_ne hik]

end Places
