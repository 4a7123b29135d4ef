import Mathlib

/-!
# Tables of slots

A table with a fixed number of slots, some of which are taken.  A new value goes into the first
slot that is free; a value is taken out by making its slot free.  What a table holds is the
list of the values in its taken slots, in the order of the slots.

* `taken_update_perm_cons`, `taken_perm_cons_update` — what putting in and taking out do to the
  list, up to order.
* `Filled.insert` — a table that is filled from the front keeps the order of its values.
-/

namespace LightOS
namespace Slots

variable {n : ℕ} {α : Type*} {used : α → Bool} {t : Fin n → α}

/-- The first slot that is free. -/
def firstFree (used : α → Bool) (t : Fin n → α) : Option (Fin n) :=
  (List.finRange n).find? fun i => !used (t i)

/-- The values in the slots that are taken, in order. -/
def taken (used : α → Bool) (t : Fin n → α) : List α := ((List.finRange n).map t).filter used

theorem firstFree_eq_some {i : Fin n} (h : firstFree used t = some i) : used (t i) = false := by
  have hfound := List.find?_some h
  simpa using hfound

theorem firstFree_eq_none_iff : firstFree used t = none ↔ ∀ i, used (t i) = true := by
  unfold firstFree
  rw [List.find?_eq_none]
  simp

theorem exists_firstFree {i : Fin n} (h : used (t i) = false) : ∃ k, firstFree used t = some k := by
  apply Option.ne_none_iff_exists'.1
  intro hnone
  have hused := firstFree_eq_none_iff.1 hnone i
  rw [h] at hused
  cases hused

theorem mem_taken {x : α} : x ∈ taken used t ↔ ∃ i, used (t i) = true ∧ t i = x := by
  unfold taken
  rw [List.mem_filter, List.mem_map]
  constructor
  · rintro ⟨⟨i, -, rfl⟩, hused⟩
    exact ⟨i, hused, rfl⟩
  · rintro ⟨i, hused, rfl⟩
    exact ⟨⟨i, List.mem_finRange i, rfl⟩, hused⟩

/-! ## One slot -/

/-- The list around one slot does not depend on the slot; what comes after it comes from later
slots. -/
theorem taken_split (used : α → Bool) (t : Fin n → α) (i : Fin n) :
    ∃ l r, (∀ y ∈ r, ∃ j, i < j ∧ used (t j) = true) ∧
      ∀ x, taken used (Function.update t i x) = l ++ ([x].filter used ++ r) := by
  obtain ⟨l, r, hlr⟩ := List.append_of_mem (List.mem_finRange i)
  have hsorted := List.pairwise_lt_finRange n
  rw [hlr, List.pairwise_append, List.pairwise_cons] at hsorted
  obtain ⟨-, ⟨hr, -⟩, hl⟩ := hsorted
  refine ⟨(l.map t).filter used, (r.map t).filter used, ?_, fun x => ?_⟩
  · intro y hy
    obtain ⟨hmap, hused⟩ := List.mem_filter.1 hy
    obtain ⟨j, hj, rfl⟩ := List.mem_map.1 hmap
    exact ⟨j, hr j hj, hused⟩
  · have hleft : l.map (Function.update t i x) = l.map t := by
      apply List.map_congr_left
      intro j hj
      exact Function.update_of_ne (hl j hj i (List.mem_cons_self ..)).ne _ _
    have hright : r.map (Function.update t i x) = r.map t := by
      apply List.map_congr_left
      intro j hj
      exact Function.update_of_ne (hr j hj).ne' _ _
    rw [taken, hlr, List.map_append, List.map_cons, hleft, hright, Function.update_self,
      List.filter_append, ← List.singleton_append, List.filter_append]

/-- **Putting a value into a free slot** adds it to the list. -/
theorem taken_update_perm_cons {i : Fin n} {x : α} (hfree : used (t i) = false)
    (hx : used x = true) :
    (taken used (Function.update t i x)).Perm (x :: taken used t) := by
  obtain ⟨l, r, -, hsplit⟩ := taken_split used t i
  have hself := hsplit (t i)
  rw [Function.update_eq_self, List.filter_cons_of_neg (by simp [hfree])] at hself
  rw [hsplit x, hself, List.filter_cons_of_pos hx]
  exact List.perm_middle

/-- **Making a slot free** takes its value out of the list. -/
theorem taken_perm_cons_update {i : Fin n} {x : α} (hused : used (t i) = true)
    (hx : used x = false) :
    (taken used t).Perm (t i :: taken used (Function.update t i x)) := by
  obtain ⟨l, r, -, hsplit⟩ := taken_split used t i
  have hself := hsplit (t i)
  rw [Function.update_eq_self, List.filter_cons_of_pos hused] at hself
  rw [hself, hsplit x, List.filter_cons_of_neg (by simp [hx])]
  exact List.perm_middle

/-- **Writing over a value** takes the old one out and puts the new one in. -/
theorem taken_update_replace {i : Fin n} {x : α} (hused : used (t i) = true) (hx : used x = true) :
    ∃ rest, (taken used t).Perm (t i :: rest) ∧
      (taken used (Function.update t i x)).Perm (x :: rest) := by
  obtain ⟨l, r, -, hsplit⟩ := taken_split used t i
  have hself := hsplit (t i)
  rw [Function.update_eq_self, List.filter_cons_of_pos hused] at hself
  refine ⟨l ++ r, ?_, ?_⟩
  · rw [hself]
    exact List.perm_middle
  · rw [hsplit x, List.filter_cons_of_pos hx]
    exact List.perm_middle

/-- What a free slot holds does not matter. -/
theorem taken_update_of_free {i : Fin n} {x : α} (hfree : used (t i) = false)
    (hx : used x = false) :
    taken used (Function.update t i x) = taken used t := by
  obtain ⟨l, r, -, hsplit⟩ := taken_split used t i
  have hself := hsplit (t i)
  rw [Function.update_eq_self, List.filter_cons_of_neg (by simp [hfree])] at hself
  rw [hself, hsplit x, List.filter_cons_of_neg (by simp [hx])]

theorem length_taken_le (used : α → Bool) (t : Fin n → α) : (taken used t).length ≤ n := by
  have hle := List.length_filter_le used ((List.finRange n).map t)
  rwa [List.length_map, List.length_finRange] at hle

/-- A table with a free slot holds fewer values than it has slots. -/
theorem length_taken_lt {i : Fin n} (hfree : used (t i) = false) : (taken used t).length < n := by
  have hlt : (taken used t).length < ((List.finRange n).map t).length := by
    unfold taken
    apply List.length_filter_lt_length_iff_exists.2
    exact ⟨t i, List.mem_map_of_mem (List.mem_finRange i), by simp [hfree]⟩
  rwa [List.length_map, List.length_finRange] at hlt

/-! ## Filling from the front -/

/-- The first `k` slots are taken, the others are free. -/
def Filled (used : α → Bool) (t : Fin n → α) (k : ℕ) : Prop :=
  ∀ i : Fin n, used (t i) = decide (i.val < k)

theorem Filled.firstFree {k : ℕ} (h : Filled used t k) (hk : k < n) :
    firstFree used t = some ⟨k, hk⟩ := by
  cases hfree : Slots.firstFree used t with
  | none =>
      have hused := firstFree_eq_none_iff.1 hfree ⟨k, hk⟩
      rw [h] at hused
      simp at hused
  | some i =>
      have hi := firstFree_eq_some hfree
      rw [h, decide_eq_false_iff_not, not_lt] at hi
      -- no slot before the one found is free
      obtain ⟨-, l, r, hlr, hbefore⟩ := List.find?_eq_some_iff_append.1 hfree
      have hmem := List.mem_finRange (⟨k, hk⟩ : Fin n)
      have hsorted := List.pairwise_lt_finRange n
      rw [hlr, List.mem_append, List.mem_cons] at hmem
      rw [hlr, List.pairwise_append, List.pairwise_cons] at hsorted
      rcases hmem with hmem | rfl | hmem
      · have hused := hbefore _ hmem
        rw [h] at hused
        simp at hused
      · rfl
      · have hlt := Fin.lt_def.1 (hsorted.2.1.1 _ hmem)
        simp only at hlt
        omega

/-- **Putting a value into a table that is filled from the front** puts it at the end. -/
theorem Filled.insert {k : ℕ} (h : Filled used t k) (hk : k < n) {x : α} (hx : used x = true) :
    Filled used (Function.update t ⟨k, hk⟩ x) (k + 1) ∧
      taken used (Function.update t ⟨k, hk⟩ x) = taken used t ++ [x] := by
  constructor
  · intro i
    by_cases hi : i = ⟨k, hk⟩
    · subst hi
      rw [Function.update_self, hx]
      simp
    · have hne : i.val ≠ k := fun hval => hi (Fin.ext hval)
      rw [Function.update_of_ne hi, h i]
      apply decide_eq_decide.2
      omega
  · obtain ⟨l, r, hlater, hsplit⟩ := taken_split used t ⟨k, hk⟩
    have hr : r = [] := by
      apply List.eq_nil_iff_forall_not_mem.2
      intro y hy
      obtain ⟨j, hj, hused⟩ := hlater y hy
      rw [h, decide_eq_true_eq] at hused
      have := Fin.lt_def.1 hj
      simp only at this
      omega
    have hself := hsplit (t ⟨k, hk⟩)
    have hfree : used (t ⟨k, hk⟩) = false := by
      rw [h]
      simp
    rw [Function.update_eq_self, List.filter_cons_of_neg (by simp [hfree]), hr, List.filter_nil,
      List.append_nil, List.append_nil] at hself
    rw [hsplit x, hself, hr, List.filter_cons_of_pos hx]
    rfl

end Slots
end LightOS
