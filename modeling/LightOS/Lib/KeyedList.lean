import LightOS.Lib.KeyedQueue

/-!
# Changing elements of a list by key

A list of elements with keys, no two of them the same, is a store.  To change a key is to replace
the first element that has it, or to take it out.

* `first_change_self`, `first_change_of_ne` — what is found after a change.
* `nodup_change` — keys stay different.
-/

namespace KeyedQueue

variable {α κ : Type} [DecidableEq κ] {key : α → κ}

/-- The list with its first element with key `k` replaced, or taken out where `f` has nothing. -/
def change (key : α → κ) (k : κ) (f : α → Option α) : List α → List α
  | [] => []
  | a :: l => if key a = k then (f a).toList ++ l else a :: change key k f l

theorem first_cons (a : α) (k : κ) (l : List α) :
    first key k (a :: l) = if key a = k then some a else first key k l := by
  unfold first
  by_cases h : key a = k
  · rw [List.find?_cons_of_pos (by simpa using h), if_pos h]
  · rw [List.find?_cons_of_neg (by simpa using h), if_neg h]

theorem first_eq_none_iff {k : κ} {l : List α} : first key k l = none ↔ ∀ a ∈ l, key a ≠ k := by
  unfold first
  rw [List.find?_eq_none]
  simp

theorem first_eq_some {k : κ} {l : List α} {a : α} (h : first key k l = some a) :
    a ∈ l ∧ key a = k :=
  ⟨List.mem_of_find?_eq_some h, by simpa using List.find?_some h⟩

/-- In a store, what is there is found. -/
theorem first_of_mem {l : List α} (hnodup : (l.map key).Nodup) {a : α} (ha : a ∈ l) :
    first key (key a) l = some a := by
  induction l with
  | nil => cases ha
  | cons b l ih =>
      rw [List.map_cons, List.nodup_cons] at hnodup
      rw [first_cons]
      rcases List.mem_cons.1 ha with rfl | ha
      · exact if_pos rfl
      · rw [if_neg]
        · exact ih hnodup.2 ha
        · intro heq
          exact hnodup.1 (List.mem_map.2 ⟨a, ha, heq.symm⟩)

theorem first_append_of_none {k : κ} {l : List α} (h : first key k l = none) (m : List α) :
    first key k (l ++ m) = first key k m := by
  unfold first at *
  rw [List.find?_append, h, Option.none_or]

theorem first_append_of_some {k : κ} {l : List α} {a : α} (h : first key k l = some a)
    (m : List α) :
    first key k (l ++ m) = some a := by
  unfold first at *
  rw [List.find?_append, h, Option.some_or]

section Change

variable {k : κ} {f : α → Option α} (hf : ∀ a b, f a = some b → key b = key a)

include hf

theorem first_change_of_ne {k' : κ} (hne : k' ≠ k) (l : List α) :
    first key k' (change key k f l) = first key k' l := by
  induction l with
  | nil => rfl
  | cons a l ih =>
      unfold change
      rw [first_cons]
      split_ifs with ha hk hk
      · exact absurd (hk.symm.trans ha) hne
      · cases hfa : f a with
        | none => rfl
        | some b =>
            have hb : key b ≠ k' := by
              rw [hf a b hfa, ha]
              exact hne.symm
            rw [Option.toList_some, List.singleton_append, first_cons, if_neg hb]
      · rw [first_cons, if_pos hk]
      · rw [first_cons, if_neg hk, ih]

/-- Changes take no key in. -/
theorem map_key_change_sublist (l : List α) : ((change key k f l).map key).Sublist (l.map key) := by
  induction l with
  | nil => exact List.Sublist.refl _
  | cons a l ih =>
      unfold change
      split_ifs with ha
      · cases hfa : f a with
        | none => exact List.sublist_cons_self _ _
        | some b =>
            rw [Option.toList_some, List.singleton_append, List.map_cons, List.map_cons, hf a b hfa]
      · exact ih.cons_cons _

/-- **Keys stay different.** -/
theorem nodup_change {l : List α} (hnodup : (l.map key).Nodup) :
    ((change key k f l).map key).Nodup :=
  (map_key_change_sublist hf l).nodup hnodup

/-- **What is found of the key that was changed.** -/
theorem first_change_self {l : List α} (hnodup : (l.map key).Nodup) :
    first key k (change key k f l) = (first key k l).bind f := by
  induction l with
  | nil => rfl
  | cons a l ih =>
      rw [List.map_cons, List.nodup_cons] at hnodup
      unfold change
      rw [first_cons]
      split_ifs with ha
      · have hrest : first key k l = none := by
          apply first_eq_none_iff.2
          intro b hb heq
          exact hnodup.1 (List.mem_map.2 ⟨b, hb, heq.trans ha.symm⟩)
        rw [Option.bind_some]
        cases hfa : f a with
        | none => exact hrest
        | some b =>
            rw [Option.toList_some, List.singleton_append, first_cons,
              if_pos ((hf a b hfa).trans ha)]
      · rw [first_cons, if_neg ha, ih hnodup.2]

end Change

theorem mem_change {k : κ} {f : α → Option α} {l : List α} {b : α} (h : b ∈ change key k f l) :
    b ∈ l ∨ ∃ a, first key k l = some a ∧ f a = some b := by
  induction l with
  | nil => cases h
  | cons a l ih =>
      unfold change at h
      rw [first_cons]
      split_ifs at h ⊢ with ha
      · rcases List.mem_append.1 h with h | h
        · exact Or.inr ⟨a, rfl, Option.mem_toList.1 h⟩
        · exact Or.inl (List.mem_cons_of_mem _ h)
      · rcases List.mem_cons.1 h with rfl | h
        · exact Or.inl (List.mem_cons_self ..)
        · rcases ih h with h | hfound
          · exact Or.inl (List.mem_cons_of_mem _ h)
          · exact Or.inr hfound

end KeyedQueue
