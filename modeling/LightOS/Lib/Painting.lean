import Mathlib

/-!
# Painting one thing over the other

A surface is a function from its places to what is there.  Programs paint on it in loops, and a
later stroke covers an earlier one.

* `topmost` — the last element of a list that has a property; `topmost_of_pairwise` for a list in
  order.
* `foldl_paint` — at one place, a list of things painted one after the other shows the topmost of
  those that are painted there.
* `foldl_update` — a loop that writes cell by cell, where all cells that come to one place agree.
-/

namespace Painting

variable {V ι β : Type} {P : V → Prop} [DecidablePred P] {l : List V} {v : V} {i : ι} {m : ι → β}

/-- The last element with a property. -/
def topmost (P : V → Prop) [DecidablePred P] (l : List V) : Option V :=
  l.reverse.find? fun v => decide (P v)

@[simp] theorem topmost_concat (l : List V) (v : V) :
    topmost P (l ++ [v]) = if P v then some v else topmost P l := by
  rw [topmost, List.reverse_append, List.reverse_singleton, List.singleton_append, List.find?_cons,
    topmost]
  by_cases hv : P v
  · rw [if_pos hv, decide_eq_true hv]
  · rw [if_neg hv, decide_eq_false hv]

theorem topmost_eq_none : topmost P l = none ↔ ∀ v ∈ l, ¬P v := by
  simp [topmost, List.find?_eq_none]

theorem topmost_some (h : topmost P l = some v) : v ∈ l ∧ P v := by
  refine ⟨List.mem_reverse.1 (List.mem_of_find?_eq_some h), ?_⟩
  simpa using List.find?_some h

/-- In a list that is ordered by a relation, the topmost element is above all others with the
property. -/
theorem topmost_above {r : V → V → Prop} (hl : l.Pairwise r) (h : topmost P l = some v) :
    ∀ w ∈ l, P w → w = v ∨ r w v := by
  induction l using List.reverseRecOn with
  | nil => cases h
  | append_singleton l u ih =>
      rw [topmost_concat] at h
      obtain ⟨hl, -, hlast⟩ := List.pairwise_append.1 hl
      intro w hw hPw
      split_ifs at h with hu
      · cases h
        rcases List.mem_append.1 hw with hw | hw
        · exact Or.inr (hlast w hw v (List.mem_singleton_self v))
        · exact Or.inl (List.mem_singleton.1 hw)
      · rcases List.mem_append.1 hw with hw | hw
        · exact ih hl h w hw hPw
        · rw [List.mem_singleton.1 hw] at hPw
          exact absurd hPw hu

/-- What no other element with the property is above is the topmost one. -/
theorem topmost_of_pairwise {r : V → V → Prop} (hl : l.Pairwise r) (hv : v ∈ l) (hPv : P v)
    (hmax : ∀ w ∈ l, P w → ¬r v w) : topmost P l = some v := by
  cases htop : topmost P l with
  | none => exact absurd hPv (topmost_eq_none.1 htop v hv)
  | some u =>
      obtain ⟨hu, hPu⟩ := topmost_some htop
      rcases topmost_above hl htop v hv hPv with rfl | hr
      · rfl
      · exact absurd hr (hmax u hu hPu)

/-- **Things painted one after the other**: at every place the topmost of those that are painted
there. -/
theorem foldl_paint (paint : V → (ι → β) → ι → β) {f : V → β}
    (h : ∀ v ∈ l, ∀ m, paint v m i = if P v then f v else m i) (m : ι → β) :
    l.foldl (fun m v => paint v m) m i = ((topmost P l).map f).getD (m i) := by
  induction l using List.reverseRecOn with
  | nil => rfl
  | append_singleton l v ih =>
      have hlast := h v (List.mem_append_right l (List.mem_singleton_self v))
      have hrest := ih fun w hw => h w (List.mem_append_left [v] hw)
      rw [List.foldl_append, List.foldl_cons, List.foldl_nil, hlast, topmost_concat, hrest]
      split_ifs <;> rfl

theorem topmost_append (a b : List V) : topmost P (a ++ b) = (topmost P b).or (topmost P a) := by
  rw [topmost, List.reverse_append, List.find?_append]
  rfl

/-- **Groups of things painted one after the other.** -/
theorem foldl_paint_groups {κ : Type} (group : κ → List V) (paint : κ → V → (ι → β) → ι → β)
    {f : V → β}
    (groups : List κ) (h : ∀ k ∈ groups, ∀ v ∈ group k, ∀ m, paint k v m i = if P v then
      f v else m i)
    (m : ι → β) :
    groups.foldl (fun m k => (group k).foldl (fun m v => paint k v m) m) m i =
      ((topmost P (groups.flatMap group)).map f).getD (m i) := by
  induction groups using List.reverseRecOn with
  | nil => rfl
  | append_singleton groups k ih =>
      have hrest := ih fun j hj => h j (List.mem_append_left [k] hj)
      have hlast :=
        foldl_paint (paint k) (h k (List.mem_append_right groups (List.mem_singleton_self k)))
      rw [List.foldl_append, List.foldl_cons, List.foldl_nil, hlast, hrest, List.flatMap_append,
        List.flatMap_singleton, topmost_append]
      cases topmost P (group k) <;> rfl

/-- **A loop over cells**: a place gets what its cells say. -/
theorem foldl_update [DecidableEq ι] {on : V → Prop} [DecidablePred on] {idx : V → ι} {val : V → β}
    {b : β} (h : ∀ a ∈ l, on a → idx a = i → val a = b) [Decidable (∃ a ∈ l, on a ∧ idx a = i)]
    (m : ι → β) :
    l.foldl (fun m a => if on a then Function.update m (idx a) (val a) else m) m i =
      if ∃ a ∈ l, on a ∧ idx a = i then b else m i := by
  have hpaint := foldl_paint (P := fun a => on a ∧ idx a = i) (f := val) (l := l) (i := i)
    (fun a m => if on a then Function.update m (idx a) (val a) else m) (fun a _ m => by
      by_cases hon : on a
      · by_cases hi : idx a = i
        · rw [if_pos hon, if_pos ⟨hon, hi⟩, ← hi, Function.update_self]
        · rw [if_pos hon, if_neg fun hboth => hi hboth.2, Function.update_of_ne (Ne.symm hi)]
      · rw [if_neg hon, if_neg fun hboth => hon hboth.1]) m
  rw [hpaint]
  cases htop : topmost (fun a => on a ∧ idx a = i) l with
  | none =>
      rw [if_neg]
      · rfl
      · rintro ⟨a, ha, hboth⟩
        exact topmost_eq_none.1 htop a ha hboth
  | some a =>
      obtain ⟨ha, hon, hi⟩ := topmost_some htop
      rw [if_pos ⟨a, ha, hon, hi⟩]
      exact h a ha hon hi

end Painting
