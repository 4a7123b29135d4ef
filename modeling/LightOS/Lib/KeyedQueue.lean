import Mathlib

/-!
# Taking elements from a list by key

Each element has a key; to take a key is to remove the first element that has it.  This file
says what a whole series of takes returns and what it leaves.

* `filter_rest` — of every key, what is left is what there was, less as many as were taken.
* `answers_getElem?` — the `n`-th take of a key returns the `n`-th element with that key.
* `answers_self` — taking the keys in the order of the elements returns the elements.
-/

namespace KeyedQueue

variable {α κ : Type} [DecidableEq κ] (key : α → κ)

/-- The elements with key `k`. -/
def withKey (k : κ) (l : List α) : List α := l.filter fun a => key a = k

/-- The first element with key `k`. -/
def first (k : κ) (l : List α) : Option α := l.find? fun a => key a = k

/-- The list without its first element with key `k`. -/
def without (k : κ) (l : List α) : List α := l.eraseP fun a => key a = k

/-- What is left after a series of takes. -/
def rest (l : List α) : List κ → List α
  | [] => l
  | k :: ks => rest (without key k l) ks

/-- What a series of takes returns. -/
def answers (l : List α) : List κ → List (Option α)
  | [] => []
  | k :: ks => first key k l :: answers (without key k l) ks

variable {key}

theorem without_cons_of_eq {a : α} {k : κ} (h : key a = k) (l : List α) :
    without key k (a :: l) = l := by
  simp [without, h]

theorem without_cons_of_ne {a : α} {k : κ} (h : key a ≠ k) (l : List α) :
    without key k (a :: l) = a :: without key k l := by
  simp [without, h]

theorem first_eq_head? (k : κ) (l : List α) : first key k l = (withKey key k l).head? := by
  rw [first, withKey, List.head?_filter]

theorem withKey_without (k k' : κ) (l : List α) :
    withKey key k (without key k' l) =
      if k = k' then (withKey key k l).tail else withKey key k l := by
  unfold withKey without
  induction l with
  | nil => simp
  | cons a l ih =>
      by_cases ha : key a = k'
      · rw [List.eraseP_cons_of_pos (by simpa using ha)]
        by_cases hk : k = k'
        · rw [if_pos hk, List.filter_cons_of_pos (by simpa [hk] using ha), List.tail_cons]
        · have hne : key a ≠ k := fun h => hk (h.symm.trans ha)
          rw [if_neg hk, List.filter_cons_of_neg (by simpa using hne)]
      · rw [List.eraseP_cons_of_neg (by simpa using ha), List.filter_cons, List.filter_cons, ih]
        by_cases hk : k = k'
        · simp [hk, ha]
        · simp [hk]

/-- Of every key, what is left is what there was, less as many as were taken. -/
theorem filter_rest (k : κ) (ks : List κ) :
    ∀ l : List α, withKey key k (rest key l ks) = (withKey key k l).drop (ks.count k) := by
  induction ks with
  | nil => intro l; simp [rest]
  | cons k' ks ih =>
      intro l
      rw [rest, ih, withKey_without, List.count_cons]
      by_cases hk : k = k'
      · rw [if_pos hk, if_pos (by simpa using hk.symm), List.drop_tail]
      · rw [if_neg hk, if_neg (by simpa using Ne.symm hk), Nat.add_zero]

/-- The `n`-th take of a key returns the `n`-th element with that key. -/
theorem answers_getElem? (ks : List κ) : ∀ (l : List α) (j : ℕ) (k : κ), ks[j]? = some k →
    (answers key l ks)[j]? = some (withKey key k l)[(ks.take j).count k]? := by
  induction ks with
  | nil => intro l j k h; simp at h
  | cons k' ks ih =>
      intro l j k h
      cases j with
      | zero =>
          rw [List.getElem?_cons_zero, Option.some.injEq] at h
          subst h
          rw [answers, List.getElem?_cons_zero, first_eq_head?, List.head?_eq_getElem?]
          simp
      | succ j =>
          rw [List.getElem?_cons_succ] at h
          rw [answers, List.getElem?_cons_succ, ih _ j k h, withKey_without, List.take_succ_cons,
            List.count_cons]
          by_cases hk : k = k'
          · rw [if_pos hk, if_pos (by simpa using hk.symm), List.getElem?_tail]
          · rw [if_neg hk, if_neg (by simpa using Ne.symm hk), Nat.add_zero]

/-- A key that was taken as often as it occurs is used up. -/
theorem first_rest_eq_none {k : κ} {ks : List κ} {l : List α}
    (h : ks.count k = (withKey key k l).length) : first key k (rest key l ks) = none := by
  rw [first_eq_head?, filter_rest, h, List.drop_length, List.head?_nil]

/-- Taking the keys in the order of the elements returns the elements. -/
theorem answers_self (l : List α) : answers key l (l.map key) = l.map some := by
  induction l with
  | nil => rfl
  | cons a l ih =>
      have hfirst : first key (key a) (a :: l) = some a := List.find?_cons_of_pos (by simp)
      rw [List.map_cons, answers, hfirst, without_cons_of_eq rfl, ih, List.map_cons]

theorem length_answers (ks : List κ) : ∀ l : List α, (answers key l ks).length = ks.length := by
  induction ks with
  | nil => intro l; rfl
  | cons k ks ih => intro l; rw [answers, List.length_cons, ih, List.length_cons]

/-! ## Slots

The list may be what a row of slots holds, in the order of the slots. -/

/-- Slot `i` holds an element with key `k`. -/
def slotHas {ι : Type} (key : α → κ) (f : ι → Option α) (k : κ) (i : ι) : Bool :=
  (f i).any fun a => key a = k

/-- The first slot whose element has key `k` holds the first element with key `k`. -/
theorem first_filterMap {ι : Type} (f : ι → Option α) (k : κ) (slots : List ι) :
    first key k (slots.filterMap f) = (slots.find? (slotHas key f k)).bind f := by
  unfold first
  rw [List.find?_filterMap]
  rfl

/-- Clearing that slot removes the first element with key `k`. -/
theorem without_filterMap {ι : Type} [DecidableEq ι] (f f' : ι → Option α) (k : κ) {i : ι}
    (hclear : f' i = none) (hkeep : ∀ j, j ≠ i → f' j = f j) : ∀ {slots : List ι}, slots.Nodup →
      slots.find? (slotHas key f k) = some i →
      slots.filterMap f' = without key k (slots.filterMap f) := by
  intro slots
  induction slots with
  | nil => intro _ h; simp at h
  | cons j slots ih =>
      intro hnodup h
      obtain ⟨hj, hnodup⟩ := List.nodup_cons.1 hnodup
      by_cases hji : j = i
      · subst hji
        have hkept : slots.filterMap f' = slots.filterMap f :=
          List.filterMap_congr fun x hx => hkeep x fun hxj => hj (hxj ▸ hx)
        have hhas : slotHas key f k j = true := List.find?_some h
        obtain ⟨a, ha, hkey⟩ := (Option.any_eq_true _ _).1 hhas
        rw [List.filterMap_cons_none hclear, hkept, List.filterMap_cons_some ha]
        exact (without_cons_of_eq (of_decide_eq_true hkey) _).symm
      · have hskip : ¬ slotHas key f k j = true := by
          intro hany
          rw [List.find?_cons_of_pos hany, Option.some.injEq] at h
          exact hji h
        rw [List.find?_cons_of_neg hskip] at h
        have hrest := ih hnodup h
        cases hfj : f j with
        | none =>
            rw [List.filterMap_cons_none ((hkeep j hji).trans hfj), List.filterMap_cons_none hfj,
              hrest]
        | some a =>
            have hne : key a ≠ k := by
              intro hkey
              exact hskip (by rw [slotHas, hfj]; exact decide_eq_true hkey)
            rw [List.filterMap_cons_some ((hkeep j hji).trans hfj), List.filterMap_cons_some hfj,
              hrest]
            exact (without_cons_of_ne hne _).symm

/-- Slots that hold the elements of a list from the first slot on. -/
theorem filterMap_range {β : Type} (g : β → Option α) (l : List β) : ∀ {n : ℕ}, l.length ≤ n →
    (List.range n).filterMap (fun i => l[i]?.bind g) = l.filterMap g := by
  induction l with
  | nil => intro n _; simp
  | cons b l ih =>
      intro n hn
      obtain ⟨n, rfl⟩ := Nat.exists_eq_succ_of_ne_zero (show n ≠ 0 by simp at hn; omega)
      have htail := ih (show l.length ≤ n by simpa using hn)
      rw [List.range_succ_eq_map, List.filterMap_cons, List.filterMap_map, List.filterMap_cons]
      simp only [List.getElem?_cons_zero, Option.bind_some, Function.comp_def,
        List.getElem?_cons_succ, htail]

end KeyedQueue
