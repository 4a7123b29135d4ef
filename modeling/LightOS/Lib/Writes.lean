import Mathlib

/-!
# Rows of cells that are written one after the other

A memory is a function from its places; a write is a list of cells, each a place with the value it
gets.

* `store_of_mem` — a write that names no place twice leaves what it says.
* `Apart` — two writes without a common place.
* `storeAll_of_mem` — of writes that are pairwise apart every one can still be read.
-/

namespace Writes

variable {ι β : Type} [DecidableEq ι] {m : ι → β} {a : ι} {b : β} {u w : List (ι × β)}
  {ws : List (List (ι × β))}

/-- One write. -/
def store (m : ι → β) (w : List (ι × β)) : ι → β := w.foldl (fun m c => Function.update m c.1 c.2) m

/-- One write after the other. -/
def storeAll (m : ι → β) (ws : List (List (ι × β))) : ι → β := ws.foldl store m

theorem store_cons (m : ι → β) (c : ι × β) (w : List (ι × β)) :
    store m (c :: w) = store (Function.update m c.1 c.2) w := rfl

theorem storeAll_cons (m : ι → β) (w : List (ι × β)) (ws : List (List (ι × β))) :
    storeAll m (w :: ws) = storeAll (store m w) ws := rfl

/-- The other places keep what they have. -/
theorem store_of_not_mem (h : a ∉ w.map Prod.fst) : store m w a = m a := by
  induction w generalizing m with
  | nil => rfl
  | cons c w ih =>
      rw [List.map_cons, List.mem_cons, not_or] at h
      rw [store_cons, ih h.2, Function.update_of_ne h.1]

/-- A cell that is written once holds its value. -/
theorem store_of_mem (hnodup : (w.map Prod.fst).Nodup) (h : (a, b) ∈ w) : store m w a = b := by
  induction w generalizing m with
  | nil => cases h
  | cons c w ih =>
      rw [List.map_cons, List.nodup_cons] at hnodup
      rw [store_cons]
      rcases List.mem_cons.1 h with rfl | hw
      · rw [store_of_not_mem hnodup.1, Function.update_self]
      · exact ih hnodup.2 hw

omit [DecidableEq ι] in
/-- The writes have no place in common. -/
def Apart (u w : List (ι × β)) : Prop := ∀ c ∈ u, ∀ d ∈ w, c.1 ≠ d.1

omit [DecidableEq ι] in
theorem Apart.not_mem (h : Apart u w) (ha : a ∈ u.map Prod.fst) : a ∉ w.map Prod.fst := by
  obtain ⟨c, hc, rfl⟩ := List.mem_map.1 ha
  rintro hw
  obtain ⟨d, hd, heq⟩ := List.mem_map.1 hw
  exact h c hc d hd heq.symm

theorem storeAll_of_not_mem (h : ∀ w ∈ ws, a ∉ w.map Prod.fst) : storeAll m ws a = m a := by
  induction ws generalizing m with
  | nil => rfl
  | cons w ws ih =>
      obtain ⟨hw, hws⟩ := List.forall_mem_cons.1 h
      rw [storeAll_cons, ih hws, store_of_not_mem hw]

/-- **Of writes that are pairwise apart every one can still be read.** -/
theorem storeAll_of_mem (hapart : ws.Pairwise Apart) (hnodup : ∀ w ∈ ws, (w.map Prod.fst).Nodup)
    (hw : w ∈ ws) (h : (a, b) ∈ w) : storeAll m ws a = b := by
  induction ws generalizing m with
  | nil => cases hw
  | cons v ws ih =>
      obtain ⟨hv, hws⟩ := List.pairwise_cons.1 hapart
      obtain ⟨hvnodup, hwsnodup⟩ := List.forall_mem_cons.1 hnodup
      rw [storeAll_cons]
      rcases List.mem_cons.1 hw with rfl | hmem
      · rw [storeAll_of_not_mem fun u hu => (hv u hu).not_mem (List.mem_map_of_mem h),
          store_of_mem hvnodup h]
      · exact ih hws hwsnodup hmem

end Writes
