import Mathlib

/-!
# Bounded queues that may lose a value

A queue takes values in and gives them out in order.  It has room for `cap` of them; a value that
comes when there is no room is rejected, or the oldest one is discarded for it.  Nothing else is
ever lost.

* `Behaves` — what the queue may answer to a list of calls.
* `behaves_put`, `behaves_put_full`, `behaves_get_nil`, `behaves_get_cons` — one call.
* `forall_take_cons` — a property of all beginnings of a list of calls, one call at a time.
-/

namespace BoundedQueue

/-- The calls on a queue. -/
inductive Call (α : Type) where
  | put (a : α)
  | get
  deriving DecidableEq

variable {α : Type} {cap : ℕ} {q : List α} {a : α} {o : Option α} {calls : List (Call α)}
  {answers : List (Option α)}

/-- The queue that holds `q` may answer a list of calls like this; there is one answer to each
`get`. -/
inductive Behaves (cap : ℕ) : List α → List (Call α) → List (Option α) → Prop
  | nil {q : List α} : Behaves cap q [] []
  | put {q : List α} {a : α} {calls : List (Call α)} {answers : List (Option α)}
      (hroom : q.length < cap)
      (h : Behaves cap (q ++ [a]) calls answers) : Behaves cap q (.put a :: calls) answers
  | reject {q : List α} {a : α} {calls : List (Call α)} {answers : List (Option α)}
      (hfull : cap ≤ q.length)
      (h : Behaves cap q calls answers) : Behaves cap q (.put a :: calls) answers
  | discard {q : List α} {a : α} {calls : List (Call α)} {answers : List (Option α)}
      (hfull : cap ≤ q.length)
      (h : Behaves cap (q.tail ++ [a]) calls answers) : Behaves cap q (.put a :: calls) answers
  | get {q : List α} {a : α} {calls : List (Call α)} {answers : List (Option α)}
      (h : Behaves cap q calls answers) : Behaves cap (a :: q) (.get :: calls) (some a :: answers)
  | empty {calls : List (Call α)} {answers : List (Option α)}
      (h : Behaves cap [] calls answers) : Behaves cap [] (.get :: calls) (none :: answers)

theorem behaves_put (hroom : q.length < cap) :
    Behaves cap q (.put a :: calls) answers ↔ Behaves cap (q ++ [a]) calls answers := by
  constructor
  · intro h
    cases h with
    | put _ h => exact h
    | reject hfull _ => omega
    | discard hfull _ => omega
  · exact .put hroom

theorem behaves_put_full (hfull : cap ≤ q.length) : Behaves cap q (.put a :: calls) answers ↔
    Behaves cap q calls answers ∨ Behaves cap (q.tail ++ [a]) calls answers := by
  constructor
  · intro h
    cases h with
    | put hroom _ => omega
    | reject _ h => exact Or.inl h
    | discard _ h => exact Or.inr h
  · exact fun h => h.elim (.reject hfull) (.discard hfull)

theorem behaves_get_nil :
    Behaves cap [] (.get :: calls) (o :: answers) ↔ o = none ∧ Behaves cap [] calls answers := by
  constructor
  · intro h
    cases h with
    | empty h => exact ⟨rfl, h⟩
  · rintro ⟨rfl, h⟩
    exact .empty h

theorem behaves_get_cons :
    Behaves cap (a :: q) (.get :: calls) (o :: answers) ↔
      o = some a ∧ Behaves cap q calls answers := by
  constructor
  · intro h
    cases h with
    | get h => exact ⟨rfl, h⟩
  · rintro ⟨rfl, h⟩
    exact .get h

/-- A queue that holds something does not answer that it is empty. -/
theorem not_behaves_empty (hq : q ≠ []) : ¬ Behaves cap q (.get :: calls) (none :: answers) := by
  intro h
  cases h
  exact hq rfl

/-- All beginnings of a list: none of it, and the first call with all beginnings of the rest. -/
theorem forall_take_cons (P : List (Call α) → Prop) (c : Call α) (calls last : List (Call α)) :
    (∀ k, P ((c :: calls).take k ++ last)) ↔ P last ∧ ∀ k, P (c :: (calls.take k ++ last)) := by
  constructor
  · exact fun h => ⟨h 0, fun k => h (k + 1)⟩
  · rintro ⟨hzero, hsucc⟩ k
    cases k with
    | zero => exact hzero
    | succ k => exact hsucc k

end BoundedQueue
