import Mathlib.Logic.Function.Basic

/-!
# Programs with spinlocks

A party runs alone, with any number of spinlocks that are not recursive: to take one that is taken
already is to wait for ever.  Giving back makes a lock free, whoever has taken it.

* `Prog` — programs on a store and the locks.
* `Machine.take`, `Machine.give` — what the two operations do; `give_take`, `give_take_swap` put
  them together, and `lock_change_bind` is a change with a lock.
* `NoDeadlock`, `Clear` — the two properties of a run.
-/

namespace SpinLock

/-- Why a program does not go on: it waits for a lock that is taken, or an assertion fails. -/
inductive Halt (K : Type) where
  | deadlock (l : K)
  | assertion
  deriving DecidableEq

/-- The store, and the locks that are taken. -/
@[ext]
structure Machine (K σ : Type) where
  store : σ
  held : K → Bool

/-- A program. -/
abbrev Prog (K σ : Type) : Type → Type := StateT (Machine K σ) (Except (Halt K))

section Machine

variable {K σ : Type} (m : Machine K σ)

/-- The store changes. -/
def Machine.put (s : σ) : Machine K σ := { m with store := s }

/-- No lock is taken. -/
def Machine.Clear : Prop := ∀ l, m.held l = false

@[simp] theorem store_put (s : σ) : (m.put s).store = s := rfl

@[simp] theorem held_put (s : σ) : (m.put s).held = m.held := rfl

@[simp] theorem put_put (s t : σ) : (m.put s).put t = m.put t := rfl

@[simp] theorem put_store : m.put m.store = m := rfl

variable [DecidableEq K]

/-- A lock is taken. -/
def Machine.take (l : K) : Machine K σ := { m with held := Function.update m.held l true }

/-- A lock is given back. -/
def Machine.give (l : K) : Machine K σ := { m with held := Function.update m.held l false }

@[simp] theorem store_take (l : K) : (m.take l).store = m.store := rfl

@[simp] theorem store_give (l : K) : (m.give l).store = m.store := rfl

@[simp] theorem take_put (s : σ) (l : K) : (m.take l).put s = (m.put s).take l := rfl

@[simp] theorem give_put (s : σ) (l : K) : (m.give l).put s = (m.put s).give l := rfl

theorem held_take_self (l : K) : (m.take l).held l = true := Function.update_self _ _ _

theorem held_take_of_ne {k l : K} (h : k ≠ l) : (m.take l).held k = m.held k :=
  Function.update_of_ne h _ _

variable {m}

/-- A free lock that is taken and given back is as it was. -/
theorem give_take {l : K} (h : m.held l = false) : (m.take l).give l = m := by
  refine Machine.ext rfl ?_
  change Function.update (Function.update m.held l true) l false = m.held
  rw [Function.update_idem, ← h, Function.update_eq_self]

/-- A free lock stays free. -/
theorem give_free {l : K} (h : m.held l = false) : m.give l = m := by
  refine Machine.ext rfl ?_
  change Function.update m.held l false = m.held
  rw [← h, Function.update_eq_self]

/-- One lock is given back while another one is kept. -/
theorem give_take_swap {k l : K} (hne : k ≠ l) (h : m.held k = false) :
    ((m.take k).take l).give k = m.take l := by
  refine Machine.ext rfl ?_
  change Function.update (Function.update (Function.update m.held k true) l true) k false = _
  rw [Function.update_comm hne, Function.update_idem, Function.update_comm hne.symm, ← h,
    Function.update_eq_self]
  rfl

end Machine

/-! ## Programs -/

section Prog

variable {K σ α β : Type}

/-- The store. -/
def look : Prog K σ σ := fun m => .ok (m.store, m)

/-- The store changes. -/
def change (f : σ → σ) : Prog K σ Unit := fun m => .ok ((), m.put (f m.store))

/-- An assertion that there is something. -/
def expect (a : Option α) : Prog K σ α := fun m =>
  match a with
  | none => .error .assertion
  | some a => .ok (a, m)

variable {m : Machine K σ} {l : K}

theorem look_bind (k : σ → Prog K σ β) : (look >>= k) m = k m.store m := rfl

theorem change_bind (f : σ → σ) (k : Unit → Prog K σ β) :
    (change f >>= k) m = k () (m.put (f m.store)) := rfl

theorem expect_bind_some (a : α) (k : α → Prog K σ β) : (expect (some a) >>= k) m = k a m := rfl

theorem expect_bind_none (k : α → Prog K σ β) : (expect none >>= k) m = .error .assertion := rfl

theorem bind_run {p : Prog K σ α} {a : α} {m' : Machine K σ} (h : p m = .ok (a, m'))
    (k : α → Prog K σ β) :
    (p >>= k) m = k a m' := by
  change (p m).bind _ = _
  rw [h]
  rfl

theorem bind_halt {p : Prog K σ α} {e : Halt K} (h : p m = .error e) (k : α → Prog K σ β) :
    (p >>= k) m = .error e := by
  change (p m).bind _ = _
  rw [h]
  rfl

/-- No lock is taken that is taken already. -/
def NoDeadlock : Except (Halt K) (α × Machine K σ) → Prop
  | .ok _ => True
  | .error .assertion => True
  | .error (.deadlock _) => False

instance : (r : Except (Halt K) (α × Machine K σ)) → Decidable (NoDeadlock r)
  | .ok _ => isTrue trivial
  | .error .assertion => isTrue trivial
  | .error (.deadlock _) => isFalse id

/-- If the program returns, no lock is taken. -/
def ReturnsClear : Except (Halt K) (α × Machine K σ) → Prop
  | .ok (_, m) => m.Clear
  | .error _ => True

variable [DecidableEq K]

/-- `spin_lock`. -/
def spinLock (l : K) : Prog K σ Unit := fun m =>
  if m.held l then .error (.deadlock l) else .ok ((), m.take l)

/-- `spin_unlock`. -/
def spinUnlock (l : K) : Prog K σ Unit := fun m => .ok ((), m.give l)

theorem spinUnlock_bind (k : Unit → Prog K σ β) : (spinUnlock l >>= k) m = k () (m.give l) := rfl

theorem spinLock_bind (h : m.held l = false) (k : Unit → Prog K σ β) :
    (spinLock l >>= k) m = k () (m.take l) :=
  bind_run (by rw [spinLock, if_neg (by simp [h])]) k

/-- A short section: a change with the lock. -/
theorem lock_change_bind (h : m.held l = false) (f : σ → σ) (p : Prog K σ β) :
    (do spinLock l; change f; spinUnlock l; p : Prog K σ β) m = p (m.put (f m.store)) := by
  rw [spinLock_bind h, change_bind, spinUnlock_bind, take_put, give_take (by exact h)]
  rfl

/-- **A lock that is taken is waited for.** -/
theorem spinLock_deadlock (h : m.held l = true) :
    (spinLock l : Prog K σ Unit) m = .error (.deadlock l) := by
  rw [spinLock, if_pos h]

end Prog

end SpinLock
