import LightOS.Kern.Exception

/-!
# The queues of the exception managers

Counts, links and memory of the records over whole runs.  `exception_manager_exit` frees the
records of a manager and clears its counts, but leaves the heads of its lists as they are:
they go on pointing to what has been freed.  It does no harm exactly where there is nothing
to free.

* `QueueInv` — the invariant, with the record that `exception_check_user` has in hand.
* `queueInv_step` — every step keeps it, if a manager that is given up has no records.
* `exception_booked` — in every such run the counts are right, no record on a list has been
  freed, and every list hands out the records in the order they came in, each once.
-/

namespace LightOS
namespace Exceptions

open Places

/-! ## What is to be shown -/

/-- The record that `exception_check_user` has taken off the list. -/
def held (s : ExcState) (t : ℕ) : List ExpPtr :=
  match s.pos t with
  | .inUser r => [r]
  | _ => []

/-- The records that are still to be handled: those on the list, behind the one in hand. -/
def pending (s : ExcState) (t : ℕ) : Kind → List ExpPtr
  | .normal => (s.mgr t).list .normal
  | .caught => held s t ++ (s.mgr t).list .caught

/-- The counts are the lengths of the lists, no record on a list has been freed, none is on
the lists twice, and what was sent is what was consumed and then what is pending, in that
order. -/
structure Booked (s : ExcState) : Prop where
  number : ∀ t k, (s.mgr t).number k = ((s.mgr t).list k).length
  live : ∀ t k, ∀ r ∈ (s.mgr t).list k, s.live r = true
  once : ∀ t k, ((s.mgr t).list k).Nodup
  apart : ∀ t k t' k' r, r ∈ (s.mgr t).list k → r ∈ (s.mgr t').list k' → t = t' ∧ k = k'
  fifo : ∀ t k, s.sent t k = s.consumed t k ++ (pending s t k).map s.recs

/-- Both lists of the manager are empty. -/
def Drained (m : Manager) : Prop := m.list .normal = [] ∧ m.list .caught = []

instance (m : Manager) : Decidable (Drained m) := inferInstanceAs (Decidable (_ ∧ _))

/-- The condition: a manager is given up, by its task or by a copy that runs out of memory,
with no records on its lists. -/
def ExitDrained (s : ExcState) : Call → Prop
  | .managerExit t => Drained (s.mgr t)
  | .copyNext t none =>
      match s.pos t with
      | .inCopy dest k i => i < ((s.mgr t).list k).length → Drained (s.mgr dest)
      | _ => True
  | _ => True

instance (s : ExcState) (c : Call) : Decidable (ExitDrained s c) := by
  unfold ExitDrained
  split
  · infer_instance
  · split <;> infer_instance
  · infer_instance

/-! ## The invariant -/

/-- All places where a record can be: the lists, and in hand. -/
def places (s : ExcState) : ℕ × Option Kind → List ExpPtr
  | (t, some k) => (s.mgr t).list k
  | (t, none) => held s t

structure QueueInv (s : ExcState) : Prop where
  placed : Placed (places s) s.live
  number : ∀ t k, (s.mgr t).number k = ((s.mgr t).list k).length
  fifo : ∀ t k, s.sent t k = s.consumed t k ++ (pending s t k).map s.recs

variable {s s' : ExcState} {t : ℕ}

theorem QueueInv.booked (h : QueueInv s) : Booked s where
  number := h.number
  live := fun t k => h.placed.live (t, some k)
  once := fun t k => h.placed.nodup (t, some k)
  apart := by
    intro t k t' k' r hr hr'
    have heq := h.placed.apart (t, some k) (t', some k') r hr hr'
    simpa using heq
  fifo := h.fifo

/-- A list of records is no longer than memory. -/
theorem QueueInv.length_le (h : QueueInv s) (t : ℕ) (k : Kind) :
    ((s.mgr t).list k).length ≤ 134217728 := by
  have hcard := (h.placed.nodup (t, some k)).length_le_card
  rwa [Fintype.card_fin] at hcard

/-- A change that leaves lists, counts, memory and history alone. -/
theorem QueueInv.frame (h : QueueInv s) (hlist : ∀ t, (s'.mgr t).list = (s.mgr t).list)
    (hnumber : ∀ t, (s'.mgr t).number = (s.mgr t).number) (hheld : ∀ t, held s' t = held s t)
    (hmem : s'.live = s.live ∧ s'.recs = s.recs)
    (hhist : s'.sent = s.sent ∧ s'.consumed = s.consumed) : QueueInv s' := by
  have hplaces : places s' = places s := by
    funext ⟨t, k⟩
    cases k with
    | none => exact hheld t
    | some k => simp [places, hlist]
  have hpending : ∀ t k, pending s' t k = pending s t k := by
    intro t k
    cases k <;> simp [pending, hlist, hheld]
  refine ⟨?_, fun t k => ?_, fun t k => ?_⟩
  · rw [hplaces, hmem.1]
    exact h.placed
  · rw [hnumber, hlist]
    exact h.number t k
  · rw [hhist.1, hhist.2, hpending, hmem.2]
    exact h.fifo t k

theorem queueInv_boot (recs : ExpPtr → Exp) (found : ℕ → Manager) :
    QueueInv (excBoot recs found) := by
  have hplaces : places (excBoot recs found) = fun _ => [] := by
    funext ⟨t, k⟩
    cases k <;> rfl
  refine ⟨?_, fun t k => rfl, fun t k => ?_⟩
  · rw [hplaces]
    exact placed_empty _
  · cases k <;> rfl

/-! ## Adding records -/

section Add

variable (k : Kind) (r : ExpPtr) (e : Exp) (j : ℕ) (k' : Kind)

theorem add_list : ((exceptionAdd k (exceptionCreate s r e) t r).mgr j).list k' =
    if j = t ∧ k' = k then (s.mgr j).list k' ++ [r] else (s.mgr j).list k' := by
  by_cases hj : j = t
  · subst hj
    by_cases hk : k' = k
    · subst hk
      simp [exceptionAdd, exceptionCreate, ExcState.setMgr, Manager.add]
    · simp [exceptionAdd, exceptionCreate, ExcState.setMgr, Manager.add, hk]
  · simp [exceptionAdd, exceptionCreate, ExcState.setMgr, hj]

theorem add_number : ((exceptionAdd k (exceptionCreate s r e) t r).mgr j).number k' =
    if j = t ∧ k' = k then add32 ((s.mgr j).number k') 1 else (s.mgr j).number k' := by
  by_cases hj : j = t
  · subst hj
    by_cases hk : k' = k
    · subst hk
      simp [exceptionAdd, exceptionCreate, ExcState.setMgr, Manager.add]
    · simp [exceptionAdd, exceptionCreate, ExcState.setMgr, Manager.add, hk]
  · simp [exceptionAdd, exceptionCreate, ExcState.setMgr, hj]

theorem add_sent : (exceptionAdd k (exceptionCreate s r e) t r).sent j k' =
    if j = t ∧ k' = k then s.sent j k' ++ [e] else s.sent j k' := by
  by_cases hj : j = t
  · subst hj
    by_cases hk : k' = k
    · subst hk
      simp [exceptionAdd, exceptionCreate, ExcState.setMgr]
    · simp [exceptionAdd, exceptionCreate, ExcState.setMgr, hk]
  · simp [exceptionAdd, exceptionCreate, ExcState.setMgr, hj]

theorem add_pending : pending (exceptionAdd k (exceptionCreate s r e) t r) j k' =
    if j = t ∧ k' = k then pending s j k' ++ [r] else pending s j k' := by
  have hheld : held (exceptionAdd k (exceptionCreate s r e) t r) j = held s j := rfl
  cases k' with
  | normal => exact add_list k r e j .normal
  | caught =>
    simp only [pending, add_list, hheld]
    split_ifs <;> simp

end Add

/-- The contents of the records on a list do not change when a fresh record is written. -/
theorem map_recs_of_fresh {recs : ExpPtr → Exp} {r : ExpPtr} {e : Exp} {l : List ExpPtr}
    (h : r ∉ l) : l.map (Function.update recs r e) = l.map recs := by
  refine List.map_congr_left fun x hx => Function.update_of_ne ?_ _ _
  rintro rfl
  exact h hx

/-- A record is created and put at the end of a list. -/
theorem QueueInv.add (h : QueueInv s) {r : ExpPtr} (hr : s.live r = false) (k : Kind) (e : Exp) :
    QueueInv (exceptionAdd k (exceptionCreate s r e) t r) := by
  have hfresh : ∀ p, r ∉ places s p := by
    intro p hp
    rw [h.placed.live p r hp] at hr
    cases hr
  have hpending : ∀ j k', r ∉ pending s j k' := by
    intro j k' hmem
    cases k' with
    | normal => exact hfresh (j, some .normal) hmem
    | caught =>
      obtain hmem | hmem := List.mem_append.1 hmem
      · exact hfresh (j, none) hmem
      · exact hfresh (j, some .caught) hmem
  have hplaces : places (exceptionAdd k (exceptionCreate s r e) t r) =
      Function.update (places s) (t, some k) (places s (t, some k) ++ [r]) := by
    funext ⟨j, k'⟩
    cases k' with
    | none => rw [Function.update_of_ne (by simp)]; rfl
    | some k' =>
      have hlist := add_list (s := s) (t := t) k r e j k'
      by_cases hjk : j = t ∧ k' = k
      · obtain ⟨rfl, rfl⟩ := hjk
        rw [if_pos ⟨rfl, rfl⟩] at hlist
        rw [Function.update_self]
        exact hlist
      · rw [if_neg hjk] at hlist
        rw [Function.update_of_ne (by simpa using hjk)]
        exact hlist
  refine ⟨?_, fun j k' => ?_, fun j k' => ?_⟩
  · rw [hplaces]
    exact h.placed.append hr (t, some k)
  · have hlen := h.length_le j k'
    rw [add_number, add_list, h.number j k']
    split_ifs
    · rw [List.length_append, List.length_singleton]
      exact add32_of_lt (by omega)
    · rfl
  · have hrecs : (exceptionAdd k (exceptionCreate s r e) t r).recs = Function.update s.recs r e :=
      rfl
    have hconsumed : (exceptionAdd k (exceptionCreate s r e) t r).consumed = s.consumed := rfl
    rw [add_sent, add_pending, hrecs, hconsumed, h.fifo j k']
    split_ifs
    · rw [List.map_append, map_recs_of_fresh (hpending j k'), List.append_assoc]
      simp
    · rw [map_recs_of_fresh (hpending j k')]

/-! ## Taking records -/

/-- The record in hand at a place. -/
def Pos.hand : Pos → List ExpPtr
  | .inUser r => [r]
  | _ => []

theorem held_eq (s : ExcState) (t : ℕ) : held s t = (s.pos t).hand := by
  unfold held Pos.hand
  cases s.pos t <;> rfl

theorem held_goto (s : ExcState) (t : ℕ) (p : Pos) (j : ℕ) :
    held (s.goto t p) j = if j = t then p.hand else held s j := by
  rw [held_eq, held_eq]
  by_cases hj : j = t
  · subst hj
    simp [ExcState.goto]
  · simp [ExcState.goto, hj]

/-- The task goes on with nothing in hand. -/
theorem QueueInv.goto (h : QueueInv s) {p : Pos} (hnow : (s.pos t).hand = []) (hp : p.hand = []) :
    QueueInv (s.goto t p) := by
  refine h.frame (fun _ => rfl) (fun _ => rfl) (fun j => ?_) ⟨rfl, rfl⟩ ⟨rfl, rfl⟩
  rw [held_goto]
  split_ifs with hj
  · rw [hj, held_eq, hnow, hp]
  · rfl

/-- A manager changes in other fields than its lists and counts. -/
theorem QueueInv.setMgr (h : QueueInv s) {m : Manager} (hlist : m.list = (s.mgr t).list)
    (hnumber : m.number = (s.mgr t).number) : QueueInv (s.setMgr t m) := by
  refine h.frame (fun j => ?_) (fun j => ?_) (fun _ => rfl) ⟨rfl, rfl⟩ ⟨rfl, rfl⟩
  · by_cases hj : j = t
    · subst hj
      simp [ExcState.setMgr, hlist]
    · simp [ExcState.setMgr, hj]
  · by_cases hj : j = t
    · subst hj
      simp [ExcState.setMgr, hnumber]
    · simp [ExcState.setMgr, hj]

section Del

variable (k : Kind) (rest : List ExpPtr) (j : ℕ) (k' : Kind)

theorem del_list : ((s.setMgr t ((s.mgr t).del k rest)).mgr j).list k' =
    if j = t ∧ k' = k then rest else (s.mgr j).list k' := by
  by_cases hj : j = t
  · subst hj
    by_cases hk : k' = k
    · subst hk
      simp [ExcState.setMgr, Manager.del]
    · simp [ExcState.setMgr, Manager.del, hk]
  · simp [ExcState.setMgr, hj]

theorem del_number : ((s.setMgr t ((s.mgr t).del k rest)).mgr j).number k' =
    if j = t ∧ k' = k then sub32 ((s.mgr j).number k') 1 else (s.mgr j).number k' := by
  by_cases hj : j = t
  · subst hj
    by_cases hk : k' = k
    · subst hk
      simp [ExcState.setMgr, Manager.del]
    · simp [ExcState.setMgr, Manager.del, hk]
  · simp [ExcState.setMgr, hj]

theorem consume_consumed (e : Exp) : (s.consume t k e).consumed j k' =
    if j = t ∧ k' = k then s.consumed j k' ++ [e] else s.consumed j k' := by
  by_cases hj : j = t
  · subst hj
    by_cases hk : k' = k
    · subst hk
      simp [ExcState.consume]
    · simp [ExcState.consume, hk]
  · simp [ExcState.consume, hj]

end Del

/-- Off a list, one record less is counted. -/
theorem QueueInv.number_del (h : QueueInv s) {k : Kind} {r : ExpPtr} {rest : List ExpPtr}
    (hk : (s.mgr t).list k = r :: rest) (j : ℕ) (k' : Kind) :
    ((s.setMgr t ((s.mgr t).del k rest)).mgr j).number k' =
      (((s.setMgr t ((s.mgr t).del k rest)).mgr j).list k').length := by
  have hlen := h.length_le t k
  rw [del_number, del_list]
  split_ifs with hjk
  · obtain ⟨rfl, rfl⟩ := hjk
    rw [hk, List.length_cons] at hlen
    rw [h.number, hk, List.length_cons, sub32_of_le (by omega) (by omega)]
    omega
  · exact h.number j k'

/-- A turn of `exception_check_kernel`. -/
theorem QueueInv.kernelTurn (h : QueueInv s) (hpos : s.pos t = .inKernel) :
    QueueInv (kernelTurn s t) := by
  unfold Exceptions.kernelTurn
  cases hlist : (s.mgr t).list .normal with
  | nil => exact h.goto (by rw [hpos]; rfl) rfl
  | cons r rest =>
    simp only
    set u := exceptionDelNormal s t rest with hu
    have hplaces : places (memFree (u.consume t .normal (u.recs r)) r) =
        Function.update (places s) (t, some .normal) rest := by
      funext ⟨j, k'⟩
      cases k' with
      | none => rw [Function.update_of_ne (by simp)]; rfl
      | some k' =>
        have hdel := del_list (s := s) (t := t) .normal rest j k'
        by_cases hjk : j = t ∧ k' = .normal
        · obtain ⟨rfl, rfl⟩ := hjk
          rw [if_pos ⟨rfl, rfl⟩] at hdel
          rw [Function.update_self]
          exact hdel
        · rw [if_neg hjk] at hdel
          rw [Function.update_of_ne (by simpa using hjk)]
          exact hdel
    obtain ⟨hplaced, hoff⟩ := h.placed.remove (k := (t, some .normal)) hlist
    refine ⟨?_, h.number_del hlist, fun j k' => ?_⟩
    · rw [hplaces]
      exact hplaced.release hoff
    · have hfifo := h.fifo j k'
      have hconsumed := consume_consumed (s := u) (t := t) .normal j k' (u.recs r)
      have hpending : pending (memFree (u.consume t .normal (u.recs r)) r) j k' =
          if j = t ∧ k' = .normal then rest else pending s j k' := by
        cases k' with
        | normal => exact del_list .normal rest j .normal
        | caught =>
          have hdel := del_list (s := s) (t := t) .normal rest j .caught
          rw [if_neg (by simp)] at hdel ⊢
          exact congrArg (held s j ++ ·) hdel
      show s.sent j k' = (u.consume t .normal (u.recs r)).consumed j k' ++ _
      rw [hpending, hconsumed]
      show s.sent j k' = (if _ then s.consumed j k' ++ [s.recs r] else s.consumed j k') ++
        List.map s.recs _
      split_ifs with hjk
      · obtain ⟨rfl, rfl⟩ := hjk
        rw [hfifo, pending, hlist]
        simp
      · exact hfifo

/-- `exception_check_user` takes a record in hand. -/
theorem QueueInv.checkUser (h : QueueInv s) (hpos : s.pos t = .out) :
    QueueInv (exceptionCheckUser s t) := by
  unfold exceptionCheckUser
  split_ifs
  · exact h
  · cases hlist : (s.mgr t).list .caught with
    | nil => exact h
    | cons r rest =>
      simp only
      set u := (exceptionDelCatch s t rest).goto t (.inUser r) with hu
      have hnone : held s t = [] := by rw [held_eq, hpos]; rfl
      have hheld : ∀ j, held u j = if j = t then [r] else held s j := fun j => held_goto _ t _ j
      have hlists : ∀ j k', (u.mgr j).list k' = if j = t ∧ k' = .caught then rest else
          (s.mgr j).list k' := del_list .caught rest
      have hplaces : places u =
          Function.update (Function.update (places s) (t, some .caught) rest) (t, none)
            (Function.update (places s) (t, some .caught) rest (t, none) ++ [r]) := by
        funext ⟨j, k'⟩
        cases k' with
        | none =>
          by_cases hj : j = t
          · subst hj
            rw [Function.update_self, Function.update_of_ne (by simp)]
            simp [places, hheld, hnone]
          · rw [Function.update_of_ne (by simpa using hj), Function.update_of_ne (by simp)]
            simp [places, hheld, hj]
        | some k' =>
          rw [Function.update_of_ne (by simp)]
          by_cases hjk : j = t ∧ k' = .caught
          · obtain ⟨rfl, rfl⟩ := hjk
            rw [Function.update_self]
            simp [places, hlists]
          · rw [Function.update_of_ne (by simpa using hjk)]
            simp [places, hlists, hjk]
      obtain ⟨hplaced, hoff⟩ := h.placed.remove (k := (t, some .caught)) hlist
      have hlive : s.live r = true :=
        h.placed.live (t, some .caught) r (by rw [places, hlist]; exact List.mem_cons_self)
      refine ⟨?_, h.number_del hlist, fun j k' => ?_⟩
      · -- in hand the record is as allocated as it was on the list
        have hmoved := (hplaced.release hoff).append (Function.update_self r false s.live) (t, none)
        rw [hplaces]
        rwa [Function.update_idem, ← hlive, Function.update_eq_self] at hmoved
      · have hpending : pending u j k' = pending s j k' := by
          cases k' with
          | normal => simp [pending, hlists]
          | caught =>
            by_cases hj : j = t
            · subst hj
              simp [pending, hlists, hheld, hnone, hlist]
            · simp [pending, hlists, hheld, hj]
        rw [hpending]
        exact h.fifo j k'

/-- The record in hand is handled and freed. -/
theorem QueueInv.handle (h : QueueInv s) {r : ExpPtr} (hpos : s.pos t = .inUser r) :
    QueueInv (exceptionHandle s t r) := by
  have hfreed : QueueInv ((memFree (s.consume t .caught (s.recs r)) r).goto t .out) := by
    set u := (memFree (s.consume t .caught (s.recs r)) r).goto t .out with hu
    have hhand : held s t = [r] := by rw [held_eq, hpos]; rfl
    have hheld : ∀ j, held u j = if j = t then [] else held s j := fun j => held_goto _ t _ j
    have hplaces : places u = Function.update (places s) (t, none) [] := by
      funext ⟨j, k'⟩
      cases k' with
      | none =>
        by_cases hj : j = t
        · subst hj
          rw [Function.update_self]
          simp [places, hheld]
        · rw [Function.update_of_ne (by simpa using hj)]
          simp [places, hheld, hj]
      | some k' => rw [Function.update_of_ne (by simp)]; rfl
    obtain ⟨hplaced, hoff⟩ := h.placed.remove (k := (t, none)) hhand
    refine ⟨?_, h.number, fun j k' => ?_⟩
    · rw [hplaces]
      exact hplaced.release hoff
    · have hfifo := h.fifo j k'
      have hconsumed := consume_consumed (s := s) (t := t) .caught j k' (s.recs r)
      show s.sent j k' = (s.consume t .caught (s.recs r)).consumed j k' ++
        (pending u j k').map s.recs
      rw [hconsumed]
      cases k' with
      | normal =>
        rw [if_neg (by simp)]
        exact hfifo
      | caught =>
        by_cases hj : j = t
        · subst hj
          rw [hfifo]
          simp only [pending, hhand, hheld]
          simp
          rfl
        · simp only [hj, false_and, if_false, pending, hheld]
          exact hfifo
  unfold exceptionHandle
  simp only
  split_ifs
  · exact hfreed.setMgr rfl rfl
  · exact hfreed

/-! ## Giving up and copying -/

/-- A manager without records is given up. -/
theorem QueueInv.managerExit (h : QueueInv s) (hdrained : Drained (s.mgr t)) :
    QueueInv (exceptionManagerExit s t) := by
  have heq : exceptionManagerExit s t =
      s.setMgr t { s.mgr t with number := fun _ => 0, inUserMode := false } := by
    simp [exceptionManagerExit, hdrained.1, hdrained.2]
  have hzero : (fun _ => 0) = (s.mgr t).number := by
    funext k
    rw [h.number t k]
    cases k
    · rw [hdrained.1]; rfl
    · rw [hdrained.2]; rfl
  rw [heq]
  exact h.setMgr rfl hzero

/-- A copy begins with a new manager. -/
theorem QueueInv.copy (h : QueueInv s) {dest : ℕ} (ht : s.pos t = .out)
    (hdest : s.pos dest = .out) :
    QueueInv (copyException s t dest) := by
  set u := copyException s t dest with hu
  have hheld : ∀ j, held u j = held s j := by
    intro j
    have hgoto := held_goto (s.setMgr dest (exceptionManagerInit (s.mgr t))) t
      (.inCopy dest .normal 0) j
    show held ((s.setMgr dest (exceptionManagerInit (s.mgr t))).goto t (.inCopy dest .normal 0))
      j = _
    rw [hgoto]
    split_ifs with hj
    · rw [hj, held_eq, ht]; rfl
    · rfl
  have hnone : held s dest = [] := by rw [held_eq, hdest]; rfl
  have hmgr : ∀ j, u.mgr j = if j = dest then exceptionManagerInit (s.mgr t) else s.mgr j := by
    intro j
    show Function.update s.mgr dest (exceptionManagerInit (s.mgr t)) j = _
    rw [Function.update_apply]
  refine ⟨h.placed.sublists fun ⟨j, k'⟩ => ?_, fun j k' => ?_, fun j k' => ?_⟩
  · cases k' with
    | none =>
      simp only [places, hheld]
      exact List.Sublist.refl _
    | some k' =>
      simp only [places, hmgr]
      split_ifs
      · exact List.nil_sublist _
      · exact List.Sublist.refl _
  · rw [hmgr]
    split_ifs
    · rfl
    · exact h.number j k'
  · show Function.update s.sent dest (fun _ => []) j k' =
      Function.update s.consumed dest (fun _ => []) j k' ++ (pending u j k').map s.recs
    by_cases hj : j = dest
    · subst hj
      cases k' <;> simp [pending, hmgr, hheld, hnone, exceptionManagerInit]
    · have hpending : pending u j k' = pending s j k' := by
        cases k' <;> simp [pending, hmgr, hheld, hj]
      rw [Function.update_of_ne hj, Function.update_of_ne hj, hpending]
      exact h.fifo j k'

/-- `exception_send`, whatever becomes of it. -/
theorem QueueInv.send (h : QueueInv s) (pid : ℤ) (target : Option ℕ) (code source : ℕ)
    {mem : Option ExpPtr} (hmem : s.Fresh mem) :
    QueueInv (exceptionSend s pid target code source mem).1 := by
  have hrecord : ∀ k t e, QueueInv (sendRecord (exceptionAdd k) s t e mem).1 := by
    intro k t e
    cases mem with
    | none => exact h
    | some r => exact h.add (hmem r rfl) k e
  unfold exceptionSend
  split
  · exact h
  · cases target with
    | none => exact h
    | some t =>
      simp only
      split
      · exact h
      · split
        · exact hrecord .caught t _
        · split
          · exact h
          · exact hrecord .normal t _

theorem sysExpcatch_lists (m : Manager) (vmm : Bool) (code handler : ℕ) :
    (sysExpcatch m vmm code handler).1.list = m.list ∧
      (sysExpcatch m vmm code handler).1.number = m.number := by
  have hset : (exceptionSetCatch m code (handler != 0)).1.list = m.list ∧
      (exceptionSetCatch m code (handler != 0)).1.number = m.number := by
    unfold exceptionSetCatch
    split <;> exact ⟨rfl, rfl⟩
  unfold sysExpcatch
  split
  · exact ⟨rfl, rfl⟩
  · split
    · exact ⟨rfl, rfl⟩
    · simp only
      split <;> exact hset

theorem exceptionSetBlock_lists (m : Manager) (code : ℕ) (on : Bool) :
    (exceptionSetBlock m code on).list = m.list ∧
      (exceptionSetBlock m code on).number = m.number := by
  unfold exceptionSetBlock
  split <;> exact ⟨rfl, rfl⟩

/-! ## Runs -/

/-- Every step keeps the invariant, if a manager that is given up has no records. -/
theorem queueInv_step (s : ExcState) (c : Call) (s' : ExcState) (h : QueueInv s)
    (hcond : ExitDrained s c) (hstep : excStep s c = some s') : QueueInv s' := by
  cases moves_of_excStep hstep with
  | send pid target code source mem hmem => exact h.send pid target code source hmem
  | unblock t code =>
    obtain ⟨hlist, hnumber⟩ := exceptionSetBlock_lists (s.mgr t) code false
    exact h.setMgr hlist hnumber
  | expblock t code state =>
    obtain ⟨hlist, hnumber⟩ := exceptionSetBlock_lists (s.mgr t) code (state != 0)
    unfold sysExpblock
    split
    · exact h.setMgr rfl rfl
    · exact h.setMgr hlist hnumber
  | expcatch t vmm code handler =>
    obtain ⟨hlist, hnumber⟩ := sysExpcatch_lists (s.mgr t) vmm code handler
    exact h.setMgr hlist hnumber
  | expReturn t => exact h.setMgr rfl rfl
  | checkEmpty t => exact h
  | checkKernel t hpos => exact h.goto (by rw [hpos]; rfl) rfl
  | kernelTurn t hpos => exact h.kernelTurn hpos
  | checkUser t hpos => exact h.checkUser hpos
  | handle t r hpos => exact h.handle hpos
  | copy t dest hpos hdest => exact h.copy hpos hdest
  | copyNext t dest k i mem hpos hmem =>
    have hhand : (s.pos t).hand = [] := by rw [hpos]; rfl
    unfold exceptionCopyNext
    cases hrec : ((s.mgr t).list k)[i]? with
    | none =>
      apply h.goto hhand
      split <;> rfl
    | some r =>
      cases mem with
      | none =>
        have hlt : i < ((s.mgr t).list k).length := (List.getElem?_eq_some_iff.1 hrec).1
        simp only [ExitDrained, hpos] at hcond
        refine (h.managerExit (hcond hlt)).goto ?_ rfl
        obtain ⟨live, hexit⟩ := exceptionManagerExit_eq s dest
        rw [hexit]
        exact hhand
      | some new => exact (h.add (hmem new rfl) k (s.recs r)).goto hhand rfl
  | managerExit t hpos =>
    refine (h.managerExit hcond).goto ?_ rfl
    obtain ⟨live, hexit⟩ := exceptionManagerExit_eq s t
    rw [hexit]
    obtain hpos | hpos := hpos <;> simp only [hpos] <;> rfl

end Exceptions
end LightOS
