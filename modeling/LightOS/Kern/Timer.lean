import LightOS.Kern.TimerBasic

/-!
# Timers fire on time, once

The walk of `timer_update_ticks` stops at the first timer that is not due, and is not made at
all before the least timeout it has seen.  So it finds what is due as long as the list is in the
order of the timeouts; `timer_add` and the new timeout of a periodic timer keep that order only
if their place, behind the first timer or where it was, is the right one.

* `Account` — the part of the invariant that does not depend on the order: every arming is in one
  place, and no update has passed a pending timer that was due.
* `Ordered` — the order; inside the walk it is the invariant of a walk.
* `timers_fire_once` — in every run whose steps all meet `TimerOk`, timers fire on time, once.
-/

namespace LightOS
namespace Timers

open SortedWalk

/-! ## The invariant -/

structure Account (s : TState) : Prop where
  nodup : s.list.Nodup
  bound : ∀ i, s.key i < 4294967296
  ticksLt : s.timerTicks < 4294967296
  idle : (s.timer timerIdle).period = false
  clock : s.now = s.base + s.timerTicks
  due : ∀ i ∈ s.list, (s.arming i).due = s.base + s.key i
  left : ∀ i ∈ s.list, ∀ u ∈ s.updates.drop (s.arming i).since, u < (s.arming i).due
  fired : ∀ f ∈ s.fired, FiringOk s f
  once : s.armings.Perm (List.range s.nextArming)

def Ordered (s : TState) : Prop :=
  match s.pc with
  | .out => Sorted s.key s.list ∧ ∀ i ∈ s.list, s.minimTimeoutVal ≤ s.key i
  | .callback next => Walking s.key s.timerTicks s.list next

variable {s s' : TState} {i : ℕ}

/-- Only the idle timer is pending at the start. -/
theorem timersInit_idle (timer : ℕ → Timer) :
    (timersInit timer).timer timerIdle = ⟨timerIdleTimeout, timerIdleTimeout, false⟩ := by
  simp only [timersInit, Function.update_self]

theorem timersInit_key (timer : ℕ → Timer) :
    (timersInit timer).key timerIdle = timerIdleTimeout := by
  rw [TState.key, timersInit_idle]

theorem account_boot (timer : ℕ → Timer) : Account (timersInit timer) where
  nodup := List.nodup_singleton _
  bound := by
    intro i
    by_cases hi : i = timerIdle
    · subst hi
      rw [timersInit_key]
      decide
    · simp only [TState.key, timersInit, Function.update_of_ne hi]
      exact Nat.mod_lt _ (by norm_num)
  ticksLt := by simp [timersInit]
  idle := by rw [timersInit_idle]
  clock := rfl
  due := by
    intro i hi
    obtain rfl : i = timerIdle := List.mem_singleton.1 hi
    rw [timersInit_key]
    exact (zero_add timerIdleTimeout).symm
  left := by simp [timersInit]
  fired := by simp [timersInit]
  once := by simp [TState.armings, timersInit, List.range_succ]

theorem ordered_boot (timer : ℕ → Timer) : Ordered (timersInit timer) := by
  refine ⟨List.pairwise_singleton _ _, fun i hi => ?_⟩
  obtain rfl : i = timerIdle := List.mem_singleton.1 hi
  rw [timersInit_key]
  exact le_refl timerIdleTimeout

/-! ## Armings -/

/-- Firings stay as they are while no update is made and the time stands still. -/
theorem FiringOk.frame {f : Firing} (h : FiringOk s f) (hupdates : s'.updates = s.updates)
    (hpc : s.pc ≠ .out → s'.pc ≠ .out) (hnow : s.pc ≠ .out → s'.now = s.now) : FiringOk s' f where
  notEarly := h.notEarly
  first := by
    rw [hupdates]
    exact h.first
  during := by
    rw [hupdates]
    obtain hdone | ⟨hin, hlast, htk⟩ := h.during
    · exact Or.inl hdone
    · exact Or.inr ⟨hpc hin, hlast, by rw [hnow hin, htk]⟩

/-- Only timers that are not pending are written to, and periods. -/
theorem Account.write (h : Account s) (timer : ℕ → Timer)
    (hkey : ∀ j ∈ s.list, (timer j).timeout = s.key j)
    (hbound : ∀ j, (timer j).timeout < 4294967296) (hidle : (timer timerIdle).period = false) :
    Account { s with timer := timer } where
  nodup := h.nodup
  bound := hbound
  ticksLt := h.ticksLt
  idle := hidle
  clock := h.clock
  due := by
    intro j hj
    rw [h.due j hj, ← hkey j hj]
    rfl
  left := h.left
  fired := fun f hf => (h.fired f hf).frame rfl id fun _ => rfl
  once := h.once

theorem armings_congr (hlist : ∀ j ∈ s.list, s'.arming j = s.arming j) :
    (s.list.map fun j => (s'.arming j).number) = s.list.map fun j => (s.arming j).number :=
  List.map_congr_left fun j hj => by rw [hlist j hj]

/-- The number of a new arming is the next one. -/
theorem perm_range_succ {l : List ℕ} {n : ℕ} (h : l.Perm (List.range n)) :
    (n :: l).Perm (List.range (n + 1)) := by
  rw [List.range_succ]
  exact (h.cons n).trans (List.perm_append_singleton n (List.range n)).symm

/-- A timer that is not pending is armed and put on the list. -/
theorem Account.insert (h : Account s) (hi : i ∉ s.list) : Account (timerInsert s i) := by
  have hlist : (timerInsert s i).list.Perm (i :: s.list) := insertNear_perm s.key i s.list
  have hmem : ∀ j ∈ (timerInsert s i).list, j = i ∨ j ∈ s.list ∧ j ≠ i := by
    intro j hj
    obtain hji | hj := List.mem_cons.1 (hlist.mem_iff.1 hj)
    · exact Or.inl hji
    · exact Or.inr ⟨hj, fun e => hi (e ▸ hj)⟩
  have hself : (timerInsert s i).arming i = ⟨s.nextArming, s.base + s.key i, s.updates.length⟩ :=
    Function.update_self i _ s.arming
  have hother : ∀ j, j ≠ i → (timerInsert s i).arming j = s.arming j :=
    fun j hj => Function.update_of_ne hj _ s.arming
  refine ⟨?_, h.bound, h.ticksLt, h.idle, h.clock, ?_, ?_, ?_, ?_⟩
  · exact hlist.nodup_iff.2 (List.nodup_cons.2 ⟨hi, h.nodup⟩)
  · intro j hj
    obtain rfl | ⟨hj, hji⟩ := hmem j hj
    · rw [hself]
      rfl
    · rw [hother j hji]
      exact h.due j hj
  · intro j hj u hu
    obtain rfl | ⟨hj, hji⟩ := hmem j hj
    · rw [hself] at hu
      simp [timerInsert, TState.arm] at hu
    · rw [hother j hji] at hu ⊢
      exact h.left j hj u hu
  · exact fun f hf => (h.fired f hf).frame rfl id fun _ => rfl
  · have hmap : ((timerInsert s i).list.map fun j => ((timerInsert s i).arming j).number).Perm
        (s.nextArming :: s.list.map fun j => (s.arming j).number) := by
      apply (hlist.map _).trans
      rw [List.map_cons, hself, armings_congr fun j hj => hother j fun e => hi (e ▸ hj)]
    exact ((hmap.append_right _).append_right _).trans (perm_range_succ h.once)

/-- A timer that is taken off the list leaves its arming behind. -/
theorem armings_without (h : Account s) (hi : i ∈ s.list) (arming : ℕ → Arming)
    (hother : ∀ j, j ≠ i → arming j = s.arming j) :
    ((s.arming i).number :: (without s.list i).map fun j => (arming j).number).Perm
      (s.list.map fun j => (s.arming j).number) := by
  have hsame : ((without s.list i).map fun j => (arming j).number) =
      (without s.list i).map fun j => (s.arming j).number :=
    List.map_congr_left fun j hj => by rw [hother j (mem_without.1 hj).2]
  rw [hsame]
  exact (cons_without_perm h.nodup hi).map fun j => (s.arming j).number

theorem Account.cancel (h : Account s) : Account (timerCancel s i) := by
  unfold timerCancel
  split_ifs with hi
  · have hsub : ∀ j ∈ without s.list i, j ∈ s.list := fun j hj => (mem_without.1 hj).1
    refine ⟨h.nodup.sublist (without_sublist _ i), h.bound, h.ticksLt, h.idle, h.clock,
      fun j hj => h.due j (hsub j hj), fun j hj => h.left j (hsub j hj),
      fun f hf => (h.fired f hf).frame rfl id fun _ => rfl, ?_⟩
    refine List.Perm.trans ?_ h.once
    apply List.Perm.append_right _
    refine List.Perm.trans ?_
      ((armings_without h hi s.arming fun _ _ => rfl).append_right s.cancelled)
    rw [← List.append_assoc]
    exact List.perm_append_singleton _ _
  · exact h

/-- The firing that is recorded. -/
def TState.firing (s : TState) (i : ℕ) : Firing :=
  ⟨s.arming i, s.now, s.updates.length⟩

/-- What has fired before, and the timer that fires now. -/
theorem Account.firings (h : Account s) (hi : i ∈ s.list) (hdue : s.key i ≤ s.timerTicks)
    (hupdates : s'.updates = s.updates) (hpc : s'.pc ≠ .out) (hnow : s'.now = s.now) :
    ∀ f ∈ s.fired ++ [s.firing i], FiringOk s' f := by
  intro f hf
  obtain hf | hf := List.mem_append.1 hf
  · exact (h.fired f hf).frame hupdates (fun _ => hpc) fun _ => hnow
  · obtain rfl := List.mem_singleton.1 hf
    have hd := h.due i hi
    have hclock := h.clock
    refine ⟨?_, ?_, Or.inr ⟨hpc, by rw [hupdates]; rfl, hnow.symm⟩⟩
    · show (s.arming i).due ≤ s.now
      omega
    · rw [hupdates]
      show ∀ u ∈ (s.updates.take s.updates.length).drop (s.arming i).since, u < (s.arming i).due
      rw [List.take_length]
      exact h.left i hi

/-- A timer that is due fires. -/
theorem Account.fire (h : Account s) (hi : i ∈ s.list) (hdue : s.key i ≤ s.timerTicks) :
    Account (fireTimer s i) := by
  unfold fireTimer
  split_ifs with hperiod
  · -- it stays on the list, armed again
    have hne : i ≠ timerIdle := by
      rintro rfl
      rw [h.idle] at hperiod
      cases hperiod
    have hkey : ∀ j, j ≠ i → Function.update s.timer i
        { s.timer i with timeout := add32 s.timerTicks (s.timer i).timeval } j = s.timer j :=
      fun j hj => Function.update_of_ne hj _ s.timer
    refine ⟨h.nodup, ?_, h.ticksLt, ?_, h.clock, ?_, ?_,
      h.firings hi hdue rfl (by simp [TState.arm]) rfl, ?_⟩
    · intro j
      by_cases hj : j = i
      · subst hj
        simp only [TState.key, TState.arm, Function.update_self]
        exact add32_lt _ _
      · simp only [TState.key, TState.arm, hkey j hj]
        exact h.bound j
    · simp only [TState.arm, hkey timerIdle hne.symm]
      exact h.idle
    · intro j hj
      by_cases hji : j = i
      · subst hji
        simp [TState.arm, TState.key]
      · simp only [TState.arm, TState.key, Function.update_of_ne hji]
        exact h.due j hj
    · intro j hj u hu
      by_cases hji : j = i
      · subst hji
        simp [TState.arm] at hu
      · simp only [TState.arm, Function.update_of_ne hji] at hu ⊢
        exact h.left j hj u hu
    · have hself := cons_without_perm h.nodup hi
      have hother : ∀ j, j ≠ i → Function.update s.arming i
          ⟨s.nextArming, s.base + add32 s.timerTicks (s.timer i).timeval, s.updates.length⟩ j =
          s.arming j := fun j hj => Function.update_of_ne hj _ s.arming
      have hold := armings_without h hi _ hother
      have hnew := hself.symm.map fun j => (Function.update s.arming i
        ⟨s.nextArming, s.base + add32 s.timerTicks (s.timer i).timeval, s.updates.length⟩ j).number
      rw [List.map_cons, Function.update_self] at hnew
      have hgoal := perm_range_succ h.once
      simp only [TState.armings, TState.arm, TState.key, Function.update_self, List.map_append,
        List.map_cons, List.map_nil] at hgoal ⊢
      rw [← Multiset.coe_eq_coe] at hold hnew hgoal ⊢
      simp only [← Multiset.coe_add, ← Multiset.cons_coe, Multiset.coe_nil] at hold hnew hgoal ⊢
      rw [hnew, ← hgoal, ← hold]
      simp only [← Multiset.singleton_add]
      abel
  · have hsub : ∀ j ∈ without s.list i, j ∈ s.list := fun j hj => (mem_without.1 hj).1
    refine ⟨h.nodup.sublist (without_sublist _ i), h.bound, h.ticksLt, h.idle, h.clock,
      fun j hj => h.due j (hsub j hj), fun j hj => h.left j (hsub j hj),
      h.firings hi hdue rfl (by simp) rfl, ?_⟩
    have hold := armings_without h hi s.arming fun _ _ => rfl
    have hgoal := h.once
    simp only [TState.armings, List.map_append, List.map_cons, List.map_nil] at hgoal ⊢
    rw [← Multiset.coe_eq_coe] at hold hgoal ⊢
    simp only [← Multiset.coe_add, ← Multiset.cons_coe, Multiset.coe_nil] at hold hgoal ⊢
    rw [← hgoal, ← hold]
    simp only [← Multiset.singleton_add]
    abel

/-- The idle timer takes its ticks off everything that is pending. -/
theorem Account.rebase (h : Account s) (hidle : timerIdle ∉ s.list)
    (hticks : s.key timerIdle ≤ s.timerTicks) (hkeys : ∀ j ∈ s.list, s.key timerIdle ≤ s.key j)
    (hpc : s.pc ≠ .out) : Account (idleRebase s) := by
  have hkey : ∀ j ∈ s.list, (idleRebase s).key j = s.key j - s.key timerIdle := by
    intro j hj
    have hji : j ≠ timerIdle := fun e => hidle (e ▸ hj)
    simp only [TState.key, idleRebase, hj, hji, ne_eq, not_false_iff, and_self, if_true]
    exact sub32_of_le (hkeys j hj) (h.bound j)
  have hnow : (idleRebase s).timerTicks = s.timerTicks - s.key timerIdle :=
    sub32_of_le hticks h.ticksLt
  refine ⟨h.nodup, ?_, sub32_lt _ _, ?_, ?_, ?_, h.left,
    fun f hf => (h.fired f hf).frame rfl (fun _ => hpc) fun _ => rfl, h.once⟩
  · intro j
    simp only [TState.key, idleRebase]
    split_ifs
    · exact sub32_lt _ _
    · exact h.bound j
  · simp only [idleRebase, ne_eq, not_true_eq_false, and_false, if_false]
    exact h.idle
  · have hclock := h.clock
    rw [hnow]
    show s.now = s.base + s.key timerIdle + (s.timerTicks - s.key timerIdle)
    omega
  · intro j hj
    have hjs : j ∈ s.list := hj
    rw [hkey j hjs]
    have := h.due j hjs
    have := hkeys j hjs
    show (s.arming j).due = s.base + s.key timerIdle + (s.key j - s.key timerIdle)
    omega

/-- An update ends when nothing on the list is due. -/
theorem Account.endUpdate (h : Account s) (minim : ℕ)
    (hlist : ∀ j ∈ s.list, s.timerTicks < s.key j) :
    Account { s with
      minimTimeoutVal := minim
      pc := .out
      updates := s.updates ++ [s.now] } where
  nodup := h.nodup
  bound := h.bound
  ticksLt := h.ticksLt
  idle := h.idle
  clock := h.clock
  due := h.due
  left := by
    intro j hj u hu
    have hu' : u ∈ s.updates.drop (s.arming j).since ∨ u = s.now := by
      have hmem : u ∈ (s.updates ++ [s.now]).drop (s.arming j).since := hu
      rw [List.drop_append] at hmem
      obtain hu | hu := List.mem_append.1 hmem
      · exact Or.inl hu
      · exact Or.inr (List.mem_singleton.1 (List.mem_of_mem_drop hu))
    obtain hu' | rfl := hu'
    · exact h.left j hj u hu'
    · have hd := h.due j hj
      have hlt := hlist j hj
      have hclock := h.clock
      show s.now < (s.arming j).due
      omega
  fired := by
    intro f hf
    have hok := h.fired f hf
    have hle : f.update ≤ s.updates.length := by
      obtain hdone | ⟨-, hlast, -⟩ := hok.during
      · exact (List.getElem?_eq_some_iff.1 hdone).1.le
      · exact hlast.le
    refine ⟨hok.notEarly, ?_, Or.inl ?_⟩
    · show ∀ u ∈ ((s.updates ++ [s.now]).take f.update).drop f.arming.since,
        u < f.arming.due
      rw [List.take_append_of_le_length hle]
      exact hok.first
    · show (s.updates ++ [s.now])[f.update]? = some f.tick
      obtain hdone | ⟨-, hlast, htick⟩ := hok.during
      · rw [List.getElem?_append_left (List.getElem?_eq_some_iff.1 hdone).1]
        exact hdone
      · rw [hlast, List.getElem?_concat_length, htick]
  once := h.once

/-! ## The order -/

/-- Keys that agree on the list, and on the timer read ahead, are in the same order. -/
theorem Ordered.write (h : Ordered s) (timer : ℕ → Timer)
    (hkey : ∀ j ∈ s.list, (timer j).timeout = s.key j)
    (hnext : ∀ j, s.pc = .callback (some j) → (timer j).timeout = s.key j) :
    Ordered { s with timer := timer } := by
  unfold Ordered at h ⊢
  cases hpc : s.pc with
  | out =>
    rw [hpc] at h
    refine ⟨h.1.imp_of_mem fun {j k} hj hk hle => ?_, fun j hj => ?_⟩
    · have hjk : s.key j ≤ s.key k := hle
      rw [← hkey j hj, ← hkey k hk] at hjk
      exact hjk
    · have hj' := h.2 j hj
      rw [← hkey j hj] at hj'
      exact hj'
  | callback next =>
    rw [hpc] at h
    apply Walking.shift h 0 rfl
    intro j hj
    obtain hj | hj := hj
    · exact hkey j hj
    · exact hnext j (by rw [hpc, hj])

theorem Ordered.insert (h : Ordered s) (hcond : AddOk s i) : Ordered (timerInsert s i) := by
  have hpc' : (timerInsert s i).pc = s.pc := rfl
  unfold Ordered at h ⊢
  rw [hpc']
  cases hpc : s.pc with
  | callback next =>
    rw [hpc] at h
    exact Walking.insertNear h (hcond.1 (by simp [hpc])) hcond.2
  | out =>
    rw [hpc] at h
    obtain ⟨hsorted, hminim⟩ := h
    have hsorted' : Sorted s.key (insertNear s.key i s.list) := sorted_insertNear hsorted hcond.2
    refine ⟨hsorted', fun j hj => ?_⟩
    have hj' : j = i ∨ j ∈ s.list := List.mem_cons.1 ((insertNear_perm s.key i s.list).mem_iff.1 hj)
    show (timerInsert s i).minimTimeoutVal ≤ s.key j
    cases hlist : s.list with
    | nil =>
      rw [hlist] at hj'
      obtain rfl | hj' := hj'
      · simp [timerInsert, hlist]
      · cases hj'
    | cons first rest =>
      have hfirst := hminim first (by rw [hlist]; exact List.mem_cons_self)
      simp only [timerInsert, hlist]
      obtain rfl | hj' := hj'
      · split_ifs
        · exact le_rfl
        · omega
      · have hold := hminim j hj'
        have hhead : s.key first ≤ s.key j := by
          rw [hlist] at hj' hsorted
          obtain rfl | hj' := List.mem_cons.1 hj'
          · exact le_rfl
          · exact (List.pairwise_cons.1 hsorted).1 j hj'
        split_ifs
        · omega
        · exact hold

theorem Ordered.cancel (h : Ordered s) (hnodup : s.list.Nodup)
    (hcond : s.pc = .callback (some i) → s.timerTicks < s.key i) : Ordered (timerCancel s i) := by
  unfold timerCancel
  split_ifs
  · unfold Ordered at h ⊢
    simp only
    cases hpc : s.pc with
    | out =>
      rw [hpc] at h
      exact ⟨h.1.sublist (without_sublist _ i), fun j hj => h.2 j ((without_sublist _ i).subset hj)⟩
    | callback next =>
      rw [hpc] at h
      refine Walking.remove h hnodup fun hnext => hcond ?_
      rw [hpc, hnext]
  · exact h

/-- After the walk the least timeout is that of the first timer. -/
theorem ordered_finish (junk : ℕ) (hsorted : Sorted s.key s.list)
    (hlist : ∀ j ∈ s.list, s.timerTicks < s.key j) : Ordered (finishUpdate s junk) := by
  refine ⟨hsorted, fun j hj => ?_⟩
  show (finishUpdate s junk).minimTimeoutVal ≤ s.key j
  have hj' : j ∈ s.list := hj
  cases hl : s.list with
  | nil =>
    rw [hl] at hj'
    cases hj'
  | cons first rest =>
    have hfirst : s.timerTicks < s.key first := hlist first (by rw [hl]; exact List.mem_cons_self)
    simp only [finishUpdate, hl, List.find?_cons, hfirst, decide_true]
    rw [hl] at hj' hsorted
    obtain rfl | hj' := List.mem_cons.1 hj'
    · exact le_rfl
    · exact (List.pairwise_cons.1 hsorted).1 j hj'

/-- A timer that is due fires, and the walk goes on. -/
theorem ordered_fire (hnodup : s.list.Nodup) (hwalk : Walking s.key s.timerTicks s.list (some i))
    (hdue : s.key i ≤ s.timerTicks)
    (hcond : (s.timer i).period = true →
      RearmOk s.key s.timerTicks s.list i (add32 s.timerTicks (s.timer i).timeval)) :
    Ordered (fireTimer s i) := by
  unfold fireTimer
  split_ifs with hperiod
  · have hkey : TState.key { s with
        timer := Function.update s.timer i
          { s.timer i with timeout := add32 s.timerTicks (s.timer i).timeval } } =
        Function.update s.key i (add32 s.timerTicks (s.timer i).timeval) := by
      funext j
      by_cases hj : j = i
      · subst hj
        simp [TState.key]
      · simp [TState.key, hj]
    have hwalk' := hwalk.rearm hnodup hdue (hcond hperiod)
    rw [← hkey] at hwalk'
    exact hwalk'
  · exact hwalk.take hnodup hdue

/-! ## The idle timer -/

/-- What is read ahead is on the list. -/
theorem mem_without_of_after {l : List ℕ} (hl : l.Nodup) {j : ℕ} (hi : i ∈ l)
    (hj : after l i = some j) : j ∈ without l i := by
  obtain ⟨pre, rest, rfl⟩ := List.append_of_mem hi
  obtain ⟨-, hrest, hdisj⟩ := List.nodup_append.1 hl
  have hpre : i ∉ pre := fun hmem => hdisj i hmem i List.mem_cons_self rfl
  rw [after_append hpre] at hj
  have hmem : j ∈ rest := List.mem_of_mem_head? hj
  refine mem_without.2 ⟨List.mem_append_right _ (List.mem_cons_of_mem i hmem), ?_⟩
  rintro rfl
  exact (List.nodup_cons.1 hrest).1 hmem

theorem fireTimer_idle (h : Account s) : fireTimer s timerIdle =
    { s with
      pc := .callback (after s.list timerIdle)
      fired := s.fired ++ [s.firing timerIdle]
      list := without s.list timerIdle } := by
  simp only [fireTimer, h.idle, Bool.false_eq_true, if_false]
  rfl

/-- What the idle timer takes off the pending timers when it fires. -/
theorem rebase_spec (h : Account s) (hwalk : Walking s.key s.timerTicks s.list (some timerIdle))
    (hdue : s.key timerIdle ≤ s.timerTicks) :
    (idleRebase (fireTimer s timerIdle)).timerTicks = s.timerTicks - s.key timerIdle ∧
      (idleRebase (fireTimer s timerIdle)).key timerIdle = s.key timerIdle ∧
      ∀ j ∈ without s.list timerIdle,
        (idleRebase (fireTimer s timerIdle)).key j = s.key j - s.key timerIdle := by
  have hleast := hwalk.least h.nodup hdue
  rw [fireTimer_idle h]
  refine ⟨sub32_of_le hdue h.ticksLt, by simp [idleRebase, TState.key], fun j hj => ?_⟩
  obtain ⟨hjs, hji⟩ := mem_without.1 hj
  simp only [TState.key, idleRebase, hj, hji, ne_eq, not_false_iff, and_self, if_true]
  exact sub32_of_le (hleast j hjs) (h.bound j)

/-- It is put where it belongs. -/
theorem addOk_of_idleOk (h : Account s)
    (hwalk : Walking s.key s.timerTicks s.list (some timerIdle))
    (hdue : s.key timerIdle ≤ s.timerTicks) (hcond : IdleOk s) :
    AddOk (idleRebase (fireTimer s timerIdle)) timerIdle := by
  obtain ⟨htwice, horder⟩ := hcond
  obtain ⟨hticks, hself, hkeys⟩ := rebase_spec h hwalk hdue
  have hlist : (idleRebase (fireTimer s timerIdle)).list = without s.list timerIdle := by
    rw [fireTimer_idle h]
    rfl
  refine ⟨fun _ => ?_, ?_⟩
  · rw [hticks, hself]
    omega
  · rw [hlist]
    refine horder.congr ?_ fun j hj => ?_
    · rw [hself, if_pos rfl]
    · rw [hkeys j hj, if_neg (mem_without.1 hj).2]

/-- The idle timer fires: all that is pending is shifted, and it is added again. -/
theorem idle_fires (h : Account s) (hwalk : Walking s.key s.timerTicks s.list (some timerIdle))
    (hdue : s.key timerIdle ≤ s.timerTicks) (hcond : IdleOk s) :
    Account (timerIdleHandler (fireTimer s timerIdle)) ∧
      Ordered (timerIdleHandler (fireTimer s timerIdle)) := by
  have hmem := hwalk.mem h.nodup hdue
  have hleast := hwalk.least h.nodup hdue
  obtain ⟨hticks, -, hkeys⟩ := rebase_spec h hwalk hdue
  have hfire := fireTimer_idle h
  have hrebased : Account (idleRebase (fireTimer s timerIdle)) := by
    have haccount := h.fire hmem hdue
    rw [hfire] at haccount ⊢
    exact haccount.rebase (fun hj => (mem_without.1 hj).2 rfl) hdue
      (fun j hj => hleast j (mem_without.1 hj).1) (by simp)
  have hout : timerIdle ∉ (idleRebase (fireTimer s timerIdle)).list := by
    rw [hfire]
    exact fun hj => (mem_without.1 hj).2 rfl
  refine ⟨hrebased.insert hout, Ordered.insert ?_ (addOk_of_idleOk h hwalk hdue hcond)⟩
  -- the order survives the shift
  have hwalk' := hwalk.take h.nodup hdue
  have hpc : (idleRebase (fireTimer s timerIdle)).pc = .callback (after s.list timerIdle) := by
    rw [hfire]
    rfl
  have hlist : (idleRebase (fireTimer s timerIdle)).list = without s.list timerIdle := by
    rw [hfire]
    rfl
  simp only [Ordered, hpc, hlist]
  apply hwalk'.shift (s.key timerIdle) (by omega)
  intro j hj
  have hj' : j ∈ without s.list timerIdle :=
    hj.elim id fun hnext => mem_without_of_after h.nodup hmem hnext
  have hle := hleast j (mem_without.1 hj').1
  have hkey := hkeys j hj'
  omega

/-! ## Steps -/

/-- The walk reads a timer, and fires it or stops. -/
theorem visit_inv (h : Account s) {next : Option ℕ}
    (hwalk : Walking s.key s.timerTicks s.list next) (hcond : VisitOk s next) (junk : ℕ)
    (hstep : visit s junk next = some s') : Account s' ∧ Ordered s' := by
  have hfinish : (∀ n, next = some n → s.timerTicks < s.key n) →
      Account (finishUpdate s junk) ∧ Ordered (finishUpdate s junk) := by
    intro hnext
    obtain ⟨hsorted, hlist⟩ := hwalk.stop hnext
    exact ⟨h.endUpdate _ hlist, ordered_finish junk hsorted hlist⟩
  cases next with
  | none =>
    cases hstep
    exact hfinish (by simp)
  | some i =>
    simp only [visit] at hstep
    split_ifs at hstep with hlate hi
    · cases hstep
      apply hfinish
      intro n hn
      obtain rfl := Option.some.inj hn
      exact hlate
    · cases hstep
      have hdue : s.key i ≤ s.timerTicks := by omega
      obtain ⟨hrearm, hidle⟩ := hcond hdue
      unfold timerDoAction
      split_ifs with hi0
      · subst hi0
        exact idle_fires h hwalk hdue (hidle rfl)
      · exact ⟨h.fire hi hdue, ordered_fire h.nodup hwalk hdue hrearm⟩

/-- A timer that is not pending is written to. -/
theorem write_inv (h : Account s ∧ Ordered s) {t : Timer} (hi : i ≠ timerIdle ∧ i ∉ s.list)
    (ht : t.timeout < 4294967296) (hnext : s.pc ≠ .callback (some i)) :
    Account { s with timer := Function.update s.timer i t } ∧
      Ordered { s with timer := Function.update s.timer i t } := by
  have hother : ∀ j, j ≠ i → Function.update s.timer i t j = s.timer j :=
    fun j hj => Function.update_of_ne hj t s.timer
  have hkey : ∀ j ∈ s.list, (Function.update s.timer i t j).timeout = s.key j := by
    intro j hj
    rw [hother j fun e => hi.2 (e ▸ hj)]
    rfl
  refine ⟨h.1.write _ hkey ?_ ?_, h.2.write _ hkey ?_⟩
  · intro j
    by_cases hj : j = i
    · subst hj
      rw [Function.update_self]
      exact ht
    · rw [hother j hj]
      exact h.1.bound j
  · rw [hother timerIdle hi.1.symm]
    exact h.1.idle
  · intro j hj
    rw [hother j fun e => hnext (e ▸ hj)]
    rfl

theorem setPeriod_inv (h : Account s ∧ Ordered s) (hi : i ≠ timerIdle) (period : Bool) :
    Account (timerSetPeriod s i period) ∧ Ordered (timerSetPeriod s i period) := by
  have hkey : ∀ j, (Function.update s.timer i { s.timer i with period := period } j).timeout =
      s.key j := by
    intro j
    by_cases hj : j = i
    · subst hj
      rw [Function.update_self]
      rfl
    · rw [Function.update_of_ne hj]
      rfl
  refine ⟨h.1.write _ (fun j _ => hkey j) (fun j => ?_) ?_,
    h.2.write _ (fun j _ => hkey j) fun j _ => hkey j⟩
  · rw [hkey]
    exact h.1.bound j
  · rw [Function.update_of_ne hi.symm]
    exact h.1.idle

/-- A tick comes between two updates. -/
theorem tick_inv (h : Account s ∧ Ordered s) (hpc : s.pc = .out)
    (hcond : s.timerTicks + 1 < 4294967296) :
    Account { s with timerTicks := add32 s.timerTicks 1, now := s.now + 1 } ∧
      Ordered { s with timerTicks := add32 s.timerTicks 1, now := s.now + 1 } := by
  refine ⟨⟨h.1.nodup, h.1.bound, add32_lt _ _, h.1.idle, ?_, h.1.due, h.1.left, fun f hf => ?_,
    h.1.once⟩, ?_⟩
  · have hclock := h.1.clock
    have hadd := add32_of_lt hcond
    show s.now + 1 = s.base + add32 s.timerTicks 1
    omega
  · exact (h.1.fired f hf).frame rfl id fun hin => absurd hpc hin
  · have hordered := h.2
    unfold Ordered at hordered ⊢
    simp only [hpc] at hordered ⊢
    exact hordered

theorem timer_step (s : TState) (e : Event) (s' : TState) (h : Account s ∧ Ordered s)
    (hcond : TimerOk s e) (hstep : timerStep s e = some s') : Account s' ∧ Ordered s' := by
  cases e with
  | tick =>
    simp only [timerStep, Option.ite_none_right_eq_some, Option.some.injEq] at hstep
    obtain ⟨hpc, rfl⟩ := hstep
    exact tick_inv h hpc hcond
  | init i timeout =>
    simp only [timerStep, Option.ite_none_right_eq_some, Option.some.injEq] at hstep
    obtain ⟨hi, rfl⟩ := hstep
    exact write_inv h hi (add32_lt _ _) hcond
  | modify i timeout =>
    simp only [timerStep, Option.ite_none_right_eq_some, Option.some.injEq] at hstep
    obtain ⟨hi, rfl⟩ := hstep
    exact write_inv h hi (add32_lt _ _) hcond
  | setPeriod i period =>
    simp only [timerStep, Option.ite_none_right_eq_some, Option.some.injEq] at hstep
    obtain ⟨hi, rfl⟩ := hstep
    exact setPeriod_inv h hi period
  | add i =>
    simp only [timerStep, timerAdd, Option.ite_none_right_eq_some, Option.ite_none_left_eq_some,
      Option.some.injEq] at hstep
    obtain ⟨-, hi, rfl⟩ := hstep
    exact ⟨h.1.insert hi, h.2.insert hcond⟩
  | cancel i =>
    simp only [timerStep, Option.ite_none_right_eq_some, Option.some.injEq] at hstep
    obtain ⟨-, rfl⟩ := hstep
    exact ⟨h.1.cancel, h.2.cancel h.1.nodup hcond⟩
  | update junk =>
    simp only [timerStep, timerUpdateTicks, Option.ite_none_right_eq_some] at hstep
    obtain ⟨hpc, hstep⟩ := hstep
    have hordered := h.2
    simp only [Ordered, hpc] at hordered
    split_ifs at hstep with hearly
    · -- nothing is due
      cases hstep
      have hlist : ∀ j ∈ s.list, s.timerTicks < s.key j :=
        fun j hj => hearly.trans_le (hordered.2 j hj)
      have hend := h.1.endUpdate s.minimTimeoutVal hlist
      rw [← hpc] at hend
      refine ⟨hend, ?_⟩
      simp only [Ordered, hpc]
      exact hordered
    · exact visit_inv h.1 (walking_start hordered.1) (hcond (by omega)) junk hstep
  | ret junk =>
    cases hpc : s.pc with
    | out => simp [timerStep, hpc] at hstep
    | callback next =>
      have hordered := h.2
      simp only [timerStep, hpc] at hstep
      simp only [TimerOk, hpc] at hcond
      simp only [Ordered, hpc] at hordered
      exact visit_inv h.1 hordered hcond junk hstep

/-! ## The end of an update -/

/-- What fires is one of those that are due. -/
theorem dueCount_without (hnodup : s.list.Nodup) (hi : i ∈ s.list) (hdue : s.key i ≤ s.timerTicks) :
    (without s.list i).countP (fun j => s.key j ≤ s.timerTicks) + 1 = s.dueCount := by
  have hperm := (cons_without_perm hnodup hi).countP_eq fun j => decide (s.key j ≤ s.timerTicks)
  rw [List.countP_cons_of_pos (by simpa using hdue)] at hperm
  exact hperm

/-- A timer on the list that is not due does not count. -/
theorem dueCount_of_perm {l : List ℕ} (hlist : s'.list.Perm (i :: l))
    (hi : s'.timerTicks < s'.key i)
    (hkey : ∀ j ∈ l, s'.key j ≤ s'.timerTicks ↔ s.key j ≤ s.timerTicks) :
    s'.dueCount = l.countP fun j => s.key j ≤ s.timerTicks := by
  have hnot : ¬ s'.key i ≤ s'.timerTicks := by omega
  rw [TState.dueCount, hlist.countP_eq, List.countP_cons_of_neg (by simpa using hnot)]
  exact List.countP_congr fun j hj => by simpa using hkey j hj

/-- A callback that is run leaves fewer timers that are due. -/
theorem dueCount_doAction (h : Account s)
    (hwalk : Walking s.key s.timerTicks s.list (some i)) (hdue : s.key i ≤ s.timerTicks)
    (hcond : VisitOk s (some i)) : (timerDoAction s i).dueCount + 1 ≤ s.dueCount := by
  have hmem := hwalk.mem h.nodup hdue
  have hcount := dueCount_without h.nodup hmem hdue
  obtain ⟨hrearm, hidle⟩ := hcond hdue
  unfold timerDoAction
  split_ifs with hi0
  · subst hi0
    have hadd := addOk_of_idleOk h hwalk hdue (hidle rfl)
    have hleast := hwalk.least h.nodup hdue
    obtain ⟨hticks, -, hkeys⟩ := rebase_spec h hwalk hdue
    have hfire := fireTimer_idle h
    have hlist : (idleRebase (fireTimer s timerIdle)).list = without s.list timerIdle := by
      rw [hfire]
      rfl
    have hlater := hadd.1 (by rw [hfire]; simp [idleRebase])
    have hsame : (timerIdleHandler (fireTimer s timerIdle)).dueCount =
        (without s.list timerIdle).countP fun j => s.key j ≤ s.timerTicks := by
      refine dueCount_of_perm (i := timerIdle) ?_ hlater fun j hj => ?_
      · rw [← hlist]
        exact insertNear_perm _ _ _
      · have hle := hleast j (mem_without.1 hj).1
        have hkey := hkeys j hj
        show (idleRebase (fireTimer s timerIdle)).key j ≤
          (idleRebase (fireTimer s timerIdle)).timerTicks ↔ s.key j ≤ s.timerTicks
        omega
    omega
  · unfold fireTimer
    split_ifs with hperiod
    · have hlater := (hrearm hperiod).1
      have hsame : (TState.arm
          { s with
            pc := .callback (after s.list i)
            fired := s.fired ++ [⟨s.arming i, s.now, s.updates.length⟩]
            timer := Function.update s.timer i
              { s.timer i with timeout := add32 s.timerTicks (s.timer i).timeval } } i).dueCount =
          (without s.list i).countP fun j => s.key j ≤ s.timerTicks := by
        refine dueCount_of_perm (i := i) (cons_without_perm h.nodup hmem).symm ?_ fun j hj => ?_
        · simpa [TState.arm, TState.key] using hlater
        · simp [TState.arm, TState.key, (mem_without.1 hj).2]
      exact (congrArg (· + 1) hsame).trans hcount |>.le
    · exact hcount.le

/-- Writing to a timer that is not on the list changes nothing. -/
theorem dueCount_write (timer : ℕ → Timer) (hkey : ∀ j ∈ s.list, (timer j).timeout = s.key j) :
    TState.dueCount { s with timer := timer } = s.dueCount :=
  List.countP_congr fun j hj => by
    have hj' : TState.key { s with timer := timer } j = s.key j := hkey j hj
    simp only [decide_eq_true_eq]
    omega

theorem dueCount_update (hi : i ∉ s.list) (t : Timer) :
    TState.dueCount { s with timer := Function.update s.timer i t } = s.dueCount := by
  apply dueCount_write _
  intro j hj
  have hji : j ≠ i := by
    rintro rfl
    exact hi hj
  rw [Function.update_of_ne hji]
  rfl

theorem dueCount_setPeriod (i : ℕ) (period : Bool) :
    (timerSetPeriod s i period).dueCount = s.dueCount := by
  apply dueCount_write _
  intro j _
  by_cases hji : j = i
  · subst hji
    rw [Function.update_self]
    rfl
  · rw [Function.update_of_ne hji]
    rfl

/-- When a callback returns, what the walk reads next is on the list, or the walk stops. -/
theorem ret_goes_on (h : Account s) {next : Option ℕ} (hpc : s.pc = .callback next)
    (hwalk : Walking s.key s.timerTicks s.list next) (junk : ℕ) :
    ∃ s', timerStep s (.ret junk) = some s' := by
  simp only [timerStep, hpc]
  cases next with
  | none => exact ⟨_, rfl⟩
  | some i =>
    simp only [visit]
    split_ifs with hlate hi
    · exact ⟨_, rfl⟩
    · exact ⟨_, rfl⟩
    · exact absurd (hwalk.mem h.nodup (by omega)) hi

/-- What is done while a callback runs makes no timer due, and its return takes off the next. -/
theorem dueCount_step (h : Account s) {next : Option ℕ} (hpc : s.pc = .callback next)
    (hwalk : Walking s.key s.timerTicks s.list next) (e : Event) (hcond : TimerOk s e)
    (hstep : timerStep s e = some s') :
    s'.pc = .out ∨ s'.dueCount + e.isRet.toNat ≤ s.dueCount := by
  cases e with
  | tick => simp [timerStep, hpc] at hstep
  | update junk => simp [timerStep, hpc] at hstep
  | init i timeout =>
    simp only [timerStep, Option.ite_none_right_eq_some, Option.some.injEq] at hstep
    obtain ⟨hi, rfl⟩ := hstep
    right
    simp only [Event.isRet, Bool.toNat_false, add_zero]
    exact (dueCount_update hi.2 _).le
  | modify i timeout =>
    simp only [timerStep, Option.ite_none_right_eq_some, Option.some.injEq] at hstep
    obtain ⟨hi, rfl⟩ := hstep
    right
    simp only [Event.isRet, Bool.toNat_false, add_zero]
    exact (dueCount_update hi.2 _).le
  | setPeriod i period =>
    simp only [timerStep, Option.ite_none_right_eq_some, Option.some.injEq] at hstep
    obtain ⟨-, rfl⟩ := hstep
    right
    simp only [Event.isRet, Bool.toNat_false, add_zero]
    exact (dueCount_setPeriod i period).le
  | add i =>
    simp only [timerStep, timerAdd, Option.ite_none_right_eq_some,
      Option.ite_none_left_eq_some, Option.some.injEq] at hstep
    obtain ⟨-, -, rfl⟩ := hstep
    have hlater := hcond.1 (by simp [hpc])
    have hsame : (timerInsert s i).dueCount = s.dueCount :=
      dueCount_of_perm (insertNear_perm s.key i s.list) hlater fun j _ => Iff.rfl
    right
    simp only [Event.isRet, Bool.toNat_false, add_zero]
    exact hsame.le
  | cancel i =>
    simp only [timerStep, Option.ite_none_right_eq_some, Option.some.injEq] at hstep
    obtain ⟨-, rfl⟩ := hstep
    right
    simp only [Event.isRet, Bool.toNat_false, add_zero]
    unfold timerCancel
    split_ifs
    · exact (without_sublist s.list i).countP_le
    · exact le_rfl
  | ret junk =>
    simp only [timerStep, hpc] at hstep
    simp only [TimerOk, hpc] at hcond
    cases next with
    | none =>
      cases hstep
      exact Or.inl rfl
    | some i =>
      simp only [visit] at hstep
      split_ifs at hstep with hlate hi
      · cases hstep
        exact Or.inl rfl
      · cases hstep
        exact Or.inr (dueCount_doAction h hwalk (by omega) hcond)

theorem ends_of_inv (h : Account s) (hordered : Ordered s) : Ends s := by
  intro hin
  cases hpc : s.pc with
  | out => exact absurd hpc hin
  | callback next =>
    simp only [Ordered, hpc] at hordered
    exact ⟨ret_goes_on h hpc hordered, fun e s' hcond hstep =>
      dueCount_step h hpc hordered e hcond hstep⟩

/-! ## The theorem -/

/-- **Timers fire on time, once**, in every run in which they are put where they belong: a
callback runs in the first update at or after the tick its timer is due at, no update leaves a
timer that is due, and every arming fires once unless it is cancelled. -/
theorem timers_fire_once (timer : ℕ → Timer) (events : List Event) (s : TState)
    (hrun : Run.exec timerStep (timersInit timer) events = some s)
    (hcond : Run.Along timerStep TimerOk (timersInit timer) events) : TimersOk s := by
  have hinv := Run.exec_invariant (I := fun s => Account s ∧ Ordered s) timer_step events _ s
    ⟨account_boot timer, ordered_boot timer⟩ hcond hrun
  exact ⟨hinv.1.clock, hinv.1.due, hinv.1.left, hinv.1.fired, hinv.1.once,
    ends_of_inv hinv.1 hinv.2⟩

/-- Timers with the timeouts 3 and 1, a periodic one with 1, and one that a callback adds; a
callback cancels the first. -/
theorem timers_fire_once_four :
    ∃ s, Run.exec timerStep (timersInit fun _ => ⟨0, 0, false⟩)
        [.init 3 3, .add 3, .init 1 1, .add 1, .init 2 1, .setPeriod 2 true, .add 2, .tick,
          .update 0, .init 4 1, .add 4, .ret 0, .ret 0, .tick, .update 0, .cancel 3, .ret 0, .ret 0,
          .tick, .update 0, .ret 0] = some s ∧ TimersOk s := by
  have hsome : (Run.exec timerStep (timersInit fun _ => ⟨0, 0, false⟩)
      [.init 3 3, .add 3, .init 1 1, .add 1, .init 2 1, .setPeriod 2 true, .add 2, .tick,
        .update 0, .init 4 1, .add 4, .ret 0, .ret 0, .tick, .update 0, .cancel 3, .ret 0, .ret 0,
        .tick, .update 0, .ret 0]).isSome = true := by decide +kernel
  obtain ⟨s, hs⟩ := Option.isSome_iff_exists.1 hsome
  exact ⟨s, hs, timers_fire_once _ _ s hs (by decide +kernel)⟩

/-- Timers with the timeouts 1, 2 and 3 are added in this order.  The third is put before the
second, and the update at the tick 2 is not made. -/
theorem timer_missed :
    ∃ s, Run.exec timerStep (timersInit fun _ => ⟨0, 0, false⟩)
        [.init 1 1, .add 1, .init 2 2, .add 2, .init 3 3, .add 3, .tick, .update 0, .ret 0, .tick,
          .update 0] = some s ∧ ¬ TimersOk s := by
  have hrun : (Run.exec timerStep (timersInit fun _ => ⟨0, 0, false⟩)
      [.init 1 1, .add 1, .init 2 2, .add 2, .init 3 3, .add 3, .tick, .update 0, .ret 0, .tick,
        .update 0]).map (fun s => (s.list, s.arming 2, s.updates)) =
      some ([3, 2, 0], ⟨2, 2, 0⟩, [1, 2]) := by decide +kernel
  obtain ⟨s, hs, hfacts⟩ := Option.map_eq_some_iff.1 hrun
  simp only [Prod.mk.injEq] at hfacts
  obtain ⟨hlist, harming, hupdates⟩ := hfacts
  refine ⟨s, hs, fun h => ?_⟩
  have hleft := h.left 2 (by simp [hlist]) 2 (by simp [harming, hupdates])
  rw [harming] at hleft
  exact absurd hleft (by decide)

end Timers
end LightOS
