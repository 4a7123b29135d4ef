import LightOS.Task.Schedule
import LightOS.Task.WaitQueueBasic

/-!
# Sleeping and waking in the kernel: one list for a node

* `QueuesInv` — whose node is on a wait list sleeps, or is the current task on its way there.
* `Frees` — what waking does to the wait lists and to the rest.
* `taskWakeup_spec`, `mutexUnlock_spec`, `QueuesInv.block`, `QueuesInv.join` — the operations.
* `KernInv` — besides, a semaphore's lock has one holder, and whom a `__semaphore_up` has in
  hand sleeps.
* `kstep_inv` — every event keeps the invariant, if nobody on a wait list is queued again and
  nobody in hand is woken.
* `one_queue` — so every node is on at most one list; `one_queue_fails` is a run that preempts a
  task on its way to sleep.
-/

namespace LightOS
namespace WaitQueue

open Sched

/-! ## Lists -/

/-- The lists a node can be on. -/
inductive Queue where
  | ready (priority : ℕ)
  | wait (l : WaitList)
  deriving DecidableEq, Repr

/-- The nodes on a list. -/
def KState.on (s : KState) : Queue → List ℕ
  | .ready p => (s.sched.priorityQueue p).list
  | .wait l => s.list l

/-- Each task's node is on at most one list, and once. -/
structure OneQueue (s : KState) : Prop where
  one : ∀ t q q', t ∈ s.on q → t ∈ s.on q' → q = q'
  once : ∀ q, (s.on q).Nodup

section Links

variable {s : KState} {l l' : WaitList} {t : ℕ}

theorem mem_list : t ∈ s.list l ↔ (l, t) ∈ s.links := by
  constructor
  · intro h
    obtain ⟨⟨a, b⟩, hmem, rfl⟩ := List.mem_map.1 h
    obtain ⟨hlinks, ha⟩ := List.mem_filter.1 hmem
    have ha : a = l := by simpa using ha
    rw [← ha]
    exact hlinks
  · intro h
    exact List.mem_map.2 ⟨(l, t), List.mem_filter.2 ⟨h, by simp⟩, rfl⟩

theorem waits_iff : s.Waits t ↔ ∃ l, (l, t) ∈ s.links := by
  unfold KState.Waits
  rw [List.mem_map]
  constructor
  · rintro ⟨⟨l, x⟩, h, rfl⟩
    exact ⟨l, h⟩
  · rintro ⟨l, h⟩
    exact ⟨(l, t), h, rfl⟩

theorem waits_of_mem (h : (l, t) ∈ s.links) : s.Waits t := waits_iff.2 ⟨l, h⟩

theorem mem_listDel {link : WaitList × ℕ} :
    link ∈ (s.listDel t).links ↔ link ∈ s.links ∧ link.2 ≠ t := by
  show link ∈ s.links.filter _ ↔ _
  rw [List.mem_filter, decide_eq_true_eq]

theorem not_waits_listDel : ¬(s.listDel t).Waits t := by
  intro h
  obtain ⟨l, hl⟩ := waits_iff.1 h
  exact (mem_listDel.1 hl).2 rfl

end Links

/-! ## The invariant -/

/-- Whose node is on a wait list is not ready, and is on no other list. -/
structure QueuesInv (s : KState) : Prop where
  sched : SchedInv s.sched
  nodup : (s.links.map Prod.snd).Nodup
  asleep : ∀ t, s.Waits t → ∃ T, s.sched.tasks t = some T ∧ T.state ≠ .ready
  /-- Who waits for a semaphore is in the last lines of `__semaphore_down`. -/
  going : ∀ k, (.sema k, s.sched.cur) ∈ s.links →
    s.place s.sched.cur = .downUnlock k ∨ s.place s.sched.cur = .downBlock k
  sleeping : ∀ k t, (.sema k, t) ∈ s.links → t ≠ s.sched.cur → s.place t = .downReturn k
  idle : s.place s.sched.idle = .out

section Inv

variable {s u s' : KState} {l l' : WaitList} {t k : ℕ} {p : Place}

theorem QueuesInv.link_unique (h : QueuesInv s) (hl : (l, t) ∈ s.links) (hl' : (l', t) ∈ s.links) :
    l = l' := by
  have heq := List.inj_on_of_nodup_map h.nodup hl hl' rfl
  exact congrArg Prod.fst heq

theorem QueuesInv.on_ready (h : QueuesInv s)
    (hp : t ∈ (s.sched.priorityQueue k).list) : ¬s.Waits t := by
  intro hwait
  obtain ⟨T, hT, hstate⟩ := h.asleep t hwait
  obtain ⟨X, hX, hready, -⟩ := (h.sched.queue.mem t k).1 hp
  rw [hT, Option.some.injEq] at hX
  exact hstate (hX ▸ hready)

/-- **The invariant separates the lists.** -/
theorem QueuesInv.oneQueue (h : QueuesInv s) : OneQueue s := by
  constructor
  · intro t q q' hq hq'
    cases q with
    | ready p =>
        cases q' with
        | ready p' =>
            obtain ⟨X, hX, -, hXp⟩ := (h.sched.queue.mem t p).1 hq
            obtain ⟨Y, hY, -, hYp⟩ := (h.sched.queue.mem t p').1 hq'
            rw [hX, Option.some.injEq] at hY
            rw [← hXp, ← hYp, hY]
        | wait l => exact absurd (waits_of_mem (mem_list.1 hq')) (h.on_ready hq)
    | wait l =>
        cases q' with
        | ready p => exact absurd (waits_of_mem (mem_list.1 hq)) (h.on_ready hq')
        | wait l' => rw [h.link_unique (mem_list.1 hq) (mem_list.1 hq')]
  · intro q
    cases q with
    | ready p => exact h.sched.queue.nodup p
    | wait l => exact h.nodup.sublist (List.filter_sublist.map Prod.snd)

/-- The current task waits for no semaphore outside the last lines of `__semaphore_down`. -/
theorem QueuesInv.not_going (h : QueuesInv s) (k : ℕ) (hplace : s.place s.sched.cur = p)
    (hp : p ≠ .downUnlock k ∧ p ≠ .downBlock k) : (.sema k, s.sched.cur) ∉ s.links := by
  intro hmem
  rcases h.going k hmem with heq | heq
  · exact hp.1 (hplace ▸ heq)
  · exact hp.2 (hplace ▸ heq)

/-- The idle task is in no call. -/
theorem QueuesInv.cur_ne_idle (h : QueuesInv s) (hplace : s.place s.sched.cur ≠ .out) :
    s.sched.cur ≠ s.sched.idle := by
  intro heq
  rw [heq] at hplace
  exact hplace h.idle

/-! ## Changes -/

/-- Nodes leave the wait lists. -/
theorem QueuesInv.shrink (h : QueuesInv s) (hsched : u.sched = s.sched)
    (hsub : u.links.Sublist s.links) (hplace : u.place = s.place) : QueuesInv u := by
  have hwaits : ∀ t, u.Waits t → s.Waits t := fun t ht => (hsub.map Prod.snd).subset ht
  refine ⟨hsched ▸ h.sched, h.nodup.sublist (hsub.map Prod.snd), fun t ht => ?_, fun k hk => ?_,
    fun k t hk ht => ?_, ?_⟩
  · rw [hsched]
    exact h.asleep t (hwaits t ht)
  · rw [hsched] at hk ⊢
    rw [hplace]
    exact h.going k (hsub.subset hk)
  · rw [hsched] at ht
    rw [hplace]
    exact h.sleeping k t (hsub.subset hk) ht
  · rw [hsched, hplace]
    exact h.idle

/-- A task that is on no wait list changes its state, and the current task stays. -/
theorem QueuesInv.resched (h : QueuesInv s) {sched : SchedState} (hsched : SchedInv sched)
    (hcur : sched.cur = s.sched.cur) (hidle : sched.idle = s.sched.idle)
    (hkeep : ∀ t, s.Waits t → sched.tasks t = s.sched.tasks t) : QueuesInv (s.onSched sched) := by
  refine ⟨hsched, h.nodup, fun t ht => ?_, fun k hk => ?_, fun k t hk ht => ?_, ?_⟩
  · show ∃ T, sched.tasks t = some T ∧ _
    rw [hkeep t ht]
    exact h.asleep t ht
  · have hk : (.sema k, sched.cur) ∈ s.links := hk
    show s.place sched.cur = _ ∨ s.place sched.cur = _
    rw [hcur] at hk ⊢
    exact h.going k hk
  · have ht : t ≠ sched.cur := ht
    rw [hcur] at ht
    exact h.sleeping k t hk ht
  · show s.place sched.idle = _
    rw [hidle]
    exact h.idle

/-- The current task goes on in its call. -/
theorem QueuesInv.move (h : QueuesInv s) (hidle : s.sched.cur ≠ s.sched.idle)
    (hsched : u.sched = s.sched) (hlinks : u.links = s.links)
    (hplace : u.place = Function.update s.place s.sched.cur p)
    (hp : ∀ k, (.sema k, s.sched.cur) ∈ s.links → p = .downUnlock k ∨ p = .downBlock k) :
    QueuesInv u := by
  refine ⟨hsched ▸ h.sched, hlinks ▸ h.nodup, fun t ht => ?_, fun k hk => ?_, fun k t hk ht => ?_,
    ?_⟩
  · unfold KState.Waits at ht
    rw [hlinks] at ht
    rw [hsched]
    exact h.asleep t ht
  · rw [hlinks, hsched] at hk
    rw [hsched, hplace, Function.update_self]
    exact hp k hk
  · rw [hlinks] at hk
    rw [hsched] at ht
    rw [hplace, Function.update_of_ne ht]
    exact h.sleeping k t hk ht
  · rw [hsched, hplace, Function.update_of_ne hidle.symm]
    exact h.idle

/-- A task that is on no wait list starts from outside of all calls. -/
theorem QueuesInv.reset (h : QueuesInv s) (hnot : ¬s.Waits t) : QueuesInv (s.goto t .out) := by
  have hplace : ∀ x, s.Waits x → (s.goto t .out).place x = s.place x := by
    intro x hx
    refine Function.update_of_ne ?_ ..
    rintro rfl
    exact hnot hx
  refine ⟨h.sched, h.nodup, h.asleep, fun k hk => ?_, fun k x hk hx => ?_, ?_⟩
  · have hsame : (s.goto t .out).place s.sched.cur = s.place s.sched.cur :=
      hplace _ (waits_of_mem hk)
    exact (h.going k hk).imp hsame.trans hsame.trans
  · exact (hplace x (waits_of_mem hk)).trans (h.sleeping k x hk hx)
  · show Function.update s.place t .out s.sched.idle = .out
    by_cases hidle : s.sched.idle = t
    · rw [hidle, Function.update_self]
    · rw [Function.update_of_ne hidle]
      exact h.idle

/-- **The current task puts its node on a wait list.** -/
theorem QueuesInv.join (h : QueuesInv s) (hidle : s.sched.cur ≠ s.sched.idle)
    (hnot : ¬s.Waits s.sched.cur) (hsched : u.sched = s.sched)
    (hlinks : u.links = s.links ++ [(l, s.sched.cur)])
    (hplace : u.place = Function.update s.place s.sched.cur p)
    (hp : ∀ k, l = .sema k → p = .downUnlock k) : QueuesInv u := by
  have hwaits : ∀ t, u.Waits t → s.Waits t ∨ t = s.sched.cur := by
    intro t ht
    unfold KState.Waits at ht
    rw [hlinks, List.map_append, List.mem_append] at ht
    exact ht.imp_right fun hmem => by simpa using hmem
  refine ⟨hsched ▸ h.sched, ?_, fun t ht => ?_, fun k hk => ?_, fun k t hk ht => ?_, ?_⟩
  · rw [hlinks, List.map_append, List.map_singleton, ← List.concat_eq_append]
    exact h.nodup.concat hnot
  · rw [hsched]
    rcases hwaits t ht with hold | rfl
    · exact h.asleep t hold
    · obtain ⟨T, hT, hrun⟩ := h.sched.cur
      exact ⟨T, hT, by rw [hrun]; decide⟩
  · rw [hlinks, hsched, List.mem_append] at hk
    rw [hsched, hplace, Function.update_self]
    rcases hk with hold | hnew
    · exact absurd (waits_of_mem hold) hnot
    · have hl : WaitList.sema k = l := by simpa using hnew
      exact Or.inl (hp k hl.symm)
  · rw [hsched] at ht
    rw [hlinks, List.mem_append] at hk
    rw [hplace, Function.update_of_ne ht]
    rcases hk with hold | hnew
    · exact h.sleeping k t hold ht
    · exact absurd (congrArg Prod.snd (List.mem_singleton.1 hnew)) ht
  · rw [hsched, hplace, Function.update_of_ne hidle.symm]
    exact h.idle

/-- The processor goes from the current task to another; whoever waits is asleep. -/
theorem QueuesInv.switch (h : QueuesInv s) {sched : SchedState} (hsched : SchedInv sched)
    (hidle : sched.idle = s.sched.idle) (hplace : s.place s.sched.idle = u.place s.sched.idle)
    (hlinks : u.links = s.links)
    (hasleep : ∀ t, s.Waits t →
      t ≠ sched.cur ∧ ∃ T, sched.tasks t = some T ∧ T.state ≠ .ready)
    (hsleeping : ∀ k t, (.sema k, t) ∈ s.links → u.place t = .downReturn k) :
    QueuesInv (u.onSched sched) := by
  have hlinks' : (u.onSched sched).links = s.links := hlinks
  refine ⟨hsched, by rw [hlinks']; exact h.nodup, fun t ht => ?_, fun k hk => ?_,
    fun k t hk _ => ?_, ?_⟩
  · unfold KState.Waits at ht
    rw [hlinks'] at ht
    exact (hasleep t ht).2
  · rw [hlinks'] at hk
    exact absurd rfl (hasleep _ (waits_of_mem hk)).1
  · rw [hlinks'] at hk
    exact hsleeping k t hk
  · show u.place sched.idle = _
    rw [hidle, ← hplace]
    exact h.idle

/-- **The clock takes the processor** from a task that is on no wait list. -/
theorem QueuesInv.preempt (h : QueuesInv s) (hnot : ¬s.Waits s.sched.cur)
    (hrun : (schedule s.sched).map s.onSched = some s') : QueuesInv s' := by
  obtain ⟨sched, hsched, rfl⟩ := Option.map_eq_some_iff.1 hrun
  obtain ⟨hidle, hkeep⟩ := schedule_frame h.sched hsched
  have hinv := schedStep_inv s.sched .expire sched h.sched trivial hsched
  have hne : ∀ t, s.Waits t → t ≠ s.sched.cur := by
    rintro t ht rfl
    exact hnot ht
  refine h.switch hinv hidle rfl rfl (fun t ht => ?_) fun k t hk =>
    h.sleeping k t hk (hne t (waits_of_mem hk))
  obtain ⟨T, hT, hstate⟩ := h.asleep t ht
  obtain ⟨hT', hnext⟩ := hkeep t T hT hstate (hne t ht)
  exact ⟨hnext, T, hT', hstate⟩

/-- **The current task goes to sleep**, on a wait list or not. -/
theorem QueuesInv.block (h : QueuesInv s) (hidle : s.sched.cur ≠ s.sched.idle) {state : TaskState}
    (hp : ∀ k, (.sema k, s.sched.cur) ∈ s.links → p = .downReturn k)
    (hrun : (s.goto s.sched.cur p).block state = some s') : QueuesInv s' := by
  obtain ⟨sched, hsched, rfl⟩ := Option.map_eq_some_iff.1 hrun
  have hsched : taskBlock s.sched state = some sched := hsched
  obtain ⟨hidle', hnext, ⟨C, hC, hCstate⟩, hkeep⟩ := taskBlock_frame h.sched hidle hsched
  have hinv := schedStep_inv s.sched (.block state) sched h.sched hidle hsched
  refine h.switch (u := s.goto s.sched.cur p) hinv hidle' ?_ rfl (fun t ht => ?_) fun k t hk => ?_
  · exact (Function.update_of_ne hidle.symm ..).symm
  · by_cases htc : t = s.sched.cur
    · rw [htc]
      exact ⟨hnext, C, hC, hCstate⟩
    · obtain ⟨T, hT, hstate⟩ := h.asleep t ht
      obtain ⟨hT', hne⟩ := hkeep t T hT hstate htc
      exact ⟨hne, T, hT', hstate⟩
  · show Function.update s.place s.sched.cur p t = _
    by_cases htc : t = s.sched.cur
    · rw [htc, Function.update_self]
      exact hp k (htc ▸ hk)
    · rw [Function.update_of_ne htc]
      exact h.sleeping k t hk htc

end Inv

/-! ## Waking -/

/-- Between `s` and `s'` some nodes have left the wait lists, of tasks in `P`; the calls, the
counters and the records are as they were. -/
structure Frees (P : ℕ → Prop) (s s' : KState) : Prop where
  cur : s'.sched.cur = s.sched.cur
  idle : s'.sched.idle = s.sched.idle
  sub : s'.links.Sublist s.links
  kept : ∀ link ∈ s.links, ¬P link.2 → link ∈ s'.links
  place : s'.place = s.place
  counter : s'.counter = s.counter
  ledger : s'.ledger = s.ledger
  locked : s'.locked = s.locked
  waiter : s'.waiter = s.waiter
  tasks : ∀ t, ¬P t → s'.sched.tasks t = s.sched.tasks t

section Waking

variable {s s' : KState} {t k q : ℕ}

theorem Frees.refl (P : ℕ → Prop) (s : KState) : Frees P s s :=
  ⟨rfl, rfl, List.Sublist.refl _, fun _ h _ => h, rfl, rfl, rfl, rfl, rfl, fun _ _ => rfl⟩

theorem Frees.trans {P : ℕ → Prop} {u : KState} (h : Frees P s u) (h' : Frees P u s') :
    Frees P s s' :=
  ⟨h'.cur.trans h.cur, h'.idle.trans h.idle, h'.sub.trans h.sub,
    fun link hl hP => h'.kept link (h.kept link hl hP) hP, h'.place.trans h.place,
    h'.counter.trans h.counter, h'.ledger.trans h.ledger, h'.locked.trans h.locked,
    h'.waiter.trans h.waiter, fun t hP => (h'.tasks t hP).trans (h.tasks t hP)⟩

theorem Frees.mono {P Q : ℕ → Prop} (h : Frees P s s') (hPQ : ∀ t, P t → Q t) : Frees Q s s' :=
  ⟨h.cur, h.idle, h.sub, fun link hl hQ => h.kept link hl fun hP => hQ (hPQ _ hP), h.place,
    h.counter, h.ledger, h.locked, h.waiter, fun t hQ => h.tasks t fun hP => hQ (hPQ _ hP)⟩

/-- Taking the node of a task that is not ready off its list is no business of the scheduler. -/
theorem listDel_sched (h : SchedInv s.sched) (ht : ∀ T, s.sched.tasks t = some T →
    T.state ≠ .ready) :
    (s.listDel t).sched = s.sched := by
  have hqueue : (fun p => { s.sched.priorityQueue p with
      list := (s.sched.priorityQueue p).list.filter fun x => x ≠ t }) = s.sched.priorityQueue := by
    funext p
    have hlist : ((s.sched.priorityQueue p).list.filter fun x => x ≠ t) =
        (s.sched.priorityQueue p).list := by
      refine List.filter_eq_self.2 fun x hx => ?_
      rw [decide_eq_true_eq]
      rintro rfl
      exact h.queue.not_mem ht p hx
    rw [hlist]
  calc (s.listDel t).sched = { s.sched with priorityQueue := fun p => { s.sched.priorityQueue p with
        list := (s.sched.priorityQueue p).list.filter fun x => x ≠ t } } := rfl
    _ = s.sched := by rw [hqueue]

theorem frees_listDel (hsched : (s.listDel t).sched = s.sched) : Frees (· = t) s (s.listDel t) :=
  ⟨by rw [hsched], by rw [hsched], List.filter_sublist, fun _ hl hP => mem_listDel.2 ⟨hl, hP⟩,
    rfl, rfl, rfl, rfl, rfl, fun _ _ => by rw [hsched]⟩

theorem TaskNotReady.not_ready (h : TaskNotReady s t) :
    ∀ T, s.sched.tasks t = some T → T.state ≠ .ready := by
  obtain ⟨x, hx, hstate⟩ := h
  intro T hT
  have hx : s.stateOf t = some x := hx
  unfold KState.stateOf at hx
  split_ifs at hx
  · cases hx
    simp at hstate
  · rw [hT, Option.map_some, Option.some.injEq] at hx
    rw [hx]
    rcases hstate with hs | hs | hs <;> rw [hs] <;> decide

/-- Making a task ready that is on no wait list. -/
theorem QueuesInv.unblock (h : QueuesInv s) (hnot : ¬s.Waits t)
    (hrun : (taskUnblock s.sched t).map s.onSched = some s') :
    QueuesInv s' ∧ Frees (· = t) s s' := by
  obtain ⟨sched, hsched, rfl⟩ := Option.map_eq_some_iff.1 hrun
  obtain ⟨hkeep, hcur, hidle⟩ := taskUnblock_frame hsched
  have hinv := schedStep_inv s.sched (.unblock t) sched h.sched trivial hsched
  refine ⟨h.resched hinv hcur hidle fun x hx => hkeep x ?_, ⟨hcur, hidle, List.Sublist.refl _,
    fun _ hl _ => hl, rfl, rfl, rfl, rfl, rfl, fun x hx => hkeep x hx⟩⟩
  rintro rfl
  exact hnot hx

/-- **`task_wakeup`**, of a task whose flag tells whether it is on a wait list. -/
theorem taskWakeup_spec (h : QueuesInv s) (hflag : TaskNotReady s t → s.Waits t →
    s.inWaitlist t = true)
    (hrun : taskWakeup s t = some s') : QueuesInv s' ∧ Frees (· = t) s s' := by
  rw [taskWakeup] at hrun
  split_ifs at hrun with hnot hlist
  · have hsched := listDel_sched h.sched hnot.not_ready
    have hfree := frees_listDel hsched
    have hinv := h.shrink hsched hfree.sub hfree.place
    obtain ⟨hinv', hfree'⟩ := hinv.unblock not_waits_listDel hrun
    exact ⟨hinv', hfree.trans hfree'⟩
  · exact h.unblock (fun hwait => hlist (hflag hnot hwait)) hrun
  · cases hrun
    exact ⟨h, .refl _ s⟩

/-- The node of a task that waits, taken off its list. -/
theorem QueuesInv.listDel (h : QueuesInv s) (ht : s.Waits t) :
    (s.listDel t).sched = s.sched ∧ QueuesInv (s.listDel t) ∧ Frees (· = t) s (s.listDel t) := by
  obtain ⟨T, hT, hstate⟩ := h.asleep t ht
  have hsched : (s.listDel t).sched = s.sched := listDel_sched h.sched fun X hX => by
    rw [hT, Option.some.injEq] at hX
    exact hX ▸ hstate
  have hfree := frees_listDel hsched
  exact ⟨hsched, h.shrink hsched hfree.sub hfree.place, hfree⟩

/-- Waking a task whose node has just been taken off its list. -/
theorem QueuesInv.wakeListed {u : KState} (h : QueuesInv s) (ht : s.Waits t)
    (hrun : taskWakeup u t = some s') (hsched : u.sched = (s.listDel t).sched)
    (hfree : Frees (· = t) (s.listDel t) u) : QueuesInv s' ∧ Frees (· = t) s s' := by
  obtain ⟨-, hinv, hdel⟩ := h.listDel ht
  have hgone : ¬u.Waits t := fun hw => not_waits_listDel ((hfree.sub.map Prod.snd).subset hw)
  have hinv : QueuesInv u := hinv.shrink hsched hfree.sub hfree.place
  obtain ⟨hinv', hfree'⟩ := taskWakeup_spec hinv (fun _ hw => absurd hw hgone) hrun
  exact ⟨hinv', (hdel.trans hfree).trans hfree'⟩

/-- **`wait_queue_wakeup`.** -/
theorem waitQueueWakeup_spec (h : QueuesInv s) (hrun : waitQueueWakeup s q = some s') :
    QueuesInv s' ∧ Frees (fun t => (.queue q, t) ∈ s.links) s s' := by
  rw [waitQueueWakeup] at hrun
  split at hrun
  · cases hrun
    exact ⟨h, .refl _ s⟩
  · rename_i t rest hlist
    have hmem : (.queue q, t) ∈ s.links := mem_list.1 (by rw [hlist]; exact List.mem_cons_self)
    obtain ⟨hinv, hfree⟩ := h.wakeListed (waits_of_mem hmem) hrun rfl
      ⟨rfl, rfl, List.Sublist.refl _, fun _ hl _ => hl, rfl, rfl, rfl, rfl, rfl, fun _ _ => rfl⟩
    exact ⟨hinv, hfree.mono fun x hx => hx ▸ hmem⟩

/-- **`mutex_unlock`**, on top of the lock being free. -/
theorem mutexUnlock_spec (h : QueuesInv s) (hrun : mutexUnlock s k = some s') :
    QueuesInv s' ∧ Frees (fun t => (.lock k, t) ∈ s.links)
      { s with locked := Function.update s.locked k false } s' := by
  have h : QueuesInv { s with locked := Function.update s.locked k false } :=
    h.shrink rfl (List.Sublist.refl _) rfl
  rw [mutexUnlock] at hrun
  dsimp only at hrun
  split_ifs at hrun with hnone
  · cases hrun
    exact ⟨h, .refl _ _⟩
  split at hrun
  · cases hrun
    exact ⟨h, .refl _ _⟩
  · rename_i t rest hlist
    have hmem : (.lock k, t) ∈ s.links := 
      mem_list.1 ((congrArg (t ∈ ·) hlist).mpr List.mem_cons_self)
    obtain ⟨hinv, hfree⟩ := h.wakeListed (waits_of_mem hmem) hrun rfl
      ⟨rfl, rfl, List.Sublist.refl _, fun _ hl _ => hl, rfl, rfl, rfl, rfl, rfl, fun _ _ => rfl⟩
    exact ⟨hinv, hfree.mono fun x hx => hx ▸ hmem⟩

/-- **The end of `__semaphore_up`**: a task that sleeps and is on no list becomes ready. -/
theorem QueuesInv.upAdd (h : QueuesInv s) {w : ℕ} (hnot : ¬s.Waits w)
    (hold : ∀ W, s.sched.tasks w = some W → W.state ≠ .ready ∧ W.state ≠ .running)
    (hrun : WaitQueue.upAdd s k w = some s') : ∃ sched, SchedInv sched ∧
      QueuesInv (s.onSched sched) ∧ sched.cur = s.sched.cur ∧
      (∀ x, x ≠ w → sched.tasks x = s.sched.tasks x) ∧ s' =
        (((s.onSched sched).setHanded w false).setWaiter k none).goto s.sched.cur
        (.unlock k false) := by
  obtain ⟨W, hW, hrun⟩ := Option.bind_eq_some_iff.1 hrun
  obtain ⟨sched, hadd, rfl⟩ := Option.map_eq_some_iff.1 hrun
  have hsched := enqueue_inv (T := { W with state := .ready }) h.sched hold rfl
    (h.sched.queue.priority w W hW) hadd
  obtain ⟨htasks, hcur, hidle⟩ := schedQueueAddTail_frame hadd
  have hkeep : ∀ x, x ≠ w → sched.tasks x = s.sched.tasks x := by
    intro x hx
    rw [htasks, setTask_of_ne hx]
  refine ⟨sched, hsched, h.resched hsched hcur hidle fun x hx => hkeep x ?_, hcur, hkeep, rfl⟩
  rintro rfl
  exact hnot hx

end Waking

/-! ## The locks, and who is handed over -/

/-- The semaphore a place is about. -/
def Place.sema : Place → Option ℕ
  | .out => none
  | .sleepBlock => none
  | .lockTry k _ => some k
  | .lockAdd k _ => some k
  | .lockBlock k _ => some k
  | .body k _ => some k
  | .downAdd k => some k
  | .downUnlock k => some k
  | .downBlock k => some k
  | .downReturn k => some k
  | .upHand k => some k
  | .upDel k => some k
  | .upLeave k => some k
  | .upReady k => some k
  | .upAdd k => some k
  | .unlock k _ => some k

/-- The task is in `__semaphore_up`, with a waiter. -/
def Place.Hands (k : ℕ) : Place → Prop
  | .upDel j => j = k
  | .upLeave j => j = k
  | .upReady j => j = k
  | .upAdd j => j = k
  | _ => False

/-- The task has the lock of the semaphore. -/
def Place.Holds (k : ℕ) : Place → Prop
  | .body j _ => j = k
  | .downAdd j => j = k
  | .downUnlock j => j = k
  | .upHand j => j = k
  | .unlock j _ => j = k
  | p => p.Hands k

/-- A `__semaphore_up` has found the task on the list and has not put it on the queue yet. -/
def KState.InHand (s : KState) (t : ℕ) : Prop :=
  s.handed t = true ∨ ∃ k ∈ (s.place t).sema, s.waiter k = some t

instance (s : KState) (t : ℕ) : Decidable (s.InHand t) :=
  inferInstanceAs (Decidable (_ ∨ ∃ k ∈ (_ : Option ℕ), _))

/-- The task is a waiter: it sleeps in `__semaphore_down`, and on no list but that of the
semaphore. -/
structure Handing (s : KState) (k w : ℕ) : Prop where
  place : s.place w = .downReturn k
  task : ∃ W, s.sched.tasks w = some W ∧ W.state ≠ .ready ∧ W.state ≠ .running
  list : ∀ l, (l, w) ∈ s.links → l = .sema k

/-- The lists are in order, a semaphore's lock admits one task at a time, and each task that
hands over has a waiter, which is on the list up to `list_del`. -/
structure KernInv (s : KState) : Prop where
  queues : QueuesInv s
  held : ∀ k t, (s.place t).Holds k → s.locked k = true
  alone : ∀ k t u, (s.place t).Holds k → (s.place u).Holds k → t = u
  waiter : ∀ k w, s.waiter k = some w → Handing s k w
  hands : ∀ k t, (s.place t).Hands k → ∃ w, s.waiter k = some w ∧
    (s.place t = .upDel k → (.sema k, w) ∈ s.links) ∧ (s.place t ≠ .upDel k → ¬s.Waits w)

section Handing

variable {s s' : KState} {t k w : ℕ} {p : Place}

theorem Place.Hands.holds {p : Place} (h : p.Hands k) : p.Holds k := by
  cases p <;> first | exact h | exact h.elim

theorem KernInv.waiter_ne_cur (h : KernInv s) (hw : s.waiter k = some w) : w ≠ s.sched.cur := by
  rintro rfl
  obtain ⟨W, hW, -, hrun⟩ := (h.waiter k _ hw).task
  obtain ⟨T, hT, hTrun⟩ := h.queues.sched.cur
  rw [hW, Option.some.injEq] at hT
  exact hrun (hT ▸ hTrun)

theorem KernInv.not_inHand (h : KernInv s) (hw : s.waiter k = some w) (hnot : ¬s.InHand t) :
    w ≠ t := by
  rintro rfl
  exact hnot (Or.inr ⟨k, by rw [(h.waiter k w hw).place]; rfl, hw⟩)

/-- A task on a wait queue or on the list of a lock is no waiter. -/
theorem KernInv.waiter_ne (h : KernInv s) {l : WaitList} (hl : ∀ k, l ≠ .sema k)
    (ht : (l, t) ∈ s.links) (hw : s.waiter k = some w) : w ≠ t := by
  rintro rfl
  exact hl k ((h.waiter k w hw).list l ht)

/-- **One task moves.**  What is to be shown of the semaphores whose lock it has, and of the
waiters of the others. -/
theorem KernInv.step (h : KernInv s) (hq : QueuesInv s')
    (hplace : s'.place = Function.update s.place t p)
    (hlocked : ∀ k, ¬(s.place t).Holds k → s'.locked k = s.locked k ∨ s'.locked k = true)
    (hhold : ∀ k, p.Holds k → s'.locked k = true ∧ ((s.place t).Holds k ∨ s.locked k = false))
    (hwaiter : ∀ k w, s'.waiter k = some w → Handing s' k w)
    (hhands : ∀ k, p.Hands k → ∃ w, s'.waiter k = some w ∧
      (p = .upDel k → (.sema k, w) ∈ s'.links) ∧ (p ≠ .upDel k → ¬s'.Waits w))
    (hothers : ∀ k w, ¬(s.place t).Holds k → s.waiter k = some w → s'.waiter k = some w ∧
      ((.sema k, w) ∈ s.links → (.sema k, w) ∈ s'.links) ∧ (s'.Waits w → s.Waits w)) : KernInv
        s' := by
  have hself : s'.place t = p := by rw [hplace, Function.update_self]
  have hother : ∀ u, u ≠ t → s'.place u = s.place u := fun u hu => by
    rw [hplace, Function.update_of_ne hu]
  -- a task that stays where it is keeps the lock, unless it is the task that moves that has it
  have hstays : ∀ k u, u ≠ t → (s.place u).Holds k → ¬(s.place t).Holds k :=
    fun k u hu hold hold' =>
    hu (h.alone k u t hold hold')
  refine ⟨hq, fun k u hu => ?_, fun k u v hu hv => ?_, hwaiter, fun k u hu => ?_⟩
  · by_cases hut : u = t
    · rw [hut, hself] at hu
      exact (hhold k hu).1
    · rw [hother u hut] at hu
      rcases hlocked k (hstays k u hut hu) with heq | heq
      · rw [heq]
        exact h.held k u hu
      · exact heq
  · -- nobody has a lock that is free when the task takes it
    have hnew : ∀ x, x ≠ t → (s'.place x).Holds k → ¬p.Holds k := by
      intro x hx hxk hp
      rw [hother x hx] at hxk
      rcases (hhold k hp).2 with hold | hfree
      · exact hstays k x hx hxk hold
      · rw [h.held k x hxk] at hfree
        cases hfree
    by_cases hut : u = t
    · by_cases hvt : v = t
      · rw [hut, hvt]
      · rw [hut, hself] at hu
        exact absurd hu (hnew v hvt hv)
    · by_cases hvt : v = t
      · rw [hvt, hself] at hv
        exact absurd hv (hnew u hut hu)
      · rw [hother u hut] at hu
        rw [hother v hvt] at hv
        exact h.alone k u v hu hv
  · by_cases hut : u = t
    · rw [hut, hself] at hu ⊢
      exact hhands k hu
    · rw [hother u hut] at hu ⊢
      obtain ⟨w, hw, hbefore, hafter⟩ := h.hands k u hu
      obtain ⟨hw', hlink, hwaits⟩ := hothers k w (hstays k u hut hu.holds) hw
      exact ⟨w, hw', fun hp => hlink (hbefore hp), fun hp hx => hafter hp (hwaits hx)⟩

/-- The waiters are left alone: their places, their states, and their nodes. -/
structure Spares (s s' : KState) : Prop where
  waiter : s'.waiter = s.waiter
  place : ∀ k w, s.waiter k = some w → s'.place w = s.place w
  tasks : ∀ k w, s.waiter k = some w → s'.sched.tasks w = s.sched.tasks w
  links : ∀ k w, s.waiter k = some w → ∀ l, (l, w) ∈ s'.links ↔ (l, w) ∈ s.links

theorem Spares.handing (h : Spares s s') (hinv : KernInv s) (hw : s'.waiter k = some w) :
    Handing s' k w := by
  rw [h.waiter] at hw
  obtain ⟨hplace, htask, hlist⟩ := hinv.waiter k w hw
  refine ⟨(h.place k w hw).trans hplace, ?_, fun l hl => hlist l ((h.links k w hw l).1 hl)⟩
  rw [h.tasks k w hw]
  exact htask

theorem Spares.waits (h : Spares s s') (hw : s.waiter k = some w) (hx : s'.Waits w) :
    s.Waits w := by
  obtain ⟨l, hl⟩ := waits_iff.1 hx
  exact waits_of_mem ((h.links k w hw l).1 hl)

/-- **A step of the current task** that leaves the waiters alone. -/
theorem KernInv.move (h : KernInv s) (hq : QueuesInv s') (hspares : Spares s s')
    (hplace : s'.place = Function.update s.place s.sched.cur p)
    (hlocked : ∀ k, ¬(s.place s.sched.cur).Holds k → s'.locked k = s.locked k ∨ s'.locked k = true)
    (hhold : ∀ k, p.Holds k → s'.locked k = true ∧
      ((s.place s.sched.cur).Holds k ∨ s.locked k = false))
    (hhands : ∀ k, p.Hands k → (s.place s.sched.cur).Hands k ∧ p ≠ .upDel k ∧
      s.place s.sched.cur ≠ .upDel k ∨
      s.place s.sched.cur = p) : KernInv s' := by
  refine h.step hq hplace hlocked hhold (fun k w hw => hspares.handing h hw) (fun k hp => ?_)
    fun k w _ hw => ⟨by rw [hspares.waiter, hw], (hspares.links k w hw _).2, hspares.waits hw⟩
  rcases hhands k hp with ⟨hold, hne, hne'⟩ | heq
  · obtain ⟨w, hw, -, hafter⟩ := h.hands k _ hold
    exact ⟨w, by rw [hspares.waiter, hw], fun hp => absurd hp hne,
      fun _ hx => hafter hne' (hspares.waits hw hx)⟩
  · rw [← heq] at hp ⊢
    obtain ⟨w, hw, hbefore, hafter⟩ := h.hands k _ hp
    exact ⟨w, by rw [hspares.waiter, hw], fun hp => (hspares.links k w hw _).2 (hbefore hp),
      fun hp hx => hafter hp (hspares.waits hw hx)⟩

/-- A step in which the current task stays where it is, and so do the locks. -/
theorem KernInv.stay (h : KernInv s) (hq : QueuesInv s') (hspares : Spares s s')
    (hplace : s'.place = s.place) (hlocked : s'.locked = s.locked) : KernInv s' := by
  refine h.move (p := s.place s.sched.cur) hq hspares (by rw [hplace, Function.update_eq_self])
    (fun k _ => Or.inl (by rw [hlocked])) (fun k hp => ⟨?_, Or.inl hp⟩) fun k _ => Or.inr rfl
  rw [hlocked]
  exact h.held k _ hp

/-- **A step of the current task outside of the last lines of `__semaphore_up`**, with the locks
as they are. -/
theorem KernInv.quiet (h : KernInv s) (hq : QueuesInv s') (hspares : Spares s s')
    (hplace : s'.place = Function.update s.place s.sched.cur p) (hlocked : s'.locked = s.locked)
    (hhold : ∀ k, p.Holds k → (s.place s.sched.cur).Holds k) (hhands : ∀ k, ¬p.Hands k) :
    KernInv s' := by
  refine h.move hq hspares hplace (fun k _ => Or.inl (by rw [hlocked]))
    (fun k hp => ⟨?_, Or.inl (hhold k hp)⟩)
    fun k hp => absurd hp (hhands k)
  rw [hlocked]
  exact h.held k _ (hhold k hp)

/-- Waking others leaves the waiters alone. -/
theorem Frees.spares {P : ℕ → Prop} {r : KState} (h : Frees P r s') (hwaiter : r.waiter = s.waiter)
    (hplace : r.place = s.place) (hsched : r.sched = s.sched) (hlinks : r.links = s.links)
    (hP : ∀ k w, s.waiter k = some w → ¬P w) : Spares s s' := by
  refine ⟨h.waiter.trans hwaiter, fun k w _ => ?_, fun k w hw => ?_,
    fun k w hw l => ⟨fun hl => ?_, fun hl => ?_⟩⟩
  · rw [h.place, hplace]
  · rw [h.tasks w (hP k w hw), hsched]
  · rw [← hlinks]
    exact h.sub.subset hl
  · exact h.kept _ (by rw [hlinks]; exact hl) (hP k w hw)

/-- So does the current task when it moves, and puts its node on a list or not. -/
theorem KernInv.spares (h : KernInv s) (hwaiter : s'.waiter = s.waiter)
    (hplace : s'.place = Function.update s.place s.sched.cur p) (hsched : s'.sched = s.sched)
    (hlinks : s'.links = s.links ∨ ∃ l, s'.links = s.links ++ [(l, s.sched.cur)]) :
    Spares s s' := by
  refine ⟨hwaiter, fun k w hw => ?_, fun k w _ => by rw [hsched], fun k w hw l => ?_⟩
  · rw [hplace, Function.update_of_ne (h.waiter_ne_cur hw)]
  · rcases hlinks with heq | ⟨l', heq⟩
    · rw [heq]
    · rw [heq]
      simp [h.waiter_ne_cur hw]

/-- So does a change of the current task: the waiters sleep. -/
theorem KernInv.spares_switch (h : KernInv s) {sched : SchedState} {u : KState}
    (hwaiter : u.waiter = s.waiter)
    (hplace : ∀ w, w ≠ s.sched.cur → u.place w = s.place w) (hlinks : u.links = s.links)
    (hkeep : ∀ t X, s.sched.tasks t = some X → X.state ≠ .ready → t ≠ s.sched.cur →
      sched.tasks t = some X) :
    Spares s (u.onSched sched) := by
  refine ⟨hwaiter, fun k w hw => hplace w (h.waiter_ne_cur hw), fun k w hw => ?_,
    fun k w hw l => ?_⟩
  · obtain ⟨W, hW, hready, -⟩ := (h.waiter k w hw).task
    rw [hW]
    exact hkeep w W hW hready (h.waiter_ne_cur hw)
  · show (l, w) ∈ u.links ↔ _
    rw [hlinks]

end Handing

/-! ## The events, one by one -/

/-- The next step at a place puts the node of the task on a wait list. -/
def Place.Enlists : Place → Prop
  | .lockAdd _ _ => True
  | .downAdd _ => True
  | _ => False

instance (p : Place) : Decidable p.Enlists := by
  unfold Place.Enlists
  split <;> infer_instance

/-- The event puts the node of the current task on a list: a wait list, or the queue it goes back
to when the clock takes the processor. -/
def Enlists (s : KState) : KEvent → Prop
  | .preempt => True
  | .waitQueueAdd q => s.sched.cur ∉ s.list (.queue q)
  | .waitQueueSleepon q => s.sched.cur ∉ s.list (.queue q)
  | .run => (s.place s.sched.cur).Enlists
  | _ => False

instance (s : KState) : ∀ e, Decidable (Enlists s e)
  | .preempt => isTrue trivial
  | .waitQueueAdd _ => inferInstanceAs (Decidable (_ ∉ _))
  | .waitQueueSleepon _ => inferInstanceAs (Decidable (_ ∉ _))
  | .run => inferInstanceAs (Decidable (Place.Enlists _))
  | .create _ _ => isFalse id
  | .semaphore _ _ => isFalse id
  | .taskBlock _ => isFalse id
  | .wakeup _ => isFalse id
  | .exceptionSend _ _ _ _ => isFalse id

/-- A task that an exception wakes has its flag set if it is on a wait list, and no
`__semaphore_up` has it in hand. -/
def WakesFlagged (s : KState) : KEvent → Prop
  | .exceptionSend t code m created => sendWakes s t code m created → TaskNotReady s t →
      (s.Waits t → s.inWaitlist t = true) ∧ ¬s.InHand t
  | _ => True

instance (s : KState) : ∀ e, Decidable (WakesFlagged s e)
  | .exceptionSend _ _ _ _ => inferInstanceAs (Decidable (_ → _))
  | .preempt => isTrue trivial
  | .waitQueueAdd _ => isTrue trivial
  | .waitQueueSleepon _ => isTrue trivial
  | .run => isTrue trivial
  | .create _ _ => isTrue trivial
  | .semaphore _ _ => isTrue trivial
  | .taskBlock _ => isTrue trivial
  | .wakeup _ => isTrue trivial

/-- A node on a wait list is not put on another list, nor is its task woken as if it were on none.
-/
def Undisturbed (s : KState) (e : KEvent) : Prop :=
  (Enlists s e → ¬s.Waits s.sched.cur) ∧ WakesFlagged s e

instance (s : KState) (e : KEvent) : Decidable (Undisturbed s e) :=
  inferInstanceAs (Decidable (_ ∧ _))

section Events

variable {s u s' : KState} {k : ℕ} {p p' : Place}

/-- A step of the current task outside the last lines of `__semaphore_down`. -/
theorem QueuesInv.step (h : QueuesInv s) (hidle : s.sched.cur ≠ s.sched.idle)
    (hp : s.place s.sched.cur = p) (hout : ∀ k, p ≠ .downUnlock k ∧ p ≠ .downBlock k)
    (hsched : u.sched = s.sched) (hlinks : u.links = s.links)
    (hplace : u.place = Function.update s.place s.sched.cur p') : QueuesInv u :=
  h.move hidle hsched hlinks hplace fun k hk => absurd hk (h.not_going k hp (hout k))

/-- **A step of the current task** with the lists, the locks and the waiters as they are. -/
theorem KernInv.goes (h : KernInv s) (hidle : s.sched.cur ≠ s.sched.idle)
    (hp : s.place s.sched.cur = p) (hout : ∀ k, p ≠ .downUnlock k ∧ p ≠ .downBlock k)
    (hsched : u.sched = s.sched) (hlinks : u.links = s.links) (hlocked : u.locked = s.locked)
    (hwaiter : u.waiter = s.waiter) (hplace : u.place = Function.update s.place s.sched.cur p')
    (hhold : ∀ j, p'.Holds j → p.Holds j)
    (hhands : ∀ j, p'.Hands j → p.Hands j ∧ p' ≠ .upDel j ∧ p ≠ .upDel j) : KernInv u := by
  refine h.move (h.queues.step hidle hp hout hsched hlinks hplace)
    (h.spares hwaiter hplace hsched (Or.inl hlinks)) hplace (fun j _ => Or.inl (by rw [hlocked]))
    (fun j hj => ?_) fun j hj => Or.inl (by rw [hp]; exact hhands j hj)
  have hheld := hhold j hj
  rw [← hp] at hheld
  exact ⟨by rw [hlocked]; exact h.held j _ hheld, Or.inl hheld⟩

/-- What a call on a semaphore does while it holds the lock changes no list. -/
theorem semaphoreBody_frame (s : KState) (k : ℕ) (op : SemaOp) :
    (semaphoreBody s k op).sched = s.sched ∧ (semaphoreBody s k op).links = s.links ∧
      (semaphoreBody s k op).locked = s.locked ∧ (semaphoreBody s k op).waiter = s.waiter ∧
      ∃ p, (semaphoreBody s k op).place = Function.update s.place s.sched.cur p ∧
        (∀ j, p.Holds j → k = j) ∧ ∀ j, ¬p.Hands j := by
  cases op with
  | down =>
      rw [semaphoreBody]
      split_ifs
      · exact ⟨rfl, rfl, rfl, rfl, _, rfl, fun _ => id, fun _ => id⟩
      · exact ⟨rfl, rfl, rfl, rfl, _, rfl, fun _ => id, fun _ => id⟩
  | tryDown =>
      rw [semaphoreBody]
      split_ifs
      · exact ⟨rfl, rfl, rfl, rfl, _, rfl, fun _ => id, fun _ => id⟩
      · exact ⟨rfl, rfl, rfl, rfl, _, rfl, fun _ => id, fun _ => id⟩
  | up =>
      rw [semaphoreBody]
      split_ifs
      · exact ⟨rfl, rfl, rfl, rfl, _, rfl, fun _ => id, fun _ => id⟩
      · exact ⟨rfl, rfl, rfl, rfl, _, rfl, fun _ => id, fun _ => id⟩

/-- No task that sleeps in a call hands over, and none that has a lock sleeps. -/
theorem KernInv.sleeps (h : KernInv s) (hidle : s.sched.cur ≠ s.sched.idle) {state : TaskState}
    (hq : QueuesInv s') (hrun : (s.goto s.sched.cur p).block state = some s')
    (hp : ∀ k, ¬p.Holds k) : KernInv s' := by
  obtain ⟨sched, hsched, rfl⟩ := Option.map_eq_some_iff.1 hrun
  obtain ⟨-, -, -, hkeep⟩ := taskBlock_frame h.queues.sched hidle hsched
  refine h.quiet (p := p) hq (h.spares_switch rfl (fun w hw => Function.update_of_ne hw ..) rfl
    fun t X hX hstate ht => (hkeep t X hX hstate ht).1) rfl rfl (fun k hk => absurd hk (hp k))
    fun k hk => hp k hk.holds

/-- `mutex_unlock` of the lock the current task has, and the step to the place after it. -/
theorem KernInv.unlock (h : KernInv s) (hholds : (s.place s.sched.cur).Holds k)
    (hu : mutexUnlock s k = some u) (hq : QueuesInv s') (hsched : s'.sched = u.sched)
    (hlinks : s'.links = u.links) (hlocked : s'.locked = u.locked) (hwaiter : s'.waiter = u.waiter)
    (hplace : s'.place = Function.update u.place s.sched.cur p) (hp : ∀ j, ¬p.Holds j) :
    KernInv s' := by
  obtain ⟨-, hfree⟩ := mutexUnlock_spec h.queues hu
  have hspares : Spares s u := hfree.spares rfl rfl rfl rfl fun j w hw hlock =>
    h.waiter_ne (by simp) hlock hw rfl
  have hplace' : s'.place = Function.update s.place s.sched.cur p := by rw [hplace, hfree.place]
  have hspares' : Spares s s' := by
    refine ⟨hwaiter.trans hspares.waiter, fun j w hw => ?_, fun j w hw => ?_, fun j w hw l => ?_⟩
    · rw [hplace', Function.update_of_ne (h.waiter_ne_cur hw)]
    · rw [hsched]
      exact hspares.tasks j w hw
    · rw [hlinks]
      exact hspares.links j w hw l
  refine h.move hq hspares' hplace' (fun j hj => Or.inl ?_) (fun j hj => absurd hj (hp j))
    fun j hj => absurd hj.holds (hp j)
  have hne : j ≠ k := by
    rintro rfl
    exact hj hholds
  rw [hlocked, hfree.locked]
  exact Function.update_of_ne hne ..

/-- **`__semaphore_up` finds its waiter**, the first task on the list. -/
theorem KernInv.upHand (h : KernInv s) (hidle : s.sched.cur ≠ s.sched.idle)
    (hp : s.place s.sched.cur = .upHand k) : KernInv (upHand s k) := by
  have hout : ∀ j, (.upHand k : Place) ≠ .downUnlock j ∧ (.upHand k : Place) ≠ .downBlock j :=
    fun j => ⟨by simp, by simp⟩
  unfold WaitQueue.upHand
  split
  · exact h.goes hidle hp hout rfl rfl rfl rfl rfl (fun _ => id) fun _ => False.elim
  · rename_i w rest hlist
    have hmem : (.sema k, w) ∈ s.links := mem_list.1 (by rw [hlist]; exact List.mem_cons_self)
    have hwcur : w ≠ s.sched.cur := by
      rintro rfl
      exact h.queues.not_going k hp ⟨by simp, by simp⟩ hmem
    have hholds : ∀ j, ¬(s.place s.sched.cur).Holds j → j ≠ k := by
      rintro j hj rfl
      exact hj (hp ▸ rfl)
    -- the waiter sleeps in `__semaphore_down`, and so do the waiters there are
    have hhanding : ∀ j x, Function.update s.waiter k (some w) j = some x →
        Handing ((s.setWaiter k (some w)).goto s.sched.cur (.upDel k)) j x := by
      intro j x hx
      have hkeep : ∀ y, y ≠ s.sched.cur → Function.update s.place s.sched.cur (.upDel k) y =
        s.place y :=
        fun y hy => Function.update_of_ne hy ..
      by_cases hj : j = k
      · rw [hj, Function.update_self, Option.some.injEq] at hx
        subst hx
        obtain ⟨W, hW, hstate⟩ := h.queues.asleep w (waits_of_mem hmem)
        rw [hj]
        exact ⟨(hkeep w hwcur).trans (h.queues.sleeping k w hmem hwcur),
          ⟨W, hW, hstate, fun hrun => hwcur (h.queues.sched.only w W hW hrun)⟩,
          fun l hl => h.queues.link_unique hl hmem⟩
      · rw [Function.update_of_ne hj] at hx
        obtain ⟨hplace, htask, hlinks⟩ := h.waiter j x hx
        exact ⟨(hkeep x (h.waiter_ne_cur hx)).trans hplace, htask, hlinks⟩
    refine h.step (t := s.sched.cur) (p := .upDel k) (h.queues.step hidle hp hout rfl rfl rfl) rfl
      (fun _ _ => Or.inl rfl) (fun j hj => ?_) hhanding (fun j hj => ?_) fun j x hj hx =>
        ⟨(Function.update_of_ne (hholds j hj) ..).trans hx, id, id⟩
    · have hj : k = j := hj
      exact ⟨h.held j _ (by rw [hp]; exact hj), Or.inl (by rw [hp]; exact hj)⟩
    · have hj : k = j := hj
      rw [← hj]
      exact ⟨w, Function.update_self .., fun _ => hmem, fun hne => absurd rfl hne⟩

/-- **It takes the node of its waiter off the list.** -/
theorem KernInv.upDel {w : ℕ} (h : KernInv s) (hidle : s.sched.cur ≠ s.sched.idle)
    (hp : s.place s.sched.cur = .upDel k) (hw : s.waiter k = some w) :
    (.sema k, w) ∈ s.links ∧ KernInv (upDel s k w) := by
  obtain ⟨w', hw', hbefore, -⟩ := h.hands k s.sched.cur (hp ▸ rfl)
  obtain rfl : w = w' := Option.some.inj (hw.symm.trans hw')
  have hmem := hbefore hp
  obtain ⟨hsched, hq, hfree⟩ := h.queues.listDel (waits_of_mem hmem)
  have hgone : ¬(s.listDel w).Waits w := not_waits_listDel
  have hplace : ∀ j x, s.waiter j = some x →
      Function.update s.place s.sched.cur (.upLeave k) x = s.place x :=
    fun j x hx => Function.update_of_ne (h.waiter_ne_cur hx) ..
  have hwaits : ∀ x, (s.listDel w).Waits x → s.Waits x :=
    fun x hx => (hfree.sub.map Prod.snd).subset hx
  refine ⟨hmem, h.step (t := s.sched.cur) (p := .upLeave k) ?_ rfl (fun _ _ => Or.inl rfl)
    (fun j hj => ?_) (fun j x hx => ?_) (fun j hj => ?_) fun j x hj hx =>
      ⟨hx, fun hl => ?_, hwaits x⟩⟩
  · have hq' : QueuesInv (((s.listDel w).record k fun L => (L.raise s.sched.cur).take w)) :=
      hq.shrink rfl (List.Sublist.refl _) rfl
    have hne : (s.listDel w).sched.cur ≠ (s.listDel w).sched.idle := by
      rw [hsched]
      exact hidle
    have hout : ∀ j, (.upDel k : Place) ≠ .downUnlock j ∧ (.upDel k : Place) ≠ .downBlock j :=
      fun j => ⟨by simp, by simp⟩
    exact hq'.step hne hp hout rfl rfl rfl
  · have hj : k = j := hj
    exact ⟨h.held j _ (by rw [hp]; exact hj), Or.inl (by rw [hp]; exact hj)⟩
  · obtain ⟨hdown, htask, hlist⟩ := h.waiter j x hx
    refine ⟨(hplace j x hx).trans hdown, ?_, fun l hl => hlist l (hfree.sub.subset hl)⟩
    show ∃ W, (s.listDel w).sched.tasks x = some W ∧ _
    rw [hsched]
    exact htask
  · have hj : k = j := hj
    rw [← hj]
    exact ⟨w, hw, fun heq => absurd heq (by simp), fun _ => hgone⟩
  · -- the waiter of another semaphore is another task
    refine mem_listDel.2 ⟨hl, ?_⟩
    rintro rfl
    have hjk := h.queues.link_unique hl hmem
    cases hjk
    exact hj (hp ▸ rfl)

/-- **It puts its waiter on the queue of the scheduler.** -/
theorem KernInv.upAdd {w : ℕ} (h : KernInv s) (hp : s.place s.sched.cur = .upAdd k)
    (hw : s.waiter k = some w) (hrun : upAdd s k w = some s') :
    KernInv s' := by
  obtain ⟨w', hw', -, hafter⟩ := h.hands k s.sched.cur (hp ▸ rfl)
  obtain rfl : w = w' := Option.some.inj (hw.symm.trans hw')
  have hnot : ¬s.Waits w := hafter (by rw [hp]; simp)
  obtain ⟨hdown, ⟨W, hW, hready, hrunning⟩, -⟩ := h.waiter k w hw
  obtain ⟨sched, -, hq, hcur, hkeep, rfl⟩ := h.queues.upAdd hnot (fun X hX => by
    rw [hW, Option.some.injEq] at hX
    exact hX ▸ ⟨hready, hrunning⟩) hrun
  have hother : ∀ j x, j ≠ k → s.waiter j = some x → x ≠ w := by
    rintro j x hj hx rfl
    have hplace := (h.waiter j x hx).place
    rw [hdown] at hplace
    cases hplace
    exact hj rfl
  refine h.step (t := s.sched.cur) (p := .unlock k false) ?_ rfl (fun _ _ => Or.inl rfl)
    (fun j hj => ?_) (fun j x hx => ?_) (fun _ hj => hj.elim) fun j x hj hx => ?_
  · have hq' : QueuesInv (((s.onSched sched).setHanded w false).setWaiter k none) :=
      hq.shrink rfl (List.Sublist.refl _) rfl
    have hplace : (((s.onSched sched).setHanded w false).setWaiter k none).place
        (((s.onSched sched).setHanded w false).setWaiter k none).sched.cur = .upAdd k := by
      show s.place sched.cur = _
      rw [hcur, hp]
    have hne : sched.cur ≠ sched.idle := hq.cur_ne_idle (by
      show s.place sched.cur ≠ .out
      rw [hcur, hp]
      simp)
    exact hq'.step hne hplace (fun j => ⟨by simp, by simp⟩) rfl rfl
      (congrArg (fun c => Function.update s.place c (.unlock k false)) hcur.symm)
  · have hj : k = j := hj
    exact ⟨h.held j _ (by rw [hp]; exact hj), Or.inl (by rw [hp]; exact hj)⟩
  · have hx : Function.update s.waiter k none j = some x := hx
    by_cases hj : j = k
    · rw [hj, Function.update_self] at hx
      cases hx
    · rw [Function.update_of_ne hj] at hx
      obtain ⟨hplace, ⟨X, hX, hstate⟩, hlist⟩ := h.waiter j x hx
      exact ⟨(Function.update_of_ne (h.waiter_ne_cur hx) ..).trans hplace,
        ⟨X, (hkeep x (hother j x hj hx)).trans hX, hstate⟩, hlist⟩
  · have hne : j ≠ k := by
      rintro rfl
      exact hj (hp ▸ rfl)
    exact ⟨(Function.update_of_ne hne ..).trans hx, id, id⟩

/-- **A step of the current task.** -/
theorem runCur_inv (h : KernInv s) (hquiet : Undisturbed s .run) (hrun : runCur s = some s') :
    KernInv s' := by
  have hlist : (s.place s.sched.cur).Enlists → ¬s.Waits s.sched.cur := hquiet.1
  have hq := h.queues
  rw [runCur] at hrun
  generalize hp : s.place s.sched.cur = p at hrun hlist
  have hidle : p ≠ .out → s.sched.cur ≠ s.sched.idle := fun hne => hq.cur_ne_idle (hp ▸ hne)
  cases p with
  | out => cases hrun
  | sleepBlock =>
      have hidle := hidle (by simp)
      have hq' := hq.block hidle (fun k hk => absurd hk (hq.not_going k hp ⟨by simp, by simp⟩)) hrun
      exact h.sleeps hidle hq' hrun fun _ => id
  | lockTry k op =>
      have hidle := hidle (by simp)
      rw [runAt] at hrun
      split_ifs at hrun with hlocked
      · cases hrun
        exact h.goes hidle hp (fun k => ⟨by simp, by simp⟩) rfl rfl rfl rfl rfl
          (fun _ => False.elim) fun _ => False.elim
      · cases hrun
        refine h.move (hq.step hidle hp (fun k => ⟨by simp, by simp⟩) rfl rfl rfl)
          (h.spares rfl rfl rfl (Or.inl rfl)) rfl (fun j _ => ?_)
          (fun j hj => ?_) fun _ => False.elim
        · by_cases hj : j = k
          · rw [hj]
            exact Or.inr (Function.update_self ..)
          · exact Or.inl (Function.update_of_ne hj ..)
        · have hj : k = j := hj
          rw [← hj]
          exact ⟨Function.update_self .., Or.inr (by simpa using hlocked)⟩
  | lockAdd k op =>
      have hidle := hidle (by simp)
      cases hrun
      exact h.quiet (hq.join (l := .lock k) hidle (hlist trivial) rfl rfl rfl fun j hj =>
        by cases hj)
        (h.spares rfl rfl rfl (Or.inr ⟨_, rfl⟩)) rfl rfl (fun _ => False.elim) fun _ => id
  | lockBlock k op =>
      have hidle := hidle (by simp)
      have hq' := hq.block hidle (fun k hk => absurd hk (hq.not_going k hp ⟨by simp, by simp⟩)) hrun
      exact h.sleeps hidle hq' hrun fun _ => id
  | body k op =>
      have hidle := hidle (by simp)
      obtain ⟨hsched, hlinks, hlocked, hwaiter, p', hplace, hholds, hhands⟩ :=
        semaphoreBody_frame s k op
      cases hrun
      exact h.goes hidle hp (fun k => ⟨by simp, by simp⟩) hsched hlinks hlocked hwaiter hplace
        hholds fun j hj => absurd hj (hhands j)
  | downAdd k =>
      have hidle := hidle (by simp)
      cases hrun
      have hq' := hq.join (l := .sema k) (p := .downUnlock k)
        (u := (s.enter (.sema k)).goto s.sched.cur (.downUnlock k)) hidle (hlist trivial) rfl rfl
        rfl
        fun j hj => by cases hj; rfl
      exact h.quiet hq' (h.spares rfl rfl rfl (Or.inr ⟨_, rfl⟩)) rfl rfl (fun j hj => hp ▸ hj)
        fun _ => id
  | downUnlock k =>
      have hidle := hidle (by simp)
      obtain ⟨u, hu, rfl⟩ := Option.map_eq_some_iff.1 hrun
      obtain ⟨hinv, hfree⟩ := mutexUnlock_spec hq hu
      have hcur : u.sched.cur = s.sched.cur := hfree.cur
      have hplace : u.place = s.place := hfree.place
      refine h.unlock (hp ▸ rfl) hu ?_ rfl rfl rfl rfl rfl fun _ => id
      rw [← hcur]
      refine hinv.move (by rw [hcur, hfree.idle]; exact hidle) rfl rfl rfl fun j hj => ?_
      -- the task is on the list of the semaphore it is about to sleep on
      have hgoing := hinv.going j hj
      rw [hcur, hplace, hp] at hgoing
      rcases hgoing with heq | heq
      · cases heq
        exact Or.inr rfl
      · cases heq
  | downBlock k =>
      have hidle := hidle (by simp)
      refine h.sleeps hidle (hq.block hidle (fun j hj => ?_) hrun) hrun fun _ => id
      have hgoing := hq.going j hj
      rw [hp] at hgoing
      rcases hgoing with heq | heq
      · cases heq
      · cases heq
        rfl
  | downReturn k =>
      have hidle := hidle (by simp)
      cases hrun
      exact h.goes hidle hp (fun k => ⟨by simp, by simp⟩) rfl rfl rfl rfl rfl
        (fun _ => False.elim) fun _ => False.elim
  | upHand k =>
      cases hrun
      exact h.upHand (hidle (by simp)) hp
  | upDel k =>
      obtain ⟨w, hw, rfl⟩ := Option.map_eq_some_iff.1 hrun
      exact (h.upDel (hidle (by simp)) hp hw).2
  | upLeave k =>
      have hidle := hidle (by simp)
      obtain ⟨w, hw, rfl⟩ := Option.map_eq_some_iff.1 hrun
      exact h.goes hidle hp (fun k => ⟨by simp, by simp⟩) rfl rfl rfl rfl rfl
        (fun _ => id) fun j hj => ⟨hj, by simp, by simp⟩
  | upReady k =>
      have hidle := hidle (by simp)
      obtain ⟨w, hw, rfl⟩ := Option.map_eq_some_iff.1 hrun
      exact h.goes hidle hp (fun k => ⟨by simp, by simp⟩) rfl rfl rfl rfl rfl
        (fun _ => id) fun j hj => ⟨hj, by simp, by simp⟩
  | upAdd k =>
      obtain ⟨w, hw, hrun⟩ := Option.bind_eq_some_iff.1 hrun
      exact h.upAdd hp hw hrun
  | unlock k token =>
      have hidle := hidle (by simp)
      obtain ⟨u, hu, rfl⟩ := Option.map_eq_some_iff.1 hrun
      obtain ⟨hinv, hfree⟩ := mutexUnlock_spec hq hu
      have hcur : u.sched.cur = s.sched.cur := hfree.cur
      have hplace : u.place = s.place := hfree.place
      have hne : u.sched.cur ≠ u.sched.idle := by rw [hcur, hfree.idle]; exact hidle
      have hp' : u.place u.sched.cur = .unlock k token := by rw [hplace, hcur, hp]
      cases token with
      | true =>
          refine h.unlock (hp ▸ rfl) hu ?_ rfl rfl rfl rfl rfl fun _ => id
          rw [← hcur]
          exact hinv.step hne hp' (fun k => ⟨by simp, by simp⟩) rfl rfl rfl
      | false =>
          refine h.unlock (hp ▸ rfl) hu ?_ rfl rfl rfl rfl rfl fun _ => id
          rw [← hcur]
          exact hinv.step hne hp' (fun k => ⟨by simp, by simp⟩) rfl rfl rfl

/-- `wait_queue_add` by a task that is outside of all calls. -/
theorem waitQueueAdd_inv {q : ℕ} (h : KernInv s) (hcan : s.CanCall)
    (hlist : s.sched.cur ∉ s.list (.queue q) → ¬s.Waits s.sched.cur)
    (hrun : waitQueueAdd s q = some s') : KernInv s' ∧ s'.sched = s.sched ∧ s'.place = s.place := by
  rw [waitQueueAdd] at hrun
  split_ifs at hrun with hmem
  cases hrun
  have hplace : s.place = Function.update s.place s.sched.cur .out := by
    rw [← hcan.1, Function.update_eq_self]
  refine ⟨?_, rfl, rfl⟩
  exact h.stay (h.queues.join (l := .queue q) (p := .out) hcan.2 (hlist hmem) rfl rfl hplace
    fun k hk => by cases hk) (h.spares rfl hplace rfl (Or.inr ⟨_, rfl⟩)) rfl rfl

/-- **Every event keeps the invariant.** -/
theorem kstep_inv (s : KState) (e : KEvent) (s' : KState) (h : KernInv s) (hquiet : Undisturbed s e)
    (hrun : kstep s e = some s') : KernInv s' := by
  have hq := h.queues
  cases e with
  | run => exact runCur_inv h hquiet hrun
  | preempt =>
      have hq' := hq.preempt (hquiet.1 trivial) hrun
      obtain ⟨sched, hsched, rfl⟩ := Option.map_eq_some_iff.1 hrun
      obtain ⟨-, hkeep⟩ := schedule_frame hq.sched hsched
      -- the task that had the processor still has its locks and its waiter
      refine h.step (t := s.sched.cur) (p := s.place s.sched.cur) hq'
        (Function.update_eq_self ..).symm
        (fun _ _ => Or.inl rfl) (fun k hk => ⟨h.held k _ hk, Or.inl hk⟩) (fun k w hw => ?_)
        (fun k hk => h.hands k _ hk) fun k w _ hw => ⟨hw, id, id⟩
      obtain ⟨hplace, ⟨W, hW, hready, hrunning⟩, hlist⟩ := h.waiter k w hw
      exact ⟨hplace, ⟨W, (hkeep w W hW hready (h.waiter_ne_cur hw)).1, hready, hrunning⟩, hlist⟩
  | create t level =>
      obtain ⟨sched, hsched, rfl⟩ := Option.map_eq_some_iff.1 hrun
      obtain ⟨hnone, hkeep, hcur, hidle⟩ := taskCreate_frame hsched
      have hinv := schedStep_inv s.sched (.create t level) sched hq.sched trivial hsched
      have hnot : ¬s.Waits t := by
        intro hwait
        obtain ⟨T, hT, -⟩ := hq.asleep t hwait
        rw [hnone] at hT
        cases hT
      have hkeep' : ∀ x, s.Waits x → sched.tasks x = s.sched.tasks x := by
        intro x hx
        refine hkeep x ?_
        rintro rfl
        exact hnot hx
      have hnew : QueuesInv (((s.onSched sched).leaveWaitlist t).setHanded t false) :=
        (hq.resched hinv hcur hidle hkeep').shrink rfl (List.Sublist.refl _) rfl
      refine h.step (t := t) (p := .out) (hnew.reset hnot) rfl (fun _ _ => Or.inl rfl)
        (fun _ => False.elim)
        (fun k w hw => ?_) (fun _ => False.elim) fun k w _ hw => ⟨hw, id, id⟩
      have hw : s.waiter k = some w := hw
      obtain ⟨hplace, ⟨W, hW, hstate⟩, hlist⟩ := h.waiter k w hw
      have hne : w ≠ t := by
        rintro rfl
        rw [hnone] at hW
        cases hW
      exact ⟨(Function.update_of_ne hne ..).trans hplace, ⟨W, (hkeep w hne).trans hW, hstate⟩,
        hlist⟩
  | waitQueueAdd q =>
      rw [kstep] at hrun
      split_ifs at hrun with hcan
      exact (waitQueueAdd_inv h hcan hquiet.1 hrun).1
  | waitQueueSleepon q =>
      rw [kstep] at hrun
      split_ifs at hrun with hcan
      obtain ⟨u, hu, rfl⟩ := Option.map_eq_some_iff.1 hrun
      obtain ⟨hinv, hsched, hplace⟩ := waitQueueAdd_inv h hcan hquiet.1 hu
      rw [← hsched]
      have hout : u.place u.sched.cur = .out := by rw [hsched, hplace, hcan.1]
      exact hinv.goes (by rw [hsched]; exact hcan.2) hout (fun k => ⟨by simp, by simp⟩) rfl rfl
        rfl rfl rfl (fun _ => False.elim) fun _ => False.elim
  | semaphore k op =>
      rw [kstep] at hrun
      split_ifs at hrun with hcan
      cases hrun
      unfold semaphoreCall
      split_ifs
      · exact h.goes hcan.2 hcan.1 (fun k => ⟨by simp, by simp⟩) rfl rfl rfl rfl rfl
          (fun _ => False.elim) fun _ => False.elim
      · exact h.goes hcan.2 hcan.1 (fun k => ⟨by simp, by simp⟩) rfl rfl rfl rfl rfl
          (fun _ => False.elim) fun _ => False.elim
  | taskBlock state =>
      rw [kstep] at hrun
      split_ifs at hrun with hcan
      have hsame : s.goto s.sched.cur .out = s := by
        rw [KState.goto, ← hcan.1, Function.update_eq_self]
      rw [← hsame] at hrun
      have hq' := hq.block hcan.2 (fun k hk =>
        absurd hk (hq.not_going k hcan.1 ⟨by simp, by simp⟩)) hrun
      exact h.sleeps hcan.2 hq' hrun fun _ => id
  | wakeup q =>
      obtain ⟨hq', hfree⟩ := waitQueueWakeup_spec hq hrun
      exact h.stay hq' (hfree.spares rfl rfl rfl rfl fun k w hw hmem =>
        h.waiter_ne (by simp) hmem hw rfl)
        hfree.place hfree.locked
  | exceptionSend t code m created =>
      rw [kstep, exceptionSend] at hrun
      split_ifs at hrun with hwakes
      · by_cases hready : TaskNotReady s t
        · obtain ⟨hflag, hhand⟩ := hquiet.2 hwakes hready
          obtain ⟨hq', hfree⟩ := taskWakeup_spec hq (fun _ => hflag) hrun
          exact h.stay hq' (hfree.spares rfl rfl rfl rfl fun k w hw => h.not_inHand hw hhand)
            hfree.place hfree.locked
        · rw [taskWakeup, if_neg hready] at hrun
          cases hrun
          exact h
      · cases hrun
        exact h

theorem kernelBoot_inv (idle level : ℕ) (v : ℕ → ℕ) : KernInv (kernelBoot idle level v) where
  queues := ⟨schedBoot_inv idle level, List.nodup_nil, fun _ h => absurd h List.not_mem_nil,
    fun _ h => absurd h List.not_mem_nil, fun _ _ h => absurd h List.not_mem_nil, rfl⟩
  held := fun _ _ => False.elim
  alone := fun _ _ _ => False.elim
  waiter := fun _ _ h => by cases h
  hands := fun _ _ => False.elim

end Events

/-! ## The main result -/

/-- **A node is on at most one list.**  Whatever tasks sleep, wake, signal and are preempted, in
any order, as long as no task whose node is on a wait list is preempted or put on another, and none
is woken by an exception with its flag cleared or while a `__semaphore_up` has it in hand. -/
theorem one_queue (idle level : ℕ) (v : ℕ → ℕ) (events : List KEvent) (s : KState)
    (hquiet : Run.Along kstep Undisturbed (kernelBoot idle level v) events)
    (hrun : Run.exec kstep (kernelBoot idle level v) events = some s) : OneQueue s :=
  (Run.exec_invariant kstep_inv events _ s (kernelBoot_inv idle level v) hquiet
    hrun).queues.oneQueue

/-- Two tasks: one sleeps on a wait queue, the other on a semaphore, and both are woken. -/
theorem one_queue_two :
    ∃ s, Run.exec kstep (kernelBoot 0 1 fun _ => 0)
        [.create 1 2, .create 2 2, .preempt, .waitQueueSleepon 0, .run, .semaphore 0 .down, .run,
          .run,
          .run, .run, .run, .wakeup 0, .preempt, .semaphore 0 .up, .run, .run, .run, .run, .run,
          .run, .run, .run] = some s ∧
      OneQueue s := by
  have hsome : (Run.exec kstep (kernelBoot 0 1 fun _ => 0)
      [.create 1 2, .create 2 2, .preempt, .waitQueueSleepon 0, .run, .semaphore 0 .down, .run,
        .run,
        .run, .run, .run, .wakeup 0, .preempt, .semaphore 0 .up, .run, .run, .run, .run, .run, .run,
        .run, .run]).isSome = true := by decide +kernel
  obtain ⟨s, hs⟩ := Option.isSome_iff_exists.1 hsome
  exact ⟨s, hs, one_queue 0 1 (fun _ => 0) _ s (by decide +kernel) hs⟩

/-- The clock takes the processor from a task that has just added itself to a wait queue: its node
is on the wait queue and on the queue of the scheduler. -/
theorem one_queue_fails : ¬ ∀ (events : List KEvent) (s : KState),
    Run.exec kstep (kernelBoot 0 1 fun _ => 0) events = some s → OneQueue s := by
  intro hall
  have hbad : (Run.exec kstep (kernelBoot 0 1 fun _ => 0)
      [.create 1 2, .create 2 2, .preempt, .waitQueueSleepon 0, .preempt]).map
        (fun s => (s.on (.wait (.queue 0)), s.on (.ready 1))) = some ([1], [1]) := by decide +kernel
  obtain ⟨s, hs, hlists⟩ := Option.map_eq_some_iff.1 hbad
  obtain ⟨hwait, hready⟩ := Prod.mk.injEq .. ▸ hlists
  have hone := (hall _ s hs).one 1 (.wait (.queue 0)) (.ready 1)
    (by rw [hwait]; exact List.mem_singleton_self 1)
    (by rw [hready]; exact List.mem_singleton_self 1)
  cases hone

end WaitQueue
end LightOS
