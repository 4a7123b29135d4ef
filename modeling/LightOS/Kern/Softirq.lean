import LightOS.Kern.SoftirqLists

/-!
# Deferred work runs once

* `SoftirqInv.run`, `SoftirqInv.step` — what a context and an event keep.
* `Draining.comes_out` — a context that handles the softirqs comes to an end.
* `SoftirqInv.ok` — the invariant gives the promise.
* `softirq_runs_once` — the promise, in every run of calls that can be relied on.
-/

namespace LightOS
namespace Softirq

open LinkedList Places Run

variable {ι α : Type}

/-! ## Steps -/

section Steps

variable [DecidableEq ι] [DecidableEq α] {count : α → ℤ} {s s' : SoftirqState ι α}
  {lists lists' : Place ι → List α} {t : ι} {p : Pc α} {k : Kind} {a : α} {f : Frame}

/-- The invariant of a run. -/
structure SoftirqInv (count : α → ℤ) (s : SoftirqState ι α) (lists : Place ι → List α) : Prop where
  list : ListInv count s lists
  ctx : PcInv count s
  counts : ∀ a, CountInv s a
  wake : WakeInv s lists

/-- A step of a context puts no enabled assist on a list, and forgets no list it was to take. -/
def Drains (count : α → ℤ) (s s' : SoftirqState ι α) (lists lists' : Place ι → List α) (t : ι) :
    Prop :=
  ∀ k, ∀ a ∈ lists' (.head k), count a = 0 →
    a ∈ lists (.head k) ∧ ((s.pc t).willTake k → (s'.pc t).willTake k)

/-- **A context goes on** without touching what it shares. -/
theorem SoftirqInv.goto (h : SoftirqInv count s lists) (hrest : p.rest = (s.pc t).rest)
    (hhand : p.hand = (s.pc t).hand) (hstarted : p.started = (s.pc t).started)
    (hkind : p.kind = .low → (s.pc t).kind = .low ∨ p.rest = none ∧ p.hand = none)
    (hset : ∀ k a, p ≠ .set k a) (hcall : p.executes → p.kind = .high)
    (hback : ∀ a, p.back = some a → count a ≠ 0)
    (hwill : ∀ k, (s.pc t).willTake k → p.willTake k)
    (hframe : ∀ g n, p.frame = some g → g.has n → ∃ f, (s.pc t).frame = some f ∧ f.has n) :
    SoftirqInv count (s.goto t p) lists ∧ Drains count s (s.goto t p) lists lists t := by
  refine ⟨⟨h.list.keep rfl rfl rfl rfl hrest hhand hkind, h.ctx.keep rfl rfl hset hcall hback,
    fun x => (h.counts x).step rfl ?_, h.wake.keep rfl rfl (fun _ => rfl) hwill fun g n hg hn =>
      ?_⟩, fun k x hx _ => ⟨hx, fun hold => ?_⟩⟩
  · simp only [startedNum, hstarted]
    rfl
  · obtain ⟨f, hf, hfn⟩ := hframe g n hg hn
    exact h.wake.frames t f n hf hfn
  · rw [goto_pc_self]
    exact hwill k hold

/-- The next turn of the loop: the first bit is not one of a list, or its list is taken. -/
theorem SoftirqInv.advance (h : SoftirqInv count s lists) (hrest : (s.pc t).rest = none)
    (hhand : (s.pc t).hand = none) (hstarted : (s.pc t).started = none)
    (hframe : (s.pc t).frame = some f)
    (hwill : ∀ k, (s.pc t).willTake k → f.nr < k.nr ∧ f.has k.nr) :
    SoftirqInv count (s.goto t f.advance) lists ∧
      Drains count s (s.goto t f.advance) lists lists t :=
  h.goto (by rw [hrest, advance_rest]) (by rw [hhand, advance_hand])
    (by rw [hstarted, advance_started])
    (fun _ => Or.inr ⟨advance_rest f, advance_hand f⟩) (advance_ne_set f)
    (fun hexec => absurd hexec (advance_executes f)) (by simp)
    (fun k hk => Frame.advance_willTake.2 (hwill k hk))
    fun g n hg hn => ⟨f, hframe, Frame.advance_has hg hn⟩

/-- The first bit of a frame is that of its softirq. -/
theorem has_nr_iff {k : Kind} : f.has k.nr ↔ f.nr = k.nr ∧ testBit 0 f.evens = true ∨
    f.nr < k.nr ∧ f.has k.nr := by
  constructor
  · rintro ⟨hle, hbit⟩
    rcases Nat.eq_or_lt_of_le hle with heq | hlt
    · refine Or.inl ⟨heq, ?_⟩
      rwa [heq, Nat.sub_self] at hbit
    · exact Or.inr ⟨hlt, hle, hbit⟩
  · rintro (⟨heq, hbit⟩ | ⟨-, hhas⟩)
    · refine ⟨heq.le, ?_⟩
      rwa [heq, Nat.sub_self]
    · exact hhas

/-- A softirq has the list of its number. -/
theorem softirqAction_assist {n : ℕ} (h : softirqAction n = some (.assist k)) : n = k.nr := by
  unfold softirqAction at h
  split at h <;> first | (cases h; rfl) | cases h

/-- **The events are taken over**: what was activated is now in the loop of the context. -/
theorem SoftirqInv.takeEvens (h : SoftirqInv count s lists) (redo : ℕ)
    (hrest : (s.pc t).rest = none)
    (hhand : (s.pc t).hand = none) (hstarted : (s.pc t).started = none)
    (hwill : ∀ k, ¬(s.pc t).willTake k) :
    SoftirqInv count ({ s with evens := 0 }.goto t (.loop ⟨s.evens, 0, redo⟩)) lists := by
  refine ⟨h.list.keep rfl rfl rfl rfl hrest.symm hhand.symm (fun _ => Or.inr ⟨rfl, rfl⟩),
    h.ctx.keep rfl rfl nofun nofun nofun, fun x => (h.counts x).step rfl ?_,
    h.wake.step rfl (fun k hk => ?_) (fun n hn => ?_) fun f n hf hn => ?_⟩
  · simp only [startedNum, hstarted]
    rfl
  · by_cases hbit : testBit k.nr s.evens = true
    · exact Or.inr (Or.inl ⟨Nat.zero_le _, hbit⟩)
    · exact Or.inr (Or.inr ⟨hk, by simpa using hbit, hwill k⟩)
  · simp [testBit, SoftirqState.goto] at hn
  · cases hf
    exact h.wake.evens n hn.2

/-- **An assist in the hands of a context is put on a list.** -/
theorem SoftirqInv.push (h : SoftirqInv count s lists) (hhand : (s.pc t).hand = some a)
    (hk : (s.pc t).kind = k) (hstarted : (s.pc t).started = none) (hrest : p.rest = (s.pc t).rest)
    (hnone : p.hand = none) (hkind : p.kind = .low → k = .low ∨ p.rest = none)
    (hset : ∀ k a, p ≠ .set k a) (hexec : ¬p.executes) (hback : ∀ a, p.back = some a → count a ≠ 0)
    (hstarted' : p.started = none)
    (hwill : ∀ k, (s.pc t).willTake k → p.willTake k)
    (hframe : ∀ g n, p.frame = some g → g.has n → ∃ f, (s.pc t).frame = some f ∧ f.has n) :
    SoftirqInv count ((s.push k a).goto t p)
      (Function.update (Function.update lists (.hand t) []) (.head k) (a :: lists (.head k))) := by
  refine ⟨h.list.push hhand hk hrest hnone hkind,
    h.ctx.keep rfl rfl hset (fun he => absurd he hexec) hback, fun x => (h.counts x).step rfl ?_,
    h.wake.step rfl (fun j hj => ?_) (fun n hn => h.wake.active hn) fun g n hg hn => ?_⟩
  · simp only [startedNum, hstarted, hstarted']
    rfl
  · by_cases hjk : j = k
    · rw [hjk]
      exact Or.inl (testBit_active k s.evens)
    · rw [Function.update_of_ne (by simpa using hjk), Function.update_of_ne (by simp)] at hj
      by_cases hbit : testBit j.nr s.evens = true
      · exact Or.inl (testBit_softirqActive.2 (Or.inl hbit))
      · by_cases hp : p.willTake j
        · exact Or.inr (Or.inl hp)
        · exact Or.inr (Or.inr ⟨hj, by simpa using hbit, fun hold => hp (hwill j hold)⟩)
  · obtain ⟨f, hf, hfn⟩ := hframe g n hg hn
    exact h.wake.frames t f n hf hfn

/-- `set_bit` of `test_and_set_bit`. -/
theorem SoftirqInv.enter (h : SoftirqInv count s lists) (hpc : s.pc t = .set k a) :
    SoftirqInv count
      ({ s with status := Function.update s.status a (setBit k.nr (s.status a)) }.goto t (.add k a))
      (Function.update lists (.hand t) [a]) := by
  obtain ⟨hclear, hdisabled⟩ := h.ctx.setting t k a hpc
  have hlist := h.list.enter hpc hclear hdisabled
  have hmarked : pending ({ s with
      status := Function.update s.status a (setBit k.nr (s.status a)) }.goto t (.add k a)) a =
        true :=
    hlist.full.placed.live (.hand t) a
      (by rw [Function.update_self]; exact List.mem_singleton_self a)
  refine ⟨hlist, h.ctx.step rfl (fun x hx => ?_) (fun u k' x hu hset => ?_) nofun nofun nofun,
    fun x => (h.counts x).step rfl ?_,
    h.wake.keep rfl rfl (fun j => Function.update_of_ne (by simp) _ _) (fun j hj => ?_) nofun⟩
  · by_cases hxa : x = a
    · subst hxa
      simp only [SoftirqState.goto, Function.update_self, testBit_setBit _ _ Kind.low.nr_lt,
        Bool.or_eq_true, decide_eq_true_eq] at hx
      rcases hx with hold | hnew
      · exact h.ctx.lows x hold
      · cases k with
        | high => cases hnew
        | low => exact hdisabled rfl
    · simp only [SoftirqState.goto, Function.update_of_ne hxa] at hx
      exact h.ctx.lows x hx
  · have hxa : x ≠ a := by
      rintro rfl
      exact hu (h.ctx.setOnce u t k' k x hset hpc)
    simp only [pending, SoftirqState.goto, Function.update_of_ne hxa]
  · by_cases hxa : x = a
    · subst hxa
      rw [pendingNum, if_pos hmarked, pendingNum, hclear]
      simp [startedNum, hpc, Pc.started, SoftirqState.goto]
    · have hother : (Pc.set k a : Pc α).started ≠ some x := by simpa [Pc.started] using Ne.symm hxa
      simp only [pendingNum, startedNum, pending, hpc, SoftirqState.goto, Function.update_of_ne hxa,
        if_neg hother]
      simp [Pc.started]
  · rw [hpc] at hj
    exact hj.elim

/-- An enabled assist is unmarked before its function is called. -/
theorem SoftirqInv.drop (h : SoftirqInv count s lists) {list : Option α}
    (hpc : s.pc t = .test k a list f) (henabled : count a = 0) :
    SoftirqInv count
      ({ s with
        status := Function.update s.status a (clearBit taskAssistSched (s.status a)) }.goto t
          (.call k a list f))
      (Function.update lists (.hand t) []) := by
  have hhold : lists (.hand t) = [a] := h.list.hand_eq (by rw [hpc]; rfl)
  have hmem : a ∈ lists (.hand t) := by rw [hhold]; exact List.mem_singleton_self a
  have hlow : testBit Kind.low.nr (s.status a) = false := by
    by_contra hbit
    exact h.ctx.lows a (by simpa using hbit) henabled
  have hhigh : k = .high := by
    cases k with
    | high => rfl
    | low => exact absurd henabled (h.list.kinds (.hand t) (congrArg Pc.kind hpc) a hmem)
  have hlist := h.list.drop hpc hlow
  have hmarked : pending s a = true := h.list.full.placed.live (.hand t) a hmem
  have hclear : pending ({ s with
      status := Function.update s.status a (clearBit taskAssistSched (s.status a)) }.goto t
        (.call k a list f)) a = false := by
    simp only [pending, SoftirqState.goto, Function.update_self,
      testBit_clearBit _ _ Kind.high.nr_lt, testBit_clearBit _ _ Kind.low.nr_lt, hlow]
    simp [Kind.nr]
  refine ⟨hlist, h.ctx.step rfl (fun x hx => ?_) (fun u k' x hu hset => ?_)
    (fun _ _ hx => by cases hx)
      (fun _ => hhigh) (fun _ hx => by cases hx),
    fun x => (h.counts x).step rfl ?_,
    h.wake.keep rfl rfl (fun j => Function.update_of_ne (by simp) _ _) (fun j hj => ?_)
      fun g n hg hn => ?_⟩
  · by_cases hxa : x = a
    · subst hxa
      simp only [SoftirqState.goto, Function.update_self, testBit_clearBit _ _ Kind.low.nr_lt,
        hlow] at hx
      cases hx
    · simp only [SoftirqState.goto, Function.update_of_ne hxa] at hx
      exact h.ctx.lows x hx
  · have hxa : x ≠ a := by
      rintro rfl
      rw [(h.ctx.setting u k' x hset).1] at hmarked
      cases hmarked
    simp only [pending, SoftirqState.goto, Function.update_of_ne hxa]
  · by_cases hxa : x = a
    · subst hxa
      rw [pendingNum, hclear, pendingNum, if_pos hmarked]
      simp [startedNum, hpc, Pc.started, SoftirqState.goto]
    · have hother : (Pc.call k a list f : Pc α).started ≠ some x := by
        simpa [Pc.started] using Ne.symm hxa
      simp only [pendingNum, startedNum, pending, hpc, SoftirqState.goto, Function.update_of_ne hxa,
        if_neg hother]
      simp [Pc.started]
  · rw [hpc] at hj
    exact hj
  · cases hg
    exact h.wake.frames t f n (by rw [hpc]; rfl) hn

/-- A list is taken. -/
theorem SoftirqInv.take (h : SoftirqInv count s lists) (hpc : s.pc t = .take k f) :
    SoftirqInv count
      ({ s with head := Function.update s.head k none }.goto t (.walk k (s.head k) f))
      (Function.update (Function.update lists (.head k) []) (.walk t) (lists (.head k))) := by
  refine ⟨h.list.take hpc, h.ctx.keep rfl rfl nofun nofun nofun, fun x => (h.counts x).step rfl ?_,
    h.wake.step rfl (fun j hj => ?_) h.wake.evens fun g n hg hn => ?_⟩
  · simp only [startedNum, hpc]
    rfl
  · rw [Function.update_of_ne (by simp)] at hj
    by_cases hjk : j = k
    · rw [hjk, Function.update_self] at hj
      exact absurd rfl hj
    · rw [Function.update_of_ne (by simpa using hjk)] at hj
      by_cases hbit : testBit j.nr s.evens = true
      · exact Or.inl hbit
      · by_cases hlater : f.nr < j.nr ∧ f.has j.nr
        · exact Or.inr (Or.inl hlater)
        · refine Or.inr (Or.inr ⟨hj, by simpa using hbit, ?_⟩)
          rw [hpc]
          rintro (heq | hhas)
          · exact hjk heq
          · exact hlater hhas
  · cases hg
    exact h.wake.frames t f n (by rw [hpc]; rfl) hn

/-- The function is executed. -/
theorem SoftirqInv.execute (h : SoftirqInv count s lists) {list : Option α}
    (hpc : s.pc t = .call k a list f) :
    SoftirqInv count
      ({ s with executed := Function.update s.executed a (s.executed a + 1) }.goto t
        (.running k a list f)) lists := by
  have hhigh : k = .high := by
    have hcalling := h.ctx.calling t (by rw [hpc]; trivial)
    rwa [hpc] at hcalling
  refine ⟨h.list.keep rfl rfl rfl rfl (by rw [hpc]; rfl) (by rw [hpc]; rfl)
      (fun hlow => Or.inl (by rw [hpc]; exact hlow)),
    h.ctx.keep rfl rfl nofun (fun _ => hhigh) nofun, fun x => (h.counts x).step rfl ?_,
    h.wake.keep rfl rfl (fun _ => rfl) (fun j hj => by rw [hpc] at hj; exact hj) fun g n hg hn =>
      ?_⟩
  · by_cases hxa : x = a
    · subst hxa
      simp only [pendingNum, pending, startedNum, hpc, Pc.started, SoftirqState.goto,
        Function.update_self]
      simp
      omega
    · have hother : (Pc.call k a list f : Pc α).started ≠ some x := by
        simpa [Pc.started] using Ne.symm hxa
      simp only [pendingNum, startedNum, pending, hpc, SoftirqState.goto, Function.update_of_ne hxa,
        if_neg hother]
      simp [Pc.started]
  · cases hg
    exact h.wake.frames t f n (by rw [hpc]; rfl) hn

/-- The context tests the next bit of its events. -/
theorem SoftirqInv.runLoop (h : SoftirqInv count s lists) (hpc : s.pc t = .loop f)
    (hstep : runStep count s t = some s') :
    ∃ lists', SoftirqInv count s' lists' ∧
      ((∀ k a, s.pc t ≠ .add k a) → Drains count s s' lists lists' t) := by
  rw [runStep, hpc] at hstep
  have hadvance : (∀ k : Kind, f.nr = k.nr → testBit 0 f.evens = false) →
      s' = s.goto t f.advance → ∃ lists', SoftirqInv count s' lists' ∧
        ((∀ k a, s.pc t ≠ .add k a) → Drains count s s' lists lists' t) := by
    rintro hfirst rfl
    obtain ⟨hinv, hdrains⟩ := h.advance (f := f) (t := t) (by rw [hpc]; rfl) (by rw [hpc]; rfl)
      (by rw [hpc]; rfl) (by rw [hpc]; rfl) fun k hk => by
        rw [hpc] at hk
        rcases has_nr_iff.1 hk with ⟨heq, hbit⟩ | hlater
        · rw [hfirst k heq] at hbit
          cases hbit
        · exact hlater
    exact ⟨lists, hinv, fun _ => hdrains⟩
  simp only at hstep
  split_ifs at hstep with hbit
  · have hno : ∀ k : Kind, softirqAction f.nr = some .timer ∨ softirqAction f.nr = some .sched →
        f.nr ≠ k.nr := by
      rintro k haction heq
      rw [heq, k.built] at haction
      rcases haction with haction | haction <;> cases haction
    split at hstep
    · cases hstep
    · rename_i k haction
      cases hstep
      have hnr := softirqAction_assist haction
      obtain ⟨hinv, hdrains⟩ :=
        h.goto (t := t) (p := .take k f) (by rw [hpc]; rfl) (by rw [hpc]; rfl)
        (by rw [hpc]; rfl) (fun _ => Or.inr ⟨rfl, rfl⟩) nofun nofun nofun (fun j hj => by
          rw [hpc] at hj
          rcases has_nr_iff.1 hj with ⟨heq, -⟩ | hlater
          · have hjk : j.nr = k.nr := heq.symm.trans hnr
            left
            cases j <;> cases k <;> first | rfl | cases hjk
          · exact Or.inr hlater)
        fun g n hg hn => by
          cases hg
          exact ⟨f, by rw [hpc]; rfl, hn⟩
      exact ⟨lists, hinv, fun _ => hdrains⟩
    · rename_i haction
      cases hstep
      exact hadvance (fun k heq => absurd heq (hno k (Or.inl haction))) rfl
    · rename_i haction
      cases hstep
      exact hadvance (fun k heq => absurd heq (hno k (Or.inr haction))) rfl
  · cases hstep
    exact hadvance (fun _ _ => by simpa using hbit) rfl

/-- **A context goes on.** -/
theorem SoftirqInv.run (h : SoftirqInv count s lists) (hstep : runStep count s t = some s') :
    ∃ lists', SoftirqInv count s' lists' ∧
      ((∀ k a, s.pc t ≠ .add k a) → Drains count s s' lists lists' t) := by
  cases hpc : s.pc t with
  | out =>
      rw [runStep, hpc] at hstep
      cases hstep
  | set k a =>
      rw [runStep, hpc] at hstep
      cases hstep
      refine ⟨_, h.enter hpc, fun _ j x hx _ => ⟨?_, fun hwill => ?_⟩⟩
      · rwa [Function.update_of_ne (by simp)] at hx
      · rw [hpc] at hwill
        exact hwill.elim
  | add k a =>
      rw [runStep, hpc] at hstep
      cases hstep
      refine ⟨_, h.push (by rw [hpc]; rfl) (by rw [hpc]; rfl) (by rw [hpc]; rfl)
        (by rw [hpc]; rfl) rfl
        (fun _ => Or.inr rfl) (fun _ _ hx => by cases hx) id (fun _ hx => by cases hx) rfl
        (fun j hj => ?_)
        (fun _ _ hx => by cases hx), fun hno => absurd rfl (hno k a)⟩
      rw [hpc] at hj
      exact hj.elim
  | loop f =>
      simpa only [hpc] using h.runLoop hpc hstep
  | finish redo =>
      rw [runStep, hpc] at hstep
      simp only at hstep
      split_ifs at hstep with hagain
      · cases hstep
        refine ⟨lists, h.takeEvens (redo - 1) (by rw [hpc]; rfl) (by rw [hpc]; rfl)
          (by rw [hpc]; rfl)
          (fun k hk => by rw [hpc] at hk; exact hk), fun _ j x hx _ => ⟨hx, fun hwill => ?_⟩⟩
        rw [hpc] at hwill
        exact hwill.elim
      · cases hstep
        obtain ⟨hinv, hdrains⟩ := h.goto (t := t) (p := .out) (by rw [hpc]; rfl) (by rw [hpc]; rfl)
          (by rw [hpc]; rfl) (fun _ => Or.inr ⟨rfl, rfl⟩) (fun _ _ hx => by cases hx)
          (fun hx => by cases hx)
          (fun _ hx => by cases hx) (fun j hj => by rw [hpc] at hj; exact hj)
          (fun _ _ hx => by cases hx)
        exact ⟨lists, hinv, fun _ => hdrains⟩
  | take k f =>
      rw [runStep, hpc] at hstep
      cases hstep
      refine ⟨_, h.take hpc, fun _ j x hx _ => ?_⟩
      rw [Function.update_of_ne (by simp)] at hx
      by_cases hjk : j = k
      · rw [hjk, Function.update_self] at hx
        cases hx
      · rw [Function.update_of_ne (by simpa using hjk)] at hx
        refine ⟨hx, fun hwill => ?_⟩
        rw [hpc] at hwill
        rw [goto_pc_self]
        exact hwill.resolve_left hjk
  | walk k list f =>
      rw [runStep, hpc] at hstep
      cases list with
      | none =>
          cases hstep
          obtain ⟨hinv, hdrains⟩ :=
            h.advance (f := f) (t := t) (by rw [hpc]; rfl) (by rw [hpc]; rfl)
            (by rw [hpc]; rfl) (by rw [hpc]; rfl) fun k hk => by rwa [hpc] at hk
          exact ⟨lists, hinv, fun _ => hdrains⟩
      | some a =>
          cases hstep
          obtain ⟨l, -, hlist⟩ := h.list.pop hpc
          refine ⟨_, ⟨hlist,
            h.ctx.keep rfl rfl (fun _ _ hx => by cases hx) (fun hx => by cases hx)
            (fun _ hx => by cases hx), fun x => (h.counts x).step rfl ?_,
            h.wake.keep rfl rfl (fun j => ?_) (fun j hj => by rw [hpc] at hj; exact hj)
              fun g n hg hn => ?_⟩, fun _ j x hx _ => ⟨?_, fun hwill => ?_⟩⟩
          · simp only [startedNum, hpc]
            rfl
          · rw [Function.update_of_ne (by simp), Function.update_of_ne (by simp)]
          · cases hg
            exact h.wake.frames t f n (by rw [hpc]; rfl) hn
          · rwa [Function.update_of_ne (by simp), Function.update_of_ne (by simp)] at hx
          · rw [hpc] at hwill
            rwa [goto_pc_self]
  | test k a list f =>
      rw [runStep, hpc] at hstep
      simp only at hstep
      split_ifs at hstep with henabled
      · cases hstep
        refine ⟨_, h.drop hpc henabled, fun _ j x hx _ => ⟨?_, fun hwill => ?_⟩⟩
        · rwa [Function.update_of_ne (by simp)] at hx
        · rw [hpc] at hwill
          rwa [goto_pc_self]
      · cases hstep
        obtain ⟨hinv, hdrains⟩ := h.goto (t := t) (p := .readd k a list f) (by rw [hpc]; rfl)
          (by rw [hpc]; rfl) (by rw [hpc]; rfl) (fun hlow => Or.inl (by rw [hpc]; exact hlow))
          (fun _ _ hx => by cases hx)
          (fun hx => by cases hx)
          (fun x hx => by cases hx; exact henabled)
          (fun j hj => by rw [hpc] at hj; exact hj)
          fun g n hg hn => ⟨f, by rw [hpc]; rfl, by cases hg; exact hn⟩
        exact ⟨lists, hinv, fun _ => hdrains⟩
  | call k a list f =>
      rw [runStep, hpc] at hstep
      cases hstep
      refine ⟨lists, h.execute hpc, fun _ j x hx _ => ⟨hx, fun hwill => ?_⟩⟩
      rw [hpc] at hwill
      rwa [goto_pc_self]
  | running k a list f =>
      have hhigh := h.ctx.calling t (by rw [hpc]; trivial)
      rw [hpc] at hhigh
      cases hhigh
      rw [runStep, hpc] at hstep
      cases hstep
      obtain ⟨hinv, hdrains⟩ := h.goto (t := t) (p := .walk .high list f) (by rw [hpc]; rfl)
        (by rw [hpc]; rfl) (by rw [hpc]; rfl) (fun hx => by cases hx) (fun _ _ hx => by cases hx)
        (fun hx => by cases hx) (fun _ hx => by cases hx)
        (fun j hj => by rw [hpc] at hj; exact hj)
        fun g n hg hn => ⟨f, by rw [hpc]; rfl, by cases hg; exact hn⟩
      exact ⟨lists, hinv, fun _ => hdrains⟩
  | readd k a list f =>
      rw [runStep, hpc] at hstep
      cases hstep
      refine ⟨_, h.push (by rw [hpc]; rfl) (by rw [hpc]; rfl) (by rw [hpc]; rfl)
        (by rw [hpc]; rfl) rfl
        (fun hlow => Or.inl hlow) (fun _ _ hx => by cases hx) id (fun _ hx => by cases hx) rfl
        (fun j hj => by rw [hpc] at hj; exact hj)
        (fun g n hg hn => ⟨f, by rw [hpc]; rfl, by cases hg; exact hn⟩),
        fun _ j x hx henabled => ?_⟩
      have hdisabled : count a ≠ 0 := h.ctx.back t a (by rw [hpc]; rfl)
      by_cases hjk : j = k
      · subst hjk
        rw [Function.update_self] at hx
        rcases List.mem_cons.1 hx with rfl | hx
        · exact absurd henabled hdisabled
        · exact ⟨hx, fun hwill => by rw [hpc] at hwill; rwa [goto_pc_self]⟩
      · rw [Function.update_of_ne (by simpa using hjk), Function.update_of_ne (by simp)] at hx
        exact ⟨hx, fun hwill => by rw [hpc] at hwill; rwa [goto_pc_self]⟩

/-- A request is accepted. -/
theorem SoftirqInv.schedule (h : SoftirqInv count s lists) (hpc : s.pc t = .out)
    (hfine : SoftirqFine count s (.schedule t k a)) :
    SoftirqInv count (taskAssistSchedule s t k a) lists := by
  unfold taskAssistSchedule
  split_ifs with hbit
  · exact h
  · have hclear : pending s a = false ∧ (k = .low → count a ≠ 0) ∧ ∀ u k', s.pc u ≠ .set k' a := by
      cases k with
      | high =>
          refine ⟨?_, (fun hx => by cases hx), hfine.1⟩
          rw [pending, hfine.2, Bool.or_false]
          simpa using hbit
      | low =>
          refine ⟨?_, fun _ => hfine.2.2, hfine.1⟩
          rw [pending, hfine.2.1, Bool.false_or]
          simpa using hbit
    refine ⟨h.list.keep rfl rfl rfl rfl (by rw [hpc]; rfl) (by rw [hpc]; rfl)
        (fun _ => Or.inr ⟨rfl, rfl⟩),
      h.ctx.step rfl h.ctx.lows (fun _ _ _ _ _ => rfl) (fun k' x hx => by cases hx; exact hclear)
        (fun hx => by cases hx) (fun _ hx => by cases hx),
      fun x => (h.counts x).step rfl ?_,
      h.wake.keep rfl rfl (fun _ => rfl) (fun j hj => by rw [hpc] at hj; exact hj.elim)
        (fun _ _ hx => by cases hx)⟩
    by_cases hxa : x = a
    · subst hxa
      simp only [pendingNum, pending, startedNum, hpc, Pc.started, SoftirqState.goto,
        Function.update_self]
      simp
      omega
    · have hother : (Pc.set k a : Pc α).started ≠ some x := by simpa [Pc.started] using Ne.symm hxa
      simp only [pendingNum, startedNum, pending, hpc, SoftirqState.goto, Function.update_of_ne hxa,
        if_neg hother]
      simp [Pc.started]

omit [DecidableEq ι] [DecidableEq α] in
/-- Another softirq is activated. -/
theorem SoftirqInv.active (h : SoftirqInv count s lists) (softirq : ℕ) :
    SoftirqInv count { s with evens := softirqActive s.evens softirq } lists := by
  refine ⟨⟨h.list.full, h.list.heads, h.list.walks, h.list.hands, h.list.kinds⟩,
    ⟨h.ctx.lows, h.ctx.setting, h.ctx.setOnce, h.ctx.calling, h.ctx.back⟩, h.counts,
    ⟨fun k hk => ?_, fun n hn => h.wake.active hn, h.wake.frames⟩⟩
  exact (h.wake.wake k hk).imp_left fun hbit => testBit_softirqActive.2 (Or.inl hbit)

/-- **Every event that can be relied on keeps the invariant.** -/
theorem SoftirqInv.step (h : SoftirqInv count s lists) {e : Event ι α}
    (hfine : SoftirqFine count s e)
    (hstep : softirqStep count s e = some s') : ∃ lists', SoftirqInv count s' lists' := by
  cases e with
  | schedule t k a =>
      rw [softirqStep] at hstep
      split_ifs at hstep with hpc
      cases hstep
      exact ⟨lists, h.schedule hpc hfine⟩
  | handle t =>
      rw [softirqStep] at hstep
      split_ifs at hstep with hpc
      cases hstep
      unfold softirqHandleInInterrupt
      split_ifs with hnone
      · exact ⟨lists, h⟩
      · exact ⟨lists, h.takeEvens _ (by rw [hpc]; rfl) (by rw [hpc]; rfl) (by rw [hpc]; rfl)
          fun k hk => by rw [hpc] at hk; exact hk⟩
  | active softirq =>
      cases hstep
      exact ⟨lists, h.active softirq⟩
  | run t =>
      obtain ⟨lists', hinv, -⟩ := h.run hstep
      exact ⟨lists', hinv⟩

omit [DecidableEq ι] [DecidableEq α] in
theorem softirqInv_init (count : α → ℤ) :
    SoftirqInv count (softirqInit : SoftirqState ι α) fun _ => [] := by
  have hnobody : ∀ a, Threads.inside (fun p : Pc α => p.started = some a)
      (softirqInit : SoftirqState ι α).pc = ∅ := by
    intro a
    ext t
    simp [Threads.mem_inside, softirqInit, Pc.started]
  have hnothing : pending (softirqInit : SoftirqState ι α) = fun _ => false := by
    funext a
    simp [pending, testBit, softirqInit]
  refine ⟨⟨?_, fun _ => rfl, fun _ => rfl, fun _ => rfl,
    fun _ _ _ hx => absurd hx List.not_mem_nil⟩,
    ⟨fun x hx => ?_, (fun _ _ _ ht => by cases ht), (fun _ _ _ _ _ ht => by cases ht),
      (fun _ hx => by cases hx), (fun _ _ hx => by cases hx)⟩, fun x => ?_,
    ⟨fun _ hk => absurd rfl hk, fun n hn => ?_, fun _ _ _ hf => by cases hf⟩⟩
  · rw [hnothing]
    exact full_empty
  · simp [softirqInit, testBit] at hx
  · rw [CountInv, hnobody x, pendingNum, hnothing]
    simp [softirqInit]
  · simp [softirqInit, testBit] at hn

/-! ## Handling the softirqs -/

omit [DecidableEq ι] [DecidableEq α] in
/-- **Nothing is owed** when nothing is under way and no enabled assist is on a list. -/
theorem SoftirqInv.quiet (h : SoftirqInv count s lists) (hout : ∀ t, s.pc t = .out)
    (hlists : ∀ k, ∀ x ∈ lists (.head k), count x ≠ 0) (henabled : count a = 0) :
    s.executed a = s.accepted a := by
  have hnowhere : pending s a = false := by
    by_contra hpending
    obtain ⟨q, hq⟩ := h.list.full.full a (by simpa using hpending)
    cases q with
    | head k => exact hlists k a hq henabled
    | walk t =>
        rw [h.list.walk_nil (by rw [hout t]; rfl)] at hq
        cases hq
    | hand t =>
        rw [h.list.hand_nil (by rw [hout t]; rfl)] at hq
        cases hq
  have hnobody : Threads.inside (fun p : Pc α => p.started = some a) s.pc = ∅ := by
    ext t
    simp [Threads.mem_inside, hout t, Pc.started]
  obtain ⟨-, hsum⟩ := h.counts a
  rw [hnobody, Set.ncard_empty, pendingNum, hnowhere] at hsum
  simp at hsum
  omega

/-- A context handles the softirqs, alone: the enabled assists on the lists are those it is going
to take. -/
structure Draining (count : α → ℤ) (accepted : α → ℕ) (t : ι) (s : SoftirqState ι α) : Prop where
  inv : ∃ lists, SoftirqInv count s lists ∧
    ∀ k, ∀ x ∈ lists (.head k), count x = 0 → (s.pc t).willTake k
  alone : ∀ u, u ≠ t → s.pc u = .out
  same : s.accepted = accepted
  handles : ∀ k a, s.pc t ≠ .set k a ∧ s.pc t ≠ .add k a

variable {accepted : α → ℕ}

/-- A step moves only its context and accepts nothing. -/
theorem runStep_frame (hstep : runStep count s t = some s') :
    s'.accepted = s.accepted ∧ (∀ u, u ≠ t → s'.pc u = s.pc u) ∧
      ((∀ k a, s.pc t ≠ .set k a ∧ s.pc t ≠ .add k a) →
        ∀ k a, s'.pc t ≠ .set k a ∧ s'.pc t ≠ .add k a) := by
  have hgoto : ∀ (r : SoftirqState ι α) (q : Pc α), r.accepted = s.accepted → r.pc = s.pc →
      ((∀ k a, s.pc t ≠ .set k a ∧ s.pc t ≠ .add k a) → ∀ k a, q ≠ .set k a ∧ q ≠ .add k a) →
      (r.goto t q).accepted = s.accepted ∧ (∀ u, u ≠ t → (r.goto t q).pc u = s.pc u) ∧
        ((∀ k a, s.pc t ≠ .set k a ∧ s.pc t ≠ .add k a) →
          ∀ k a, (r.goto t q).pc t ≠ .set k a ∧ (r.goto t q).pc t ≠ .add k a) := by
    intro r q haccepted hpc hq
    refine ⟨haccepted, fun u hu => ?_, ?_⟩
    · rw [← hpc]
      exact Function.update_of_ne hu _ _
    · rwa [goto_pc_self]
  have hadvance : ∀ f : Frame, (∀ k a, s.pc t ≠ .set k a ∧ s.pc t ≠ .add k a) →
      ∀ k a, (f.advance : Pc α) ≠ .set k a ∧ (f.advance : Pc α) ≠ .add k a :=
    fun f _ k a => ⟨advance_ne_set f k a, advance_ne_add f k a⟩
  unfold runStep at hstep
  split at hstep
  · cases hstep
  · rename_i k a hpc
    cases hstep
    exact hgoto _ _ rfl rfl fun h => absurd hpc (h k a).1
  · cases hstep
    exact hgoto _ _ rfl rfl fun _ _ _ => ⟨nofun, nofun⟩
  · split_ifs at hstep
    · split at hstep <;> cases hstep
      · exact hgoto _ _ rfl rfl fun _ _ _ => ⟨nofun, nofun⟩
      · exact hgoto _ _ rfl rfl (hadvance _)
      · exact hgoto _ _ rfl rfl (hadvance _)
    · cases hstep
      exact hgoto _ _ rfl rfl (hadvance _)
  · split_ifs at hstep <;> cases hstep <;> exact hgoto _ _ rfl rfl fun _ _ _ => ⟨nofun, nofun⟩
  · cases hstep
    exact hgoto _ _ rfl rfl fun _ _ _ => ⟨nofun, nofun⟩
  · cases hstep
    exact hgoto _ _ rfl rfl (hadvance _)
  · cases hstep
    exact hgoto _ _ rfl rfl fun _ _ _ => ⟨nofun, nofun⟩
  · split_ifs at hstep <;> cases hstep <;> exact hgoto _ _ rfl rfl fun _ _ _ => ⟨nofun, nofun⟩
  · cases hstep
    exact hgoto _ _ rfl rfl fun _ _ _ => ⟨nofun, nofun⟩
  · cases hstep
    exact hgoto _ _ rfl rfl fun _ _ _ => ⟨nofun, nofun⟩
  · cases hstep
    exact hgoto _ _ rfl rfl fun _ _ _ => ⟨nofun, nofun⟩
  · cases hstep
    exact hgoto _ _ rfl rfl fun _ _ _ => ⟨nofun, nofun⟩

theorem Draining.step (h : Draining count accepted t s) (hstep : runStep count s t = some s') :
    Draining count accepted t s' := by
  obtain ⟨lists, hinv, hheads⟩ := h.inv
  obtain ⟨lists', hinv', hdrains⟩ := hinv.run hstep
  obtain ⟨haccepted, hout, hhandles⟩ := runStep_frame hstep
  refine ⟨⟨lists', hinv', fun k x hx henabled => ?_⟩, fun u hu => ?_, haccepted.trans h.same,
    hhandles h.handles⟩
  · obtain ⟨hold, hwill⟩ := hdrains (fun k a => (h.handles k a).2) k x hx henabled
    exact hwill (hheads k x hold henabled)
  · rw [hout u hu]
    exact h.alone u hu

/-- The context comes to a control point. -/
def Comes (count : α → ℤ) (accepted : α → ℕ) (t : ι) (s : SoftirqState ι α) (p : Pc α) : Prop :=
  Eventually (softirqStep count) (.run t) (fun s' => Draining count accepted t s' ∧ s'.pc t = p) s

theorem Draining.next (h : Draining count accepted t s) (hstep : runStep count s t = some s')
    (hrest : Draining count accepted t s' → Comes count accepted t s' p) :
    Comes count accepted t s p :=
  Eventually.next hstep (hrest (h.step hstep))

/-- **An action comes to the end of its list**, by induction on the list. -/
theorem Draining.walk {l : List α} (h : Draining count accepted t s) {q : Option α}
    (hpc : s.pc t = .walk k q f) (hseg : Seg s.next q l none) :
    Comes count accepted t s f.advance := by
  induction l generalizing s q with
  | nil =>
      cases hseg
      exact h.next (by rw [runStep, hpc]) fun hend => Eventually.now ⟨hend, goto_pc_self _ _ _⟩
  | cons a l ih =>
      obtain ⟨rfl, hseg⟩ := hseg
      refine h.next (by rw [runStep, hpc]) fun htest => ?_
      have hout : a ∉ l := by
        have hwhole : Seg s.next (some a) (a :: l) none := ⟨rfl, hseg⟩
        exact (List.nodup_cons.1 hwhole.nodup).1
      by_cases henabled : count a = 0
      · -- the function is executed, and the action goes on with the next assist
        refine htest.next (by rw [runStep, goto_pc_self]; exact if_pos henabled) fun hcall => ?_
        refine hcall.next (by rw [runStep, goto_pc_self]) fun hrunning => ?_
        have hhigh : k = .high := by
          obtain ⟨lists, hinv, -⟩ := hrunning.inv
          have hcalling := hinv.ctx.calling t (by rw [goto_pc_self]; trivial)
          rwa [goto_pc_self] at hcalling
        subst hhigh
        refine hrunning.next (by rw [runStep, goto_pc_self]) fun hwalk => ?_
        exact ih hwalk (goto_pc_self _ _ _) hseg
      · -- the assist is put back
        refine htest.next (by rw [runStep, goto_pc_self]; exact if_neg henabled) fun hreadd => ?_
        refine hreadd.next (by rw [runStep, goto_pc_self]) fun hwalk => ?_
        exact ih hwalk (goto_pc_self _ _ _) (hseg.update hout _)

/-- **The loop comes to its end**: the events get smaller. -/
theorem Draining.loop (h : Draining count accepted t s) (hpc : s.pc t = .loop f) :
    Comes count accepted t s (.finish f.redo) := by
  induction hn : f.evens.toNat using Nat.strong_induction_on generalizing s f with
  | _ n ih =>
      have hadvance : ∀ r, Draining count accepted t r ∧ r.pc t = f.advance →
          Comes count accepted t r (.finish f.redo) := by
        rintro r ⟨hr, hat⟩
        unfold Frame.advance at hat
        split_ifs at hat with hend
        · exact Eventually.now ⟨hr, hat⟩
        · have hsmaller : (f.evens >>> 1).toNat < n := by
            have hshift : (f.evens >>> 1).toNat = f.evens.toNat / 2 := by
              rw [BitVec.toNat_ushiftRight, Nat.shiftRight_one]
            have hpos : (f.evens >>> 1).toNat ≠ 0 := fun hzero => hend (BitVec.eq_of_toNat_eq hzero)
            omega
          exact ih _ hsmaller (f := ⟨f.evens >>> 1, f.nr + 1, f.redo⟩) hr hat rfl
      have hskip : runStep count s t = some (s.goto t f.advance) →
          Comes count accepted t s (.finish f.redo) := fun hstep =>
        h.next hstep fun hnext => hadvance _ ⟨hnext, goto_pc_self _ _ _⟩
      by_cases hbit : testBit 0 f.evens = true
      · have hbuilt : softirqAction f.nr ≠ none := by
          obtain ⟨lists, hinv, -⟩ := h.inv
          refine hinv.wake.frames t f f.nr (by rw [hpc]; rfl) ⟨le_rfl, ?_⟩
          rwa [Nat.sub_self]
        cases haction : softirqAction f.nr with
        | none => exact absurd haction hbuilt
        | some action =>
            cases action with
            | assist k =>
                have hstep : runStep count s t = some (s.goto t (.take k f)) := by
                  simp [runStep, hpc, hbit, haction]
                refine h.next hstep fun htake => ?_
                refine htake.next (by rw [runStep, goto_pc_self]) fun hwalk => ?_
                obtain ⟨lists, hinv, -⟩ := htake.inv
                exact (hwalk.walk (goto_pc_self _ _ _) (hinv.list.heads k)).bind hadvance
            | timer => exact hskip (by simp [runStep, hpc, hbit, haction])
            | sched => exact hskip (by simp [runStep, hpc, hbit, haction])
      · exact hskip (by simp [runStep, hpc, hbit])

/-- **The handler comes to its end**: the number of turns is bounded. -/
theorem Draining.finish {redo : ℕ} (h : Draining count accepted t s) (hpc : s.pc t = .finish redo) :
    Comes count accepted t s .out := by
  induction redo generalizing s with
  | zero =>
      have hstep : runStep count s t = some (s.goto t .out) := by simp [runStep, hpc]
      refine h.next hstep fun hout => ?_
      exact Eventually.now ⟨hout, goto_pc_self _ _ _⟩
  | succ redo ih =>
      by_cases hagain : s.evens ≠ 0 ∧ redo + 1 - 1 ≠ 0
      · refine h.next (by rw [runStep, hpc]; exact if_pos hagain) fun hloop => ?_
        refine (hloop.loop (goto_pc_self _ _ _)).bind fun r hr => ?_
        exact ih hr.1 hr.2
      · refine h.next (by rw [runStep, hpc]; exact if_neg hagain) fun hout => ?_
        exact Eventually.now ⟨hout, goto_pc_self _ _ _⟩

/-- **Handling the softirqs**, with nothing else under way, leaves nothing owed. -/
theorem SoftirqInv.handled (h : SoftirqInv count s lists) (hout : ∀ t, s.pc t = .out)
    (henabled : count a = 0) (t : ι) :
    ∃ n s', exec (softirqStep count) s (.handle t :: List.replicate n (.run t)) = some s' ∧
      (∀ u, s'.pc u = .out) ∧ s'.accepted a = s.accepted a ∧ s'.executed a = s.accepted a := by
  have hwake : ∀ k, ∀ x ∈ lists (.head k), testBit k.nr s.evens = true := by
    intro k x hx
    rcases h.wake.wake k (List.ne_nil_of_mem hx) with hbit | ⟨u, hu⟩
    · exact hbit
    · rw [hout u] at hu
      exact hu.elim
  have hstart : softirqStep count s (.handle t) = some (softirqHandleInInterrupt s t) :=
    if_pos (hout t)
  by_cases hnone : s.evens = 0
  · have hempty : ∀ k, ∀ x ∈ lists (.head k), count x ≠ 0 := by
      intro k x hx
      have hbit := hwake k x hx
      rw [hnone] at hbit
      simp [testBit] at hbit
    refine ⟨0, s, ?_, hout, rfl, h.quiet hout hempty henabled⟩
    rw [List.replicate_zero, exec, hstart, softirqHandleInInterrupt, if_pos hnone]
    rfl
  · have hdraining : Draining count s.accepted t
        ({ s with evens := 0 }.goto t (.loop ⟨s.evens, 0, maxIrqRedoCount⟩)) := by
      refine ⟨⟨lists, h.takeEvens _ (by rw [hout t]; rfl) (by rw [hout t]; rfl)
        (by rw [hout t]; rfl)
        (fun k hk => by rw [hout t] at hk; exact hk), fun k x hx _ => ?_⟩, fun u hu => ?_, rfl,
        fun k x => by rw [goto_pc_self]; exact ⟨(fun hx => by cases hx), (fun hx => by cases hx)⟩⟩
      · rw [goto_pc_self]
        exact ⟨Nat.zero_le _, hwake k x hx⟩
      · exact (Function.update_of_ne hu _ _).trans (hout u)
    obtain ⟨n, s', hexec, hend, hat⟩ :=
      (hdraining.loop (goto_pc_self _ _ _)).bind fun r hr => hr.1.finish hr.2
    have hall : ∀ u, s'.pc u = .out := by
      intro u
      by_cases hut : u = t
      · rw [hut, hat]
      · exact hend.alone u hut
    obtain ⟨lists', hinv, hheads⟩ := hend.inv
    have hdone : s'.executed a = s'.accepted a := by
      refine hinv.quiet hall (fun k x hx hzero => ?_) henabled
      have hwill := hheads k x hx hzero
      rw [hat] at hwill
      exact hwill
    refine ⟨n, s', ?_, hall, congrFun hend.same a, hdone.trans (congrFun hend.same a)⟩
    rw [exec, hstart, softirqHandleInInterrupt, if_neg hnone]
    exact hexec

/-! ## The promise -/

omit [DecidableEq ι] [DecidableEq α] in
/-- An assist on a list is pending. -/
theorem SoftirqInv.pending_of_onList (h : SoftirqInv count s lists) (hon : OnList s a) :
    pending s a = true := by
  rcases hon with ⟨k, l, m, hseg, hmem⟩ | ⟨t, l, m, hseg, hmem⟩
  · exact h.list.full.placed.live (.head k) a ((h.list.heads k).mem_of_seg hseg hmem)
  · exact h.list.full.placed.live (.walk t) a ((h.list.walks t).mem_of_seg hseg hmem)

/-- **The invariant gives the promise.** -/
theorem SoftirqInv.ok (h : SoftirqInv count s lists) (henabled : count a = 0) :
    AssistOk count s a := by
  obtain ⟨-, hsum⟩ := h.counts a
  have hlow : testBit Kind.low.nr (s.status a) = false := by
    by_contra hbit
    exact h.ctx.lows a (by simpa using hbit) henabled
  refine ⟨?_, fun hdone => ?_, fun hon => ?_, fun hout t => h.handled hout henabled t⟩
  · unfold pendingNum at hsum
    split_ifs at hsum <;> omega
  · have hclear : pending s a = false := by
      by_contra hpending
      rw [pendingNum, if_pos (by simpa using hpending)] at hsum
      omega
    refine ⟨fun hon => ?_, fun k => ?_⟩
    · rw [h.pending_of_onList hon] at hclear
      cases hclear
    · rw [pending, Bool.or_eq_false_iff] at hclear
      cases k with
      | high => exact hclear.1
      | low => exact hclear.2
  · have hpending := h.pending_of_onList hon
    rwa [pending, hlow, Bool.or_false] at hpending

end Steps

/-- **Deferred work runs once per request**, in every state of every run of calls that can be
relied on. -/
theorem softirq_runs_once {ι α : Type} [DecidableEq ι] [DecidableEq α] (count : α → ℤ)
    (events : List (Event ι α)) (s : SoftirqState ι α)
    (hfine : Along (softirqStep count) (SoftirqFine count) softirqInit events)
    (hrun : exec (softirqStep count) softirqInit events = some s) (a : α) (henabled : count a = 0) :
    AssistOk count s a := by
  obtain ⟨lists, h⟩ := exec_invariant (I := fun s => ∃ lists, SoftirqInv count s lists)
    (fun s e s' ⟨lists, h⟩ hfine hstep => h.step hfine hstep) events softirqInit s
    ⟨_, softirqInv_init count⟩ hfine hrun
  exact h.ok henabled

/-- One assist, with a context that schedules it and one that handles the softirqs. -/
def requests (k : Kind) (n : ℕ) : List (Event ℕ Unit) :=
  [.schedule 0 k (), .run 0, .run 0, .handle 1] ++ List.replicate n (.run 1)

/-- An assist of the high priority is executed once. -/
theorem softirq_runs_once_high :
    ∃ s, exec (softirqStep fun _ => 0) softirqInit (requests .high 8) = some s ∧
      AssistOk (fun _ => 0) s () ∧ s.executed () = 1 := by
  have hsome : ((exec (softirqStep fun _ => 0) softirqInit (requests .high 8)).map fun s =>
      s.executed ()) = some 1 := by decide
  obtain ⟨s, hs, hone⟩ := Option.map_eq_some_iff.1 hsome
  have hfine : Along (softirqStep fun _ => 0) (SoftirqFine fun _ => 0) softirqInit
      (requests .high 8) := by
    simp [requests, Along, SoftirqFine, softirqInit, List.replicate, testBit]
  exact ⟨s, hs, softirq_runs_once _ _ s hfine hs () rfl, hone⟩

/-- An assist of the low priority that was requested once has been executed twice. -/
theorem softirq_not_once :
    ∃ s, exec (softirqStep fun _ => 0) softirqInit (requests .low 24) = some s ∧
      s.accepted () = 1 ∧ s.executed () = 2 ∧ ¬AssistOk (fun _ => 0) s () := by
  have hsome : ((exec (softirqStep fun _ => 0) softirqInit (requests .low 24)).map fun s =>
      (s.accepted (), s.executed ())) = some (1, 2) := by decide
  obtain ⟨s, hs, hcounts⟩ := Option.map_eq_some_iff.1 hsome
  obtain ⟨haccepted, hexecuted⟩ := Prod.mk.inj hcounts
  refine ⟨s, hs, haccepted, hexecuted, fun hok => ?_⟩
  have hlater := hok.later
  omega

end Softirq
end LightOS
