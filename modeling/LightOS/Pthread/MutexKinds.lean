import LightOS.Pthread.Mutex
import LightOS.Pthread.MutexOwner

/-!
# ERRORCHECK and RECURSIVE mutexes: runs

* `Local` — what is known of a thread: the code left of the one that has the spin lock is good, the
  others are where they ask for it, and a return says what it may.
* `KindInv`, `kind_event` — an event keeps this, if the tests find what `GrantedAt` says.
* `kinds_exclude` — what a lock, a trylock and an unlock return, and when the mutex is free.
* `kinds_refuse` — what happens otherwise.
-/

namespace LightOS
namespace Pthread

open Threads

/-- A lock finds the mutex free or its own, a trylock finds it owned, an unlock free or its own,
and the count of a RECURSIVE mutex can be raised. -/
def GrantedAt (s : PState) (t : ℕ) (_ : Input) (op : Op) : Code → Prop
  | .ite c _ _ => GrantedTest t op s.word c
  | .act i _ => GrantedInstr s.word i
  | _ => True

instance (s : PState) (t : ℕ) (input : Input) (op : Op) :
    DecidablePred (GrantedAt s t input op) := by
  have htest : ∀ w c, Decidable (GrantedTest t op w c) := fun w c => by
    unfold GrantedTest; split <;> infer_instance
  have hinstr : ∀ w i, Decidable (GrantedInstr w i) := fun w i => by
    unfold GrantedInstr; split <;> infer_instance
  exact fun code => by unfold GrantedAt; split <;> infer_instance

/-- The thread has the mutex exactly while it owns it. -/
def Owns (s : PState) (t : ℕ) : Prop := 0 < t → (s.depth t ≠ 0 ↔ s.owner = t)

/-- What is known of a thread at `p` that was told `g` times more that it has the mutex than that
it does not. -/
def Local (kind : MutexKind) (s : PState) (t : ℕ) (g : ℤ) : Pc → Prop
  | .out => Owns s t ∧ s.depth t = g
  | .run op code =>
      0 < t ∧ (op = .lock ∨ op = .trylock ∨ op = .unlock) ∧
        (Holds .mutex op code → Good kind t (s.seen t) op code s.word ∧ heldBy t (s.seen t) = g) ∧
        (¬Holds .mutex op code →
          (code = entry kind op ∨ .run op code = bodyOf kind op) ∧ Owns s t ∧ s.depth t = g)
  | .ret op status =>
      0 < t ∧ Owns s t ∧ Outcome kind t (s.seen t) op status s.owner ∧ heldBy t (s.seen t) = g ∧
        s.depth t = g + gained op status
  | _ => False

/-- The fields, and the threads. -/
structure KindInv (kind : MutexKind) (s : PState) (g : ℕ → ℤ) : Prop where
  queue : QueueInv s
  spin : SpinInv s
  checks : s.kind = kind
  ready : s.queue .mutex ≠ -1
  canceled : ∀ t, s.canceled t = false
  settled : s.spin .mutex = 0 → Settled kind s.word
  threads : ∀ t, Local kind s t (g t) (s.pc t)

/-- What an event tells a thread. -/
def gains (t : ℕ) (s : PState) : Event → ℤ
  | .run u _ =>
      if u = t then
        match s.pc t with
        | .ret op status => gained op status
        | _ => 0
      else 0
  | _ => 0

variable {kind : MutexKind} {s s' : PState} {t u : ℕ} {g : ℤ} {op : Op} {code next : Code} {p : Pc}
  {input : Input} {e : Event}

/-- What others do that leave the owner one or another. -/
theorem outcome_congr {v : UInt32 × ℕ × ℤ} {status owner owner' : ℕ}
    (howner : owner' = t ↔ owner = t) :
    Outcome kind t v op status owner' ↔ Outcome kind t v op status owner := by
  cases op <;> simp only [Outcome, howner]

/-- What a thread knows stays true while others leave it alone. -/
theorem Local.congr (h : Local kind s t g p) (hseen : s'.seen t = s.seen t)
    (hdepth : s'.depth t = s.depth t)
    (howner : 0 < t → (s'.owner = t ↔ s.owner = t)) (hword : HoldsPc .mutex p → s'.word = s.word) :
    Local kind s' t g p := by
  have howns : Owns s t → Owns s' t := fun howns ht => by
    rw [hdepth, howner ht]
    exact howns ht
  cases p with
  | out => exact ⟨howns h.1, by rw [hdepth]; exact h.2⟩
  | run op code =>
      obtain ⟨hpos, hop, hin, hout⟩ := h
      refine ⟨hpos, hop, fun hh => ?_, fun hh => ?_⟩
      · rw [hseen, hword hh]
        exact hin hh
      · obtain ⟨hplace, hown, hd⟩ := hout hh
        exact ⟨hplace, howns hown, by rw [hdepth]; exact hd⟩
  | ret op status =>
      obtain ⟨hpos, hown, hout, hheld, hd⟩ := h
      refine ⟨hpos, howns hown, ?_, ?_, ?_⟩
      · rw [hseen]
        exact (outcome_congr (howner hpos)).2 hout
      · rw [hseen]
        exact hheld
      · rw [hdepth]
        exact hd
  | _ => exact h

/-- One instruction leaves the other threads their own. -/
theorem effect_other {i : Instr} {w : Word} (hallowed : i.allowed u w) (htu : t ≠ u) :
    (i.effect u w).depth t = w.depth t ∧ (0 < t → ((i.effect u w).owner = t ↔ w.owner = t)) := by
  cases i with
  | setOwner self =>
      refine ⟨rfl, fun ht => iff_of_false ?_ ?_⟩
      · show ¬(if self then u else 0) = t
        split_ifs
        · exact Ne.symm htu
        · omega
      · intro howner
        rcases hallowed with hzero | hself <;> omega
  | freeLock => exact ⟨Function.update_of_ne htu _ _, fun _ => Iff.rfl⟩
  | incCount => exact ⟨Function.update_of_ne htu _ _, fun _ => Iff.rfl⟩
  | decCount => exact ⟨Function.update_of_ne htu _ _, fun _ => Iff.rfl⟩
  | _ => exact ⟨rfl, fun _ => Iff.rfl⟩

/-- Nobody but the owner has the mutex when the fields are settled. -/
theorem Settled.owns (h : Settled kind s.word) (t : ℕ) : Owns s t := by
  intro ht
  have hdepth := h.depth ht
  constructor
  · intro hne
    by_contra howner
    rw [heldBy, if_neg (show ¬s.word.fields.2.1 = t from howner)] at hdepth
    exact hne (by exact_mod_cast hdepth)
  · intro howner hzero
    have howned := (h.owned ht howner).depth
    have hnonneg := (h.owned ht howner).nonneg
    rw [show s.word.depth t = 0 from hzero] at howned
    omega

/-- The code of a thread that has the spin lock is where it goes on. -/
theorem goOn_of_holds (h : Holds .mutex op code) : goOn kind op code = .run op code := by
  cases code with
  | ret status => exact absurd h.1 (by decide)
  | body => exact absurd h.1 (by decide)
  | _ => rfl

/-! ## Steps -/

namespace KindInv

variable {told : ℕ → ℤ}

/-- The thread that has the spin lock moves. -/
theorem holder (h : KindInv kind s told) (hu : HoldsPc .mutex (s.pc u))
    (hpc : s'.pc = Function.update s.pc u p) (hseen : s'.seen = s.seen)
    (hother : ∀ t, t ≠ u → s'.depth t = s.depth t ∧ (0 < t → (s'.owner = t ↔ s.owner = t)))
    (hp : Local kind s' u (told u) p) (t : ℕ) : Local kind s' t (told t) (s'.pc t) := by
  rw [hpc]
  refine forall_update (P := fun t q => Local kind s' t (told t) q) hp (fun t htu => ?_) t
  refine (h.threads t).congr (by rw [hseen]) (hother t htu).1 (hother t htu).2 fun ht => ?_
  exact absurd ((h.spin.guard .mutex).unique t u ht hu) htu

/-- The thread that has the spin lock goes on in its code. -/
theorem goto {r : PState} (h : KindInv kind s told) (hpc : s.pc u = .run op code)
    (hholds : Holds .mutex op code)
    (hpc' : r.pc = Function.update s.pc u (goOn kind op next)) (hseen : r.seen = s.seen)
    (hother : ∀ t, t ≠ u → r.depth t = s.depth t ∧ (0 < t → (r.owner = t ↔ s.owner = t)))
    (hnext : Holds .mutex op next) (hgood : Good kind u (s.seen u) op next r.word) (t : ℕ) :
    Local kind r t (told t) (r.pc t) := by
  have hlocal := h.threads u
  rw [hpc] at hlocal
  obtain ⟨hpos, hop, hin, -⟩ := hlocal
  rw [goOn_of_holds hnext] at hpc'
  refine h.holder (by rw [hpc]; exact hholds) hpc' hseen hother ⟨hpos, hop, fun _ => ⟨?_, ?_⟩,
    fun hnot => absurd hnext hnot⟩ t
  · rw [hseen]
    exact hgood
  · rw [hseen]
    exact (hin hholds).2

/-- A thread that has no spin lock moves, and leaves the fields alone. -/
theorem outside (h : KindInv kind s told) (hpc : s'.pc = Function.update s.pc u p)
    (hseen : ∀ t, t ≠ u → s'.seen t = s.seen t) (hword : s'.word = s.word)
    (hp : Local kind s' u (told u) p) (t : ℕ) : Local kind s' t (told t) (s'.pc t) := by
  have hdepth : s'.depth = s.depth := congrArg Word.depth hword
  have howner : s'.owner = s.owner := congrArg Word.owner hword
  rw [hpc]
  refine forall_update (P := fun t q => Local kind s' t (told t) q) hp (fun t htu => ?_) t
  exact (h.threads t).congr (hseen t htu) (by rw [hdepth]) (fun _ => by rw [howner]) fun _ => hword

/-- Where a thread is that has made a call and does not have the spin lock. -/
theorem local_bodyOf (hpos : 0 < u) (hop : op = .lock ∨ op = .trylock ∨ op = .unlock)
    (hown : Owns s u) (hdepth : s.depth u = g) : Local kind s u g (bodyOf kind op) := by
  have hnot : ¬HoldsPc .mutex (bodyOf kind op) :=
    fun hh => absurd (holdsPc_bodyOf.1 hh).1 (by decide)
  rcases hop with rfl | rfl | rfl
  · exact ⟨hpos, Or.inl rfl, fun hh => absurd hh hnot, fun _ => ⟨Or.inr rfl, hown, hdepth⟩⟩
  · exact ⟨hpos, Or.inr (Or.inl rfl), fun hh => absurd hh hnot, fun _ => ⟨Or.inr rfl, hown, hdepth⟩⟩
  · exact ⟨hpos, Or.inr (Or.inr rfl), fun hh => absurd hh hnot, fun _ => ⟨Or.inr rfl, hown, hdepth⟩⟩

theorem bodyOf_spinLock (kind : MutexKind) (hop : op = .lock ∨ op = .trylock ∨ op = .unlock) :
    ∃ next, bodyOf kind op = .run op (.spinLock .mutex next) := by
  rcases hop with rfl | rfl | rfl <;> cases kind <;> exact ⟨_, rfl⟩

/-- A step of a thread that has no spin lock. -/
theorem outsideStep (h : KindInv kind s told) (hkind : kind ≠ .normal) (hpc : s.pc u = .run op code)
    (hexchange : ExchangeAt s u input op code) (hnot : ¬Holds .mutex op code) :
    (((s.codeStep u input op code).spin .mutex = 0 →
      Settled kind (s.codeStep u input op code).word) ∧
      ∀ t, Local kind (s.codeStep u input op code) t (told t)
      ((s.codeStep u input op code).pc t)) := by
  have hlocal := h.threads u
  rw [hpc] at hlocal
  obtain ⟨hpos, hop, -, hout⟩ := hlocal
  obtain ⟨hplace, hown, hdepth⟩ := hout hnot
  have hsetUp : code = setUp → (s.codeStep u input op code) = s.goto u op .body := by
    rintro rfl
    have htest : s.test u (.queueUnset .mutex) = false := by simp [PState.test, h.ready]
    simp only [setUp, PState.codeStep, htest, Bool.false_eq_true, if_false]
  by_cases hbegin : code = setUp
  · rw [hsetUp hbegin]
    refine ⟨h.settled, h.outside (u := u) (p := bodyOf kind op) ?_ (fun _ _ => rfl) rfl
      (local_bodyOf hpos hop hown hdepth)⟩
    rw [← h.checks]
    rfl
  · have hbody : .run op code = bodyOf kind op := by
      rcases hplace with rfl | hbody
      · rcases hop with rfl | rfl | rfl
        · exact absurd rfl hbegin
        · rfl
        · exact absurd rfl hbegin
      · exact hbody
    obtain ⟨next, hnext⟩ := bodyOf_spinLock kind hop
    rw [hnext] at hbody
    cases hbody
    simp only [PState.codeStep, memXchg32_one hexchange]
    split_ifs with htaken
    · -- another thread has it
      refine ⟨fun hfree => ?_, h.outside (u := u)
        (p := s.pc u) ?_ (fun _ _ => rfl) rfl (h.threads u)⟩
      · exact absurd hfree (by simp)
      · exact (Function.update_eq_self u s.pc).symm
    · have hsettled := h.settled ((h.spin.word .mutex).resolve_right htaken)
      obtain ⟨next', hnext', hgood⟩ := good_bodyOf hkind hop hsettled hpos
      rw [hnext] at hnext'
      cases hnext'
      have hsound := h.queue.sound u
      rw [hpc] at hsound
      obtain ⟨-, hholds, -⟩ := hsound
      have hseen : ∀ v, Function.update s.seen u v u = v := fun v => Function.update_self ..
      refine ⟨fun hfree => absurd hfree (by simp), h.outside (u := u) (p := .run op next) ?_
        (fun t htu => Function.update_of_ne htu _ _) rfl
        ⟨hpos, hop, fun _ => ⟨?_, ?_⟩, fun hh => absurd hholds hh⟩⟩
      · rw [goto_pc, goOn_of_holds hholds]
        rfl
      · show Good kind u (Function.update s.seen u s.word.fields u) op next s.word
        rw [hseen]
        exact hgood
      · show heldBy u (Function.update s.seen u s.word.fields u) = told u
        rw [hseen, ← hsettled.depth hpos]
        exact hdepth

/-- A test of the thread that has the spin lock. -/
theorem testStep (h : KindInv kind s told) {c : Test} {yes no : Code}
    (hpc : s.pc u = .run op (.ite c yes no)) (hgranted : GrantedTest u op s.word c)
    (hholds : Holds .mutex op (.ite c yes no))
    (hgood : Good kind u (s.seen u) op (.ite c yes no) s.word)
    (t : ℕ) : Local kind (s.codeStep u input op (.ite c yes no)) t (told t)
      ((s.codeStep u input op (.ite c yes no)).pc t) := by
  have hsound := h.queue.sound u
  rw [hpc] at hsound
  obtain ⟨-, -, -, hno⟩ := hsound
  obtain ⟨hword, hbranch⟩ := hgood
  obtain ⟨hyes, hnot⟩ := hbranch hgranted
  have hfound : s.test u c = true ↔ c.found u s.word := by
    cases c <;> first | exact hword.elim | exact decide_eq_true_iff
  have hnote : s.noteTest u c = s := by
    cases c <;> first | exact hword.elim | rfl
  have hsame : ∀ t, t ≠ u → s.depth t = s.depth t ∧ (0 < t → (s.owner = t ↔ s.owner = t)) :=
    fun _ _ => ⟨rfl, fun _ => Iff.rfl⟩
  simp only [PState.codeStep]
  split_ifs with htest
  · have hyes' : Holds .mutex op yes := hholds
    rw [hnote]
    refine h.goto (r := s.goto u op yes) hpc hholds ?_ rfl hsame hyes' (hyes (hfound.1 htest)) t
    rw [goto_pc, h.checks]
  · have hno' : Holds .mutex op no := by
      rcases hno with ⟨-, rfl, rfl⟩ | ⟨-, hiff, -⟩
      · exact absurd (hfound.2 (hgranted.2 rfl)) htest
      · exact (hiff .mutex).2 hholds
    refine h.goto (r := s.goto u op no) hpc hholds ?_ rfl hsame hno'
      (hnot fun hf => htest (hfound.2 hf)) t
    rw [goto_pc, h.checks]

/-- What an instruction does that a thread with the spin lock makes, but for the last. -/
theorem instrStep_frame (h : KindInv kind s told) {i : Instr} (hpc : s.pc u = .run op (.act i next))
    (hallowed : i.allowed u s.word) :
    (s.instrStep u input op next i).word = i.effect u s.word ∧
      (s.instrStep u input op next i).seen = s.seen ∧
      (s.instrStep u input op next i).pc = Function.update s.pc u (goOn kind op next) ∧
      (s.instrStep u input op next i).spin = s.spin := by
  cases i with
  | wake o all =>
      obtain rfl : o = .mutex := hallowed
      -- nobody sleeps
      have hnone : ∀ t, t ∉ toWake all (s.waiters .mutex) := fun t ht => by
        have hasleep := (h.queue.sleeps t .mutex).2 (mem_toWake_or_toLeave.2 (Or.inl ht))
        have hlocal := h.threads t
        cases hp : s.pc t <;> rw [hp] at hasleep hlocal <;> first | exact hasleep | exact hlocal
      obtain ⟨i, -, hwake⟩ := h.queue.wake_eq (t := u) (o := .mutex) all (by rw [hpc]; rfl)
      refine ⟨?_, ?_, funext fun t => ?_, ?_⟩
      · show ((s.mutexQueueWake u all).goto u op next).word = s.word
        rw [hwake]
        rfl
      · show ((s.mutexQueueWake u all).goto u op next).seen = s.seen
        rw [hwake]
        rfl
      · refine (h.queue.wake_goto_pc hpc t).trans ?_
        rw [if_neg (hnone t), h.checks]
        by_cases htu : t = u
        · rw [htu, Function.update_self, if_pos rfl]
        · rw [Function.update_of_ne htu, if_neg htu]
      · show ((s.mutexQueueWake u all).goto u op next).spin = s.spin
        rw [hwake]
        rfl
  | arg o => exact ⟨rfl, rfl, by rw [← h.checks]; rfl, rfl⟩
  | freeLock => exact ⟨rfl, rfl, by rw [← h.checks]; rfl, rfl⟩
  | takeLock => exact ⟨rfl, rfl, by rw [← h.checks]; rfl, rfl⟩
  | setOwner self => exact ⟨rfl, rfl, by rw [← h.checks]; rfl, rfl⟩
  | incCount => exact ⟨rfl, rfl, by rw [← h.checks]; rfl, rfl⟩
  | decCount => exact ⟨rfl, rfl, by rw [← h.checks]; rfl, rfl⟩
  | _ => exact hallowed.elim

/-- A step of the thread that has the spin lock. -/
theorem holderStep (h : KindInv kind s told) (hpc : s.pc u = .run op code)
    (hexchange : ExchangeAt s u input op code) (hgranted : GrantedAt s u input op code)
    (hholds : Holds .mutex op code) :
    (((s.codeStep u input op code).spin .mutex = 0 →
      Settled kind (s.codeStep u input op code).word) ∧
      ∀ t, Local kind (s.codeStep u input op code) t (told t)
      ((s.codeStep u input op code).pc t)) := by
  have hlocal := h.threads u
  have hsound := h.queue.sound u
  rw [hpc] at hlocal hsound
  obtain ⟨hpos, hop, hin, -⟩ := hlocal
  obtain ⟨hgood, hheld⟩ := hin hholds
  have htaken : s.spin .mutex = 1 := h.spin.word_eq (t := u) (by rw [hpc]; exact hholds)
  have hkept : ∀ r : PState, r.spin = s.spin → r.spin .mutex = 0 → Settled kind r.word := by
    intro r hspin hfree
    rw [hspin, htaken] at hfree
    exact absurd hfree (by decide)
  cases code with
  | ret status => exact hgood.elim
  | body => exact hgood.elim
  | spinLock o next => exact hgood.elim
  | xchgLock busy free =>
      obtain ⟨hlock, hfree⟩ := hgood
      obtain ⟨-, -, hside, -, -⟩ := hsound
      have hne : ¬s.lock = 0 := by
        rw [show s.lock = 1 from hlock]
        decide
      simp only [PState.codeStep, if_neg hne, memXchg32_zero hexchange]
      refine ⟨hkept _ rfl, ?_⟩
      refine h.goto hpc hholds (by rw [goto_pc, h.checks]) rfl (fun t htu => ?_)
        ((hside .mutex).2 hholds)
        hfree
      exact ⟨Function.update_of_ne htu _ _, fun _ => Iff.rfl⟩
  | ite c yes no =>
      refine ⟨hkept _ ?_, h.testStep hpc hgranted hholds hgood⟩
      simp only [PState.codeStep]
      split_ifs <;> simp
  | act i next =>
      by_cases hlast : ∃ o, i = .spinUnlock o
      · obtain ⟨o, rfl⟩ := hlast
        obtain ⟨rfl, hsettled, status, rfl, hout, hdepth, -⟩ := hgood
        have hret : Pthread.goOn s.kind op (.ret status) = .ret op status := by
          rcases hop with rfl | rfl | rfl <;> rfl
        refine ⟨fun _ => hsettled, h.holder (u := u) (p := .ret op status)
          (by rw [hpc]; exact hholds) ?_ rfl
          (fun _ _ => ⟨rfl, fun _ => Iff.rfl⟩) ⟨hpos, hsettled.owns u, hout, hheld, ?_⟩⟩
        · rw [← hret]
          rfl
        · rw [← hheld]
          exact hdepth
      · have hgood' : i.allowed u s.word ∧
            (GrantedInstr s.word i → Good kind u (s.seen u) op next (i.effect u s.word)) := by
          cases i <;> first | exact absurd ⟨_, rfl⟩ hlast | exact hgood
        obtain ⟨hword, hseen, hpc', hspin⟩ := h.instrStep_frame hpc hgood'.1
        have hnext : Holds .mutex op next := by
          cases i <;> first
            | exact absurd ⟨_, rfl⟩ hlast
            | exact hgood'.1.elim
            | exact hholds
        refine ⟨hkept _ hspin, h.goto hpc hholds hpc' hseen (fun t htu => ?_) hnext ?_⟩
        · have hother := effect_other hgood'.1 htu
          rw [← hword] at hother
          exact hother
        · show Good kind u (s.seen u) op next (s.instrStep u input op next i).word
          rw [hword]
          exact hgood'.2 hgranted

end KindInv

/-- The tests of a mutex that checks its owner find what they are to. -/
theorem trylockAt (hgranted : AtRun GrantedAt s e) : AtRun TrylockAt s e := by
  cases e with
  | run t input =>
      simp only [AtRun] at hgranted ⊢
      split at hgranted
      · unfold TrylockAt
        split
        · exact fun _ => hgranted.2
        · trivial
      · trivial
  | _ => trivial

/-- **An event keeps the fields in order.** -/
theorem kind_event {told : ℕ → ℤ} (h : KindInv kind s told) (hkind : kind ≠ .normal)
    (hcall : MutexCall e)
    (hgranted : AtRun GrantedAt s e) (hexchange : AtRun ExchangeAt s e)
    (hstep : pthreadStep s e = some s') : KindInv kind s' fun t => told t + gains t s e := by
  have htry := trylockAt hgranted
  have hlive := uncanceledAt h.canceled e
  obtain ⟨hchecks, -, hcanceled, hready⟩ := event_frame hstep
  have hcancel : ∀ t, e ≠ .cancel t := fun t ht => by
    rw [ht] at hcall
    exact hcall
  suffices hrest : (s'.spin .mutex = 0 → Settled kind s'.word) ∧
      ∀ t, Local kind s' t (told t + gains t s e) (s'.pc t) from
    ⟨queue_event h.queue htry (ready_conditions h.queue h.ready e) hstep,
      spin_event h.spin h.queue hexchange hlive htry hstep, by rw [hchecks, h.checks],
      hready h.queue h.ready, fun t => by rw [hcanceled hcancel, h.canceled], hrest.1, hrest.2⟩
  obtain ⟨s₁, hevent, rfl⟩ := Option.map_eq_some_iff.1 hstep
  cases e with
  | call u op =>
      simp only [PState.event] at hevent
      split_ifs at hevent with hout
      cases hevent
      have hlocal := h.threads u
      rw [hout.1] at hlocal
      have hnot : ¬Holds .mutex op (entry s.kind op) := by
        rcases hcall with rfl | rfl | rfl <;> cases s.kind <;>
          simp [entry, setUp, trylockBody, Holds]
      have hzero : ∀ t, told t + gains t s (.call u op) = told t := fun t => Int.add_zero _
      simp only [hzero]
      refine ⟨h.settled, h.outside (u := u) (p := .run op (entry s.kind op)) rfl (fun _ _ => rfl)
        rfl
        ⟨hout.2.1, hcall, fun hh => absurd hh hnot, fun _ => ⟨Or.inl (by rw [h.checks]), hlocal⟩⟩⟩
  | run u input =>
      simp only [PState.event] at hevent
      split at hevent
      · rename_i op code hpc
        cases hevent
        simp only [AtRun, hpc] at hgranted hexchange
        have hzero : ∀ t, told t + gains t s (.run u input) = told t := fun t => by
          by_cases hut : u = t
          · subst hut
            simp only [gains, hpc, if_true, Int.add_zero]
          · simp only [gains, if_neg hut, Int.add_zero]
        simp only [hzero]
        by_cases hholds : Holds .mutex op code
        · exact h.holderStep hpc hexchange hgranted hholds
        · exact h.outsideStep hkind hpc hexchange hholds
      · rename_i op status hpc
        cases hevent
        refine ⟨h.settled, fun t => ?_⟩
        have hlocal := h.threads t
        by_cases htu : t = u
        · subst htu
          rw [hpc] at hlocal
          obtain ⟨-, hown, -, -, hdepth⟩ := hlocal
          simp only [gains, hpc, if_true, Function.update_self]
          exact ⟨hown, hdepth⟩
        · simp only [gains, if_neg (Ne.symm htu), Int.add_zero, Function.update_of_ne htu]
          exact hlocal.congr rfl rfl (fun _ => Iff.rfl) fun _ => rfl
      · cases hevent
  | _ => exact hcall.elim

/-- What `pthread_mutex_init` leaves. -/
theorem Initialised.kindInv (h : Initialised kind s) : KindInv kind s fun _ => 0 := by
  refine ⟨h.queue, h.spin, h.kind, h.ready, h.canceled,
    fun _ => Or.inl ⟨h.lock, h.owner, h.count, h.depth⟩, fun t => ?_⟩
  have hsettled : Settled kind s.word := Or.inl ⟨h.lock, h.owner, h.count, h.depth⟩
  rw [h.out]
  exact ⟨hsettled.owns t, by rw [h.depth]; rfl⟩

/-! ## Runs -/

/-- What a mutex promises that checks its owner.  A lock returns 0 to the owner, and fails only for
the owner of an ERRORCHECK mutex; a trylock returns 0 exactly if the thread has become the owner,
or it was and the mutex is RECURSIVE; an unlock returns 0 to the thread that owned the mutex, and
`EPERM` to others with the fields as it found them.  No thread sleeps, and one that has the spin
lock can go on.  A thread that does not have the spin lock has the mutex exactly if it owns it; and
while nobody has the spin lock the word says whether there is an owner, who has it once more than
`count`. -/
structure KindOk (s : PState) : Prop where
  lock : ∀ t status, s.pc t = .ret .lock status →
    s.owner = t ∧ (status = 0 ∨ status = edeadlk ∧ s.kind = .errorcheck ∧ (s.seen t).2.1 = t)
  trylock : ∀ t status, s.pc t = .ret .trylock status →
    (status = 0 ↔ s.owner = t ∧ (s.kind = .recursive ∨ (s.seen t).2.1 ≠ t))
  unlock : ∀ t status, s.pc t = .ret .unlock status →
    status = 0 ∧ (s.seen t).2.1 = t ∨ status = eperm ∧ (s.seen t).2.1 ≠ t
  refused : ∀ t, s.pc t = .run .unlock (leave eperm) → (s.lock, s.owner, s.count) = s.seen t
  awake : ∀ t o, ¬AsleepOn o (s.pc t)
  goesOn : s.spin .mutex = 1 → ∃ t op code, s.pc t = .run op code ∧ Holds .mutex op code ∧
    ∀ o next, code ≠ .spinLock o next
  owner : ∀ t, 0 < t → ¬HoldsPc .mutex (s.pc t) → (s.depth t ≠ 0 ↔ s.owner = t)
  settled : s.spin .mutex = 0 → Settled s.kind s.word

theorem KindInv.kindOk {told : ℕ → ℤ} (h : KindInv kind s told) : KindOk s := by
  refine ⟨fun t status hp => ?_, fun t status hp => ?_, fun t status hp => ?_, fun t hp => ?_,
    fun t o ha => ?_, fun htaken => ?_, fun t hpos hnot => ?_, by rw [h.checks]; exact h.settled⟩
  · have hlocal := h.threads t
    rw [hp] at hlocal
    obtain ⟨-, -, hout, -⟩ := hlocal
    rw [h.checks]
    exact hout
  · have hlocal := h.threads t
    rw [hp] at hlocal
    obtain ⟨-, -, hout, -⟩ := hlocal
    rw [h.checks]
    exact hout
  · have hlocal := h.threads t
    rw [hp] at hlocal
    obtain ⟨-, -, hout, -⟩ := hlocal
    exact hout
  · have hlocal := h.threads t
    rw [hp] at hlocal
    obtain ⟨-, -, hin, -⟩ := hlocal
    obtain ⟨⟨-, -, status, hstatus, -, -, hkept⟩, -⟩ := hin (Or.inl rfl)
    cases hstatus
    exact hkept rfl (by decide)
  · have hlocal := h.threads t
    cases hp : s.pc t <;> rw [hp] at ha hlocal <;> first | exact ha | exact hlocal
  · obtain ⟨t, ht⟩ := (h.spin.guard .mutex).held.1 htaken
    have hlocal := h.threads t
    cases hp : s.pc t with
    | run op code =>
        rw [hp] at ht hlocal
        obtain ⟨-, -, hin, -⟩ := hlocal
        refine ⟨t, op, code, hp, ht, ?_⟩
        rintro o next rfl
        exact (hin ht).1
    | _ => rw [hp] at ht; exact ht.elim
  · have hlocal := h.threads t
    cases hp : s.pc t with
    | out =>
        rw [hp] at hlocal
        exact hlocal.1 hpos
    | run op code =>
        rw [hp] at hnot hlocal
        exact (hlocal.2.2.2 hnot).2.1 hpos
    | ret op status =>
        rw [hp] at hlocal
        exact hlocal.2.1 hpos
    | _ => rw [hp] at hlocal; exact hlocal.elim

/-- **The other kinds exclude too**, in every run of calls in which a lock finds the mutex free or
its own, a trylock finds it owned, an unlock free or its own, the count is not at its limit, and an
exchange finds the upper half of its register clear.  And whenever a thread is in no call it has
the mutex as often as it was told that it has locked it, less the times it was told that it has
unlocked it. -/
theorem kinds_exclude (kind : MutexKind) (hkind : kind ≠ .normal) (others : List ℕ) (s₀ s : PState)
    (events : List Event) (hinit : pthreadMutexInit initializer kind others = (s₀, 0))
    (hcalls : ∀ e ∈ events, MutexCall e)
    (hgranted : Run.Along pthreadStep (AtRun GrantedAt) s₀ events)
    (hexchange : Run.Along pthreadStep (AtRun ExchangeAt) s₀ events)
    (hrun : Run.exec pthreadStep s₀ events = some s) :
    KindOk s ∧ ∀ t, s.pc t = .out → (s.depth t : ℤ) = Run.sum pthreadStep (gains t) s₀ events := by
  have halong := Run.along_and events s₀ (Run.along_of_mem events s₀ hcalls)
    (Run.along_and events s₀ hgranted hexchange)
  have h := Run.exec_sum (I := KindInv kind) (f := gains) (fun s told e s' h hgood hstep =>
    kind_event h hkind hgood.1 hgood.2.1 hgood.2.2 hstep) events s₀ (fun _ => 0) s
    (pthreadMutexInit_spec hinit).1.kindInv halong hrun
  refine ⟨h.kindOk, fun t ht => ?_⟩
  have hlocal := h.threads t
  rw [ht, Int.zero_add] at hlocal
  exact hlocal.2

/-- A thread locks a RECURSIVE mutex twice and unlocks it twice. -/
def twice : List Event :=
  .call 1 .lock :: List.replicate 9 (stepOf 0 1) ++
    .call 1 .trylock :: List.replicate 6 (stepOf 0 1) ++
    .call 1 .unlock :: List.replicate 9 (stepOf 0 1) ++
      .call 1 .unlock :: List.replicate 12 (stepOf 0 1)

/-- Then it is free. -/
theorem kinds_exclude_twice : ∃ s₀ s, pthreadMutexInit initializer .recursive [] = (s₀, 0) ∧
    Run.exec pthreadStep s₀ twice = some s ∧ s.pc 1 = .out ∧ s.lock = 1 ∧ KindOk s ∧
      (s.depth 1 : ℤ) = Run.sum pthreadStep (gains 1) s₀ twice := by
  have hsome : ((Run.exec pthreadStep (pthreadMutexInit initializer .recursive []).1 twice).map
    fun s =>
      (s.pc 1, s.lock)) = some (.out, 1) := by decide
  obtain ⟨s, hrun, hfacts⟩ := Option.map_eq_some_iff.1 hsome
  simp only [Prod.mk.injEq] at hfacts
  obtain ⟨hok, hsum⟩ := kinds_exclude .recursive (by decide) [] _ s twice rfl (by decide)
    (by decide) (by decide) hrun
  exact ⟨_, s, rfl, hrun, hfacts.1, hfacts.2, hok, hsum 1 hfacts.1⟩

/-- **A trylock of a free mutex hangs**: it asks for the spin lock that it has.  **A lock fails
while another thread has the mutex**, and **an unlock frees the mutex of another thread**. -/
theorem kinds_refuse : ∃ s₀, pthreadMutexInit initializer .errorcheck [] = (s₀, 0) ∧
    (∃ s, Run.exec pthreadStep s₀ (.call 1 .trylock :: List.replicate 2 (stepOf 0 1)) = some s ∧
      (∃ next, s.pc 1 = .run .trylock (.spinLock .mutex next)) ∧ s.spin .mutex = 1 ∧
        (∀ t, t ≠ 1 → s.pc t = .out) ∧ ¬KindOk s) ∧
    (∃ s, Run.exec pthreadStep s₀ (.call 1 .lock :: List.replicate 8 (stepOf 0 1) ++
      .call 2 .lock :: List.replicate 5 (stepOf 0 2)) = some s ∧
        s.pc 2 = .ret .lock eperm ∧ s.owner = 1 ∧ ¬KindOk s) ∧
    ∃ s, Run.exec pthreadStep s₀ (.call 1 .lock :: List.replicate 8 (stepOf 0 1) ++
      .call 2 .unlock :: List.replicate 8 (stepOf 0 2)) = some s ∧
        s.pc 2 = .ret .unlock 0 ∧ (s.seen 2).2.1 = 1 ∧ s.owner = 0 ∧ ¬KindOk s := by
  refine ⟨_, rfl, ?_, ?_, ?_⟩
  · have hsome : ((Run.exec pthreadStep (pthreadMutexInit initializer .errorcheck []).1
        (.call 1 .trylock :: List.replicate 2 (stepOf 0 1))).map fun s => (s.pc 1, s.spin .mutex)) =
        some (.run .trylock (.spinLock .mutex
          (.xchgLock (leave ebusy) (.act (.setOwner true) (.act .takeLock (leave 0))))),
            1) := by decide
    obtain ⟨s, hrun, hfacts⟩ := Option.map_eq_some_iff.1 hsome
    simp only [Prod.mk.injEq] at hfacts
    obtain ⟨hpc, hspin⟩ := hfacts
    have hother : ∀ t, t ≠ 1 → s.pc t = .out := fun t ht => by
      refine out_of_run _ (fun e he => ?_) rfl hrun
      have hself : ∀ e ∈ (.call 1 .trylock :: List.replicate 2 (stepOf 0 1)), Event.thread e =
          1 := by
        decide
      rw [hself e he]
      exact ht.symm
    refine ⟨s, hrun, ⟨_, hpc⟩, hspin, hother, fun hok => ?_⟩
    obtain ⟨t, op, code, hp, -, hnot⟩ := hok.goesOn hspin
    by_cases ht : t = 1
    · rw [ht, hpc] at hp
      cases hp
      exact hnot _ _ rfl
    · rw [hother t ht] at hp
      cases hp
  · have hsome : ((Run.exec pthreadStep (pthreadMutexInit initializer .errorcheck []).1
        (.call 1 .lock :: List.replicate 8 (stepOf 0 1) ++
          .call 2 .lock :: List.replicate 5 (stepOf 0 2))).map fun s => (s.pc 2, s.owner)) =
        some (.ret .lock eperm, 1) := by decide
    obtain ⟨s, hrun, hfacts⟩ := Option.map_eq_some_iff.1 hsome
    simp only [Prod.mk.injEq] at hfacts
    refine ⟨s, hrun, hfacts.1, hfacts.2, fun hok => ?_⟩
    have howner := (hok.lock 2 eperm hfacts.1).1
    rw [hfacts.2] at howner
    exact absurd howner (by decide)
  · have hsome : ((Run.exec pthreadStep (pthreadMutexInit initializer .errorcheck []).1
        (.call 1 .lock :: List.replicate 8 (stepOf 0 1) ++
          .call 2 .unlock :: List.replicate 8 (stepOf 0 2))).map fun s =>
        (s.pc 2, (s.seen 2).2.1, s.owner)) = some (.ret .unlock 0, 1, 0) := by decide
    obtain ⟨s, hrun, hfacts⟩ := Option.map_eq_some_iff.1 hsome
    simp only [Prod.mk.injEq] at hfacts
    obtain ⟨hret, hseen, howner⟩ := hfacts
    refine ⟨s, hrun, hret, hseen, howner, fun hok => ?_⟩
    rcases hok.unlock 2 0 hret with ⟨-, hself⟩ | ⟨hstatus, -⟩
    · rw [hseen] at hself
      exact absurd hself (by decide)
    · exact absurd hstatus (by decide)

end Pthread
end LightOS
