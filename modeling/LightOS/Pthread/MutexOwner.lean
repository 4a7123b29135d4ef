import LightOS.Pthread.MutexQueue

/-!
# The owner of a mutex that checks it

While a thread has the spin lock of the mutex nobody else writes the fields, so the code it has
left can be judged like that of a program that runs alone.

* `Word`, `Settled` — the fields, and how they are while nobody has the spin lock.
* `Outcome` — what a call may return.
* `Good` — the code left ends with the fields settled and such a return, if its tests find what
  `Granted` says.
* `good_bodyOf` — the code of the library is good for the kinds that check their owner.
-/

namespace LightOS
namespace Pthread

/-- The fields of the mutex, and how often each thread has it. -/
structure Word where
  lock : UInt32
  owner : ℕ
  count : ℤ
  depth : ℕ → ℕ

/-- The fields in a state. -/
def PState.word (s : PState) : Word := ⟨s.lock, s.owner, s.count, s.depth⟩

/-- The fields without the thread's own count. -/
def Word.fields (w : Word) : UInt32 × ℕ × ℤ := (w.lock, w.owner, w.count)

/-- `INT_MAX`. -/
abbrev intMax : ℤ := 2147483647

/-- Nobody has the mutex. -/
structure Word.Free (w : Word) : Prop where
  lock : w.lock = 1
  owner : w.owner = 0
  count : w.count = 0
  depth : ∀ u, w.depth u = 0

/-- The thread `t` has it, once more than `count` says. -/
structure Word.OwnedBy (w : Word) (kind : MutexKind) (t : ℕ) : Prop where
  lock : w.lock = 0
  owner : w.owner = t
  nonneg : 0 ≤ w.count
  le : w.count ≤ intMax
  checked : kind = .errorcheck → w.count = 0
  depth : (w.depth t : ℤ) = w.count + 1
  rest : ∀ u, u ≠ t → w.depth u = 0

/-- The fields while nobody has the spin lock. -/
def Settled (kind : MutexKind) (w : Word) : Prop := w.Free ∨ ∃ t, 0 < t ∧ w.OwnedBy kind t

/-- How often a thread has the mutex, as the fields say. -/
def heldBy (t : ℕ) (v : UInt32 × ℕ × ℤ) : ℤ := if v.2.1 = t then v.2.2 + 1 else 0

/-- What a return says of the mutex: the thread has it once more, or once less. -/
def gained : Op → ℕ → ℤ
  | .lock, 0 | .trylock, 0 => 1
  | .unlock, 0 => -1
  | _, _ => 0

/-- What a call may return that found the fields as `v` says and leaves `owner` as it is: a lock
fails only for its owner, and only if the mutex is ERRORCHECK; a trylock returns 0 if the thread
becomes the owner or was it, and the mutex is RECURSIVE; an unlock returns 0 to the owner. -/
def Outcome (kind : MutexKind) (t : ℕ) (v : UInt32 × ℕ × ℤ) (op : Op) (status owner : ℕ) : Prop :=
  match op with
  | .lock => owner = t ∧ (status = 0 ∨ status = edeadlk ∧ kind = .errorcheck ∧ v.2.1 = t)
  | .trylock => status = 0 ↔ owner = t ∧ (kind = .recursive ∨ v.2.1 ≠ t)
  | .unlock => status = 0 ∧ v.2.1 = t ∨ status = eperm ∧ v.2.1 ≠ t
  | _ => False

/-! ## Code -/

/-- What a test finds in the fields. -/
def Test.found (t : ℕ) : Test → Word → Prop
  | .ownerSet, w => 0 < w.owner
  | .ownerSelf, w => w.owner = t
  | .countPos, w => 0 < w.count
  | .unlocked, w => w.lock = 1
  | _, _ => False

/-- The tests that are about the fields. -/
def Test.onWord : Test → Prop
  | .queueUnset _ | .queueBad => False
  | _ => True

/-- What an instruction does to the fields. -/
def Instr.effect (t : ℕ) : Instr → Word → Word
  | .freeLock, w => { w with lock := 1, depth := Function.update w.depth t (w.depth t - 1) }
  | .takeLock, w => { w with lock := 0 }
  | .setOwner self, w => { w with owner := if self then t else 0 }
  | .incCount, w =>
      { w with count := wrapInt (w.count + 1), depth := Function.update w.depth t (w.depth t + 1) }
  | .decCount, w =>
      { w with count := wrapInt (w.count - 1), depth := Function.update w.depth t (w.depth t - 1) }
  | _, w => w

/-- The fields when the thread has taken the lock. -/
def Word.taken (t : ℕ) (w : Word) : Word :=
  { w with lock := 0, depth := Function.update w.depth t (w.depth t + 1) }

/-- The instructions of a call that does not sleep; the owner is replaced by a thread itself. -/
def Instr.allowed (t : ℕ) : Instr → Word → Prop
  | .setOwner _, w => w.owner = 0 ∨ w.owner = t
  | .freeLock, _ | .takeLock, _ | .incCount, _ | .decCount, _ => True
  | .arg o, _ | .wake o _, _ => o = .mutex
  | _, _ => False

/-- A lock finds the mutex free or its own, a trylock finds it owned, and an unlock free or its
own. -/
def GrantedTest (t : ℕ) (op : Op) (w : Word) : Test → Prop
  | .ownerSet => (op = .lock → w.owner = 0 ∨ w.owner = t) ∧ (op = .trylock → 0 < w.owner)
  | .unlocked => op = .unlock → w.lock = 1 ∨ w.owner = t
  | _ => True

/-- The count can be raised. -/
def GrantedInstr (w : Word) : Instr → Prop
  | .incCount => w.count < intMax
  | _ => True

/-- The code left of a thread that has the spin lock gives it up with the fields settled and a
return it may make, and the fields as it found them if an unlock fails. -/
def Good (kind : MutexKind) (t : ℕ) (v : UInt32 × ℕ × ℤ) (op : Op) : Code → Word → Prop
  | .ite c yes no, w =>
      c.onWord ∧ (GrantedTest t op w c →
        (c.found t w → Good kind t v op yes w) ∧ (¬c.found t w → Good kind t v op no w))
  | .xchgLock _ free, w => w.lock = 1 ∧ Good kind t v op free (w.taken t)
  | .act (.spinUnlock o) next, w =>
      o = .mutex ∧ Settled kind w ∧ ∃ status, next = .ret status ∧
        Outcome kind t v op status w.owner ∧
        (w.depth t : ℤ) = heldBy t v + gained op status ∧ (op = .unlock → status ≠ 0 → w.fields = v)
  | .act i next, w => i.allowed t w ∧ (GrantedInstr w i → Good kind t v op next (i.effect t w))
  | _, _ => False

variable {kind : MutexKind} {t : ℕ} {op : Op} {w : Word} {v : UInt32 × ℕ × ℤ} {status : ℕ}

/-- The last two steps of a call. -/
theorem good_leave (hsettled : Settled kind w) (houtcome : Outcome kind t v op status w.owner)
    (hdepth : (w.depth t : ℤ) = heldBy t v + gained op status)
    (hkept : op = .unlock → status ≠ 0 → w.fields = v) : Good kind t v op (leave status) w :=
  ⟨rfl, hsettled, status, rfl, houtcome, hdepth, hkept⟩

/-- How often the thread has the mutex, when the fields are settled. -/
theorem Settled.depth (h : Settled kind w) (ht : 0 < t) : (w.depth t : ℤ) = heldBy t w.fields := by
  rcases h with hfree | ⟨u, -, howned⟩
  · have hne : w.owner ≠ t := by
      rw [hfree.owner]
      omega
    rw [heldBy, Word.fields, if_neg hne, hfree.depth]
    rfl
  · by_cases hut : u = t
    · subst hut
      rw [heldBy, Word.fields, if_pos howned.owner]
      exact howned.depth
    · have hne : w.owner ≠ t := by
        rw [howned.owner]
        exact hut
      rw [heldBy, Word.fields, if_neg hne, howned.rest t (Ne.symm hut)]
      rfl

/-- Whoever owns the mutex has it. -/
theorem Settled.owned (h : Settled kind w) (ht : 0 < t) (howner : w.owner = t) :
    w.OwnedBy kind t := by
  rcases h with hfree | ⟨u, -, howned⟩
  · rw [hfree.owner] at howner
    omega
  · rw [howned.owner] at howner
    rw [← howner]
    exact howned

/-- A mutex without an owner is free. -/
theorem Settled.free (h : Settled kind w) (howner : w.owner = 0) : w.Free := by
  rcases h with hfree | ⟨u, hu, howned⟩
  · exact hfree
  · rw [howned.owner] at howner
    omega

/-- A mutex whose word is 1 is free. -/
theorem Settled.free_of_lock (h : Settled kind w) (hlock : w.lock = 1) : w.Free := by
  rcases h with hfree | ⟨u, hu, howned⟩
  · exact hfree
  · rw [howned.lock] at hlock
    exact absurd hlock (by decide)

/-- Nobody had the mutex. -/
theorem Word.Free.heldBy (h : w.Free) (ht : 0 < t) : heldBy t w.fields = 0 := by
  have hsettled : Settled .normal w := Or.inl h
  rw [← hsettled.depth ht, h.depth]
  rfl

/-- The thread had it. -/
theorem Word.OwnedBy.heldBy (h : w.OwnedBy kind t) : heldBy t w.fields = w.count + 1 := by
  rw [LightOS.Pthread.heldBy, Word.fields, if_pos h.owner]

/-- A thread takes a free mutex. -/
theorem good_take (h : w.Free) (ht : 0 < t) : Good kind t w.fields .lock take w := by
  have hdepth : ((w.taken t).depth t : ℤ) = 1 := by
    simp only [Word.taken, Function.update_self, h.depth]
    rfl
  refine ⟨h.lock, trivial, fun _ => ⟨Or.inl h.owner, fun _ => good_leave (Or.inr ⟨t, ht, ?_⟩)
    ⟨rfl, Or.inl rfl⟩ ?_ fun hop => by cases hop⟩⟩
  · refine ⟨rfl, rfl, h.count.ge, h.count.le.trans (by decide), fun _ => h.count, ?_,
      fun u hut => ?_⟩
    · refine hdepth.trans ?_
      show (1 : ℤ) = w.count + 1
      rw [h.count]
      rfl
    · exact (Function.update_of_ne hut _ _).trans (h.depth u)
  · exact hdepth.trans (by rw [h.heldBy ht]; rfl)

/-- A count in range does not wrap. -/
theorem wrapInt_eq {c : ℤ} (hle : -2147483648 ≤ c) (hlt : c < 2147483648) : wrapInt c = c :=
  Int.bmod_eq_of_le (by simpa using hle) (by simpa using hlt)

/-- The owner takes a RECURSIVE mutex again. -/
theorem good_again (hop : op = .lock ∨ op = .trylock) (h : w.OwnedBy .recursive t) (ht : 0 < t) :
    Good .recursive t w.fields op (.act .incCount (leave 0)) w := by
  refine ⟨trivial, fun hlt => ?_⟩
  have hnonneg := h.nonneg
  have hlt' : w.count < 2147483647 := hlt
  have hcount : ((Instr.incCount).effect t w).count = w.count + 1 :=
    wrapInt_eq (by omega) (by omega)
  have hdepth : (((Instr.incCount).effect t w).depth t : ℤ) = w.count + 1 + 1 := by
    simp only [Instr.effect, Function.update_self]
    rw [Nat.cast_add, h.depth]
    rfl
  have howner : ((Instr.incCount).effect t w).owner = t := h.owner
  refine good_leave
    (Or.inr ⟨t, ht, ⟨h.lock, howner, ?_, ?_, fun hk => (by cases hk), ?_, fun u hut => ?_⟩⟩)
    ?_ ?_ ?_
  · rw [hcount]
    omega
  · rw [hcount]
    show w.count + 1 ≤ 2147483647
    omega
  · rw [hdepth, hcount]
  · exact (Function.update_of_ne hut _ _).trans (h.rest u hut)
  · rcases hop with rfl | rfl
    · exact ⟨howner, Or.inl rfl⟩
    · exact ⟨fun _ => ⟨howner, Or.inl rfl⟩, fun _ => rfl⟩
  · rw [hdepth, h.heldBy]
    rcases hop with rfl | rfl <;> rfl
  · rcases hop with rfl | rfl <;> intro hop <;> cases hop

/-- The owner frees the mutex. -/
theorem good_release (h : w.OwnedBy kind t) (hzero : w.count = 0) :
    Good kind t w.fields .unlock release w := by
  have hone : (w.depth t : ℤ) = 1 := by
    rw [h.depth, hzero]
    rfl
  have hdepth : ∀ u, Function.update w.depth t (w.depth t - 1) u = 0 := by
    intro u
    by_cases hut : u = t
    · rw [hut, Function.update_self]
      omega
    · rw [Function.update_of_ne hut, h.rest u hut]
  refine ⟨trivial, fun _ => ⟨Or.inr h.owner, fun _ => ⟨rfl, fun _ => ⟨rfl, fun _ => ?_⟩⟩⟩⟩
  refine good_leave (Or.inl ⟨rfl, rfl, hzero, hdepth⟩) (Or.inl ⟨rfl, h.owner⟩) ?_
    fun _ hne => absurd rfl hne
  show ((Function.update w.depth t (w.depth t - 1) t : ℕ) : ℤ) = _
  rw [hdepth, h.heldBy, hzero]
  rfl

/-- The owner gives a RECURSIVE mutex back once. -/
theorem good_back (h : w.OwnedBy .recursive t) (hpos : 0 < w.count) (ht : 0 < t) :
    Good .recursive t w.fields .unlock (.act .decCount (leave 0)) w := by
  refine ⟨trivial, fun _ => ?_⟩
  have hle : w.count ≤ 2147483647 := h.le
  have hcount : ((Instr.decCount).effect t w).count = w.count - 1 :=
    wrapInt_eq (by omega) (by omega)
  have hdepth : (((Instr.decCount).effect t w).depth t : ℤ) = w.count - 1 + 1 := by
    have hd := h.depth
    simp only [Instr.effect, Function.update_self]
    omega
  have howner : ((Instr.decCount).effect t w).owner = t := h.owner
  refine good_leave
    (Or.inr ⟨t, ht, ⟨h.lock, howner, ?_, ?_, fun hk => (by cases hk), ?_, fun u hut => ?_⟩⟩)
    (Or.inl ⟨rfl, h.owner⟩) ?_ fun _ hne => absurd rfl hne
  · rw [hcount]
    omega
  · rw [hcount]
    show w.count - 1 ≤ 2147483647
    omega
  · rw [hdepth, hcount]
  · exact (Function.update_of_ne hut _ _).trans (h.rest u hut)
  · rw [hdepth, h.heldBy]
    show _ = w.count + 1 + -1
    omega

/-- A call that leaves the fields as they are. -/
theorem good_refuse (h : Settled kind w) (ht : 0 < t)
    (houtcome : Outcome kind t w.fields op status w.owner)
    (hgained : gained op status = 0) : Good kind t w.fields op (leave status) w :=
  good_leave h houtcome (by rw [h.depth ht, hgained, Int.add_zero]) fun _ _ => rfl

/-- A lock that finds the mutex free, or its own. -/
theorem good_lock (hkind : kind ≠ .normal) (h : Settled kind w) (ht : 0 < t) :
    ∃ next, lockBody kind = .spinLock .mutex next ∧ Good kind t w.fields .lock next w := by
  cases kind with
  | normal => exact absurd rfl hkind
  | errorcheck =>
      refine ⟨_, rfl, trivial, fun hgranted =>
        ⟨fun hset => ⟨trivial, fun _ => ⟨fun hself => ?_, ?_⟩⟩, fun hunset => ?_⟩⟩
      · exact good_refuse h ht ⟨hself, Or.inr ⟨rfl, rfl, hself⟩⟩ rfl
      · intro hother
        rcases hgranted.1 rfl with hzero | hself
        · exact absurd hset (by rw [Test.found, hzero]; exact Nat.lt_irrefl 0)
        · exact absurd hself hother
      · exact good_take (h.free (Nat.eq_zero_of_not_pos hunset)) ht
  | recursive =>
      refine ⟨_, rfl, trivial, fun hgranted =>
        ⟨fun hset => ⟨trivial, fun _ => ⟨fun hself => ?_, ?_⟩⟩,
        fun hunset => ⟨trivial, fun _ => ⟨fun hpos => ?_, fun _ => ?_⟩⟩⟩⟩
      · exact good_again (Or.inl rfl) (h.owned ht hself) ht
      · intro hother
        rcases hgranted.1 rfl with hzero | hself
        · exact absurd hset (by rw [Test.found, hzero]; exact Nat.lt_irrefl 0)
        · exact absurd hself hother
      · have hfree := h.free (Nat.eq_zero_of_not_pos hunset)
        exact absurd hpos (by rw [Test.found, hfree.count]; exact lt_irrefl 0)
      · exact good_take (h.free (Nat.eq_zero_of_not_pos hunset)) ht

/-- A trylock that finds the mutex owned. -/
theorem good_trylock (hkind : kind ≠ .normal) (h : Settled kind w) (ht : 0 < t) :
    ∃ next, trylockBody kind = .spinLock .mutex next ∧ Good kind t w.fields .trylock next w := by
  cases kind with
  | normal => exact absurd rfl hkind
  | errorcheck =>
      refine ⟨_, rfl, trivial, fun hgranted => ⟨fun _ => ⟨trivial, fun _ => ⟨fun hself => ?_, ?_⟩⟩,
        fun hunset => absurd (hgranted.2 rfl) hunset⟩⟩
      · refine good_refuse h ht (iff_of_false (by decide) ?_) rfl
        rintro ⟨-, hrec | hother⟩
        · cases hrec
        · exact hother hself
      · intro hother
        exact good_refuse h ht (iff_of_false (by decide) fun hout => hother hout.1) rfl
  | recursive =>
      refine ⟨_, rfl, trivial, fun hgranted => ⟨fun _ => ⟨trivial, fun _ => ⟨fun hself => ?_, ?_⟩⟩,
        fun hunset => absurd (hgranted.2 rfl) hunset⟩⟩
      · exact good_again (Or.inr rfl) (h.owned ht hself) ht
      · intro hother
        exact good_refuse h ht (iff_of_false (by decide) fun hout => hother hout.1) rfl

/-- An unlock that finds the mutex free, or its own. -/
theorem good_unlock (hkind : kind ≠ .normal) (h : Settled kind w) (ht : 0 < t) :
    ∃ next, unlockBody kind = .spinLock .mutex next ∧ Good kind t w.fields .unlock next w := by
  have hfree : w.lock = 1 → Good kind t w.fields .unlock (leave eperm) w := by
    intro hlock
    have howner : w.owner ≠ t := by
      rw [(h.free_of_lock hlock).owner]
      omega
    exact good_refuse h ht (Or.inr ⟨rfl, howner⟩) rfl
  cases kind with
  | normal => exact absurd rfl hkind
  | errorcheck =>
      refine ⟨_, rfl, trivial, fun hgranted => ⟨hfree, fun hlocked => ?_⟩⟩
      have howned := h.owned ht ((hgranted rfl).resolve_left hlocked)
      exact good_release howned (howned.checked rfl)
  | recursive =>
      refine ⟨_, rfl, trivial, fun hgranted => ⟨hfree, fun hlocked => ?_⟩⟩
      have hself := (hgranted rfl).resolve_left hlocked
      have howned := h.owned ht hself
      refine ⟨trivial,
        fun _ => ⟨fun _ => ⟨trivial, fun _ => ⟨fun _ => ⟨trivial, fun _ => ⟨fun hpos => ?_,
        fun hzero => ?_⟩⟩, fun hother => absurd hself hother⟩⟩, fun hunset => ?_⟩⟩
      · exact good_back howned hpos ht
      · exact good_release howned (le_antisymm (not_lt.1 hzero) howned.nonneg)
      · exact absurd ht (by rw [← hself]; exact hunset)

/-- **The code of the kinds that check their owner is good**, once it has the spin lock. -/
theorem good_bodyOf (hkind : kind ≠ .normal) (hop : op = .lock ∨ op = .trylock ∨ op = .unlock)
    (h : Settled kind w) (ht : 0 < t) : ∃ next, bodyOf kind op = .run op (.spinLock .mutex next) ∧
      Good kind t w.fields op next w := by
  rcases hop with rfl | rfl | rfl
  · obtain ⟨next, hbody, hgood⟩ := good_lock hkind h ht
    exact ⟨next, by rw [bodyOf, hbody], hgood⟩
  · obtain ⟨next, hbody, hgood⟩ := good_trylock hkind h ht
    have htry : bodyOf kind .trylock = .run .trylock (trylockBody kind) := rfl
    exact ⟨next, by rw [htry, hbody], hgood⟩
  · obtain ⟨next, hbody, hgood⟩ := good_unlock hkind h ht
    exact ⟨next, by rw [bodyOf, hbody], hgood⟩

end Pthread
end LightOS
