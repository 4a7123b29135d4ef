import LightOS.Lib.Run
import LightOS.Lib.Threads

/-!
# Programs around one binary semaphore

A program changes a store, sleeps and wakes other parties, and in between takes and gives back one
semaphore.  Any number of parties each run such a program, one step of one of them at a time.  A
party that finds the semaphore taken joins its list and sleeps; an up takes the first one off the
list and wakes it.  Sleep does not say what it is for: whoever is woken goes on.

* `Prog` — programs; `Prog.alone` runs one without interruption.
* `Prog.Owes` — on every path as many ups as downs are left to do as the number says, as long as
  no try fails.
* `Sys.step` — the steps of the parties.
* `lockInv_step` — if every program owes nothing, no try fails and nobody on the list is woken,
  the semaphore guards its section.
* `kept_step` — what every section restores then holds while nobody is in one.
-/

namespace LockProg

open Threads

variable {σ τ : Type}

/-- A program of one of the parties `τ`, on a store `σ` and a semaphore. -/
inductive Prog (τ σ : Type) where
  /-- It returns. -/
  | ret (r : ℤ)
  /-- It changes the store, if the store lets it, and goes on with what it has seen. -/
  | act (f : σ → Option σ) (k : σ → Prog τ σ)
  /-- It waits for the semaphore. -/
  | down (k : Prog τ σ)
  /-- It tries to take the semaphore. -/
  | tryDown (ok fail : Prog τ σ)
  /-- It gives the semaphore back. -/
  | up (k : Prog τ σ)
  /-- It sleeps. -/
  | block (k : Prog τ σ)
  /-- It wakes a party, if there is one to be woken. -/
  | unblock (who : σ → Option τ) (k : Prog τ σ)

namespace Prog

/-- Look at the store. -/
def look (k : σ → Prog τ σ) : Prog τ σ := act some k

/-- Change the store. -/
def change (f : σ → σ) (k : Prog τ σ) : Prog τ σ := act (fun s => some (f s)) fun _ => k

/-- Change the store and use the answer. -/
def call (f : σ → Option (σ × ℤ)) (k : ℤ → Prog τ σ) : Prog τ σ :=
  act (fun s => (f s).map Prod.fst) fun s => k (((f s).map Prod.snd).getD 0)

/-- The program never goes on. -/
def stop : Prog τ σ := act (fun _ => none) fun _ => ret 0

/-- The run of a program that nobody interrupts: the store, the semaphore and what it returns. -/
def alone : Prog τ σ → σ → ℤ → Option (σ × ℤ × ℤ)
  | ret r, s, v => some (s, v, r)
  | act f k, s, v => (f s).bind fun s' => (k s).alone s' v
  | down k, s, v => if 0 < v then k.alone s (v - 1) else none
  | tryDown ok fail, s, v => if 0 < v then ok.alone s (v - 1) else fail.alone s v
  | up k, s, v => k.alone s (v + 1)
  | block _, _, _ => none
  | unblock _ k, s, v => k.alone s v

/-- The program has `n` downs to make up for: on every path from here to its end there are `n` ups
more than downs, if no try fails, and a party that has the semaphore does not ask for it. -/
def Owes : Prog τ σ → ℤ → Prop
  | ret _, n => n = 0
  | act _ k, n => ∀ s, (k s).Owes n
  | down k, n => n = 0 ∧ k.Owes 1
  | tryDown ok _, n => n = 0 ∧ ok.Owes 1
  | up k, n => n = 1 ∧ k.Owes 0
  | block k, n => k.Owes n
  | unblock _ k, n => k.Owes n

theorem owes_look {k : σ → Prog τ σ} {n : ℤ} (h : ∀ s, (k s).Owes n) : (look k).Owes n := h

theorem owes_change {f : σ → σ} {k : Prog τ σ} {n : ℤ} (h : k.Owes n) : (change f k).Owes n :=
  fun _ => h

theorem owes_call {f : σ → Option (σ × ℤ)} {k : ℤ → Prog τ σ} {n : ℤ} (h : ∀ r, (k r).Owes n) :
    (call f k).Owes n := fun _ => h _

theorem owes_unblock {who : σ → Option τ} {k : Prog τ σ} {n : ℤ} (h : k.Owes n) :
    (unblock who k).Owes n := h

theorem owes_block {k : Prog τ σ} {n : ℤ} (h : k.Owes n) : (block k).Owes n := h

theorem owes_stop {n : ℤ} (h : n = 0) : (stop : Prog τ σ).Owes n := fun _ => h

/-- What is relied on: `always` holds of the store in every state, `free` while nobody is in the
section, and `fine` is what is known of the steps. -/
structure Rely (σ : Type) where
  always : σ → Prop
  free : σ → Prop
  fine : σ → σ → Prop

/-- **The program restores the store**: from here on, outside the section or with the given store in
it.  Outside it changes nothing. -/
def Keeps (R : Rely σ) : Prog τ σ → Option σ → Prop
  | ret _, _ => True
  | act f k, none => ∀ s s', f s = some s' → s' = s ∧ (k s).Keeps R none
  | act f k, some s => ∀ s', f s = some s' → R.fine s s' →
      R.always s' ∧ (k s).Keeps R (some s')
  | down k, _ => ∀ s, R.always s → R.free s → k.Keeps R (some s)
  | tryDown ok _, _ => ∀ s, R.always s → R.free s → ok.Keeps R (some s)
  | up k, s => (∀ s' ∈ s, R.free s') ∧ k.Keeps R none
  | block k, s => k.Keeps R s
  | unblock _ k, s => k.Keeps R s

theorem Owes.range {p : Prog τ σ} {n : ℤ} (h : p.Owes n) [Nonempty σ] : n = 0 ∨ n = 1 := by
  induction p generalizing n with
  | ret r => exact Or.inl h
  | act f k ih => exact ih (Classical.arbitrary σ) (h (Classical.arbitrary σ))
  | down k _ => exact Or.inl h.1
  | tryDown ok fail _ _ => exact Or.inl h.1
  | up k _ => exact Or.inr h.1
  | block k ih => exact ih h
  | unblock who k ih => exact ih h

end Prog

/-- How far a party is in a down that has to wait, or in a sleep. -/
inductive Phase where
  | start
  /-- It is on the semaphore's list, and does not sleep yet. -/
  | listed
  | asleep
  deriving DecidableEq

/-- The parties: the store, the semaphore and its list, what each party still has to do, who is
blocked, and how many downs more than ups a party has made in its current call.  `window` is the
party that has begun to change the semaphore's list and the sleepers, and has not finished. -/
structure Sys (τ σ : Type) where
  store : σ
  value : ℤ
  waiters : List τ
  prog : τ → Option (Prog τ σ)
  phase : τ → Phase
  blocked : τ → Bool
  owed : τ → ℤ
  window : Option τ

/-- The semaphore is free and nobody has begun a call. -/
def Sys.init (store : σ) : Sys τ σ :=
  ⟨store, 1, [], fun _ => none, fun _ => .start, fun _ => false, fun _ => 0, none⟩

/-- A party begins a call, or makes a step in it; or something else wakes one, or changes the
store. -/
inductive Event (τ σ : Type) where
  | call (t : τ) (p : Prog τ σ)
  | run (t : τ)
  | wake (t : τ)
  | world (f : σ → σ)

/-- **The semaphore guards its section**: it is free at most once, a call that is over has given
back what it took, and no two parties have it. -/
structure LockOk (s : Sys τ σ) : Prop where
  value_le : s.value ≤ 1
  returned : ∀ t, (s.prog t = none ∨ ∃ r, s.prog t = some (.ret r)) → s.owed t = 0
  exclusive : ∀ t u, 0 < s.owed t → 0 < s.owed u → t = u

/-- What a party that has begun no call, or a program, owes. -/
def Owing (p : Option (Prog τ σ)) (n : ℤ) : Prop :=
  match p with
  | none => n = 0
  | some p => p.Owes n

/-- Whether the program waits for the semaphore. -/
def isDown : Option (Prog τ σ) → Bool
  | some (.down _) => true
  | _ => false

/-- A party has the semaphore: it is in its section, or comes back from its sleep with it. -/
def Sys.grip (s : Sys τ σ) (t : τ) : Prop :=
  s.owed t = 1 ∨ isDown (s.prog t) = true ∧ s.phase t ≠ .start ∧ t ∉ s.waiters

/-- Every program owes what its party has taken, the semaphore is taken while one has it, and who is
on its list sleeps there. -/
structure LockInv (s : Sys τ σ) : Prop where
  owes : ∀ t, Owing (s.prog t) (s.owed t)
  value : s.value = 0 ∨ s.value = 1
  guards : Guards (s.value = 0) id s.grip
  nodup : s.waiters.Nodup
  listed : ∀ t ∈ s.waiters, isDown (s.prog t) = true ∧
    (s.phase t = .listed ∨ s.phase t = .asleep ∧ s.blocked t = true)

/-- The party of a step. -/
def Event.mover : Event τ σ → Option τ
  | .run t => some t
  | _ => none

theorem mover_iff {e : Event τ σ} {t : τ} : e.mover = some t ↔ e = .run t := by
  cases e <;> simp [Event.mover]

section Grip

variable {s : Sys τ σ} {t : τ}

/-- A party that is in no sleep has the semaphore if it owes it. -/
theorem grip_iff (hfree : isDown (s.prog t) = true → s.phase t = .start) :
    s.owed t = 1 ↔ s.grip t := by
  constructor
  · exact Or.inl
  · rintro (howed | ⟨hdown, hphase, -⟩)
    · exact howed
    · exact absurd (hfree hdown) hphase

theorem LockInv.grip_of_pos (h : LockInv s) [Nonempty σ] (hpos : 0 < s.owed t) : s.grip t := by
  have howes := h.owes t
  refine Or.inl ?_
  cases hprog : s.prog t with
  | none =>
      rw [hprog] at howes
      have hzero : s.owed t = 0 := howes
      omega
  | some p =>
      rw [hprog] at howes
      rcases Prog.Owes.range howes with hzero | hone
      · omega
      · exact hone

/-- Who waits on the list is in a down. -/
theorem LockInv.not_listed (h : LockInv s)
    (hfree : isDown (s.prog t) = true → s.phase t = .start) : t ∉ s.waiters := by
  intro hmem
  obtain ⟨hdown, hphase⟩ := h.listed t hmem
  rw [hfree hdown] at hphase
  simp at hphase

/-- Who wakes up in a down was handed the semaphore: nobody else has woken those on the list. -/
theorem LockInv.handed (h : LockInv s) (hphase : s.phase t = .asleep)
    (hblocked : ¬ s.blocked t = true) : t ∉ s.waiters := by
  intro hmem
  rcases (h.listed t hmem).2 with hlisted | ⟨-, hsleeps⟩
  · rw [hphase] at hlisted
    cases hlisted
  · exact hblocked hsleeps

end Grip

section Steps

variable [DecidableEq τ]

/-- A party comes to its next step. -/
def Sys.next (s : Sys τ σ) (t : τ) (p : Option (Prog τ σ)) (n : ℤ) : Sys τ σ :=
  { s with
    prog := Function.update s.prog t p
    phase := Function.update s.phase t .start
    owed := Function.update s.owed t n }

/-- A party goes to sleep. -/
def Sys.sleep (s : Sys τ σ) (t : τ) : Sys τ σ :=
  { s with
    blocked := Function.update s.blocked t true
    phase := Function.update s.phase t .asleep
    window := none }

/-- A party is woken. -/
def Sys.wakeup (s : Sys τ σ) (t : τ) : Sys τ σ :=
  { s with blocked := Function.update s.blocked t false }

/-- A party makes a step.  What an up does with the list and what it does with the sleeper are two
steps. -/
def Sys.runStep (s : Sys τ σ) (t : τ) : Option (Sys τ σ) :=
  match s.prog t with
  | none => none
  | some (.ret _) => some (s.next t none (s.owed t))
  | some (.act f k) =>
      (f s.store).map fun store => { s with store := store }.next t (some (k s.store)) (s.owed t)
  | some (.down k) =>
      match s.phase t with
      | .start =>
          if 0 < s.value then
            some ({ s with value := s.value - 1 }.next t (some k) (s.owed t + 1))
          else
            some { s with
              waiters := s.waiters ++ [t]
              phase := Function.update s.phase t .listed
              window := some t }
      | .listed => some (s.sleep t)
      | .asleep => if s.blocked t then none else some (s.next t (some k) (s.owed t + 1))
  | some (.tryDown ok fail) =>
      if 0 < s.value then
        some ({ s with value := s.value - 1 }.next t (some ok) (s.owed t + 1))
      else some (s.next t (some fail) (s.owed t))
  | some (.up k) =>
      match s.waiters with
      | [] => some ({ s with value := s.value + 1 }.next t (some k) (s.owed t - 1))
      | w :: ws =>
          some ({ s with waiters := ws, window := some t }.next t
            (some (.unblock (fun _ => some w) k)) (s.owed t - 1))
  | some (.block k) =>
      match s.phase t with
      | .asleep => if s.blocked t then none else some (s.next t (some k) (s.owed t))
      | _ => some (s.sleep t)
  | some (.unblock who k) =>
      let s' := { s with window := none }.next t (some k) (s.owed t)
      some ((who s.store).elim s' s'.wakeup)

/-- One event. -/
def Sys.step (s : Sys τ σ) : Event τ σ → Option (Sys τ σ)
  | .call t p =>
      match s.prog t with
      | none => some (s.next t (some p) 0)
      | some _ => none
  | .run t => s.runStep t
  | .wake t => some (s.wakeup t)
  | .world f => some { s with store := f s.store }

/-- Who is woken by a step. -/
def Sys.wakes (s : Sys τ σ) : Event τ σ → Option τ
  | .run t =>
      match s.prog t with
      | some (.unblock who _) => who s.store
      | _ => none
  | .wake t => some t
  | _ => none

/-- Whether a program is about to try. -/
def tries : Option (Prog τ σ) → Bool
  | some (.tryDown _ _) => true
  | _ => false

/-- **An event disturbs nothing**: no try fails, nobody is woken who is on the semaphore's list, and
a party that has begun with the list finishes first. -/
structure Calm (s : Sys τ σ) (e : Event τ σ) : Prop where
  tries : ∀ t, e = .run t → tries (s.prog t) = true → 0 < s.value
  wakes : ∀ t ∈ s.wakes e, t ∉ s.waiters
  window : ∀ t ∈ s.window, e = .run t

instance (s : Sys τ σ) (e : Event τ σ) : Decidable (Calm s e) :=
  decidable_of_iff ((∀ t ∈ e.mover, tries (s.prog t) = true → 0 < s.value) ∧
      (∀ t ∈ s.wakes e, t ∉ s.waiters) ∧ ∀ t ∈ s.window, e.mover = some t) (by
    constructor
    · rintro ⟨htries, hwakes, hwindow⟩
      exact ⟨fun t he => htries t (mover_iff.2 he), hwakes, fun t ht => mover_iff.1 (hwindow t ht)⟩
    · rintro ⟨htries, hwakes, hwindow⟩
      exact ⟨fun t he => htries t (mover_iff.1 he), hwakes, fun t ht => mover_iff.2 (hwindow t ht)⟩)

/-- Only programs that owe nothing are called. -/
def CallsOwe : Event τ σ → Prop
  | .call _ p => p.Owes 0
  | _ => True

variable {s s' : Sys τ σ} {t : τ} {p : Prog τ σ} {q : Option (Prog τ σ)} {n : ℤ}

/-! ## What a step does -/

/-- The steps of the party `t`, one by one. -/
inductive Moves (s : Sys τ σ) (t : τ) : Sys τ σ → Prop
  | ret (r : ℤ) (hprog : s.prog t = some (.ret r)) : Moves s t (s.next t none (s.owed t))
  | act (f : σ → Option σ) (k : σ → Prog τ σ) (store : σ) (hprog : s.prog t = some (.act f k))
      (hstore : f s.store = some store) :
      Moves s t ({ s with store := store }.next t (some (k s.store)) (s.owed t))
  | take (k : Prog τ σ) (hprog : s.prog t = some (.down k)) (hphase : s.phase t = .start)
      (hpos : 0 < s.value) :
      Moves s t ({ s with value := s.value - 1 }.next t (some k) (s.owed t + 1))
  | join (k : Prog τ σ) (hprog : s.prog t = some (.down k)) (hphase : s.phase t = .start) :
      Moves s t { s with
        waiters := s.waiters ++ [t]
        phase := Function.update s.phase t .listed
        window := some t }
  | wake (k : Prog τ σ) (hprog : s.prog t = some (.down k)) (hphase : s.phase t = .asleep)
      (hblocked : ¬ s.blocked t = true) : Moves s t (s.next t (some k) (s.owed t + 1))
  | tryTake (ok fail : Prog τ σ) (hprog : s.prog t = some (.tryDown ok fail))
      (hpos : 0 < s.value) :
      Moves s t ({ s with value := s.value - 1 }.next t (some ok) (s.owed t + 1))
  | tryFail (ok fail : Prog τ σ) (hprog : s.prog t = some (.tryDown ok fail))
      (hnot : ¬ 0 < s.value) : Moves s t (s.next t (some fail) (s.owed t))
  | give (k : Prog τ σ) (hprog : s.prog t = some (.up k)) (hwaiters : s.waiters = []) :
      Moves s t ({ s with value := s.value + 1 }.next t (some k) (s.owed t - 1))
  | hand (k : Prog τ σ) (w : τ) (ws : List τ) (hprog : s.prog t = some (.up k))
      (hwaiters : s.waiters = w :: ws) :
      Moves s t ({ s with waiters := ws, window := some t }.next t
        (some (.unblock (fun _ => some w) k)) (s.owed t - 1))
  | sleep (hphase : isDown (s.prog t) = true → s.phase t ≠ .start) : Moves s t (s.sleep t)
  | goOn (k : Prog τ σ) (hprog : s.prog t = some (.block k)) :
      Moves s t (s.next t (some k) (s.owed t))
  | unblock (who : σ → Option τ) (k : Prog τ σ) (hprog : s.prog t = some (.unblock who k))
      (hwho : who s.store = none) :
      Moves s t ({ s with window := none }.next t (some k) (s.owed t))
  | unblockOne (who : σ → Option τ) (k : Prog τ σ) (w : τ)
      (hprog : s.prog t = some (.unblock who k)) (hwho : who s.store = some w) :
      Moves s t (({ s with window := none }.next t (some k) (s.owed t)).wakeup w)

theorem moves_of_runStep (hstep : s.runStep t = some s') : Moves s t s' := by
  unfold Sys.runStep at hstep
  cases hprog : s.prog t with
  | none =>
      rw [hprog] at hstep
      cases hstep
  | some p =>
      rw [hprog] at hstep
      cases p with
      | ret r =>
          cases hstep
          exact .ret r hprog
      | act f k =>
          obtain ⟨store, hstore, rfl⟩ := Option.map_eq_some_iff.1 hstep
          exact .act f k store hprog hstore
      | down k =>
          cases hphase : s.phase t with
          | start =>
              simp only [hphase] at hstep
              split_ifs at hstep with hpos
              · cases hstep
                exact .take k hprog hphase hpos
              · cases hstep
                exact .join k hprog hphase
          | listed =>
              simp only [hphase] at hstep
              cases hstep
              exact .sleep fun _ => by simp [hphase]
          | asleep =>
              simp only [hphase] at hstep
              split_ifs at hstep with hblocked
              cases hstep
              exact .wake k hprog hphase hblocked
      | tryDown ok fail =>
          simp only at hstep
          split_ifs at hstep with hpos
          · cases hstep
            exact .tryTake ok fail hprog hpos
          · cases hstep
            exact .tryFail ok fail hprog hpos
      | up k =>
          simp only at hstep
          cases hwaiters : s.waiters with
          | nil =>
              rw [hwaiters] at hstep
              cases hstep
              have hgive := Moves.give k hprog hwaiters
              rwa [hwaiters] at hgive
          | cons w ws =>
              rw [hwaiters] at hstep
              cases hstep
              exact .hand k w ws hprog hwaiters
      | block k =>
          have hdown : isDown (s.prog t) = true → s.phase t ≠ .start := by simp [hprog, isDown]
          cases hphase : s.phase t with
          | start =>
              simp only [hphase] at hstep
              cases hstep
              exact .sleep hdown
          | listed =>
              simp only [hphase] at hstep
              cases hstep
              exact .sleep hdown
          | asleep =>
              simp only [hphase] at hstep
              split_ifs at hstep
              cases hstep
              exact .goOn k hprog
      | unblock who k =>
          cases hwho : who s.store with
          | none =>
              simp only [hwho, Option.elim_none] at hstep
              cases hstep
              exact .unblock who k hprog hwho
          | some w =>
              simp only [hwho, Option.elim_some] at hstep
              cases hstep
              exact .unblockOne who k w hprog hwho

/-! ## Who has the semaphore -/

theorem grip_next_self : (s.next t q n).grip t ↔ n = 1 := by
  simp [Sys.grip, Sys.next]

theorem grip_next_of_ne {u : τ} (hu : u ≠ t) : (s.next t q n).grip u ↔ s.grip u := by
  simp [Sys.grip, Sys.next, hu]

/-! ## Steps -/

/-- **A party that is not on the list goes on**, with the semaphore or without it. -/
theorem LockInv.next (h : LockInv s) {store : σ} {value : ℤ} {window : Option τ}
    (hfree : t ∉ s.waiters) (hq : Owing q n) (hvalue : value = 0 ∨ value = 1)
    (hguards : Guards (value = 0) id (Function.update s.grip t (n = 1))) :
    LockInv ({ s with store := store, value := value, window := window }.next t q n) := by
  refine ⟨fun u => ?_, hvalue, ?_, h.nodup, fun u hu => ?_⟩
  · by_cases hu : u = t
    · rw [hu]
      simpa [Sys.next] using hq
    · simpa [Sys.next, hu] using h.owes u
  · refine hguards.congr fun u => ?_
    by_cases hu : u = t
    · rw [hu, Function.update_self]
      exact grip_next_self
    · rw [Function.update_of_ne hu]
      exact grip_next_of_ne hu
  · have hne : u ≠ t := fun heq => hfree (heq ▸ hu)
    simpa [Sys.next, hne] using h.listed u hu

/-- A party goes on and has the semaphore if and only if it had it. -/
theorem LockInv.keep (h : LockInv s) {store : σ} {window : Option τ} (hfree : t ∉ s.waiters)
    (hq : Owing q n) (hgrip : n = 1 ↔ s.grip t) :
    LockInv ({ s with store := store, window := window }.next t q n) :=
  h.next hfree hq h.value (h.guards.keep hgrip)

/-- A party takes the semaphore that is free. -/
theorem LockInv.take (h : LockInv s) (hfree : t ∉ s.waiters) (hpos : 0 < s.value)
    (howed : s.owed t = 0) (hp : p.Owes 1) :
    LockInv ({ s with value := s.value - 1 }.next t (some p) (s.owed t + 1)) := by
  have hone : s.value = 1 := h.value.resolve_left (by omega)
  rw [howed, zero_add]
  exact h.next hfree hp (Or.inl (by omega)) (h.guards.acquire (by omega) (by omega) rfl)

/-- **A party gives the semaphore back**, if nobody waits. -/
theorem LockInv.give (h : LockInv s) (hfree : t ∉ s.waiters) (howed : s.owed t = 1)
    (hp : p.Owes 0) :
    LockInv ({ s with value := s.value + 1 }.next t (some p) (s.owed t - 1)) := by
  have hzero : s.value = 0 := h.guards.held.2 ⟨t, Or.inl howed⟩
  rw [howed, sub_self]
  exact h.next hfree hp (Or.inr (by omega))
    (h.guards.release (Or.inl howed) (by simp) (by omega))

/-- **A party hands the semaphore over** to the first one on the list. -/
theorem LockInv.hand (h : LockInv s) {w : τ} {ws : List τ} (hwaiters : s.waiters = w :: ws)
    (hfree : t ∉ s.waiters) (howed : s.owed t = 1) (hp : p.Owes 0) :
    LockInv ({ s with waiters := ws, window := some t }.next t (some p) (s.owed t - 1)) := by
  have hnodup := h.nodup
  rw [hwaiters, List.nodup_cons] at hnodup
  have hw := h.listed w (by rw [hwaiters]; exact List.mem_cons_self)
  have hwt : w ≠ t := by
    rintro rfl
    exact hfree (by rw [hwaiters]; exact List.mem_cons_self)
  have hzero : s.value = 0 := h.guards.held.2 ⟨t, Or.inl howed⟩
  have hstart : s.phase w ≠ .start := by
    rcases hw.2 with hphase | ⟨hphase, -⟩ <;> rw [hphase] <;> simp
  have hgrip : ∀ u, ({ s with waiters := ws, window := some t }.next t (some p)
      (s.owed t - 1)).grip u ↔ u = w := by
    intro u
    constructor
    · intro hu
      by_contra hne
      by_cases hut : u = t
      · rw [hut, grip_next_self] at hu
        omega
      · -- another one that had it before
        refine hut (h.guards.unique u t ?_ (Or.inl howed))
        rw [grip_next_of_ne hut] at hu
        rcases hu with hu | ⟨hdown, hphase, hmem⟩
        · exact Or.inl hu
        · refine Or.inr ⟨hdown, hphase, ?_⟩
          rw [hwaiters]
          exact List.not_mem_cons_of_ne_of_not_mem hne hmem
    · rintro rfl
      rw [grip_next_of_ne hwt]
      exact Or.inr ⟨hw.1, hstart, hnodup.1⟩
  refine ⟨fun u => ?_, h.value, ⟨?_, fun u v hu hv => ?_⟩, hnodup.2, fun u hu => ?_⟩
  · by_cases hu : u = t
    · rw [hu]
      simpa [Sys.next, howed, Owing] using hp
    · simpa [Sys.next, hu] using h.owes u
  · exact iff_of_true hzero ⟨w, (hgrip w).2 rfl⟩
  · exact ((hgrip u).1 hu).trans ((hgrip v).1 hv).symm
  · have hmem : u ∈ s.waiters := by
      rw [hwaiters]
      exact List.mem_cons_of_mem w hu
    have hne : u ≠ t := fun heq => hfree (heq ▸ hmem)
    simpa [Sys.next, hne] using h.listed u hmem

/-- A party that finds the semaphore taken joins the list. -/
theorem LockInv.join (h : LockInv s) (hfree : t ∉ s.waiters) (hdown : isDown (s.prog t) = true)
    (howed : s.owed t = 0) (hstart : s.phase t = .start) {window : Option τ} :
    LockInv { s with
      waiters := s.waiters ++ [t]
      phase := Function.update s.phase t .listed
      window := window } := by
  refine ⟨h.owes, h.value, h.guards.congr fun u => ?_, ?_, fun u hu => ?_⟩
  · by_cases hu : u = t
    · rw [hu]
      simp [Sys.grip, howed, hstart]
    · simp [Sys.grip, hu]
  · exact List.Nodup.append h.nodup (List.nodup_singleton t) (by simpa using hfree)
  · by_cases hut : u = t
    · rw [hut]
      exact ⟨hdown, Or.inl (Function.update_self ..)⟩
    · have hmem : u ∈ s.waiters := by simpa [hut] using hu
      simpa [hut] using h.listed u hmem

/-- A party goes to sleep, and stays on the list if it is there. -/
theorem LockInv.sleep (h : LockInv s)
    (hphase : isDown (s.prog t) = true → s.phase t ≠ .start) : LockInv (s.sleep t) := by
  refine ⟨h.owes, h.value, h.guards.congr fun u => ?_, h.nodup, fun u hu => ?_⟩
  · by_cases hu : u = t
    · rw [hu]
      simp only [id, Sys.grip, Sys.sleep, Function.update_self]
      refine or_congr Iff.rfl (and_congr_right fun hdown => ?_)
      exact and_congr_left fun _ => iff_of_true (by simp) (hphase hdown)
    · simp [Sys.grip, Sys.sleep, hu]
  · by_cases hut : u = t
    · rw [hut] at hu ⊢
      exact ⟨(h.listed t hu).1, Or.inr ⟨Function.update_self .., Function.update_self ..⟩⟩
    · simpa [Sys.sleep, hut] using h.listed u hu

/-- Somebody is woken who is not on the list. -/
theorem LockInv.wakeup (h : LockInv s) (hfree : t ∉ s.waiters) : LockInv (s.wakeup t) := by
  refine ⟨h.owes, h.value, h.guards, h.nodup, fun u hu => ?_⟩
  have hne : u ≠ t := fun heq => hfree (heq ▸ hu)
  simpa [Sys.wakeup, hne] using h.listed u hu

/-- **A step of a party** keeps the section guarded, if it disturbs nothing. -/
theorem LockInv.runStep (h : LockInv s) (hcalm : Calm s (.run t))
    (hstep : s.runStep t = some s') : LockInv s' := by
  have howes := h.owes t
  have hawake : isDown (s.prog t) = false → t ∉ s.waiters ∧ (s.owed t = 1 ↔ s.grip t) := by
    intro hdown
    have hfree : isDown (s.prog t) = true → s.phase t = .start := by simp [hdown]
    exact ⟨h.not_listed hfree, grip_iff hfree⟩
  cases moves_of_runStep hstep with
  | ret r hprog =>
      rw [hprog] at howes
      obtain ⟨hfree, hgrip⟩ := hawake (by rw [hprog]; rfl)
      exact h.keep hfree howes hgrip
  | act f k store hprog hstore =>
      rw [hprog] at howes
      obtain ⟨hfree, hgrip⟩ := hawake (by rw [hprog]; rfl)
      exact h.keep hfree (howes s.store) hgrip
  | take k hprog hphase hpos =>
      rw [hprog] at howes
      exact h.take (h.not_listed fun _ => hphase) hpos howes.1 howes.2
  | join k hprog hphase =>
      rw [hprog] at howes
      exact h.join (h.not_listed fun _ => hphase) (by rw [hprog]; rfl) howes.1 hphase
  | wake k hprog hphase hblocked =>
      rw [hprog] at howes
      have hfree := h.handed hphase hblocked
      refine h.keep hfree (by rw [howes.1]; exact howes.2) (iff_of_true ?_ ?_)
      · rw [howes.1]
        rfl
      · exact Or.inr ⟨by rw [hprog]; rfl, by simp [hphase], hfree⟩
  | tryTake ok fail hprog hpos =>
      rw [hprog] at howes
      exact h.take (hawake (by rw [hprog]; rfl)).1 hpos howes.1 howes.2
  | tryFail ok fail hprog hnot =>
      exact absurd (hcalm.tries t rfl (by rw [hprog]; rfl)) hnot
  | give k hprog hwaiters =>
      rw [hprog] at howes
      exact h.give (hawake (by rw [hprog]; rfl)).1 howes.1 howes.2
  | hand k w ws hprog hwaiters =>
      rw [hprog] at howes
      exact h.hand hwaiters (hawake (by rw [hprog]; rfl)).1 howes.1 howes.2
  | sleep hphase => exact h.sleep hphase
  | goOn k hprog =>
      rw [hprog] at howes
      obtain ⟨hfree, hgrip⟩ := hawake (by rw [hprog]; rfl)
      exact h.keep hfree howes hgrip
  | unblock who k hprog hwho =>
      rw [hprog] at howes
      obtain ⟨hfree, hgrip⟩ := hawake (by rw [hprog]; rfl)
      exact h.keep hfree howes hgrip
  | unblockOne who k w hprog hwho =>
      rw [hprog] at howes
      obtain ⟨hfree, hgrip⟩ := hawake (by rw [hprog]; rfl)
      have hnext : LockInv ({ s with window := none }.next t (some k) (s.owed t)) :=
        h.keep hfree howes hgrip
      exact hnext.wakeup (hcalm.wakes w (by simp [Sys.wakes, hprog, hwho]))

/-- **Every event keeps the section guarded**, if the programs owe nothing and it disturbs
nothing. -/
theorem lockInv_step (s : Sys τ σ) (e : Event τ σ) (s' : Sys τ σ) (h : LockInv s)
    (hcalm : Calm s e) (howe : CallsOwe e) (hstep : s.step e = some s') : LockInv s' := by
  cases e with
  | call t p =>
      cases hprog : s.prog t with
      | some q =>
          rw [Sys.step, hprog] at hstep
          cases hstep
      | none =>
          rw [Sys.step, hprog] at hstep
          cases hstep
          have howed : s.owed t = 0 := by
            have howes := h.owes t
            rwa [hprog] at howes
          have hidle : isDown (s.prog t) = true → s.phase t = .start := by simp [hprog, isDown]
          exact h.keep (h.not_listed hidle) howe (by rw [← howed]; exact grip_iff hidle)
  | run t => exact h.runStep hcalm hstep
  | wake t =>
      cases hstep
      exact h.wakeup (hcalm.wakes t rfl)
  | world f =>
      cases hstep
      exact ⟨h.owes, h.value, h.guards, h.nodup, h.listed⟩

/-! ## What the sections restore -/

/-- Every program restores the store, and while nobody is in the section it is restored. -/
structure Kept (R : Prog.Rely σ) (s : Sys τ σ) : Prop where
  progs : ∀ t p, s.prog t = some p → p.Keeps R (if s.owed t = 1 then some s.store else none)
  always : R.always s.store
  free : (∀ t, s.owed t ≠ 1) → R.free s.store

variable {R : Prog.Rely σ}

/-- A party comes to its next step; the others do not mind, or are not in the section. -/
theorem Kept.next (h : Kept R s) {s₀ : Sys τ σ} (hprog : s₀.prog = s.prog)
    (howed : s₀.owed = s.owed)
    (hq : ∀ p, q = some p → p.Keeps R (if n = 1 then some s₀.store else none))
    (halways : R.always s₀.store) (hothers : s₀.store = s.store ∨ ∀ u, u ≠ t → s.owed u ≠ 1)
    (hfree : n ≠ 1 → (∀ u, u ≠ t → s.owed u ≠ 1) → R.free s₀.store) : Kept R (s₀.next t q n) := by
  refine ⟨fun u p hp => ?_, halways, fun hnobody => ?_⟩
  · by_cases hut : u = t
    · subst hut
      simp only [Sys.next, Function.update_self] at hp ⊢
      exact hq p hp
    · simp only [Sys.next, Function.update_of_ne hut, hprog, howed] at hp ⊢
      have hu := h.progs u p hp
      rcases hothers with hsame | hout
      · rwa [hsame]
      · rwa [if_neg (hout u hut)] at hu ⊢
  · refine hfree (by simpa [Sys.next] using hnobody t) fun u hut => ?_
    simpa [Sys.next, Function.update_of_ne hut, howed] using hnobody u

/-- A party goes on with the store as it is, on its side of the semaphore. -/
theorem Kept.stay (h : Kept R s) {s₀ : Sys τ σ} (hprog : s₀.prog = s.prog)
    (howed : s₀.owed = s.owed) (hstore : s₀.store = s.store)
    (hq : ∀ p, q = some p → p.Keeps R (if s.owed t = 1 then some s.store else none)) :
    Kept R (s₀.next t q (s.owed t)) := by
  refine h.next hprog howed (by rwa [hstore]) (hstore ▸ h.always) (Or.inl hstore)
    fun ht hothers => hstore ▸ h.free fun u => ?_
  by_cases hut : u = t
  · rwa [hut]
  · exact hothers u hut

/-- A party comes into the section, and nobody was in it. -/
theorem Kept.enter (h : Kept R s) {s₀ : Sys τ σ} (hprog : s₀.prog = s.prog)
    (howed : s₀.owed = s.owed) (hstore : s₀.store = s.store) (hnobody : ∀ u, s.owed u ≠ 1)
    (hp : ∀ s', R.always s' → R.free s' → p.Keeps R (some s')) :
    Kept R (s₀.next t (some p) 1) := by
  refine h.next hprog howed (fun p' hp' => ?_) (hstore ▸ h.always) (Or.inl hstore)
    fun hne => absurd rfl hne
  cases hp'
  rw [if_pos rfl, hstore]
  exact hp s.store h.always (h.free hnobody)

/-- A party leaves the section, and has restored the store. -/
theorem Kept.leave (h : Kept R s) {s₀ : Sys τ σ} (hprog : s₀.prog = s.prog)
    (howed : s₀.owed = s.owed) (hstore : s₀.store = s.store) (hone : s.owed t = 1)
    (hkeeps : (Prog.up p).Keeps R (if s.owed t = 1 then some s.store else none)) :
    Kept R (s₀.next t (some p) (s.owed t - 1)) := by
  rw [if_pos hone] at hkeeps
  rw [hone, sub_self]
  refine h.next hprog howed (fun p' hp' => ?_) (hstore ▸ h.always) (Or.inl hstore)
    fun _ _ => hstore ▸ hkeeps.1 s.store rfl
  cases hp'
  exact hkeeps.2

/-- **A step of a party** keeps what the sections restore. -/
theorem Kept.runStep (h : Kept R s) (hlock : LockInv s) (hcalm : Calm s (.run t))
    (hfine : R.fine s.store s'.store) (hstep : s.runStep t = some s') : Kept R s' := by
  have howes := hlock.owes t
  -- while the semaphore is free, or the party has it and does not owe it, nobody is inside
  have hvalue : 0 < s.value → ∀ u, s.owed u ≠ 1 := fun hpos u hu => by
    have hzero := hlock.guards.held.2 ⟨u, Or.inl hu⟩
    omega
  cases moves_of_runStep hstep with
  | ret r hprog => exact h.stay rfl rfl rfl fun p hp => by cases hp
  | act f k store hprog hstore =>
      have hkeeps := h.progs t _ hprog
      by_cases hin : s.owed t = 1
      · rw [if_pos hin] at hkeeps
        obtain ⟨halways, hk⟩ := hkeeps store hstore hfine
        refine h.next rfl rfl (fun p hp => ?_) halways (Or.inr fun u hut hu => hut ?_)
          fun hne => absurd hin hne
        · cases hp
          rw [if_pos hin]
          exact hk
        · exact hlock.guards.unique u t (Or.inl hu) (Or.inl hin)
      · rw [if_neg hin] at hkeeps
        obtain ⟨hsame, hk⟩ := hkeeps s.store store hstore
        refine h.stay rfl rfl hsame fun p hp => ?_
        cases hp
        rwa [if_neg hin]
  | take k hprog hphase hpos =>
      rw [hprog] at howes
      rw [howes.1, zero_add]
      exact h.enter rfl rfl rfl (hvalue hpos) (h.progs t _ hprog)
  | join k hprog hphase => exact ⟨h.progs, h.always, h.free⟩
  | wake k hprog hphase hblocked =>
      rw [hprog] at howes
      have hzero : s.owed t = 0 := howes.1
      have hgrip : s.grip t :=
        Or.inr ⟨by rw [hprog]; rfl, by simp [hphase], hlock.handed hphase hblocked⟩
      rw [hzero, zero_add]
      refine h.enter rfl rfl rfl (fun u hu => ?_) (h.progs t _ hprog)
      rw [hlock.guards.unique u t (Or.inl hu) hgrip, hzero] at hu
      cases hu
  | tryTake ok fail hprog hpos =>
      rw [hprog] at howes
      rw [howes.1, zero_add]
      exact h.enter rfl rfl rfl (hvalue hpos) (h.progs t _ hprog)
  | tryFail ok fail hprog hnot => exact absurd (hcalm.tries t rfl (by rw [hprog]; rfl)) hnot
  | give k hprog hwaiters =>
      rw [hprog] at howes
      exact h.leave rfl rfl rfl howes.1 (h.progs t _ hprog)
  | hand k w ws hprog hwaiters =>
      have hkeeps := h.progs t _ hprog
      rw [hprog] at howes
      exact h.leave rfl rfl rfl howes.1 hkeeps
  | sleep hphase => exact ⟨h.progs, h.always, h.free⟩
  | goOn k hprog =>
      have hkeeps := h.progs t _ hprog
      exact h.stay rfl rfl rfl fun p hp => by cases hp; exact hkeeps
  | unblock who k hprog hwho =>
      have hkeeps := h.progs t _ hprog
      exact h.stay rfl rfl rfl fun p hp => by cases hp; exact hkeeps
  | unblockOne who k w hprog hwho =>
      have hkeeps := h.progs t _ hprog
      have hnext : Kept R ({ s with window := none }.next t (some k) (s.owed t)) :=
        h.stay rfl rfl rfl fun p hp => by cases hp; exact hkeeps
      exact ⟨hnext.progs, hnext.always, hnext.free⟩

/-- Only programs that restore the store are called, and nothing else changes it. -/
def CallsKeep (R : Prog.Rely σ) : Event τ σ → Prop
  | .call _ p => p.Keeps R none
  | .world _ => False
  | _ => True

/-- **Every event keeps what the sections restore**, if it disturbs nothing. -/
theorem kept_step (s : Sys τ σ) (e : Event τ σ) (s' : Sys τ σ) (h : Kept R s) (hlock : LockInv s)
    (hcalm : Calm s e) (hkeep : CallsKeep R e) (hfine : R.fine s.store s'.store)
    (hstep : s.step e = some s') : Kept R s' := by
  cases e with
  | call t p =>
      cases hprog : s.prog t with
      | some q =>
          rw [Sys.step, hprog] at hstep
          cases hstep
      | none =>
          rw [Sys.step, hprog] at hstep
          cases hstep
          have hzero : s.owed t = 0 := by
            have howes := hlock.owes t
            rwa [hprog] at howes
          rw [← hzero]
          refine h.stay rfl rfl rfl fun p' hp' => ?_
          cases hp'
          rwa [hzero]
  | run t => exact h.runStep hlock hcalm hfine hstep
  | wake t =>
      cases hstep
      exact ⟨h.progs, h.always, h.free⟩
  | world f => exact absurd hkeep id

end Steps

theorem lockInv_init (store : σ) : LockInv (Sys.init store : Sys τ σ) := by
  refine ⟨fun _ => rfl, Or.inr rfl, ⟨?_, fun t u ht => ?_⟩, List.nodup_nil, fun t ht => ?_⟩
  · simp [Sys.init, Sys.grip, isDown]
  · simp [Sys.init, Sys.grip, isDown] at ht
  · cases ht

theorem kept_init {R : Prog.Rely σ} {store : σ} (halways : R.always store) (hfree : R.free store) :
    Kept R (Sys.init store : Sys τ σ) :=
  ⟨fun _ _ hp => (by cases hp), halways, fun _ => hfree⟩

theorem LockInv.ok {s : Sys τ σ} [Nonempty σ] (h : LockInv s) : LockOk s := by
  refine ⟨by rcases h.value with hv | hv <;> omega, fun t hret => ?_, fun t u ht hu => ?_⟩
  · have howes := h.owes t
    rcases hret with hnone | ⟨r, hr⟩
    · rwa [hnone] at howes
    · rwa [hr] at howes
  · exact h.guards.unique t u (h.grip_of_pos ht) (h.grip_of_pos hu)

end LockProg
