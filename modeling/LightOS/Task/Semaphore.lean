import LightOS.Task.WaitQueue

/-!
# Semaphores of the kernel: tokens

* `Account` — one semaphore: its tokens, who waits and who is on the way.
* `Account.same` — a step that has nothing to do with it; one lemma for each step that has.
* `SemaInv.kstep` — every event keeps all semaphores, if no exception wakes a waiter.
* `sema_tokens` — so no down completes without a token; `sema_tokens_fails` is a mutex with two
  holders.
-/

namespace LightOS
namespace WaitQueue

open Sched

/-! ## Where a task is -/

/-- The task is in a `semaphore_up` that has not had its effect. -/
def Place.Raises (k : ℕ) : Place → Prop
  | .lockTry j op => j = k ∧ op = .up
  | .lockAdd j op => j = k ∧ op = .up
  | .lockBlock j op => j = k ∧ op = .up
  | .body j op => j = k ∧ op = .up
  | .upHand j => j = k
  | .upDel j => j = k
  | _ => False

/-- The task is in a down that has its token; `waits` is whether it is on the list. -/
def Place.Carries (k : ℕ) (waits : Prop) : Place → Prop
  | .unlock j token => j = k ∧ token = true
  | .downReturn j => j = k ∧ ¬waits
  | _ => False

/-- The task is on its way to sleep, on the list already. -/
def Place.Going (k : ℕ) (p : Place) : Prop := p = .downUnlock k ∨ p = .downBlock k

/-- Two places that are the same to the account of a semaphore. -/
structure Place.Alike (k : ℕ) (p p' : Place) : Prop where
  raises : p'.Raises k ↔ p.Raises k
  carries : ∀ w, p'.Carries k w ↔ p.Carries k w
  going : p'.Going k ↔ p.Going k
  adding : p' = .downAdd k → p = .downAdd k

theorem Place.Alike.refl (k : ℕ) (p : Place) : Place.Alike k p p :=
  ⟨Iff.rfl, fun _ => Iff.rfl, Iff.rfl, id⟩

/-- A place in a call on another semaphore, or in none, is nowhere to this one. -/
theorem Place.nowhere {k : ℕ} {p : Place} (h : p.sema ≠ some k) :
    ¬p.Raises k ∧ (∀ w, ¬p.Carries k w) ∧ ¬p.Going k ∧ p ≠ .downAdd k := by
  cases p <;> simp_all [Place.sema, Place.Raises, Place.Carries, Place.Going]

theorem Place.alike_of_ne {k : ℕ} {p p' : Place} (h : p.sema ≠ some k) (h' : p'.sema ≠ some k) :
    Place.Alike k p p' := by
  obtain ⟨hraises, hcarries, hgoing, -⟩ := Place.nowhere h
  obtain ⟨hraises', hcarries', hgoing', hadd'⟩ := Place.nowhere h'
  exact ⟨iff_of_false hraises' hraises, fun w => iff_of_false (hcarries' w) (hcarries w),
    iff_of_false hgoing' hgoing, fun heq => absurd heq hadd'⟩

/-- A step in a call on one semaphore, or out of it, is on no other. -/
theorem Place.apart {k : ℕ} {p p' : Place} (hp : p.sema = none ∨ p.sema = some k)
    (hp' : p'.sema = none ∨ p'.sema = some k) (j : ℕ) (hj : j ≠ k) :
    p.sema ≠ some j ∧ p'.sema ≠ some j := by
  have hne : ∀ {q : Place}, q.sema = none ∨ q.sema = some k → q.sema ≠ some j := by
    rintro q (hq | hq)
    · rw [hq]
      exact (Option.some_ne_none j).symm
    · rw [hq]
      exact fun heq => hj (Option.some.inj heq).symm
  exact ⟨hne hp, hne hp'⟩

theorem Place.not_going {k : ℕ} {p : Place} (h : p ≠ .downUnlock k) (h' : p ≠ .downBlock k) :
    ¬p.Going k := by
  rintro (heq | heq)
  · exact h heq
  · exact h' heq

/-! ## The account of one semaphore -/

/-- The tokens of a semaphore of initial value `v`, and where the tasks are that have to do with
them. -/
structure Account (v k : ℕ) (s : KState) : Prop where
  balanced : Tokens.Balanced v (s.counter k) (s.ledger k)
  /-- Nobody waits while there are tokens. -/
  empty : 0 < s.counter k → ∀ t, (.sema k, t) ∉ s.links
  adding : ∀ t, s.place t = .downAdd k → s.counter k ≤ 0
  listed : ∀ t, (s.place t).Going k → (.sema k, t) ∈ s.links
  carried : ∀ t, t ∈ (s.ledger k).carried ↔ (s.place t).Carries k ((.sema k, t) ∈ s.links)
  raising : ∀ t, t ∈ (s.ledger k).raising ↔ (s.place t).Raises k

section Account

variable {v k t : ℕ} {s s' : KState} {p p' : Place}

/-- What is true of the task that moved and of the others is true of all. -/
theorem place_cases {Q : ℕ → Place → Prop} (hplace : s'.place = Function.update s.place t p')
    (ht : Q t p') (hrest : ∀ x, x ≠ t → Q x (s.place x)) (x : ℕ) : Q x (s'.place x) := by
  rw [hplace]
  by_cases hx : x = t
  · rw [hx, Function.update_self]
    exact ht
  · rw [Function.update_of_ne hx]
    exact hrest x hx

/-- **One task moves**: what has to be true of it afterwards, as nothing changes for the others. -/
theorem Account.step (h : Account v k s) (hplace : s'.place = Function.update s.place t p')
    (hbalanced : Tokens.Balanced v (s'.counter k) (s'.ledger k))
    (hempty : 0 < s'.counter k → ∀ x, (.sema k, x) ∉ s'.links)
    (hadding : ∀ x, s.place x = .downAdd k ∨ p' = .downAdd k → s'.counter k ≤ 0)
    (hlisted : p'.Going k → (.sema k, t) ∈ s'.links)
    (hcarried : t ∈ (s'.ledger k).carried ↔ p'.Carries k ((.sema k, t) ∈ s'.links))
    (hraising : t ∈ (s'.ledger k).raising ↔ p'.Raises k)
    (hrest : ∀ x, x ≠ t → ((.sema k, x) ∈ s'.links ↔ (.sema k, x) ∈ s.links) ∧
      (x ∈ (s'.ledger k).carried ↔ x ∈ (s.ledger k).carried) ∧
      (x ∈ (s'.ledger k).raising ↔ x ∈ (s.ledger k).raising)) : Account v k s' := by
  refine ⟨hbalanced, hempty, ?_, ?_, ?_, ?_⟩
  · exact place_cases (Q := fun _ p => p = .downAdd k → s'.counter k ≤ 0) hplace
      (fun hp => hadding t (Or.inr hp)) fun x _ hp => hadding x (Or.inl hp)
  · exact place_cases (Q := fun x p => p.Going k → (.sema k, x) ∈ s'.links) hplace hlisted
      fun x hx hp => (hrest x hx).1.2 (h.listed x hp)
  · refine place_cases (Q := fun x p => x ∈ (s'.ledger k).carried ↔
      p.Carries k ((.sema k, x) ∈ s'.links))
      hplace hcarried fun x hx => ?_
    obtain ⟨hlinks, hold, -⟩ := hrest x hx
    rw [hold, hlinks]
    exact h.carried x
  · refine place_cases (Q := fun x p => x ∈ (s'.ledger k).raising ↔ p.Raises k) hplace hraising
      fun x hx => ?_
    rw [(hrest x hx).2.2]
    exact h.raising x

/-- **A step that is nothing to the semaphore.** -/
theorem Account.same (h : Account v k s) (hplace : s'.place = Function.update s.place t p')
    (halike : Place.Alike k (s.place t) p')
    (hlinks : ∀ x, (.sema k, x) ∈ s'.links ↔ (.sema k, x) ∈ s.links)
    (hcounter : s'.counter k = s.counter k) (hledger : s'.ledger k = s.ledger k) :
    Account v k s' := by
  refine h.step hplace (by rw [hcounter, hledger]; exact h.balanced) (fun hpos x => ?_)
    (fun x hx => ?_) (fun hp => (hlinks t).2 (h.listed t (halike.going.1 hp))) ?_ ?_
    fun x _ => ⟨hlinks x, by rw [hledger], by rw [hledger]⟩
  · rw [hlinks]
    exact h.empty (hcounter ▸ hpos) x
  · rw [hcounter]
    rcases hx with hx | hp
    · exact h.adding x hx
    · exact h.adding t (halike.adding hp)
  · rw [hledger, hlinks, h.carried t]
    exact (halike.carries _).symm
  · rw [hledger, h.raising t]
    exact halike.raises.symm

/-- A task that is in no call on the semaphore is not in its account. -/
theorem Account.not_mem (h : Account v k s) (hplace : s.place t = p) :
    (¬p.Carries k ((.sema k, t) ∈ s.links) → t ∉ (s.ledger k).carried) ∧
      (¬p.Raises k → t ∉ (s.ledger k).raising) := by
  constructor
  · intro hp hmem
    exact hp (hplace ▸ (h.carried t).1 hmem)
  · intro hp hmem
    exact hp (hplace ▸ (h.raising t).1 hmem)

theorem Account.empty_of (h : Account v k s) (hlinks : s'.links = s.links)
    (hcounter : s'.counter k = s.counter k) (hpos : 0 < s'.counter k) (x : ℕ) :
    (.sema k, x) ∉ s'.links := by
  rw [hcounter] at hpos
  rw [hlinks]
  exact h.empty hpos x

theorem Account.adding_of (h : Account v k s) (hcounter : s'.counter k = s.counter k)
    (hp' : p' ≠ .downAdd k) (x : ℕ) (hx : s.place x = .downAdd k ∨ p' = .downAdd k) :
    s'.counter k ≤ 0 := by
  rw [hcounter]
  obtain hx | hx := hx
  · exact h.adding x hx
  · exact absurd hx hp'

/-- **A free token is taken.** -/
theorem Account.take {op : SemaOp} (h : Account v k s) (hp : s.place t = .body k op)
    (hop : op ≠ .up)
    (hpos : 0 < s.counter k) (hplace : s'.place = Function.update s.place t (.unlock k true))
    (hlinks : s'.links = s.links) (hcounter : s'.counter k = s.counter k - 1)
    (hledger : s'.ledger k = (s.ledger k).take t) : Account v k s' := by
  obtain ⟨hcarried, hraising⟩ := h.not_mem hp
  have hfree : t ∉ (s.ledger k).carried := hcarried (by simp [Place.Carries])
  have hquiet : t ∉ (s.ledger k).raising := hraising (by simp [Place.Raises, hop])
  have hgoing : ¬(Place.unlock k true).Going k := Place.not_going (by simp) (by simp)
  refine h.step hplace ?_ (fun _ x => ?_) (fun x hx => ?_) (absurd · hgoing) ?_ ?_ fun x hx => ?_
  · rw [hcounter, hledger]
    exact h.balanced.take hpos hfree
  · rw [hlinks]
    exact h.empty hpos x
  · rcases hx with hx | hx
    · have := h.adding x hx
      omega
    · cases hx
  · rw [hledger]
    simp [Tokens.Ledger.take, Place.Carries]
  · rw [hledger]
    exact iff_of_false hquiet (by simp [Place.Raises])
  · rw [hledger, hlinks]
    refine ⟨Iff.rfl, ?_, Iff.rfl⟩
    simp [Tokens.Ledger.take, hx]

/-- There is no token, so the task will have to wait. -/
theorem Account.short {op : SemaOp} (h : Account v k s) (hp : s.place t = .body k op)
    (hop : op ≠ .up)
    (hzero : s.counter k ≤ 0) (hplace : s'.place = Function.update s.place t (.downAdd k))
    (hlinks : s'.links = s.links) (hcounter : s'.counter k = s.counter k)
    (hledger : s'.ledger k = s.ledger k) : Account v k s' := by
  obtain ⟨hcarried, hraising⟩ := h.not_mem hp
  have hgoing : ¬(Place.downAdd k).Going k := Place.not_going (by simp) (by simp)
  refine h.step hplace (by rw [hcounter, hledger]; exact h.balanced) (fun hpos => ?_)
    (fun _ _ => by rw [hcounter]; exact hzero) (absurd · hgoing) ?_ ?_
    fun x _ => ⟨by rw [hlinks], by rw [hledger], by rw [hledger]⟩
  · rw [hcounter] at hpos
    omega
  · rw [hledger]
    exact iff_of_false (hcarried (by simp [Place.Carries])) (by simp [Place.Carries])
  · rw [hledger]
    exact iff_of_false (hraising (by simp [Place.Raises, hop])) (by simp [Place.Raises])

/-- **A token becomes free**, as nobody waits. -/
theorem Account.raise (h : Account v k s) (hp : s.place t = .body k .up)
    (hothers : ∀ x, s.place x ≠ .downAdd k) (hempty : ∀ x, (.sema k, x) ∉ s.links)
    (hplace : s'.place = Function.update s.place t (.unlock k false))
    (hlinks : s'.links = s.links) (hcounter : s'.counter k = s.counter k + 1)
    (hledger : s'.ledger k = (s.ledger k).raise t) : Account v k s' := by
  have hmem : t ∈ (s.ledger k).raising := (h.raising t).2 (by rw [hp]; exact ⟨rfl, rfl⟩)
  have hfree : t ∉ (s.ledger k).carried := (h.not_mem hp).1 (by simp [Place.Carries])
  have hgoing : ¬(Place.unlock k false).Going k := Place.not_going (by simp) (by simp)
  refine h.step hplace ?_ (fun _ x => by rw [hlinks]; exact hempty x) (fun x hx => ?_)
    (absurd · hgoing) ?_ ?_ fun x hx => ?_
  · rw [hcounter, hledger]
    exact h.balanced.raise hmem
  · rcases hx with hx | hx
    · exact absurd hx (hothers x)
    · cases hx
  · rw [hledger]
    exact iff_of_false hfree (by simp [Place.Carries])
  · rw [hledger]
    simp [Tokens.Ledger.raise, Place.Raises]
  · rw [hledger, hlinks]
    refine ⟨Iff.rfl, Iff.rfl, ?_⟩
    simp [Tokens.Ledger.raise, hx]

/-- **A task puts itself on the list.** -/
theorem Account.enlist (h : Account v k s) (hp : s.place t = .downAdd k)
    (hplace : s'.place = Function.update s.place t (.downUnlock k))
    (hlinks : s'.links = s.links ++ [(.sema k, t)]) (hcounter : s'.counter k = s.counter k)
    (hledger : s'.ledger k = s.ledger k) : Account v k s' := by
  have hzero := h.adding t hp
  obtain ⟨hcarried, hraising⟩ := h.not_mem hp
  refine h.step hplace (by rw [hcounter, hledger]; exact h.balanced) (fun hpos => ?_)
    (fun x _ => ?_) (fun _ => ?_) ?_ ?_ fun x hx => ?_
  · rw [hcounter] at hpos
    omega
  · rw [hcounter]
    exact hzero
  · rw [hlinks]
    exact List.mem_append_right _ (List.mem_singleton_self _)
  · rw [hledger]
    exact iff_of_false (hcarried (by simp [Place.Carries])) (by simp [Place.Carries])
  · rw [hledger]
    exact iff_of_false (hraising (by simp [Place.Raises])) (by simp [Place.Raises])
  · rw [hledger, hlinks]
    refine ⟨?_, Iff.rfl, Iff.rfl⟩
    simp [hx]

/-- **A task on the list goes to sleep**, without a token. -/
theorem Account.sleep (h : Account v k s) (hp : s.place t = .downBlock k)
    (hplace : s'.place = Function.update s.place t (.downReturn k))
    (hlinks : s'.links = s.links) (hcounter : s'.counter k = s.counter k)
    (hledger : s'.ledger k = s.ledger k) : Account v k s' := by
  have hmem := h.listed t (by rw [hp]; exact Or.inr rfl)
  obtain ⟨hcarried, hraising⟩ := h.not_mem hp
  have hgoing : ¬(Place.downReturn k).Going k := Place.not_going (by simp) (by simp)
  refine h.step hplace (by rw [hcounter, hledger]; exact h.balanced) (h.empty_of hlinks hcounter)
    (h.adding_of hcounter (by simp)) (absurd · hgoing) ?_ ?_
    fun x _ => ⟨by rw [hlinks], by rw [hledger], by rw [hledger]⟩
  · rw [hledger, hlinks]
    exact iff_of_false (hcarried (by simp [Place.Carries])) fun hc => hc.2 hmem
  · rw [hledger]
    exact iff_of_false (hraising (by simp [Place.Raises])) (by simp [Place.Raises])

/-- **A down completes**, with its token. -/
theorem Account.finish (h : Account v k s) (hp : s.place t = p)
    (hcarries : p.Carries k ((.sema k, t) ∈ s.links))
    (hplace : s'.place = Function.update s.place t .out)
    (hlinks : ∀ x, (.sema k, x) ∈ s'.links ↔ (.sema k, x) ∈ s.links)
    (hcounter : s'.counter k = s.counter k)
    (hledger : s'.ledger k = (s.ledger k).finish t) : Account v k s' := by
  have hmem : t ∈ (s.ledger k).carried := (h.carried t).2 (by rw [hp]; exact hcarries)
  have hquiet : t ∉ (s.ledger k).raising := (h.not_mem hp).2 (by
    cases p <;> simp_all [Place.Carries, Place.Raises])
  have hgoing : ¬Place.out.Going k := Place.not_going (by simp) (by simp)
  refine h.step hplace ?_ (fun hpos x => ?_) (h.adding_of hcounter (by simp))
    (absurd · hgoing) ?_ ?_
    fun x hx => ?_
  · rw [hcounter, hledger]
    exact h.balanced.finish hmem
  · rw [hlinks]
    exact h.empty (hcounter ▸ hpos) x
  · rw [hledger]
    simp [Tokens.Ledger.finish, Place.Carries]
  · rw [hledger]
    exact iff_of_false hquiet (by simp [Place.Raises])
  · rw [hledger]
    refine ⟨hlinks x, ?_, Iff.rfl⟩
    simp [Tokens.Ledger.finish, hx]

/-- **An up begins.** -/
theorem Account.call (h : Account v k s) (hp : s.place t = .out)
    (hplace : s'.place = Function.update s.place t (.lockTry k .up))
    (hlinks : s'.links = s.links) (hcounter : s'.counter k = s.counter k)
    (hledger : s'.ledger k = (s.ledger k).call t) : Account v k s' := by
  obtain ⟨hcarried, hraising⟩ := h.not_mem hp
  have hgoing : ¬(Place.lockTry k .up).Going k := Place.not_going (by simp) (by simp)
  refine h.step hplace ?_ (h.empty_of hlinks hcounter) (h.adding_of hcounter (by simp))
    (absurd · hgoing) ?_ ?_ fun x hx => ?_
  · rw [hcounter, hledger]
    exact h.balanced.call (hraising (by simp [Place.Raises]))
  · rw [hledger]
    exact iff_of_false (hcarried (by simp [Place.Carries])) (by simp [Place.Carries])
  · rw [hledger]
    simp [Tokens.Ledger.call, Place.Raises]
  · rw [hledger, hlinks]
    refine ⟨Iff.rfl, Iff.rfl, ?_⟩
    simp [Tokens.Ledger.call, hx]

/-- An up has its effect on nobody. -/
theorem Account.drop (h : Account v k s) (hp : s.place t = .upHand k)
    (hplace : s'.place = Function.update s.place t (.unlock k false))
    (hlinks : s'.links = s.links) (hcounter : s'.counter k = s.counter k)
    (hledger : s'.ledger k = (s.ledger k).raise t) : Account v k s' := by
  have hmem : t ∈ (s.ledger k).raising := (h.raising t).2 (by rw [hp]; rfl)
  have hfree : t ∉ (s.ledger k).carried := (h.not_mem hp).1 (by simp [Place.Carries])
  have hgoing : ¬(Place.unlock k false).Going k := Place.not_going (by simp) (by simp)
  refine h.step hplace ?_ (h.empty_of hlinks hcounter) (h.adding_of hcounter (by simp))
    (absurd · hgoing) ?_ ?_ fun x hx => ?_
  · rw [hcounter, hledger]
    exact h.balanced.drop hmem
  · rw [hledger]
    exact iff_of_false hfree (by simp [Place.Carries])
  · rw [hledger]
    simp [Tokens.Ledger.raise, Place.Raises]
  · rw [hledger, hlinks]
    refine ⟨Iff.rfl, Iff.rfl, ?_⟩
    simp [Tokens.Ledger.raise, hx]

/-- **An up hands its token to a waiter.** -/
theorem Account.hand {w : ℕ} (h : Account v k s) (hp : s.place t = .upDel k)
    (hw : s.place w = .downReturn k)
    (hwait : (.sema k, w) ∈ s.links) (hplace : s'.place = Function.update s.place t (.upLeave k))
    (hgone : (.sema k, w) ∉ s'.links)
    (hlinks : ∀ x, x ≠ w → ((.sema k, x) ∈ s'.links ↔ (.sema k, x) ∈ s.links))
    (hcounter : s'.counter k = s.counter k) (hledger : s'.ledger k =
      ((s.ledger k).raise t).take w) :
    Account v k s' := by
  have hmem : t ∈ (s.ledger k).raising := (h.raising t).2 (by rw [hp]; rfl)
  have hfree : t ∉ (s.ledger k).carried := (h.not_mem hp).1 (by simp [Place.Carries])
  have hwfree : w ∉ (s.ledger k).carried := (h.not_mem hw).1 fun hc => hc.2 hwait
  have hne : w ≠ t := by
    rintro rfl
    rw [hp] at hw
    cases hw
  refine ⟨?_, fun hpos => ?_, ?_, ?_, ?_, ?_⟩
  · rw [hcounter, hledger]
    exact h.balanced.grant hmem hwfree
  · rw [hcounter] at hpos
    exact absurd hwait (h.empty hpos w)
  · rw [hcounter]
    exact place_cases (Q := fun _ p => p = .downAdd k → s.counter k ≤ 0) hplace
      (fun hp => by cases hp)
      fun x _ => h.adding x
  · refine place_cases (Q := fun x p => p.Going k → (.sema k, x) ∈ s'.links) hplace
      (fun hgoing => ?_)
      fun x _ hgoing => ?_
    · rcases hgoing with heq | heq <;> cases heq
    · refine (hlinks x ?_).2 (h.listed x hgoing)
      rintro rfl
      rw [hw] at hgoing
      rcases hgoing with heq | heq <;> cases heq
  · refine place_cases (Q := fun x p => x ∈ (s'.ledger k).carried ↔
      p.Carries k ((.sema k, x) ∈ s'.links))
      hplace ?_ fun x _ => ?_
    · rw [hledger]
      exact iff_of_false (by simp [Tokens.Ledger.take, Tokens.Ledger.raise, hne.symm, hfree])
        (by simp [Place.Carries])
    · rw [hledger]
      by_cases hxw : x = w
      · rw [hxw, hw]
        exact iff_of_true (Finset.mem_insert_self w _) ⟨rfl, hgone⟩
      · rw [hlinks x hxw, ← h.carried x]
        simp [Tokens.Ledger.take, Tokens.Ledger.raise, hxw]
  · refine place_cases (Q := fun x p => x ∈ (s'.ledger k).raising ↔ p.Raises k) hplace ?_ fun x
      hx => ?_
    · rw [hledger]
      simp [Tokens.Ledger.take, Tokens.Ledger.raise, Place.Raises]
    · rw [hledger, ← h.raising x]
      simp [Tokens.Ledger.take, Tokens.Ledger.raise, hx]

end Account

/-! ## All semaphores -/

/-- The accounts of the semaphores, of initial values `v`. -/
structure SemaInv (v : ℕ → ℕ) (s : KState) : Prop where
  kern : KernInv s
  account : ∀ k, Account (v k) k s
  /-- A task that is not there is in no call. -/
  fresh : ∀ t, s.sched.tasks t = none → s.place t = .out

section Inv

variable {v : ℕ → ℕ} {s s' : KState} {k t : ℕ} {p p' : Place}

theorem SemaInv.queues (h : SemaInv v s) : QueuesInv s := h.kern.queues

theorem SemaInv.cur_exists (h : SemaInv v s) : s.sched.tasks s.sched.cur ≠ none := by
  obtain ⟨T, hT, -⟩ := h.queues.sched.cur
  rw [hT]
  exact Option.some_ne_none T

/-- Nobody but the task that has the lock is about to put itself on the list. -/
theorem SemaInv.not_adding (h : SemaInv v s) (hp : s.place t = p) (hholds : p.Holds k)
    (hne : p ≠ .downAdd k)
    (x : ℕ) : s.place x ≠ .downAdd k := by
  intro hx
  have hxt := h.kern.alone k x t (by rw [hx]; rfl) (by rw [hp]; exact hholds)
  rw [hxt, hp] at hx
  exact hne hx

/-- Only nodes that are on no semaphore's list leave: nothing changes for the semaphores. -/
theorem Frees.sema {P : ℕ → Prop} {r : KState} (h : Frees P s s') (hlinks : s.links = r.links)
    (hP : ∀ t, P t → ∀ k, (.sema k, t) ∉ r.links) (k t : ℕ) :
    (.sema k, t) ∈ s'.links ↔ (.sema k, t) ∈ r.links := by
  constructor
  · intro hmem
    rw [← hlinks]
    exact h.sub.subset hmem
  · intro hmem
    exact h.kept _ (hlinks ▸ hmem) fun hPt => hP t hPt k hmem

/-- A node on another list is on no semaphore's. -/
theorem QueuesInv.not_sema (h : QueuesInv s) {l : WaitList} (hl : ∀ k, l ≠ .sema k)
    (ht : (l, t) ∈ s.links)
    (k : ℕ) : (.sema k, t) ∉ s.links := fun hmem => hl k (h.link_unique ht hmem)

/-- **A step of the current task that is nothing to any semaphore.** -/
theorem SemaInv.move (h : SemaInv v s) (hinv : KernInv s')
    (hplace : s'.place = Function.update s.place s.sched.cur p')
    (halike : ∀ k, Place.Alike k (s.place s.sched.cur) p')
    (hlinks : ∀ k x, (.sema k, x) ∈ s'.links ↔ (.sema k, x) ∈ s.links)
    (hcounter : s'.counter = s.counter) (hledger : s'.ledger = s.ledger)
    (hfresh : ∀ t, s'.sched.tasks t = none → s.sched.tasks t = none) : SemaInv v s' := by
  refine ⟨hinv, fun k => (h.account k).same hplace (halike k) (hlinks k) (by rw [hcounter])
    (by rw [hledger]), fun t ht => ?_⟩
  rw [hplace, Function.update_of_ne]
  · exact h.fresh t (hfresh t ht)
  · rintro rfl
    exact h.cur_exists (hfresh _ ht)

/-- A step in which the current task stays where it is. -/
theorem SemaInv.stay (h : SemaInv v s) (hinv : KernInv s') (hplace : s'.place = s.place)
    (hlinks : ∀ k x, (.sema k, x) ∈ s'.links ↔ (.sema k, x) ∈ s.links)
    (hcounter : s'.counter = s.counter) (hledger : s'.ledger = s.ledger)
    (hfresh : ∀ t, s'.sched.tasks t = none → s.sched.tasks t = none) : SemaInv v s' :=
  h.move hinv (by rw [hplace, Function.update_eq_self])
    (fun k => .refl k _) hlinks hcounter hledger hfresh

/-- **A step of the current task in a call on semaphore `k`**: the others see nothing of it. -/
theorem SemaInv.inCall (h : SemaInv v s) (hinv : KernInv s')
    (hplace : s'.place = Function.update s.place s.sched.cur p')
    (hp : s.place s.sched.cur = p) (hsema : ∀ j, j ≠ k → p.sema ≠ some j ∧ p'.sema ≠ some j)
    (hlinks : ∀ j, j ≠ k → ∀ x, (.sema j, x) ∈ s'.links ↔ (.sema j, x) ∈ s.links)
    (hothers : ∀ j, j ≠ k → s'.counter j = s.counter j ∧ s'.ledger j = s.ledger j)
    (haccount : Account (v k) k s')
    (hfresh : ∀ t, s'.sched.tasks t = none → s.sched.tasks t = none) : SemaInv v s' := by
  refine ⟨hinv, fun j => ?_, fun t ht => ?_⟩
  · by_cases hj : j = k
    · rw [hj]
      exact haccount
    · obtain ⟨hcounter, hledger⟩ := hothers j hj
      exact (h.account j).same hplace (hp ▸ Place.alike_of_ne (hsema j hj).1 (hsema j hj).2)
        (hlinks j hj)
        hcounter hledger
  · rw [hplace, Function.update_of_ne]
    · exact h.fresh t (hfresh t ht)
    · rintro rfl
      exact h.cur_exists (hfresh _ ht)

end Inv

/-! ## No task goes away -/

section Fresh

variable {s s' : KState} {t k q x : ℕ}

theorem taskWakeup_eq_none (hrun : taskWakeup s t = some s') (h : s'.sched.tasks x = none) :
    s.sched.tasks x = none := by
  rw [taskWakeup] at hrun
  split_ifs at hrun
  · obtain ⟨sched, hsched, rfl⟩ := Option.map_eq_some_iff.1 hrun
    exact taskUnblock_eq_none hsched h
  · obtain ⟨sched, hsched, rfl⟩ := Option.map_eq_some_iff.1 hrun
    exact taskUnblock_eq_none hsched h
  · cases hrun
    exact h

theorem waitQueueWakeup_eq_none (hrun : waitQueueWakeup s q = some s')
    (h : s'.sched.tasks x = none) :
    s.sched.tasks x = none := by
  rw [waitQueueWakeup] at hrun
  split at hrun
  · cases hrun
    exact h
  · have hx := taskWakeup_eq_none hrun h
    exact hx

theorem mutexUnlock_eq_none (hrun : mutexUnlock s k = some s') (h : s'.sched.tasks x = none) :
    s.sched.tasks x = none := by
  rw [mutexUnlock] at hrun
  dsimp only at hrun
  split_ifs at hrun
  · cases hrun
    exact h
  split at hrun
  · cases hrun
    exact h
  · have hx := taskWakeup_eq_none hrun h
    exact hx

theorem upAdd_eq_none {w : ℕ} (hrun : upAdd s k w = some s') (h : s'.sched.tasks x = none) :
    s.sched.tasks x = none := by
  obtain ⟨W, -, hrun⟩ := Option.bind_eq_some_iff.1 hrun
  obtain ⟨sched, hadd, rfl⟩ := Option.map_eq_some_iff.1 hrun
  have hx : sched.tasks x = none := h
  rw [(schedQueueAddTail_frame hadd).1] at hx
  exact setTask_eq_none hx

theorem block_eq_none {state : TaskState} (hrun : s.block state = some s')
    (h : s'.sched.tasks x = none) :
    s.sched.tasks x = none := by
  obtain ⟨sched, hsched, rfl⟩ := Option.map_eq_some_iff.1 hrun
  exact taskBlock_eq_none hsched h

end Fresh

/-! ## The events, one by one -/

def WaitList.isSema : WaitList → Bool
  | .sema _ => true
  | _ => false

/-- A task waits for a semaphore. -/
def KState.WaitsSema (s : KState) (t : ℕ) : Prop :=
  ∃ link ∈ s.links, link.2 = t ∧ link.1.isSema = true

instance (s : KState) (t : ℕ) : Decidable (s.WaitsSema t) :=
  inferInstanceAs (Decidable (∃ link ∈ s.links, _))

/-- No exception wakes a task that waits for a semaphore, and no counter overflows. -/
def TokenSafe (s : KState) (e : KEvent) : Prop :=
  Undisturbed s e ∧
    match e with
    | .exceptionSend t code m created => sendWakes s t code m created → TaskNotReady s t →
        ¬s.WaitsSema t
    | .run =>
        ∀ k ∈ (s.place s.sched.cur).sema, s.place s.sched.cur = .body k .up →
          s.list (.sema k) = [] →
          s.counter k < 2 ^ 31 - 1
    | _ => True

instance (s : KState) : ∀ e, Decidable (TokenSafe s e)
  | .exceptionSend _ _ _ _ => inferInstanceAs (Decidable (_ ∧ (_ → _ → _)))
  | .run => inferInstanceAs (Decidable (_ ∧ ∀ k ∈ (_ : Option ℕ), _))
  | .preempt => inferInstanceAs (Decidable (_ ∧ True))
  | .waitQueueAdd _ => inferInstanceAs (Decidable (_ ∧ True))
  | .waitQueueSleepon _ => inferInstanceAs (Decidable (_ ∧ True))
  | .create _ _ => inferInstanceAs (Decidable (_ ∧ True))
  | .semaphore _ _ => inferInstanceAs (Decidable (_ ∧ True))
  | .taskBlock _ => inferInstanceAs (Decidable (_ ∧ True))
  | .wakeup _ => inferInstanceAs (Decidable (_ ∧ True))

section Events

variable {v : ℕ → ℕ} {s u s' : KState} {k : ℕ} {p p' : Place} {op : SemaOp}

/-- The places of `mutex_lock` and the one after it differ only in who has the lock. -/
theorem alike_mutexLock (j k : ℕ) (op : SemaOp) :
    Place.Alike j (.lockTry k op) (.lockAdd k op) ∧
      Place.Alike j (.lockAdd k op) (.lockBlock k op) ∧
      Place.Alike j (.lockBlock k op) (.lockTry k op) ∧
        Place.Alike j (.lockTry k op) (.body k op) := by
  refine ⟨⟨Iff.rfl, fun _ => Iff.rfl, ?_, ?_⟩, ⟨Iff.rfl, fun _ => Iff.rfl, ?_, ?_⟩,
    ⟨Iff.rfl, fun _ => Iff.rfl, ?_, ?_⟩, ⟨Iff.rfl, fun _ => Iff.rfl, ?_, ?_⟩⟩ <;> simp [Place.Going]

/-- The other semaphores see nothing of a change of semaphore `k`. -/
theorem update_others {α : Type} (f : ℕ → α) (a : α) {j : ℕ}
    (hj : j ≠ k) : Function.update f k a j = f j :=
  Function.update_of_ne hj ..

theorem wrapInt_of_lt {c : ℤ} (h : 0 ≤ c) (hlt : c < 2 ^ 31 - 1) : wrapInt (c + 1) = c + 1 := by
  unfold wrapInt
  exact Int.bmod_eq_of_le (by norm_num; omega) (by norm_num; omega)

/-- **A call on a semaphore with its lock taken.** -/
theorem SemaInv.body (h : SemaInv v s) (hp : s.place s.sched.cur = .body k op)
    (hsafe : op = .up → s.list (.sema k) = [] → s.counter k < 2 ^ 31 - 1)
    (hinv : KernInv (semaphoreBody s k op)) : SemaInv v (semaphoreBody s k op) := by
  have hadd := h.not_adding hp (k := k) rfl (by simp)
  have hcounter := (h.account k).balanced.nonneg
  -- one step in the call on `k`
  have hstep : ∀ {u : KState} {p' : Place}, KernInv u →
    u.place = Function.update s.place s.sched.cur p' →
      p'.sema = some k → u.links = s.links →
      (∀ j, j ≠ k → u.counter j = s.counter j ∧ u.ledger j = s.ledger j) →
      u.sched = s.sched → Account (v k) k u → SemaInv v u := by
    intro u p' hu hplace hsema hlinks hothers hsched haccount
    exact h.inCall hu hplace hp (Place.apart (Or.inr rfl) (Or.inr hsema))
      (fun j _ x => by rw [hlinks])
      hothers haccount fun t ht => hsched ▸ ht
  cases op with
  | down =>
      rw [semaphoreBody] at hinv ⊢
      split_ifs at hinv ⊢ with hpos
      · exact hstep hinv rfl rfl rfl (fun j hj => ⟨update_others _ _ hj, update_others _ _ hj⟩) rfl
          ((h.account k).take hp (by simp) hpos rfl rfl (Function.update_self ..)
            (Function.update_self ..))
      · exact hstep hinv rfl rfl rfl (fun j hj => ⟨rfl, rfl⟩) rfl
          ((h.account k).short hp (by simp) (not_lt.1 hpos) rfl rfl rfl rfl)
  | tryDown =>
      rw [semaphoreBody] at hinv ⊢
      split_ifs at hinv ⊢ with hpos
      · exact hstep hinv rfl rfl rfl (fun j hj => ⟨update_others _ _ hj, update_others _ _ hj⟩) rfl
          ((h.account k).take hp (by simp) hpos rfl rfl (Function.update_self ..)
            (Function.update_self ..))
      · refine hstep hinv rfl rfl rfl (fun j hj => ⟨rfl, rfl⟩) rfl
          ((h.account k).same rfl ?_ (fun _ => Iff.rfl) rfl rfl)
        rw [hp]
        constructor <;> simp [Place.Raises, Place.Carries, Place.Going]
  | up =>
      rw [semaphoreBody] at hinv ⊢
      split_ifs at hinv ⊢ with hempty
      · refine hstep hinv rfl rfl rfl (fun j hj => ⟨update_others _ _ hj, update_others _ _ hj⟩) rfl
          ((h.account k).raise hp hadd (fun x hx => ?_) rfl rfl ?_ (Function.update_self ..))
        · have hmem := mem_list.2 hx
          rw [hempty] at hmem
          cases hmem
        · exact (Function.update_self ..).trans (wrapInt_of_lt hcounter (hsafe rfl hempty))
      · refine hstep hinv rfl rfl rfl (fun j hj => ⟨rfl, rfl⟩) rfl
          ((h.account k).same rfl ?_ (fun _ => Iff.rfl) rfl rfl)
        rw [hp]
        constructor <;> simp [Place.Raises, Place.Carries, Place.Going]

/-- **`mutex_unlock` by the task that has the lock**, and the step to the place after it. -/
theorem SemaInv.unlock (h : SemaInv v s) (hinv : KernInv s') (hp : s.place s.sched.cur = p)
    (hu : mutexUnlock s k = some u) (hsched : s'.sched = u.sched) (hlinks : s'.links = u.links)
    (hcounter : s'.counter = u.counter)
    (hplace : s'.place = Function.update u.place s.sched.cur p')
    (hsema : ∀ j, j ≠ k → p.sema ≠ some j ∧ p'.sema ≠ some j)
    (hledger : ∀ j, j ≠ k → s'.ledger j = u.ledger j)
    (haccount : (∀ x, (.sema k, x) ∈ s'.links ↔ (.sema k, x) ∈ s.links) →
      s'.counter k = s.counter k →
      u.ledger k = s.ledger k → Account (v k) k s') : SemaInv v s' := by
  obtain ⟨hinvu, hfree⟩ := mutexUnlock_spec h.queues hu
  have hsame : ∀ j x, (.sema j, x) ∈ s'.links ↔ (.sema j, x) ∈ s.links := by
    intro j x
    rw [hlinks]
    exact hfree.sema (r := s) rfl (fun t ht => h.queues.not_sema (by simp) ht) j x
  have hplace' : s'.place = Function.update s.place s.sched.cur p' := by rw [hplace, hfree.place]
  have hcounter' : s'.counter = s.counter := by rw [hcounter, hfree.counter]
  refine h.inCall hinv hplace' hp hsema (fun j _ => hsame j) (fun j hj => ⟨by rw [hcounter'], ?_⟩)
    (haccount (hsame k) (by rw [hcounter']) (by rw [hfree.ledger])) fun t ht => ?_
  · rw [hledger j hj, hfree.ledger]
  · rw [hsched] at ht
    exact mutexUnlock_eq_none hu ht

/-- `__semaphore_up` drops its token, or has found a task that waits. -/
theorem SemaInv.hand (h : SemaInv v s) (hinv : KernInv (upHand s k))
    (hp : s.place s.sched.cur = .upHand k) :
    SemaInv v (upHand s k) := by
  unfold upHand at hinv ⊢
  split at hinv
  · exact h.inCall (k := k) hinv rfl hp (Place.apart (Or.inr rfl) (Or.inr rfl))
      (fun _ _ _ => Iff.rfl)
      (fun j hj => ⟨rfl, update_others _ _ hj⟩)
      ((h.account k).drop hp rfl rfl rfl (Function.update_self ..)) fun t ht => ht
  · refine h.move hinv rfl (fun j => ?_) (fun _ _ => Iff.rfl) rfl rfl fun t ht => ht
    rw [hp]
    constructor <;> simp [Place.Raises, Place.Carries, Place.Going]

/-- **The token goes to the waiter** with the node's leaving the list: the waiter sleeps in
`__semaphore_down` of this semaphore, and its node is on no other list. -/
theorem SemaInv.del {w : ℕ} (h : SemaInv v s) (hinv : KernInv (upDel s k w))
    (hp : s.place s.sched.cur = .upDel k) (hw : s.waiter k = some w)
    (hwait : (.sema k, w) ∈ s.links) :
    SemaInv v (upDel s k w) := by
  obtain ⟨hsched, -, hfree⟩ := h.queues.listDel (waits_of_mem hwait)
  have hkept : ∀ j x, x ≠ w → ((.sema j, x) ∈ (upDel s k w).links ↔ (.sema j, x) ∈ s.links) :=
    fun j x hx =>
    ⟨fun hmem => hfree.sub.subset hmem, fun hmem => hfree.kept _ hmem hx⟩
  refine h.inCall (k := k) hinv rfl hp (Place.apart (Or.inr rfl) (Or.inr rfl)) (fun j hj x => ?_)
    (fun j hj => ⟨rfl, update_others _ _ hj⟩)
    ((h.account k).hand hp (h.kern.waiter k w hw).place hwait rfl
      (fun hmem => not_waits_listDel (waits_of_mem hmem)) (hkept k) rfl (Function.update_self ..))
    fun t ht => ?_
  · refine ⟨fun hmem => hfree.sub.subset hmem, fun hmem => hfree.kept _ hmem ?_⟩
    rintro rfl
    exact hj (WaitList.sema.inj (h.queues.link_unique hmem hwait))
  · have ht : (s.listDel w).sched.tasks t = none := ht
    rwa [hsched] at ht

/-- The lines of `__semaphore_up` after `list_del` are nothing to the tokens. -/
theorem alike_upHand (j k : ℕ) :
    Place.Alike j (.upLeave k) (.upReady k) ∧ Place.Alike j (.upReady k) (.upAdd k) ∧
      Place.Alike j (.upAdd k) (.unlock k false) := by
  refine ⟨⟨Iff.rfl, fun _ => Iff.rfl, ?_, ?_⟩, ⟨Iff.rfl, fun _ => Iff.rfl, ?_, ?_⟩,
    ⟨Iff.rfl, fun _ => ?_, ?_, ?_⟩⟩ <;> simp [Place.Going, Place.Carries]

/-- **A step of the current task** keeps the semaphores. -/
theorem SemaInv.runCur (h : SemaInv v s) (hsafe : TokenSafe s .run) (hrun : runCur s = some s') :
    SemaInv v s' := by
  have hinv := runCur_inv h.kern hsafe.1 hrun
  have hcount := hsafe.2
  rw [WaitQueue.runCur] at hrun
  generalize hp : s.place s.sched.cur = p at hrun hcount
  cases p with
  | out => cases hrun
  | sleepBlock =>
      obtain ⟨sched, hsched, rfl⟩ := Option.map_eq_some_iff.1 hrun
      exact h.move hinv rfl (fun j => hp ▸ Place.alike_of_ne (by simp [Place.sema])
        (by simp [Place.sema]))
        (fun _ _ => Iff.rfl) rfl rfl fun t ht => taskBlock_eq_none hsched ht
  | lockTry k op =>
      rw [runAt] at hrun
      split_ifs at hrun with hlocked
      · cases hrun
        exact h.move hinv rfl (fun j => hp ▸ (alike_mutexLock j k op).1)
          (fun _ _ => Iff.rfl) rfl rfl
          fun t ht => ht
      · cases hrun
        exact h.move hinv rfl (fun j => hp ▸ (alike_mutexLock j k op).2.2.2)
          (fun _ _ => Iff.rfl) rfl rfl
          fun t ht => ht
  | lockAdd k op =>
      cases hrun
      refine h.move hinv rfl (fun j => hp ▸ (alike_mutexLock j k op).2.1)
        (fun j x => ?_) rfl rfl fun t ht => ht
      show (.sema j, x) ∈ s.links ++ [(.lock k, s.sched.cur)] ↔ _
      simp
  | lockBlock k op =>
      obtain ⟨sched, hsched, rfl⟩ := Option.map_eq_some_iff.1 hrun
      exact h.move hinv rfl (fun j => hp ▸ (alike_mutexLock j k op).2.2.1)
        (fun _ _ => Iff.rfl) rfl rfl
        fun t ht => taskBlock_eq_none hsched ht
  | body k op =>
      cases hrun
      refine h.body hp (fun hop hempty => ?_) hinv
      rw [hop] at hcount
      exact hcount k rfl rfl hempty
  | downAdd k =>
      cases hrun
      refine h.inCall (k := k) hinv rfl hp
        (Place.apart (Or.inr rfl) (Or.inr rfl)) (fun j hj x => ?_) (fun j hj => ⟨rfl, rfl⟩)
        ((h.account k).enlist hp rfl rfl rfl rfl) fun t ht => ht
      show (.sema j, x) ∈ s.links ++ [(.sema k, s.sched.cur)] ↔ _
      simp [hj]
  | downUnlock k =>
      obtain ⟨u, hu, rfl⟩ := Option.map_eq_some_iff.1 hrun
      have hplace : Function.update u.place s.sched.cur (.downBlock k) =
          Function.update s.place s.sched.cur (.downBlock k) := by
        rw [(mutexUnlock_spec h.queues hu).2.place]
      refine h.unlock hinv hp hu rfl rfl rfl rfl (Place.apart (Or.inr rfl) (Or.inr rfl))
        (fun _ _ => rfl) fun hlinks hcounter hledger => ?_
      refine (h.account k).same (t := s.sched.cur) hplace ?_ hlinks hcounter hledger
      rw [hp]
      constructor <;> simp [Place.Raises, Place.Carries, Place.Going]
  | downBlock k =>
      obtain ⟨sched, hsched, rfl⟩ := Option.map_eq_some_iff.1 hrun
      exact h.inCall (k := k) hinv rfl hp
        (Place.apart (Or.inr rfl) (Or.inr rfl)) (fun _ _ _ => Iff.rfl) (fun j hj => ⟨rfl, rfl⟩)
        ((h.account k).sleep hp rfl rfl rfl rfl) fun t ht => taskBlock_eq_none hsched ht
  | downReturn k =>
      cases hrun
      have hoff : (.sema k, s.sched.cur) ∉ s.links := h.queues.not_going k hp ⟨by simp, by simp⟩
      exact h.inCall (k := k) hinv rfl hp
        (Place.apart (Or.inr rfl) (Or.inl rfl)) (fun _ _ _ => Iff.rfl)
        (fun j hj => ⟨rfl, update_others _ _ hj⟩)
        ((h.account k).finish hp ⟨rfl, hoff⟩ rfl (fun _ => Iff.rfl) rfl (Function.update_self ..))
          fun t ht => ht
  | upHand k =>
      cases hrun
      exact h.hand hinv hp
  | upDel k =>
      obtain ⟨w, hw, rfl⟩ := Option.map_eq_some_iff.1 hrun
      obtain ⟨w', hw', hbefore, -⟩ := h.kern.hands k s.sched.cur (hp ▸ rfl)
      obtain rfl : w = w' := Option.some.inj (hw.symm.trans hw')
      exact h.del hinv hp hw (hbefore hp)
  | upLeave k =>
      obtain ⟨w, hw, rfl⟩ := Option.map_eq_some_iff.1 hrun
      exact h.move hinv rfl (fun j => hp ▸ (alike_upHand j k).1)
        (fun _ _ => Iff.rfl) rfl rfl fun t ht => ht
  | upReady k =>
      obtain ⟨w, hw, rfl⟩ := Option.map_eq_some_iff.1 hrun
      exact h.move hinv rfl (fun j => hp ▸ (alike_upHand j k).2.1)
        (fun _ _ => Iff.rfl) rfl rfl fun t ht => ht
  | upAdd k =>
      obtain ⟨w, hw, hadd⟩ := Option.bind_eq_some_iff.1 hrun
      have hfresh := fun t ht => upAdd_eq_none (x := t) hadd ht
      obtain ⟨W, -, hadd⟩ := Option.bind_eq_some_iff.1 hadd
      obtain ⟨sched, -, rfl⟩ := Option.map_eq_some_iff.1 hadd
      exact h.move hinv rfl (fun j => hp ▸ (alike_upHand j k).2.2)
        (fun _ _ => Iff.rfl) rfl rfl hfresh
  | unlock k token =>
      obtain ⟨u, hu, rfl⟩ := Option.map_eq_some_iff.1 hrun
      have hplace : Function.update u.place s.sched.cur .out =
          Function.update s.place s.sched.cur .out := by
        rw [(mutexUnlock_spec h.queues hu).2.place]
      cases token with
      | true =>
          refine h.unlock hinv hp hu rfl rfl rfl rfl (Place.apart (Or.inr rfl) (Or.inl rfl))
            (fun j hj => update_others _ _ hj) fun hlinks hcounter hledger => ?_
          refine (h.account k).finish hp ⟨rfl, rfl⟩ hplace hlinks hcounter ?_
          rw [← hledger]
          exact Function.update_self ..
      | false =>
          refine h.unlock hinv hp hu rfl rfl rfl rfl (Place.apart (Or.inr rfl) (Or.inl rfl))
            (fun _ _ => rfl) fun hlinks hcounter hledger => ?_
          refine (h.account k).same (t := s.sched.cur) hplace ?_ hlinks hcounter hledger
          rw [hp]
          constructor <;> simp [Place.Raises, Place.Carries, Place.Going]

/-- Waking tasks that wait for no semaphore is nothing to the semaphores. -/
theorem SemaInv.wake {P : ℕ → Prop} (h : SemaInv v s) (hinv : KernInv s') (hfree : Frees P s s')
    (hP : ∀ t, P t → ∀ k, (.sema k, t) ∉ s.links)
    (hfresh : ∀ t, s'.sched.tasks t = none → s.sched.tasks t = none) :
    SemaInv v s' :=
  h.stay hinv hfree.place (hfree.sema rfl hP) hfree.counter hfree.ledger hfresh

/-- The node of the current task goes on a wait queue. -/
theorem waitQueueAdd_sema {q : ℕ} (hu : waitQueueAdd s q = some u) :
    u.sched = s.sched ∧ u.place = s.place ∧ u.counter = s.counter ∧ u.ledger = s.ledger ∧
      ∀ j x, (.sema j, x) ∈ u.links ↔ (.sema j, x) ∈ s.links := by
  rw [waitQueueAdd] at hu
  split_ifs at hu
  cases hu
  refine ⟨rfl, rfl, rfl, rfl, fun j x => ?_⟩
  change _ ∈ s.links ++ _ ↔ _
  simp

/-- **Every event keeps the semaphores.** -/
theorem SemaInv.kstep (s : KState) (e : KEvent) (s' : KState) (h : SemaInv v s)
    (hsafe : TokenSafe s e) (hrun : kstep s e = some s') : SemaInv v s' := by
  have hinv := kstep_inv s e s' h.kern hsafe.1 hrun
  cases e with
  | run => exact h.runCur hsafe hrun
  | preempt =>
      obtain ⟨sched, hsched, rfl⟩ := Option.map_eq_some_iff.1 hrun
      exact h.stay hinv rfl (fun _ _ => Iff.rfl) rfl rfl fun t ht => schedule_eq_none hsched ht
  | create t level =>
      obtain ⟨sched, hsched, rfl⟩ := Option.map_eq_some_iff.1 hrun
      obtain ⟨hnone, hkeep, -, -⟩ := taskCreate_frame hsched
      have hplace : Function.update s.place t .out = s.place := by
        rw [← h.fresh t hnone, Function.update_eq_self]
      refine h.stay hinv hplace (fun _ _ => Iff.rfl) rfl rfl fun x hx => ?_
      by_cases hxt : x = t
      · rw [hxt, hnone]
      · rw [← hkeep x hxt]
        exact hx
  | waitQueueAdd q =>
      rw [WaitQueue.kstep] at hrun
      split_ifs at hrun with hcan
      obtain ⟨hsched, hplace, hcounter, hledger, hlinks⟩ := waitQueueAdd_sema hrun
      exact h.stay hinv hplace hlinks hcounter hledger fun t ht => hsched ▸ ht
  | waitQueueSleepon q =>
      rw [WaitQueue.kstep] at hrun
      split_ifs at hrun with hcan
      obtain ⟨u, hu, rfl⟩ := Option.map_eq_some_iff.1 hrun
      obtain ⟨hsched, hplace, hcounter, hledger, hlinks⟩ := waitQueueAdd_sema hu
      have hplace' : Function.update u.place s.sched.cur .sleepBlock =
          Function.update s.place s.sched.cur .sleepBlock := by rw [hplace]
      refine h.move hinv hplace' (fun j => ?_) hlinks hcounter hledger fun t ht => hsched ▸ ht
      exact Place.alike_of_ne (by rw [hcan.1]; simp [Place.sema]) (by simp [Place.sema])
  | semaphore k op =>
      rw [WaitQueue.kstep] at hrun
      split_ifs at hrun with hcan
      cases hrun
      unfold semaphoreCall at hinv ⊢
      dsimp only at hinv ⊢
      split_ifs at hinv ⊢ with hop
      · subst hop
        exact h.inCall (k := k) hinv rfl hcan.1
          (Place.apart (Or.inl rfl) (Or.inr rfl)) (fun _ _ _ => Iff.rfl)
          (fun j hj => ⟨rfl, update_others _ _ hj⟩)
          ((h.account k).call hcan.1 rfl rfl rfl (Function.update_self ..))
          fun t ht => ht
      · refine h.move hinv rfl (fun j => ?_) (fun _ _ => Iff.rfl) rfl rfl fun t ht => ht
        rw [hcan.1]
        constructor <;> simp [Place.Raises, Place.Carries, Place.Going, hop]
  | taskBlock state =>
      rw [WaitQueue.kstep] at hrun
      split_ifs at hrun with hcan
      have hfresh := fun t ht => block_eq_none (x := t) hrun ht
      obtain ⟨sched, hsched, rfl⟩ := Option.map_eq_some_iff.1 hrun
      exact h.stay hinv rfl (fun _ _ => Iff.rfl) rfl rfl hfresh
  | wakeup q =>
      obtain ⟨-, hfree⟩ := waitQueueWakeup_spec h.queues hrun
      exact h.wake hinv hfree (fun t ht => h.queues.not_sema (by simp) ht) fun t ht =>
        waitQueueWakeup_eq_none hrun ht
  | exceptionSend t code m created =>
      rw [WaitQueue.kstep, exceptionSend] at hrun
      split_ifs at hrun with hwakes
      · have hfresh := fun x hx => taskWakeup_eq_none (x := x) hrun hx
        by_cases hready : TaskNotReady s t
        · obtain ⟨-, hfree⟩ := taskWakeup_spec h.queues (fun _ => (hsafe.1.2 hwakes hready).1) hrun
          refine h.wake hinv hfree (fun x hx k hmem => ?_) hfresh
          exact hsafe.2 hwakes hready ⟨_, hmem, hx, rfl⟩
        · rw [taskWakeup, if_neg hready] at hrun
          cases hrun
          exact h
      · cases hrun
        exact h

end Events

/-! ## The main result -/

/-- A semaphore of initial value `v`. -/
structure SemaOk (v : ℕ) (s : KState) (k : ℕ) : Prop where
  /-- The downs and the successful try-downs that have completed, and the ups. -/
  completed : (s.ledger k).finished ≤ v + (s.ledger k).raised
  counter : 0 ≤ s.counter k
  waiting : 0 < s.counter k → s.list (.sema k) = []
  /-- A mutex, as long as only its holders give it up, has one holder at most. -/
  mutex : v = 1 → (s.ledger k).stray = false → (s.ledger k).holders.length ≤ 1

theorem SemaInv.ok {v : ℕ → ℕ} {s : KState} (h : SemaInv v s) (k : ℕ) : SemaOk (v k) s k := by
  have hbalanced := (h.account k).balanced
  refine ⟨hbalanced.finished_le, hbalanced.nonneg, fun hpos => ?_, fun hone hstray => ?_⟩
  · refine List.eq_nil_iff_forall_not_mem.2 fun t ht => ?_
    exact (h.account k).empty hpos t (mem_list.1 ht)
  · exact hone ▸ hbalanced.holders_le hstray

theorem kernelBoot_sema (idle level : ℕ) (v : ℕ → ℕ) : SemaInv v (kernelBoot idle level v) := by
  refine ⟨kernelBoot_inv idle level v, fun k => ?_, fun _ _ => rfl⟩
  · refine ⟨Tokens.balanced_empty (v k), fun _ _ => List.not_mem_nil, fun t ht => ?_,
      fun t ht => ?_,
      fun t => iff_of_false (Finset.notMem_empty t) id,
      fun t => iff_of_false (Finset.notMem_empty t) id⟩
    · have ht : Place.out = .downAdd k := ht
      cases ht
    · have ht : Place.Going k .out := ht
      rcases ht with heq | heq <;> cases heq

end WaitQueue
end LightOS
