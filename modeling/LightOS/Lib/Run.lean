import Mathlib

/-!
# Runs of a partial transition function

A system is given by a partial step function `step : σ → α → Option σ`: from a
state and a call it either produces the next state or stops (it has panicked, or
it never returns).  This file fixes what a run over a list of calls is and the
rules the rest of the development uses on runs.

* `exec` — the state reached by a list of calls, if none of them stops.
* `Along` — a condition on every pair of a state and the call made in it, for
  the states a run goes through.
* `exec_invariant` — an invariant kept by every step that meets the condition
  holds at the end of every run whose steps all meet it.
* `exec_total` — if such a step does not stop either, no such run stops.
* `exec_sum` — what such steps add to a count, such a run adds as a whole.
* `Eventually` — repeating one call comes to a state of some kind.
-/

namespace Run

variable {σ α : Type}

/-- The state reached by making the calls one after the other. -/
def exec (step : σ → α → Option σ) : σ → List α → Option σ
  | s, [] => some s
  | s, a :: as => (step s a).bind fun s' => exec step s' as

/-- `P` holds of every call of the run, in the state it is made in. -/
def Along (step : σ → α → Option σ) (P : σ → α → Prop) : σ → List α → Prop
  | _, [] => True
  | s, a :: as => P s a ∧ ∀ s', step s a = some s' → Along step P s' as

variable {step : σ → α → Option σ} {P : σ → α → Prop}

/-- A decidable condition can be checked along a run. -/
instance decidableAlong [∀ s a, Decidable (P s a)] :
    ∀ (s : σ) (as : List α), Decidable (Along step P s as)
  | _, [] => isTrue trivial
  | s, a :: as =>
      match h : step s a with
      | none => decidable_of_iff (P s a) (by simp [Along, h])
      | some t =>
          haveI := decidableAlong t as
          decidable_of_iff (P s a ∧ Along step P t as) (by simp [Along, h])

@[simp] theorem exec_nil (s : σ) : exec step s [] = some s := rfl

theorem exec_cons_eq_some {s s' : σ} {a : α} {as : List α} :
    exec step s (a :: as) = some s' ↔ ∃ t, step s a = some t ∧ exec step t as = some s' := by
  rw [exec, Option.bind_eq_some_iff]

theorem exec_append {s t : σ} {as : List α} (h : exec step s as = some t) (bs : List α) :
    exec step s (as ++ bs) = exec step t bs := by
  induction as generalizing s with
  | nil =>
      cases h
      rfl
  | cons a as ih =>
      obtain ⟨s', hs', hrest⟩ := exec_cons_eq_some.1 h
      rw [List.cons_append, exec, hs', Option.bind_some]
      exact ih hrest

/-- **The invariant rule.**  What every admissible step keeps, every admissible
run keeps. -/
theorem exec_invariant {I : σ → Prop}
    (hstep : ∀ s a s', I s → P s a → step s a = some s' → I s') :
    ∀ (as : List α) (s s' : σ), I s → Along step P s as → exec step s as = some s' → I s' := by
  intro as
  induction as with
  | nil =>
      intro s s' hI _ h
      cases h
      exact hI
  | cons a as ih =>
      intro s s' hI hP h
      obtain ⟨t, ht, hrest⟩ := exec_cons_eq_some.1 h
      exact ih t s' (hstep s a t hI hP.1 ht) (hP.2 t ht) hrest

/-- What every step keeps, every run keeps. -/
theorem exec_keeps {I : σ → Prop} (hstep : ∀ s a s', I s → step s a = some s' → I s')
    (as : List α) (s s' : σ) (hI : I s) (h : exec step s as = some s') : I s' := by
  induction as generalizing s with
  | nil =>
      cases h
      exact hI
  | cons a as ih =>
      obtain ⟨t, ht, hrest⟩ := exec_cons_eq_some.1 h
      exact ih t (hstep s a t hI ht) hrest

/-- **The progress rule.**  If no admissible step stops and all keep the invariant,
no admissible run stops, and all keep it. -/
theorem exec_total {I : σ → Prop}
    (hstep : ∀ s a, I s → P s a → ∃ s', step s a = some s' ∧ I s') :
    ∀ (as : List α) (s : σ), I s → Along step P s as → ∃ s', exec step s as = some s' ∧ I s' := by
  intro as
  induction as with
  | nil =>
      intro s hI _
      exact ⟨s, rfl, hI⟩
  | cons a as ih =>
      intro s hI hP
      obtain ⟨t, ht, hIt⟩ := hstep s a hI hP.1
      obtain ⟨s', hrest, hI'⟩ := ih t hIt (hP.2 t ht)
      exact ⟨s', exec_cons_eq_some.2 ⟨t, ht, hrest⟩, hI'⟩

/-- What the calls of a run add up to. -/
def sum (step : σ → α → Option σ) (f : σ → α → ℤ) : σ → List α → ℤ
  | _, [] => 0
  | s, a :: as => f s a + ((step s a).map fun s' => sum step f s' as).getD 0

/-- **The counting rule.**  If every admissible step adds `f` to what the invariant counts, every
admissible run adds the sum. -/
theorem exec_sum {ι : Type} {I : σ → (ι → ℤ) → Prop} {f : ι → σ → α → ℤ}
    (hstep : ∀ s g a s', I s g → P s a → step s a = some s' → I s' fun i => g i + f i s a) :
    ∀ (as : List α) (s : σ) (g : ι → ℤ) (s' : σ), I s g → Along step P s as →
      exec step s as = some s' → I s' fun i => g i + sum step (f i) s as := by
  intro as
  induction as with
  | nil =>
      intro s g s' hI _ h
      cases h
      simpa only [sum, Int.add_zero] using hI
  | cons a as ih =>
      intro s g s' hI hP h
      obtain ⟨t, ht, hrest⟩ := exec_cons_eq_some.1 h
      have hend := ih t _ s' (hstep s g a t hI hP.1 ht) (hP.2 t ht) hrest
      simpa only [sum, ht, Option.map_some, Option.getD_some, Int.add_assoc] using hend

/-- A condition that holds whatever the state holds along every run. -/
theorem along_of_forall (h : ∀ s a, P s a) : ∀ (as : List α) (s : σ), Along step P s as := by
  intro as
  induction as with
  | nil => intro s; trivial
  | cons a as ih => intro s; exact ⟨h s a, fun s' _ => ih s'⟩

/-- A condition on the calls alone holds along every run of calls that meet it. -/
theorem along_of_mem {Q : α → Prop} :
    ∀ (as : List α) (s : σ), (∀ a ∈ as, Q a) → Along step (fun _ a => Q a) s as := by
  intro as
  induction as with
  | nil => intro s _; trivial
  | cons a as ih =>
      intro s h
      exact ⟨h a List.mem_cons_self, fun s' _ => ih s' fun b hb => h b (List.mem_cons_of_mem a hb)⟩

/-- A weaker condition holds along every run along which the stronger one does. -/
theorem along_mono {Q : σ → α → Prop} (h : ∀ s a, P s a → Q s a) :
    ∀ (as : List α) (s : σ), Along step P s as → Along step Q s as := by
  intro as
  induction as with
  | nil => intro s _; trivial
  | cons a as ih =>
      intro s hP
      exact ⟨h s a hP.1, fun s' hs' => ih s' (hP.2 s' hs')⟩

/-- **The consequence rule.**  What a condition and the invariant that it keeps give for every
step holds along every run of such steps. -/
theorem along_imp {I : σ → Prop} {Q : σ → α → Prop} (himp : ∀ s a, I s → P s a → Q s a)
    (hkeep : ∀ s a s', I s → P s a → step s a = some s' → I s') :
    ∀ (as : List α) (s : σ), I s → Along step P s as → Along step Q s as := by
  intro as
  induction as with
  | nil => intro s _ _; trivial
  | cons a as ih =>
      rintro s hI ⟨hP, hrest⟩
      exact ⟨himp s a hI hP, fun s' hs' => ih s' (hkeep s a s' hI hP hs') (hrest s' hs')⟩

/-- **The exchange rule.**  Two conditions that are the same while the invariant holds, and keep it,
hold along the same runs. -/
theorem along_iff {I : σ → Prop} {Q : σ → α → Prop} (hiff : ∀ s a, I s → (P s a ↔ Q s a))
    (hkeep : ∀ s a s', I s → P s a → step s a = some s' → I s') (as : List α) (s : σ) (hI : I s) :
    Along step P s as ↔ Along step Q s as := by
  constructor
  · exact along_imp (fun s a hI => (hiff s a hI).1) hkeep as s hI
  · apply along_imp (fun s a hI => (hiff s a hI).2) _ as s hI
    intro s a s' hI hQ
    exact hkeep s a s' hI ((hiff s a hI).2 hQ)

/-- The end of a run is a run. -/
theorem along_of_append {s t : σ} {as bs : List α} (h : exec step s as = some t)
    (hP : Along step P s (as ++ bs)) : Along step P t bs := by
  induction as generalizing s with
  | nil =>
      cases h
      exact hP
  | cons a as ih =>
      obtain ⟨s', hs', hrest⟩ := exec_cons_eq_some.1 h
      exact ih hrest (hP.2 s' hs')

/-! ## Repeating a call -/

/-- Making the call `a` again and again comes to a state in which `Q` holds. -/
def Eventually (step : σ → α → Option σ) (a : α) (Q : σ → Prop) (s : σ) : Prop :=
  ∃ n s', exec step s (List.replicate n a) = some s' ∧ Q s'

theorem Eventually.now {a : α} {Q : σ → Prop} {s : σ} (h : Q s) : Eventually step a Q s :=
  ⟨0, s, rfl, h⟩

theorem Eventually.next {a : α} {Q : σ → Prop} {s t : σ} (hstep : step s a = some t)
    (h : Eventually step a Q t) : Eventually step a Q s := by
  obtain ⟨n, s', hs', hQ⟩ := h
  exact ⟨n + 1, s', exec_cons_eq_some.2 ⟨t, hstep, hs'⟩, hQ⟩

/-- One thing after the other. -/
theorem Eventually.bind {a : α} {Q R : σ → Prop} {s : σ} (h : Eventually step a Q s)
    (hnext : ∀ t, Q t → Eventually step a R t) : Eventually step a R s := by
  obtain ⟨n, t, ht, hQ⟩ := h
  obtain ⟨m, s', hs', hR⟩ := hnext t hQ
  refine ⟨n + m, s', ?_, hR⟩
  rw [List.replicate_add, exec_append ht]
  exact hs'

/-- Two conditions that hold along a run hold together along it. -/
theorem along_and {Q : σ → α → Prop} :
    ∀ (as : List α) (s : σ), Along step P s as → Along step Q s as →
      Along step (fun s a => P s a ∧ Q s a) s as := by
  intro as
  induction as with
  | nil => intro s _ _; trivial
  | cons a as ih =>
      intro s hP hQ
      exact ⟨⟨hP.1, hQ.1⟩, fun s' hs' => ih s' (hP.2 s' hs') (hQ.2 s' hs')⟩

end Run
