import Mathlib

/-!
# Lock-step simulation of machines with outputs

A machine takes a call in a state and answers with a next state and an output.
Two machines over the same calls and outputs are compared by a relation between
their states: if related states answer every call alike and stay related, then
related states answer every sequence of calls alike.
-/

namespace Simulation

variable {σ τ α ω : Type}

/-- The final state and the outputs of a sequence of calls. -/
def trace (step : σ → α → σ × ω) : σ → List α → σ × List ω
  | s, [] => (s, [])
  | s, a :: as => ((trace step (step s a).1 as).1, (step s a).2 :: (trace step (step s a).1 as).2)

@[simp] theorem trace_nil (step : σ → α → σ × ω) (s : σ) : trace step s [] = (s, []) := rfl

theorem trace_cons (step : σ → α → σ × ω) (s : σ) (a : α) (as : List α) :
    trace step s (a :: as) =
      ((trace step (step s a).1 as).1, (step s a).2 :: (trace step (step s a).1 as).2) := rfl

/-- **The simulation rule.** -/
theorem trace_simulates {step : σ → α → σ × ω} {spec : τ → α → τ × ω} {R : σ → τ → Prop}
    (h : ∀ s t a, R s t → R (step s a).1 (spec t a).1 ∧ (step s a).2 = (spec t a).2) :
    ∀ (as : List α) (s : σ) (t : τ), R s t →
      R (trace step s as).1 (trace spec t as).1 ∧ (trace step s as).2 = (trace spec t as).2 := by
  intro as
  induction as with
  | nil => intro s t hR; exact ⟨hR, rfl⟩
  | cons a as ih =>
      intro s t hR
      obtain ⟨hR', hout⟩ := h s t a hR
      obtain ⟨hend, houts⟩ := ih _ _ hR'
      rw [trace_cons, trace_cons]
      exact ⟨hend, by rw [hout, houts]⟩

end Simulation
