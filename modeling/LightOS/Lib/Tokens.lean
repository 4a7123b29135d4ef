import Mathlib

/-!
# Tokens of a counted resource

A resource has `free` tokens.  Parties take them and hand them back; taking and handing back
both last a while, so a token can be on its way.  This file keeps the account of one resource.

* `Ledger` — who is on the way with a token, who has one, and how many went each way.
* `Balanced` — no token appears from nowhere; kept by `take`, `grant`, `raise`, `finish`, `call`.
* `Balanced.finished_le`, `Balanced.holders_le` — what a balanced account says.
-/

namespace Tokens

/-- The account of one resource. -/
structure Ledger (τ : Type) where
  /-- Times a token was taken for good. -/
  finished : ℕ
  /-- Times a token was handed back. -/
  raised : ℕ
  /-- The parties that have a token and are not finished with taking it. -/
  carried : Finset τ
  /-- The parties that are about to hand a token back. -/
  raising : Finset τ
  /-- The parties that have finished taking a token, and have not begun to hand it back. -/
  holders : List τ
  /-- A token was handed back by a party that had none. -/
  stray : Bool

/-- The account at the start. -/
def Ledger.empty (τ : Type) : Ledger τ := ⟨0, 0, ∅, ∅, [], false⟩

section Ops

variable {τ : Type} [DecidableEq τ]

/-- A free token is taken. -/
def Ledger.take (L : Ledger τ) (t : τ) : Ledger τ := { L with carried := insert t L.carried }

/-- A party is finished with taking. -/
def Ledger.finish (L : Ledger τ) (t : τ) : Ledger τ :=
  { L with finished := L.finished + 1, carried := L.carried.erase t, holders := t :: L.holders }

/-- A party begins to hand a token back. -/
def Ledger.call (L : Ledger τ) (t : τ) : Ledger τ :=
  { L with
    raising := insert t L.raising
    holders := L.holders.erase t
    stray := L.stray || decide (t ∉ L.holders) }

/-- The token has been handed back. -/
def Ledger.raise (L : Ledger τ) (t : τ) : Ledger τ :=
  { L with raised := L.raised + 1, raising := L.raising.erase t }

end Ops

/-- No token appears from nowhere, out of `v` at the start. -/
structure Balanced {τ : Type} (v : ℕ) (free : ℤ) (L : Ledger τ) : Prop where
  nonneg : 0 ≤ free
  taken : free + L.carried.card + L.finished ≤ v + L.raised
  held : L.stray = false → L.holders.length + L.raising.card + L.raised ≤ L.finished

variable {τ : Type} {v : ℕ} {free : ℤ} {L : Ledger τ} {t : τ}

theorem balanced_empty (v : ℕ) : Balanced v v (Ledger.empty τ) :=
  ⟨Int.natCast_nonneg v, by simp [Ledger.empty], fun _ => by simp [Ledger.empty]⟩

/-- **Conservation.** -/
theorem Balanced.finished_le (h : Balanced v free L) : L.finished ≤ v + L.raised := by
  have hfree := h.nonneg
  have htaken := h.taken
  omega

/-- **Holders.**  As long as only holders hand tokens back, there are never more holders than
tokens. -/
theorem Balanced.holders_le (h : Balanced v free L) (hstray : L.stray = false) :
    L.holders.length ≤ v := by
  have hheld := h.held hstray
  have hfinished := h.finished_le
  omega

variable [DecidableEq τ]

theorem Balanced.take (h : Balanced v free L) (hpos : 0 < free) (ht : t ∉ L.carried) :
    Balanced v (free - 1) (L.take t) := by
  refine ⟨by omega, ?_, h.held⟩
  have htaken := h.taken
  have hcard : (L.take t).carried.card = L.carried.card + 1 := Finset.card_insert_of_notMem ht
  rw [hcard]
  show free - 1 + ((L.carried.card + 1 : ℕ) : ℤ) + L.finished ≤ v + L.raised
  push_cast
  omega

theorem Balanced.finish (h : Balanced v free L) (ht : t ∈ L.carried) :
    Balanced v free (L.finish t) := by
  have hcard : (L.finish t).carried.card + 1 = L.carried.card := Finset.card_erase_add_one ht
  refine ⟨h.nonneg, ?_, fun hstray => ?_⟩
  · have htaken := h.taken
    show free + (L.finish t).carried.card + ((L.finished + 1 : ℕ) : ℤ) ≤ v + L.raised
    push_cast
    omega
  · have hheld := h.held hstray
    show (t :: L.holders).length + L.raising.card + L.raised ≤ L.finished + 1
    rw [List.length_cons]
    omega

theorem Balanced.call (h : Balanced v free L) (ht : t ∉ L.raising) :
    Balanced v free (L.call t) := by
  refine ⟨h.nonneg, h.taken, fun hstray => ?_⟩
  obtain ⟨hold, hmem⟩ := Bool.or_eq_false_iff.1
    (hstray : (L.stray || decide (t ∉ L.holders)) = false)
  have hmem : t ∈ L.holders := by simpa using hmem
  have hheld := h.held hold
  have hcard : (L.call t).raising.card = L.raising.card + 1 := Finset.card_insert_of_notMem ht
  have hlength : (L.holders.erase t).length + 1 = L.holders.length := by
    rw [List.length_erase_of_mem hmem]
    have := List.length_pos_of_mem hmem
    omega
  rw [hcard]
  show (L.holders.erase t).length + (L.raising.card + 1) + L.raised ≤ L.finished
  omega

theorem held_raise (hheld : L.stray = false →
    L.holders.length + L.raising.card + L.raised ≤ L.finished)
    (ht : t ∈ L.raising) (hstray : L.stray = false) :
    L.holders.length + (L.raise t).raising.card + (L.raise t).raised ≤ L.finished := by
  have hcard : (L.raise t).raising.card + 1 = L.raising.card := Finset.card_erase_add_one ht
  have hraised : (L.raise t).raised = L.raised + 1 := rfl
  have := hheld hstray
  omega

/-- A token is handed back and is free again. -/
theorem Balanced.raise (h : Balanced v free L) (ht : t ∈ L.raising) :
    Balanced v (free + 1) (L.raise t) := by
  refine ⟨by have := h.nonneg; omega, ?_, held_raise h.held ht⟩
  have htaken := h.taken
  show free + 1 + L.carried.card + L.finished ≤ v + ((L.raised + 1 : ℕ) : ℤ)
  push_cast
  omega

/-- A token is handed back while nobody waits for it, and is lost. -/
theorem Balanced.drop (h : Balanced v free L) (ht : t ∈ L.raising) :
    Balanced v free (L.raise t) := by
  refine ⟨h.nonneg, ?_, held_raise h.held ht⟩
  have htaken := h.taken
  show free + L.carried.card + L.finished ≤ v + ((L.raised + 1 : ℕ) : ℤ)
  push_cast
  omega

/-- A token goes from hand to hand. -/
theorem Balanced.grant {w : τ} (h : Balanced v free L) (ht : t ∈ L.raising) (hw : w ∉ L.carried) :
    Balanced v free ((L.raise t).take w) := by
  refine ⟨h.nonneg, ?_, held_raise h.held ht⟩
  have htaken := h.taken
  have hcard : ((L.raise t).take w).carried.card = L.carried.card + 1 :=
    Finset.card_insert_of_notMem hw
  rw [hcard]
  show free + ((L.carried.card + 1 : ℕ) : ℤ) + L.finished ≤ v + ((L.raised + 1 : ℕ) : ℤ)
  push_cast
  omega

end Tokens
