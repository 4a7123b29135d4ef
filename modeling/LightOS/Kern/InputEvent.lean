import LightOS.Lib.BoundedQueue
import LightOS.Lib.Ring
import LightOS.Lib.Run

/-!
# The ring of input events

`input_even_init`, `input_even_put` and `input_even_get` of `kernel/driver.c`.  The lock is left
out, the calls are taken one after the other.

* `Holds` — the events in the ring, oldest first.
* `holds_put`, `holds_get` — what the calls do to them, while the ring is not full.
* `inputEven_fifo_iff` — the ring is a queue of 63 events in exactly the runs that never put into a
  full ring.
-/

namespace LightOS
namespace InputEven

open BoundedQueue

/-- `EVBUF_SIZE`. -/
abbrev evbufSize : ℕ := 64

/-- `input_event_t`. -/
structure InputEvent where
  type : BitVec 16
  code : BitVec 16
  value : BitVec 32
  deriving DecidableEq

/-- `input_even_buf_t`. -/
structure InputEvenBuf where
  evbuf : ℕ → InputEvent
  head : ℕ
  tail : ℕ

/-- `input_even_init`, of a buffer that holds whatever it held before. -/
def inputEvenInit (evbuf : InputEvenBuf) : InputEvenBuf where
  evbuf i := if i < evbufSize then ⟨0, 0, 0⟩ else evbuf.evbuf i
  head := 0
  tail := 0

/-- `input_even_put`; it returns zero. -/
def inputEvenPut (evbuf : InputEvenBuf) (even : InputEvent) : InputEvenBuf :=
  { evbuf with
    evbuf := Function.update evbuf.evbuf evbuf.head even
    head := (evbuf.head + 1) &&& (evbufSize - 1) }

/-- `input_even_get`; `none` is `-1`. -/
def inputEvenGet (evbuf : InputEvenBuf) : InputEvenBuf × Option InputEvent :=
  if evbuf.head = evbuf.tail then (evbuf, none)
  else ({ evbuf with tail := (evbuf.tail + 1) &&& (evbufSize - 1) }, some (evbuf.evbuf evbuf.tail))

/-! ## Runs -/

/-- What a call leaves. -/
def inputStep (evbuf : InputEvenBuf) : Call InputEvent → Option InputEvenBuf
  | .put even => some (inputEvenPut evbuf even)
  | .get => some (inputEvenGet evbuf).1

/-- What the calls of `input_even_get` return, one after the other. -/
def answers : InputEvenBuf → List (Call InputEvent) → List (Option InputEvent)
  | _, [] => []
  | evbuf, .put even :: calls => answers (inputEvenPut evbuf even) calls
  | evbuf, .get :: calls => (inputEvenGet evbuf).2 :: answers (inputEvenGet evbuf).1 calls

/-- In every state the run goes through, the next `input_even_get` answers as a queue of 63 events
would that has answered everything before. -/
def KeepsFifo (evbuf : InputEvenBuf) (q : List InputEvent) (calls : List (Call InputEvent)) :
    Prop :=
  ∀ k, Behaves (evbufSize - 1) q (calls.take k ++ [.get]) (answers evbuf (calls.take k ++ [.get]))

/-- One more event, and the head meets the tail. -/
def Full (evbuf : InputEvenBuf) : Prop := (evbuf.head + 1) &&& (evbufSize - 1) = evbuf.tail

/-- An event that is put finds room. -/
def PutHasRoom (evbuf : InputEvenBuf) : Call InputEvent → Prop
  | .put _ => ¬ Full evbuf
  | .get => True

instance (evbuf : InputEvenBuf) : Decidable (Full evbuf) := inferInstanceAs (Decidable (_ = _))

instance : ∀ (evbuf : InputEvenBuf) (call : Call InputEvent), Decidable (PutHasRoom evbuf call)
  | _, .put _ => inferInstanceAs (Decidable (¬ _))
  | _, .get => isTrue trivial

/-! ## The events in the ring -/

/-- The events in the ring, oldest first. -/
structure Holds (evbuf : InputEvenBuf) (q : List InputEvent) : Prop where
  tail_lt : evbuf.tail < evbufSize
  length_lt : q.length < evbufSize
  head : evbuf.head = (evbuf.tail + q.length) % evbufSize
  contents : Ring.contents evbuf.evbuf evbufSize evbuf.tail q.length = q

section Ring

variable {evbuf : InputEvenBuf} {q : List InputEvent} {even : InputEvent}

theorem mask_eq (n : ℕ) : n &&& (evbufSize - 1) = n % evbufSize :=
  Nat.and_two_pow_sub_one_eq_mod n 6

theorem holds_init (evbuf : InputEvenBuf) : Holds (inputEvenInit evbuf) [] :=
  ⟨by norm_num [inputEvenInit], by norm_num, rfl, rfl⟩

theorem head_next (h : Holds evbuf q) :
    (evbuf.head + 1) &&& (evbufSize - 1) = (evbuf.tail + (q.length + 1)) % evbufSize := by
  rw [mask_eq, h.head, Nat.mod_add_mod, Nat.add_assoc]

/-- The ring is full when there are 63 events in it. -/
theorem full_iff (h : Holds evbuf q) : Full evbuf ↔ q.length = evbufSize - 1 := by
  have htail := h.tail_lt
  have hlength := h.length_lt
  rw [Full, head_next h]
  unfold evbufSize at *
  omega

/-- The ring is empty to `input_even_get` when there is nothing in it. -/
theorem head_eq_tail_iff (h : Holds evbuf q) : evbuf.head = evbuf.tail ↔ q = [] := by
  have htail := h.tail_lt
  have hlength := h.length_lt
  rw [h.head, ← List.length_eq_zero_iff]
  unfold evbufSize at *
  omega

/-- **An event that finds room** comes last. -/
theorem holds_put (h : Holds evbuf q) (hroom : ¬ Full evbuf) :
    Holds (inputEvenPut evbuf even) (q ++ [even]) := by
  have hlength := h.length_lt
  rw [full_iff h] at hroom
  have hsucc : (q ++ [even]).length = q.length + 1 := by
    rw [List.length_append, List.length_singleton]
  refine ⟨h.tail_lt, by omega, ?_, ?_⟩
  · rw [hsucc]
    exact head_next h
  · rw [hsucc]
    show Ring.contents (Function.update evbuf.evbuf evbuf.head even) evbufSize evbuf.tail
      (q.length + 1) = _
    rw [h.head, Ring.contents_push _ _ hlength, h.contents]

/-- **An event that finds no room** makes the ring look empty. -/
theorem get_put_full (hfull : Full evbuf) (even : InputEvent) :
    (inputEvenGet (inputEvenPut evbuf even)).2 = none := by
  have hmeet : (inputEvenPut evbuf even).head = (inputEvenPut evbuf even).tail := hfull
  rw [inputEvenGet, if_pos hmeet]

theorem get_nil (h : Holds evbuf []) : inputEvenGet evbuf = (evbuf, none) :=
  if_pos ((head_eq_tail_iff h).2 rfl)

/-- **The oldest event** is returned, and the others stay. -/
theorem holds_get (h : Holds evbuf (even :: q)) :
    (inputEvenGet evbuf).2 = some even ∧ Holds (inputEvenGet evbuf).1 q := by
  have hne : evbuf.head ≠ evbuf.tail := fun heq => List.cons_ne_nil _ _ ((head_eq_tail_iff h).1 heq)
  have hlength := h.length_lt
  have hcontents := h.contents
  rw [List.length_cons] at hlength hcontents
  rw [Ring.contents_succ, Nat.mod_eq_of_lt h.tail_lt, List.cons_eq_cons] at hcontents
  rw [inputEvenGet, if_neg hne]
  refine ⟨congrArg some hcontents.1, ?_, by omega, ?_, ?_⟩
  · rw [mask_eq]
    exact Nat.mod_lt _ (by norm_num)
  · show evbuf.head = ((evbuf.tail + 1 &&& evbufSize - 1) + q.length) % evbufSize
    rw [mask_eq, Nat.mod_add_mod, h.head, List.length_cons, Nat.add_assoc, Nat.add_comm 1]
  · show Ring.contents evbuf.evbuf evbufSize (evbuf.tail + 1 &&& evbufSize - 1) q.length = q
    rw [mask_eq, Ring.contents_congr evbuf.evbuf (Nat.mod_mod ..)]
    exact hcontents.2

/-! ## The ring as a queue -/

/-- The next answer is right. -/
theorem behaves_next (h : Holds evbuf q) :
    Behaves (evbufSize - 1) q [.get] (answers evbuf [.get]) := by
  cases q with
  | nil =>
      rw [answers, get_nil h]
      exact .empty .nil
  | cons even q =>
      rw [answers, (holds_get h).1]
      exact .get .nil

/-- The answers after the first call. -/
theorem keepsFifo_cons (h : Holds evbuf q) {call : Call InputEvent}
    {calls : List (Call InputEvent)} :
    KeepsFifo evbuf q (call :: calls) ↔ ∀ k, Behaves (evbufSize - 1) q
    (call :: (calls.take k ++ [.get]))
      (answers evbuf (call :: (calls.take k ++ [.get]))) := by
  have hsplit := forall_take_cons (fun l => Behaves (evbufSize - 1) q l (answers evbuf l)) call
    calls [.get]
  exact hsplit.trans (and_iff_right (behaves_next h))

/-- A condition along a run, one call at a time. -/
theorem along_cons {evbuf' : InputEvenBuf} {call : Call InputEvent} {calls : List (Call InputEvent)}
    (hstep : inputStep evbuf call = some evbuf') : Run.Along inputStep PutHasRoom evbuf
    (call :: calls) ↔
      PutHasRoom evbuf call ∧ Run.Along inputStep PutHasRoom evbuf' calls := by
  rw [Run.Along, hstep]
  refine and_congr_right fun _ => ⟨fun h => h _ rfl, fun h s hs => ?_⟩
  rwa [← Option.some.inj hs]

/-- A put into a full ring is answered wrongly by the next `input_even_get`. -/
theorem not_keepsFifo_full (h : Holds evbuf q) (hfull : Full evbuf) (even : InputEvent)
    (calls : List (Call InputEvent)) : ¬ KeepsFifo evbuf q (.put even :: calls) := by
  intro hkeeps
  have hlength := (full_iff h).1 hfull
  have hnext := (keepsFifo_cons h).1 hkeeps 0
  rw [List.take_zero, List.nil_append, answers, answers, get_put_full hfull,
    behaves_put_full (by rw [hlength])] at hnext
  rcases hnext with hreject | hdiscard
  · refine not_behaves_empty ?_ hreject
    rintro rfl
    simp at hlength
  · exact not_behaves_empty (by simp) hdiscard

/-- **The ring is a queue** from a state on in which it holds `q`, in exactly the runs that put no
event into a full ring. -/
theorem keepsFifo_iff :
    ∀ (calls : List (Call InputEvent)) (evbuf : InputEvenBuf) (q : List InputEvent), Holds evbuf q →
    (KeepsFifo evbuf q calls ↔ Run.Along inputStep PutHasRoom evbuf calls) := by
  intro calls
  induction calls with
  | nil =>
      intro evbuf q h
      refine iff_of_true (fun k => ?_) trivial
      rw [List.take_nil]
      exact behaves_next h
  | cons call calls ih =>
      intro evbuf q h
      cases call with
      | put even =>
          by_cases hfull : Full evbuf
          · refine iff_of_false (not_keepsFifo_full h hfull even calls) fun halong => ?_
            exact ((along_cons rfl).1 halong).1 hfull
          · have hroom : q.length < evbufSize - 1 := by
              have hlength := h.length_lt
              rw [full_iff h] at hfull
              omega
            rw [along_cons rfl, ← ih _ _ (holds_put h hfull), keepsFifo_cons h]
            simp only [answers, behaves_put hroom]
            exact (and_iff_right hfull).symm
      | get =>
          rw [along_cons rfl, keepsFifo_cons h]
          cases q with
          | nil =>
              rw [get_nil h, ← ih _ _ h]
              simp only [answers, get_nil h, behaves_get_nil, true_and]
              exact (and_iff_right trivial).symm
          | cons even q =>
              obtain ⟨hanswer, hrest⟩ := holds_get h
              rw [← ih _ _ hrest]
              simp only [answers, hanswer, behaves_get_cons, true_and]
              exact (and_iff_right trivial).symm

/-- **The ring of input events** is a queue of 63 events that may reject or discard one if there is
no room, in exactly the runs that never put an event into a full ring. -/
theorem inputEven_fifo_iff (evbuf : InputEvenBuf) (calls : List (Call InputEvent)) :
    KeepsFifo (inputEvenInit evbuf) [] calls ↔
      Run.Along inputStep PutHasRoom (inputEvenInit evbuf) calls :=
  keepsFifo_iff calls _ _ (holds_init evbuf)

/-- Sixty-four key presses and no reader in between: they are all gone. -/
theorem inputEven_wraps :
    answers (inputEvenInit ⟨fun _ => ⟨0, 0, 0⟩, 0, 0⟩)
    (List.replicate 64 (.put ⟨1, 30, 1⟩) ++ [.get]) = [none] ∧
      ¬ KeepsFifo (inputEvenInit ⟨fun _ => ⟨0, 0, 0⟩, 0, 0⟩) []
      (List.replicate 64 (.put ⟨1, 30, 1⟩)) := by
  refine ⟨by decide +kernel, fun hkeeps => ?_⟩
  rw [keepsFifo_iff _ _ _ (holds_init _)] at hkeeps
  revert hkeeps
  decide +kernel

end Ring

end InputEven
end LightOS
