import Mathlib

/-!
# Signed arithmetic of 32 bits

A value of type `int` together with what the language leaves undefined: whether an operation on the
way to it has overflowed.  The value itself is the one of a machine that drops the upper bits.

* `Reads` — the value is a number up to a multiple of 2 ^ 32; the operations keep this.
* `val_eq_of_inRange` — a result in range is exact.
* `overflow_add_left` and its siblings — an overflow is not forgotten.
-/

/-- A computed value of type `int`. -/
structure CInt where
  val : ℤ
  overflow : Bool
  deriving DecidableEq, Repr

namespace CInt

/-- The numbers of type `int`. -/
def InRange (v : ℤ) : Prop := -2147483648 ≤ v ∧ v < 2147483648

instance : DecidablePred InRange := fun _ => inferInstanceAs (Decidable (_ ∧ _))

/-- The number that is left of `v` in 32 bits. -/
def wrap (v : ℤ) : ℤ := (v + 2147483648) % 4294967296 - 2147483648

/-- A number that has been stored before. -/
def int (v : ℤ) : CInt := ⟨v, false⟩

/-- The result `v` of an operation on two values. -/
def result (a b : CInt) (v : ℤ) : CInt := ⟨wrap v, a.overflow || b.overflow || !decide (InRange v)⟩

instance : Add CInt := ⟨fun a b => result a b (a.val + b.val)⟩

instance : Sub CInt := ⟨fun a b => result a b (a.val - b.val)⟩

instance : Mul CInt := ⟨fun a b => result a b (a.val * b.val)⟩

instance : Div CInt := ⟨fun a b => result a b (a.val.tdiv b.val)⟩

instance : Mod CInt := ⟨fun a b => result a b (a.val.tmod b.val)⟩

variable {a b : CInt} {u v : ℤ}

@[simp] theorem int_val : (int v).val = v := rfl

/-! ## Values in range -/

theorem wrap_of_inRange (h : InRange v) : wrap v = v := by
  unfold InRange at h
  unfold wrap
  omega

theorem val_sub_of_inRange (h : InRange (a.val - b.val)) : (a - b).val = a.val - b.val :=
  wrap_of_inRange h

theorem val_add_of_inRange (h : InRange (a.val + b.val)) : (a + b).val = a.val + b.val :=
  wrap_of_inRange h

theorem val_div_of_inRange (h : InRange (a.val.tdiv b.val)) : (a / b).val = a.val.tdiv b.val :=
  wrap_of_inRange h

theorem val_mod_of_inRange (h : InRange (a.val.tmod b.val)) : (a % b).val = a.val.tmod b.val :=
  wrap_of_inRange h

/-! ## Overflows -/

theorem overflow_add_left (h : a.overflow = true) : (a + b).overflow = true := by
  show (a.overflow || b.overflow || _) = true
  rw [h, Bool.true_or, Bool.true_or]

theorem overflow_sub_left (h : a.overflow = true) : (a - b).overflow = true := by
  show (a.overflow || b.overflow || _) = true
  rw [h, Bool.true_or, Bool.true_or]

theorem overflow_mul (h : ¬ InRange (a.val * b.val)) : (a * b).overflow = true := by
  show (_ || !decide (InRange (a.val * b.val))) = true
  rw [decide_eq_false h, Bool.not_false, Bool.or_true]

/-! ## Values up to a multiple of 2 ^ 32 -/

/-- The value is what 32 bits keep of `v`. -/
def Reads (a : CInt) (v : ℤ) : Prop := a.val ≡ v [ZMOD 4294967296]

theorem wrap_modEq (v : ℤ) : wrap v ≡ v [ZMOD 4294967296] := by
  unfold wrap Int.ModEq
  omega

theorem reads_val (a : CInt) : Reads a a.val := Int.ModEq.refl _

theorem reads_int (v : ℤ) : Reads (int v) v := Int.ModEq.refl _

theorem Reads.add (ha : Reads a u) (hb : Reads b v) : Reads (a + b) (u + v) :=
  (wrap_modEq _).trans (Int.ModEq.add ha hb)

theorem Reads.sub (ha : Reads a u) (hb : Reads b v) : Reads (a - b) (u - v) :=
  (wrap_modEq _).trans (Int.ModEq.sub ha hb)

theorem Reads.mul (ha : Reads a u) (hb : Reads b v) : Reads (a * b) (u * v) :=
  (wrap_modEq _).trans (Int.ModEq.mul ha hb)

end CInt
