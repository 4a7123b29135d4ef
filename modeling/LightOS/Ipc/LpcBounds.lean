import LightOS.Ipc.Lpc

/-!
# Parcels: the bounds of the data area

The writes of strings and sequences, with any length a caller passes.  The fit test adds the
length to the size of the parcel on 32-bit words, so a length just below `2 ^ 32` passes it.

* `inBounds_set` — a payload put behind the others keeps the parcel in bounds.
* `kept_iff` — one write keeps the parcel in bounds if and only if its sum does not wrap.
* `lpcParcel_inBounds_iff` — the same for a series of writes.
-/

namespace LightOS
namespace Lpc

open Ring

/-! ## The writes -/

/-- The end of `lpc_parcel_write_sequence`: copy the bytes, if there are any, and put a zero behind
them.  A copy whose end wraps runs over all memory there is, and does not come back; without a copy
the zero alone is written, at an address that wraps. -/
def putSequence (data : ℕ → UInt8) (off : ℕ) (buf : Option (ℕ → UInt8)) (len : ℕ) :
    Option (ℕ → UInt8) :=
  match buf with
  | none => some (Function.update data ((off + len) % 4294967296) 0)
  | some buf =>
      if off + len + 1 < 4294967296 then
        some (Function.update (memcpy data off buf len) (off + len) 0) else none

/-- `lpc_parcel_write_sequence`, with the two arguments as they are passed. -/
def lpcParcelWriteSequenceOf (parcel : Parcel) (buf : Option (ℕ → UInt8)) (len : UInt32) :
    Option (Parcel × ℤ) :=
  match lpcParcelAllocArgSolt parcel with
  | none => some (parcel, -1)
  | some i =>
      if lpcParcelBufSize ≤ parcel.size + len + 1 then some (parcel, -1)
      else
        (putSequence parcel.data parcel.size.toNat buf len.toNat).map fun data =>
          ({ lpcParcelSetArg parcel i parcel.size len.toUInt16 .sequence with
              data := data
              size := parcel.size + len + 1 }, 0)

/-- A write of a payload. -/
inductive PayloadWrite where
  | string (str : CString)
  | sequence (buf : Option (ℕ → UInt8)) (len : UInt32)

/-- What a write makes of the parcel, and what it returns. -/
def PayloadWrite.run (parcel : Parcel) : PayloadWrite → Option (Parcel × ℤ)
  | .string str =>
      match lpcParcelWriteString parcel str with
      | none => some (parcel, -1)
      | some parcel' => some (parcel', 0)
  | .sequence buf len => lpcParcelWriteSequenceOf parcel buf len

/-- One write. -/
def payloadStep (parcel : Parcel) (write : PayloadWrite) : Option Parcel :=
  (write.run parcel).map Prod.fst

/-- The payload of a slot that is used, with the zero behind it: from where to where. -/
def Parcel.payload (parcel : Parcel) (i : ℕ) : Option (ℕ × ℕ) :=
  if parcel.argused.getLsbD i then
    match parcel.argtype i with
    | some .string => some ((parcel.args i).toNat, (parcel.args i).toNat + (parcel.arglen i).toNat)
    | some .sequence => some ((parcel.args i).toNat,
        (parcel.args i).toNat + (parcel.arglen i).toNat + 1)
    | _ => none
  else none

/-- The size is that of a parcel, and the payloads lie apart from each other inside of it. -/
structure InBounds (parcel : Parcel) : Prop where
  size : parcel.size < lpcParcelBufSize
  inside : ∀ i < lpcParcelArgNr, ∀ r, parcel.payload i = some r → r.2 ≤ parcel.size.toNat
  apart : ∀ i < lpcParcelArgNr, ∀ j < lpcParcelArgNr, i ≠ j → ∀ r r', parcel.payload i = some r →
    parcel.payload j = some r' → r.2 ≤ r'.1 ∨ r'.2 ≤ r.1

/-- A write comes back with the parcel in bounds, and with the parcel as it was if it returns -1. -/
def Kept (parcel : Parcel) (write : PayloadWrite) : Prop :=
  ∃ parcel' ret, write.run parcel = some (parcel', ret) ∧ InBounds parcel' ∧
    (ret = -1 → parcel' = parcel)

/-- The end of a sequence does not wrap, if there is a slot for it. -/
def EndFits (parcel : Parcel) : PayloadWrite → Prop
  | .string _ => True
  | .sequence _ len =>
      lpcParcelAllocArgSolt parcel = none ∨ parcel.size.toNat + len.toNat + 1 < 4294967296

/-! ## One write -/

section Write

variable {parcel : Parcel} {i j : ℕ} {num size : UInt32} {len : UInt16} {type : ArgType}
  {data : ℕ → UInt8}

theorem payload_set_self (hi : i < lpcParcelArgNr) :
    ({ lpcParcelSetArg parcel i num len type with data := data, size := size } : Parcel).payload i =
      match type with
      | .string => some (num.toNat, num.toNat + len.toNat)
      | .sequence => some (num.toNat, num.toNat + len.toNat + 1)
      | _ => none := by
  have hused : (parcel.argused ||| 1#32 <<< i).getLsbD i = true := by
    rw [getLsbD_set _ hi, decide_eq_true rfl, Bool.or_true]
  simp only [Parcel.payload, lpcParcelSetArg, hused, if_true, Function.update_self]
  cases type <;> rfl

theorem payload_set_of_ne (hi : i < lpcParcelArgNr) (hj : j ≠ i) :
    ({ lpcParcelSetArg parcel i num len type with data := data, size := size } : Parcel).payload j =
      parcel.payload j := by
  have hused : (parcel.argused ||| 1#32 <<< i).getLsbD j = parcel.argused.getLsbD j := by
    rw [getLsbD_set _ hi, decide_eq_false hj, Bool.or_false]
  simp only [Parcel.payload, lpcParcelSetArg, hused, Function.update_of_ne hj]

/-- **A payload behind the others** keeps the parcel in bounds. -/
theorem inBounds_set (h : InBounds parcel) (hi : i < lpcParcelArgNr) (len : UInt16) (type : ArgType)
    (data : ℕ → UInt8) (hsize : size < lpcParcelBufSize)
    (hpayload : ({ lpcParcelSetArg parcel i parcel.size len type with
        data := data, size := size } : Parcel).payload i =
      some (parcel.size.toNat, size.toNat)) (hgrows : parcel.size.toNat ≤ size.toNat) :
    InBounds { lpcParcelSetArg parcel i parcel.size len type with data := data, size := size } := by
  have hother : ∀ {k : ℕ}, k ≠ i → ∀ r,
      ({ lpcParcelSetArg parcel i parcel.size len type with
          data := data, size := size } : Parcel).payload k = some r →
        parcel.payload k = some r := fun hk r hr => (payload_set_of_ne hi hk).symm.trans hr
  refine ⟨hsize, fun k hk r hr => ?_, fun k hk l hl hkl r r' hr hr' => ?_⟩
  · by_cases hki : k = i
    · subst hki
      rw [hpayload, Option.some.injEq] at hr
      subst hr
      exact le_rfl
    · exact (h.inside k hk r (hother hki r hr)).trans hgrows
  · by_cases hki : k = i
    · subst hki
      rw [hpayload, Option.some.injEq] at hr
      subst hr
      exact Or.inr (h.inside l hl r' (hother (Ne.symm hkl) r' hr'))
    · by_cases hli : l = i
      · subst hli
        rw [hpayload, Option.some.injEq] at hr'
        subst hr'
        exact Or.inl (h.inside k hk r (hother hki r hr))
      · exact h.apart k hk l hl hkl r r' (hother hki r hr) (hother hli r' hr')

/-- With a buffer that is in memory this is the write of the round trips. -/
theorem lpcParcelWriteSequenceOf_buffer (hsize : parcel.size < lpcParcelBufSize) (buf : Buffer) :
    lpcParcelWriteSequenceOf parcel (some fun k => buf.bytes.getD k 0)
    (UInt32.ofNat buf.bytes.length) =
      match lpcParcelWriteSequence parcel buf with
      | none => some (parcel, -1)
      | some parcel' => some (parcel', 0) := by
  have hroom := UInt32.lt_iff_toNat_lt.1 hsize
  have hbuf : lpcParcelBufSize.toNat = 4012 := rfl
  have hmem : buf.bytes.length + 4084 < 4294967296 := buf.inMemory
  have hlen : (UInt32.ofNat buf.bytes.length).toNat = buf.bytes.length := by
    rw [UInt32.toNat_ofNat']
    omega
  have harglen : (UInt32.ofNat buf.bytes.length).toUInt16 = UInt16.ofNat buf.bytes.length := by
    rw [← UInt16.toNat_inj, UInt32.toNat_toUInt16, hlen, UInt16.toNat_ofNat']
  have hput : putSequence parcel.data parcel.size.toNat (some fun k => buf.bytes.getD k 0)
    buf.bytes.length =
      some (putBytes parcel.data parcel.size.toNat buf.bytes) := if_pos (by omega)
  rw [lpcParcelWriteSequenceOf, lpcParcelWriteSequence, writePayload]
  cases lpcParcelAllocArgSolt parcel with
  | none => rfl
  | some i =>
      simp only [hlen, hput, harglen, Option.map_some]
      split_ifs <;> rfl

/-- Nothing is written. -/
theorem kept_of_refused {write : PayloadWrite} (h : InBounds parcel)
    (hrun : write.run parcel = some (parcel, -1)) :
    Kept parcel write := ⟨parcel, -1, hrun, h, fun _ => rfl⟩

theorem lt_of_alloc (halloc : lpcParcelAllocArgSolt parcel = some i) : i < lpcParcelArgNr :=
  List.mem_range.1 (List.mem_of_find?_eq_some halloc)

theorem toNat_size_add {size len : UInt32} (hfits : size.toNat + len.toNat + 1 < 4294967296) :
    (size + len + 1).toNat = size.toNat + len.toNat + 1 := by
  rw [UInt32.toNat_add, UInt32.toNat_add, show (1 : UInt32).toNat = 1 from rfl]
  omega

/-- A string is in memory beside the parcel: its length does not wrap. -/
theorem kept_string (h : InBounds parcel) (str : CString) : Kept parcel (.string str) := by
  cases halloc : lpcParcelAllocArgSolt parcel with
  | none =>
      refine kept_of_refused h ?_
      simp only [PayloadWrite.run, lpcParcelWriteString, writePayload, halloc]
  | some i =>
      have hi := lt_of_alloc halloc
      have hroom := UInt32.lt_iff_toNat_lt.1 h.size
      have hbuf : lpcParcelBufSize.toNat = 4012 := rfl
      have hmem : str.bytes.length + 4084 < 4294967296 := str.inMemory
      have hlen : (UInt32.ofNat str.bytes.length).toNat = str.bytes.length := by
        rw [UInt32.toNat_ofNat']
        omega
      have hsum : (parcel.size + UInt32.ofNat str.bytes.length + 1).toNat =
          parcel.size.toNat + str.bytes.length + 1 := by
        rw [toNat_size_add (by rw [hlen]; omega), hlen]
      by_cases hfull : lpcParcelBufSize ≤ parcel.size + UInt32.ofNat str.bytes.length + 1
      · refine kept_of_refused h ?_
        simp only [PayloadWrite.run, lpcParcelWriteString, writePayload, halloc, if_pos hfull]
      · have hlt : parcel.size + UInt32.ofNat str.bytes.length + 1 < lpcParcelBufSize :=
          UInt32.not_le.1 hfull
        have hend := UInt32.lt_iff_toNat_lt.1 hlt
        have harglen : (UInt16.ofNat (str.bytes.length + 1)).toNat = str.bytes.length + 1 := by
          rw [UInt16.toNat_ofNat']
          omega
        refine ⟨_, 0, ?_, inBounds_set h hi (UInt16.ofNat (str.bytes.length + 1)) .string
          (putBytes parcel.data parcel.size.toNat str.bytes) hlt ?_ (by omega), by norm_num⟩
        · simp only [PayloadWrite.run, lpcParcelWriteString, writePayload, halloc, if_neg hfull]
        · rw [payload_set_self hi, harglen, hsum]
          rfl

theorem kept_sequence (h : InBounds parcel) (buf : Option (ℕ → UInt8)) {len : UInt32}
    (hfits : EndFits parcel (.sequence buf len)) : Kept parcel (.sequence buf len) := by
  cases halloc : lpcParcelAllocArgSolt parcel with
  | none =>
      refine kept_of_refused h ?_
      simp only [PayloadWrite.run, lpcParcelWriteSequenceOf, halloc]
  | some i =>
      have hi := lt_of_alloc halloc
      have hbuf : lpcParcelBufSize.toNat = 4012 := rfl
      have hfits' : parcel.size.toNat + len.toNat + 1 < 4294967296 :=
        hfits.resolve_left fun hnone => by rw [halloc] at hnone; cases hnone
      have hsum := toNat_size_add hfits'
      by_cases hfull : lpcParcelBufSize ≤ parcel.size + len + 1
      · refine kept_of_refused h ?_
        simp only [PayloadWrite.run, lpcParcelWriteSequenceOf, halloc, if_pos hfull]
      · have hlt : parcel.size + len + 1 < lpcParcelBufSize := UInt32.not_le.1 hfull
        have hend := UInt32.lt_iff_toNat_lt.1 hlt
        have harglen : len.toUInt16.toNat = len.toNat := by
          rw [UInt32.toNat_toUInt16]
          omega
        obtain ⟨data, hdata⟩ : ∃ data, putSequence parcel.data parcel.size.toNat buf len.toNat =
            some data := by
          cases buf with
          | none => exact ⟨_, rfl⟩
          | some buf => exact ⟨_, if_pos hfits'⟩
        refine ⟨_, 0, ?_, inBounds_set h hi len.toUInt16 .sequence data hlt ?_ (by omega),
          by norm_num⟩
        · simp only [PayloadWrite.run, lpcParcelWriteSequenceOf, halloc, if_neg hfull, hdata,
            Option.map_some]
        · rw [payload_set_self hi, harglen, hsum]

/-- **A sum that wraps** passes the test, and the slot claims more bytes than a parcel has. -/
theorem not_kept_of_wraps (h : InBounds parcel) {buf : Option (ℕ → UInt8)} {len : UInt32}
    (halloc : lpcParcelAllocArgSolt parcel = some i)
    (hwraps : 4294967296 ≤ parcel.size.toNat + len.toNat + 1) :
    ¬ Kept parcel (.sequence buf len) := by
  have hi := lt_of_alloc halloc
  have hbuf : lpcParcelBufSize.toNat = 4012 := rfl
  have hroom := UInt32.lt_iff_toNat_lt.1 h.size
  have hlen := len.toNat_lt
  have hsum : (parcel.size + len + 1).toNat = parcel.size.toNat + len.toNat + 1 - 4294967296 := by
    rw [UInt32.toNat_add, UInt32.toNat_add, show (1 : UInt32).toNat = 1 from rfl]
    omega
  have hpasses : ¬ lpcParcelBufSize ≤ parcel.size + len + 1 := by
    rw [UInt32.not_le, UInt32.lt_iff_toNat_lt]
    omega
  rintro ⟨parcel', ret, hrun, hbounds, -⟩
  simp only [PayloadWrite.run, lpcParcelWriteSequenceOf, halloc, if_neg hpasses] at hrun
  cases buf with
  | some buf =>
      rw [putSequence, if_neg (not_lt.2 hwraps)] at hrun
      cases hrun
  | none =>
      simp only [putSequence, Option.map_some, Option.some.injEq, Prod.mk.injEq] at hrun
      obtain ⟨rfl, -⟩ := hrun
      have hinside := hbounds.inside i hi _ (payload_set_self hi)
      simp only [UInt32.toNat_toUInt16, hsum] at hinside
      omega

/-- **One write.** -/
theorem kept_iff (h : InBounds parcel) (write : PayloadWrite) :
    Kept parcel write ↔ EndFits parcel write := by
  cases write with
  | string str => exact iff_of_true (kept_string h str) trivial
  | sequence buf len =>
      refine ⟨fun hkept => ?_, kept_sequence h buf⟩
      cases halloc : lpcParcelAllocArgSolt parcel with
      | none => exact Or.inl halloc
      | some i => exact Or.inr (lt_of_not_ge fun hwraps => not_kept_of_wraps h halloc hwraps hkept)

end Write

/-! ## A series of writes -/

theorem inBounds_get : InBounds lpcParcelGet where
  size := by decide
  inside i _ r hr := by
    simp only [Parcel.payload, lpcParcelGet, BitVec.getLsbD_zero, Bool.false_eq_true, if_false,
      reduceCtorEq] at hr
  apart i _ j _ _ r r' hr _ := by
    simp only [Parcel.payload, lpcParcelGet, BitVec.getLsbD_zero, Bool.false_eq_true, if_false,
      reduceCtorEq] at hr

theorem inBounds_step (parcel : Parcel) (write : PayloadWrite) (parcel' : Parcel)
    (_ : InBounds parcel)
    (hkept : Kept parcel write) (hstep : payloadStep parcel write = some parcel') :
    InBounds parcel' := by
  obtain ⟨parcel'', ret, hrun, hbounds, -⟩ := hkept
  rw [payloadStep, hrun, Option.map_some, Option.some.injEq] at hstep
  exact hstep ▸ hbounds

/-- **The bounds of a parcel.**  In a series of writes of strings and sequences, of any lengths,
every write comes back with the parcel in bounds, and with the parcel as it was if it returns -1,
if and only if no sequence that gets a slot has a length whose sum with the size of the parcel
wraps. -/
theorem lpcParcel_inBounds_iff (writes : List PayloadWrite) :
    Run.Along payloadStep Kept lpcParcelGet writes ↔
      Run.Along payloadStep EndFits lpcParcelGet writes :=
  Run.along_iff (fun _ write h => kept_iff h write) inBounds_step writes lpcParcelGet inBounds_get

/-- A string of nine bytes, and a sequence of `2 ^ 32 - 1` bytes that are not copied: it is
accepted, the size stays 10, and the payload of the second slot goes from there to 65546. -/
theorem lpcParcel_not_inBounds : ∃ parcel,
    Run.exec payloadStep lpcParcelGet
        [.string ⟨[112, 97, 114, 97, 109, 101, 116, 101, 114], by decide, by decide⟩,
          .sequence none 4294967295] =
      some parcel ∧ parcel.size = 10 ∧ parcel.payload 1 = some (10, 65546) ∧ ¬ InBounds parcel ∧
    ¬ Run.Along payloadStep Kept lpcParcelGet
        [.string ⟨[112, 97, 114, 97, 109, 101, 116, 101, 114], by decide, by decide⟩,
          .sequence none 4294967295] := by
  have hrun : (Run.exec payloadStep lpcParcelGet
      [.string ⟨[112, 97, 114, 97, 109, 101, 116, 101, 114], by decide, by decide⟩,
        .sequence none 4294967295]).map
        (fun parcel => (parcel.size, parcel.payload 1)) = some (10, some (10, 65546)) := by
          decide +kernel
  obtain ⟨parcel, hexec, hend⟩ := Option.map_eq_some_iff.1 hrun
  rw [Prod.mk.injEq] at hend
  have hbad : ¬ InBounds parcel := by
    intro h
    have hinside := h.inside 1 (by decide) _ hend.2
    rw [hend.1] at hinside
    exact absurd hinside (by decide)
  refine ⟨parcel, hexec, hend.1, hend.2, hbad, fun halong => ?_⟩
  exact hbad (Run.exec_invariant inBounds_step _ _ _ inBounds_get halong hexec)

end Lpc
end LightOS
