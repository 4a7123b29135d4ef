import LightOS.Lib.KeyedQueue
import LightOS.Lib.Run
import LightOS.Ipc.LpcBasic

/-!
# Parcels: the round trip

* `lpcParcelRead_spec` — a read takes the first readable argument of its type.
* `values_of_written` — what can be read after a series of writes.
* `lpcParcel_roundTrip_iff` — the arguments come back exactly if no `long` needs more than 32
  bits and no sequence is empty.
-/

namespace LightOS
namespace Lpc

open Ring KeyedQueue

/-! ## Reading -/

/-- The value a read of its type finds in slot `i`. -/
def Parcel.value (parcel : Parcel) (i : ℕ) : ArgType → Value
  | .char => .char (parcel.args i).toUInt8
  | .short => .short (parcel.args i).toUInt16
  | .int => .int (parcel.args i)
  | .long => .long (parcel.args i).toUInt64
  | .string => .string (strAt parcel.data (parcel.args i).toNat portMsgSize)
  | .sequence =>
      .sequence ((List.range (parcel.arglen i).toNat).map fun k =>
        parcel.data ((parcel.args i).toNat + k))

/-- What can be read from slot `i`. -/
def Parcel.readable (parcel : Parcel) (i : ℕ) : Option Value :=
  if parcel.argused.getLsbD i = true ∧ 0 < parcel.arglen i then
    (parcel.argtype i).map (parcel.value i)
  else none

/-- What can be read from the parcel, in the order of the slots. -/
def Parcel.values (parcel : Parcel) : List Value :=
  (List.range lpcParcelArgNr).filterMap parcel.readable

section Reads

variable {parcel : Parcel} {i : ℕ} {type : ArgType}

theorem type_value (parcel : Parcel) (i : ℕ) (type : ArgType) :
    (parcel.value i type).type = type := by
  cases type <;> rfl

theorem lpcParcelRead_eq (parcel : Parcel) (type : ArgType) :
    lpcParcelRead parcel type = readArg parcel type fun i => parcel.value i type := by
  cases type <;> rfl

/-- The test of `lpc_parcel_find_arg_solt`. -/
theorem slotHas_readable (parcel : Parcel) (type : ArgType) (i : ℕ) :
    slotHas Value.type parcel.readable type i =
      (parcel.argused.getLsbD i && (parcel.argtype i = some type && 0 < parcel.arglen i)) := by
  unfold slotHas Parcel.readable
  cases hused : parcel.argused.getLsbD i with
  | false => simp
  | true =>
      by_cases hlen : 0 < parcel.arglen i
      · cases htype : parcel.argtype i with
        | none => simp [hlen]
        | some t => simp [hlen, type_value]
      · simp [hlen]

theorem lpcParcelFindArgSolt_eq (parcel : Parcel) (type : ArgType) :
    lpcParcelFindArgSolt parcel type =
      (List.range lpcParcelArgNr).find? (slotHas Value.type parcel.readable type) := by
  have heq : slotHas Value.type parcel.readable type = fun i =>
      parcel.argused.getLsbD i && (parcel.argtype i = some type && 0 < parcel.arglen i) :=
    funext (slotHas_readable parcel type)
  rw [heq, lpcParcelFindArgSolt]

theorem readable_of_find (h : lpcParcelFindArgSolt parcel type = some i) :
    parcel.readable i = some (parcel.value i type) := by
  have hsome := List.find?_some h
  simp only [Bool.and_eq_true, decide_eq_true_eq] at hsome
  obtain ⟨hused, htype, hlen⟩ := hsome
  rw [Parcel.readable, if_pos ⟨hused, hlen⟩, htype]
  rfl

theorem getLsbD_clear (x : BitVec 32) (i j : ℕ) :
    (x &&& ~~~(1#32 <<< i)).getLsbD j = (x.getLsbD j && decide (j ≠ i)) := by
  by_cases hj : j < 32
  · simp only [BitVec.getLsbD_and, BitVec.getLsbD_not, BitVec.getLsbD_shiftLeft,
      BitVec.getLsbD_one, hj]
    by_cases hji : j = i
    · simp [hji]
    · by_cases hlt : j < i
      · simp [hlt, hji]
      · have hsub : j - i ≠ 0 := by omega
        simp [hsub, hji]
  · rw [BitVec.getLsbD_of_ge _ _ (by omega), BitVec.getLsbD_of_ge _ _ (by omega)]
    rfl

theorem getLsbD_set (x : BitVec 32) {i : ℕ} (hi : i < lpcParcelArgNr) (j : ℕ) :
    (x ||| 1#32 <<< i).getLsbD j = (x.getLsbD j || decide (j = i)) := by
  by_cases hj : j < 32
  · simp only [BitVec.getLsbD_or, BitVec.getLsbD_shiftLeft, BitVec.getLsbD_one, hj]
    by_cases hji : j = i
    · simp [hji]
    · by_cases hlt : j < i
      · simp [hlt, hji]
      · have hsub : j - i ≠ 0 := by omega
        simp [hsub, hji]
  · have hji : j ≠ i := by
      have : i < 8 := hi
      omega
    rw [BitVec.getLsbD_of_ge _ _ (by omega), BitVec.getLsbD_of_ge _ _ (by omega)]
    simp [hji]

/-- A cleared slot cannot be read. -/
theorem readable_clear_self (parcel : Parcel)
    (i : ℕ) : (lpcParcelClearArg parcel i).readable i = none := by
  unfold Parcel.readable lpcParcelClearArg
  rw [if_neg]
  rintro ⟨-, hlen⟩
  simp at hlen

/-- Slots with the same entries over the same data hold the same value. -/
theorem readable_congr {parcel' : Parcel} (hused : parcel'.argused.getLsbD i =
    parcel.argused.getLsbD i)
    (hargs : parcel'.args i = parcel.args i) (hlen : parcel'.arglen i = parcel.arglen i)
    (htype : parcel'.argtype i = parcel.argtype i) (hdata : parcel'.data = parcel.data) :
    parcel'.readable i = parcel.readable i := by
  have hvalue : parcel'.value i = parcel.value i := by
    funext type
    cases type <;> simp only [Parcel.value, hargs, hlen, hdata]
  rw [Parcel.readable, Parcel.readable, hused, hlen, htype, hvalue]

/-- Clearing a slot leaves the others alone. -/
theorem readable_clear_of_ne (parcel : Parcel) {i j : ℕ} (hj : j ≠ i) :
    (lpcParcelClearArg parcel i).readable j = parcel.readable j := by
  apply readable_congr
  · show (parcel.argused &&& ~~~(1#32 <<< i)).getLsbD j = _
    rw [getLsbD_clear, decide_eq_true hj, Bool.and_true]
  · exact Function.update_of_ne hj ..
  · exact Function.update_of_ne hj ..
  · exact Function.update_of_ne hj ..
  · rfl

/-- **A read** takes the first readable argument of its type, and fails if there is none. -/
theorem lpcParcelRead_spec (parcel : Parcel) (type : ArgType) :
    match lpcParcelRead parcel type with
    | none => first Value.type type parcel.values = none
    | some (v, parcel') => first Value.type type parcel.values = some v ∧
        parcel'.values = without Value.type type parcel.values := by
  rw [lpcParcelRead_eq, readArg]
  cases hfind : lpcParcelFindArgSolt parcel type with
  | none =>
      rw [Option.map_none]
      show first Value.type type parcel.values = none
      rw [Parcel.values, first_filterMap, ← lpcParcelFindArgSolt_eq, hfind, Option.bind_none]
  | some i =>
      rw [Option.map_some]
      constructor
      · rw [Parcel.values, first_filterMap, ← lpcParcelFindArgSolt_eq, hfind, Option.bind_some]
        exact readable_of_find hfind
      · rw [lpcParcelFindArgSolt_eq] at hfind
        exact without_filterMap _ _ type (readable_clear_self parcel i)
          (fun j hj => readable_clear_of_ne parcel hj) List.nodup_range hfind

/-- **A series of reads** takes arguments by type. -/
theorem readAll_spec (types : List ArgType) : ∀ parcel : Parcel,
    (readAll parcel types).1 = answers Value.type parcel.values types ∧
      (readAll parcel types).2.values = rest Value.type parcel.values types := by
  induction types with
  | nil => intro parcel; exact ⟨rfl, rfl⟩
  | cons type types ih =>
      intro parcel
      have hspec := lpcParcelRead_spec parcel type
      rw [readAll, answers, rest]
      cases hread : lpcParcelRead parcel type with
      | none =>
          rw [hread] at hspec
          have hsame : without Value.type type parcel.values = parcel.values :=
            List.eraseP_of_forall_not fun a ha => List.find?_eq_none.1 hspec a ha
          simp only [hspec, hsame, (ih parcel).1]
          exact ⟨trivial, (ih parcel).2⟩
      | some r =>
          obtain ⟨v, parcel'⟩ := r
          rw [hread] at hspec
          simp only [hspec.1, ← hspec.2, (ih parcel').1]
          exact ⟨trivial, (ih parcel').2⟩

end Reads

/-! ## Writing -/

/-- What a read of an argument yields: a `long` loses its upper half, an empty sequence is not
found. -/
def Arg.stored : Arg → Option Value
  | .long num => some (.long num.toUInt32.toUInt64)
  | .sequence buf => if buf.bytes = [] then none else some (.sequence buf.bytes)
  | arg => some arg.value

/-- The memory from `off` on holds the bytes. -/
def BytesAt (data : ℕ → UInt8) (off : ℕ) (bytes : List UInt8) : Prop :=
  ∀ k b, bytes[k]? = some b → data (off + k) = b

/-- Slot `i` holds the argument; a payload lies below `limit` in the data area. -/
def SlotHolds (parcel : Parcel) (limit i : ℕ) : Arg → Prop
  | .char num => parcel.args i = num.toUInt32 ∧ parcel.arglen i = 1
  | .short num => parcel.args i = num.toUInt32 ∧ parcel.arglen i = 2
  | .int num => parcel.args i = num ∧ parcel.arglen i = 4
  | .long num => parcel.args i = num.toUInt32 ∧ parcel.arglen i = 8
  | .string str =>
      (parcel.arglen i).toNat = str.bytes.length + 1 ∧
        (parcel.args i).toNat + str.bytes.length < limit ∧
        BytesAt parcel.data (parcel.args i).toNat str.bytes ∧
        parcel.data ((parcel.args i).toNat + str.bytes.length) = 0
  | .sequence buf =>
      (parcel.arglen i).toNat = buf.bytes.length ∧
        (parcel.args i).toNat + buf.bytes.length < limit ∧
        BytesAt parcel.data (parcel.args i).toNat buf.bytes

/-- The parcel holds the arguments, from the first slot on. -/
structure Written (parcel : Parcel) (args : List Arg) : Prop where
  room : parcel.size.toNat < 4012
  length : args.length ≤ lpcParcelArgNr
  used : ∀ i < lpcParcelArgNr, parcel.argused.getLsbD i = decide (i < args.length)
  types : ∀ i arg, args[i]? = some arg → parcel.argtype i = some arg.type
  slots : ∀ i arg, args[i]? = some arg → SlotHolds parcel parcel.size.toNat i arg

section Writes

variable {parcel : Parcel} {args : List Arg} {i : ℕ}

theorem strAt_of_bytesAt {data : ℕ → UInt8} (bytes : List UInt8) : ∀ {off n : ℕ}, 0 ∉ bytes →
    BytesAt data off bytes → data (off + bytes.length) = 0 → bytes.length < n →
    strAt data off n = bytes := by
  induction bytes with
  | nil =>
      intro off n _ _ hnul hn
      obtain ⟨n, rfl⟩ := Nat.exists_eq_succ_of_ne_zero (Nat.ne_zero_of_lt hn)
      rw [strAt, if_pos (by simpa using hnul)]
  | cons b bytes ih =>
      intro off n hno hbytes hnul hn
      obtain ⟨n, rfl⟩ := Nat.exists_eq_succ_of_ne_zero (Nat.ne_zero_of_lt hn)
      have hb : data off = b := hbytes 0 b rfl
      rw [List.mem_cons, not_or] at hno
      have hne : data off ≠ 0 := by
        rw [hb]
        exact fun h => hno.1 h.symm
      rw [strAt, if_neg hne, hb]
      congr 1
      refine ih hno.2 (fun k c hc => ?_) ?_ (by simpa using hn)
      · rw [Nat.add_assoc, Nat.add_comm 1 k]
        exact hbytes (k + 1) c (by rw [List.getElem?_cons_succ]; exact hc)
      · rw [Nat.add_assoc, Nat.add_comm 1 bytes.length]
        exact hnul

theorem map_range_of_bytesAt {data : ℕ → UInt8} {bytes : List UInt8} {off : ℕ}
    (h : BytesAt data off bytes) :
    (List.range bytes.length).map (fun k => data (off + k)) = bytes := by
  apply List.ext_getElem (by simp)
  intro k hk hk'
  simpa using h k _ (List.getElem?_eq_getElem hk')

/-- What can be read from a slot that holds an argument. -/
theorem readable_of_holds {limit : ℕ} {arg : Arg} (hlimit : limit < 4012)
    (hused : parcel.argused.getLsbD i = true) (htype : parcel.argtype i = some arg.type)
    (h : SlotHolds parcel limit i arg) : parcel.readable i = arg.stored := by
  unfold Parcel.readable
  rw [hused, htype, Option.map_some]
  cases arg with
  | char num =>
      obtain ⟨hargs, hlen⟩ := h
      rw [if_pos ⟨rfl, by rw [hlen]; decide⟩]
      simp [Arg.type, Parcel.value, Arg.stored, Arg.value, hargs]
  | short num =>
      obtain ⟨hargs, hlen⟩ := h
      rw [if_pos ⟨rfl, by rw [hlen]; decide⟩]
      simp [Arg.type, Parcel.value, Arg.stored, Arg.value, hargs]
  | int num =>
      obtain ⟨hargs, hlen⟩ := h
      rw [if_pos ⟨rfl, by rw [hlen]; decide⟩]
      simp [Arg.type, Parcel.value, Arg.stored, Arg.value, hargs]
  | long num =>
      obtain ⟨hargs, hlen⟩ := h
      rw [if_pos ⟨rfl, by rw [hlen]; decide⟩]
      simp [Arg.type, Parcel.value, Arg.stored, hargs]
  | string str =>
      obtain ⟨hlen, hlow, hbytes, hnul⟩ := h
      have hpos : 0 < parcel.arglen i := by
        rw [UInt16.lt_iff_toNat_lt, hlen]
        exact Nat.succ_pos _
      rw [if_pos ⟨rfl, hpos⟩]
      show some (Value.string _) = some (Value.string str.bytes)
      rw [strAt_of_bytesAt str.bytes str.noNul hbytes hnul]
      show str.bytes.length < 4084
      omega
  | sequence buf =>
      obtain ⟨hlen, hlow, hbytes⟩ := h
      rw [Arg.stored]
      by_cases hempty : buf.bytes = []
      · have hzero : ¬ 0 < parcel.arglen i := by
          rw [UInt16.lt_iff_toNat_lt, hlen, hempty]
          exact lt_irrefl 0
        rw [if_neg fun h => hzero h.2, if_pos hempty]
      · have hpos : 0 < parcel.arglen i := by
          rw [UInt16.lt_iff_toNat_lt, hlen]
          exact List.length_pos_of_ne_nil hempty
        rw [if_pos ⟨rfl, hpos⟩, if_neg hempty]
        show some (Value.sequence _) = some (Value.sequence buf.bytes)
        rw [hlen, map_range_of_bytesAt hbytes]

/-- **What can be read** after a series of writes. -/
theorem values_of_written (h : Written parcel args) :
    parcel.values = args.filterMap Arg.stored := by
  rw [Parcel.values, ← filterMap_range Arg.stored args h.length]
  apply List.filterMap_congr
  intro i hi
  have hi := List.mem_range.1 hi
  cases harg : args[i]? with
  | none =>
      have hunused : parcel.argused.getLsbD i = false := by
        rw [h.used i hi, decide_eq_false_iff_not, not_lt]
        exact List.getElem?_eq_none_iff.1 harg
      rw [Parcel.readable, hunused, if_neg (fun hcon => Bool.false_ne_true hcon.1),
        Option.bind_none]
  | some arg =>
      have hused : parcel.argused.getLsbD i = true := by
        rw [h.used i hi, decide_eq_true_eq]
        exact (List.getElem?_eq_some_iff.1 harg).1
      rw [Option.bind_some]
      exact readable_of_holds h.room hused (h.types i arg harg) (h.slots i arg harg)

/-- The slot a write gets is the one behind those in use. -/
theorem lpcParcelAllocArgSolt_eq (h : Written parcel args)
    (halloc : lpcParcelAllocArgSolt parcel = some i) : i = args.length ∧ i < lpcParcelArgNr := by
  obtain ⟨hfree, hmem, hbefore⟩ := List.find?_range_eq_some.1 halloc
  have hi := List.mem_range.1 hmem
  refine ⟨le_antisymm ?_ ?_, hi⟩
  · by_contra hlt
    have hused := hbefore args.length (not_le.1 hlt)
    rw [h.used _ ((not_le.1 hlt).trans hi)] at hused
    simp at hused
  · rw [h.used i hi] at hfree
    simpa using hfree

theorem bytesAt_congr {data data' : ℕ → UInt8} {off limit : ℕ} {bytes : List UInt8}
    (hlow : off + bytes.length < limit) (hdata : ∀ k < limit, data' k = data k)
    (h : BytesAt data off bytes) : BytesAt data' off bytes := by
  intro k b hb
  obtain ⟨hk, -⟩ := List.getElem?_eq_some_iff.1 hb
  rw [hdata _ (by omega)]
  exact h k b hb

/-- Writes to other slots and behind the payload leave a slot alone. -/
theorem slotHolds_congr {parcel' : Parcel} {limit limit' : ℕ} {arg : Arg}
    (hargs : parcel'.args i = parcel.args i) (hlen : parcel'.arglen i = parcel.arglen i)
    (hlimit : limit ≤ limit') (hdata : ∀ k < limit, parcel'.data k = parcel.data k)
    (h : SlotHolds parcel limit i arg) : SlotHolds parcel' limit' i arg := by
  cases arg with
  | char num => exact ⟨hargs.trans h.1, hlen.trans h.2⟩
  | short num => exact ⟨hargs.trans h.1, hlen.trans h.2⟩
  | int num => exact ⟨hargs.trans h.1, hlen.trans h.2⟩
  | long num => exact ⟨hargs.trans h.1, hlen.trans h.2⟩
  | string str =>
      obtain ⟨hl, hlow, hbytes, hnul⟩ := h
      rw [SlotHolds, hargs, hlen, hdata _ hlow]
      exact ⟨hl, hlow.trans_le hlimit, bytesAt_congr hlow hdata hbytes, hnul⟩
  | sequence buf =>
      obtain ⟨hl, hlow, hbytes⟩ := h
      rw [SlotHolds, hargs, hlen]
      exact ⟨hl, hlow.trans_le hlimit, bytesAt_congr hlow hdata hbytes⟩

/-- Setting the next slot appends the argument it then holds. -/
theorem written_set (h : Written parcel args) {arg : Arg} {num size : UInt32} {len : UInt16}
    {data : ℕ → UInt8} (hn : args.length < lpcParcelArgNr)
    (hgrow : parcel.size.toNat ≤ size.toNat) (hroom : size.toNat < 4012)
    (hdata : ∀ k < parcel.size.toNat, data k = parcel.data k)
    (hslot : SlotHolds { lpcParcelSetArg parcel args.length num len arg.type with
      data := data, size := size } size.toNat args.length arg) :
    Written { lpcParcelSetArg parcel args.length num len arg.type with data := data, size := size }
      (args ++ [arg]) := by
  have hsplit : ∀ i a, (args ++ [arg])[i]? = some a →
      i < args.length ∧ args[i]? = some a ∨ i = args.length ∧ a = arg := by
    intro i a ha
    by_cases hi : i < args.length
    · rw [List.getElem?_append_left hi] at ha
      exact Or.inl ⟨hi, ha⟩
    · have hlen := (List.getElem?_eq_some_iff.1 ha).1
      rw [List.length_append, List.length_singleton] at hlen
      obtain rfl : i = args.length := by omega
      rw [List.getElem?_concat_length, Option.some.injEq] at ha
      exact Or.inr ⟨rfl, ha.symm⟩
  refine ⟨hroom, ?_, fun i hi => ?_, fun i a ha => ?_, fun i a ha => ?_⟩
  · rw [List.length_append, List.length_singleton]
    exact hn
  · show (parcel.argused ||| 1#32 <<< args.length).getLsbD i = _
    rw [getLsbD_set _ hn, h.used i hi, List.length_append, List.length_singleton, ← Bool.decide_or]
    congr 1
    exact propext (by omega)
  · rcases hsplit i a ha with ⟨hi, ha⟩ | ⟨rfl, rfl⟩
    · exact (Function.update_of_ne hi.ne ..).trans (h.types i a ha)
    · exact Function.update_self ..
  · rcases hsplit i a ha with ⟨hi, ha⟩ | ⟨rfl, rfl⟩
    · exact slotHolds_congr (Function.update_of_ne hi.ne ..) (Function.update_of_ne hi.ne ..) hgrow
        hdata (h.slots i a ha)
    · exact hslot

theorem written_scalar (h : Written parcel args) (arg : Arg) {num : UInt32} {len : UInt16}
    {parcel' : Parcel} (hwrite : writeScalar parcel num len arg.type = some parcel')
    (hslot : ∀ p : Parcel, p.args args.length = num → p.arglen args.length = len →
      SlotHolds p parcel.size.toNat args.length arg) : Written parcel' (args ++ [arg]) := by
  unfold writeScalar at hwrite
  cases halloc : lpcParcelAllocArgSolt parcel with
  | none => simp [halloc] at hwrite
  | some i =>
      simp only [halloc, Option.some.injEq] at hwrite
      obtain ⟨rfl, hi⟩ := lpcParcelAllocArgSolt_eq h halloc
      subst hwrite
      exact written_set h hi le_rfl h.room (fun _ _ => rfl)
        (hslot _ (Function.update_self ..) (Function.update_self ..))

theorem putBytes_bytesAt (data : ℕ → UInt8) (off : ℕ) (bytes : List UInt8) :
    BytesAt (putBytes data off bytes) off bytes := by
  intro k b hb
  obtain ⟨hk, hval⟩ := List.getElem?_eq_some_iff.1 hb
  unfold putBytes
  rw [Function.update_of_ne (by omega), memcpy_of_mem (Nat.le_add_right _ _) (by omega),
    Nat.add_sub_cancel_left, List.getD_eq_getElem _ _ hk, hval]

theorem putBytes_of_lt (data : ℕ → UInt8) {off k : ℕ} (bytes : List UInt8) (hk : k < off) :
    putBytes data off bytes k = data k := by
  unfold putBytes
  rw [Function.update_of_ne (by omega), memcpy_of_not_mem (by omega)]

theorem written_payload (h : Written parcel args) (arg : Arg) {bytes : List UInt8} {len : UInt16}
    (hmem : bytes.length + portMsgSize < 4294967296) {parcel' : Parcel}
    (hwrite : writePayload parcel bytes len arg.type = some parcel')
    (hslot : ∀ (p : Parcel) (limit : ℕ), bytes.length < 4011 → p.arglen args.length = len →
      (p.args args.length).toNat + bytes.length < limit →
      BytesAt p.data (p.args args.length).toNat bytes →
      p.data ((p.args args.length).toNat + bytes.length) = 0 → SlotHolds p limit args.length arg) :
    Written parcel' (args ++ [arg]) := by
  unfold writePayload at hwrite
  cases halloc : lpcParcelAllocArgSolt parcel with
  | none => simp [halloc] at hwrite
  | some i =>
      simp only [halloc] at hwrite
      obtain ⟨rfl, hi⟩ := lpcParcelAllocArgSolt_eq h halloc
      have hroom := h.room
      -- the sum does not wrap, as the bytes are in memory beside the parcel
      have hsum : (parcel.size + UInt32.ofNat bytes.length + 1).toNat =
          parcel.size.toNat + bytes.length + 1 := by
        unfold portMsgSize at hmem
        rw [UInt32.toNat_add, UInt32.toNat_add,
          UInt32.toNat_ofNat_of_lt' (by rw [UInt32.size]; omega)]
        show ((parcel.size.toNat + bytes.length) % 4294967296 + 1) % 4294967296 = _
        omega
      split_ifs at hwrite with hfull
      rw [Option.some.injEq] at hwrite
      subst hwrite
      rw [UInt32.le_iff_toNat_le, hsum, not_le] at hfull
      have hfull : parcel.size.toNat + bytes.length + 1 < 4012 := hfull
      have hargs : Function.update parcel.args args.length parcel.size args.length = parcel.size :=
        Function.update_self ..
      refine written_set h hi (by omega) (by omega)
        (fun k hk => putBytes_of_lt parcel.data bytes hk) (hslot _ _ (by omega) ?_ ?_ ?_ ?_)
      · exact Function.update_self ..
      · show (Function.update parcel.args args.length parcel.size args.length).toNat + _ < _
        rw [hargs, hsum]
        exact Nat.lt_succ_self _
      · show BytesAt _ (Function.update parcel.args args.length parcel.size args.length).toNat bytes
        rw [hargs]
        exact putBytes_bytesAt parcel.data _ bytes
      · show putBytes parcel.data parcel.size.toNat bytes
          ((Function.update parcel.args args.length parcel.size args.length).toNat +
            bytes.length) = 0
        rw [hargs]
        exact Function.update_self ..

/-- **A write** that returns 0 appends its argument. -/
theorem written_write (h : Written parcel args) {arg : Arg} {parcel' : Parcel}
    (hwrite : lpcParcelWrite parcel arg = some parcel') : Written parcel' (args ++ [arg]) := by
  cases arg with
  | char num => exact written_scalar h (.char num) hwrite fun p hargs hlen => ⟨hargs, hlen⟩
  | short num => exact written_scalar h (.short num) hwrite fun p hargs hlen => ⟨hargs, hlen⟩
  | int num => exact written_scalar h (.int num) hwrite fun p hargs hlen => ⟨hargs, hlen⟩
  | long num => exact written_scalar h (.long num) hwrite fun p hargs hlen => ⟨hargs, hlen⟩
  | string str =>
      apply written_payload h (.string str) str.inMemory hwrite
      intro p limit hshort hlen hlow hbytes hnul
      refine ⟨?_, hlow, hbytes, hnul⟩
      rw [hlen, UInt16.toNat_ofNat_of_lt' (by rw [UInt16.size]; omega)]
  | sequence buf =>
      apply written_payload h (.sequence buf) buf.inMemory hwrite
      intro p limit hshort hlen hlow hbytes _
      refine ⟨?_, hlow, hbytes⟩
      rw [hlen, UInt16.toNat_ofNat_of_lt' (by rw [UInt16.size]; omega)]

end Writes

/-! ## The round trip -/

/-- Every order of reads that asks for each type as often as it was written gets, at the `k`-th
read of a type, the value of its `k`-th write; one further read of any type fails. -/
def RoundTrips (parcel : Parcel) (args : List Arg) : Prop :=
  ∀ types : List ArgType, (∀ type, types.count type = (args.map Arg.type).count type) →
    (∀ j type, types[j]? = some type → ∃ arg,
      (withKey Arg.type type args)[(types.take j).count type]? = some arg ∧
        (readAll parcel types).1[j]? = some (some arg.value)) ∧
    ∀ type, lpcParcelRead (readAll parcel types).2 type = none

/-- Every `long` fits into 32 bits and no sequence is empty. -/
def Fits (args : List Arg) : Prop :=
  (∀ num, Arg.long num ∈ args → num.toNat < 4294967296) ∧
    ∀ buf, Arg.sequence buf ∈ args → buf.bytes ≠ []

section RoundTrip

variable {parcel : Parcel} {args : List Arg}

theorem type_value_arg (arg : Arg) : arg.value.type = arg.type := by cases arg <;> rfl

theorem toUInt32_toUInt64_eq_iff (num : UInt64) :
    num.toUInt32.toUInt64 = num ↔ num.toNat < 4294967296 := by
  rw [← UInt64.toNat_inj]
  simp only [UInt32.toNat_toUInt64, UInt64.toNat_toUInt32]
  omega

/-- The arguments that come back are those the condition names. -/
theorem fits_iff : Fits args ↔ ∀ arg ∈ args, arg.stored = some arg.value := by
  constructor
  · rintro ⟨hlong, hsequence⟩ arg harg
    cases arg with
    | long num =>
        rw [Arg.stored, (toUInt32_toUInt64_eq_iff num).2 (hlong num harg)]
        rfl
    | sequence buf =>
        rw [Arg.stored, if_neg (hsequence buf harg)]
        rfl
    | char num => rfl
    | short num => rfl
    | int num => rfl
    | string str => rfl
  · intro h
    constructor
    · intro num hnum
      have hstored := h _ hnum
      rw [Arg.stored, Arg.value, Option.some.injEq, Value.long.injEq] at hstored
      exact (toUInt32_toUInt64_eq_iff num).1 hstored
    · intro buf hbuf hempty
      have hstored := h _ hbuf
      rw [Arg.stored, if_pos hempty] at hstored
      cases hstored

theorem type_stored {arg : Arg} {v : Value} (h : arg.stored = some v) : v.type = arg.type := by
  cases arg with
  | long num =>
      rw [Arg.stored, Option.some.injEq] at h
      rw [← h]
      rfl
  | sequence buf =>
      rw [Arg.stored] at h
      split_ifs at h with hempty
      rw [Option.some.injEq] at h
      rw [← h]
      rfl
  | char num => cases h; rfl
  | short num => cases h; rfl
  | int num => cases h; rfl
  | string str => cases h; rfl

/-- Only an empty sequence cannot be read, and no read yields one. -/
theorem stored_eq_none {arg : Arg} (h : arg.stored = none) :
    arg.value = .sequence [] ∧ ∀ arg' : Arg, arg'.stored ≠ some arg.value := by
  cases arg with
  | sequence buf =>
      rw [Arg.stored] at h
      split_ifs at h with hempty
      refine ⟨by rw [Arg.value, hempty], fun arg' h' => ?_⟩
      rw [Arg.value, hempty] at h'
      cases arg' with
      | sequence buf' =>
          rw [Arg.stored] at h'
          split_ifs at h' with hempty'
          rw [Option.some.injEq, Value.sequence.injEq] at h'
          exact hempty' h'
      | long num => cases h'
      | char num => cases h'
      | short num => cases h'
      | int num => cases h'
      | string str => cases h'
  | long num => cases h
  | char num => cases h
  | short num => cases h
  | int num => cases h
  | string str => cases h

/-- If reading in the order of the writes yields what was written, every argument comes back. -/
theorem stored_of_answers : ∀ {args : List Arg},
    answers Value.type (args.filterMap Arg.stored) (args.map Arg.type) =
      args.map (fun arg => some arg.value) → ∀ arg ∈ args, arg.stored = some arg.value := by
  intro args
  induction args with
  | nil => intro _ arg harg; exact absurd harg List.not_mem_nil
  | cons arg args ih =>
      intro h
      rw [List.map_cons, List.map_cons, answers, List.cons.injEq] at h
      obtain ⟨hfirst, hrest⟩ := h
      cases hstored : arg.stored with
      | none =>
          -- the read finds a later sequence or nothing, never the empty one
          obtain ⟨-, hnever⟩ := stored_eq_none hstored
          obtain ⟨arg', -, harg'⟩ := List.mem_filterMap.1 (List.mem_of_find?_eq_some hfirst)
          exact absurd harg' (hnever arg')
      | some v =>
          have htype := type_stored hstored
          rw [List.filterMap_cons_some hstored] at hfirst hrest
          rw [without_cons_of_eq htype] at hrest
          have hv : first Value.type arg.type (v :: args.filterMap Arg.stored) = some v :=
            List.find?_cons_of_pos (by simpa using htype)
          rw [hv] at hfirst
          intro a ha
          rcases List.mem_cons.1 ha with rfl | ha
          · rw [hstored, hfirst]
          · exact ih hrest a ha

theorem withKey_map_value (type : ArgType) (args : List Arg) :
    withKey Value.type type (args.map Arg.value) = (withKey Arg.type type args).map Arg.value := by
  unfold withKey
  rw [List.filter_map]
  congr 1
  apply List.filter_congr
  intro arg _
  simp only [Function.comp_apply, type_value_arg]

theorem length_withKey (type : ArgType) (args : List Arg) :
    (withKey Arg.type type args).length = (args.map Arg.type).count type := by
  unfold withKey
  rw [List.count_eq_countP, List.countP_map, List.countP_eq_length_filter]
  congr 1

theorem count_take_lt {types : List ArgType} {j : ℕ} {type : ArgType} (h : types[j]? = some type) :
    (types.take j).count type < types.count type := by
  obtain ⟨hj, hval⟩ := List.getElem?_eq_some_iff.1 h
  have hle := (List.take_sublist (j + 1) types).count_le type
  rw [List.take_succ_eq_append_getElem hj, List.count_append, hval, List.count_singleton_self]
    at hle
  omega

/-- What the writes left can be read as the claimed values. -/
theorem roundTrips_of_values (h : parcel.values = args.map Arg.value) : RoundTrips parcel args := by
  intro types hcount
  obtain ⟨hanswers, hrest⟩ := readAll_spec types parcel
  constructor
  · intro j type htype
    have hlt : (types.take j).count type < (withKey Arg.type type args).length := by
      rw [length_withKey, ← hcount]
      exact count_take_lt htype
    refine ⟨_, List.getElem?_eq_getElem hlt, ?_⟩
    rw [hanswers, answers_getElem? types _ j type htype, h, withKey_map_value, List.getElem?_map,
      List.getElem?_eq_getElem hlt, Option.map_some]
  · intro type
    have hnone : first Value.type type (readAll parcel types).2.values = none := by
      rw [hrest]
      apply first_rest_eq_none
      rw [h, withKey_map_value, List.length_map, length_withKey, hcount]
    have hspec := lpcParcelRead_spec (readAll parcel types).2 type
    cases hread : lpcParcelRead (readAll parcel types).2 type with
    | none => rfl
    | some r =>
        rw [hread] at hspec
        exact absurd (hspec.1.symm.trans hnone) (Option.some_ne_none _)

/-- Reading in the order of the writes. -/
theorem answers_of_roundTrips (h : RoundTrips parcel args) :
    answers Value.type parcel.values (args.map Arg.type) = args.map fun arg => some arg.value := by
  obtain ⟨hreads, -⟩ := h (args.map Arg.type) fun _ => rfl
  rw [← (readAll_spec _ parcel).1]
  refine List.ext_getElem? fun j => ?_
  cases hj : args[j]? with
  | none =>
      have hlen := List.getElem?_eq_none_iff.1 hj
      have hreadlen : (readAll parcel (args.map Arg.type)).1.length = args.length := by
        rw [(readAll_spec _ parcel).1, length_answers, List.length_map]
      rw [List.getElem?_eq_none (hreadlen.trans_le hlen), List.getElem?_map, hj, Option.map_none]
  | some arg =>
      have htype : (args.map Arg.type)[j]? = some arg.type := by
        rw [List.getElem?_map, hj, Option.map_some]
      obtain ⟨arg', hkth, hread⟩ := hreads j arg.type htype
      -- the write this read stands for is the one at the same place
      have hself : (answers Arg.type args (args.map Arg.type))[j]? = _ :=
        answers_getElem? (args.map Arg.type) args j arg.type htype
      rw [answers_self, List.getElem?_map, hj, hkth, Option.map_some, Option.some.injEq,
        Option.some.injEq] at hself
      rw [hread, List.getElem?_map, hj, Option.map_some, hself]

theorem written_nil : Written lpcParcelGet [] where
  room := by decide
  length := Nat.zero_le _
  used := fun i _ => by simp [lpcParcelGet]
  types := fun i arg h => by simp at h
  slots := fun i arg h => by simp at h

theorem written_exec : ∀ (new : List Arg) {args : List Arg} {parcel parcel' : Parcel},
    Written parcel args → Run.exec lpcParcelWrite parcel new = some parcel' →
      Written parcel' (args ++ new) := by
  intro new
  induction new with
  | nil =>
      intro args parcel parcel' h hexec
      cases hexec
      rwa [List.append_nil]
  | cons arg new ih =>
      intro args parcel parcel' h hexec
      obtain ⟨t, ht, hrest⟩ := Run.exec_cons_eq_some.1 hexec
      have happend := ih (written_write h ht) hrest
      rwa [List.append_assoc, List.singleton_append] at happend

end RoundTrip

/-- **Round trip.**  For every series of writes that all return 0, every order of reads returns the
values written if and only if every `long` fits into 32 bits and no sequence is empty. -/
theorem lpcParcel_roundTrip_iff (args : List Arg) (parcel : Parcel)
    (hwrites : Run.exec lpcParcelWrite lpcParcelGet args = some parcel) :
    RoundTrips parcel args ↔ Fits args := by
  have hwritten : Written parcel args := written_exec args written_nil hwrites
  have hvalues := values_of_written hwritten
  rw [fits_iff]
  constructor
  · intro h
    have hanswers := answers_of_roundTrips h
    rw [hvalues] at hanswers
    exact stored_of_answers hanswers
  · intro h
    apply roundTrips_of_values
    rw [hvalues, ← List.filterMap_eq_map]
    exact List.filterMap_congr h

/-- A parcel of four arguments. -/
def fourArgs : List Arg :=
  [.long 70000, .string ⟨[104, 105], by decide, by decide⟩, .sequence ⟨[1, 2, 3], by decide⟩,
    .long 5]

theorem lpcParcel_roundTrip_fourArgs : ∃ parcel,
    Run.exec lpcParcelWrite lpcParcelGet fourArgs = some parcel ∧ RoundTrips parcel fourArgs := by
  have hwrites : (Run.exec lpcParcelWrite lpcParcelGet fourArgs).isSome = true := by decide +kernel
  obtain ⟨parcel, hparcel⟩ := Option.isSome_iff_exists.1 hwrites
  refine ⟨parcel, hparcel, (lpcParcel_roundTrip_iff fourArgs parcel hparcel).2 ?_⟩
  constructor
  · intro num hnum
    simp only [fourArgs, List.mem_cons, Arg.long.injEq, List.not_mem_nil, or_false, reduceCtorEq,
      false_or] at hnum
    rcases hnum with rfl | rfl <;> decide
  · intro buf hbuf
    simp only [fourArgs, List.mem_cons, Arg.sequence.injEq, List.not_mem_nil, or_false,
      reduceCtorEq, false_or] at hbuf
    rw [hbuf]
    exact List.cons_ne_nil _ _

/-- A `long` of 2 ^ 32 + 1 comes back as 1, and an empty sequence is not found. -/
theorem lpcParcel_not_roundTrip :
    (∃ parcel, Run.exec lpcParcelWrite lpcParcelGet [.long 4294967297] = some parcel ∧
      (readAll parcel [.long]).1 = [some (.long 1)] ∧ ¬ RoundTrips parcel [.long 4294967297]) ∧
    ∃ parcel, Run.exec lpcParcelWrite lpcParcelGet [.sequence ⟨[], by decide⟩] = some parcel ∧
      (readAll parcel [.sequence]).1 = [none] ∧
      ¬ RoundTrips parcel [.sequence ⟨[], by decide⟩] := by
  constructor
  · refine ⟨_, rfl, by decide +kernel, fun h => ?_⟩
    obtain ⟨hreads, -⟩ := h [.long] fun _ => rfl
    obtain ⟨arg, harg, hread⟩ := hreads 0 .long rfl
    cases harg
    revert hread
    decide +kernel
  · refine ⟨_, rfl, by decide +kernel, fun h => ?_⟩
    obtain ⟨hreads, -⟩ := h [.sequence] fun _ => rfl
    obtain ⟨arg, harg, hread⟩ := hreads 0 .sequence rfl
    cases harg
    revert hread
    decide +kernel

end Lpc
end LightOS
