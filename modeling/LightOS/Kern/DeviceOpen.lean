import LightOS.Lib.Run
import LightOS.Lib.Slots

/-!
# Opening and closing devices

`device_open` and `device_close` of `kernel/driver.c`, the table of open devices and the
references.  The devices and their drivers are fixed.  Whether there is memory for a
request, and what the driver does with it, are arguments of the calls; calls are made one after
the other.

A call that does not return stops the model: `io_build_sync_request` writes through the null
pointer it is given when there is no memory, and a device whose driver returned without
completing the request keeps its lock.

* `DeviceInv.count`, `DeviceInv.insert`, `DeviceInv.remove` — what happens to the accounts of a
  device.
* `deviceOpen_kept`, `deviceClose_kept` — what the calls do when they can be relied on.
* `deviceCallOk_iff` — when a call keeps its promise.
* `device_accounts_iff` — in which runs all of them do.
-/

namespace LightOS
namespace Device

/-- `DEVICE_HANDLE_NR`. -/
abbrev deviceHandleNr : ℕ := 32

/-- `device_type_t`. -/
inductive DeviceType where
  | any | beep | disk | keyboard | mouse | null | port | serialPort | parallelPort | physicNetcard
  | printer | scanner | screen | sound | stream | unknown | video | virtualDisk | virtualChar
  | waveIn | waveOut | port8042 | network | busExternder | acpi | view
  deriving DecidableEq

/-- The types whose devices `io_call_dirver` locks. -/
def DeviceType.locks : DeviceType → Bool
  | .serialPort | .screen | .keyboard | .mouse | .virtualChar | .beep | .view | .sound => true
  | .disk | .network | .physicNetcard => true
  | _ => false

/-- The devices: their objects in the order of the lists of the drivers, and their names and types.
-/
structure IoSystem where
  deviceList : List ℕ
  name : ℕ → List UInt8
  type : ℕ → DeviceType

/-- `device_handle_table`, the references, and the locks that are taken. -/
structure DeviceState where
  table : Fin deviceHandleNr → Option ℕ
  reference : ℕ → ℤ
  locked : ℕ → Bool

/-- What a driver does with a request: what it returns, what it writes into the request, and
whether it completes it. -/
structure Dispatch where
  status : BitVec 32
  ioStatus : BitVec 32
  completed : Bool

/-! ## The table -/

/-- `device_handle_table_search_by_name`. -/
def deviceHandleTableSearchByName (sys : IoSystem) (s : DeviceState) (name : List UInt8) :
    Option ℕ :=
  (List.finRange deviceHandleNr).findSome? fun i => (s.table i).filter fun d => sys.name d == name

/-- `device_handle_find_by_object`. -/
def deviceHandleFindByObject (s : DeviceState) (d : ℕ) : Option (Fin deviceHandleNr) :=
  (List.finRange deviceHandleNr).find? fun i => s.table i == some d

/-- `device_handle_table_insert`. -/
def deviceHandleTableInsert (s : DeviceState) (d : ℕ) : Option (DeviceState × Fin deviceHandleNr) :=
  (Slots.firstFree Option.isSome s.table).map fun i =>
    ({ s with table := Function.update s.table i (some d) }, i)

/-- `device_handle_table_remove`: the first entry with the name and the type of the device. -/
def deviceHandleTableRemove (sys : IoSystem) (s : DeviceState) (d : ℕ) : Option DeviceState :=
  ((List.finRange deviceHandleNr).find? fun i =>
      (s.table i).any fun e => sys.name e == sys.name d && decide (sys.type e = sys.type d)).map
    fun i => { s with table := Function.update s.table i none }

/-- `io_search_device_by_name`. -/
def ioSearchDeviceByName (sys : IoSystem) (s : DeviceState) (name : List UInt8) : Option ℕ :=
  match deviceHandleTableSearchByName sys s name with
  | some d => some d
  | none => sys.deviceList.find? fun d => sys.name d == name

/-- `GET_DEVICE_BY_HANDLE`, of a handle that is not bad. -/
def getDeviceByHandle (s : DeviceState) (handle : ℤ) : Option ℕ :=
  if h : 0 ≤ handle ∧ handle < deviceHandleNr then s.table ⟨handle.toNat, by omega⟩ else none

/-! ## Requests -/

/-- `io_device_increase_reference`. -/
def ioDeviceIncreaseReference (s : DeviceState) (d : ℕ) : Option DeviceState :=
  if 0 ≤ s.reference d then
    some { s with reference := Function.update s.reference d (s.reference d + 1) }
  else none

/-- `io_device_decrease_reference`. -/
def ioDeviceDecreaseReference (s : DeviceState) (d : ℕ) : Option DeviceState :=
  if 0 ≤ s.reference d then
    some { s with reference := Function.update s.reference d (s.reference d - 1) }
  else none

/-- The lock `io_call_dirver` takes for the device is free, or it takes none. -/
def LockFree (sys : IoSystem) (s : DeviceState) (d : ℕ) : Prop :=
  ¬((sys.type d).locks = true ∧ s.locked d = true)

instance (sys : IoSystem) (s : DeviceState) (d : ℕ) : Decidable (LockFree sys s d) :=
  inferInstanceAs (Decidable ¬_)

/-- `io_call_dirver`.  `io_complete_request` gives the lock back. -/
def ioCallDirver (sys : IoSystem) (s : DeviceState) (d : ℕ) (dispatch : Dispatch) :
    Option DeviceState :=
  if LockFree sys s d then
    some { s with
      locked := Function.update s.locked d ((sys.type d).locks && !dispatch.completed) }
  else none

/-- `io_complete_check`; `IO_STATUS_MASK` leaves the low half. -/
def ioCompleteCheck (dispatch : Dispatch) : Bool :=
  dispatch.status &&& 0xffff == 0 && dispatch.ioStatus &&& 0xffff == 0 && dispatch.completed

/-! ## The calls -/

/-- `device_open`; `memory` is whether `io_request_alloc` succeeds. -/
def deviceOpen (sys : IoSystem) (s : DeviceState) (devname : List UInt8) (memory : Bool)
    (dispatch : Dispatch) : Option (DeviceState × ℤ) :=
  match ioSearchDeviceByName sys s devname with
  | none => some (s, -1)
  | some d =>
      match ioDeviceIncreaseReference s d with
      | none => some (s, -1)
      | some s =>
          if s.reference d = 1 then
            if memory then
              match ioCallDirver sys s d dispatch with
              | none => none
              | some s =>
                  if ioCompleteCheck dispatch then
                    match deviceHandleTableInsert s d with
                    | none => some (s, -1)
                    | some (s, handle) => some (s, handle.val)
                  else some ((ioDeviceDecreaseReference s d).getD s, -1)
            else none
          else
            match deviceHandleFindByObject s d with
            | none => some (s, -1)
            | some handle => some (s, handle.val)

/-- `device_close`. -/
def deviceClose (sys : IoSystem) (s : DeviceState) (handle : ℤ) (memory : Bool)
    (dispatch : Dispatch) :
    Option (DeviceState × ℤ) :=
  match getDeviceByHandle s handle with
  | none => some (s, -1)
  | some d =>
      match ioDeviceDecreaseReference s d with
      | none => some (s, -1)
      | some s =>
          if s.reference d = 0 then
            if memory then
              match ioCallDirver sys s d dispatch with
              | none => none
              | some s =>
                  if ioCompleteCheck dispatch then
                    match deviceHandleTableRemove sys s d with
                    | none => some (s, -1)
                    | some s => some (s, 0)
                  else some ((ioDeviceIncreaseReference s d).getD s, -1)
            else none
          else some (s, 0)

/-- A call. -/
inductive DeviceCall where
  | open_ (devname : List UInt8) (memory : Bool) (dispatch : Dispatch)
  | close (handle : ℤ) (memory : Bool) (dispatch : Dispatch)

/-- The state, and for every device how often it was opened, less how often it was closed. -/
structure DeviceRun where
  state : DeviceState
  balance : ℕ → ℤ

/-- A call on a device has returned: a success changes its balance. -/
def DeviceRun.returned (s : DeviceRun) (device : Option ℕ) (change : ℤ) (r : DeviceState × ℤ) :
    DeviceRun × ℤ :=
  match device with
  | none => (⟨r.1, s.balance⟩, r.2)
  | some d =>
      if r.2 < 0 then (⟨r.1, s.balance⟩, r.2)
      else (⟨r.1, Function.update s.balance d (s.balance d + change)⟩, r.2)

/-- One call, with what it returns. -/
def deviceCall (sys : IoSystem) (s : DeviceRun) : DeviceCall → Option (DeviceRun × ℤ)
  | .open_ devname memory dispatch =>
      (deviceOpen sys s.state devname memory dispatch).map
        (s.returned (ioSearchDeviceByName sys s.state devname) 1)
  | .close handle memory dispatch =>
      (deviceClose sys s.state handle memory dispatch).map
        (s.returned (getDeviceByHandle s.state handle) (-1))

/-- One call. -/
def deviceStep (sys : IoSystem) (s : DeviceRun) (call : DeviceCall) : Option DeviceRun :=
  (deviceCall sys s call).map Prod.fst

/-- Nothing is open. -/
def deviceInit : DeviceRun := ⟨⟨fun _ => none, fun _ => 0, fun _ => false⟩, fun _ => 0⟩

/-! ## The promise -/

/-- **The accounts are right**: the reference of a device is its balance, a device is in the table
while its reference is positive, and in one slot. -/
structure AccountsOk (s : DeviceRun) : Prop where
  reference : ∀ d, s.state.reference d = s.balance d
  listed : ∀ d, (∃ i, s.state.table i = some d) ↔ 0 < s.state.reference d
  single : ∀ i j d, s.state.table i = some d → s.state.table j = some d → i = j

/-- **A call keeps its promise**: it returns, the accounts are right, a successful open returns the
slot of its device, and a failed call has changed neither reference nor table. -/
def DeviceCallOk (sys : IoSystem) (s : DeviceRun) (call : DeviceCall) : Prop :=
  ∃ s' ret, deviceCall sys s call = some (s', ret) ∧ AccountsOk s' ∧
    (ret < 0 → s'.state.reference = s.state.reference ∧ s'.state.table = s.state.table) ∧
    ∀ devname memory dispatch, call = .open_ devname memory dispatch → 0 ≤ ret →
      ∃ d, ioSearchDeviceByName sys s.state devname = some d ∧
        ∃ i : Fin deviceHandleNr, ret = i.val ∧ s'.state.table i = some d

/-- When a call can be relied on.  The driver is called only for a device that nobody has open, or
that one has: then its lock is free, there is memory, and for an open that the driver accepts a
free slot. -/
def DeviceCallFine (sys : IoSystem) (s : DeviceRun) : DeviceCall → Prop
  | .open_ devname memory dispatch =>
      ∀ d ∈ ioSearchDeviceByName sys s.state devname, s.state.reference d = 0 →
        LockFree sys s.state d ∧ memory = true ∧
          (ioCompleteCheck dispatch = true → ∃ i, s.state.table i = none)
  | .close handle memory _ =>
      ∀ d ∈ getDeviceByHandle s.state handle, s.state.reference d = 1 →
        LockFree sys s.state d ∧ memory = true

/-- The accounts are right, and every device in the table is the one that is found by its name. -/
structure DeviceInv (sys : IoSystem) (s : DeviceRun) : Prop where
  ok : AccountsOk s
  nonneg : ∀ d, 0 ≤ s.state.reference d
  named : ∀ i d, s.state.table i = some d →
    (sys.deviceList.find? fun e => sys.name e == sys.name d) = some d

section Inv

variable {sys : IoSystem} {s : DeviceRun} {d : ℕ} {i : Fin deviceHandleNr}

theorem DeviceInv.locked (h : DeviceInv sys s) (locked : ℕ → Bool) :
    DeviceInv sys ⟨{ s.state with locked := locked }, s.balance⟩ :=
  ⟨⟨h.ok.reference, h.ok.listed, h.ok.single⟩, h.nonneg, h.named⟩

/-- Two devices in the table with one name are one device. -/
theorem DeviceInv.eq_of_name (h : DeviceInv sys s) {e : ℕ} {j : Fin deviceHandleNr}
    (hd : s.state.table i = some d) (he : s.state.table j = some e)
    (hname : sys.name e = sys.name d) :
    e = d := by
  have hfirst := h.named i d hd
  have hfirst' := h.named j e he
  rw [hname] at hfirst'
  exact Option.some.inj (hfirst'.symm.trans hfirst)

/-- A device that is found is the one that is found by its name. -/
theorem DeviceInv.search (h : DeviceInv sys s) {devname : List UInt8}
    (hsearch : ioSearchDeviceByName sys s.state devname = some d) :
    (sys.deviceList.find? fun e => sys.name e == sys.name d) = some d := by
  unfold ioSearchDeviceByName at hsearch
  split at hsearch
  · rename_i e htable
    cases hsearch
    obtain ⟨j, -, hj⟩ := List.exists_of_findSome?_eq_some htable
    exact h.named j d (Option.filter_eq_some_iff.1 hj).1
  · have hname : sys.name d = devname := by simpa using List.find?_some hsearch
    rwa [hname]

/-- **The reference changes while the device stays open.** -/
theorem DeviceInv.count (h : DeviceInv sys s) (c : ℤ) (hold : 0 < s.state.reference d)
    (hnew : 0 < s.state.reference d + c) :
    DeviceInv sys ⟨{ s.state with
      reference := Function.update s.state.reference d (s.state.reference d + c) },
      Function.update s.balance d (s.balance d + c)⟩ := by
  refine ⟨⟨fun e => ?_, fun e => ?_, h.ok.single⟩, fun e => ?_, h.named⟩
  · by_cases he : e = d
    · simp [he, h.ok.reference d]
    · simp [Function.update_of_ne he, h.ok.reference e]
  · by_cases he : e = d
    · rw [he]
      simpa [hnew] using (h.ok.listed d).2 hold
    · simpa [Function.update_of_ne he] using h.ok.listed e
  · by_cases he : e = d
    · simp [he, hnew.le]
    · simpa [Function.update_of_ne he] using h.nonneg e

/-- **A device is opened** and gets a free slot. -/
theorem DeviceInv.insert (h : DeviceInv sys s) (hzero : s.state.reference d = 0)
    (hfree : s.state.table i = none)
    (hfirst : (sys.deviceList.find? fun e => sys.name e == sys.name d) = some d) :
    DeviceInv sys ⟨{ s.state with
      table := Function.update s.state.table i (some d)
      reference := Function.update s.state.reference d 1 },
      Function.update s.balance d (s.balance d + 1)⟩ := by
  have hout : ∀ j, s.state.table j ≠ some d := by
    intro j hj
    have hpos := (h.ok.listed d).1 ⟨j, hj⟩
    omega
  have hat : ∀ j e, Function.update s.state.table i (some d) j = some e ↔
      j = i ∧ e = d ∨ j ≠ i ∧ s.state.table j = some e := by
    intro j e
    by_cases hj : j = i
    · rw [hj, Function.update_self]
      simp [eq_comm]
    · rw [Function.update_of_ne hj]
      simp [hj]
  refine ⟨⟨fun e => ?_, fun e => ?_, fun j k e hj hk => ?_⟩, fun e => ?_, fun j e hj => ?_⟩
  · by_cases he : e = d
    · have hbalance := h.ok.reference d
      simp only [he, Function.update_self]
      omega
    · simp [Function.update_of_ne he, h.ok.reference e]
  · by_cases he : e = d
    · subst he
      simp only [Function.update_self, zero_lt_one, iff_true]
      exact ⟨i, (hat i e).2 (Or.inl ⟨rfl, rfl⟩)⟩
    · simp only [Function.update_of_ne he, ← h.ok.listed e, hat]
      constructor
      · rintro ⟨j, ⟨-, hed⟩ | ⟨-, hj⟩⟩
        · exact absurd hed he
        · exact ⟨j, hj⟩
      · rintro ⟨j, hj⟩
        refine ⟨j, Or.inr ⟨fun hji => ?_, hj⟩⟩
        rw [hji, hfree] at hj
        cases hj
  · rcases (hat j e).1 hj with ⟨hji, hed⟩ | ⟨hji, hj⟩ <;>
      rcases (hat k e).1 hk with ⟨hki, hed'⟩ | ⟨hki, hk⟩
    · rw [hji, hki]
    · exact absurd (hed ▸ hk) (hout k)
    · exact absurd (hed' ▸ hj) (hout j)
    · exact h.ok.single j k e hj hk
  · by_cases he : e = d
    · simp [he]
    · simpa [Function.update_of_ne he] using h.nonneg e
  · rcases (hat j e).1 hj with ⟨-, hed⟩ | ⟨-, hj⟩
    · rw [hed]
      exact hfirst
    · exact h.named j e hj

/-- **A device is closed for the last time** and its slot is free again. -/
theorem DeviceInv.remove (h : DeviceInv sys s) (hone : s.state.reference d = 1)
    (hslot : s.state.table i = some d) :
    DeviceInv sys ⟨{ s.state with
      table := Function.update s.state.table i none
      reference := Function.update s.state.reference d 0 },
      Function.update s.balance d (s.balance d - 1)⟩ := by
  have hat : ∀ j e, Function.update s.state.table i none j = some e ↔
      j ≠ i ∧ s.state.table j = some e := by
    intro j e
    by_cases hj : j = i
    · rw [hj, Function.update_self]
      simp
    · rw [Function.update_of_ne hj]
      simp [hj]
  refine ⟨⟨fun e => ?_, fun e => ?_, fun j k e hj hk => ?_⟩, fun e => ?_, fun j e hj => ?_⟩
  · by_cases he : e = d
    · have hbalance := h.ok.reference d
      simp only [he, Function.update_self]
      omega
    · simp [Function.update_of_ne he, h.ok.reference e]
  · by_cases he : e = d
    · subst he
      simp only [Function.update_self, lt_self_iff_false, iff_false, hat]
      rintro ⟨j, hji, hj⟩
      exact hji (h.ok.single j i e hj hslot)
    · simp only [Function.update_of_ne he, ← h.ok.listed e, hat]
      constructor
      · rintro ⟨j, -, hj⟩
        exact ⟨j, hj⟩
      · rintro ⟨j, hj⟩
        refine ⟨j, fun hji => he ?_, hj⟩
        rw [hji, hslot] at hj
        exact (Option.some.inj hj).symm
  · exact h.ok.single j k e ((hat j e).1 hj).2 ((hat k e).1 hk).2
  · by_cases he : e = d
    · simp [he]
    · simpa [Function.update_of_ne he] using h.nonneg e
  · exact h.named j e ((hat j e).1 hj).2

/-! ## The calls and the accounts -/

/-- A device that is open is found in the table. -/
theorem DeviceInv.findByObject (h : DeviceInv sys s) (hpos : 0 < s.state.reference d) :
    ∃ j, deviceHandleFindByObject s.state d = some j ∧ s.state.table j = some d := by
  obtain ⟨i, hi⟩ := (h.ok.listed d).2 hpos
  cases hfind : deviceHandleFindByObject s.state d with
  | none =>
      have hall := List.find?_eq_none.1 hfind i (List.mem_finRange i)
      simp [hi] at hall
  | some j => exact ⟨j, rfl, by simpa using List.find?_some hfind⟩

/-- The slot that is cleared for an open device is its own. -/
theorem DeviceInv.tableRemove (h : DeviceInv sys s) (hslot : s.state.table i = some d)
    {t : DeviceState} (ht : t.table = s.state.table) :
    deviceHandleTableRemove sys t d = some { t with table := Function.update t.table i none } := by
  unfold deviceHandleTableRemove
  rw [ht]
  cases hfind : (List.finRange deviceHandleNr).find? fun j =>
      (s.state.table j).any fun e => sys.name e == sys.name d &&
        decide (sys.type e = sys.type d) with
  | none =>
      have hall := List.find?_eq_none.1 hfind i (List.mem_finRange i)
      simp [hslot] at hall
  | some j =>
      have hfound : ((s.state.table j).any fun e =>
          sys.name e == sys.name d && decide (sys.type e = sys.type d)) = true :=
        List.find?_some (p := fun j => (s.state.table j).any fun e =>
          sys.name e == sys.name d && decide (sys.type e = sys.type d)) hfind
      obtain ⟨e, he, hsame⟩ := (Option.any_eq_true _ _).1 hfound
      have hname : sys.name e = sys.name d := by
        simp only [Bool.and_eq_true, beq_iff_eq] at hsame
        exact hsame.1
      obtain rfl : e = d := h.eq_of_name hslot he hname
      obtain rfl : j = i := h.ok.single j i e he hslot
      rfl

/-- What a call that can be relied on does: the invariant is kept, a failure changes neither
reference nor table, and an open that succeeds answers with the slot of the device. -/
structure Kept (sys : IoSystem) (s s' : DeviceRun) (ret : ℤ) (opened : Option ℕ) : Prop where
  inv : DeviceInv sys s'
  failed : ret < 0 → s'.state.reference = s.state.reference ∧ s'.state.table = s.state.table
  slot : ∀ d ∈ opened, 0 ≤ ret → ∃ i : Fin deviceHandleNr, ret = i.val ∧ s'.state.table i = some d

/-- A call that has failed, after the driver may have been called. -/
theorem DeviceInv.kept_of_failed (h : DeviceInv sys s) (locked : ℕ → Bool) (opened : Option ℕ) :
    Kept sys s ⟨{ s.state with locked := locked }, s.balance⟩ (-1) opened :=
  ⟨h.locked locked, fun _ => ⟨rfl, rfl⟩, fun _ _ hret => absurd hret (by norm_num)⟩

/-- The driver is called when its lock is free, and takes it if it does not complete the request. -/
theorem ioCallDirver_free {t : DeviceState} (hfree : LockFree sys t d) (dispatch : Dispatch) :
    ∀ t' : DeviceState, t'.locked = t.locked → ioCallDirver sys t' d dispatch = some { t' with
      locked := Function.update t'.locked d ((sys.type d).locks && !dispatch.completed) } := by
  intro t' ht
  refine if_pos ?_
  rwa [LockFree, ht]

/-- The call hangs when the lock is taken. -/
theorem ioCallDirver_locked {t : DeviceState} (hlocked : ¬LockFree sys t d) (dispatch : Dispatch) :
    ∀ t' : DeviceState, t'.locked = t.locked → ioCallDirver sys t' d dispatch = none := by
  intro t' ht
  refine if_neg ?_
  rwa [LockFree, ht]

/-- **Opening a device**, when the call can be relied on. -/
theorem deviceOpen_kept (h : DeviceInv sys s) {devname : List UInt8} {memory : Bool}
    {dispatch : Dispatch} (hfine : DeviceCallFine sys s (.open_ devname memory dispatch)) :
    ∃ s' ret, deviceCall sys s (.open_ devname memory dispatch) = some (s', ret) ∧
      Kept sys s s' ret (ioSearchDeviceByName sys s.state devname) ∧
      (0 ≤ ret → ∃ d, ioSearchDeviceByName sys s.state devname = some d) := by
  cases hsearch : ioSearchDeviceByName sys s.state devname with
  | none =>
      refine ⟨s, -1, ?_, ?_, fun hret => absurd hret (by norm_num)⟩
      · simp [deviceCall, deviceOpen, hsearch, DeviceRun.returned]
      · exact h.kept_of_failed s.state.locked none
  | some d =>
      have hinc : ioDeviceIncreaseReference s.state d = some { s.state with
          reference := Function.update s.state.reference d (s.state.reference d + 1) } :=
        if_pos (h.nonneg d)
      by_cases hzero : s.state.reference d = 0
      · obtain ⟨hfree, hmemory, hslot⟩ := hfine d hsearch hzero
        have hdispatch := ioCallDirver_free hfree dispatch
        have hone : s.state.reference d + 1 = 1 := by omega
        cases hcheck : ioCompleteCheck dispatch with
        | true =>
            obtain ⟨j, hj⟩ := hslot hcheck
            obtain ⟨i, hi⟩ := Slots.exists_firstFree (t := s.state.table) (i := j)
              (show Option.isSome (s.state.table j) = false by simp [hj])
            have hempty : s.state.table i = none := by simpa using Slots.firstFree_eq_some hi
            refine ⟨_, i.val, ?_, ⟨(h.insert hzero hempty (h.search hsearch)).locked
              (Function.update s.state.locked d ((sys.type d).locks && !dispatch.completed)), ?_,
              ?_⟩, fun _ => ⟨d, rfl⟩⟩
            · simp [deviceCall, deviceOpen, hsearch, hinc, hone, hmemory, hdispatch, hcheck,
                deviceHandleTableInsert, hi, DeviceRun.returned]
            · intro hneg
              omega
            · rintro e he -
              cases he
              exact ⟨i, rfl, by simp⟩
        | false =>
            refine ⟨_, -1, ?_, h.kept_of_failed
              (Function.update s.state.locked d ((sys.type d).locks && !dispatch.completed))
              (some d), fun _ => ⟨d, rfl⟩⟩
            simp [deviceCall, deviceOpen, hsearch, hinc, hmemory, hdispatch, hcheck,
              ioDeviceDecreaseReference, DeviceRun.returned, hzero]
      · have hpos : 0 < s.state.reference d := by
          have hnonneg := h.nonneg d
          omega
        obtain ⟨j, hfind, hj⟩ := h.findByObject hpos
        have hne : s.state.reference d + 1 ≠ 1 := by omega
        refine ⟨_, j.val, ?_, ⟨h.count 1 hpos (by omega), ?_, ?_⟩, fun _ => ⟨d, rfl⟩⟩
        · have hfind' : deviceHandleFindByObject { s.state with
              reference := Function.update s.state.reference d (s.state.reference d + 1) } d =
              some j := hfind
          simp [deviceCall, deviceOpen, hsearch, hinc, hfind', DeviceRun.returned, hzero]
        · intro hneg
          omega
        · rintro e he -
          cases he
          exact ⟨j, rfl, hj⟩

/-- **Closing a device**, when the call can be relied on. -/
theorem deviceClose_kept (h : DeviceInv sys s) {handle : ℤ} {memory : Bool} {dispatch : Dispatch}
    (hfine : DeviceCallFine sys s (.close handle memory dispatch)) :
    ∃ s' ret, deviceCall sys s (.close handle memory dispatch) = some (s', ret) ∧
      Kept sys s s' ret none := by
  cases hget : getDeviceByHandle s.state handle with
  | none =>
      refine ⟨s, -1, ?_, h.kept_of_failed s.state.locked none⟩
      simp [deviceCall, deviceClose, hget, DeviceRun.returned]
  | some d =>
      have hslot : ∃ i, s.state.table i = some d := by
        unfold getDeviceByHandle at hget
        split_ifs at hget with hrange
        exact ⟨_, hget⟩
      obtain ⟨i, hi⟩ := hslot
      have hpos : 0 < s.state.reference d := (h.ok.listed d).1 ⟨i, hi⟩
      have hdec : ioDeviceDecreaseReference s.state d = some { s.state with
          reference := Function.update s.state.reference d (s.state.reference d - 1) } :=
        if_pos (h.nonneg d)
      by_cases hone : s.state.reference d = 1
      · obtain ⟨hfree, hmemory⟩ := hfine d hget hone
        have hdispatch := ioCallDirver_free hfree dispatch
        cases hcheck : ioCompleteCheck dispatch with
        | true =>
            refine ⟨_, 0, ?_, ⟨(h.remove hone hi).locked
              (Function.update s.state.locked d ((sys.type d).locks && !dispatch.completed)), ?_,
              ?_⟩⟩
            · simp [deviceCall, deviceClose, hget, hdec, hone, hmemory, hdispatch, hcheck,
                h.tableRemove hi, DeviceRun.returned, sub_eq_add_neg]
            · intro hneg
              omega
            · intro e he
              cases he
        | false =>
            refine ⟨_, -1, ?_, h.kept_of_failed
              (Function.update s.state.locked d ((sys.type d).locks && !dispatch.completed)) none⟩
            simp [deviceCall, deviceClose, hget, hdec, hone, hmemory, hdispatch, hcheck,
              ioDeviceIncreaseReference, DeviceRun.returned]
      · have hne : s.state.reference d + -1 ≠ 0 := by omega
        refine ⟨_, 0, ?_, ⟨h.count (-1) hpos (by omega), ?_, ?_⟩⟩
        · simp [deviceCall, deviceClose, hget, hdec, hne, DeviceRun.returned, sub_eq_add_neg]
        · intro hneg
          omega
        · intro e he
          cases he

/-- An open that keeps its promise can be relied on: without memory or with the lock taken it would
not return, and without a slot it would leave the reference raised. -/
theorem deviceOpen_fine (h : DeviceInv sys s) {devname : List UInt8} {memory : Bool}
    {dispatch : Dispatch} (hok : DeviceCallOk sys s (.open_ devname memory dispatch)) :
    DeviceCallFine sys s (.open_ devname memory dispatch) := by
  intro d hsearch hzero
  obtain ⟨s', ret, hcall, -, hfailed, -⟩ := hok
  have hsearch : ioSearchDeviceByName sys s.state devname = some d := hsearch
  have hinc : ioDeviceIncreaseReference s.state d = some { s.state with
      reference := Function.update s.state.reference d 1 } := by
    rw [ioDeviceIncreaseReference, if_pos (h.nonneg d), hzero, zero_add]
  have hmemory : memory = true := by
    by_contra hno
    simp [deviceCall, deviceOpen, hsearch, hinc, hno] at hcall
  have hfree : LockFree sys s.state d := by
    by_contra hlocked
    have hhang := ioCallDirver_locked hlocked dispatch
    simp [deviceCall, deviceOpen, hsearch, hinc, hmemory, hhang] at hcall
  refine ⟨hfree, hmemory, fun hcheck => ?_⟩
  by_contra hfull
  rw [not_exists] at hfull
  have hnone : Slots.firstFree Option.isSome s.state.table = none := by
    rw [Slots.firstFree_eq_none_iff]
    exact fun i => Option.isSome_iff_ne_none.2 (hfull i)
  have hdispatch := ioCallDirver_free hfree dispatch
  simp [deviceCall, deviceOpen, hsearch, hinc, hmemory, hdispatch, hcheck, deviceHandleTableInsert,
    hnone, DeviceRun.returned] at hcall
  obtain ⟨rfl, rfl⟩ := hcall
  have hsame := congrFun (hfailed (by norm_num)).1 d
  simp [hzero] at hsame

/-- A close that keeps its promise can be relied on. -/
theorem deviceClose_fine (h : DeviceInv sys s) {handle : ℤ} {memory : Bool} {dispatch : Dispatch}
    (hok : DeviceCallOk sys s (.close handle memory dispatch)) :
    DeviceCallFine sys s (.close handle memory dispatch) := by
  intro d hget hone
  obtain ⟨s', ret, hcall, -⟩ := hok
  have hget : getDeviceByHandle s.state handle = some d := hget
  have hdec : ioDeviceDecreaseReference s.state d = some { s.state with
      reference := Function.update s.state.reference d 0 } := by
    rw [ioDeviceDecreaseReference, if_pos (h.nonneg d), hone, sub_self]
  have hmemory : memory = true := by
    by_contra hno
    simp [deviceCall, deviceClose, hget, hdec, hno] at hcall
  refine ⟨?_, hmemory⟩
  by_contra hlocked
  have hhang := ioCallDirver_locked hlocked dispatch
  simp [deviceCall, deviceClose, hget, hdec, hmemory, hhang] at hcall

/-- **When a call keeps its promise**: if and only if it can be relied on, and then it keeps the
invariant. -/
theorem deviceCallOk_iff (h : DeviceInv sys s) (call : DeviceCall) :
    (DeviceCallOk sys s call ↔ DeviceCallFine sys s call) ∧
      ∀ s', DeviceCallFine sys s call → deviceStep sys s call = some s' → DeviceInv sys s' := by
  cases call with
  | open_ devname memory dispatch =>
      constructor
      · refine ⟨deviceOpen_fine h, fun hfine => ?_⟩
        obtain ⟨s', ret, hcall, hkept, hfound⟩ := deviceOpen_kept h hfine
        refine ⟨s', ret, hcall, hkept.inv.ok, hkept.failed, fun devname' _ _ heq hret => ?_⟩
        cases heq
        obtain ⟨d, hd⟩ := hfound hret
        exact ⟨d, hd, hkept.slot d hd hret⟩
      · intro s' hfine hstep
        obtain ⟨t, ret, hcall, hkept, -⟩ := deviceOpen_kept h hfine
        rw [deviceStep, hcall] at hstep
        cases hstep
        exact hkept.inv
  | close handle memory dispatch =>
      constructor
      · refine ⟨deviceClose_fine h, fun hfine => ?_⟩
        obtain ⟨s', ret, hcall, hkept⟩ := deviceClose_kept h hfine
        exact ⟨s', ret, hcall, hkept.inv.ok, hkept.failed, fun _ _ _ heq => nomatch heq⟩
      · intro s' hfine hstep
        obtain ⟨t, ret, hcall, hkept⟩ := deviceClose_kept h hfine
        rw [deviceStep, hcall] at hstep
        cases hstep
        exact hkept.inv

theorem deviceInv_init (sys : IoSystem) : DeviceInv sys deviceInit := by
  refine ⟨⟨fun d => rfl, fun d => ?_, fun i j d hi => ?_⟩, fun d => le_rfl, fun i d hi => ?_⟩
  · simp [deviceInit]
  · cases hi
  · cases hi

end Inv

/-- **In which runs every call keeps its promise**: if and only if every call can be relied on. -/
theorem device_accounts_iff (sys : IoSystem) (calls : List DeviceCall) :
    Run.Along (deviceStep sys) (DeviceCallOk sys) deviceInit calls ↔
      Run.Along (deviceStep sys) (DeviceCallFine sys) deviceInit calls := by
  refine Run.along_iff (I := DeviceInv sys) (fun s call h => (deviceCallOk_iff h call).1)
    (fun s call s' h hok hstep => ?_) calls deviceInit (deviceInv_init sys)
  obtain ⟨hiff, hinv⟩ := deviceCallOk_iff h call
  exact hinv s' (hiff.1 hok) hstep

/-- Thirty-three devices, with the names 1 to 33. -/
def manyDevices : IoSystem where
  deviceList := (List.range 33).map (· + 1)
  name := fun d => [UInt8.ofNat d]
  type := fun _ => .null

/-- The open of a device whose driver accepts it. -/
def openDevice (d : ℕ) : DeviceCall := .open_ [UInt8.ofNat d] true ⟨0, 0, true⟩

/-- The last of thirty-three devices gets no slot, and its reference stays raised. -/
theorem device_accounts_full :
    ∃ s s', Run.exec (deviceStep manyDevices) deviceInit
    ((List.range 32).map fun k => openDevice (k + 1)) =
        some s ∧
      deviceCall manyDevices s (openDevice 33) = some (s', -1) ∧ s'.state.reference 33 = 1 ∧
      ¬ Run.Along (deviceStep manyDevices) (DeviceCallOk manyDevices) deviceInit
        ((List.range 32).map (fun k => openDevice (k + 1)) ++ [openDevice 33]) := by
  have hsome : ((Run.exec (deviceStep manyDevices) deviceInit
      ((List.range 32).map fun k => openDevice (k + 1))).bind fun s =>
        (deviceCall manyDevices s (openDevice 33)).map fun r =>
          (r.2, s.state.reference 33, r.1.state.reference 33)) =
            some (-1, 0, 1) := by decide +kernel
  obtain ⟨s, hs, hlast⟩ := Option.bind_eq_some_iff.1 hsome
  obtain ⟨⟨s', ret⟩, hcall, hvals⟩ := Option.map_eq_some_iff.1 hlast
  simp only [Prod.mk.injEq] at hvals
  obtain ⟨rfl, hbefore, hafter⟩ := hvals
  refine ⟨s, s', hs, hcall, hafter, fun hok => ?_⟩
  obtain ⟨t, ret, hcall', -, hfailed, -⟩ := (Run.along_of_append hs hok).1
  rw [hcall] at hcall'
  cases hcall'
  have hsame := congrFun (hfailed (by norm_num)).1 33
  rw [hbefore, hafter] at hsame
  cases hsame

end Device
end LightOS
