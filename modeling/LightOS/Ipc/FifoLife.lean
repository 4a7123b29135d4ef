import LightOS.Ipc.FifoBasic

/-!
# Named FIFOs: the lifecycle

Runs of `fifo_make`, `fifo_get`, `fifo_incref`, `fifo_put` and `fifo_remove`, each call on its
own.  A handle is what a successful `fifo_get` gives to the task: the number of the FIFO, and
whether it was opened for reading and for writing.

* `fifoGet_alone`, … — what the calls do when nobody interrupts them.
* `lifeOk_iff` — after a call the counts are right if and only if the call counts the end its
  handle was opened for.
* `fifo_life_iff` — in which runs the counts are those of the open handles.
-/

namespace LightOS
namespace NamedFifo

open LockProg

/-! ## Calls on their own -/

section Alone

variable {T : FifoTable}

@[simp] theorem set_slots (T : FifoTable) (i : ℕ) (f : NFifo) :
    (T.set i f).slots = Function.update T.slots i f := rfl

@[simp] theorem modify_slots (T : FifoTable) (i : ℕ) (g : NFifo → NFifo) :
    (T.modify i g).slots = Function.update T.slots i (g (T.slots i)) := rfl

theorem findSlot_eq_some {p : NFifo → Bool} {i : ℕ} (h : findSlot T p = some i) :
    i < fifoNr ∧ p (T.slots i) = true := by
  have hmem := List.mem_of_find?_eq_some h
  exact ⟨List.mem_range.1 hmem, List.find?_some (p := fun i => p (T.slots i)) h⟩

theorem findSlot_eq_none {p : NFifo → Bool} (h : findSlot T p = none) {i : ℕ} (hi : i < fifoNr) :
    p (T.slots i) = false := by
  have hall := List.find?_eq_none.1 h i (List.mem_range.2 hi)
  simpa using hall

/-- A FIFO that was opened for reading. -/
def readerOpened (T : FifoTable) (task i : ℕ) (nowait : Bool) : FifoTable :=
  countReader (recordReader T task i) i nowait

theorem readerOpened_slots (T : FifoTable) (task i : ℕ) (nowait : Bool) :
    (readerOpened T task i nowait).slots = Function.update T.slots i
      { T.slots i with
        reader := if (T.slots i).unread then some task else (T.slots i).reader
        readref := (T.slots i).readref + 1
        flags := if nowait then (T.slots i).flags ||| (ipcNowait <<< 16)
          else (T.slots i).flags } := by
  simp [readerOpened, countReader, recordReader]

/-- What `fifo_get` does to the table. -/
def fifoGetSection (T : FifoTable) (task : ℕ) (name : List UInt8) (flags : BitVec 32) :
    FifoTable × ℤ :=
  if hasBit flags ipcCreat then
    match fifoFindByName T name with
    | none => (T, -2)
    | some i =>
        if hasBit flags ipcExcl then (T, -1)
        else if hasBit flags ipcReader then
          (readerOpened T task i (hasBit flags ipcNowait), (T.slots i).id)
        else if hasBit flags ipcWriter then
          (openWriter T task i (hasBit flags ipcNowait), (T.slots i).id)
        else (T, (T.slots i).id)
  else (T, -1)

theorem fifoGet_alone (T : FifoTable) (task : ℕ) (name : List UInt8) (flags : BitVec 32) :
    (fifoGet task (some name) flags).alone T 1 =
      some ((fifoGetSection T task name flags).1, 1, (fifoGetSection T task name flags).2) := by
  have hfree : (0 : ℤ) < 1 := one_pos
  unfold fifoGet fifoGetSection
  simp only [Prog.alone, if_pos hfree, sub_self]
  by_cases hcreat : hasBit flags ipcCreat = true
  · rw [if_pos hcreat, if_pos hcreat]
    cases hfind : fifoFindByName T name with
    | none => simp only [Prog.look, Prog.alone, Option.bind_some, hfind, zero_add]
    | some i =>
        simp only [Prog.look, Prog.alone, Option.bind_some, hfind]
        split_ifs <;> rfl
  · rw [if_neg hcreat, if_neg hcreat]
    rfl

theorem fifoMake_alone (T : FifoTable) {name : List UInt8} (hname : name ≠ []) (mem : Bool) :
    (fifoMake name mem).alone T 1 = (fifoMakeSection T name mem).map fun r => (r.1, 1, r.2) := by
  cases hmake : fifoMakeSection T name mem with
  | none => simp [fifoMake, hname, Prog.call, Prog.alone, hmake]
  | some r => simp [fifoMake, hname, Prog.call, Prog.alone, hmake]

theorem fifoRemove_alone (T : FifoTable) {name : List UInt8} (hname : name ≠ []) :
    (fifoRemove name).alone T 1 =
      some ((fifoRemoveSection T name).1, 1, (fifoRemoveSection T name).2) := by
  simp [fifoRemove, hname, Prog.call, Prog.alone]

/-- A body that does not look at the mutex. -/
def Blind (body : NFifo → NFifo × ℤ) : Prop :=
  ∀ (f : NFifo) (b : Bool), body { f with mutex := b } =
    ({ (body f).1 with mutex := b }, (body f).2)

theorem underMutex_alone (T : FifoTable) (fifoid : ℤ) {body : NFifo → NFifo × ℤ}
    (hblind : Blind body) (hfree : ∀ i < fifoNr, (T.slots i).mutex = false) :
    (underMutex fifoid body).alone T 1 =
      match fifoFindById T fifoid with
      | none => some (T, 1, -1)
      | some i => some (T.set i (body (T.slots i)).1, 1, (body (T.slots i)).2) := by
  cases hfind : fifoFindById T fifoid with
  | none => simp [underMutex, Prog.look, Prog.alone, hfind]
  | some i =>
      have hunlocked := hfree i (findSlot_eq_some hfind).1
      have hself : { body (T.slots i) |>.1 with mutex := false } = (body (T.slots i)).1 := by
        have hblind' := hblind (T.slots i) false
        have hsame : { T.slots i with mutex := false } = T.slots i := by rw [← hunlocked]
        rw [hsame] at hblind'
        exact (congrArg Prod.fst hblind').symm
      simp [underMutex, Prog.look, Prog.alone, hfind, lockFifo, unlockFifo, Prog.call, Prog.change,
        hunlocked, FifoTable.modify, FifoTable.set, hblind (T.slots i) true, hself]

theorem blind_put (task : ℕ) : Blind fun f => (fifoPutBody task f, 0) := by
  intro f b
  simp only [fifoPutBody]
  split_ifs <;> rfl

theorem blind_ref (task : ℕ) (d : ℤ) : Blind (fifoRefBody task d) := by
  intro f b
  simp only [fifoRefBody]
  split_ifs <;> rfl

end Alone

/-! ## Handles -/

/-- A handle: the number of the FIFO, and what it was opened for. -/
structure Handle where
  id : ℤ
  reading : Bool
  writing : Bool
  deriving DecidableEq

/-- The table, the semaphore, and the handles that were opened or duplicated and are not closed. -/
structure FifoLife where
  table : FifoTable
  value : ℤ
  handles : List Handle

/-- The calls; `dup` and `close` are made on a handle. -/
inductive LifeCall where
  | make (name : List UInt8) (mem : Bool)
  | get (task : ℕ) (name : List UInt8) (flags : BitVec 32)
  | dup (task : ℕ) (h : Handle)
  | close (task : ℕ) (h : Handle)
  | remove (name : List UInt8)

/-- A call that nobody interrupts. -/
def fifoCall (s : FifoLife) (p : FifoProg) : Option (FifoLife × ℤ) :=
  (p.alone s.table s.value).map fun r => ({ s with table := r.1, value := r.2.1 }, r.2.2)

/-- One call.  A FIFO that was found is one handle more; a handle is closed whatever `fifo_put`
answers. -/
def lifeStep (s : FifoLife) : LifeCall → Option FifoLife
  | .make name mem => (fifoCall s (fifoMake name mem)).map Prod.fst
  | .get task name flags =>
      (fifoCall s (fifoGet task (some name) flags)).map fun sr =>
        if 0 ≤ sr.2 then
          { sr.1 with
            handles := ⟨sr.2, hasBit flags ipcReader, hasBit flags ipcWriter⟩ :: sr.1.handles }
        else sr.1
  | .dup task h =>
      if h ∈ s.handles then
        (fifoCall s (fifoIncref task h.id)).map fun sr =>
          if sr.2 = 0 then { sr.1 with handles := h :: sr.1.handles } else sr.1
      else none
  | .close task h =>
      if h ∈ s.handles then
        (fifoCall s (fifoPut task h.id)).map fun sr =>
          { sr.1 with handles := sr.1.handles.erase h }
      else none
  | .remove name => (fifoCall s (fifoRemove name)).map Prod.fst

/-- After `fifo_init`. -/
def lifeInit (raw : ℕ → NFifo) : FifoLife := ⟨fifoInit raw, 1, []⟩

/-- The number of handles of a FIFO that were opened for one thing. -/
def openFor (w : Handle → Bool) (handles : List Handle) (id : ℤ) : ℤ :=
  (handles.countP fun h => decide (h.id = id) && w h : ℕ)

/-! ## The promise -/

/-- The bits of `flags` that are set by those who open the FIFO. -/
abbrev modeFlags : BitVec 32 := 0xffff0000

/-- **What the table promises**: the counts of every FIFO are those of its handles, and when it has
none left, nobody is recorded and it can be removed. -/
def LifeOk (s : FifoLife) : Prop :=
  ∀ i < fifoNr, (s.table.slots i).name ≠ [] →
    (s.table.slots i).readref = openFor Handle.reading s.handles (s.table.slots i).id ∧
    (s.table.slots i).writeref = openFor Handle.writing s.handles (s.table.slots i).id ∧
    ((∀ h ∈ s.handles, h.id ≠ (s.table.slots i).id) →
      (s.table.slots i).reader = none ∧ (s.table.slots i).writer = none ∧
        ∃ s', fifoCall s (fifoRemove (s.table.slots i).name) = some (s', 0))

/-- A FIFO that was just made has no reader, no writer and no flags. -/
def MadeClean (s s' : FifoLife) (name : List UInt8) : Prop :=
  fifoFindByName s.table name = none → ∀ i, fifoFindByName s'.table name = some i →
    (s'.table.slots i).reader = none ∧ (s'.table.slots i).writer = none ∧
      hasBit (s'.table.slots i).flags modeFlags = false

/-- A call keeps the promise; `fifo_make` also keeps what lies behind the name of its slot. -/
def LifeCallOk (s : FifoLife) (call : LifeCall) : Prop :=
  (∀ name mem, call = .make name mem → lifeStep s call ≠ none) ∧
    ∀ s', lifeStep s call = some s' →
      LifeOk s' ∧ ∀ name mem, call = .make name mem → MadeClean s s' name

/-- The end a task closes or duplicates is the one end its handle was opened for. -/
def EndOf (task : ℕ) (f : NFifo) (h : Handle) : Prop :=
  if f.reader = some task then h.reading = true ∧ h.writing = false
  else if f.writer = some task then h.reading = false ∧ h.writing = true
  else h.reading = false ∧ h.writing = false

/-- When a call can be relied on: a new FIFO has a name that fits and gets a slot without flags; a
FIFO is opened for one end at most; the task that closes a handle, or duplicates one with success,
is the one recorded for its end. -/
def LifeCallFine (s : FifoLife) : LifeCall → Prop
  | .make name mem =>
      name ≠ [] → fifoFindByName s.table name = none → mem = true →
        ∀ i ∈ findSlot s.table fun f => f.name == [],
          name.length < fifoNameLen ∧ hasBit (s.table.slots i).flags modeFlags = false
  | .get _ name flags =>
      hasBit flags ipcCreat = true → hasBit flags ipcExcl = false →
        fifoFindByName s.table name ≠ none →
          ¬(hasBit flags ipcReader = true ∧ hasBit flags ipcWriter = true)
  | .dup task h =>
      h ∈ s.handles → ∀ i ∈ fifoFindById s.table h.id, (fifoRefBody task 1 (s.table.slots i)).2 =
        0 →
        (if (s.table.slots i).reader = some task ∧ 0 < (s.table.slots i).readref then
          h.reading = true ∧ h.writing = false else h.reading = false ∧ h.writing = true)
  | .close task h =>
      h ∈ s.handles → ∀ i ∈ fifoFindById s.table h.id, EndOf task (s.table.slots i) h
  | .remove _ => True

/-! ## One slot -/

/-- A slot whose FIFO has `r` handles for reading and `w` for writing. -/
structure SlotInv (f : NFifo) (r w : ℤ) : Prop where
  unlocked : f.mutex = false
  named : f.name ≠ [] → f.readref = r ∧ f.writeref = w
  unnamed : f.name = [] → r = 0 ∧ w = 0
  reader : f.reader ≠ none → f.name ≠ [] ∧ 0 < r
  writer : f.writer ≠ none → f.name ≠ [] ∧ 0 < w

section Slot

variable {f : NFifo} {r w : ℤ}

/-- Nobody is recorded for an end without handles. -/
theorem SlotInv.nobody (h : SlotInv f r w) (hr : r = 0) (hw : w = 0) :
    f.reader = none ∧ f.writer = none := by
  constructor
  · by_contra hsome
    have hpos := (h.reader hsome).2
    omega
  · by_contra hsome
    have hpos := (h.writer hsome).2
    omega

/-- A reader more. -/
theorem SlotInv.addReader (h : SlotInv f r w) (hname : f.name ≠ []) (hr : 0 ≤ r)
    (reader : Option ℕ) (flags : BitVec 32) :
    SlotInv { f with reader := reader, readref := f.readref + 1, flags := flags } (r + 1) w := by
  obtain ⟨hread, hwrite⟩ := h.named hname
  exact ⟨h.unlocked, fun _ => ⟨by rw [hread], hwrite⟩, fun hn => absurd hn hname,
    fun _ => ⟨hname, by omega⟩, h.writer⟩

/-- A writer more. -/
theorem SlotInv.addWriter (h : SlotInv f r w) (hname : f.name ≠ []) (hw : 0 ≤ w)
    (writer : Option ℕ) (flags : BitVec 32) :
    SlotInv { f with writer := writer, writeref := f.writeref + 1, flags := flags } r (w + 1) := by
  obtain ⟨hread, hwrite⟩ := h.named hname
  exact ⟨h.unlocked, fun _ => ⟨hread, by rw [hwrite]⟩, fun hn => absurd hn hname, h.reader,
    fun _ => ⟨hname, by omega⟩⟩

/-- What `fifo_put` takes from the counts. -/
def putCounts (task : ℕ) (f : NFifo) : ℤ × ℤ :=
  if f.reader = some task then (1, 0) else if f.writer = some task then (0, 1) else (0, 0)

theorem SlotInv.put (h : SlotInv f r w) (task : ℕ) :
    SlotInv (fifoPutBody task f) (r - (putCounts task f).1) (w - (putCounts task f).2) := by
  unfold fifoPutBody putCounts
  split_ifs with hreader hzero hwriter hzero
  · obtain ⟨hname, hpos⟩ := h.reader (by simp [hreader])
    obtain ⟨hread, hwrite⟩ := h.named hname
    refine ⟨h.unlocked, fun _ => ⟨by rw [hread], by simpa using hwrite⟩, fun hn => absurd hn hname,
      fun hsome => absurd rfl hsome, by simpa using h.writer⟩
  · obtain ⟨hname, hpos⟩ := h.reader (by simp [hreader])
    obtain ⟨hread, hwrite⟩ := h.named hname
    refine ⟨h.unlocked, fun _ => ⟨by rw [hread], by simpa using hwrite⟩, fun hn => absurd hn hname,
      fun _ => ⟨hname, ?_⟩, by simpa using h.writer⟩
    show 0 < r - 1
    omega
  · obtain ⟨hname, hpos⟩ := h.writer (by simp [hwriter])
    obtain ⟨hread, hwrite⟩ := h.named hname
    refine ⟨h.unlocked, fun _ => ⟨by simpa using hread, by rw [hwrite]⟩, fun hn => absurd hn hname,
      by simpa using h.reader, fun hsome => absurd rfl hsome⟩
  · obtain ⟨hname, hpos⟩ := h.writer (by simp [hwriter])
    obtain ⟨hread, hwrite⟩ := h.named hname
    refine ⟨h.unlocked, fun _ => ⟨by simpa using hread, by rw [hwrite]⟩, fun hn => absurd hn hname,
      by simpa using h.reader, fun _ => ⟨hname, ?_⟩⟩
    show 0 < w - 1
    omega
  · simpa using h

/-- What `fifo_incref` adds to the counts, if it succeeds. -/
def refCounts (task : ℕ) (f : NFifo) : ℤ × ℤ :=
  if f.reader = some task ∧ 0 < f.readref then (1, 0) else (0, 1)

theorem SlotInv.incref (h : SlotInv f r w) (hr : 0 ≤ r) (hw : 0 ≤ w) {task : ℕ}
    (hret : (fifoRefBody task 1 f).2 = 0) :
    SlotInv (fifoRefBody task 1 f).1 (r + (refCounts task f).1) (w + (refCounts task f).2) := by
  unfold fifoRefBody refCounts at *
  split_ifs at * with hreader hwriter
  · simpa using h.addReader (h.reader (by simp [hreader.1])).1 hr f.reader f.flags
  · simpa using h.addWriter (h.writer (by simp [hwriter.1])).1 hw f.writer f.flags
  · cases hret

end Slot

/-! ## Counting handles -/

section Handles

variable {h : Handle} {hs : List Handle} {w : Handle → Bool} {id : ℤ}

/-- One handle, as a count. -/
def bit (b : Bool) : ℤ := if b = true then 1 else 0

theorem openFor_nonneg (w : Handle → Bool) (hs : List Handle) (id : ℤ) : 0 ≤ openFor w hs id :=
  Int.natCast_nonneg _

theorem openFor_cons_self (h : Handle) :
    openFor w (h :: hs) h.id = openFor w hs h.id + bit (w h) := by
  cases hw : w h <;> simp [openFor, bit, hw]

theorem openFor_cons_of_ne (hne : h.id ≠ id) : openFor w (h :: hs) id = openFor w hs id := by
  simp [openFor, hne]

theorem openFor_erase_self (hmem : h ∈ hs) :
    openFor w (hs.erase h) h.id = openFor w hs h.id - bit (w h) := by
  have hperm := (List.perm_cons_erase hmem).countP_eq fun k => decide (k.id = h.id) && w k
  have hcons : openFor w (h :: hs.erase h) h.id = openFor w (hs.erase h) h.id + bit (w h) :=
    openFor_cons_self h
  unfold openFor at *
  omega

theorem openFor_erase_of_ne (hmem : h ∈ hs) (hne : h.id ≠ id) :
    openFor w (hs.erase h) id = openFor w hs id := by
  have hperm := (List.perm_cons_erase hmem).countP_eq fun k => decide (k.id = id) && w k
  have hcons : openFor w (h :: hs.erase h) id = openFor w (hs.erase h) id := openFor_cons_of_ne hne
  unfold openFor at *
  omega

theorem openFor_eq_zero (hnone : ∀ h ∈ hs, h.id ≠ id) : openFor w hs id = 0 := by
  rw [openFor, List.countP_eq_zero.2, Nat.cast_zero]
  intro h hmem
  simp [hnone h hmem]

/-- A handle that is not counted was not opened for it. -/
theorem not_of_openFor_eq_zero (hmem : h ∈ hs) (hzero : openFor w hs h.id = 0) : w h = false := by
  have hall := List.countP_eq_zero.1 (Int.natCast_eq_zero.1 hzero) h hmem
  simpa using hall

end Handles

/-! ## The table -/

/-- The semaphore is free, every slot has the counts of its handles, and no two FIFOs have one
name. -/
structure LifeInv (s : FifoLife) : Prop where
  value : s.value = 1
  ids : ∀ i, (s.table.slots i).id = 1 + i + i * 2
  slots : ∀ i < fifoNr, SlotInv (s.table.slots i)
    (openFor Handle.reading s.handles (s.table.slots i).id)
    (openFor Handle.writing s.handles (s.table.slots i).id)
  names : ∀ i < fifoNr, ∀ j < fifoNr, (s.table.slots i).name ≠ [] →
    (s.table.slots i).name = (s.table.slots j).name → i = j

section Table

variable {s t : FifoLife} {i : ℕ}

theorem LifeInv.id_ne (h : LifeInv s) {j : ℕ} (hij : i ≠ j) :
    ((s.table.slots i).id : ℤ) ≠ (s.table.slots j).id := by
  rw [h.ids i, h.ids j]
  omega

theorem findById_some {T : FifoTable} {fifoid : ℤ} (h : fifoFindById T fifoid = some i) :
    i < fifoNr ∧ ((T.slots i).id : ℤ) = fifoid ∧ (T.slots i).name ≠ [] := by
  obtain ⟨hi, hp⟩ := findSlot_eq_some h
  simp only [Bool.and_eq_true, decide_eq_true_eq, bne_iff_ne] at hp
  exact ⟨hi, hp⟩

theorem findById_none {T : FifoTable} {fifoid : ℤ} (h : fifoFindById T fifoid = none)
    (hi : i < fifoNr) (hid : ((T.slots i).id : ℤ) = fifoid) : (T.slots i).name = [] := by
  have hp := findSlot_eq_none h hi
  simpa [hid] using hp

theorem findByName_some {T : FifoTable} {name : List UInt8} (h : fifoFindByName T name = some i) :
    i < fifoNr ∧ (T.slots i).name = name ∧ name ≠ [] := by
  obtain ⟨hi, hp⟩ := findSlot_eq_some h
  simp only [Bool.and_eq_true, beq_iff_eq, bne_iff_ne] at hp
  exact ⟨hi, hp.2, by rw [← hp.2]; exact hp.1⟩

theorem findByName_none {T : FifoTable} {name : List UInt8} (h : fifoFindByName T name = none)
    (hi : i < fifoNr) (hne : (T.slots i).name ≠ []) : (T.slots i).name ≠ name := by
  have hp := findSlot_eq_none h hi
  intro heq
  rw [heq] at hp hne
  simp [hne] at hp

/-- A FIFO is found by its name. -/
theorem LifeInv.findByName (h : LifeInv s) (hi : i < fifoNr) (hne : (s.table.slots i).name ≠ []) :
    fifoFindByName s.table (s.table.slots i).name = some i := by
  cases hfind : fifoFindByName s.table (s.table.slots i).name with
  | none => exact absurd rfl (findByName_none hfind hi hne)
  | some j =>
      obtain ⟨hj, hname, -⟩ := findByName_some hfind
      rw [h.names i hi j hj hne hname.symm]

/-- **The invariant gives the promise.** -/
theorem LifeInv.ok (h : LifeInv s) : LifeOk s := by
  intro i hi hname
  have hslot := h.slots i hi
  obtain ⟨hread, hwrite⟩ := hslot.named hname
  refine ⟨hread, hwrite, fun hnone => ?_⟩
  have hr : openFor Handle.reading s.handles (s.table.slots i).id = 0 := openFor_eq_zero hnone
  have hw : openFor Handle.writing s.handles (s.table.slots i).id = 0 := openFor_eq_zero hnone
  obtain ⟨hreader, hwriter⟩ := hslot.nobody hr hw
  have hclosed : fifoIsOpened (s.table.slots i) = false := by
    simp [fifoIsOpened, hread, hwrite, hr, hw]
  refine ⟨hreader, hwriter, ?_⟩
  simp [fifoCall, h.value, fifoRemove_alone _ hname, fifoRemoveSection, h.findByName hi hname,
    hclosed]

/-- One slot changes, and the handles of its FIFO. -/
theorem LifeInv.replace (h : LifeInv s) {f : NFifo} (hvalue : t.value = 1)
    (hslots : t.table.slots = Function.update s.table.slots i f)
    (hid : f.id = (s.table.slots i).id)
    (hslot : i < fifoNr → SlotInv f (openFor Handle.reading t.handles (s.table.slots i).id)
      (openFor Handle.writing t.handles (s.table.slots i).id))
    (hothers : ∀ w (id : ℤ), id ≠ (s.table.slots i).id →
      openFor w t.handles id = openFor w s.handles id)
    (hnames : f.name = (s.table.slots i).name ∨ f.name = [] ∨
      ∀ j < fifoNr, (s.table.slots j).name ≠ [] → (s.table.slots j).name ≠ f.name) : LifeInv t := by
  have hsame : ∀ j, j ≠ i → t.table.slots j = s.table.slots j := by
    intro j hj
    rw [hslots, Function.update_of_ne hj]
  have hat : t.table.slots i = f := by rw [hslots, Function.update_self]
  refine ⟨hvalue, fun j => ?_, fun j hj => ?_, fun j hj k hk hne heq => ?_⟩
  · by_cases hji : j = i
    · rw [hji, hat, hid, h.ids i]
    · rw [hsame j hji, h.ids j]
  · by_cases hji : j = i
    · rw [hji, hat, hid]
      exact hslot (hji ▸ hj)
    · have hne := h.id_ne hji
      rw [hsame j hji, hothers _ _ hne, hothers _ _ hne]
      exact h.slots j hj
  · by_cases hji : j = i
    · by_cases hki : k = i
      · rw [hji, hki]
      · rw [hji, hat] at hne heq
        rw [hsame k hki] at heq
        rcases hnames with hkeep | hempty | hfresh
        · rw [hkeep] at hne heq
          rw [hji]
          exact h.names i (hji ▸ hj) k hk hne heq
        · exact absurd hempty hne
        · exact absurd heq.symm (hfresh k hk (by rwa [← heq]))
    · by_cases hki : k = i
      · rw [hki, hat, hsame j hji] at heq
        rw [hsame j hji] at hne
        rcases hnames with hkeep | hempty | hfresh
        · rw [hkeep] at heq
          rw [hki]
          exact h.names j hj i (hki ▸ hk) hne heq
        · exact absurd (heq.trans hempty) hne
        · exact absurd heq (hfresh j hj hne)
      · rw [hsame j hji] at hne heq
        rw [hsame k hki] at heq
        exact h.names j hj k hk hne heq

/-- **After a call the counts are right** if and only if the call counts what happened to the
handles: its FIFO counts `d` more, and has `e` handles more. -/
theorem LifeInv.counted (h : LifeInv s) (hi : i < fifoNr) (hne : (s.table.slots i).name ≠ [])
    {f : NFifo} {d e : ℤ × ℤ} (hvalue : t.value = 1)
    (hslots : t.table.slots = Function.update s.table.slots i f) (hid : f.id = (s.table.slots i).id) (hname : f.name = (s.table.slots i).name)
    (hslot : SlotInv f (openFor Handle.reading s.handles (s.table.slots i).id + d.1)
      (openFor Handle.writing s.handles (s.table.slots i).id + d.2))
    (hreads : openFor Handle.reading t.handles (s.table.slots i).id =
      openFor Handle.reading s.handles (s.table.slots i).id + e.1)
    (hwrites : openFor Handle.writing t.handles (s.table.slots i).id =
      openFor Handle.writing s.handles (s.table.slots i).id + e.2)
    (hothers : ∀ w (id : ℤ), id ≠ (s.table.slots i).id →
      openFor w t.handles id = openFor w s.handles id) :
    (LifeOk t ↔ d = e) ∧ (d = e → LifeInv t) := by
  have hinv : d = e → LifeInv t := by
    rintro rfl
    exact h.replace hvalue hslots hid (fun _ => by rw [hreads, hwrites]; exact hslot) hothers
      (Or.inl hname)
  refine ⟨⟨fun hok => ?_, fun heq => (hinv heq).ok⟩, hinv⟩
  have hat : t.table.slots i = f := by rw [hslots, Function.update_self]
  obtain ⟨hread, hwrite, -⟩ := hok i hi (by rw [hat, hname]; exact hne)
  obtain ⟨hread', hwrite'⟩ := hslot.named (by rw [hname]; exact hne)
  rw [hat, hid, hreads, hread'] at hread
  rw [hat, hid, hwrites, hwrite'] at hwrite
  exact Prod.ext (by omega) (by omega)

end Table

/-! ## The calls -/

section Calls

variable {s s' : FifoLife}

/-- A call that is refused leaves the table as it is. -/
theorem LifeInv.refused (h : LifeInv s) : LifeInv { s with table := s.table, value := 1 } :=
  ⟨rfl, h.ids, h.slots, h.names⟩

/-- **A FIFO that is made** takes a slot that nobody has, and is found there. -/
theorem LifeInv.create (h : LifeInv s) {name : List UInt8} {i : ℕ} (hname : name ≠ [])
    (hfind : fifoFindByName s.table name = none)
    (hslot : findSlot s.table (fun f => f.name == []) = some i) :
    LifeInv { s with
        table := s.table.modify i fun f =>
          { f with fifo := some 0, name := name, readref := 0, writeref := 0 }
        value := 1 } ∧
      fifoFindByName (s.table.modify i fun f =>
        { f with fifo := some 0, name := name, readref := 0, writeref := 0 }) name = some i ∧
      (s.table.slots i).reader = none ∧ (s.table.slots i).writer = none := by
  obtain ⟨hi, hfree⟩ := findSlot_eq_some hslot
  have hempty : (s.table.slots i).name = [] := by simpa using hfree
  have hold := h.slots i hi
  obtain ⟨hr, hw⟩ := hold.unnamed hempty
  obtain ⟨hreader, hwriter⟩ := hold.nobody hr hw
  have hfresh : ∀ j < fifoNr, (s.table.slots j).name ≠ [] → (s.table.slots j).name ≠ name :=
    fun j hj hne => findByName_none hfind hj hne
  have hinv := h.replace (t := { s with
      table := s.table.modify i fun f =>
        { f with fifo := some 0, name := name, readref := 0, writeref := 0 }
      value := 1 }) rfl rfl rfl
    (fun _ => ⟨hold.unlocked, fun _ => ⟨hr.symm, hw.symm⟩, fun hn => absurd hn hname,
      fun hsome => absurd hreader hsome, fun hsome => absurd hwriter hsome⟩)
    (fun _ _ _ => rfl) (Or.inr (Or.inr hfresh))
  have hfound := hinv.findByName hi (by simpa using hname)
  exact ⟨hinv, by simpa using hfound, hreader, hwriter⟩

/-- Making a FIFO keeps the invariant; the new one is clean if and only if its slot has no flags. -/
theorem make_iff (h : LifeInv s) {name : List UInt8} {mem : Bool}
    (hstep : lifeStep s (.make name mem) = some s') :
    LifeInv s' ∧ (MadeClean s s' name ↔ LifeCallFine s (.make name mem)) := by
  by_cases hname : name = []
  · -- the call is refused, and no FIFO has the empty name
    have hsame : s' = s := by
      simp [lifeStep, fifoCall, fifoMake, hname, Prog.alone] at hstep
      exact hstep.symm
    refine ⟨hsame ▸ h, fun _ hne => absurd hname hne, fun _ hnone i hi => ?_⟩
    exact absurd hname (findByName_some hi).2.2
  · simp only [lifeStep, fifoCall, h.value, fifoMake_alone _ hname, Option.map_map,
      Option.map_eq_some_iff] at hstep
    obtain ⟨r, hmake, rfl⟩ := hstep
    have hrefused : r.1 = s.table → (fifoFindByName s.table name = none → mem = true →
        ∀ i, findSlot s.table (fun f => f.name == []) ≠ some i) →
        LifeInv { s with table := r.1, value := 1 } ∧
          (MadeClean s { s with table := r.1, value := 1 } name ↔
            LifeCallFine s (.make name mem)) := by
      intro hsame hfull
      rw [hsame]
      refine ⟨h.refused, fun _ _ hnone hmem i hi => ?_, fun _ hnone i hi => ?_⟩
      · exact absurd hi (hfull hnone hmem i)
      · rw [hnone] at hi
        cases hi
    unfold fifoMakeSection at hmake
    cases hfind : fifoFindByName s.table name with
    | some j =>
        rw [hfind] at hmake
        cases hmake
        exact hrefused rfl fun hnone => by rw [hfind] at hnone; cases hnone
    | none =>
        rw [hfind] at hmake
        obtain ⟨r', halloc, rfl⟩ := Option.map_eq_some_iff.1 hmake
        unfold fifoAlloc at halloc
        cases hslot : findSlot s.table fun f => f.name == [] with
        | none =>
            rw [hslot] at halloc
            cases halloc
            exact hrefused rfl fun _ _ i hi => by rw [hslot] at hi; cases hi
        | some i =>
            simp only [hslot] at halloc
            split_ifs at halloc with hmem hlong
            · obtain ⟨hinv, hfound, hreader, hwriter⟩ := h.create hname hfind hslot
              rw [Option.some.injEq] at halloc
              subst halloc
              refine ⟨hinv, fun hclean _ _ _ j hj => ?_, fun hfine _ j hj => ?_⟩
              · obtain rfl : i = j := Option.some.inj (hslot.symm.trans hj)
                have hthree := hclean hfind i hfound
                exact ⟨not_le.1 hlong, by simpa using hthree.2.2⟩
              · obtain rfl : i = j := Option.some.inj (hfound.symm.trans hj)
                have hflags := (hfine hname hfind hmem i hslot).2
                simpa [hreader, hwriter] using hflags
            · cases halloc
              exact hrefused rfl fun _ hmem' => absurd hmem' (by simpa using hmem)

/-- Removing a FIFO keeps the invariant. -/
theorem remove_inv (h : LifeInv s) {name : List UInt8}
    (hstep : lifeStep s (.remove name) = some s') :
    LifeInv s' := by
  by_cases hname : name = []
  · have hsame : s' = s := by
      simp [lifeStep, fifoCall, fifoRemove, hname, Prog.alone] at hstep
      exact hstep.symm
    exact hsame ▸ h
  · simp only [lifeStep, fifoCall, h.value, fifoRemove_alone _ hname, Option.map_some,
      Option.some.injEq] at hstep
    subst hstep
    unfold fifoRemoveSection
    cases hfind : fifoFindByName s.table name with
    | none => exact h.refused
    | some i =>
        simp only
        split_ifs with hopened
        · exact h.refused
        · obtain ⟨hi, hat, -⟩ := findByName_some hfind
          have hold := h.slots i hi
          obtain ⟨hread, hwrite⟩ := hold.named (by rw [hat]; exact hname)
          have hr := openFor_nonneg Handle.reading s.handles (s.table.slots i).id
          have hw := openFor_nonneg Handle.writing s.handles (s.table.slots i).id
          have hclosed : (s.table.slots i).readref < 1 ∧ (s.table.slots i).writeref < 1 := by
            simpa [fifoIsOpened] using hopened
          have hr0 : openFor Handle.reading s.handles (s.table.slots i).id = 0 := by omega
          have hw0 : openFor Handle.writing s.handles (s.table.slots i).id = 0 := by omega
          obtain ⟨hreader, hwriter⟩ := hold.nobody hr0 hw0
          exact h.replace (i := i) rfl rfl rfl
            (fun _ => ⟨hold.unlocked, fun hne => absurd rfl hne, fun _ => ⟨hr0, hw0⟩,
              fun hsome => absurd hreader hsome, fun hsome => absurd hwriter hsome⟩)
            (fun _ _ _ => rfl) (Or.inr (Or.inl rfl))

/-- What is counted for a FIFO that is opened is the handle, if it is opened for one end at most. -/
theorem opened_eq_bits (r w : Bool) :
    (if r = true then (1, 0) else if w = true then (0, 1) else (0, 0) : ℤ × ℤ) = (bit r, bit w) ↔
      ¬(r = true ∧ w = true) := by
  cases r <;> cases w <;> simp [bit]

/-- Opening a FIFO: the counts are right if and only if it is opened for one end at most. -/
theorem get_iff (h : LifeInv s) {task : ℕ} {name : List UInt8} {flags : BitVec 32}
    (hstep : lifeStep s (.get task name flags) = some s') :
    (LifeOk s' ↔ LifeCallFine s (.get task name flags)) ∧
      (LifeCallFine s (.get task name flags) → LifeInv s') := by
  simp only [lifeStep, fifoCall, h.value, fifoGet_alone, Option.map_some, Option.some.injEq]
    at hstep
  have hrefused : ∀ T' r, T' = s.table → r < 0 → fifoGetSection s.table task name flags = (T', r) →
      LifeInv s' := by
    rintro T' r rfl hr hsection
    rw [hsection, if_neg (by simpa using hr)] at hstep
    subst hstep
    exact h.refused
  by_cases hcreat : hasBit flags ipcCreat = true
  · cases hfind : fifoFindByName s.table name with
    | none =>
        have hinv := hrefused _ (-2) rfl (by norm_num)
          (by rw [fifoGetSection, if_pos hcreat, hfind])
        exact ⟨iff_of_true hinv.ok fun _ _ hsome => absurd hfind hsome, fun _ => hinv⟩
    | some i =>
        by_cases hexcl : hasBit flags ipcExcl = true
        · have hinv := hrefused _ (-1) rfl (by norm_num)
            (by rw [fifoGetSection, if_pos hcreat, hfind]; exact if_pos hexcl)
          refine ⟨iff_of_true hinv.ok fun _ hno => ?_, fun _ => hinv⟩
          rw [hexcl] at hno
          cases hno
        · obtain ⟨hi, hat, hne⟩ := findByName_some hfind
          have hne' : (s.table.slots i).name ≠ [] := by rwa [hat]
          have hold := h.slots i hi
          have hr := openFor_nonneg Handle.reading s.handles (s.table.slots i).id
          have hw := openFor_nonneg Handle.writing s.handles (s.table.slots i).id
          have hfine : LifeCallFine s (.get task name flags) ↔
              ¬(hasBit flags ipcReader = true ∧ hasBit flags ipcWriter = true) := by
            have hsome : fifoFindByName s.table name ≠ none := by simp [hfind]
            exact ⟨fun hf => hf hcreat (by simpa using hexcl) hsome, fun hf _ _ _ => hf⟩
          -- whatever end is opened, the call has found the FIFO and there is one handle more
          have hcount : ∀ (T' : FifoTable) (f : NFifo) (d : ℤ × ℤ),
              fifoGetSection s.table task name flags = (T', ((s.table.slots i).id : ℤ)) →
              T'.slots = Function.update s.table.slots i f → f.id = (s.table.slots i).id →
              f.name = (s.table.slots i).name →
              SlotInv f (openFor Handle.reading s.handles (s.table.slots i).id + d.1)
                (openFor Handle.writing s.handles (s.table.slots i).id + d.2) →
              (LifeOk s' ↔ d = (bit (hasBit flags ipcReader), bit (hasBit flags ipcWriter))) ∧
                (d = (bit (hasBit flags ipcReader), bit (hasBit flags ipcWriter)) →
                  LifeInv s') := by
            intro T' f d hsection hslots hid hname hslot
            rw [hsection, if_pos (by simp)] at hstep
            subst hstep
            refine h.counted (t := ⟨T', 1, ⟨((s.table.slots i).id : ℤ), hasBit flags ipcReader,
              hasBit flags ipcWriter⟩ :: s.handles⟩) hi hne' rfl hslots hid hname hslot ?_ ?_ ?_
            · exact openFor_cons_self (w := Handle.reading) _
            · exact openFor_cons_self (w := Handle.writing) _
            · exact fun w id hid' => openFor_cons_of_ne fun heq => hid' heq.symm
          have hpair := opened_eq_bits (hasBit flags ipcReader) (hasBit flags ipcWriter)
          rw [hfine]
          by_cases hreader : hasBit flags ipcReader = true
          · have hsection : fifoGetSection s.table task name flags =
                (readerOpened s.table task i (hasBit flags ipcNowait),
                  ((s.table.slots i).id : ℤ)) := by
              rw [fifoGetSection, if_pos hcreat, hfind]
              simp only [if_neg hexcl, if_pos hreader]
            have hbits := hcount _ _ (1, 0) hsection
              (readerOpened_slots _ _ _ _) rfl rfl (by simpa using hold.addReader hne' hr _ _)
            rw [if_pos hreader] at hpair
            rwa [hpair] at hbits
          · by_cases hwriter : hasBit flags ipcWriter = true
            · have hsection : fifoGetSection s.table task name flags =
                  (openWriter s.table task i (hasBit flags ipcNowait),
                    ((s.table.slots i).id : ℤ)) := by
                rw [fifoGetSection, if_pos hcreat, hfind]
                simp only [if_neg hexcl, if_neg hreader, if_pos hwriter]
              have hbits := hcount _ _ (0, 1) hsection rfl rfl rfl
                (by simpa using hold.addWriter hne' hw _ _)
              rw [if_neg hreader, if_pos hwriter] at hpair
              rwa [hpair] at hbits
            · have hsection : fifoGetSection s.table task name flags =
                  (s.table, ((s.table.slots i).id : ℤ)) := by
                rw [fifoGetSection, if_pos hcreat, hfind]
                simp only [if_neg hexcl, if_neg hreader, if_neg hwriter]
              have hbits := hcount _ _ (0, 0) hsection
                (Function.update_eq_self i s.table.slots).symm rfl rfl (by simpa using hold)
              rw [if_neg hreader, if_neg hwriter] at hpair
              rwa [hpair] at hbits
  · have hinv := hrefused _ (-1) rfl (by norm_num) (by rw [fifoGetSection, if_neg hcreat])
    exact ⟨iff_of_true hinv.ok fun hc => absurd hc hcreat, fun _ => hinv⟩

/-- What `fifo_incref` adds is the handle, if that was opened for the end the task is recorded for.
-/
theorem refCounts_eq_bits {task : ℕ} {f : NFifo} {r w : Bool} :
    refCounts task f = (bit r, bit w) ↔
      if f.reader = some task ∧ 0 < f.readref then r = true ∧ w = false
      else r = false ∧ w = true := by
  unfold refCounts
  split_ifs <;> cases r <;> cases w <;> simp [bit]

/-- What `fifo_put` takes away is the handle, if that was opened for the end the task is recorded
for. -/
theorem putCounts_eq_bits {task : ℕ} {f : NFifo} {h : Handle} :
    ((-(putCounts task f).1, -(putCounts task f).2) : ℤ × ℤ) = (-bit h.reading, -bit h.writing) ↔
      EndOf task f h := by
  unfold putCounts EndOf
  split_ifs <;> cases h.reading <;> cases h.writing <;> simp [bit]

/-- Duplicating a handle. -/
theorem dup_iff (h : LifeInv s) {task : ℕ} {hd : Handle}
    (hstep : lifeStep s (.dup task hd) = some s') :
    (LifeOk s' ↔ LifeCallFine s (.dup task hd)) ∧ (LifeCallFine s (.dup task hd) → LifeInv s') := by
  have hfree : ∀ i < fifoNr, (s.table.slots i).mutex = false := fun i hi => (h.slots i hi).unlocked
  rw [lifeStep] at hstep
  split_ifs at hstep with hmem
  rw [fifoCall, h.value, fifoIncref, underMutex_alone _ _ (blind_ref task 1) hfree] at hstep
  cases hfind : fifoFindById s.table hd.id with
  | none =>
      rw [hfind] at hstep
      cases hstep
      have hinv := h.refused
      refine ⟨iff_of_true hinv.ok fun _ i hi => ?_, fun _ => hinv⟩
      rw [hfind] at hi
      cases hi
  | some i =>
      obtain ⟨hi, hid, hne⟩ := findById_some hfind
      have hold := h.slots i hi
      have hr := openFor_nonneg Handle.reading s.handles (s.table.slots i).id
      have hw := openFor_nonneg Handle.writing s.handles (s.table.slots i).id
      rw [hfind] at hstep
      simp only [Option.map_some, Option.some.injEq] at hstep
      subst hstep
      by_cases hret : (fifoRefBody task 1 (s.table.slots i)).2 = 0
      · have hfine : LifeCallFine s (.dup task hd) ↔
            refCounts task (s.table.slots i) = (bit hd.reading, bit hd.writing) := by
          rw [refCounts_eq_bits]
          constructor
          · intro hf
            exact hf hmem i hfind hret
          · intro hf _ j hj _
            obtain rfl : i = j := Option.some.inj (hfind.symm.trans hj)
            exact hf
        rw [hfine, if_pos hret]
        refine h.counted (t := ⟨s.table.set i (fifoRefBody task 1 (s.table.slots i)).1, 1,
          hd :: s.handles⟩) hi hne rfl rfl ?_ ?_ (hold.incref hr hw hret) ?_ ?_ ?_
        · unfold fifoRefBody
          split_ifs <;> rfl
        · unfold fifoRefBody
          split_ifs <;> rfl
        · rw [hid]
          exact openFor_cons_self (w := Handle.reading) hd
        · rw [hid]
          exact openFor_cons_self (w := Handle.writing) hd
        · intro w id hid'
          rw [hid] at hid'
          exact openFor_cons_of_ne fun heq => hid' heq.symm
      · -- the task is recorded for neither end
        have hbody : (fifoRefBody task 1 (s.table.slots i)).1 = s.table.slots i := by
          unfold fifoRefBody at hret ⊢
          split_ifs at hret ⊢ <;> first | rfl | exact absurd rfl hret
        have hsame : s.table.set i (fifoRefBody task 1 (s.table.slots i)).1 = s.table := by
          rw [hbody, FifoTable.set, Function.update_eq_self]
        have hinv := h.refused
        rw [if_neg hret, hsame]
        refine ⟨iff_of_true hinv.ok fun _ j hj hzero => ?_, fun _ => hinv⟩
        obtain rfl : i = j := Option.some.inj (hfind.symm.trans hj)
        exact absurd hzero hret

/-- Closing a handle. -/
theorem close_iff (h : LifeInv s) {task : ℕ} {hd : Handle}
    (hstep : lifeStep s (.close task hd) = some s') :
    (LifeOk s' ↔ LifeCallFine s (.close task hd)) ∧
      (LifeCallFine s (.close task hd) → LifeInv s') := by
  have hfree : ∀ i < fifoNr, (s.table.slots i).mutex = false := fun i hi => (h.slots i hi).unlocked
  rw [lifeStep] at hstep
  split_ifs at hstep with hmem
  rw [fifoCall, h.value, fifoPut, underMutex_alone _ _ (blind_put task) hfree] at hstep
  cases hfind : fifoFindById s.table hd.id with
  | none =>
      -- the FIFO is gone, so the handle was opened for nothing
      rw [hfind] at hstep
      cases hstep
      have hkept : ∀ i < fifoNr,
          openFor Handle.reading (s.handles.erase hd) (s.table.slots i).id =
              openFor Handle.reading s.handles (s.table.slots i).id ∧
            openFor Handle.writing (s.handles.erase hd) (s.table.slots i).id =
              openFor Handle.writing s.handles (s.table.slots i).id := by
        intro i hi
        by_cases hid : ((s.table.slots i).id : ℤ) = hd.id
        · obtain ⟨hr, hw⟩ := (h.slots i hi).unnamed (findById_none hfind hi hid)
          rw [hid] at hr hw ⊢
          have hreading : hd.reading = false := not_of_openFor_eq_zero hmem hr
          have hwriting : hd.writing = false := not_of_openFor_eq_zero hmem hw
          constructor
          · rw [openFor_erase_self hmem, hreading]
            simp [bit]
          · rw [openFor_erase_self hmem, hwriting]
            simp [bit]
        · exact ⟨openFor_erase_of_ne hmem fun heq => hid heq.symm,
            openFor_erase_of_ne hmem fun heq => hid heq.symm⟩
      have hinv : LifeInv ⟨s.table, 1, s.handles.erase hd⟩ := by
        refine ⟨rfl, h.ids, fun i hi => ?_, h.names⟩
        obtain ⟨hr, hw⟩ := hkept i hi
        show SlotInv (s.table.slots i) (openFor Handle.reading (s.handles.erase hd) _)
          (openFor Handle.writing (s.handles.erase hd) _)
        rw [hr, hw]
        exact h.slots i hi
      refine ⟨iff_of_true hinv.ok fun _ i hi => ?_, fun _ => hinv⟩
      rw [hfind] at hi
      cases hi
  | some i =>
      obtain ⟨hi, hid, hne⟩ := findById_some hfind
      have hold := h.slots i hi
      rw [hfind] at hstep
      simp only [Option.map_some, Option.some.injEq] at hstep
      subst hstep
      have hfine : LifeCallFine s (.close task hd) ↔
          ((-(putCounts task (s.table.slots i)).1, -(putCounts task (s.table.slots i)).2) : ℤ × ℤ) =
            (-bit hd.reading, -bit hd.writing) := by
        rw [putCounts_eq_bits]
        constructor
        · intro hf
          exact hf hmem i hfind
        · intro hf _ j hj
          obtain rfl : i = j := Option.some.inj (hfind.symm.trans hj)
          exact hf
      rw [hfine]
      refine h.counted (t := ⟨s.table.set i (fifoPutBody task (s.table.slots i)), 1,
        s.handles.erase hd⟩) hi hne rfl rfl ?_ ?_ ?_ ?_ ?_ ?_
      · unfold fifoPutBody
        split_ifs <;> rfl
      · unfold fifoPutBody
        split_ifs <;> rfl
      · simpa only [sub_eq_add_neg] using hold.put task
      · rw [hid, openFor_erase_self hmem, sub_eq_add_neg]
      · rw [hid, openFor_erase_self hmem, sub_eq_add_neg]
      · intro w id hid'
        rw [hid] at hid'
        exact openFor_erase_of_ne hmem fun heq => hid' heq.symm

/-- A call on a handle returns. -/
theorem LifeInv.returns (h : LifeInv s) (fifoid : ℤ) {body : NFifo → NFifo × ℤ}
    (hblind : Blind body) : fifoCall s (underMutex fifoid body) ≠ none := by
  have hfree : ∀ i < fifoNr, (s.table.slots i).mutex = false := fun i hi => (h.slots i hi).unlocked
  rw [fifoCall, h.value, underMutex_alone _ _ hblind hfree]
  cases fifoFindById s.table fifoid <;> simp

/-- **Which calls stop**: `fifo_make` with a name that does not fit, and calls on a handle that is
not there. -/
theorem stopped_iff (h : LifeInv s) {call : LifeCall} (hstop : lifeStep s call = none) :
    LifeCallOk s call ↔ LifeCallFine s call := by
  have hvacuous : (∀ name mem, call ≠ .make name mem) → LifeCallOk s call := by
    refine fun hne => ⟨fun name mem heq => absurd heq (hne name mem), fun s' hs' => ?_⟩
    rw [hstop] at hs'
    cases hs'
  cases call with
  | make name mem =>
      refine iff_of_false (fun hok => hok.1 name mem rfl hstop) fun hfine => ?_
      have hname : name ≠ [] := by
        rintro rfl
        simp [lifeStep, fifoCall, fifoMake, Prog.alone] at hstop
      simp only [lifeStep, fifoCall, h.value, fifoMake_alone _ hname, Option.map_map,
        Option.map_eq_none_iff, fifoMakeSection] at hstop
      cases hfind : fifoFindByName s.table name with
      | some j => simp [hfind] at hstop
      | none =>
          simp only [hfind, Option.map_eq_none_iff, fifoAlloc] at hstop
          cases hslot : findSlot s.table fun f => f.name == [] with
          | none =>
              simp only [hslot] at hstop
              cases hstop
          | some i =>
              simp only [hslot] at hstop
              split_ifs at hstop with hmem hlong
              exact absurd (hfine hname hfind hmem i hslot).1 (not_lt.2 hlong)
  | get task name flags =>
      simp only [lifeStep, fifoCall, h.value, fifoGet_alone, Option.map_some] at hstop
      cases hstop
  | dup task hd =>
      refine iff_of_true (hvacuous fun _ _ => LifeCall.noConfusion) fun hmem => ?_
      rw [lifeStep, if_pos hmem, Option.map_eq_none_iff] at hstop
      exact absurd hstop (h.returns hd.id (blind_ref task 1))
  | close task hd =>
      refine iff_of_true (hvacuous fun _ _ => LifeCall.noConfusion) fun hmem => ?_
      rw [lifeStep, if_pos hmem, Option.map_eq_none_iff] at hstop
      exact absurd hstop (h.returns hd.id (blind_put task))
  | remove name => exact iff_of_true (hvacuous fun _ _ => LifeCall.noConfusion) trivial

/-- **A call keeps the promise** if and only if it can be relied on, and then it keeps the
invariant. -/
theorem lifeCallOk_iff (s : FifoLife) (call : LifeCall) (h : LifeInv s) :
    (LifeCallOk s call ↔ LifeCallFine s call) ∧
      ∀ s', LifeCallOk s call → lifeStep s call = some s' → LifeInv s' := by
  cases hstep : lifeStep s call with
  | none => exact ⟨stopped_iff h hstep, fun _ _ hnone => by cases hnone⟩
  | some s' =>
      have hgoes : ∀ name mem, call = .make name mem → lifeStep s call ≠ none := by
        intro _ _ _
        simp [hstep]
      have hother : (∀ name mem, call ≠ .make name mem) →
          (LifeOk s' ↔ LifeCallFine s call) ∧ (LifeCallFine s call → LifeInv s') →
          (LifeCallOk s call ↔ LifeCallFine s call) ∧
            ∀ t, LifeCallOk s call → some s' = some t → LifeInv t := by
        intro hne hcall
        have hok : LifeCallOk s call ↔ LifeOk s' := by
          refine ⟨fun hok => (hok.2 s' hstep).1, fun hok => ⟨hgoes, fun t ht => ?_⟩⟩
          obtain rfl : s' = t := Option.some.inj (hstep.symm.trans ht)
          exact ⟨hok, fun name mem heq => absurd heq (hne name mem)⟩
        refine ⟨hok.trans hcall.1, fun t hkept ht => ?_⟩
        obtain rfl : s' = t := Option.some.inj ht
        exact hcall.2 (hcall.1.1 (hok.1 hkept))
      cases call with
      | make name mem =>
          obtain ⟨hinv, hclean⟩ := make_iff h hstep
          refine ⟨⟨fun hok => hclean.1 ((hok.2 s' hstep).2 name mem rfl),
            fun hfine => ⟨hgoes, fun t ht => ?_⟩⟩, fun t _ ht => Option.some.inj ht ▸ hinv⟩
          obtain rfl : s' = t := Option.some.inj (hstep.symm.trans ht)
          refine ⟨hinv.ok, fun name' mem' heq => ?_⟩
          cases heq
          exact hclean.2 hfine
      | get task name flags => exact hother (fun _ _ => LifeCall.noConfusion) (get_iff h hstep)
      | dup task hd => exact hother (fun _ _ => LifeCall.noConfusion) (dup_iff h hstep)
      | close task hd => exact hother (fun _ _ => LifeCall.noConfusion) (close_iff h hstep)
      | remove name =>
          have hinv := remove_inv h hstep
          exact hother (fun _ _ => LifeCall.noConfusion)
            ⟨iff_of_true hinv.ok trivial, fun _ => hinv⟩

end Calls

/-! ## Runs -/

theorem lifeInv_init (raw : ℕ → NFifo) : LifeInv (lifeInit raw) := by
  refine ⟨rfl, fun i => rfl, fun i _ => ?_, fun i _ j _ hne => ?_⟩
  · exact ⟨rfl, fun hne => absurd rfl hne, fun _ => ⟨rfl, rfl⟩, fun hne => absurd rfl hne,
      fun hne => absurd rfl hne⟩
  · exact absurd rfl hne

/-- **In which runs the counts are those of the handles**, in every state, and every FIFO is made
clean: if and only if every call can be relied on. -/
theorem fifo_life_iff (raw : ℕ → NFifo) (calls : List LifeCall) :
    Run.Along lifeStep LifeCallOk (lifeInit raw) calls ↔
      Run.Along lifeStep LifeCallFine (lifeInit raw) calls := by
  refine Run.along_iff (I := LifeInv) (fun s call h => ?_) (fun s call s' h hok hstep => ?_) calls _
    (lifeInv_init raw)
  · exact (lifeCallOk_iff s call h).1
  · exact (lifeCallOk_iff s call h).2 s' hok hstep

/-- In a run that keeps the promise the last state does. -/
theorem lifeOk_last {s t u : FifoLife} {calls : List LifeCall} {call : LifeCall}
    (hrun : Run.exec lifeStep s calls = some t) (hlast : lifeStep t call = some u)
    (hok : Run.Along lifeStep LifeCallOk s (calls ++ [call])) : LifeOk u :=
  ((Run.along_of_append hrun hok).1.2 u hlast).1

/-- Two readers; the second one is not recorded, and its handle stays counted when it is closed. -/
theorem fifo_life_not :
    ∃ s, Run.exec lifeStep (lifeInit zeroSlots)
        [.make [97] true, .get 1 [97] 0x21, .get 2 [97] 0x21, .close 2 ⟨1, true, false⟩] = some s ∧
      ¬ Run.Along lifeStep LifeCallOk (lifeInit zeroSlots)
        [.make [97] true, .get 1 [97] 0x21, .get 2 [97] 0x21, .close 2 ⟨1, true, false⟩] := by
  have hsome : ((Run.exec lifeStep (lifeInit zeroSlots)
      [.make [97] true, .get 1 [97] 0x21, .get 2 [97] 0x21]).bind fun t =>
        (lifeStep t (.close 2 ⟨1, true, false⟩)).map fun s =>
          ((s.table.slots 0).name, (s.table.slots 0).readref,
            openFor Handle.reading s.handles (s.table.slots 0).id)) = some ([97], 2, 1) := by
    decide +kernel
  obtain ⟨t, ht, hstep⟩ := Option.bind_eq_some_iff.1 hsome
  obtain ⟨s, hs, hvals⟩ := Option.map_eq_some_iff.1 hstep
  simp only [Prod.mk.injEq] at hvals
  obtain ⟨hname, hread, hopen⟩ := hvals
  refine ⟨s, ?_, fun hok => ?_⟩
  · have hexec := Run.exec_append ht [.close 2 ⟨1, true, false⟩]
    rw [List.cons_append, List.cons_append, List.cons_append, List.nil_append] at hexec
    rw [hexec, Run.exec, hs]
    rfl
  · have hlast := (lifeOk_last ht hs hok 0 (by norm_num) (by simp [hname])).1
    rw [hread, hopen] at hlast
    omega

end NamedFifo
end LightOS
