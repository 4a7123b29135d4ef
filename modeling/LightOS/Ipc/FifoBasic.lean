import LightOS.Lib.LockProg

/-!
# Named FIFOs: the model

`ipc/fifo.c`: a table of FIFOs under one semaphore, `fifo_mutex`, and a mutex in each of
them.  Every call is a program around the semaphore: what it does between two steps
of other tasks is one change of the table.

Of the buffer of a FIFO only the number of bytes is kept.  A task that blocks goes on when
somebody has unblocked it, and a task that waits for the semaphore is blocked in the same way.  A
loop of a transfer makes at most the number of rounds the call is given; a transfer that has made
them all does not go on.
-/

namespace LightOS
namespace NamedFifo

open LockProg

/-! ## The table -/

/-- `FIFO_NR`. -/
abbrev fifoNr : ℕ := 128

/-- `FIFO_NAME_LEN`. -/
abbrev fifoNameLen : ℕ := 24

/-- `FIFO_SIZE`. -/
abbrev fifoSize : ℕ := 4096

/-- `FIFO_IN_READ`. -/
abbrev fifoInRead : BitVec 32 := 0x01

/-- `FIFO_IN_WRITE`. -/
abbrev fifoInWrite : BitVec 32 := 0x02

/-- `IPC_CREAT`. -/
abbrev ipcCreat : BitVec 32 := 0x01

/-- `IPC_EXCL`. -/
abbrev ipcExcl : BitVec 32 := 0x02

/-- `IPC_NOWAIT`. -/
abbrev ipcNowait : BitVec 32 := 0x04

/-- `IPC_NOERROR`. -/
abbrev ipcNoerror : BitVec 32 := 0x08

/-- `IPC_READER`. -/
abbrev ipcReader : BitVec 32 := 0x20

/-- `IPC_WRITER`. -/
abbrev ipcWriter : BitVec 32 := 0x40

/-- `IPC_NOSYNC`. -/
abbrev ipcNosync : BitVec 32 := 0x80

/-- `IPC_SETRW`. -/
abbrev ipcSetrw : BitVec 32 := 2

/-- `IPC_SET`. -/
abbrev ipcSet : BitVec 32 := 3

/-- The C condition `flags & flag`. -/
def hasBit (flags flag : BitVec 32) : Bool := flags &&& flag != 0

/-- `fifo_t`; `fifo` is the number of bytes in its buffer, if it has one. -/
structure NFifo where
  id : ℕ
  fifo : Option ℕ
  reader : Option ℕ
  writer : Option ℕ
  flags : BitVec 32
  readref : ℤ
  writeref : ℤ
  mutex : Bool
  name : List UInt8
  deriving DecidableEq

/-- `fifo_table`, and of which tasks `exception_cause_exit` holds. -/
structure FifoTable where
  slots : ℕ → NFifo
  exits : ℕ → Bool

/-- A slot gets new contents. -/
def FifoTable.set (T : FifoTable) (i : ℕ) (f : NFifo) : FifoTable :=
  { T with slots := Function.update T.slots i f }

/-- A slot is changed. -/
def FifoTable.modify (T : FifoTable) (i : ℕ) (g : NFifo → NFifo) : FifoTable :=
  T.set i (g (T.slots i))

/-- `fifo_init`, on the memory `raw`: the flags and the counts stay as they are. -/
def fifoInit (raw : ℕ → NFifo) : FifoTable where
  slots := fun i =>
    { raw i with
      id := 1 + i + i * 2
      mutex := false
      name := []
      fifo := none
      reader := none
      writer := none }
  exits := fun _ => false

/-- The memory of the table, all zero. -/
def zeroSlots : ℕ → NFifo := fun _ => ⟨0, none, none, none, 0, 0, 0, false, []⟩

/-- The first slot with a property. -/
def findSlot (T : FifoTable) (p : NFifo → Bool) : Option ℕ :=
  (List.range fifoNr).find? fun i => p (T.slots i)

/-- `fifo_find_by_name`. -/
def fifoFindByName (T : FifoTable) (name : List UInt8) : Option ℕ :=
  findSlot T fun f => f.name != [] && f.name == name

/-- `fifo_find_by_id`. -/
def fifoFindById (T : FifoTable) (fifoid : ℤ) : Option ℕ :=
  findSlot T fun f => decide ((f.id : ℤ) = fifoid) && f.name != []

/-- `fifo_alloc`; `mem` is whether `fifo_buf_alloc` succeeds.  `strcpy` copies a name that does not
fit over the number of the next FIFO and what follows it, which is the end here. -/
def fifoAlloc (T : FifoTable) (name : List UInt8) (mem : Bool) : Option (FifoTable × Option ℕ) :=
  match findSlot T fun f => f.name == [] with
  | none => some (T, none)
  | some i =>
      if mem then
        if fifoNameLen ≤ name.length then none
        else
          some (T.modify i fun f =>
            { f with fifo := some 0, name := name, readref := 0, writeref := 0 }, some i)
      else some (T, none)

/-- `fifo_free`. -/
def fifoFree (T : FifoTable) (i : ℕ) : FifoTable :=
  T.modify i fun f => { f with fifo := none, name := [] }

/-- `fifo_is_opened`. -/
def fifoIsOpened (f : NFifo) : Bool := !(decide (f.readref < 1) && decide (f.writeref < 1))

/-- The writer, if it is inside its call.  Whether it is blocked is seen when it is unblocked. -/
def writerInside (T : FifoTable) (i : ℕ) : Option ℕ :=
  if hasBit (T.slots i).flags fifoInWrite then (T.slots i).writer else none

/-- The reader, if it is inside its call. -/
def readerInside (T : FifoTable) (i : ℕ) : Option ℕ :=
  if hasBit (T.slots i).flags fifoInRead then (T.slots i).reader else none

/-! ## Sections -/

/-- What `fifo_get` does with a FIFO opened for writing. -/
def openWriter (T : FifoTable) (task i : ℕ) (nowait : Bool) : FifoTable :=
  T.modify i fun f =>
    { f with
      writer := if f.writer = none ∧ f.writeref = 0 then some task else f.writer
      writeref := f.writeref + 1
      flags := if nowait then f.flags ||| (ipcNowait <<< 24) else f.flags }

/-- A FIFO without a reader. -/
def NFifo.unread (f : NFifo) : Prop := f.reader = none ∧ f.readref = 0

instance (f : NFifo) : Decidable f.unread := inferInstanceAs (Decidable (_ ∧ _))

/-- `fifo_get` records the reader of a FIFO that has none. -/
def recordReader (T : FifoTable) (task i : ℕ) : FifoTable :=
  T.modify i fun f => { f with reader := if f.unread then some task else f.reader }

/-- `fifo_get` counts a reader. -/
def countReader (T : FifoTable) (i : ℕ) (nowait : Bool) : FifoTable :=
  T.modify i fun f =>
    { f with
      readref := f.readref + 1
      flags := if nowait then f.flags ||| (ipcNowait <<< 16) else f.flags }

/-- The section of `fifo_make`. -/
def fifoMakeSection (T : FifoTable) (name : List UInt8) (mem : Bool) : Option (FifoTable × ℤ) :=
  match fifoFindByName T name with
  | some _ => some (T, -17)
  | none => (fifoAlloc T name mem).map fun r => (r.1, if r.2 = none then -12 else 0)

/-- The section of `fifo_remove`. -/
def fifoRemoveSection (T : FifoTable) (name : List UInt8) : FifoTable × ℤ :=
  match fifoFindByName T name with
  | none => (T, -23)
  | some i => if fifoIsOpened (T.slots i) then (T, -1) else (fifoFree T i, 0)

/-- What `fifo_put` does under the mutex of the FIFO. -/
def fifoPutBody (task : ℕ) (f : NFifo) : NFifo :=
  if f.reader = some task then
    { f with readref := f.readref - 1, reader := if f.readref - 1 = 0 then none else f.reader }
  else if f.writer = some task then
    { f with writeref := f.writeref - 1, writer := if f.writeref - 1 = 0 then none else f.writer }
  else f

/-- What `fifo_incref` and `fifo_decref` do under the mutex: the count of the end the task is
recorded for changes by `d`. -/
def fifoRefBody (task : ℕ) (d : ℤ) (f : NFifo) : NFifo × ℤ :=
  if f.reader = some task ∧ 0 < f.readref then ({ f with readref := f.readref + d }, 0)
  else if f.writer = some task ∧ 0 < f.writeref then ({ f with writeref := f.writeref + d }, 0)
  else (f, -1)

/-- What `fifo_set_rdwr` does under the mutex. -/
def fifoSetRdwrBody (task : ℕ) (arg : BitVec 32) (f : NFifo) : NFifo × ℤ :=
  if arg = ipcReader then ({ f with reader := some task }, 0)
  else if arg = ipcWriter then ({ f with writer := some task }, 0)
  else (f, -1)

/-- What `fifo_set_flags` does under the mutex. -/
def fifoSetFlagsBody (task : ℕ) (arg : BitVec 32) (f : NFifo) : NFifo × ℤ :=
  if f.reader = some task then ({ f with flags := f.flags ||| ((arg &&& 0xff) <<< 16) }, 0)
  else if f.writer = some task then ({ f with flags := f.flags ||| ((arg &&& 0xff) <<< 24) }, 0)
  else (f, -1)

/-! ## Programs -/

/-- What a task does in a call. -/
abbrev FifoProg := Prog ℕ FifoTable

/-- `mutex_lock(&fifo->mutex)`: it tries again whoever wakes it. -/
def lockFifo (i : ℕ) (k : FifoProg) : FifoProg :=
  .act (fun T => if (T.slots i).mutex then none
      else some (T.modify i fun f => { f with mutex := true }))
    fun _ => k

/-- `mutex_unlock(&fifo->mutex)`. -/
def unlockFifo (i : ℕ) (k : FifoProg) : FifoProg :=
  .change (fun T => T.modify i fun f => { f with mutex := false }) k

/-- What `fifo_get` does with a FIFO opened for reading: a writer that waits for its first reader is
unblocked. -/
def openReader (task i : ℕ) (nowait : Bool) (k : FifoProg) : FifoProg :=
  .act (fun T => some (recordReader T task i)) fun T =>
    .unblock (fun U => if (T.slots i).unread then writerInside U i else none)
      (.change (fun U => countReader U i nowait) k)

/-- `fifo_get`. -/
def fifoGet (task : ℕ) (name : Option (List UInt8)) (flags : BitVec 32) : FifoProg :=
  match name with
  | none => .ret (-1)
  | some name =>
      .down (if hasBit flags ipcCreat then
        .look fun T =>
          match fifoFindByName T name with
          | none => .up (.ret (-2))
          | some i =>
              if hasBit flags ipcExcl then .up (.ret (-1))
              else if hasBit flags ipcReader then
                openReader task i (hasBit flags ipcNowait) (.up (.ret (T.slots i).id))
              else if hasBit flags ipcWriter then
                .change (fun T => openWriter T task i (hasBit flags ipcNowait))
                  (.up (.ret (T.slots i).id))
              else .up (.ret (T.slots i).id)
        else .up (.ret (-1)))

/-- `fifo_make`. -/
def fifoMake (name : List UInt8) (mem : Bool) : FifoProg :=
  if name = [] then .ret (-22)
  else .down (.call (fun T => fifoMakeSection T name mem) fun retval => .up (.ret retval))

/-- `fifo_remove`: it gives the semaphore back also when it has not got it. -/
def fifoRemove (name : List UInt8) : FifoProg :=
  if name = [] then .ret (-22)
  else
    .tryDown (.call (fun T => some (fifoRemoveSection T name)) fun retval => .up (.ret retval))
      (.up (.ret (-16)))

/-- The calls that look a FIFO up by its number and change it under its mutex. -/
def underMutex (fifoid : ℤ) (body : NFifo → NFifo × ℤ) : FifoProg :=
  .down (.look fun T =>
    match fifoFindById T fifoid with
    | none => .up (.ret (-1))
    | some i =>
        lockFifo i (.call (fun T => some (T.set i (body (T.slots i)).1, (body (T.slots i)).2))
          fun retval => unlockFifo i (.up (.ret retval))))

/-- `fifo_put`. -/
def fifoPut (task : ℕ) (fifoid : ℤ) : FifoProg :=
  underMutex fifoid fun f => (fifoPutBody task f, 0)

/-- `fifo_incref`. -/
def fifoIncref (task : ℕ) (fifoid : ℤ) : FifoProg := underMutex fifoid (fifoRefBody task 1)

/-- `fifo_decref`. -/
def fifoDecref (task : ℕ) (fifoid : ℤ) : FifoProg := underMutex fifoid (fifoRefBody task (-1))

/-- `fifo_set_rdwr`. -/
def fifoSetRdwr (task : ℕ) (fifoid : ℤ) (arg : BitVec 32) : FifoProg :=
  underMutex fifoid (fifoSetRdwrBody task arg)

/-- `fifo_set_flags`. -/
def fifoSetFlags (task : ℕ) (fifoid : ℤ) (arg : BitVec 32) : FifoProg :=
  underMutex fifoid (fifoSetFlagsBody task arg)

/-- `fifo_ctl`. -/
def fifoCtl (task : ℕ) (fifoid : ℤ) (cmd arg : BitVec 32) : FifoProg :=
  if cmd = ipcSetrw then fifoSetRdwr task fifoid arg
  else if cmd = ipcSet then fifoSetFlags task fifoid arg
  else .ret (-1)

/-! ## Transfers -/

/-- The end of `fifo_write`.  A reader that is gone is looked at all the same. -/
def fifoWriteEnd (i : ℕ) (wrsize : ℤ) : FifoProg :=
  .look fun T =>
    if (T.slots i).reader = none then .stop
    else
      .unblock (fun T => readerInside T i)
        (.change (fun T => T.modify i fun f => { f with flags := f.flags &&& ~~~fifoInWrite })
          (unlockFifo i (.ret wrsize)))

/-- The loop of `fifo_write`. -/
def fifoWriteLoop (i : ℕ) : ℕ → ℤ → ℤ → FifoProg
  | 0, _, _ => .stop
  | rounds + 1, leftSize, wrsize =>
      if leftSize ≤ 0 then fifoWriteEnd i wrsize
      else
        .look fun T =>
          let f := T.slots i
          match f.fifo with
          | none => .stop
          | some len =>
              if fifoSize ≤ len then
                if hasBit f.flags (ipcNowait <<< 24) then
                  .change (fun T => T.modify i fun f =>
                      { f with flags := f.flags &&& ~~~fifoInWrite })
                    (unlockFifo i (.ret (-1)))
                else if f.reader = none ∨ f.readref ≤ 0 then unlockFifo i (.ret (-1))
                else
                  .unblock (fun T => readerInside T i)
                    (unlockFifo i (.block (lockFifo i
                      (fifoWriteLoop i rounds leftSize wrsize))))
              else
                let chunk := min leftSize (min fifoSize (fifoSize - len) : ℕ)
                .change (fun T => T.modify i fun f => { f with fifo := some (len + chunk.toNat) })
                  (fifoWriteLoop i rounds (leftSize - chunk) (wrsize + chunk))

/-- `fifo_write` after the lookup, without the semaphore. -/
def fifoWriteTransfer (task i : ℕ) (size : BitVec 32) (rounds : ℕ) : FifoProg :=
  .look fun T =>
    let f := T.slots i
    if f.writer = none then .ret (-1)
    else if hasBit f.flags (ipcNoerror <<< 24) ∧ f.writer ≠ some task then .ret (-1)
    else
      .change (fun T => T.modify i fun f => { f with flags := f.flags ||| fifoInWrite })
        (.look fun T =>
          let transfer := lockFifo i (fifoWriteLoop i rounds size.toInt 0)
          if (T.slots i).reader = none ∧ hasBit (T.slots i).flags (ipcNosync <<< 24) = false then
            .block transfer
          else transfer)

/-- `fifo_write`; `buffer` is whether there is one. -/
def fifoWrite (task : ℕ) (fifoid : ℤ) (buffer : Bool) (size : BitVec 32) (rounds : ℕ) :
    FifoProg :=
  if buffer = false ∨ size = 0 then .ret (-1)
  else
    .down (.look fun T =>
      match fifoFindById T fifoid with
      | none => .up (.ret (-1))
      | some i => .up (fifoWriteTransfer task i size rounds))

/-- The end of `fifo_read`: the first bytes are taken. -/
def fifoReadEnd (i : ℕ) (size : BitVec 32) (len : ℕ) : FifoProg :=
  let chunk := min (min size.toNat fifoSize) len
  .change (fun T => T.modify i fun f => { f with fifo := some (len - chunk) })
    (.unblock (fun T => writerInside T i)
      (.change (fun T => T.modify i fun f => { f with flags := f.flags &&& ~~~fifoInRead })
        (unlockFifo i (.ret chunk))))

/-- The loop of `fifo_read`. -/
def fifoReadLoop (task i : ℕ) (size : BitVec 32) : ℕ → FifoProg
  | 0 => .stop
  | rounds + 1 =>
      .look fun T =>
        let f := T.slots i
        match f.fifo with
        | none => .stop
        | some len =>
            if len = 0 then
              if hasBit f.flags (ipcNowait <<< 16) then
                .change (fun T => T.modify i fun f => { f with flags := f.flags &&& ~~~fifoInRead })
                  (unlockFifo i (.ret (-1)))
              else if f.writer = none ∨ f.writeref ≤ 0 then unlockFifo i (.ret (-1))
              else if T.exits task then unlockFifo i (.ret (-1))
              else unlockFifo i (.block (lockFifo i (fifoReadLoop task i size rounds)))
            else fifoReadEnd i size len

/-- `fifo_read` after the lookup, without the semaphore. -/
def fifoReadTransfer (task i : ℕ) (size : BitVec 32) (rounds : ℕ) : FifoProg :=
  .look fun T =>
    let f := T.slots i
    if f.reader = none then .ret (-1)
    else if hasBit f.flags (ipcNoerror <<< 16) ∧ f.reader ≠ some task then .ret (-1)
    else
      .change (fun T => T.modify i fun f => { f with flags := f.flags ||| fifoInRead })
        (.look fun T =>
          if (T.slots i).writer = none ∧ hasBit (T.slots i).flags (ipcNosync <<< 16) then .ret (-1)
          else lockFifo i (fifoReadLoop task i size rounds))

/-- `fifo_read`; `buffer` is whether there is one. -/
def fifoRead (task : ℕ) (fifoid : ℤ) (buffer : Bool) (size : BitVec 32) (rounds : ℕ) :
    FifoProg :=
  if buffer = false ∨ size = 0 then .ret (-1)
  else
    .down (.look fun T =>
      match fifoFindById T fifoid with
      | none => .up (.ret (-1))
      | some i => .up (fifoReadTransfer task i size rounds))

end NamedFifo
end LightOS
