import LightOS.Lib.Ring

/-!
# Message queues: the model

`ipc/msgqueue.c`, for one queue that has been found by its id.  A call is made of the
sections it runs under the queue's semaphore: a sender that finds the queue full and a
receiver that finds it empty sleep between two of them.  A sleeper can be woken at any time,
by the wait queue or by an exception, so the wait queues themselves are left out: every
order of wake-ups is a run here.  In `queueStep` a section is one step, as it is while
`semaphore_down` returns to one task at a time; the programs of `MsgQueueBound` make it in
several, with the semaphore.

Each message carries the number of messages sent before it, and the state the arguments of
all sends and the outcomes of all receives.  The code does not see these.
-/

namespace LightOS
namespace Msgq

open Ring

/-- `MSG_MAX_LEN`. -/
abbrev msgMaxLen : ℕ := 1000

/-- `MSGQ_MAX_MSGS`. -/
abbrev msgqMaxMsgs : ℕ := 128

/-- `IPC_NOWAIT`. -/
abbrev ipcNowait : ℕ := 4

/-- `IPC_NOERROR`. -/
abbrev ipcNoerror : ℕ := 8

/-- `IPC_EXCEPT`. -/
abbrev ipcExcept : ℕ := 16

/-- The least `long`. -/
abbrev longMin : ℤ := -2147483648

/-- `msg_t`: `text` is `buf` up to `length`. -/
structure Msg where
  seq : ℕ
  type : ℤ
  text : List UInt8
  deriving DecidableEq

/-- `msg_queue_t`: the messages from the head of `msg_list` on; `msgs` is an `unsigned char`. -/
structure MsgQueue where
  msgList : List Msg
  msgs : ℕ
  msgsz : ℕ

/-- The arguments of a send. -/
structure SendArgs where
  type : ℤ
  text : ℕ → UInt8
  size : ℕ
  msgflg : ℕ

/-- The arguments of a receive; `buf` is the memory from `msgbuf` on. -/
structure RecvArgs where
  buf : ℕ → UInt8
  msgsz : ℕ
  msgtype : ℤ
  msgflg : ℕ

/-- The outcome of a receive that took a message. -/
structure Delivery where
  args : RecvArgs
  msg : Msg
  after : ℕ → UInt8
  len : ℕ

/-- Where a task is. -/
inductive Pc where
  | outside
  | sending (args : SendArgs)
  | receiving (args : RecvArgs)

/-- The queue, the tasks, and what was sent and received. -/
structure QueueState where
  queue : MsgQueue
  pc : ℕ → Pc
  sent : List SendArgs
  delivered : List Delivery

/-! ## Sending -/

/-- The bytes a send copies: `size` is cut to the size of the queue. -/
def SendArgs.bytes (args : SendArgs) (msgsz : ℕ) : List UInt8 :=
  (List.range (if msgsz < args.size then msgsz else args.size)).map args.text

/-- The message goes to the head of the list: `list_add`. -/
def MsgQueue.link (q : MsgQueue) (msg : Msg) : MsgQueue := { q with msgList := msg :: q.msgList }

/-- `msgs++`. -/
def MsgQueue.countUp (q : MsgQueue) : MsgQueue := { q with msgs := (q.msgs + 1) % 256 }

/-- The queue with a new message. -/
def MsgQueue.insert (q : MsgQueue) (msg : Msg) : MsgQueue := (q.link msg).countUp

/-- The end of `msg_queue_send`, from `mem_alloc` on. -/
def msgQueuePost (s : QueueState) (task : ℕ) (args : SendArgs) (memOk : Bool) : QueueState :=
  let out := { s with pc := Function.update s.pc task .outside }
  if memOk then
    { out with
      queue := s.queue.insert ⟨s.sent.length, args.type, args.bytes s.queue.msgsz⟩
      sent := s.sent ++ [args] }
  else out

/-- `msg_queue_send`, up to where it sleeps. -/
def msgQueueSend (s : QueueState) (task : ℕ) (args : SendArgs) (memOk : Bool) : QueueState :=
  if msgqMaxMsgs < s.queue.msgs then
    if args.msgflg &&& ipcNowait ≠ 0 then s
    else { s with pc := Function.update s.pc task (.sending args) }
  else msgQueuePost s task args memOk

/-! ## Receiving -/

/-- The scans of `msg_queue_recv`.  The `ABS` of the least `long` is undefined. -/
def msgQueueScan (q : MsgQueue) (msgtype : ℤ) (msgflg : ℕ) : Option Msg :=
  if 0 < msgtype then
    if msgflg &&& ipcExcept ≠ 0 then q.msgList.find? fun msg => msg.type ≠ msgtype
    else q.msgList.find? fun msg => msg.type = msgtype
  else if msgtype = 0 then q.msgList.head?
  else if msgtype = longMin then none
  else q.msgList.find? fun msg => msg.type ≤ -msgtype

/-- `list_del`. -/
def MsgQueue.unlink (q : MsgQueue) (msg : Msg) : MsgQueue :=
  { q with msgList := q.msgList.erase msg }

/-- `msgs--`. -/
def MsgQueue.countDown (q : MsgQueue) : MsgQueue := { q with msgs := (q.msgs + 255) % 256 }

/-- The queue without a message. -/
def MsgQueue.remove (q : MsgQueue) (msg : Msg) : MsgQueue := (q.unlink msg).countDown

/-- The number of bytes a receive copies. -/
def recvLen (args : RecvArgs) (msg : Msg) : ℕ :=
  if args.msgflg &&& ipcNoerror ≠ 0 ∧ args.msgsz < msg.text.length then args.msgsz
  else msg.text.length

/-- A `long` in memory. -/
def longBytes (type : ℤ) (i : ℕ) : UInt8 := UInt8.ofNat ((type % 4294967296).toNat / 256 ^ i % 256)

/-- The buffer of a receive after the header and `len` bytes were copied. -/
def recvBuf (args : RecvArgs) (msg : Msg) : ℕ → UInt8 :=
  memcpy (memcpy args.buf 0 (longBytes msg.type) 4) 4 (fun i => msg.text.getD i 0)
    (recvLen args msg)

/-- The end of `msg_queue_recv`, from the scans on. -/
def msgQueueFetch (s : QueueState) (task : ℕ) (args : RecvArgs) : QueueState :=
  let out := { s with pc := Function.update s.pc task .outside }
  match msgQueueScan s.queue args.msgtype args.msgflg with
  | none => out
  | some msg =>
      { out with
        queue := s.queue.remove msg
        delivered := s.delivered ++ [⟨args, msg, recvBuf args msg, recvLen args msg⟩] }

/-- `msg_queue_recv`, up to where it sleeps. -/
def msgQueueRecv (s : QueueState) (task : ℕ) (args : RecvArgs) : QueueState :=
  if s.queue.msgs = 0 then
    if args.msgflg &&& ipcNowait ≠ 0 then s
    else { s with pc := Function.update s.pc task (.receiving args) }
  else msgQueueFetch s task args

/-! ## Runs -/

/-- A task makes a call, or goes on after it was woken.  `memOk` says whether `mem_alloc` finds
memory. -/
inductive QueueCall where
  | send (task : ℕ) (args : SendArgs) (memOk : Bool)
  | recv (task : ℕ) (args : RecvArgs)
  | resume (task : ℕ) (memOk : Bool)

/-- One section; a task that sleeps makes no call. -/
def queueStep (s : QueueState) : QueueCall → Option QueueState
  | .send task args memOk =>
      match s.pc task with
      | .outside => some (msgQueueSend s task args memOk)
      | _ => none
  | .recv task args =>
      match s.pc task with
      | .outside => some (msgQueueRecv s task args)
      | _ => none
  | .resume task memOk =>
      match s.pc task with
      | .outside => none
      | .sending args => some (msgQueuePost s task args memOk)
      | .receiving args => some (msgQueueFetch s task args)

/-- `msg_queue_alloc`: an empty queue, and nobody is inside a call. -/
def queueInit : QueueState where
  queue := ⟨[], 0, msgMaxLen⟩
  pc := fun _ => .outside
  sent := []
  delivered := []

end Msgq
end LightOS
