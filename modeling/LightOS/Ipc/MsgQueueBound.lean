import LightOS.Lib.LockProg
import LightOS.Ipc.MsgQueue

/-!
# Message queues: bound and contents

`msg_queue_send` and `msg_queue_recv` as programs around the semaphore of the queue, with the steps
of a section one by one.

* `sendProg_keeps`, `recvProg_keeps` — what a section finds in order it leaves in order.
* `msgQueue_bounded` — the bound and the contents, in runs that do not overfill the queue and do not
  receive into buffers that are too small, and in which the semaphore is not entered unasked.
-/

namespace LightOS
namespace Msgq

open LockProg Ring

/-! ## The programs -/

/-- The queue, and what was sent and received. -/
structure QueueLog where
  queue : MsgQueue
  sent : List SendArgs
  delivered : List Delivery

/-- What a task does. -/
abbrev QueueProg := Prog ℕ QueueLog

/-- The new message is linked. -/
def QueueLog.link (s : QueueLog) (args : SendArgs) : QueueLog :=
  { s with
    queue := s.queue.link ⟨s.sent.length, args.type, args.bytes s.queue.msgsz⟩
    sent := s.sent ++ [args] }

/-- A message is unlinked, for a receiver. -/
def QueueLog.unlink (s : QueueLog) (args : RecvArgs) (msg : Msg) : QueueLog :=
  { s with
    queue := s.queue.unlink msg
    delivered := s.delivered ++ [⟨args, msg, recvBuf args msg, recvLen args msg⟩] }

/-- `msgs++`. -/
def QueueLog.countUp (s : QueueLog) : QueueLog := { s with queue := s.queue.countUp }

/-- `msgs--`. -/
def QueueLog.countDown (s : QueueLog) : QueueLog := { s with queue := s.queue.countDown }

/-- The end of `msg_queue_send`, from `mem_alloc` on. -/
def sendEnd (args : SendArgs) (memOk : Bool) : QueueProg :=
  if memOk then .change (fun s => s.link args) (.change QueueLog.countUp (.up (.ret 0)))
  else .up (.ret (-1))

/-- `msg_queue_send`. -/
def sendProg (args : SendArgs) (memOk : Bool) : QueueProg :=
  .down (.look fun s =>
    if msgqMaxMsgs < s.queue.msgs then
      if args.msgflg &&& ipcNowait ≠ 0 then .up (.ret (-1))
      else .up (.block (.down (sendEnd args memOk)))
    else sendEnd args memOk)

/-- The end of `msg_queue_recv`, from the scans on. -/
def recvEnd (args : RecvArgs) : QueueProg :=
  .look fun s =>
    match msgQueueScan s.queue args.msgtype args.msgflg with
    | none => .up (.ret (-1))
    | some msg =>
        .change (fun s => s.unlink args msg)
          (.change QueueLog.countDown (.up (.ret (recvLen args msg))))

/-- `msg_queue_recv`. -/
def recvProg (args : RecvArgs) : QueueProg :=
  .down (.look fun s =>
    if s.queue.msgs = 0 then
      if args.msgflg &&& ipcNowait ≠ 0 then .up (.ret (-1))
      else .up (.block (.down (recvEnd args)))
    else recvEnd args)

/-- A task begins a call, or makes a step in it; or it is woken, by the wait queue or by an
exception. -/
inductive QueueEvent where
  | send (task : ℕ) (args : SendArgs) (memOk : Bool)
  | recv (task : ℕ) (args : RecvArgs)
  | run (task : ℕ)
  | wake (task : ℕ)

/-- The event of the programs. -/
def QueueEvent.toEvent : QueueEvent → Event ℕ QueueLog
  | .send task args memOk => .call task (sendProg args memOk)
  | .recv task args => .call task (recvProg args)
  | .run task => .run task
  | .wake task => .wake task

/-- One event. -/
def eventStep (s : Sys ℕ QueueLog) (e : QueueEvent) : Option (Sys ℕ QueueLog) := s.step e.toEvent

/-- `msg_queue_alloc`: an empty queue, and nobody is inside a call. -/
def queueStart : Sys ℕ QueueLog := Sys.init ⟨⟨[], 0, msgMaxLen⟩, [], []⟩

/-! ## The condition -/

/-- A step that queues a message finds room for it, and a step that takes the first message its
selector matches may cut it or has room for it. -/
def StepFine (s s' : QueueLog) : Prop :=
  (s.queue.msgList.length < s'.queue.msgList.length → s.queue.msgList.length < msgqMaxMsgs) ∧
    ∀ d ∈ s'.delivered.drop s.delivered.length, d.args.msgflg &&& ipcNoerror ≠ 0 ∨
      ∀ msg ∈ s.queue.msgList.find? (fun x => Matches d.args.msgtype d.args.msgflg x),
        msg.text.length ≤ d.args.msgsz

instance (s s' : QueueLog) : Decidable (StepFine s s') :=
  inferInstanceAs (Decidable ((_ → _) ∧ ∀ d ∈ _, _ ∨ ∀ msg ∈ _, _))

/-- The semaphore is not entered unasked, and the step is fine. -/
def QueueEventOk (s : Sys ℕ QueueLog) (e : QueueEvent) : Prop :=
  Calm s e.toEvent ∧ ∀ s' ∈ eventStep s e, StepFine s.store s'.store

instance (s : Sys ℕ QueueLog) (e : QueueEvent) : Decidable (QueueEventOk s e) :=
  inferInstanceAs (Decidable (_ ∧ ∀ s' ∈ eventStep s e, _))

/-- What a send with these arguments queues. -/
def Carries (sent : List SendArgs) (msg : Msg) : Prop :=
  ∃ args, sent[msg.seq]? = some args ∧ msg.type = args.type ∧ msg.text = args.bytes msgMaxLen

/-- The receive got the type and the bytes of a send, cut to the queue's size and to the
receiver's, and nothing behind the receiver's buffer changed. -/
def DeliversSent (sent : List SendArgs) (d : Delivery) : Prop :=
  ∃ args, sent[d.msg.seq]? = some args ∧
    d.len = min (min args.size msgMaxLen) d.args.msgsz ∧
    (∀ i < 4, d.after i = longBytes args.type i) ∧
    (∀ i < d.len, d.after (4 + i) = args.text i) ∧
    ∀ i, 4 + d.args.msgsz ≤ i → d.after i = d.args.buf i

/-- What holds of the queue in every state. -/
structure LogOk (s : QueueLog) : Prop where
  msgsz : s.queue.msgsz = msgMaxLen
  msgs_le : s.queue.msgs ≤ msgqMaxMsgs
  bound : s.queue.msgList.length ≤ msgqMaxMsgs
  carries : ∀ msg ∈ s.queue.msgList, Carries s.sent msg
  delivers : ∀ d ∈ s.delivered, DeliversSent s.sent d

/-- `msgs` is the length of the list. -/
def Counted (s : QueueLog) : Prop := s.queue.msgs = s.queue.msgList.length

/-- What the sections rely on and restore. -/
def queueRely : Prog.Rely QueueLog := ⟨LogOk, Counted, StepFine⟩

section Bound

variable {s : QueueLog} {msg : Msg}

theorem length_bytes (args : SendArgs) :
    (args.bytes msgMaxLen).length = min args.size msgMaxLen := by
  rw [SendArgs.bytes, List.length_map, List.length_range]
  split_ifs with h
  · exact (min_eq_right h.le).symm
  · exact (min_eq_left (not_lt.1 h)).symm

theorem getD_bytes (args : SendArgs) {i : ℕ} (h : i < min args.size msgMaxLen) :
    (args.bytes msgMaxLen).getD i 0 = args.text i := by
  have hi : i < (args.bytes msgMaxLen).length := by rwa [length_bytes]
  rw [List.getD_eq_getElem _ _ hi]
  simp [SendArgs.bytes]

/-- A later send does not change what is known of the earlier ones. -/
theorem getElem?_sent_append {sent : List SendArgs} {args : SendArgs} (new : SendArgs) {i : ℕ}
    (h : sent[i]? = some args) : (sent ++ [new])[i]? = some args := by
  obtain ⟨hi, -⟩ := List.getElem?_eq_some_iff.1 h
  rw [List.getElem?_append_left hi, h]

/-- A message that fits, or is cut to fit. -/
theorem recvLen_of_fits {args : RecvArgs}
    (h : args.msgflg &&& ipcNoerror ≠ 0 ∨ msg.text.length ≤ args.msgsz) :
    recvLen args msg = min msg.text.length args.msgsz := by
  unfold recvLen
  split_ifs with hcut
  · exact (min_eq_right hcut.2.le).symm
  · have hfits : msg.text.length ≤ args.msgsz := by
      rcases h with h | h
      · exact not_lt.1 fun hlt => hcut ⟨h, hlt⟩
      · exact h
    exact (min_eq_left hfits).symm

/-- What such a receive leaves in memory. -/
theorem deliversSent_of_fits {sent : List SendArgs} {args : RecvArgs} (hcarries : Carries sent msg)
    (h : args.msgflg &&& ipcNoerror ≠ 0 ∨ msg.text.length ≤ args.msgsz) :
    DeliversSent sent ⟨args, msg, recvBuf args msg, recvLen args msg⟩ := by
  obtain ⟨sargs, hsent, htype, htext⟩ := hcarries
  have hlen : recvLen args msg = min (min sargs.size msgMaxLen) args.msgsz := by
    rw [recvLen_of_fits h, htext, length_bytes]
  refine ⟨sargs, hsent, hlen, fun i hi => ?_, fun i hi => ?_, fun i hi => ?_⟩
  · show recvBuf args msg i = _
    rw [recvBuf, memcpy_of_not_mem (by omega), memcpy_of_mem (Nat.zero_le i) (by omega), htype,
      Nat.sub_zero]
  · show recvBuf args msg (4 + i) = _
    have hi' : i < recvLen args msg := hi
    rw [recvBuf, memcpy_of_mem (by omega) (by omega), Nat.add_sub_cancel_left, htext]
    exact getD_bytes sargs (by omega)
  · show recvBuf args msg i = _
    have hi' : 4 + args.msgsz ≤ i := hi
    rw [recvBuf, memcpy_of_not_mem (by omega), memcpy_of_not_mem (by omega)]

/-! ## What the sections do -/

theorem LogOk.link (h : LogOk s) {args : SendArgs} (hroom : s.queue.msgList.length < msgqMaxMsgs) :
    LogOk (s.link args) := by
  have hlater : ∀ x, Carries s.sent x → Carries (s.sent ++ [args]) x := by
    rintro x ⟨sargs, hsargs, hrest⟩
    exact ⟨sargs, getElem?_sent_append args hsargs, hrest⟩
  refine ⟨h.msgsz, h.msgs_le, hroom, fun x hx => ?_, fun d hd => ?_⟩
  · rcases List.mem_cons.1 hx with rfl | hx
    · exact ⟨args, by simp [QueueLog.link], rfl, by rw [h.msgsz]⟩
    · exact hlater x (h.carries x hx)
  · obtain ⟨sargs, hsargs, hrest⟩ := h.delivers d hd
    exact ⟨sargs, getElem?_sent_append args hsargs, hrest⟩

theorem LogOk.unlink (h : LogOk s) {args : RecvArgs} (hmem : msg ∈ s.queue.msgList)
    (hfits : args.msgflg &&& ipcNoerror ≠ 0 ∨ msg.text.length ≤ args.msgsz) :
    LogOk (s.unlink args msg) := by
  refine ⟨h.msgsz, h.msgs_le, List.erase_sublist.length_le.trans h.bound, fun x hx => ?_,
    fun d hd => ?_⟩
  · exact h.carries x (List.mem_of_mem_erase hx)
  · rcases List.mem_append.1 hd with hd | hd
    · exact h.delivers d hd
    · rw [List.mem_singleton.1 hd]
      exact deliversSent_of_fits (h.carries msg hmem) hfits

/-- A count that is right, or about to be. -/
theorem LogOk.count (h : LogOk s) {n : ℕ} (hn : n ≤ msgqMaxMsgs) :
    LogOk { s with queue := { s.queue with msgs := n } } :=
  ⟨h.msgsz, hn, h.bound, h.carries, h.delivers⟩

/-- The end of a section that leaves the count right. -/
theorem up_keeps {r : ℤ} (hcount : Counted s) :
    (Prog.up (Prog.ret r) : QueueProg).Keeps queueRely (some s) :=
  ⟨fun s' hs' => by cases hs'; exact hcount, trivial⟩

/-- A call that has to wait gives up, or sleeps between two sections. -/
theorem section_keeps {wait : QueueLog → Prop} {nowait : Prop} [DecidablePred wait]
    [Decidable nowait] {k : QueueProg} {r : ℤ}
    (hk : ∀ s, LogOk s → Counted s → k.Keeps queueRely (some s)) :
    (Prog.down (.look fun s => if wait s then
      if nowait then .up (.ret r) else .up (.block (.down k)) else k)).Keeps queueRely none := by
  intro s h hcount s' hs' _
  cases hs'
  refine ⟨h, ?_⟩
  simp only
  split_ifs
  · exact up_keeps hcount
  · exact ⟨fun s' hs' => by cases hs'; exact hcount, hk⟩
  · exact hk s h hcount

/-- It has given back the semaphore. -/
theorem section_owes {wait : QueueLog → Prop} {nowait : Prop} [DecidablePred wait]
    [Decidable nowait] {k : QueueProg} {r : ℤ} (hk : k.Owes 1) :
    (Prog.down (.look fun s => if wait s then
      if nowait then .up (.ret r) else .up (.block (.down k)) else k)).Owes 0 := by
  refine ⟨rfl, Prog.owes_look fun s => ?_⟩
  split_ifs
  · exact ⟨rfl, rfl⟩
  · exact ⟨rfl, Prog.owes_block ⟨rfl, hk⟩⟩
  · exact hk

theorem sendEnd_keeps (h : LogOk s) (hcount : Counted s) (args : SendArgs) (memOk : Bool) :
    (sendEnd args memOk).Keeps queueRely (some s) := by
  rw [sendEnd]
  split_ifs
  · intro s' hs' hfine
    cases hs'
    have hroom := hfine.1 (Nat.lt_succ_self _)
    have hlink : LogOk (s.link args) := h.link hroom
    refine ⟨hlink, fun s' hs' _ => ?_⟩
    cases hs'
    have hmsgs : ((s.link args).queue.msgs + 1) % 256 = s.queue.msgList.length + 1 := by
      show (s.queue.msgs + 1) % 256 = _
      unfold msgqMaxMsgs at hroom
      rw [hcount, Nat.mod_eq_of_lt (by omega)]
    exact ⟨hlink.count (by rw [hmsgs]; exact hroom), up_keeps hmsgs⟩
  · exact up_keeps hcount

theorem recvEnd_keeps (h : LogOk s) (hcount : Counted s) (args : RecvArgs) :
    (recvEnd args).Keeps queueRely (some s) := by
  intro s' hs' _
  cases hs'
  refine ⟨h, ?_⟩
  cases hscan : msgQueueScan s.queue args.msgtype args.msgflg with
  | none =>
      simp only [hscan]
      exact up_keeps hcount
  | some msg =>
      simp only [hscan]
      intro s' hs' hfine
      cases hs'
      have hfind := msgQueueScan_spec hscan
      have hmem : msg ∈ s.queue.msgList := List.mem_of_find?_eq_some hfind
      have hfits := hfine.2 ⟨args, msg, recvBuf args msg, recvLen args msg⟩
        (by simp [QueueLog.unlink])
      have hunlink := h.unlink hmem (hfits.imp_right fun hfits => hfits msg hfind)
      refine ⟨hunlink, fun s' hs' _ => ?_⟩
      cases hs'
      have hmsgs : ((s.unlink args msg).queue.msgs + 255) % 256 =
          (s.queue.msgList.erase msg).length := by
        show (s.queue.msgs + 255) % 256 = _
        have hpos := List.length_pos_of_mem hmem
        have hbound := h.bound
        unfold msgqMaxMsgs at hbound
        rw [hcount, List.length_erase_of_mem hmem]
        omega
      refine ⟨hunlink.count ?_, up_keeps hmsgs⟩
      rw [hmsgs]
      exact List.erase_sublist.length_le.trans h.bound

/-- **A send** restores what it relies on. -/
theorem sendProg_keeps (args : SendArgs) (memOk : Bool) :
    (sendProg args memOk).Keeps queueRely none :=
  section_keeps fun _ h hcount => sendEnd_keeps h hcount args memOk

/-- **A receive** restores what it relies on. -/
theorem recvProg_keeps (args : RecvArgs) : (recvProg args).Keeps queueRely none :=
  section_keeps fun _ h hcount => recvEnd_keeps h hcount args

theorem sendEnd_owes (args : SendArgs) (memOk : Bool) : (sendEnd args memOk).Owes 1 := by
  rw [sendEnd]
  split_ifs
  · exact Prog.owes_change (Prog.owes_change ⟨rfl, rfl⟩)
  · exact ⟨rfl, rfl⟩

theorem recvEnd_owes (args : RecvArgs) : (recvEnd args).Owes 1 := by
  refine Prog.owes_look fun s => ?_
  cases msgQueueScan s.queue args.msgtype args.msgflg with
  | none => exact ⟨rfl, rfl⟩
  | some msg => exact Prog.owes_change (Prog.owes_change ⟨rfl, rfl⟩)

theorem sendProg_owes (args : SendArgs) (memOk : Bool) : (sendProg args memOk).Owes 0 :=
  section_owes (sendEnd_owes args memOk)

theorem recvProg_owes (args : RecvArgs) : (recvProg args).Owes 0 :=
  section_owes (recvEnd_owes args)

end Bound

/-! ## Runs -/

/-- The semaphore guards the sections, and they keep the queue in order. -/
structure QueueInv (s : Sys ℕ QueueLog) : Prop extends LockInv s, Kept queueRely s

theorem queueInv_step (s : Sys ℕ QueueLog) (e : QueueEvent) (s' : Sys ℕ QueueLog)
    (h : QueueInv s) (hok : QueueEventOk s e) (hstep : eventStep s e = some s') : QueueInv s' := by
  have hcall : CallsOwe e.toEvent ∧ CallsKeep queueRely e.toEvent := by
    cases e with
    | send task args memOk => exact ⟨sendProg_owes args memOk, sendProg_keeps args memOk⟩
    | recv task args => exact ⟨recvProg_owes args, recvProg_keeps args⟩
    | run task => exact ⟨trivial, trivial⟩
    | wake task => exact ⟨trivial, trivial⟩
  exact ⟨lockInv_step s _ s' h.toLockInv hok.1 hcall.1 hstep,
    kept_step s _ s' h.toKept h.toLockInv hok.1 hcall.2 (hok.2 s' hstep) hstep⟩

theorem queueInv_start : QueueInv queueStart := by
  refine ⟨lockInv_init _, kept_init ⟨rfl, Nat.zero_le _, Nat.zero_le _, ?_, ?_⟩ rfl⟩
  · exact fun _ h => absurd h List.not_mem_nil
  · exact fun _ h => absurd h List.not_mem_nil

/-- **Bound and contents.**  In every run that does not enter the semaphore unasked, whose inserting
steps find less than `MSGQ_MAX_MSGS` messages queued, and whose receives either allow truncation or
have room for the message, `msgs` is in bounds, and the length of the list while nobody is in a
section, and every receive got what was sent. -/
theorem msgQueue_bounded (events : List QueueEvent) (s : Sys ℕ QueueLog)
    (hok : Run.Along eventStep QueueEventOk queueStart events)
    (hrun : Run.exec eventStep queueStart events = some s) :
    ((∀ t, s.owed t ≠ 1) → s.store.queue.msgs = s.store.queue.msgList.length) ∧
      s.store.queue.msgs ≤ msgqMaxMsgs ∧
      ∀ d ∈ s.store.delivered, DeliversSent s.store.sent d := by
  have h : QueueInv s :=
    Run.exec_invariant queueInv_step events queueStart s queueInv_start hok hrun
  exact ⟨h.free, h.always.msgs_le, h.always.delivers⟩

/-- A task sleeps on an empty queue; two messages are sent, and it receives one while another task
waits for the semaphore. -/
def sleeperServed : List QueueEvent :=
  [.recv 1 (recvZeros 1 1 0), .run 1, .run 1, .run 1, .run 1,
    .send 2 (oneByte 1 7) true, .run 2, .run 2, .run 2, .wake 1,
    .send 3 (oneByte 2 8) true, .run 1, .run 1, .run 1, .run 3, .run 3, .run 2, .run 2, .run 2,
    .run 2, .run 1, .run 1, .run 1, .run 1, .run 1, .run 1, .run 1,
    .run 3, .run 3, .run 3, .run 3, .run 3, .run 3]

theorem msgQueue_bounded_sleeper : ∃ s,
    Run.exec eventStep queueStart sleeperServed = some s ∧
      s.store.delivered.length = 1 ∧ s.store.queue.msgs = 1 ∧
      ((∀ t, s.owed t ≠ 1) → s.store.queue.msgs = s.store.queue.msgList.length) ∧
      s.store.queue.msgs ≤ msgqMaxMsgs ∧
      ∀ d ∈ s.store.delivered, DeliversSent s.store.sent d := by
  have hlog : (Run.exec eventStep queueStart sleeperServed).map
      (fun s => (s.store.delivered.length, s.store.queue.msgs)) = some (1, 1) := by decide +kernel
  obtain ⟨s, hs, hvals⟩ := Option.map_eq_some_iff.1 hlog
  rw [Prod.mk.injEq] at hvals
  exact ⟨s, hs, hvals.1, hvals.2, msgQueue_bounded sleeperServed s (by decide +kernel) hs⟩

/-- A call of one task that nobody interrupts. -/
def sendAlone : List QueueEvent :=
  [.send 0 (oneByte 1 7) true, .run 0, .run 0, .run 0, .run 0, .run 0, .run 0]

/-- The test for a full queue lets one message too many in; and a receive into a buffer of one
byte writes two. -/
theorem msgQueue_not_bounded :
    (∃ s, Run.exec eventStep queueStart (List.replicate 129 sendAlone).flatten = some s ∧
      s.store.queue.msgs = 129) ∧
    ∃ s, Run.exec eventStep queueStart
        ([.send 0 ⟨1, fun _ => 7, 2, 0⟩ true, .run 0, .run 0, .run 0, .run 0, .run 0, .run 0] ++
          [.recv 1 (recvZeros 1 1 0), .run 1, .run 1, .run 1, .run 1, .run 1]) = some s ∧
      ∃ d ∈ s.store.delivered, d.args.msgsz = 1 ∧ d.len = 2 ∧ d.after 5 ≠ d.args.buf 5 := by
  constructor
  · have h : ((Run.exec eventStep queueStart (List.replicate 129 sendAlone).flatten).map
        fun s => s.store.queue.msgs) = some 129 := by
      decide +kernel
    simpa only [Option.map_eq_some_iff] using h
  · exact ⟨_, rfl, _, List.mem_singleton.2 rfl, rfl, rfl, by decide⟩

end Msgq
end LightOS
