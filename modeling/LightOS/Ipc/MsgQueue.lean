import LightOS.Lib.Run
import LightOS.Ipc.MsgQueueBasic

/-!
# Message queues: order

* `queueStep_cases` — what one section can do to a queue.
* `msgQueueRecv_earliest_iff` — a receive takes the earliest message it may take exactly if
  there is no other: `list_add` puts new messages first.
-/

namespace LightOS
namespace Msgq

open Ring

/-! ## What one section does -/

/-- The receive whose scans the section runs. -/
def fetches (s : QueueState) : QueueCall → Option RecvArgs
  | .send _ _ _ => none
  | .recv task args => if (s.pc task matches .outside) ∧ s.queue.msgs ≠ 0 then some args else none
  | .resume task _ =>
      match s.pc task with
      | .receiving args => some args
      | _ => none

/-- What a receive that takes `msg` does. -/
structure Takes (s s' : QueueState) (args : RecvArgs) (msg : Msg) : Prop where
  scan : msgQueueScan s.queue args.msgtype args.msgflg = some msg
  queue : s'.queue = s.queue.remove msg
  sent : s'.sent = s.sent
  delivered : s'.delivered = s.delivered ++ [⟨args, msg, recvBuf args msg, recvLen args msg⟩]

section Steps

variable {s s' : QueueState}

theorem msgQueuePost_cases (task : ℕ) (args : SendArgs) (memOk : Bool)
    (h : msgQueuePost s task args memOk = s') :
    (memOk = false ∧ s'.queue = s.queue ∧ s'.sent = s.sent ∧ s'.delivered = s.delivered) ∨
      (memOk = true ∧
        s'.queue = s.queue.insert ⟨s.sent.length, args.type, args.bytes s.queue.msgsz⟩ ∧
        s'.sent = s.sent ++ [args] ∧ s'.delivered = s.delivered) := by
  subst h
  cases memOk with
  | false => exact Or.inl ⟨rfl, rfl, rfl, rfl⟩
  | true => exact Or.inr ⟨rfl, rfl, rfl, rfl⟩

theorem msgQueueFetch_cases (task : ℕ) (args : RecvArgs) (h : msgQueueFetch s task args = s') :
    (s'.queue = s.queue ∧ s'.sent = s.sent ∧ s'.delivered = s.delivered) ∨
      ∃ msg, Takes s s' args msg := by
  subst h
  unfold msgQueueFetch
  cases hscan : msgQueueScan s.queue args.msgtype args.msgflg with
  | none => exact Or.inl ⟨rfl, rfl, rfl⟩
  | some msg => exact Or.inr ⟨msg, hscan, rfl, rfl, rfl⟩

/-- **A section** leaves the queue alone, inserts a message or takes one. -/
theorem queueStep_cases {call : QueueCall} (h : queueStep s call = some s') :
    (s'.queue = s.queue ∧ s'.sent = s.sent ∧ s'.delivered = s.delivered) ∨
      (∃ args,
        s'.queue = s.queue.insert ⟨s.sent.length, args.type, args.bytes s.queue.msgsz⟩ ∧
        s'.sent = s.sent ++ [args] ∧ s'.delivered = s.delivered) ∨
      ∃ args msg, fetches s call = some args ∧ Takes s s' args msg := by
  cases call with
  | send task args memOk =>
      rw [queueStep] at h
      cases hpc : s.pc task with
      | outside =>
          simp only [hpc, Option.some.injEq, msgQueueSend] at h
          split_ifs at h with hfull hnowait
          · exact Or.inl ⟨by rw [← h], by rw [← h], by rw [← h]⟩
          · exact Or.inl ⟨by rw [← h], by rw [← h], by rw [← h]⟩
          · rcases msgQueuePost_cases task args memOk h with ⟨-, hsame⟩ | ⟨hmem, hpost⟩
            · exact Or.inl hsame
            · exact Or.inr (Or.inl ⟨args, hpost⟩)
      | sending args' => simp [hpc] at h
      | receiving args' => simp [hpc] at h
  | recv task args =>
      rw [queueStep] at h
      cases hpc : s.pc task with
      | outside =>
          simp only [hpc, Option.some.injEq, msgQueueRecv] at h
          split_ifs at h with hempty hnowait
          · exact Or.inl ⟨by rw [← h], by rw [← h], by rw [← h]⟩
          · exact Or.inl ⟨by rw [← h], by rw [← h], by rw [← h]⟩
          · rcases msgQueueFetch_cases task args h with hsame | ⟨msg, htakes⟩
            · exact Or.inl hsame
            · exact Or.inr (Or.inr ⟨args, msg, by simp [fetches, hpc, hempty], htakes⟩)
      | sending args' => simp [hpc] at h
      | receiving args' => simp [hpc] at h
  | resume task memOk =>
      rw [queueStep] at h
      cases hpc : s.pc task with
      | outside => simp [hpc] at h
      | sending args =>
          simp only [hpc, Option.some.injEq] at h
          rcases msgQueuePost_cases task args memOk h with ⟨-, hsame⟩ | ⟨hmem, hpost⟩
          · exact Or.inl hsame
          · exact Or.inr (Or.inl ⟨args, hpost⟩)
      | receiving args =>
          simp only [hpc, Option.some.injEq] at h
          rcases msgQueueFetch_cases task args h with hsame | ⟨msg, htakes⟩
          · exact Or.inl hsame
          · exact Or.inr (Or.inr ⟨args, msg, by rw [fetches, hpc], htakes⟩)

end Steps

/-! ## The order of delivery -/

/-- The messages a receive may take. -/
def Matches (msgtype : ℤ) (msgflg : ℕ) (msg : Msg) : Prop :=
  if msgtype = 0 then True
  else if 0 < msgtype then
    if msgflg &&& ipcExcept ≠ 0 then msg.type ≠ msgtype else msg.type = msgtype
  else msg.type ≤ |msgtype|

instance (msgtype : ℤ) (msgflg : ℕ) : DecidablePred (Matches msgtype msgflg) := fun msg => by
  unfold Matches
  infer_instance

/-- Newer messages come first, and all were sent. -/
structure SendOrder (s : QueueState) : Prop where
  newest : s.queue.msgList.Pairwise fun x y => y.seq < x.seq
  sent : ∀ msg ∈ s.queue.msgList, msg.seq < s.sent.length

section Order

variable {s s' : QueueState} {msgtype : ℤ} {msgflg : ℕ} {msg : Msg}

/-- The scans stop at the first message the receive may take. -/
theorem msgQueueScan_spec {q : MsgQueue} (h : msgQueueScan q msgtype msgflg = some msg) :
    q.msgList.find? (fun x => Matches msgtype msgflg x) = some msg := by
  unfold msgQueueScan at h
  unfold Matches
  split_ifs at h with hpos hexcept hzero hmin
  · simp only [hpos, hpos.ne', hexcept, if_false, if_true, ne_eq, not_false_eq_true] at h ⊢
    exact h
  · simp only [hpos, hpos.ne', hexcept, if_false, if_true] at h ⊢
    exact h
  · simp only [hzero, if_true, decide_true]
    rw [← h]
    cases q.msgList <;> simp
  · have hneg : |msgtype| = -msgtype := abs_of_nonpos (not_lt.1 hpos)
    simp only [hpos, hzero, hneg, if_false] at h ⊢
    exact h

/-- The first message a receive may take, and the others. -/
theorem split_of_scan {q : MsgQueue} (h : msgQueueScan q msgtype msgflg = some msg) :
    Matches msgtype msgflg msg ∧ ∃ newer older, q.msgList = newer ++ msg :: older ∧
      ∀ x ∈ newer, ¬ Matches msgtype msgflg x := by
  obtain ⟨hmatch, newer, older, hlist, hnewer⟩ :=
    List.find?_eq_some_iff_append.1 (msgQueueScan_spec h)
  exact ⟨of_decide_eq_true hmatch, newer, older, hlist, fun x hx => by simpa using hnewer x hx⟩

/-- Removing a message leaves the others as they were. -/
theorem remove_split (h : SendOrder s) {newer older : List Msg}
    (hlist : s.queue.msgList = newer ++ msg :: older) :
    (s.queue.remove msg).msgList = newer ++ older := by
  have hnot : msg ∉ newer := by
    intro hmem
    have hnewest := h.newest
    rw [hlist] at hnewest
    exact lt_irrefl _ ((List.pairwise_append.1 hnewest).2.2 msg hmem msg (List.mem_cons_self ..))
  show s.queue.msgList.erase msg = _
  rw [hlist, List.erase_append_right _ hnot, List.erase_cons_head]

theorem sendOrder_step (s : QueueState) (call : QueueCall) (s' : QueueState) (h : SendOrder s)
    (_ : True) (hstep : queueStep s call = some s') : SendOrder s' := by
  rcases queueStep_cases hstep with ⟨hq, hs, -⟩ | ⟨args, hq, hs, -⟩ | ⟨args, msg, -, htakes⟩
  · exact ⟨by rw [hq]; exact h.newest, by rw [hq, hs]; exact h.sent⟩
  · constructor
    · rw [hq]
      exact List.pairwise_cons.2 ⟨fun x hx => h.sent x hx, h.newest⟩
    · rw [hq, hs]
      intro x hx
      rw [List.length_append, List.length_singleton]
      rcases List.mem_cons.1 hx with rfl | hx
      · exact Nat.lt_succ_self _
      · exact Nat.lt_succ_of_lt (h.sent x hx)
  · have hsub : (s.queue.remove msg).msgList.Sublist s.queue.msgList := List.erase_sublist
    constructor
    · rw [htakes.queue]
      exact h.newest.sublist hsub
    · rw [htakes.queue, htakes.sent]
      exact fun x hx => h.sent x (hsub.mem hx)

theorem sendOrder_init : SendOrder queueInit :=
  ⟨List.Pairwise.nil, fun _ h => absurd h List.not_mem_nil⟩

/-- The receive took the earliest message it may take, and nothing else left the queue. -/
def TakesEarliest (s s' : QueueState) (d : Delivery) : Prop :=
  Matches d.args.msgtype d.args.msgflg d.msg ∧
    (∀ x ∈ s.queue.msgList, Matches d.args.msgtype d.args.msgflg x → d.msg.seq ≤ x.seq) ∧
    ∃ newer older, s.queue.msgList = newer ++ d.msg :: older ∧ s'.queue.msgList = newer ++ older

/-- A receive that takes a message takes the earliest it may take if and only if it may take no
other. -/
theorem takesEarliest_iff (horder : SendOrder s) {args : RecvArgs} (htakes : Takes s s' args msg)
    {d : Delivery} (hargs : d.args = args) (hmsg : d.msg = msg) :
    TakesEarliest s s' d ↔
      (s.queue.msgList.filter (fun x => Matches d.args.msgtype d.args.msgflg x)).length ≤ 1 := by
  subst hargs hmsg
  obtain ⟨hmatch, newer, older, hlist, hnewer⟩ := split_of_scan htakes.scan
  have hnewest := horder.newest
  rw [hlist, List.pairwise_append, List.pairwise_cons] at hnewest
  have hfilter : (s.queue.msgList.filter fun x => Matches d.args.msgtype d.args.msgflg x) =
      d.msg :: older.filter fun x => Matches d.args.msgtype d.args.msgflg x := by
    rw [hlist, List.filter_append, List.filter_eq_nil_iff.2 (by simpa using hnewer),
      List.nil_append, List.filter_cons_of_pos (by simpa using hmatch)]
  have hone : (s.queue.msgList.filter fun x => Matches d.args.msgtype d.args.msgflg x).length ≤ 1 ↔
      ∀ x ∈ older, ¬ Matches d.args.msgtype d.args.msgflg x := by
    rw [hfilter]
    simp
  rw [hone]
  constructor
  · rintro ⟨-, hearliest, -⟩ x hx hxmatch
    have hle := hearliest x (by rw [hlist]; simp [hx]) hxmatch
    exact absurd (hnewest.2.1.1 x hx) (not_lt.2 hle)
  · intro hnone
    refine ⟨hmatch, fun x hx hxmatch => ?_, newer, older, hlist, ?_⟩
    · rw [hlist] at hx
      rcases List.mem_append.1 hx with hx | hx
      · exact absurd hxmatch (hnewer x hx)
      · rcases List.mem_cons.1 hx with rfl | hx
        · exact le_rfl
        · exact absurd hxmatch (hnone x hx)
    · rw [htakes.queue]
      exact remove_split horder hlist

/-- A section that receives finds at most one message it may take. -/
def OnlyMatch (s : QueueState) (call : QueueCall) : Prop :=
  ∀ args ∈ fetches s call,
    (s.queue.msgList.filter (fun x => Matches args.msgtype args.msgflg x)).length ≤ 1

instance (s : QueueState) (call : QueueCall) : Decidable (OnlyMatch s call) :=
  inferInstanceAs (Decidable (∀ args ∈ fetches s call, _))

/-- Messages of one type leave in the order they were sent. -/
structure TypeOrder (s : QueueState) : Prop extends SendOrder s where
  taken : ∀ d ∈ s.delivered, d.msg.seq < s.sent.length
  queued : ∀ d ∈ s.delivered, ∀ x ∈ s.queue.msgList, d.msg.type = x.type → d.msg.seq < x.seq
  inOrder : s.delivered.Pairwise fun d e => d.msg.type = e.msg.type → d.msg.seq < e.msg.seq

/-- Whether a receive may take a message depends on the type of the message only. -/
theorem matches_of_type_eq {x y : Msg} (h : x.type = y.type) (hx : Matches msgtype msgflg x) :
    Matches msgtype msgflg y := by
  unfold Matches at hx ⊢
  rwa [← h]

/-- The only message a receive may take is alone in its type. -/
theorem type_ne_of_only (horder : SendOrder s) {args : RecvArgs} (htakes : Takes s s' args msg)
    (honly : (s.queue.msgList.filter (fun x => Matches args.msgtype args.msgflg x)).length ≤ 1) :
    ∀ x ∈ s'.queue.msgList, x.type ≠ msg.type := by
  intro x hx htype
  obtain ⟨hmatch, newer, older, hlist, -⟩ := split_of_scan htakes.scan
  rw [htakes.queue, remove_split horder hlist] at hx
  have hxmatch : Matches args.msgtype args.msgflg x := matches_of_type_eq htype.symm hmatch
  have hmem : x ∈ (newer ++ older).filter fun x => Matches args.msgtype args.msgflg x :=
    List.mem_filter.2 ⟨hx, by simpa using hxmatch⟩
  have hpos := List.length_pos_of_mem hmem
  rw [hlist, List.filter_append, List.filter_cons_of_pos (by simpa using hmatch),
    List.length_append, List.length_cons] at honly
  rw [List.filter_append, List.length_append] at hpos
  omega

theorem typeOrder_step (s : QueueState) (call : QueueCall) (s' : QueueState) (h : TypeOrder s)
    (honly : OnlyMatch s call) (hstep : queueStep s call = some s') : TypeOrder s' := by
  have horder' := sendOrder_step s call s' h.toSendOrder trivial hstep
  rcases queueStep_cases hstep with ⟨hq, hs, hd⟩ | ⟨args, hq, hs, hd⟩ | ⟨args, msg, hf, htakes⟩
  · refine ⟨horder', ?_, ?_, ?_⟩
    · rw [hd, hs]; exact h.taken
    · rw [hd, hq]; exact h.queued
    · rw [hd]; exact h.inOrder
  · refine ⟨horder', ?_, ?_, ?_⟩
    · rw [hd, hs, List.length_append]
      exact fun d hmem => Nat.lt_add_right _ (h.taken d hmem)
    · rw [hd, hq]
      intro d hmem x hx htype
      -- a message sent now comes after every one taken before
      rcases List.mem_cons.1 hx with rfl | hx
      · exact h.taken d hmem
      · exact h.queued d hmem x hx htype
    · rw [hd]; exact h.inOrder
  · have hlone := type_ne_of_only h.toSendOrder htakes (honly args hf)
    have hin : msg ∈ s.queue.msgList := by
      obtain ⟨-, newer, older, hlist, -⟩ := split_of_scan htakes.scan
      rw [hlist]
      simp
    have hsub : s'.queue.msgList.Sublist s.queue.msgList := by
      rw [htakes.queue]
      exact List.erase_sublist
    refine ⟨horder', ?_, ?_, ?_⟩
    · rw [htakes.delivered, htakes.sent]
      intro d hmem
      rcases List.mem_append.1 hmem with hmem | hmem
      · exact h.taken d hmem
      · rw [List.mem_singleton.1 hmem]
        exact h.sent msg hin
    · rw [htakes.delivered]
      intro d hmem x hx htype
      rcases List.mem_append.1 hmem with hmem | hmem
      · exact h.queued d hmem x (hsub.mem hx) htype
      · rw [List.mem_singleton.1 hmem] at htype
        exact absurd htype.symm (hlone x hx)
    · rw [htakes.delivered]
      refine List.pairwise_append.2 ⟨h.inOrder, List.pairwise_singleton _ _, ?_⟩
      intro d hmem e he htype
      rw [List.mem_singleton.1 he] at htype ⊢
      exact h.queued d hmem msg hin htype

theorem typeOrder_init : TypeOrder queueInit where
  toSendOrder := sendOrder_init
  taken := fun _ h => absurd h List.not_mem_nil
  queued := fun _ h => absurd h List.not_mem_nil
  inOrder := List.Pairwise.nil

/-- **Delivery order.**  In every run, a receive that takes a message takes the earliest it may
take if and only if it may take no other; if no receive of the run finds two, the messages of
one type are received in the order they were sent. -/
theorem msgQueueRecv_earliest_iff (calls : List QueueCall) (s : QueueState)
    (hrun : Run.exec queueStep queueInit calls = some s) :
    (∀ call s' d, queueStep s call = some s' → s'.delivered = s.delivered ++ [d] →
      (TakesEarliest s s' d ↔
        (s.queue.msgList.filter (fun x => Matches d.args.msgtype d.args.msgflg x)).length ≤ 1)) ∧
    (Run.Along queueStep OnlyMatch queueInit calls →
      s.delivered.Pairwise fun d e => d.msg.type = e.msg.type → d.msg.seq < e.msg.seq) := by
  have horder : SendOrder s := Run.exec_invariant sendOrder_step calls queueInit s sendOrder_init
    (Run.along_of_forall (fun _ _ => trivial) _ _) hrun
  constructor
  · intro call s' d hstep hd
    rcases queueStep_cases hstep with ⟨-, -, hsame⟩ | ⟨-, -, -, hsame⟩ | ⟨args, msg, -, htakes⟩
    · rw [hsame] at hd
      exact absurd (congrArg List.length hd) (by simp)
    · rw [hsame] at hd
      exact absurd (congrArg List.length hd) (by simp)
    · rw [htakes.delivered, List.append_cancel_left_eq, List.cons.injEq] at hd
      obtain ⟨rfl, -⟩ := hd
      exact takesEarliest_iff horder htakes rfl rfl
  · intro honly
    exact (Run.exec_invariant typeOrder_step calls queueInit s typeOrder_init honly hrun).inOrder

end Order

/-- A send of one byte. -/
def oneByte (type : ℤ) (byte : UInt8) : SendArgs := ⟨type, fun _ => byte, 1, 0⟩

/-- A receive into a buffer of zeros. -/
def recvZeros (msgsz : ℕ) (msgtype : ℤ) (msgflg : ℕ) : RecvArgs :=
  ⟨fun _ => 0, msgsz, msgtype, msgflg⟩

/-- Two messages of different types, and the first is received. -/
def twoTypes : List QueueCall :=
  [.send 0 (oneByte 1 7) true, .send 0 (oneByte 2 8) true, .recv 1 (recvZeros 1 1 0)]

theorem msgQueueRecv_earliest_twoTypes : ∃ s, Run.exec queueStep queueInit twoTypes = some s ∧
    s.delivered.length = 1 ∧ s.queue.msgList.length = 1 ∧
    (∀ call s' d, queueStep s call = some s' → s'.delivered = s.delivered ++ [d] →
      (TakesEarliest s s' d ↔
        (s.queue.msgList.filter (fun x => Matches d.args.msgtype d.args.msgflg x)).length ≤ 1)) ∧
    s.delivered.Pairwise fun d e => d.msg.type = e.msg.type → d.msg.seq < e.msg.seq := by
  obtain ⟨s, hs, hlen, hrest⟩ : ∃ s, Run.exec queueStep queueInit twoTypes = some s ∧
      s.delivered.length = 1 ∧ s.queue.msgList.length = 1 := ⟨_, rfl, by decide, by decide⟩
  obtain ⟨hiff, hinOrder⟩ := msgQueueRecv_earliest_iff twoTypes s hs
  exact ⟨s, hs, hlen, hrest, hiff, hinOrder (by decide +kernel)⟩

/-- Two messages of one type: the receive takes the second. -/
theorem msgQueueRecv_not_earliest : ∃ s s' d,
    Run.exec queueStep queueInit [.send 0 (oneByte 1 7) true, .send 0 (oneByte 1 8) true] = some s ∧
    queueStep s (.recv 1 (recvZeros 1 0 0)) = some s' ∧ s'.delivered = s.delivered ++ [d] ∧
    d.msg.seq = 1 ∧ ¬ TakesEarliest s s' d := by
  refine ⟨_, _, _, rfl, rfl, rfl, rfl, ?_⟩
  rintro ⟨-, hearliest, -⟩
  have hle := hearliest ⟨0, 1, [7]⟩ (by decide) (by decide)
  exact absurd hle (by decide)

end Msgq
end LightOS
