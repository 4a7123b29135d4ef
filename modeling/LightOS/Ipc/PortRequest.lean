import LightOS.Ipc.PortRequestBasic

/-!
# Requests and replies over ports: matching

* `msgId_of_replyWith` — a request that takes a reply from its pool sees the id of the reply.
* `port_matched` — in runs that meet `CommCallOk`, a request that was replied to returns 0 with
  that reply, and no reply becomes the answer of another request.
-/

namespace LightOS
namespace Port

open Ring Msgpool

/-! ## The condition -/

/-- The pool of the port is empty. -/
def PoolEmpty (s : CommState) (p : ℕ) : Prop := ∀ pool ∈ s.pools p, pool.msgcount = 0

/-- The pool of the port has a free slot. -/
def PoolRoom (s : CommState) (p : ℕ) : Prop := ∀ pool ∈ s.pools p, pool.msgcount < pool.msgmaxcnt

/-- A task bound to the port is inside a request. -/
def Requesting (s : CommState) (p : ℕ) : Prop :=
  ∃ u ∈ s.tasks, ∃ req ∈ (s.pc u).request, req.my = p

/-- The request a task has sent and waits for the answer of. -/
def Pc.awaits : Pc → Option Request
  | .reqPoll req => some req
  | .reqCheck req => some req
  | _ => none

/-- A task bound to the port waits for the answer to request `id`. -/
def Asked (s : CommState) (p id : ℕ) : Prop :=
  ∃ u ∈ s.tasks, ∃ req ∈ (s.pc u).awaits, req.my = p ∧ req.id = id

/-- What the next section of a task may do: a request is not put where a request waits for its
answer, nor into a pool that is full after the yield; no request gives up while there is a message
for it; nobody takes a message from a port with a request inside; and a reply goes to a request
that waits for it with an empty pool, or to a port without requests. -/
def RunOk (s : CommState) (t : ℕ) : Pc → Prop
  | .reqPut req yielded => ¬ Requesting s req.dst ∧ (yielded = true → PoolRoom s req.dst)
  | .reqCheck req => s.exit t = true → PoolEmpty s req.my
  | .recvPoll p _ => Requesting s p → PoolEmpty s p
  | .replyPut p msg yielded =>
      ¬ Requesting s p ∧ (yielded = true → PoolRoom s p) ∨
        Asked s p (msgId msg) ∧ portMsgHeaderSize ≤ msgSize msg ∧ PoolEmpty s p
  | _ => True

/-- A request starts with an empty pool and alone on its port. -/
def CommCallOk (s : CommState) : CommCall → Prop
  | .request t _ _ => ∀ my ∈ portCommVertify s.ports (-1) t, PoolEmpty s my ∧ ¬ Requesting s my
  | .run t => RunOk s t (s.pc t)
  | _ => True

instance (s : CommState) : DecidablePred (PoolEmpty s) := fun p =>
  inferInstanceAs (Decidable (∀ pool ∈ s.pools p, pool.msgcount = 0))

instance (s : CommState) : DecidablePred (PoolRoom s) := fun p =>
  inferInstanceAs (Decidable (∀ pool ∈ s.pools p, pool.msgcount < pool.msgmaxcnt))

instance (s : CommState) : DecidablePred (Requesting s) := fun p =>
  inferInstanceAs (Decidable (∃ u ∈ s.tasks, ∃ req ∈ (s.pc u).request, req.my = p))

instance (s : CommState) (p : ℕ) : DecidablePred (Asked s p) := fun id =>
  inferInstanceAs (Decidable (∃ u ∈ s.tasks, ∃ req ∈ (s.pc u).awaits, req.my = p ∧ req.id = id))

instance (s : CommState) (t : ℕ) : DecidablePred (RunOk s t)
  | .outside _ => isTrue trivial
  | .reqPut req yielded =>
      inferInstanceAs (Decidable (¬ Requesting s req.dst ∧ (yielded = true → PoolRoom s req.dst)))
  | .reqPoll _ => isTrue trivial
  | .reqCheck req => inferInstanceAs (Decidable (s.exit t = true → PoolEmpty s req.my))
  | .recvPoll p _ => inferInstanceAs (Decidable (Requesting s p → PoolEmpty s p))
  | .recvCheck _ _ => isTrue trivial
  | .replyPut p msg yielded =>
      inferInstanceAs (Decidable (¬ Requesting s p ∧ (yielded = true → PoolRoom s p) ∨
        Asked s p (msgId msg) ∧ portMsgHeaderSize ≤ msgSize msg ∧ PoolEmpty s p))

instance (s : CommState) : DecidablePred (CommCallOk s)
  | .request t _ _ => inferInstanceAs (Decidable
      (∀ my ∈ portCommVertify s.ports (-1) t, PoolEmpty s my ∧ ¬ Requesting s my))
  | .receive _ _ _ => isTrue trivial
  | .reply _ _ _ => isTrue trivial
  | .run t => inferInstanceAs (Decidable (RunOk s t (s.pc t)))
  | .signal _ => isTrue trivial
  | .handle _ => isTrue trivial

/-! ## The invariant -/

/-- The bytes a put of a reply to request `id` stored. -/
def ReplyWith (m : List UInt8) (id : ℕ) : Prop :=
  ∃ msg : ℕ → UInt8, m = (List.range (min portMsgBytes (msgSize msg))).map msg ∧
    portMsgHeaderSize ≤ msgSize msg ∧ msgId msg = id

/-- The answer to the request is all there is in its pool. -/
def PoolAnswer (s : CommState) (req : Request) : Prop :=
  ∃ pool m, s.pools req.my = some pool ∧ Holds pool [m] ∧ ReplyWith m req.id

/-- A request that was replied to returned 0, and a request took nothing but its own answer. -/
structure ReturnOk (r : Return) : Prop where
  answered : r.answered = true → r.ret = 0
  own : ∀ id, r.got = some id → id = r.id
  got : r.ret = 0 → r.got = some r.id

/-- The invariant: while a task is inside a request, its pool holds the answer or nothing. -/
structure CommInv (s : CommState) : Prop where
  pools : ∀ p pool, s.pools p = some pool → pool.msgsz = portMsgBytes ∧ ∃ queue, Holds pool queue
  tasks : ∀ t req, (s.pc t).request = some req → t ∈ s.tasks
  alone : ∀ t u req req', (s.pc t).request = some req → (s.pc u).request = some req' →
    req.my = req'.my → t = u
  early : ∀ t req yielded, s.pc t = .reqPut req yielded → s.answered t = false
  empty : ∀ t req, (s.pc t).request = some req → s.answered t = false → PoolEmpty s req.my
  answer : ∀ t req, (s.pc t).request = some req → s.answered t = true → PoolAnswer s req
  returns : ∀ r ∈ s.returns, ReturnOk r

section Messages

/-- Words that agree byte by byte are equal. -/
theorem word_congr {mem mem' : ℕ → UInt8} {off : ℕ} (h : ∀ i < 4, mem (off + i) = mem' (off + i)) :
    word mem off = word mem' off := by
  have h0 := h 0 (by omega)
  rw [Nat.add_zero] at h0
  unfold word
  rw [h0, h 1 (by omega), h 2 (by omega), h 3 (by omega)]

/-- A request that takes a reply from its pool sees the id of the reply. -/
theorem msgId_of_replyWith {pool : MsgPool} {m : List UInt8} {id : ℕ}
    (hsz : pool.msgsz = portMsgBytes)
    (hstores : Stores pool.front m) (hreply : ReplyWith m id) (buf : ℕ → UInt8) :
    msgId (pool.copyTo buf (some msgpoolGetCallback)) = id := by
  obtain ⟨msg, rfl, hsize, rfl⟩ := hreply
  have hheader : ∀ i < 12, pool.front i = msg i := by
    intro i hi
    apply stores_iff.1 hstores i (msg i)
    unfold portMsgHeaderSize at hsize
    rw [List.getElem?_map, List.getElem?_range (by unfold portMsgBytes; omega), Option.map_some]
  have hlen : msgSize pool.front = msgSize msg := word_congr fun i hi => hheader (8 + i) (by omega)
  show word (memcpy buf 0 pool.front (min (msgSize pool.front) pool.msgsz)) 4 = word msg 4
  apply word_congr
  intro i hi
  unfold portMsgHeaderSize at hsize
  rw [memcpy_of_mem (Nat.zero_le _) (by rw [hlen, hsz]; unfold portMsgBytes; omega), Nat.sub_zero]
  exact hheader (4 + i) (by omega)

end Messages

section Frames

variable {s : CommState} {t p : ℕ}

@[simp] theorem setPool_self (pool : MsgPool) : (s.setPool p pool).pools p = some pool :=
  Function.update_self ..

theorem setPool_of_ne (pool : MsgPool) {q : ℕ} (h : q ≠ p) :
    (s.setPool p pool).pools q = s.pools q :=
  Function.update_of_ne h ..

@[simp] theorem goto_self (pc : Pc) : (s.goto t pc).pc t = pc := Function.update_self ..

theorem goto_of_ne (pc : Pc) {u : ℕ} (h : u ≠ t) : (s.goto t pc).pc u = s.pc u :=
  Function.update_of_ne h ..

/-- A task bound to a port without requests is inside none. -/
theorem my_ne_of_not_requesting (h : CommInv s) (hnot : ¬ Requesting s p) {u : ℕ} {req : Request}
    (hu : (s.pc u).request = some req) : req.my ≠ p := fun hmy =>
  hnot ⟨u, h.tasks u req hu, req, hu, hmy⟩

/-- A task that waits for an answer is inside its request. -/
theorem request_of_awaits {pc : Pc} {req : Request} (h : pc.awaits = some req) :
    pc.request = some req := by
  cases pc with
  | reqPoll req' => exact h
  | reqCheck req' => exact h
  | outside ret => cases h
  | reqPut req' yielded => cases h
  | recvPoll q msg => cases h
  | recvCheck q msg => cases h
  | replyPut q msg yielded => cases h

/-- The pool of a port without requests may change. -/
theorem commInv_setPool (h : CommInv s) (hnot : ¬ Requesting s p) (pool : MsgPool)
    {queue : List (List UInt8)} (hsz : pool.msgsz = portMsgBytes) (hpool : Holds pool queue) :
    CommInv (s.setPool p pool) := by
  have hsame : ∀ {u : ℕ} {req : Request}, (s.pc u).request = some req →
      (s.setPool p pool).pools req.my = s.pools req.my := fun hu =>
    setPool_of_ne pool (my_ne_of_not_requesting h hnot hu)
  refine ⟨fun q pool' hq => ?_, h.tasks, h.alone, h.early, fun u req hu ha => ?_,
    fun u req hu ha => ?_, h.returns⟩
  · by_cases hqp : q = p
    · subst hqp
      rw [setPool_self, Option.some.injEq] at hq
      subst hq
      exact ⟨hsz, queue, hpool⟩
    · rw [setPool_of_ne pool hqp] at hq
      exact h.pools q pool' hq
  · unfold PoolEmpty
    rw [hsame hu]
    exact h.empty u req hu ha
  · unfold PoolAnswer
    rw [hsame hu]
    exact h.answer u req hu ha

/-- A task moves on within its request, or outside all requests. -/
theorem commInv_goto (h : CommInv s) {pc : Pc}
    (hreq : ∀ req, pc.request = some req → (s.pc t).request = some req)
    (hearly : ∀ req yielded, pc = .reqPut req yielded → s.answered t = false) :
    CommInv (s.goto t pc) := by
  have hold : ∀ {u : ℕ} {req : Request}, ((s.goto t pc).pc u).request = some req →
      (s.pc u).request = some req := by
    intro u req hu
    by_cases hut : u = t
    · subst hut
      rw [goto_self] at hu
      exact hreq req hu
    · rwa [goto_of_ne pc hut] at hu
  refine ⟨h.pools, fun u req hu => h.tasks u req (hold hu),
    fun u v req req' hu hv => h.alone u v req req' (hold hu) (hold hv), fun u req yielded hu => ?_,
    fun u req hu => h.empty u req (hold hu), fun u req hu => h.answer u req (hold hu), h.returns⟩
  by_cases hut : u = t
  · subst hut
    rw [goto_self] at hu
    exact hearly req yielded hu
  · rw [goto_of_ne pc hut] at hu
    exact h.early u req yielded hu

/-- A task leaves its call, or stays outside requests. -/
theorem commInv_leave (h : CommInv s) {pc : Pc} (hpc : pc.request = none) :
    CommInv (s.goto t pc) := by
  refine commInv_goto h (fun req hreq => ?_) (fun req yielded hput => ?_)
  · rw [hpc] at hreq
    cases hreq
  · rw [hput] at hpc
    cases hpc

/-- A request returns. -/
theorem commInv_return (h : CommInv s) {req : Request} {ret : ℤ} {got : Option ℕ}
    (hret : ReturnOk ⟨req.id, ret, got, s.answered t⟩) : CommInv (s.reqReturn t req ret got) := by
  obtain ⟨hpools, htasks, halone, hearly, hempty, hanswer, hreturns⟩ :=
    commInv_leave (t := t) h (show (Pc.outside ret).request = none from rfl)
  refine ⟨hpools, htasks, halone, hearly, hempty, hanswer, fun r hr => ?_⟩
  rcases List.mem_append.1 hr with hr | hr
  · exact hreturns r hr
  · rw [List.mem_singleton.1 hr]
    exact hret

end Frames

/-! ## The steps -/

section Steps

variable {s : CommState} {t p : ℕ}

/-- A request starts, with an empty pool and alone on its port. -/
theorem commInv_enter (h : CommInv s) (ht : t ∈ s.tasks) {req : Request}
    (hpool : PoolEmpty s req.my) (hnot : ¬ Requesting s req.my) (n : ℕ) :
    CommInv { s.goto t (.reqPut req false) with
      nextId := n, answered := Function.update s.answered t false } := by
  -- the requests of the new state: the new one of `t`, and the old ones of the others
  have hcases : ∀ {u : ℕ} {req' : Request},
      ((s.goto t (.reqPut req false)).pc u).request = some req' →
        u = t ∧ req' = req ∨ u ≠ t ∧ (s.pc u).request = some req' := by
    intro u req' hu
    by_cases hut : u = t
    · subst hut
      rw [goto_self, Pc.request, Option.some.injEq] at hu
      exact Or.inl ⟨rfl, hu.symm⟩
    · rw [goto_of_ne _ hut] at hu
      exact Or.inr ⟨hut, hu⟩
  refine ⟨h.pools, fun u req' hu => ?_, fun u v req' req'' hu hv hsame => ?_,
    fun u req' yielded hu => ?_, fun u req' hu ha => ?_, fun u req' hu ha => ?_, h.returns⟩
  · rcases hcases hu with ⟨rfl, -⟩ | ⟨-, hold⟩
    · exact ht
    · exact h.tasks u req' hold
  · rcases hcases hu with ⟨hut, hreq⟩ | ⟨-, hold⟩
    · rcases hcases hv with ⟨hvt, -⟩ | ⟨-, hold'⟩
      · rw [hut, hvt]
      · rw [hreq] at hsame
        exact absurd hsame.symm (my_ne_of_not_requesting h hnot hold')
    · rcases hcases hv with ⟨-, hreq⟩ | ⟨-, hold'⟩
      · rw [hreq] at hsame
        exact absurd hsame (my_ne_of_not_requesting h hnot hold)
      · exact h.alone u v req' req'' hold hold' hsame
  · show Function.update s.answered t false u = false
    by_cases hut : u = t
    · rw [hut, Function.update_self]
    · have hold : (s.goto t (.reqPut req false)).pc u = .reqPut req' yielded := hu
      rw [goto_of_ne _ hut] at hold
      rw [Function.update_of_ne hut]
      exact h.early u req' yielded hold
  · have ha : Function.update s.answered t false u = false := ha
    rcases hcases hu with ⟨-, hreq⟩ | ⟨hut, hold⟩
    · rw [hreq]
      exact hpool
    · rw [Function.update_of_ne hut] at ha
      exact h.empty u req' hold ha
  · have ha : Function.update s.answered t false u = true := ha
    rcases hcases hu with ⟨hut, -⟩ | ⟨hut, hold⟩
    · rw [hut, Function.update_self] at ha
      cases ha
    · rw [Function.update_of_ne hut] at ha
      exact h.answer u req' hold ha

theorem commInv_startRequest (h : CommInv s) (ht : t ∈ s.tasks) {port : ℕ} {msg : ℕ → UInt8}
    (hok : CommCallOk s (.request t port msg)) : CommInv (sysPortCommRequest s t port msg) := by
  unfold sysPortCommRequest
  by_cases hport : portCommNr ≤ port
  · rw [if_pos hport]
    exact commInv_leave h rfl
  rw [if_neg hport]
  cases hvertify : portCommVertify s.ports (-1) t with
  | none => exact commInv_leave h rfl
  | some my =>
      obtain ⟨hpool, hnot⟩ := hok my hvertify
      cases hfind : portCommFind s.ports port with
      | none => exact commInv_leave h rfl
      | some dst =>
          simp only
          split_ifs with hself
          · exact commInv_leave h rfl
          · exact commInv_enter h ht hpool hnot _

theorem commInv_requestPut (h : CommInv s) {req : Request} {yielded : Bool}
    (hpc : s.pc t = .reqPut req yielded) (hok : RunOk s t (.reqPut req yielded)) :
    CommInv (requestPut s t req yielded) := by
  have hearly := h.early t req yielded hpc
  unfold requestPut
  cases hpool : s.pools req.dst with
  | none =>
      refine commInv_return h ⟨fun ha => ?_, fun id hid => ?_, fun hret => ?_⟩
      · rw [show s.answered t = false from hearly] at ha
        cases ha
      · cases hid
      · cases hret
  | some pool =>
      obtain ⟨hnot, hroom⟩ := hok
      obtain ⟨hsz, queue, hholds⟩ := h.pools req.dst pool hpool
      simp only
      split_ifs with hfull
      · refine commInv_goto h (fun req' hreq => ?_) (fun _ _ _ => hearly)
        rw [hpc]
        exact hreq
      · have hlt : pool.msgcount < pool.msgmaxcnt := by
          cases yielded with
          | true => exact hroom rfl pool hpool
          | false => simpa [msgpoolFull] using hfull
        refine commInv_goto (commInv_setPool h hnot (pool.put req.msg (msgSize req.msg)) hsz
          (holds_put hholds hlt _ _)) (fun req' hreq => ?_) (fun _ _ hput => by cases hput)
        show (s.pc t).request = some req'
        rw [hpc]
        exact hreq

/-- **A request that was replied to** takes the reply and returns 0. -/
theorem requestPoll_answered (h : CommInv s) {req : Request} (hin : (s.pc t).request = some req)
    (hanswered : s.answered t = true) : ∃ pool : MsgPool, pool.msgsz = portMsgBytes ∧
      Holds pool.drop [] ∧
      requestPoll s t req = (s.setPool req.my pool.drop).reqReturn t req 0 (some req.id) := by
  obtain ⟨pool, m, hpool, hholds, hreply⟩ := h.answer t req hin hanswered
  obtain ⟨hsz, -⟩ := h.pools req.my pool hpool
  have hsome : 0 < pool.msgcount := by
    obtain ⟨_, hfrom⟩ := hholds
    rw [hfrom.count]
    exact Nat.one_pos
  have hempty : ¬ msgpoolEmpty pool = true := by
    simpa [msgpoolEmpty, Nat.pos_iff_ne_zero] using hsome
  obtain ⟨msg, rest, hqueue, hstores, hdrop⟩ := holds_get hholds hsome
  rw [List.cons.injEq] at hqueue
  obtain ⟨rfl, rfl⟩ := hqueue
  refine ⟨pool, hsz, hdrop, ?_⟩
  unfold requestPoll
  simp only [hpool, if_neg hempty, msgId_of_replyWith hsz hstores hreply req.msg]
  rw [if_neg (not_not.2 rfl)]

/-- After its request returned, no task bound to the port is inside one. -/
theorem not_requesting_return (h : CommInv s) {req : Request} (hin : (s.pc t).request = some req)
    (ret : ℤ) (got : Option ℕ) : ¬ Requesting (s.reqReturn t req ret got) req.my := by
  rintro ⟨u, -, req', hu, hmy⟩
  have hu : ((s.goto t (.outside ret)).pc u).request = some req' := hu
  by_cases hut : u = t
  · rw [hut, goto_self] at hu
    cases hu
  · rw [goto_of_ne _ hut] at hu
    exact hut (h.alone u t req' req hu hin hmy)

theorem commInv_requestPoll (h : CommInv s) {req : Request} (hpc : s.pc t = .reqPoll req) :
    CommInv (requestPoll s t req) := by
  have hin : (s.pc t).request = some req := by
    rw [hpc]
    rfl
  cases hanswered : s.answered t with
  | true =>
      obtain ⟨pool, hsz, hdrop, heq⟩ := requestPoll_answered h hin hanswered
      rw [heq]
      have hreturn : CommInv (s.reqReturn t req 0 (some req.id)) := by
        refine commInv_return h ⟨fun _ => rfl, fun id hid => ?_, fun _ => rfl⟩
        exact (Option.some.inj hid).symm
      exact commInv_setPool hreturn (not_requesting_return h hin 0 (some req.id)) pool.drop hsz
        hdrop
  | false =>
      have hcheck : CommInv (s.goto t (.reqCheck req)) := by
        refine commInv_goto h (fun req' hreq => ?_) (fun _ _ hput => by cases hput)
        rw [hin]
        exact hreq
      unfold requestPoll
      cases hpool : s.pools req.my with
      | none => exact hcheck
      | some pool =>
          have hzero := h.empty t req hin hanswered pool hpool
          simp only [msgpoolEmpty, hzero]
          exact hcheck

theorem commInv_requestCheck (h : CommInv s) {req : Request} (hpc : s.pc t = .reqCheck req)
    (hok : RunOk s t (.reqCheck req)) : CommInv (requestCheck s t req) := by
  have hin : (s.pc t).request = some req := by
    rw [hpc]
    rfl
  unfold requestCheck
  split_ifs with hexit
  · refine commInv_return h ⟨fun hanswered => ?_, fun id hid => ?_, fun hret => ?_⟩
    · -- an answer would be in the pool
      obtain ⟨pool, m, hpool, ⟨_, hfrom⟩, -⟩ := h.answer t req hin hanswered
      have hzero := hok hexit pool hpool
      rw [hfrom.count] at hzero
      cases hzero
    · cases hid
    · cases hret
  · refine commInv_goto h (fun req' hreq => ?_) (fun _ _ hput => by cases hput)
    rw [hin]
    exact hreq

theorem commInv_receivePoll (h : CommInv s) {msg : ℕ → UInt8} (hok : RunOk s t (.recvPoll p msg)) :
    CommInv (receivePoll s t p msg) := by
  unfold receivePoll
  cases hpool : s.pools p with
  | none => exact commInv_leave h rfl
  | some pool =>
      obtain ⟨hsz, queue, hholds⟩ := h.pools p pool hpool
      by_cases hempty : msgpoolEmpty pool = true
      · simp only [if_pos hempty]
        exact commInv_leave h rfl
      · have hsome : 0 < pool.msgcount := by simpa [msgpoolEmpty, Nat.pos_iff_ne_zero] using hempty
        obtain ⟨-, rest, -, -, hdrop⟩ := holds_get hholds hsome
        simp only [if_neg hempty]
        have hquiet : ¬ Requesting s p := fun hin => hsome.ne' (hok hin pool hpool)
        have hgot := commInv_leave (t := t) (commInv_setPool h hquiet pool.drop hsz hdrop)
          (show (Pc.outside 0).request = none from rfl)
        exact ⟨hgot.pools, hgot.tasks, hgot.alone, hgot.early, hgot.empty, hgot.answer,
          hgot.returns⟩

/-- The new pool and the new answers of a reply, apart from the replying task. -/
theorem commInv_replied (h : CommInv s) {pool : MsgPool} {msg : ℕ → UInt8}
    (hpool : s.pools p = some pool)
    (hasked : Asked s p (msgId msg)) (hheader : portMsgHeaderSize ≤ msgSize msg)
    (hzero : pool.msgcount = 0) (hroom : pool.msgcount < pool.msgmaxcnt) :
    CommInv { s.setPool p (pool.put msg (msgSize msg)) with
      answered := fun u => s.answered u || asks (s.pc u) p (msgId msg) } := by
  obtain ⟨u, -, req, hu, hmy, hid⟩ := hasked
  have hin := request_of_awaits hu
  obtain ⟨hsz, queue, hholds⟩ := h.pools p pool hpool
  have hnil : queue = [] := by
    obtain ⟨_, hfrom⟩ := hholds
    exact List.length_eq_zero_iff.1 (hfrom.count.symm.trans hzero)
  have hput := holds_put hholds hroom msg (msgSize msg)
  rw [hnil, List.nil_append, hsz] at hput
  have hasksu : asks (s.pc u) p (msgId msg) = true := by
    unfold asks
    rw [hin]
    simp [hmy, hid]
  -- only `u` is inside a request over this port
  have honly : ∀ v req', (s.pc v).request = some req' → req'.my = p → v = u := fun v req' hv hp =>
    h.alone v u req' req hv hin (hp.trans hmy.symm)
  have hasks : ∀ v req', (s.pc v).request = some req' → req'.my ≠ p →
      asks (s.pc v) p (msgId msg) = false := by
    intro v req' hv hne
    unfold asks
    rw [hv]
    simp [hne]
  refine ⟨fun q pool' hq => ?_, h.tasks, h.alone, fun v req' yielded hv => ?_,
    fun v req' hv ha => ?_, fun v req' hv ha => ?_, h.returns⟩
  · by_cases hqp : q = p
    · have hq : (s.setPool p (pool.put msg (msgSize msg))).pools q = some pool' := hq
      rw [hqp, setPool_self, Option.some.injEq] at hq
      subst hq
      exact ⟨hsz, _, hput⟩
    · have hq : (s.setPool p (pool.put msg (msgSize msg))).pools q = some pool' := hq
      rw [setPool_of_ne _ hqp] at hq
      exact h.pools q pool' hq
  · show (s.answered v || asks (s.pc v) p (msgId msg)) = false
    have hv' : (s.pc v).request = some req' := by
      rw [show s.pc v = .reqPut req' yielded from hv]
      rfl
    rw [h.early v req' yielded hv, Bool.false_or]
    apply hasks v req' hv'
    intro hp
    -- `u` has sent its request already
    rw [honly v req' hv' hp] at hv
    rw [show s.pc u = .reqPut req' yielded from hv] at hu
    cases hu
  · have ha : (s.answered v || asks (s.pc v) p (msgId msg)) = false := ha
    rw [Bool.or_eq_false_iff] at ha
    have hne : req'.my ≠ p := by
      intro hp
      rw [honly v req' hv hp, hasksu] at ha
      cases ha.2
    intro pool' hpool'
    have hpool' : (s.setPool p (pool.put msg (msgSize msg))).pools req'.my = some pool' := hpool'
    rw [setPool_of_ne _ hne] at hpool'
    exact h.empty v req' hv ha.1 pool' hpool'
  · have ha : (s.answered v || asks (s.pc v) p (msgId msg)) = true := ha
    by_cases hp : req'.my = p
    · obtain rfl := honly v req' hv hp
      obtain rfl : req' = req := Option.some.inj (hv.symm.trans hin)
      refine ⟨pool.put msg (msgSize msg), _, ?_, hput, msg, rfl, hheader, hid.symm⟩
      show (s.setPool p (pool.put msg (msgSize msg))).pools req'.my = _
      rw [hmy, setPool_self]
    · rw [hasks v req' hv hp, Bool.or_false] at ha
      obtain ⟨pool', m, hpool', hrest⟩ := h.answer v req' hv ha
      refine ⟨pool', m, ?_, hrest⟩
      show (s.setPool p (pool.put msg (msgSize msg))).pools req'.my = _
      rw [setPool_of_ne _ hp, hpool']

/-- A reply to a port without requests answers nobody. -/
theorem asks_eq_false (h : CommInv s) (hnot : ¬ Requesting s p) (u id : ℕ) :
    asks (s.pc u) p id = false := by
  unfold asks
  cases hu : (s.pc u).request with
  | none => rfl
  | some req => simp [my_ne_of_not_requesting h hnot hu]

theorem commInv_replyPut (h : CommInv s) {msg : ℕ → UInt8} {yielded : Bool}
    (hok : RunOk s t (.replyPut p msg yielded)) : CommInv (replyPut s t p msg yielded) := by
  unfold replyPut
  cases hpool : s.pools p with
  | none => exact commInv_leave h rfl
  | some pool =>
      by_cases hfull : msgpoolFull pool = true ∧ yielded = false
      · simp only [if_pos hfull]
        exact commInv_leave h rfl
      simp only [if_neg hfull]
      have hreplied : CommInv { s.setPool p (pool.put msg (msgSize msg)) with
          answered := fun u => s.answered u || asks (s.pc u) p (msgId msg) } := by
        obtain ⟨hsz, queue, hholds⟩ := h.pools p pool hpool
        rcases hok with ⟨hnot, hroom⟩ | ⟨hasked, hheader, hempty⟩
        · have hlt : pool.msgcount < pool.msgmaxcnt := by
            cases yielded with
            | true => exact hroom rfl pool hpool
            | false => simpa [msgpoolFull] using hfull
          have hsame : (fun u => s.answered u || asks (s.pc u) p (msgId msg)) = s.answered :=
            funext fun u => by rw [asks_eq_false h hnot, Bool.or_false]
          rw [hsame]
          exact commInv_setPool h hnot _ hsz (holds_put hholds hlt _ _)
        · have hzero := hempty pool hpool
          apply commInv_replied h hpool hasked hheader hzero
          obtain ⟨slot, hfrom⟩ := hholds
          rw [hzero]
          exact lt_of_le_of_lt (Nat.zero_le _) hfrom.lt
      exact commInv_leave hreplied rfl

/-- A receive or a reply starts outside requests. -/
theorem commInv_startReceive (h : CommInv s) (port : ℤ) (msg : ℕ → UInt8) :
    CommInv (sysPortCommReceive s t port msg) := by
  unfold sysPortCommReceive
  cases hvertify : portCommVertify s.ports port t with
  | none => exact commInv_leave h rfl
  | some p =>
      simp only
      cases hpool : s.pools p with
      | none => exact commInv_leave h rfl
      | some pool => exact commInv_leave h rfl

theorem commInv_startReply (h : CommInv s) {port : ℤ} {msg : ℕ → UInt8} {s' : CommState}
    (hstart : sysPortCommReply s t port msg = some s') : CommInv s' := by
  unfold sysPortCommReply at hstart
  by_cases hport : (portCommNr : ℤ) ≤ port
  · rw [if_pos hport, Option.some.injEq] at hstart
    rw [← hstart]
    exact commInv_leave h rfl
  rw [if_neg hport] at hstart
  cases hvertify : portCommVertify s.ports port t with
  | none =>
      simp only [hvertify, Option.some.injEq] at hstart
      rw [← hstart]
      exact commInv_leave h rfl
  | some q =>
      simp only [hvertify] at hstart
      split_ifs at hstart
      cases hpool : s.pools (msgPort msg) with
      | none =>
          simp only [hpool, Option.some.injEq] at hstart
          rw [← hstart]
          exact commInv_leave h rfl
      | some pool =>
          simp only [hpool, Option.some.injEq] at hstart
          rw [← hstart]
          exact commInv_leave h rfl

theorem commInv_run (h : CommInv s) (hok : RunOk s t (s.pc t)) {s' : CommState}
    (hrun : commRun s t = some s') : CommInv s' := by
  unfold commRun at hrun
  cases hpc : s.pc t with
  | outside ret =>
      rw [hpc] at hrun
      cases hrun
  | reqPut req yielded =>
      rw [hpc] at hrun hok
      rw [← Option.some.inj hrun]
      exact commInv_requestPut h hpc hok
  | reqPoll req =>
      rw [hpc] at hrun
      rw [← Option.some.inj hrun]
      exact commInv_requestPoll h hpc
  | reqCheck req =>
      rw [hpc] at hrun hok
      rw [← Option.some.inj hrun]
      exact commInv_requestCheck h hpc hok
  | recvPoll p msg =>
      rw [hpc] at hrun hok
      rw [← Option.some.inj hrun]
      exact commInv_receivePoll h hok
  | recvCheck p msg =>
      rw [hpc] at hrun
      rw [← Option.some.inj hrun]
      unfold receiveCheck
      split_ifs
      · exact commInv_leave h rfl
      · exact commInv_leave h rfl
  | replyPut p msg yielded =>
      rw [hpc] at hrun hok
      rw [← Option.some.inj hrun]
      exact commInv_replyPut h hok

/-- A call starts outside the calls. -/
theorem commCall_eq_some {start : Option CommState} {s' : CommState}
    (h : commCall s t start = some s') : start = some s' := by
  unfold commCall at h
  cases hpc : s.pc t with
  | outside ret =>
      rw [hpc] at h
      exact h
  | reqPut req yielded => rw [hpc] at h; cases h
  | reqPoll req => rw [hpc] at h; cases h
  | reqCheck req => rw [hpc] at h; cases h
  | recvPoll p msg => rw [hpc] at h; cases h
  | recvCheck p msg => rw [hpc] at h; cases h
  | replyPut p msg yielded => rw [hpc] at h; cases h

/-- The exceptions are not part of the invariant. -/
theorem commInv_exit (h : CommInv s) (exit : ℕ → Bool) : CommInv { s with exit := exit } :=
  ⟨h.pools, h.tasks, h.alone, h.early, h.empty, h.answer, h.returns⟩

theorem commInv_step (h : CommInv s) {call : CommCall} (hok : CommCallOk s call) {s' : CommState}
    (hstep : commStep s call = some s') : CommInv s' := by
  unfold commStep at hstep
  split_ifs at hstep with htask
  cases call with
  | request t port msg =>
      rw [← Option.some.inj (commCall_eq_some hstep)]
      exact commInv_startRequest h htask hok
  | receive t port msg =>
      rw [← Option.some.inj (commCall_eq_some hstep)]
      exact commInv_startReceive h port msg
  | reply t port msg => exact commInv_startReply h (commCall_eq_some hstep)
  | run t => exact commInv_run h hok hstep
  | signal t =>
      rw [← Option.some.inj hstep]
      exact commInv_exit h _
  | handle t =>
      rw [← Option.some.inj (commCall_eq_some hstep)]
      exact commInv_exit h _

end Steps

/-! ## The start -/

section Init

/-- No pool has more slots than `PORT_MSG_NR`. -/
def PoolSizes (s : PortState) : Prop := ∀ p n, (s.table p).msgpool = some n → n ≤ portMsgNr

variable {s s' : PortState} {p : ℕ}

theorem poolSizes_set (h : PoolSizes s) {port : PortComm}
    (hport : ∀ n, port.msgpool = some n → n ≤ portMsgNr) : PoolSizes (s.set p port) := by
  intro q n hq
  by_cases hqp : q = p
  · rw [hqp, set_table_self] at hq
    exact hport n hq
  · rw [set_table_of_ne port hqp] at hq
    exact h q n hq

theorem poolSizes_free (h : PoolSizes s) : PoolSizes (portCommFree s p) := by
  unfold portCommFree
  split_ifs
  · exact poolSizes_set h (h p)
  · exact h

theorem poolSizes_bind (h : PoolSizes s) (port : ℤ) (cur flags : ℕ) (memOk : Bool) :
    PoolSizes (sysPortCommBind s port cur flags memOk) := by
  unfold sysPortCommBind
  by_cases hport : (portCommNr : ℤ) ≤ port
  · rw [if_pos hport]
    exact h
  rw [if_neg hport]
  cases hbind : _sysPortCommBind s port cur flags with
  | none => exact h
  | some r =>
      obtain ⟨p, s'⟩ := r
      have hs' : PoolSizes s' := by
        rcases _sysPortCommBind_cases (not_le.1 hport) hbind with
          ⟨-, -, rfl⟩ | ⟨-, -, ⟨-, -, -, rfl⟩ | ⟨-, rfl⟩⟩
        · refine poolSizes_set h fun n hn => h p n ?_
          rwa [join_msgpool] at hn
        · refine poolSizes_set h fun n hn => h p n ?_
          rwa [join_msgpool] at hn
        · apply poolSizes_set h
          intro n hn
          rw [join_msgpool] at hn
          cases hn
      simp only
      split_ifs
      · exact hs'
      · exact hs'
      · apply poolSizes_set hs'
        intro n hn
        rw [← Option.some.inj hn]
        decide
      · apply poolSizes_set hs'
        intro n hn
        rw [← Option.some.inj hn]
      · exact poolSizes_free (poolSizes_set hs' fun n hn => by cases hn)

theorem poolSizes_unbind (h : PoolSizes s) (port : ℤ) (cur : ℕ) :
    PoolSizes (sysPortCommUnbind s port cur) := by
  unfold sysPortCommUnbind
  split_ifs
  · exact h
  cases hvertify : portCommVertify s port cur with
  | none => exact h
  | some p =>
      have hdec : PoolSizes (s.set p (s.table p).dec) := poolSizes_set h (h p)
      simp only
      split_ifs
      · exact hdec
      · exact poolSizes_free (poolSizes_set hdec fun n hn => by cases hn)

theorem poolSizes_step (h : PoolSizes s) {call : PortCall} (hstep : portStep s call = some s') :
    PoolSizes s' := by
  cases call with
  | bind task port flags memOk =>
      rw [← Option.some.inj hstep]
      exact poolSizes_bind h port task flags memOk
  | unbind task port =>
      rw [← Option.some.inj hstep]
      exact poolSizes_unbind h port task

theorem commInv_init (h : PoolSizes s) (tasks : List ℕ) (mem : ℕ → ℕ → UInt8) :
    CommInv (commInit s tasks mem) := by
  refine ⟨fun p pool hpool => ?_, ?_, ?_, ?_, ?_, ?_, ?_⟩
  · obtain ⟨n, hn, hcreate⟩ := Option.bind_eq_some_iff.1 hpool
    have hle := h p n hn
    have hmem : n * portMsgBytes < 4294967296 := by
      unfold portMsgNr at hle
      unfold portMsgBytes
      omega
    refine ⟨?_, [], holds_create hmem hcreate⟩
    unfold msgpoolCreate at hcreate
    by_cases hzero : portMsgBytes = 0 ∨ n = 0
    · rw [if_pos hzero] at hcreate
      cases hcreate
    · rw [if_neg hzero] at hcreate
      rw [← Option.some.inj hcreate]
  · intro t req ht
    cases ht
  · intro t u req req' ht
    cases ht
  · intro t req yielded ht
    cases ht
  · intro t req ht
    cases ht
  · intro t req ht
    cases ht
  · intro r hr
    cases hr

end Init

/-! ## Matching -/

/-- Requests and replies match: a request that was replied to while its task was inside it returned
0 with the answer, or returns so with its next look at the pool; and no request took a message that
was not its answer. -/
structure Matched (s : CommState) : Prop where
  returned : ∀ r ∈ s.returns, ReturnOk r
  waiting : ∀ t req, s.pc t = .reqPoll req → s.answered t = true →
    ∃ s', commStep s (.run t) = some s' ∧ s'.pc t = .outside 0 ∧
      s'.returns = s.returns ++ [⟨req.id, 0, some req.id, true⟩]

theorem matched_of_commInv {s : CommState} (h : CommInv s) : Matched s := by
  refine ⟨h.returns, fun t req hpc hanswered => ?_⟩
  have hin : (s.pc t).request = some req := by
    rw [hpc]
    rfl
  obtain ⟨pool, -, -, heq⟩ := requestPoll_answered h hin hanswered
  refine ⟨requestPoll s t req, ?_, ?_, ?_⟩
  · unfold commStep commRun
    rw [if_pos (show (CommCall.run t).task ∈ s.tasks from h.tasks t req hin)]
    simp only [hpc]
  · rw [heq]
    exact goto_self _
  · rw [heq]
    show s.returns ++ [⟨req.id, 0, some req.id, s.answered t⟩] = _
    rw [hanswered]

/-- **Requests and replies match** in every run in which requests start alone on their port with an
empty pool, replies go to requests that wait for them, and no request gives up on an answer. -/
theorem port_matched (binds : List PortCall) (ports : PortState)
    (hbinds : Run.exec portStep portInit binds = some ports) (tasks : List ℕ) (mem : ℕ → ℕ → UInt8)
    (calls : List CommCall) (s : CommState)
    (hok : Run.Along commStep CommCallOk (commInit ports tasks mem) calls)
    (hrun : Run.exec commStep (commInit ports tasks mem) calls = some s) : Matched s := by
  have hsizes : PoolSizes ports := Run.exec_invariant (P := fun _ _ => True)
    (fun _ _ _ h _ hstep => poolSizes_step h hstep) binds portInit ports (fun _ _ h => by cases h)
    (Run.along_of_forall (fun _ _ => trivial) binds portInit) hbinds
  exact matched_of_commInv (Run.exec_invariant (fun _ _ _ h hok hstep => commInv_step h hok hstep)
    calls _ s (commInv_init hsizes tasks mem) hok hrun)

/-- A message of 12 bytes, which is its header. -/
def headerOnly (port id : UInt8) : ℕ → UInt8
  | 0 => port
  | 4 => id
  | 8 => 12
  | _ => 0

/-- Task 0 serves port 0, task 1 has the first of the ports without a name. -/
def clientServer : List PortCall := [.bind 0 0 0 true, .bind 1 (-1) 0 true]

/-- A request that is served while its task polls for the answer. -/
def served : List CommCall :=
  [.request 1 0 (headerOnly 0 0), .run 1, .run 1, .run 1, .receive 0 0 (headerOnly 0 0), .run 0,
    .reply 0 0 (headerOnly 8 0), .run 0, .run 1]

theorem port_matched_served : ∃ ports s, Run.exec portStep portInit clientServer = some ports ∧
    Run.exec commStep (commInit ports [0, 1] fun _ _ => 0) served = some s ∧
    s.returns = [⟨0, 0, some 0, true⟩] ∧ Matched s := by
  obtain ⟨ports, hports, hok, s, hs, hreturns⟩ : ∃ ports,
      Run.exec portStep portInit clientServer = some ports ∧
      Run.Along commStep CommCallOk (commInit ports [0, 1] fun _ _ => 0) served ∧
      ∃ s, Run.exec commStep (commInit ports [0, 1] fun _ _ => 0) served = some s ∧
        s.returns = [⟨0, 0, some 0, true⟩] := ⟨_, rfl, by decide +kernel, _, rfl, by decide +kernel⟩
  exact ⟨ports, s, hports, hs, hreturns, port_matched _ ports hports _ _ _ s hok hs⟩

/-- A request that an exception interrupts is served all the same, and its answer stays in the pool
of the client; the next request takes it. -/
def interrupted : List CommCall :=
  [.request 1 0 (headerOnly 0 0), .run 1, .signal 1, .run 1, .run 1, .receive 0 0 (headerOnly 0 0),
    .run 0, .reply 0 0 (headerOnly 8 0), .run 0, .handle 1, .request 1 0 (headerOnly 0 0), .run 1,
    .run 1]

theorem port_not_matched : ∃ ports s, Run.exec portStep portInit clientServer = some ports ∧
    Run.exec commStep (commInit ports [0, 1] fun _ _ => 0) interrupted = some s ∧
    s.returns = [⟨0, -eIntr, none, false⟩, ⟨1, -ePerm, some 0, false⟩] ∧ ¬ Matched s := by
  obtain ⟨ports, hports, s, hs, hreturns⟩ : ∃ ports,
      Run.exec portStep portInit clientServer = some ports ∧
      ∃ s, Run.exec commStep (commInit ports [0, 1] fun _ _ => 0) interrupted = some s ∧
        s.returns = [⟨0, -eIntr, none, false⟩, ⟨1, -ePerm, some 0, false⟩] :=
    ⟨_, rfl, _, rfl, by decide +kernel⟩
  refine ⟨ports, s, hports, hs, hreturns, fun h => ?_⟩
  have hown := (h.returned ⟨1, -ePerm, some 0, false⟩ (by rw [hreturns]; simp)).own 0 rfl
  cases hown

end Port
end LightOS
