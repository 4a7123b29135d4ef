import LightOS.Kern.MsgPool
import LightOS.Ipc.PortComm

/-!
# Requests and replies over ports: the model

`ipc/portcomm.c`, `sys_port_comm_request`, `sys_port_comm_receive` and `sys_port_comm_reply`, for
ports that stay bound as they are.  A call is made of its checks, the sections of `msgpool_put` and
`msgpool_try_get` under the mutex of a pool, and the tests for an exception between them.

The state also says which requests were replied to while their task was inside the call, what the
requests returned and what was received; the code does not see this.
-/

namespace LightOS
namespace Port

open Ring Msgpool

/-- `EPERM`. -/
abbrev ePerm : ℤ := 1

/-- `EINTR`. -/
abbrev eIntr : ℤ := 4

/-- `EINVAL`. -/
abbrev eInval : ℤ := 22

/-- `sizeof(port_msg_t)`. -/
abbrev portMsgBytes : ℕ := 4096

/-- `PORT_MSG_HEADER_SIZE`. -/
abbrev portMsgHeaderSize : ℕ := 12

/-! ## Messages -/

/-- A `uint32_t` in memory. -/
def word (mem : ℕ → UInt8) (off : ℕ) : ℕ :=
  (mem off).toNat + 256 * (mem (off + 1)).toNat + 65536 * (mem (off + 2)).toNat +
    16777216 * (mem (off + 3)).toNat

/-- Store a `uint32_t`. -/
def setWord (mem : ℕ → UInt8) (off n : ℕ) : ℕ → UInt8 :=
  memcpy mem off (fun i => UInt8.ofNat (n / 256 ^ i % 256)) 4

/-- `header.port`. -/
def msgPort (msg : ℕ → UInt8) : ℕ := word msg 0

/-- `header.id`. -/
def msgId (msg : ℕ → UInt8) : ℕ := word msg 4

/-- `header.size`. -/
def msgSize (msg : ℕ → UInt8) : ℕ := word msg 8

/-- `msgpool_get_callback`. -/
def msgpoolGetCallback (pool : MsgPool) (buf : ℕ → UInt8) : ℕ → UInt8 :=
  memcpy buf 0 pool.front (min (msgSize pool.front) pool.msgsz)

/-! ## The state -/

/-- The locals of `sys_port_comm_request`: the id, the port of the task, the port it asks, the
message. -/
structure Request where
  id : ℕ
  my : ℕ
  dst : ℕ
  msg : ℕ → UInt8

/-- Where a task is.  A put may have yielded; a get that failed is followed by the test for an
exception. -/
inductive Pc where
  | outside (ret : ℤ)
  | reqPut (req : Request) (yielded : Bool)
  | reqPoll (req : Request)
  | reqCheck (req : Request)
  | recvPoll (p : ℕ) (msg : ℕ → UInt8)
  | recvCheck (p : ℕ) (msg : ℕ → UInt8)
  | replyPut (p : ℕ) (msg : ℕ → UInt8) (yielded : Bool)

/-- The request a task is inside of. -/
def Pc.request : Pc → Option Request
  | .reqPut req _ => some req
  | .reqPoll req => some req
  | .reqCheck req => some req
  | _ => none

/-- A request that returned: the id of what it took from its pool, if anything, and whether it had
been replied to. -/
structure Return where
  id : ℕ
  ret : ℤ
  got : Option ℕ
  answered : Bool
  deriving DecidableEq

/-- The ports, their pools and the tasks.  `exit` says whether `exception_cause_exit` holds. -/
structure CommState where
  ports : PortState
  tasks : List ℕ
  pools : ℕ → Option MsgPool
  nextId : ℕ
  pc : ℕ → Pc
  exit : ℕ → Bool
  answered : ℕ → Bool
  returns : List Return
  received : List (ℕ × (ℕ → UInt8))

/-- Ports as they were bound, with empty pools. -/
def commInit (ports : PortState) (tasks : List ℕ) (mem : ℕ → ℕ → UInt8) : CommState where
  ports := ports
  tasks := tasks
  pools := fun p => (ports.table p).msgpool.bind fun n => msgpoolCreate portMsgBytes n (mem p)
  nextId := 0
  pc := fun _ => .outside 0
  exit := fun _ => false
  answered := fun _ => false
  returns := []
  received := []

/-- A task moves on. -/
def CommState.goto (s : CommState) (t : ℕ) (pc : Pc) : CommState :=
  { s with pc := Function.update s.pc t pc }

/-- Replace the pool of a port. -/
def CommState.setPool (s : CommState) (p : ℕ) (pool : MsgPool) : CommState :=
  { s with pools := Function.update s.pools p (some pool) }

/-- A request returns. -/
def CommState.reqReturn (s : CommState) (t : ℕ) (req : Request) (ret : ℤ) (got : Option ℕ) :
    CommState :=
  { s.goto t (.outside ret) with returns := s.returns ++ [⟨req.id, ret, got, s.answered t⟩] }

/-! ## The calls -/

/-- The start of `sys_port_comm_request`, up to the put. -/
def sysPortCommRequest (s : CommState) (t port : ℕ) (msg : ℕ → UInt8) : CommState :=
  if portCommNr ≤ port then s.goto t (.outside (-eInval))
  else
    match portCommVertify s.ports (-1) t with
    | none => s.goto t (.outside (-ePerm))
    | some my =>
        match portCommFind s.ports port with
        | none => s.goto t (.outside (-ePerm))
        | some dst =>
            if dst = my then s.goto t (.outside (-ePerm))
            else
              let id := s.nextId % 4294967296
              let header := ((s.ports.table my).myPort % 4294967296).toNat
              { s.goto t (.reqPut ⟨id, my, dst, setWord (setWord msg 4 id) 0 header⟩ false) with
                nextId := s.nextId + 1
                answered := Function.update s.answered t false }

/-- The start of `sys_port_comm_receive`. -/
def sysPortCommReceive (s : CommState) (t : ℕ) (port : ℤ) (msg : ℕ → UInt8) : CommState :=
  match portCommVertify s.ports port t with
  | none => s.goto t (.outside (-ePerm))
  | some p =>
      match s.pools p with
      | none => s.goto t (.outside (-ePerm))
      | some _ => s.goto t (.recvPoll p msg)

/-- The start of `sys_port_comm_reply`; `port_comm_i2p` asserts that the port exists. -/
def sysPortCommReply (s : CommState) (t : ℕ) (port : ℤ) (msg : ℕ → UInt8) : Option CommState :=
  if (portCommNr : ℤ) ≤ port then some (s.goto t (.outside (-eInval)))
  else
    match portCommVertify s.ports port t with
    | none => some (s.goto t (.outside (-ePerm)))
    | some _ =>
        if portCommNr ≤ msgPort msg then none
        else
          match s.pools (msgPort msg) with
          | none => some (s.goto t (.outside (-ePerm)))
          | some _ => some (s.goto t (.replyPut (msgPort msg) msg false))

/-- A section of the put of a request. -/
def requestPut (s : CommState) (t : ℕ) (req : Request) (yielded : Bool) : CommState :=
  match s.pools req.dst with
  | none => s.reqReturn t req (-ePerm) none
  | some pool =>
      if msgpoolFull pool ∧ yielded = false then s.goto t (.reqPut req true)
      else (s.setPool req.dst (pool.put req.msg (msgSize req.msg))).goto t (.reqPoll req)

/-- A get of a request, and the test of the id. -/
def requestPoll (s : CommState) (t : ℕ) (req : Request) : CommState :=
  match s.pools req.my with
  | none => s.goto t (.reqCheck req)
  | some pool =>
      if msgpoolEmpty pool then s.goto t (.reqCheck req)
      else
        let id := msgId (pool.copyTo req.msg (some msgpoolGetCallback))
        (s.setPool req.my pool.drop).reqReturn t req (if id ≠ req.id then -ePerm else 0) (some id)

/-- The test for an exception of a request. -/
def requestCheck (s : CommState) (t : ℕ) (req : Request) : CommState :=
  if s.exit t then s.reqReturn t req (-eIntr) none else s.goto t (.reqPoll req)

/-- A get of a receive. -/
def receivePoll (s : CommState) (t p : ℕ) (msg : ℕ → UInt8) : CommState :=
  match s.pools p with
  | none => s.goto t (.recvCheck p msg)
  | some pool =>
      if msgpoolEmpty pool then s.goto t (.recvCheck p msg)
      else
        { (s.setPool p pool.drop).goto t (.outside 0) with
          received := s.received ++ [(t, pool.copyTo msg (some msgpoolGetCallback))] }

/-- The test for an exception of a receive. -/
def receiveCheck (s : CommState) (t p : ℕ) (msg : ℕ → UInt8) : CommState :=
  if s.exit t then s.goto t (.outside (-eIntr)) else s.goto t (.recvPoll p msg)

/-- The task is inside the request with this id, over port `p`. -/
def asks (pc : Pc) (p id : ℕ) : Bool :=
  match pc.request with
  | some req => req.my = p && req.id = id
  | none => false

/-- A section of the put of a reply. -/
def replyPut (s : CommState) (t p : ℕ) (msg : ℕ → UInt8) (yielded : Bool) : CommState :=
  match s.pools p with
  | none => s.goto t (.outside (-1))
  | some pool =>
      if msgpoolFull pool ∧ yielded = false then s.goto t (.replyPut p msg true)
      else
        { (s.setPool p (pool.put msg (msgSize msg))).goto t (.outside 0) with
          answered := fun u => s.answered u || asks (s.pc u) p (msgId msg) }

/-- The calls and steps of the tasks; `signal` is an exception that will cause the task to exit,
`handle` its handling outside the calls. -/
inductive CommCall where
  | request (t port : ℕ) (msg : ℕ → UInt8)
  | receive (t : ℕ) (port : ℤ) (msg : ℕ → UInt8)
  | reply (t : ℕ) (port : ℤ) (msg : ℕ → UInt8)
  | run (t : ℕ)
  | signal (t : ℕ)
  | handle (t : ℕ)

/-- The task that makes the step. -/
def CommCall.task : CommCall → ℕ
  | .request t _ _ => t
  | .receive t _ _ => t
  | .reply t _ _ => t
  | .run t => t
  | .signal t => t
  | .handle t => t

/-- The next section of a task. -/
def commRun (s : CommState) (t : ℕ) : Option CommState :=
  match s.pc t with
  | .outside _ => none
  | .reqPut req yielded => some (requestPut s t req yielded)
  | .reqPoll req => some (requestPoll s t req)
  | .reqCheck req => some (requestCheck s t req)
  | .recvPoll p msg => some (receivePoll s t p msg)
  | .recvCheck p msg => some (receiveCheck s t p msg)
  | .replyPut p msg yielded => some (replyPut s t p msg yielded)

/-- A task outside the calls makes one. -/
def commCall (s : CommState) (t : ℕ) (start : Option CommState) : Option CommState :=
  match s.pc t with
  | .outside _ => start
  | _ => none

/-- One step of a task of the system. -/
def commStep (s : CommState) (call : CommCall) : Option CommState :=
  if call.task ∈ s.tasks then
    match call with
    | .request t port msg => commCall s t (some (sysPortCommRequest s t port msg))
    | .receive t port msg => commCall s t (some (sysPortCommReceive s t port msg))
    | .reply t port msg => commCall s t (sysPortCommReply s t port msg)
    | .run t => commRun s t
    | .signal t => some { s with exit := Function.update s.exit t true }
    | .handle t => commCall s t (some { s with exit := Function.update s.exit t false })
  else none

end Port
end LightOS
