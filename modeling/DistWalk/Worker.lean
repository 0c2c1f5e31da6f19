import DistWalk.Connection
import DistWalk.PriorityQueue

/-!
# State of a connection worker

The tables `reqs[]` and `conns[]`, the fields of `conn_worker_info_t` and the
operations that keep the tables: allocation and release of requests, the
doubly linked request list of a connection, removal with defragmentation, and
lookup, allocation and deletion of connections. The node runs one connection
worker; `serialize_request` is 0 in every state (its only assignment writes 0)
and is left out.

Pointers to requests and connections are indices, NULL and -1 are `none`. A
`message_ptr` and a `curr_cmd` are offsets into `recv_buf` of the request's
connection. The kernel's answers to the system calls of one event are lists
consumed in call order; what the worker does to the outside is recorded in
`effects`, newest first. `ctx`, `nextCtx` and `clock` are ghost: they number the
FORWARD contexts a request starts and keep the true time, and no decision reads
them.
-/

namespace Worker

open ByteMemory Message Connection PriorityQueue

def maxConns : Nat := 8192
def maxReqs : Nat := 65536

/-- The `req_id` -1 of an unused slot, as the 32-bit word it is. -/
def noReq : Nat := 4294967295

structure ReqInfo where
  reqId : Nat
  connId : Nat
  target : Addr
  fwdRepliesLeft : Int
  fwdRepliesMask : BitVec 32
  fwdRetries : Int
  fwdTimeout : Int
  fwdOnFailSkip : Int
  messagePtr : Option Nat
  currCmd : Option Nat
  timeoutNode : Option Nat
  prev : Option Nat
  next : Option Nat
  ctx : Option Nat

def ReqInfo.init : ReqInfo where
  reqId := noReq
  connId := 0
  target := []
  fwdRepliesLeft := 0
  fwdRepliesMask := 0
  fwdRetries := 0
  fwdTimeout := 0
  fwdOnFailSkip := 0
  messagePtr := none
  currCmd := none
  timeoutNode := none
  prev := none
  next := none
  ctx := none

/-- A one-shot timerfd, in nanoseconds: the value of the last
`timerfd_settime`, what is left of it, and (ghost) the queue's top at that call. -/
structure Timer where
  value : Nat
  left : Nat
  owner : Option Nat

/-- The true time and the deadline of each queued node, in nanoseconds. -/
structure Clock where
  now : Int
  deadline : Nat → Int

inductive EventType
  | socket
  | connect
  | timer
  deriving DecidableEq, Repr

/-- What the worker does to the outside. -/
inductive Effect
  | compute (slot usecs : Nat)
  | wire (connId : Nat) (bytes : List UInt8)
  | forwarded (reqId : Nat) (addr : Addr) (ctx : Option Nat)
  | storage (devId reqId : Nat)
  | pollAdd (sock : Nat) (connId : Nat)
  | pollMod (sock : Option Nat) (pollIn pollOut oneshot : Bool) (connId : Nat)
  | pollDel (sock : Option Nat)
  | closed (sock : Option Nat)
  deriving DecidableEq, Repr

inductive ConnectResult
  | done
  | inProgress
  | failed
  deriving DecidableEq, Repr

/-- Answers of the kernel to the system calls of one event, in call order. -/
structure Kernel where
  sends : List IoResult
  headers : List (List IoResult)
  files : List IoResult
  connects : List ConnectResult
  ssl : List Bool

/-- No answer given: every call is answered as when nothing stands in its way. -/
def Kernel.silent : Kernel := ⟨[], [], [], [], []⟩

structure State where
  conns : Nat → ConnInfo
  reqs : Nat → ReqInfo
  lastReqs : Nat
  timeoutQueue : PQueue
  timeElapsed : Int
  timer : Timer
  clock : Clock
  activeConns : Int
  activeReqs : Int
  storageDevices : Nat
  storageFd : Nat → Nat
  files : Nat → Mem
  enableDefrag : Bool
  thread : Nat
  nextFd : Nat
  kernel : Kernel
  effects : List Effect
  nextCtx : Nat

def State.init (storageDevices : Nat) (storageFd : Nat → Nat) (files : Nat → Mem)
    (enableDefrag : Bool) : State where
  conns := fun _ => .init
  reqs := fun _ => .init
  lastReqs := 0
  timeoutQueue := pqueueAlloc maxReqs
  timeElapsed := 0
  timer := ⟨0, 0, none⟩
  clock := ⟨0, fun _ => 0⟩
  activeConns := 0
  activeReqs := 0
  storageDevices := storageDevices
  storageFd := storageFd
  files := files
  enableDefrag := enableDefrag
  thread := 0
  nextFd := 3
  kernel := .silent
  effects := []
  nextCtx := 0

def State.setConn (w : State) (c : Nat) (conn : ConnInfo) : State :=
  { w with conns := Function.update w.conns c conn }

def State.setReq (w : State) (slot : Nat) (req : ReqInfo) : State :=
  { w with reqs := Function.update w.reqs slot req }

def State.emit (w : State) (e : Effect) : State := { w with effects := e :: w.effects }

/-! ## Requests -/

/-- `req_id % MAX_REQS`. -/
def slotOf (reqId : Nat) : Nat := reqId % maxReqs

def reqAlloc (w : State) : State × Option Nat :=
  let reqId := w.lastReqs
  let w := { w with lastReqs := (reqId + 1) % 2 ^ 32 }
  let r := w.reqs (slotOf reqId)
  if r.reqId ≠ noReq then (w, none)
  else
    (w.setReq (slotOf reqId) { r with
      reqId := reqId
      currCmd := none
      fwdRepliesLeft := -1
      next := none
      prev := none
      ctx := none }, some (slotOf reqId))

def reqGetById (w : State) (reqId : Nat) : Option Nat :=
  if (w.reqs (slotOf reqId)).reqId ≠ reqId then none else some (slotOf reqId)

/-- Set the `prev` of a request that may be NULL. -/
def setPrev (w : State) (slot : Option Nat) (prev : Option Nat) : State :=
  match slot with
  | none => w
  | some s => w.setReq s { w.reqs s with prev := prev }

def setNext (w : State) (slot : Option Nat) (next : Option Nat) : State :=
  match slot with
  | none => w
  | some s => w.setReq s { w.reqs s with next := next }

/-- Unlink a request and return its old `next`. `timeout_node` is not touched. -/
def reqUnlink (w : State) (slot : Nat) : State × Option Nat :=
  let next := (w.reqs slot).next
  let prev := (w.reqs slot).prev
  let w := setPrev w next prev
  let w := setNext w prev next
  (w.setReq slot { w.reqs slot with next := none, prev := none, reqId := noReq, messagePtr := none },
    next)

def connReqAdd (w : State) (c : Nat) : State × Option Nat :=
  match reqAlloc w with
  | (w, none) => (w, none)
  | (w, some slot) =>
    let w := w.setReq slot { w.reqs slot with
      connId := c
      target := (w.conns c).target
      next := (w.conns c).reqList }
    let w := setPrev w (w.reqs slot).next (some slot)
    (w.setConn c { w.conns c with reqList := some slot }, some slot)

/-- Unlink the whole request list of a connection; `req_list` itself is kept. -/
def connResetFrom : Nat → State → Option Nat → State
  | 0, w, _ => w
  | _ + 1, w, none => w
  | fuel + 1, w, some slot => connResetFrom fuel (reqUnlink w slot).1 (reqUnlink w slot).2

def connReset (w : State) (c : Nat) : State :=
  connResetFrom (maxReqs + 1) w (w.conns c).reqList

/-- The requests newer than the removed one move down with their messages. -/
def shiftNewer (size : Nat) : Nat → State → Option Nat → State
  | 0, w, _ => w
  | _ + 1, w, none => w
  | fuel + 1, w, some slot =>
    let r := w.reqs slot
    let w := w.setReq slot { r with
      messagePtr := r.messagePtr.map (· - size)
      currCmd := r.currCmd.map (· - size) }
    shiftNewer size fuel w r.prev

/-- Close the gap of `req_size` bytes that the message at `p` leaves. -/
def defragment (conn : ConnInfo) (p size : Nat) : ConnInfo :=
  let leftover := conn.currRecvBuf - (p + size)
  { conn with
    recvBuf := store conn.recvBuf p (slice conn.recvBuf (p + size) leftover)
    currRecvBuf := conn.currRecvBuf - size
    currProcBuf := conn.currProcBuf - size
    currRecvSize := conn.currRecvSize + size }

/-- Give the bytes of a request's message back to the receive buffer. -/
def reclaim (w : State) (c slot : Nat) : State :=
  match (w.reqs slot).messagePtr with
  | none => w
  | some p =>
    if (w.conns c).enableDefrag ∧ p < bufSize then
      let size := reqSizeOf (w.conns c).recvBuf p
      shiftNewer size (maxReqs + 1) (w.setConn c (defragment (w.conns c) p size))
        (w.reqs slot).prev
    else w

/-- Move `req_list` past its head. -/
def dropHead (w : State) (c slot : Nat) : State :=
  if (w.conns c).reqList = some slot then
    w.setConn c { w.conns c with reqList := (w.reqs slot).next }
  else w

def connReqRemove (w : State) (c slot : Nat) : State :=
  (reqUnlink (dropHead (reclaim w c slot) c slot) slot).1

/-! ## Connections -/

/-- First index below the limit that satisfies `p`, in the order of the source's loops. -/
def findIndex (p : Nat → Bool) : Nat → Nat → Option Nat
  | 0, _ => none
  | fuel + 1, i => if p i then some i else findIndex p fuel (i + 1)

/-- A UDP search takes any connection of the calling thread; TLS never matches. -/
def reusable (w : State) (target : Addr) (proto : Proto) (i : Nat) : Bool :=
  let conn := w.conns i
  if proto = .dpdk ∧ conn.proto = .dpdk ∧ conn.parentThread = w.thread then true
  else if conn.sock = none then false
  else if conn.isListen then false
  else if proto = .udp ∧ conn.parentThread = w.thread then true
  else decide (proto = .tcp ∧ conn.target = target ∧ conn.proto = proto)

def connFindExisting (w : State) (target : Addr) (proto : Proto) : Option Nat :=
  findIndex (reusable w target proto) maxConns 0

def connFindSock (w : State) (sock : Option Nat) : Except Abort (Option Nat) :=
  match sock with
  | none => .error .noSocket
  | some _ => .ok (findIndex (fun i => (w.conns i).sock = sock) maxConns 0)

/-- Reset the requests and forget the socket. The slot stays busy. -/
def connDelId (w : State) (c : Nat) : State :=
  let w := connReset w c
  w.setConn c { w.conns c with sock := none }

def connDelSock (w : State) (sock : Option Nat) : Except Abort State :=
  match connFindSock w sock with
  | .error e => .error e
  | .ok none => .ok w
  | .ok (some c) => .ok (connDelId w c)

def connAlloc (w : State) (sock : Nat) (target : Addr) (proto : Proto) : State × Option Nat :=
  match findIndex (fun i => !(w.conns i).busy) maxConns 0 with
  | none => (w, none)
  | some c => (w.setConn c ((w.conns c).claim sock target proto w.thread), some c)

/-- `req_list` keeps its value here too. -/
def connFree (w : State) (c : Nat) : State :=
  let w := connReset w c
  w.setConn c { w.conns c with buffers := false, status := .close, sock := none, busy := false }

def closeAndForget (w : State) (sock : Option Nat) : Except Abort State :=
  match connDelSock (w.emit (.pollDel sock)) sock with
  | .error e => .error e
  | .ok w => .ok (w.emit (.closed sock))

end Worker
