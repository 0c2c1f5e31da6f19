import DistWalk.Connection

/-!
# The receiver of the client

`thread_receiver` opens a connection for every session, spawns the sender of the
session, reads the replies and closes the session again. What the node sends on the
connection of a session is a list of replies; an answer of the kernel to `conn_recv` says
how many bytes of it have arrived. Timestamps, their output and the DPDK build are left
out, and the attempts to connect are one answer.
-/

namespace ClientReceiver

open ByteMemory Message Connection

/-! ## Receiving -/

/-- The open connection of a session, with what the node sends on it and the client
has not read yet. -/
structure Open where
  sess : Nat
  conn : ConnInfo
  rest : List UInt8

inductive Answer
  | bytes (n : Nat)
  | wouldBlock
  | closed
  | failed
  deriving DecidableEq, Repr

def Answer.result (rest : List UInt8) : Answer → RecvResult
  | .bytes n => .bytes (rest.take n) none
  | .wouldBlock => .wouldBlock
  | .closed => .closed
  | .failed => .failed

/-- `conn_recv` when the kernel gives the answer `a`; what does not fit stays unread. -/
def receive (o : Open) (a : Answer) : Open × Int :=
  let t := connRecv o.conn (a.result o.rest)
  ({ o with conn := t.1, rest := o.rest.drop (t.1.currRecvBuf - o.conn.currRecvBuf) }, t.2)

/-- How one turn of the `do` loop goes on: call `conn_recv` again, look for messages,
jump to `skip`, or give the session up. -/
inductive Turn
  | again (o : Open)
  | ready (o : Open)
  | skip (o : Open)
  | failed (o : Open)

/-- Drop what has arrived of a long REPLY after its first command. `diff` is a `size_t`
that wraps around when the command itself has not arrived in full. -/
def shorten (c : ConnInfo) (next : Nat) : ConnInfo :=
  { c with
    recvBuf := setReqSize c.recvBuf c.currProcBuf
      ((reqSizeOf c.recvBuf c.currProcBuf + next - c.currRecvBuf) % 2 ^ 32)
    currRecvBuf := next
    currRecvSize := (c.currRecvSize + c.currRecvBuf + 2 ^ 64 - next) % 2 ^ 64 }

/-- The check for a long REPLY after a `conn_recv` that returned `recv`. -/
def longReply (o : Open) (recv : Int) : Turn :=
  let c := o.conn
  let msgSize := c.currRecvBuf - c.currProcBuf
  let cmd := messageFirstCmd c.currProcBuf
  if messageHeader < msgSize ∧ cmdAt c.recvBuf cmd = .eom ∧ msgSize < reqSizeOf c.recvBuf c.currProcBuf then
    match cmdBoundedNext c.recvBuf cmd (messageEnd c.recvBuf c.currProcBuf) with
    | none => .skip o
    | some next => .again { o with conn := shorten c next }
  else if recv = -1 then .again o
  else .ready o

def turn (o : Open) (a : Answer) : Turn :=
  let t := receive o a
  if t.2 = 0 then .failed t.1 else longReply t.1 t.2

/-- The `do` loop; `none` while it waits for the next answer. -/
def receiveLoop (o : Open) : List Answer → Option Turn
  | [] => none
  | a :: answers =>
    match turn o a with
    | .again o => receiveLoop o answers
    | t => some t

inductive Verdict
  | success
  | error
  | timedout
  deriving DecidableEq, Repr

def processReply (mem : Mem) (m : Nat) : Verdict :=
  if statusOf mem m ≠ statusSuccess then
    if statusOf mem m = statusErr then .error else .timedout
  else .success

/-- Process every complete reply in the buffer. -/
def processReplies : Nat → ConnInfo → Except Abort (ConnInfo × List Verdict)
  | 0, c => .ok (c, [])
  | fuel + 1, c =>
    match connPrepareRecvMessage c with
    | .error e => .error e
    | .ok (none, c) => .ok (c, [])
    | .ok (some m, c) =>
      (processReplies fuel c).map fun s => (s.1, processReply c.recvBuf m :: s.2)

/-! ## Sessions -/

structure Client where
  numPkts : Nat
  pktsPerSession : Nat
  proto : Proto
  serveraddr : Addr
  replies : Nat → List (List UInt8)

/-- A connection opened for a session or not, and one closed again with its sender
joined; beside it the packets accounted so far. -/
inductive Note
  | opened (sess accounted : Nat)
  | refused (sess accounted : Nat)
  | closed (sess accounted : Nat)
  deriving DecidableEq, Repr

/-- `conn` is none while `conn_id` is -1. -/
structure Receiver where
  numSuccess : Nat
  numError : Nat
  numTimedout : Nat
  iIncr : Nat
  conn : Option Open
  notes : List Note

def Receiver.init : Receiver := ⟨0, 0, 0, 0, none, []⟩

def Receiver.accounted (r : Receiver) : Nat := r.numSuccess + r.numError + r.numTimedout

/-- What happens outside the thread in one round of its loop. -/
structure Input where
  connects : Bool
  handshake : Bool
  sock : Nat
  answers : List Answer

inductive Outcome
  | next (r : Receiver)
  | blocked
  | returned
  | outOfBounds
  | aborted (e : Abort)

/-- The connection of a new session, after `conn_alloc` and the handshake. -/
def openConn (cfg : Client) (sess sock : Nat) : Open where
  sess := sess
  conn := { ConnInfo.init.claim sock cfg.serveraddr cfg.proto 0 with
    status := .ready
    useSsl := decide (cfg.proto = .tls) }
  rest := (cfg.replies sess).flatten

/-- Count a reply. -/
def count (r : Receiver) (v : Verdict) : Receiver :=
  match v with
  | .success => { r with numSuccess := r.numSuccess + 1, iIncr := 1 }
  | .error => { r with numError := r.numError + 1, iIncr := 1 }
  | .timedout => { r with numTimedout := r.numTimedout + 1, iIncr := 1 }

/-- The packets of the session from `pktI` on count as errors. -/
def skipPkts (cfg : Client) (r : Receiver) (pktI : Nat) : Receiver :=
  let skip := cfg.pktsPerSession - pktI % cfg.pktsPerSession
  { r with numError := r.numError + skip, iIncr := skip }

/-- The code at `skip`, with the `pkt_i` of the start of the round. -/
def endSession (cfg : Client) (r : Receiver) (pktI : Nat) : Receiver :=
  if (pktI + r.iIncr) % cfg.pktsPerSession = 0 then
    match r.conn with
    | none => r
    | some o => { r with conn := none, notes := .closed o.sess r.accounted :: r.notes }
  else r

/-- Receive and count. -/
def receiveReplies (cfg : Client) (r : Receiver) (o : Open) (pktI : Nat) (answers : List Answer) :
    Outcome :=
  match receiveLoop o answers with
  | none => .blocked
  | some (.again _) => .blocked
  | some (.failed o) => .next (endSession cfg (skipPkts cfg { r with conn := some o } pktI) pktI)
  | some (.skip o) => .next (endSession cfg { r with conn := some o } pktI)
  | some (.ready o) =>
    match processReplies (o.conn.currRecvBuf + 1) o.conn with
    | .error e => .aborted e
    | .ok (c, verdicts) =>
      .next (endSession cfg (verdicts.foldl count { r with conn := some { o with conn := c } }) pktI)

/-- One round of the loop of `thread_receiver`. -/
def round (cfg : Client) (r : Receiver) (i : Input) : Outcome :=
  let pktI := r.accounted
  let sess := pktI / cfg.pktsPerSession
  if pktI % cfg.pktsPerSession = 0 then
    if i.connects = false then
      .next (endSession cfg
        (skipPkts cfg { r with conn := none, notes := .refused sess pktI :: r.notes } pktI) pktI)
    else if cfg.proto = .tls ∧ i.handshake = false then .returned
    else
      let o := openConn cfg sess i.sock
      receiveReplies cfg { r with conn := some o, notes := .opened sess pktI :: r.notes } o pktI
        i.answers
  else
    match r.conn with
    | none => .outOfBounds
    | some o => receiveReplies cfg r o pktI i.answers

/-- The receivers that rounds lead to, when the rounds meet a condition on the receiver
before them and on what happens outside. -/
inductive Reaches (cfg : Client) (ok : Receiver → Input → Prop) : Receiver → Prop
  | init : Reaches cfg ok .init
  | round {r r' : Receiver} (i : Input) (before : Reaches cfg ok r)
      (more : r.accounted < cfg.numPkts) (meets : ok r i) (done : round cfg r i = .next r') :
      Reaches cfg ok r'

end ClientReceiver
