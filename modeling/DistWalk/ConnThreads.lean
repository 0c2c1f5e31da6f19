import DistWalk.EventRuns
import DistWalk.PollTable
import DistWalk.Service
import Mathlib.Tactic.DeriveFintype

/-!
# The threads of the node

A node with several worker threads. They share the tables of connections and requests and
each of them runs from one access to what is shared to the next: a slot of the table of
connections, `last_reqs`, `next_thread_cnt`, the socket pair or the epoll instance of another
worker. A message is executed one command at a time, so that what the threads compute and
send is mixed. Between two such moves any other thread may run. The descriptors that `accept`
returns are any that are free, and a client is known by its place in the order of accepting.
A write to a socket pair takes its four bytes.

The listening sockets are TCP sockets. What a worker does with its timer and for storage,
forwards and partial sends is not part of this. An error closes a connection in one step.
-/

namespace ConnThreads

open ByteMemory Message Connection Worker Node PollBackends PollTable
open SendStream (memOf)
open Segmentation (Request Accepting stream)

/-- `accept_mode_t`. -/
inductive AcceptMode
  | child
  | shared
  | parent
  deriving DecidableEq, Repr

/-- `event_t`. -/
inductive EventKind
  | listen
  | storage
  | timer
  | connect
  | socket
  | dispatch
  | stats
  | termination
  deriving DecidableEq, Repr

def EventKind.code : EventKind → Nat
  | .listen => 0
  | .storage => 1
  | .timer => 2
  | .connect => 3
  | .socket => 4
  | .dispatch => 5
  | .stats => 6
  | .termination => 7

/-- Both arguments are 32 bits wide. -/
def i2l (ln rn : Nat) : Nat := ln % 2 ^ 32 * 2 ^ 32 + rn % 2 ^ 32

def l2i (n : Nat) : Nat × Nat := (n / 2 ^ 32, n % 2 ^ 32)

theorem l2i_i2l {ln rn : Nat} (left : ln < 2 ^ 32) (right : rn < 2 ^ 32) : l2i (i2l ln rn) = (ln, rn) := by
  rw [l2i, i2l, Nat.mod_eq_of_lt left, Nat.mod_eq_of_lt right]
  refine Prod.ext ?_ ?_
  · simp only
    omega
  · simp only
    omega

/-! ## The configuration -/

/-- The descriptors that the node has before the first client connects. -/
inductive Own (threads binds devices : Nat)
  | listen (i : Fin threads) (l : Fin binds)
  | termination
  | timer (i : Fin threads)
  | stat
  | storeReply (i : Fin threads) (d : Fin devices)
  | dispatch (i : Fin threads)
  deriving DecidableEq, Fintype

structure Config where
  threads : Nat
  binds : Nat
  devices : Nat
  acceptMode : AcceptMode
  pollMode : PollType
  bindAddr : Fin binds → Addr
  fd : Own threads binds devices → Nat
  fd_injective : Function.Injective fd
  fd_small : ∀ d, fd d < 2 ^ 31
  fd_select : pollMode = .select → ∀ d, fd d < fdSetsize

/-- A connection, its client and the worker it was given to. -/
structure Assignment (threads : Nat) where
  client : Nat
  conn : Nat
  worker : Fin threads
  deriving DecidableEq

/-- Where a worker stands. `polling` is `dw_poll_next`, `claiming` the loop of `conn_alloc`,
`processing` that of `process_single_message` and `finding` that of `conn_find_sock`. -/
inductive Pc (threads : Nat)
  | polling
  | claiming (fd : Nat) (addr : Addr) (i : Nat)
  | claimed (fd : Nat) (addr : Addr) (c : Nat)
  | assigning (fd c : Nat)
  | handing (fd c : Nat) (t : Fin threads)
  | taking (c : Nat)
  | obtaining (c : Nat)
  | processing (c slot : Nat) (cmd : Option Nat)
  | failing (c : Nat)
  | forgetting (fd : Nat)
  | finding (fd i : Nat)
  | deleting (fd c : Nat)
  | closing (fd : Nat)

/-- What the workers compute and what they send to the clients. -/
inductive Output (threads : Nat)
  | computed (worker : Fin threads) (usecs : Nat)
  | sent (worker : Fin threads) (client : Nat) (bytes : List UInt8)
  deriving DecidableEq

def Output.worker {threads : Nat} : Output threads → Fin threads
  | .computed j _ => j
  | .sent j _ _ => j

structure System (cfg : Config) where
  node : State
  listenSocks : Fin cfg.threads → List Nat
  dwPoll : Fin cfg.threads → DwPoll
  /-- what is in the socket pair of each worker -/
  dispatchFd : Fin cfg.threads → List UInt8
  pc : Fin cfg.threads → Pc cfg.threads
  nextThreadCnt : Int
  /-- the client at the other end of a descriptor -/
  peer : Nat → Option Nat
  clients : Nat
  /-- what a client has sent and nobody has received -/
  flight : Nat → List UInt8
  /-- the connections in the order in which they were assigned -/
  assigned : List (Assignment cfg.threads)
  /-- the connections that the table of their worker had no room for -/
  dropped : List Nat
  outputs : List (Output cfg.threads)

/-- What a `recv` finds. -/
inductive Arrival
  | bytes (n : Nat)
  | wouldBlock
  | closed
  | failed
  deriving DecidableEq, Repr

/-- What the kernel answers to the call that an event leads to. -/
inductive Answer
  | accepts (fd : Nat) (addr : Addr)
  | receives (r : Arrival)
  | reads
  deriving Repr

/-- A worker gets an event on a descriptor, or it runs on. -/
inductive Move
  | event (fd : Nat) (answer : Answer)
  | go (memory : Bool) (kernel : Kernel)

section Steps

variable {cfg : Config} (s : System cfg) (j : Fin cfg.threads)

def goto (pc : Pc cfg.threads) : System cfg := { s with pc := Function.update s.pc j pc }

def setPoll (p : DwPoll) : System cfg := { s with dwPoll := Function.update s.dwPoll j p }

def setPair (bytes : List UInt8) : System cfg := { s with dispatchFd := Function.update s.dispatchFd j bytes }

def setNode (w : State) : System cfg := { s with node := w }

/-! ## Accepting -/

/-- The LISTEN event up to `conn_alloc`. A descriptor is free when it is none of the node's
own and no client's. -/
def acceptEvent (lsock : Nat) : Answer → System cfg
  | .accepts fd addr =>
    if s.peer fd = none ∧ (∀ d, cfg.fd d ≠ fd) ∧ fd < 2 ^ 31 then
      if lsock ∈ s.listenSocks j then
        goto { s with peer := Function.update s.peer fd (some s.clients), clients := s.clients + 1 } j
          (.claiming fd addr 0)
      else { s with clients := s.clients + 1 }
    else s
  | _ => s

/-- One turn of the loop of `conn_alloc`. -/
def claimSlot (fd : Nat) (addr : Addr) (i : Nat) : System cfg :=
  if i < maxConns then
    if (s.node.conns i).busy then goto s j (.claiming fd addr (i + 1))
    else
      goto (setNode s (s.node.setConn i { s.node.conns i with busy := true })) j (.claimed fd addr i)
  else goto s j (.forgetting fd)

/-- The rest of `conn_alloc`, which may get no memory, and the status and the flag that the
worker sets. -/
def fillSlot (memory : Bool) (fd : Nat) (addr : Addr) (c : Nat) : System cfg :=
  if memory then
    let conn := { (s.node.conns c).claim fd addr .tcp j with status := .ready }
    let w := s.node.setConn c { conn with enableDefrag := s.node.enableDefrag }
    goto (setNode s { w with activeConns := w.activeConns + 1 }) j (.assigning fd c)
  else goto s j (.forgetting fd)

/-- `atomic_fetch_add`, and the remainder of a C division. -/
def nextThread : Int × Option (Fin cfg.threads) :=
  let t := s.nextThreadCnt.tmod cfg.threads
  ((s.nextThreadCnt + 1).bmod (2 ^ 32),
    if within : 0 ≤ t ∧ t.toNat < cfg.threads then some ⟨t.toNat, within.2⟩ else none)

def assignThread (fd c : Nat) : Except Abort (System cfg) :=
  let (cnt, t) := if cfg.acceptMode = .parent then nextThread s else (s.nextThreadCnt, some j)
  match t with
  | none => .error .segfault
  | some t =>
    let record := (s.peer fd).toList.map fun k => ⟨k, c, t⟩
    .ok (goto { s with nextThreadCnt := cnt, assigned := s.assigned ++ record } j (.handing fd c t))

/-- `dw_poll_add` on the table of `t`; an error is only reported. -/
def watchSock (t : Fin cfg.threads) (fd c : Nat) : System cfg :=
  let (p, rv) := dwPollAdd (s.dwPoll t) fd dwPollIn (i2l EventKind.socket.code c)
  let s := setPoll s t p
  if rv ≠ 0 then { s with dropped := s.dropped ++ [c] } else s

def handOver (fd c : Nat) (t : Fin cfg.threads) : System cfg :=
  if cfg.acceptMode = .parent ∧ cfg.pollMode ≠ .epoll then
    goto (setPair s t (s.dispatchFd t ++ u32Bytes c)) j .polling
  else goto (watchSock s t fd c) j .polling

/-! ## The DISPATCH event -/

def dispatchEvent : System cfg :=
  let got := (s.dispatchFd j).take 4
  if got = [] then s
  else
    let s := setPair s j ((s.dispatchFd j).drop 4)
    if got.length < 4 then s else goto s j (.taking (u32 (memOf got) 0))

def takeOver (c : Nat) : Except Abort (System cfg) :=
  match (s.node.conns c).sock with
  | none => .error .segfault
  | some fd => .ok (goto (watchSock s j fd c) j .polling)

/-! ## Requests -/

/-- What `recv` gets and what is left in flight. Nothing comes from a client that has
nothing in flight, and only such a client closes. -/
def arrives (conn : ConnInfo) (flight : List UInt8) : Arrival → Option (RecvResult × List UInt8)
  | .bytes n =>
    let got := flight.take (min (n + 1) conn.currRecvSize)
    if flight = [] then none else some (.bytes got none, flight.drop got.length)
  | .wouldBlock => some (.wouldBlock, flight)
  | .closed => if flight = [] then some (.closed, flight) else none
  | .failed => some (.failed, [])

/-- The SOCKET event up to `conn_recv`. -/
def socketEvent (c : Nat) : Answer → System cfg
  | .receives r =>
    let conn := s.node.conns c
    match (if conn.buffers then conn.sock else none).bind s.peer with
    | none => s
    | some k =>
      match arrives conn (s.flight k) r with
      | none => s
      | some (result, rest) =>
        let (conn, rv) := connRecv conn result
        let s := { setNode s (s.node.setConn c conn) with flight := Function.update s.flight k rest }
        goto s j (if rv = 0 then .failing c else .obtaining c)
  | _ => s

/-- What an effect does outside of the tables. -/
def perform (s : System cfg) : Effect → System cfg
  | .compute _ usecs => { s with outputs := s.outputs ++ [.computed j usecs] }
  | .wire c bytes =>
    match (s.node.conns c).sock.bind s.peer with
    | none => s
    | some k => { s with outputs := s.outputs ++ [.sent j k bytes] }
  | .pollDel (some fd) => setPoll s j (dwPollDel (s.dwPoll j) fd).1
  | .closed (some fd) => { s with peer := Function.update s.peer fd none }
  | _ => s

/-- The worker has called a function that changes the tables to `w`. -/
def settle (w : State) : System cfg :=
  w.effects.reverse.foldl (perform j) (setNode s { w with effects := [] })

/-- One turn of the loop of `obtain_messages` up to `process_single_message`. -/
def obtainMessage (c : Nat) : Except Abort (System cfg) :=
  match connPrepareRecvMessage (s.node.conns c) with
  | .error e => .error e
  | .ok (none, conn) => .ok (goto (setNode s (s.node.setConn c conn)) j .polling)
  | .ok (some m, conn) =>
    let w := s.node.setConn c conn
    if cmdAt conn.recvBuf (messageFirstCmd m) = .eom then
      match handleForwardReply w (reqIdOf conn.recvBuf m) (statusOf conn.recvBuf m) conn.target with
      | .error e => .error e
      | .ok (w, ret) => .ok (goto (settle s j w) j (if ret = 0 then .failing c else .obtaining c))
    else
      match enterRequest w c m with
      | (w, none) => .ok (goto (setNode s w) j (.failing c))
      | (w, some slot) => .ok (goto (setNode s w) j (.processing c slot (w.reqs slot).currCmd))

/-- The command behind one that the loop of `process_single_message` may go on from. -/
def nextCommand (mem : Mem) (m : Nat) (cmd : Option Nat) : Option Nat :=
  cmd.bind fun here => match cmdAt mem here with
    | .compute => cmdBoundedSkip mem (some here) 1 (messageEnd mem m)
    | .store => cmdBoundedSkip mem (some here) 1 (messageEnd mem m)
    | _ => none

/-- Where the loop goes on after a turn that has come out with `executed`. -/
def onward (mem : Mem) (m : Nat) (cmd : Option Nat) (executed : Int) : Option Nat :=
  if executed = 1 then nextCommand mem m cmd else none

/-- One turn of the loop of `process_single_message`. -/
def process (kernel : Kernel) (c slot : Nat) (cmd : Option Nat) : Except Abort (System cfg) :=
  match (s.node.reqs slot).messagePtr with
  | none => .error .segfault
  | some m =>
    let mem := reqMem s.node slot
    match processFrom mem slot m 1 { s.node with kernel := kernel } cmd with
    | .error e => .error e
    | .ok (w, executed) =>
      match onward mem m cmd executed with
      | some next => .ok (goto (settle s j w) j (.processing c slot (some next)))
      | none => .ok (goto (settle s j w) j (if executed < 0 then .failing c else .obtaining c))

/-- The error path of `exec_request`. -/
def execError (kernel : Kernel) (c : Nat) : Except Abort (System cfg) :=
  (closeFailed { s.node with kernel := kernel } c).map fun w => goto (settle s j w) j .polling

/-! ## Closing a connection that has no slot -/

def forget (fd : Nat) : System cfg := goto (setPoll s j (dwPollDel (s.dwPoll j) fd).1) j (.finding fd 0)

/-- One turn of the loop of `conn_find_sock`. -/
def findSock (fd i : Nat) : System cfg :=
  if i < maxConns then
    if (s.node.conns i).sock = some fd then goto s j (.deleting fd i) else goto s j (.finding fd (i + 1))
  else goto s j (.closing fd)

def deleteConn (fd c : Nat) : System cfg := goto (setNode s (connDelId s.node c)) j (.closing fd)

def closeSock (fd : Nat) : System cfg := goto { s with peer := Function.update s.peer fd none } j .polling

/-! ## The loop of a worker -/

/-- One event that `dw_poll_next` returns. -/
def takeEvent (answer : Answer) : Nat × Nat → Except Abort (System cfg)
  | (event, data) =>
    if event = EventKind.listen.code then .ok (acceptEvent s j data answer)
    else if event = EventKind.dispatch.code then
      if data = cfg.fd (.dispatch j) then .ok (dispatchEvent s j) else .error .check
    else if event = EventKind.socket.code then .ok (socketEvent s j data answer)
    else .ok s

/-- A worker that has nothing to do in this move stays where it is. -/
def advance : Move → Except Abort (System cfg)
  | .event fd answer =>
    match s.pc j, (s.dwPoll j).watches fd with
    | .polling, some aux => takeEvent s j answer (l2i aux)
    | _, _ => .ok s
  | .go memory kernel =>
    match s.pc j with
    | .polling => .ok s
    | .claiming fd addr i => .ok (claimSlot s j fd addr i)
    | .claimed fd addr c => .ok (fillSlot s j memory fd addr c)
    | .assigning fd c => assignThread s j fd c
    | .handing fd c t => .ok (handOver s j fd c t)
    | .taking c => takeOver s j c
    | .obtaining c => obtainMessage s j c
    | .processing c slot cmd => process s j kernel c slot cmd
    | .failing c => execError s j kernel c
    | .forgetting fd => .ok (forget s j fd)
    | .finding fd i => .ok (findSock s j fd i)
    | .deleting fd c => .ok (deleteConn s j fd c)
    | .closing fd => .ok (closeSock s j fd)

def step (s : System cfg) (m : Fin cfg.threads × Move) : Option (System cfg) := (advance s m.1 m.2).toOption

end Steps

/-- The turns of a message make up the loop of `process_single_message`. -/
theorem processFrom_turn (mem : Mem) (slot m fuel : Nat) (w : State) (cmd : Option Nat) :
    processFrom mem slot m (fuel + 1) w cmd =
      match processFrom mem slot m 1 w cmd with
      | .error e => .error e
      | .ok (w', executed) =>
        match onward mem m cmd executed with
        | some next => processFrom mem slot m fuel w' (some next)
        | none => .ok (w', executed) := by
  cases cmd with
  | none => rfl
  | some here =>
    have behind : ∀ v : State, processFrom mem slot m fuel v (cmdBoundedSkip mem (some here) 1 (messageEnd mem m)) =
        match cmdBoundedSkip mem (some here) 1 (messageEnd mem m) with
        | some next => processFrom mem slot m fuel v (some next)
        | none => .ok (v, 1) := fun v => by
      cases cmdBoundedSkip mem (some here) 1 (messageEnd mem m) with
      | none => cases fuel <;> rfl
      | some next => rfl
    cases type : cmdAt mem here with
    | compute => simp [processFrom, type, onward, nextCommand, behind]
    | store =>
      by_cases device : w.storageDevices ≤ storageDevice mem here
      · simp [processFrom, type, device, onward]
      · by_cases waits : storeWaitSync mem here = 0
        · simp [processFrom, type, device, waits, onward, nextCommand, behind]
        · simp [processFrom, type, device, waits, onward]
    | load =>
      by_cases device : w.storageDevices ≤ storageDevice mem here
      · simp [processFrom, type, device, onward]
      · simp [processFrom, type, device, onward]
    | eom => simp [processFrom, type, onward, nextCommand]
    | pskip => simp [processFrom, type, onward]
    | unknown code => simp [processFrom, type, onward]
    | _ =>
      have stops : ∀ executed, onward mem m (some here) executed = none := fun executed => by
        simp [onward, nextCommand, type]
      simp only [processFrom, type, stops]
      split <;> assumption

/-! ## The start -/

/-- The tables and the listening sockets while `main` sets them up. -/
structure Boot (cfg : Config) where
  node : State
  listenSocks : Fin cfg.threads → List Nat

section Start

variable {cfg : Config}

def initListenSock (b : Boot cfg) : Fin cfg.binds × Fin cfg.threads → Except Abort (Boot cfg)
  | (l, i) =>
    if cfg.acceptMode = .child ∨ i.val = 0 then
      let lsock := cfg.fd (.listen i l)
      match connAlloc b.node lsock (cfg.bindAddr l) .tcp with
      | (_, none) => .error .check
      | (w, some c) =>
        let conn := { w.conns c with status := .ready, enableDefrag := w.enableDefrag, isListen := true }
        .ok ⟨w.setConn c conn, Function.update b.listenSocks i (b.listenSocks i ++ [lsock])⟩
    else if cfg.acceptMode = .shared then
      .ok { b with listenSocks := Function.update b.listenSocks i (b.listenSocks ⟨0, i.pos⟩) }
    else .ok { b with listenSocks := Function.update b.listenSocks i [] }

variable (cfg)

/-- For each address and each worker, in the order of the loops of `main`. -/
def bindings : List (Fin cfg.binds × Fin cfg.threads) :=
  (List.finRange cfg.binds).flatMap fun l => (List.finRange cfg.threads).map fun i => (l, i)

def bindAll (storageFd : Nat → Nat) (files : Nat → Mem) : Except Abort (Boot cfg) :=
  (bindings cfg).foldlM initListenSock ⟨State.init cfg.devices storageFd files true, fun _ => []⟩

/-- What `conn_worker` adds to its table before its loop. -/
def watchList (listenSocks : List Nat) (i : Fin cfg.threads) : List (Nat × EventKind) :=
  (if cfg.acceptMode ≠ .parent ∨ i.val = 0 then listenSocks.map (·, .listen) else []) ++
    [(cfg.fd .termination, .termination), (cfg.fd (.timer i), .timer)] ++
    (if i.val = 0 then [(cfg.fd .stat, .stats)] else []) ++
    (List.finRange cfg.devices).map (fun d => (cfg.fd (.storeReply i d), .storage)) ++
    (if cfg.acceptMode = .parent then [(cfg.fd (.dispatch i), .dispatch)] else [])

/-- The aux value of one of them is the event and the descriptor itself. -/
def addAll : DwPoll → List (Nat × EventKind) → Except Abort DwPoll
  | p, [] => .ok p
  | p, (fd, event) :: rest =>
    match dwPollAdd p fd dwPollIn (i2l event.code fd) with
    | (p, rv) => if rv = 0 then addAll p rest else .error .check

def watchAll (listenSocks : Fin cfg.threads → List Nat) :
    List (Fin cfg.threads) → Except Abort (Fin cfg.threads → DwPoll)
  | [] => .ok fun _ => dwPollInit cfg.pollMode
  | i :: rest =>
    match addAll (dwPollInit cfg.pollMode) (watchList cfg (listenSocks i) i), watchAll listenSocks rest with
    | .ok p, .ok polls => .ok (Function.update polls i p)
    | .error e, _ => .error e
    | _, .error e => .error e

/-- The workers before the first client connects; client `k` will send `sent k`. -/
def start (storageFd : Nat → Nat) (files : Nat → Mem) (sent : Nat → List Request) : Except Abort (System cfg) :=
  match bindAll cfg storageFd files with
  | .error e => .error e
  | .ok b => (watchAll cfg b.listenSocks (List.finRange cfg.threads)).map fun polls => {
      node := b.node
      listenSocks := b.listenSocks
      dwPoll := polls
      dispatchFd := fun _ => []
      pc := fun _ => .polling
      nextThreadCnt := 0
      peer := fun _ => none
      clients := 0
      flight := fun k => stream (sent k)
      assigned := []
      dropped := []
      outputs := [] }

end Start

end ConnThreads
