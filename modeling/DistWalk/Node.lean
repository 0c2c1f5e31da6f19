import DistWalk.Timeout

/-!
# The connection worker

The event loop of one worker over its tables: forwarding with its quorum and
retries, replies to forwards, execution of the commands of a request, timeouts
and the error path of a connection. Return codes are kept as the source has
them (1 done, 0 needs more time, -1 error for a message; 1 or 0 for a batch);
what ends the process is an `Abort`. The DPDK build is not modelled.

Descriptors handed out by the kernel are fresh. Polling, pipe writes and memory
allocation succeed.
-/

namespace Node

open ByteMemory Message Connection PriorityQueue Worker Timeout

/-- The receive buffer that holds the message of a request. -/
def reqMem (w : State) (slot : Nat) : Mem := (w.conns (w.reqs slot).connId).recvBuf

/-- Write `status` into the message at `m` of a request. -/
def setMsgStatus (w : State) (slot m status : Nat) : State :=
  let c := (w.reqs slot).connId
  w.setConn c { w.conns c with recvBuf := setStatus (w.conns c).recvBuf m status }

/-- A 32-bit word read as `int`. -/
def toInt32 (n : Nat) : Int := (n : Int).bmod (2 ^ 32)

/-! ## System calls -/

/-- The next answer to `send`; without one the bytes are accepted in full. -/
def takeSend (w : State) (c : Nat) : State × IoResult :=
  match w.kernel.sends with
  | [] => (w, .done ((w.conns c).currSendSize + 2 ^ 32))
  | r :: rest => ({ w with kernel := { w.kernel with sends := rest } }, r)

def takeConnect (w : State) : State × ConnectResult :=
  match w.kernel.connects with
  | [] => (w, .inProgress)
  | r :: rest => ({ w with kernel := { w.kernel with connects := rest } }, r)

/-- Whether `SSL_new` and `SSL_set_fd` succeed. -/
def takeSsl (w : State) : State × Bool :=
  match w.kernel.ssl with
  | [] => (w, true)
  | r :: rest => ({ w with kernel := { w.kernel with ssl := rest } }, r)

/-- The answers to one `conn_send_v2`: its `send` calls, then its `sendfile`. -/
def takeSendfile (w : State) : State × List IoResult × IoResult :=
  ({ w with kernel := { w.kernel with headers := w.kernel.headers.tail, files := w.kernel.files.tail } },
    w.kernel.headers.headD [.done messageHeader], w.kernel.files.headD (.done (2 ^ 32)))

/-- `dw_poll_mod` under `sys_check`: a closed descriptor is refused. -/
def pollMod (w : State) (c : Nat) (pollIn pollOut oneshot : Bool) : Except Abort State :=
  let sock := (w.conns c).sock
  if sock = none then .error .sysCheck else .ok (w.emit (.pollMod sock pollIn pollOut oneshot c))

/-- `conn_start_send` on a connection of the table. -/
def startSendOn (w : State) (c : Nat) (target : Addr) : State × Int :=
  let t := if (w.conns c).status.deferred then (w, .wouldBlock) else takeSend w c
  let s := connStartSend (w.conns c) target t.2
  ((t.1.setConn c s.conn).emit (.wire c s.out), s.ret)

/-- `conn_start_sendfile` on a connection of the table. -/
def startSendfileOn (w : State) (c : Nat) (target : Addr) (fd size : Nat) :
    Except Abort (State × Int) :=
  let t := if (w.conns c).status.deferred then (w, [], .wouldBlock) else takeSendfile w
  let s := connStartSendfile w.files (w.conns c) target fd 0 size t.2.1 t.2.2
  match s.1 with
  | none => .error .stuck
  | some sent => .ok ((t.1.setConn c s.2.1).emit (.wire c s.2.2), sent.ret)

/-! ## Forwarding -/

def ackBit (id : Nat) : BitVec 32 := 1#32 <<< (id % 32)

def acked (mask : BitVec 32) (id : Nat) : Bool := mask &&& ackBit id ≠ 0

/-- `conn_enable_ssl` on a connection just allocated. -/
def connEnableSsl (w : State) (c : Nat) : State × Bool :=
  match takeSsl w with
  | (w, false) => (w, false)
  | (w, true) =>
    (w.setConn c { w.conns c with useSsl := true, status := .sslHandshake }, true)

/-- Start the asynchronous `connect()` of a new TCP or TLS forward connection. -/
def connectForward (w : State) (c sock : Nat) (proto : Proto) : State × Option Nat :=
  let w := w.emit (.pollAdd sock c)
  match (if proto = .tls then connEnableSsl w c else (w, true)) with
  | (w, false) => (connFree (w.emit (.closed (some sock))) c, none)
  | (w, true) =>
    match takeConnect w with
    | (w, .failed) => (w, none)
    | (w, .inProgress) =>
      (w.setConn c { w.conns c with
        status := if proto = .tls then .sslHandshake else .connecting }, some c)
    | (w, .done) =>
      if proto = .tls then (w.setConn c { w.conns c with status := .sslHandshake }, some c)
      else
        ({ w.setConn c { w.conns c with status := .ready } with
          activeConns := w.activeConns + 1 }, some c)

/-- A new connection on a new socket. -/
def allocForward (w : State) (fwd : FwdOpts) : State × Option Nat :=
  let sock := w.nextFd
  match connAlloc { w with nextFd := sock + 1 } sock fwd.fwdAddr fwd.proto with
  | (w, none) => (w.emit (.closed (some sock)), none)
  | (w, some c) => (w.setConn c { w.conns c with enableDefrag := w.enableDefrag }, some c)

/-- The connection a FORWARD goes out on: an existing one or a new one. -/
def forwardConn (w : State) (fwd : FwdOpts) : State × Option Nat :=
  match connFindExisting w fwd.fwdAddr fwd.proto with
  | some c => (w, some c)
  | none =>
    match allocForward w fwd with
    | (w', none) => (w', none)
    | (w', some c) =>
      if fwd.proto = .tcp ∨ fwd.proto = .tls then connectForward w' c w.nextFd fwd.proto
      else (w', some c)

/-- Skip the FORWARD_CONTINUEs of a non-branched multi-forward. -/
def skipContinues (mem : Mem) (msgEnd : Nat) : Nat → Option Nat → Option Nat
  | 0, _ => none
  | _ + 1, none => none
  | fuel + 1, some c =>
    if cmdAt mem c = .forwardContinue then
      skipContinues mem msgEnd fuel (cmdBoundedNext mem c msgEnd)
    else some c

/-- Compose the forwarded message at `p` in the send buffer of a connection;
`false` is the NULL of `message_copy_tail`. -/
def fillForward (conn : ConnInfo) (mem : Mem) (m cmd reqId p : Nat) (fwd : FwdOpts) :
    ConnInfo × Bool :=
  let msgEnd := messageEnd mem m
  let tail := skipContinues mem msgEnd (msgEnd + 1) (cmdBoundedNext mem cmd msgEnd)
  let t := messageCopyTail mem m conn.sendBuf p tail
  match t.2 with
  | none => ({ conn with sendBuf := t.1 }, false)
  | some _ => ({ conn with sendBuf := setReqSize (setReqId t.1 p reqId) p fwd.pktSize }, true)

/-- Send the message composed for branch `cmd` on connection `c` and start the
timeout. `none` is the NULL of an error. -/
def sendForward (w : State) (slot m cmd c : Nat) (fwd : FwdOpts) :
    Except Abort (State × Option Nat) :=
  let req := w.reqs slot
  if (w.conns c).sock = none then .error .assertion
  else
    let p := connPrepareSendMessage (w.conns c)
    if reqSizeOf p.1.sendBuf p.2 < fwd.pktSize then .error .assertion
    else
      let f := fillForward p.1 (reqMem w slot) m cmd req.reqId p.2 fwd
      let w := w.setConn c f.1
      if f.2 = false then .ok (w, none)
      else
        let s := startSendOn w c fwd.fwdAddr
        let w := s.1.emit (.forwarded req.reqId fwd.fwdAddr req.ctx)
        if s.2 < 0 then .ok (w, none)
        else if req.fwdTimeout ≠ 0 then
          (insertTimeout w req.reqId req.fwdTimeout).map (·, some cmd)
        else .ok (w, some cmd)

/-- An acknowledged branch is not sent again. -/
def skipAcked (w : State) (slot m cmd : Nat) : Except Abort (State × Option Nat) :=
  let mem := reqMem w slot
  let msgEnd := messageEnd mem m
  match cmdBoundedNextForward mem (some cmd) msgEnd with
  | .error e => .error e
  | .ok next =>
    let shown := next.or (cmdBoundedSkip mem (w.reqs slot).currCmd 1 msgEnd)
    (cmdLog mem msgEnd (msgEnd + 1) shown).map fun _ => (w, shown)

def singleStartForward (w : State) (slot m cmd : Nat) : Except Abort (State × Option Nat) :=
  let mem := reqMem w slot
  let fwd := fwdOpts mem cmd
  let req := w.reqs slot
  match findForwardReplyId mem req.currCmd fwd.fwdAddr (messageEnd mem m) with
  | .error e => .error e
  | .ok none => .ok (w, none)
  | .ok (some id) =>
    if req.fwdRepliesLeft ≠ -1 ∧ acked req.fwdRepliesMask id = true then skipAcked w slot m cmd
    else
      match forwardConn w fwd with
      | (w, none) => .ok (w, none)
      | (w, some c) => sendForward w slot m cmd c fwd

/-- The context is initialised unless one is in progress, which `start_forward`
reads off `fwd_replies_left`; the ghost `ctx` records what is really in progress. -/
def beginContext (w : State) (slot cmd : Nat) : State :=
  let req := w.reqs slot
  let fwd := fwdOpts (reqMem w slot) cmd
  let fresh := req.ctx = none
  let req := { req with ctx := req.ctx.or (some w.nextCtx) }
  let req := if req.fwdRepliesLeft = -1 then
    { req with
      fwdRepliesLeft := fwd.nAck
      fwdRepliesMask := 0
      fwdTimeout := toInt32 fwd.timeout
      fwdRetries := fwd.retries
      fwdOnFailSkip := fwd.onFailSkip } else req
  { w.setReq slot req with nextCtx := if fresh then w.nextCtx + 1 else w.nextCtx }

def sendBranches (slot m : Nat) : Nat → State → Option Nat → Except Abort (State × Bool)
  | 0, w, _ => .ok (w, true)
  | _ + 1, w, none => .ok (w, true)
  | fuel + 1, w, some itr =>
    match singleStartForward w slot m itr with
    | .error e => .error e
    | .ok (w, none) => .ok (w, false)
    | .ok (w, some _) =>
      match cmdBoundedNextForward (reqMem w slot) (some itr) (messageEnd (reqMem w slot) m) with
      | .error e => .error e
      | .ok next => sendBranches slot m fuel w next

/-- `false` is the NULL of an error in at least one branch. -/
def startForward (w : State) (slot m cmd : Nat) : Except Abort (State × Bool) :=
  let w := beginContext w slot cmd
  sendBranches slot m (messageEnd (reqMem w slot) m + 1) w (some cmd)

/-! ## Execution of a request -/

/-- The response in the send buffer: request id, size, EOM and status. -/
def fillReply (conn : ConnInfo) (mem : Mem) (m : Nat) (opts : ReplyOpts) (p : Nat) : ConnInfo :=
  let buf := setReqSize (setReqId conn.sendBuf p (reqIdOf mem m)) p opts.respSize
  let buf := storeU32 buf (messageFirstCmd p) 7
  { conn with sendBuf := setStatus buf p (statusOf mem m), replyMode := opts.mode }

/-- Send the response in the mode the REPLY asks for. -/
def transmitReply (w : State) (slot c : Nat) (opts : ReplyOpts) : Except Abort (State × Int) :=
  match opts.mode with
  | .sendfile => startSendfileOn w c (w.reqs slot).target (w.storageFd opts.devId) opts.respSize
  | _ => .ok (startSendOn w c (w.reqs slot).target)

/-- The request is removed whether or not the response could be sent. -/
def reply (w : State) (slot m cmd : Nat) : Except Abort (State × Int) :=
  let mem := reqMem w slot
  let c := (w.reqs slot).connId
  let opts := replyOpts mem cmd
  let p := connPrepareSendMessage (w.conns c)
  if reqSizeOf p.1.sendBuf p.2 < opts.respSize then .error .assertion
  else
    let w := w.setConn c (fillReply p.1 mem m opts p.2)
    (transmitReply w slot c opts).map fun s =>
      ({ connReqRemove s.1 c slot with activeReqs := s.1.activeReqs - 1 }, s.2)

/-- The REPLY case of `process_single_message`. -/
def processReply (w : State) (slot m cmd : Nat) : Except Abort (State × Int) :=
  let c := (w.reqs slot).connId
  match reply w slot m cmd with
  | .error e => .error e
  | .ok (w, result) =>
    if (w.conns c).status ≠ .close ∧ result = 0 then
      if (w.conns c).status = .sending then (pollMod w c false true true).map (·, 1)
      else (closeAndForget w (w.conns c).sock).map (·, -1)
    else if (w.conns c).status = .sending then (pollMod w c false true true).map (·, 1)
    else .ok (w, 1)

/-- `dev_id` of a STORE or LOAD. -/
def storageDevice (mem : Mem) (cmd : Nat) : Nat :=
  if cmdAt mem cmd = .store then storeDevId mem cmd else loadDevId mem cmd

def setCurrCmd (w : State) (slot : Nat) (cmd : Option Nat) : State :=
  w.setReq slot { w.reqs slot with currCmd := cmd }

/-- The FORWARD cases of `process_single_message`. -/
def processForward (w : State) (slot m cmd : Nat) : Except Abort (State × Int) :=
  (startForward w slot m cmd).map fun s => (s.1, if s.2 then 0 else -1)

/-- The loop of `process_single_message`; `mem` is the buffer of the request's
connection, which no command before the last one changes. -/
def processFrom (mem : Mem) (slot m : Nat) : Nat → State → Option Nat → Except Abort (State × Int)
  | 0, w, _ => .ok (w, 1)
  | _ + 1, w, none => .ok (w, 1)
  | fuel + 1, w, some cmd =>
    let msgEnd := messageEnd mem m
    let continued (w : State) := processFrom mem slot m fuel w (cmdBoundedSkip mem (some cmd) 1 msgEnd)
    match cmdAt mem cmd with
    | .eom => .ok (w, 1)
    | .compute => continued (w.emit (.compute slot (compTimeUs mem cmd)))
    | .forwardBegin => processForward (setCurrCmd w slot (some cmd)) slot m cmd
    | .forwardContinue => processForward w slot m cmd
    | .reply => processReply w slot m cmd
    | .store =>
      if w.storageDevices ≤ storageDevice mem cmd then .ok (w, -1)
      else
        let w := w.emit (.storage (storageDevice mem cmd) (w.reqs slot).reqId)
        if storeWaitSync mem cmd = 0 then continued w
        else .ok (setCurrCmd w slot (cmdBoundedNext mem cmd msgEnd), 0)
    | .load =>
      if w.storageDevices ≤ storageDevice mem cmd then .ok (w, -1)
      else
        let w := w.emit (.storage (storageDevice mem cmd) (w.reqs slot).reqId)
        .ok (setCurrCmd w slot (cmdBoundedNext mem cmd msgEnd), 0)
    | .pskip => .ok (w, 0)
    | .unknown _ => .ok (w, 0)

/-- 1 if executed, 0 if the message needs more time, -1 on an error. -/
def processSingleMessage (w : State) (slot : Nat) : Except Abort (State × Int) :=
  match (w.reqs slot).messagePtr with
  | none => .error .segfault
  | some m =>
    processFrom (reqMem w slot) slot m (messageEnd (reqMem w slot) m + 1) w (w.reqs slot).currCmd

/-- `serialize_request` is never set, so this is the single message. -/
def processMessages (w : State) (slot : Nat) : Except Abort (State × Int) :=
  processSingleMessage w slot

/-! ## Replies to forwards -/

/-- The last acknowledgement: status, next command and the reset of the context. -/
def completeContext (w : State) (slot m status : Nat) : State :=
  let w := setMsgStatus w slot m status
  let mem := reqMem w slot
  let req := w.reqs slot
  w.setReq slot { req with
    currCmd := cmdBoundedSkip mem req.currCmd 1 (messageEnd mem m)
    fwdRepliesMask := 0
    fwdRepliesLeft := -1
    fwdTimeout := 0
    fwdRetries := 0
    ctx := none }

/-- Record the acknowledgement of branch `id`. -/
def countReply (w : State) (slot id : Nat) : State :=
  let req := w.reqs slot
  w.setReq slot { req with
    fwdRepliesMask := req.fwdRepliesMask ||| ackBit id
    fwdRepliesLeft := req.fwdRepliesLeft - 1 }

/-- The context has its last acknowledgement: cancel the timeout and go on. -/
def resumeAfterContext (w : State) (reqId slot m status : Nat) : Except Abort (State × Int) :=
  match removeTimeout (completeContext w slot m status) reqId with
  | .error e => .error e
  | .ok (w, _) => processMessages w slot

def handleForwardReply (w : State) (reqId status : Nat) (matchAddr : Addr) :
    Except Abort (State × Int) :=
  match reqGetById w reqId with
  | none => .ok (w, -1)
  | some slot =>
    match (w.reqs slot).messagePtr with
    | none => .error .segfault
    | some m =>
      let mem := reqMem w slot
      match findForwardReplyId mem (w.reqs slot).currCmd matchAddr (messageEnd mem m) with
      | .error e => .error e
      | .ok none => .ok (w, -1)
      | .ok (some id) =>
        if acked (w.reqs slot).fwdRepliesMask id = true then .ok (w, -1)
        else
          let w := countReply w slot id
          if (w.reqs slot).fwdRepliesLeft ≤ 0 then resumeAfterContext w reqId slot m status
          else .ok (w, -1)

/-! ## Batches of messages -/

/-- Enter a request message of connection `c` into the tables. -/
def enterRequest (w : State) (c m : Nat) : State × Option Nat :=
  match connReqAdd w c with
  | (w, none) => (w, none)
  | (w, some slot) =>
    ({ w with activeReqs := w.activeReqs + 1 }.setReq slot { w.reqs slot with
      messagePtr := some m
      currCmd := some (messageFirstCmd m) }, some slot)

def obtainFrom (c : Nat) : Nat → State → Except Abort (State × Bool)
  | 0, w => .ok (w, true)
  | fuel + 1, w =>
    match connPrepareRecvMessage (w.conns c) with
    | .error e => .error e
    | .ok (none, conn) => .ok (w.setConn c conn, true)
    | .ok (some m, conn) =>
      let w := w.setConn c conn
      if cmdAt conn.recvBuf (messageFirstCmd m) = .eom then
        match handleForwardReply w (reqIdOf conn.recvBuf m) (statusOf conn.recvBuf m) conn.target with
        | .error e => .error e
        | .ok (w, ret) => if ret = 0 then .ok (w, false) else obtainFrom c fuel w
      else
        match enterRequest w c m with
        | (w, none) => .ok (w, false)
        | (w, some slot) =>
          match processSingleMessage w slot with
          | .error e => .error e
          | .ok (w, executed) => if executed < 0 then .ok (w, false) else obtainFrom c fuel w

/-- `false` makes `exec_request` close the connection. Each round consumes a
message, so the bytes received bound the rounds. -/
def obtainMessages (w : State) (c : Nat) : Except Abort (State × Bool) :=
  obtainFrom c ((w.conns c).currRecvBuf + 1) w

/-! ## Timeouts -/

/-- Give up the current context: `on_fail_skip` contexts are skipped. The
acknowledgement fields keep their values. -/
def skipOnFailure (w : State) (slot m : Nat) : State :=
  let mem := reqMem w slot
  let req := w.reqs slot
  let w := w.setReq slot { req with
    currCmd := cmdBoundedSkip mem req.currCmd req.fwdOnFailSkip (messageEnd mem m)
    ctx := none }
  setMsgStatus w slot m statusTimeout

/-- What an expired timeout does to its request. -/
def expireRequest (w : State) (slot : Nat) : Except Abort State :=
  let req := w.reqs slot
  if req.fwdRetries > 0 then
    (processMessages (w.setReq slot { req with fwdRetries := req.fwdRetries - 1 }) slot).map (·.1)
  else
    match req.messagePtr with
    | none => .error .segfault
    | some m =>
      if req.fwdOnFailSkip > 0 then (processMessages (skipOnFailure w slot m) slot).map (·.1)
      else
        let w := connReqRemove (setMsgStatus w slot m statusTimeout) req.connId slot
        .ok { w with activeReqs := w.activeReqs - 1 }

def handleTimeout (w : State) : Except Abort State :=
  match pqueueTop w.timeoutQueue with
  | none => timerfdSettime w (usToIts 0)
  | some top =>
    let reqId := (w.timeoutQueue.nodes top).data
    match reqGetById w reqId with
    | none => timerfdSettime w (usToIts 0)
    | some slot =>
      match removeTimeout w reqId with
      | .error e => .error e
      | .ok (w, _) => expireRequest w slot

/-! ## Events -/

/-- Fail a request that waits on the lost peer. Its timeout is looked up by the
id in its message, which is the sender's. -/
def failRequest (w : State) (c slot m cmd : Nat) : Except Abort State :=
  let mem := reqMem w slot
  match removeTimeout w (reqIdOf mem m) with
  | .error e => .error e
  | .ok (w, _) =>
    let msgEnd := messageEnd mem m
    match seekReply mem msgEnd (msgEnd + 1) (some cmd) with
    | none => closeAndForget w (w.conns c).sock
    | some itr =>
      if cmdInBounds mem itr msgEnd = false ∨ cmdAt mem itr = .eom then
        closeAndForget w (w.conns c).sock
      else
        let w := setMsgStatus (setCurrCmd w slot (some itr)) slot m statusErr
        (processMessages w slot).map (·.1)

/-- Walk the requests of connection `c` up to the first one that waits on `target`. -/
def failWaiting (target : Addr) (c : Nat) : Nat → State → Option Nat → Except Abort State
  | 0, w, _ => .ok w
  | _ + 1, w, none => .ok w
  | fuel + 1, w, some slot =>
    match (w.reqs slot).currCmd with
    | none => .error .segfault
    | some cmd =>
      let fwd := fwdOpts (reqMem w slot) cmd
      if cmdAt (reqMem w slot) cmd = .forwardBegin ∧ fwd.fwdAddr = target then
        if fwd.retries > 0 then .ok w
        else
          match (w.reqs slot).messagePtr with
          | none => .error .segfault
          | some m => failRequest w c slot m cmd
      else if (w.reqs slot).next = (w.conns c).reqList then .ok w
      else failWaiting target c fuel w (w.reqs slot).next

def failPending (target : Addr) : Nat → Nat → State → Except Abort State
  | 0, _, w => .ok w
  | fuel + 1, i, w =>
    if (w.conns i).sock = none then failPending target fuel (i + 1) w
    else
      match failWaiting target i (maxReqs + 1) w (w.conns i).reqList with
      | .error e => .error e
      | .ok w => failPending target fuel (i + 1) w

/-- The error path of `exec_request`. -/
def closeFailed (w : State) (c : Nat) : Except Abort State :=
  let conn := w.conns c
  let w := if conn.proto = .tcp ∧ conn.status = .ready then
    { w with activeConns := w.activeConns - 1 } else w
  match closeAndForget w conn.sock with
  | .error e => .error e
  | .ok w => failPending conn.target maxConns 0 w

inductive Handshake
  | complete
  | inProgress
  | failed
  deriving DecidableEq, Repr

/-- A readiness event and what the kernel answers to the calls made for it. -/
structure Readiness where
  pollIn : Bool
  pollOut : Bool
  pollErr : Bool
  handshake : Handshake
  connectError : Bool
  recv : RecvResult
  flushHeader : List IoResult
  flush : IoResult

/-- Bytes arrive and nothing else is to be done. -/
def received (bytes : List UInt8) : Readiness :=
  ⟨true, false, false, .complete, false, .bytes bytes none, [], .wouldBlock⟩

/-- `false` is the jump to the error path. -/
def establishPhase (w : State) (c : Nat) (type : EventType) (r : Readiness) :
    Except Abort (State × Bool) :=
  if type = .connect then
    if r.connectError then .ok (w, false)
    else
      (pollMod (w.setConn c { w.conns c with status := .ready }) c true false false).map fun w =>
        ({ w with activeConns := w.activeConns + 1 }, true)
  else .ok (w, !r.pollErr)

def recvPhase (w : State) (c : Nat) (r : Readiness) : State × Bool :=
  if r.pollIn then
    let t := connRecv (w.conns c) r.recv
    (w.setConn c t.1, t.2 ≠ 0)
  else (w, true)

def flushPhase (w : State) (c : Nat) (r : Readiness) : Except Abort (State × Bool) :=
  if r.pollOut then
    let s := connFlush w.files (w.conns c) r.flushHeader r.flush
    match s.1 with
    | none => .error .stuck
    | some sent =>
      let w := (w.setConn c s.2.1).emit (.wire c s.2.2)
      if sent.ret < 0 then .ok (w, false)
      else if sent.ret = 0 then (pollMod w c false true true).map (·, true)
      else (pollMod w c true false true).map (·, true)
  else .ok (w, true)

/-- `exec_request` after the handshake. -/
def execReady (w : State) (c : Nat) (type : EventType) (r : Readiness) : Except Abort State :=
  if type = .timer then handleTimeout w
  else if (w.conns c).sock = none ∨ (w.conns c).buffers = false then .ok w
  else
    match establishPhase w c type r with
    | .error e => .error e
    | .ok (w, false) => closeFailed w c
    | .ok (w, true) =>
      match recvPhase w c r with
      | (w, false) => closeFailed w c
      | (w, true) =>
        match flushPhase w c r with
        | .error e => .error e
        | .ok (w, false) => closeFailed w c
        | .ok (w, true) =>
          match obtainMessages w c with
          | .error e => .error e
          | .ok (w, true) => .ok w
          | .ok (w, false) => closeFailed w c

/-- A timer event carries the descriptor of the timer as `conn_id`. -/
def execRequest (w : State) (c : Nat) (type : EventType) (r : Readiness) : Except Abort State :=
  if (w.conns c).status = .sslHandshake then
    match r.handshake with
    | .failed => closeFailed w c
    | .inProgress => .ok w
    | .complete => execReady (w.setConn c { w.conns c with status := .ready }) c type r
  else execReady w c type r

/-- The LISTEN event. -/
def acceptConn (w : State) (addr : Addr) (proto : Proto) : Except Abort State :=
  let sock := w.nextFd
  match connAlloc { w with nextFd := sock + 1 } sock addr proto with
  | (w, none) => closeAndForget w (some sock)
  | (w, some c) =>
    let accepted (w : State) : Except Abort State :=
      .ok ({ w.setConn c { w.conns c with enableDefrag := w.enableDefrag } with
        activeConns := w.activeConns + 1 }.emit (.pollAdd sock c))
    if proto = .tls then
      match connEnableSsl w c with
      | (w, true) => accepted w
      | (w, false) => (closeAndForget w (some sock)).map fun w => connFree w c
    else accepted (w.setConn c { w.conns c with status := .ready })

/-- The STORAGE event: the acknowledged request goes on. -/
def storageAck (w : State) (reqId : Nat) : Except Abort State :=
  match reqGetById w reqId with
  | none => .ok w
  | some slot => (processMessages w slot).map (·.1)

inductive Event
  | accept (addr : Addr) (proto : Proto)
  | ready (c : Nat) (type : EventType) (r : Readiness)
  | storage (reqId : Nat)
  | elapse (ns : Nat)

/-- One round of the loop of `conn_worker`, with the kernel's answers to the
calls it makes. -/
def step (w : State) (kernel : Kernel) (e : Event) : Except Abort State :=
  let w := { w with kernel := kernel }
  match e with
  | .accept addr proto => acceptConn w addr proto
  | .ready c type r => execRequest w c type r
  | .storage reqId => storageAck w reqId
  | .elapse ns => .ok (elapse w ns)

def run (w : State) : List (Kernel × Event) → Except Abort State
  | [] => .ok w
  | (kernel, e) :: rest =>
    match step w kernel e with
    | .error a => .error a
    | .ok w => run w rest

theorem run_cons_ok {w w' : State} {kernel : Kernel} {e : Event} {rest : List (Kernel × Event)}
    (done : run w ((kernel, e) :: rest) = .ok w') : ∃ v, step w kernel e = .ok v ∧ run v rest = .ok w' := by
  simp only [run] at done
  cases taken : step w kernel e with
  | error a =>
    rw [taken] at done
    cases done
  | ok v =>
    rw [taken] at done
    exact ⟨v, rfl, done⟩

end Node
