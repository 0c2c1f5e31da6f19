import DistWalk.Transitions

/-!
# The calls of a run

For each function of the worker, the calls that it makes on the way: a request enters,
a context begins, is acknowledged, retried or skipped, a timeout is queued or removed, a
request is released, the requests of a connection are. Each comes with the state in which
it is made, so that a condition on the calls of a run can be evaluated, and a run whose
calls meet a condition is one of the conditional runs of `Reaches`.
-/

namespace Transitions

open ByteMemory Message Connection PriorityQueue Worker Timeout Node Requests CallTraces

/-- The calls behind one that may end the process. -/
def behind {α : Type} : Except Abort α → (α → Calls) → Calls
  | .ok a, calls => calls a
  | .error _, _ => []

/-! ## Connections -/

def closeAndForgetCalls (w : State) (sock : Option Nat) : Calls :=
  behind (connFindSock (w.emit (.pollDel sock)) sock) fun
    | none => []
    | some c => [(w.emit (.pollDel sock), .reset c)]

/-- A slot that is given up within the call that claims it is followed as if it had never been
claimed. -/
def connectForwardCalls (w : State) (c sock : Nat) (proto : Proto) : Calls :=
  let w := w.emit (.pollAdd sock c)
  match (if proto = .tls then connEnableSsl w c else (w, true)) with
  | (w, false) => [(hide (w.emit (.closed (some sock))) c, .reset c)]
  | (_, true) => []

def forwardConnCalls (w : State) (fwd : FwdOpts) : Calls :=
  match connFindExisting w fwd.fwdAddr fwd.proto with
  | some _ => []
  | none =>
    match allocForward w fwd with
    | (_, none) => []
    | (w', some c) =>
      if fwd.proto = .tcp ∨ fwd.proto = .tls then connectForwardCalls w' c w.nextFd fwd.proto else []

/-! ## Forwarding -/

def sendForwardCalls (w : State) (slot m cmd c : Nat) (fwd : FwdOpts) : Calls :=
  let req := w.reqs slot
  let p := connPrepareSendMessage (w.conns c)
  let f := fillForward p.1 (reqMem w slot) m cmd req.reqId p.2 fwd
  let w := w.setConn c f.1
  if f.2 = false then []
  else
    let s := startSendOn w c fwd.fwdAddr
    let w := s.1.emit (.forwarded req.reqId fwd.fwdAddr req.ctx)
    if s.2 < 0 then []
    else if req.fwdTimeout ≠ 0 then [(w, .insert req.reqId req.fwdTimeout)]
    else []

def singleStartForwardCalls (w : State) (slot m cmd : Nat) : Calls :=
  let mem := reqMem w slot
  let fwd := fwdOpts mem cmd
  let req := w.reqs slot
  match findForwardReplyId mem req.currCmd fwd.fwdAddr (messageEnd mem m) with
  | .error _ => []
  | .ok none => []
  | .ok (some id) =>
    if req.fwdRepliesLeft ≠ -1 ∧ acked req.fwdRepliesMask id = true then []
    else
      forwardConnCalls w fwd ++
        match forwardConn w fwd with
        | (_, none) => []
        | (w, some c) => sendForwardCalls w slot m cmd c fwd

def sendBranchesCalls (slot m : Nat) : Nat → State → Option Nat → Calls
  | 0, _, _ => []
  | _ + 1, _, none => []
  | fuel + 1, w, some itr =>
    singleStartForwardCalls w slot m itr ++
      behind (singleStartForward w slot m itr) fun
        | (_, none) => []
        | (w, some _) =>
          behind (cmdBoundedNextForward (reqMem w slot) (some itr) (messageEnd (reqMem w slot) m)) fun next =>
            sendBranchesCalls slot m fuel w next

def startForwardCalls (w : State) (slot m cmd : Nat) : Calls :=
  (w, .begin slot cmd) ::
    let w := beginContext w slot cmd
    sendBranchesCalls slot m (messageEnd (reqMem w slot) m + 1) w (some cmd)

/-! ## Execution of a request -/

def replyCalls (w : State) (slot m cmd : Nat) : Calls :=
  let mem := reqMem w slot
  let c := (w.reqs slot).connId
  let opts := replyOpts mem cmd
  let p := connPrepareSendMessage (w.conns c)
  let w := w.setConn c (fillReply p.1 mem m opts p.2)
  behind (transmitReply w slot c opts) fun s => [(s.1, .release c slot)]

def processReplyCalls (w : State) (slot m cmd : Nat) : Calls :=
  let c := (w.reqs slot).connId
  replyCalls w slot m cmd ++
    behind (reply w slot m cmd) fun (w, result) =>
      if ((w.conns c).status ≠ .close ∧ result = 0) ∧ (w.conns c).status ≠ .sending then
        closeAndForgetCalls w (w.conns c).sock
      else []

def processFromCalls (mem : Mem) (slot m : Nat) : Nat → State → Option Nat → Calls
  | 0, _, _ => []
  | _ + 1, _, none => []
  | fuel + 1, w, some cmd =>
    let msgEnd := messageEnd mem m
    let continued (w : State) := processFromCalls mem slot m fuel w (cmdBoundedSkip mem (some cmd) 1 msgEnd)
    match cmdAt mem cmd with
    | .compute => continued (w.emit (.compute slot (compTimeUs mem cmd)))
    | .forwardBegin => startForwardCalls (setCurrCmd w slot (some cmd)) slot m cmd
    | .forwardContinue => startForwardCalls w slot m cmd
    | .reply => processReplyCalls w slot m cmd
    | .store =>
      if w.storageDevices ≤ storageDevice mem cmd then []
      else if storeWaitSync mem cmd = 0 then
        continued (w.emit (.storage (storageDevice mem cmd) (w.reqs slot).reqId))
      else []
    | _ => []

def processMessagesCalls (w : State) (slot : Nat) : Calls :=
  match (w.reqs slot).messagePtr with
  | none => []
  | some m =>
    processFromCalls (reqMem w slot) slot m (messageEnd (reqMem w slot) m + 1) w (w.reqs slot).currCmd

/-! ## Replies to forwards -/

def resumeAfterContextCalls (w : State) (reqId slot m status : Nat) : Calls :=
  let w := completeContext w slot m status
  (w, .remove reqId) :: behind (removeTimeout w reqId) fun (w, _) => processMessagesCalls w slot

def handleForwardReplyCalls (w : State) (reqId status : Nat) (matchAddr : Addr) : Calls :=
  match reqGetById w reqId with
  | none => []
  | some slot =>
    match (w.reqs slot).messagePtr with
    | none => []
    | some m =>
      let mem := reqMem w slot
      behind (findForwardReplyId mem (w.reqs slot).currCmd matchAddr (messageEnd mem m)) fun
        | none => []
        | some id =>
          if acked (w.reqs slot).fwdRepliesMask id = true then []
          else
            (w, .ack slot id) ::
              if ((countReply w slot id).reqs slot).fwdRepliesLeft ≤ 0 then
                resumeAfterContextCalls (countReply w slot id) reqId slot m status
              else []

/-! ## Batches of messages -/

def obtainFromCalls (c : Nat) : Nat → State → Calls
  | 0, _ => []
  | fuel + 1, w =>
    behind (connPrepareRecvMessage (w.conns c)) fun
      | (none, _) => []
      | (some m, conn) =>
        let w := w.setConn c conn
        if cmdAt conn.recvBuf (messageFirstCmd m) = .eom then
          let id := reqIdOf conn.recvBuf m
          let status := statusOf conn.recvBuf m
          handleForwardReplyCalls w id status conn.target ++
            behind (handleForwardReply w id status conn.target) fun (w, ret) =>
              if ret = 0 then [] else obtainFromCalls c fuel w
        else
          (w, .enter c m) ::
            match enterRequest w c m with
            | (_, none) => []
            | (w, some slot) =>
              processMessagesCalls w slot ++
                behind (processSingleMessage w slot) fun (w, executed) =>
                  if executed < 0 then [] else obtainFromCalls c fuel w

def obtainMessagesCalls (w : State) (c : Nat) : Calls := obtainFromCalls c ((w.conns c).currRecvBuf + 1) w

/-! ## Timeouts -/

def expireRequestCalls (w : State) (slot : Nat) : Calls :=
  let req := w.reqs slot
  if req.fwdRetries > 0 then (w, .retry slot) :: processMessagesCalls (useRetry w slot) slot
  else
    match req.messagePtr with
    | none => []
    | some m =>
      if req.fwdOnFailSkip > 0 then (w, .skip slot) :: processMessagesCalls (skipOnFailure w slot m) slot
      else [(setMsgStatus w slot m statusTimeout, .release req.connId slot)]

def handleTimeoutCalls (w : State) : Calls :=
  match pqueueTop w.timeoutQueue with
  | none => [(w, .disarm)]
  | some top =>
    let reqId := (w.timeoutQueue.nodes top).data
    match reqGetById w reqId with
    | none => [(w, .disarm)]
    | some slot =>
      (w, .remove reqId) :: behind (removeTimeout w reqId) fun (w, _) => expireRequestCalls w slot

/-! ## Events -/

def failRequestCalls (w : State) (c slot m cmd : Nat) : Calls :=
  let mem := reqMem w slot
  (w, .remove (reqIdOf mem m)) ::
    behind (removeTimeout w (reqIdOf mem m)) fun (w, _) =>
      let msgEnd := messageEnd mem m
      match seekReply mem msgEnd (msgEnd + 1) (some cmd) with
      | none => closeAndForgetCalls w (w.conns c).sock
      | some itr =>
        if cmdInBounds mem itr msgEnd = false ∨ cmdAt mem itr = .eom then
          closeAndForgetCalls w (w.conns c).sock
        else processMessagesCalls (setMsgStatus (setCurrCmd w slot (some itr)) slot m statusErr) slot

def failWaitingCalls (target : Addr) (c : Nat) : Nat → State → Option Nat → Calls
  | 0, _, _ => []
  | _ + 1, _, none => []
  | fuel + 1, w, some slot =>
    match (w.reqs slot).currCmd with
    | none => []
    | some cmd =>
      let fwd := fwdOpts (reqMem w slot) cmd
      if cmdAt (reqMem w slot) cmd = .forwardBegin ∧ fwd.fwdAddr = target then
        if fwd.retries > 0 then []
        else
          match (w.reqs slot).messagePtr with
          | none => []
          | some m => failRequestCalls w c slot m cmd
      else if (w.reqs slot).next = (w.conns c).reqList then []
      else failWaitingCalls target c fuel w (w.reqs slot).next

def failPendingCalls (target : Addr) : Nat → Nat → State → Calls
  | 0, _, _ => []
  | fuel + 1, i, w =>
    if (w.conns i).sock = none then failPendingCalls target fuel (i + 1) w
    else
      failWaitingCalls target i (maxReqs + 1) w (w.conns i).reqList ++
        behind (failWaiting target i (maxReqs + 1) w (w.conns i).reqList) (failPendingCalls target fuel (i + 1))

def closeFailedCalls (w : State) (c : Nat) : Calls :=
  let conn := w.conns c
  let w := if conn.proto = .tcp ∧ conn.status = .ready then
    { w with activeConns := w.activeConns - 1 } else w
  closeAndForgetCalls w conn.sock ++
    behind (closeAndForget w conn.sock) (failPendingCalls conn.target maxConns 0)

def execReadyCalls (w : State) (c : Nat) (type : EventType) (r : Readiness) : Calls :=
  if type = .timer then handleTimeoutCalls w
  else if (w.conns c).sock = none ∨ (w.conns c).buffers = false then []
  else
    behind (establishPhase w c type r) fun
      | (w, false) => closeFailedCalls w c
      | (w, true) =>
        match recvPhase w c r with
        | (w, false) => closeFailedCalls w c
        | (w, true) =>
          behind (flushPhase w c r) fun
            | (w, false) => closeFailedCalls w c
            | (w, true) =>
              obtainMessagesCalls w c ++
                behind (obtainMessages w c) fun
                  | (_, true) => []
                  | (w, false) => closeFailedCalls w c

def execRequestCalls (w : State) (c : Nat) (type : EventType) (r : Readiness) : Calls :=
  if (w.conns c).status = .sslHandshake then
    match r.handshake with
    | .failed => closeFailedCalls w c
    | .inProgress => []
    | .complete => execReadyCalls (w.setConn c { w.conns c with status := .ready }) c type r
  else execReadyCalls w c type r

def acceptConnCalls (w : State) (addr : Addr) (proto : Proto) : Calls :=
  let sock := w.nextFd
  match connAlloc { w with nextFd := sock + 1 } sock addr proto with
  | (w, none) => closeAndForgetCalls w (some sock)
  | (w, some c) =>
    if proto = .tls then
      match connEnableSsl w c with
      | (_, true) => []
      | (w, false) =>
        (closeAndForgetCalls w (some sock)).map (fun call => (hide call.1 c, call.2)) ++
          behind (closeAndForget w (some sock)) fun w => [(hide w c, .reset c)]
    else []

def storageAckCalls (w : State) (reqId : Nat) : Calls :=
  match reqGetById w reqId with
  | none => []
  | some slot => processMessagesCalls w slot

def stepCalls (w : State) (kernel : Kernel) (e : Event) : Calls :=
  let w := { w with kernel := kernel }
  match e with
  | .accept addr proto => acceptConnCalls w addr proto
  | .ready c type r => execRequestCalls w c type r
  | .storage reqId => storageAckCalls w reqId
  | .elapse ns => [(w, .elapse ns)]

def runCalls (w : State) : List (Kernel × Event) → Calls
  | [] => []
  | (kernel, e) :: rest => stepCalls w kernel e ++ behind (step w kernel e) fun w => runCalls w rest

/-! ## Runs take their calls

Connections first. -/

theorem takes_connDelId (w : State) (c : Nat) : Takes w [(w, .reset c)] (connDelId w c) := by
  refine Path.quietly (.one (.reset w c)) (silent_setConn _ c ⟨rfl, id, fun _ opened => absurd rfl opened⟩)

/-- Freeing a slot that is not allocated. -/
theorem takes_connFree {w : State} {c : Nat} (free : (w.conns c).busy = false) :
    Takes w [(w, .reset c)] (connFree w c) := by
  refine Path.quietly (.one (.reset w c)) (silent_setConn _ c ⟨rfl, fun used => ?_,
    fun _ opened => absurd rfl opened⟩)
  rw [connReset, connResetFrom_conns, free] at used
  cases used

theorem takes_closeAndForget {w w' : State} {sock : Option Nat} (h : closeAndForget w sock = .ok w') :
    Takes w (closeAndForgetCalls w sock) w' := by
  simp only [closeAndForget, connDelSock] at h
  simp only [closeAndForgetCalls]
  have polled := silent_emit w (.pollDel sock)
  cases found : connFindSock (w.emit (.pollDel sock)) sock with
  | error e =>
    rw [found] at h
    cases h
  | ok slot =>
    rw [found] at h
    cases slot with
    | none =>
      cases h
      exact polled.path (silent_emit _ _).toPath
    | some c =>
      cases h
      exact polled.path ((takes_connDelId _ c).quietly (silent_emit _ _))

theorem takes_closeAndForget_hide {w w' : State} {sock : Option Nat} (c : Nat)
    (h : closeAndForget w sock = .ok w') :
    Takes (hide w c) ((closeAndForgetCalls w sock).map fun call => (hide call.1 c, call.2)) (hide w' c) := by
  simp only [closeAndForget, connDelSock] at h
  simp only [closeAndForgetCalls]
  have polled : Silently (hide w c) (hide (w.emit (.pollDel sock)) c) := silent_emit (hide w c) (.pollDel sock)
  cases found : connFindSock (w.emit (.pollDel sock)) sock with
  | error e =>
    rw [found] at h
    cases h
  | ok slot =>
    rw [found] at h
    cases slot with
    | none =>
      cases h
      exact polled.path (silent_emit (hide (w.emit (.pollDel sock)) c) (.closed sock)).toPath
    | some i =>
      cases h
      have deleted := takes_connDelId (hide (w.emit (.pollDel sock)) c) i
      rw [connDelId_hide] at deleted
      exact polled.path (deleted.quietly
        (silent_emit (hide (connDelId (w.emit (.pollDel sock)) i) c) (.closed sock)))

/-- The slot is given up when TLS cannot be set up for it. -/
theorem connectForward_cases (w : State) (c sock : Nat) (proto : Proto) :
    (Silently w (connectForward w c sock proto).1 ∧ connectForwardCalls w c sock proto = []) ∨
      ∃ w₁, SameTables w w₁ ∧ (connectForward w c sock proto).1 = connFree w₁ c ∧
        connectForwardCalls w c sock proto = [(hide w₁ c, .reset c)] := by
  have enabled : Silently w (if proto = .tls then connEnableSsl (w.emit (.pollAdd sock c)) c
      else (w.emit (.pollAdd sock c), true)).1 := by
    split
    · exact (silent_emit _ _).trans (silent_connEnableSsl _ c)
    · exact silent_emit _ _
  simp only [connectForward, connectForwardCalls]
  cases e : (if proto = .tls then connEnableSsl (w.emit (.pollAdd sock c)) c
      else (w.emit (.pollAdd sock c), true)) with
  | mk w₁ fine =>
    rw [e] at enabled
    cases fine with
    | false =>
      split at e
      · exact Or.inr ⟨_, (sameTables_emit _ _).trans ((connEnableSsl_refused e).trans
          (sameTables_emit _ _)), rfl, rfl⟩
      · cases e
    | true =>
      refine Or.inl ⟨enabled.trans ?_, rfl⟩
      have taken := silent_takeConnect w₁
      simp only
      split
      · rename_i t
        rwa [t] at taken
      · rename_i t
        rw [t] at taken
        exact taken.trans (silent_setConn _ c (.same rfl))
      · rename_i t
        rw [t] at taken
        refine taken.trans ?_
        split
        · exact silent_setConn _ c (.same rfl)
        · refine Quietly.trans (silent_setConn _ c ?_) (silent_aside ⟨rfl, rfl, rfl, rfl, rfl, rfl, rfl, rfl⟩)
          exact .same rfl

theorem takes_forwardConn (w : State) (fwd : FwdOpts) :
    Takes w (forwardConnCalls w fwd) (forwardConn w fwd).1 := by
  simp only [forwardConn, forwardConnCalls]
  cases connFindExisting w fwd.fwdAddr fwd.proto with
  | some c => exact .refl w
  | none =>
    have allocated := silent_allocForward w fwd
    cases e : allocForward w fwd with
    | mk w' slot =>
      rw [e] at allocated
      cases slot with
      | none => exact allocated.toPath
      | some c =>
        obtain ⟨free, conn, list, same⟩ := allocForward_claims e
        simp only
        split
        · rcases connectForward_cases w' c w.nextFd fwd.proto with ⟨connected, none_⟩ | ⟨w₁, same', refused, calls⟩
          · rw [none_]
            exact (allocated.trans connected).toPath
          · rw [refused, calls, ← connFree_hide]
            exact (silent_hide free list (same.trans same')).path (takes_connFree (hide_free w₁ c))
        · exact allocated.toPath

/-! ## Forwarding -/

theorem takes_sendForward {w w' : State} {slot m cmd c : Nat} {fwd : FwdOpts} {ret : Option Nat}
    (h : sendForward w slot m cmd c fwd = .ok (w', ret)) : Takes w (sendForwardCalls w slot m cmd c fwd) w' := by
  simp only [sendForward] at h
  simp only [sendForwardCalls]
  split at h
  · cases h
  · split at h
    · cases h
    · have filled := silent_setConn w c (kept_of_recvSide
        (fillForward_recvSide (connPrepareSendMessage (w.conns c)).1
          (reqMem w slot) m cmd (w.reqs slot).reqId (connPrepareSendMessage (w.conns c)).2 fwd))
      split at h
      · rename_i unfit
        cases h
        rw [if_pos unfit]
        exact filled.toPath
      · rename_i fits
        have sent := filled.trans ((silent_startSendOn _ c fwd.fwdAddr).trans
          (silent_emit _ (.forwarded (w.reqs slot).reqId fwd.fwdAddr (w.reqs slot).ctx)))
        rw [if_neg fits]
        split at h
        · rename_i failed
          cases h
          rw [if_pos failed]
          exact sent.toPath
        · rename_i passed
          rw [if_neg passed]
          split at h
          · rename_i timed
            obtain ⟨w₁, inserted, e⟩ := map_eq_ok.mp h
            cases e
            rw [if_pos timed]
            exact sent.path (.one (.insert _ _ _ _ timed inserted))
          · rename_i untimed
            cases h
            rw [if_neg untimed]
            exact sent.toPath

theorem takes_singleStartForward {w w' : State} {slot m cmd : Nat} {ret : Option Nat}
    (h : singleStartForward w slot m cmd = .ok (w', ret)) : Takes w (singleStartForwardCalls w slot m cmd) w' := by
  simp only [singleStartForward] at h
  simp only [singleStartForwardCalls]
  cases search : findForwardReplyId (reqMem w slot) (w.reqs slot).currCmd
      (fwdOpts (reqMem w slot) cmd).fwdAddr (messageEnd (reqMem w slot) m) with
  | error e =>
    simp only [search] at h
    cases h
  | ok id =>
    simp only [search] at h
    cases id with
    | none =>
      cases h
      exact .refl _
    | some id =>
      simp only at h ⊢
      split at h
      · rename_i repeated
        rw [skipAcked_state h, if_pos repeated]
        exact .refl _
      · rename_i pending
        rw [if_neg pending]
        have found := takes_forwardConn w (fwdOpts (reqMem w slot) cmd)
        cases e : forwardConn w (fwdOpts (reqMem w slot) cmd) with
        | mk w₁ slot' =>
          rw [e] at found h
          refine found.trans ?_
          cases slot' with
          | none =>
            cases h
            exact .refl _
          | some c => exact takes_sendForward h

theorem takes_sendBranches {slot m : Nat} {fuel : Nat} {w w' : State} {itr : Option Nat}
    {ret : Bool} (h : sendBranches slot m fuel w itr = .ok (w', ret)) :
    Takes w (sendBranchesCalls slot m fuel w itr) w' := by
  induction fuel generalizing w itr with
  | zero =>
    cases h
    exact .refl _
  | succ fuel ih =>
    cases itr with
    | none =>
      cases h
      exact .refl _
    | some cmd =>
      simp only [sendBranches] at h
      simp only [sendBranchesCalls]
      cases e : singleStartForward w slot m cmd with
      | error a =>
        rw [e] at h
        cases h
      | ok s =>
        obtain ⟨w₁, sent⟩ := s
        rw [e] at h
        refine (takes_singleStartForward e).trans ?_
        cases sent with
        | none =>
          cases h
          exact .refl _
        | some _ =>
          simp only at h
          simp only [behind]
          cases next : cmdBoundedNextForward (reqMem w₁ slot) (some cmd) (messageEnd (reqMem w₁ slot) m) with
          | error a =>
            rw [next] at h
            cases h
          | ok next' =>
            rw [next] at h
            exact ih h

theorem takes_startForward {w w' : State} {slot m cmd : Nat} {ret : Bool}
    (h : startForward w slot m cmd = .ok (w', ret)) : Takes w (startForwardCalls w slot m cmd) w' :=
  .call (.begin w slot cmd) (takes_sendBranches h)

/-! ## Execution of requests -/

theorem takes_reply {w w' : State} {slot m cmd : Nat} {ret : Int}
    (h : reply w slot m cmd = .ok (w', ret)) : Takes w (replyCalls w slot m cmd) w' := by
  simp only [reply] at h
  simp only [replyCalls]
  split at h
  · cases h
  · obtain ⟨⟨w₁, r⟩, sent, e⟩ := map_eq_ok.mp h
    cases e
    rw [sent]
    refine Quietly.path (silent_setConn w _ ?_) ((silent_transmitReply sent).path
      (Path.quietly (.one (.release w₁ (w.reqs slot).connId slot))
        (silent_aside ⟨rfl, rfl, rfl, rfl, rfl, rfl, rfl, rfl⟩)))
    exact .same rfl

theorem takes_processReply {w w' : State} {slot m cmd : Nat} {ret : Int}
    (h : processReply w slot m cmd = .ok (w', ret)) : Takes w (processReplyCalls w slot m cmd) w' := by
  simp only [processReply] at h
  simp only [processReplyCalls]
  cases replied : reply w slot m cmd with
  | error e =>
    rw [replied] at h
    cases h
  | ok s =>
    obtain ⟨w₁, result⟩ := s
    rw [replied] at h
    refine (takes_reply replied).trans ?_
    simp only [behind] at h ⊢
    split at h
    · rename_i unsent
      split at h
      · rename_i sending
        obtain ⟨_, e, paired⟩ := map_eq_ok.mp h
        cases paired
        rw [if_neg fun both => both.2 sending]
        exact (silent_pollMod e).toPath
      · rename_i idle
        obtain ⟨_, e, paired⟩ := map_eq_ok.mp h
        cases paired
        rw [if_pos ⟨unsent, idle⟩]
        exact takes_closeAndForget e
    · rename_i done
      rw [if_neg fun both => done both.1]
      split at h
      · obtain ⟨_, e, paired⟩ := map_eq_ok.mp h
        cases paired
        exact (silent_pollMod e).toPath
      · cases h
        exact .refl _

theorem takes_processForward {w w' : State} {slot m cmd : Nat} {ret : Int}
    (h : processForward w slot m cmd = .ok (w', ret)) : Takes w (startForwardCalls w slot m cmd) w' := by
  obtain ⟨s, started, e⟩ := map_eq_ok.mp h
  cases e
  exact takes_startForward started

theorem takes_processFrom {mem : Mem} {slot m fuel : Nat} {w w' : State} {cmd : Option Nat} {ret : Int}
    (h : processFrom mem slot m fuel w cmd = .ok (w', ret)) :
    Takes w (processFromCalls mem slot m fuel w cmd) w' := by
  induction fuel generalizing w cmd with
  | zero =>
    cases h
    exact .refl _
  | succ fuel ih =>
    cases cmd with
    | none =>
      cases h
      exact .refl _
    | some cmd =>
      simp only [processFrom] at h
      simp only [processFromCalls]
      cases type : cmdAt mem cmd with
      | eom =>
        simp only [type] at h
        cases h
        exact .refl _
      | compute =>
        simp only [type] at h
        exact (silent_emit _ _).path (ih h)
      | forwardBegin =>
        simp only [type] at h
        exact (silent_setCurrCmd w slot (some cmd)).path (takes_processForward h)
      | forwardContinue =>
        simp only [type] at h
        exact takes_processForward h
      | reply =>
        simp only [type] at h
        exact takes_processReply h
      | store =>
        simp only [type] at h ⊢
        split at h
        · rename_i missing
          cases h
          rw [if_pos missing]
          exact .refl _
        · rename_i there
          rw [if_neg there]
          split at h
          · rename_i unsynced
            rw [if_pos unsynced]
            exact (silent_emit _ _).path (ih h)
          · rename_i synced
            cases h
            rw [if_neg synced]
            exact ((silent_emit _ _).trans (silent_setCurrCmd _ slot _)).toPath
      | load =>
        simp only [type] at h ⊢
        split at h
        · cases h
          exact .refl _
        · cases h
          exact ((silent_emit _ _).trans (silent_setCurrCmd _ slot _)).toPath
      | pskip =>
        simp only [type] at h
        cases h
        exact .refl _
      | unknown n =>
        simp only [type] at h
        cases h
        exact .refl _

theorem takes_processMessages {w w' : State} {slot : Nat} {ret : Int}
    (h : processMessages w slot = .ok (w', ret)) : Takes w (processMessagesCalls w slot) w' := by
  simp only [processMessages, processSingleMessage] at h
  simp only [processMessagesCalls]
  cases message : (w.reqs slot).messagePtr with
  | none =>
    simp only [message] at h
    cases h
  | some m =>
    simp only [message] at h
    exact takes_processFrom h

/-! ## Events -/

/-- The handling of a reply that is not dropped, up to the next command. -/
theorem takes_handleForwardReply {w w' : State} {reqId status : Nat} {addr : Addr} {ret : Int}
    (h : handleForwardReply w reqId status addr = .ok (w', ret)) :
    Takes w (handleForwardReplyCalls w reqId status addr) w' := by
  simp only [handleForwardReply] at h
  simp only [handleForwardReplyCalls]
  cases found : reqGetById w reqId with
  | none =>
    simp only [found] at h
    cases h
    exact .refl _
  | some slot =>
    simp only [found] at h ⊢
    cases message : (w.reqs slot).messagePtr with
    | none =>
      simp only [message] at h
      cases h
    | some m =>
      simp only [message] at h ⊢
      cases search : findForwardReplyId (reqMem w slot) (w.reqs slot).currCmd addr
          (messageEnd (reqMem w slot) m) with
      | error e =>
        simp only [search] at h
        cases h
      | ok id =>
        simp only [search] at h
        cases id with
        | none =>
          cases h
          exact .refl _
        | some id =>
          simp only [behind] at h ⊢
          have counted : Takes w [(w, .ack slot id)] (acknowledge w slot id m status) :=
            .one (.ack w slot id m status)
          split at h
          · rename_i repeated
            cases h
            rw [if_pos repeated]
            exact .refl _
          · rename_i first
            rw [if_neg first]
            split at h
            · rename_i last
              simp only [acknowledge, if_pos last] at counted
              simp only [resumeAfterContext] at h
              rw [if_pos last]
              cases removed : removeTimeout (completeContext (countReply w slot id) slot m status) reqId with
              | error e =>
                rw [removed] at h
                cases h
              | ok p =>
                obtain ⟨w₁, left⟩ := p
                rw [removed] at h
                refine counted.trans (Path.call (.remove _ _ _ _ removed) ?_)
                simp only [removed, behind]
                exact takes_processMessages h
            · rename_i more
              simp only [acknowledge, if_neg more] at counted
              cases h
              rw [if_neg more]
              exact counted

theorem takes_obtainFrom {c fuel : Nat} {w w' : State} {ret : Bool}
    (used : (w.conns c).busy = true) (h : obtainFrom c fuel w = .ok (w', ret)) :
    Takes w (obtainFromCalls c fuel w) w' := by
  induction fuel generalizing w with
  | zero =>
    cases h
    exact .refl _
  | succ fuel ih =>
    simp only [obtainFrom] at h
    simp only [obtainFromCalls]
    cases e : connPrepareRecvMessage (w.conns c) with
    | error a =>
      rw [e] at h
      cases h
    | ok s =>
      obtain ⟨found, conn⟩ := s
      rw [e] at h
      have prepared : Silently w (w.setConn c conn) :=
        silent_setConn w c (.same (connPrepareRecvMessage_tableSide _ e))
      cases found with
      | none =>
        cases h
        exact prepared.toPath
      | some m =>
        simp only [behind] at h ⊢
        refine prepared.path ?_
        split at h
        · rename_i eom
          rw [if_pos eom]
          cases handled : handleForwardReply (w.setConn c conn) (reqIdOf conn.recvBuf m)
              (statusOf conn.recvBuf m) conn.target with
          | error a =>
            rw [handled] at h
            cases h
          | ok p =>
            obtain ⟨w₁, executed⟩ := p
            rw [handled] at h
            have done := takes_handleForwardReply handled
            refine done.trans ?_
            simp only at h ⊢
            split at h
            · rename_i failed
              cases h
              rw [if_pos failed]
              exact .refl _
            · rename_i passed
              rw [if_neg passed]
              exact ih (done.leads.busy (prepared.leads.busy used)) h
        · rename_i request
          rw [if_neg request]
          have entered := Step.enter (w.setConn c conn) c m (prepared.leads.busy used)
          cases added : enterRequest (w.setConn c conn) c m with
          | mk w₁ slot =>
            rw [added] at h entered
            refine .call entered ?_
            have alive := (Leads.one entered).busy (prepared.leads.busy used)
            cases slot with
            | none =>
              cases h
              exact .refl _
            | some slot =>
              simp only at h ⊢
              cases executed : processSingleMessage w₁ slot with
              | error a =>
                rw [executed] at h
                cases h
              | ok p =>
                obtain ⟨w₂, ret'⟩ := p
                rw [executed] at h
                have done := takes_processMessages executed
                refine done.trans ?_
                simp only at h ⊢
                split at h
                · rename_i failed
                  cases h
                  rw [if_pos failed]
                  exact .refl _
                · rename_i passed
                  rw [if_neg passed]
                  exact ih (done.leads.busy alive) h

theorem takes_expireRequest {w w' : State} {slot : Nat} (h : expireRequest w slot = .ok w') :
    Takes w (expireRequestCalls w slot) w' := by
  simp only [expireRequest] at h
  simp only [expireRequestCalls]
  split at h
  · rename_i more
    obtain ⟨⟨w₁, r⟩, e, rfl⟩ := map_eq_ok.mp h
    rw [if_pos more]
    exact .call (.retry w slot) (takes_processMessages e)
  · rename_i none_
    rw [if_neg none_]
    cases message : (w.reqs slot).messagePtr with
    | none =>
      simp only [message] at h
      cases h
    | some m =>
      simp only [message] at h ⊢
      split at h
      · rename_i skips
        obtain ⟨⟨w₁, r⟩, e, rfl⟩ := map_eq_ok.mp h
        rw [if_pos skips]
        exact .call (.skip w slot m) (takes_processMessages e)
      · rename_i ends
        cases h
        rw [if_neg ends]
        have marked : Silently w (setMsgStatus w slot m statusTimeout) := silent_setConn w _ (.same rfl)
        exact marked.path (Path.quietly (.one (.release _ _ slot))
          (silent_aside ⟨rfl, rfl, rfl, rfl, rfl, rfl, rfl, rfl⟩))

theorem takes_handleTimeout {w w' : State} (h : handleTimeout w = .ok w') :
    Takes w (handleTimeoutCalls w) w' := by
  simp only [handleTimeout] at h
  simp only [handleTimeoutCalls]
  cases head : pqueueTop w.timeoutQueue with
  | none =>
    simp only [head] at h
    exact .one (.disarm w w' (fun top e => by rw [head] at e; cases e) h)
  | some top =>
    simp only [head] at h ⊢
    cases found : reqGetById w (w.timeoutQueue.nodes top).data with
    | none =>
      simp only [found] at h
      refine .one (.disarm w w' (fun t et => ?_) h)
      rw [head] at et
      cases et
      exact found
    | some slot =>
      simp only [found] at h ⊢
      cases removed : removeTimeout w (w.timeoutQueue.nodes top).data with
      | error e =>
        simp only [removed] at h
        cases h
      | ok p =>
        obtain ⟨w₁, left⟩ := p
        simp only [removed] at h
        exact .call (.remove _ _ _ _ removed) (takes_expireRequest h)

theorem takes_failRequest {w w' : State} {c slot m cmd : Nat} (h : failRequest w c slot m cmd = .ok w') :
    Takes w (failRequestCalls w c slot m cmd) w' := by
  simp only [failRequest] at h
  simp only [failRequestCalls]
  cases removed : removeTimeout w (reqIdOf (reqMem w slot) m) with
  | error e =>
    simp only [removed] at h
    cases h
  | ok p =>
    obtain ⟨w₁, left⟩ := p
    simp only [removed] at h
    refine .call (.remove _ _ _ _ removed) ?_
    simp only [behind]
    cases seek : seekReply (reqMem w slot) (messageEnd (reqMem w slot) m)
        (messageEnd (reqMem w slot) m + 1) (some cmd) with
    | none =>
      simp only [seek] at h
      exact takes_closeAndForget h
    | some itr =>
      simp only [seek] at h ⊢
      split at h
      · rename_i nothing
        rw [if_pos nothing]
        exact takes_closeAndForget h
      · rename_i reply
        rw [if_neg reply]
        obtain ⟨⟨w₂, r⟩, e, rfl⟩ := map_eq_ok.mp h
        refine (silent_setCurrCmd _ slot (some itr)).path
          (Quietly.path (silent_setConn _ _ ?_) (takes_processMessages e))
        exact .same rfl

theorem takes_failWaiting {target : Addr} {c fuel : Nat} {w w' : State} {slot : Option Nat}
    (h : failWaiting target c fuel w slot = .ok w') : Takes w (failWaitingCalls target c fuel w slot) w' := by
  induction fuel generalizing slot with
  | zero =>
    cases h
    exact .refl _
  | succ fuel ih =>
    cases slot with
    | none =>
      cases h
      exact .refl _
    | some slot =>
      simp only [failWaiting] at h
      simp only [failWaitingCalls]
      cases current : (w.reqs slot).currCmd with
      | none =>
        simp only [current] at h
        cases h
      | some cmd =>
        simp only [current] at h ⊢
        split at h
        · rename_i waits
          rw [if_pos waits]
          split at h
          · rename_i retries
            cases h
            rw [if_pos retries]
            exact .refl _
          · rename_i last
            rw [if_neg last]
            cases message : (w.reqs slot).messagePtr with
            | none =>
              simp only [message] at h
              cases h
            | some m =>
              simp only [message] at h
              exact takes_failRequest h
        · rename_i elsewhere
          rw [if_neg elsewhere]
          split at h
          · rename_i last
            cases h
            rw [if_pos last]
            exact .refl _
          · rename_i more
            rw [if_neg more]
            exact ih h

theorem takes_failPending {target : Addr} {fuel i : Nat} {w w' : State}
    (h : failPending target fuel i w = .ok w') : Takes w (failPendingCalls target fuel i w) w' := by
  induction fuel generalizing w i with
  | zero =>
    cases h
    exact .refl _
  | succ fuel ih =>
    simp only [failPending] at h
    simp only [failPendingCalls]
    split at h
    · rename_i closed
      rw [if_pos closed]
      exact ih h
    · rename_i open_
      rw [if_neg open_]
      cases failed : failWaiting target i (maxReqs + 1) w (w.conns i).reqList with
      | error e =>
        simp only [failed] at h
        cases h
      | ok w₁ =>
        simp only [failed] at h
        exact (takes_failWaiting failed).trans (ih h)

theorem takes_closeFailed {w w' : State} {c : Nat} (h : closeFailed w c = .ok w') :
    Takes w (closeFailedCalls w c) w' := by
  simp only [closeFailed] at h
  simp only [closeFailedCalls]
  have counted : Silently w (if (w.conns c).proto = .tcp ∧ (w.conns c).status = .ready then
      { w with activeConns := w.activeConns - 1 } else w) := by
    split
    · exact silent_aside ⟨rfl, rfl, rfl, rfl, rfl, rfl, rfl, rfl⟩
    · exact .refl w
  refine counted.path ?_
  cases closed : closeAndForget (if (w.conns c).proto = .tcp ∧ (w.conns c).status = .ready then
      { w with activeConns := w.activeConns - 1 } else w) (w.conns c).sock with
  | error e =>
    simp only [closed] at h
    cases h
  | ok w₁ =>
    simp only [closed] at h
    exact (takes_closeAndForget closed).trans (takes_failPending h)

theorem takes_execReady {w w' : State} {c : Nat} {type : EventType} {r : Readiness}
    (opened : Opened w) (h : execReady w c type r = .ok w') : Takes w (execReadyCalls w c type r) w' := by
  simp only [execReady] at h
  simp only [execReadyCalls]
  split at h
  · rename_i timer
    rw [if_pos timer]
    exact takes_handleTimeout h
  · rename_i other
    rw [if_neg other]
    split at h
    · rename_i closed
      cases h
      rw [if_pos closed]
      exact .refl _
    · rename_i usable
      rw [if_neg usable]
      have used : (w.conns c).busy = true := opened c fun closed => usable (Or.inl closed)
      cases e : establishPhase w c type r with
      | error a =>
        simp only [e] at h
        cases h
      | ok s =>
        obtain ⟨w₁, fine⟩ := s
        simp only [e] at h
        refine (silent_establishPhase e).path ?_
        have received := silent_recvPhase w₁ c r
        cases fine with
        | false => exact takes_closeFailed h
        | true =>
          simp only [behind] at h ⊢
          cases e' : recvPhase w₁ c r with
          | mk w₂ fine' =>
            simp only [e'] at h
            rw [e'] at received
            refine received.path ?_
            have ready := (silent_establishPhase e).trans received
            cases fine' with
            | false => exact takes_closeFailed h
            | true =>
              simp only at h ⊢
              cases e'' : flushPhase w₂ c r with
              | error a =>
                simp only [e''] at h
                cases h
              | ok s =>
                obtain ⟨w₃, flushed⟩ := s
                simp only [e''] at h
                refine (silent_flushPhase e'').path ?_
                have whole : Silently w w₃ := ready.trans (silent_flushPhase e'')
                cases flushed with
                | false => exact takes_closeFailed h
                | true =>
                  simp only at h ⊢
                  cases obtained : obtainMessages w₃ c with
                  | error a =>
                    simp only [obtained] at h
                    cases h
                  | ok s =>
                    obtain ⟨w₄, kept⟩ := s
                    simp only [obtained] at h
                    refine (takes_obtainFrom (Leads.busy (Silently.leads whole) used) obtained).trans ?_
                    cases kept with
                    | true =>
                      cases h
                      exact .refl _
                    | false => exact takes_closeFailed h

theorem takes_execRequest {w w' : State} {c : Nat} {type : EventType} {r : Readiness}
    (opened : Opened w) (h : execRequest w c type r = .ok w') : Takes w (execRequestCalls w c type r) w' := by
  simp only [execRequest] at h
  simp only [execRequestCalls]
  split at h
  · rename_i shaking
    rw [if_pos shaking]
    have shaken : Silently w (w.setConn c { w.conns c with status := .ready }) := silent_setConn w c (.same rfl)
    cases answer : r.handshake with
    | failed =>
      simp only [answer] at h
      exact takes_closeFailed h
    | inProgress =>
      simp only [answer] at h
      cases h
      exact .refl _
    | complete =>
      simp only [answer] at h
      exact shaken.path (takes_execReady (shaken.leads.opened opened) h)
  · rename_i ready
    rw [if_neg ready]
    exact takes_execReady opened h

theorem takes_acceptConn {w w' : State} {addr : Addr} {proto : Proto}
    (h : acceptConn w addr proto = .ok w') : Takes w (acceptConnCalls w addr proto) w' := by
  have opened : Silently w { w with nextFd := w.nextFd + 1 } :=
    silent_aside ⟨rfl, rfl, rfl, rfl, rfl, rfl, rfl, rfl⟩
  have allocated := silent_connAlloc { w with nextFd := w.nextFd + 1 } w.nextFd addr proto
  simp only [acceptConn] at h
  simp only [acceptConnCalls]
  cases e : connAlloc { w with nextFd := w.nextFd + 1 } w.nextFd addr proto with
  | mk w₁ slot =>
    rw [e] at allocated
    simp only [e] at h
    cases slot with
    | none => exact (opened.trans allocated).path (takes_closeAndForget h)
    | some c =>
      obtain ⟨free, claimed⟩ := connAlloc_claims e
      simp only at h ⊢
      split at h
      · rename_i secured
        rw [if_pos secured]
        have enabled := silent_connEnableSsl w₁ c
        cases e' : connEnableSsl w₁ c with
        | mk w₂ fine =>
          rw [e'] at enabled
          simp only [e'] at h
          cases fine with
          | true =>
            cases h
            have settled : Silently w₂ (w₂.setConn c { w₂.conns c with enableDefrag := w₂.enableDefrag }) :=
              silent_setConn w₂ c (.same rfl)
            exact Quietly.toPath (opened.trans (allocated.trans (enabled.trans (settled.trans
              (silent_aside ⟨rfl, rfl, rfl, rfl, rfl, rfl, rfl, rfl⟩)))))
          | false =>
            obtain ⟨w₃, closed, rfl⟩ := map_eq_ok.mp h
            rw [← connFree_hide]
            have refused := connEnableSsl_refused e'
            rw [claimed] at refused
            simp only [closed, behind]
            exact opened.path ((silent_hide free (by rfl) refused).path
              ((takes_closeAndForget_hide c closed).trans (takes_connFree (hide_free w₃ c))))
      · rename_i plain
        rw [if_neg plain]
        cases h
        have ready : Silently w₁ (w₁.setConn c { w₁.conns c with status := .ready }) :=
          silent_setConn w₁ c (.same rfl)
        refine Quietly.toPath (opened.trans (allocated.trans (ready.trans (Quietly.trans
          (silent_setConn _ c ?_) (silent_aside ⟨rfl, rfl, rfl, rfl, rfl, rfl, rfl, rfl⟩)))))
        exact .same rfl

/-- An event takes its calls. -/
theorem takes_step {w w' : State} {kernel : Kernel} {e : Event} (opened : Opened w)
    (h : step w kernel e = .ok w') : Takes w (stepCalls w kernel e) w' := by
  have armed : Silently w { w with kernel := kernel } :=
    silent_aside ⟨rfl, rfl, rfl, rfl, rfl, rfl, rfl, rfl⟩
  refine armed.path ?_
  cases e with
  | accept addr proto => exact takes_acceptConn h
  | ready c type r => exact takes_execRequest (armed.leads.opened opened) h
  | storage reqId =>
    simp only [step, storageAck] at h
    simp only [stepCalls, storageAckCalls]
    cases found : reqGetById { w with kernel := kernel } reqId with
    | none =>
      rw [found] at h
      cases h
      exact .refl _
    | some slot =>
      rw [found] at h
      obtain ⟨⟨w₁, r⟩, executed, rfl⟩ := map_eq_ok.mp h
      exact takes_processMessages executed
  | elapse ns =>
    cases h
    exact .one (.elapse _ ns)

theorem takes_run {w w' : State} {events : List (Kernel × Event)} (opened : Opened w)
    (h : run w events = .ok w') : Takes w (runCalls w events) w' := by
  induction events generalizing w with
  | nil =>
    cases h
    exact .refl _
  | cons e rest ih =>
    obtain ⟨v, stepped, later⟩ := run_cons_ok h
    have first := takes_step opened stepped
    refine first.trans ?_
    rw [stepped]
    exact ih (first.leads.opened opened) later

/-- A run whose calls meet a condition. -/
theorem reaches_run {ok : State → Label → Prop} (silent : ∀ w l, Label.Quiet l → ok w l) {w w' : State}
    {events : List (Kernel × Event)} (opened : Opened w) (h : run w events = .ok w')
    (allowed : ∀ call ∈ runCalls w events, ok call.1 call.2) : Reaches ok w w' :=
  (takes_run opened h).reaches silent allowed

/-! ## Runs with calls from outside

Between the events, timeouts are queued and removed by single calls, and the handler of
the timer is called. -/

inductive Act
  | event (kernel : Kernel) (e : Event)
  | insert (reqId : Nat) (micros : Int)
  | remove (reqId : Nat)
  | expire

/-- `insert_timeout` is never called with a zero duration. -/
def act (w : State) : Act → Except Abort State
  | .event kernel e => step w kernel e
  | .insert reqId micros => if micros = 0 then .ok w else insertTimeout w reqId micros
  | .remove reqId => (removeTimeout w reqId).map (·.1)
  | .expire => handleTimeout w

def actCalls (w : State) : Act → Calls
  | .event kernel e => stepCalls w kernel e
  | .insert reqId micros => if micros = 0 then [] else [(w, .insert reqId micros)]
  | .remove reqId => [(w, .remove reqId)]
  | .expire => handleTimeoutCalls w

def actAll (w : State) (acts : List Act) : Except Abort State := acts.foldlM act w

def actAllCalls (w : State) : List Act → Calls
  | [] => []
  | a :: rest => actCalls w a ++ behind (act w a) fun w => actAllCalls w rest

theorem takes_act {w w' : State} {a : Act} (opened : Opened w) (h : act w a = .ok w') :
    Takes w (actCalls w a) w' := by
  cases a with
  | event kernel e => exact takes_step opened h
  | insert reqId micros =>
    simp only [act] at h
    simp only [actCalls]
    split at h
    · rename_i zero
      cases h
      rw [if_pos zero]
      exact .refl _
    · rename_i nonzero
      rw [if_neg nonzero]
      exact .one (.insert w w' reqId micros nonzero h)
  | remove reqId =>
    obtain ⟨⟨w₁, left⟩, removed, rfl⟩ := map_eq_ok.mp h
    exact .one (.remove w w₁ reqId left removed)
  | expire => exact takes_handleTimeout h

theorem actAll_cons {w : State} {a : Act} {rest : List Act} {w' : State} :
    actAll w (a :: rest) = .ok w' ↔ ∃ v, act w a = .ok v ∧ actAll v rest = .ok w' := by
  rw [actAll, List.foldlM_cons]
  cases act w a with
  | error e => simp [bind, Except.bind]
  | ok v => simp [bind, Except.bind, actAll]

theorem takes_actAll {w w' : State} {acts : List Act} (opened : Opened w) (h : actAll w acts = .ok w') :
    Takes w (actAllCalls w acts) w' := by
  induction acts generalizing w with
  | nil =>
    cases h
    exact .refl _
  | cons a rest ih =>
    obtain ⟨v, taken, later⟩ := actAll_cons.mp h
    have first := takes_act opened taken
    refine first.trans ?_
    rw [taken]
    exact ih (first.leads.opened opened) later

/-! ## Unconditional runs -/

theorem leads_aside {w w' : State} (same : SameTables w w') : Leads w w' := (silent_aside same).leads

theorem leads_setConn (w : State) (c : Nat) {conn : ConnInfo} (kept : Kept (w.conns c) conn) :
    Leads w (w.setConn c conn) := (silent_setConn w c kept).leads

theorem leads_removeTimeout {w w' : State} {reqId : Nat} {left : Int}
    (h : removeTimeout w reqId = .ok (w', left)) : Leads w w' := .one (.remove w w' reqId left h)

theorem leads_closeAndForget {w w' : State} {sock : Option Nat} (h : closeAndForget w sock = .ok w') :
    Leads w w' := (takes_closeAndForget h).leads

theorem leads_startForward {w w' : State} {slot m cmd : Nat} {ret : Bool}
    (h : startForward w slot m cmd = .ok (w', ret)) : Leads w w' := (takes_startForward h).leads

theorem leads_processMessages {w w' : State} {slot : Nat} {ret : Int}
    (h : processMessages w slot = .ok (w', ret)) : Leads w w' := (takes_processMessages h).leads

theorem leads_handleForwardReply {w w' : State} {reqId status : Nat} {addr : Addr} {ret : Int}
    (h : handleForwardReply w reqId status addr = .ok (w', ret)) : Leads w w' := (takes_handleForwardReply h).leads

theorem leads_obtainFrom {c fuel : Nat} {w w' : State} {ret : Bool} (used : (w.conns c).busy = true)
    (h : obtainFrom c fuel w = .ok (w', ret)) : Leads w w' := (takes_obtainFrom used h).leads

theorem leads_handleTimeout {w w' : State} (h : handleTimeout w = .ok w') : Leads w w' := (takes_handleTimeout h).leads

theorem leads_failPending {target : Addr} {fuel i : Nat} {w w' : State}
    (h : failPending target fuel i w = .ok w') : Leads w w' := (takes_failPending h).leads

theorem leads_establishPhase {w w' : State} {c : Nat} {type : EventType} {r : Readiness} {ret : Bool}
    (h : establishPhase w c type r = .ok (w', ret)) : Leads w w' := (silent_establishPhase h).leads

theorem leads_recvPhase (w : State) (c : Nat) (r : Readiness) : Leads w (recvPhase w c r).1 :=
  (silent_recvPhase w c r).leads

theorem leads_flushPhase {w w' : State} {c : Nat} {r : Readiness} {ret : Bool}
    (h : flushPhase w c r = .ok (w', ret)) : Leads w w' := (silent_flushPhase h).leads

theorem leads_run {w w' : State} {events : List (Kernel × Event)} (opened : Opened w)
    (h : run w events = .ok w') : Leads w w' := (takes_run opened h).leads

end Transitions
