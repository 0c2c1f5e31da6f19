import DistWalk.BoundedReads
import DistWalk.Batches
import DistWalk.Forwarding

/-!
# A message is handled by its own bytes

Two runs that differ only in the receive buffer of one connection, and there only
outside one message, do the same to that message. `overwrite` puts other bytes into
the receive buffer; whatever does not read the buffer commutes with it.
-/

namespace OwnBytes

open ByteMemory Message Connection Worker Timeout Node Requests Transitions Walkers BoundedReads
  Forwarding Batches

/-- The connection with other bytes in its receive buffer. -/
def holding (buf : Mem) (conn : ConnInfo) : ConnInfo := { conn with recvBuf := buf }

/-- Put `buf` into the receive buffer of connection `c`. -/
def overwrite (c : Nat) (buf : Mem) (w : State) : State := w.setConn c (holding buf (w.conns c))

/-- A result with the state overwritten. -/
def overwritten {α : Type} (c : Nat) (buf : Mem) (s : State × α) : State × α :=
  (overwrite c buf s.1, s.2)

/-- How connection `i` looks where `c` is overwritten. -/
def shown (c : Nat) (buf : Mem) (i : Nat) (conn : ConnInfo) : ConnInfo :=
  if i = c then holding buf conn else conn

/-- An operation on a connection that neither reads nor writes the receive buffer. -/
def Deaf (f : ConnInfo → ConnInfo) : Prop := ∀ buf conn, f (holding buf conn) = holding buf (f conn)

/-- A part of a connection that does not depend on the receive buffer. -/
def Apart {α : Type} (f : ConnInfo → α) : Prop := ∀ buf conn, f (holding buf conn) = f conn

section Tables

variable (c : Nat) (buf : Mem) (w : State)

theorem overwrite_conns (i : Nat) : (overwrite c buf w).conns i = shown c buf i (w.conns i) := by
  simp only [overwrite, State.setConn, Function.update_apply, shown]
  split
  · rename_i own
    rw [own]
  · rfl

theorem overwrite_setConn (i : Nat) (conn : ConnInfo) :
    (overwrite c buf w).setConn i (shown c buf i conn) = overwrite c buf (w.setConn i conn) := by
  by_cases own : i = c
  · subst own
    simp [overwrite, State.setConn, shown]
  · simp only [overwrite, State.setConn, shown, if_neg own, Function.update_of_ne (Ne.symm own)]
    rw [Function.update_comm own]

theorem Deaf.shown {f : ConnInfo → ConnInfo} (hf : Deaf f) (i : Nat) (conn : ConnInfo) :
    f (shown c buf i conn) = shown c buf i (f conn) := by
  simp only [OwnBytes.shown]
  split
  · exact hf buf conn
  · rfl

theorem Apart.shown {α : Type} {f : ConnInfo → α} (hf : Apart f) (i : Nat) (conn : ConnInfo) :
    f (shown c buf i conn) = f conn := by
  simp only [OwnBytes.shown]
  split
  · exact hf buf conn
  · rfl

theorem Apart.overwrite {α : Type} {f : ConnInfo → α} (hf : Apart f) (i : Nat) :
    f ((overwrite c buf w).conns i) = f (w.conns i) := by
  rw [overwrite_conns]
  exact hf.shown c buf i (w.conns i)

/-- A change of one connection that does not read its receive buffer. -/
theorem Deaf.setConn {f : ConnInfo → ConnInfo} (hf : Deaf f) (i : Nat) :
    (OwnBytes.overwrite c buf w).setConn i (f ((OwnBytes.overwrite c buf w).conns i)) =
      OwnBytes.overwrite c buf (w.setConn i (f (w.conns i))) := by
  rw [overwrite_conns, hf.shown, overwrite_setConn]

@[simp] theorem overwrite_reqs : (overwrite c buf w).reqs = w.reqs := rfl

@[simp] theorem overwrite_setReq (slot : Nat) (r : ReqInfo) :
    (overwrite c buf w).setReq slot r = overwrite c buf (w.setReq slot r) := rfl

@[simp] theorem overwrite_emit (e : Effect) :
    (overwrite c buf w).emit e = overwrite c buf (w.emit e) := rfl

@[simp] theorem overwrite_setCurrCmd (slot : Nat) (cmd : Option Nat) :
    setCurrCmd (overwrite c buf w) slot cmd = overwrite c buf (setCurrCmd w slot cmd) := rfl

theorem reqMem_overwrite {slot : Nat} (own : (w.reqs slot).connId = c) :
    reqMem (overwrite c buf w) slot = buf := by
  simp [reqMem, overwrite_conns, shown, own, holding]

end Tables

/-! ## System calls -/

theorem apart_sock : Apart ConnInfo.sock := fun _ _ => rfl
theorem apart_status : Apart ConnInfo.status := fun _ _ => rfl
theorem apart_busy : Apart ConnInfo.busy := fun _ _ => rfl
theorem apart_reqList : Apart ConnInfo.reqList := fun _ _ => rfl
theorem apart_currSendSize : Apart ConnInfo.currSendSize := fun _ _ => rfl

/-- A transmission on a connection that holds other bytes. -/
def Sent.holding (buf : Mem) (s : Sent) : Sent := ⟨OwnBytes.holding buf s.conn, s.ret, s.out⟩

theorem connSslSend_holding (buf : Mem) (conn : ConnInfo) (r : IoResult) :
    connSslSend (holding buf conn) r = Sent.holding buf (connSslSend conn r) := by
  cases r with
  | done n =>
    simp only [connSslSend, apply_ite (Sent.holding buf)]
    rfl
  | wouldBlock => rfl
  | peerClosed => rfl
  | failed => rfl

theorem connSend_holding (buf : Mem) (conn : ConnInfo) (r : IoResult) :
    connSend (holding buf conn) r = Sent.holding buf (connSend conn r) := by
  simp only [connSend, connSslSend_holding, apply_ite (Sent.holding buf)]
  cases r with
  | done n =>
    have settled : ∀ v : ConnInfo,
        (if (holding buf v).currSendSize = 0 ∧ (holding buf v).status = .sending then
          { holding buf v with status := .ready } else holding buf v) =
        holding buf (if v.currSendSize = 0 ∧ v.status = .sending then
          { v with status := .ready } else v) := by
      intro v
      simp only [apply_ite (holding buf)]
      rfl
    have moved : advanceSend (holding buf conn) (min n (holding buf conn).currSendSize) =
        holding buf (advanceSend conn (min n conn.currSendSize)) := rfl
    simp only [moved, settled, apply_ite (Sent.holding buf)]
    rfl
  | wouldBlock => rfl
  | peerClosed => rfl
  | failed => rfl

theorem connStartSend_holding (buf : Mem) (conn : ConnInfo) (target : Addr) (r : IoResult) :
    connStartSend (holding buf conn) target r = Sent.holding buf (connStartSend conn target r) := by
  simp only [connStartSend, apply_ite (Sent.holding buf), ← connSend_holding]
  rfl

theorem sendHeader_holding (buf : Mem) (rs : List IoResult) (conn : ConnInfo) :
    sendHeader rs (holding buf conn) =
      (holding buf (sendHeader rs conn).1, (sendHeader rs conn).2) := by
  induction rs generalizing conn with
  | nil =>
    by_cases drained : conn.currSendSize = 0
    · simp [sendHeader, holding, drained]
    · simp [sendHeader, holding, drained]
  | cons r rest ih =>
    by_cases drained : conn.currSendSize = 0
    · simp [sendHeader, holding, drained]
    · cases r with
      | done n =>
        have step := ih { conn with
          currSendBuf := conn.currSendBuf + min n conn.currSendSize
          currSendSize := conn.currSendSize - min n conn.currSendSize }
        simp only [holding] at step
        simp [sendHeader, holding, drained, step]
      | wouldBlock =>
        have step := ih conn
        simp only [holding] at step
        simp [sendHeader, holding, drained, step]
      | peerClosed => simp [sendHeader, holding, drained]
      | failed =>
        have step := ih { conn with
          currSendBuf := conn.currSendBuf - 1, currSendSize := conn.currSendSize + 1 }
        simp only [holding] at step
        by_cases start : conn.currSendBuf = 0
        · simp [sendHeader, holding, drained, start]
        · simp [sendHeader, holding, drained, start, step]

theorem finishSendfile_holding (buf : Mem) (conn : ConnInfo) (out : List UInt8) :
    finishSendfile (holding buf conn) out = Sent.holding buf (finishSendfile conn out) := by
  simp only [finishSendfile, apply_ite (Sent.holding buf)]
  rfl

theorem sendBody_holding (files : Nat → Mem) (buf : Mem) (conn : ConnInfo) (r : IoResult)
    (out : List UInt8) :
    sendBody files (holding buf conn) r out = Sent.holding buf (sendBody files conn r out) := by
  cases r with
  | done n =>
    simp only [sendBody, apply_ite (Sent.holding buf), ← finishSendfile_holding]
    rfl
  | wouldBlock =>
    simp only [sendBody, apply_ite (Sent.holding buf), ← finishSendfile_holding]
    rfl
  | peerClosed =>
    simp only [sendBody, apply_ite (Sent.holding buf), ← finishSendfile_holding]
    rfl
  | failed =>
    simp only [sendBody, apply_ite (Sent.holding buf), ← finishSendfile_holding]
    rfl

theorem connStartSendfile_holding (files : Nat → Mem) (buf : Mem) (conn : ConnInfo) (target : Addr)
    (fd offset size : Nat) (rs : List IoResult) (r : IoResult) :
    connStartSendfile files (holding buf conn) target fd offset size rs r =
      ((connStartSendfile files conn target fd offset size rs r).1.map (Sent.holding buf),
        holding buf (connStartSendfile files conn target fd offset size rs r).2.1,
        (connStartSendfile files conn target fd offset size rs r).2.2) := by
  have started : startSendfile (holding buf conn) target fd offset size =
      holding buf (startSendfile conn target fd offset size) := rfl
  simp only [connStartSendfile, started]
  by_cases wait : (startSendfile conn target fd offset size).status.deferred = true
  · have wait' : (holding buf (startSendfile conn target fd offset size)).status.deferred = true := wait
    rw [if_pos wait, if_pos wait']
    rfl
  · have wait' : ¬ (holding buf (startSendfile conn target fd offset size)).status.deferred = true := wait
    rw [if_neg wait, if_neg wait']
    simp only [connSendV2, sendHeader_holding]
    cases (sendHeader rs (startSendfile conn target fd offset size)).2.2 with
    | drained =>
      simp only [sendBody_holding]
      rfl
    | peerClosed => rfl
    | spinning => rfl
    | underrun => rfl

section Calls

variable (c : Nat) (buf : Mem) (w : State)

theorem takeSend_overwrite (i : Nat) :
    takeSend (overwrite c buf w) i = overwritten c buf (takeSend w i) := by
  have kernel : (overwrite c buf w).kernel = w.kernel := rfl
  simp only [takeSend, kernel, apart_currSendSize.overwrite]
  cases w.kernel.sends with
  | nil => rfl
  | cons r rest => rfl

theorem startSendOn_overwrite (i : Nat) (target : Addr) :
    startSendOn (overwrite c buf w) i target = overwritten c buf (startSendOn w i target) := by
  have sent : ∀ r, connStartSend (shown c buf i (w.conns i)) target r =
      ⟨shown c buf i (connStartSend (w.conns i) target r).conn,
        (connStartSend (w.conns i) target r).ret, (connStartSend (w.conns i) target r).out⟩ := by
    intro r
    simp only [shown]
    split
    · exact connStartSend_holding buf _ _ _
    · rfl
  by_cases wait : (w.conns i).status.deferred = true
  · simp only [startSendOn, apart_status.shown, if_pos wait, overwrite_conns, sent,
      overwrite_setConn]
    rfl
  · simp only [startSendOn, apart_status.shown, if_neg wait, takeSend_overwrite, overwrite_conns,
      sent, overwritten, overwrite_setConn]
    rfl

theorem startSendfileOn_overwrite (i : Nat) (target : Addr) (fd size : Nat) :
    startSendfileOn (overwrite c buf w) i target fd size =
      (startSendfileOn w i target fd size).map (overwritten c buf) := by
  have sent : ∀ rs r, connStartSendfile w.files (shown c buf i (w.conns i)) target fd 0 size rs r =
      ((connStartSendfile w.files (w.conns i) target fd 0 size rs r).1.map
          fun s => ⟨shown c buf i s.conn, s.ret, s.out⟩,
        shown c buf i (connStartSendfile w.files (w.conns i) target fd 0 size rs r).2.1,
        (connStartSendfile w.files (w.conns i) target fd 0 size rs r).2.2) := by
    intro rs r
    simp only [shown]
    split
    · exact connStartSendfile_holding w.files buf _ _ _ _ _ _ _
    · simp
  have files : (overwrite c buf w).files = w.files := rfl
  have taken : takeSendfile (overwrite c buf w) =
      (overwrite c buf (takeSendfile w).1, (takeSendfile w).2) := rfl
  by_cases wait : (w.conns i).status.deferred = true
  · simp only [startSendfileOn, apart_status.shown, if_pos wait, overwrite_conns, files, sent]
    cases (connStartSendfile w.files (w.conns i) target fd 0 size [] .wouldBlock).1 with
    | none => rfl
    | some s =>
      simp only [Option.map_some, overwrite_setConn]
      rfl
  · simp only [startSendfileOn, apart_status.shown, if_neg wait, taken, overwrite_conns, files,
      sent]
    cases (connStartSendfile w.files (w.conns i) target fd 0 size (takeSendfile w).2.1
        (takeSendfile w).2.2).1 with
    | none => rfl
    | some s =>
      simp only [Option.map_some, overwrite_setConn]
      rfl

theorem pollMod_overwrite (i : Nat) (pollIn pollOut oneshot : Bool) :
    pollMod (overwrite c buf w) i pollIn pollOut oneshot =
      (pollMod w i pollIn pollOut oneshot).map (overwrite c buf) := by
  simp only [pollMod, apart_sock.overwrite]
  split <;> rfl

/-! ## Releasing requests and connections -/

theorem reqUnlink_overwrite (slot : Nat) :
    reqUnlink (overwrite c buf w) slot = overwritten c buf (reqUnlink w slot) := by
  have prev : ∀ (v : State) (s p : Option Nat),
      setPrev (overwrite c buf v) s p = overwrite c buf (setPrev v s p) := by
    intro v s p
    cases s <;> rfl
  have next : ∀ (v : State) (s p : Option Nat),
      setNext (overwrite c buf v) s p = overwrite c buf (setNext v s p) := by
    intro v s p
    cases s <;> rfl
  simp only [reqUnlink, overwrite_reqs, prev, next]
  rfl

theorem connResetFrom_overwrite (fuel : Nat) (slot : Option Nat) :
    connResetFrom fuel (overwrite c buf w) slot = overwrite c buf (connResetFrom fuel w slot) := by
  induction fuel generalizing w slot with
  | zero => rfl
  | succ fuel ih =>
    cases slot with
    | none => rfl
    | some slot =>
      simp only [connResetFrom, reqUnlink_overwrite, overwritten, ih]

theorem connReset_overwrite (i : Nat) :
    connReset (overwrite c buf w) i = overwrite c buf (connReset w i) := by
  simp only [connReset, apart_reqList.overwrite, connResetFrom_overwrite]

theorem connDelId_overwrite (i : Nat) :
    connDelId (overwrite c buf w) i = overwrite c buf (connDelId w i) := by
  have deaf : Deaf fun conn => { conn with sock := none } := fun _ _ => rfl
  simp only [connDelId, connReset_overwrite]
  exact deaf.setConn c buf (connReset w i) i

theorem connFree_overwrite (i : Nat) :
    connFree (overwrite c buf w) i = overwrite c buf (connFree w i) := by
  have deaf : Deaf fun conn =>
    { conn with buffers := false, status := .close, sock := none, busy := false } := fun _ _ => rfl
  simp only [connFree, connReset_overwrite]
  exact deaf.setConn c buf (connReset w i) i

theorem closeAndForget_overwrite (sock : Option Nat) :
    closeAndForget (overwrite c buf w) sock = (closeAndForget w sock).map (overwrite c buf) := by
  cases sock with
  | none => rfl
  | some s =>
    simp only [closeAndForget, connDelSock, connFindSock, overwrite_emit, apart_sock.overwrite]
    cases findIndex (fun i => decide (((w.emit (.pollDel (some s))).conns i).sock = some s)) maxConns 0 with
    | none => rfl
    | some i =>
      simp only [connDelId_overwrite]
      rfl

end Calls

/-! ## Forwarding -/

section Forwarding

variable {c : Nat} {buf : Mem} {w : State}

/-- An allocated connection is not claimed again. -/
theorem connAlloc_overwrite (used : (w.conns c).busy = true) (sock : Nat) (target : Addr) (proto : Proto) :
    connAlloc (overwrite c buf w) sock target proto =
      overwritten c buf (connAlloc w sock target proto) := by
  simp only [connAlloc, apart_busy.overwrite]
  cases found : findIndex (fun i => !(w.conns i).busy) maxConns 0 with
  | none => rfl
  | some i =>
    have free : (w.conns i).busy = false := by
      simpa using Transitions.findIndex_holds found
    have other : i ≠ c := by
      rintro rfl
      rw [used] at free
      cases free
    have same : shown c buf i ((w.conns i).claim sock target proto w.thread) =
        (w.conns i).claim sock target proto w.thread := if_neg other
    have claimed := overwrite_setConn c buf w i ((w.conns i).claim sock target proto w.thread)
    rw [same] at claimed
    simp only [overwrite_conns, shown, if_neg other]
    exact congrArg (·, some i) claimed

theorem allocForward_overwrite (used : (w.conns c).busy = true) (fwd : FwdOpts) :
    allocForward (overwrite c buf w) fwd = overwritten c buf (allocForward w fwd) := by
  have deaf : ∀ on, Deaf fun conn => { conn with enableDefrag := on } := fun _ _ _ => rfl
  have alloc : connAlloc { overwrite c buf w with nextFd := (overwrite c buf w).nextFd + 1 }
      (overwrite c buf w).nextFd fwd.fwdAddr fwd.proto =
      overwritten c buf (connAlloc { w with nextFd := w.nextFd + 1 } w.nextFd fwd.fwdAddr fwd.proto) :=
    connAlloc_overwrite (w := { w with nextFd := w.nextFd + 1 }) used _ _ _
  simp only [allocForward]
  rw [alloc]
  cases connAlloc { w with nextFd := w.nextFd + 1 } w.nextFd fwd.fwdAddr fwd.proto with
  | mk v slot =>
    cases slot with
    | none => rfl
    | some i => exact congrArg (·, some i) ((deaf v.enableDefrag).setConn c buf v i)

theorem takeSsl_overwrite (c : Nat) (buf : Mem) (w : State) :
    takeSsl (overwrite c buf w) = overwritten c buf (takeSsl w) := by
  have kernel : (overwrite c buf w).kernel = w.kernel := rfl
  simp only [takeSsl, kernel]
  cases w.kernel.ssl with
  | nil => rfl
  | cons r rest => rfl

theorem takeConnect_overwrite (c : Nat) (buf : Mem) (w : State) :
    takeConnect (overwrite c buf w) = overwritten c buf (takeConnect w) := by
  have kernel : (overwrite c buf w).kernel = w.kernel := rfl
  simp only [takeConnect, kernel]
  cases w.kernel.connects with
  | nil => rfl
  | cons r rest => rfl

theorem connEnableSsl_overwrite (c : Nat) (buf : Mem) (w : State) (i : Nat) :
    connEnableSsl (overwrite c buf w) i = overwritten c buf (connEnableSsl w i) := by
  have deaf : Deaf fun conn => { conn with useSsl := true, status := .sslHandshake } := fun _ _ => rfl
  simp only [connEnableSsl, takeSsl_overwrite]
  cases takeSsl w with
  | mk v enabled =>
    cases enabled with
    | false => rfl
    | true => exact congrArg (·, true) (deaf.setConn c buf v i)

theorem connectForward_overwrite (c : Nat) (buf : Mem) (w : State) (i sock : Nat) (proto : Proto) :
    connectForward (overwrite c buf w) i sock proto =
      overwritten c buf (connectForward w i sock proto) := by
  have deaf : ∀ status, Deaf fun conn => { conn with status := status } := fun _ _ _ => rfl
  have enabled : (if proto = .tls then connEnableSsl ((overwrite c buf w).emit (.pollAdd sock i)) i
      else ((overwrite c buf w).emit (.pollAdd sock i), true)) =
      overwritten c buf (if proto = .tls then connEnableSsl (w.emit (.pollAdd sock i)) i
        else (w.emit (.pollAdd sock i), true)) := by
    split
    · exact connEnableSsl_overwrite c buf (w.emit (.pollAdd sock i)) i
    · rfl
  simp only [connectForward, enabled]
  cases (if proto = .tls then connEnableSsl (w.emit (.pollAdd sock i)) i
      else (w.emit (.pollAdd sock i), true)) with
  | mk v ok =>
    cases ok with
    | false =>
      simp only [overwritten, overwrite_emit, connFree_overwrite]
    | true =>
      simp only [overwritten, takeConnect_overwrite]
      cases takeConnect v with
      | mk u result =>
        cases result with
        | failed => rfl
        | inProgress =>
          simp only
          exact congrArg (·, some i) ((deaf _).setConn c buf u i)
        | done =>
          simp only
          split
          · exact congrArg (·, some i) ((deaf _).setConn c buf u i)
          · have settled := (deaf .ready).setConn c buf u i
            exact congrArg (fun v : State => ({ v with activeConns := u.activeConns + 1 }, some i)) settled

theorem forwardConn_overwrite (used : (w.conns c).busy = true) (fwd : FwdOpts) :
    forwardConn (overwrite c buf w) fwd = overwritten c buf (forwardConn w fwd) := by
  have candidate : reusable (overwrite c buf w) fwd.fwdAddr fwd.proto = reusable w fwd.fwdAddr fwd.proto := by
    funext i
    have apart : Apart fun conn : ConnInfo =>
        (conn.proto, conn.parentThread, conn.sock, conn.isListen, conn.target) := fun _ _ => rfl
    have same := apart.overwrite c buf w i
    simp only [Prod.mk.injEq] at same
    obtain ⟨proto, thread, sock, listen, target⟩ := same
    have own : (overwrite c buf w).thread = w.thread := rfl
    simp only [reusable, proto, thread, sock, listen, target, own]
  simp only [forwardConn, connFindExisting, candidate, allocForward_overwrite used]
  cases findIndex (reusable w fwd.fwdAddr fwd.proto) maxConns 0 with
  | some i => rfl
  | none =>
    cases allocForward w fwd with
    | mk v slot =>
      cases slot with
      | none => rfl
      | some i =>
        simp only [overwritten]
        split
        · exact connectForward_overwrite c buf v i w.nextFd fwd.proto
        · rfl

theorem timerfdSettime_overwrite (c : Nat) (buf : Mem) (w : State) (its : ItimerSpec) :
    timerfdSettime (overwrite c buf w) its = (timerfdSettime w its).map (overwrite c buf) := by
  simp only [timerfdSettime]
  split <;> rfl

theorem insertTimeout_overwrite (c : Nat) (buf : Mem) (w : State) (reqId : Nat) (micros : Int) :
    insertTimeout (overwrite c buf w) reqId micros =
      (insertTimeout w reqId micros).map (overwrite c buf) := by
  have found : reqGetById (overwrite c buf w) reqId = reqGetById w reqId := rfl
  have queue : (overwrite c buf w).timeoutQueue = w.timeoutQueue := rfl
  have key : insertKey (overwrite c buf w) micros = insertKey w micros := rfl
  simp only [insertTimeout, found, overwrite_reqs, queue, key]
  cases reqGetById w reqId with
  | none => rfl
  | some slot =>
    simp only
    split
    · rfl
    · split
      · refine timerfdSettime_overwrite c buf (State.setReq { w with
          timeElapsed := _, timeoutQueue := _, clock := _ } slot _) _
      · rfl

theorem connPrepareSendMessage_shown (c : Nat) (buf : Mem) (i : Nat) (conn : ConnInfo) :
    connPrepareSendMessage (shown c buf i conn) =
      (shown c buf i (connPrepareSendMessage conn).1, (connPrepareSendMessage conn).2) := by
  simp only [shown]
  split <;> rfl

theorem fillForward_shown (c : Nat) (buf : Mem) (i : Nat) (conn : ConnInfo) (mem : Mem)
    (m cmd reqId p : Nat) (fwd : FwdOpts) :
    fillForward (shown c buf i conn) mem m cmd reqId p fwd =
      (shown c buf i (fillForward conn mem m cmd reqId p fwd).1,
        (fillForward conn mem m cmd reqId p fwd).2) := by
  have sendBuf : (shown c buf i conn).sendBuf = conn.sendBuf :=
    Apart.shown c buf (f := ConnInfo.sendBuf) (fun _ _ => rfl) i conn
  have deaf : ∀ b, Deaf fun conn => { conn with sendBuf := b } := fun _ _ _ => rfl
  have filled : ∀ b, { shown c buf i conn with sendBuf := b } =
      shown c buf i { conn with sendBuf := b } := fun b => (deaf b).shown c buf i conn
  simp only [fillForward, sendBuf, filled]
  split <;> rfl

/-- The request whose connection is overwritten outside its message. -/
structure Overwritten (w : State) (slot m c : Nat) (buf : Mem) : Prop where
  conn : (w.reqs slot).connId = c
  used : InUse w slot
  message : SameMessage (reqMem w slot) buf m
  current : ∀ cmd, (w.reqs slot).currCmd = some cmd → CommandOf (reqMem w slot) m cmd

theorem Overwritten.busy {slot m : Nat} (h : Overwritten w slot m c buf) : (w.conns c).busy = true := by
  have used := h.used
  rwa [InUse, h.conn] at used

theorem Overwritten.sending {slot m : Nat} {w' : State} (h : Overwritten w slot m c buf)
    (s : Sending w w') : Overwritten w' slot m c buf where
  conn := (s.connId slot).trans h.conn
  used := s.inUse h.used
  message := by
    rw [s.reqMem h.used]
    exact h.message
  current := by
    have kept : (w'.reqs slot).currCmd = (w.reqs slot).currCmd :=
      congrArg (fun t => t.2.2.2.2.2.2.2.1) (s.core slot)
    rw [s.reqMem h.used, kept]
    exact h.current

theorem sendForward_overwrite {slot m cmd : Nat} (h : Overwritten w slot m c buf)
    (s : CommandOf (reqMem w slot) m cmd) (i : Nat) (fwd : FwdOpts) :
    sendForward (overwrite c buf w) slot m cmd i fwd =
      (sendForward w slot m cmd i fwd).map (overwritten c buf) := by
  simp only [sendForward, overwrite_conns, connPrepareSendMessage_shown,
    reqMem_overwrite c buf w h.conn, h.message.fillForward _ _ _ _ s, fillForward_shown, overwrite_setConn,
    startSendOn_overwrite, overwrite_reqs]
  have sendBuf : ∀ conn, (shown c buf i conn).sendBuf = conn.sendBuf :=
    Apart.shown c buf (f := ConnInfo.sendBuf) (fun _ _ => rfl) i
  have sock : ∀ conn, (shown c buf i conn).sock = conn.sock := apart_sock.shown c buf i
  simp only [sendBuf, sock]
  split
  · rfl
  · split
    · rfl
    · split
      · rfl
      · simp only [overwritten, overwrite_emit, insertTimeout_overwrite]
        split
        · rfl
        · split
          · cases insertTimeout _ _ _ <;> rfl
          · rfl

theorem skipAcked_overwrite {slot m cmd : Nat} (h : Overwritten w slot m c buf)
    (s : CommandOf (reqMem w slot) m cmd) :
    skipAcked (overwrite c buf w) slot m cmd = (skipAcked w slot m cmd).map (overwritten c buf) := by
  have own := h.message.commands
  have mem := reqMem_overwrite c buf w h.conn
  have skipped : cmdBoundedSkip buf (w.reqs slot).currCmd 1 (messageEnd (reqMem w slot) m) =
      cmdBoundedSkip (reqMem w slot) (w.reqs slot).currCmd 1 (messageEnd (reqMem w slot) m) := by
    cases current : (w.reqs slot).currCmd with
    | none => rfl
    | some c₀ => exact (own.cmdBoundedSkip (h.current c₀ current).start 1).symm
  simp only [skipAcked, mem, h.message.messageEnd, overwrite_reqs, skipped,
    ← own.cmdBoundedNextForward s.start]
  cases branch : cmdBoundedNextForward (reqMem w slot) (some cmd) (messageEnd (reqMem w slot) m) with
  | error e => rfl
  | ok next =>
    have start : ∀ x, next.or (cmdBoundedSkip (reqMem w slot) (w.reqs slot).currCmd 1
        (messageEnd (reqMem w slot) m)) = some x → messageFirstCmd m ≤ x := by
      intro x e
      cases next with
      | some y =>
        cases e
        exact (nextForward_stands s.start branch).1.start
      | none =>
        rw [Option.none_or] at e
        cases current : (w.reqs slot).currCmd with
        | none =>
          rw [current] at e
          cases e
        | some c₀ =>
          rw [current] at e
          exact Nat.le_trans (h.current c₀ current).start (cmdBoundedSkip_le e)
    simp only [← own.cmdLog (messageEnd (reqMem w slot) m + 1) start]
    cases cmdLog _ _ _ _ <;> rfl

/-- The current command leaves room for the options of a FORWARD. -/
def Roomy (w : State) (slot m : Nat) : Prop :=
  ∀ cmd, (w.reqs slot).currCmd = some cmd → cmd + 28 ≤ messageEnd (reqMem w slot) m

theorem singleStartForward_overwrite {slot m cmd : Nat} (h : Overwritten w slot m c buf)
    (room : Roomy w slot m) (s : CommandOf (reqMem w slot) m cmd)
    (forward : (cmdAt (reqMem w slot) cmd).isForward = true) :
    singleStartForward (overwrite c buf w) slot m cmd =
      (singleStartForward w slot m cmd).map (overwritten c buf) := by
  have own := h.message.commands
  have mem := reqMem_overwrite c buf w h.conn
  have opts := own.fwdOpts s.start (room_of_forward s forward)
  have found := own.findForwardFrom (fwdOpts (reqMem w slot) cmd).fwdAddr
    (messageEnd (reqMem w slot) m + 1) 0 fun c₀ e => ⟨(h.current c₀ e).start, room c₀ e⟩
  simp only [singleStartForward, findForwardReplyId, mem, h.message.messageEnd, ← opts,
    overwrite_reqs, ← found]
  cases findForwardFrom (reqMem w slot) (fwdOpts (reqMem w slot) cmd).fwdAddr
      (messageEnd (reqMem w slot) m) (messageEnd (reqMem w slot) m + 1) (w.reqs slot).currCmd 0 with
  | error e => rfl
  | ok id =>
    cases id with
    | none => rfl
    | some id =>
      simp only
      split
      · exact skipAcked_overwrite h s
      · rw [forwardConn_overwrite h.busy]
        have kept := (forwardConn_spec w (fwdOpts (reqMem w slot) cmd)).1
        cases reached : forwardConn w (fwdOpts (reqMem w slot) cmd) with
        | mk v conn =>
          rw [reached] at kept
          cases conn with
          | none => rfl
          | some i =>
            have here : CommandOf (reqMem v slot) m cmd := by
              rw [CommandOf, kept.reqMem h.used]
              exact s
            exact sendForward_overwrite (h.sending kept) here i _

theorem Roomy.sending {slot m : Nat} {w' : State} (h : Roomy w slot m) (used : InUse w slot)
    (s : Sending w w') : Roomy w' slot m := by
  have kept : (w'.reqs slot).currCmd = (w.reqs slot).currCmd :=
    congrArg (fun t => t.2.2.2.2.2.2.2.1) (s.core slot)
  intro cmd current
  rw [s.reqMem used]
  exact h cmd (kept ▸ current)

theorem sendBranches_overwrite {slot m fuel : Nat} {itr : Option Nat} (h : Overwritten w slot m c buf)
    (room : Roomy w slot m) (s : ∀ cmd, itr = some cmd → CommandOf (reqMem w slot) m cmd ∧
      (cmdAt (reqMem w slot) cmd).isForward = true) :
    sendBranches slot m fuel (overwrite c buf w) itr =
      (sendBranches slot m fuel w itr).map (overwritten c buf) := by
  induction fuel generalizing w itr with
  | zero => rfl
  | succ fuel ih =>
    cases itr with
    | none => rfl
    | some cmd =>
      obtain ⟨here, forward⟩ := s cmd rfl
      simp only [sendBranches, singleStartForward_overwrite h room here forward]
      cases sent : singleStartForward w slot m cmd with
      | error e => rfl
      | ok r =>
        obtain ⟨v, ret⟩ := r
        cases ret with
        | none => rfl
        | some x =>
          have kept := (singleStartForward_spec sent).1
          have h' := h.sending kept
          simp only [Except.map, overwritten, reqMem_overwrite c buf v h'.conn, h'.message.messageEnd,
            ← h'.message.commands.cmdBoundedNextForward here.start]
          cases branch : cmdBoundedNextForward (reqMem v slot) (some cmd)
              (messageEnd (reqMem v slot) m) with
          | error e => rfl
          | ok next =>
            refine ih h' (room.sending h.used kept) fun y e => ?_
            subst e
            obtain ⟨later, type⟩ := nextForward_stands here.start branch
            exact ⟨later, by rw [type]; rfl⟩

theorem startForward_overwrite {slot m cmd : Nat} (h : Overwritten w slot m c buf)
    (room : Roomy w slot m) (s : CommandOf (reqMem w slot) m cmd)
    (forward : (cmdAt (reqMem w slot) cmd).isForward = true) :
    startForward (overwrite c buf w) slot m cmd =
      (startForward w slot m cmd).map (overwritten c buf) := by
  have opts := h.message.commands.fwdOpts s.start (room_of_forward s forward)
  have begun : beginContext (overwrite c buf w) slot cmd = overwrite c buf (beginContext w slot cmd) := by
    simp only [beginContext, reqMem_overwrite c buf w h.conn, ← opts, overwrite_reqs]
    rfl
  have mem : reqMem (beginContext w slot cmd) slot = reqMem w slot := beginContext_reqMem w slot cmd
  have req : ((beginContext w slot cmd).reqs slot).connId = (w.reqs slot).connId ∧
      ((beginContext w slot cmd).reqs slot).currCmd = (w.reqs slot).currCmd := by
    simp only [beginContext, State.setReq, Function.update_self]
    split <;> exact ⟨rfl, rfl⟩
  have h' : Overwritten (beginContext w slot cmd) slot m c buf := {
    conn := req.1.trans h.conn
    used := beginContext_inUse cmd h.used
    message := by rw [mem]; exact h.message
    current := by rw [mem, req.2]; exact h.current }
  have room' : Roomy (beginContext w slot cmd) slot m := by
    intro x current
    rw [mem]
    exact room x (req.2 ▸ current)
  simp only [startForward, begun, reqMem_overwrite c buf _ h'.conn, h'.message.messageEnd]
  refine sendBranches_overwrite h' room' fun x e => ?_
  cases e
  rw [CommandOf, mem]
  exact ⟨s, forward⟩

theorem processForward_overwrite {slot m cmd : Nat} (h : Overwritten w slot m c buf)
    (room : Roomy w slot m) (s : CommandOf (reqMem w slot) m cmd)
    (forward : (cmdAt (reqMem w slot) cmd).isForward = true) :
    processForward (overwrite c buf w) slot m cmd =
      (processForward w slot m cmd).map (overwritten c buf) := by
  simp only [processForward, startForward_overwrite h room s forward]
  cases startForward w slot m cmd <;> rfl

end Forwarding

/-! ## The response -/

section Reply

variable {c : Nat} {buf : Mem} {w : State}

theorem replyOpts_within {lo hi cmd : Nat} {mem mem' : Mem} (h : Within lo hi mem mem')
    (s : Stands lo hi mem cmd) (type : cmdAt mem cmd = .reply) :
    replyOpts mem cmd = replyOpts mem' cmd := by
  have fits := s.fits
  simp only [type, cmdTypeSize, commandHeader] at fits
  have start := s.start
  simp only [replyOpts, h.u32 (show lo ≤ cmd + 4 by omega) (by omega),
    h.u32 (show lo ≤ cmd + 8 by omega) (by omega), h (cmd + 12) (by omega) (by omega)]

theorem fillReply_shown (c : Nat) (buf : Mem) (i : Nat) (conn : ConnInfo) (mem : Mem) (m : Nat)
    (opts : ReplyOpts) (p : Nat) :
    fillReply (shown c buf i conn) mem m opts p = shown c buf i (fillReply conn mem m opts p) :=
  Deaf.shown c buf (f := fun conn => fillReply conn mem m opts p) (fun _ _ => rfl) i conn

theorem transmitReply_overwrite (c : Nat) (buf : Mem) (w : State) (slot i : Nat) (opts : ReplyOpts) :
    transmitReply (overwrite c buf w) slot i opts =
      (transmitReply w slot i opts).map (overwritten c buf) := by
  simp only [transmitReply, overwrite_reqs]
  split
  · exact startSendfileOn_overwrite c buf w i _ _ _
  · simp only [startSendOn_overwrite]
    rfl

theorem shiftNewer_overwrite (c : Nat) (buf : Mem) (size fuel : Nat) (w : State) (slot : Option Nat) :
    shiftNewer size fuel (overwrite c buf w) slot = overwrite c buf (shiftNewer size fuel w slot) := by
  induction fuel generalizing w slot with
  | zero => rfl
  | succ fuel ih =>
    cases slot with
    | none => rfl
    | some s =>
      simp only [shiftNewer, overwrite_reqs, overwrite_setReq, ih]

theorem dropHead_overwrite (c : Nat) (buf : Mem) (w : State) (i slot : Nat) :
    dropHead (overwrite c buf w) i slot = overwrite c buf (dropHead w i slot) := by
  have deaf : ∀ head, Deaf fun conn => { conn with reqList := head } := fun _ _ _ => rfl
  simp only [dropHead, apart_reqList.overwrite, overwrite_reqs]
  split
  · exact (deaf _).setConn c buf w i
  · rfl

/-- Removing a request reads its own size; the bytes behind its message move,
whatever they are. -/
theorem reclaim_overwrite {slot m : Nat} (placed : (w.reqs slot).messagePtr = some m)
    (same : SameMessage (w.conns c).recvBuf buf m) :
    ∃ buf', reclaim (overwrite c buf w) c slot = overwrite c buf' (reclaim w c slot) := by
  have held : (overwrite c buf w).conns c = holding buf (w.conns c) := by
    rw [overwrite_conns, shown, if_pos rfl]
  by_cases moves : (w.conns c).enableDefrag = true ∧ m < bufSize
  · have moved : (overwrite c buf w).setConn c
        (defragment (holding buf (w.conns c)) m (reqSizeOf (w.conns c).recvBuf m)) =
        overwrite c (defragment (holding buf (w.conns c)) m (reqSizeOf (w.conns c).recvBuf m)).recvBuf
          (w.setConn c (defragment (w.conns c) m (reqSizeOf (w.conns c).recvBuf m))) := by
      simp [overwrite, State.setConn, holding, defragment]
    have moves' : (holding buf (w.conns c)).enableDefrag = true ∧ m < bufSize := moves
    have size : reqSizeOf (holding buf (w.conns c)).recvBuf m = reqSizeOf (w.conns c).recvBuf m :=
      same.reqSizeOf
    refine ⟨(defragment (holding buf (w.conns c)) m (reqSizeOf (w.conns c).recvBuf m)).recvBuf, ?_⟩
    simp only [reclaim, overwrite_reqs, placed, held, if_pos moves, if_pos moves', size]
    rw [moved, shiftNewer_overwrite]
  · have moves' : ¬ ((holding buf (w.conns c)).enableDefrag = true ∧ m < bufSize) := moves
    refine ⟨buf, ?_⟩
    simp only [reclaim, overwrite_reqs, placed, held, if_neg moves, if_neg moves']

theorem connReqRemove_overwrite {slot m : Nat} (placed : (w.reqs slot).messagePtr = some m)
    (same : SameMessage (w.conns c).recvBuf buf m) :
    ∃ buf', connReqRemove (overwrite c buf w) c slot = overwrite c buf' (connReqRemove w c slot) := by
  obtain ⟨buf', moved⟩ := reclaim_overwrite placed same
  refine ⟨buf', ?_⟩
  simp only [connReqRemove, moved, dropHead_overwrite, reqUnlink_overwrite, overwritten]

theorem recvSide_setConn (w : State) (i : Nat) {conn : ConnInfo} (side : recvSide conn = recvSide (w.conns i))
    (j : Nat) : recvSide ((w.setConn i conn).conns j) = recvSide (w.conns j) := by
  simp only [State.setConn, Function.update_apply]
  split
  · rename_i own
    rw [own, side]
  · rfl

/-- Sending the response leaves the requests and every receive side alone. -/
theorem transmitReply_receiving {w w' : State} {slot i : Nat} {opts : ReplyOpts} {ret : Int}
    (h : transmitReply w slot i opts = .ok (w', ret)) :
    w'.reqs = w.reqs ∧ ∀ j, recvSide (w'.conns j) = recvSide (w.conns j) := by
  have plain : ∀ r, (.ok (startSendOn w i (w.reqs slot).target) : Except Abort (State × Int)) = .ok (w', r) →
      w'.reqs = w.reqs ∧ ∀ j, recvSide (w'.conns j) = recvSide (w.conns j) := by
    intro r e
    have state : (startSendOn w i (w.reqs slot).target).1 = w' := congrArg Prod.fst (Except.ok.inj e)
    subst state
    refine ⟨(startSendOn_spec w i _).2.1, fun j => ?_⟩
    have side := sendBlind_recvSide.connStartSend (w.conns i) (w.reqs slot).target
    simp only [startSendOn, State.emit]
    split
    · exact recvSide_setConn w i (side _) j
    · have taken := takeSend_conns w i
      rw [← congrFun taken j]
      exact recvSide_setConn (takeSend w i).1 i (by rw [taken]; exact side _) j
  cases mode : opts.mode with
  | normal =>
    simp only [transmitReply, mode] at h
    exact plain ret h
  | other code =>
    simp only [transmitReply, mode] at h
    exact plain ret h
  | sendfile =>
    simp only [transmitReply, mode, startSendfileOn] at h
    split at h
    · cases h
    · cases h
      refine ⟨by split <;> rfl, fun j => ?_⟩
      have side := sendBlind_recvSide.connStartSendfile (w.conns i) w.files (w.reqs slot).target
        (w.storageFd opts.devId) 0 opts.respSize
      split
      · exact recvSide_setConn w i (side _ _) j
      · exact recvSide_setConn (takeSendfile w).1 i (side _ _) j

theorem reply_overwrite {slot m cmd : Nat} (h : Overwritten w slot m c buf)
    (placed : (w.reqs slot).messagePtr = some m) (s : CommandOf (reqMem w slot) m cmd)
    (type : cmdAt (reqMem w slot) cmd = .reply) :
    ∃ buf', reply (overwrite c buf w) slot m cmd = (reply w slot m cmd).map (overwritten c buf') := by
  have opts := replyOpts_within h.message.commands s type
  have filled : ∀ conn p, fillReply conn buf m (replyOpts (reqMem w slot) cmd) p =
      fillReply conn (reqMem w slot) m (replyOpts (reqMem w slot) cmd) p := by
    intro conn p
    simp only [fillReply, h.message.reqIdOf, h.message.statusOf]
  have sendBuf : ∀ i conn, (shown c buf i conn).sendBuf = conn.sendBuf :=
    Apart.shown c buf (f := ConnInfo.sendBuf) fun _ _ => rfl
  simp only [reply, reqMem_overwrite c buf w h.conn, overwrite_reqs, ← opts, overwrite_conns,
    connPrepareSendMessage_shown, filled, fillReply_shown, sendBuf, overwrite_setConn,
    transmitReply_overwrite]
  split
  · exact ⟨buf, rfl⟩
  · cases sent : transmitReply (w.setConn (w.reqs slot).connId
        (fillReply (connPrepareSendMessage (w.conns (w.reqs slot).connId)).1 (reqMem w slot) m
          (replyOpts (reqMem w slot) cmd) (connPrepareSendMessage (w.conns (w.reqs slot).connId)).2))
        slot (w.reqs slot).connId (replyOpts (reqMem w slot) cmd) with
    | error e => exact ⟨buf, rfl⟩
    | ok r =>
      obtain ⟨v, ret⟩ := r
      obtain ⟨reqs, sides⟩ := transmitReply_receiving sent
      have placed' : (v.reqs slot).messagePtr = some m := by
        rw [reqs]
        exact placed
      have same : SameMessage (v.conns c).recvBuf buf m := by
        have kept : (v.conns c).recvBuf = reqMem w slot := by
          rw [recvBuf_of_recvSide (sides c), ← h.conn]
          simp [State.setConn, fillReply, connPrepareSendMessage, reqMem]
        rw [kept]
        exact h.message
      obtain ⟨buf', removed⟩ := connReqRemove_overwrite placed' same
      refine ⟨buf', ?_⟩
      simp only [Except.map, overwritten, h.conn, removed]
      rfl

theorem processReply_overwrite {slot m cmd : Nat} (h : Overwritten w slot m c buf)
    (placed : (w.reqs slot).messagePtr = some m) (s : CommandOf (reqMem w slot) m cmd)
    (type : cmdAt (reqMem w slot) cmd = .reply) :
    ∃ buf', processReply (overwrite c buf w) slot m cmd =
      (processReply w slot m cmd).map (overwritten c buf') := by
  obtain ⟨buf', replied⟩ := reply_overwrite h placed s type
  refine ⟨buf', ?_⟩
  simp only [processReply, replied, overwrite_reqs]
  cases reply w slot m cmd with
  | error e => rfl
  | ok r =>
    obtain ⟨v, ret⟩ := r
    simp only [Except.map, overwritten, apart_status.overwrite, apart_sock.overwrite, pollMod_overwrite,
      closeAndForget_overwrite]
    split
    · split
      · cases pollMod _ _ _ _ _ <;> rfl
      · cases closeAndForget _ _ <;> rfl
    · split
      · cases pollMod _ _ _ _ _ <;> rfl
      · rfl

end Reply

/-! ## Execution -/

section Execution

variable {c : Nat} {buf : Mem} {w : State}

theorem Overwritten.emit {slot m : Nat} (h : Overwritten w slot m c buf) (e : Effect) :
    Overwritten (w.emit e) slot m c buf := ⟨h.conn, h.used, h.message, h.current⟩

/-- The loop stands at a command of the message, not before the current one. -/
structure Reached (w : State) (slot m cmd : Nat) : Prop where
  command : CommandOf (reqMem w slot) m cmd
  passed : ∀ c₀, (w.reqs slot).currCmd = some c₀ → c₀ ≤ cmd

theorem Reached.roomy {slot m cmd : Nat} (h : Reached w slot m cmd)
    (forward : (cmdAt (reqMem w slot) cmd).isForward = true) : Roomy w slot m := by
  intro c₀ current
  have room := room_of_forward h.command forward
  have before := h.passed c₀ current
  omega

theorem storage_within {lo hi cmd : Nat} {mem mem' : Mem} (h : Within lo hi mem mem')
    (s : Stands lo hi mem cmd) (type : cmdAt mem cmd = .store ∨ cmdAt mem cmd = .load) :
    storageDevice mem' cmd = storageDevice mem cmd ∧ storeWaitSync mem' cmd = storeWaitSync mem cmd := by
  have room : cmd + 28 ≤ hi := by
    have fits := s.fits
    rcases type with type | type <;> simpa only [type, cmdTypeSize, commandHeader] using fits
  have start := s.start
  have wait := h (cmd + 20) (by omega) (by omega)
  have device := h (cmd + 21) (by omega) (by omega)
  simp only [storageDevice, storeWaitSync, storeDevId, loadDevId, ← h.type s, wait, device, and_self]

theorem processFrom_overwrite {slot m fuel : Nat} {cmd : Option Nat} (h : Overwritten w slot m c buf)
    (placed : (w.reqs slot).messagePtr = some m) (s : ∀ x, cmd = some x → Reached w slot m x) :
    ∃ buf', processFrom buf slot m fuel (overwrite c buf w) cmd =
      (processFrom (reqMem w slot) slot m fuel w cmd).map (overwritten c buf') := by
  induction fuel generalizing w cmd with
  | zero => exact ⟨buf, rfl⟩
  | succ fuel ih =>
    cases cmd with
    | none => exact ⟨buf, rfl⟩
    | some cmd =>
      have here := s cmd rfl
      have own := h.message.commands
      have skip := own.cmdBoundedSkip here.command.start 1
      have next := own.cmdBoundedNext here.command
      have onward : ∀ e : Effect, ∀ x,
          cmdBoundedSkip (reqMem w slot) (some cmd) 1 (messageEnd (reqMem w slot) m) = some x →
          Reached (w.emit e) slot m x := by
        intro e x step
        have later := (cmdBoundedSkip_spec step).1
        refine ⟨here.command.skip step, fun c₀ current => ?_⟩
        have before := here.passed c₀ current
        omega
      have continued : ∀ e : Effect, ∃ buf', processFrom buf slot m fuel (overwrite c buf (w.emit e))
          (cmdBoundedSkip (reqMem w slot) (some cmd) 1 (messageEnd (reqMem w slot) m)) =
          (processFrom (reqMem w slot) slot m fuel (w.emit e)
            (cmdBoundedSkip (reqMem w slot) (some cmd) 1 (messageEnd (reqMem w slot) m))).map
            (overwritten c buf') := fun e => ih (h.emit e) placed (onward e)
      have devices : (overwrite c buf w).storageDevices = w.storageDevices := rfl
      simp only [processFrom, ← own.type here.command, h.message.messageEnd, ← skip, ← next, devices,
        overwrite_emit, overwrite_reqs, overwrite_setCurrCmd]
      cases type : cmdAt (reqMem w slot) cmd with
      | eom => exact ⟨buf, rfl⟩
      | compute =>
        have fits := here.command.fits
        simp only [type, cmdTypeSize, commandHeader] at fits
        have time : compTimeUs buf cmd = compTimeUs (reqMem w slot) cmd :=
          (own.u32 (Nat.le_add_right_of_le here.command.start) (by omega)).symm
        simp only [time]
        exact continued _
      | forwardBegin =>
        have forward : (cmdAt (reqMem w slot) cmd).isForward = true := by rw [type]; rfl
        have current : ((setCurrCmd w slot (some cmd)).reqs slot).currCmd = some cmd := by
          simp [setCurrCmd, State.setReq]
        have conn : ((setCurrCmd w slot (some cmd)).reqs slot).connId = (w.reqs slot).connId := by
          simp [setCurrCmd, State.setReq]
        have mem : reqMem (setCurrCmd w slot (some cmd)) slot = reqMem w slot := by
          rw [reqMem, conn]
          rfl
        have h' : Overwritten (setCurrCmd w slot (some cmd)) slot m c buf := {
          conn := conn.trans h.conn
          used := by rw [InUse, conn]; exact h.used
          message := by rw [mem]; exact h.message
          current := fun x e => by
            rw [current] at e
            cases e
            rw [CommandOf, mem]
            exact here.command }
        have begun : Reached (setCurrCmd w slot (some cmd)) slot m cmd := by
          refine ⟨by rw [CommandOf, mem]; exact here.command, fun x e => ?_⟩
          rw [current] at e
          cases e
          exact Nat.le_refl _
        have forward' : (cmdAt (reqMem (setCurrCmd w slot (some cmd)) slot) cmd).isForward = true := by
          rw [mem]
          exact forward
        exact ⟨buf, processForward_overwrite h' (begun.roomy forward') begun.command forward'⟩
      | forwardContinue =>
        have forward : (cmdAt (reqMem w slot) cmd).isForward = true := by rw [type]; rfl
        exact ⟨buf, processForward_overwrite h (here.roomy forward) here.command forward⟩
      | reply => exact processReply_overwrite h placed here.command type
      | store =>
        obtain ⟨device, wait⟩ := storage_within own here.command (Or.inl type)
        simp only [device, wait]
        split
        · exact ⟨buf, rfl⟩
        · split
          · exact continued _
          · exact ⟨buf, rfl⟩
      | load =>
        obtain ⟨device, -⟩ := storage_within own here.command (Or.inr type)
        simp only [device]
        split
        · exact ⟨buf, rfl⟩
        · exact ⟨buf, rfl⟩
      | pskip => exact ⟨buf, rfl⟩
      | unknown code => exact ⟨buf, rfl⟩

/-- A request is executed by the bytes of its own message. -/
theorem processSingleMessage_overwrite {slot m : Nat} (h : Overwritten w slot m c buf)
    (placed : (w.reqs slot).messagePtr = some m) :
    ∃ buf', processSingleMessage (overwrite c buf w) slot =
      (processSingleMessage w slot).map (overwritten c buf') := by
  have reached : ∀ x, (w.reqs slot).currCmd = some x → Reached w slot m x := by
    intro x e
    refine ⟨h.current x e, fun c₀ e' => ?_⟩
    rw [e] at e'
    exact Nat.le_of_eq (Option.some.inj e'.symm)
  obtain ⟨buf', same⟩ : ∃ buf', processFrom buf slot m (messageEnd (reqMem w slot) m + 1) (overwrite c buf w)
      (w.reqs slot).currCmd = _ := processFrom_overwrite h placed reached
  refine ⟨buf', ?_⟩
  simpa only [processSingleMessage, overwrite_reqs, placed, reqMem_overwrite c buf w h.conn,
    h.message.messageEnd] using same

end Execution

end OwnBytes
