import DistWalk.OwnBytes
import DistWalk.BufferSpace

/-!
# What a batch makes of the bytes it receives

`conn_prepare_recv_message` trusts the size in the header of a message, and
`obtain_messages` looks at its first command before any walker has checked that it
lies inside. When the size covers the header and the first command, every message of
a batch is classified and executed by its own bytes; the bytes around it do not matter.
-/

namespace ReceivedBytes

open ByteMemory Message Connection PriorityQueue Worker Timeout Node Requests Transitions Walkers BoundedReads
  OwnBytes ReceiveQueue BufferLayout LayoutSteps Forwarding Batches BufferSpace

/-! ## The bytes received never grow during a batch -/

/-- Connections in use stay in use, and no bytes are added to their buffers. -/
def Confined (w w' : State) : Prop :=
  ∀ d, (w.conns d).busy = true →
    (w'.conns d).busy = true ∧ (w'.conns d).currRecvBuf ≤ (w.conns d).currRecvBuf

theorem Confined.of_eq {w w' : State}
    (same : ∀ d, (w.conns d).busy = true → (w'.conns d).busy = (w.conns d).busy ∧
      (w'.conns d).currRecvBuf = (w.conns d).currRecvBuf) : Confined w w' := by
  intro d used
  obtain ⟨busy, received⟩ := same d used
  exact ⟨busy.trans used, Nat.le_of_eq received⟩

theorem reclaim_confined (w : State) (c slot : Nat) : Confined w (reclaim w c slot) := by
  intro d used
  unfold reclaim
  split
  · exact ⟨used, Nat.le_refl _⟩
  · split
    · rw [shiftNewer_conns]
      by_cases own : d = c
      · subst own
        simp only [State.setConn, Function.update_self, defragment]
        exact ⟨used, Nat.sub_le _ _⟩
      · simp only [State.setConn, Function.update_of_ne own]
        exact ⟨used, Nat.le_refl _⟩
    · exact ⟨used, Nat.le_refl _⟩

theorem connReqRemove_confined (w : State) (c slot : Nat) : Confined w (connReqRemove w c slot) := by
  intro d used
  obtain ⟨busy, received⟩ := reclaim_confined w c slot d used
  rw [connReqRemove, reqUnlink_conns, dropHead_conn]
  by_cases own : d = c
  · subst own
    rw [Function.update_self]
    exact ⟨busy, received⟩
  · rw [Function.update_of_ne own]
    exact ⟨busy, received⟩

theorem closeAndForget_confined {w w' : State} {sock : Option Nat} (h : closeAndForget w sock = .ok w') :
    Confined w w' := by
  simp only [closeAndForget, connDelSock] at h
  cases found : connFindSock (w.emit (.pollDel sock)) sock with
  | error e => simp only [found] at h; cases h
  | ok slot =>
    cases slot with
    | none =>
      simp only [found] at h
      cases h
      exact Confined.of_eq fun _ _ => ⟨rfl, rfl⟩
    | some c =>
      simp only [found] at h
      cases h
      have table : (connReset (w.emit (.pollDel sock)) c).conns = w.conns := connResetFrom_conns _ _ _
      refine Confined.of_eq fun d _ => ?_
      change ((connDelId (w.emit (.pollDel sock)) c).conns d).busy = _ ∧
        ((connDelId (w.emit (.pollDel sock)) c).conns d).currRecvBuf = _
      simp only [connDelId, State.setConn, table, Function.update_apply]
      split
      · rename_i own
        rw [own]
        exact ⟨rfl, rfl⟩
      · exact ⟨rfl, rfl⟩

theorem conduct_confined : Conduct Confined where
  trans := by
    intro a b c h h' d used
    obtain ⟨busy, received⟩ := h d used
    obtain ⟨busy', received'⟩ := h' d busy
    exact ⟨busy', Nat.le_trans received' received⟩
  quiet := by
    intro w w' quiet
    refine Confined.of_eq fun d _ => ?_
    have same := inbox_eq (quiet.conns d)
    exact ⟨same.2.2.2.2.2.1, same.2.1⟩
  forwardConn := by
    intro w fwd
    refine Confined.of_eq fun d used => ?_
    rw [forwardConn_used fwd used]
    exact ⟨rfl, rfl⟩
  setMsgStatus := by
    intro w slot m status _
    refine Confined.of_eq fun d _ => ?_
    by_cases own : d = (w.reqs slot).connId
    · subst own
      simp [Node.setMsgStatus, State.setConn]
    · simp [Node.setMsgStatus, State.setConn, own]
  connReqRemove := fun w slot _ _ => connReqRemove_confined w _ slot
  closeAndForget := closeAndForget_confined

/-! ## Other bytes around a message -/

theorem connReqAdd_overwrite (c : Nat) (buf : Mem) (w : State) (i : Nat) :
    connReqAdd (overwrite c buf w) i = overwritten c buf (connReqAdd w i) := by
  have alloc : reqAlloc (overwrite c buf w) = overwritten c buf (reqAlloc w) := by
    have last : (overwrite c buf w).lastReqs = w.lastReqs := rfl
    simp only [reqAlloc, last, overwrite_reqs]
    split <;> rfl
  have target : Apart ConnInfo.target := fun _ _ => rfl
  simp only [connReqAdd, alloc]
  cases allocated : reqAlloc w with
  | mk v slot =>
    cases slot with
    | none => rfl
    | some slot =>
      have listed : Deaf fun conn => { conn with reqList := some slot } := fun _ _ => rfl
      have linked : ∀ (u : State) (next : Option Nat),
          setPrev (overwrite c buf u) next (some slot) = overwrite c buf (setPrev u next (some slot)) := by
        intro u next
        cases next <;> rfl
      simp only [overwritten, target.overwrite c buf v i, apart_reqList.overwrite c buf v i, overwrite_reqs,
        overwrite_setReq, linked]
      generalize setPrev _ _ (some slot) = u
      exact Prod.ext (listed.setConn c buf u i) rfl

theorem enterRequest_overwrite (c : Nat) (buf : Mem) (w : State) (i m : Nat) :
    enterRequest (overwrite c buf w) i m = overwritten c buf (enterRequest w i m) := by
  simp only [enterRequest, connReqAdd_overwrite]
  cases added : connReqAdd w i with
  | mk v slot => cases slot <;> rfl

theorem removeTimeout_overwrite (c : Nat) (buf : Mem) (w : State) (reqId : Nat) :
    removeTimeout (overwrite c buf w) reqId = (removeTimeout w reqId).map (overwritten c buf) := by
  have found : reqGetById (overwrite c buf w) reqId = reqGetById w reqId := rfl
  have queue : (overwrite c buf w).timeoutQueue = w.timeoutQueue := rfl
  have left : remaining (overwrite c buf w) = remaining w := rfl
  have armed : ∀ (u : State) (elapsed : Int),
      rearm (overwrite c buf u) elapsed = (rearm u elapsed).map (overwrite c buf) := by
    intro u elapsed
    have same : (overwrite c buf u).timeoutQueue = u.timeoutQueue := rfl
    simp only [rearm, same]
    split
    · exact timerfdSettime_overwrite c buf { u with timeElapsed := elapsed } _
    · exact timerfdSettime_overwrite c buf { u with timeElapsed := 0 } _
  simp only [removeTimeout, found, overwrite_reqs, queue, left]
  cases reqGetById w reqId with
  | none => rfl
  | some slot =>
    simp only
    split
    · rfl
    · rfl
    · rename_i node top _ _
      split
      · rfl
      · have rearmed := armed (State.setReq { w with timeoutQueue := pqueueRemove w.timeoutQueue node } slot
          { w.reqs slot with timeoutNode := none })
          ((w.timeoutQueue.nodes top).key - remaining w)
        refine (congrArg (Except.map (·, _)) rearmed).trans ?_
        cases rearm _ _ <;> rfl

theorem sameMessage_setStatus {mem mem' : Mem} {m : Nat} (h : SameMessage mem mem' m) (status : Nat) :
    SameMessage (setStatus mem m status) (setStatus mem' m status) m where
  header := by
    rw [messageEnd_setStatus]
    exact h.header
  bytes := by
    rw [messageEnd_setStatus]
    intro i le lt
    have same := h.bytes i le lt
    simp only [Message.setStatus, storeU32, store, same]

theorem commandOf_setStatus {mem : Mem} {m cmd : Nat} (status : Nat) (s : CommandOf mem m cmd) :
    CommandOf (setStatus mem m status) m cmd := by
  have kept : Within (messageFirstCmd m) (messageEnd mem m) mem (Message.setStatus mem m status) :=
    fun i le _ => (agree_setStatus mem m status i le).symm
  rw [CommandOf, messageEnd_setStatus]
  exact kept.stands s

section Resumed

variable {c : Nat} {buf : Mem} {w : State} {slot m : Nat}

theorem setMsgStatus_overwrite (own : (w.reqs slot).connId = c) (status : Nat) :
    setMsgStatus (overwrite c buf w) slot m status =
      overwrite c (setStatus buf m status) (setMsgStatus w slot m status) := by
  subst own
  simp [setMsgStatus, overwrite, State.setConn, holding]

theorem completeContext_request (w : State) (slot m status : Nat) :
    ((completeContext w slot m status).reqs slot).connId = (w.reqs slot).connId ∧
      ((completeContext w slot m status).reqs slot).messagePtr = (w.reqs slot).messagePtr ∧
      ((completeContext w slot m status).reqs slot).currCmd =
        cmdBoundedSkip (setStatus (reqMem w slot) m status) (w.reqs slot).currCmd 1
          (messageEnd (setStatus (reqMem w slot) m status) m) := by
  rw [← reqMem_setMsgStatus]
  simp only [completeContext, State.setReq, Function.update_self]
  exact ⟨rfl, rfl, rfl⟩

/-- The acknowledged context is left in the same way. -/
theorem completeContext_overwrite (h : Overwritten w slot m c buf) (status : Nat) :
    completeContext (overwrite c buf w) slot m status =
        overwrite c (setStatus buf m status) (completeContext w slot m status) ∧
      Overwritten (completeContext w slot m status) slot m c (setStatus buf m status) := by
  have mem : reqMem (setMsgStatus w slot m status) slot = setStatus (reqMem w slot) m status :=
    reqMem_setMsgStatus w slot m status
  have mem' : reqMem (overwrite c (setStatus buf m status) (setMsgStatus w slot m status)) slot =
      setStatus buf m status := reqMem_overwrite c _ _ h.conn
  have message := sameMessage_setStatus h.message status
  have standing : ∀ x, (w.reqs slot).currCmd = some x →
      CommandOf (setStatus (reqMem w slot) m status) m x :=
    fun x e => commandOf_setStatus status (h.current x e)
  have next : cmdBoundedSkip (setStatus buf m status) (w.reqs slot).currCmd 1
        (messageEnd (setStatus buf m status) m) =
      cmdBoundedSkip (setStatus (reqMem w slot) m status) (w.reqs slot).currCmd 1
        (messageEnd (setStatus (reqMem w slot) m status) m) := by
    rw [message.messageEnd]
    cases current : (w.reqs slot).currCmd with
    | none => rfl
    | some x => exact (message.commands.cmdBoundedSkip (standing x current).start 1).symm
  refine ⟨?_, ?_⟩
  · simp only [completeContext, setMsgStatus_overwrite h.conn, mem, mem', overwrite_reqs, overwrite_setReq]
    have reqs : (setMsgStatus w slot m status).reqs = w.reqs := rfl
    rw [reqs, next]
  · obtain ⟨conn, -, current'⟩ := completeContext_request w slot m status
    have used : ((setMsgStatus w slot m status).conns (w.reqs slot).connId).busy = true := by
      have before : (w.conns (w.reqs slot).connId).busy = true := h.used
      simpa [setMsgStatus, State.setConn] using before
    have same : reqMem (completeContext w slot m status) slot = setStatus (reqMem w slot) m status := by
      rw [← mem, reqMem, conn]
      rfl
    refine ⟨conn.trans h.conn, ?_, same ▸ message, fun x e => ?_⟩
    · rw [InUse, conn]
      exact used
    · rw [same]
      rw [current'] at e
      cases current : (w.reqs slot).currCmd with
      | none =>
        rw [current] at e
        cases e
      | some y =>
        rw [current] at e
        exact (standing y current).skip e

/-- A reply to a forward reads the message of the request that it names, and goes
on with that request, by the bytes of that message. -/
theorem handleForwardReply_overwrite (h : Overwritten w slot m c buf) (room : Roomy w slot m)
    (placed : (w.reqs slot).messagePtr = some m) {reqId : Nat} (found : reqGetById w reqId = some slot)
    (status : Nat) (matchAddr : Addr) :
    ∃ buf', handleForwardReply (overwrite c buf w) reqId status matchAddr =
      (handleForwardReply w reqId status matchAddr).map (overwritten c buf') := by
  have found' : reqGetById (overwrite c buf w) reqId = some slot := found
  have mem := reqMem_overwrite c buf w h.conn
  have search : findForwardReplyId buf (w.reqs slot).currCmd matchAddr (messageEnd (reqMem w slot) m) =
      findForwardReplyId (reqMem w slot) (w.reqs slot).currCmd matchAddr (messageEnd (reqMem w slot) m) :=
    (h.message.commands.findForwardFrom matchAddr _ 0 fun x e =>
      ⟨(h.current x e).start, room x e⟩).symm
  simp only [handleForwardReply, found, found', overwrite_reqs, placed, mem, h.message.messageEnd, search]
  split
  · exact ⟨buf, rfl⟩
  · exact ⟨buf, rfl⟩
  · rename_i id _
    by_cases repeated : acked (w.reqs slot).fwdRepliesMask id = true
    · simp only [repeated, if_true]
      exact ⟨buf, rfl⟩
    · simp only [repeated, Bool.false_eq_true, if_false]
      have counted : countReply (overwrite c buf w) slot id = overwrite c buf (countReply w slot id) := rfl
      have h' : Overwritten (countReply w slot id) slot m c buf := by
        have sent : ((countReply w slot id).reqs slot).connId = (w.reqs slot).connId ∧
            ((countReply w slot id).reqs slot).currCmd = (w.reqs slot).currCmd := by
          simp [countReply, State.setReq]
        have same : reqMem (countReply w slot id) slot = reqMem w slot := by
          rw [reqMem, sent.1]
          rfl
        refine ⟨sent.1.trans h.conn, ?_, same ▸ h.message, fun x e => ?_⟩
        · rw [InUse, sent.1]
          exact h.used
        · rw [same]
          exact h.current x (sent.2.symm.trans e)
      simp only [counted, overwrite_reqs]
      by_cases last : ((countReply w slot id).reqs slot).fwdRepliesLeft ≤ 0
      · simp only [last, if_true]
        obtain ⟨completed, after⟩ := completeContext_overwrite h' status
        simp only [resumeAfterContext, completed, removeTimeout_overwrite]
        cases removed : removeTimeout (completeContext (countReply w slot id) slot m status) reqId with
        | error e => exact ⟨buf, rfl⟩
        | ok p =>
          obtain ⟨v, left⟩ := p
          have timed := removeTimeout_retimed removed
          obtain ⟨node, request⟩ := timed.reqs slot
          have conn : (v.reqs slot).connId =
              ((completeContext (countReply w slot id) slot m status).reqs slot).connId := by rw [request]
          have same : reqMem v slot = reqMem (completeContext (countReply w slot id) slot m status) slot := by
            rw [reqMem, conn, timed.conns, ← reqMem]
          have resumed : Overwritten v slot m c (setStatus buf m status) := by
            refine ⟨conn.trans after.conn, ?_, same ▸ after.message, fun x e => ?_⟩
            · rw [InUse, conn, timed.conns]
              exact after.used
            · rw [same]
              refine after.current x ?_
              rw [request] at e
              exact e
          have still : (v.reqs slot).messagePtr = some m := by
            have kept := (completeContext_request (countReply w slot id) slot m status).2.1
            rw [request, kept]
            simpa [countReply, State.setReq] using placed
          exact processSingleMessage_overwrite resumed still
      · simp only [last, if_false]
        exact ⟨buf, rfl⟩

end Resumed

/-! ## Rounds -/

/-- The new request is at the first command of its message, and the connections only
get another list head. -/
theorem enterRequest_placed {w w' : State} {c m slot : Nat} (h : enterRequest w c m = (w', some slot)) :
    (w'.reqs slot).connId = c ∧ (w'.reqs slot).messagePtr = some m ∧
      (w'.reqs slot).currCmd = some (messageFirstCmd m) ∧
      ∃ list, w'.conns = Function.update w.conns c { w.conns c with reqList := list } := by
  rcases enterRequest_cases w c m with ⟨-, none, -⟩ | ⟨free, some⟩
  · rw [h] at none
    cases none
  · rw [h] at some
    cases some
    simp only [enterRequest, connReqAdd, reqAlloc, free, ne_eq, not_true_eq_false, if_false,
      Prod.mk.injEq, and_true] at h
    subst h
    cases list : (w.conns c).reqList with
    | none => refine ⟨?_, ?_, ?_, some (slotOf w.lastReqs), ?_⟩ <;> simp [State.setReq, State.setConn, setPrev, list]
    | some y =>
      by_cases own : y = slotOf w.lastReqs
      · refine ⟨?_, ?_, ?_, some (slotOf w.lastReqs), ?_⟩ <;> simp [State.setReq, State.setConn, setPrev, list, own]
      · refine ⟨?_, ?_, ?_, some (slotOf w.lastReqs), ?_⟩ <;>
          simp [State.setReq, State.setConn, setPrev, list, Ne.symm own]

theorem enterRequest_confined (w : State) (c m : Nat) : Confined w (enterRequest w c m).1 := by
  cases added : enterRequest w c m with
  | mk v slot =>
    cases slot with
    | none =>
      rcases enterRequest_cases w c m with ⟨-, -, same⟩ | ⟨-, some⟩
      · rw [added] at same
        rw [show v = _ from same]
        exact Confined.of_eq fun _ _ => ⟨rfl, rfl⟩
      · rw [added] at some
        cases some
    | some slot =>
      obtain ⟨-, -, -, list, table⟩ := enterRequest_placed added
      refine Confined.of_eq fun d _ => ?_
      simp only [table, Function.update_apply]
      split
      · rename_i own
        rw [own]
        exact ⟨rfl, rfl⟩
      · exact ⟨rfl, rfl⟩

/-- A request can go on at its current command: it lies inside the message and
leaves room for the options of a FORWARD. -/
structure CanGoOn (w : State) (slot m : Nat) : Prop where
  used : InUse w slot
  header : m + messageHeader ≤ messageEnd (reqMem w slot) m
  current : ∀ cmd, (w.reqs slot).currCmd = some cmd → CommandOf (reqMem w slot) m cmd
  room : Roomy w slot m

/-- The message that the round takes, if it is all there: its size covers the header,
its first command is in bounds, and a reply to a forward names no request that is
not at a FORWARD of its message. -/
def WellFramed (w : State) (c : Nat) : Prop :=
  let mem := (w.conns c).recvBuf
  let m := (w.conns c).currProcBuf
  messageHeader ≤ (w.conns c).currRecvBuf - m → reqSizeOf mem m ≤ (w.conns c).currRecvBuf - m →
    messageHeader ≤ reqSizeOf mem m ∧
      cmdInBounds mem (messageFirstCmd m) (messageEnd mem m) = true ∧
      (cmdAt mem (messageFirstCmd m) = .eom →
        ∀ slot q, reqGetById w (reqIdOf mem m) = some slot → (w.reqs slot).messagePtr = some q →
          CanGoOn w slot q)

/-- The round does not abort on the size of the message. Other bytes around the
message change neither what it is taken for nor what is done with it, and a request
that a reply resumes goes on by the bytes of its own message. -/
structure ByOwnBytes (w : State) (c : Nat) : Prop where
  sized : connPrepareRecvMessage (w.conns c) ≠ .error .assertion
  classified : ∀ m conn, connPrepareRecvMessage (w.conns c) = .ok (some m, conn) →
    ∀ buf, Within m (messageEnd conn.recvBuf m) conn.recvBuf buf →
      connPrepareRecvMessage (holding buf (w.conns c)) = .ok (some m, holding buf conn) ∧
        cmdAt buf (messageFirstCmd m) = cmdAt conn.recvBuf (messageFirstCmd m) ∧
        reqIdOf buf m = reqIdOf conn.recvBuf m ∧ statusOf buf m = statusOf conn.recvBuf m
  executed : ∀ m conn, connPrepareRecvMessage (w.conns c) = .ok (some m, conn) →
    cmdAt conn.recvBuf (messageFirstCmd m) ≠ .eom →
    ∀ buf, Within m (messageEnd conn.recvBuf m) conn.recvBuf buf →
      ∃ buf', round (overwrite c buf w) c = (round w c).map (overwritten c buf')
  resumed : ∀ m conn, connPrepareRecvMessage (w.conns c) = .ok (some m, conn) →
    cmdAt conn.recvBuf (messageFirstCmd m) = .eom →
    ∀ slot q, reqGetById w (reqIdOf conn.recvBuf m) = some slot → (w.reqs slot).messagePtr = some q →
    ∀ buf, Within q (messageEnd (reqMem w slot) q) (reqMem w slot) buf →
      ∃ buf', handleForwardReply (overwrite (w.reqs slot).connId buf (w.setConn c conn))
          (reqIdOf conn.recvBuf m) (statusOf conn.recvBuf m) conn.target =
        (handleForwardReply (w.setConn c conn) (reqIdOf conn.recvBuf m) (statusOf conn.recvBuf m)
          conn.target).map (overwritten (w.reqs slot).connId buf')

/-- The batch of connection `c` can start: the connection is in use and what it has
received fits its buffer. -/
structure Receiving (w : State) (c : Nat) : Prop where
  busy : (w.conns c).busy = true
  inside : (w.conns c).currRecvBuf ≤ bufSize

theorem Laid.receiving {w : State} {c : Nat} (laid : Laid w) (opened : (w.conns c).sock ≠ none) :
    Receiving w c :=
  ⟨laid.busy c opened, by have := laid.recv c opened; omega⟩

/-- A property of every round of a batch. -/
def Rounds (P : State → Nat → Prop) (c : Nat) : Nat → State → Prop
  | 0, _ => True
  | fuel + 1, w => P w c ∧ ∀ w' outcome, round w c = .ok (w', some (outcome, true)) → Rounds P c fuel w'

/-- The assertion fails exactly on a message whose size does not cover its header. -/
theorem connPrepareRecvMessage_assertion {conn : ConnInfo} (inside : conn.currRecvBuf ≤ bufSize) :
    connPrepareRecvMessage conn = .error .assertion ↔
      messageHeader ≤ conn.currRecvBuf - conn.currProcBuf ∧
        reqSizeOf conn.recvBuf conn.currProcBuf < messageHeader := by
  simp only [connPrepareRecvMessage]
  split
  · rename_i short
    exact ⟨fun e => (by cases e), fun h => absurd h.1 (by omega)⟩
  · split
    · rename_i header incomplete
      exact ⟨fun e => (by cases e), fun h => by omega⟩
    · split
      · rename_i header whole outside
        exact ⟨fun _ => by omega, fun _ => rfl⟩
      · rename_i header whole sized
        exact ⟨fun e => (by cases e), fun h => by omega⟩

theorem connPrepareRecvMessage_holding {c conn : ConnInfo} {m : Nat} {buf : Mem}
    (h : connPrepareRecvMessage c = .ok (some m, conn)) (same : SameMessage conn.recvBuf buf m) :
    connPrepareRecvMessage (holding buf c) = .ok (some m, holding buf conn) := by
  obtain ⟨start, large, fits, rfl⟩ := connPrepareRecvMessage_some h
  subst start
  have size : reqSizeOf buf c.currProcBuf = reqSizeOf c.recvBuf c.currProcBuf := same.reqSizeOf
  simp only [connPrepareRecvMessage] at h ⊢
  simp only [holding, size]
  split at h
  · cases h
  · rename_i header
    split at h
    · cases h
    · rename_i whole
      split at h
      · cases h
      · rename_i sized
        rw [if_neg header, if_neg whole, if_neg sized]

theorem commandOf_of_wellFramed {w : State} {c m : Nat} {conn : ConnInfo} (framed : WellFramed w c)
    (h : connPrepareRecvMessage (w.conns c) = .ok (some m, conn)) :
    CommandOf conn.recvBuf m (messageFirstCmd m) ∧
      (cmdAt conn.recvBuf (messageFirstCmd m) = .eom →
        ∀ slot q, reqGetById w (reqIdOf conn.recvBuf m) = some slot → (w.reqs slot).messagePtr = some q →
          CanGoOn w slot q) := by
  obtain ⟨start, large, fits, rfl⟩ := connPrepareRecvMessage_some h
  subst start
  obtain ⟨-, first, goesOn⟩ := framed (by omega) (by omega)
  exact ⟨stands_of_inBounds (Nat.le_refl _) first, goesOn⟩

theorem sameMessage_of_first {mem buf : Mem} {m : Nat} (first : CommandOf mem m (messageFirstCmd m))
    (same : Within m (messageEnd mem m) mem buf) : SameMessage mem buf m := by
  refine ⟨?_, same⟩
  have fits := first.fits
  have size := four_le_cmdTypeSize (cmdAt mem (messageFirstCmd m))
  simp only [messageFirstCmd] at *
  omega

/-- One round of a batch. -/
theorem byOwnBytes_of_wellFramed {w : State} {c : Nat} (receiving : Receiving w c) (framed : WellFramed w c) :
    ByOwnBytes w c where
  sized := by
    intro fails
    obtain ⟨header, small⟩ := (connPrepareRecvMessage_assertion receiving.inside).mp fails
    obtain ⟨large, -⟩ := framed header (by simp only [messageHeader] at *; omega)
    omega
  classified := by
    intro m conn taken buf same
    obtain ⟨first, -⟩ := commandOf_of_wellFramed framed taken
    have message := sameMessage_of_first first same
    exact ⟨connPrepareRecvMessage_holding taken message, (message.commands.type first).symm,
      message.reqIdOf, message.statusOf⟩
  executed := by
    intro m conn taken request buf same
    obtain ⟨first, -⟩ := commandOf_of_wellFramed framed taken
    obtain ⟨start, large, fits, next⟩ := connPrepareRecvMessage_some taken
    have message := sameMessage_of_first first same
    have taken' : connPrepareRecvMessage ((overwrite c buf w).conns c) = .ok (some m, holding buf conn) := by
      rw [overwrite_conns]
      simpa [shown] using connPrepareRecvMessage_holding taken message
    have stored : (overwrite c buf w).setConn c (holding buf conn) = overwrite c buf (w.setConn c conn) := by
      have put := overwrite_setConn c buf w c conn
      simpa [shown] using put
    have request' : cmdAt buf (messageFirstCmd m) ≠ .eom := by
      rw [← message.commands.type first]
      exact request
    have bytes : (holding buf conn).recvBuf = buf := rfl
    simp only [Batches.round, taken, taken', stored, bytes, request, request', if_false,
      enterRequest_overwrite]
    cases added : enterRequest (w.setConn c conn) c m with
    | mk v entered =>
      cases entered with
      | none => exact ⟨buf, rfl⟩
      | some slot =>
        obtain ⟨own, placed, current, list, table⟩ := enterRequest_placed added
        have here : v.conns c = { conn with reqList := list } := by
          rw [table, Function.update_self]
          simp [State.setConn]
        have mem : reqMem v slot = conn.recvBuf := by rw [reqMem, own, here]
        have ready : Overwritten v slot m c buf := by
          refine ⟨own, ?_, mem ▸ message, fun x e => ?_⟩
          · have busy : conn.busy = true := by rw [next]; exact receiving.busy
            rw [InUse, own, here]
            exact busy
          · rw [current] at e
            cases e
            rw [mem]
            exact first
        obtain ⟨buf', executed⟩ := processSingleMessage_overwrite ready placed
        refine ⟨buf', ?_⟩
        simp only [overwritten, executed]
        cases processSingleMessage v slot <;> rfl
  resumed := by
    intro m conn taken reply slot q found placed buf same
    obtain ⟨-, goesOn⟩ := commandOf_of_wellFramed framed taken
    have waiting := goesOn reply slot q found placed
    obtain ⟨-, -, -, next⟩ := connPrepareRecvMessage_some taken
    have mem : reqMem (w.setConn c conn) slot = reqMem w slot := by
      simp only [reqMem, State.setConn, Function.update_apply]
      split
      · rename_i own
        rw [own, next]
      · rfl
    have used : InUse (w.setConn c conn) slot := by
      have before : (w.conns (w.reqs slot).connId).busy = true := waiting.used
      simp only [InUse, State.setConn, Function.update_apply]
      split
      · rw [next]
        exact receiving.busy
      · exact before
    have ready : Overwritten (w.setConn c conn) slot q (w.reqs slot).connId buf := by
      refine ⟨rfl, used, ⟨?_, ?_⟩, fun x e => ?_⟩
      · rw [mem]
        exact waiting.header
      · rw [mem]
        exact same
      · rw [mem]
        exact waiting.current x e
    have room : Roomy (w.setConn c conn) slot q := by
      intro x e
      rw [mem]
      exact waiting.room x e
    exact handleForwardReply_overwrite ready room placed found _ _

theorem connPrepareRecvMessage_confined {w : State} {c : Nat} {m : Option Nat} {conn : ConnInfo}
    (h : connPrepareRecvMessage (w.conns c) = .ok (m, conn)) : Confined w (w.setConn c conn) := by
  have same : conn.busy = (w.conns c).busy ∧ conn.currRecvBuf = (w.conns c).currRecvBuf := by
    cases m with
    | none =>
      rw [connPrepareRecvMessage_none h]
      exact ⟨rfl, rfl⟩
    | some m =>
      obtain ⟨-, -, -, rfl⟩ := connPrepareRecvMessage_some h
      exact ⟨rfl, rfl⟩
  refine Confined.of_eq fun d _ => ?_
  simp only [State.setConn, Function.update_apply]
  split
  · rename_i own
    rw [own]
    exact same
  · exact ⟨rfl, rfl⟩

theorem round_confined {w w' : State} {c : Nat} {result : Option (Outcome × Bool)}
    (h : Batches.round w c = .ok (w', result)) : Confined w w' := by
  cases Batches.round_done h with
  | ended prepared => exact connPrepareRecvMessage_confined prepared
  | replied prepared type handled =>
    exact conduct_confined.trans (connPrepareRecvMessage_confined prepared)
      (conduct_confined.course.handleForwardReply handled)
  | @refused m conn v prepared type added =>
    have entered := enterRequest_confined (w.setConn c conn) c m
    rw [added] at entered
    exact conduct_confined.trans (connPrepareRecvMessage_confined prepared) entered
  | @executed m slot conn v u ret prepared type added executed =>
    have entered := enterRequest_confined (w.setConn c conn) c m
    rw [added] at entered
    exact conduct_confined.trans (connPrepareRecvMessage_confined prepared)
      (conduct_confined.trans entered (conduct_confined.course.processSingleMessage executed))

theorem rounds_by_own_bytes {c : Nat} (fuel : Nat) {w : State} (receiving : Receiving w c)
    (framed : Rounds WellFramed c fuel w) : Rounds ByOwnBytes c fuel w := by
  induction fuel generalizing w with
  | zero => trivial
  | succ fuel ih =>
    refine ⟨byOwnBytes_of_wellFramed receiving framed.1, fun w' outcome turn => ?_⟩
    obtain ⟨busy, received⟩ := round_confined turn c receiving.busy
    exact ih ⟨busy, Nat.le_trans received receiving.inside⟩ (framed.2 w' outcome turn)

/-- From any state in which a batch can start, with any bytes received and any left
in the buffer: as long as the messages taken are well framed, no round aborts on the
size of a message and each is classified and executed by its own bytes. -/
theorem batch_by_own_bytes (w : State) (c : Nat) (receiving : Receiving w c)
    (framed : Rounds WellFramed c ((w.conns c).currRecvBuf + 1) w) :
    Rounds ByOwnBytes c ((w.conns c).currRecvBuf + 1) w :=
  rounds_by_own_bytes _ receiving framed

/-- Bytes arrive on the connection of a new client, and the batch is to start. -/
def clientHeard (bytes : List UInt8) : Option State :=
  (acceptConn (State.init 0 (fun _ => 0) (fun _ _ => 0) true) [10, 0, 0, 9, 0, 9] .tcp).toOption.map
    fun w => (recvPhase w 0 (received bytes)).1

theorem batch_by_own_bytes_compute :
    ∃ w, clientHeard computeRequest = some w ∧ Rounds ByOwnBytes 0 ((w.conns 0).currRecvBuf + 1) w := by
  refine ⟨_, rfl, batch_by_own_bytes _ 0 ⟨rfl, by decide⟩ ⟨?_, fun w' outcome turn => ?_⟩⟩
  · exact fun _ _ => ⟨by decide, by decide, fun reply => absurd reply (by decide)⟩
  · cases turn
    refine ⟨fun header => absurd header (by decide), fun w' outcome turn => ?_⟩
    cases turn

/-- A size below that of the header ends the worker. Behind a header alone the first
command is read from whatever the buffer held. -/
theorem short_message_misread :
    run (State.init 0 (fun _ => 0) (fun _ _ => 0) true)
        (clientSends [1, 0, 0, 0, 4, 0, 0, 0, 0, 0, 0, 0]) = .error .assertion ∧
      ∃ w, clientHeard [1, 0, 0, 0, 12, 0, 0, 0, 0, 0, 0, 0] = some w ∧ Receiving w 0 ∧
        ¬ Rounds ByOwnBytes 0 ((w.conns 0).currRecvBuf + 1) w := by
  refine ⟨rfl, _, rfl, ⟨rfl, by decide⟩, fun all => ?_⟩
  have changed := (all.1.classified 0 _ rfl (store (fun _ => 0) 0
    [1, 0, 0, 0, 12, 0, 0, 0, 0, 0, 0, 0]) ?_).2.1
  · exact absurd changed (by decide)
  · intro i _ lt
    have small : i < 12 := lt
    interval_cases i <;> rfl

end ReceivedBytes
