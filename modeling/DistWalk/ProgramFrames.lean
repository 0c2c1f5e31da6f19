import DistWalk.CurrentCommands
import DistWalk.DeadPeer
import DistWalk.Relocation

/-!
# What leaves the programs of the requests alone

Most of what the worker does concerns no task: it sends, counts, arms timers, moves
messages in their buffers and ends connections. No task is done by that, and every
request that is still there has the program it had, and as much of it ahead.
-/

namespace ProgramFrames

open ByteMemory Message Connection PriorityQueue Worker Timeout Node Requests Transitions ReceiveQueue BufferLayout
  LayoutSteps LayoutRuns Forwarding Walkers BoundedReads Programs Relocation CurrentCommands ReturnCodes DeadPeer
  BufferSpace

/-! ## What is done for requests -/

def isTask : Effect → Bool
  | .compute _ _ => true
  | .storage _ _ => true
  | _ => false

/-- The tasks done so far, the last first. -/
def work (w : State) : List Effect := w.effects.filter isTask

/-- The devices of the node, the next request id and the tasks done. -/
def ledger (w : State) : Nat × Nat × List Effect := (w.storageDevices, w.lastReqs, work w)

theorem ledger_eq {w w' : State} (h : ledger w' = ledger w) :
    w'.storageDevices = w.storageDevices ∧ w'.lastReqs = w.lastReqs ∧ work w' = work w := by
  simpa only [ledger, Prod.mk.injEq] using h

theorem timeless_ledger : Timeless ledger := fun _ _ _ _ _ _ => rfl

/-- A task, or a message that is forwarded. -/
def isMark : Effect → Bool
  | .forwarded _ _ _ => true
  | e => isTask e

/-- As the ledger, with the messages forwarded. -/
def journal (w : State) : Nat × Nat × List Effect := (w.storageDevices, w.lastReqs, w.effects.filter isMark)

theorem timeless_journal : Timeless journal := fun _ _ _ _ _ _ => rfl

theorem journal_eq {w w' : State} (h : journal w' = journal w) : ledger w' = ledger w ∧ forwards w' = forwards w := by
  simp only [journal, Prod.mk.injEq] at h
  obtain ⟨devices, lastReqs, marks⟩ := h
  have tasks : ∀ v : State, work v = (v.effects.filter isMark).filter isTask := fun v => by
    rw [work, List.filter_filter]
    refine List.filter_congr fun e _ => ?_
    cases e <;> rfl
  have sent : ∀ v : State, forwards v = (v.effects.filter isMark).filterMap fun e =>
      match e with
      | .forwarded reqId addr ctx => some (reqId, addr, ctx)
      | _ => none := fun v => by
    rw [forwards, List.filterMap_filter]
    refine List.filterMap_congr fun e _ => ?_
    cases e <;> rfl
  rw [ledger, ledger, devices, lastReqs, tasks, tasks, sent, sent, marks]
  exact ⟨rfl, rfl⟩

section Journal

variable {w w' : State} {slot m cmd c : Nat}

theorem journal_reqUnlink (slot : Nat) : journal (reqUnlink w slot).1 = journal w := by
  have prev : ∀ (v : State) (s p : Option Nat), journal (setPrev v s p) = journal v := fun v s p => by
    cases s <;> rfl
  have next : ∀ (v : State) (s n : Option Nat), journal (setNext v s n) = journal v := fun v s n => by
    cases s <;> rfl
  exact (next _ _ _).trans (prev _ _ _)

theorem journal_connResetFrom (fuel : Nat) (start : Option Nat) : journal (connResetFrom fuel w start) = journal w := by
  induction fuel generalizing w start with
  | zero => rfl
  | succ fuel ih =>
    cases start with
    | none => rfl
    | some s => exact (ih _).trans (journal_reqUnlink s)

theorem journal_connReqRemove (c slot : Nat) : journal (connReqRemove w c slot) = journal w := by
  have shifted : ∀ (size fuel : Nat) (v : State) (s : Option Nat), journal (shiftNewer size fuel v s) = journal v := by
    intro size fuel
    induction fuel with
    | zero => exact fun _ _ => rfl
    | succ fuel ih =>
      intro v s
      cases s with
      | none => rfl
      | some s => exact ih _ _
  have reclaimed : journal (reclaim w c slot) = journal w := by
    unfold reclaim
    split
    · rfl
    · split
      · exact shifted _ _ _ _
      · rfl
  refine (journal_reqUnlink slot).trans ?_
  unfold dropHead
  split
  · exact reclaimed
  · exact reclaimed

theorem journal_emit {e : Effect} (plain : isMark e = false) : journal (w.emit e) = journal w := by
  simp [journal, State.emit, plain]

theorem journal_takeSend (c : Nat) : journal (takeSend w c).1 = journal w := by
  unfold takeSend
  split <;> rfl

theorem journal_takeConnect : journal (takeConnect w).1 = journal w := by
  unfold takeConnect
  split <;> rfl

theorem journal_takeSsl : journal (takeSsl w).1 = journal w := by
  unfold takeSsl
  split <;> rfl

theorem journal_pollMod {i o s : Bool} (h : pollMod w c i o s = .ok w') : journal w' = journal w := by
  simp only [pollMod] at h
  split at h
  · cases h
  · cases h
    exact journal_emit rfl

theorem journal_startSendOn (target : Addr) : journal (startSendOn w c target).1 = journal w := by
  simp only [startSendOn]
  split
  · exact journal_emit rfl
  · exact (journal_emit rfl).trans (journal_takeSend c)

theorem journal_startSendfileOn {target : Addr} {fd size : Nat} {ret : Int}
    (h : startSendfileOn w c target fd size = .ok (w', ret)) : journal w' = journal w := by
  simp only [startSendfileOn] at h
  split at h
  · cases h
  · cases h
    split
    · exact journal_emit rfl
    · exact journal_emit rfl

theorem journal_closeAndForget {sock : Option Nat} (h : closeAndForget w sock = .ok w') : journal w' = journal w := by
  simp only [closeAndForget, connDelSock] at h
  split at h
  · cases h
  · rename_i deleted
    cases h
    refine (journal_emit rfl).trans ?_
    split at deleted
    · cases deleted
    · cases deleted
      exact journal_emit rfl
    · cases deleted
      exact (journal_connResetFrom _ _).trans (journal_emit rfl)

theorem journal_connFree (c : Nat) : journal (connFree w c) = journal w := journal_connResetFrom _ _

/-! ## Forwarding -/

theorem journal_connEnableSsl (c : Nat) : journal (connEnableSsl w c).1 = journal w := by
  have taken := @journal_takeSsl w
  unfold connEnableSsl
  split
  · rename_i e
    rwa [e] at taken
  · rename_i e
    rwa [e] at taken

theorem journal_connectForward (c sock : Nat) (proto : Proto) :
    journal (connectForward w c sock proto).1 = journal w := by
  have enabled : journal (if proto = .tls then connEnableSsl (w.emit (.pollAdd sock c)) c
      else (w.emit (.pollAdd sock c), true)).1 = journal w := by
    split
    · exact (journal_connEnableSsl c).trans (journal_emit rfl)
    · exact journal_emit rfl
  simp only [connectForward]
  split
  · rename_i v e
    rw [e] at enabled
    exact (journal_connFree c).trans ((journal_emit rfl).trans enabled)
  · rename_i v e
    rw [e] at enabled
    have taken := @journal_takeConnect v
    cases answer : takeConnect v with
    | mk u result =>
      rw [answer] at taken
      have before := taken.trans enabled
      cases result with
      | failed => exact before
      | inProgress => exact before
      | done =>
        simp only
        split <;> exact before

theorem journal_allocForward (fwd : FwdOpts) : journal (allocForward w fwd).1 = journal w := by
  simp only [allocForward, connAlloc]
  split
  · rename_i e
    split at e <;> cases e
    exact journal_emit rfl
  · rename_i e
    split at e <;> cases e
    rfl

theorem journal_forwardConn (fwd : FwdOpts) : journal (forwardConn w fwd).1 = journal w := by
  have allocated := @journal_allocForward w fwd
  unfold forwardConn
  split
  · rfl
  · split
    · rename_i e
      rwa [e] at allocated
    · rename_i e
      rw [e] at allocated
      split
      · exact (journal_connectForward _ _ _).trans allocated
      · exact allocated

theorem ledger_emit {e : Effect} (plain : isTask e = false) : ledger (w.emit e) = ledger w := by
  simp [ledger, work, State.emit, plain]

theorem ledger_sendForward {fwd : FwdOpts} {ret : Option Nat}
    (h : sendForward w slot m cmd c fwd = .ok (w', ret)) : ledger w' = ledger w := by
  simp only [sendForward] at h
  split at h
  · cases h
  · split at h
    · cases h
    · split at h
      · cases h
        rfl
      · have sent : ∀ (conn : ConnInfo) {e : Effect}, isTask e = false →
            ledger ((startSendOn (w.setConn c conn) c fwd.fwdAddr).1.emit e) = ledger w :=
          fun conn e plain => (ledger_emit plain).trans (journal_eq (journal_startSendOn _)).1
        split at h
        · cases h
          exact sent _ rfl
        · split at h
          · obtain ⟨v, armed, paired⟩ := map_eq_ok.mp h
            cases paired
            exact (timeless_ledger.insertTimeout armed).trans (sent _ rfl)
          · cases h
            exact sent _ rfl

theorem ledger_singleStartForward {ret : Option Nat} (h : singleStartForward w slot m cmd = .ok (w', ret)) :
    ledger w' = ledger w := by
  simp only [singleStartForward] at h
  split at h
  · cases h
  · cases h
    rfl
  · split at h
    · rw [skipAcked_state h]
    · have reached := (journal_eq (@journal_forwardConn w (fwdOpts (reqMem w slot) cmd))).1
      split at h
      · rename_i e
        cases h
        rwa [e] at reached
      · rename_i e
        rw [e] at reached
        exact (ledger_sendForward h).trans reached

theorem ledger_sendBranches {fuel : Nat} {itr : Option Nat} {ret : Bool}
    (h : sendBranches slot m fuel w itr = .ok (w', ret)) : ledger w' = ledger w := by
  induction fuel generalizing w itr with
  | zero =>
    cases h
    rfl
  | succ fuel ih =>
    cases itr with
    | none =>
      cases h
      rfl
    | some cmd =>
      simp only [sendBranches] at h
      split at h
      · cases h
      · rename_i started
        cases h
        exact ledger_singleStartForward started
      · rename_i started
        split at h
        · cases h
        · exact (ih h).trans (ledger_singleStartForward started)

theorem ledger_startForward {ret : Bool} (h : startForward w slot m cmd = .ok (w', ret)) : ledger w' = ledger w := by
  have begun : ledger (beginContext w slot cmd) = ledger w := rfl
  exact (ledger_sendBranches h).trans begun

/-! ## Replies -/

theorem journal_transmitReply {opts : ReplyOpts} {ret : Int} (h : transmitReply w slot c opts = .ok (w', ret)) :
    journal w' = journal w := by
  unfold transmitReply at h
  split at h
  · exact journal_startSendfileOn h
  · have started := @journal_startSendOn w c (w.reqs slot).target
    rwa [Except.ok.inj h] at started

theorem journal_reply {ret : Int} (h : reply w slot m cmd = .ok (w', ret)) : journal w' = journal w := by
  simp only [reply] at h
  split at h
  · cases h
  · obtain ⟨⟨v, r⟩, sent, paired⟩ := map_eq_ok.mp h
    cases paired
    have transmitted := journal_transmitReply sent
    exact (journal_connReqRemove _ _).trans transmitted

theorem journal_processReply {ret : Int} (h : processReply w slot m cmd = .ok (w', ret)) : journal w' = journal w := by
  simp only [processReply] at h
  split at h
  · cases h
  · rename_i replied
    have before := journal_reply replied
    split at h
    · split at h
      · obtain ⟨v, polled, paired⟩ := map_eq_ok.mp h
        cases paired
        exact (journal_pollMod polled).trans before
      · obtain ⟨v, closed, paired⟩ := map_eq_ok.mp h
        cases paired
        exact (journal_closeAndForget closed).trans before
    · split at h
      · obtain ⟨v, polled, paired⟩ := map_eq_ok.mp h
        cases paired
        exact (journal_pollMod polled).trans before
      · cases h
        exact before

/-! ## Events -/

theorem journal_establishPhase {type : EventType} {r : Readiness} {ok : Bool}
    (h : establishPhase w c type r = .ok (w', ok)) : journal w' = journal w := by
  simp only [establishPhase] at h
  split at h
  · split at h
    · cases h
      rfl
    · obtain ⟨v, polled, paired⟩ := map_eq_ok.mp h
      cases paired
      exact (journal_pollMod polled).trans rfl
  · cases h
    rfl

theorem journal_recvPhase (c : Nat) (r : Readiness) : journal (recvPhase w c r).1 = journal w := by
  simp only [recvPhase]
  split <;> rfl

theorem journal_flushPhase {r : Readiness} {ok : Bool} (h : flushPhase w c r = .ok (w', ok)) :
    journal w' = journal w := by
  simp only [flushPhase] at h
  split at h
  · split at h
    · cases h
    · split at h
      · cases h
        exact journal_emit rfl
      · split at h
        · obtain ⟨v, polled, paired⟩ := map_eq_ok.mp h
          cases paired
          exact (journal_pollMod polled).trans (journal_emit rfl)
        · obtain ⟨v, polled, paired⟩ := map_eq_ok.mp h
          cases paired
          exact (journal_pollMod polled).trans (journal_emit rfl)
  · cases h
    rfl

theorem journal_acceptConn {addr : Addr} {proto : Proto} (h : acceptConn w addr proto = .ok w') :
    journal w' = journal w := by
  simp only [acceptConn] at h
  cases claimed : connAlloc { w with nextFd := w.nextFd + 1 } w.nextFd addr proto with
  | mk v found =>
    have before : journal v = journal w := by
      simp only [connAlloc] at claimed
      split at claimed <;> cases claimed <;> rfl
    cases found with
    | none =>
      simp only [claimed] at h
      exact (journal_closeAndForget h).trans before
    | some c =>
      simp only [claimed] at h
      split at h
      · have enabled := (@journal_connEnableSsl v c).trans before
        split at h
        · rename_i ssl
          cases h
          rw [ssl] at enabled
          exact (journal_emit rfl).trans enabled
        · rename_i ssl
          rw [ssl] at enabled
          obtain ⟨u, closed, rfl⟩ := map_eq_ok.mp h
          exact (journal_connFree c).trans ((journal_closeAndForget closed).trans enabled)
      · cases h
        exact (journal_emit rfl).trans before

end Journal

/-! ## Requests that are carried along -/

/-- What a request has apart from its links and its timeout. -/
def bare (r : ReqInfo) : ReqInfo := { r with prev := none, next := none, timeoutNode := none }

/-- All that are still there are as they were, links and timeouts apart. -/
def Unmoved (w w' : State) : Prop :=
  ∀ x, (w'.reqs x).messagePtr ≠ none → bare (w'.reqs x) = bare (w.reqs x) ∧ reqMem w' x = reqMem w x

/-- All that are still there are carried along. -/
def Carries (w w' : State) : Prop := ∀ x, (w'.reqs x).messagePtr ≠ none → Carried w w' x

section Carries

variable {w w' : State} {slot x m c : Nat}

theorem bare_messagePtr {r r' : ReqInfo} (h : bare r' = bare r) : r'.messagePtr = r.messagePtr := by
  have same := congrArg ReqInfo.messagePtr h
  exact same

theorem bare_connId {r r' : ReqInfo} (h : bare r' = bare r) : r'.connId = r.connId := by
  have same := congrArg ReqInfo.connId h
  exact same

theorem Unmoved.trans {a b c : State} (h : Unmoved a b) (h' : Unmoved b c) : Unmoved a c := by
  intro x live
  obtain ⟨same', mem'⟩ := h' x live
  obtain ⟨same, mem⟩ := h x (bare_messagePtr same' ▸ live)
  exact ⟨same'.trans same, mem'.trans mem⟩

theorem Unmoved.carries (h : Sound w) (unmoved : Unmoved w w') : Carries w w' := by
  intro x live
  obtain ⟨same, mem⟩ := unmoved x live
  refine carried_same h (bare_messagePtr same ▸ live) ?_ mem
  have parts := congrArg (fun r => (record r, r.messagePtr, r.currCmd)) same
  exact parts

theorem Carries.trans {a b c : State} (laid : Laid a) (h : Carries a b) (h' : Carries b c) : Carries a c := by
  intro x live
  obtain ⟨m, placed, -⟩ := (h' x live).stays
  exact (h x (by rw [placed]; exact Option.some_ne_none m)).trans laid (h' x live)

theorem Carries.tables {u : State} (h : Carries w u) (conns : w'.conns = u.conns) (reqs : w'.reqs = u.reqs) :
    Carries w w' := by
  intro x live
  rw [reqs] at live
  exact (h x live).tables conns reqs

/-- The requests stay as they are, and so do the bytes on their connections. -/
theorem unmoved_tables (reqs : w'.reqs = w.reqs)
    (bytes : ∀ x, (w.reqs x).messagePtr ≠ none →
      (w'.conns (w.reqs x).connId).recvBuf = (w.conns (w.reqs x).connId).recvBuf) : Unmoved w w' := by
  intro x live
  rw [reqs] at live
  refine ⟨by rw [reqs], ?_⟩
  rw [reqMem, reqs]
  exact bytes x live

theorem unmoved_still (h : Still w w') (reqs : w'.reqs = w.reqs) : Unmoved w w' :=
  unmoved_tables reqs fun _ _ => (inbox_eq (h.conns _)).1

theorem unmoved_setConn (c : Nat) {conn : ConnInfo} (bytes : conn.recvBuf = (w.conns c).recvBuf) :
    Unmoved w (w.setConn c conn) := by
  refine unmoved_tables rfl fun x _ => ?_
  simp only [State.setConn, Function.update_apply]
  split
  · rename_i own
    rw [bytes, own]
  · rfl

theorem unmoved_retimed (h : Retimed w w') : Unmoved w w' := by
  intro x live
  obtain ⟨node, same⟩ := h.reqs x
  refine ⟨by rw [same]; rfl, ?_⟩
  rw [reqMem, same, h.conns]
  rfl

/-- Unlinking requests is the end of them and of no other. -/
theorem unmoved_connReset (c : Nat) : Unmoved w (connReset w c) := by
  have listless : Listless bare := ⟨fun _ _ => rfl, fun _ _ => rfl⟩
  have others : ∀ (fuel : Nat) (v : State) (start : Option Nat) (x : Nat),
      ((connResetFrom fuel v start).reqs x).messagePtr ≠ none →
        bare ((connResetFrom fuel v start).reqs x) = bare (v.reqs x) := by
    intro fuel
    induction fuel with
    | zero => exact fun _ _ _ _ => rfl
    | succ fuel ih =>
      intro v start x live
      cases start with
      | none => rfl
      | some t =>
        have later := ih _ _ x live
        refine later.trans (listless.reqUnlink v fun own => live ?_)
        subst own
        exact (bare_messagePtr later).trans (reqUnlink_messagePtr v x)
  intro x live
  have same := others _ _ _ x live
  refine ⟨same, ?_⟩
  have home : ((connReset w c).reqs x).connId = (w.reqs x).connId := bare_connId same
  rw [reqMem, home, connReset, connResetFrom_conns, reqMem]

theorem unmoved_closeAndForget {sock : Option Nat} (closed : closeAndForget w sock = .ok w') : Unmoved w w' := by
  simp only [Worker.closeAndForget, connDelSock] at closed
  split at closed
  · cases closed
  · rename_i deleted
    cases closed
    split at deleted
    · cases deleted
    · cases deleted
      exact unmoved_tables rfl fun _ _ => rfl
    · cases deleted
      rename_i c found
      have told : Unmoved w (w.emit (.pollDel sock)) := unmoved_tables rfl fun _ _ => rfl
      have closed : Unmoved (connReset (w.emit (.pollDel sock)) c) (connDelId (w.emit (.pollDel sock)) c) :=
        unmoved_setConn c rfl
      exact (told.trans (unmoved_connReset c)).trans (closed.trans (unmoved_tables rfl fun _ _ => rfl))

theorem carries_connReqRemove (h : Sound w) (placed : (w.reqs slot).messagePtr = some m) :
    Carries w (connReqRemove w (w.reqs slot).connId slot) := by
  intro x there
  have opened := h.laid.opened slot (by rw [placed]; exact Option.some_ne_none m)
  obtain ⟨l, queue⟩ := h.laid.queue _ opened
  obtain ⟨other, on⟩ := (on_release placed queue _ x).mp ⟨there, rfl⟩
  obtain ⟨q, here⟩ := Option.ne_none_iff_exists'.mp on.1
  by_cases own : (w.reqs x).connId = (w.reqs slot).connId
  · refine ⟨q, here, stays_release placed queue (h.laid.proc _ opened) ((queue.members x).mpr ⟨on.1, own⟩) other here
      fun cmd current => ?_⟩
    have := (h.standing x q here).2 cmd current
    simp only [messageFirstCmd] at this
    omega
  · have reqs := reqs_release placed queue own ⟨on.1, rfl⟩
    refine carried_same h on.1 (by rw [reqs]) ?_
    rw [reqMem, reqMem, reqs, conns_release placed queue own]

/-- Bytes that are stored behind what has been received are in no message. -/
theorem carries_fill {conn : ConnInfo} (h : Sound w)
    (below : ∀ a, a < (w.conns c).currRecvBuf → conn.recvBuf a = (w.conns c).recvBuf a) :
    Carries w (w.setConn c conn) := by
  intro x live
  change (w.reqs x).messagePtr ≠ none at live
  obtain ⟨p, placed⟩ := Option.ne_none_iff_exists'.mp live
  have opened := h.laid.opened x live
  by_cases own : (w.reqs x).connId = c
  · have mem : reqMem (w.setConn c conn) x = conn.recvBuf := by
      simp [reqMem, State.setConn, own]
    obtain ⟨l, queue⟩ := h.laid.queue _ opened
    obtain ⟨q, here, large, fits⟩ := queue.stacked.mem ((queue.members x).mpr ⟨live, rfl⟩)
    rw [placed] at here
    cases here
    have proc := h.laid.proc _ opened
    refine ⟨p, placed, stays_same placed (fun cmd current => ?_) rfl fun k less => ?_⟩
    · have := (h.standing x p placed).2 cmd current
      simp only [messageFirstCmd] at this
      omega
    · rw [mem, reqMem, own]
      rw [reqMem] at less
      rw [own] at less fits proc
      exact below _ (by omega)
  · refine carried_same h live rfl ?_
    rw [reqMem, State.setConn]
    simp only [Function.update_of_ne own]
    rfl

/-- A connection that was not allocated has no request. -/
theorem unmoved_unclaimed {u : State} (h : Sound w) (free : (w.conns c).busy = false) (reqs : u.reqs = w.reqs)
    (conns : ∀ d, d ≠ c → u.conns d = w.conns d) : Unmoved w u := by
  refine unmoved_tables reqs fun x live => ?_
  have used := h.laid.busy _ (h.laid.opened x live)
  rw [conns]
  intro e
  rw [e, free] at used
  cases used

theorem unmoved_acceptConn {addr : Addr} {proto : Proto} (h : Sound w) (done : acceptConn w addr proto = .ok w') :
    Unmoved w w' := by
  simp only [acceptConn] at done
  cases claimed : connAlloc { w with nextFd := w.nextFd + 1 } w.nextFd addr proto with
  | mk v found =>
    cases found with
    | none =>
      simp only [claimed] at done
      have unchanged : Unmoved w v := by
        simp only [connAlloc] at claimed
        split at claimed
        · cases claimed
          exact unmoved_tables rfl fun _ _ => rfl
        · cases claimed
      exact unchanged.trans (unmoved_closeAndForget done)
    | some c =>
      simp only [claimed] at done
      obtain ⟨free, rfl⟩ := connAlloc_claims claimed
      have others : ∀ d, d ≠ c → ((State.setConn { w with nextFd := w.nextFd + 1 } c
          ((w.conns c).claim w.nextFd addr proto w.thread)).conns d) = w.conns d :=
        fun d other => by simp [State.setConn, other]
      split at done
      · have enabled := opening_connEnableSsl (State.setConn { w with nextFd := w.nextFd + 1 } c
          ((w.conns c).claim w.nextFd addr proto w.thread)) c
        split at done
        · rename_i u ssl
          cases done
          rw [ssl] at enabled
          refine unmoved_unclaimed h free enabled.2 fun d other => ?_
          have before := (enabled.1.used d other).trans (others d other)
          simpa [State.setConn, State.emit, other] using before
        · rename_i u ssl
          rw [ssl] at enabled
          obtain ⟨v, closed, rfl⟩ := map_eq_ok.mp done
          have claimed : Unmoved w u := unmoved_unclaimed h free enabled.2 fun d other =>
            (enabled.1.used d other).trans (others d other)
          have freed : Unmoved (connReset v c) (connFree v c) := unmoved_setConn c rfl
          exact (claimed.trans (unmoved_closeAndForget closed)).trans ((unmoved_connReset c).trans freed)
      · cases done
        refine unmoved_unclaimed h free rfl fun d other => ?_
        simp [State.setConn, State.emit, other]

end Carries

/-! ## Programs of requests -/

/-- The program of a request from one of its commands on, on a node with so many devices. -/
def programAt (devices : Nat) (w : State) (x : Nat) (cmd : Nat → Option Nat) : List (Instr Task) :=
  match (w.reqs x).messagePtr with
  | none => []
  | some m => program (reqMem w x) devices (messageEnd (reqMem w x) m) (cmd m)

/-- All that the message of a request asks for. -/
def text (devices : Nat) (w : State) (x : Nat) : List (Instr Task) :=
  programAt devices w x fun m => some (messageFirstCmd m)

/-- What the request still has to go through. -/
def ahead (devices : Nat) (w : State) (x : Nat) : List (Instr Task) :=
  programAt devices w x fun _ => (w.reqs x).currCmd

/-- A request with its program, of which as much lies ahead as before. -/
structure Kept (w w' : State) (x : Nat) : Prop where
  live : (w.reqs x).messagePtr ≠ none
  reqId : (w'.reqs x).reqId = (w.reqs x).reqId
  begun : (w'.reqs x).currCmd ≠ none → (w.reqs x).currCmd ≠ none
  text : ∀ devices, text devices w' x = text devices w x
  ahead : ∀ devices, ahead devices w' x = ahead devices w x

/-- All that are still there are kept. -/
def Alike (w w' : State) : Prop := ∀ x, (w'.reqs x).messagePtr ≠ none → Kept w w' x

section Kept

variable {w w' : State} {slot x m : Nat}

theorem programAt_placed {devices : Nat} {cmd : Nat → Option Nat} (placed : (w.reqs x).messagePtr = some m) :
    programAt devices w x cmd = program (reqMem w x) devices (messageEnd (reqMem w x) m) (cmd m) := by
  rw [programAt, placed]

theorem Kept.refl (live : (w.reqs x).messagePtr ≠ none) : Kept w w x :=
  ⟨live, rfl, id, fun _ => rfl, fun _ => rfl⟩

theorem Kept.trans {a b c : State} (h : Kept a b x) (h' : Kept b c x) : Kept a c x where
  live := h.live
  reqId := h'.reqId.trans h.reqId
  begun := h.begun ∘ h'.begun
  text := fun devices => (h'.text devices).trans (h.text devices)
  ahead := fun devices => (h'.ahead devices).trans (h.ahead devices)

theorem Alike.trans {a b c : State} (h : Alike a b) (h' : Alike b c) : Alike a c :=
  fun x live => (h x (h' x live).live).trans (h' x live)

/-- Neither the request nor its bytes change. -/
theorem kept_same (live : (w'.reqs x).messagePtr ≠ none)
    (same : footing (w'.reqs x) = footing (w.reqs x)) (id : (w'.reqs x).reqId = (w.reqs x).reqId)
    (mem : reqMem w' x = reqMem w x) : Kept w w' x := by
  obtain ⟨-, message, cmd⟩ := footing_eq same
  have programs : ∀ devices cmd, programAt devices w' x cmd = programAt devices w x cmd := fun devices cmd => by
    rw [programAt, programAt, message, mem]
  refine ⟨message ▸ live, id, by rw [cmd]; exact fun some => some, fun devices => programs _ _, fun devices => ?_⟩
  rw [ahead, cmd]
  exact programs _ _

/-- The message may lie elsewhere, with all that its commands say. -/
theorem kept_moved {m' : Nat} (placed : (w.reqs x).messagePtr = some m) (placed' : (w'.reqs x).messagePtr = some m')
    (standing : Standing (w.reqs x)) (id : (w'.reqs x).reqId = (w.reqs x).reqId)
    (moved : (w'.reqs x).currCmd = (w.reqs x).currCmd.map fun cmd => m' + (cmd - m))
    (read : ∀ devices cmd, (∀ c, cmd = some c → messageFirstCmd m ≤ c) →
      program (reqMem w' x) devices (messageEnd (reqMem w' x) m') (cmd.map fun c => m' + (c - m)) =
        program (reqMem w x) devices (messageEnd (reqMem w x) m) cmd) : Kept w w' x where
  live := by rw [placed]; exact Option.some_ne_none m
  reqId := id
  begun := by
    rw [moved]
    exact fun some none => some (by rw [none]; rfl)
  text := by
    intro devices
    have first := read devices (some (messageFirstCmd m)) fun c e => by cases e; exact Nat.le_refl _
    rw [text, text, programAt_placed placed', programAt_placed placed, ← first]
    simp [messageFirstCmd]
  ahead := by
    intro devices
    rw [ahead, ahead, programAt_placed placed', programAt_placed placed, moved]
    exact read devices _ (standing m placed).2

/-- A request that is carried along keeps its program. -/
theorem kept_carried (h : Sound w) (carried : Carried w w' x) : Kept w w' x := by
  obtain ⟨m, placed, kept, m', m'', at_, there, cmd, bytes⟩ := carried.stays
  rw [placed] at at_
  cases at_
  have large := (Laid.apart h.laid placed placed rfl).1
  simp only [LayoutRuns.record, Prod.mk.injEq] at kept
  have same : reqSizeOf (reqMem w' x) m'' = reqSizeOf (reqMem w x) m := by
    simp only [messageHeader] at large
    refine u32_congr fun i less => ?_
    rw [Nat.add_assoc, bytes (4 + i) (by omega), Nat.add_assoc]
  refine kept_moved placed there (h.standing x) kept.1 cmd fun devices c behind => ?_
  rw [messageEnd, messageEnd, same]
  refine (portable_instrAt devices).moved bytes fun d e => ?_
  have := behind d e
  simp only [messageFirstCmd] at this
  omega

theorem Carries.alike (h : Sound w) (carries : Carries w w') : Alike w w' := fun x live =>
  kept_carried h (carries x live)

theorem alike_still (h : Still w w') : Alike w w' := fun x live =>
  kept_same live (Still.footing h x) (stance_eq (h.stances x)).2 (Still.reqMem h x)

theorem alike_forwardConn (h : Sound w) (fwd : FwdOpts) : Alike w (forwardConn w fwd).1 := by
  have reqs := forwardConn_reqs h.laid fwd
  intro x live
  rw [reqs] at live
  refine kept_same (by rwa [reqs]) (by rw [reqs]) (by rw [reqs]) ?_
  rw [reqMem, reqMem, reqs, forwardConn_used fwd (h.laid.busy _ (h.laid.opened x live))]

/-- The status of a message is not part of its program, nor of any other. -/
theorem alike_setMsgStatus (h : Sound w) (status : Nat) (placed : (w.reqs slot).messagePtr = some m) :
    Alike w (setMsgStatus w slot m status) := by
  intro x live
  by_cases own : x = slot
  · subst own
    have wide := (Laid.apart h.laid placed placed rfl).1
    simp only [messageHeader] at wide
    have onward : ∀ cmd : Option Nat, (∀ c, cmd = some c → messageFirstCmd m ≤ c) →
        (cmd.map fun c => m + (c - m)) = cmd := by
      intro cmd behind
      cases cmd with
      | none => rfl
      | some c =>
        have := behind c rfl
        simp only [messageFirstCmd] at this
        simp only [Option.map_some, Option.some.injEq]
        omega
    refine kept_moved placed placed (h.standing x) rfl ?_ fun devices cmd behind => ?_
    · exact (onward _ (h.standing x m placed).2).symm
    · have unread : Within (messageFirstCmd m) (messageEnd (reqMem w x) m) (reqMem w x)
          (setStatus (reqMem w x) m status) := by
        intro i low high
        refine (store_outside _ (m + 8) _ (Or.inr ?_)).symm
        simp only [messageFirstCmd, messageHeader, length_u32Bytes] at *
        omega
      rw [onward cmd behind, reqMem_setMsgStatus, messageEnd_setStatus]
      exact ((portable_instrAt devices).same unread behind).symm
  · exact kept_carried h (carried_setMsgStatus h placed live own status)

/-- The relation that the functions below the commands keep. -/
theorem passage_alike : Passage fun w w' => Sound w → Sound w' ∧ Alike w w' where
  trans := fun h h' sound => ⟨(h' (h sound).1).1, (h sound).2.trans (h' (h sound).1).2⟩
  still := fun still sound => ⟨course_sound.still still sound, alike_still still⟩
  forwardConn := fun w fwd sound => ⟨course_sound.forwardConn w fwd sound, alike_forwardConn sound fwd⟩
  setMsgStatus := fun w slot m status placed sound =>
    ⟨course_sound.setMsgStatus w slot m status placed sound, alike_setMsgStatus sound status placed⟩
  connReqRemove := fun w slot m placed sound =>
    ⟨course_sound.connReqRemove w slot m placed sound, (carries_connReqRemove sound placed).alike sound⟩
  closeAndForget := fun closed sound =>
    ⟨course_sound.closeAndForget closed sound, ((unmoved_closeAndForget closed).carries sound).alike sound⟩

end Kept

/-! ## What does nothing for a request -/

/-- No task is done, and the requests are kept. -/
def Idle (w w' : State) : Prop := Sound w → Sound w' ∧ Alike w w' ∧ ledger w' = ledger w

/-- No task is done, nothing is forwarded, and the requests are carried along. -/
def Inert (w w' : State) : Prop := Sound w → Sound w' ∧ Carries w w' ∧ journal w' = journal w

section Idle

variable {w w' : State} {slot m cmd c : Nat}

theorem Idle.trans {a b c : State} (h : Idle a b) (h' : Idle b c) : Idle a c := by
  intro sound
  obtain ⟨there, alike, same⟩ := h sound
  obtain ⟨there', alike', same'⟩ := h' there
  exact ⟨there', alike.trans alike', same'.trans same⟩

theorem Inert.trans {a b c : State} (h : Inert a b) (h' : Inert b c) : Inert a c := by
  intro sound
  obtain ⟨there, carries, same⟩ := h sound
  obtain ⟨there', carries', same'⟩ := h' there
  exact ⟨there', carries.trans sound.laid carries', same'.trans same⟩

theorem Inert.idle (h : Inert w w') : Idle w w' := by
  intro sound
  obtain ⟨there, carries, same⟩ := h sound
  exact ⟨there, carries.alike sound, (journal_eq same).1⟩

theorem idle_still (h : Still w w') (same : ledger w' = ledger w) : Idle w w' := fun sound =>
  ⟨course_sound.still h sound, alike_still h, same⟩

theorem inert_still (h : Still w w') (unmoved : Unmoved w w') (same : journal w' = journal w) : Inert w w' :=
  fun sound => ⟨course_sound.still h sound, unmoved.carries sound, same⟩

theorem Inert.refl (w : State) : Inert w w :=
  inert_still (.refl w) (unmoved_tables rfl fun _ _ => rfl) rfl

theorem Idle.refl (w : State) : Idle w w := (Inert.refl w).idle

/-- Neither the requests nor the connections change. -/
theorem inert_aside (conns : w'.conns = w.conns) (reqs : w'.reqs = w.reqs)
    (flag : w'.enableDefrag = w.enableDefrag) (nextFd : w.nextFd ≤ w'.nextFd) (same : journal w' = journal w) :
    Inert w w' :=
  inert_still (still_aside conns reqs flag nextFd) (unmoved_tables reqs fun _ _ => by rw [conns]) same

theorem inert_setConn (c : Nat) {conn : ConnInfo} (side : inbox conn = inbox (w.conns c)) :
    Inert w (w.setConn c conn) :=
  inert_still (still_setConn w c side) (unmoved_setConn c (inbox_eq side).1) rfl

theorem inert_removeTimeout {reqId : Nat} {left : Int} (h : removeTimeout w reqId = .ok (w', left)) : Inert w w' :=
  inert_still (still_removeTimeout h) (unmoved_retimed (removeTimeout_retimed h)) (timeless_journal.removeTimeout h)

theorem inert_timerfdSettime {its : ItimerSpec} (h : timerfdSettime w its = .ok w') : Inert w w' :=
  inert_still (still_timerfdSettime h) (unmoved_retimed (timerfdSettime_retimed h))
    (timeless_journal.timerfdSettime h)

theorem idle_passage (h : Sound w → Sound w' ∧ Alike w w') (same : ledger w' = ledger w) : Idle w w' := fun sound =>
  ⟨(h sound).1, (h sound).2, same⟩

theorem idle_setMsgStatus (status : Nat) (placed : (w.reqs slot).messagePtr = some m) :
    Idle w (setMsgStatus w slot m status) :=
  idle_passage (passage_alike.setMsgStatus w slot m status placed) rfl

theorem inert_connReqRemove (placed : (w.reqs slot).messagePtr = some m) :
    Inert w (connReqRemove w (w.reqs slot).connId slot) := fun sound =>
  ⟨course_sound.connReqRemove w slot m placed sound, carries_connReqRemove sound placed, journal_connReqRemove _ _⟩

theorem inert_closeAndForget {sock : Option Nat} (closed : closeAndForget w sock = .ok w') : Inert w w' :=
  fun sound =>
    ⟨course_sound.closeAndForget closed sound, (unmoved_closeAndForget closed).carries sound,
      journal_closeAndForget closed⟩

theorem idle_startForward {ret : Bool} (h : startForward w slot m cmd = .ok (w', ret)) : Idle w w' :=
  idle_passage (passage_alike.startForward h) (ledger_startForward h)

theorem carries_reply {ret : Int} (h : Sound w) (placed : (w.reqs slot).messagePtr = some m)
    (replied : reply w slot m cmd = .ok (w', ret)) : Carries w w' := by
  obtain ⟨v, quiet, reqs, -, rfl⟩ := reply_cases replied
  have sent : Unmoved w v := unmoved_tables reqs fun _ _ => (inbox_eq (quiet.conns _)).1
  have still : Still w v := ⟨quiet, fun s => by rw [reqs]⟩
  have placed' : (v.reqs slot).messagePtr = some m := by rw [reqs]; exact placed
  have removed := carries_connReqRemove (course_sound.still still h) placed'
  rw [reqs] at removed
  exact ((sent.carries h).trans h.laid removed).tables rfl rfl

theorem carries_processReply {ret : Int} (h : Sound w) (placed : (w.reqs slot).messagePtr = some m)
    (done : processReply w slot m cmd = .ok (w', ret)) : Carries w w' := by
  obtain ⟨v, result, replied, ⟨-, conns, reqs⟩ | ⟨-, closed, -⟩⟩ := processReply_cases done
  · exact (carries_reply h placed replied).tables conns reqs
  · have sound := course_sound.reply placed replied h
    exact (carries_reply h placed replied).trans h.laid ((unmoved_closeAndForget closed).carries sound)

theorem inert_processReply {ret : Int} (placed : (w.reqs slot).messagePtr = some m)
    (h : processReply w slot m cmd = .ok (w', ret)) : Inert w w' := fun sound =>
  ⟨course_sound.processReply placed h sound, carries_processReply sound placed h, journal_processReply h⟩

/-- A request that is replied to is gone. -/
theorem processReply_gone {ret : Int} (h : processReply w slot m cmd = .ok (w', ret)) :
    (w'.reqs slot).messagePtr = none := by
  obtain ⟨v, result, replied, ⟨-, -, reqs⟩ | ⟨-, closed, -⟩⟩ := processReply_cases h
  · rw [reqs]
    exact not_not.mp (reply_removed replied).gone
  · exact closeAndForget_gone (not_not.mp (reply_removed replied).gone) closed

/-- A request may move on in its message if it is gone in the end. -/
theorem inert_resumed {itr : Nat} {ret : Int} (placed : (w.reqs slot).messagePtr = some m)
    (current : (w.reqs slot).currCmd = some cmd) (later : cmd ≤ itr)
    (done : processReply (resumed w slot m itr) slot m itr = .ok (w', ret)) : Inert w w' := by
  intro sound
  have moved := sound_resumed sound placed current later
  have placed' : ((resumed w slot m itr).reqs slot).messagePtr = some m :=
    (place_eq (@resumed_place w slot m itr)).2.1.trans placed
  obtain ⟨there, carries, same⟩ := inert_processReply placed' done moved
  refine ⟨there, fun x live => ?_, same⟩
  have other : x ≠ slot := by
    rintro rfl
    exact live (processReply_gone done)
  obtain ⟨q, here, -⟩ := (carries x live).stays
  have beside : ((resumed w slot m itr).reqs x).messagePtr = (w.reqs x).messagePtr :=
    congrArg ReqInfo.messagePtr (setReq_other w { w.reqs slot with currCmd := some itr } other)
  have resumes := intact_resumed sound placed current later
    (by rw [← beside, here]; exact Option.some_ne_none q) other
  exact resumes.toCarried.trans sound.laid (carries x live)

theorem inert_failRequest (placed : (w.reqs slot).messagePtr = some m) (current : (w.reqs slot).currCmd = some cmd)
    (done : failRequest w c slot m cmd = .ok w') : Inert w w' := by
  intro sound
  refine (?_ : Inert w w') sound
  simp only [failRequest] at done
  split at done
  · cases done
  · rename_i v left removed
    have timed := still_removeTimeout removed
    refine (inert_removeTimeout removed).trans ?_
    split at done
    · exact inert_closeAndForget done
    · rename_i itr found
      obtain ⟨stops, behind⟩ := seekReply_found found
      split at done
      · exact inert_closeAndForget done
      · rename_i usable
        obtain ⟨⟨u, ret⟩, executed, paired⟩ := map_eq_ok.mp done
        cases paired
        have type : cmdAt (reqMem w slot) itr = .reply := stops.resolve_left fun e => usable (Or.inr e)
        have placed' : (v.reqs slot).messagePtr = some m := (place_eq (timed.reqs slot)).2.1.trans placed
        have current' : (v.reqs slot).currCmd = some cmd := (stance_eq (timed.stances slot)).1.trans current
        have first := (sound.standing slot m placed).2 cmd current
        have later := behind cmd rfl
        simp only [messageFirstCmd, messageHeader] at first
        change processMessages (resumed v slot m itr) slot = _ at executed
        rw [processMessages_reply placed' (by omega) (Still.reqMem timed slot ▸ type)] at executed
        exact inert_resumed placed' current' later executed

theorem inert_failWaiting {target : Addr} {fuel : Nat} {start : Option Nat}
    (done : failWaiting target c fuel w start = .ok w') : Inert w w' := by
  induction fuel generalizing start with
  | zero =>
    cases done
    exact .refl w
  | succ fuel ih =>
    cases start with
    | none =>
      cases done
      exact .refl w
    | some slot =>
      simp only [failWaiting] at done
      split at done
      · cases done
      · rename_i cmd current
        split at done
        · split at done
          · cases done
            exact .refl w
          · split at done
            · cases done
            · rename_i m placed
              exact inert_failRequest placed current done
        · split at done
          · cases done
            exact .refl w
          · exact ih done

theorem inert_failPending {target : Addr} {fuel i : Nat} (done : failPending target fuel i w = .ok w') :
    Inert w w' := by
  induction fuel generalizing i w with
  | zero =>
    cases done
    exact .refl _
  | succ fuel ih =>
    simp only [failPending] at done
    split at done
    · exact ih done
    · split at done
      · cases done
      · rename_i failed
        exact (inert_failWaiting failed).trans (ih done)

theorem inert_closeFailed (done : closeFailed w c = .ok w') : Inert w w' := by
  have counted : Inert w (if (w.conns c).proto = .tcp ∧ (w.conns c).status = .ready then
      { w with activeConns := w.activeConns - 1 } else w) := by
    split
    · exact inert_aside rfl rfl rfl (Nat.le_refl _) rfl
    · exact .refl w
  simp only [closeFailed] at done
  split at done
  · cases done
  · rename_i closed
    exact counted.trans ((inert_closeAndForget closed).trans (inert_failPending done))

/-! ## Events -/

theorem inert_take {conn : ConnInfo} (opened : (w.conns c).sock ≠ none)
    (prepared : connPrepareRecvMessage (w.conns c) = .ok (some m, conn)) : Inert w (w.setConn c conn) := fun sound =>
  ⟨sound.take opened prepared, (unmoved_setConn c (recvBuf_prepared prepared)).carries sound, rfl⟩

theorem inert_recvPhase (c : Nat) (r : Readiness) : Inert w (recvPhase w c r).1 := by
  intro sound
  refine ⟨sound.recvPhase c r, ?_, journal_recvPhase c r⟩
  have fill : ∀ {conn : ConnInfo}, conn.recvBuf = (w.conns c).recvBuf → Carries w (w.setConn c conn) :=
    fun bytes => (unmoved_setConn c bytes).carries sound
  simp only [recvPhase]
  split
  · simp only [connRecv]
    split
    · exact fill rfl
    · cases r.recv with
      | bytes data source =>
        simp only
        split
        · exact fill rfl
        · refine carries_fill sound fun a low => ?_
          simp only [takeBytes]
          split
          · exact store_outside _ _ _ (Or.inl low)
          · exact store_outside _ _ _ (Or.inl low)
      | wouldBlock => exact fill rfl
      | closed => exact fill rfl
      | failed => exact fill rfl
  · exact ((Inert.refl w) sound).2.1

theorem inert_establishPhase {type : EventType} {r : Readiness} {ok : Bool}
    (h : establishPhase w c type r = .ok (w', ok)) : Inert w w' := by
  have unmoved : Unmoved w w' := by
    refine unmoved_still (still_establishPhase h) ?_
    simp only [establishPhase] at h
    split at h
    · split at h
      · cases h
        rfl
      · obtain ⟨v, polled, paired⟩ := map_eq_ok.mp h
        cases paired
        exact (pollMod_tables polled).2
    · cases h
      rfl
  exact inert_still (still_establishPhase h) unmoved (journal_establishPhase h)

theorem inert_flushPhase {r : Readiness} {ok : Bool} (h : flushPhase w c r = .ok (w', ok)) : Inert w w' := by
  have unmoved : Unmoved w w' := by
    refine unmoved_still (still_flushPhase h) ?_
    simp only [flushPhase] at h
    split at h
    · split at h
      · cases h
      · split at h
        · cases h
          rfl
        · split at h
          · obtain ⟨v, polled, paired⟩ := map_eq_ok.mp h
            cases paired
            exact (pollMod_tables polled).2
          · obtain ⟨v, polled, paired⟩ := map_eq_ok.mp h
            cases paired
            exact (pollMod_tables polled).2
    · cases h
      rfl
  exact inert_still (still_flushPhase h) unmoved (journal_flushPhase h)

theorem inert_acceptConn {addr : Addr} {proto : Proto} (done : acceptConn w addr proto = .ok w') : Inert w w' :=
  fun sound => ⟨⟨(keeps_acceptConn done).laid sound.laid, standing_acceptConn sound.standing done⟩,
    (unmoved_acceptConn sound done).carries sound, journal_acceptConn done⟩

theorem expireRequest_placed (done : expireRequest w slot = .ok w') : (w.reqs slot).messagePtr ≠ none := by
  intro gone
  simp only [expireRequest] at done
  split at done
  · obtain ⟨⟨v, r⟩, executed, -⟩ := map_eq_ok.mp done
    simp only [processMessages, processSingleMessage, setReq_self, gone] at executed
    cases executed
  · rw [gone] at done
    cases done

/-- What comes before the batch takes nothing up, and the connection is open there. -/
theorem readyBatch_inert {type : EventType} {r : Readiness} {v : State} (batch : readyBatch w c type r = some v) :
    Inert w v ∧ (v.conns c).sock ≠ none := by
  simp only [readyBatch] at batch
  split at batch
  · cases batch
  · split at batch
    · cases batch
    · rename_i usable
      have opened : (w.conns c).sock ≠ none := fun e => usable (Or.inl e)
      split at batch
      · rename_i w₁ established
        have still₁ := still_establishPhase established
        have opened₂ := recvPhase_sock w₁ c r
        have received : Inert w₁ (recvPhase w₁ c r).1 := inert_recvPhase c r
        split at batch
        · rename_i w₂ got
          rw [got] at opened₂ received
          split at batch
          · rename_i w₃ flushed
            cases batch
            have still₃ := still_flushPhase flushed
            refine ⟨(inert_establishPhase established).trans (received.trans (inert_flushPhase flushed)), ?_⟩
            rw [(inbox_eq (still₃.conns c)).2.2.2.2.2.2.1, opened₂, (inbox_eq (still₁.conns c)).2.2.2.2.2.2.1]
            exact opened
          · cases batch
        · cases batch
      · cases batch

/-- A timer expires, or nothing is taken up, or a batch is the last part of the event. -/
theorem readyAttempt_inert {type : EventType} {r : Readiness} {ok : Bool}
    (done : readyAttempt w c type r = .ok (w', ok)) :
    (type = .timer ∧ handleTimeout w = .ok w') ∨ Inert w w' ∨
      ∃ v, readyBatch w c type r = some v ∧ obtainMessages v c = .ok (w', ok) := by
  simp only [readyAttempt] at done
  simp only [readyBatch]
  by_cases timer : type = .timer
  · rw [if_pos timer] at done
    obtain ⟨v, expired, paired⟩ := map_eq_ok.mp done
    cases paired
    exact Or.inl ⟨timer, expired⟩
  · rw [if_neg timer] at done ⊢
    refine Or.inr ?_
    by_cases gone : (w.conns c).sock = none ∨ (w.conns c).buffers = false
    · rw [if_pos gone] at done
      cases done
      exact Or.inl (.refl w)
    · rw [if_neg gone] at done ⊢
      cases established : establishPhase w c type r with
      | error e => simp only [established] at done; cases done
      | ok p =>
        obtain ⟨w₁, phase⟩ := p
        have idle₁ := inert_establishPhase established
        cases phase with
        | false =>
          simp only [established] at done
          cases done
          exact Or.inl idle₁
        | true =>
          simp only [established] at done ⊢
          have idle₂ := idle₁.trans (@inert_recvPhase w₁ c r)
          cases got : recvPhase w₁ c r with
          | mk w₂ ok₂ =>
            rw [got] at idle₂
            cases ok₂ with
            | false =>
              simp only [got] at done
              cases done
              exact Or.inl idle₂
            | true =>
              simp only [got] at done ⊢
              cases flushed : flushPhase w₂ c r with
              | error e => simp only [flushed] at done; cases done
              | ok q =>
                obtain ⟨w₃, phase⟩ := q
                cases phase with
                | false =>
                  simp only [flushed] at done
                  cases done
                  exact Or.inl (idle₂.trans (inert_flushPhase flushed))
                | true =>
                  simp only [flushed] at done ⊢
                  exact Or.inr ⟨w₃, rfl, done⟩

end Idle

end ProgramFrames
