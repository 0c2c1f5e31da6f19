import DistWalk.LayoutRuns
import DistWalk.ReturnCodes

/-!
# A connection is closed once

`close_and_forget` looks a descriptor up with `conn_find_sock`, whose assertion fails on
-1. A REPLY that cannot be sent closes its connection and returns -1, and the same -1
makes `exec_request` close the connection that the message came from once more.
-/

namespace ClosedOnce

open ByteMemory Message Connection PriorityQueue Worker Timeout Node Requests Transitions ReceiveQueue
  BufferLayout LayoutSteps ConnectionSlots BufferSpace Batches LayoutRuns ReturnCodes

/-! ## Calls in which the assertion holds -/

/-- The call does not fail in the assertion of `conn_find_sock`. -/
def Finds {α : Type} (x : Except Abort α) : Prop := x ≠ .error .noSocket

section Finds

variable {α β : Type} {x : Except Abort α} {e : Abort}

theorem finds_ok (a : α) : Finds (.ok a : Except Abort α) := fun h => by cases h

theorem finds_error (other : e ≠ .noSocket) : Finds (.error e : Except Abort α) := by
  intro h
  cases h
  exact other rfl

/-- An error is passed on as it is. -/
theorem Finds.passed (h : Finds x) (failed : x = .error e) : Finds (.error e : Except Abort β) := by
  refine finds_error ?_
  rintro rfl
  exact h failed

theorem Finds.map (h : Finds x) (f : α → β) : Finds (x.map f) := by
  cases x with
  | error e => exact h.passed rfl
  | ok a => exact finds_ok _

end Finds

section Calls

variable {w : State} {slot m cmd c : Nat}

theorem finds_closeAndForget {sock : Option Nat} (opened : sock ≠ none) : Finds (closeAndForget w sock) := by
  cases sock with
  | none => exact absurd rfl opened
  | some s =>
    simp only [closeAndForget, connDelSock, connFindSock]
    split
    · rename_i failed
      split at failed
      · rename_i found
        cases found
      · cases failed
      · cases failed
    · exact finds_ok _

theorem finds_timerfdSettime (its : ItimerSpec) : Finds (timerfdSettime w its) := by
  unfold timerfdSettime
  split
  · exact finds_error (by decide)
  · exact finds_ok _

theorem finds_insertTimeout (reqId : Nat) (micros : Int) : Finds (insertTimeout w reqId micros) := by
  simp only [insertTimeout]
  split
  · exact finds_ok _
  · split
    · exact finds_ok _
    · split
      · exact finds_timerfdSettime _
      · exact finds_ok _

theorem finds_removeTimeout (reqId : Nat) : Finds (removeTimeout w reqId) := by
  have rearmed : ∀ (u : State) (elapsed : Int), Finds (rearm u elapsed) := by
    intro u elapsed
    unfold rearm
    split
    · exact finds_timerfdSettime _
    · exact finds_timerfdSettime _
  simp only [removeTimeout]
  split
  · exact finds_ok _
  · split
    · exact finds_ok _
    · exact finds_error (by decide)
    · split
      · exact finds_ok _
      · exact (rearmed _ _).map _

theorem finds_pollMod (i o s : Bool) : Finds (pollMod w c i o s) := by
  simp only [pollMod]
  split
  · exact finds_error (by decide)
  · exact finds_ok _

theorem finds_cmdBoundedNextForward (mem : Mem) (cmd : Option Nat) (msgEnd : Nat) :
    Finds (cmdBoundedNextForward mem cmd msgEnd) := by
  unfold cmdBoundedNextForward
  split
  · exact finds_ok _
  · split
    · exact finds_ok _
    · split
      · exact finds_error (by decide)
      · exact finds_ok _

theorem finds_findForwardReplyId (mem : Mem) (cmd : Option Nat) (addr : Addr) (msgEnd : Nat) :
    Finds (findForwardReplyId mem cmd addr msgEnd) := by
  have from_ : ∀ (fuel : Nat) (cmd : Option Nat) (id : Nat), Finds (findForwardFrom mem addr msgEnd fuel cmd id) := by
    intro fuel
    induction fuel with
    | zero => exact fun _ _ => finds_ok _
    | succ fuel ih =>
      intro cmd id
      cases cmd with
      | none => exact finds_ok _
      | some cmd =>
        simp only [findForwardFrom]
        split
        · exact finds_ok _
        · split
          · rename_i failed
            exact (finds_cmdBoundedNextForward _ _ _).passed failed
          · exact ih _ _
  exact from_ _ _ _

theorem finds_cmdLog (mem : Mem) (msgEnd fuel : Nat) (cmd : Option Nat) : Finds (cmdLog mem msgEnd fuel cmd) := by
  induction fuel generalizing cmd with
  | zero => exact finds_ok _
  | succ fuel ih =>
    cases cmd with
    | none => exact finds_ok _
    | some cmd =>
      simp only [cmdLog]
      split
      · exact finds_ok _
      · split
        · exact finds_ok _
        · exact finds_error (by decide)
        · exact finds_error (by decide)
        · exact ih _

theorem finds_sendForward (fwd : FwdOpts) : Finds (sendForward w slot m cmd c fwd) := by
  simp only [sendForward]
  split
  · exact finds_error (by decide)
  · split
    · exact finds_error (by decide)
    · split
      · exact finds_ok _
      · split
        · exact finds_ok _
        · split
          · exact (finds_insertTimeout _ _).map _
          · exact finds_ok _

theorem finds_singleStartForward : Finds (singleStartForward w slot m cmd) := by
  simp only [singleStartForward]
  split
  · rename_i failed
    exact (finds_findForwardReplyId _ _ _ _).passed failed
  · exact finds_ok _
  · split
    · simp only [skipAcked]
      split
      · rename_i failed
        exact (finds_cmdBoundedNextForward _ _ _).passed failed
      · exact (finds_cmdLog _ _ _ _).map _
    · split
      · exact finds_ok _
      · exact finds_sendForward _

theorem finds_sendBranches {fuel : Nat} {itr : Option Nat} : Finds (sendBranches slot m fuel w itr) := by
  induction fuel generalizing w itr with
  | zero => exact finds_ok _
  | succ fuel ih =>
    cases itr with
    | none => exact finds_ok _
    | some itr =>
      simp only [sendBranches]
      split
      · rename_i failed
        exact finds_singleStartForward.passed failed
      · exact finds_ok _
      · split
        · rename_i failed
          exact (finds_cmdBoundedNextForward _ _ _).passed failed
        · exact ih

theorem finds_processForward : Finds (processForward w slot m cmd) := finds_sendBranches.map _

theorem finds_reply : Finds (reply w slot m cmd) := by
  simp only [reply]
  split
  · exact finds_error (by decide)
  · refine Finds.map ?_ _
    unfold transmitReply
    split
    · simp only [startSendfileOn]
      split
      · exact finds_error (by decide)
      · exact finds_ok _
    · exact finds_ok _

/-- The connection of a live request is open when its REPLY fails. -/
theorem finds_processReply (laid : Laid w) (placed : (w.reqs slot).messagePtr = some m) :
    Finds (processReply w slot m cmd) := by
  simp only [processReply]
  split
  · rename_i failed
    exact finds_reply.passed failed
  · rename_i v result replied
    have opened : (v.conns (w.reqs slot).connId).sock ≠ none :=
      (reply_staysOpen replied).sock laid (laid.opened slot (by rw [placed]; exact Option.some_ne_none m))
    split
    · split
      · exact (finds_pollMod _ _ _).map _
      · exact (finds_closeAndForget opened).map _
    · split
      · exact (finds_pollMod _ _ _).map _
      · exact finds_ok _

theorem finds_processFrom {mem : Mem} {fuel : Nat} {cmd : Option Nat} (laid : Laid w)
    (placed : (w.reqs slot).messagePtr = some m) : Finds (processFrom mem slot m fuel w cmd) := by
  induction fuel generalizing w cmd with
  | zero => exact finds_ok _
  | succ fuel ih =>
    cases cmd with
    | none => exact finds_ok _
    | some cmd =>
      have emitted : ∀ e next, Finds (processFrom mem slot m fuel (w.emit e) next) := fun e _ =>
        ih ((quiet_emit w e).keeps.laid laid) placed
      cases type : cmdAt mem cmd with
      | eom =>
        simp only [processFrom, type]
        exact finds_ok _
      | compute =>
        simp only [processFrom, type]
        exact emitted _ _
      | forwardBegin =>
        simp only [processFrom, type]
        exact finds_processForward
      | forwardContinue =>
        simp only [processFrom, type]
        exact finds_processForward
      | reply =>
        simp only [processFrom, type]
        exact finds_processReply laid placed
      | store =>
        simp only [processFrom, type]
        split
        · exact finds_ok _
        · split
          · exact emitted _ _
          · exact finds_ok _
      | load =>
        simp only [processFrom, type]
        split
        · exact finds_ok _
        · exact finds_ok _
      | pskip =>
        simp only [processFrom, type]
        exact finds_ok _
      | unknown code =>
        simp only [processFrom, type]
        exact finds_ok _

theorem finds_processSingleMessage (laid : Laid w) : Finds (processSingleMessage w slot) := by
  simp only [processSingleMessage]
  split
  · exact finds_error (by decide)
  · rename_i placed
    exact finds_processFrom laid placed

theorem finds_handleForwardReply {reqId status : Nat} {addr : Addr} (laid : Laid w) :
    Finds (handleForwardReply w reqId status addr) := by
  simp only [handleForwardReply]
  split
  · exact finds_ok _
  · rename_i slot _
    split
    · exact finds_error (by decide)
    · rename_i m placed
      split
      · rename_i failed
        exact (finds_findForwardReplyId _ _ _ _).passed failed
      · exact finds_ok _
      · rename_i id _
        split
        · exact finds_ok _
        · split
          · have counted := still_countReply w slot id
            have placed' : ((countReply w slot id).reqs slot).messagePtr = some m :=
              (place_eq (counted.reqs slot)).2.1.trans placed
            have completed := course_keeps.completeContext (m := m) status placed'
            simp only [resumeAfterContext]
            split
            · rename_i failed
              exact (finds_removeTimeout _).passed failed
            · rename_i v left removed
              exact finds_processSingleMessage ((still_removeTimeout removed).keeps.laid
                (completed.laid (counted.keeps.laid laid)))
          · exact finds_ok _

theorem finds_expireRequest (laid : Laid w) : Finds (expireRequest w slot) := by
  simp only [expireRequest]
  split
  · have used : Still w (w.setReq slot { w.reqs slot with fwdRetries := (w.reqs slot).fwdRetries - 1 }) :=
      still_setReq w slot rfl rfl
    exact (finds_processSingleMessage (used.keeps.laid laid)).map _
  · split
    · exact finds_error (by decide)
    · rename_i m placed
      split
      · exact (finds_processSingleMessage ((course_keeps.skipOnFailure placed).laid laid)).map _
      · exact finds_ok _

theorem finds_handleTimeout (laid : Laid w) : Finds (handleTimeout w) := by
  simp only [handleTimeout]
  split
  · exact finds_timerfdSettime _
  · split
    · exact finds_timerfdSettime _
    · split
      · rename_i failed
        exact (finds_removeTimeout _).passed failed
      · rename_i v left removed
        exact finds_expireRequest ((still_removeTimeout removed).keeps.laid laid)

theorem finds_failRequest (laid : Laid w) (opened : (w.conns c).sock ≠ none)
    (placed : (w.reqs slot).messagePtr = some m) : Finds (failRequest w c slot m cmd) := by
  simp only [failRequest]
  split
  · rename_i failed
    exact (finds_removeTimeout _).passed failed
  · rename_i v left removed
    have still := still_removeTimeout removed
    have opened' : (v.conns c).sock ≠ none := by
      rw [(inbox_eq (still.conns c)).2.2.2.2.2.2.1]
      exact opened
    split
    · exact finds_closeAndForget opened'
    · rename_i itr _
      split
      · exact finds_closeAndForget opened'
      · refine (finds_processSingleMessage ?_).map _
        have moved : Quiet v (setCurrCmd v slot (some itr)) := quiet_setReq v slot rfl
        have placed' : ((setCurrCmd v slot (some itr)).reqs slot).messagePtr = some m := by
          rw [setCurrCmd, setReq_self]
          exact (place_eq (still.reqs slot)).2.1.trans placed
        exact (keeps_setMsgStatus statusErr placed').laid (moved.keeps.laid (still.keeps.laid laid))

theorem finds_failWaiting {target : Addr} {fuel : Nat} {start : Option Nat} (laid : Laid w)
    (opened : (w.conns c).sock ≠ none) : Finds (failWaiting target c fuel w start) := by
  induction fuel generalizing start with
  | zero => exact finds_ok _
  | succ fuel ih =>
    cases start with
    | none => exact finds_ok _
    | some slot =>
      simp only [failWaiting]
      split
      · exact finds_error (by decide)
      · split
        · split
          · exact finds_ok _
          · split
            · exact finds_error (by decide)
            · rename_i m placed
              exact finds_failRequest laid opened placed
        · split
          · exact finds_ok _
          · exact ih

theorem finds_failPending {target : Addr} {fuel k : Nat} (laid : Laid w) : Finds (failPending target fuel k w) := by
  induction fuel generalizing k w with
  | zero => exact finds_ok _
  | succ fuel ih =>
    simp only [failPending]
    split
    · exact ih laid
    · rename_i opened
      split
      · rename_i failed
        exact (finds_failWaiting laid opened).passed failed
      · rename_i v walked
        exact ih ((course_keeps.toPassage.failWaiting course_keeps.fails walked).laid laid)

/-- The error path closes a connection that is open. -/
theorem finds_closeFailed (laid : Laid w) (opened : (w.conns c).sock ≠ none) : Finds (closeFailed w c) := by
  simp only [closeFailed]
  split
  · rename_i failed
    exact (finds_closeAndForget opened).passed failed
  · rename_i v closed
    have counted : Still w { w with activeConns := w.activeConns - 1 } := still_aside rfl rfl rfl (Nat.le_refl _)
    refine finds_failPending ((course_keeps.closeAndForget closed).laid ?_)
    split
    · exact counted.keeps.laid laid
    · exact laid

theorem finds_acceptConn (addr : Addr) (proto : Proto) : Finds (acceptConn w addr proto) := by
  simp only [acceptConn]
  split
  · exact finds_closeAndForget (Option.some_ne_none _)
  · split
    · split
      · exact finds_ok _
      · exact (finds_closeAndForget (Option.some_ne_none _)).map _
    · exact finds_ok _

theorem finds_storageAck {reqId : Nat} (laid : Laid w) : Finds (storageAck w reqId) := by
  simp only [storageAck]
  split
  · exact finds_ok _
  · exact (finds_processSingleMessage laid).map _

end Calls

/-! ## The connection at the error path -/

/-- The response to the request cannot be sent: `reply` returns 0, and the connection is
neither CLOSE nor SENDING. -/
def Refused (w : State) (slot : Nat) : Prop :=
  ∃ m cmd effects v, (w.reqs slot).messagePtr = some m ∧ nextStop w slot m = some cmd ∧
    cmdAt (reqMem w slot) cmd = .reply ∧ reply (after w effects) slot m cmd = .ok (v, 0) ∧
    (v.conns (w.reqs slot).connId).status ≠ .close ∧ (v.conns (w.reqs slot).connId).status ≠ .sending

section Opened

variable {w w' : State} {slot m c : Nat}

/-- A connection that was open is open, unless a response on it was refused. -/
theorem processSingleMessage_opened {ret : Int} (laid : Laid w) (opened : (w.conns c).sock ≠ none)
    (taken : (w.reqs slot).connId = c → ¬ Refused w slot)
    (done : processSingleMessage w slot = .ok (w', ret)) : (w'.conns c).sock ≠ none := by
  cases placed : (w.reqs slot).messagePtr with
  | none =>
    simp only [processSingleMessage, placed] at done
    cases done
  | some m =>
    have went : ∀ effects, Still w (after w effects) := fun effects => still_aside rfl rfl rfl (Nat.le_refl _)
    have out := exit_of_processSingleMessage placed done
    generalize shown : nextStop w slot m = stop at out
    cases out with
    | ended effects finished => exact opened
    | strange effects here unread => exact opened
    | refused effects here type missing => exact opened
    | waits effects here asked answered known => exact opened
    | forwards effects here type at_ started =>
      rename_i cmd u sent
      have begun : Quiet w u := by
        rcases at_ with rfl | rfl
        · exact (went effects).toQuiet
        · exact (went effects).toQuiet.trans (quiet_setReq _ slot rfl)
      have forwarded : processForward u slot m cmd = .ok (w', if sent then 0 else -1) := by
        rw [processForward, started]
        rfl
      exact ((staysOpen_of_quiet begun).trans (processForward_staysOpen forwarded)).sock laid opened
    | replies effects here type replied =>
      rename_i cmd
      have laid' := (went effects).keeps.laid laid
      obtain ⟨v, result, sent, outcome⟩ := processReply_cases replied
      have still := (reply_staysOpen sent).sock laid' opened
      rcases outcome with ⟨-, conns, -⟩ | ⟨-, closed, none, quiet, busy⟩
      · rw [conns]
        exact still
      · have placed' : ((after w effects).reqs slot).messagePtr = some m := placed
        have laid'' := (course_keeps.reply placed' sent).laid laid'
        by_cases own : (w.reqs slot).connId = c
        · subst none
          exact absurd ⟨m, cmd, effects, v, placed, shown.trans here, type, sent, quiet, busy⟩ (taken own)
        · obtain ⟨-, -, others, -⟩ := closeAndForget_cases laid'' closed
          rw [others c fun e => own e.symm]
          exact still

theorem completeContext_staysOpen (status : Nat) : StaysOpen w (completeContext w slot m status) := by
  intro d _
  simp only [completeContext, setMsgStatus, State.setConn, State.setReq, Function.update_apply]
  split
  · rename_i own
    rw [own]
    rfl
  · rfl

/-- A response that leaves its request waiting closes nothing. -/
theorem handleForwardReply_staysOpen {reqId status : Nat} {addr : Addr} {ret : Int}
    (done : handleForwardReply w reqId status addr = .ok (w', ret)) (fine : 0 ≤ ret) : StaysOpen w w' := by
  simp only [handleForwardReply] at done
  split at done
  · cases done
    exact .refl _
  · rename_i slot _
    split at done
    · cases done
    · rename_i m placed
      split at done
      · cases done
      · cases done
        exact .refl _
      · rename_i id _
        split at done
        · cases done
          exact .refl _
        · have counted : StaysOpen w (countReply w slot id) := staysOpen_of_quiet (still_countReply w slot id).toQuiet
          split at done
          · simp only [resumeAfterContext] at done
            split at done
            · cases done
            · rename_i v left removed
              exact ((counted.trans (completeContext_staysOpen status)).trans
                (staysOpen_of_quiet (still_removeTimeout removed).toQuiet)).trans
                (processSingleMessage_staysOpen done fine)
          · cases done
            exact counted

end Opened

/-! ## Batches -/

/-- The responses to the messages that the loop takes up are not refused. -/
def RepliesTaken (c : Nat) : Nat → State → Prop
  | 0, _ => True
  | fuel + 1, w =>
    (∀ m conn v slot, connPrepareRecvMessage (w.conns c) = .ok (some m, conn) →
      cmdAt (w.conns c).recvBuf (messageFirstCmd m) ≠ .eom → enterRequest (w.setConn c conn) c m = (v, some slot) →
      ¬ Refused v slot) ∧
    ∀ w' outcome, round w c = .ok (w', some (outcome, true)) → RepliesTaken c fuel w'

section Batch

variable {w w' : State} {c : Nat}

theorem finds_round (h : Sound w) (opened : (w.conns c).sock ≠ none)
    (named : ∀ m conn, connPrepareRecvMessage (w.conns c) = .ok (some m, conn) →
      cmdAt (w.conns c).recvBuf (messageFirstCmd m) ≠ .eom → w.lastReqs ≠ noReq) : Finds (round w c) := by
  simp only [Batches.round]
  split
  · rename_i failed
    refine finds_error ?_
    rintro rfl
    simp only [connPrepareRecvMessage] at failed
    split at failed
    · cases failed
    · split at failed
      · cases failed
      · split at failed <;> cases failed
  · exact finds_ok _
  · rename_i m conn prepared
    have bytes := recvBuf_prepared prepared
    split
    · exact (finds_handleForwardReply (h.take opened prepared).laid).map _
    · rename_i request
      rw [bytes] at request
      split
      · exact finds_ok _
      · rename_i v slot added
        exact (finds_processSingleMessage (h.enter opened prepared (named m conn prepared request) added).laid).map _

/-- The loop stops on a connection that is open. -/
theorem round_opened {outcome : Outcome} (h : Sound w) (opened : (w.conns c).sock ≠ none)
    (named : ∀ m conn, connPrepareRecvMessage (w.conns c) = .ok (some m, conn) →
      cmdAt (w.conns c).recvBuf (messageFirstCmd m) ≠ .eom → w.lastReqs ≠ noReq)
    (taken : ∀ m conn v slot, connPrepareRecvMessage (w.conns c) = .ok (some m, conn) →
      cmdAt (w.conns c).recvBuf (messageFirstCmd m) ≠ .eom → enterRequest (w.setConn c conn) c m = (v, some slot) →
      ¬ Refused v slot)
    (done : round w c = .ok (w', some (outcome, false))) : (w'.conns c).sock ≠ none := by
  have still : ∀ {m conn}, connPrepareRecvMessage (w.conns c) = .ok (some m, conn) →
      ((w.setConn c conn).conns c).sock ≠ none := by
    intro m conn prepared
    obtain ⟨-, -, -, rfl⟩ := connPrepareRecvMessage_some prepared
    simpa [State.setConn] using opened
  have happened := round_done done
  generalize same : some (outcome, false) = result at happened
  cases happened with
  | ended prepared => cases same
  | @replied m conn v ret prepared type handled =>
    have zero : ret = 0 := by
      have stops := congrArg Prod.snd (Option.some.inj same)
      simpa using stops.symm
    exact (handleForwardReply_staysOpen handled (le_of_eq zero.symm)).sock (h.take opened prepared).laid
      (still prepared)
  | refused prepared type added =>
    exact (staysOpen_of_quiet (still_refused added).toQuiet).sock (h.take opened prepared).laid (still prepared)
  | @executed m slot conn v u ret prepared type added executed =>
    rw [recvBuf_prepared prepared] at type
    have entered := h.enter opened prepared (named m conn prepared type) added
    have kept := congrFun (tableless_housing.enterRequest (w.setConn c conn) c m) c
    rw [added] at kept
    refine processSingleMessage_opened entered.laid ?_ (fun _ => taken m conn v slot prepared type added) executed
    rw [show (v.conns c).sock = _ from congrArg Prod.snd kept]
    exact still prepared

theorem finds_batch {fuel : Nat} (h : Sound w) (opened : (w.conns c).sock ≠ none)
    (regular : RegularBatch c fuel w) : Finds (obtainFrom c fuel w) := by
  induction fuel generalizing w with
  | zero => exact finds_ok _
  | succ fuel ih =>
    rw [obtainFrom_succ]
    split
    · rename_i failed
      exact (finds_round h opened regular.1).passed failed
    · exact finds_ok _
    · exact finds_ok _
    · rename_i v outcome turn
      obtain ⟨still, later⟩ := regular.2 v outcome turn
      exact ih (h.round opened regular.1 turn) still later

theorem batch_opened {fuel : Nat} (h : Sound w) (opened : (w.conns c).sock ≠ none) (regular : RegularBatch c fuel w)
    (taken : RepliesTaken c fuel w) (done : obtainFrom c fuel w = .ok (w', false)) : (w'.conns c).sock ≠ none := by
  induction fuel generalizing w with
  | zero => cases done
  | succ fuel ih =>
    rw [obtainFrom_succ] at done
    split at done
    · cases done
    · cases done
    · rename_i v outcome turn
      cases done
      exact round_opened h opened regular.1 taken.1 turn
    · rename_i v outcome turn
      obtain ⟨still, later⟩ := regular.2 v outcome turn
      exact ih (h.round opened regular.1 turn) still later (taken.2 v outcome turn) done

end Batch

/-! ## Events -/

/-- No TLS handshake fails on a connection that is closed, and the responses to the
messages that the event takes up are not refused. -/
def EventTaken (w : State) : Event → Prop
  | .ready c type r =>
    ((w.conns c).status = .sslHandshake → r.handshake = .failed → (w.conns c).sock ≠ none) ∧
      ∀ v, batchOf w c type r = some v → RepliesTaken c ((v.conns c).currRecvBuf + 1) v
  | _ => True

def RunTaken : State → List (Kernel × Event) → Prop
  | _, [] => True
  | w, (kernel, e) :: rest =>
    EventTaken { w with kernel := kernel } e ∧ ∀ w', step w kernel e = .ok w' → RunTaken w' rest

section Events

variable {w w' : State} {c : Nat} {type : EventType} {r : Readiness}

theorem finds_establishPhase : Finds (establishPhase w c type r) := by
  simp only [establishPhase]
  split
  · split
    · exact finds_ok _
    · exact (finds_pollMod _ _ _).map _
  · exact finds_ok _

theorem finds_flushPhase : Finds (flushPhase w c r) := by
  simp only [flushPhase]
  split
  · split
    · exact finds_error (by decide)
    · split
      · exact finds_ok _
      · split
        · exact (finds_pollMod _ _ _).map _
        · exact (finds_pollMod _ _ _).map _
  · exact finds_ok _

/-- The attempt does not fail in the assertion, and the error path finds the connection
open. -/
theorem readyAttempt_opened (h : Sound w)
    (regular : ∀ v, readyBatch w c type r = some v → RegularBatch c ((v.conns c).currRecvBuf + 1) v)
    (taken : ∀ v, readyBatch w c type r = some v → RepliesTaken c ((v.conns c).currRecvBuf + 1) v) :
    Finds (readyAttempt w c type r) ∧
      ∀ v, readyAttempt w c type r = .ok (v, false) → (v.conns c).sock ≠ none := by
  simp only [LayoutRuns.readyAttempt]
  simp only [readyBatch] at regular taken
  by_cases timer : type = .timer
  · rw [if_pos timer]
    refine ⟨(finds_handleTimeout h.laid).map _, fun v done => ?_⟩
    obtain ⟨u, -, paired⟩ := map_eq_ok.mp done
    cases paired
  · rw [if_neg timer] at regular taken ⊢
    by_cases gone : (w.conns c).sock = none ∨ (w.conns c).buffers = false
    · rw [if_pos gone]
      exact ⟨finds_ok _, fun v done => by cases done⟩
    · rw [if_neg gone] at regular taken ⊢
      have opened : (w.conns c).sock ≠ none := fun e => gone (Or.inl e)
      cases established : establishPhase w c type r with
      | error e => exact ⟨finds_establishPhase.passed established, fun v done => by cases done⟩
      | ok p =>
        obtain ⟨w₁, phase⟩ := p
        have still₁ := still_establishPhase established
        have h₁ := course_sound.still still₁ h
        have opened₁ : (w₁.conns c).sock ≠ none := by
          rw [(inbox_eq (still₁.conns c)).2.2.2.2.2.2.1]
          exact opened
        cases phase with
        | false => exact ⟨finds_ok _, fun v done => by cases done; exact opened₁⟩
        | true =>
          simp only [established] at regular taken ⊢
          have h₂ := h₁.recvPhase c r
          have opened₂ := recvPhase_sock w₁ c r
          cases got : Node.recvPhase w₁ c r with
          | mk w₂ ok₂ =>
            rw [got] at h₂ opened₂
            cases ok₂ with
            | false => exact ⟨finds_ok _, fun v done => by cases done; exact opened₂ ▸ opened₁⟩
            | true =>
              simp only [got] at regular taken ⊢
              cases flushed : flushPhase w₂ c r with
              | error e => exact ⟨finds_flushPhase.passed flushed, fun v done => by cases done⟩
              | ok q =>
                obtain ⟨w₃, phase⟩ := q
                have still₃ := still_flushPhase flushed
                have h₃ := course_sound.still still₃ h₂
                have opened₃ : (w₃.conns c).sock ≠ none := by
                  rw [(inbox_eq (still₃.conns c)).2.2.2.2.2.2.1, opened₂]
                  exact opened₁
                cases phase with
                | false => exact ⟨finds_ok _, fun v done => by cases done; exact opened₃⟩
                | true =>
                  simp only [flushed] at regular taken ⊢
                  exact ⟨finds_batch h₃ opened₃ (regular w₃ rfl), fun v done =>
                    batch_opened h₃ opened₃ (regular w₃ rfl) (taken w₃ rfl) done⟩

theorem attempt_opened (h : Sound w) (regular : RegularEvent w (.ready c type r))
    (taken : EventTaken w (.ready c type r)) :
    Finds (attempt w c type r) ∧ ∀ v, attempt w c type r = .ok (v, false) → (v.conns c).sock ≠ none := by
  obtain ⟨shaking, taken⟩ := taken
  simp only [LayoutRuns.attempt]
  simp only [RegularEvent, batchOf] at regular taken
  by_cases handshaking : (w.conns c).status = .sslHandshake
  · rw [if_pos handshaking] at regular taken ⊢
    cases shaken : r.handshake with
    | failed => exact ⟨finds_ok _, fun v done => by cases done; exact shaking handshaking shaken⟩
    | inProgress => exact ⟨finds_ok _, fun v done => by cases done⟩
    | complete =>
      simp only [shaken] at regular taken ⊢
      have ready : Still w (w.setConn c { w.conns c with status := .ready }) := still_setConn w c rfl
      exact readyAttempt_opened (course_sound.still ready h) regular taken
  · rw [if_neg handshaking] at regular taken ⊢
    exact readyAttempt_opened h regular taken

theorem finds_step {kernel : Kernel} {e : Event} (h : Sound w) (regular : RegularEvent { w with kernel := kernel } e)
    (taken : EventTaken { w with kernel := kernel } e) : Finds (step w kernel e) := by
  have asked : Still w { w with kernel := kernel } := still_aside rfl rfl rfl (Nat.le_refl _)
  have before := course_sound.still asked h
  cases e with
  | accept addr proto => exact finds_acceptConn addr proto
  | ready c type r =>
    obtain ⟨finds, opened⟩ := attempt_opened before regular taken
    change Finds (execRequest _ c type r)
    rw [execRequest_eq]
    cases tried : LayoutRuns.attempt { w with kernel := kernel } c type r with
    | error a => exact finds.passed tried
    | ok p =>
      obtain ⟨v, ok⟩ := p
      cases ok with
      | true => exact finds_ok _
      | false => exact finds_closeFailed (before.attempt regular tried).laid (opened v tried)
  | storage reqId => exact finds_storageAck before.laid
  | elapse ns => exact finds_ok _

theorem finds_run {events : List (Kernel × Event)} (h : Sound w) (regular : RegularRun w events)
    (taken : RunTaken w events) : Finds (run w events) := by
  induction events generalizing w with
  | nil => exact finds_ok _
  | cons head rest ih =>
    obtain ⟨kernel, e⟩ := head
    simp only [run]
    split
    · rename_i failed
      exact (finds_step h regular.1 taken.1).passed failed
    · rename_i v done
      exact ih (h.step regular.1 done) (regular.2 v done) (taken.2 v done)

end Events

/-- No run fails in the assertion of `conn_find_sock`, as long as no response to a message
is refused while the messages of its connection are taken up. -/
theorem closed_once (storageDevices : Nat) (storageFd : Nat → Nat) (files : Nat → Mem) (enableDefrag : Bool)
    {events : List (Kernel × Event)}
    (regular : RegularRun (State.init storageDevices storageFd files enableDefrag) events)
    (taken : RunTaken (State.init storageDevices storageFd files enableDefrag) events) :
    run (State.init storageDevices storageFd files enableDefrag) events ≠ .error .noSocket :=
  finds_run (sound_init storageDevices storageFd files enableDefrag) regular taken

/-- What has been recorded makes no difference to what a response returns. -/
theorem reply_after (w : State) (slot m cmd : Nat) (effects : List Effect) :
    (reply (after w effects) slot m cmd).map (·.2) = (reply w slot m cmd).map (·.2) := by
  have returned : ∀ {x : Except Abort (State × Int)} {f : State × Int → State},
      (x.map fun s => (f s, s.2)).map (·.2) = x.map (·.2) := by
    intro x f
    cases x <;> rfl
  have started : ∀ (c : Nat) (conn : ConnInfo) (target : Addr),
      (startSendOn ((after w effects).setConn c conn) c target).2 = (startSendOn (w.setConn c conn) c target).2 := by
    intro c conn target
    simp only [startSendOn, takeSend, after, State.setConn, Function.update_self]
    split
    · rfl
    · cases w.kernel.sends <;> rfl
  have streamed : ∀ (c : Nat) (conn : ConnInfo) (target : Addr) (fd size : Nat),
      (startSendfileOn ((after w effects).setConn c conn) c target fd size).map (·.2) =
        (startSendfileOn (w.setConn c conn) c target fd size).map (·.2) := by
    intro c conn target fd size
    simp only [startSendfileOn, takeSendfile, after, State.setConn, Function.update_self]
    by_cases later : conn.status.deferred = true
    · simp only [later, if_true]
      cases (connStartSendfile w.files conn target fd 0 size [] .wouldBlock).1 <;> rfl
    · simp only [later, Bool.false_eq_true, if_false]
      cases (connStartSendfile w.files conn target fd 0 size (w.kernel.headers.headD [.done messageHeader])
        (w.kernel.files.headD (.done (2 ^ 32)))).1 <;> rfl
  simp only [reply]
  split
  · rename_i small
    rw [if_pos (by exact small)]
  · rename_i fits
    rw [if_neg (by exact fits), returned, returned]
    unfold transmitReply
    split
    · rename_i mode
      rw [show (replyOpts (reqMem w slot) cmd).mode = .sendfile from mode]
      exact streamed _ _ _ _ _
    · rename_i mode
      split
      · rename_i other
        exact absurd other mode
      · exact congrArg (fun r : Int => (Except.ok r : Except Abort Int)) (started _ _ _)

def oneNode : State := .init 0 (fun _ => 0) (fun _ _ => 0) true

/-- A client sends a request that is answered at once; the kernel's answer to that response. -/
def echo (answer : IoResult) : List (Kernel × Event) :=
  [(.silent, .accept [10, 0, 0, 9, 0, 9] .tcp),
   ({ Kernel.silent with sends := [answer] }, .ready 0 .socket (received (Wire.message 5 0 [.reply 16, .eom])))]

def oneDisk : State := .init 1 (fun _ => 0) (fun _ _ => 0) true

/-- A client is answered at once. Another one is gone when its LOAD has been executed, and
its response is refused. -/
def echoAndLoad : List (Kernel × Event) :=
  echo (.done 16) ++
    [(.silent, .accept [10, 0, 0, 8, 0, 8] .tcp),
     (.silent, .ready 1 .socket (received (Wire.message 6 0 [.load 0, .reply 16, .eom]))),
     ({ Kernel.silent with sends := [.peerClosed] }, .storage 1)]

theorem echoAndLoad_regular : RegularRun oneDisk echoAndLoad := by
  refine ⟨trivial, fun s₁ done₁ => ⟨fun v batch => ?_, fun s₂ done₂ => ⟨trivial, fun s₃ done₃ =>
    ⟨fun v batch => ?_, fun _ _ => ⟨trivial, fun _ _ => trivial⟩⟩⟩⟩⟩
  · cases done₁
    cases batch
    refine ⟨fun m conn taken _ => by decide, fun w' outcome turn => ?_⟩
    cases turn
    exact ⟨by decide, fun m conn taken => (by cases taken), fun w' outcome turn => (by cases turn)⟩
  · cases done₁
    cases done₂
    cases done₃
    cases batch
    refine ⟨fun m conn taken _ => by decide, fun w' outcome turn => ?_⟩
    cases turn
    exact ⟨by decide, fun m conn taken => (by cases taken), fun w' outcome turn => (by cases turn)⟩

theorem echoAndLoad_taken : RunTaken oneDisk echoAndLoad := by
  refine ⟨trivial, fun s₁ done₁ => ⟨⟨fun shaking => ?_, fun v batch => ?_⟩, fun s₂ done₂ => ⟨trivial, fun s₃ done₃ =>
    ⟨⟨fun shaking => ?_, fun v batch => ?_⟩, fun _ _ => ⟨trivial, fun _ _ => trivial⟩⟩⟩⟩⟩
  · cases done₁
    cases shaking
  · cases done₁
    cases batch
    refine ⟨fun m conn v slot taken _ added refused => ?_, fun w' outcome turn => ?_⟩
    · cases taken
      cases added
      obtain ⟨m, cmd, effects, u, placed, here, -, sent, -⟩ := refused
      cases placed
      cases here
      cases (reply_after _ _ _ _ effects).symm.trans (congrArg (Except.map Prod.snd) sent)
    · cases turn
      exact ⟨fun m conn v slot taken => (by cases taken), fun w' outcome turn => (by cases turn)⟩
  · cases done₁
    cases done₂
    cases done₃
    cases shaking
  · cases done₁
    cases done₂
    cases done₃
    cases batch
    refine ⟨fun m conn v slot taken _ added refused => ?_, fun w' outcome turn => ?_⟩
    · cases taken
      cases added
      -- a request that begins with a LOAD is not answered in the batch
      obtain ⟨m, cmd, effects, u, placed, here, type, -, -⟩ := refused
      cases placed
      cases here
      exact absurd type (by decide)
    · cases turn
      exact ⟨fun m conn v slot taken => (by cases taken), fun w' outcome turn => (by cases turn)⟩

theorem closed_once_elsewhere : run oneDisk echoAndLoad ≠ .error .noSocket ∧
    ∃ w, run oneDisk echoAndLoad = .ok w ∧ (w.conns 0).sock ≠ none ∧ (w.conns 1).sock = none :=
  ⟨closed_once 1 _ _ true echoAndLoad_regular echoAndLoad_taken, _, rfl, by decide, by decide⟩

/-- The client is gone when the response is sent. -/
theorem closed_twice : run oneNode (echo .peerClosed) = .error .noSocket := by rfl

end ClosedOnce
