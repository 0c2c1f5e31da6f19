import DistWalk.LayoutSteps
import DistWalk.Batches
import DistWalk.ConnectionSlots

/-!
# The space of the receive buffers

On a node that defragments, the free space of a connection's receive buffer is what
the messages of its live requests and the bytes not yet taken leave. Space is given
back when a request is released. A message that `obtain_messages` takes as the reply
to a FORWARD never becomes a request, so its bytes are never given back.
-/

namespace BufferSpace

open ByteMemory Message Connection Worker Timeout Node Requests Transitions ThreadedBlocks ReceiveQueue
  BufferLayout LayoutSteps Forwarding Batches ConnectionSlots

/-! ## What a closing closes -/

/-- Closing a connection reaches no other. -/
theorem closeAndForget_cases {w w' : State} {j : Nat} (laid : Laid w) (h : closeAndForget w (w.conns j).sock = .ok w') :
    (w.conns j).sock ≠ none ∧ (w'.conns j).sock = none ∧ (∀ d, d ≠ j → w'.conns d = w.conns d) ∧
      ∃ e, w'.reqs = (connReset (w.emit e) j).reqs := by
  cases own : (w.conns j).sock with
  | none =>
    rw [own] at h
    cases h
  | some sock =>
    rw [own] at h
    have small := laid.range j (by rw [own]; exact Option.some_ne_none sock)
    simp only [closeAndForget, connDelSock, connFindSock] at h
    cases found : findIndex (fun d => decide (((w.emit (.pollDel (some sock))).conns d).sock = some sock))
        maxConns 0 with
    | none =>
      have absent := findIndex_eq_none.mp found j (Nat.zero_le j) (by omega)
      simp [State.emit, own] at absent
    | some d =>
      have first : (w.conns d).sock = some sock := of_decide_eq_true (findIndex_holds found)
      have same : d = j := laid.distinct d j sock first own
      subst same
      simp only [found] at h
      cases h
      have conns : (connReset (w.emit (.pollDel (some sock))) d).conns = w.conns := connResetFrom_conns _ _ _
      refine ⟨Option.some_ne_none sock, by simp [connDelId, State.setConn, State.emit], fun c other => ?_,
        _, rfl⟩
      have table : (connDelId (w.emit (.pollDel (some sock))) d).conns c =
          (connReset (w.emit (.pollDel (some sock))) d).conns c := by
        simp only [connDelId, State.setConn, Function.update_of_ne other]
      exact table.trans (congrFun conns c)

/-! ## A request that does not fail closes nothing -/

/-- Every connection in use stays as open as it was. -/
def StaysOpen (w w' : State) : Prop :=
  ∀ d, (w.conns d).busy = true → housing (w'.conns d) = housing (w.conns d)

theorem StaysOpen.refl (w : State) : StaysOpen w w := fun _ _ => rfl

theorem StaysOpen.trans {a b c : State} (h : StaysOpen a b) (h' : StaysOpen b c) : StaysOpen a c := by
  intro d used
  have first := h d used
  exact (h' d ((congrArg Prod.fst first).trans used)).trans first

theorem staysOpen_of_quiet {w w' : State} (h : Quiet w w') : StaysOpen w w' := by
  intro d _
  have same := inbox_eq (h.conns d)
  simp only [housing, same.2.2.2.2.2.1, same.2.2.2.2.2.2.1]

theorem StaysOpen.sock {w w' : State} (h : StaysOpen w w') (laid : Laid w) {c : Nat}
    (opened : (w.conns c).sock ≠ none) : (w'.conns c).sock ≠ none := by
  have same := congrArg Prod.snd (h c (laid.busy c opened))
  rw [show (w'.conns c).sock = (w.conns c).sock from same]
  exact opened

theorem forwardConn_staysOpen (w : State) (fwd : FwdOpts) : StaysOpen w (forwardConn w fwd).1 :=
  fun _ used => congrArg housing (forwardConn_used fwd used)

theorem singleStartForward_staysOpen {w w' : State} {slot m cmd : Nat} {ret : Option Nat}
    (h : singleStartForward w slot m cmd = .ok (w', ret)) : StaysOpen w w' := by
  simp only [singleStartForward] at h
  split at h
  · cases h
  · cases h
    exact .refl w
  · split at h
    · rw [skipAcked_state h]
      exact .refl w
    · have reached := forwardConn_staysOpen w (fwdOpts (reqMem w slot) cmd)
      split at h
      · rename_i e
        rw [e] at reached
        cases h
        exact reached
      · rename_i e
        rw [e] at reached
        exact reached.trans (staysOpen_of_quiet (still_sendForward h).toQuiet)

theorem sendBranches_staysOpen {slot m fuel : Nat} {w w' : State} {itr : Option Nat} {ret : Bool}
    (h : sendBranches slot m fuel w itr = .ok (w', ret)) : StaysOpen w w' := by
  induction fuel generalizing w itr with
  | zero =>
    cases h
    exact .refl _
  | succ fuel ih =>
    cases itr with
    | none =>
      cases h
      exact .refl _
    | some cmd =>
      simp only [sendBranches] at h
      split at h
      · cases h
      · rename_i sent
        cases h
        exact singleStartForward_staysOpen sent
      · rename_i sent
        split at h
        · cases h
        · exact (singleStartForward_staysOpen sent).trans (ih h)

theorem processForward_staysOpen {w w' : State} {slot m cmd : Nat} {ret : Int}
    (h : processForward w slot m cmd = .ok (w', ret)) : StaysOpen w w' := by
  obtain ⟨⟨v, sent⟩, started, paired⟩ := map_eq_ok.mp h
  cases paired
  have begun : StaysOpen w (beginContext w slot cmd) := fun _ _ => rfl
  exact begun.trans (sendBranches_staysOpen started)

theorem reply_staysOpen {w w' : State} {slot m cmd : Nat} {ret : Int}
    (h : reply w slot m cmd = .ok (w', ret)) : StaysOpen w w' := by
  simp only [reply] at h
  split at h
  · cases h
  · obtain ⟨⟨v, r⟩, sent, paired⟩ := map_eq_ok.mp h
    cases paired
    have filled : Quiet w (w.setConn (w.reqs slot).connId
        (fillReply (connPrepareSendMessage (w.conns (w.reqs slot).connId)).1 (reqMem w slot) m
          (replyOpts (reqMem w slot) cmd) (connPrepareSendMessage (w.conns (w.reqs slot).connId)).2)) :=
      quiet_setConn w _ rfl
    have removed : StaysOpen v (connReqRemove v (w.reqs slot).connId slot) :=
      fun d _ => congrFun (tableless_housing.connReqRemove v _ slot) d
    exact (staysOpen_of_quiet (filled.trans (still_transmitReply sent).toQuiet)).trans removed

/-- Only a REPLY that fails closes a connection, and it returns -1. -/
theorem processReply_staysOpen {w w' : State} {slot m cmd : Nat} {ret : Int}
    (h : processReply w slot m cmd = .ok (w', ret)) (fine : 0 ≤ ret) : StaysOpen w w' := by
  simp only [processReply] at h
  split at h
  · cases h
  · rename_i replied
    have done := reply_staysOpen replied
    split at h
    · split at h
      · obtain ⟨v, polled, paired⟩ := map_eq_ok.mp h
        cases paired
        exact done.trans (staysOpen_of_quiet (still_pollMod polled).toQuiet)
      · obtain ⟨v, closed, paired⟩ := map_eq_ok.mp h
        cases paired
        exact absurd fine (by decide)
    · split at h
      · obtain ⟨v, polled, paired⟩ := map_eq_ok.mp h
        cases paired
        exact done.trans (staysOpen_of_quiet (still_pollMod polled).toQuiet)
      · cases h
        exact done

theorem processFrom_staysOpen {mem : Mem} {slot m fuel : Nat} {w w' : State} {cmd : Option Nat} {ret : Int}
    (h : processFrom mem slot m fuel w cmd = .ok (w', ret)) (fine : 0 ≤ ret) : StaysOpen w w' := by
  have emitted : ∀ e, StaysOpen w (w.emit e) := fun _ _ _ => rfl
  induction fuel generalizing w cmd with
  | zero =>
    cases h
    exact .refl _
  | succ fuel ih =>
    cases cmd with
    | none =>
      cases h
      exact .refl _
    | some cmd =>
      cases type : cmdAt mem cmd with
      | eom =>
        simp only [processFrom, type] at h
        cases h
        exact .refl _
      | compute =>
        simp only [processFrom, type] at h
        exact (emitted _).trans (ih h fun _ _ _ => rfl)
      | forwardBegin =>
        simp only [processFrom, type] at h
        exact (show StaysOpen w (setCurrCmd w slot (some cmd)) from fun _ _ => rfl).trans
          (processForward_staysOpen h)
      | forwardContinue =>
        simp only [processFrom, type] at h
        exact processForward_staysOpen h
      | reply =>
        simp only [processFrom, type] at h
        exact processReply_staysOpen h fine
      | store =>
        simp only [processFrom, type] at h
        split at h
        · cases h
          exact .refl _
        · split at h
          · exact (emitted _).trans (ih h fun _ _ _ => rfl)
          · cases h
            exact fun _ _ => rfl
      | load =>
        simp only [processFrom, type] at h
        split at h
        · cases h
          exact .refl _
        · cases h
          exact fun _ _ => rfl
      | pskip =>
        simp only [processFrom, type] at h
        cases h
        exact .refl _
      | unknown code =>
        simp only [processFrom, type] at h
        cases h
        exact .refl _

theorem processSingleMessage_staysOpen {w w' : State} {slot : Nat} {ret : Int}
    (h : processSingleMessage w slot = .ok (w', ret)) (fine : 0 ≤ ret) : StaysOpen w w' := by
  simp only [processSingleMessage] at h
  split at h
  · cases h
  · exact processFrom_staysOpen h fine

/-! ## The balance of one connection -/

/-- The requests that hold a message of connection `c`. -/
def liveOn (w : State) (c : Nat) : Finset Nat :=
  (Finset.range maxReqs).filter fun s => (w.reqs s).messagePtr ≠ none ∧ (w.reqs s).connId = c

/-- The total `req_size` of their messages. -/
def liveBytes (w : State) (c : Nat) : Nat :=
  ∑ s ∈ liveOn w c, blockSize (fun s => (w.reqs s).messagePtr) (reqSizeOf (w.conns c).recvBuf) s

/-- Bytes received and not yet taken by `conn_prepare_recv_message`. -/
def unread (w : State) (c : Nat) : Nat := (w.conns c).currRecvBuf - (w.conns c).currProcBuf

def Conserved (w : State) (c : Nat) : Prop :=
  (w.conns c).currRecvSize + liveBytes w c + unread w c = bufSize

theorem heldBytes_eq_liveBytes {w : State} {c : Nat} {l : List Nat} (h : Queue w c l) :
    heldBytes w c l = liveBytes w c := by
  have same : liveOn w c = l.toFinset := by
    ext s
    simp only [liveOn, Finset.mem_filter, Finset.mem_range, List.mem_toFinset]
    rw [h.members s]
    exact ⟨And.right, fun on => ⟨h.slots s ((h.members s).mpr on), on⟩⟩
  rw [liveBytes, same, List.sum_toFinset _ h.nodup]
  rfl

theorem conserved_of_queued {w : State} {c : Nat} (laid : Laid w) (opened : (w.conns c).sock ≠ none)
    (h : Queued w c 0) : Conserved w c := by
  obtain ⟨l, queue, total⟩ := h
  have proc := laid.proc c opened
  have recv := laid.recv c opened
  rw [heldBytes_eq_liveBytes queue] at total
  simp only [Conserved, unread]
  omega

/-! ## Batches of requests only -/

/-- Every message that the batch takes is a request, and the slot it is entered into
holds no other message. -/
def OnlyRequests (c : Nat) : Nat → State → Prop
  | 0, _ => True
  | fuel + 1, w =>
    (∀ m conn, connPrepareRecvMessage (w.conns c) = .ok (some m, conn) →
      cmdAt (w.conns c).recvBuf (messageFirstCmd m) ≠ .eom ∧
      ((w.reqs (slotOf w.lastReqs)).reqId = noReq → (w.reqs (slotOf w.lastReqs)).messagePtr = none)) ∧
    ∀ w' outcome, round w c = .ok (w', some (outcome, true)) → OnlyRequests c fuel w'

/-- The state in which `exec_request` calls `obtain_messages`. -/
def readyBatch (w : State) (c : Nat) (type : EventType) (r : Readiness) : Option State :=
  if type = .timer then none
  else if (w.conns c).sock = none ∨ (w.conns c).buffers = false then none
  else
    match establishPhase w c type r with
    | .ok (w, true) =>
      match recvPhase w c r with
      | (w, true) =>
        match flushPhase w c r with
        | .ok (w, true) => some w
        | _ => none
      | _ => none
    | _ => none

def batchOf (w : State) (c : Nat) (type : EventType) (r : Readiness) : Option State :=
  if (w.conns c).status = .sslHandshake then
    match r.handshake with
    | .complete => readyBatch (w.setConn c { w.conns c with status := .ready }) c type r
    | _ => none
  else readyBatch w c type r

/-- The event takes no message but requests. -/
def TakesRequests (w : State) : Event → Prop
  | .ready c type r => ∀ v, batchOf w c type r = some v → OnlyRequests c ((v.conns c).currRecvBuf + 1) v
  | _ => True

/-- No event of the run takes a message but requests. -/
def RequestRun : State → List (Kernel × Event) → Prop
  | _, [] => True
  | w, (kernel, e) :: rest =>
    TakesRequests { w with kernel := kernel } e ∧ ∀ w', step w kernel e = .ok w' → RequestRun w' rest

/-- The state is laid out and no open connection but those of `x` has lost a byte. -/
structure Balanced (x : Nat → Prop) (w : State) : Prop where
  laid : Laid w
  on : w.enableDefrag = true
  queued : ∀ c, ¬ x c → (w.conns c).sock ≠ none → Queued w c 0

theorem Balanced.keeps {x : Nat → Prop} {w w' : State} (h : Balanced x w) (k : Keeps w w') : Balanced x w' := by
  refine ⟨k.laid h.laid, k.flag.trans h.on, fun c outside opened => ?_⟩
  rcases k.carries h.laid h.on c opened with ⟨before, kept⟩ | new
  · exact kept 0 (h.queued c outside before)
  · exact new

theorem Balanced.mono {x y : Nat → Prop} {w : State} (h : Balanced x w) (le : ∀ c, x c → y c) : Balanced y w :=
  ⟨h.laid, h.on, fun c outside => h.queued c fun inside => outside (le c inside)⟩

/-- One round of a batch of requests. A request that is refused is lost, and the
batch ends there. -/
theorem Balanced.round {w w' : State} {c : Nat} {result : Option (Outcome × Bool)}
    (h : Balanced (fun _ => False) w) (opened : (w.conns c).sock ≠ none)
    (only : ∀ m conn, connPrepareRecvMessage (w.conns c) = .ok (some m, conn) →
      cmdAt (w.conns c).recvBuf (messageFirstCmd m) ≠ .eom ∧
      ((w.reqs (slotOf w.lastReqs)).reqId = noReq → (w.reqs (slotOf w.lastReqs)).messagePtr = none))
    (done : Batches.round w c = .ok (w', result)) :
    (∀ outcome, result = some (outcome, false) → Balanced (· = c) w') ∧
      ((result = none ∨ ∃ outcome, result = some (outcome, true)) →
        Balanced (fun _ => False) w' ∧ (w'.conns c).sock ≠ none) := by
  cases Batches.round_done done with
  | ended prepared =>
    rw [connPrepareRecvMessage_none prepared]
    have same : w.setConn c (w.conns c) = w := by simp [State.setConn]
    rw [same]
    exact ⟨fun outcome e => (by cases e), fun _ => ⟨h, opened⟩⟩
  | @replied m conn v ret prepared type handled =>
    rw [recvBuf_prepared prepared] at type
    exact absurd type (only m conn prepared).1
  | @refused m conn v prepared type added =>
    refine ⟨fun _ _ => ?_, fun e => by rcases e with e | ⟨_, e⟩ <;> cases e⟩
    obtain ⟨laid, -, same⟩ := h.laid.take opened prepared
    have taken : Balanced (· = c) (w.setConn c conn) := by
      refine ⟨laid, h.on, fun d other opened' => (same d other).queued (h.queued d id ?_)⟩
      simpa [State.setConn, other] using opened'
    rcases enterRequest_cases (w.setConn c conn) c m with ⟨-, -, refused⟩ | ⟨-, some⟩
    · rw [added] at refused
      cases refused
      have counted : Quiet (w.setConn c conn)
          { w.setConn c conn with lastReqs := ((w.setConn c conn).lastReqs + 1) % 2 ^ 32 } :=
        quiet_aside rfl rfl rfl (Nat.le_refl _)
      exact taken.keeps counted.keeps
    · rw [added] at some
      cases some
  | @executed m slot conn v u ret prepared type added executed =>
    have vacant := (only m conn prepared).2
    have free : (w.reqs (slotOf w.lastReqs)).reqId = noReq := by
      rcases enterRequest_cases (w.setConn c conn) c m with ⟨-, none, -⟩ | ⟨free, -⟩
      · rw [added] at none
        cases none
      · exact free
    have admitted := keeps_admit opened prepared added (vacant free)
    have before := h.keeps admitted
    have after := before.keeps (course_keeps.processSingleMessage executed)
    refine ⟨fun _ _ => after.mono fun _ no => no.elim, fun e => ⟨after, ?_⟩⟩
    have fine : 0 ≤ ret := by
      rcases e with e | ⟨_, e⟩
      · cases e
      · simp only [Option.some.injEq, Prod.mk.injEq, decide_eq_true_eq] at e
        omega
    have entered : (v.conns c).sock ≠ none := by
      have housed := congrFun (tableless_housing.enterRequest (w.setConn c conn) c m) c
      rw [added] at housed
      have sock : (v.conns c).sock = ((w.setConn c conn).conns c).sock := congrArg Prod.snd housed
      obtain ⟨-, -, -, rfl⟩ := connPrepareRecvMessage_some prepared
      rw [sock]
      simpa [State.setConn] using opened
    exact (processSingleMessage_staysOpen executed fine).sock before.laid entered

/-- A batch of requests keeps the balance, but of a connection it has closed. -/
theorem Balanced.batch {c fuel : Nat} {w w' : State} {goesOn : Bool} (h : Balanced (fun _ => False) w)
    (opened : (w.conns c).sock ≠ none) (only : OnlyRequests c fuel w)
    (done : obtainFrom c fuel w = .ok (w', goesOn)) :
    Balanced (· = c) w' ∧ (goesOn = true → Balanced (fun _ => False) w') := by
  induction fuel generalizing w with
  | zero =>
    cases done
    exact ⟨h.mono fun _ no => no.elim, fun _ => h⟩
  | succ fuel ih =>
    rw [obtainFrom_succ] at done
    cases turn : Batches.round w c with
    | error e => simp only [turn] at done; cases done
    | ok p =>
      obtain ⟨v, result⟩ := p
      obtain ⟨ended, goes⟩ := h.round opened only.1 turn
      rcases result with _ | ⟨outcome, _ | _⟩
      · simp only [turn] at done
        cases done
        have kept := (goes (Or.inl rfl)).1
        exact ⟨kept.mono fun _ no => no.elim, fun _ => kept⟩
      · simp only [turn] at done
        cases done
        exact ⟨ended outcome rfl, fun e => by cases e⟩
      · simp only [turn] at done
        obtain ⟨kept, still⟩ := goes (Or.inr ⟨outcome, rfl⟩)
        exact ih kept still (only.2 v outcome turn) done

/-- The error path forgets the connection itself. -/
theorem closeAndForget_own {w w' : State} {c : Nat} (laid : Laid w)
    (h : closeAndForget w (w.conns c).sock = .ok w') : (w'.conns c).sock = none := by
  cases own : (w.conns c).sock with
  | none =>
    rw [own] at h
    cases h
  | some s =>
    rw [own] at h
    have small := laid.range c (by rw [own]; exact Option.some_ne_none s)
    rcases housing_closeAndForget h with ⟨missing, -⟩ | ⟨d, found, housed⟩
    · have absent := findIndex_eq_none.mp missing c (Nat.zero_le c) (by omega)
      simp [own] at absent
    · have first : (w.conns d).sock = some s := by simpa using findIndex_holds found
      have same : d = c := laid.distinct d c s first own
      have after := congrArg Prod.snd (housed c)
      rw [if_pos same.symm] at after
      exact after

theorem Balanced.closeFailed {w w' : State} {c : Nat} (h : Balanced (· = c) w)
    (done : closeFailed w c = .ok w') : Balanced (fun _ => False) w' := by
  have counted : Quiet w (if (w.conns c).proto = .tcp ∧ (w.conns c).status = .ready then
      { w with activeConns := w.activeConns - 1 } else w) := by
    split
    · exact quiet_aside rfl rfl rfl (Nat.le_refl _)
    · exact .refl w
  simp only [Node.closeFailed] at done
  generalize named : (if (w.conns c).proto = .tcp ∧ (w.conns c).status = .ready then
      { w with activeConns := w.activeConns - 1 } else w) = v at done counted
  have same : (w.conns c).sock = (v.conns c).sock := (inbox_eq (counted.conns c)).2.2.2.2.2.2.1.symm
  split at done
  · cases done
  · rename_i u closed
    have before := h.keeps counted.keeps
    have forgotten : (u.conns c).sock = none := closeAndForget_own before.laid (same ▸ closed)
    have after := before.keeps (keeps_closeAndForget closed)
    have whole : Balanced (fun _ => False) u := by
      refine ⟨after.laid, after.on, fun d _ opened => after.queued d ?_ opened⟩
      rintro rfl
      exact opened forgotten
    exact whole.keeps (course_keeps.toPassage.failPending course_keeps.fails done)

/-! ## Events and runs -/

theorem recvPhase_sock (w : State) (c : Nat) (r : Readiness) :
    ((recvPhase w c r).1.conns c).sock = (w.conns c).sock := by
  simp only [recvPhase]
  split
  · have side := connRecv_tableSide (c := w.conns c) r.recv
    simp only [tableSide, Prod.mk.injEq] at side
    simpa [State.setConn] using side.2.2
  · rfl

theorem Balanced.execReady {w w' : State} {c : Nat} {type : EventType} {r : Readiness}
    (h : Balanced (fun _ => False) w)
    (only : ∀ v, readyBatch w c type r = some v → OnlyRequests c ((v.conns c).currRecvBuf + 1) v)
    (done : execReady w c type r = .ok w') : Balanced (fun _ => False) w' := by
  simp only [Node.execReady] at done
  simp only [readyBatch] at only
  by_cases timer : type = .timer
  · rw [if_pos timer] at done
    exact h.keeps (course_keeps.handleTimeout done)
  · rw [if_neg timer] at done only
    by_cases gone : (w.conns c).sock = none ∨ (w.conns c).buffers = false
    · rw [if_pos gone] at done
      cases done
      exact h
    · rw [if_neg gone] at done only
      have opened : (w.conns c).sock ≠ none := fun e => gone (Or.inl e)
      cases established : establishPhase w c type r with
      | error e => simp only [established] at done; cases done
      | ok p =>
        obtain ⟨w₁, _ | _⟩ := p
        · simp only [established] at done
          exact h.keeps ((still_establishPhase established).keeps.trans (course_keeps.closeFailed done))
        · simp only [established] at done only
          have h₁ := h.keeps (still_establishPhase established).keeps
          have opened₁ : (w₁.conns c).sock ≠ none := by
            rw [(inbox_eq ((still_establishPhase established).conns c)).2.2.2.2.2.2.1]
            exact opened
          have h₂ := h₁.keeps (keeps_recvPhase w₁ c r)
          cases got : recvPhase w₁ c r with
          | mk w₂ ok =>
            rw [got] at h₂
            cases ok with
            | false =>
              simp only [got] at done
              exact h₂.keeps (course_keeps.closeFailed done)
            | true =>
              simp only [got] at done only
              have opened₂ : (w₂.conns c).sock ≠ none := by
                have same := recvPhase_sock w₁ c r
                rw [got] at same
                rw [show (w₂.conns c).sock = (w₁.conns c).sock from same]
                exact opened₁
              cases flushed : flushPhase w₂ c r with
              | error e => simp only [flushed] at done; cases done
              | ok q =>
                obtain ⟨w₃, _ | _⟩ := q
                · simp only [flushed] at done
                  exact h₂.keeps ((still_flushPhase flushed).keeps.trans (course_keeps.closeFailed done))
                · simp only [flushed] at done only
                  have h₃ := h₂.keeps (still_flushPhase flushed).keeps
                  have opened₃ : (w₃.conns c).sock ≠ none := by
                    rw [(inbox_eq ((still_flushPhase flushed).conns c)).2.2.2.2.2.2.1]
                    exact opened₂
                  simp only [obtainMessages] at done
                  cases batch : obtainFrom c ((w₃.conns c).currRecvBuf + 1) w₃ with
                  | error e => simp only [batch] at done; cases done
                  | ok s =>
                    obtain ⟨w₄, goesOn⟩ := s
                    obtain ⟨lost, kept⟩ := h₃.batch opened₃ (only w₃ rfl) batch
                    cases goesOn with
                    | true =>
                      simp only [batch] at done
                      cases done
                      exact kept rfl
                    | false =>
                      simp only [batch] at done
                      exact lost.closeFailed done

theorem Balanced.execRequest {w w' : State} {c : Nat} {type : EventType} {r : Readiness}
    (h : Balanced (fun _ => False) w) (only : TakesRequests w (.ready c type r))
    (done : execRequest w c type r = .ok w') : Balanced (fun _ => False) w' := by
  simp only [Node.execRequest] at done
  simp only [TakesRequests, batchOf] at only
  by_cases handshaking : (w.conns c).status = .sslHandshake
  · rw [if_pos handshaking] at done only
    cases shaken : r.handshake with
    | failed =>
      simp only [shaken] at done
      exact h.keeps (course_keeps.closeFailed done)
    | inProgress =>
      simp only [shaken] at done
      cases done
      exact h
    | complete =>
      simp only [shaken] at done only
      have ready : Quiet w (w.setConn c { w.conns c with status := .ready }) := quiet_setConn w c rfl
      exact (h.keeps ready.keeps).execReady only done
  · rw [if_neg handshaking] at done only
    exact h.execReady only done

theorem Balanced.step {w w' : State} {kernel : Kernel} {e : Event} (h : Balanced (fun _ => False) w)
    (only : TakesRequests { w with kernel := kernel } e) (done : step w kernel e = .ok w') :
    Balanced (fun _ => False) w' := by
  have asked : Quiet w { w with kernel := kernel } := quiet_aside rfl rfl rfl (Nat.le_refl _)
  have before := h.keeps asked.keeps
  cases e with
  | accept addr proto => exact before.keeps (keeps_acceptConn done)
  | ready c type r => exact before.execRequest only done
  | storage reqId => exact before.keeps (course_keeps.storageAck done)
  | elapse ns =>
    cases done
    have passed : Quiet { w with kernel := kernel } (elapse { w with kernel := kernel } ns) :=
      quiet_aside rfl rfl rfl (Nat.le_refl _)
    exact before.keeps passed.keeps

theorem Balanced.run {w w' : State} {events : List (Kernel × Event)} (h : Balanced (fun _ => False) w)
    (only : RequestRun w events) (done : run w events = .ok w') : Balanced (fun _ => False) w' := by
  induction events generalizing w with
  | nil =>
    cases done
    exact h
  | cons head rest ih =>
    obtain ⟨v, taken, later⟩ := run_cons_ok done
    exact ih (h.step only.1 taken) (only.2 v taken) later

theorem balanced_init (storageDevices : Nat) (storageFd : Nat → Nat) (files : Nat → Mem) :
    Balanced (fun _ => False) (State.init storageDevices storageFd files true) where
  laid := laid_init storageDevices storageFd files true
  on := rfl
  queued := fun _ _ opened => absurd rfl opened

/-- On a node that defragments, in every run that takes no message but requests
every open connection has as much free space as its live requests and the bytes
not yet taken leave, so one that is out of space holds requests or unread bytes. -/
theorem recv_space_conserved (storageDevices : Nat) (storageFd : Nat → Nat) (files : Nat → Mem)
    (events : List (Kernel × Event)) (w : State)
    (only : RequestRun (State.init storageDevices storageFd files true) events)
    (done : run (State.init storageDevices storageFd files true) events = .ok w) :
    ∀ c, (w.conns c).sock ≠ none →
      Conserved w c ∧ (liveOn w c = ∅ → unread w c = 0 → (w.conns c).currRecvSize = bufSize) := by
  intro c opened
  have balanced := (balanced_init storageDevices storageFd files).run only done
  have kept := conserved_of_queued balanced.laid opened (balanced.queued c id opened)
  refine ⟨kept, fun idle read => ?_⟩
  have empty : liveBytes w c = 0 := by rw [liveBytes, idle, Finset.sum_empty]
  simp only [Conserved, empty, read] at kept
  omega

/-- A client connects and its bytes arrive. -/
def clientSends (bytes : List UInt8) : List (Kernel × Event) :=
  [(.silent, .accept [10, 0, 0, 9, 0, 9] .tcp), (.silent, .ready 0 .socket (received bytes))]

/-- Request 5 of 24 bytes: COMPUTE, EOM. -/
def computeRequest : List UInt8 :=
  [5, 0, 0, 0, 24, 0, 0, 0, 0, 0, 0, 0, 0, 0, 0, 0, 10, 0, 0, 0, 7, 0, 0, 0]

/-- The reply to a request 5 that the node does not have. -/
def strayReply : List UInt8 := [5, 0, 0, 0, 16, 0, 0, 0, 0, 0, 0, 0, 7, 0, 0, 0]

theorem computeRequest_only :
    RequestRun (State.init 0 (fun _ => 0) (fun _ _ => 0) true) (clientSends computeRequest) := by
  refine ⟨trivial, fun accepted done => ⟨fun v batch => ?_, fun _ _ => trivial⟩⟩
  cases done
  cases batch
  refine ⟨fun m conn taken => ?_, fun w' outcome turn => ?_⟩
  · cases taken
    exact ⟨by decide, fun _ => rfl⟩
  · cases turn
    refine ⟨fun m conn taken => ?_, fun w' outcome turn => ?_⟩
    · cases taken
    · cases turn

theorem recv_space_conserved_compute :
    ∃ w, run (State.init 0 (fun _ => 0) (fun _ _ => 0) true) (clientSends computeRequest) = .ok w ∧
      (w.conns 0).currRecvSize = bufSize - 24 ∧ Conserved w 0 := by
  obtain ⟨w, done, opened, size⟩ : ∃ w, run (State.init 0 (fun _ => 0) (fun _ _ => 0) true)
      (clientSends computeRequest) = .ok w ∧ (w.conns 0).sock = some 3 ∧
      (w.conns 0).currRecvSize = bufSize - 24 := ⟨_, rfl, rfl, rfl⟩
  refine ⟨w, done, size, (recv_space_conserved 0 _ _ _ w computeRequest_only done 0 ?_).1⟩
  rw [opened]
  exact Option.some_ne_none 3

/-- The bytes of a stray reply are never given back. -/
theorem strayReply_lost :
    ∃ w, run (State.init 0 (fun _ => 0) (fun _ _ => 0) true) (clientSends strayReply) = .ok w ∧
      (w.conns 0).sock = some 3 ∧ unread w 0 = 0 ∧ liveOn w 0 = ∅ ∧
      (w.conns 0).currRecvSize = bufSize - 16 ∧ ¬ Conserved w 0 := by
  obtain ⟨w, done, opened, size, read, none⟩ : ∃ w, run (State.init 0 (fun _ => 0) (fun _ _ => 0) true)
      (clientSends strayReply) = .ok w ∧ (w.conns 0).sock = some 3 ∧
      (w.conns 0).currRecvSize = bufSize - 16 ∧ unread w 0 = 0 ∧ ∀ s, (w.reqs s).messagePtr = none :=
    ⟨_, rfl, rfl, rfl, rfl, fun _ => rfl⟩
  have idle : liveOn w 0 = ∅ := by
    ext s
    simp [liveOn, none s]
  refine ⟨w, done, opened, read, idle, size, fun kept => ?_⟩
  rw [Conserved, size, read, liveBytes, idle, Finset.sum_empty] at kept
  exact absurd kept (by decide)

end BufferSpace
