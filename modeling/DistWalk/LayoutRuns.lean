import DistWalk.BufferSpace

/-!
# Runs keep the receive buffers laid out

The layout outlives every event, unless a request enters under the id that marks a
free slot or a batch goes on with a connection that it has closed. With the layout,
every live request keeps its id and stands behind the header of its message.
-/

namespace LayoutRuns

open ByteMemory Message Connection Worker Timeout Node Requests Transitions ThreadedBlocks ReceiveQueue
  BufferLayout LayoutSteps ConnectionSlots BufferSpace Batches Forwarding Walkers

/-! ## The other requests of a connection -/

/-- What forwarding has recorded in a request. -/
def record (r : ReqInfo) : Nat × Nat × Addr × Int × BitVec 32 × Int × Int × Int × Option Nat :=
  (r.reqId, r.connId, r.target, r.fwdRepliesLeft, r.fwdRepliesMask, r.fwdRetries, r.fwdTimeout,
    r.fwdOnFailSkip, r.ctx)

/-- A live request stands where it stood in its message of `n` bytes, which may have moved. -/
structure Stays (n : Nat) (w w' : State) (slot : Nat) : Prop where
  kept : record (w'.reqs slot) = record (w.reqs slot)
  moved : ∃ m m', (w.reqs slot).messagePtr = some m ∧ (w'.reqs slot).messagePtr = some m' ∧
    (w'.reqs slot).currCmd = (w.reqs slot).currCmd.map (fun cmd => m' + (cmd - m)) ∧
    ∀ k, k < n → reqMem w' slot (m' + k) = reqMem w slot (m + k)

theorem Stays.trans {n slot : Nat} {a b c : State} (h : Stays n a b slot) (h' : Stays n b c slot) :
    Stays n a c slot := by
  obtain ⟨m, m₁, at_, at₁, cmd, bytes⟩ := h.moved
  obtain ⟨m₁', m₂, at₁', at₂, cmd', bytes'⟩ := h'.moved
  rw [at₁] at at₁'
  cases at₁'
  refine ⟨h'.kept.trans h.kept, m, m₂, at_, at₂, ?_, fun k less => (bytes' k less).trans (bytes k less)⟩
  rw [cmd', cmd]
  cases (a.reqs slot).currCmd with
  | none => rfl
  | some c => simp

theorem Stays.on {n slot : Nat} {w w' : State} (h : Stays n w w' slot) :
    (w'.reqs slot).messagePtr ≠ none ∧ (w'.reqs slot).connId = (w.reqs slot).connId := by
  obtain ⟨m, m', -, at_, -⟩ := h.moved
  refine ⟨by rw [at_]; exact Option.some_ne_none m', ?_⟩
  have kept := h.kept
  simp only [record, Prod.mk.injEq] at kept
  exact kept.2.1

section Others

variable {n i slot x : Nat} {w w' : State}

/-- Nothing of the request changes but its links and its timeout. -/
theorem stays_same {m : Nat} (placed : (w.reqs x).messagePtr = some m)
    (behind : ∀ cmd, (w.reqs x).currCmd = some cmd → m ≤ cmd)
    (same : (record (w'.reqs x), (w'.reqs x).messagePtr, (w'.reqs x).currCmd) =
      (record (w.reqs x), (w.reqs x).messagePtr, (w.reqs x).currCmd))
    (bytes : ∀ k, k < n → reqMem w' x (m + k) = reqMem w x (m + k)) : Stays n w w' x := by
  simp only [Prod.mk.injEq] at same
  refine ⟨same.1, m, m, placed, same.2.1.trans placed, ?_, bytes⟩
  rw [same.2.2]
  cases current : (w.reqs x).currCmd with
  | none => rfl
  | some cmd =>
    have := behind cmd current
    simp only [Option.map_some, Option.some.injEq]
    omega

/-- Releasing a request moves the newer messages of its connection, bytes and all. -/
theorem stays_release {p q : Nat} {l : List Nat} (placed : (w.reqs slot).messagePtr = some p)
    (queue : Queue w (w.reqs slot).connId l)
    (proc : (w.conns (w.reqs slot).connId).currProcBuf ≤ (w.conns (w.reqs slot).connId).currRecvBuf)
    (member : x ∈ l) (other : x ≠ slot) (here : (w.reqs x).messagePtr = some q)
    (behind : ∀ cmd, (w.reqs x).currCmd = some cmd → q ≤ cmd) :
    Stays (reqSizeOf (reqMem w x) q) w (connReqRemove w (w.reqs slot).connId slot) x := by
  have own : slot ∈ l := (queue.members slot).mpr ⟨by rw [placed]; exact Option.some_ne_none p, rfl⟩
  have home : (w.reqs x).connId = (w.reqs slot).connId := (queue.live member).2
  obtain ⟨a, t, rfl⟩ := List.append_of_mem own
  have mem : ∀ {v : State}, (v.reqs x).connId = (w.reqs slot).connId →
      reqMem v x = (v.conns (w.reqs slot).connId).recvBuf := fun e => by rw [reqMem, e]
  rw [mem home]
  obtain ⟨q', here', large, fits⟩ := queue.stacked.mem member
  rw [here] at here'
  cases here'
  obtain ⟨-, below, above⟩ := queue.stacked.split placed
  by_cases moves : (w.conns (w.reqs slot).connId).enableDefrag = true ∧ p < bufSize
  · obtain ⟨r, conns⟩ := connReqRemove_moves placed queue moves
    have buf : ((connReqRemove w (w.reqs slot).connId slot).conns (w.reqs slot).connId).recvBuf =
        (defragment (w.conns (w.reqs slot).connId) p
          (reqSizeOf (w.conns (w.reqs slot).connId).recvBuf p)).recvBuf := by
      rw [conns, Function.update_self]
    have still := mem (v := connReqRemove w (w.reqs slot).connId slot) ((r.connId other).trans home)
    by_cases newer : x ∈ a
    · obtain ⟨q', here', lower⟩ := above x newer
      rw [here] at here'
      cases here'
      refine ⟨?_, q, q - reqSizeOf (w.conns (w.reqs slot).connId).recvBuf p, here, ?_, ?_, fun k less => ?_⟩
      · rw [r.others x other, if_pos ⟨rfl, newer⟩]
        rfl
      · rw [r.messagePtr other, if_pos ⟨rfl, newer⟩, here]
        rfl
      · rw [r.others x other, if_pos ⟨rfl, newer⟩]
        change (w.reqs x).currCmd.map _ = _
        cases current : (w.reqs x).currCmd with
        | none => rfl
        | some cmd =>
          have := behind cmd current
          simp only [Option.map_some, Option.some.injEq]
          omega
      · rw [still, buf, mem home, defragment_above _ (by omega) (by omega)]
        congr 1
        omega
    · have older : x ∈ t := by
        simp only [List.mem_append, List.mem_cons] at member
        tauto
      obtain ⟨q', here', -, upper⟩ := below.mem older
      rw [here] at here'
      cases here'
      refine stays_same here behind ?_ fun k less => ?_
      · rw [r.others x other, if_neg fun e => newer e.2]
        rfl
      · rw [still, buf, mem home, defragment_below _ (by omega)]
  · obtain ⟨r, conns⟩ := connReqRemove_stays (a := a) placed moves
    have still := mem (v := connReqRemove w (w.reqs slot).connId slot) ((r.connId other).trans home)
    refine stays_same here behind ?_ fun k less => ?_
    · rw [r.others x other, if_neg (by simp)]
      rfl
    · rw [still, mem home, conns, Function.update_self]

/-- Messages on one connection lie apart. -/
theorem Laid.apart (laid : Laid w) {p q : Nat} (placed : (w.reqs slot).messagePtr = some p)
    (here : (w.reqs x).messagePtr = some q) (same : (w.reqs x).connId = (w.reqs slot).connId) :
    messageHeader ≤ reqSizeOf (reqMem w x) q ∧
      (p = q ∨ p + reqSizeOf (reqMem w slot) p ≤ q ∨ q + reqSizeOf (reqMem w x) q ≤ p) := by
  have opened := laid.opened slot (by rw [placed]; exact Option.some_ne_none p)
  obtain ⟨l, queue⟩ := laid.queue _ opened
  have own : slot ∈ l := (queue.members slot).mpr ⟨by rw [placed]; exact Option.some_ne_none p, rfl⟩
  have other : x ∈ l := (queue.members x).mpr ⟨by rw [here]; exact Option.some_ne_none q, same⟩
  obtain ⟨q', at_, large, -⟩ := queue.stacked.mem other
  rw [here] at at_
  cases at_
  rw [reqMem, reqMem, same]
  exact ⟨large, queue.stacked.apart own other placed here⟩

end Others

/-! ## Where the live requests stand -/

/-- A live request has an id and stands behind the header of its message. -/
def Standing (r : ReqInfo) : Prop :=
  ∀ m, r.messagePtr = some m → r.reqId ≠ noReq ∧ ∀ cmd, r.currCmd = some cmd → messageFirstCmd m ≤ cmd

structure Sound (w : State) : Prop where
  laid : Laid w
  standing : ∀ s, Standing (w.reqs s)

theorem standing_none {r : ReqInfo} (gone : r.messagePtr = none) : Standing r := by
  intro m placed
  rw [gone] at placed
  cases placed

theorem Standing.congr {r r' : ReqInfo} (h : Standing r) (message : r'.messagePtr = r.messagePtr)
    (same : stance r' = stance r) : Standing r' := by
  obtain ⟨cmd, id⟩ := stance_eq same
  intro m placed
  rw [message] at placed
  rw [cmd, id]
  exact h m placed

theorem Stays.standing {n slot : Nat} {w w' : State} (h : Stays n w w' slot) (standing : Standing (w.reqs slot)) :
    Standing (w'.reqs slot) := by
  obtain ⟨m, m', placed, placed', cmd, -⟩ := h.moved
  have kept := h.kept
  simp only [record, Prod.mk.injEq] at kept
  obtain ⟨named, behind⟩ := standing m placed
  intro p at_
  rw [placed'] at at_
  cases at_
  refine ⟨kept.1.symm ▸ named, fun d e => ?_⟩
  rw [cmd] at e
  obtain ⟨d₀, current, rfl⟩ := Option.map_eq_some_iff.mp e
  have := behind d₀ current
  simp only [messageFirstCmd, messageHeader] at this ⊢
  omega

/-! ## What the functions of the worker keep -/

theorem connFree_reqs {w : State} {c : Nat} (empty : (w.conns c).reqList = none) : (connFree w c).reqs = w.reqs := by
  simp only [connFree, connReset_empty empty]
  rfl

/-- A connection that is given up when TLS cannot be set up has no request. -/
theorem connectForward_reqs {w : State} {c : Nat} (sock : Nat) (proto : Proto)
    (empty : (w.conns c).reqList = none) : (connectForward w c sock proto).1.reqs = w.reqs := by
  have enabled : Still w (if proto = .tls then connEnableSsl (w.emit (.pollAdd sock c)) c
        else (w.emit (.pollAdd sock c), true)).1 ∧
      (if proto = .tls then connEnableSsl (w.emit (.pollAdd sock c)) c
        else (w.emit (.pollAdd sock c), true)).1.reqs = w.reqs := by
    split
    · exact ⟨(still_emit _ _).trans (still_connEnableSsl _ c), (opening_connEnableSsl _ c).2⟩
    · exact ⟨still_emit _ _, rfl⟩
  by_cases opened : (connectForward w c sock proto).2 = none
  · simp only [connectForward] at opened ⊢
    split
    · rename_i v e
      rw [e] at enabled
      obtain ⟨still, reqs⟩ := enabled
      have list : ((v.emit (.closed (some sock))).conns c).reqList = none := by
        refine Eq.trans ?_ empty
        exact (inbox_eq (still.conns c)).2.2.2.2.1
      exact (connFree_reqs list).trans reqs
    · rename_i v e
      rw [e] at enabled opened
      have connected := (opening_takeConnect v c).2
      simp only at opened
      cases answer : takeConnect v with
      | mk u result =>
        rw [answer] at connected
        cases result with
        | failed => exact connected.trans enabled.2
        | inProgress =>
          simp only [answer] at opened
          cases opened
        | done =>
          simp only [answer] at opened
          split at opened <;> cases opened
  · exact (opening_connectForward w c sock proto).2 opened

theorem forwardConn_reqs {w : State} (laid : Laid w) (fwd : FwdOpts) : (forwardConn w fwd).1.reqs = w.reqs := by
  unfold forwardConn
  split
  · rfl
  · cases alloc : allocForward w fwd with
    | mk v slot =>
      obtain ⟨reqs, -⟩ := allocForward_spec w fwd
      rw [alloc] at reqs
      cases slot with
      | none => exact reqs
      | some c =>
        simp only
        split
        · refine (connectForward_reqs _ _ ?_).trans reqs
          simp only [allocForward] at alloc
          cases claimed : connAlloc { w with nextFd := w.nextFd + 1 } w.nextFd fwd.fwdAddr fwd.proto with
          | mk u found =>
            rw [claimed] at alloc
            cases found with
            | none => cases alloc
            | some d =>
              obtain ⟨free, rfl⟩ := connAlloc_claims claimed
              cases alloc
              have list := laid.free c free
              simpa [State.setConn, ConnInfo.claim] using list
        · exact reqs

/-- A released request is gone; the others of its connection stay in their messages,
those of other connections as they are. -/
theorem standing_release {w : State} {slot p : Nat} (h : Sound w) (placed : (w.reqs slot).messagePtr = some p)
    (x : Nat) : Standing ((connReqRemove w (w.reqs slot).connId slot).reqs x) := by
  have opened := h.laid.opened slot (by rw [placed]; exact Option.some_ne_none p)
  obtain ⟨l, queue⟩ := h.laid.queue _ opened
  by_cases live : (w.reqs x).messagePtr = none
  · have off : ¬ OnConn (connReqRemove w (w.reqs slot).connId slot)
        ((connReqRemove w (w.reqs slot).connId slot).reqs x).connId x := by
      rw [on_release placed queue]
      exact fun on => on.2.1 live
    exact standing_none (not_not.mp fun some => off ⟨some, rfl⟩)
  · by_cases own : (w.reqs x).connId = (w.reqs slot).connId
    · by_cases same : x = slot
      · subst same
        exact standing_none (reqUnlink_messagePtr _ _)
      · obtain ⟨q, here⟩ := Option.ne_none_iff_exists'.mp live
        obtain ⟨-, behind⟩ := h.standing x q here
        have stays := stays_release placed queue (h.laid.proc _ opened)
          ((queue.members x).mpr ⟨live, own⟩) same here fun cmd current => by
            have := behind cmd current
            simp only [messageFirstCmd] at this
            omega
        exact stays.standing (h.standing x)
    · rw [reqs_release placed queue own ⟨live, rfl⟩]
      exact h.standing x

theorem standing_connResetFrom {w : State} (fuel : Nat) (slot : Option Nat) (h : ∀ s, Standing (w.reqs s)) (x : Nat) :
    Standing ((connResetFrom fuel w slot).reqs x) := by
  have listless : Listless fun r : ReqInfo => (r.messagePtr, stance r) := ⟨fun _ _ => rfl, fun _ _ => rfl⟩
  induction fuel generalizing w slot with
  | zero => exact h x
  | succ fuel ih =>
    cases slot with
    | none => exact h x
    | some slot =>
      refine ih _ fun s => ?_
      by_cases own : s = slot
      · subst own
        exact standing_none (reqUnlink_messagePtr w s)
      · have same := listless.reqUnlink w own
        simp only [Prod.mk.injEq] at same
        exact (h s).congr same.1 same.2

theorem standing_closeAndForget {w w' : State} {sock : Option Nat} (h : ∀ s, Standing (w.reqs s))
    (closed : closeAndForget w sock = .ok w') (s : Nat) : Standing (w'.reqs s) := by
  cases sock with
  | none => cases closed
  | some sock =>
    simp only [closeAndForget, connDelSock] at closed
    cases found : connFindSock (w.emit (.pollDel (some sock))) (some sock) with
    | error e => simp only [found] at closed; cases closed
    | ok slot =>
      cases slot with
      | none =>
        simp only [found] at closed
        cases closed
        exact h s
      | some d =>
        simp only [found] at closed
        cases closed
        exact standing_connResetFrom (w := w.emit (.pollDel (some sock))) _ _ h s

theorem standing_acceptConn {w w' : State} {addr : Addr} {proto : Proto} (h : ∀ s, Standing (w.reqs s))
    (done : acceptConn w addr proto = .ok w') (s : Nat) : Standing (w'.reqs s) := by
  simp only [acceptConn] at done
  cases claimed : connAlloc { w with nextFd := w.nextFd + 1 } w.nextFd addr proto with
  | mk v found =>
    have reqs : v.reqs = w.reqs := by
      simp only [connAlloc] at claimed
      split at claimed <;> cases claimed <;> rfl
    have before : ∀ s, Standing (v.reqs s) := fun s => reqs ▸ h s
    cases found with
    | none =>
      simp only [claimed] at done
      exact standing_closeAndForget before done s
    | some c =>
      simp only [claimed] at done
      split at done
      · have enabled := (opening_connEnableSsl v c).2
        split at done
        · rename_i ssl
          cases done
          rw [ssl] at enabled
          exact enabled ▸ before s
        · rename_i ssl
          rw [ssl] at enabled
          obtain ⟨u, closed, rfl⟩ := map_eq_ok.mp done
          exact standing_connResetFrom _ _ (standing_closeAndForget (fun s => enabled ▸ before s) closed) s
      · cases done
        exact before s

theorem course_sound : Course fun w w' => Sound w → Sound w' where
  trans := fun h h' sound => h' (h sound)
  still := fun still sound => by
    refine ⟨still.keeps.laid sound.laid, fun s => ?_⟩
    exact (sound.standing s).congr (place_eq (still.reqs s)).2.1 (still.stances s)
  advance := by
    intro w slot r same id further sound
    refine ⟨(quiet_setReq w slot same).keeps.laid sound.laid, fun s => ?_⟩
    by_cases own : s = slot
    · subst own
      rw [setReq_self]
      intro m placed
      obtain ⟨named, behind⟩ := sound.standing s m ((place_eq same).2.1 ▸ placed)
      refine ⟨id ▸ named, fun cmd e => ?_⟩
      obtain ⟨c, current, le⟩ := further cmd e
      exact Nat.le_trans (behind c current) le
    · rw [setReq_other _ _ own]
      exact sound.standing s
  forwardConn := by
    intro w fwd sound
    refine ⟨(keeps_forwardConn w fwd).laid sound.laid, fun s => ?_⟩
    rw [forwardConn_reqs sound.laid]
    exact sound.standing s
  setMsgStatus := fun w slot m status placed sound =>
    ⟨(keeps_setMsgStatus status placed).laid sound.laid, sound.standing⟩
  connReqRemove := fun w slot m placed sound =>
    ⟨(keeps_connReqRemove placed).laid sound.laid, standing_release sound placed⟩
  closeAndForget := fun closed sound =>
    ⟨(keeps_closeAndForget closed).laid sound.laid, standing_closeAndForget sound.standing closed⟩

/-! ## Batches -/

theorem standing_enter {w : State} {c m : Nat} (h : ∀ s, Standing (w.reqs s)) (named : w.lastReqs ≠ noReq)
    (s : Nat) : Standing ((enterRequest w c m).1.reqs s) := by
  have listless : Listless fun r : ReqInfo => (r.messagePtr, stance r) := ⟨fun _ _ => rfl, fun _ _ => rfl⟩
  rcases enterRequest_cases w c m with ⟨-, -, refused⟩ | ⟨free, -⟩
  · rw [refused]
    exact h s
  · by_cases own : s = slotOf w.lastReqs
    · subst own
      have entered := listless.enterRequest_self w c m free
      simp only [stance, Prod.mk.injEq, Requests.entered] at entered
      obtain ⟨message, cmd, id⟩ := entered
      intro p placed
      rw [message] at placed
      cases placed
      rw [cmd, id]
      exact ⟨named, fun d e => by cases e; exact Nat.le_refl _⟩
    · have same := listless.enterRequest_other w c m own
      simp only [Prod.mk.injEq] at same
      exact (h s).congr same.1 same.2

/-- No request enters under the id of a free slot, and the loop goes on only while the
connection is open. -/
def RegularBatch (c : Nat) : Nat → State → Prop
  | 0, _ => True
  | fuel + 1, w =>
    (∀ m conn, connPrepareRecvMessage (w.conns c) = .ok (some m, conn) →
      cmdAt (w.conns c).recvBuf (messageFirstCmd m) ≠ .eom → w.lastReqs ≠ noReq) ∧
    ∀ w' outcome, round w c = .ok (w', some (outcome, true)) → (w'.conns c).sock ≠ none ∧ RegularBatch c fuel w'

/-- A message is taken from the receive buffer. -/
theorem Sound.take {w : State} {c m : Nat} {conn : ConnInfo} (h : Sound w) (opened : (w.conns c).sock ≠ none)
    (prepared : connPrepareRecvMessage (w.conns c) = .ok (some m, conn)) : Sound (w.setConn c conn) :=
  ⟨(h.laid.take opened prepared).1, h.standing⟩

/-- The message taken enters the tables as a request. -/
theorem Sound.enter {w v : State} {c m slot : Nat} {conn : ConnInfo} (h : Sound w) (opened : (w.conns c).sock ≠ none)
    (prepared : connPrepareRecvMessage (w.conns c) = .ok (some m, conn)) (fresh : w.lastReqs ≠ noReq)
    (added : enterRequest (w.setConn c conn) c m = (v, some slot)) : Sound v := by
  have standing := standing_enter (c := c) (m := m) (h.take opened prepared).standing fresh
  have free : (w.reqs (slotOf w.lastReqs)).reqId = noReq := by
    rcases enterRequest_cases (w.setConn c conn) c m with ⟨-, none, -⟩ | ⟨free, -⟩
    · rw [added] at none
      cases none
    · exact free
  have vacant : (w.reqs (slotOf w.lastReqs)).messagePtr = none := by
    by_contra live
    obtain ⟨q, placed⟩ := Option.ne_none_iff_exists'.mp live
    exact (h.standing _ q placed).1 free
  rw [added] at standing
  exact ⟨( keeps_admit opened prepared added vacant).laid h.laid, standing⟩

theorem still_refused {w v : State} {c m : Nat} (added : enterRequest w c m = (v, none)) : Still w v := by
  rcases enterRequest_cases w c m with ⟨-, -, refused⟩ | ⟨-, some⟩
  · rw [added] at refused
    cases refused
    exact still_aside rfl rfl rfl (Nat.le_refl _)
  · rw [added] at some
    cases some

/-- One round of the loop, on an open connection. -/
theorem Sound.round {w w' : State} {c : Nat} {result : Option (Outcome × Bool)} (h : Sound w)
    (opened : (w.conns c).sock ≠ none)
    (named : ∀ m conn, connPrepareRecvMessage (w.conns c) = .ok (some m, conn) →
      cmdAt (w.conns c).recvBuf (messageFirstCmd m) ≠ .eom → w.lastReqs ≠ noReq)
    (done : Batches.round w c = .ok (w', result)) : Sound w' := by
  cases Batches.round_done done with
  | ended prepared =>
    rw [connPrepareRecvMessage_none prepared]
    have same : w.setConn c (w.conns c) = w := by simp [State.setConn]
    rw [same]
    exact h
  | replied prepared type handled =>
    exact course_sound.handleForwardReply handled (h.take opened prepared)
  | refused prepared type added =>
    exact course_sound.still (still_refused added) (h.take opened prepared)
  | executed prepared type added executed =>
    rw [recvBuf_prepared prepared] at type
    exact course_sound.processSingleMessage executed
      (h.enter opened prepared (named _ _ prepared type) added)

theorem Sound.batch {c fuel : Nat} {w w' : State} {goesOn : Bool} (h : Sound w)
    (opened : (w.conns c).sock ≠ none) (regular : RegularBatch c fuel w)
    (done : obtainFrom c fuel w = .ok (w', goesOn)) : Sound w' := by
  induction fuel generalizing w with
  | zero =>
    cases done
    exact h
  | succ fuel ih =>
    rw [obtainFrom_succ] at done
    cases turn : Batches.round w c with
    | error e => simp only [turn] at done; cases done
    | ok p =>
      obtain ⟨v, result⟩ := p
      have kept := h.round opened regular.1 turn
      rcases result with _ | ⟨outcome, _ | _⟩
      · simp only [turn] at done
        cases done
        exact kept
      · simp only [turn] at done
        cases done
        exact kept
      · simp only [turn] at done
        obtain ⟨still, later⟩ := regular.2 v outcome turn
        exact ih kept still later done

/-! ## Events and runs -/

/-- `exec_request` up to its error path, which is taken where the second part is `false`. -/
def readyAttempt (w : State) (c : Nat) (type : EventType) (r : Readiness) : Except Abort (State × Bool) :=
  if type = .timer then (handleTimeout w).map (·, true)
  else if (w.conns c).sock = none ∨ (w.conns c).buffers = false then .ok (w, true)
  else
    match establishPhase w c type r with
    | .error e => .error e
    | .ok (w, false) => .ok (w, false)
    | .ok (w, true) =>
      match recvPhase w c r with
      | (w, false) => .ok (w, false)
      | (w, true) =>
        match flushPhase w c r with
        | .error e => .error e
        | .ok (w, false) => .ok (w, false)
        | .ok (w, true) => obtainMessages w c

def attempt (w : State) (c : Nat) (type : EventType) (r : Readiness) : Except Abort (State × Bool) :=
  if (w.conns c).status = .sslHandshake then
    match r.handshake with
    | .failed => .ok (w, false)
    | .inProgress => .ok (w, true)
    | .complete => readyAttempt (w.setConn c { w.conns c with status := .ready }) c type r
  else readyAttempt w c type r

/-- What follows the attempt. -/
def afterAttempt (c : Nat) : Except Abort (State × Bool) → Except Abort State
  | .error e => .error e
  | .ok (w, true) => .ok w
  | .ok (w, false) => closeFailed w c

theorem execReady_eq (w : State) (c : Nat) (type : EventType) (r : Readiness) :
    execReady w c type r = afterAttempt c (readyAttempt w c type r) := by
  simp only [execReady, readyAttempt]
  split
  · cases handleTimeout w with
    | error e => rfl
    | ok v => rfl
  · split
    · rfl
    · cases establishPhase w c type r with
      | error e => rfl
      | ok p =>
        obtain ⟨w₁, _ | _⟩ := p
        · rfl
        · simp only
          cases recvPhase w₁ c r with
          | mk w₂ got =>
            cases got with
            | false => rfl
            | true =>
              simp only
              cases flushPhase w₂ c r with
              | error e => rfl
              | ok q =>
                obtain ⟨w₃, _ | _⟩ := q
                · rfl
                · simp only
                  cases obtainMessages w₃ c with
                  | error e => rfl
                  | ok s =>
                    obtain ⟨w₄, _ | _⟩ := s
                    · rfl
                    · rfl

theorem execRequest_eq (w : State) (c : Nat) (type : EventType) (r : Readiness) :
    execRequest w c type r = afterAttempt c (attempt w c type r) := by
  simp only [execRequest, attempt, execReady_eq]
  split
  · cases r.handshake with
    | failed => rfl
    | inProgress => rfl
    | complete => rfl
  · rfl

/-- The event goes well, or the connection is closed because it does not. -/
theorem execRequest_done {w w' : State} {c : Nat} {type : EventType} {r : Readiness}
    (done : execRequest w c type r = .ok w') :
    attempt w c type r = .ok (w', true) ∨
      ∃ v, attempt w c type r = .ok (v, false) ∧ closeFailed v c = .ok w' := by
  rw [execRequest_eq] at done
  cases tried : attempt w c type r with
  | error a =>
    rw [tried] at done
    cases done
  | ok p =>
    obtain ⟨v, ok⟩ := p
    rw [tried] at done
    cases ok with
    | false => exact Or.inr ⟨v, rfl, done⟩
    | true =>
      cases done
      exact Or.inl rfl

/-- The batch that the event hands to `obtain_messages` is regular. -/
def RegularEvent (w : State) : Event → Prop
  | .ready c type r => ∀ v, batchOf w c type r = some v → RegularBatch c ((v.conns c).currRecvBuf + 1) v
  | _ => True

/-- Every event of the run is regular. -/
def RegularRun : State → List (Kernel × Event) → Prop
  | _, [] => True
  | w, (kernel, e) :: rest =>
    RegularEvent { w with kernel := kernel } e ∧ ∀ w', step w kernel e = .ok w' → RegularRun w' rest

theorem Sound.recvPhase {w : State} (h : Sound w) (c : Nat) (r : Readiness) : Sound (recvPhase w c r).1 := by
  have reqs : (Node.recvPhase w c r).1.reqs = w.reqs := by
    simp only [Node.recvPhase]
    split <;> rfl
  exact ⟨(keeps_recvPhase w c r).laid h.laid, fun s => reqs ▸ h.standing s⟩

/-- What comes before the batch: a change of the connections alone, with bytes received or not. -/
def Phased (w : State) (c : Nat) (r : Readiness) (w' : State) : Prop :=
  ∃ w₁ w₂, Still w w₁ ∧ (w₂ = w₁ ∨ w₂ = (recvPhase w₁ c r).1) ∧ Still w₂ w'

/-- A timer expires, or the event ends before a batch, or the batch is its last part. -/
theorem readyAttempt_done {w w' : State} {c : Nat} {type : EventType} {r : Readiness} {ok : Bool}
    (done : readyAttempt w c type r = .ok (w', ok)) :
    (type = .timer ∧ handleTimeout w = .ok w') ∨ Phased w c r w' ∨
      ∃ v, readyBatch w c type r = some v ∧ Phased w c r v ∧ (v.conns c).sock ≠ none ∧
        obtainMessages v c = .ok (w', ok) := by
  simp only [readyAttempt] at done
  simp only [readyBatch]
  by_cases timer : type = .timer
  · rw [if_pos timer] at done
    obtain ⟨v, expired, paired⟩ := map_eq_ok.mp done
    cases paired
    exact Or.inl ⟨timer, expired⟩
  · rw [if_neg timer] at done ⊢
    refine Or.inr ?_
    by_cases gone : (w.conns c).sock = none ∨ (w.conns c).buffers = false
    · rw [if_pos gone] at done
      cases done
      exact Or.inl ⟨w, w, .refl w, Or.inl rfl, .refl w⟩
    · rw [if_neg gone] at done ⊢
      have opened : (w.conns c).sock ≠ none := fun e => gone (Or.inl e)
      cases established : establishPhase w c type r with
      | error e => simp only [established] at done; cases done
      | ok p =>
        obtain ⟨w₁, phase⟩ := p
        have still₁ := still_establishPhase established
        cases phase with
        | false =>
          simp only [established] at done
          cases done
          exact Or.inl ⟨_, _, still₁, Or.inl rfl, .refl _⟩
        | true =>
          simp only [established] at done ⊢
          have opened₂ := recvPhase_sock w₁ c r
          cases got : recvPhase w₁ c r with
          | mk w₂ ok₂ =>
            have reached : w₂ = (recvPhase w₁ c r).1 := by rw [got]
            rw [got] at opened₂
            cases ok₂ with
            | false =>
              simp only [got] at done
              cases done
              exact Or.inl ⟨w₁, _, still₁, Or.inr reached, .refl _⟩
            | true =>
              simp only [got] at done ⊢
              cases flushed : flushPhase w₂ c r with
              | error e => simp only [flushed] at done; cases done
              | ok q =>
                obtain ⟨w₃, phase⟩ := q
                have still₃ := still_flushPhase flushed
                cases phase with
                | false =>
                  simp only [flushed] at done
                  cases done
                  exact Or.inl ⟨w₁, w₂, still₁, Or.inr reached, still₃⟩
                | true =>
                  simp only [flushed] at done ⊢
                  refine Or.inr ⟨w₃, rfl, ⟨w₁, w₂, still₁, Or.inr reached, still₃⟩, ?_, done⟩
                  rw [(inbox_eq (still₃.conns c)).2.2.2.2.2.2.1, opened₂,
                    (inbox_eq (still₁.conns c)).2.2.2.2.2.2.1]
                  exact opened

theorem Sound.phased {w w' : State} {c : Nat} {r : Readiness} (h : Sound w) (done : Phased w c r w') :
    Sound w' := by
  obtain ⟨w₁, w₂, still₁, received, still₂⟩ := done
  have h₁ := course_sound.still still₁ h
  rcases received with rfl | rfl
  · exact course_sound.still still₂ h₁
  · exact course_sound.still still₂ (h₁.recvPhase c r)

theorem Sound.readyAttempt {w w' : State} {c : Nat} {type : EventType} {r : Readiness} {ok : Bool} (h : Sound w)
    (regular : ∀ v, readyBatch w c type r = some v → RegularBatch c ((v.conns c).currRecvBuf + 1) v)
    (done : LayoutRuns.readyAttempt w c type r = .ok (w', ok)) : Sound w' := by
  rcases readyAttempt_done done with ⟨-, expired⟩ | phased | ⟨v, batch, phased, opened, walked⟩
  · exact course_sound.handleTimeout expired h
  · exact h.phased phased
  · exact (h.phased phased).batch opened (regular v batch) walked

theorem Sound.attempt {w w' : State} {c : Nat} {type : EventType} {r : Readiness} {ok : Bool} (h : Sound w)
    (regular : RegularEvent w (.ready c type r))
    (done : LayoutRuns.attempt w c type r = .ok (w', ok)) : Sound w' := by
  simp only [LayoutRuns.attempt] at done
  simp only [RegularEvent, batchOf] at regular
  by_cases handshaking : (w.conns c).status = .sslHandshake
  · rw [if_pos handshaking] at done regular
    cases shaken : r.handshake with
    | failed =>
      simp only [shaken] at done
      cases done
      exact h
    | inProgress =>
      simp only [shaken] at done
      cases done
      exact h
    | complete =>
      simp only [shaken] at done regular
      have ready : Still w (w.setConn c { w.conns c with status := .ready }) := still_setConn w c rfl
      exact (course_sound.still ready h).readyAttempt regular done
  · rw [if_neg handshaking] at done regular
    exact h.readyAttempt regular done

theorem Sound.step {w w' : State} {kernel : Kernel} {e : Event} (h : Sound w)
    (regular : RegularEvent { w with kernel := kernel } e) (done : Node.step w kernel e = .ok w') : Sound w' := by
  have asked : Still w { w with kernel := kernel } := still_aside rfl rfl rfl (Nat.le_refl _)
  have before := course_sound.still asked h
  cases e with
  | accept addr proto =>
    exact ⟨(keeps_acceptConn done).laid before.laid, standing_acceptConn before.standing done⟩
  | ready c type r =>
    rcases execRequest_done done with tried | ⟨v, tried, closed⟩
    · exact before.attempt regular tried
    · exact course_sound.closeFailed closed (before.attempt regular tried)
  | storage reqId => exact course_sound.storageAck done before
  | elapse ns =>
    cases done
    have passed : Still { w with kernel := kernel } (elapse { w with kernel := kernel } ns) :=
      still_aside rfl rfl rfl (Nat.le_refl _)
    exact course_sound.still passed before

theorem Sound.run {w w' : State} {events : List (Kernel × Event)} (h : Sound w)
    (regular : RegularRun w events) (done : Node.run w events = .ok w') : Sound w' := by
  induction events generalizing w with
  | nil =>
    cases done
    exact h
  | cons head rest ih =>
    obtain ⟨v, taken, later⟩ := run_cons_ok done
    exact ih (h.step regular.1 taken) (regular.2 v taken) later

theorem sound_init (storageDevices : Nat) (storageFd : Nat → Nat) (files : Nat → Mem) (enableDefrag : Bool) :
    Sound (State.init storageDevices storageFd files enableDefrag) :=
  ⟨laid_init storageDevices storageFd files enableDefrag, fun _ => standing_none rfl⟩

end LayoutRuns
