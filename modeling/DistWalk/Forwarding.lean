import DistWalk.ForwardReply

/-!
# What starting a forward does

`start_forward` composes one message for each branch of the context and hands
it to a connection. It reads the request's message and changes neither it nor
the fields of the request, apart from the timeout it queues. What has been sent,
and for which context, is read off the effects.
-/

namespace Forwarding

open ByteMemory Message Connection PriorityQueue Worker Timeout Node Transitions Requests
  ForwardReply

/-- The forwarded messages so far, newest first: request id, destination, context. -/
def forwards (w : State) : List (Nat × Addr × Option Nat) :=
  w.effects.filterMap fun e =>
    match e with
    | .forwarded reqId addr ctx => some (reqId, addr, ctx)
    | _ => none

/-- The fields of a request that only its own execution changes. -/
def core (r : ReqInfo) : Nat × Addr × Int × BitVec 32 × Int × Int × Int × Option Nat × Option Nat :=
  (r.connId, r.target, r.fwdRepliesLeft, r.fwdRepliesMask, r.fwdRetries, r.fwdTimeout,
    r.fwdOnFailSkip, r.currCmd, r.ctx)

theorem listless_core : Listless core := ⟨fun _ _ => rfl, fun _ _ => rfl⟩

/-- A request stays as it is, or it is released and keeps those fields. -/
structure Remains (r r' : ReqInfo) : Prop where
  core : core r' = core r
  place : (r'.reqId = r.reqId ∧ r'.messagePtr = r.messagePtr) ∨ r'.reqId = noReq

theorem Remains.refl (r : ReqInfo) : Remains r r := ⟨rfl, Or.inl ⟨rfl, rfl⟩⟩

theorem Remains.trans {a b c : ReqInfo} (h : Remains a b) (h' : Remains b c) : Remains a c where
  core := h'.core.trans h.core
  place := by
    rcases h'.place with ⟨id', message'⟩ | free'
    · rcases h.place with ⟨id, message⟩ | free
      · exact Or.inl ⟨id'.trans id, message'.trans message⟩
      · exact Or.inr (id'.trans free)
    · exact Or.inr free'

/-- Sending keeps the requests and every receive buffer in use. -/
structure Sending (w w' : State) : Prop where
  remains : ∀ s, Remains (w.reqs s) (w'.reqs s)
  used : ∀ c, (w.conns c).busy = true →
    (w'.conns c).busy = true ∧ (w'.conns c).recvBuf = (w.conns c).recvBuf
  nextCtx : w'.nextCtx = w.nextCtx

/-- No request is released, unless it fails. -/
def SameSlots (w w' : State) : Prop :=
  ∀ s, (w'.reqs s).reqId = (w.reqs s).reqId ∧ (w'.reqs s).messagePtr = (w.reqs s).messagePtr

theorem Sending.refl (w : State) : Sending w w := ⟨fun _ => .refl _, fun _ h => ⟨h, rfl⟩, rfl⟩

theorem Sending.core {w w' : State} (h : Sending w w') (s : Nat) :
    core (w'.reqs s) = core (w.reqs s) := (h.remains s).core

theorem Sending.trans {a b c : State} (h : Sending a b) (h' : Sending b c) : Sending a c where
  remains := fun s => (h.remains s).trans (h'.remains s)
  used := by
    intro i busy
    obtain ⟨busy', same⟩ := h.used i busy
    obtain ⟨busy'', same'⟩ := h'.used i busy'
    exact ⟨busy'', same'.trans same⟩
  nextCtx := h'.nextCtx.trans h.nextCtx

theorem SameSlots.trans {a b c : State} (h : SameSlots a b) (h' : SameSlots b c) :
    SameSlots a c := fun s => ⟨(h' s).1.trans (h s).1, (h' s).2.trans (h s).2⟩

theorem Sending.connId {w w' : State} (h : Sending w w') (s : Nat) :
    (w'.reqs s).connId = (w.reqs s).connId := congrArg Prod.fst (h.core s)

/-- The connection of the request is allocated. -/
def InUse (w : State) (slot : Nat) : Prop := (w.conns (w.reqs slot).connId).busy = true

theorem Sending.inUse {w w' : State} (h : Sending w w') {slot : Nat} (used : InUse w slot) :
    InUse w' slot := by
  rw [InUse, h.connId]
  exact (h.used _ used).1

theorem Sending.reqMem {w w' : State} (h : Sending w w') {slot : Nat} (used : InUse w slot) :
    reqMem w' slot = reqMem w slot := by
  rw [Node.reqMem, h.connId]
  exact (h.used _ used).2

/-! ## One connection -/

theorem recvBuf_of_recvSide {c c' : ConnInfo} (h : recvSide c' = recvSide c) :
    c'.recvBuf = c.recvBuf := congrArg (fun t => t.2.1) h

theorem busy_of_recvSide {c c' : ConnInfo} (h : recvSide c' = recvSide c) :
    c'.busy = c.busy := congrArg (fun t => t.2.2.1) h

/-- A change on the send side of one connection. -/
theorem sending_setConn (w : State) (c : Nat) {conn : ConnInfo}
    (side : recvSide conn = recvSide (w.conns c)) : Sending w (w.setConn c conn) where
  remains := fun _ => .refl _
  used := by
    intro i busy
    by_cases own : i = c
    · subst own
      simp only [State.setConn, Function.update_self]
      exact ⟨(busy_of_recvSide side).trans busy, recvBuf_of_recvSide side⟩
    · simp only [State.setConn, Function.update_of_ne own]
      exact ⟨busy, trivial⟩
  nextCtx := rfl

/-- A change outside the tables. -/
theorem sending_aside {w w' : State} (conns : w'.conns = w.conns) (reqs : w'.reqs = w.reqs)
    (nextCtx : w'.nextCtx = w.nextCtx) : Sending w w' where
  remains := fun s => by rw [reqs]; exact .refl _
  used := fun c busy => by rw [conns]; exact ⟨busy, rfl⟩
  nextCtx := nextCtx

theorem takeSend_reqs (w : State) (c : Nat) : (takeSend w c).1.reqs = w.reqs := by
  unfold takeSend
  split <;> rfl

theorem takeSend_effects (w : State) (c : Nat) : (takeSend w c).1.effects = w.effects := by
  unfold takeSend
  split <;> rfl

theorem takeSend_nextCtx (w : State) (c : Nat) : (takeSend w c).1.nextCtx = w.nextCtx := by
  unfold takeSend
  split <;> rfl

theorem startSendOn_spec (w : State) (c : Nat) (target : Addr) :
    Sending w (startSendOn w c target).1 ∧ (startSendOn w c target).1.reqs = w.reqs ∧
      forwards (startSendOn w c target).1 = forwards w := by
  simp only [startSendOn]
  split
  · refine ⟨(sending_setConn w c (sendBlind_recvSide.connStartSend _ _ _)).trans
      (sending_aside rfl rfl rfl), rfl, rfl⟩
  · have side : recvSide (connStartSend (w.conns c) target (takeSend w c).2).conn =
        recvSide ((takeSend w c).1.conns c) := by
      rw [takeSend_conns]
      exact sendBlind_recvSide.connStartSend _ _ _
    have taken : Sending w (takeSend w c).1 :=
      sending_aside (takeSend_conns w c) (takeSend_reqs w c) (takeSend_nextCtx w c)
    refine ⟨taken.trans ((sending_setConn _ c side).trans (sending_aside rfl rfl rfl)),
      takeSend_reqs w c, ?_⟩
    simp only [forwards, State.emit, State.setConn, List.filterMap_cons, takeSend_effects]

/-! ## The connection of a forward -/

/-- As `Sending`, for all connections but `c`. -/
structure Opening (c : Nat) (w w' : State) : Prop where
  remains : ∀ s, Remains (w.reqs s) (w'.reqs s)
  used : ∀ i, i ≠ c → w'.conns i = w.conns i
  nextCtx : w'.nextCtx = w.nextCtx
  forwards : forwards w' = forwards w

theorem Opening.trans {c : Nat} {w₁ w₂ w₃ : State} (h : Opening c w₁ w₂) (h' : Opening c w₂ w₃) :
    Opening c w₁ w₃ where
  remains := fun s => (h.remains s).trans (h'.remains s)
  used := fun i other => (h'.used i other).trans (h.used i other)
  nextCtx := h'.nextCtx.trans h.nextCtx
  forwards := h'.forwards.trans h.forwards

/-- The connection that was opened was free before. -/
theorem Opening.sending {c : Nat} {w w' : State} (h : Opening c w w')
    (free : (w.conns c).busy = false) : Sending w w' where
  remains := h.remains
  used := by
    intro i busy
    by_cases own : i = c
    · rw [own, free] at busy
      cases busy
    · rw [h.used i own]
      exact ⟨busy, rfl⟩
  nextCtx := h.nextCtx

theorem opening_setConn (w : State) (c : Nat) (conn : ConnInfo) : Opening c w (w.setConn c conn) where
  remains := fun _ => .refl _
  used := fun i other => by simp [State.setConn, other]
  nextCtx := rfl
  forwards := rfl

theorem opening_aside (c : Nat) {w w' : State} (conns : w'.conns = w.conns)
    (reqs : w'.reqs = w.reqs) (nextCtx : w'.nextCtx = w.nextCtx)
    (sent : forwards w' = forwards w) : Opening c w w' where
  remains := fun s => by rw [reqs]; exact .refl _
  used := fun i _ => by rw [conns]
  nextCtx := nextCtx
  forwards := sent

theorem tableless_forwards : Tableless forwards :=
  ⟨fun _ _ _ => rfl, fun _ _ _ _ => rfl, fun _ _ => rfl, fun _ _ => rfl⟩

theorem tableless_nextCtx : Tableless State.nextCtx :=
  ⟨fun _ _ _ => rfl, fun _ _ _ _ => rfl, fun _ _ => rfl, fun _ _ => rfl⟩

theorem connReset_remains (w : State) (c s : Nat) : Remains (w.reqs s) ((connReset w c).reqs s) where
  core := listless_core.connResetFrom_blind (fun _ => rfl) _ w _ s
  place := by
    have listless : Listless fun r : ReqInfo => (r.reqId, r.messagePtr) :=
      ⟨fun _ _ => rfl, fun _ _ => rfl⟩
    by_cases inside : s ∈ listed w c
    · exact Or.inr (connResetFrom_releases _ w _ inside)
    · have kept := listless.connResetFrom _ w _ inside
      simp only [Prod.mk.injEq] at kept
      exact Or.inl kept

theorem opening_connFree (w : State) (c : Nat) : Opening c w (connFree w c) := by
  have reset : Opening c w (connReset w c) :=
    ⟨connReset_remains w c, fun i _ => by rw [connReset, connResetFrom_conns],
      tableless_nextCtx.connResetFrom w _ _, tableless_forwards.connResetFrom w _ _⟩
  exact reset.trans (opening_setConn _ c _)

theorem opening_connEnableSsl (w : State) (c : Nat) :
    Opening c w (connEnableSsl w c).1 ∧ (connEnableSsl w c).1.reqs = w.reqs := by
  unfold connEnableSsl takeSsl
  split <;> rename_i e <;> split at e <;> cases e
  · exact ⟨opening_aside c rfl rfl rfl rfl, rfl⟩
  · exact ⟨opening_setConn w c _, rfl⟩
  · refine ⟨Opening.trans ?_ (opening_setConn _ c _), rfl⟩
    exact opening_aside c rfl rfl rfl rfl

theorem opening_takeConnect (w : State) (c : Nat) :
    Opening c w (takeConnect w).1 ∧ (takeConnect w).1.reqs = w.reqs := by
  unfold takeConnect
  split
  · exact ⟨opening_aside c rfl rfl rfl rfl, rfl⟩
  · exact ⟨opening_aside c rfl rfl rfl rfl, rfl⟩

/-- A forward connection that could not be opened may have released requests;
one that could has not. -/
theorem opening_connectForward (w : State) (c sock : Nat) (proto : Proto) :
    Opening c w (connectForward w c sock proto).1 ∧
      ((connectForward w c sock proto).2 ≠ none →
        (connectForward w c sock proto).1.reqs = w.reqs) := by
  have added : Opening c w (w.emit (.pollAdd sock c)) := opening_aside c rfl rfl rfl rfl
  have enabled : Opening c w (if proto = .tls then connEnableSsl (w.emit (.pollAdd sock c)) c
        else (w.emit (.pollAdd sock c), true)).1 ∧
      (if proto = .tls then connEnableSsl (w.emit (.pollAdd sock c)) c
        else (w.emit (.pollAdd sock c), true)).1.reqs = w.reqs := by
    split
    · have ssl := opening_connEnableSsl (w.emit (.pollAdd sock c)) c
      exact ⟨added.trans ssl.1, ssl.2⟩
    · exact ⟨added, rfl⟩
  simp only [connectForward]
  split
  · rename_i e
    rw [e] at enabled
    refine ⟨enabled.1.trans (Opening.trans ?_ (opening_connFree _ c)), fun none => absurd rfl none⟩
    exact opening_aside c rfl rfl rfl rfl
  · rename_i w₁ e
    rw [e] at enabled
    have connected := opening_takeConnect w₁ c
    split
    · rename_i t
      rw [t] at connected
      exact ⟨enabled.1.trans connected.1, fun none => absurd rfl none⟩
    · rename_i t
      rw [t] at connected
      exact ⟨enabled.1.trans (connected.1.trans (opening_setConn _ c _)),
        fun _ => connected.2.trans enabled.2⟩
    · rename_i t
      rw [t] at connected
      split
      · exact ⟨enabled.1.trans (connected.1.trans (opening_setConn _ c _)),
          fun _ => connected.2.trans enabled.2⟩
      · refine ⟨enabled.1.trans (connected.1.trans ((opening_setConn _ c _).trans
          (opening_aside c rfl rfl rfl rfl))), fun _ => connected.2.trans enabled.2⟩

theorem allocForward_spec (w : State) (fwd : FwdOpts) :
    (allocForward w fwd).1.reqs = w.reqs ∧
      (((allocForward w fwd).2 = none ∧ Opening maxConns w (allocForward w fwd).1 ∧
        Sending w (allocForward w fwd).1) ∨
      ∃ c, (allocForward w fwd).2 = some c ∧ (w.conns c).busy = false ∧
        Opening c w (allocForward w fwd).1) := by
  simp only [allocForward, connAlloc]
  cases found : findIndex (fun i => !(w.conns i).busy) maxConns 0 with
  | none =>
    exact ⟨rfl, Or.inl ⟨rfl, opening_aside _ rfl rfl rfl rfl, sending_aside rfl rfl rfl⟩⟩
  | some c =>
    have free : (w.conns c).busy = false := by simpa using findIndex_holds found
    refine ⟨rfl, Or.inr ⟨c, rfl, free, Opening.trans (Opening.trans ?_ (opening_setConn _ c _))
      (opening_setConn _ c _)⟩⟩
    exact opening_aside c rfl rfl rfl rfl

theorem forwardConn_spec (w : State) (fwd : FwdOpts) :
    Sending w (forwardConn w fwd).1 ∧ forwards (forwardConn w fwd).1 = forwards w ∧
      ((forwardConn w fwd).2 ≠ none → (forwardConn w fwd).1.reqs = w.reqs) := by
  unfold forwardConn
  split
  · exact ⟨.refl w, rfl, fun _ => rfl⟩
  · obtain ⟨reqs, allocated⟩ := allocForward_spec w fwd
    split
    · rename_i e
      rw [e] at reqs allocated
      rcases allocated with ⟨-, opened, sent⟩ | ⟨c, none, -⟩
      · exact ⟨sent, opened.forwards, fun _ => reqs⟩
      · cases none
    · rename_i w' c e
      rw [e] at reqs allocated
      rcases allocated with ⟨none, -⟩ | ⟨c', same, free, opened⟩
      · cases none
      · cases same
        split
        · have connected := opening_connectForward w' c w.nextFd fwd.proto
          have whole := opened.trans connected.1
          exact ⟨whole.sending free, whole.forwards, fun some => (connected.2 some).trans reqs⟩
        · exact ⟨opened.sending free, opened.forwards, fun _ => reqs⟩

/-! ## One branch -/

theorem Sending.retimed {w w' : State} (h : Retimed w w') :
    Sending w w' ∧ SameSlots w w' ∧ forwards w' = forwards w := by
  refine ⟨⟨?_, fun c busy => ?_, h.nextCtx⟩, ?_, by rw [forwards, h.effects]; rfl⟩
  · intro s
    obtain ⟨node, e⟩ := h.reqs s
    rw [e]
    exact ⟨rfl, Or.inl ⟨rfl, rfl⟩⟩
  · rw [h.conns]
    exact ⟨busy, rfl⟩
  · intro s
    obtain ⟨node, e⟩ := h.reqs s
    rw [e]
    exact ⟨rfl, rfl⟩

/-- What a message forwarded to branch `cmd` of the request is recorded as. -/
def forwardOf (w : State) (slot cmd : Nat) : Nat × Addr × Option Nat :=
  ((w.reqs slot).reqId, (fwdOpts (reqMem w slot) cmd).fwdAddr, (w.reqs slot).ctx)

/-- The record of the message is made where it is handed to the connection. -/
theorem startSendOn_recorded (w : State) (c : Nat) (conn : ConnInfo)
    (side : recvSide conn = recvSide (w.conns c)) (target : Addr) (sent : Nat × Addr × Option Nat) :
    let w' := (startSendOn (w.setConn c conn) c target).1.emit (.forwarded sent.1 sent.2.1 sent.2.2)
    Sending w w' ∧ w'.reqs = w.reqs ∧ forwards w' = sent :: forwards w := by
  obtain ⟨sending, reqs, same⟩ := startSendOn_spec (w.setConn c conn) c target
  refine ⟨(sending_setConn w c side).trans (sending.trans (sending_aside rfl rfl rfl)), reqs, ?_⟩
  exact congrArg (sent :: ·) same

/-- One message is recorded unless none could be composed; a success has
recorded it. -/
theorem sendForward_spec {w w' : State} {slot m cmd c : Nat} {fwd : FwdOpts} {ret : Option Nat}
    (h : sendForward w slot m cmd c fwd = .ok (w', ret)) :
    Sending w w' ∧ SameSlots w w' ∧
      ((ret = none ∧ forwards w' = forwards w) ∨
        forwards w' = ((w.reqs slot).reqId, fwd.fwdAddr, (w.reqs slot).ctx) :: forwards w) := by
  have side := fillForward_recvSide (connPrepareSendMessage (w.conns c)).1 (reqMem w slot) m cmd
    (w.reqs slot).reqId (connPrepareSendMessage (w.conns c)).2 fwd
  simp only [sendForward] at h
  split at h
  · cases h
  · split at h
    · cases h
    · split at h
      · cases h
        exact ⟨sending_setConn w c side, fun _ => ⟨rfl, rfl⟩, Or.inl ⟨rfl, rfl⟩⟩
      · obtain ⟨sending, reqs, recorded⟩ := startSendOn_recorded w c _ side fwd.fwdAddr
          ((w.reqs slot).reqId, fwd.fwdAddr, (w.reqs slot).ctx)
        have slots : SameSlots w _ := fun s => by rw [reqs]; exact ⟨rfl, rfl⟩
        split at h
        · cases h
          exact ⟨sending, slots, Or.inr recorded⟩
        · split at h
          · obtain ⟨w₁, inserted, e⟩ := map_eq_ok.mp h
            cases e
            obtain ⟨timed, kept, same⟩ := Sending.retimed (insertTimeout_retimed inserted)
            exact ⟨sending.trans timed, slots.trans kept, Or.inr (same.trans recorded)⟩
          · cases h
            exact ⟨sending, slots, Or.inr recorded⟩

/-- A branch that `single_start_forward` takes for acknowledged. -/
def settled (mem : Mem) (r : ReqInfo) (msgEnd cmd : Nat) : Bool :=
  match findForwardReplyId mem r.currCmd (fwdOpts mem cmd).fwdAddr msgEnd with
  | .ok (some id) => decide (r.fwdRepliesLeft ≠ -1) && acked r.fwdRepliesMask id
  | _ => false

/-- One branch is sent, or skipped if it is acknowledged. -/
theorem singleStartForward_spec {w w' : State} {slot m cmd : Nat} {ret : Option Nat}
    (h : singleStartForward w slot m cmd = .ok (w', ret)) :
    Sending w w' ∧ (ret ≠ none → SameSlots w w') ∧
      (if settled (reqMem w slot) (w.reqs slot) (messageEnd (reqMem w slot) m) cmd
        then forwards w' = forwards w
        else (ret = none ∧ forwards w' = forwards w) ∨
          forwards w' = forwardOf w slot cmd :: forwards w) := by
  simp only [singleStartForward] at h
  split at h
  · cases h
  · rename_i search
    cases h
    refine ⟨.refl w, fun _ _ => ⟨rfl, rfl⟩, ?_⟩
    simp [settled, search]
  · rename_i id search
    simp only [settled, search]
    split at h
    · rename_i repeated
      rw [skipAcked_state h]
      refine ⟨.refl w, fun _ _ => ⟨rfl, rfl⟩, ?_⟩
      simp [repeated.1, repeated.2]
    · rename_i pending
      have clear : ¬ ((decide ((w.reqs slot).fwdRepliesLeft ≠ -1) &&
          acked (w.reqs slot).fwdRepliesMask id) = true) := by
        simpa using pending
      rw [if_neg clear]
      obtain ⟨sending, same, reqs⟩ := forwardConn_spec w (fwdOpts (reqMem w slot) cmd)
      split at h
      · rename_i e
        rw [e] at sending same
        cases h
        exact ⟨sending, fun failed => absurd rfl failed, Or.inl ⟨rfl, same⟩⟩
      · rename_i w₁ c e
        rw [e] at sending same reqs
        have kept : w₁.reqs = w.reqs := reqs (by simp)
        obtain ⟨sent, slots, recorded⟩ := sendForward_spec h
        rw [kept, same] at recorded
        refine ⟨sending.trans sent, fun _ s => ?_, recorded⟩
        have here := slots s
        rw [kept] at here
        exact here

/-! ## All branches -/

/-- The branches of the context at `cmd`, in the order of `start_forward`'s loop. -/
def branchesFrom (mem : Mem) (msgEnd : Nat) : Nat → Option Nat → List Nat
  | 0, _ => []
  | _ + 1, none => []
  | fuel + 1, some cmd =>
    match cmdBoundedNextForward mem (some cmd) msgEnd with
    | .error _ => [cmd]
    | .ok next => cmd :: branchesFrom mem msgEnd fuel next

def branches (mem : Mem) (msgEnd : Nat) (cmd : Option Nat) : List Nat :=
  branchesFrom mem msgEnd (msgEnd + 1) cmd

/-- The branches that are not acknowledged. -/
def unsettled (mem : Mem) (r : ReqInfo) (msgEnd : Nat) (cmds : List Nat) : List Nat :=
  cmds.filter fun cmd => !settled mem r msgEnd cmd

theorem settled_core {mem : Mem} {r r' : ReqInfo} {msgEnd cmd : Nat} (h : core r' = core r) :
    settled mem r' msgEnd cmd = settled mem r msgEnd cmd := by
  simp only [core, Prod.mk.injEq] at h
  simp only [settled, h]

/-- What the loop has to send from branch `itr` on. -/
def pendingFrom (w : State) (slot m fuel : Nat) (itr : Option Nat) : List Nat :=
  let msgEnd := messageEnd (reqMem w slot) m
  unsettled (reqMem w slot) (w.reqs slot) msgEnd (branchesFrom (reqMem w slot) msgEnd fuel itr)

theorem pendingFrom_sending {w w' : State} {slot : Nat} (h : Sending w w') (used : InUse w slot)
    (m fuel : Nat) (itr : Option Nat) :
    pendingFrom w' slot m fuel itr = pendingFrom w slot m fuel itr := by
  simp only [pendingFrom, unsettled, h.reqMem used]
  congr 1
  funext cmd
  rw [settled_core (h.core slot)]

theorem pendingFrom_next {w : State} {slot m fuel cmd : Nat} {next : Option Nat}
    (e : cmdBoundedNextForward (reqMem w slot) (some cmd) (messageEnd (reqMem w slot) m) = .ok next) :
    pendingFrom w slot m (fuel + 1) (some cmd) =
      (if settled (reqMem w slot) (w.reqs slot) (messageEnd (reqMem w slot) m) cmd
        then [] else [cmd]) ++ pendingFrom w slot m fuel next := by
  simp only [pendingFrom, branchesFrom, e, unsettled, List.filter_cons]
  cases settled (reqMem w slot) (w.reqs slot) (messageEnd (reqMem w slot) m) cmd <;> simp

theorem pendingFrom_head {w : State} {slot m fuel cmd : Nat}
    (clear : ¬ settled (reqMem w slot) (w.reqs slot) (messageEnd (reqMem w slot) m) cmd = true) :
    [cmd] <+: pendingFrom w slot m (fuel + 1) (some cmd) := by
  simp only [pendingFrom, branchesFrom, unsettled]
  split <;> simp [clear]

theorem forwardOf_sending {w w' : State} {slot : Nat} (h : Sending w w') (used : InUse w slot)
    (slots : SameSlots w w') : forwardOf w' slot = forwardOf w slot := by
  funext cmd
  have same := h.core slot
  simp only [core, Prod.mk.injEq] at same
  simp only [forwardOf, h.reqMem used, (slots slot).1, same]

/-- No branch that has to be sent fails on the way through the loop. -/
def sendsSucceed (slot m : Nat) : Nat → State → Option Nat → Bool
  | 0, _, _ => true
  | _ + 1, _, none => true
  | fuel + 1, w, some itr =>
    let mem := reqMem w slot
    let msgEnd := messageEnd mem m
    match singleStartForward w slot m itr with
    | .error _ => true
    | .ok (_, none) => settled mem (w.reqs slot) msgEnd itr
    | .ok (w', some _) =>
      match cmdBoundedNextForward mem (some itr) msgEnd with
      | .error _ => true
      | .ok next => sendsSucceed slot m fuel w' next

/-- `single_start_forward` on an acknowledged branch fails only at the end. -/
theorem singleStartForward_settled {w w' : State} {slot m cmd : Nat}
    (skipped : settled (reqMem w slot) (w.reqs slot) (messageEnd (reqMem w slot) m) cmd = true)
    (h : singleStartForward w slot m cmd = .ok (w', none)) :
    w' = w ∧ cmdBoundedNextForward (reqMem w slot) (some cmd) (messageEnd (reqMem w slot) m) =
      .ok none := by
  simp only [settled] at skipped
  simp only [singleStartForward] at h
  split at skipped
  · rename_i id search
    have repeated : (w.reqs slot).fwdRepliesLeft ≠ -1 ∧
        acked (w.reqs slot).fwdRepliesMask id = true := by simpa using skipped
    simp only [search] at h
    rw [if_pos repeated] at h
    refine ⟨skipAcked_state h, ?_⟩
    simp only [skipAcked] at h
    split at h
    · cases h
    · rename_i next e
      obtain ⟨_, -, same⟩ := map_eq_ok.mp h
      simp only [Prod.mk.injEq, Option.or_eq_none_iff] at same
      rw [e, same.2.1]
  · cases skipped

/-- What has been sent after the loop: every branch that is not acknowledged,
or up to the branch that failed. -/
theorem sendBranches_spec {slot m fuel : Nat} {w w' : State} {itr : Option Nat} {sent : Bool}
    (used : InUse w slot) (h : sendBranches slot m fuel w itr = .ok (w', sent)) :
    Sending w w' ∧ ∃ out, out <+: pendingFrom w slot m fuel itr ∧
      (sendsSucceed slot m fuel w itr = true →
        SameSlots w w' ∧ out = pendingFrom w slot m fuel itr) ∧
      forwards w' = (out.map (forwardOf w slot)).reverse ++ forwards w := by
  induction fuel generalizing w itr with
  | zero =>
    cases h
    exact ⟨.refl _, [], List.nil_prefix, fun _ => ⟨fun _ => ⟨rfl, rfl⟩, rfl⟩, rfl⟩
  | succ fuel ih =>
    cases itr with
    | none =>
      cases h
      exact ⟨.refl _, [], List.nil_prefix, fun _ => ⟨fun _ => ⟨rfl, rfl⟩, rfl⟩, rfl⟩
    | some cmd =>
      simp only [sendBranches] at h
      simp only [sendsSucceed]
      cases single : singleStartForward w slot m cmd with
      | error e =>
        simp only [single] at h
        cases h
      | ok s =>
        obtain ⟨w₁, shown⟩ := s
        obtain ⟨sending, slots, recorded⟩ := singleStartForward_spec single
        cases shown with
        | none =>
          simp only [single] at h
          cases h
          refine ⟨sending, ?_⟩
          by_cases skipped : settled (reqMem w slot) (w.reqs slot) (messageEnd (reqMem w slot) m) cmd
          · rw [if_pos skipped] at recorded
            obtain ⟨rfl, last⟩ := singleStartForward_settled skipped single
            refine ⟨[], List.nil_prefix, fun _ => ⟨fun _ => ⟨rfl, rfl⟩, ?_⟩, recorded⟩
            rw [pendingFrom_next last, if_pos skipped]
            cases fuel <;> rfl
          · rw [if_neg skipped] at recorded
            rcases recorded with ⟨-, same⟩ | recorded
            · exact ⟨[], List.nil_prefix, fun succeeded => absurd succeeded skipped, same⟩
            · exact ⟨[cmd], pendingFrom_head skipped, fun succeeded => absurd succeeded skipped,
                recorded⟩
        | some _ =>
          have kept : SameSlots w w₁ := slots (by simp)
          simp only [single, sending.reqMem used] at h
          cases e : cmdBoundedNextForward (reqMem w slot) (some cmd) (messageEnd (reqMem w slot) m) with
          | error a =>
            simp only [e] at h
            cases h
          | ok next =>
            simp only [e] at h
            obtain ⟨sending', out, isPrefix, whole, sent⟩ := ih (sending.inUse used) h
            rw [pendingFrom_sending sending used] at isPrefix whole
            rw [forwardOf_sending sending used kept] at sent
            rw [pendingFrom_next e]
            refine ⟨sending.trans sending', ?_⟩
            by_cases skipped : settled (reqMem w slot) (w.reqs slot) (messageEnd (reqMem w slot) m) cmd
            · simp only [skipped, if_true] at recorded ⊢
              refine ⟨out, by simpa using isPrefix, fun succeeded => ?_, ?_⟩
              · exact ⟨kept.trans (whole succeeded).1, by simpa using (whole succeeded).2⟩
              · rw [sent, recorded]
            · simp only [skipped] at recorded ⊢
              rcases recorded with ⟨none, -⟩ | recorded
              · cases none
              · refine ⟨cmd :: out, by simpa using isPrefix, fun succeeded => ?_, ?_⟩
                · exact ⟨kept.trans (whole succeeded).1, by simpa using (whole succeeded).2⟩
                · rw [sent, recorded]
                  simp

/-- A loop that comes through has failed nowhere. -/
theorem sendsSucceed_of_sent {slot m fuel : Nat} {w w' : State} {itr : Option Nat}
    (used : InUse w slot) (h : sendBranches slot m fuel w itr = .ok (w', true)) :
    sendsSucceed slot m fuel w itr = true := by
  induction fuel generalizing w itr with
  | zero => rfl
  | succ fuel ih =>
    cases itr with
    | none => rfl
    | some cmd =>
      simp only [sendBranches] at h
      simp only [sendsSucceed]
      cases single : singleStartForward w slot m cmd with
      | error e =>
        simp only [single] at h
        cases h
      | ok s =>
        obtain ⟨w₁, shown⟩ := s
        have sending := (singleStartForward_spec single).1
        cases shown with
        | none =>
          simp only [single] at h
          cases h
        | some _ =>
          simp only [single, sending.reqMem used] at h
          cases e : cmdBoundedNextForward (reqMem w slot) (some cmd) (messageEnd (reqMem w slot) m) with
          | error a => rfl
          | ok next =>
            simp only [e] at h
            exact ih (sending.inUse used) h

/-! ## Messages that go out -/

/-- Connection `c` takes the message for branch `cmd`: it is open, its send buffer
has the room that the FORWARD asks for, the commands fit into it, and `send` does
not fail. -/
def takes (w : State) (slot m cmd c : Nat) (fwd : FwdOpts) : Bool :=
  let p := connPrepareSendMessage (w.conns c)
  let f := fillForward p.1 (reqMem w slot) m cmd (w.reqs slot).reqId p.2 fwd
  (w.conns c).sock.isSome && decide (fwd.pktSize ≤ reqSizeOf p.1.sendBuf p.2) && f.2 &&
    decide (0 ≤ (startSendOn (w.setConn c f.1) c fwd.fwdAddr).2)

/-- There is a connection for branch `cmd`, or one can be opened, that takes its
message. -/
def goesOut (w : State) (slot m cmd : Nat) : Bool :=
  let fwd := fwdOpts (reqMem w slot) cmd
  match forwardConn w fwd with
  | (_, none) => false
  | (w', some c) => takes w' slot m cmd c fwd

/-- The messages to the branches from `itr` on go out, one after the other, apart
from those that are acknowledged. -/
def allGoOut (slot m : Nat) : Nat → State → Option Nat → Bool
  | 0, _, _ => true
  | _ + 1, _, none => true
  | fuel + 1, w, some itr =>
    let mem := reqMem w slot
    let msgEnd := messageEnd mem m
    match cmdBoundedNextForward mem (some itr) msgEnd with
    | .error _ => true
    | .ok next =>
      if settled mem (w.reqs slot) msgEnd itr then allGoOut slot m fuel w next
      else
        goesOut w slot m itr &&
          match singleStartForward w slot m itr with
          | .error _ => true
          | .ok (w', _) => allGoOut slot m fuel w' next

/-- Where the log of an acknowledged branch begins. -/
def logStart (mem : Mem) (msgEnd : Nat) (currCmd : Option Nat) (branch : Nat) : Option Nat :=
  match cmdBoundedNextForward mem (some branch) msgEnd with
  | .error _ => none
  | .ok next => next.or (cmdBoundedSkip mem currCmd 1 msgEnd)

theorem insertTimeout_total (w : State) (reqId : Nat) {micros : Int} (nonneg : 0 ≤ micros) :
    ∃ w', insertTimeout w reqId micros = .ok w' := by
  unfold insertTimeout
  split
  · exact ⟨_, rfl⟩
  · split
    · exact ⟨_, rfl⟩
    · simp only [timerfdSettime_usToIts _ nonneg]
      split
      · exact ⟨_, rfl⟩
      · exact ⟨_, rfl⟩

theorem sendForward_taken {w : State} {slot m cmd c : Nat} {fwd : FwdOpts}
    (taken : takes w slot m cmd c fwd = true) (timeout : 0 ≤ (w.reqs slot).fwdTimeout) :
    ∃ w', sendForward w slot m cmd c fwd = .ok (w', some cmd) := by
  simp only [takes, Bool.and_eq_true, decide_eq_true_eq] at taken
  obtain ⟨⟨⟨opened, room⟩, composed⟩, accepted⟩ := taken
  have sock : (w.conns c).sock ≠ none := Option.isSome_iff_ne_none.mp opened
  simp only [sendForward]
  rw [if_neg sock, if_neg (Nat.not_lt.mpr room), if_neg (by simp [composed]), if_neg (Int.not_lt.mpr accepted)]
  split
  · obtain ⟨w', inserted⟩ := insertTimeout_total _ (w.reqs slot).reqId timeout
    exact ⟨w', by rw [inserted]; rfl⟩
  · exact ⟨_, rfl⟩

/-- A branch that is not acknowledged is sent when its message goes out. -/
theorem singleStartForward_goesOut {w : State} {slot m cmd id : Nat}
    (found : findForwardReplyId (reqMem w slot) (w.reqs slot).currCmd (fwdOpts (reqMem w slot) cmd).fwdAddr
      (messageEnd (reqMem w slot) m) = .ok (some id))
    (clear : settled (reqMem w slot) (w.reqs slot) (messageEnd (reqMem w slot) m) cmd = false)
    (out : goesOut w slot m cmd = true) (timeout : 0 ≤ (w.reqs slot).fwdTimeout) :
    ∃ w', singleStartForward w slot m cmd = .ok (w', some cmd) := by
  have pending : ¬ ((w.reqs slot).fwdRepliesLeft ≠ -1 ∧ acked (w.reqs slot).fwdRepliesMask id = true) := by
    simp only [settled, found] at clear
    simpa using clear
  have reqs := (forwardConn_spec w (fwdOpts (reqMem w slot) cmd)).2.2
  simp only [goesOut] at out
  simp only [singleStartForward, found]
  rw [if_neg pending]
  rcases e : forwardConn w (fwdOpts (reqMem w slot) cmd) with ⟨w₁, _ | c⟩
  · simp only [e] at out
    cases out
  · simp only [e] at out reqs ⊢
    refine sendForward_taken out ?_
    rw [reqs (by simp)]
    exact timeout

/-- What the loop of `start_forward` needs besides messages that go out: its
branches are among those of the current command, the timeout is no negative one,
and behind an acknowledged branch there are only commands that can be printed. -/
structure Sendable (w : State) (slot m fuel : Nat) (itr : Option Nat) : Prop where
  used : InUse w slot
  timeout : 0 ≤ (w.reqs slot).fwdTimeout
  begins : ∀ cmd, itr = some cmd → (cmdAt (reqMem w slot) cmd).isForward = true
  found : ∀ branch ∈ branchesFrom (reqMem w slot) (messageEnd (reqMem w slot) m) fuel itr,
    ∃ id, findForwardReplyId (reqMem w slot) (w.reqs slot).currCmd
      (fwdOpts (reqMem w slot) branch).fwdAddr (messageEnd (reqMem w slot) m) = .ok (some id)
  printed : ∀ branch ∈ branchesFrom (reqMem w slot) (messageEnd (reqMem w slot) m) fuel itr,
    settled (reqMem w slot) (w.reqs slot) (messageEnd (reqMem w slot) m) branch = true →
    cmdLog (reqMem w slot) (messageEnd (reqMem w slot) m) (messageEnd (reqMem w slot) m + 1)
      (logStart (reqMem w slot) (messageEnd (reqMem w slot) m) (w.reqs slot).currCmd branch) = .ok ()

theorem Sendable.next {w w' : State} {slot m fuel cmd : Nat} {next : Option Nat}
    (h : Sendable w slot m (fuel + 1) (some cmd)) (sending : Sending w w')
    (e : cmdBoundedNextForward (reqMem w slot) (some cmd) (messageEnd (reqMem w slot) m) = .ok next) :
    Sendable w' slot m fuel next := by
  have mem := sending.reqMem h.used
  have core := sending.core slot
  have settles : ∀ branch, settled (reqMem w slot) (w'.reqs slot) (messageEnd (reqMem w slot) m) branch =
      settled (reqMem w slot) (w.reqs slot) (messageEnd (reqMem w slot) m) branch :=
    fun branch => settled_core core
  simp only [Forwarding.core, Prod.mk.injEq] at core
  obtain ⟨-, -, -, -, -, timeout, -, currCmd, -⟩ := core
  have later : ∀ branch ∈ branchesFrom (reqMem w slot) (messageEnd (reqMem w slot) m) fuel next,
      branch ∈ branchesFrom (reqMem w slot) (messageEnd (reqMem w slot) m) (fuel + 1) (some cmd) := by
    intro branch inside
    simp only [branchesFrom, e]
    exact List.mem_cons_of_mem cmd inside
  refine ⟨sending.inUse h.used, by rw [timeout]; exact h.timeout, ?_, ?_, ?_⟩
  · rintro cmd' rfl
    rw [mem]
    exact cmdBoundedNextForward_isForward e
  · rw [mem, currCmd]
    exact fun branch inside => h.found branch (later branch inside)
  · rw [mem, currCmd]
    intro branch inside skipped
    rw [settles] at skipped
    exact h.printed branch (later branch inside) skipped

/-- Every branch of a context is found by its address. -/
theorem branch_found {mem : Mem} {msgEnd fuel branch : Nat} {cmd : Option Nat} (id : Nat)
    (start : ∀ c, cmd = some c → (cmdAt mem c).isForward = true)
    (inside : branch ∈ branchesFrom mem msgEnd fuel cmd) :
    ∃ found, findForwardFrom mem (fwdOpts mem branch).fwdAddr msgEnd fuel cmd id = .ok (some found) := by
  induction fuel generalizing cmd id with
  | zero => cases inside
  | succ fuel ih =>
    cases cmd with
    | none => cases inside
    | some cmd =>
      obtain ⟨next, e⟩ := cmdBoundedNextForward_ok msgEnd (start cmd rfl)
      simp only [branchesFrom, e, List.mem_cons] at inside
      simp only [findForwardFrom, e]
      by_cases same : (fwdOpts mem cmd).fwdAddr = (fwdOpts mem branch).fwdAddr
      · exact ⟨id, if_pos same⟩
      · rw [if_neg same]
        rcases inside with rfl | later
        · exact absurd rfl same
        · exact ih (id + 1) (fun c hc => cmdBoundedNextForward_isForward (hc ▸ e)) later

/-- An acknowledged branch is passed over if its log can be printed. -/
theorem singleStartForward_passes {w : State} {slot m cmd : Nat} {next : Option Nat}
    (skipped : settled (reqMem w slot) (w.reqs slot) (messageEnd (reqMem w slot) m) cmd = true)
    (e : cmdBoundedNextForward (reqMem w slot) (some cmd) (messageEnd (reqMem w slot) m) = .ok next)
    (printed : cmdLog (reqMem w slot) (messageEnd (reqMem w slot) m) (messageEnd (reqMem w slot) m + 1)
      (logStart (reqMem w slot) (messageEnd (reqMem w slot) m) (w.reqs slot).currCmd cmd) = .ok ()) :
    singleStartForward w slot m cmd =
      .ok (w, next.or (cmdBoundedSkip (reqMem w slot) (w.reqs slot).currCmd 1 (messageEnd (reqMem w slot) m))) := by
  simp only [settled] at skipped
  split at skipped
  · rename_i id search
    have repeated : (w.reqs slot).fwdRepliesLeft ≠ -1 ∧
        acked (w.reqs slot).fwdRepliesMask id = true := by simpa using skipped
    simp only [logStart, e] at printed
    simp only [singleStartForward, search]
    rw [if_pos repeated]
    simp only [skipAcked, e, printed]
    rfl
  · cases skipped

/-- The loop comes to its end, and no branch that has to be sent has failed. -/
theorem sendBranches_goesOut {slot m fuel : Nat} {w : State} {itr : Option Nat}
    (h : Sendable w slot m fuel itr) (out : allGoOut slot m fuel w itr = true) :
    (∃ w' sent, sendBranches slot m fuel w itr = .ok (w', sent)) ∧
      sendsSucceed slot m fuel w itr = true := by
  induction fuel generalizing w itr with
  | zero => exact ⟨⟨w, true, rfl⟩, rfl⟩
  | succ fuel ih =>
    cases itr with
    | none => exact ⟨⟨w, true, rfl⟩, rfl⟩
    | some cmd =>
      obtain ⟨next, e⟩ := cmdBoundedNextForward_ok (messageEnd (reqMem w slot) m) (h.begins cmd rfl)
      have own : cmd ∈ branchesFrom (reqMem w slot) (messageEnd (reqMem w slot) m) (fuel + 1) (some cmd) := by
        simp only [branchesFrom, e]
        exact List.mem_cons_self
      simp only [allGoOut, e] at out
      by_cases skipped : settled (reqMem w slot) (w.reqs slot) (messageEnd (reqMem w slot) m) cmd = true
      · rw [if_pos skipped] at out
        have passes := singleStartForward_passes skipped e (h.printed cmd own skipped)
        obtain ⟨runs, succeeds⟩ := ih (h.next (.refl w) e) out
        simp only [sendBranches, sendsSucceed, passes]
        cases shown : next.or (cmdBoundedSkip (reqMem w slot) (w.reqs slot).currCmd 1
            (messageEnd (reqMem w slot) m)) with
        | none => exact ⟨⟨w, false, rfl⟩, skipped⟩
        | some c =>
          simp only [e]
          exact ⟨runs, succeeds⟩
      · rw [if_neg skipped, Bool.and_eq_true] at out
        obtain ⟨id, found⟩ := h.found cmd own
        obtain ⟨w₁, single⟩ := singleStartForward_goesOut found (Bool.not_eq_true _ ▸ skipped) out.1 h.timeout
        have sending := (singleStartForward_spec single).1
        have later := out.2
        simp only [single] at later
        obtain ⟨runs, succeeds⟩ := ih (h.next sending e) later
        simp only [sendBranches, sendsSucceed, single, sending.reqMem h.used, e]
        exact ⟨runs, succeeds⟩

/-! ## Branches that are carried out -/

/-- Branch `cmd` can be carried out: it is found by its address, and it is acknowledged with
something behind it or its message goes out. -/
def comesThrough (w : State) (slot m cmd : Nat) : Bool :=
  let mem := reqMem w slot
  let msgEnd := messageEnd mem m
  match findForwardReplyId mem (w.reqs slot).currCmd (fwdOpts mem cmd).fwdAddr msgEnd with
  | .ok (some _) =>
    if settled mem (w.reqs slot) msgEnd cmd then (logStart mem msgEnd (w.reqs slot).currCmd cmd).isSome
    else goesOut w slot m cmd
  | _ => false

/-- The branches from `itr` on can be carried out, one after the other. -/
def allComeThrough (slot m : Nat) : Nat → State → Option Nat → Bool
  | 0, _, _ => true
  | _ + 1, _, none => true
  | fuel + 1, w, some itr =>
    comesThrough w slot m itr &&
      match singleStartForward w slot m itr with
      | .error _ => true
      | .ok (w', _) =>
        match cmdBoundedNextForward (reqMem w' slot) (some itr) (messageEnd (reqMem w' slot) m) with
        | .error _ => true
        | .ok next => allComeThrough slot m fuel w' next

theorem sendForward_shown {w w' : State} {slot m cmd c : Nat} {fwd : FwdOpts} {shown : Option Nat}
    (h : sendForward w slot m cmd c fwd = .ok (w', shown)) : shown.isSome = takes w slot m cmd c fwd := by
  simp only [sendForward] at h
  split at h
  · cases h
  · rename_i sock
    split at h
    · cases h
    · rename_i room
      have opened : (w.conns c).sock.isSome = true := Option.isSome_iff_ne_none.mpr sock
      have fits := decide_eq_true (Nat.not_lt.mp room)
      simp only [takes, opened, fits, Bool.true_and]
      split at h
      · rename_i composed
        cases h
        rw [composed]
        rfl
      · rename_i composed
        rw [Bool.not_eq_false] at composed
        simp only [composed, Bool.true_and]
        split at h
        · rename_i failed
          cases h
          exact (decide_eq_false (not_le.mpr failed)).symm
        · rename_i accepted
          rw [decide_eq_true (not_lt.mp accepted)]
          split at h
          · obtain ⟨v, -, e⟩ := map_eq_ok.mp h
            cases e
            rfl
          · cases h
            rfl

/-- A branch that is not carried out is the NULL of `single_start_forward`. -/
theorem singleStartForward_shown {w w' : State} {slot m cmd : Nat} {shown : Option Nat}
    (h : singleStartForward w slot m cmd = .ok (w', shown)) : shown.isSome = comesThrough w slot m cmd := by
  simp only [singleStartForward] at h
  cases search : findForwardReplyId (reqMem w slot) (w.reqs slot).currCmd (fwdOpts (reqMem w slot) cmd).fwdAddr
      (messageEnd (reqMem w slot) m) with
  | error e =>
    simp only [search] at h
    cases h
  | ok found =>
    cases found with
    | none =>
      simp only [search] at h
      cases h
      simp only [comesThrough, search]
      rfl
    | some id =>
      simp only [search] at h
      simp only [comesThrough, settled, search]
      split at h
      · rename_i repeated
        rw [if_pos (by simpa using repeated)]
        simp only [skipAcked] at h
        simp only [logStart]
        cases e : cmdBoundedNextForward (reqMem w slot) (some cmd) (messageEnd (reqMem w slot) m) with
        | error abort =>
          simp only [e] at h
          cases h
        | ok next =>
          simp only [e] at h ⊢
          obtain ⟨_, -, same⟩ := map_eq_ok.mp h
          cases same
          rfl
      · rename_i pending
        rw [if_neg (by simpa using pending)]
        simp only [goesOut]
        rcases e : forwardConn w (fwdOpts (reqMem w slot) cmd) with ⟨w₁, _ | c⟩
        · simp only [e] at h ⊢
          cases h
          rfl
        · simp only [e] at h ⊢
          exact sendForward_shown h

theorem sendBranches_through {slot m fuel : Nat} {w w' : State} {itr : Option Nat} {sent : Bool}
    (h : sendBranches slot m fuel w itr = .ok (w', sent)) : sent = allComeThrough slot m fuel w itr := by
  induction fuel generalizing w itr with
  | zero =>
    cases h
    rfl
  | succ fuel ih =>
    cases itr with
    | none =>
      cases h
      rfl
    | some cmd =>
      simp only [sendBranches] at h
      simp only [allComeThrough]
      split at h
      · cases h
      · rename_i single
        cases h
        rw [← singleStartForward_shown single]
        rfl
      · rename_i single
        rw [← singleStartForward_shown single, single]
        split at h
        · cases h
        · rename_i next
          simp only [next, Option.isSome_some, Bool.true_and]
          exact ih h

/-! ## A whole context -/

theorem beginContext_req (w : State) (slot cmd : Nat) :
    (beginContext w slot cmd).reqs slot =
      if (w.reqs slot).fwdRepliesLeft = -1 then
        { w.reqs slot with
          ctx := (w.reqs slot).ctx.or (some w.nextCtx)
          fwdRepliesLeft := (fwdOpts (reqMem w slot) cmd).nAck
          fwdRepliesMask := 0
          fwdTimeout := toInt32 (fwdOpts (reqMem w slot) cmd).timeout
          fwdRetries := (fwdOpts (reqMem w slot) cmd).retries
          fwdOnFailSkip := (fwdOpts (reqMem w slot) cmd).onFailSkip }
      else { w.reqs slot with ctx := (w.reqs slot).ctx.or (some w.nextCtx) } :=
  setReq_self w slot _

/-- Beginning a context keeps who the request is and where its message lies. -/
theorem beginContext_resident (w : State) (slot cmd : Nat) :
    ((beginContext w slot cmd).reqs slot).connId = (w.reqs slot).connId ∧
      ((beginContext w slot cmd).reqs slot).reqId = (w.reqs slot).reqId ∧
      ((beginContext w slot cmd).reqs slot).messagePtr = (w.reqs slot).messagePtr ∧
      ((beginContext w slot cmd).reqs slot).currCmd = (w.reqs slot).currCmd := by
  rw [beginContext_req]
  split
  · exact ⟨rfl, rfl, rfl, rfl⟩
  · exact ⟨rfl, rfl, rfl, rfl⟩

theorem beginContext_reqMem (w : State) (slot cmd : Nat) :
    reqMem (beginContext w slot cmd) slot = reqMem w slot := by
  rw [reqMem, (beginContext_resident w slot cmd).1]
  rfl

theorem beginContext_inUse {w : State} {slot : Nat} (cmd : Nat) (used : InUse w slot) :
    InUse (beginContext w slot cmd) slot := by
  rw [InUse, (beginContext_resident w slot cmd).1]
  exact used

theorem reqMem_setMsgStatus (w : State) (slot m status : Nat) :
    reqMem (setMsgStatus w slot m status) slot = setStatus (reqMem w slot) m status := by
  simp [reqMem, setMsgStatus, State.setConn]

/-- The messages of `start_forward` go out, apart from those to branches it
takes for acknowledged. -/
def forwardSucceeds (w : State) (slot m cmd : Nat) : Bool :=
  sendsSucceed slot m (messageEnd (reqMem w slot) m + 1) (beginContext w slot cmd) (some cmd)

/-- All the messages of `start_forward` go out. -/
def forwardGoesOut (w : State) (slot m cmd : Nat) : Bool :=
  allGoOut slot m (messageEnd (reqMem w slot) m + 1) (beginContext w slot cmd) (some cmd)

/-- All branches of the context can be carried out. -/
def forwardComesThrough (w : State) (slot m cmd : Nat) : Bool :=
  allComeThrough slot m (messageEnd (reqMem (beginContext w slot cmd) slot) m + 1) (beginContext w slot cmd) (some cmd)

theorem startForward_through {w w' : State} {slot m cmd : Nat} {sent : Bool}
    (h : startForward w slot m cmd = .ok (w', sent)) : sent = forwardComesThrough w slot m cmd :=
  sendBranches_through h

/-- After `start_forward` the request is as its context began, and what has been
sent are the branches that were not acknowledged then. -/
theorem startForward_spec {w w' : State} {slot m cmd : Nat} {sent : Bool} (used : InUse w slot)
    (h : startForward w slot m cmd = .ok (w', sent)) :
    Sending (beginContext w slot cmd) w' ∧
      ∃ out, out <+: unsettled (reqMem w slot) ((beginContext w slot cmd).reqs slot)
          (messageEnd (reqMem w slot) m)
          (branches (reqMem w slot) (messageEnd (reqMem w slot) m) (some cmd)) ∧
        (forwardSucceeds w slot m cmd = true → SameSlots (beginContext w slot cmd) w' ∧
          out = unsettled (reqMem w slot) ((beginContext w slot cmd).reqs slot)
            (messageEnd (reqMem w slot) m)
            (branches (reqMem w slot) (messageEnd (reqMem w slot) m) (some cmd))) ∧
        forwards w' = (out.map (forwardOf (beginContext w slot cmd) slot)).reverse ++ forwards w := by
  have spec := sendBranches_spec (beginContext_inUse cmd used) h
  simp only [pendingFrom, beginContext_reqMem] at spec
  exact spec

theorem forwardSucceeds_of_sent {w w' : State} {slot m cmd : Nat} (used : InUse w slot)
    (h : startForward w slot m cmd = .ok (w', true)) : forwardSucceeds w slot m cmd = true := by
  have sent := sendsSucceed_of_sent (beginContext_inUse cmd used) h
  rwa [beginContext_reqMem] at sent

theorem acked_zero (id : Nat) : acked 0#32 id = false := by
  simp [acked]

/-- In a context that has just been initialised no branch is acknowledged. -/
theorem unsettled_clean {mem : Mem} {r : ReqInfo} (clean : r.fwdRepliesMask = 0) (msgEnd : Nat)
    (cmds : List Nat) : unsettled mem r msgEnd cmds = cmds := by
  refine List.filter_eq_self.mpr fun cmd _ => ?_
  simp only [settled, clean]
  split
  · simp [acked_zero]
  · rfl

/-- A context that is initialised at the current command can be sent to all its branches. -/
theorem sendable_begin {w : State} {slot m cmd : Nat} (used : InUse w slot)
    (current : (w.reqs slot).currCmd = some cmd) (begins : (cmdAt (reqMem w slot) cmd).isForward = true)
    (cleared : (w.reqs slot).fwdRepliesLeft = -1)
    (timeout : 0 ≤ toInt32 (fwdOpts (reqMem w slot) cmd).timeout) :
    Sendable (beginContext w slot cmd) slot m (messageEnd (reqMem w slot) m + 1) (some cmd) := by
  have here := beginContext_req w slot cmd
  rw [if_pos cleared] at here
  have clear : ∀ mem msgEnd branch,
      settled mem ((beginContext w slot cmd).reqs slot) msgEnd branch = false := by
    intro mem msgEnd branch
    simp only [settled, here]
    split
    · simp [acked_zero]
    · rfl
  have start : ∀ c, some cmd = some c → (cmdAt (reqMem w slot) c).isForward = true := by
    rintro c same
    cases same
    exact begins
  refine ⟨beginContext_inUse cmd used, by rw [here]; simp only [timeout], ?_, ?_, ?_⟩
  · rw [beginContext_reqMem]
    exact start
  · rw [beginContext_reqMem, (beginContext_resident w slot cmd).2.2.2, current]
    exact fun branch inside => branch_found 0 start inside
  · intro branch _ skipped
    rw [clear] at skipped
    cases skipped

/-- The messages of a context that is initialised at the current command go out. -/
theorem startForward_goesOut {w : State} {slot m cmd : Nat} (used : InUse w slot)
    (current : (w.reqs slot).currCmd = some cmd) (begins : (cmdAt (reqMem w slot) cmd).isForward = true)
    (cleared : (w.reqs slot).fwdRepliesLeft = -1)
    (timeout : 0 ≤ toInt32 (fwdOpts (reqMem w slot) cmd).timeout)
    (out : forwardGoesOut w slot m cmd = true) :
    ∃ w' sent, startForward w slot m cmd = .ok (w', sent) ∧ forwardSucceeds w slot m cmd = true := by
  obtain ⟨⟨w', sent, looped⟩, succeeds⟩ :=
    sendBranches_goesOut (sendable_begin used current begins cleared timeout) out
  refine ⟨w', sent, ?_, succeeds⟩
  simp only [startForward, beginContext_reqMem, looped]

end Forwarding
