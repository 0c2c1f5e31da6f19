import DistWalk.BufferLayout
import DistWalk.Forwarding
import DistWalk.Walkers

/-!
# Every function of the worker keeps the receive buffers laid out

One lemma for each function below the loop of `obtain_messages`, in the order of the
model. What transmits, polls or counts leaves the layout alone; the status of a
message, the release of a request and the end of a connection are the pieces of the
module before. The functions above them are followed once, for every relation that
these pieces keep.
-/

namespace LayoutSteps

open ByteMemory Message Connection Worker Timeout Node Requests Transitions ThreadedBlocks ReceiveQueue
  BufferLayout Forwarding Walkers

/-! ## Nothing of the requests moves -/

/-- The command at which a request stands, and its id. -/
def stance (r : ReqInfo) : Option Nat × Nat := (r.currCmd, r.reqId)

theorem stance_eq {r r' : ReqInfo} (h : stance r' = stance r) : r'.currCmd = r.currCmd ∧ r'.reqId = r.reqId := by
  simpa only [stance, Prod.mk.injEq] using h

/-- The layout is the same, and every request stands where it stood. -/
structure Still (w w' : State) : Prop extends Quiet w w' where
  stances : ∀ s, stance (w'.reqs s) = stance (w.reqs s)

section Still

variable {w w' : State}

theorem Still.refl (w : State) : Still w w := ⟨.refl w, fun _ => rfl⟩

theorem Still.trans {a b c : State} (h : Still a b) (h' : Still b c) : Still a c :=
  ⟨h.toQuiet.trans h'.toQuiet, fun s => (h'.stances s).trans (h.stances s)⟩

theorem Still.keeps (h : Still w w') : Keeps w w' := h.toQuiet.keeps

theorem still_aside (conns : w'.conns = w.conns) (reqs : w'.reqs = w.reqs)
    (flag : w'.enableDefrag = w.enableDefrag) (nextFd : w.nextFd ≤ w'.nextFd) : Still w w' :=
  ⟨quiet_aside conns reqs flag nextFd, fun s => by rw [reqs]⟩

theorem still_emit (w : State) (e : Effect) : Still w (w.emit e) := ⟨quiet_emit w e, fun _ => rfl⟩

theorem still_setConn (w : State) (c : Nat) {conn : ConnInfo} (side : inbox conn = inbox (w.conns c)) :
    Still w (w.setConn c conn) :=
  ⟨quiet_setConn w c side, fun _ => rfl⟩

theorem still_setReq (w : State) (slot : Nat) {r : ReqInfo} (same : place r = place (w.reqs slot))
    (kept : stance r = stance (w.reqs slot)) : Still w (w.setReq slot r) :=
  ⟨quiet_setReq w slot same, setReq_keeps stance w kept⟩

end Still

/-! ## System calls -/

theorem still_takeSend (w : State) (c : Nat) : Still w (takeSend w c).1 := by
  unfold takeSend
  split
  · exact .refl w
  · exact still_aside rfl rfl rfl (Nat.le_refl _)

theorem still_takeConnect (w : State) : Still w (takeConnect w).1 := by
  unfold takeConnect
  split
  · exact .refl w
  · exact still_aside rfl rfl rfl (Nat.le_refl _)

theorem still_takeSsl (w : State) : Still w (takeSsl w).1 := by
  unfold takeSsl
  split
  · exact .refl w
  · exact still_aside rfl rfl rfl (Nat.le_refl _)

theorem still_startSendOn (w : State) (c : Nat) (target : Addr) : Still w (startSendOn w c target).1 := by
  have side := sendBlind_inbox.connStartSend (w.conns c) target
  simp only [startSendOn]
  split
  · exact (still_setConn w c (side _)).trans (still_emit _ _)
  · refine (still_takeSend w c).trans (Still.trans (still_setConn _ c ?_) (still_emit _ _))
    rw [takeSend_conns]
    exact side _

theorem still_startSendfileOn {w w' : State} {c : Nat} {target : Addr} {fd size : Nat} {ret : Int}
    (h : startSendfileOn w c target fd size = .ok (w', ret)) : Still w w' := by
  have side := sendBlind_inbox.connStartSendfile (w.conns c) w.files target fd 0 size
  simp only [startSendfileOn] at h
  split at h
  · cases h
  · cases h
    split
    · exact (still_setConn w c (side _ _)).trans (still_emit _ _)
    · have taken : Still w (takeSendfile w).1 := still_aside rfl rfl rfl (Nat.le_refl _)
      exact taken.trans ((still_setConn (takeSendfile w).1 c (side _ _)).trans (still_emit _ _))

theorem still_transmitReply {w w' : State} {slot c : Nat} {opts : ReplyOpts} {ret : Int}
    (h : transmitReply w slot c opts = .ok (w', ret)) : Still w w' := by
  unfold transmitReply at h
  split at h
  · exact still_startSendfileOn h
  · have started := still_startSendOn w c (w.reqs slot).target
    rw [Except.ok.inj h] at started
    exact started

theorem still_pollMod {w w' : State} {c : Nat} {i o s : Bool} (h : pollMod w c i o s = .ok w') :
    Still w w' := by
  simp only [pollMod] at h
  split at h
  · cases h
  · cases h
    exact still_emit _ _

/-- Sending a reply touches one connection and no request. -/
theorem transmitReply_others {w w' : State} {slot c : Nat} {opts : ReplyOpts} {ret : Int}
    (h : transmitReply w slot c opts = .ok (w', ret)) :
    w'.reqs = w.reqs ∧ ∀ d, d ≠ c → w'.conns d = w.conns d := by
  have plain : ∀ target, (startSendOn w c target).1.reqs = w.reqs ∧
      ∀ d, d ≠ c → (startSendOn w c target).1.conns d = w.conns d := by
    intro target
    simp only [startSendOn]
    split
    · exact ⟨rfl, fun d other => by simp [State.emit, State.setConn, other]⟩
    · refine ⟨?_, fun d other => ?_⟩
      · change (takeSend w c).1.reqs = _
        unfold takeSend
        split <;> rfl
      · simp only [State.emit, State.setConn, Function.update_of_ne other, takeSend_conns]
  unfold transmitReply at h
  split at h
  · simp only [startSendfileOn] at h
    split at h
    · cases h
    · cases h
      split
      · exact ⟨rfl, fun d other => by simp [State.emit, State.setConn, other]⟩
      · exact ⟨rfl, fun d other => by simp [State.emit, State.setConn, other, takeSendfile]⟩
  · have started := plain (w.reqs slot).target
    rw [Except.ok.inj h] at started
    exact started

/-- The parts of `reply`. -/
theorem reply_cases {w w' : State} {slot m cmd : Nat} {ret : Int} (h : reply w slot m cmd = .ok (w', ret)) :
    ∃ v, Quiet w v ∧ v.reqs = w.reqs ∧ (∀ d, d ≠ (w.reqs slot).connId → v.conns d = w.conns d) ∧
      w' = { connReqRemove v (w.reqs slot).connId slot with activeReqs := v.activeReqs - 1 } := by
  simp only [Node.reply] at h
  split at h
  · cases h
  · obtain ⟨⟨v, r⟩, sent, paired⟩ := map_eq_ok.mp h
    cases paired
    have filled : Quiet w (w.setConn (w.reqs slot).connId
        (fillReply (connPrepareSendMessage (w.conns (w.reqs slot).connId)).1 (reqMem w slot) m
          (replyOpts (reqMem w slot) cmd) (connPrepareSendMessage (w.conns (w.reqs slot).connId)).2)) :=
      quiet_setConn w _ rfl
    obtain ⟨reqs, conns⟩ := transmitReply_others sent
    refine ⟨v, filled.trans (still_transmitReply sent).toQuiet, reqs, fun d other => ?_, rfl⟩
    rw [conns d other]
    simp [State.setConn, other]

theorem pollMod_tables {w w' : State} {c : Nat} {i o s : Bool} (h : pollMod w c i o s = .ok w') :
    w'.conns = w.conns ∧ w'.reqs = w.reqs := by
  simp only [pollMod] at h
  split at h
  · cases h
  · cases h
    exact ⟨rfl, rfl⟩

/-- The response is sent and the request removed; a response that could not be sent takes
the connection along. -/
theorem processReply_cases {w w' : State} {slot m cmd : Nat} {ret : Int}
    (h : processReply w slot m cmd = .ok (w', ret)) :
    ∃ v result, reply w slot m cmd = .ok (v, result) ∧
      ((ret = 1 ∧ w'.conns = v.conns ∧ w'.reqs = v.reqs) ∨
        ret = -1 ∧ closeAndForget v (v.conns (w.reqs slot).connId).sock = .ok w' ∧ result = 0 ∧
          (v.conns (w.reqs slot).connId).status ≠ .close ∧ (v.conns (w.reqs slot).connId).status ≠ .sending) := by
  simp only [processReply] at h
  split at h
  · cases h
  · rename_i v result replied
    refine ⟨v, result, replied, ?_⟩
    split at h
    · rename_i fails
      split at h
      · obtain ⟨u, e, paired⟩ := map_eq_ok.mp h
        cases paired
        exact Or.inl ⟨rfl, pollMod_tables e⟩
      · rename_i idle
        obtain ⟨u, closed, paired⟩ := map_eq_ok.mp h
        cases paired
        exact Or.inr ⟨rfl, closed, fails.2, fails.1, idle⟩
    · split at h
      · obtain ⟨u, e, paired⟩ := map_eq_ok.mp h
        cases paired
        exact Or.inl ⟨rfl, pollMod_tables e⟩
      · cases h
        exact Or.inl ⟨rfl, rfl, rfl⟩

/-! ## Timeouts -/

/-- A part of the state apart from the timers and the requests. -/
def Timeless {α : Type} (g : State → α) : Prop :=
  ∀ w reqs queue elapsed timer clock, g { w with
    reqs := reqs, timeoutQueue := queue, timeElapsed := elapsed, timer := timer, clock := clock } = g w

theorem Timeless.timerfdSettime {α : Type} {g : State → α} (hg : Timeless g) {w w' : State}
    {its : ItimerSpec} (h : timerfdSettime w its = .ok w') : g w' = g w := by
  simp only [Timeout.timerfdSettime] at h
  split at h
  · cases h
  · cases h
    exact hg w _ _ _ _ _

theorem Timeless.insertTimeout {α : Type} {g : State → α} (hg : Timeless g) {w w' : State} {reqId : Nat}
    {micros : Int} (h : insertTimeout w reqId micros = .ok w') : g w' = g w := by
  simp only [Timeout.insertTimeout] at h
  split at h
  · cases h
    rfl
  · split at h
    · cases h
      rfl
    · split at h
      · exact (hg.timerfdSettime h).trans (hg w _ _ _ _ _)
      · cases h
        exact hg w _ _ _ _ _

theorem Timeless.rearm {α : Type} {g : State → α} (hg : Timeless g) {w w' : State} {elapsed : Int}
    (h : rearm w elapsed = .ok w') : g w' = g w := by
  simp only [Timeout.rearm] at h
  split at h
  · exact (hg.timerfdSettime h).trans (hg w _ _ _ _ _)
  · exact (hg.timerfdSettime h).trans (hg w _ _ _ _ _)

theorem Timeless.removeTimeout {α : Type} {g : State → α} (hg : Timeless g) {w w' : State} {reqId : Nat}
    {left : Int} (h : removeTimeout w reqId = .ok (w', left)) : g w' = g w := by
  simp only [Timeout.removeTimeout] at h
  split at h
  · cases h
    rfl
  · split at h
    · cases h
      rfl
    · cases h
    · split at h
      · cases h
        exact hg w _ _ _ _ _
      · obtain ⟨v, again, paired⟩ := map_eq_ok.mp h
        cases paired
        exact (hg.rearm again).trans (hg w _ _ _ _ _)

theorem timeless_flags : Timeless fun w : State => (w.enableDefrag, w.nextFd) :=
  fun _ _ _ _ _ _ => rfl

theorem still_retimed {w w' : State} (h : Retimed w w')
    (flags : (w'.enableDefrag, w'.nextFd) = (w.enableDefrag, w.nextFd)) : Still w w' := by
  simp only [Prod.mk.injEq] at flags
  refine ⟨⟨fun c => by rw [h.conns], fun s => ?_, flags.1, Nat.le_of_eq flags.2.symm⟩, fun s => ?_⟩
  · obtain ⟨node, e⟩ := h.reqs s
    rw [e]
    rfl
  · obtain ⟨node, e⟩ := h.reqs s
    rw [e]
    rfl

theorem still_insertTimeout {w w' : State} {reqId : Nat} {micros : Int}
    (h : insertTimeout w reqId micros = .ok w') : Still w w' :=
  still_retimed (insertTimeout_retimed h) (timeless_flags.insertTimeout h)

theorem still_removeTimeout {w w' : State} {reqId : Nat} {left : Int}
    (h : removeTimeout w reqId = .ok (w', left)) : Still w w' :=
  still_retimed (removeTimeout_retimed h) (timeless_flags.removeTimeout h)

theorem still_timerfdSettime {w w' : State} {its : ItimerSpec} (h : timerfdSettime w its = .ok w') :
    Still w w' := by
  simp only [timerfdSettime] at h
  split at h
  · cases h
  · cases h
    exact still_aside rfl rfl rfl (Nat.le_refl _)

/-! ## Forwarding -/

theorem still_connEnableSsl (w : State) (c : Nat) : Still w (connEnableSsl w c).1 := by
  have taken := still_takeSsl w
  unfold connEnableSsl
  split
  · rename_i e
    rwa [e] at taken
  · rename_i e
    rw [e] at taken
    exact taken.trans (still_setConn _ c rfl)

/-- A connection that is given up when TLS cannot be set up has no request. -/
theorem keeps_connectForward {w : State} {c : Nat} (sock : Nat) (proto : Proto)
    (opened : (w.conns c).sock ≠ none) (empty : (w.conns c).reqList = none) :
    Keeps w (connectForward w c sock proto).1 := by
  have enabled : Still w (if proto = .tls then connEnableSsl (w.emit (.pollAdd sock c)) c
      else (w.emit (.pollAdd sock c), true)).1 := by
    split
    · exact (still_emit _ _).trans (still_connEnableSsl _ c)
    · exact still_emit _ _
  simp only [connectForward]
  split
  · rename_i v e
    rw [e] at enabled
    have same := inbox_eq (enabled.conns c)
    refine Keeps.trans enabled.keeps (Keeps.trans (keeps_emit v (.closed (some sock))) (keeps_connFree ?_ ?_))
    · change (v.conns c).sock ≠ none
      rw [same.2.2.2.2.2.2.1]
      exact opened
    · change (v.conns c).reqList = none
      rw [same.2.2.2.2.1]
      exact empty
  · rename_i v e
    rw [e] at enabled
    have taken := still_takeConnect v
    refine Still.keeps (enabled.trans ?_)
    cases result : takeConnect v with
    | mk u answer =>
      rw [result] at taken
      have settled : ∀ status, Still v (u.setConn c { u.conns c with status := status }) :=
        fun _ => taken.trans (still_setConn u c rfl)
      cases answer with
      | failed => exact taken
      | inProgress => exact settled _
      | done =>
        simp only
        split
        · exact settled _
        · exact (settled .ready).trans (still_aside rfl rfl rfl (Nat.le_refl _))

theorem forwardConn_flag (w : State) (fwd : FwdOpts) :
    (forwardConn w fwd).1.enableDefrag = w.enableDefrag := by
  have ssl : ∀ (v : State) (c : Nat), (connEnableSsl v c).1.enableDefrag = v.enableDefrag :=
    fun v c => (still_connEnableSsl v c).flag
  have connect : ∀ v : State, (takeConnect v).1.enableDefrag = v.enableDefrag :=
    fun v => (still_takeConnect v).flag
  have connected : ∀ (v : State) (c sock : Nat) (proto : Proto),
      (connectForward v c sock proto).1.enableDefrag = v.enableDefrag := by
    intro v c sock proto
    have enabled : (if proto = .tls then connEnableSsl (v.emit (.pollAdd sock c)) c
        else (v.emit (.pollAdd sock c), true)).1.enableDefrag = v.enableDefrag := by
      split
      · exact ssl _ c
      · rfl
    simp only [connectForward]
    split
    · rename_i e
      rw [e] at enabled
      exact (tableless_enableDefrag.connResetFrom _ _ _).trans enabled
    · rename_i u e
      rw [e] at enabled
      have after := (connect u).trans enabled
      cases result : takeConnect u with
      | mk x answer =>
        rw [result] at after
        cases answer with
        | failed => exact after
        | inProgress => exact after
        | done =>
          simp only
          split <;> exact after
  have allocated : (allocForward w fwd).1.enableDefrag = w.enableDefrag := by
    simp only [allocForward, connAlloc]
    split
    · rename_i e
      split at e <;> cases e
      rfl
    · rename_i e
      split at e <;> cases e
      rfl
  unfold forwardConn
  split
  · rfl
  · split
    · rename_i e
      rw [e] at allocated
      exact allocated
    · rename_i e
      rw [e] at allocated
      split
      · exact (connected _ _ _ _).trans allocated
      · exact allocated

theorem keeps_forwardConn (w : State) (fwd : FwdOpts) : Keeps w (forwardConn w fwd).1 := by
  refine Keeps.given (forwardConn_flag w fwd) fun laid => ?_
  unfold forwardConn
  split
  · exact .refl w
  · cases alloc : allocForward w fwd with
    | mk w' slot =>
      cases claimed : connAlloc { w with nextFd := w.nextFd + 1 } w.nextFd fwd.fwdAddr fwd.proto with
      | mk v found =>
        simp only [allocForward, claimed] at alloc
        cases found with
        | none =>
          cases alloc
          have unchanged : v = { w with nextFd := w.nextFd + 1 } := by
            simp only [connAlloc] at claimed
            split at claimed
            · cases claimed
              rfl
            · cases claimed
          subst unchanged
          exact Still.keeps (still_aside rfl rfl rfl (Nat.le_succ _))
        | some c =>
          cases alloc
          obtain ⟨free, rfl⟩ := connAlloc_claims claimed
          have fresh : Fresh w c { (w.conns c).claim w.nextFd fwd.fwdAddr fwd.proto w.thread with
              enableDefrag := w.enableDefrag } := ⟨rfl, rfl, rfl, rfl, rfl, rfl, rfl⟩
          have table : ((State.setConn { w with nextFd := w.nextFd + 1 } c
              ((w.conns c).claim w.nextFd fwd.fwdAddr fwd.proto w.thread)).setConn c
              { (w.conns c).claim w.nextFd fwd.fwdAddr fwd.proto w.thread with
                enableDefrag := w.enableDefrag }).conns =
              Function.update w.conns c { (w.conns c).claim w.nextFd fwd.fwdAddr fwd.proto w.thread with
                enableDefrag := w.enableDefrag } := by
            simp [State.setConn]
          have same : (State.setConn { w with nextFd := w.nextFd + 1 } c
              ((w.conns c).claim w.nextFd fwd.fwdAddr fwd.proto w.thread)).conns c =
              (w.conns c).claim w.nextFd fwd.fwdAddr fwd.proto w.thread := by
            simp [State.setConn]
          simp only [same]
          have unused : (w.conns c).busy = false := free
          have opened := keeps_claim (connAlloc_range claimed) unused fresh table rfl rfl rfl
          split
          · refine opened.trans (keeps_connectForward _ _ ?_ ?_)
            · rw [table, Function.update_self]
              exact Option.some_ne_none _
            · rw [table, Function.update_self]
              exact laid.free c free
          · exact opened

/-- A new connection never takes a slot in use. -/
theorem forwardConn_used {w : State} (fwd : FwdOpts) {d : Nat} (used : (w.conns d).busy = true) :
    (forwardConn w fwd).1.conns d = w.conns d := by
  unfold forwardConn
  split
  · rfl
  · cases alloc : allocForward w fwd with
    | mk w' slot =>
      cases slot with
      | none =>
        simp only [allocForward] at alloc
        split at alloc
        · rename_i e
          simp only [connAlloc] at e
          split at e
          · cases e
            cases alloc
            rfl
          · cases e
        · cases alloc
      | some c =>
        have spec := (allocForward_spec w fwd).2
        rw [alloc] at spec
        rcases spec with ⟨none, -⟩ | ⟨c', same, free, opened⟩
        · cases none
        · cases same
          have other : d ≠ c := by
            rintro rfl
            rw [free] at used
            cases used
          simp only
          split
          · have connected := (opening_connectForward w' c w.nextFd fwd.proto).1
            rw [connected.used d other, opened.used d other]
          · rw [opened.used d other]

theorem still_sendForward {w w' : State} {slot m cmd c : Nat} {fwd : FwdOpts} {ret : Option Nat}
    (h : sendForward w slot m cmd c fwd = .ok (w', ret)) : Still w w' := by
  have filled : Still w (w.setConn c (fillForward (connPrepareSendMessage (w.conns c)).1 (reqMem w slot) m cmd
      (w.reqs slot).reqId (connPrepareSendMessage (w.conns c)).2 fwd).1) := by
    refine still_setConn w c ?_
    simp only [fillForward]
    split <;> rfl
  simp only [sendForward] at h
  split at h
  · cases h
  · split at h
    · cases h
    · split at h
      · cases h
        exact filled
      · have sent := (filled.trans (still_startSendOn _ c fwd.fwdAddr)).trans (still_emit _
          (.forwarded (w.reqs slot).reqId fwd.fwdAddr (w.reqs slot).ctx))
        split at h
        · cases h
          exact sent
        · split at h
          · obtain ⟨v, inserted, paired⟩ := map_eq_ok.mp h
            cases paired
            exact sent.trans (still_insertTimeout inserted)
          · cases h
            exact sent

theorem still_activeReqs (w : State) (n : Int) : Still w { w with activeReqs := n } :=
  still_aside rfl rfl rfl (Nat.le_refl _)

theorem still_beginContext (w : State) (slot cmd : Nat) : Still w (beginContext w slot cmd) := by
  refine Still.trans (still_setReq w slot ?_ ?_) (still_aside rfl rfl rfl (Nat.le_refl _))
  · split <;> rfl
  · split <;> rfl

theorem still_countReply (w : State) (slot id : Nat) : Still w (countReply w slot id) :=
  still_setReq w slot rfl rfl

/-! ## Relations that the calls keep -/

/-- A relation between the states before and after, kept by the calls that touch the
receive buffers and by all that leave them alone. -/
structure Conduct (R : State → State → Prop) : Prop where
  trans : ∀ {a b c : State}, R a b → R b c → R a c
  quiet : ∀ {w w' : State}, Quiet w w' → R w w'
  forwardConn : ∀ (w : State) (fwd : FwdOpts), R w (forwardConn w fwd).1
  setMsgStatus : ∀ (w : State) (slot m status : Nat), (w.reqs slot).messagePtr = some m →
    R w (setMsgStatus w slot m status)
  connReqRemove : ∀ (w : State) (slot m : Nat), (w.reqs slot).messagePtr = some m →
    R w (connReqRemove w (w.reqs slot).connId slot)
  closeAndForget : ∀ {w w' : State} {sock : Option Nat}, closeAndForget w sock = .ok w' → R w w'

theorem conduct_keeps : Conduct Keeps where
  trans := Keeps.trans
  quiet := Quiet.keeps
  forwardConn := keeps_forwardConn
  setMsgStatus := fun _ _ _ status placed => keeps_setMsgStatus status placed
  connReqRemove := fun _ _ _ placed => keeps_connReqRemove placed
  closeAndForget := keeps_closeAndForget

/-- `cmd` is the command where the request in `slot` stands, or a later one, or none. -/
def Further (w : State) (slot : Nat) (cmd : Option Nat) : Prop :=
  ∀ d, cmd = some d → ∃ c, (w.reqs slot).currCmd = some c ∧ c ≤ d

/-- As `Conduct`, of relations that may tell where the requests stand. -/
structure Passage (R : State → State → Prop) : Prop where
  trans : ∀ {a b c : State}, R a b → R b c → R a c
  still : ∀ {w w' : State}, Still w w' → R w w'
  forwardConn : ∀ (w : State) (fwd : FwdOpts), R w (forwardConn w fwd).1
  setMsgStatus : ∀ (w : State) (slot m status : Nat), (w.reqs slot).messagePtr = some m →
    R w (setMsgStatus w slot m status)
  connReqRemove : ∀ (w : State) (slot m : Nat), (w.reqs slot).messagePtr = some m →
    R w (connReqRemove w (w.reqs slot).connId slot)
  closeAndForget : ∀ {w w' : State} {sock : Option Nat}, closeAndForget w sock = .ok w' → R w w'

/-- Also where a request moves on in its message. -/
structure Course (R : State → State → Prop) : Prop extends Passage R where
  advance : ∀ (w : State) (slot : Nat) (r : ReqInfo), place r = place (w.reqs slot) →
    r.reqId = (w.reqs slot).reqId → Further w slot r.currCmd → R w (w.setReq slot r)

theorem Further.skip {mem : Mem} {msgEnd slot : Nat} {w : State} {cmd : Option Nat} (h : Further w slot cmd)
    (toSkip : Int) : Further w slot (cmdBoundedSkip mem cmd toSkip msgEnd) := by
  intro d e
  cases cmd with
  | none => cases e
  | some c =>
    obtain ⟨current, at_, le⟩ := h c rfl
    exact ⟨current, at_, Nat.le_trans le (cmdBoundedSkip_le e)⟩

theorem Further.next {mem : Mem} {msgEnd slot c : Nat} {w : State} (h : Further w slot (some c)) :
    Further w slot (cmdBoundedNext mem c msgEnd) := by
  intro d e
  obtain ⟨current, at_, le⟩ := h c rfl
  exact ⟨current, at_, Nat.le_trans le (cmdBoundedNext_lt e).le⟩

theorem further_currCmd (w : State) (slot : Nat) : Further w slot (w.reqs slot).currCmd :=
  fun d e => ⟨d, e, Nat.le_refl d⟩

theorem Still.further {w w' : State} (h : Still w w') {slot : Nat} {cmd : Option Nat} (from_ : Further w slot cmd) :
    Further w' slot cmd := by
  intro d e
  rw [(stance_eq (h.stances slot)).1]
  exact from_ d e

theorem seekReply_found {mem : Mem} {msgEnd fuel itr : Nat} {cmd : Option Nat}
    (h : seekReply mem msgEnd fuel cmd = some itr) :
    (cmdAt mem itr = .eom ∨ cmdAt mem itr = .reply) ∧ ∀ c, cmd = some c → c ≤ itr := by
  induction fuel generalizing cmd with
  | zero => cases h
  | succ fuel ih =>
    cases cmd with
    | none => cases h
    | some c =>
      simp only [seekReply] at h
      split at h
      · rename_i stops
        cases h
        exact ⟨stops, fun c' e => by cases e; exact Nat.le_refl _⟩
      · obtain ⟨stops, later⟩ := ih h
        refine ⟨stops, fun c' e => ?_⟩
        cases e
        cases next : cmdBoundedSkip mem (some c) 1 msgEnd with
        | none =>
          rw [next] at h
          cases fuel <;> cases h
        | some d => exact Nat.le_trans (cmdBoundedSkip_le next) (later d next)

theorem Conduct.course {R : State → State → Prop} (k : Conduct R) : Course R where
  trans := k.trans
  still := fun still => k.quiet still.toQuiet
  advance := fun w slot _ same _ _ => k.quiet (quiet_setReq w slot same)
  forwardConn := k.forwardConn
  setMsgStatus := k.setMsgStatus
  connReqRemove := k.connReqRemove
  closeAndForget := k.closeAndForget

theorem course_keeps : Course Keeps := conduct_keeps.course

section Passage

variable {R : State → State → Prop} (k : Passage R)

include k

theorem Passage.refl (w : State) : R w w := k.still (.refl w)

theorem Passage.singleStartForward {w w' : State} {slot m cmd : Nat} {ret : Option Nat}
    (h : singleStartForward w slot m cmd = .ok (w', ret)) : R w w' := by
  simp only [Node.singleStartForward] at h
  split at h
  · cases h
  · cases h
    exact k.refl w
  · split at h
    · rw [skipAcked_state h]
      exact k.refl w
    · have reached := k.forwardConn w (fwdOpts (reqMem w slot) cmd)
      split at h
      · rename_i e
        rw [e] at reached
        cases h
        exact reached
      · rename_i e
        rw [e] at reached
        exact k.trans reached (k.still (still_sendForward h))

theorem Passage.sendBranches {slot m fuel : Nat} {w w' : State} {itr : Option Nat} {ret : Bool}
    (h : sendBranches slot m fuel w itr = .ok (w', ret)) : R w w' := by
  induction fuel generalizing w itr with
  | zero =>
    cases h
    exact k.refl _
  | succ fuel ih =>
    cases itr with
    | none =>
      cases h
      exact k.refl _
    | some cmd =>
      simp only [Node.sendBranches] at h
      split at h
      · cases h
      · rename_i sent
        cases h
        exact k.singleStartForward sent
      · rename_i sent
        split at h
        · cases h
        · exact k.trans (k.singleStartForward sent) (ih h)

theorem Passage.startForward {w w' : State} {slot m cmd : Nat} {ret : Bool}
    (h : startForward w slot m cmd = .ok (w', ret)) : R w w' :=
  k.trans (k.still (still_beginContext w slot cmd)) (k.sendBranches h)

/-! ## Execution of a request -/

theorem Passage.reply {w w' : State} {slot m cmd : Nat} {ret : Int}
    (placed : (w.reqs slot).messagePtr = some m) (h : reply w slot m cmd = .ok (w', ret)) : R w w' := by
  simp only [Node.reply] at h
  split at h
  · cases h
  · obtain ⟨⟨v, r⟩, sent, paired⟩ := map_eq_ok.mp h
    cases paired
    have filled : Still w (w.setConn (w.reqs slot).connId
        (fillReply (connPrepareSendMessage (w.conns (w.reqs slot).connId)).1 (reqMem w slot) m
          (replyOpts (reqMem w slot) cmd) (connPrepareSendMessage (w.conns (w.reqs slot).connId)).2)) :=
      still_setConn w _ rfl
    have transmitted := filled.trans (still_transmitReply sent)
    have same := place_eq (transmitted.reqs slot)
    have removed := k.connReqRemove v slot m (same.2.1.trans placed)
    rw [same.1] at removed
    exact k.trans (k.still transmitted) (k.trans removed (k.still (still_activeReqs _ _)))

theorem Passage.processReply {w w' : State} {slot m cmd : Nat} {ret : Int}
    (placed : (w.reqs slot).messagePtr = some m) (h : processReply w slot m cmd = .ok (w', ret)) :
    R w w' := by
  simp only [Node.processReply] at h
  split at h
  · cases h
  · rename_i replied
    have done := k.reply placed replied
    split at h
    · split at h
      · obtain ⟨v, polled, paired⟩ := map_eq_ok.mp h
        cases paired
        exact k.trans done (k.still (still_pollMod polled))
      · obtain ⟨v, closed, paired⟩ := map_eq_ok.mp h
        cases paired
        exact k.trans done (k.closeAndForget closed)
    · split at h
      · obtain ⟨v, polled, paired⟩ := map_eq_ok.mp h
        cases paired
        exact k.trans done (k.still (still_pollMod polled))
      · cases h
        exact done

theorem Passage.processForward {w w' : State} {slot m cmd : Nat} {ret : Int}
    (h : processForward w slot m cmd = .ok (w', ret)) : R w w' := by
  obtain ⟨⟨v, sent⟩, started, paired⟩ := map_eq_ok.mp h
  cases paired
  exact k.startForward started

end Passage

/-! ## The walks of the error path -/

/-- Failing one request is within the relation. -/
def Fails (R : State → State → Prop) : Prop :=
  ∀ {w w' : State} {c slot m cmd : Nat}, (w.reqs slot).messagePtr = some m →
    (w.reqs slot).currCmd = some cmd → failRequest w c slot m cmd = .ok w' → R w w'

section Walks

variable {R : State → State → Prop} (k : Passage R) (fail : Fails R)

include k fail

theorem Passage.failWaiting {target : Addr} {c fuel : Nat} {w w' : State} {slot : Option Nat}
    (h : failWaiting target c fuel w slot = .ok w') : R w w' := by
  induction fuel generalizing slot with
  | zero =>
    cases h
    exact k.refl _
  | succ fuel ih =>
    cases slot with
    | none =>
      cases h
      exact k.refl _
    | some slot =>
      simp only [Node.failWaiting] at h
      split at h
      · cases h
      · split at h
        · split at h
          · cases h
            exact k.refl _
          · split at h
            · cases h
            · rename_i current _ _ _ _ placed
              exact fail placed current h
        · split at h
          · cases h
            exact k.refl _
          · exact ih h

theorem Passage.failPending {target : Addr} {fuel i : Nat} {w w' : State}
    (h : failPending target fuel i w = .ok w') : R w w' := by
  induction fuel generalizing i w with
  | zero =>
    cases h
    exact k.refl _
  | succ fuel ih =>
    simp only [Node.failPending] at h
    split at h
    · exact ih h
    · split at h
      · cases h
      · rename_i failed
        exact k.trans (k.failWaiting fail failed) (ih h)

theorem Passage.closeFailed {w w' : State} {c : Nat} (h : closeFailed w c = .ok w') : R w w' := by
  have counted : Still w (if (w.conns c).proto = .tcp ∧ (w.conns c).status = .ready then
      { w with activeConns := w.activeConns - 1 } else w) := by
    split
    · exact still_aside rfl rfl rfl (Nat.le_refl _)
    · exact .refl w
  simp only [Node.closeFailed] at h
  split at h
  · cases h
  · rename_i closed
    exact k.trans (k.still counted) (k.trans (k.closeAndForget closed) (k.failPending fail h))

end Walks

section Course

variable {R : State → State → Prop} (k : Course R)

include k

theorem Course.setCurrCmd {w : State} {slot : Nat} {cmd : Option Nat} (further : Further w slot cmd) :
    R w (setCurrCmd w slot cmd) :=
  k.advance w slot _ rfl rfl further

theorem Course.processFrom {mem : Mem} {slot m fuel : Nat} {w w' : State} {cmd : Option Nat} {ret : Int}
    (placed : (w.reqs slot).messagePtr = some m) (further : Further w slot cmd)
    (h : processFrom mem slot m fuel w cmd = .ok (w', ret)) : R w w' := by
  induction fuel generalizing w cmd with
  | zero =>
    cases h
    exact k.refl _
  | succ fuel ih =>
    cases cmd with
    | none =>
      cases h
      exact k.refl _
    | some cmd =>
      cases type : cmdAt mem cmd with
      | eom =>
        simp only [Node.processFrom, type] at h
        cases h
        exact k.refl _
      | compute =>
        simp only [Node.processFrom, type] at h
        exact k.trans (k.still (still_emit w _)) (ih placed (further.skip 1) h)
      | forwardBegin =>
        simp only [Node.processFrom, type] at h
        exact k.trans (k.setCurrCmd further) (k.processForward h)
      | forwardContinue =>
        simp only [Node.processFrom, type] at h
        exact k.processForward h
      | reply =>
        simp only [Node.processFrom, type] at h
        exact k.processReply placed h
      | store =>
        simp only [Node.processFrom, type] at h
        split at h
        · cases h
          exact k.refl _
        · split at h
          · exact k.trans (k.still (still_emit w _)) (ih placed (further.skip 1) h)
          · cases h
            exact k.trans (k.still (still_emit w _)) (k.setCurrCmd further.next)
      | load =>
        simp only [Node.processFrom, type] at h
        split at h
        · cases h
          exact k.refl _
        · cases h
          exact k.trans (k.still (still_emit w _)) (k.setCurrCmd further.next)
      | pskip =>
        simp only [Node.processFrom, type] at h
        cases h
        exact k.refl _
      | unknown code =>
        simp only [Node.processFrom, type] at h
        cases h
        exact k.refl _

theorem Course.processSingleMessage {w w' : State} {slot : Nat} {ret : Int}
    (h : processSingleMessage w slot = .ok (w', ret)) : R w w' := by
  simp only [Node.processSingleMessage] at h
  split at h
  · cases h
  · rename_i placed
    exact k.processFrom placed (further_currCmd w slot) h

/-! ## Replies to forwards and timeouts -/

theorem Course.completeContext {w : State} {slot m : Nat} (status : Nat)
    (placed : (w.reqs slot).messagePtr = some m) : R w (completeContext w slot m status) := by
  refine k.trans (k.setMsgStatus w slot m status placed) (k.advance _ slot _ rfl rfl ?_)
  exact (further_currCmd _ slot).skip 1

theorem Course.handleForwardReply {w w' : State} {reqId status : Nat} {matchAddr : Addr} {ret : Int}
    (h : handleForwardReply w reqId status matchAddr = .ok (w', ret)) : R w w' := by
  simp only [Node.handleForwardReply] at h
  split at h
  · cases h
    exact k.refl _
  · rename_i slot found
    split at h
    · cases h
    · rename_i m placed
      split at h
      · cases h
      · cases h
        exact k.refl _
      · rename_i id search
        split at h
        · cases h
          exact k.refl _
        · have counted := still_countReply w slot id
          have placed' : ((countReply w slot id).reqs slot).messagePtr = some m :=
            (place_eq (counted.reqs slot)).2.1.trans placed
          split at h
          · simp only [resumeAfterContext] at h
            split at h
            · cases h
            · rename_i removed
              exact k.trans (k.still counted) (k.trans (k.completeContext status placed')
                (k.trans (k.still (still_removeTimeout removed)) (k.processSingleMessage h)))
          · cases h
            exact k.still counted

theorem Course.skipOnFailure {w : State} {slot m : Nat} (placed : (w.reqs slot).messagePtr = some m) :
    R w (skipOnFailure w slot m) := by
  have moved := k.advance w slot { w.reqs slot with
    currCmd := cmdBoundedSkip (reqMem w slot) (w.reqs slot).currCmd (w.reqs slot).fwdOnFailSkip
      (messageEnd (reqMem w slot) m)
    ctx := none } rfl rfl ((further_currCmd w slot).skip _)
  refine k.trans moved (k.setMsgStatus _ slot m statusTimeout ?_)
  rw [setReq_self]
  exact placed

theorem Course.expireRequest {w w' : State} {slot : Nat} (h : expireRequest w slot = .ok w') :
    R w w' := by
  simp only [Node.expireRequest] at h
  split at h
  · obtain ⟨⟨v, r⟩, done, paired⟩ := map_eq_ok.mp h
    cases paired
    have used : Still w (w.setReq slot { w.reqs slot with fwdRetries := (w.reqs slot).fwdRetries - 1 }) :=
      still_setReq w slot rfl rfl
    exact k.trans (k.still used) (k.processSingleMessage done)
  · split at h
    · cases h
    · rename_i m placed
      split at h
      · obtain ⟨⟨v, r⟩, done, paired⟩ := map_eq_ok.mp h
        cases paired
        exact k.trans (k.skipOnFailure placed) (k.processSingleMessage done)
      · cases h
        have removed := k.connReqRemove (Node.setMsgStatus w slot m statusTimeout) slot m placed
        exact k.trans (k.setMsgStatus w slot m statusTimeout placed)
          (k.trans removed (k.still (still_activeReqs _ _)))

theorem Course.handleTimeout {w w' : State} (h : handleTimeout w = .ok w') : R w w' := by
  simp only [Node.handleTimeout] at h
  split at h
  · exact k.still (still_timerfdSettime h)
  · split at h
    · exact k.still (still_timerfdSettime h)
    · split at h
      · cases h
      · rename_i removed
        exact k.trans (k.still (still_removeTimeout removed)) (k.expireRequest h)

/-! ## The error path -/

theorem Course.failRequest {w w' : State} {c slot m cmd : Nat}
    (placed : (w.reqs slot).messagePtr = some m) (current : (w.reqs slot).currCmd = some cmd)
    (h : failRequest w c slot m cmd = .ok w') : R w w' := by
  simp only [Node.failRequest] at h
  split at h
  · cases h
  · rename_i v left removed
    have timed := still_removeTimeout removed
    refine k.trans (k.still timed) ?_
    split at h
    · exact k.closeAndForget h
    · rename_i itr found
      split at h
      · exact k.closeAndForget h
      · obtain ⟨⟨u, r⟩, done, paired⟩ := map_eq_ok.mp h
        cases paired
        have further : Further v slot (some itr) := by
          intro d e
          cases e
          exact ⟨cmd, (stance_eq (timed.stances slot)).1.trans current, (seekReply_found found).2 cmd rfl⟩
        have placed' : ((Node.setCurrCmd v slot (some itr)).reqs slot).messagePtr = some m := by
          rw [Node.setCurrCmd, setReq_self]
          exact (place_eq (timed.reqs slot)).2.1.trans placed
        exact k.trans (k.setCurrCmd further) (k.trans (k.setMsgStatus _ slot m statusErr placed')
          (k.processSingleMessage done))

theorem Course.fails : Fails R := fun placed current h => k.failRequest placed current h

theorem Course.closeFailed {w w' : State} {c : Nat} (h : closeFailed w c = .ok w') : R w w' :=
  k.toPassage.closeFailed k.fails h

theorem Course.storageAck {w w' : State} {reqId : Nat} (h : storageAck w reqId = .ok w') : R w w' := by
  simp only [Node.storageAck] at h
  split at h
  · cases h
    exact k.refl _
  · obtain ⟨⟨v, r⟩, done, paired⟩ := map_eq_ok.mp h
    cases paired
    exact k.processSingleMessage done

end Course

/-! ## Events -/

theorem still_establishPhase {w w' : State} {c : Nat} {type : EventType} {r : Readiness} {ok : Bool}
    (h : establishPhase w c type r = .ok (w', ok)) : Still w w' := by
  have ready : Still w (w.setConn c { w.conns c with status := .ready }) := still_setConn w c rfl
  simp only [establishPhase] at h
  split at h
  · split at h
    · cases h
      exact .refl _
    · obtain ⟨v, polled, paired⟩ := map_eq_ok.mp h
      cases paired
      exact (ready.trans (still_pollMod polled)).trans (still_aside rfl rfl rfl (Nat.le_refl _))
  · cases h
    exact .refl _

theorem keeps_recvPhase (w : State) (c : Nat) (r : Readiness) : Keeps w (recvPhase w c r).1 := by
  have unchanged : Keeps w (w.setConn c (w.conns c)) := Still.keeps (still_setConn w c rfl)
  simp only [recvPhase]
  split
  · simp only [connRecv]
    split
    · exact unchanged
    · cases r.recv with
      | bytes data source =>
        simp only
        split
        · exact unchanged
        · generalize named : (if (w.conns c).useSsl = true then w.conns c
            else { w.conns c with target := source.getD (w.conns c).target }) = conn
          have side : inbox conn = inbox (w.conns c) := by
            rw [← named]
            split <;> rfl
          have filled := keeps_fill (w := w.setConn c conn) (c := c) data
          have same : (w.setConn c conn).conns c = conn := by simp [State.setConn]
          have stored : (w.setConn c conn).setConn c (takeBytes conn data) = w.setConn c (takeBytes conn data) := by
            simp [State.setConn]
          rw [same, stored] at filled
          exact (still_setConn w c side).keeps.trans filled
      | wouldBlock => exact unchanged
      | closed => exact unchanged
      | failed => exact unchanged
  · exact .refl w

theorem still_flushPhase {w w' : State} {c : Nat} {r : Readiness} {ok : Bool}
    (h : flushPhase w c r = .ok (w', ok)) : Still w w' := by
  have side := sendBlind_inbox.connFlush (w.conns c) w.files r.flushHeader r.flush
  simp only [flushPhase] at h
  split at h
  · split at h
    · cases h
    · have sent := (still_setConn w c side).trans (still_emit _
        (.wire c (connFlush w.files (w.conns c) r.flushHeader r.flush).2.2))
      split at h
      · cases h
        exact sent
      · split at h
        · obtain ⟨v, polled, paired⟩ := map_eq_ok.mp h
          cases paired
          exact sent.trans (still_pollMod polled)
        · obtain ⟨v, polled, paired⟩ := map_eq_ok.mp h
          cases paired
          exact sent.trans (still_pollMod polled)
  · cases h
    exact .refl _

/-- Closing a socket leaves everything but the tables as it is. -/
theorem closeAndForget_flags {w w' : State} {sock : Option Nat} (h : closeAndForget w sock = .ok w') :
    w'.enableDefrag = w.enableDefrag ∧ w'.nextFd = w.nextFd := by
  simp only [closeAndForget] at h
  split at h
  · cases h
  · rename_i closed
    cases h
    simp only [connDelSock] at closed
    split at closed
    · cases closed
    · cases closed
      exact ⟨rfl, rfl⟩
    · cases closed
      exact ⟨tableless_enableDefrag.connResetFrom _ _ _, tableless_nextFd.connResetFrom _ _ _⟩

/-- A new connection whose TLS cannot be set up is closed and freed. -/
theorem keeps_refusedTls {w v v' : State} {c sock : Nat} {conn : ConnInfo} (free : (w.conns c).busy = false)
    (empty : (w.conns c).reqList = none) (list : conn.reqList = (w.conns c).reqList)
    (reqs : v.reqs = w.reqs) (conns : v.conns = Function.update w.conns c conn)
    (own : ∀ d, (v.conns d).sock = some sock → d = c)
    (flag : v.enableDefrag = w.enableDefrag) (nextFd : w.nextFd ≤ v.nextFd)
    (h : closeAndForget v (some sock) = .ok v') : Keeps w (connFree v' c) := by
  have here : v.conns c = conn := by rw [conns, Function.update_self]
  have others : ∀ d, d ≠ c → v.conns d = w.conns d := fun d other => by
    rw [conns, Function.update_of_ne other]
  have closed : v'.reqs = v.reqs ∧ (∀ d, d ≠ c → v'.conns d = v.conns d) ∧
      (v'.conns c).reqList = none := by
    have still : (v.conns c).reqList = none := by rw [here, list, empty]
    simp only [closeAndForget, connDelSock, connFindSock] at h
    cases found : findIndex (fun i => decide (((v.emit (.pollDel (some sock))).conns i).sock = some sock))
        maxConns 0 with
    | none =>
      simp only [found] at h
      cases h
      exact ⟨rfl, fun _ _ => rfl, still⟩
    | some d =>
      simp only [found] at h
      cases h
      have at_ : ((v.emit (.pollDel (some sock))).conns d).sock = some sock := by
        simpa using findIndex_holds found
      have same := own d at_
      subst same
      have emptied : connReset (v.emit (.pollDel (some sock))) d = v.emit (.pollDel (some sock)) :=
        connReset_empty still
      simp only [connDelId, emptied]
      refine ⟨rfl, fun x other => ?_, ?_⟩
      · simp [State.emit, State.setConn, other]
      · simp [State.emit, State.setConn, still]
  obtain ⟨sameReqs, sameConns, still⟩ := closed
  obtain ⟨flag', nextFd'⟩ := closeAndForget_flags h
  have freed : connFree v' c = v'.setConn c { v'.conns c with
      buffers := false, status := .close, sock := none, busy := false } := by
    simp only [connFree, connReset_empty still]
  rw [freed]
  refine keeps_unclaimed free (sameReqs.trans reqs) (fun d other => ?_) ?_ ?_ (flag'.trans flag)
    (Nat.le_trans nextFd (Nat.le_of_eq nextFd'.symm))
  · simp only [State.setConn, Function.update_of_ne other]
    rw [sameConns d other, others d other]
  · simp [State.setConn]
  · simp [State.setConn, still, empty]

theorem acceptConn_flag {w w' : State} {addr : Addr} {proto : Proto}
    (h : acceptConn w addr proto = .ok w') : w'.enableDefrag = w.enableDefrag := by
  simp only [acceptConn, connAlloc] at h
  split at h
  · rename_i e
    split at e <;> cases e
    exact (closeAndForget_flags h).1
  · rename_i v c e
    split at e <;> cases e
    split at h
    · have enabled := (still_connEnableSsl (State.setConn { w with nextFd := w.nextFd + 1 } c
        ((w.conns c).claim w.nextFd addr proto w.thread)) c).flag
      split at h
      · rename_i ssl
        cases h
        rw [ssl] at enabled
        exact enabled
      · rename_i ssl
        rw [ssl] at enabled
        obtain ⟨u, closed, rfl⟩ := map_eq_ok.mp h
        exact (tableless_enableDefrag.connResetFrom u _ _).trans ((closeAndForget_flags closed).1.trans enabled)
    · cases h
      rfl

theorem keeps_acceptConn {w w' : State} {addr : Addr} {proto : Proto}
    (h : acceptConn w addr proto = .ok w') : Keeps w w' := by
  refine Keeps.given (acceptConn_flag h) fun laid => ?_
  simp only [acceptConn] at h
  cases claimed : connAlloc { w with nextFd := w.nextFd + 1 } w.nextFd addr proto with
  | mk v found =>
    cases found with
    | none =>
      simp only [claimed] at h
      have unchanged : v = { w with nextFd := w.nextFd + 1 } := by
        simp only [connAlloc] at claimed
        split at claimed
        · cases claimed
          rfl
        · cases claimed
      subst unchanged
      have issued : Still w { w with nextFd := w.nextFd + 1 } := still_aside rfl rfl rfl (Nat.le_succ _)
      exact issued.keeps.trans (keeps_closeAndForget h)
    | some c =>
      simp only [claimed] at h
      obtain ⟨free, rfl⟩ := connAlloc_claims claimed
      have unused : (w.conns c).busy = false := free
      have fresh : ∀ (status : Status) (ssl : Bool),
          Fresh w c { (w.conns c).claim w.nextFd addr proto w.thread with
            status := status, useSsl := ssl, enableDefrag := w.enableDefrag } :=
        fun _ _ => ⟨rfl, rfl, rfl, rfl, rfl, rfl, rfl⟩
      split at h
      · cases ssl : takeSsl (State.setConn { w with nextFd := w.nextFd + 1 } c
            ((w.conns c).claim w.nextFd addr proto w.thread)) with
        | mk u enabled =>
          have taken : u.conns = Function.update w.conns c ((w.conns c).claim w.nextFd addr proto w.thread) ∧
              u.reqs = w.reqs ∧ u.enableDefrag = w.enableDefrag ∧ u.nextFd = w.nextFd + 1 := by
            simp only [takeSsl] at ssl
            split at ssl
            · cases ssl
              exact ⟨rfl, rfl, rfl, rfl⟩
            · cases ssl
              exact ⟨rfl, rfl, rfl, rfl⟩
          obtain ⟨conns, reqs, flag, nextFd⟩ := taken
          have own : ∀ d, (u.conns d).sock = some w.nextFd → d = c := by
            intro d at_
            by_contra other
            rw [conns, Function.update_of_ne other] at at_
            exact absurd (laid.issued d _ at_) (Nat.lt_irrefl _)
          cases enabled with
          | true =>
            simp only [connEnableSsl, ssl] at h
            cases h
            refine keeps_claim (connAlloc_range claimed) unused (fresh .sslHandshake true) ?_ reqs flag nextFd
            simp [State.emit, State.setConn, conns, flag]
          | false =>
            simp only [connEnableSsl, ssl] at h
            obtain ⟨v', closed, rfl⟩ := map_eq_ok.mp h
            have list : ((w.conns c).claim w.nextFd addr proto w.thread).reqList = (w.conns c).reqList := rfl
            exact keeps_refusedTls unused (laid.free c unused) list reqs conns own flag (by omega) closed
      · cases h
        refine keeps_claim (connAlloc_range claimed) unused (fresh .ready false) ?_ rfl rfl rfl
        simp [State.emit, State.setConn, ConnInfo.claim]

end LayoutSteps
