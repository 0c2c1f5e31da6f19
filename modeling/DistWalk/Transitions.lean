import DistWalk.CallTraces
import DistWalk.Requests

/-!
# Transitions of a worker

Every event is a sequence of small transitions on the tables: a connection
changes, a request enters, moves on, is acknowledged, retried, skipped or
released, a timeout is queued or removed. `Step` names them with the functions
of the worker that perform them. Those on a connection, outside of the tables or on
`curr_cmd` are quiet; the others are the calls that the conditions of a run are about.
An invariant of the steps is an invariant of the worker.
-/

namespace Transitions

open ByteMemory Message Connection PriorityQueue Worker Timeout Node Requests CallTraces

inductive Label
  | conn (c : Nat)
  | aside
  | elapse (ns : Nat)
  | enter (c m : Nat)
  | setCmd (slot : Nat)
  | begin (slot cmd : Nat)
  | ack (slot id : Nat)
  | retry (slot : Nat)
  | skip (slot : Nat)
  | insert (reqId : Nat) (micros : Int)
  | remove (reqId : Nat)
  | disarm
  | release (c slot : Nat)
  | reset (c : Nat)
  deriving DecidableEq

/-- The tables and the timer are the same. -/
structure SameTables (w w' : State) : Prop where
  conns : w'.conns = w.conns
  reqs : w'.reqs = w.reqs
  lastReqs : w'.lastReqs = w.lastReqs
  timeoutQueue : w'.timeoutQueue = w.timeoutQueue
  timeElapsed : w'.timeElapsed = w.timeElapsed
  timer : w'.timer = w.timer
  clock : w'.clock = w.clock
  nextCtx : w'.nextCtx = w.nextCtx

theorem SameTables.trans {a b c : State} (h : SameTables a b) (h' : SameTables b c) :
    SameTables a c where
  conns := h'.conns.trans h.conns
  reqs := h'.reqs.trans h.reqs
  lastReqs := h'.lastReqs.trans h.lastReqs
  timeoutQueue := h'.timeoutQueue.trans h.timeoutQueue
  timeElapsed := h'.timeElapsed.trans h.timeElapsed
  timer := h'.timer.trans h.timer
  clock := h'.clock.trans h.clock
  nextCtx := h'.nextCtx.trans h.nextCtx

theorem sameTables_emit (w : State) (e : Effect) : SameTables w (w.emit e) :=
  ⟨rfl, rfl, rfl, rfl, rfl, rfl, rfl, rfl⟩

/-- `handle_timeout` disarms the timer when it finds nobody to expire. -/
def Headless (w : State) : Prop :=
  ∀ top, pqueueTop w.timeoutQueue = some top →
    reqGetById w (w.timeoutQueue.nodes top).data = none

/-- A counted reply, and the end of the context if it was the last. -/
def acknowledge (w : State) (slot id m status : Nat) : State :=
  let w := countReply w slot id
  if (w.reqs slot).fwdRepliesLeft ≤ 0 then completeContext w slot m status else w

def useRetry (w : State) (slot : Nat) : State :=
  w.setReq slot { w.reqs slot with fwdRetries := (w.reqs slot).fwdRetries - 1 }

/-- A connection of the table changes, its request list apart. An allocated one
stays allocated and an open one is allocated. -/
structure Kept (c c' : ConnInfo) : Prop where
  list : c'.reqList = c.reqList
  busy : c.busy = true → c'.busy = true
  opened : (c.sock ≠ none → c.busy = true) → c'.sock ≠ none → c'.busy = true

/-- The fields of a connection that the tables rest on. -/
def tableSide (c : ConnInfo) : Option Nat × Bool × Option Nat := (c.reqList, c.busy, c.sock)

theorem Kept.same {c c' : ConnInfo} (h : tableSide c' = tableSide c) : Kept c c' := by
  simp only [tableSide, Prod.mk.injEq] at h
  obtain ⟨list, busy, sock⟩ := h
  exact ⟨list, fun used => busy.trans used, fun opened => by rw [sock, busy]; exact opened⟩

inductive Step : State → Label → State → Prop
  | conn (w : State) (c : Nat) (conn : ConnInfo) (kept : Kept (w.conns c) conn) :
      Step w (.conn c) (w.setConn c conn)
  | aside (w w' : State) (same : SameTables w w') : Step w .aside w'
  | elapse (w : State) (ns : Nat) : Step w (.elapse ns) (elapse w ns)
  | enter (w : State) (c m : Nat) (used : (w.conns c).busy = true) :
      Step w (.enter c m) (enterRequest w c m).1
  | setCmd (w : State) (slot : Nat) (cmd : Option Nat) :
      Step w (.setCmd slot) (setCurrCmd w slot cmd)
  | begin (w : State) (slot cmd : Nat) : Step w (.begin slot cmd) (beginContext w slot cmd)
  | ack (w : State) (slot id m status : Nat) :
      Step w (.ack slot id) (acknowledge w slot id m status)
  | retry (w : State) (slot : Nat) : Step w (.retry slot) (useRetry w slot)
  | skip (w : State) (slot m : Nat) : Step w (.skip slot) (skipOnFailure w slot m)
  | insert (w w' : State) (reqId : Nat) (micros : Int) (nonzero : micros ≠ 0)
      (done : insertTimeout w reqId micros = .ok w') : Step w (.insert reqId micros) w'
  | remove (w w' : State) (reqId : Nat) (left : Int)
      (done : removeTimeout w reqId = .ok (w', left)) : Step w (.remove reqId) w'
  | disarm (w w' : State) (headless : Headless w)
      (done : timerfdSettime w (usToIts 0) = .ok w') : Step w .disarm w'
  | release (w : State) (c slot : Nat) : Step w (.release c slot) (connReqRemove w c slot)
  | reset (w : State) (c : Nat) : Step w (.reset c) (connReset w c)

def Label.Quiet : Label → Prop
  | .conn _ => True
  | .aside => True
  | .setCmd _ => True
  | _ => False

/-- Steps that are no calls. -/
abbrev Silently : State → State → Prop := Quietly Step Label.Quiet

/-- The calls of a run, each with the state before it. -/
abbrev Calls := List (State × Label)

/-- The worker goes from one state to the other with these calls. -/
abbrev Takes : State → Calls → State → Prop := Path Step Label.Quiet

/-- Runs all of whose steps meet a condition on the state before them. -/
def Reaches (ok : State → Label → Prop) : State → State → Prop :=
  Relation.ReflTransGen fun w w' => ∃ l, ok w l ∧ Step w l w'

/-- Unconditional runs. -/
abbrev Leads : State → State → Prop := Reaches fun _ _ => True

theorem Reaches.invariant {ok : State → Label → Prop} {P : State → Prop}
    (kept : ∀ w l w', ok w l → P w → Step w l w' → P w') {w w' : State} (h : Reaches ok w w')
    (start : P w) : P w' := by
  induction h with
  | refl => exact start
  | tail _ last ih =>
    obtain ⟨l, allowed, step⟩ := last
    exact kept _ l _ allowed ih step

theorem Reaches.leads {ok : State → Label → Prop} {w w' : State} (h : Reaches ok w w') :
    Leads w w' := by
  refine Relation.ReflTransGen.mono ?_ w w' h
  rintro a b ⟨l, -, s⟩
  exact ⟨l, trivial, s⟩

/-- A run whose calls meet a condition. -/
theorem Takes.reaches {ok : State → Label → Prop} {w w' : State} {calls : Calls} (h : Takes w calls w')
    (silent : ∀ w l, Label.Quiet l → ok w l) (allowed : ∀ call ∈ calls, ok call.1 call.2) : Reaches ok w w' :=
  Path.reaches h silent allowed

theorem Takes.leads {w w' : State} {calls : Calls} (h : Takes w calls w') : Leads w w' :=
  h.reaches (fun _ _ _ => trivial) fun _ _ => trivial

theorem Silently.leads {w w' : State} (h : Silently w w') : Leads w w' := Takes.leads h.toPath

/-- Peel a successful `map`. -/
theorem map_eq_ok {α β : Type} {x : Except Abort α} {f : α → β} {b : β} :
    x.map f = .ok b ↔ ∃ a, x = .ok a ∧ f a = b := by
  cases x with
  | error e => simp [Except.map]
  | ok a => simp [Except.map]

theorem Leads.one {w w' : State} {l : Label} (h : Step w l w') : Leads w w' :=
  Relation.ReflTransGen.single ⟨l, trivial, h⟩

theorem Leads.refl (w : State) : Leads w w := Relation.ReflTransGen.refl

theorem Leads.trans {a b c : State} (h : Leads a b) (h' : Leads b c) : Leads a c :=
  Relation.ReflTransGen.trans h h'

/-! ## Slots of connections -/

theorem acknowledge_housing (w : State) (slot id m status c : Nat) :
    housing ((acknowledge w slot id m status).conns c) = housing (w.conns c) := by
  simp only [acknowledge]
  split
  · have marked := tableless_housing.setConn (countReply w slot id)
      ((countReply w slot id).reqs slot).connId
      { (countReply w slot id).conns ((countReply w slot id).reqs slot).connId with
        recvBuf := setStatus
          ((countReply w slot id).conns ((countReply w slot id).reqs slot).connId).recvBuf m status }
      rfl
    exact congrFun marked c
  · rfl

/-- A slot once allocated stays allocated, and only allocated ones are open. -/
def Lasting (c c' : ConnInfo) : Prop :=
  (c.busy = true → c'.busy = true) ∧
    ((c.sock ≠ none → c.busy = true) → c'.sock ≠ none → c'.busy = true)

theorem Step.lasting {w w' : State} {l : Label} (h : Step w l w') (c : Nat) :
    Lasting (w.conns c) (w'.conns c) := by
  have unmoved : ∀ {conn : ConnInfo}, housing conn = housing (w.conns c) →
      Lasting (w.conns c) conn := by
    intro conn same
    simp only [housing, Prod.mk.injEq] at same
    rw [Lasting, same.1, same.2]
    exact ⟨id, id⟩
  cases h with
  | conn i conn kept =>
    by_cases own : c = i
    · subst own
      simp only [State.setConn, Function.update_self]
      exact ⟨kept.busy, kept.opened⟩
    · simp only [State.setConn, Function.update_of_ne own]
      exact unmoved rfl
  | aside w' same => exact unmoved (by rw [same.conns])
  | elapse ns => exact unmoved rfl
  | enter i m used => exact unmoved (congrFun (tableless_housing.enterRequest w i m) c)
  | setCmd slot cmd => exact unmoved rfl
  | begin slot cmd => exact unmoved rfl
  | ack slot id m status => exact unmoved (acknowledge_housing w slot id m status c)
  | retry slot => exact unmoved rfl
  | skip slot m =>
    exact unmoved (congrFun (tableless_housing.setConn _ _ _ (by rfl)) c)
  | insert w' reqId micros nonzero done => exact unmoved (by rw [(insertTimeout_retimed done).conns])
  | remove w' reqId left done => exact unmoved (by rw [(removeTimeout_retimed done).conns])
  | disarm w' headless done => exact unmoved (by rw [(timerfdSettime_retimed done).conns])
  | release i slot => exact unmoved (congrFun (tableless_housing.connReqRemove w i slot) c)
  | reset i => exact unmoved (congrFun (tableless_housing.connResetFrom w _ _) c)

/-- Only allocated connections are open. -/
def Opened (w : State) : Prop := ∀ c, (w.conns c).sock ≠ none → (w.conns c).busy = true

theorem Leads.busy {w w' : State} (h : Leads w w') {c : Nat} (used : (w.conns c).busy = true) :
    (w'.conns c).busy = true :=
  Reaches.invariant (P := fun w => (w.conns c).busy = true)
    (fun _ _ _ _ used s => (s.lasting c).1 used) h used

theorem Leads.opened {w w' : State} (h : Leads w w') (opened : Opened w) : Opened w' :=
  Reaches.invariant (P := Opened) (fun _ _ _ _ opened s c => (s.lasting c).2 (opened c)) h opened

/-! ## Requests -/

theorem acknowledge_keeps {α : Type} (f : ReqInfo → α)
    (blind : ∀ r mask left timeout retries cmd ctx, f { r with
      fwdRepliesMask := mask, fwdRepliesLeft := left, fwdTimeout := timeout
      fwdRetries := retries, currCmd := cmd, ctx := ctx } = f r)
    (w : State) (slot id m status s : Nat) :
    f ((acknowledge w slot id m status).reqs s) = f (w.reqs s) := by
  have counted : f ((countReply w slot id).reqs s) = f (w.reqs s) :=
    setReq_keeps f w (blind _ _ _ _ _ _ _) s
  simp only [acknowledge]
  split
  · refine Eq.trans ?_ counted
    exact setReq_keeps f (setMsgStatus (countReply w slot id) slot m status) (blind _ _ _ _ _ _ _) s
  · exact counted

/-- A part of a request that only entering and releasing it changes. -/
structure Static {α : Type} (f : ReqInfo → α) : Prop extends Linkless f where
  progress : ∀ r left mask retries timeout skip cmd node ctx, f { r with
    fwdRepliesLeft := left, fwdRepliesMask := mask, fwdRetries := retries, fwdTimeout := timeout
    fwdOnFailSkip := skip, currCmd := cmd, timeoutNode := node, ctx := ctx } = f r

theorem static_reqId : Static ReqInfo.reqId :=
  ⟨linkless_reqId, fun _ _ _ _ _ _ _ _ _ => rfl⟩

theorem Static.retimed {α : Type} {f : ReqInfo → α} (hf : Static f) {w w' : State}
    (h : Retimed w w') (s : Nat) : f (w'.reqs s) = f (w.reqs s) := by
  obtain ⟨node, e⟩ := h.reqs s
  rw [e]
  exact hf.progress (w.reqs s) _ _ _ _ _ _ node _

/-- What a step can do to who is in a slot: nothing, release the request, or
enter one into a free slot. -/
theorem Step.resident {α : Type} {f : ReqInfo → α} (hf : Static f) {w w' : State} {l : Label}
    (h : Step w l w') (s : Nat) :
    f (w'.reqs s) = f (w.reqs s) ∨
    ((w'.reqs s).reqId = noReq ∧
      ((∃ c, l = .release c s) ∨ ∃ c, l = .reset c ∧ s ∈ listed w c)) ∨
    ∃ c m, l = .enter c m ∧ (w.conns c).busy = true ∧ s = slotOf w.lastReqs ∧
      (w.reqs s).reqId = noReq ∧ f (w'.reqs s) = f (entered w c m) := by
  have moved : ∀ (v : State) (slot : Nat) {r : ReqInfo},
      f r = f (v.reqs slot) → f ((v.setReq slot r).reqs s) = f (v.reqs s) :=
    fun v slot _ same => setReq_keeps f v same s
  cases h with
  | conn c conn kept => exact Or.inl rfl
  | aside w' same => exact Or.inl (by rw [same.reqs])
  | elapse ns => exact Or.inl rfl
  | enter c m used =>
    by_cases own : s = slotOf w.lastReqs
    · subst own
      rcases enterRequest_cases w c m with ⟨-, -, e⟩ | ⟨free, -⟩
      · exact Or.inl (by rw [e])
      · exact Or.inr (Or.inr ⟨c, m, rfl, used, rfl, free, hf.enterRequest_self w c m free⟩)
    · exact Or.inl (hf.enterRequest_other w c m own)
  | setCmd slot cmd => exact Or.inl (moved w slot (hf.progress _ _ _ _ _ _ _ _ _))
  | begin slot cmd =>
    refine Or.inl (moved w slot ?_)
    split <;> exact hf.progress (w.reqs slot) _ _ _ _ _ _ _ _
  | ack slot id m status =>
    refine Or.inl (acknowledge_keeps f ?_ w slot id m status s)
    intro r mask left timeout retries cmd ctx
    exact hf.progress r left mask retries timeout _ cmd _ ctx
  | retry slot => exact Or.inl (moved w slot (hf.progress _ _ _ _ _ _ _ _ _))
  | skip slot m => exact Or.inl (moved w slot (hf.progress _ _ _ _ _ _ _ _ _))
  | insert w' reqId micros nonzero done =>
    exact Or.inl (hf.retimed (insertTimeout_retimed done) s)
  | remove w' reqId left done => exact Or.inl (hf.retimed (removeTimeout_retimed done) s)
  | disarm w' headless done => exact Or.inl (hf.retimed (timerfdSettime_retimed done) s)
  | release c slot =>
    by_cases own : s = slot
    · subst own
      exact Or.inr (Or.inl ⟨connReqRemove_reqId w c s, Or.inl ⟨c, rfl⟩⟩)
    · exact Or.inl (hf.connReqRemove w own)
  | reset c =>
    by_cases inside : s ∈ listed w c
    · exact Or.inr (Or.inl ⟨connResetFrom_releases _ w _ inside, Or.inr ⟨c, rfl, inside⟩⟩)
    · exact Or.inl (hf.connResetFrom _ w _ inside)

/-- A live request is on an allocated connection. -/
def Housed (w : State) : Prop :=
  ∀ s, (w.reqs s).reqId ≠ noReq → (w.conns (w.reqs s).connId).busy = true

theorem Housed.step {w w' : State} {l : Label} (h : Housed w) (s : Step w l w') : Housed w' := by
  have static : Static fun r : ReqInfo => (r.reqId, r.connId) :=
    ⟨⟨⟨fun _ _ => rfl, fun _ _ => rfl⟩, fun _ _ => rfl⟩, fun _ _ _ _ _ _ _ _ _ => rfl⟩
  intro x live
  rcases s.resident static x with kept | ⟨free, -⟩ | ⟨c, m, -, used, -, -, e⟩
  · simp only [Prod.mk.injEq] at kept
    rw [kept.1] at live
    rw [kept.2]
    exact (s.lasting _).1 (h x live)
  · exact absurd free live
  · simp only [Prod.mk.injEq] at e
    rw [e.2]
    exact (s.lasting c).1 used

theorem Leads.housed {w w' : State} (h : Leads w w') (housed : Housed w) : Housed w' :=
  Reaches.invariant (fun _ _ _ _ kept s => Housed.step kept s) h housed

theorem housed_init (storageDevices : Nat) (storageFd : Nat → Nat) (files : Nat → Mem)
    (enableDefrag : Bool) : Housed (State.init storageDevices storageFd files enableDefrag) :=
  fun _ live => absurd rfl live

/-! ## Connections and system calls -/

theorem silent_aside {w w' : State} (same : SameTables w w') : Silently w w' :=
  .one (show Label.aside.Quiet from trivial) (.aside w w' same)

theorem silent_emit (w : State) (e : Effect) : Silently w (w.emit e) :=
  silent_aside ⟨rfl, rfl, rfl, rfl, rfl, rfl, rfl, rfl⟩

theorem silent_setConn (w : State) (c : Nat) {conn : ConnInfo} (kept : Kept (w.conns c) conn) :
    Silently w (w.setConn c conn) := .one (show (Label.conn c).Quiet from trivial) (.conn w c conn kept)

theorem silent_takeSend (w : State) (c : Nat) : Silently w (takeSend w c).1 := by
  unfold takeSend
  split
  · exact .refl w
  · exact silent_aside ⟨rfl, rfl, rfl, rfl, rfl, rfl, rfl, rfl⟩

theorem takeSend_conns (w : State) (c : Nat) : (takeSend w c).1.conns = w.conns := by
  unfold takeSend
  split <;> rfl

theorem silent_takeSendfile (w : State) : Silently w (takeSendfile w).1 :=
  silent_aside ⟨rfl, rfl, rfl, rfl, rfl, rfl, rfl, rfl⟩

theorem silent_takeConnect (w : State) : Silently w (takeConnect w).1 := by
  unfold takeConnect
  split
  · exact .refl w
  · exact silent_aside ⟨rfl, rfl, rfl, rfl, rfl, rfl, rfl, rfl⟩

theorem silent_takeSsl (w : State) : Silently w (takeSsl w).1 := by
  unfold takeSsl
  split
  · exact .refl w
  · exact silent_aside ⟨rfl, rfl, rfl, rfl, rfl, rfl, rfl, rfl⟩

section Sides

variable (c : ConnInfo)

/-- What no transmit operation touches. -/
def recvSide : Option Nat × Mem × Bool × Option Nat × Nat × Nat × Bool :=
  (c.reqList, c.recvBuf, c.busy, c.sock, c.currRecvBuf, c.currProcBuf, c.enableDefrag)

/-- A part of a connection that no transmit operation touches. -/
def SendBlind {α : Type} (f : ConnInfo → α) : Prop :=
  ∀ (c : ConnInfo) target sendBuf cursor size fd offset left mode status, f { c with
    target := target, sendBuf := sendBuf, currSendBuf := cursor, currSendSize := size, fileFd := fd
    fileOffset := offset, fileRemaining := left, replyMode := mode, status := status } = f c

theorem sendBlind_recvSide : SendBlind recvSide := fun _ _ _ _ _ _ _ _ _ _ => rfl

section SendBlind

variable {α : Type} {f : ConnInfo → α} (hf : SendBlind f)

include hf

theorem SendBlind.connSslSend (r : IoResult) : f (connSslSend c r).conn = f c := by
  cases r with
  | done n =>
    simp only [Connection.connSslSend]
    split
    · rfl
    · exact hf c _ _ _ _ _ _ _ _ _
  | wouldBlock => rfl
  | peerClosed => exact hf c _ _ _ _ _ _ _ _ _
  | failed => rfl

theorem SendBlind.connSend (r : IoResult) : f (connSend c r).conn = f c := by
  unfold Connection.connSend
  split
  · exact hf.connSslSend c r
  · cases r with
    | done n =>
      simp only
      split
      · rfl
      · split <;> exact hf c _ _ _ _ _ _ _ _ _
    | wouldBlock => exact hf c _ _ _ _ _ _ _ _ _
    | peerClosed => exact hf c _ _ _ _ _ _ _ _ _
    | failed => rfl

theorem SendBlind.connStartSend (target : Addr) (r : IoResult) :
    f (connStartSend c target r).conn = f c := by
  simp only [Connection.connStartSend]
  split
  · exact hf c _ _ _ _ _ _ _ _ _
  · exact (hf.connSend _ r).trans (hf c _ _ _ _ _ _ _ _ _)

theorem SendBlind.sendHeader (rs : List IoResult) : f (sendHeader rs c).1 = f c := by
  induction rs generalizing c with
  | nil =>
    unfold Connection.sendHeader
    split <;> rfl
  | cons r rest ih =>
    unfold Connection.sendHeader
    split
    · rfl
    · cases r with
      | done n => exact (ih _).trans (hf c _ _ _ _ _ _ _ _ _)
      | wouldBlock => exact ih c
      | peerClosed => exact hf c _ _ _ _ _ _ _ _ _
      | failed =>
        simp only
        split
        · rfl
        · exact (ih _).trans (hf c _ _ _ _ _ _ _ _ _)

theorem SendBlind.finishSendfile (out : List UInt8) : f (finishSendfile c out).conn = f c := by
  unfold Connection.finishSendfile
  split
  · exact hf c _ _ _ _ _ _ _ _ _
  · rfl

theorem SendBlind.sendBody (files : Nat → Mem) (r : IoResult) (out : List UInt8) :
    f (sendBody files c r out).conn = f c := by
  unfold Connection.sendBody
  split
  · cases r with
    | done n =>
      simp only
      split
      · exact hf c _ _ _ _ _ _ _ _ _
      · exact (hf.finishSendfile _ _).trans (hf c _ _ _ _ _ _ _ _ _)
    | wouldBlock => exact hf c _ _ _ _ _ _ _ _ _
    | peerClosed => exact hf c _ _ _ _ _ _ _ _ _
    | failed => rfl
  · exact hf.finishSendfile c out

theorem SendBlind.connSendV2 (files : Nat → Mem) (sends : List IoResult) (file : IoResult) :
    f (connSendV2 files c sends file).2.1 = f c := by
  have header := hf.sendHeader c sends
  simp only [Connection.connSendV2]
  split
  · exact (hf.sendBody _ files file _).trans header
  · exact header
  · exact header
  · exact header

theorem SendBlind.connStartSendfile (files : Nat → Mem) (target : Addr) (fd offset size : Nat)
    (sends : List IoResult) (file : IoResult) :
    f (connStartSendfile files c target fd offset size sends file).2.1 = f c := by
  unfold Connection.connStartSendfile
  simp only
  split
  · exact hf c _ _ _ _ _ _ _ _ _
  · exact (hf.connSendV2 _ files sends file).trans (hf c _ _ _ _ _ _ _ _ _)

theorem SendBlind.connFlush (files : Nat → Mem) (sends : List IoResult) (r : IoResult) :
    f (connFlush files c sends r).2.1 = f c := by
  unfold Connection.connFlush
  split
  · exact hf.connSend c r
  · exact hf.connSendV2 c files sends r
  · rfl

end SendBlind

theorem connRecv_tableSide (r : RecvResult) : tableSide (connRecv c r).1 = tableSide c := by
  unfold connRecv
  split
  · rfl
  · cases r with
    | bytes data source =>
      simp only
      split
      · rfl
      · simp only [takeBytes]
        split <;> rfl
    | wouldBlock => rfl
    | closed => rfl
    | failed => rfl

theorem connPrepareRecvMessage_tableSide {m : Option Nat} {conn : ConnInfo}
    (h : connPrepareRecvMessage c = .ok (m, conn)) : tableSide conn = tableSide c := by
  unfold connPrepareRecvMessage at h
  simp only at h
  split at h
  · cases h; rfl
  · split at h
    · cases h; rfl
    · split at h
      · cases h
      · cases h; rfl

theorem kept_of_recvSide {c c' : ConnInfo} (h : recvSide c' = recvSide c) : Kept c c' :=
  .same (congrArg (fun t => (t.1, t.2.2.1, t.2.2.2.1)) h)

end Sides

theorem silent_startSendOn (w : State) (c : Nat) (target : Addr) :
    Silently w (startSendOn w c target).1 := by
  simp only [startSendOn]
  split
  · refine Quietly.trans (silent_setConn w c ?_) (silent_emit _ _)
    exact kept_of_recvSide (sendBlind_recvSide.connStartSend _ _ _)
  · refine (silent_takeSend w c).trans (Quietly.trans (silent_setConn _ c ?_) (silent_emit _ _))
    rw [takeSend_conns]
    exact kept_of_recvSide (sendBlind_recvSide.connStartSend _ _ _)

theorem silent_startSendfileOn {w w' : State} {c : Nat} {target : Addr} {fd size : Nat} {ret : Int}
    (h : startSendfileOn w c target fd size = .ok (w', ret)) : Silently w w' := by
  simp only [startSendfileOn] at h
  split at h
  · cases h
  · cases h
    split
    · exact Quietly.trans (silent_setConn w c (kept_of_recvSide (sendBlind_recvSide.connStartSendfile ..))) (silent_emit _ _)
    · exact (silent_takeSendfile w).trans
        (Quietly.trans (silent_setConn _ c (kept_of_recvSide (sendBlind_recvSide.connStartSendfile ..))) (silent_emit _ _))

theorem silent_pollMod {w w' : State} {c : Nat} {i o s : Bool} (h : pollMod w c i o s = .ok w') :
    Silently w w' := by
  simp only [pollMod] at h
  split at h
  · cases h
  · cases h
    exact silent_emit _ _

theorem reqUnlink_conns (w : State) (slot : Nat) : (reqUnlink w slot).1.conns = w.conns := by
  cases h : (w.reqs slot).next <;> cases h' : (w.reqs slot).prev <;>
    simp [reqUnlink, h, h', setPrev, setNext, State.setReq]

theorem connResetFrom_conns (fuel : Nat) (w : State) (slot : Option Nat) :
    (connResetFrom fuel w slot).conns = w.conns := by
  induction fuel generalizing w slot with
  | zero => rfl
  | succ fuel ih =>
    cases slot with
    | none => rfl
    | some s => exact (ih _ _).trans (reqUnlink_conns w s)

theorem silent_connAlloc (w : State) (sock : Nat) (target : Addr) (proto : Proto) :
    Silently w (connAlloc w sock target proto).1 := by
  simp only [connAlloc]
  split
  · exact .refl w
  · exact silent_setConn w _ ⟨rfl, fun _ => rfl, fun _ _ => rfl⟩

/-! ## A connection that is given up at once

A slot that is claimed and freed within one call has no requests of its own. It
is followed as if it had never been claimed. -/

def hide (w : State) (c : Nat) : State :=
  w.setConn c { w.conns c with busy := false, sock := none }

theorem hide_free (w : State) (c : Nat) : ((hide w c).conns c).busy = false := by
  simp [hide, State.setConn]

theorem reqUnlink_setConn (w : State) (c : Nat) (conn : ConnInfo) (slot : Nat) :
    reqUnlink (w.setConn c conn) slot =
      ((reqUnlink w slot).1.setConn c conn, (reqUnlink w slot).2) := by
  cases h : (w.reqs slot).next <;> cases h' : (w.reqs slot).prev <;>
    simp [reqUnlink, h, h', setPrev, setNext, State.setReq, State.setConn]

theorem connResetFrom_setConn (fuel : Nat) (w : State) (c : Nat) (conn : ConnInfo)
    (slot : Option Nat) :
    connResetFrom fuel (w.setConn c conn) slot = (connResetFrom fuel w slot).setConn c conn := by
  induction fuel generalizing w slot with
  | zero => rfl
  | succ fuel ih =>
    cases slot with
    | none => rfl
    | some s =>
      simp only [connResetFrom, reqUnlink_setConn]
      exact ih _ _

theorem hide_reqList (w : State) (c i : Nat) :
    ((hide w c).conns i).reqList = (w.conns i).reqList := by
  by_cases own : i = c
  · subst own
    simp [hide, State.setConn]
  · simp [hide, State.setConn, own]

theorem connReset_hide (w : State) (c i : Nat) : connReset (hide w c) i = hide (connReset w i) c := by
  rw [connReset, hide_reqList, hide, connResetFrom_setConn, connReset, hide, connResetFrom_conns]

theorem connDelId_hide (w : State) (c i : Nat) :
    connDelId (hide w c) i = hide (connDelId w i) c := by
  simp only [connDelId, connReset_hide]
  by_cases own : i = c
  · subst own
    simp [hide, State.setConn]
  · have other : c ≠ i := fun e => own e.symm
    simp only [hide, State.setConn, Function.update_of_ne own, Function.update_of_ne other]
    rw [Function.update_comm own]

theorem connFree_hide (w : State) (c : Nat) : connFree (hide w c) c = connFree w c := by
  simp only [connFree, connReset_hide]
  simp [hide, State.setConn]

/-- Claim the free slot `c`, on the whole, without claiming it. -/
theorem silent_hide {w w' : State} {c : Nat} {conn : ConnInfo} (free : (w.conns c).busy = false)
    (list : conn.reqList = (w.conns c).reqList) (same : SameTables (w.setConn c conn) w') :
    Silently w (hide w' c) := by
  have claimed : Silently w (w.setConn c { conn with busy := false, sock := none }) :=
    silent_setConn w c ⟨list, fun used => absurd (free.symm.trans used) Bool.false_ne_true,
      fun _ opened => absurd rfl opened⟩
  refine claimed.trans (silent_aside ?_)
  refine ⟨?_, same.reqs, same.lastReqs, same.timeoutQueue, same.timeElapsed, same.timer,
    same.clock, same.nextCtx⟩
  simp only [hide, State.setConn, same.conns]
  simp

/-! ## Forwarding -/

theorem silent_connEnableSsl (w : State) (c : Nat) : Silently w (connEnableSsl w c).1 := by
  have taken := silent_takeSsl w
  unfold connEnableSsl
  split
  · rename_i e
    rwa [e] at taken
  · rename_i e
    rw [e] at taken
    exact taken.trans (silent_setConn _ c (.same rfl))

theorem connEnableSsl_refused {w w' : State} {c : Nat} (h : connEnableSsl w c = (w', false)) :
    SameTables w w' := by
  unfold connEnableSsl takeSsl at h
  split at h <;> rename_i e <;> split at e <;> cases e <;> cases h
  exact ⟨rfl, rfl, rfl, rfl, rfl, rfl, rfl, rfl⟩

/-- The slot is given up when TLS cannot be set up for it. -/
theorem silent_allocForward (w : State) (fwd : FwdOpts) : Silently w (allocForward w fwd).1 := by
  have opened : Silently w { w with nextFd := w.nextFd + 1 } :=
    silent_aside ⟨rfl, rfl, rfl, rfl, rfl, rfl, rfl, rfl⟩
  have allocated := opened.trans
    (silent_connAlloc { w with nextFd := w.nextFd + 1 } w.nextFd fwd.fwdAddr fwd.proto)
  simp only [allocForward]
  split
  · rename_i e
    rw [e] at allocated
    exact allocated.trans (silent_emit _ _)
  · rename_i e
    rw [e] at allocated
    exact allocated.trans (silent_setConn _ _ (.same rfl))

theorem findIndex_holds {p : Nat → Bool} {fuel i j : Nat} (h : findIndex p fuel i = some j) :
    p j = true := by
  induction fuel generalizing i with
  | zero => cases h
  | succ fuel ih =>
    simp only [findIndex] at h
    split at h
    · cases h
      assumption
    · exact ih h

theorem findIndex_range {p : Nat → Bool} {fuel i j : Nat} (h : findIndex p fuel i = some j) :
    i ≤ j ∧ j < i + fuel := by
  induction fuel generalizing i with
  | zero => cases h
  | succ fuel ih =>
    simp only [findIndex] at h
    split at h
    · cases h
      omega
    · have := ih h
      omega

theorem connAlloc_claims {w w' : State} {sock : Nat} {target : Addr} {proto : Proto} {c : Nat}
    (h : connAlloc w sock target proto = (w', some c)) : (w.conns c).busy = false ∧
      w' = w.setConn c ((w.conns c).claim sock target proto w.thread) := by
  simp only [connAlloc] at h
  split at h
  · cases h
  · rename_i found
    cases h
    exact ⟨by simpa using findIndex_holds found, rfl⟩

theorem connAlloc_range {w w' : State} {sock : Nat} {target : Addr} {proto : Proto} {c : Nat}
    (h : connAlloc w sock target proto = (w', some c)) : c < maxConns := by
  simp only [connAlloc] at h
  split at h
  · cases h
  · rename_i found
    cases h
    have range := findIndex_range found
    omega

theorem allocForward_claims {w w' : State} {fwd : FwdOpts} {c : Nat}
    (h : allocForward w fwd = (w', some c)) : (w.conns c).busy = false ∧
      ∃ conn, conn.reqList = (w.conns c).reqList ∧ SameTables (w.setConn c conn) w' := by
  simp only [allocForward] at h
  split at h
  · cases h
  · rename_i claimed
    obtain ⟨free, rfl⟩ := connAlloc_claims claimed
    cases h
    refine ⟨free, { (w.conns c).claim w.nextFd fwd.fwdAddr fwd.proto w.thread with
      enableDefrag := w.enableDefrag }, rfl, ⟨?_, rfl, rfl, rfl, rfl, rfl, rfl, rfl⟩⟩
    simp [State.setConn]

theorem fillForward_recvSide (conn : ConnInfo) (mem : Mem) (m cmd reqId p : Nat) (fwd : FwdOpts) :
    recvSide (fillForward conn mem m cmd reqId p fwd).1 = recvSide conn := by
  simp only [fillForward]
  split <;> rfl

theorem skipAcked_state {w w' : State} {slot m cmd : Nat} {ret : Option Nat}
    (h : skipAcked w slot m cmd = .ok (w', ret)) : w' = w := by
  simp only [skipAcked] at h
  split at h
  · cases h
  · obtain ⟨_, _, e⟩ := map_eq_ok.mp h
    cases e
    rfl

/-! ## Replies and events -/

theorem silent_transmitReply {w w' : State} {slot c : Nat} {opts : ReplyOpts} {ret : Int}
    (h : transmitReply w slot c opts = .ok (w', ret)) : Silently w w' := by
  unfold transmitReply at h
  split at h
  · exact silent_startSendfileOn h
  · have started := silent_startSendOn w c (w.reqs slot).target
    rw [Except.ok.inj h] at started
    exact started

theorem silent_setCurrCmd (w : State) (slot : Nat) (cmd : Option Nat) :
    Silently w (setCurrCmd w slot cmd) := .one (show (Label.setCmd slot).Quiet from trivial) (.setCmd w slot cmd)

theorem silent_establishPhase {w w' : State} {c : Nat} {type : EventType} {r : Readiness} {ret : Bool}
    (h : establishPhase w c type r = .ok (w', ret)) : Silently w w' := by
  simp only [establishPhase] at h
  split at h
  · split at h
    · cases h
      exact .refl _
    · obtain ⟨w₁, e, e'⟩ := map_eq_ok.mp h
      cases e'
      refine Quietly.trans (silent_setConn w c ?_) ((silent_pollMod e).trans
        (silent_aside ⟨rfl, rfl, rfl, rfl, rfl, rfl, rfl, rfl⟩))
      exact .same rfl
  · cases h
    exact .refl _

theorem silent_recvPhase (w : State) (c : Nat) (r : Readiness) : Silently w (recvPhase w c r).1 := by
  simp only [recvPhase]
  split
  · exact silent_setConn w c (.same (connRecv_tableSide _ _))
  · exact .refl w

theorem silent_flushPhase {w w' : State} {c : Nat} {r : Readiness} {ret : Bool}
    (h : flushPhase w c r = .ok (w', ret)) : Silently w w' := by
  simp only [flushPhase] at h
  split at h
  · split at h
    · cases h
    · have flushed := (silent_setConn w c
        (kept_of_recvSide (sendBlind_recvSide.connFlush (w.conns c) w.files r.flushHeader r.flush))).trans
        (silent_emit _ (.wire c (connFlush w.files (w.conns c) r.flushHeader r.flush).2.2))
      split at h
      · cases h
        exact flushed
      · split at h
        · obtain ⟨_, e, paired⟩ := map_eq_ok.mp h
          cases paired
          exact flushed.trans (silent_pollMod e)
        · obtain ⟨_, e, paired⟩ := map_eq_ok.mp h
          cases paired
          exact flushed.trans (silent_pollMod e)
  · cases h
    exact .refl _

theorem opened_init (storageDevices : Nat) (storageFd : Nat → Nat) (files : Nat → Mem)
    (enableDefrag : Bool) : Opened (State.init storageDevices storageFd files enableDefrag) :=
  fun _ closed => absurd rfl closed

theorem toOption_eq_some {α : Type} {x : Except Abort α} {a : α} (h : x.toOption = some a) :
    x = .ok a := by
  cases x with
  | error e => cases h
  | ok b => exact congrArg _ (Option.some.inj h)

/-- Evaluate a run and a property of the state it ends in. -/
theorem exists_of_any {α : Type} {x : Option α} {p : α → Bool} (h : x.any p = true) :
    ∃ a, x = some a ∧ p a = true := by
  cases x with
  | none => cases h
  | some a => exact ⟨a, rfl, h⟩

end Transitions

