import DistWalk.OtherRequests
import DistWalk.RoundRuns
import DistWalk.StaleReply

/-!
# Replies in the runs of a node

A request is followed through a run, from the round in which it enters: through what is done
for it, through what is done for others and through what is done for none. The conditions on
its replies and its timeouts are conditions on the rounds and the timers of the run.
-/

namespace ReplyRuns

open ByteMemory Message Connection PriorityQueue Worker Timeout Node Requests Transitions ReceiveQueue BufferLayout
  LayoutSteps LayoutRuns BufferSpace Batches ReceivedBytes BoundedReads DeadPeer ForwardReply Forwarding ForwardQuorum
  ProgramFrames StaleReply OtherRequests RoundRuns

/-! ## What a run does to its messages -/

/-- The next message, if it enters as the request `reqId`, has its first command, and what lies
ahead of the request there is `ok`. -/
def EntersRound (ok : List Stop → Prop) (reqId : Nat) (w : State) (c : Nat) : Prop :=
  ∀ m conn, connPrepareRecvMessage (w.conns c) = .ok (some m, conn) →
    cmdAt conn.recvBuf (messageFirstCmd m) ≠ .eom → w.lastReqs = reqId →
    cmdInBounds conn.recvBuf (messageFirstCmd m) (messageEnd conn.recvBuf m) = true ∧
      ok (route conn.recvBuf (messageEnd conn.recvBuf m) (some (messageFirstCmd m)))

/-- The next message, if it is a reply to the request, finds it nowhere or at a FORWARD, and
comes from an address that a message of it was sent to. -/
def AnsweredRound (reqId : Nat) (w : State) (c : Nat) : Prop :=
  ∀ m conn slot, connPrepareRecvMessage (w.conns c) = .ok (some m, conn) →
    cmdAt conn.recvBuf (messageFirstCmd m) = .eom → reqIdOf conn.recvBuf m = reqId →
    reqGetById (w.setConn c conn) reqId = some slot →
    AtForward (w.setConn c conn) slot ∧ ∃ tag, (reqId, conn.target, tag) ∈ forwards w

/-- The timeout that is due gives up no context of the request that has counted a reply. -/
def PatientTimer (reqId : Nat) (w : State) : Prop :=
  ∀ top slot, pqueueTop w.timeoutQueue = some top → (w.timeoutQueue.nodes top).data = reqId →
    reqGetById w reqId = some slot → (w.reqs slot).fwdRetries ≤ 0 → 0 < (w.reqs slot).fwdOnFailSkip →
      (w.reqs slot).fwdRepliesMask = 0

def EntersAs (ok : List Stop → Prop) (reqId : Nat) (w : State) (events : List (Kernel × Event)) : Prop :=
  ∀ c u, Begins w events c u → EntersRound ok reqId u c

def Answered (reqId : Nat) (w : State) (events : List (Kernel × Event)) : Prop :=
  ∀ c u, Begins w events c u → AnsweredRound reqId u c

def Patient (reqId : Nat) (w : State) (events : List (Kernel × Event)) : Prop :=
  ∀ u, Fires w events u → PatientTimer reqId u

theorem EntersAs.imp {ok ok' : List Stop → Prop} {reqId : Nat} {w : State} {events : List (Kernel × Event)}
    (h : EntersAs ok reqId w events) (weaker : ∀ stops, ok stops → ok' stops) : EntersAs ok' reqId w events := by
  intro c u begins m conn prepared type own
  obtain ⟨inside, shape⟩ := h c u begins m conn prepared type own
  exact ⟨inside, weaker _ shape⟩

/-! ## The request in each step -/

/-- The request has not come yet, or it is followed. -/
structure Tracks (accounts : Prop) (reqId : Nat) (w : State) : Prop extends Sound w where
  bounded : w.lastReqs ≤ noReq
  unseen : w.lastReqs ≤ reqId →
    ((w.reqs (slotOf reqId)).messagePtr ≠ none → (w.reqs (slotOf reqId)).reqId ≠ reqId) ∧
      ∀ addr tag, (reqId, addr, tag) ∉ forwards w
  follows : Follows accounts reqId w

section Tracks

variable {accounts : Prop} {reqId : Nat} {w v w' : State} {slot m c : Nat}

theorem leavesAlone_inert (sound : Sound w) (h : Inert w w') : LeavesAlone reqId w w' := by
  obtain ⟨-, carries, same⟩ := h sound
  exact ⟨fun live _ => carries _ live, fun addr tag => by rw [(journal_eq same).2]⟩

/-- What is done for a request leaves those under other ids alone. -/
theorem leavesAlone_beside (h : Beside slot w w') (other : (w.reqs slot).reqId ≠ reqId) : LeavesAlone reqId w w' := by
  obtain ⟨new, record, own⟩ := h.sent
  refine ⟨fun live id => h.others _ (fun same => ?_) live, fun addr tag => ?_⟩
  · subst same
    exact other ((h.own live).2.symm.trans id)
  · rw [record, List.mem_append]
    refine ⟨fun member => member.resolve_left fun fresh => ?_, Or.inr⟩
    exact other (own _ fresh).symm

/-- A message that is refused leaves every request alone. -/
theorem leavesAlone_refused (sound : Sound w) (bounded : w.lastReqs ≤ noReq) (fresh : w.lastReqs ≠ noReq)
    (added : enterRequest w c m = (v, none)) : LeavesAlone reqId w v := by
  obtain ⟨-, -, -, sent⟩ := enterRequest_uses bounded fresh added
  refine ⟨fun live _ => ?_, fun addr tag => by rw [sent]⟩
  rcases enterRequest_cases w c m with ⟨-, -, refused⟩ | ⟨-, some⟩
  · rw [added] at refused
    rw [show v = _ from refused] at live ⊢
    exact carried_same sound live rfl rfl
  · rw [added] at some
    cases some

/-- A request that enters leaves those under other ids alone. -/
theorem leavesAlone_enter (sound : Sound w) (bounded : w.lastReqs ≤ noReq) (fresh : w.lastReqs ≠ noReq)
    (added : enterRequest w c m = (v, some slot)) (other : w.lastReqs ≠ reqId) : LeavesAlone reqId w v := by
  obtain ⟨-, -, -, sent⟩ := enterRequest_uses bounded fresh added
  refine ⟨fun live id => carried_enterRequest sound added (fun same => ?_) live, fun addr tag => by rw [sent]⟩
  rw [same, (enterRequest_numbered added).2] at id
  exact other id

/-- A request enters with no context begun. -/
theorem enterRequest_unbegun (added : enterRequest w c m = (v, some slot)) :
    (v.reqs slot).fwdRepliesLeft = -1 ∧ (v.reqs slot).ctx = none := by
  have listless : Listless fun r : ReqInfo => (r.fwdRepliesLeft, r.ctx) := ⟨fun _ _ => rfl, fun _ _ => rfl⟩
  rcases enterRequest_cases w c m with ⟨-, none, -⟩ | ⟨free, some⟩
  · rw [added] at none
    cases none
  · have entered := listless.enterRequest_self w c m free
    rw [added] at some entered
    obtain rfl := Option.some.inj some
    exact Prod.mk.inj entered

theorem Tracks.passes (h : Tracks accounts reqId w) (there : Sound w') (numbers : w.lastReqs ≤ w'.lastReqs)
    (bounded : w'.lastReqs ≤ noReq) (alone : LeavesAlone reqId w w') : Tracks accounts reqId w' := by
  refine ⟨there, bounded, fun le => ?_, h.follows.passes h.laid alone⟩
  obtain ⟨absent, unsent⟩ := h.unseen (numbers.trans le)
  refine ⟨fun live id => ?_, fun addr tag sent => unsent addr tag ((alone.forwarded addr tag).mp sent)⟩
  have carried := alone.carried live id
  obtain ⟨p, placed, -⟩ := carried.stays
  exact absent (by rw [placed]; exact Option.some_ne_none p) (carried.reqId.symm.trans id)

theorem Tracks.inert (h : Tracks accounts reqId w) (i : Inert w w') : Tracks accounts reqId w' := by
  obtain ⟨there, -, same⟩ := i h.toSound
  have numbers := (ledger_eq (journal_eq same).1).2.1
  exact h.passes there numbers.ge (numbers ▸ h.bounded) (leavesAlone_inert h.toSound i)

/-- Something is done for the request in `slot`, which may be the one that is followed. -/
theorem Tracks.beside (h : Tracks accounts reqId w) (b : Beside slot w w') (live : (w.reqs slot).messagePtr ≠ none)
    (own : slot = slotOf reqId → (w.reqs slot).reqId = reqId → Follows accounts reqId w')
    (housed : slotOf (w.reqs slot).reqId = slot) : Tracks accounts reqId w' := by
  by_cases same : (w.reqs slot).reqId = reqId
  · rw [same] at housed
    subst housed
    exact ⟨b.sound, b.lastReqs ▸ h.bounded, fun le => absurd same ((h.unseen (b.lastReqs ▸ le)).1 live),
      own rfl same⟩
  · exact h.passes b.sound b.lastReqs.ge (b.lastReqs ▸ h.bounded) (leavesAlone_beside b same)

theorem housed_of_found {id : Nat} (found : reqGetById w id = some slot) : slotOf (w.reqs slot).reqId = slot := by
  obtain ⟨rfl, live⟩ := reqGetById_eq_some.mp found
  rw [live]

theorem handleForwardReply_placed {status : Nat} {addr : Addr} {ret : Int} (found : reqGetById w reqId = some slot)
    (handled : handleForwardReply w reqId status addr = .ok (w', ret)) : (w.reqs slot).messagePtr ≠ none := by
  intro gone
  simp only [handleForwardReply, found, gone] at handled
  cases handled

theorem processMessages_placed {ret : Int} (done : processMessages w slot = .ok (w', ret)) :
    (w.reqs slot).messagePtr ≠ none := by
  intro gone
  simp only [processMessages, processSingleMessage, gone] at done
  cases done

theorem Tracks.execute (h : Tracks accounts reqId w) (named : reqId ≠ noReq) {ret : Int}
    (housed : slotOf (w.reqs slot).reqId = slot) (done : processMessages w slot = .ok (w', ret)) :
    Tracks accounts reqId w' := by
  refine h.beside (beside_processMessages h.toSound done) (processMessages_placed done) (fun same id => ?_) housed
  subst same
  obtain ⟨stops, traced⟩ := h.follows (processMessages_placed done) id
  exact traced.processMessages named h.toSound done

theorem Tracks.storage (h : Tracks accounts reqId w) (named : reqId ≠ noReq) {id : Nat}
    (done : storageAck w id = .ok w') : Tracks accounts reqId w' := by
  rcases storageAck_cases done with inert | ⟨slot, ret, found, executed⟩
  · exact h.inert inert
  · exact h.execute named (housed_of_found found) executed

theorem Tracks.timer (h : Tracks accounts reqId w) (named : reqId ≠ noReq)
    (patient : accounts → PatientTimer reqId w) (done : handleTimeout w = .ok w') : Tracks accounts reqId w' := by
  rcases handleTimeout_beside h.toSound done with inert | ⟨top, slot, due, found, live, beside⟩
  · exact h.inert inert
  · refine h.beside beside live (fun same id => ?_) (housed_of_found found)
    have data : (w.timeoutQueue.nodes top).data = reqId := (reqGetById_eq_some.mp found).2.symm.trans id
    rw [data] at found
    subst same
    exact h.follows.expire named h.toSound due data found (fun kept => patient kept top _ due data found) done

theorem Tracks.reply (h : Tracks accounts reqId w) (named : reqId ≠ noReq) {id status : Nat} {addr : Addr} {ret : Int}
    (answers : accounts → id = reqId → ∀ slot, reqGetById w reqId = some slot →
      AtForward w slot ∧ ∃ tag, (reqId, addr, tag) ∈ forwards w)
    (handled : handleForwardReply w id status addr = .ok (w', ret)) : Tracks accounts reqId w' := by
  cases found : reqGetById w id with
  | none =>
    simp only [handleForwardReply, found] at handled
    cases handled
    exact h
  | some slot =>
    refine h.beside (beside_handleForwardReply h.toSound found handled) (handleForwardReply_placed found handled)
      (fun same own => ?_) (housed_of_found found)
    have is : id = reqId := (reqGetById_eq_some.mp found).2.symm.trans own
    subst is same
    exact h.follows.reply named h.toSound found (fun kept => answers kept rfl _ found) handled

/-- A message that is refused uses up an id. -/
theorem Tracks.refused (h : Tracks accounts reqId w) (fresh : w.lastReqs ≠ noReq)
    (added : enterRequest w c m = (v, none)) : Tracks accounts reqId v := by
  obtain ⟨-, numbers, -, -⟩ := enterRequest_uses h.bounded fresh added
  have bounded := h.bounded
  exact h.passes (course_sound.still (still_refused added) h.toSound) (by omega) (by omega)
    (leavesAlone_refused h.toSound bounded fresh added)

/-- A request enters with nothing counted and nothing forwarded. -/
theorem Tracks.enter {conn : ConnInfo} (h : Tracks accounts reqId w) (opened : (w.conns c).sock ≠ none)
    (prepared : connPrepareRecvMessage (w.conns c) = .ok (some m, conn)) (fresh : w.lastReqs ≠ noReq)
    (type : cmdAt conn.recvBuf (messageFirstCmd m) ≠ .eom)
    (proper : EntersRound (fun stops => Enclosed stops ∧ (accounts → Apart stops)) reqId w c)
    (added : enterRequest (w.setConn c conn) c m = (v, some slot)) : Tracks accounts reqId v := by
  have taken := h.inert (inert_take opened prepared)
  have there : Sound v := h.toSound.enter opened prepared fresh added
  obtain ⟨-, numbers, -, sent⟩ : v.storageDevices = w.storageDevices ∧ v.lastReqs = w.lastReqs + 1 ∧
      work v = work w ∧ forwards v = forwards w := enterRequest_uses (w := w.setConn c conn) h.bounded fresh added
  obtain ⟨home, named⟩ : slotOf w.lastReqs = slot ∧ (v.reqs slot).reqId = w.lastReqs :=
    enterRequest_numbered (w := w.setConn c conn) added
  have bounded := h.bounded
  by_cases own : w.lastReqs = reqId
  · subst own home
    obtain ⟨inside, enclosed, apart⟩ := proper m conn prepared type rfl
    obtain ⟨-, unsent⟩ := h.unseen (Nat.le_refl _)
    obtain ⟨on, placed, cmd, list, table⟩ := enterRequest_placed added
    have mem : reqMem v (slotOf w.lastReqs) = conn.recvBuf := by
      rw [reqMem, on, table, Function.update_self]
      simp [State.setConn]
    have unbegun := enterRequest_unbegun added
    have stands : Stands (messageFirstCmd m) (messageEnd conn.recvBuf m) conn.recvBuf (messageFirstCmd m) :=
      stands_of_inBounds (Nat.le_refl _) inside
    refine ⟨there, by omega, fun le => by omega, fun _ _ => ⟨_, named, ⟨m, placed, ?_, rfl⟩, ?_, ?_, ?_, ?_⟩⟩
    · rw [mem, cmd]
      rintro _ ⟨⟩
      exact stands
    · rw [mem, cmd]
      exact enclosed
    · rw [mem, cmd]
      exact apart
    · refine fun _ _ => ⟨Or.inl unbegun.1, fun addr tag known => ?_⟩
      rw [sent] at known
      exact absurd known (unsent addr tag)
    · rw [unbegun.2]
      rintro number ⟨⟩
  · exact taken.passes there (numbers ▸ Nat.le_succ _) (by omega)
      (leavesAlone_enter taken.toSound bounded fresh added own)

/-- One round of a batch. -/
theorem Tracks.round {result : Option (Outcome × Bool)} (h : Tracks accounts reqId w) (named : reqId ≠ noReq)
    (fit : Fit w c) (proper : EntersRound (fun stops => Enclosed stops ∧ (accounts → Apart stops)) reqId w c)
    (answers : accounts → AnsweredRound reqId w c) (done : Batches.round w c = .ok (w', result)) :
    Tracks accounts reqId w' := by
  have taken : ∀ {m conn}, connPrepareRecvMessage (w.conns c) = .ok (some m, conn) →
      Tracks accounts reqId (w.setConn c conn) := fun prepared => h.inert (inert_take fit.opened prepared)
  cases Batches.round_done done with
  | ended prepared =>
    rw [connPrepareRecvMessage_none prepared]
    exact h.inert (inert_setConn c rfl)
  | @replied m conn v ret prepared type handled =>
    refine (taken prepared).reply named (fun kept is slot found => ?_) handled
    exact answers kept m conn slot prepared type is found
  | @refused m conn v prepared type added =>
    rw [recvBuf_prepared prepared] at type
    exact (taken prepared).refused (fit.named m conn prepared type) added
  | @executed m slot conn v u ret prepared type added executed =>
    have entering := type
    rw [recvBuf_prepared prepared] at entering
    have entered := h.enter fit.opened prepared (fit.named m conn prepared entering) type proper added
    obtain ⟨home, id⟩ := enterRequest_numbered (w := w.setConn c conn) added
    exact entered.execute named (by rw [id]; exact home) executed

end Tracks

/-! ## Runs -/

section Runs

variable (storageDevices : Nat) (storageFd : Nat → Nat) (files : Nat → Mem) (enableDefrag : Bool)

theorem tracks_init (accounts : Prop) {reqId : Nat} :
    Tracks accounts reqId (State.init storageDevices storageFd files enableDefrag) :=
  ⟨sound_init _ _ _ _, Nat.zero_le _, fun _ => ⟨fun live => absurd rfl live, fun _ _ => List.not_mem_nil⟩,
    fun live => absurd rfl live⟩

variable {events : List (Kernel × Event)} {v : State} {reqId : Nat}

/-- The request is followed wherever a reply may be handled. -/
theorem tracks_run (accounts : Prop) (named : reqId ≠ noReq)
    (regular : RegularRun (State.init storageDevices storageFd files enableDefrag) events)
    (proper : EntersAs (fun stops => Enclosed stops ∧ (accounts → Apart stops)) reqId
      (State.init storageDevices storageFd files enableDefrag) events)
    (answered : accounts → Answered reqId (State.init storageDevices storageFd files enableDefrag) events)
    (patient : accounts → Patient reqId (State.init storageDevices storageFd files enableDefrag) events)
    (attends : Attends (State.init storageDevices storageFd files enableDefrag) events v) :
    (v.reqs (slotOf reqId)).reqId = reqId → ∃ stops, Traced accounts reqId v stops := by
  have kept : Preserved (Tracks accounts reqId) (State.init storageDevices storageFd files enableDefrag) events :=
    { inert := fun h inert _ => h.inert inert
      timer := fun fires h => h.timer named fun kept => patient kept _ fires
      storage := fun h => h.storage named
      round := fun begins fit h => h.round named fit (proper _ _ begins) fun kept => answered kept _ _ begins }
  have opened := opened_init storageDevices storageFd files enableDefrag
  have tracks := kept.attends (tracks_init storageDevices storageFd files enableDefrag accounts) opened regular attends
  have reached := leads_attends opened attends
  intro live
  obtain ⟨m, placed⟩ := live_has_message storageDevices storageFd files enableDefrag reached
    (reqGetById_eq_some.mpr ⟨rfl, live⟩) named
  exact tracks.follows (by rw [placed]; exact Option.some_ne_none m) live

/-- In every run, a reply to a request that entered without a FORWARD_CONTINUE outside a
context and that comes while a context of it is in progress, or is not for the FORWARD where
it stands, is read against FORWARDs only, and dropped or counted for that context. -/
theorem reply_harmless (named : reqId ≠ noReq)
    (regular : RegularRun (State.init storageDevices storageFd files enableDefrag) events)
    (proper : EntersAs Enclosed reqId (State.init storageDevices storageFd files enableDefrag) events)
    (attends : Attends (State.init storageDevices storageFd files enableDefrag) events v)
    (live : (v.reqs (slotOf reqId)).reqId = reqId) (status : Nat) (addr : Addr)
    (expected : Expected v (slotOf reqId) addr) : Harmless v (slotOf reqId) reqId status addr := by
  have shape : EntersAs (fun stops => Enclosed stops ∧ (False → Apart stops)) reqId
      (State.init storageDevices storageFd files enableDefrag) events :=
    proper.imp fun _ enclosed => ⟨enclosed, False.elim⟩
  obtain ⟨stops, traced⟩ := tracks_run storageDevices storageFd files enableDefrag False named regular shape
    False.elim False.elim attends live
  exact traced.harmless expected status

/-- In every run whose replies to the request find it at a FORWARD and come from where its
messages went, and in which no context of it is given up that has counted a reply, if no address
is a destination of two of its FORWARDs then no reply is counted in another context than its own. -/
theorem no_stale_acknowledgement (named : reqId ≠ noReq)
    (regular : RegularRun (State.init storageDevices storageFd files enableDefrag) events)
    (proper : EntersAs (fun stops => Enclosed stops ∧ Apart stops) reqId
      (State.init storageDevices storageFd files enableDefrag) events)
    (answered : Answered reqId (State.init storageDevices storageFd files enableDefrag) events)
    (patient : Patient reqId (State.init storageDevices storageFd files enableDefrag) events)
    (attends : Attends (State.init storageDevices storageFd files enableDefrag) events v)
    (standing : AtForward v (slotOf reqId)) : NothingStale reqId v := by
  have shape : EntersAs (fun stops => Enclosed stops ∧ (True → Apart stops)) reqId
      (State.init storageDevices storageFd files enableDefrag) events :=
    proper.imp fun _ both => ⟨both.1, fun _ => both.2⟩
  have followed := tracks_run storageDevices storageFd files enableDefrag True named regular shape
    (fun _ => answered) (fun _ => patient) attends
  refine ⟨fun status addr tag sent => ?_, fun live none => ?_, fun live number ctx i small set => ?_⟩
  · by_cases live : (v.reqs (slotOf reqId)).reqId = reqId
    · obtain ⟨stops, traced⟩ := followed live
      obtain ⟨m, message, -, -⟩ := traced.ahead
      obtain ⟨-, at_, search⟩ := search_legal addr (messageEnd (reqMem v (slotOf reqId)) m)
        (messageEnd (reqMem v (slotOf reqId)) m + 1) (v.reqs (slotOf reqId)).currCmd 0 standing
      cases at_ with
      | none =>
        refine Or.inl ?_
        have found := reqGetById_eq_some.mpr ⟨rfl, live⟩
        simp only [Dropped, handleForwardReply, found, message, findForwardReplyId, search]
      | some id =>
        obtain ⟨number, -, -, ctx, -, -, own⟩ := traced.found trivial standing message sent search
        exact Or.inr ⟨own.trans ctx.symm, by simp [own]⟩
    · refine Or.inl ?_
      have missing : reqGetById v reqId = none := if_pos live
      simp only [Dropped, handleForwardReply, missing]
  · obtain ⟨stops, traced⟩ := followed live
    exact (traced.outside none trivial).1
  · obtain ⟨stops, traced⟩ := followed live
    obtain ⟨dests, rest, shape, own⟩ := traced.inside number ctx
    rw [traced.currentDests shape]
    exact (own trivial).counted i small set

end Runs

/-! ## A request to two peers -/

/-- A request is forwarded to one peer and then to another. The message to the first is sent
twice, and its first reply arrives. -/
def twoPeers : List (Kernel × Event) :=
  [(.silent, .accept [10, 0, 0, 9, 0, 9] .tcp),
   (.silent, .accept [10, 0, 0, 1, 0, 1] .tcp),
   (.silent, .accept [10, 0, 0, 2, 0, 2] .tcp),
   (.silent, .ready 0 .socket (received (Wire.message 1 0
     [.forward false 64 [10, 0, 0, 1, 0, 1] 50 1 1 1 0 .tcp, .reply 16,
      .forward false 64 [10, 0, 0, 2, 0, 2] 50 1 1 1 0 .tcp, .reply 16, .reply 16, .eom]))),
   (.silent, .elapse 50000), (.silent, .ready 3 .timer (received [])),
   (.silent, .ready 1 .socket (received (Wire.message 0 0 [.eom])))]

def twoStops : List Stop :=
  [(.forwardBegin, [[10, 0, 0, 1, 0, 1]]), (.forwardBegin, [[10, 0, 0, 2, 0, 2]]), (.reply, []), (.eom, [])]

/-- What is asked of a round, for the first request of the node. -/
def roundMeets (c : Nat) (u : State) : Bool :=
  decide (Fit u c) && (connPrepareRecvMessage (u.conns c)).toOption.all fun p => p.1.all fun m =>
    if cmdAt p.2.recvBuf (messageFirstCmd m) = .eom then
      (reqGetById (u.setConn c p.2) 0).all fun slot =>
        (((u.setConn c p.2).reqs slot).currCmd.all fun cmd => (cmdAt (reqMem (u.setConn c p.2) slot) cmd).isForward) &&
          decide ((0, p.2.target, some 0) ∈ forwards u)
    else
      cmdInBounds p.2.recvBuf (messageFirstCmd m) (messageEnd p.2.recvBuf m) &&
        decide (route p.2.recvBuf (messageEnd p.2.recvBuf m) (some (messageFirstCmd m)) = twoStops)

theorem twoPeers_checked : runAll roundMeets (fun u => decide ((u.reqs 0).fwdRepliesMask = 0))
    (.init 0 (fun _ => 0) (fun _ _ => 0) true) twoPeers = true := by decide +kernel

theorem roundMeets_taken {c m : Nat} {u : State} {conn : ConnInfo} (meets : roundMeets c u = true)
    (prepared : connPrepareRecvMessage (u.conns c) = .ok (some m, conn)) :
    (cmdAt conn.recvBuf (messageFirstCmd m) = .eom → ∀ slot, reqGetById (u.setConn c conn) 0 = some slot →
      AtForward (u.setConn c conn) slot ∧ (0, conn.target, some 0) ∈ forwards u) ∧
    (cmdAt conn.recvBuf (messageFirstCmd m) ≠ .eom →
      cmdInBounds conn.recvBuf (messageFirstCmd m) (messageEnd conn.recvBuf m) = true ∧
      route conn.recvBuf (messageEnd conn.recvBuf m) (some (messageFirstCmd m)) = twoStops) := by
  simp only [roundMeets, prepared, Bool.and_eq_true] at meets
  have here := meets.2
  refine ⟨fun type slot found => ?_, fun type => ?_⟩
  · simp only [Except.toOption, Option.all_some, type, if_true, found, Bool.and_eq_true, decide_eq_true_eq] at here
    refine ⟨fun cmd current => ?_, here.2⟩
    rw [current] at here
    exact here.1
  · simp only [Except.toOption, Option.all_some, if_neg type, Bool.and_eq_true, decide_eq_true_eq] at here
    exact here

theorem twoPeers_regular : RegularRun (.init 0 (fun _ => 0) (fun _ _ => 0) true) twoPeers := by
  refine runAll_regular (fun c v meets => ?_) twoPeers_checked
  simp only [roundMeets, Bool.and_eq_true, decide_eq_true_eq] at meets
  exact meets.1

theorem twoPeers_enters :
    EntersAs (fun stops => Enclosed stops ∧ Apart stops) 0 (.init 0 (fun _ => 0) (fun _ _ => 0) true) twoPeers := by
  intro c u begins m conn prepared type _
  obtain ⟨inside, shape⟩ := (roundMeets_taken (runAll_begins twoPeers_checked begins) prepared).2 type
  refine ⟨inside, ?_⟩
  rw [shape]
  exact ⟨by simp [Enclosed, twoStops], by simp [Apart, twoStops, List.Disjoint]⟩

theorem twoPeers_answered : Answered 0 (.init 0 (fun _ => 0) (fun _ _ => 0) true) twoPeers := by
  intro c u begins m conn slot prepared type _ found
  obtain ⟨standing, sent⟩ := (roundMeets_taken (runAll_begins twoPeers_checked begins) prepared).1 type slot found
  exact ⟨standing, some 0, sent⟩

theorem twoPeers_patient : Patient 0 (.init 0 (fun _ => 0) (fun _ _ => 0) true) twoPeers := by
  intro u fires top slot _ _ found _ _
  have clear := runAll_fires twoPeers_checked fires
  obtain rfl := (reqGetById_eq_some.mp found).1
  exact of_decide_eq_true clear

/-- The request has been forwarded to the second peer. -/
theorem twoPeers_run : ∃ v, run (.init 0 (fun _ => 0) (fun _ _ => 0) true) twoPeers = .ok v ∧ (v.reqs 0).reqId = 0 ∧
    (v.reqs 0).ctx = some 1 ∧ AtForward v 0 ∧ (0, [10, 0, 0, 1, 0, 1], some 0) ∈ forwards v := by
  have evaluated : ((run (.init 0 (fun _ => 0) (fun _ _ => 0) true) twoPeers).toOption.any fun v =>
      (v.reqs 0).reqId = 0 ∧ (v.reqs 0).ctx = some 1 ∧ (v.reqs 0).currCmd = some 56 ∧
        (cmdAt (reqMem v 0) 56).isForward = true ∧ (0, [10, 0, 0, 1, 0, 1], some 0) ∈ forwards v) = true := by
    decide +kernel
  obtain ⟨v, done, facts⟩ := exists_of_any evaluated
  obtain ⟨live, ctx, current, forward, sent⟩ := of_decide_eq_true facts
  refine ⟨v, toOption_eq_some done, live, ctx, fun cmd e => ?_, sent⟩
  rw [current] at e
  cases e
  exact forward

/-- The second reply of the first peer and the reply of the second one do no harm. -/
theorem reply_harmless_second_peer : ∃ v, run (.init 0 (fun _ => 0) (fun _ _ => 0) true) twoPeers = .ok v ∧
    (v.reqs 0).ctx = some 1 ∧ Harmless v 0 0 0 [10, 0, 0, 1, 0, 1] ∧ Harmless v 0 0 0 [10, 0, 0, 2, 0, 2] := by
  obtain ⟨v, done, live, ctx, -⟩ := twoPeers_run
  have busy : (v.reqs 0).ctx ≠ none := by simp [ctx]
  have enclosed : EntersAs Enclosed 0 (.init 0 (fun _ => 0) (fun _ _ => 0) true) twoPeers :=
    twoPeers_enters.imp fun _ both => both.1
  have harmless := fun addr => reply_harmless 0 (fun _ => 0) (fun _ _ => 0) true (by decide) twoPeers_regular enclosed
    (.ended done) live 0 addr (Or.inl busy)
  exact ⟨v, done, ctx, harmless _, harmless _⟩

/-- The second reply of the first peer is not counted. -/
theorem no_stale_acknowledgement_second_peer :
    ∃ v, run (.init 0 (fun _ => 0) (fun _ _ => 0) true) twoPeers = .ok v ∧ (v.reqs 0).ctx = some 1 ∧
      (0, [10, 0, 0, 1, 0, 1], some 0) ∈ forwards v ∧ Dropped v 0 0 [10, 0, 0, 1, 0, 1] ∧ NothingStale 0 v := by
  obtain ⟨v, done, live, ctx, standing, sent⟩ := twoPeers_run
  have clean := no_stale_acknowledgement 0 (fun _ => 0) (fun _ _ => 0) true (by decide) twoPeers_regular
    twoPeers_enters twoPeers_answered twoPeers_patient (.ended done) standing
  refine ⟨v, done, ctx, sent, ?_, clean⟩
  rcases clean.coming 0 _ _ sent with dropped | ⟨same, -⟩
  · exact dropped
  · rw [show slotOf 0 = 0 from rfl, ctx] at same
    cases same

/-- A request forwarded to the same peer twice; the first forward is retried. -/
def samePeerTwice : List (Kernel × Event) :=
  [(.silent, .accept [10, 0, 0, 9, 0, 9] .tcp),
   (.silent, .accept [10, 0, 0, 1, 0, 1] .tcp),
   (.silent, .ready 0 .socket (received (Wire.message 1 0
     [.forward false 64 [10, 0, 0, 1, 0, 1] 50 1 1 1 0 .tcp, .reply 16,
      .forward false 64 [10, 0, 0, 1, 0, 1] 50 1 1 1 0 .tcp, .reply 16, .reply 16, .eom]))),
   (.silent, .elapse 50000), (.silent, .ready 2 .timer (received [])),
   (.silent, .ready 1 .socket (received (Wire.message 0 0 [.eom])))]

/-- The reply to the retransmission completes the second forward. -/
theorem late_reply_acknowledges :
    ∃ w, run (.init 0 (fun _ => 0) (fun _ _ => 0) true) samePeerTwice = .ok w ∧
      reqGetById w 0 = some 0 ∧ AtForward w 0 ∧ (w.reqs 0).ctx = some 1 ∧
      (0, [10, 0, 0, 1, 0, 1], some 0) ∈ forwards w ∧ ¬ NothingStale 0 w := by
  have evaluated : ((run (.init 0 (fun _ => 0) (fun _ _ => 0) true) samePeerTwice).toOption.any fun w =>
      reqGetById w 0 = some 0 ∧ (w.reqs 0).currCmd = some 56 ∧
        (cmdAt (reqMem w 0) 56).isForward = true ∧ (w.reqs 0).ctx = some 1 ∧
        (0, [10, 0, 0, 1, 0, 1], some 0) ∈ forwards w ∧
        ((handleForwardReply w 0 0 [10, 0, 0, 1, 0, 1]).toOption.any fun r => r.2 = 1) = true) = true := by
    decide +kernel
  obtain ⟨w, ran, facts⟩ := exists_of_any evaluated
  obtain ⟨live, current, forward, ctx, sent, handled⟩ := of_decide_eq_true facts
  obtain ⟨⟨w', ret⟩, counted, done⟩ := exists_of_any handled
  have standing : AtForward w 0 := by
    intro cmd e
    rw [current] at e
    cases e
    exact forward
  refine ⟨w, toOption_eq_some ran, live, standing, ctx, sent, fun clean => ?_⟩
  rcases clean.coming 0 _ _ sent with dropped | ⟨same, -⟩
  · rw [Dropped, toOption_eq_some counted] at dropped
    cases dropped
    cases of_decide_eq_true done
  · rw [show slotOf 0 = 0 from rfl, ctx] at same
    cases same

end ReplyRuns
