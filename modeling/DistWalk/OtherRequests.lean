import DistWalk.ProgramFrames

/-!
# What is done for one request

A request is executed, answered, retried or given up. Whatever it does then, every other
request that is still there is carried along with all that is recorded of it, and nothing
is forwarded but for the request itself.
-/

namespace OtherRequests

open ByteMemory Message Connection PriorityQueue Worker Timeout Node Requests Transitions ReceiveQueue BufferLayout
  LayoutSteps LayoutRuns ReceivedBytes Forwarding Walkers ReturnCodes DeadPeer ProgramFrames

/-- The request in `slot` is taken up. -/
structure Beside (slot : Nat) (w w' : State) : Prop where
  sound : Sound w'
  lastReqs : w'.lastReqs = w.lastReqs
  others : ∀ x, x ≠ slot → (w'.reqs x).messagePtr ≠ none → Carried w w' x
  own : (w'.reqs slot).messagePtr ≠ none →
    (w.reqs slot).messagePtr ≠ none ∧ (w'.reqs slot).reqId = (w.reqs slot).reqId
  sent : ∃ new, forwards w' = new ++ forwards w ∧ ∀ f ∈ new, f.1 = (w.reqs slot).reqId

section Beside

variable {slot m cmd : Nat} {w v w' : State}

theorem beside_inert (sound : Sound w) (h : Inert w w') : Beside slot w w' := by
  obtain ⟨there, carries, same⟩ := h sound
  refine ⟨there, (ledger_eq (journal_eq same).1).2.1, fun x _ => carries x, fun live => ?_, [],
    (journal_eq same).2, fun f member => (List.not_mem_nil member).elim⟩
  have carried := carries slot live
  obtain ⟨q, placed, -⟩ := carried.stays
  exact ⟨by rw [placed]; exact Option.some_ne_none q, carried.reqId⟩

theorem Beside.trans (laid : Laid w) (live : (v.reqs slot).messagePtr ≠ none) (h : Beside slot w v)
    (h' : Beside slot v w') : Beside slot w w' := by
  obtain ⟨new, record, own⟩ := h.sent
  obtain ⟨new', record', own'⟩ := h'.sent
  refine ⟨h'.sound, h'.lastReqs.trans h.lastReqs, fun x other there => ?_, fun there => ?_, new' ++ new,
    by rw [record', record, List.append_assoc], fun f member => ?_⟩
  · have later := h'.others x other there
    obtain ⟨q, placed, -⟩ := later.stays
    exact (h.others x other (by rw [placed]; exact Option.some_ne_none q)).trans laid later
  · exact ⟨(h.own live).1, (h'.own there).2.trans (h.own live).2⟩
  · rcases List.mem_append.mp member with later | first
    · exact (own' f later).trans (h.own live).2
    · exact own f first

/-- Only the request itself changes, and stays where it is. -/
theorem beside_setReq (sound : Sound w) {r : ReqInfo} (same : place r = place (w.reqs slot))
    (id : r.reqId = (w.reqs slot).reqId) (further : Further w slot r.currCmd) : Beside slot w (w.setReq slot r) := by
  refine ⟨course_sound.advance w slot r same id further sound, rfl, fun x other live => ?_, fun live => ?_, [], rfl,
    fun f member => (List.not_mem_nil member).elim⟩
  · rw [setReq_other _ _ other] at live
    refine carried_same sound live (by rw [setReq_other _ _ other]) ?_
    rw [reqMem, setReq_other _ _ other]
    rfl
  · rw [setReq_self] at live ⊢
    exact ⟨(place_eq same).2.1 ▸ live, id⟩

theorem beside_setMsgStatus (sound : Sound w) (placed : (w.reqs slot).messagePtr = some m) (status : Nat) :
    Beside slot w (setMsgStatus w slot m status) :=
  ⟨course_sound.setMsgStatus w slot m status placed sound, rfl,
    fun _ other live => carried_setMsgStatus sound placed live other status, fun live => ⟨live, rfl⟩, [], rfl,
    fun _ member => (List.not_mem_nil member).elim⟩

theorem beside_startForward (sound : Sound w) (live : (w.reqs slot).messagePtr ≠ none) {sent : Bool}
    (started : startForward w slot m cmd = .ok (w', sent)) : Beside slot w w' := by
  have used : InUse w slot := sound.laid.busy _ (sound.laid.opened slot live)
  obtain ⟨sending, out, -, -, recorded⟩ := startForward_spec used started
  have there : Sound w' := course_sound.startForward started sound
  -- who is still there has not been released
  have stays : ∀ x, (w'.reqs x).messagePtr ≠ none → (w'.reqs x).reqId = ((beginContext w slot cmd).reqs x).reqId ∧
      (w'.reqs x).messagePtr = ((beginContext w slot cmd).reqs x).messagePtr := by
    intro x placed
    obtain ⟨q, at_⟩ := Option.ne_none_iff_exists'.mp placed
    exact (sending.remains x).place.resolve_right (there.standing x q at_).1
  refine ⟨there, (ledger_eq (ledger_startForward started)).2.1, fun x other placed => ?_, fun placed => ?_, _, recorded,
    fun f member => ?_⟩
  · have same : (beginContext w slot cmd).reqs x = w.reqs x := setReq_other _ _ other
    obtain ⟨id, message⟩ := stays x placed
    have core := sending.core x
    rw [same] at id message core
    have live := message ▸ placed
    have inUse : InUse (beginContext w slot cmd) x := by
      rw [InUse, same]
      exact sound.laid.busy _ (sound.laid.opened x live)
    simp only [Forwarding.core, Prod.mk.injEq] at core
    refine carried_same sound live (by simp only [record, core, id, message]) ?_
    rw [sending.reqMem inUse, reqMem, same]
    rfl
  · obtain ⟨-, id, message, -⟩ := beginContext_resident w slot cmd
    obtain ⟨id', message'⟩ := stays slot placed
    exact ⟨live, id'.trans id⟩
  · obtain ⟨branch, -, rfl⟩ := List.mem_map.mp (List.mem_reverse.mp member)
    exact (beginContext_resident w slot cmd).2.1

/-! ## Execution -/

theorem beside_processForward (sound : Sound w) (live : (w.reqs slot).messagePtr ≠ none) {ret : Int}
    (done : processForward w slot m cmd = .ok (w', ret)) : Beside slot w w' := by
  obtain ⟨⟨v, sent⟩, started, paired⟩ := map_eq_ok.mp done
  cases paired
  exact beside_startForward sound live started

theorem beside_emit (sound : Sound w) {e : Effect} (quiet : forwards (w.emit e) = forwards w) :
    Beside slot w (w.emit e) :=
  ⟨course_sound.still (still_emit w e) sound, rfl, fun _ _ live => carried_same sound live rfl rfl,
    fun live => ⟨live, rfl⟩, [], quiet, fun _ member => (List.not_mem_nil member).elim⟩

theorem beside_setCurrCmd (sound : Sound w) {itr : Option Nat} (further : Further w slot itr) :
    Beside slot w (setCurrCmd w slot itr) := beside_setReq sound rfl rfl further

theorem setCurrCmd_messagePtr (w : State) (slot : Nat) (itr : Option Nat) :
    ((setCurrCmd w slot itr).reqs slot).messagePtr = (w.reqs slot).messagePtr := by
  rw [setCurrCmd, setReq_self]

theorem beside_processFrom {mem : Mem} {fuel : Nat} {itr : Option Nat} {ret : Int} (sound : Sound w)
    (placed : (w.reqs slot).messagePtr = some m) (further : Further w slot itr)
    (done : processFrom mem slot m fuel w itr = .ok (w', ret)) : Beside slot w w' := by
  induction fuel generalizing w itr with
  | zero =>
    cases done
    exact beside_inert sound (.refl _)
  | succ fuel ih =>
    cases itr with
    | none =>
      cases done
      exact beside_inert sound (.refl _)
    | some cmd =>
      have live : (w.reqs slot).messagePtr ≠ none := by rw [placed]; exact Option.some_ne_none m
      -- past a task, the rest of the loop
      have onward : ∀ {e : Effect}, forwards (w.emit e) = forwards w →
          processFrom mem slot m fuel (w.emit e) (cmdBoundedSkip mem (some cmd) 1 (messageEnd mem m)) = .ok (w', ret) →
          Beside slot w w' := by
        intro e quiet rest
        have told : Beside slot w (w.emit e) := beside_emit sound quiet
        have there : ((w.emit e).reqs slot).messagePtr = some m := placed
        exact @Beside.trans slot w (w.emit e) _ sound.laid live told (ih told.sound there (further.skip 1) rest)
      have waits : ∀ {e : Effect}, forwards (w.emit e) = forwards w →
          Beside slot w (setCurrCmd (w.emit e) slot (cmdBoundedNext mem cmd (messageEnd mem m))) := by
        intro e quiet
        have told : Beside slot w (w.emit e) := beside_emit sound quiet
        exact @Beside.trans slot w (w.emit e) _ sound.laid live told (beside_setCurrCmd told.sound further.next)
      cases type : cmdAt mem cmd with
      | compute =>
        simp only [processFrom, type] at done
        exact onward rfl done
      | forwardBegin =>
        simp only [processFrom, type] at done
        have moved := beside_setCurrCmd sound further
        have live' : ((setCurrCmd w slot (some cmd)).reqs slot).messagePtr ≠ none := by
          rw [setCurrCmd_messagePtr]
          exact live
        exact moved.trans sound.laid live' (beside_processForward moved.sound live' done)
      | forwardContinue =>
        simp only [processFrom, type] at done
        exact beside_processForward sound live done
      | reply =>
        simp only [processFrom, type] at done
        exact beside_inert sound (inert_processReply placed done)
      | store =>
        simp only [processFrom, type] at done
        split at done
        · cases done
          exact beside_inert sound (.refl _)
        · split at done
          · exact onward rfl done
          · cases done
            exact waits rfl
      | load =>
        simp only [processFrom, type] at done
        split at done
        · cases done
          exact beside_inert sound (.refl _)
        · cases done
          exact waits rfl
      | eom | pskip | unknown code =>
        simp only [processFrom, type] at done
        cases done
        exact beside_inert sound (.refl _)

theorem beside_processMessages {ret : Int} (sound : Sound w) (done : processMessages w slot = .ok (w', ret)) :
    Beside slot w w' := by
  simp only [processMessages, processSingleMessage] at done
  split at done
  · cases done
  · rename_i placed
    exact beside_processFrom sound placed (further_currCmd w slot) done

/-! ## Replies and timeouts -/

theorem beside_completeContext (sound : Sound w) (placed : (w.reqs slot).messagePtr = some m) (status : Nat) :
    Beside slot w (completeContext w slot m status) := by
  have told := beside_setMsgStatus sound placed status
  exact told.trans sound.laid (by rw [setMsgStatus]; exact placed ▸ Option.some_ne_none m)
    (beside_setReq told.sound rfl rfl ((further_currCmd _ slot).skip 1))

theorem beside_skipOnFailure (sound : Sound w) (placed : (w.reqs slot).messagePtr = some m) :
    Beside slot w (skipOnFailure w slot m) := by
  have moved : Beside slot w (w.setReq slot { w.reqs slot with
      currCmd := cmdBoundedSkip (reqMem w slot) (w.reqs slot).currCmd (w.reqs slot).fwdOnFailSkip
        (messageEnd (reqMem w slot) m)
      ctx := none }) := beside_setReq sound rfl rfl ((further_currCmd w slot).skip _)
  have placed' : ((w.setReq slot { w.reqs slot with
      currCmd := cmdBoundedSkip (reqMem w slot) (w.reqs slot).currCmd (w.reqs slot).fwdOnFailSkip
        (messageEnd (reqMem w slot) m)
      ctx := none }).reqs slot).messagePtr = some m := by
    rw [setReq_self]
    exact placed
  exact moved.trans sound.laid (by rw [placed']; exact Option.some_ne_none m)
    (beside_setMsgStatus moved.sound placed' statusTimeout)

theorem skipOnFailure_messagePtr (w : State) (slot m : Nat) :
    ((skipOnFailure w slot m).reqs slot).messagePtr = (w.reqs slot).messagePtr := by
  simp [skipOnFailure, setMsgStatus, State.setConn, State.setReq]

/-- Whatever the reply does, it does to the request that it names. -/
theorem beside_handleForwardReply {reqId status : Nat} {matchAddr : Addr} {ret : Int} (sound : Sound w)
    (found : reqGetById w reqId = some slot)
    (done : handleForwardReply w reqId status matchAddr = .ok (w', ret)) : Beside slot w w' := by
  simp only [handleForwardReply, found] at done
  split at done
  · cases done
  · rename_i m placed
    split at done
    · cases done
    · cases done
      exact beside_inert sound (.refl _)
    · rename_i id search
      split at done
      · cases done
        exact beside_inert sound (.refl _)
      · have counted : Beside slot w (countReply w slot id) := beside_setReq sound rfl rfl (further_currCmd w slot)
        have placed' : ((countReply w slot id).reqs slot).messagePtr = some m :=
          (place_eq ((still_countReply w slot id).reqs slot)).2.1.trans placed
        have live' : ((countReply w slot id).reqs slot).messagePtr ≠ none := by
          rw [placed']
          exact Option.some_ne_none m
        split at done
        · simp only [resumeAfterContext] at done
          split at done
          · cases done
          · rename_i u left removed
            have completed := beside_completeContext counted.sound placed' status
            have there : ((completeContext (countReply w slot id) slot m status).reqs slot).messagePtr ≠ none := by
              rw [completeContext, setReq_self]
              exact live'
            have cancelled : Beside slot (completeContext (countReply w slot id) slot m status) u :=
              beside_inert completed.sound (inert_removeTimeout removed)
            have live'' : (u.reqs slot).messagePtr ≠ none := by
              rw [(place_eq ((still_removeTimeout removed).reqs slot)).2.1]
              exact there
            have executed := beside_processMessages cancelled.sound done
            exact counted.trans sound.laid live' (completed.trans counted.sound.laid there
              (cancelled.trans completed.sound.laid live'' executed))
        · cases done
          exact counted

theorem beside_expireRequest (sound : Sound w) (done : expireRequest w slot = .ok w') : Beside slot w w' := by
  have live := expireRequest_placed done
  obtain ⟨m, placed⟩ := Option.ne_none_iff_exists'.mp live
  simp only [expireRequest] at done
  split at done
  · obtain ⟨⟨v, r⟩, executed, paired⟩ := map_eq_ok.mp done
    cases paired
    have used : Beside slot w (w.setReq slot { w.reqs slot with fwdRetries := (w.reqs slot).fwdRetries - 1 }) :=
      beside_setReq sound rfl rfl (further_currCmd w slot)
    refine used.trans sound.laid ?_ (beside_processMessages used.sound executed)
    rw [setReq_self]
    exact live
  · simp only [placed] at done
    split at done
    · obtain ⟨⟨v, r⟩, executed, paired⟩ := map_eq_ok.mp done
      cases paired
      have skipped := beside_skipOnFailure sound placed
      refine skipped.trans sound.laid ?_ (beside_processMessages skipped.sound executed)
      rw [skipOnFailure_messagePtr]
      exact live
    · cases done
      have told := beside_setMsgStatus sound placed statusTimeout
      have removed : Inert (setMsgStatus w slot m statusTimeout)
          (connReqRemove (setMsgStatus w slot m statusTimeout) (w.reqs slot).connId slot) := inert_connReqRemove placed
      have counted : ∀ {u : State} {n : Int}, Inert u { u with activeReqs := n } :=
        inert_aside rfl rfl rfl (Nat.le_refl _) rfl
      exact @Beside.trans slot w (setMsgStatus w slot m statusTimeout) _ sound.laid live told
        (beside_inert told.sound (removed.trans counted))

/-- The timeout that is due concerns the request that it names, if there is one. -/
theorem handleTimeout_beside (sound : Sound w) (done : handleTimeout w = .ok w') :
    Inert w w' ∨ ∃ top slot, pqueueTop w.timeoutQueue = some top ∧
      reqGetById w (w.timeoutQueue.nodes top).data = some slot ∧ (w.reqs slot).messagePtr ≠ none ∧
        Beside slot w w' := by
  simp only [handleTimeout] at done
  split at done
  · exact Or.inl (inert_timerfdSettime done)
  · rename_i top due
    split at done
    · exact Or.inl (inert_timerfdSettime done)
    · rename_i slot found
      split at done
      · cases done
      · rename_i v left removed
        have cancelled : Beside slot w v := beside_inert sound (inert_removeTimeout removed)
        have live := expireRequest_placed done
        have same := (place_eq ((still_removeTimeout removed).reqs slot)).2.1
        exact Or.inr ⟨top, slot, due, found, same ▸ live,
          cancelled.trans sound.laid live (beside_expireRequest cancelled.sound done)⟩

theorem storageAck_cases {reqId : Nat} (done : storageAck w reqId = .ok w') :
    Inert w w' ∨ ∃ slot ret, reqGetById w reqId = some slot ∧ processMessages w slot = .ok (w', ret) := by
  simp only [storageAck] at done
  split at done
  · cases done
    exact Or.inl (.refl w)
  · rename_i slot found
    obtain ⟨⟨v, r⟩, executed, paired⟩ := map_eq_ok.mp done
    cases paired
    exact Or.inr ⟨slot, r, found, executed⟩

/-! ## A request that enters -/

/-- Entering a request does nothing but to use up an id. -/
theorem enterRequest_uses {c m : Nat} {result : Option Nat} (bounded : w.lastReqs ≤ noReq)
    (fresh : w.lastReqs ≠ noReq) (added : enterRequest w c m = (v, result)) :
    v.storageDevices = w.storageDevices ∧ v.lastReqs = w.lastReqs + 1 ∧ work v = work w ∧ forwards v = forwards w := by
  have linked : ∀ (u : State) (s p : Option Nat), journal (setPrev u s p) = journal u := fun u s p => by
    cases s <;> rfl
  have used : journal v = journal { w with lastReqs := (w.lastReqs + 1) % 2 ^ 32 } := by
    rcases enterRequest_cases w c m with ⟨-, -, refused⟩ | ⟨free, -⟩
    · rw [added] at refused
      rw [show v = _ from refused]
    · simp only [enterRequest, connReqAdd, reqAlloc, free, ne_eq, not_true_eq_false, if_false, Prod.mk.injEq] at added
      rw [← added.1]
      exact linked _ _ _
  obtain ⟨same, sent⟩ := journal_eq used
  obtain ⟨devices, numbers, worked⟩ := ledger_eq same
  simp only [noReq] at bounded fresh
  refine ⟨devices, numbers.trans ?_, worked, sent⟩
  rw [Nat.mod_eq_of_lt (by omega)]

/-- The others are carried along where a request enters. -/
theorem carried_enterRequest {c x : Nat} (sound : Sound w) (added : enterRequest w c m = (v, some slot))
    (other : x ≠ slot) (live : (v.reqs x).messagePtr ≠ none) : Carried w v x := by
  have listless : Listless fun r : ReqInfo => (record r, r.messagePtr, r.currCmd) := ⟨fun _ _ => rfl, fun _ _ => rfl⟩
  obtain ⟨-, -, -, list, table⟩ := enterRequest_placed added
  rcases enterRequest_cases w c m with ⟨-, none, -⟩ | ⟨free, some⟩
  · rw [added] at none
    cases none
  · rw [added] at some
    cases some
    have same := listless.enterRequest_other w c m other
    rw [added] at same
    have kept := same
    simp only [record, Prod.mk.injEq] at kept
    obtain ⟨⟨-, conn, -⟩, message, -⟩ := kept
    refine carried_same sound (message ▸ live) same ?_
    rw [reqMem, conn, table, reqMem]
    by_cases own : (w.reqs x).connId = c
    · rw [own, Function.update_self]
    · rw [Function.update_of_ne own]

/-- A request enters under the next id, in the slot of that id. -/
theorem enterRequest_numbered {c : Nat} (added : enterRequest w c m = (v, some slot)) :
    slotOf w.lastReqs = slot ∧ (v.reqs slot).reqId = w.lastReqs := by
  have listless : Listless ReqInfo.reqId := ⟨fun _ _ => rfl, fun _ _ => rfl⟩
  rcases enterRequest_cases w c m with ⟨-, none, -⟩ | ⟨free, some⟩
  · rw [added] at none
    cases none
  · have entered := listless.enterRequest_self w c m free
    rw [added] at some entered
    obtain rfl := Option.some.inj some
    exact ⟨rfl, entered⟩

end Beside

end OtherRequests
