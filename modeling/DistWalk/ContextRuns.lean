import DistWalk.ReplyRuns

/-!
# FORWARD contexts in the runs of a node

A context of a request begins where `start_forward` is called and none is in progress. From
there to wherever the request is found in that context, the run of the node is a run of the
protocol: replies to the request, expirations of its timeout, and what leaves it alone. The
conditions on the retries are conditions on the timers of the run.
-/

namespace ContextRuns

open ByteMemory Message Connection PriorityQueue Worker Timeout Node Requests Transitions ReceiveQueue BufferLayout
  LayoutSteps LayoutRuns Batches DeadPeer ForwardReply Forwarding Quorum ForwardContext ForwardQuorum ProgramFrames
  StaleReply OtherRequests RoundRuns ReplyRuns TimeoutTable

/-- If the request has a retry left when its timeout expires, the messages of the retry go
out, and what is logged behind the branches that have replied can be printed. -/
def ResendsTimer (reqId : Nat) (w : State) : Prop :=
  AtHead w reqId → 0 < (w.reqs (slotOf reqId)).fwdRetries →
    retryGoesOut w reqId = true ∧ logsReplied w (slotOf reqId) = true

def Resends (reqId : Nat) (w : State) (events : List (Kernel × Node.Event)) : Prop :=
  ∀ u, Fires w events u → ResendsTimer reqId u

/-- A new context of the request begins on the way from `w`, and in `w'` it has been sent. -/
def Opens (reqId : Nat) (w w' : State) : Prop :=
  ∃ u m cmd sent, Leads w u ∧ InUse u (slotOf reqId) ∧ (u.reqs (slotOf reqId)).ctx = none ∧
    startForward u (slotOf reqId) m cmd = .ok (w', sent)

/-- A context of the request began in `u`, where `start_forward` was called at `cmd`, and `occurred`
has happened to it since. -/
structure Underway (reqId : Nat) (w₀ u : State) (m cmd : Nat) (occurred : List (Quorum.Event Addr))
    (w : State) : Prop where
  reached : Leads w₀ u
  fresh : (u.reqs (slotOf reqId)).ctx = none
  ctx : (w.reqs (slotOf reqId)).ctx = some u.nextCtx
  runs : ∃ w₁ sent, startForward u (slotOf reqId) m cmd = .ok (w₁, sent) ∧
    ∀ K : Context, K.reqId = reqId → Starting K u m cmd → forwardGoesOut u K.slot m cmd = true →
      Run K w₁ occurred w

/-- What the tables of a run meet. -/
structure Grounded (w : State) : Prop where
  housed : Housed w
  slotted : Slotted w
  numbered : Numbered w

theorem Grounded.leads {w w' : State} (h : Grounded w) (path : Leads w w') : Grounded w' :=
  ⟨path.housed h.housed, slotted_leads path h.slotted, h.numbered.leads path⟩

section Underway

variable {reqId m cmd : Nat} {w₀ u v w w' : State} {occurred : List (Quorum.Event Addr)}

theorem Opens.after (path : Leads w v) (h : Opens reqId v w') : Opens reqId w w' := by
  obtain ⟨u, m, cmd, sent, before, rest⟩ := h
  exact ⟨u, m, cmd, sent, path.trans before, rest⟩

/-- A context that `start_forward` leaves in progress has the number it had, or the next one. -/
theorem startForward_ctx {slot : Nat} (used : InUse u slot) {sent : Bool}
    (started : startForward u slot m cmd = .ok (w', sent)) :
    (w'.reqs slot).ctx = (u.reqs slot).ctx.or (some u.nextCtx) := by
  obtain ⟨sending, -⟩ := startForward_spec used started
  have core := sending.core slot
  simp only [Forwarding.core, Prod.mk.injEq] at core
  obtain ⟨-, -, -, -, -, -, -, -, ctx⟩ := core
  rw [ctx, beginContext_req]
  split <;> rfl

theorem Opens.underway (h : Opens reqId w w') (path : Leads w₀ w) :
    ∃ u m cmd occurred, Underway reqId w₀ u m cmd occurred w' := by
  obtain ⟨u, m, cmd, sent, before, used, fresh, started⟩ := h
  refine ⟨u, m, cmd, [], path.trans before, fresh, ?_, w', sent, started, fun K _ _ _ => .start⟩
  rw [startForward_ctx used started, fresh]
  rfl

/-- As long as the request is in the context, the collection goes on. -/
theorem Underway.collecting (h : Underway reqId w₀ u m cmd occurred w) (ground : Grounded w₀) {K : Context}
    (own : K.reqId = reqId) (starting : Starting K u m cmd) (out : forwardGoesOut u K.slot m cmd = true) :
    ∃ w₁ sent, startForward u K.slot m cmd = .ok (w₁, sent) ∧ Run K w₁ occurred w ∧ Grounded w ∧
      ¬ Ended K.config (tally K.config occurred) ∧ Collecting K (tally K.config occurred) w := by
  subst own
  obtain ⟨w₁, sent, started, runs⟩ := h.runs
  have before := ground.leads h.reached
  obtain ⟨w₁', sent', started', collecting⟩ := starting.collecting before.housed out
  cases started.symm.trans started'
  have run := runs K rfl starting out
  have begun := before.leads (leads_startForward started)
  have open_ : ¬ Ended K.config (tally K.config occurred) := by
    intro ended
    refine (run.over collecting begun.housed begun.slotted begun.numbered ended).2 K.slot ?_
    have number := starting.number
    rw [show (u.reqs K.slot).ctx = none from h.fresh, Option.none_or] at number
    exact h.ctx.trans number
  exact ⟨w₁, sent, started, run, begun.leads run.leads, open_,
    run.collecting collecting begun.housed begun.slotted open_⟩

/-- Something happens to the context, and the request stays in it. -/
theorem Underway.onward (h : Underway reqId w₀ u m cmd occurred w) (ground : Grounded w₀) (e : Quorum.Event Addr)
    (ctx : (w'.reqs (slotOf reqId)).ctx = (w.reqs (slotOf reqId)).ctx)
    (goes : ∀ (K : Context) (w₁ : State), K.reqId = reqId → ¬ Ended K.config (tally K.config occurred) →
      Collecting K (tally K.config occurred) w → Run K w₁ occurred w → Run K w₁ (occurred ++ [e]) w') :
    Underway reqId w₀ u m cmd (occurred ++ [e]) w' := by
  obtain ⟨w₁, sent, started, runs⟩ := h.runs
  refine ⟨h.reached, h.fresh, ctx.trans h.ctx, w₁, sent, started, fun K own starting out => ?_⟩
  obtain ⟨-, -, -, -, -, open_, collecting⟩ := h.collecting ground own starting out
  exact goes K w₁ own open_ collecting (runs K own starting out)

/-! ## What leaves the context alone -/

section Undisturbed

variable {slot : Nat} {stops : List Stop}

theorem standing_of_ahead {dests : List Addr} {rest : List Stop}
    (h : Ahead w slot ((.forwardBegin, dests) :: rest)) : standing w slot = some (.forwardBegin, dests) := by
  obtain ⟨m, placed, behind, read⟩ := h
  cases current : (w.reqs slot).currCmd with
  | none =>
    rw [current] at read
    cases read
  | some cmd =>
    rw [current, route_cons (behind cmd current).inBounds, List.cons.injEq, stopAt, Prod.mk.injEq] at read
    obtain ⟨⟨type, own⟩, -⟩ := read
    rw [type] at own
    simp only [standing, placed, current, type]
    exact congrArg _ (congrArg _ own)

/-- A request in a context stands at its FORWARD_BEGIN, wherever its message goes. -/
theorem undisturbed_carried (h : Traced False reqId w stops) (busy : (w.reqs (slotOf reqId)).ctx ≠ none)
    (laid : Laid w) (carried : Carried w w' (slotOf reqId)) (path : Leads w w') :
    Undisturbed (slotOf reqId) w w' ∧
      (w'.reqs (slotOf reqId)).fwdTimeout = (w.reqs (slotOf reqId)).fwdTimeout := by
  obtain ⟨number, ctx⟩ := Option.ne_none_iff_exists'.mp busy
  obtain ⟨dests, rest, rfl, -⟩ := h.inside number ctx
  obtain ⟨m, -, stays⟩ := carried.stays
  have kept := stays.kept
  simp only [record, Prod.mk.injEq] at kept
  obtain ⟨id, -, -, left, mask, retries, timeout, onFailSkip, ctx'⟩ := kept
  refine ⟨⟨path, ?_, ?_⟩, timeout⟩
  · simp only [tracked, id, ctx', left, mask, retries, onFailSkip]
  · rw [standing_of_ahead h.ahead, standing_of_ahead (h.ahead.carried laid carried)]

/-- A context in progress is sent out again. -/
theorem undisturbed_startForward (named : reqId ≠ noReq) (used : InUse w (slotOf reqId))
    (busy : (w.reqs (slotOf reqId)).ctx ≠ none) (waits : (w.reqs (slotOf reqId)).fwdRepliesLeft ≠ -1) {sent : Bool}
    (started : startForward w (slotOf reqId) m cmd = .ok (w', sent))
    (live : (w'.reqs (slotOf reqId)).reqId = reqId) :
    Undisturbed (slotOf reqId) w w' ∧
      (w'.reqs (slotOf reqId)).fwdTimeout = (w.reqs (slotOf reqId)).fwdTimeout := by
  obtain ⟨number, ctx⟩ := Option.ne_none_iff_exists'.mp busy
  obtain ⟨sending, -⟩ := startForward_spec used started
  have mem := sending.reqMem (beginContext_inUse cmd used)
  rw [beginContext_running waits ctx] at sending mem
  have core := sending.core (slotOf reqId)
  rcases (sending.remains (slotOf reqId)).place with ⟨id, message⟩ | free
  · simp only [Forwarding.core, Prod.mk.injEq] at core
    obtain ⟨-, -, left, mask, retries, timeout, onFailSkip, current, ctx'⟩ := core
    refine ⟨⟨leads_startForward started, ?_, ?_⟩, timeout⟩
    · simp only [tracked, id, ctx', left, mask, retries, onFailSkip]
    · rw [standing, message, current, mem]
      rfl
  · exact absurd (live.symm.trans free) named

end Undisturbed

/-! ## Execution -/

/-- A request in a context is executed: the context is sent out again. -/
theorem execute_busy {stops : List Stop} (h : Traced False reqId w stops)
    (busy : (w.reqs (slotOf reqId)).ctx ≠ none) {ret : Int}
    (done : processMessages w (slotOf reqId) = .ok (w', ret)) :
    ∃ m cmd sent, startForward w (slotOf reqId) m cmd = .ok (w', sent) := by
  obtain ⟨number, ctx⟩ := Option.ne_none_iff_exists'.mp busy
  obtain ⟨dests, rest, rfl, -⟩ := h.inside number ctx
  obtain ⟨m, cmd, message, current, begins, -⟩ := standing_eq_some (standing_of_ahead h.ahead)
  simp only [processMessages, processSingleMessage, message, current, processFrom, begins,
    setCurrCmd_same current] at done
  obtain ⟨⟨v, sent⟩, started, paired⟩ := map_eq_ok.mp done
  cases paired
  exact ⟨m, cmd, sent, started⟩

/-- A request in no context is executed: it comes to a new one, or to none. -/
theorem opens_processFrom {mem : Mem} {fuel : Nat} {itr : Option Nat} {ret : Int}
    (used : InUse w (slotOf reqId)) (idle : (w.reqs (slotOf reqId)).ctx = none)
    (placed : (w'.reqs (slotOf reqId)).messagePtr ≠ none)
    (done : processFrom mem (slotOf reqId) m fuel w itr = .ok (w', ret)) :
    (w'.reqs (slotOf reqId)).ctx = none ∨ Opens reqId w w' := by
  induction fuel generalizing w itr with
  | zero =>
    cases done
    exact Or.inl idle
  | succ fuel ih =>
    cases itr with
    | none =>
      cases done
      exact Or.inl idle
    | some cmd =>
      have onward : ∀ (e : Effect) (next : Option Nat),
          processFrom mem (slotOf reqId) m fuel (w.emit e) next = .ok (w', ret) →
          (w'.reqs (slotOf reqId)).ctx = none ∨ Opens reqId w w' := by
        intro e next rest
        have later := ih (w := w.emit e) used idle rest
        exact later.imp_right (Opens.after (silent_emit w e).leads)
      have waits : ∀ (e : Effect) (next : Option Nat),
          ((setCurrCmd (w.emit e) (slotOf reqId) next).reqs (slotOf reqId)).ctx = none := by
        intro e next
        rw [setCurrCmd, setReq_self]
        exact idle
      have sends : ∀ {v : State}, Leads w v → InUse v (slotOf reqId) → (v.reqs (slotOf reqId)).ctx = none →
          processForward v (slotOf reqId) m cmd = .ok (w', ret) → Opens reqId w w' := by
        intro v path used' idle' forwarded
        obtain ⟨⟨u, sent⟩, started, paired⟩ := map_eq_ok.mp forwarded
        cases paired
        exact ⟨v, m, cmd, sent, path, used', idle', started⟩
      cases type : cmdAt mem cmd with
      | compute =>
        simp only [processFrom, type] at done
        exact onward _ _ done
      | forwardBegin =>
        simp only [processFrom, type] at done
        have here : (setCurrCmd w (slotOf reqId) (some cmd)).reqs (slotOf reqId) =
            { w.reqs (slotOf reqId) with currCmd := some cmd } := setReq_self w _ _
        refine Or.inr (sends (silent_setCurrCmd w _ _).leads ?_ ?_ done)
        · rw [InUse, here]
          exact used
        · rw [here]
          exact idle
      | forwardContinue =>
        simp only [processFrom, type] at done
        exact Or.inr (sends (.refl w) used idle done)
      | reply =>
        simp only [processFrom, type] at done
        exact absurd (processReply_gone done) placed
      | store =>
        simp only [processFrom, type] at done
        split at done
        · cases done
          exact Or.inl idle
        · split at done
          · exact onward _ _ done
          · cases done
            exact Or.inl (waits _ _)
      | load =>
        simp only [processFrom, type] at done
        split at done
        · cases done
          exact Or.inl idle
        · cases done
          exact Or.inl (waits _ _)
      | eom | pskip | unknown code =>
        simp only [processFrom, type] at done
        cases done
        exact Or.inl idle

theorem execute_idle {ret : Int} (used : InUse w (slotOf reqId)) (idle : (w.reqs (slotOf reqId)).ctx = none)
    (placed : (w'.reqs (slotOf reqId)).messagePtr ≠ none)
    (done : processMessages w (slotOf reqId) = .ok (w', ret)) :
    (w'.reqs (slotOf reqId)).ctx = none ∨ Opens reqId w w' := by
  simp only [processMessages, processSingleMessage] at done
  split at done
  · cases done
  · exact opens_processFrom used idle placed done

/-! ## Replies and expirations -/

theorem inUse_of_placed (sound : Sound w) {slot : Nat} (placed : (w.reqs slot).messagePtr ≠ none) : InUse w slot :=
  sound.laid.busy _ (sound.laid.opened slot placed)

/-- A reply leaves the request in its context, or ends it; then the request may come to a new one. -/
theorem reply_contexts (sound : Sound w) {status : Nat} {addr : Addr} {ret : Int}
    (found : reqGetById w reqId = some (slotOf reqId)) (placed : (w'.reqs (slotOf reqId)).messagePtr ≠ none)
    (handled : handleForwardReply w reqId status addr = .ok (w', ret)) :
    (w'.reqs (slotOf reqId)).ctx = (w.reqs (slotOf reqId)).ctx ∨ (w'.reqs (slotOf reqId)).ctx = none ∨
      Opens reqId w w' := by
  simp only [handleForwardReply, found] at handled
  split at handled
  · cases handled
  · rename_i m message
    split at handled
    · cases handled
    · cases handled
      exact Or.inl rfl
    · rename_i id search
      split at handled
      · cases handled
        exact Or.inl rfl
      · have here : (countReply w (slotOf reqId) id).reqs (slotOf reqId) = { w.reqs (slotOf reqId) with
            fwdRepliesMask := (w.reqs (slotOf reqId)).fwdRepliesMask ||| ackBit id
            fwdRepliesLeft := (w.reqs (slotOf reqId)).fwdRepliesLeft - 1 } := setReq_self w _ _
        split at handled
        · rename_i last
          simp only [resumeAfterContext] at handled
          split at handled
          · cases handled
          · rename_i v left removed
            have counted : Sound (countReply w (slotOf reqId) id) := course_sound.still (still_countReply w _ id) sound
            have completed := course_sound.completeContext status (by rw [here]; exact message) counted
            have there : Sound v := course_sound.still (still_removeTimeout removed) completed
            have path : Leads w v := by
              have acked := Leads.one (Step.ack w (slotOf reqId) id m status)
              rw [acknowledge, if_pos last] at acked
              exact acked.trans (leads_removeTimeout removed)
            have idle : (v.reqs (slotOf reqId)).ctx = none := by
              obtain ⟨node, same⟩ := (removeTimeout_retimed removed).reqs (slotOf reqId)
              rw [same, completeContext, setReq_self]
            have used := inUse_of_placed there (processMessages_placed handled)
            exact Or.inr ((execute_idle used idle placed handled).imp_right (Opens.after path))
        · cases handled
          exact Or.inl (by rw [here])

/-- An expiration retries the context or gives it up. -/
theorem expire_contexts (h : Follows False reqId w) (sound : Sound w) {top : Nat}
    (due : pqueueTop w.timeoutQueue = some top) (data : (w.timeoutQueue.nodes top).data = reqId)
    (found : reqGetById w reqId = some (slotOf reqId)) (placed : (w'.reqs (slotOf reqId)).messagePtr ≠ none)
    (handled : handleTimeout w = .ok w') :
    (w'.reqs (slotOf reqId)).ctx = (w.reqs (slotOf reqId)).ctx ∨ (w'.reqs (slotOf reqId)).ctx = none ∨
      Opens reqId w w' := by
  have live := (reqGetById_eq_some.mp found).2
  simp only [handleTimeout, due, data, found] at handled
  split at handled
  · cases handled
  · rename_i w₁ left removed
    have timed := still_removeTimeout removed
    have sound₁ := course_sound.still timed sound
    have cancelled := leads_removeTimeout removed
    obtain ⟨node, same⟩ := (removeTimeout_retimed removed).reqs (slotOf reqId)
    have held := expireRequest_placed handled
    obtain ⟨stops, traced⟩ := h (by rwa [← (place_eq (timed.reqs _)).2.1]) live
    have traced₁ := traced.retimed (removeTimeout_retimed removed)
    simp only [expireRequest] at handled
    split at handled
    · obtain ⟨⟨v, ret⟩, executed, paired⟩ := map_eq_ok.mp handled
      cases paired
      have here : (useRetry w₁ (slotOf reqId)).reqs (slotOf reqId) =
          { w₁.reqs (slotOf reqId) with
            fwdRetries := (w₁.reqs (slotOf reqId)).fwdRetries - 1 } := setReq_self w₁ _ _
      have retried : Traced False reqId (useRetry w₁ (slotOf reqId)) stops := by
        refine traced₁.frame (by rw [here]; rfl) ?_ rfl
        rw [reqMem, here]
        rfl
      have sound₂ : Sound (useRetry w₁ (slotOf reqId)) := course_sound.still (still_setReq w₁ _ rfl rfl) sound₁
      have used := retried.inUse sound₂
      by_cases idle : ((useRetry w₁ (slotOf reqId)).reqs (slotOf reqId)).ctx = none
      · have path : Leads w (useRetry w₁ (slotOf reqId)) := cancelled.trans (.one (.retry w₁ (slotOf reqId)))
        exact Or.inr ((execute_idle used idle placed executed).imp_right (Opens.after path))
      · obtain ⟨m, cmd, sent, started⟩ := execute_busy retried idle executed
        obtain ⟨number, ctx⟩ := Option.ne_none_iff_exists'.mp idle
        refine Or.inl ((startForward_ctx used started).trans ?_)
        rw [ctx, Option.some_or, ← ctx, here, same]
    · obtain ⟨m, message⟩ := Option.ne_none_iff_exists'.mp held
      simp only [message] at handled
      split at handled
      · obtain ⟨⟨v, ret⟩, executed, paired⟩ := map_eq_ok.mp handled
        cases paired
        have idle : ((skipOnFailure w₁ (slotOf reqId) m).reqs (slotOf reqId)).ctx = none :=
          congrArg ReqInfo.ctx (setReq_self w₁ _ _)
        have used := inUse_of_placed (course_sound.skipOnFailure message sound₁) (processMessages_placed executed)
        have path : Leads w (skipOnFailure w₁ (slotOf reqId) m) :=
          cancelled.trans (.one (.skip w₁ (slotOf reqId) m))
        exact Or.inr ((execute_idle used idle placed executed).imp_right (Opens.after path))
      · cases handled
        exact absurd (reqUnlink_messagePtr _ _) placed

end Underway

/-! ## The request in each step -/

/-- The request is followed, and so is the context it is in. -/
structure Followed (reqId : Nat) (w₀ w : State) : Prop extends Tracks False reqId w where
  reached : Leads w₀ w
  within : (w.reqs (slotOf reqId)).messagePtr ≠ none → (w.reqs (slotOf reqId)).reqId = reqId →
    (w.reqs (slotOf reqId)).ctx ≠ none → ∃ u m cmd occurred, Underway reqId w₀ u m cmd occurred w

section Followed

variable {reqId slot m c : Nat} {w₀ w v w' : State}

theorem Followed.passes (h : Followed reqId w₀ w) (ground : Grounded w₀) (there : Tracks False reqId w')
    (alone : LeavesAlone reqId w w') (path : Leads w w') : Followed reqId w₀ w' := by
  refine ⟨there, h.reached.trans path, fun placed live busy => ?_⟩
  have carried := alone.carried placed live
  obtain ⟨p, placed', stays⟩ := carried.stays
  have kept := stays.kept
  simp only [record, Prod.mk.injEq] at kept
  obtain ⟨id, -, -, -, -, -, -, -, ctx⟩ := kept
  have placed₀ : (w.reqs (slotOf reqId)).messagePtr ≠ none := by
    rw [placed']
    exact Option.some_ne_none p
  have live₀ := id.symm.trans live
  rw [ctx] at busy
  obtain ⟨stops, traced⟩ := h.follows placed₀ live₀
  obtain ⟨undisturbed, timeout⟩ := undisturbed_carried traced busy h.laid carried path
  obtain ⟨u, m, cmd, occurred, underway⟩ := h.within placed₀ live₀ busy
  refine ⟨u, m, cmd, _, underway.onward ground .pass ctx fun K w₁ own _ _ run => ?_⟩
  subst own
  exact .pass run undisturbed timeout

theorem Followed.inert (h : Followed reqId w₀ w) (ground : Grounded w₀) (i : Inert w w') (path : Leads w w') :
    Followed reqId w₀ w' :=
  h.passes ground (h.toTracks.inert i) (leavesAlone_inert h.toSound i) path

/-- Something is done for the request in `slot`, which may be the one that is followed. -/
theorem Followed.beside (h : Followed reqId w₀ w) (ground : Grounded w₀) (there : Tracks False reqId w')
    (b : Beside slot w w') (path : Leads w w') (housed : slotOf (w.reqs slot).reqId = slot)
    (own : slot = slotOf reqId → (w.reqs slot).reqId = reqId → (w'.reqs slot).messagePtr ≠ none →
      (w'.reqs slot).reqId = reqId → (w'.reqs slot).ctx ≠ none →
        ∃ u m cmd occurred, Underway reqId w₀ u m cmd occurred w') : Followed reqId w₀ w' := by
  by_cases same : (w.reqs slot).reqId = reqId
  · have home : slot = slotOf reqId := by rw [← same, housed]
    refine ⟨there, h.reached.trans path, fun placed live busy => ?_⟩
    rw [← home] at placed live busy
    exact own home same placed live busy
  · exact h.passes ground there (leavesAlone_beside b same) path

theorem Followed.execute (h : Followed reqId w₀ w) (ground : Grounded w₀) (named : reqId ≠ noReq) {ret : Int}
    (housed : slotOf (w.reqs slot).reqId = slot) (done : processMessages w slot = .ok (w', ret)) :
    Followed reqId w₀ w' := by
  refine h.beside ground (h.toTracks.execute named housed done) (beside_processMessages h.toSound done)
    (leads_processMessages done) housed fun home live placed live' busy' => ?_
  subst home
  have held := processMessages_placed done
  obtain ⟨stops, traced⟩ := h.follows held live
  have used := traced.inUse h.toSound
  by_cases busy : (w.reqs (slotOf reqId)).ctx = none
  · rcases execute_idle used busy placed done with idle | opens
    · exact absurd idle busy'
    · exact opens.underway h.reached
  · -- a context in progress is sent out again
    obtain ⟨m, cmd, sent, started⟩ := execute_busy traced busy done
    obtain ⟨u, m', cmd', occurred, underway⟩ := h.within held live busy
    have ctx : (w'.reqs (slotOf reqId)).ctx = (w.reqs (slotOf reqId)).ctx := by
      obtain ⟨number, is⟩ := Option.ne_none_iff_exists'.mp busy
      rw [startForward_ctx used started, is, Option.some_or]
    refine ⟨u, m', cmd', _, underway.onward ground .pass ctx fun K w₁ own open_ collecting run => ?_⟩
    subst own
    have waits : (w.reqs (slotOf K.reqId)).fwdRepliesLeft ≠ -1 := by
      have positive := collecting.waiting open_
      simp only [Context.slot] at positive
      omega
    obtain ⟨undisturbed, timeout⟩ := undisturbed_startForward named used busy waits started live'
    exact .pass run undisturbed timeout

theorem Followed.storage (h : Followed reqId w₀ w) (ground : Grounded w₀) (named : reqId ≠ noReq) {id : Nat}
    (done : storageAck w id = .ok w') : Followed reqId w₀ w' := by
  simp only [storageAck] at done
  split at done
  · cases done
    exact h
  · rename_i slot found
    obtain ⟨⟨v, r⟩, executed, paired⟩ := map_eq_ok.mp done
    cases paired
    exact h.execute ground named (housed_of_found found) executed

theorem Followed.reply (h : Followed reqId w₀ w) (ground : Grounded w₀) (named : reqId ≠ noReq) {id status : Nat}
    {addr : Addr} {ret : Int} (handled : handleForwardReply w id status addr = .ok (w', ret)) :
    Followed reqId w₀ w' := by
  have there := h.toTracks.reply named False.elim handled
  cases found : reqGetById w id with
  | none =>
    simp only [handleForwardReply, found] at handled
    cases handled
    exact h
  | some slot =>
    refine h.beside ground there (beside_handleForwardReply h.toSound found handled) (leads_handleForwardReply handled)
      (housed_of_found found) fun home live placed _ busy' => ?_
    have is : id = reqId := (reqGetById_eq_some.mp found).2.symm.trans live
    subst is home
    rcases reply_contexts h.toSound found placed handled with same | idle | opens
    · obtain ⟨u, m, cmd, occurred, underway⟩ :=
        h.within (handleForwardReply_placed found handled) live (same ▸ busy')
      refine ⟨u, m, cmd, _, underway.onward ground (.reply addr) same fun K w₁ own _ _ run => ?_⟩
      subst own
      exact .reply run status addr handled
    · exact absurd idle busy'
    · exact opens.underway h.reached

theorem Followed.timer (h : Followed reqId w₀ w) (ground : Grounded w₀) (named : reqId ≠ noReq)
    (resends : ResendsTimer reqId w) (done : handleTimeout w = .ok w') : Followed reqId w₀ w' := by
  have there := h.toTracks.timer named False.elim done
  have path := leads_handleTimeout done
  rcases handleTimeout_beside h.toSound done with inert | ⟨top, slot, due, found, held, beside⟩
  · exact h.inert ground inert path
  · refine h.beside ground there beside path (housed_of_found found) fun home live placed _ busy' => ?_
    have data : (w.timeoutQueue.nodes top).data = reqId := (reqGetById_eq_some.mp found).2.symm.trans live
    rw [data] at found
    subst home
    rcases expire_contexts h.follows h.toSound due data found placed done with same | idle | opens
    · obtain ⟨u, m, cmd, occurred, underway⟩ := h.within held live (same ▸ busy')
      refine ⟨u, m, cmd, _, underway.onward ground .expire same fun K w₁ own _ _ run => ?_⟩
      subst own
      have head : AtHead w K.reqId := ⟨top, due, data⟩
      exact .expire run head (fun more => (resends head more).1) (fun more => (resends head more).2) done
    · exact absurd idle busy'
    · exact opens.underway h.reached

theorem Followed.enter {conn : ConnInfo} (h : Followed reqId w₀ w) (ground : Grounded w₀)
    (opened : (w.conns c).sock ≠ none) (used : (w.conns c).busy = true)
    (prepared : connPrepareRecvMessage (w.conns c) = .ok (some m, conn)) (fresh : w.lastReqs ≠ noReq)
    (type : cmdAt conn.recvBuf (messageFirstCmd m) ≠ .eom) (proper : EntersRound Enclosed reqId w c)
    (added : enterRequest (w.setConn c conn) c m = (v, some slot)) : Followed reqId w₀ v := by
  have path := leads_take prepared
  have taken := h.inert ground (inert_take opened prepared) path
  have there := h.toTracks.enter opened prepared fresh type
    (fun m conn prepared type own => ⟨(proper m conn prepared type own).1, (proper m conn prepared type own).2,
      False.elim⟩) added
  have entered := leads_enter (path.busy used) added
  by_cases own : w.lastReqs = reqId
  · -- no context has begun
    have home : slotOf w.lastReqs = slot := (enterRequest_numbered added).1
    refine ⟨there, taken.reached.trans entered, fun _ _ busy => absurd ?_ busy⟩
    rw [← own, home]
    exact (enterRequest_unbegun added).2
  · exact taken.passes ground there (leavesAlone_enter taken.toSound h.bounded fresh added own) entered

/-- One round of a batch. -/
theorem Followed.round {result : Option (Outcome × Bool)} (h : Followed reqId w₀ w) (ground : Grounded w₀)
    (named : reqId ≠ noReq) (fit : Fit w c) (used : (w.conns c).busy = true)
    (proper : EntersRound Enclosed reqId w c) (done : Batches.round w c = .ok (w', result)) :
    Followed reqId w₀ w' := by
  have taken : ∀ {m conn}, connPrepareRecvMessage (w.conns c) = .ok (some m, conn) →
      Followed reqId w₀ (w.setConn c conn) :=
    fun prepared => h.inert ground (inert_take fit.opened prepared) (leads_take prepared)
  cases Batches.round_done done with
  | ended prepared =>
    have path := leads_take prepared
    rw [connPrepareRecvMessage_none prepared] at path ⊢
    exact h.inert ground (inert_setConn c rfl) path
  | @replied m conn v ret prepared type handled =>
    exact (taken prepared).reply ground named handled
  | @refused m conn v prepared type added =>
    rw [recvBuf_prepared prepared] at type
    have before := taken prepared
    have fresh := fit.named m conn prepared type
    have entered := leads_enter ((leads_take prepared).busy used) added
    exact before.passes ground (before.toTracks.refused fresh added)
      (leavesAlone_refused before.toSound before.bounded fresh added) entered
  | @executed m slot conn v u ret prepared type added executed =>
    have entering := type
    rw [recvBuf_prepared prepared] at entering
    have entered := h.enter ground fit.opened used prepared (fit.named m conn prepared entering) type proper added
    obtain ⟨home, id⟩ := enterRequest_numbered added
    exact entered.execute ground named (by rw [id]; exact home) executed

end Followed

/-! ## Runs -/

section Runs

variable (storageDevices : Nat) (storageFd : Nat → Nat) (files : Nat → Mem) (enableDefrag : Bool)

theorem grounded_init : Grounded (State.init storageDevices storageFd files enableDefrag) :=
  ⟨housed_init _ _ _ _, slotted_init _ _ _ _, numbered_init _ _ _ _⟩

theorem followed_init {reqId : Nat} :
    Followed reqId (State.init storageDevices storageFd files enableDefrag)
      (State.init storageDevices storageFd files enableDefrag) :=
  ⟨tracks_init _ _ _ _ False, .refl _, fun placed => absurd rfl placed⟩

/-- In every run whose retries of the request go out and can be logged, a request that is in
a context is in it through replies, expirations and what leaves it alone, and follows the
protocol of the context. -/
theorem protocol_in_runs {events : List (Kernel × Node.Event)} {v : State} {reqId : Nat} (named : reqId ≠ noReq)
    (regular : RegularRun (State.init storageDevices storageFd files enableDefrag) events)
    (proper : EntersAs Enclosed reqId (State.init storageDevices storageFd files enableDefrag) events)
    (resends : Resends reqId (State.init storageDevices storageFd files enableDefrag) events)
    (attends : Attends (State.init storageDevices storageFd files enableDefrag) events v)
    (live : (v.reqs (slotOf reqId)).reqId = reqId) (busy : (v.reqs (slotOf reqId)).ctx ≠ none) :
    ∃ u m cmd occurred,
      Underway reqId (State.init storageDevices storageFd files enableDefrag) u m cmd occurred v ∧
      ∀ K : Context, K.reqId = reqId → Starting K u m cmd → forwardGoesOut u K.slot m cmd = true →
        ¬ Ended K.config (tally K.config occurred) ∧ Protocol K (tally K.config occurred) v := by
  have ground := grounded_init storageDevices storageFd files enableDefrag
  have opened := opened_init storageDevices storageFd files enableDefrag
  have kept : Preserved (Followed reqId (State.init storageDevices storageFd files enableDefrag))
      (State.init storageDevices storageFd files enableDefrag) events :=
    { inert := fun h inert path => h.inert ground inert path
      timer := fun fires h => h.timer ground named (resends _ fires)
      storage := fun h => h.storage ground named
      round := fun begins fit h =>
        h.round ground named fit (h.reached.opened opened _ fit.opened) (proper _ _ begins) }
  have followed := kept.attends (followed_init _ _ _ _) opened regular attends
  obtain ⟨p, placed⟩ := live_has_message storageDevices storageFd files enableDefrag followed.reached
    (reqGetById_eq_some.mpr ⟨rfl, live⟩) named
  obtain ⟨u, m, cmd, occurred, underway⟩ :=
    followed.within (by rw [placed]; exact Option.some_ne_none p) live busy
  refine ⟨u, m, cmd, occurred, underway, fun K own starting out => ?_⟩
  obtain ⟨-, -, -, -, grounded, open_, collecting⟩ := underway.collecting ground own starting out
  exact ⟨open_, collecting.protocol open_ grounded.housed grounded.slotted grounded.numbered⟩

end Runs

end ContextRuns
