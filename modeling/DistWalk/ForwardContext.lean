import DistWalk.Forwarding

/-!
# A FORWARD context starts clean

`start_forward` initialises the context only when `fwd_replies_left` is -1. A
request that enters has it at -1 and the last acknowledgement of a context sets
it back; giving a context up on a timeout does not. Until that happens every
context of the request starts from the options of its own FORWARD_BEGIN.
-/

namespace ForwardContext

open ByteMemory Message Connection PriorityQueue Worker Timeout Node Transitions Requests
  ForwardReply Forwarding Wire

/-- No context of request `reqId` is given up while it waits for acknowledgements. -/
def ContextsAcknowledged (reqId : Nat) (w : State) : Label → Prop
  | .skip slot => (w.reqs slot).reqId = reqId → (w.reqs slot).fwdRepliesLeft = -1
  | _ => True

/-- Outside a context `fwd_replies_left` is -1. -/
def Cleared (reqId : Nat) (w : State) : Prop :=
  ∀ s, (w.reqs s).reqId = reqId → (w.reqs s).ctx = none → (w.reqs s).fwdRepliesLeft = -1

/-- Whose request it is, its context and the acknowledgements it waits for. -/
def waiting (r : ReqInfo) : Nat × Option Nat × Int := (r.reqId, r.ctx, r.fwdRepliesLeft)

theorem linkless_waiting : Linkless waiting :=
  ⟨⟨fun _ _ => rfl, fun _ _ => rfl⟩, fun _ _ => rfl⟩

theorem Cleared.keeps {reqId : Nat} {w w' : State} (h : Cleared reqId w) (named : reqId ≠ noReq)
    (same : ∀ s, waiting (w'.reqs s) = waiting (w.reqs s) ∨ (w'.reqs s).reqId = noReq) :
    Cleared reqId w' := by
  intro s id none
  rcases same s with e | free
  · simp only [waiting, Prod.mk.injEq] at e
    rw [e.1] at id
    rw [e.2.1] at none
    rw [e.2.2]
    exact h s id none
  · exact absurd (id.symm.trans free) named

/-- One slot changes and is still cleared. -/
theorem Cleared.setReq {reqId : Nat} {w : State} (h : Cleared reqId w) (slot : Nat) {r : ReqInfo}
    (own : r.reqId = reqId → r.ctx = none → r.fwdRepliesLeft = -1) :
    Cleared reqId (w.setReq slot r) := by
  intro s
  by_cases same : s = slot
  · subst same
    rw [setReq_self]
    exact own
  · rw [setReq_other _ _ same]
    exact h s

/-- A reply counted outside a context is at once the last one. -/
theorem Cleared.acknowledge {reqId : Nat} {w : State} (h : Cleared reqId w)
    (slot id m status : Nat) : Cleared reqId (acknowledge w slot id m status) := by
  simp only [Transitions.acknowledge]
  split
  · intro s
    by_cases same : s = slot
    · subst same
      intro _ _
      exact congrArg ReqInfo.fwdRepliesLeft (setReq_self _ s _)
    · have other : (completeContext (countReply w slot id) slot m status).reqs s = w.reqs s :=
        (setReq_other _ _ same).trans (setReq_other w _ same)
      rw [other]
      exact h s
  · rename_i more
    refine h.setReq slot fun named none => ?_
    have left := h slot named none
    rw [countReply, setReq_self] at more
    simp only [left] at more
    omega

theorem Cleared.step {reqId : Nat} {w w' : State} {l : Label} (h : Cleared reqId w)
    (named : reqId ≠ noReq) (ok : ContextsAcknowledged reqId w l) (s : Step w l w') :
    Cleared reqId w' := by
  cases s with
  | conn c conn kept => exact h
  | aside w' same => exact h.keeps named fun s => Or.inl (by rw [same.reqs])
  | elapse ns => exact h
  | enter c m used =>
    intro x id none
    by_cases own : x = slotOf w.lastReqs
    · rcases enterRequest_cases w c m with ⟨-, -, e⟩ | ⟨free, -⟩
      · rw [e] at id none ⊢
        exact h x id none
      · have e := linkless_waiting.enterRequest_self w c m free
        rw [← own] at e
        simp only [waiting, Prod.mk.injEq] at e
        exact e.2.2
    · have e := linkless_waiting.enterRequest_other w c m own
      simp only [waiting, Prod.mk.injEq] at e
      rw [e.1] at id
      rw [e.2.1] at none
      rw [e.2.2]
      exact h x id none
  | setCmd slot cmd => exact h.setReq slot (h slot)
  | begin slot cmd =>
    refine h.setReq slot fun _ none => ?_
    split at none <;> cases old : (w.reqs slot).ctx <;> simp [old] at none
  | ack slot id m status => exact h.acknowledge slot id m status
  | retry slot => exact h.setReq slot (h slot)
  | skip slot m => exact h.setReq slot fun id _ => ok id
  | insert w' reqId micros nonzero done =>
    refine h.keeps named fun s => Or.inl ?_
    obtain ⟨node, e⟩ := (insertTimeout_retimed done).reqs s
    rw [e]
    rfl
  | remove w' reqId left done =>
    refine h.keeps named fun s => Or.inl ?_
    obtain ⟨node, e⟩ := (removeTimeout_retimed done).reqs s
    rw [e]
    rfl
  | disarm w' headless done =>
    refine h.keeps named fun s => Or.inl ?_
    obtain ⟨node, e⟩ := (timerfdSettime_retimed done).reqs s
    rw [e]
    rfl
  | release c slot =>
    refine h.keeps named fun x => ?_
    by_cases own : x = slot
    · exact Or.inr (own ▸ connReqRemove_reqId w c slot)
    · exact Or.inl (linkless_waiting.connReqRemove w own)
  | reset c =>
    refine h.keeps named fun x => ?_
    by_cases inside : x ∈ listed w c
    · exact Or.inr (connResetFrom_releases _ w _ inside)
    · exact Or.inl (linkless_waiting.connResetFrom _ w _ inside)

/-! ## Contexts are numbered -/

theorem linkless_ctx : Linkless ReqInfo.ctx :=
  ⟨⟨fun _ _ => rfl, fun _ _ => rfl⟩, fun _ _ => rfl⟩

theorem acknowledge_ctx (w : State) (slot id m status s : Nat) :
    ((acknowledge w slot id m status).reqs s).ctx = (w.reqs s).ctx ∨
      ((acknowledge w slot id m status).reqs s).ctx = none := by
  simp only [acknowledge]
  split
  · by_cases own : s = slot
    · subst own
      exact Or.inr (congrArg ReqInfo.ctx (setReq_self _ s _))
    · exact Or.inl (congrArg ReqInfo.ctx ((setReq_other _ _ own).trans (setReq_other w _ own)))
  · exact Or.inl (setReq_keeps ReqInfo.ctx w (by rfl) s)

/-- A step ends contexts, or begins one with the next number. -/
theorem step_contexts {w w' : State} {l : Label} (h : Step w l w') :
    (w'.nextCtx = w.nextCtx ∧
      ∀ s, (w'.reqs s).ctx = (w.reqs s).ctx ∨ (w'.reqs s).ctx = none) ∨
    ∃ slot, w'.nextCtx = w.nextCtx + 1 ∧ (w'.reqs slot).ctx = some w.nextCtx ∧
      ∀ s, s ≠ slot → (w'.reqs s).ctx = (w.reqs s).ctx := by
  have retimed : ∀ {v : State}, Retimed w v → v.nextCtx = w.nextCtx ∧
      ∀ s, (v.reqs s).ctx = (w.reqs s).ctx ∨ (v.reqs s).ctx = none := by
    intro v r
    refine ⟨r.nextCtx, fun s => ?_⟩
    obtain ⟨node, e⟩ := r.reqs s
    exact Or.inl (by rw [e])
  cases h with
  | conn c conn kept => exact Or.inl ⟨rfl, fun _ => Or.inl rfl⟩
  | aside w' same => exact Or.inl ⟨same.nextCtx, fun s => Or.inl (by rw [same.reqs])⟩
  | elapse ns => exact Or.inl ⟨rfl, fun _ => Or.inl rfl⟩
  | enter c m used =>
    refine Or.inl ⟨tableless_nextCtx.enterRequest w c m, fun s => ?_⟩
    by_cases own : s = slotOf w.lastReqs
    · rcases enterRequest_cases w c m with ⟨-, -, e⟩ | ⟨free, -⟩
      · exact Or.inl (by rw [e])
      · rw [own, linkless_ctx.enterRequest_self w c m free]
        exact Or.inr rfl
    · exact Or.inl (linkless_ctx.enterRequest_other w c m own)
  | setCmd slot cmd => exact Or.inl ⟨rfl, fun s => Or.inl (setReq_keeps ReqInfo.ctx w (by rfl) s)⟩
  | begin slot cmd =>
    cases old : (w.reqs slot).ctx with
    | none =>
      refine Or.inr ⟨slot, by simp [beginContext, old], ?_, fun s other => ?_⟩
      · rw [beginContext_req, old]
        split <;> rfl
      · exact congrArg ReqInfo.ctx (setReq_other w _ other)
    | some number =>
      refine Or.inl ⟨by simp [beginContext, old, State.setReq], fun s => Or.inl ?_⟩
      refine setReq_keeps ReqInfo.ctx w ?_ s
      split <;> simp [old]
  | ack slot id m status =>
    refine Or.inl ⟨?_, acknowledge_ctx w slot id m status⟩
    simp only [acknowledge]
    split <;> rfl
  | retry slot => exact Or.inl ⟨rfl, fun s => Or.inl (setReq_keeps ReqInfo.ctx w (by rfl) s)⟩
  | skip slot m =>
    refine Or.inl ⟨rfl, fun s => ?_⟩
    by_cases own : s = slot
    · subst own
      exact Or.inr (congrArg ReqInfo.ctx (setReq_self w s _))
    · exact Or.inl (congrArg ReqInfo.ctx (setReq_other w _ own))
  | insert w' reqId micros nonzero done => exact Or.inl (retimed (insertTimeout_retimed done))
  | remove w' reqId left done => exact Or.inl (retimed (removeTimeout_retimed done))
  | disarm w' headless done => exact Or.inl (retimed (timerfdSettime_retimed done))
  | release c slot =>
    refine Or.inl ⟨tableless_nextCtx.connReqRemove w c slot, fun s => Or.inl ?_⟩
    by_cases own : s = slot
    · rw [own]
      exact linkless_ctx.connReqRemove_self w c slot fun _ => rfl
    · exact linkless_ctx.connReqRemove w own
  | reset c =>
    exact Or.inl ⟨tableless_nextCtx.connResetFrom w _ _,
      fun s => Or.inl (linkless_ctx.connResetFrom_blind (fun _ => rfl) _ w _ s)⟩

/-- Two requests are never in the context of the same number. -/
structure Numbered (w : State) : Prop where
  below : ∀ s n, (w.reqs s).ctx = some n → n < w.nextCtx
  apart : ∀ s s' n, (w.reqs s).ctx = some n → (w.reqs s').ctx = some n → s = s'

theorem Numbered.step {w w' : State} {l : Label} (h : Numbered w) (s : Step w l w') :
    Numbered w' := by
  rcases step_contexts s with ⟨next, same⟩ | ⟨slot, next, new, same⟩
  · have old : ∀ x n, (w'.reqs x).ctx = some n → (w.reqs x).ctx = some n := by
      intro x n e
      rcases same x with kept | none
      · rwa [kept] at e
      · rw [none] at e
        cases e
    exact ⟨fun x n e => next ▸ h.below x n (old x n e),
      fun x y n e e' => h.apart x y n (old x n e) (old y n e')⟩
  · refine ⟨fun x n e => ?_, fun x y n e e' => ?_⟩
    · by_cases own : x = slot
      · rw [own, new] at e
        cases e
        omega
      · rw [same x own] at e
        have bound := h.below x n e
        omega
    · by_cases own : x = slot <;> by_cases own' : y = slot
      · rw [own, own']
      · rw [own, new] at e
        cases e
        rw [same y own'] at e'
        exact absurd (h.below y _ e') (lt_irrefl _)
      · rw [own', new] at e'
        cases e'
        rw [same x own] at e
        exact absurd (h.below x _ e) (lt_irrefl _)
      · rw [same x own] at e
        rw [same y own'] at e'
        exact h.apart x y n e e'

theorem Numbered.leads {w w' : State} (h : Numbered w) (path : Leads w w') : Numbered w' :=
  Reaches.invariant (fun _ _ _ _ kept s => Numbered.step kept s) path h

/-- A context that is over stays over. -/
def Over (number : Nat) (w : State) : Prop :=
  number < w.nextCtx ∧ ∀ s, (w.reqs s).ctx ≠ some number

theorem Over.step {number : Nat} {w w' : State} {l : Label} (h : Over number w)
    (s : Step w l w') : Over number w' := by
  obtain ⟨used, absent⟩ := h
  rcases step_contexts s with ⟨next, same⟩ | ⟨slot, next, new, same⟩
  · refine ⟨next ▸ used, fun x e => ?_⟩
    rcases same x with kept | none
    · exact absent x (kept ▸ e)
    · rw [none] at e
      cases e
  · refine ⟨by omega, fun x e => ?_⟩
    by_cases own : x = slot
    · rw [own, new] at e
      cases e
      exact absurd used (lt_irrefl _)
    · exact absent x (same x own ▸ e)

theorem Over.leads {number : Nat} {w w' : State} (h : Over number w) (p : Leads w w') :
    Over number w' := Reaches.invariant (fun _ _ _ _ kept s => Over.step kept s) p h

theorem numbered_init (storageDevices : Nat) (storageFd : Nat → Nat) (files : Nat → Mem)
    (enableDefrag : Bool) : Numbered (State.init storageDevices storageFd files enableDefrag) where
  below := by
    intro s n e
    cases e
  apart := by
    intro s s' n e
    cases e

theorem numbered_leads {w : State} {storageDevices : Nat} {storageFd : Nat → Nat}
    {files : Nat → Mem} {enableDefrag : Bool}
    (h : Leads (State.init storageDevices storageFd files enableDefrag) w) : Numbered w :=
  (numbered_init _ _ _ _).leads h

/-- The request leaves its context. -/
theorem Numbered.over {w w' : State} (h : Numbered w) {slot number : Nat}
    (ctx : (w.reqs slot).ctx = some number) (next : w'.nextCtx = w.nextCtx)
    (left : (w'.reqs slot).ctx = none) (others : ∀ s, s ≠ slot → (w'.reqs s).ctx = (w.reqs s).ctx) :
    Over number w' := by
  refine ⟨next ▸ h.below slot number ctx, fun s e => ?_⟩
  by_cases own : s = slot
  · rw [own, left] at e
    cases e
  · rw [others s own] at e
    exact own (h.apart s slot number e ctx)

/-! ## A new context -/

/-- The request is in a new context, initialised from the options at `cmd`. -/
structure Initialised (w w' : State) (slot cmd : Nat) : Prop where
  ctx : (w'.reqs slot).ctx = some w.nextCtx
  left : (w'.reqs slot).fwdRepliesLeft = (fwdOpts (reqMem w slot) cmd).nAck
  mask : (w'.reqs slot).fwdRepliesMask = 0
  retries : (w'.reqs slot).fwdRetries = (fwdOpts (reqMem w slot) cmd).retries
  timeout : (w'.reqs slot).fwdTimeout = toInt32 (fwdOpts (reqMem w slot) cmd).timeout
  onFailSkip : (w'.reqs slot).fwdOnFailSkip = (fwdOpts (reqMem w slot) cmd).onFailSkip

/-- One message for the new context has gone to each of its destinations. -/
def SentToAll (w w' : State) (slot m cmd : Nat) : Prop :=
  forwards w' =
    ((branches (reqMem w slot) (messageEnd (reqMem w slot) m) (some cmd)).map fun branch =>
      ((w.reqs slot).reqId, (fwdOpts (reqMem w slot) branch).fwdAddr, some w.nextCtx)).reverse ++
    forwards w

/-- From a cleared request, `start_forward` starts a clean context. -/
theorem startForward_clean {w w' : State} {slot m cmd : Nat} {sent : Bool} (used : InUse w slot)
    (fresh : (w.reqs slot).ctx = none) (cleared : (w.reqs slot).fwdRepliesLeft = -1)
    (h : startForward w slot m cmd = .ok (w', sent)) :
    Initialised w w' slot cmd ∧ (forwardSucceeds w slot m cmd = true → SentToAll w w' slot m cmd) := by
  obtain ⟨sending, out, -, whole, record⟩ := startForward_spec used h
  have begun := beginContext_req w slot cmd
  rw [if_pos cleared, fresh] at begun
  have same := sending.core slot
  rw [begun] at same
  simp only [core, Prod.mk.injEq, Option.none_or] at same
  obtain ⟨-, -, left, mask, retries, timeout, onFailSkip, -, ctx⟩ := same
  refine ⟨⟨ctx, left, mask, retries, timeout, onFailSkip⟩, fun succeeds => ?_⟩
  rw [(whole succeeds).2, unsettled_clean (by rw [begun])] at record
  rw [SentToAll, record]
  congr 3
  funext branch
  simp only [forwardOf, beginContext_reqMem, begun, Option.none_or]

/-! ## Where contexts begin -/

/-- A context begins for a request with a message, and at a FORWARD_BEGIN it begins at the
current command. -/
def BeginsAtCurrent (w : State) : Label → Prop
  | .begin slot cmd => ∃ m, (w.reqs slot).messagePtr = some m ∧
      (cmdAt (reqMem w slot) cmd = .forwardBegin → (w.reqs slot).currCmd = some cmd)
  | _ => True

abbrev AllBegin (calls : Calls) : Prop := ∀ call ∈ calls, BeginsAtCurrent call.1 call.2

theorem allBegin_nil : AllBegin [] := fun _ inside => (List.not_mem_nil inside).elim

theorem allBegin_cons {w : State} {l : Label} {calls : Calls} (h : BeginsAtCurrent w l)
    (rest : AllBegin calls) : AllBegin ((w, l) :: calls) := by
  intro call inside
  rcases List.mem_cons.mp inside with rfl | later
  · exact h
  · exact rest call later

theorem allBegin_append {calls later : Calls} (h : AllBegin calls) (h' : AllBegin later) :
    AllBegin (calls ++ later) := by
  intro call inside
  rcases List.mem_append.mp inside with first | second
  · exact h call first
  · exact h' call second

theorem allBegin_behind {α : Type} {x : Except Abort α} {calls : α → Calls}
    (h : ∀ a, x = .ok a → AllBegin (calls a)) : AllBegin (behind x calls) := by
  cases x with
  | error e => exact allBegin_nil
  | ok a => exact h a rfl

theorem closeAndForget_resets {w : State} {sock : Option Nat} {call : State × Label}
    (h : call ∈ closeAndForgetCalls w sock) : ∃ c, call.2 = .reset c := by
  simp only [closeAndForgetCalls] at h
  cases found : connFindSock (w.emit (.pollDel sock)) sock with
  | error e =>
    rw [found] at h
    cases h
  | ok c =>
    rw [found] at h
    cases c with
    | none => cases h
    | some c =>
      rw [List.mem_singleton.mp h]
      exact ⟨c, rfl⟩

theorem allBegin_closeAndForget (w : State) (sock : Option Nat) : AllBegin (closeAndForgetCalls w sock) := by
  intro call inside
  obtain ⟨c, label⟩ := closeAndForget_resets inside
  rw [label]
  trivial

theorem allBegin_forwardConn (w : State) (fwd : FwdOpts) : AllBegin (forwardConnCalls w fwd) := by
  simp only [forwardConnCalls, connectForwardCalls]
  split
  · exact allBegin_nil
  · split
    · exact allBegin_nil
    · split
      · split
        · exact allBegin_cons trivial allBegin_nil
        · exact allBegin_nil
      · exact allBegin_nil

theorem allBegin_sendForward (w : State) (slot m cmd c : Nat) (fwd : FwdOpts) :
    AllBegin (sendForwardCalls w slot m cmd c fwd) := by
  simp only [sendForwardCalls]
  split
  · exact allBegin_nil
  · split
    · exact allBegin_nil
    · split
      · exact allBegin_cons trivial allBegin_nil
      · exact allBegin_nil

theorem allBegin_singleStartForward (w : State) (slot m cmd : Nat) :
    AllBegin (singleStartForwardCalls w slot m cmd) := by
  simp only [singleStartForwardCalls]
  split
  · exact allBegin_nil
  · exact allBegin_nil
  · split
    · exact allBegin_nil
    · refine allBegin_append (allBegin_forwardConn w _) ?_
      split
      · exact allBegin_nil
      · exact allBegin_sendForward _ slot m cmd _ _

theorem allBegin_sendBranches (slot m fuel : Nat) (w : State) (itr : Option Nat) :
    AllBegin (sendBranchesCalls slot m fuel w itr) := by
  induction fuel generalizing w itr with
  | zero => exact allBegin_nil
  | succ fuel ih =>
    cases itr with
    | none => exact allBegin_nil
    | some cmd =>
      refine allBegin_append (allBegin_singleStartForward w slot m cmd) (allBegin_behind fun sent _ => ?_)
      split
      · exact allBegin_nil
      · exact allBegin_behind fun next _ => ih _ next

theorem allBegin_processReply (w : State) (slot m cmd : Nat) : AllBegin (processReplyCalls w slot m cmd) := by
  refine allBegin_append (allBegin_behind fun sent _ => allBegin_cons trivial allBegin_nil)
    (allBegin_behind ?_)
  rintro ⟨v, result⟩ -
  simp only
  split
  · exact allBegin_closeAndForget _ _
  · exact allBegin_nil

/-- The loop of `process_single_message`, with the buffer its request lies in. -/
theorem allBegin_processFrom {mem : Mem} {slot m : Nat} (fuel : Nat) {w : State} (cmd : Option Nat)
    (own : reqMem w slot = mem) (message : (w.reqs slot).messagePtr = some m) :
    AllBegin (processFromCalls mem slot m fuel w cmd) := by
  induction fuel generalizing w cmd with
  | zero => exact allBegin_nil
  | succ fuel ih =>
    cases cmd with
    | none => exact allBegin_nil
    | some cmd =>
      cases type : cmdAt mem cmd <;> simp only [processFromCalls, type]
      case compute => exact ih _ own message
      case forwardBegin =>
        refine allBegin_cons ⟨m, ?_, fun _ => ?_⟩ (allBegin_sendBranches _ _ _ _ _)
        · simp only [setCurrCmd, setReq_self]
          exact message
        · simp only [setCurrCmd, setReq_self]
      case forwardContinue =>
        refine allBegin_cons ⟨m, message, fun begins => ?_⟩ (allBegin_sendBranches _ _ _ _ _)
        rw [own, type] at begins
        cases begins
      case reply => exact allBegin_processReply w slot m cmd
      case store =>
        split
        · exact allBegin_nil
        · split
          · exact ih _ own message
          · exact allBegin_nil
      all_goals exact allBegin_nil

theorem allBegin_processMessages (w : State) (slot : Nat) : AllBegin (processMessagesCalls w slot) := by
  simp only [processMessagesCalls]
  split
  · exact allBegin_nil
  · rename_i m message
    exact allBegin_processFrom _ _ rfl message

theorem allBegin_handleForwardReply (w : State) (reqId status : Nat) (matchAddr : Addr) :
    AllBegin (handleForwardReplyCalls w reqId status matchAddr) := by
  simp only [handleForwardReplyCalls]
  split
  · exact allBegin_nil
  · split
    · exact allBegin_nil
    · refine allBegin_behind fun found _ => ?_
      split
      · exact allBegin_nil
      · split
        · exact allBegin_nil
        · refine allBegin_cons trivial ?_
          split
          · exact allBegin_cons trivial (allBegin_behind fun removed _ => allBegin_processMessages _ _)
          · exact allBegin_nil

theorem allBegin_obtainFrom (c fuel : Nat) (w : State) : AllBegin (obtainFromCalls c fuel w) := by
  induction fuel generalizing w with
  | zero => exact allBegin_nil
  | succ fuel ih =>
    refine allBegin_behind fun received _ => ?_
    split
    · exact allBegin_nil
    · split
      · refine allBegin_append (allBegin_handleForwardReply _ _ _ _) (allBegin_behind ?_)
        rintro ⟨v, ret⟩ -
        simp only
        split
        · exact allBegin_nil
        · exact ih _
      · refine allBegin_cons trivial ?_
        split
        · exact allBegin_nil
        · refine allBegin_append (allBegin_processMessages _ _) (allBegin_behind ?_)
          rintro ⟨v, executed⟩ -
          simp only
          split
          · exact allBegin_nil
          · exact ih _

theorem allBegin_handleTimeout (w : State) : AllBegin (handleTimeoutCalls w) := by
  simp only [handleTimeoutCalls]
  split
  · exact allBegin_cons trivial allBegin_nil
  · split
    · exact allBegin_cons trivial allBegin_nil
    · refine allBegin_cons trivial (allBegin_behind fun removed _ => ?_)
      simp only [expireRequestCalls]
      split
      · exact allBegin_cons trivial (allBegin_processMessages _ _)
      · split
        · exact allBegin_nil
        · split
          · exact allBegin_cons trivial (allBegin_processMessages _ _)
          · exact allBegin_cons trivial allBegin_nil

theorem allBegin_failRequest (w : State) (c slot m cmd : Nat) : AllBegin (failRequestCalls w c slot m cmd) := by
  refine allBegin_cons trivial (allBegin_behind ?_)
  rintro ⟨v, left⟩ -
  simp only
  split
  · exact allBegin_closeAndForget _ _
  · split
    · exact allBegin_closeAndForget _ _
    · exact allBegin_processMessages _ _

theorem allBegin_failWaiting (target : Addr) (c fuel : Nat) (w : State) (slot : Option Nat) :
    AllBegin (failWaitingCalls target c fuel w slot) := by
  induction fuel generalizing slot with
  | zero => exact allBegin_nil
  | succ fuel ih =>
    cases slot with
    | none => exact allBegin_nil
    | some slot =>
      simp only [failWaitingCalls]
      split
      · exact allBegin_nil
      · split
        · split
          · exact allBegin_nil
          · split
            · exact allBegin_nil
            · exact allBegin_failRequest w c slot _ _
        · split
          · exact allBegin_nil
          · exact ih _

theorem allBegin_failPending (target : Addr) (fuel i : Nat) (w : State) :
    AllBegin (failPendingCalls target fuel i w) := by
  induction fuel generalizing i w with
  | zero => exact allBegin_nil
  | succ fuel ih =>
    simp only [failPendingCalls]
    split
    · exact ih _ _
    · exact allBegin_append (allBegin_failWaiting _ _ _ _ _) (allBegin_behind fun failed _ => ih _ _)

theorem allBegin_closeFailed (w : State) (c : Nat) : AllBegin (closeFailedCalls w c) :=
  allBegin_append (allBegin_closeAndForget _ _) (allBegin_behind fun _ _ => allBegin_failPending _ _ _ _)

theorem allBegin_execReady (w : State) (c : Nat) (type : EventType) (r : Readiness) :
    AllBegin (execReadyCalls w c type r) := by
  simp only [execReadyCalls]
  split
  · exact allBegin_handleTimeout w
  · split
    · exact allBegin_nil
    · refine allBegin_behind fun established _ => ?_
      split
      · exact allBegin_closeFailed _ c
      · split
        · exact allBegin_closeFailed _ c
        · refine allBegin_behind fun flushed _ => ?_
          split
          · exact allBegin_closeFailed _ c
          · refine allBegin_append (allBegin_obtainFrom c _ _) (allBegin_behind fun obtained _ => ?_)
            split
            · exact allBegin_nil
            · exact allBegin_closeFailed _ c

theorem allBegin_acceptConn (w : State) (addr : Addr) (proto : Proto) : AllBegin (acceptConnCalls w addr proto) := by
  simp only [acceptConnCalls]
  split
  · exact allBegin_closeAndForget _ _
  · split
    · split
      · exact allBegin_nil
      · refine allBegin_append ?_ (allBegin_behind fun closed _ => allBegin_cons trivial allBegin_nil)
        intro call inside
        obtain ⟨made, closes, rfl⟩ := List.mem_map.mp inside
        obtain ⟨i, label⟩ := closeAndForget_resets closes
        simp only [label]
        trivial
    · exact allBegin_nil

theorem allBegin_step (w : State) (kernel : Kernel) (e : Event) : AllBegin (stepCalls w kernel e) := by
  cases e with
  | accept addr proto => exact allBegin_acceptConn _ addr proto
  | ready c type r =>
    simp only [stepCalls, execRequestCalls]
    split
    · split
      · exact allBegin_closeFailed _ c
      · exact allBegin_nil
      · exact allBegin_execReady _ c type r
    · exact allBegin_execReady _ c type r
  | storage reqId =>
    simp only [stepCalls, storageAckCalls]
    split
    · exact allBegin_nil
    · exact allBegin_processMessages _ _
  | elapse ns => exact allBegin_cons trivial allBegin_nil

theorem allBegin_run (w : State) (events : List (Kernel × Event)) : AllBegin (runCalls w events) := by
  induction events generalizing w with
  | nil => exact allBegin_nil
  | cons e rest ih => exact allBegin_append (allBegin_step w e.1 e.2) (allBegin_behind fun v _ => ih v)

variable (storageDevices : Nat) (storageFd : Nat → Nat) (files : Nat → Mem) (enableDefrag : Bool)

/-- As long as no context of the request has been given up on a timeout, each
FORWARD_BEGIN that is not a retransmission starts clean, and if its messages go
out, they go to all its destinations. -/
theorem context_starts_clean {reqId : Nat} (named : reqId ≠ noReq) {events : List (Kernel × Event)}
    {w v : State} {k slot cmd : Nat}
    (ran : run (State.init storageDevices storageFd files enableDefrag) events = .ok w)
    (call : (runCalls (State.init storageDevices storageFd files enableDefrag) events)[k]? =
      some (v, .begin slot cmd))
    (acknowledged : ∀ earlier ∈ (runCalls (State.init storageDevices storageFd files enableDefrag) events).take k,
      ContextsAcknowledged reqId earlier.1 earlier.2)
    (live : (v.reqs slot).reqId = reqId) (begins : cmdAt (reqMem v slot) cmd = .forwardBegin)
    (fresh : (v.reqs slot).ctx = none) :
    ∃ m, (v.reqs slot).messagePtr = some m ∧
      (∀ w' sent, startForward v slot m cmd = .ok (w', sent) → Initialised v w' slot cmd) ∧
      (0 ≤ toInt32 (fwdOpts (reqMem v slot) cmd).timeout → forwardGoesOut v slot m cmd = true →
        ∃ w' sent, startForward v slot m cmd = .ok (w', sent) ∧ SentToAll v w' slot m cmd) := by
  have opened := opened_init storageDevices storageFd files enableDefrag
  have path : Takes _ _ v := (takes_run opened ran).before call
  have silent : ∀ u l, Label.Quiet l → ContextsAcknowledged reqId u l := by
    intro u l quiet
    cases l with
    | conn c => trivial
    | aside => trivial
    | setCmd slot => trivial
    | _ => cases quiet
  have reached := path.reaches silent acknowledged
  have cleared : Cleared reqId v := Reaches.invariant
    (fun _ _ _ ok kept s => Cleared.step kept named ok s) reached fun _ id _ => absurd id.symm named
  have housed := path.leads.housed (housed_init storageDevices storageFd files enableDefrag)
  have used : InUse v slot := housed slot (by rw [live]; exact named)
  have own := allBegin_run (State.init storageDevices storageFd files enableDefrag) events _
    (List.mem_of_getElem? call)
  obtain ⟨m, message, current⟩ := own
  have left := cleared slot live fresh
  refine ⟨m, message, fun w' sent started => (startForward_clean used fresh left started).1, ?_⟩
  intro timeout out
  obtain ⟨w', sent, started, succeeds⟩ :=
    startForward_goesOut used (current begins) (by rw [begins]; rfl) left timeout out
  exact ⟨w', sent, started, (startForward_clean used fresh left started).2 succeeds⟩

/-- A client's connection with a request on it, and a peer's. -/
def requesting : ConnInfo :=
  let bytes := message 1 0
    [.forward false 64 [10, 0, 0, 1, 0, 1] 50 3 1 1 0 .tcp, .reply 16, .reply 16, .eom]
  { ConnInfo.init.claim 3 [10, 0, 0, 9, 0, 9] .tcp 0 with
    status := .ready
    recvBuf := store (fun _ => 0) 0 bytes
    currRecvBuf := bytes.length
    currRecvSize := bufSize - bytes.length
    currProcBuf := bytes.length }

def peer : ConnInfo :=
  { ConnInfo.init.claim 4 [10, 0, 0, 1, 0, 1] .tcp 0 with status := .ready }

/-- Two contexts in sequence. -/
def twoForwards : List (Kernel × Event) :=
  [(.silent, .accept [10, 0, 0, 9, 0, 9] .tcp),
   (.silent, .accept [10, 0, 0, 1, 0, 1] .tcp),
   (.silent, .accept [10, 0, 0, 2, 0, 2] .tcp),
   (.silent, .ready 0 .socket (received (message 1 0
     [.forward false 64 [10, 0, 0, 1, 0, 1] 50 0 1 1 0 .tcp, .reply 16,
      .forward false 64 [10, 0, 0, 2, 0, 2] 70 3 1 1 0 .tcp, .reply 16, .reply 16, .eom])))]

/-- The first is acknowledged. -/
def twoAnswered : List (Kernel × Event) :=
  twoForwards ++ [(.silent, .ready 1 .socket (received (message 0 0 [.eom])))]

/-- The timer of the first runs out. -/
def twoContexts : List (Kernel × Event) :=
  twoForwards ++ [(.silent, .elapse 50000), (.silent, .ready 3 .timer (received []))]

instance (reqId : Nat) (w : State) : (l : Label) → Decidable (ContextsAcknowledged reqId w l)
  | .skip slot => inferInstanceAs
      (Decidable ((w.reqs slot).reqId = reqId → (w.reqs slot).fwdRepliesLeft = -1))
  | .conn _ | .aside | .elapse _ | .enter _ _ | .setCmd _ | .begin _ _ | .ack _ _ | .retry _ | .insert _ _
  | .remove _ | .disarm | .release _ _ | .reset _ => .isTrue trivial

/-- Behind a context that has been acknowledged the next one starts clean. -/
theorem context_starts_clean_second :
    ∃ v w', (runCalls (State.init 0 (fun _ => 0) (fun _ _ => 0) true) twoAnswered)[5]? =
        some (v, .begin 0 56) ∧
      startForward v 0 0 56 = .ok (w', true) ∧ (w'.reqs 0).fwdRetries = 3 ∧
      Initialised v w' 0 56 ∧ SentToAll v w' 0 0 56 := by
  have evaluated : ((runCalls (State.init 0 (fun _ => 0) (fun _ _ => 0) true) twoAnswered)[5]?.any
      fun call => call.2 = .begin 0 56 ∧ (call.1.reqs 0).reqId = 0 ∧ (call.1.reqs 0).messagePtr = some 0 ∧
        cmdAt (reqMem call.1 0) 56 = .forwardBegin ∧ (call.1.reqs 0).ctx = none ∧
        0 ≤ toInt32 (fwdOpts (reqMem call.1 0) 56).timeout ∧ forwardGoesOut call.1 0 0 56 = true ∧
        ((startForward call.1 0 0 56).toOption.any fun s => s.2 = true ∧ (s.1.reqs 0).fwdRetries = 3)) =
      true := by decide +kernel
  have finished : (run (State.init 0 (fun _ => 0) (fun _ _ => 0) true) twoAnswered).toOption.isSome = true := by
    decide +kernel
  have acknowledged : ∀ earlier ∈
      (runCalls (State.init 0 (fun _ => 0) (fun _ _ => 0) true) twoAnswered).take 5,
      ContextsAcknowledged 0 earlier.1 earlier.2 := by decide +kernel
  obtain ⟨w, ran⟩ := Option.isSome_iff_exists.mp finished
  obtain ⟨⟨v, l⟩, call, facts⟩ := exists_of_any evaluated
  obtain ⟨rfl, live, message, begins, fresh, timeout, out, sends⟩ := of_decide_eq_true facts
  obtain ⟨⟨w', sent⟩, started, facts⟩ := exists_of_any sends
  obtain ⟨rfl, retries⟩ := of_decide_eq_true facts
  obtain ⟨m, pointed, initialised, goes⟩ := context_starts_clean 0 (fun _ => 0) (fun _ _ => 0) true
    (by decide) (toOption_eq_some ran) call acknowledged live begins fresh
  rw [message] at pointed
  cases pointed
  obtain ⟨w₁, sent, again, all⟩ := goes timeout out
  rw [toOption_eq_some started] at again
  cases again
  exact ⟨v, w', call, toOption_eq_some started, retries,
    initialised w' true (toOption_eq_some started), all⟩

/-- The second context keeps the counters of the first: it has no retry left,
where its FORWARD_BEGIN asks for three. -/
theorem skipped_context_goes_stale :
    ∃ w v w', run (State.init 0 (fun _ => 0) (fun _ _ => 0) true) twoContexts = .ok w ∧
      (runCalls (State.init 0 (fun _ => 0) (fun _ _ => 0) true) twoContexts)[6]? = some (v, .begin 0 56) ∧
      reqGetById v 0 = some 0 ∧ (v.reqs 0).ctx = none ∧ cmdAt (reqMem v 0) 56 = .forwardBegin ∧
      startForward v 0 0 56 = .ok (w', true) ∧ ¬ Initialised v w' 0 56 := by
  have evaluated : ((runCalls (State.init 0 (fun _ => 0) (fun _ _ => 0) true) twoContexts)[6]?.any
      fun call => call.2 = .begin 0 56 ∧ reqGetById call.1 0 = some 0 ∧ (call.1.reqs 0).ctx = none ∧
        cmdAt (reqMem call.1 0) 56 = .forwardBegin ∧ (fwdOpts (reqMem call.1 0) 56).retries = 3 ∧
        ((startForward call.1 0 0 56).toOption.any fun s => s.2 = true ∧ (s.1.reqs 0).fwdRetries = 0)) =
      true := by decide +kernel
  have finished : (run (State.init 0 (fun _ => 0) (fun _ _ => 0) true) twoContexts).toOption.isSome = true := by
    decide +kernel
  obtain ⟨w, ran⟩ := Option.isSome_iff_exists.mp finished
  obtain ⟨⟨v, l⟩, call, facts⟩ := exists_of_any evaluated
  obtain ⟨rfl, live, fresh, begins, asked, sends⟩ := of_decide_eq_true facts
  obtain ⟨⟨w', sent⟩, started, facts⟩ := exists_of_any sends
  obtain ⟨rfl, stale⟩ := of_decide_eq_true facts
  refine ⟨w, v, w', toOption_eq_some ran, call, live, fresh, begins, toOption_eq_some started,
    fun clean => ?_⟩
  have retries := clean.retries
  rw [stale, asked] at retries
  cases retries

end ForwardContext
