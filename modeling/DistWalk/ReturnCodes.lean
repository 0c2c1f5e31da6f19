import DistWalk.Batches
import DistWalk.LayoutRuns
import DistWalk.RequestLists
import DistWalk.StorageWorkers

/-!
# What the return code of a message says

`process_single_message` goes past the commands that need no waiting and stops at one
that replies, forwards or waits for a storage worker. Its callers know of the request
what the return code tells them: 1 that it is gone, 0 that something will resume it. A
message that ends before such a command, or has an unknown one in its place, leaves the
request on its list with nothing to resume it.
-/

namespace ReturnCodes

open ByteMemory Message Connection Worker Timeout Node Requests Transitions ReceiveQueue BufferLayout
  LayoutSteps Forwarding StorageWorkers

/-! ## The command at which the loop stops -/

/-- A COMPUTE, and a STORE that nobody waits for. -/
def passes (mem : Mem) (devices cmd : Nat) : Bool :=
  match cmdAt mem cmd with
  | .compute => true
  | .store => decide (storageDevice mem cmd < devices) && decide (storeWaitSync mem cmd = 0)
  | _ => false

/-- The first command from `cmd` on that the loop does not go past; none where the message ends. -/
def stopsAt (mem : Mem) (devices msgEnd : Nat) : Nat → Option Nat → Option Nat
  | 0, _ => none
  | _ + 1, none => none
  | fuel + 1, some cmd =>
    if passes mem devices cmd then stopsAt mem devices msgEnd fuel (cmdBoundedSkip mem (some cmd) 1 msgEnd)
    else some cmd

/-- What the loop does where it goes past `cmd`. -/
def passing (mem : Mem) (slot reqId cmd : Nat) : Effect :=
  if cmdAt mem cmd = .compute then .compute slot (compTimeUs mem cmd) else .storage (storageDevice mem cmd) reqId

/-- What it does from `cmd` on before it stops, the latest first. -/
def doneBefore (mem : Mem) (devices msgEnd slot reqId : Nat) : Nat → Option Nat → List Effect
  | 0, _ => []
  | _ + 1, none => []
  | fuel + 1, some cmd =>
    if passes mem devices cmd then
      doneBefore mem devices msgEnd slot reqId fuel (cmdBoundedSkip mem (some cmd) 1 msgEnd) ++
        [passing mem slot reqId cmd]
    else []

/-- Where a request with message `m` stops next. -/
def nextStop (w : State) (slot m : Nat) : Option Nat :=
  stopsAt (reqMem w slot) w.storageDevices (messageEnd (reqMem w slot) m) (messageEnd (reqMem w slot) m + 1)
    (w.reqs slot).currCmd

/-- More has been done to the outside. -/
def after (w : State) (effects : List Effect) : State := { w with effects := effects ++ w.effects }

/-- The state in which a request that stops at a FORWARD is forwarded. -/
def forwarding (w : State) (slot m cmd : Nat) : State :=
  let v := after w (doneBefore (reqMem w slot) w.storageDevices (messageEnd (reqMem w slot) m) slot
    (w.reqs slot).reqId (messageEnd (reqMem w slot) m + 1) (w.reqs slot).currCmd)
  if cmdAt (reqMem w slot) cmd = .forwardBegin then setCurrCmd v slot (some cmd) else v

/-- The ways out of the loop that stops at `stop`. -/
inductive Exit (mem : Mem) (slot m : Nat) (w : State) (stop : Option Nat) : State → Int → Prop
  | ended (effects : List Effect) (finished : ∀ cmd, stop = some cmd → cmdAt mem cmd = .eom) :
      Exit mem slot m w stop (after w effects) 1
  | strange (effects : List Effect) {cmd : Nat} (here : stop = some cmd)
      (unread : cmdAt mem cmd = .pskip ∨ ∃ code, cmdAt mem cmd = .unknown code) :
      Exit mem slot m w stop (after w effects) 0
  | refused (effects : List Effect) {cmd : Nat} (here : stop = some cmd)
      (type : cmdAt mem cmd = .store ∨ cmdAt mem cmd = .load)
      (missing : w.storageDevices ≤ storageDevice mem cmd) : Exit mem slot m w stop (after w effects) (-1)
  | waits (effects : List Effect) {cmd : Nat} {job : Job} (here : stop = some cmd)
      (asked : jobAt mem cmd = some job) (answered : job.acknowledged = true)
      (known : storageDevice mem cmd < w.storageDevices) :
      Exit mem slot m w stop (setCurrCmd ((after w effects).emit
        (.storage (storageDevice mem cmd) (w.reqs slot).reqId)) slot
        (cmdBoundedNext mem cmd (messageEnd mem m))) 0
  | forwards (effects : List Effect) {cmd : Nat} {u w' : State} {sent : Bool} (here : stop = some cmd)
      (type : (cmdAt mem cmd).isForward = true)
      (at_ : u = after w effects ∨ u = setCurrCmd (after w effects) slot (some cmd))
      (started : startForward u slot m cmd = .ok (w', sent)) :
      Exit mem slot m w stop w' (if sent then 0 else -1)
  | replies (effects : List Effect) {cmd : Nat} {w' : State} {ret : Int} (here : stop = some cmd)
      (type : cmdAt mem cmd = .reply) (replied : processReply (after w effects) slot m cmd = .ok (w', ret)) :
      Exit mem slot m w stop w' ret

theorem after_emit (w : State) (e : Effect) (effects : List Effect) :
    after (w.emit e) effects = after w (effects ++ [e]) := by
  simp [after, State.emit]

section Exit

variable {mem : Mem} {slot m : Nat} {w w' : State} {stop : Option Nat} {ret : Int}

/-- What was done before the loop got here makes no difference to the way out. -/
theorem Exit.passed {e : Effect} (h : Exit mem slot m (w.emit e) stop w' ret) : Exit mem slot m w stop w' ret := by
  cases h with
  | ended effects finished =>
    rw [after_emit]
    exact .ended _ finished
  | strange effects here unread =>
    rw [after_emit]
    exact .strange _ here unread
  | refused effects here type missing =>
    rw [after_emit]
    exact .refused _ here type missing
  | waits effects here asked answered known =>
    rw [after_emit]
    exact .waits _ here asked answered known
  | forwards effects here type at_ started =>
    rw [after_emit] at at_
    exact .forwards _ here type at_ started
  | replies effects here type replied =>
    rw [after_emit] at replied
    exact .replies _ here type replied

theorem exit_of_processFrom {fuel : Nat} {cmd : Option Nat}
    (h : processFrom mem slot m fuel w cmd = .ok (w', ret)) :
    Exit mem slot m w (stopsAt mem w.storageDevices (messageEnd mem m) fuel cmd) w' ret := by
  induction fuel generalizing w cmd with
  | zero =>
    cases h
    exact .ended [] fun _ e => by cases e
  | succ fuel ih =>
    cases cmd with
    | none =>
      cases h
      exact .ended [] fun _ e => by cases e
    | some cmd =>
      -- one case for each type of command; only COMPUTE and the nosync STORE go on
      cases type : cmdAt mem cmd with
      | compute =>
        simp only [processFrom, type] at h
        simp only [stopsAt, passes, type, if_true]
        exact (ih h).passed
      | eom =>
        simp only [processFrom, type] at h
        cases h
        exact .ended [] fun c e => by
          simp only [stopsAt, passes, type, Bool.false_eq_true, if_false, Option.some.injEq] at e
          rw [← e, type]
      | pskip =>
        simp only [processFrom, type] at h
        cases h
        simp only [stopsAt, passes, type, Bool.false_eq_true, if_false]
        exact .strange [] rfl (Or.inl type)
      | unknown code =>
        simp only [processFrom, type] at h
        cases h
        simp only [stopsAt, passes, type, Bool.false_eq_true, if_false]
        exact .strange [] rfl (Or.inr ⟨code, type⟩)
      | forwardBegin =>
        simp only [processFrom, type] at h
        simp only [stopsAt, passes, type, Bool.false_eq_true, if_false]
        obtain ⟨⟨v, sent⟩, started, paired⟩ := map_eq_ok.mp h
        cases paired
        exact .forwards [] rfl (by rw [type]; rfl) (Or.inr rfl) started
      | forwardContinue =>
        simp only [processFrom, type] at h
        simp only [stopsAt, passes, type, Bool.false_eq_true, if_false]
        obtain ⟨⟨v, sent⟩, started, paired⟩ := map_eq_ok.mp h
        cases paired
        exact .forwards [] rfl (by rw [type]; rfl) (Or.inl rfl) started
      | reply =>
        simp only [processFrom, type] at h
        simp only [stopsAt, passes, type, Bool.false_eq_true, if_false]
        exact .replies [] rfl type h
      | load =>
        simp only [processFrom, type] at h
        simp only [stopsAt, passes, type, Bool.false_eq_true, if_false]
        split at h
        · rename_i missing
          cases h
          exact .refused [] rfl (Or.inr type) missing
        · rename_i known
          cases h
          exact .waits [] rfl (by rw [jobAt, type]) rfl (Nat.lt_of_not_le known)
      | store =>
        simp only [processFrom, type] at h
        by_cases missing : w.storageDevices ≤ storageDevice mem cmd
        · rw [if_pos missing] at h
          cases h
          simp only [stopsAt, passes, type, Nat.not_lt.mpr missing, decide_false, Bool.false_and,
            Bool.false_eq_true, if_false]
          exact .refused [] rfl (Or.inl type) missing
        · rw [if_neg missing] at h
          have known := Nat.lt_of_not_le missing
          by_cases nosync : storeWaitSync mem cmd = 0
          · rw [if_pos nosync] at h
            simp only [stopsAt, passes, type, known, nosync, decide_true, Bool.and_self, if_true]
            exact (ih h).passed
          · rw [if_neg nosync] at h
            cases h
            simp only [stopsAt, passes, type, nosync, decide_false, Bool.and_false, Bool.false_eq_true,
              if_false]
            have asked : jobAt mem cmd = some (.store (decide (storeWaitSync mem cmd ≠ 0))) := by
              rw [jobAt, type]
            exact .waits [] rfl asked (decide_eq_true nosync) known

theorem exit_of_processSingleMessage (placed : (w.reqs slot).messagePtr = some m)
    (done : processSingleMessage w slot = .ok (w', ret)) :
    Exit (reqMem w slot) slot m w (nextStop w slot m) w' ret := by
  simp only [processSingleMessage, placed] at done
  exact exit_of_processFrom done

/-- The loop that stops at a FORWARD is that FORWARD behind what has been done before. -/
theorem processFrom_forward {fuel stop : Nat} {cmd : Option Nat}
    (here : stopsAt mem w.storageDevices (messageEnd mem m) fuel cmd = some stop)
    (forward : (cmdAt mem stop).isForward = true) :
    processFrom mem slot m fuel w cmd =
      let v := after w (doneBefore mem w.storageDevices (messageEnd mem m) slot (w.reqs slot).reqId fuel cmd)
      processForward (if cmdAt mem stop = .forwardBegin then setCurrCmd v slot (some stop) else v) slot m stop := by
  induction fuel generalizing w cmd with
  | zero => cases here
  | succ fuel ih =>
    cases cmd with
    | none => cases here
    | some cmd =>
      by_cases past : passes mem w.storageDevices cmd = true
      · -- what is passed is a COMPUTE or a nosync STORE on a device of the node
        simp only [stopsAt, past, if_true] at here
        simp only [doneBefore, past, if_true]
        have later := @ih (w.emit (passing mem slot (w.reqs slot).reqId cmd)) _ here
        rw [after_emit] at later
        refine Eq.trans ?_ later
        simp only [passes] at past
        split at past
        · rename_i type
          simp only [processFrom, type, passing, if_true]
        · rename_i type
          simp only [Bool.and_eq_true, decide_eq_true_eq] at past
          simp only [processFrom, type, passing, past.2, if_true, if_neg (Nat.not_le.mpr past.1), reduceCtorEq,
            if_false]
        · cases past
      · simp only [stopsAt, past, Bool.false_eq_true, if_false, Option.some.injEq] at here
        subst here
        simp only [doneBefore, past, Bool.false_eq_true, if_false]
        cases type : cmdAt mem cmd with
        | forwardBegin =>
          simp only [processFrom, type, if_true]
          rfl
        | forwardContinue =>
          simp only [processFrom, type, reduceCtorEq, if_false]
          rfl
        | _ =>
          rw [type] at forward
          cases forward

theorem processSingleMessage_forward {stop : Nat} (placed : (w.reqs slot).messagePtr = some m)
    (here : nextStop w slot m = some stop) (forward : (cmdAt (reqMem w slot) stop).isForward = true) :
    processSingleMessage w slot = processForward (forwarding w slot m stop) slot m stop := by
  simp only [processSingleMessage, placed]
  exact processFrom_forward here forward

end Exit

/-! ## The contract -/

def Live (w : State) (slot : Nat) : Prop := (w.reqs slot).messagePtr ≠ none

/-- The request is free, and no longer on the list of its connection. -/
structure Removed (w w' : State) (slot : Nat) : Prop where
  freed : (w'.reqs slot).reqId = noReq
  gone : ¬ Live w' slot
  unlisted : ∀ l, RequestLists.Listed w (w.reqs slot).connId l → slot ∈ l →
    RequestLists.Listed w' (w.reqs slot).connId (l.erase slot)

/-- The response to the request went to its connection. -/
def Replied (w w' : State) (slot m : Nat) : Prop :=
  ∃ cmd u v result, nextStop w slot m = some cmd ∧ cmdAt (reqMem w slot) cmd = .reply ∧
    u.conns = w.conns ∧ u.reqs = w.reqs ∧ reply u slot m cmd = .ok (v, result) ∧
    w'.conns = v.conns ∧ w'.reqs = v.reqs

/-- What will resume the request: the acknowledgement of a storage request that was sent
last, or the replies to a context that was started. -/
inductive Outstanding (w w' : State) (slot m : Nat) : Prop
  | storage {cmd : Nat} {job : Job} {earlier : List Effect} (here : nextStop w slot m = some cmd)
      (asked : jobAt (reqMem w slot) cmd = some job) (answered : job.acknowledged = true)
      (known : storageDevice (reqMem w slot) cmd < w.storageDevices)
      (sent : w'.effects = .storage (storageDevice (reqMem w slot) cmd) (w.reqs slot).reqId :: earlier)
  | context {cmd : Nat} (here : nextStop w slot m = some cmd)
      (type : (cmdAt (reqMem w slot) cmd).isForward = true)
      (started : startForward (forwarding w slot m cmd) slot m cmd = .ok (w', true))
      (running : (w'.reqs slot).ctx ≠ none)

structure Contract (w w' : State) (slot m : Nat) (ret : Int) : Prop where
  executed : ret = 1 → Replied w w' slot m ∧ Removed w w' slot
  pending : ret = 0 → Live w' slot ∧ Outstanding w w' slot m
  resumed : Live w' slot → Outstanding w w' slot m

/-- What the loop stops at concludes the execution or will resume it: a REPLY, a LOAD or STORE on a
device of the node, or a FORWARD that can be carried out. -/
def Conclusive (w : State) (slot m : Nat) : Prop :=
  match nextStop w slot m with
  | none => False
  | some cmd =>
    match cmdAt (reqMem w slot) cmd with
    | .reply => True
    | .forwardBegin => forwardComesThrough (forwarding w slot m cmd) slot m cmd = true
    | .forwardContinue => forwardComesThrough (forwarding w slot m cmd) slot m cmd = true
    | .load => storageDevice (reqMem w slot) cmd < w.storageDevices
    | .store => storageDevice (reqMem w slot) cmd < w.storageDevices
    | _ => False

section Contract

variable {slot m : Nat} {w w' : State} {ret : Int}

/-! ## Replies -/

theorem connResetFrom_gone (fuel : Nat) (w : State) (start : Option Nat) {s : Nat}
    (gone : (w.reqs s).messagePtr = none) : ((connResetFrom fuel w start).reqs s).messagePtr = none := by
  have listless : Listless ReqInfo.messagePtr := ⟨fun _ _ => rfl, fun _ _ => rfl⟩
  induction fuel generalizing w start with
  | zero => exact gone
  | succ fuel ih =>
    cases start with
    | none => exact gone
    | some t =>
      refine ih _ _ ?_
      by_cases own : s = t
      · subst own
        exact reqUnlink_messagePtr w s
      · rw [listless.reqUnlink w own]
        exact gone

theorem closeAndForget_gone {sock : Option Nat} {s : Nat} (gone : (w.reqs s).messagePtr = none)
    (closed : closeAndForget w sock = .ok w') : (w'.reqs s).messagePtr = none := by
  simp only [closeAndForget, connDelSock] at closed
  split at closed
  · cases closed
  · rename_i deleted
    cases closed
    split at deleted
    · cases deleted
    · cases deleted
      exact gone
    · cases deleted
      exact connResetFrom_gone _ (w.emit (.pollDel sock)) _ gone

theorem reply_removed {cmd : Nat} (h : reply w slot m cmd = .ok (w', ret)) : Removed w w' slot := by
  obtain ⟨v, quiet, reqs, -, rfl⟩ := reply_cases h
  refine ⟨connReqRemove_reqId _ _ _, not_not.mpr (reqUnlink_messagePtr _ _), fun l listed own => ?_⟩
  have sent : RequestLists.Listed v (w.reqs slot).connId l :=
    listed.congr (inbox_eq (quiet.conns _)).2.2.2.2.1 (fun s _ => by rw [reqs]) fun s => by rw [reqs]
  exact (sent.removed own).congr rfl (fun _ _ => rfl) fun _ => Iff.rfl

theorem Removed.congr {v : State} (h : Removed w v slot) (conns : w'.conns = v.conns) (reqs : w'.reqs = v.reqs) :
    Removed w w' slot where
  freed := by
    rw [reqs]
    exact h.freed
  gone := by
    rw [Live, reqs]
    exact h.gone
  unlisted := fun l listed own => (h.unlisted l listed own).congr (by rw [conns]) (fun s _ => by rw [reqs])
    fun s => by rw [reqs]

/-! ## Contexts -/

theorem sendBranches_sent {fuel : Nat} {itr : Option Nat} (h : sendBranches slot m fuel w itr = .ok (w', true)) :
    Sending w w' ∧ SameSlots w w' := by
  induction fuel generalizing w itr with
  | zero =>
    cases h
    exact ⟨.refl _, fun _ => ⟨rfl, rfl⟩⟩
  | succ fuel ih =>
    cases itr with
    | none =>
      cases h
      exact ⟨.refl _, fun _ => ⟨rfl, rfl⟩⟩
    | some cmd =>
      simp only [sendBranches] at h
      split at h
      · cases h
      · cases h
      · rename_i single
        obtain ⟨sending, slots, -⟩ := singleStartForward_spec single
        split at h
        · cases h
        · obtain ⟨later, same⟩ := ih h
          exact ⟨sending.trans later, (slots (Option.some_ne_none _)).trans same⟩

/-- A request whose context was started is where it was. -/
theorem startForward_started {cmd : Nat} (h : startForward w slot m cmd = .ok (w', true)) :
    (w'.reqs slot).messagePtr = (w.reqs slot).messagePtr ∧ (w'.reqs slot).ctx ≠ none := by
  obtain ⟨sending, slots⟩ := sendBranches_sent h
  have begun := beginContext_resident w slot cmd
  refine ⟨(slots slot).2.trans begun.2.2.1, ?_⟩
  have core := sending.core slot
  simp only [Forwarding.core, Prod.mk.injEq] at core
  rw [core.2.2.2.2.2.2.2.2, beginContext_req]
  split
  · simp
  · simp

/-- Sending keeps the messages of all requests, where the tables are laid out; elsewhere a
TLS connection that fails releases what the list of its entry still names. -/
theorem singleStartForward_messages {cmd : Nat} {shown : Option Nat} (laid : Laid w)
    (h : singleStartForward w slot m cmd = .ok (w', shown)) (s : Nat) :
    (w'.reqs s).messagePtr = (w.reqs s).messagePtr := by
  simp only [singleStartForward] at h
  split at h
  · cases h
  · cases h
    rfl
  · split at h
    · rw [skipAcked_state h]
    · have reqs := LayoutRuns.forwardConn_reqs laid (fwdOpts (reqMem w slot) cmd)
      split at h
      · rename_i e
        rw [e] at reqs
        cases h
        rw [reqs]
      · rename_i e
        rw [e] at reqs
        rw [((sendForward_spec h).2.1 s).2, reqs]

theorem sendBranches_messages {fuel : Nat} {itr : Option Nat} {sent : Bool} (laid : Laid w)
    (h : sendBranches slot m fuel w itr = .ok (w', sent)) (s : Nat) :
    (w'.reqs s).messagePtr = (w.reqs s).messagePtr := by
  induction fuel generalizing w itr with
  | zero =>
    cases h
    rfl
  | succ fuel ih =>
    cases itr with
    | none =>
      cases h
      rfl
    | some cmd =>
      simp only [sendBranches] at h
      split at h
      · cases h
      · rename_i single
        cases h
        exact singleStartForward_messages laid single s
      · rename_i single
        split at h
        · cases h
        · rw [ih ((course_keeps.toPassage.singleStartForward single).laid laid) h,
            singleStartForward_messages laid single s]

theorem startForward_messages {cmd : Nat} {sent : Bool} (laid : Laid w)
    (h : startForward w slot m cmd = .ok (w', sent)) : (w'.reqs slot).messagePtr = (w.reqs slot).messagePtr :=
  (sendBranches_messages ((still_beginContext w slot cmd).keeps.laid laid) h slot).trans
    (beginContext_resident w slot cmd).2.2.1

/-! ## The way out and the contract -/

theorem not_contract_of_waiting_for_nothing {effects : List Effect} (placed : (w.reqs slot).messagePtr = some m)
    (idle : ∀ cmd, nextStop w slot m = some cmd → (cmdAt (reqMem w slot) cmd).isForward = false ∧
      (jobAt (reqMem w slot) cmd = none ∨ w.storageDevices ≤ storageDevice (reqMem w slot) cmd)) :
    ¬ Contract w (after w effects) slot m ret := by
  intro contract
  have live : Live (after w effects) slot := by
    rw [Live, after, placed]
    exact Option.some_ne_none m
  rcases contract.resumed live with ⟨here, asked, -, known, -⟩ | ⟨here, type, -⟩
  · rcases (idle _ here).2 with none | missing
    · rw [none] at asked
      cases asked
    · exact absurd known (Nat.not_lt.mpr missing)
  · rw [(idle _ here).1] at type
    cases type

theorem contract_iff_of_exit {stop : Option Nat} (placed : (w.reqs slot).messagePtr = some m)
    (at_ : nextStop w slot m = stop)
    (other : ∀ cmd, stop = some cmd → (cmdAt (reqMem w slot) cmd).isForward = false)
    (h : Exit (reqMem w slot) slot m w stop w' ret) : Contract w w' slot m ret ↔ Conclusive w slot m := by
  rw [Conclusive, at_]
  cases h with
  | ended effects finished =>
    refine iff_of_false (not_contract_of_waiting_for_nothing placed fun cmd e => ?_) ?_
    · rw [at_] at e
      exact ⟨other cmd e, Or.inl (by rw [jobAt, finished cmd e])⟩
    · cases stop with
      | none => exact not_false
      | some cmd => simp [finished cmd rfl]
  | strange effects here unread =>
    rename_i cmd
    subst here
    refine iff_of_false (not_contract_of_waiting_for_nothing placed fun c e => ?_) ?_
    · rw [at_] at e
      cases e
      refine ⟨other cmd rfl, Or.inl ?_⟩
      rcases unread with type | ⟨code, type⟩ <;> rw [jobAt, type]
    · rcases unread with type | ⟨code, type⟩ <;> simp [type]
  | refused effects here type missing =>
    rename_i cmd
    subst here
    refine iff_of_false (not_contract_of_waiting_for_nothing placed fun c e => ?_) ?_
    · rw [at_] at e
      cases e
      exact ⟨other cmd rfl, Or.inr missing⟩
    · rcases type with type | type <;> simp [type, missing]
  | waits effects here asked answered known =>
    rename_i cmd job
    subst here
    have outstanding : Outstanding w (setCurrCmd ((after w effects).emit
        (.storage (storageDevice (reqMem w slot) cmd) (w.reqs slot).reqId)) slot
        (cmdBoundedNext (reqMem w slot) cmd (messageEnd (reqMem w slot) m))) slot m :=
      .storage at_ asked answered known rfl
    refine iff_of_true ⟨fun one => absurd one (by decide), fun _ => ⟨?_, outstanding⟩, fun _ => outstanding⟩ ?_
    · rw [Live, setCurrCmd, setReq_self]
      exact fun none => Option.some_ne_none m (placed.symm.trans none)
    · cases type : cmdAt (reqMem w slot) cmd with
      | store => simpa only [type] using known
      | load => simpa only [type] using known
      | _ => simp [jobAt, type] at asked
  | forwards effects here type =>
    rw [other _ here] at type
    cases type
  | replies effects here type replied =>
    rename_i cmd
    subst here
    have kind : match cmdAt (reqMem w slot) cmd with
      | .reply => True
      | .forwardBegin => forwardComesThrough (forwarding w slot m cmd) slot m cmd = true
      | .forwardContinue => forwardComesThrough (forwarding w slot m cmd) slot m cmd = true
      | .load => storageDevice (reqMem w slot) cmd < w.storageDevices
      | .store => storageDevice (reqMem w slot) cmd < w.storageDevices
      | _ => False := by
      rw [type]
      trivial
    obtain ⟨v, result, sent, outcome⟩ := processReply_cases replied
    have removed : Removed w v slot := by
      have off := reply_removed sent
      exact ⟨off.freed, off.gone, fun l listed => off.unlisted l (listed.congr rfl (fun _ _ => rfl) fun _ => Iff.rfl)⟩
    rcases outcome with ⟨rfl, conns, reqs⟩ | ⟨rfl, closed, -⟩
    · have done := removed.congr conns reqs
      exact iff_of_true ⟨fun _ => ⟨⟨cmd, after w effects, v, result, at_, type, rfl, rfl, sent, conns,
        reqs⟩, done⟩, fun zero => absurd zero (by decide), fun live => absurd live done.gone⟩ kind
    · have gone := closeAndForget_gone (not_not.mp removed.gone) closed
      exact iff_of_true ⟨fun one => absurd one (by decide), fun zero => absurd zero (by decide),
        fun live => absurd gone live⟩ kind

theorem forwarding_tables (w : State) (slot m cmd : Nat) :
    ((forwarding w slot m cmd).reqs slot).messagePtr = (w.reqs slot).messagePtr ∧
      (Laid w → Laid (forwarding w slot m cmd)) := by
  simp only [forwarding]
  generalize doneBefore _ _ _ _ _ _ _ = effects
  have still : Still w (after w effects) := still_aside rfl rfl rfl (Nat.le_refl _)
  have kept := still.keeps.laid
  split
  · have moved : Quiet (after w effects) (setCurrCmd (after w effects) slot (some cmd)) := quiet_setReq _ slot rfl
    refine ⟨?_, fun laid => moved.keeps.laid (kept laid)⟩
    rw [setCurrCmd, setReq_self]
    rfl
  · exact ⟨rfl, kept⟩

/-- At a FORWARD the contract is met where all its branches can be carried out; where one cannot,
the request stays as it is. -/
theorem contract_of_forward {cmd : Nat} (placed : (w.reqs slot).messagePtr = some m)
    (here : nextStop w slot m = some cmd) (forward : (cmdAt (reqMem w slot) cmd).isForward = true)
    (done : processSingleMessage w slot = .ok (w', ret)) :
    (forwardComesThrough (forwarding w slot m cmd) slot m cmd = true → Contract w w' slot m ret) ∧
      (Laid w → Contract w w' slot m ret → forwardComesThrough (forwarding w slot m cmd) slot m cmd = true) := by
  obtain ⟨message, kept⟩ := forwarding_tables w slot m cmd
  rw [processSingleMessage_forward placed here forward] at done
  obtain ⟨⟨v, sent⟩, started, e⟩ := map_eq_ok.mp done
  cases e
  rw [← startForward_through started]
  cases sent with
  | true =>
    obtain ⟨stays, running⟩ := startForward_started started
    have outstanding : Outstanding w v slot m := .context here forward started running
    refine ⟨fun _ => ⟨fun one => absurd one (by simp), fun _ => ⟨?_, outstanding⟩, fun _ => outstanding⟩,
      fun _ _ => rfl⟩
    rw [Live, stays, message, placed]
    exact Option.some_ne_none m
  | false =>
    refine ⟨fun through => absurd through (by decide), fun laid contract => ?_⟩
    have live : Live v slot := by
      rw [Live, startForward_messages (kept laid) started, message, placed]
      exact Option.some_ne_none m
    rcases contract.resumed live with ⟨at_, asked, -⟩ | ⟨at_, -, again, -⟩
    · rw [here] at at_
      cases at_
      cases type : cmdAt (reqMem w slot) cmd with
      | forwardBegin => simp [jobAt, type] at asked
      | forwardContinue => simp [jobAt, type] at asked
      | _ =>
        rw [type] at forward
        cases forward
    · rw [here] at at_
      cases at_
      rw [started] at again
      cases again

/-- The return code says what has become of the request, and no request is left with
nothing to resume it, if the loop stops at a REPLY, at a FORWARD that can be carried out, or at a
storage command on a device of the node; and only then where the tables are laid out. -/
theorem contract_iff {w w' : State} {slot m : Nat} {ret : Int} (placed : (w.reqs slot).messagePtr = some m)
    (done : processSingleMessage w slot = .ok (w', ret)) :
    (Conclusive w slot m → Contract w w' slot m ret) ∧
      (Laid w → (Contract w w' slot m ret ↔ Conclusive w slot m)) := by
  by_cases forward : ∃ cmd, nextStop w slot m = some cmd ∧ (cmdAt (reqMem w slot) cmd).isForward = true
  · obtain ⟨cmd, here, forward⟩ := forward
    have kind : Conclusive w slot m ↔ forwardComesThrough (forwarding w slot m cmd) slot m cmd = true := by
      rw [Conclusive, here]
      cases type : cmdAt (reqMem w slot) cmd with
      | forwardBegin => simp only [type]
      | forwardContinue => simp only [type]
      | _ =>
        rw [type] at forward
        cases forward
    rw [kind]
    obtain ⟨enough, needed⟩ := contract_of_forward placed here forward done
    exact ⟨enough, fun laid => ⟨needed laid, enough⟩⟩
  · have other : ∀ cmd, nextStop w slot m = some cmd → (cmdAt (reqMem w slot) cmd).isForward = false :=
      fun cmd here => Bool.eq_false_iff.mpr fun type => forward ⟨cmd, here, type⟩
    have exact_ := contract_iff_of_exit placed rfl other (exit_of_processSingleMessage placed done)
    exact ⟨exact_.mpr, fun _ => exact_⟩

end Contract

/-- A client connects, its message arrives and enters the tables. -/
def requested (cmds : List Wire.Cmd) : Option State :=
  (run (State.init 1 (fun _ => 5) (fun _ _ => 0) true)
    [(.silent, .accept [10, 0, 0, 9, 0, 9] .tcp)]).toOption.bind fun w =>
      let w := (recvPhase w 0 (received (Wire.message 1 0 cmds))).1
      match connPrepareRecvMessage (w.conns 0) with
      | .ok (some m, conn) => some (enterRequest (w.setConn 0 conn) 0 m).1
      | _ => none

/-- A COMPUTE, and a FORWARD whose connection is being opened. -/
theorem contract_iff_forward :
    ∃ w w', requested [.compute 10, .forward false 64 [10, 0, 0, 1, 0, 1] 50 0 1 1 0 .tcp, .reply 16, .reply 16, .eom] =
      some w ∧ processSingleMessage w 0 = .ok (w', 0) ∧ Contract w w' 0 0 0 := by
  have evaluated : ((requested [.compute 10, .forward false 64 [10, 0, 0, 1, 0, 1] 50 0 1 1 0 .tcp, .reply 16,
      .reply 16, .eom]).any fun w =>
        ((processSingleMessage w 0).toOption.any fun s => s.2 = 0) &&
          (decide ((w.reqs 0).messagePtr = some 0) && decide (nextStop w 0 0 = some 20 ∧
            cmdAt (reqMem w 0) 20 = .forwardBegin ∧
            forwardComesThrough (forwarding w 0 0 20) 0 0 20 = true))) = true := by decide +kernel
  obtain ⟨w, ready, inner⟩ := exists_of_any evaluated
  obtain ⟨returned, facts⟩ := Bool.and_eq_true_iff.mp inner
  obtain ⟨placed, stop⟩ := Bool.and_eq_true_iff.mp facts
  obtain ⟨⟨w', ret⟩, done, zero⟩ := exists_of_any returned
  obtain rfl := of_decide_eq_true zero
  obtain ⟨here, type, through⟩ := of_decide_eq_true stop
  refine ⟨w, w', ready, toOption_eq_some done, ?_⟩
  refine (contract_iff (of_decide_eq_true placed) (toOption_eq_some done)).1 ?_
  simp only [Conclusive, here, type]
  exact through

/-- A COMPUTE and the EOM: the code is 1, and the request is still there. -/
theorem finished_without_reply :
    ∃ w w', requested [.compute 10, .eom] = some w ∧ processSingleMessage w 0 = .ok (w', 1) ∧
      Live w' 0 ∧ ¬ Contract w w' 0 0 1 := by
  have evaluated : ((requested [.compute 10, .eom]).any fun w =>
      (processSingleMessage w 0).toOption.any fun s =>
        decide (s.2 = 1 ∧ (s.1.reqs 0).messagePtr = some 0)) = true := by decide +kernel
  obtain ⟨w, ready, inner⟩ := exists_of_any evaluated
  obtain ⟨⟨w', ret⟩, done, facts⟩ := exists_of_any inner
  obtain ⟨rfl, placed⟩ := of_decide_eq_true facts
  have live : Live w' 0 := by
    rw [Live, placed]
    exact Option.some_ne_none 0
  exact ⟨w, w', ready, toOption_eq_some done, live, fun contract => (contract.executed rfl).2.gone live⟩

end ReturnCodes
