import DistWalk.LayoutRuns
import DistWalk.ReceivedBytes
import DistWalk.ReturnCodes

/-!
# The current command of a pending request

`curr_cmd` comes from a walker that answers NULL at the end of the message, and code that
runs much later reads through it. A request keeps a command inside its message as long as
its first command lies there and every walker that moves `curr_cmd` finds a command:
behind a storage command that is waited for, behind a context that is complete or given up.
-/

namespace CurrentCommands

open ByteMemory Message Connection PriorityQueue Worker Timeout Node Requests Transitions ThreadedBlocks ReceiveQueue
  BufferLayout LayoutSteps ConnectionSlots BufferSpace Batches Forwarding Walkers LayoutRuns StorageWorkers
  ReceivedBytes ReturnCodes

/-! ## Where the loop goes from a command -/

section Stops

variable {mem mem' : Mem} {devices msgEnd fuel : Nat}

/-- The loop stops at a command inside the message, not before the one it starts at. -/
theorem stopsAt_inBounds {cmd stop : Nat} (inside : cmdInBounds mem cmd msgEnd = true)
    (h : stopsAt mem devices msgEnd fuel (some cmd) = some stop) :
    cmd ≤ stop ∧ cmdInBounds mem stop msgEnd = true := by
  induction fuel generalizing cmd with
  | zero => cases h
  | succ fuel ih =>
    simp only [stopsAt] at h
    split at h
    · cases step : cmdBoundedSkip mem (some cmd) 1 msgEnd with
      | none =>
        rw [step] at h
        cases fuel <;> cases h
      | some next =>
        rw [step] at h
        obtain ⟨forwards, there⟩ := cmdBoundedSkip_spec step
        obtain ⟨le, found⟩ := ih there h
        exact ⟨by omega, found⟩
    · cases h
      exact ⟨Nat.le_refl _, inside⟩

theorem agree_storage {lo cmd : Nat} (h : Agree lo mem mem') (le : lo ≤ cmd) :
    storageDevice mem cmd = storageDevice mem' cmd ∧ storeWaitSync mem cmd = storeWaitSync mem' cmd ∧
      jobAt mem cmd = jobAt mem' cmd := by
  have flag : storeWaitSync mem cmd = storeWaitSync mem' cmd := by
    rw [storeWaitSync, storeWaitSync, h _ (by omega)]
  refine ⟨?_, flag, ?_⟩
  · rw [storageDevice, storageDevice, h.cmdAt le, storeDevId, storeDevId, loadDevId, loadDevId, h _ (by omega),
      h _ (by omega)]
  · rw [jobAt, jobAt, h.cmdAt le, flag]

theorem agree_stopsAt {lo : Nat} (h : Agree lo mem mem') {cmd : Option Nat} (le : ∀ c, cmd = some c → lo ≤ c) :
    stopsAt mem devices msgEnd fuel cmd = stopsAt mem' devices msgEnd fuel cmd := by
  induction fuel generalizing cmd with
  | zero => rfl
  | succ fuel ih =>
    cases cmd with
    | none => rfl
    | some cmd =>
      have here := le cmd rfl
      obtain ⟨device, flag, -⟩ := agree_storage h here
      have same : passes mem devices cmd = passes mem' devices cmd := by
        rw [passes, passes, h.cmdAt here, device, flag]
      simp only [stopsAt, same, h.cmdBoundedSkip here]
      rw [ih fun c e => Nat.le_of_lt (Nat.lt_of_le_of_lt here (cmdBoundedSkip_spec e).1)]

end Stops

/-- There is a command to go on with, and the storage command that the loop then waits
for is followed by another. -/
def GoesOn (mem : Mem) (devices msgEnd : Nat) (cmd : Option Nat) : Prop :=
  ∃ c, cmd = some c ∧ ∀ stop job, stopsAt mem devices msgEnd (msgEnd + 1) (some c) = some stop →
    jobAt mem stop = some job → storageDevice mem stop < devices → cmdBoundedNext mem stop msgEnd ≠ none

theorem GoesOn.agree {mem mem' : Mem} {devices msgEnd lo : Nat} {cmd : Option Nat}
    (h : GoesOn mem devices msgEnd cmd) (same : Agree lo mem mem') (le : ∀ c, cmd = some c → lo ≤ c)
    (inside : ∀ c, cmd = some c → cmdInBounds mem c msgEnd = true) : GoesOn mem' devices msgEnd cmd := by
  obtain ⟨c, rfl, followed⟩ := h
  refine ⟨c, rfl, fun stop job here asked known => ?_⟩
  rw [← agree_stopsAt same le] at here
  have behind := (stopsAt_inBounds (inside c rfl) here).1
  have there := Nat.le_trans (le c rfl) behind
  obtain ⟨device, -, jobs⟩ := agree_storage same there
  rw [← same.cmdBoundedNext there]
  exact followed stop job here (jobs.trans asked) (device ▸ known)

/-- The status of the message has no part in it. -/
theorem GoesOn.setStatus {mem : Mem} {devices m status : Nat} {cmd : Option Nat}
    (h : GoesOn mem devices (messageEnd mem m) cmd) (behind : ∀ c, cmd = some c → messageFirstCmd m ≤ c)
    (inside : ∀ c, cmd = some c → cmdInBounds mem c (messageEnd mem m) = true) :
    GoesOn (setStatus mem m status) devices (messageEnd (setStatus mem m status) m) cmd := by
  rw [messageEnd_setStatus]
  exact h.agree (fun i le => (agree_setStatus mem m status i le).symm) behind inside

/-- A REPLY waits for no storage worker. -/
theorem goesOn_reply {mem : Mem} {devices msgEnd cmd : Nat} (type : cmdAt mem cmd = .reply) :
    GoesOn mem devices msgEnd (some cmd) := by
  refine ⟨cmd, rfl, fun stop job here asked _ => ?_⟩
  simp only [stopsAt, passes, type, Bool.false_eq_true, if_false, Option.some.injEq] at here
  subst here
  simp [jobAt, type] at asked

/-! ## The invariant -/

/-- A live request has a current command, which lies in its message. -/
def Current (w : State) (slot : Nat) : Prop :=
  ∀ m, (w.reqs slot).messagePtr = some m →
    ∃ cmd, (w.reqs slot).currCmd = some cmd ∧
      cmdInBounds (reqMem w slot) cmd (messageEnd (reqMem w slot) m) = true

def Pending (w : State) : Prop := ∀ slot, Current w slot

/-- Laid out, and every request with its current command. -/
structure Good (w : State) : Prop extends Sound w where
  pending : Pending w

/-- What a request stands on. -/
def footing (r : ReqInfo) : Nat × Option Nat × Option Nat := (r.connId, r.messagePtr, r.currCmd)

theorem footing_eq {r r' : ReqInfo} (h : footing r' = footing r) :
    r'.connId = r.connId ∧ r'.messagePtr = r.messagePtr ∧ r'.currCmd = r.currCmd := by
  simpa only [footing, Prod.mk.injEq] using h

theorem listless_footing : Listless footing := ⟨fun _ _ => rfl, fun _ _ => rfl⟩

section Current

variable {w w' : State} {slot m : Nat}

theorem Current.congr (h : Current w slot) (same : footing (w'.reqs slot) = footing (w.reqs slot))
    (mem : (w.reqs slot).messagePtr ≠ none → reqMem w' slot = reqMem w slot) : Current w' slot := by
  obtain ⟨-, message, cmd⟩ := footing_eq same
  intro m placed
  rw [message] at placed
  rw [cmd, mem (by rw [placed]; exact Option.some_ne_none m)]
  exact h m placed

theorem current_gone (gone : (w.reqs slot).messagePtr = none) : Current w slot := by
  intro m placed
  rw [gone] at placed
  cases placed

/-- A command and its message of `n` bytes, moved as one. -/
theorem inBounds_moved {mem mem' : Mem} {m m' n cmd : Nat} (size : reqSizeOf mem m = n) (large : messageHeader ≤ n)
    (bytes : ∀ k, k < n → mem' (m' + k) = mem (m + k)) (behind : m ≤ cmd)
    (inside : cmdInBounds mem cmd (messageEnd mem m) = true) :
    cmdInBounds mem' (m' + (cmd - m)) (messageEnd mem' m') = true := by
  have fits := cmdInBounds_iff.mp inside
  have least := four_le_cmdTypeSize (cmdAt mem cmd)
  simp only [messageEnd, size] at fits
  simp only [messageHeader] at large
  have same : reqSizeOf mem' m' = n := by
    rw [← size, reqSizeOf, reqSizeOf]
    refine u32_congr fun i less => ?_
    rw [Nat.add_assoc, bytes (4 + i) (by omega), Nat.add_assoc]
  have type : cmdAt mem' (m' + (cmd - m)) = cmdAt mem cmd := by
    refine congrArg CommandType.ofCode (u32_congr fun i less => ?_)
    rw [Nat.add_assoc, bytes (cmd - m + i) (by omega)]
    congr 1
    omega
  rw [cmdInBounds_iff, type, messageEnd, same]
  omega

/-! ## What keeps the current commands -/

/-- Whoever is still there has its footing, and its message is where it was. -/
theorem Pending.kept (h : Pending w)
    (same : ∀ x, (w'.reqs x).messagePtr = none ∨ footing (w'.reqs x) = footing (w.reqs x) ∧
      ((w.reqs x).messagePtr ≠ none → reqMem w' x = reqMem w x)) : Pending w' := by
  intro x
  rcases same x with gone | ⟨stays, mem⟩
  · exact current_gone gone
  · exact (h x).congr stays mem

theorem Stays.current {n : Nat} (h : LayoutRuns.Stays n w w' slot) (placed : (w.reqs slot).messagePtr = some m)
    (size : reqSizeOf (reqMem w slot) m = n) (large : messageHeader ≤ n) (standing : Standing (w.reqs slot))
    (current : Current w slot) : Current w' slot := by
  obtain ⟨m₀, m', at_, there, cmd, bytes⟩ := h.moved
  rw [placed] at at_
  cases at_
  obtain ⟨c, here, inside⟩ := current m placed
  have behind := (standing m placed).2 c here
  simp only [messageFirstCmd] at behind
  intro p at_
  rw [there] at at_
  cases at_
  refine ⟨m' + (c - m), by rw [cmd, here]; rfl, ?_⟩
  exact inBounds_moved size large bytes (by omega) inside

theorem Still.footing (h : Still w w') (x : Nat) : CurrentCommands.footing (w'.reqs x) = CurrentCommands.footing (w.reqs x) := by
  have here := place_eq (h.reqs x)
  rw [CurrentCommands.footing, here.1, here.2.1, (stance_eq (h.stances x)).1]
  rfl

theorem Still.reqMem (h : Still w w') (x : Nat) : Node.reqMem w' x = Node.reqMem w x := by
  rw [Node.reqMem, (place_eq (h.reqs x)).1, (inbox_eq (h.conns _)).1, Node.reqMem]

theorem Good.still (h : Good w) (k : Still w w') : Good w' :=
  ⟨course_sound.still k h.toSound, h.pending.kept fun x => Or.inr ⟨Still.footing k x, fun _ => Still.reqMem k x⟩⟩

theorem Good.forwardConn (h : Good w) (fwd : FwdOpts) : Good (forwardConn w fwd).1 := by
  refine ⟨course_sound.forwardConn w fwd h.toSound, h.pending.kept fun x => Or.inr ?_⟩
  have reqs := forwardConn_reqs h.laid fwd
  refine ⟨by rw [reqs], fun live => ?_⟩
  rw [reqMem, reqMem, reqs, forwardConn_used fwd (h.laid.busy _ (h.laid.opened x live))]

theorem Good.setMsgStatus (h : Good w) (status : Nat) (placed : (w.reqs slot).messagePtr = some m) :
    Good (setMsgStatus w slot m status) := by
  refine ⟨course_sound.setMsgStatus w slot m status placed h.toSound, fun x q here => ?_⟩
  change (w.reqs x).messagePtr = some q at here
  obtain ⟨cmd, current, inside⟩ := h.pending x q here
  have behind := (h.standing x q here).2 cmd current
  refine ⟨cmd, current, ?_⟩
  by_cases same : (w.reqs x).connId = (w.reqs slot).connId
  · have mem : reqMem (Node.setMsgStatus w slot m status) x = setStatus (reqMem w x) m status := by
      rw [reqMem, reqMem, Node.setMsgStatus, State.setConn]
      simp only [same, Function.update_self]
    obtain ⟨large, apart⟩ := Laid.apart h.laid placed here same
    rw [mem]
    rcases apart with rfl | apart
    · rw [messageEnd_setStatus, (agree_setStatus (reqMem w x) m status).cmdInBounds behind]
      exact inside
    · simp only [messageFirstCmd] at behind
      have kept : cmdInBounds (setStatus (reqMem w x) m status) (q + (cmd - q))
          (messageEnd (setStatus (reqMem w x) m status) q) = true :=
        inBounds_moved rfl large (fun k less => ?_) (by omega) inside
      · rwa [show q + (cmd - q) = cmd by omega] at kept
      · refine store_outside _ (m + 8) _ ?_
        simp only [length_u32Bytes]
        obtain ⟨wide, -⟩ := Laid.apart h.laid placed placed rfl
        simp only [messageHeader] at wide
        omega
  · have mem : reqMem (Node.setMsgStatus w slot m status) x = reqMem w x := by
      rw [reqMem, reqMem, Node.setMsgStatus, State.setConn]
      simp only [Function.update_of_ne same]
    rw [mem]
    exact inside

theorem Good.connReqRemove (h : Good w) (placed : (w.reqs slot).messagePtr = some m) :
    Good (connReqRemove w (w.reqs slot).connId slot) := by
  refine ⟨course_sound.connReqRemove w slot m placed h.toSound, fun x => ?_⟩
  have opened := h.laid.opened slot (by rw [placed]; exact Option.some_ne_none m)
  obtain ⟨l, queue⟩ := h.laid.queue _ opened
  by_cases released : x = slot
  · subst released
    exact current_gone (reqUnlink_messagePtr _ _)
  · by_cases live : (w.reqs x).messagePtr = none
    · have off := on_release placed queue
        ((Worker.connReqRemove w (w.reqs slot).connId slot).reqs x).connId x
      exact current_gone (not_not.mp fun some => (off.mp ⟨some, rfl⟩).2.1 live)
    · obtain ⟨q, here⟩ := Option.ne_none_iff_exists'.mp live
      by_cases own : (w.reqs x).connId = (w.reqs slot).connId
      · have stays := stays_release placed queue (h.laid.proc _ opened) ((queue.members x).mpr ⟨live, own⟩)
          released here fun cmd current => by
            have := (h.standing x q here).2 cmd current
            simp only [messageFirstCmd] at this
            omega
        exact Stays.current stays here rfl (Laid.apart h.laid placed here own).1 (h.standing x) (h.pending x)
      · have reqs := reqs_release placed queue own ⟨live, rfl⟩
        refine (h.pending x).congr (by rw [reqs]) fun _ => ?_
        rw [reqMem, reqMem, reqs, conns_release placed queue own]

theorem Pending.connResetFrom {fuel : Nat} {start : Option Nat} (h : Pending w) :
    Pending (connResetFrom fuel w start) := by
  induction fuel generalizing w start with
  | zero => exact h
  | succ fuel ih =>
    cases start with
    | none => exact h
    | some t =>
      refine ih (h.kept fun x => ?_)
      by_cases own : x = t
      · subst own
        exact Or.inl (reqUnlink_messagePtr w x)
      · have same := listless_footing.reqUnlink w own
        refine Or.inr ⟨same, fun _ => ?_⟩
        rw [reqMem, (footing_eq same).1, reqUnlink_conns, reqMem]

theorem Pending.setConn (h : Pending w) (c : Nat) {conn : ConnInfo} (bytes : conn.recvBuf = (w.conns c).recvBuf) :
    Pending (w.setConn c conn) := by
  refine h.kept fun x => Or.inr ⟨rfl, fun _ => ?_⟩
  simp only [reqMem, State.setConn, Function.update_apply]
  split
  · rename_i own
    rw [bytes, own]
  · rfl

theorem Pending.closeAndForget {sock : Option Nat} (h : Pending w) (closed : closeAndForget w sock = .ok w') :
    Pending w' := by
  simp only [Worker.closeAndForget, connDelSock] at closed
  split at closed
  · cases closed
  · rename_i deleted
    cases closed
    split at deleted
    · cases deleted
    · cases deleted
      exact h
    · cases deleted
      exact (Pending.connResetFrom (w := w.emit (.pollDel sock)) h).setConn _ rfl

theorem passage_good : Passage fun w w' => Good w → Good w' where
  trans := fun h h' good => h' (h good)
  still := fun still good => good.still still
  forwardConn := fun _ fwd good => good.forwardConn fwd
  setMsgStatus := fun _ _ _ status placed good => good.setMsgStatus status placed
  connReqRemove := fun _ _ _ placed good => good.connReqRemove placed
  closeAndForget := fun closed good =>
    ⟨course_sound.closeAndForget closed good.toSound, good.pending.closeAndForget closed⟩

/-! ## A request goes on -/

/-- The request moves on to a command of its message. -/
theorem Good.advance (h : Good w) {r : ReqInfo} (same : place r = place (w.reqs slot))
    (id : r.reqId = (w.reqs slot).reqId) (further : Further w slot r.currCmd)
    (inside : ∀ m, (w.reqs slot).messagePtr = some m → ∃ cmd, r.currCmd = some cmd ∧
      cmdInBounds (reqMem w slot) cmd (messageEnd (reqMem w slot) m) = true) : Good (w.setReq slot r) := by
  refine ⟨course_sound.advance w slot r same id further h.toSound, fun x => ?_⟩
  by_cases own : x = slot
  · subst own
    obtain ⟨home, message, -⟩ := place_eq same
    intro m placed
    rw [setReq_self, message] at placed
    have mem : reqMem (w.setReq x r) x = reqMem w x := by
      rw [reqMem, setReq_self, home]
      rfl
    rw [setReq_self, mem]
    exact inside m placed
  · refine (h.pending x).congr (by rw [setReq_other _ _ own]) fun _ => ?_
    rw [reqMem, setReq_other _ _ own]
    rfl

theorem still_after (w : State) (effects : List Effect) : Still w (after w effects) :=
  still_aside rfl rfl rfl (Nat.le_refl _)

/-- A request that goes on keeps its current command, until it waits again. -/
theorem Good.processSingleMessage {ret : Int} (h : Good w) (placed : (w.reqs slot).messagePtr = some m)
    (goesOn : GoesOn (reqMem w slot) w.storageDevices (messageEnd (reqMem w slot) m) (w.reqs slot).currCmd)
    (done : processSingleMessage w slot = .ok (w', ret)) : Good w' := by
  obtain ⟨cmd, current, inside⟩ := h.pending slot m placed
  have stops := exit_of_processSingleMessage placed done
  obtain ⟨start, begins, followed⟩ := goesOn
  rw [current] at begins
  cases begins
  generalize at_ : nextStop w slot m = s at stops
  rw [nextStop, current] at at_
  have past := fun effects => h.still (still_after w effects)
  -- from the command at which the loop stops the request may move on, or stay there
  cases stops with
  | ended effects _ => exact past effects
  | strange effects _ _ => exact past effects
  | refused effects _ _ _ => exact past effects
  | waits effects here asked answered known =>
    rename_i stop job
    rw [here] at at_
    obtain ⟨behind, -⟩ := stopsAt_inBounds inside at_
    obtain ⟨next, step⟩ := Option.ne_none_iff_exists'.mp (followed stop job at_ asked known)
    refine ((past effects).still (still_emit _ _)).advance rfl rfl ?_ fun p _ => ⟨next, step, ?_⟩
    · exact Further.next fun d e => by
        cases e
        exact ⟨cmd, current, behind⟩
    · have same : p = m := Option.some.inj (Eq.trans (Eq.symm ‹_›) placed)
      rw [same]
      exact (cmdBoundedNext_eq_some step).2
  | forwards effects here type begun started =>
    rename_i stop u sent
    rw [here] at at_
    obtain ⟨behind, there⟩ := stopsAt_inBounds inside at_
    refine passage_good.startForward started ?_
    rcases begun with rfl | rfl
    · exact past effects
    · refine (past effects).advance rfl rfl (fun d e => ?_) fun p at_ => ⟨stop, rfl, ?_⟩
      · cases e
        exact ⟨cmd, current, behind⟩
      · have same : p = m := Option.some.inj (at_.symm.trans placed)
        rw [same]
        exact there
  | replies effects here type replied =>
    have there : ((after w effects).reqs slot).messagePtr = some m := placed
    exact passage_good.processReply there replied (past effects)

/-! ## Replies to forwards -/

/-- The reply that completes a context finds the request a command behind it. -/
def ReplyGoesOn (w : State) (reqId : Nat) (matchAddr : Addr) : Prop :=
  ∀ slot m id, completion w reqId matchAddr = some (slot, m, id) →
    GoesOn (reqMem w slot) w.storageDevices (messageEnd (reqMem w slot) m)
      (cmdBoundedSkip (reqMem w slot) (w.reqs slot).currCmd 1 (messageEnd (reqMem w slot) m))

theorem Good.completeContext (h : Good w) (status : Nat) (placed : (w.reqs slot).messagePtr = some m)
    (goesOn : GoesOn (reqMem w slot) w.storageDevices (messageEnd (reqMem w slot) m)
      (cmdBoundedSkip (reqMem w slot) (w.reqs slot).currCmd 1 (messageEnd (reqMem w slot) m))) :
    Good (completeContext w slot m status) ∧
      GoesOn (reqMem (completeContext w slot m status) slot) w.storageDevices
        (messageEnd (reqMem (completeContext w slot m status) slot) m)
        ((completeContext w slot m status).reqs slot).currCmd := by
  obtain ⟨cmd, current, inside⟩ := h.pending slot m placed
  have behind := (h.standing slot m placed).2 cmd current
  have agree := agree_setStatus (reqMem w slot) m status
  have mem : reqMem (Node.setMsgStatus w slot m status) slot = setStatus (reqMem w slot) m status :=
    reqMem_setMsgStatus w slot m status
  have skip : cmdBoundedSkip (reqMem (Node.setMsgStatus w slot m status) slot) (w.reqs slot).currCmd 1
        (messageEnd (reqMem (Node.setMsgStatus w slot m status) slot) m) =
      cmdBoundedSkip (reqMem w slot) (w.reqs slot).currCmd 1 (messageEnd (reqMem w slot) m) := by
    rw [mem, messageEnd_setStatus, current, agree.cmdBoundedSkip behind]
  obtain ⟨next, found, -⟩ := id goesOn
  have found' := found
  rw [current] at found'
  obtain ⟨forwards, there⟩ := cmdBoundedSkip_spec found'
  have moved : ((Node.completeContext w slot m status).reqs slot).currCmd = some next := by
    rw [Node.completeContext, setReq_self, ← found]
    exact skip
  have mem' : reqMem (Node.completeContext w slot m status) slot = setStatus (reqMem w slot) m status := by
    rw [← mem, Node.completeContext, reqMem, setReq_self]
    rfl
  constructor
  · refine (h.setMsgStatus status placed).advance rfl rfl ?_ fun p at_ => ⟨next, skip.trans found, ?_⟩
    · exact (further_currCmd _ slot).skip 1
    · have same : p = m := Option.some.inj (at_.symm.trans placed)
      rw [same, mem, messageEnd_setStatus, agree.cmdInBounds (by omega)]
      exact there
  · rw [moved, mem']
    rw [found] at goesOn
    exact goesOn.setStatus (fun c e => by cases e; omega) fun c e => by cases e; exact there

theorem timeless_storageDevices : Timeless State.storageDevices := fun _ _ _ _ _ _ => rfl

theorem Good.resumeAfterContext {reqId status : Nat} {ret : Int} (h : Good w)
    (placed : (w.reqs slot).messagePtr = some m)
    (goesOn : GoesOn (reqMem w slot) w.storageDevices (messageEnd (reqMem w slot) m)
      (cmdBoundedSkip (reqMem w slot) (w.reqs slot).currCmd 1 (messageEnd (reqMem w slot) m)))
    (done : resumeAfterContext w reqId slot m status = .ok (w', ret)) : Good w' := by
  obtain ⟨good, next⟩ := h.completeContext status placed goesOn
  have there : ((Node.completeContext w slot m status).reqs slot).messagePtr = some m := by
    rw [Node.completeContext, setReq_self]
    exact placed
  simp only [Node.resumeAfterContext] at done
  split at done
  · cases done
  · rename_i v left removed
    have still := still_removeTimeout removed
    have devices : v.storageDevices = w.storageDevices := (timeless_storageDevices.removeTimeout removed).trans rfl
    refine (good.still still).processSingleMessage (m := m) ?_ ?_ done
    · rw [(place_eq (still.reqs slot)).2.1]
      exact there
    · rw [Still.reqMem still slot, (stance_eq (still.stances slot)).1, devices]
      exact next

theorem Good.handleForwardReply {reqId status : Nat} {matchAddr : Addr} {ret : Int} (h : Good w)
    (goesOn : ReplyGoesOn w reqId matchAddr)
    (done : handleForwardReply w reqId status matchAddr = .ok (w', ret)) : Good w' := by
  simp only [Node.handleForwardReply] at done
  split at done
  · cases done
    exact h
  · rename_i slot found
    split at done
    · cases done
    · rename_i m placed
      split at done
      · cases done
      · cases done
        exact h
      · rename_i id search
        have counted := h.still (still_countReply w slot id)
        have same : (countReply w slot id).reqs slot = { w.reqs slot with
            fwdRepliesMask := (w.reqs slot).fwdRepliesMask ||| ackBit id
            fwdRepliesLeft := (w.reqs slot).fwdRepliesLeft - 1 } := setReq_self _ _ _
        split at done
        · cases done
          exact h
        · rename_i fresh
          split at done
          · rename_i last
            have reached : (w.reqs slot).fwdRepliesLeft - 1 ≤ 0 := by rwa [same] at last
            have completed : completion w reqId matchAddr = some (slot, m, id) := by
              simp only [completion, found, placed, search]
              rw [if_pos ⟨by simpa using fresh, by omega⟩]
            have next := goesOn slot m id completed
            refine counted.resumeAfterContext (m := m) ?_ ?_ done
            · rw [same]
              exact placed
            · rw [Still.reqMem (still_countReply w slot id) slot, same]
              exact next
          · cases done
            exact counted

/-! ## Timeouts and the error path -/

/-- A request whose timeout expires goes on where it is, if it is to be retried, or at
a command behind the contexts that it skips. -/
def ExpiryGoesOn (w : State) (slot : Nat) : Prop :=
  ∀ m, (w.reqs slot).messagePtr = some m →
    ((w.reqs slot).fwdRetries > 0 → GoesOn (reqMem w slot) w.storageDevices (messageEnd (reqMem w slot) m)
      (w.reqs slot).currCmd) ∧
    (¬ (w.reqs slot).fwdRetries > 0 → (w.reqs slot).fwdOnFailSkip > 0 →
      GoesOn (reqMem w slot) w.storageDevices (messageEnd (reqMem w slot) m)
        (cmdBoundedSkip (reqMem w slot) (w.reqs slot).currCmd (w.reqs slot).fwdOnFailSkip
          (messageEnd (reqMem w slot) m)))

/-- The request whose timeout is due. -/
def TimeoutGoesOn (w : State) : Prop :=
  ∀ top slot, pqueueTop w.timeoutQueue = some top →
    reqGetById w (w.timeoutQueue.nodes top).data = some slot → ExpiryGoesOn w slot

theorem Good.skipOnFailure (h : Good w) (placed : (w.reqs slot).messagePtr = some m)
    (goesOn : GoesOn (reqMem w slot) w.storageDevices (messageEnd (reqMem w slot) m)
      (cmdBoundedSkip (reqMem w slot) (w.reqs slot).currCmd (w.reqs slot).fwdOnFailSkip
        (messageEnd (reqMem w slot) m))) :
    Good (skipOnFailure w slot m) ∧
      GoesOn (reqMem (skipOnFailure w slot m) slot) w.storageDevices
        (messageEnd (reqMem (skipOnFailure w slot m) slot) m)
        ((skipOnFailure w slot m).reqs slot).currCmd := by
  obtain ⟨cmd, current, inside⟩ := h.pending slot m placed
  have behind := (h.standing slot m placed).2 cmd current
  obtain ⟨next, found, -⟩ := id goesOn
  have found' := found
  rw [current] at found'
  have there := cmdBoundedSkip_inBounds found'
  have onwards := cmdBoundedSkip_le found'
  have advanced : Good (w.setReq slot { w.reqs slot with
      currCmd := cmdBoundedSkip (reqMem w slot) (w.reqs slot).currCmd (w.reqs slot).fwdOnFailSkip
        (messageEnd (reqMem w slot) m)
      ctx := none }) := by
    refine h.advance rfl rfl ((further_currCmd w slot).skip _) fun p at_ => ⟨next, found, ?_⟩
    have same : p = m := Option.some.inj (at_.symm.trans placed)
    rw [same]
    exact there
  have own := setReq_self w slot { w.reqs slot with
      currCmd := cmdBoundedSkip (reqMem w slot) (w.reqs slot).currCmd (w.reqs slot).fwdOnFailSkip
        (messageEnd (reqMem w slot) m)
      ctx := none }
  have mem : reqMem (Node.skipOnFailure w slot m) slot = setStatus (reqMem w slot) m statusTimeout := by
    rw [Node.skipOnFailure, reqMem_setMsgStatus, reqMem, own]
    rfl
  constructor
  · exact advanced.setMsgStatus statusTimeout (by rw [own]; exact placed)
  · have moved : ((Node.skipOnFailure w slot m).reqs slot).currCmd = some next := by
      rw [← found]
      exact congrArg ReqInfo.currCmd own
    rw [found] at goesOn
    rw [moved, mem]
    exact goesOn.setStatus (fun c e => by cases e; omega) fun c e => by cases e; exact there

theorem Good.expireRequest (h : Good w) (goesOn : ExpiryGoesOn w slot) (done : expireRequest w slot = .ok w') :
    Good w' := by
  simp only [Node.expireRequest] at done
  split at done
  · rename_i again
    obtain ⟨⟨v, r⟩, executed, paired⟩ := map_eq_ok.mp done
    cases paired
    have used : Still w (w.setReq slot { w.reqs slot with fwdRetries := (w.reqs slot).fwdRetries - 1 }) :=
      still_setReq w slot rfl rfl
    simp only [processMessages] at executed
    cases placed : (w.reqs slot).messagePtr with
    | none =>
      simp only [Node.processSingleMessage, setReq_self, placed] at executed
      cases executed
    | some m =>
      refine (h.still used).processSingleMessage (m := m) (by rw [setReq_self]; exact placed) ?_ executed
      rw [Still.reqMem used slot, setReq_self]
      exact (goesOn m placed).1 again
  · rename_i spent
    split at done
    · cases done
    · rename_i m placed
      split at done
      · rename_i skips
        obtain ⟨⟨v, r⟩, executed, paired⟩ := map_eq_ok.mp done
        cases paired
        obtain ⟨good, next⟩ := h.skipOnFailure placed ((goesOn m placed).2 spent skips)
        refine good.processSingleMessage (m := m) ?_ next executed
        exact (congrArg ReqInfo.messagePtr (setReq_self w slot _)).trans placed
      · cases done
        have told := h.setMsgStatus statusTimeout placed
        have there : ((Node.setMsgStatus w slot m statusTimeout).reqs slot).messagePtr = some m := placed
        exact (told.connReqRemove there).still (still_activeReqs _ _)

theorem Good.handleTimeout (h : Good w) (goesOn : TimeoutGoesOn w) (done : handleTimeout w = .ok w') : Good w' := by
  simp only [Node.handleTimeout] at done
  split at done
  · exact h.still (still_timerfdSettime done)
  · rename_i top due
    split at done
    · exact h.still (still_timerfdSettime done)
    · rename_i slot found
      split at done
      · cases done
      · rename_i v left removed
        refine (h.still (still_removeTimeout removed)).expireRequest (fun m placed => ?_) done
        have devices : v.storageDevices = w.storageDevices := timeless_storageDevices.removeTimeout removed
        obtain ⟨node, same⟩ := (removeTimeout_retimed removed).reqs slot
        have mem := Still.reqMem (still_removeTimeout removed) slot
        rw [same] at placed
        rw [mem, same, devices]
        exact goesOn top slot due found m placed

/-- On the error path a request goes on at a REPLY, and is gone. -/
theorem fails_good : Fails fun w w' => Good w → Good w' := by
  intro w w' c slot m cmd placed current done good
  simp only [failRequest] at done
  split at done
  · cases done
  · rename_i v left removed
    have timed := still_removeTimeout removed
    have before := good.still timed
    have mem := Still.reqMem timed slot
    split at done
    · exact passage_good.closeAndForget done before
    · rename_i itr found
      obtain ⟨stops, behind⟩ := seekReply_found found
      split at done
      · exact passage_good.closeAndForget done before
      · rename_i usable
        obtain ⟨⟨u, r⟩, executed, paired⟩ := map_eq_ok.mp done
        cases paired
        have inside : cmdInBounds (reqMem w slot) itr (messageEnd (reqMem w slot) m) = true := by
          cases e : cmdInBounds (reqMem w slot) itr (messageEnd (reqMem w slot) m) with
          | false => exact absurd (Or.inl e) usable
          | true => rfl
        have type : cmdAt (reqMem w slot) itr = .reply :=
          stops.resolve_left fun e => usable (Or.inr e)
        have placed' : (v.reqs slot).messagePtr = some m := (place_eq (timed.reqs slot)).2.1.trans placed
        have moved : Good (setCurrCmd v slot (some itr)) := by
          refine before.advance rfl rfl (fun d e => ?_) fun p at_ => ⟨itr, rfl, ?_⟩
          · cases e
            exact ⟨cmd, (stance_eq (timed.stances slot)).1.trans current, behind cmd rfl⟩
          · rw [mem, Option.some.inj (at_.symm.trans placed')]
            exact inside
        have there : ((setCurrCmd v slot (some itr)).reqs slot).messagePtr = some m := by
          rw [setCurrCmd, setReq_self]
          exact placed'
        have read : reqMem (setMsgStatus (setCurrCmd v slot (some itr)) slot m statusErr) slot =
            setStatus (reqMem w slot) m statusErr := by
          rw [reqMem_setMsgStatus, ← mem, setCurrCmd, reqMem, setReq_self]
          rfl
        refine (moved.setMsgStatus statusErr there).processSingleMessage (m := m) there ?_ executed
        have at_ : ((setMsgStatus (setCurrCmd v slot (some itr)) slot m statusErr).reqs slot).currCmd = some itr :=
          congrArg ReqInfo.currCmd (setReq_self v slot _)
        rw [at_, read]
        refine goesOn_reply ?_
        have first := (good.standing slot m placed).2 cmd current
        rw [(agree_setStatus (reqMem w slot) m statusErr).cmdAt (Nat.le_trans first (behind cmd rfl))]
        exact type

theorem Good.closeFailed {c : Nat} (h : Good w) (done : closeFailed w c = .ok w') : Good w' :=
  passage_good.closeFailed fails_good done h

/-- The acknowledged request goes on where it is. -/
def AckGoesOn (w : State) (reqId : Nat) : Prop :=
  ∀ slot m, reqGetById w reqId = some slot → (w.reqs slot).messagePtr = some m →
    GoesOn (reqMem w slot) w.storageDevices (messageEnd (reqMem w slot) m) (w.reqs slot).currCmd

theorem Good.storageAck {reqId : Nat} (h : Good w) (goesOn : AckGoesOn w reqId)
    (done : storageAck w reqId = .ok w') : Good w' := by
  simp only [Node.storageAck] at done
  split at done
  · cases done
    exact h
  · rename_i slot found
    obtain ⟨⟨v, r⟩, executed, paired⟩ := map_eq_ok.mp done
    cases paired
    simp only [processMessages] at executed
    cases placed : (w.reqs slot).messagePtr with
    | none =>
      simp only [Node.processSingleMessage, placed] at executed
      cases executed
    | some m => exact h.processSingleMessage placed (goesOn slot m found placed) executed

/-! ## Batches -/

/-- The next message of the connection, if it is a request, has its first command within
it; the request then goes on, or the one that a reply completes. -/
def RoundGoesOn (w : State) (c : Nat) : Prop :=
  ∀ m conn, connPrepareRecvMessage (w.conns c) = .ok (some m, conn) →
    (cmdAt conn.recvBuf (messageFirstCmd m) = .eom →
      ReplyGoesOn (w.setConn c conn) (reqIdOf conn.recvBuf m) conn.target) ∧
    (cmdAt conn.recvBuf (messageFirstCmd m) ≠ .eom →
      cmdInBounds conn.recvBuf (messageFirstCmd m) (messageEnd conn.recvBuf m) = true ∧
      GoesOn conn.recvBuf w.storageDevices (messageEnd conn.recvBuf m) (some (messageFirstCmd m)))

def BatchGoesOn (c : Nat) : Nat → State → Prop
  | 0, _ => True
  | fuel + 1, w =>
    RoundGoesOn w c ∧ ∀ w' outcome, Batches.round w c = .ok (w', some (outcome, true)) → BatchGoesOn c fuel w'

theorem Pending.enter {c : Nat} (h : Pending w) (inside : cmdInBounds (w.conns c).recvBuf (messageFirstCmd m)
      (messageEnd (w.conns c).recvBuf m) = true) : Pending (enterRequest w c m).1 := by
  rcases enterRequest_cases w c m with ⟨-, -, refused⟩ | ⟨free, -⟩
  · rw [refused]
    exact h
  · have bytes : ∀ d, ((enterRequest w c m).1.conns d).recvBuf = (w.conns d).recvBuf := by
      intro d
      simp only [enterRequest, connReqAdd, reqAlloc, free, ne_eq, not_true_eq_false, if_false]
      simp only [State.setReq, State.setConn, RequestLists.setPrev_conns, Function.update_apply]
      split
      · rename_i own
        rw [own]
      · rfl
    intro x
    by_cases own : x = slotOf w.lastReqs
    · subst own
      obtain ⟨home, message, cmd⟩ := footing_eq (listless_footing.enterRequest_self w c m free)
      intro p placed
      rw [message] at placed
      cases placed
      refine ⟨messageFirstCmd m, cmd, ?_⟩
      rw [reqMem, home, bytes]
      exact inside
    · have same := listless_footing.enterRequest_other w c m own
      exact (h x).congr same fun _ => by rw [reqMem, (footing_eq same).1, bytes, reqMem]

theorem tableless_storageDevices : Tableless State.storageDevices :=
  ⟨fun _ _ _ => rfl, fun _ _ _ _ => rfl, fun _ _ => rfl, fun _ _ => rfl⟩

theorem Good.round {c : Nat} {result : Option (Outcome × Bool)} (h : Good w) (opened : (w.conns c).sock ≠ none)
    (named : ∀ m conn, connPrepareRecvMessage (w.conns c) = .ok (some m, conn) →
      cmdAt (w.conns c).recvBuf (messageFirstCmd m) ≠ .eom → w.lastReqs ≠ noReq)
    (goesOn : RoundGoesOn w c) (done : Batches.round w c = .ok (w', result)) : Good w' := by
  have taken : ∀ {m conn}, connPrepareRecvMessage (w.conns c) = .ok (some m, conn) → Good (w.setConn c conn) :=
    fun prepared => ⟨h.toSound.take opened prepared, h.pending.setConn c (recvBuf_prepared prepared)⟩
  cases Batches.round_done done with
  | ended prepared =>
    rw [connPrepareRecvMessage_none prepared]
    exact h.still (still_setConn w c rfl)
  | @replied m conn v ret prepared type handled =>
    exact (taken prepared).handleForwardReply ((goesOn m conn prepared).1 type) handled
  | @refused m conn v prepared type added =>
    exact (taken prepared).still (still_refused added)
  | @executed m slot conn v u ret prepared type added executed =>
    obtain ⟨inside, next⟩ := (goesOn m conn prepared).2 type
    have here : (w.setConn c conn).conns c = conn := by simp [State.setConn]
    have pending : Pending v := by
      have entered := (taken prepared).pending.enter (c := c) (m := m) (by rw [here]; exact inside)
      rwa [added] at entered
    have fresh := named m conn prepared (by rwa [recvBuf_prepared prepared] at type)
    obtain ⟨home, placed, cmd, list, table⟩ := enterRequest_placed added
    have mem : reqMem v slot = conn.recvBuf := by
      rw [reqMem, home, table, Function.update_self, here]
    have devices : v.storageDevices = w.storageDevices := by
      have same := tableless_storageDevices.enterRequest (w.setConn c conn) c m
      rwa [added] at same
    refine Good.processSingleMessage ⟨h.toSound.enter opened prepared fresh added, pending⟩ placed ?_ executed
    rw [mem, devices, cmd]
    exact next

theorem Good.batch {c fuel : Nat} {goesOn : Bool} (h : Good w) (opened : (w.conns c).sock ≠ none)
    (regular : RegularBatch c fuel w) (onwards : BatchGoesOn c fuel w)
    (done : obtainFrom c fuel w = .ok (w', goesOn)) : Good w' := by
  induction fuel generalizing w with
  | zero =>
    cases done
    exact h
  | succ fuel ih =>
    rw [obtainFrom_succ] at done
    cases turn : Batches.round w c with
    | error e => simp only [turn] at done; cases done
    | ok p =>
      obtain ⟨v, result⟩ := p
      have kept := h.round opened regular.1 onwards.1 turn
      rcases result with _ | ⟨outcome, _ | _⟩
      · simp only [turn] at done
        cases done
        exact kept
      · simp only [turn] at done
        cases done
        exact kept
      · simp only [turn] at done
        obtain ⟨still, later⟩ := regular.2 v outcome turn
        exact ih kept still later (onwards.2 v outcome turn) done

/-! ## Events -/

/-- Bytes that are stored behind what has been received are in no message. -/
theorem Good.fill {c : Nat} {conn : ConnInfo} (h : Good w)
    (below : ∀ a, a < (w.conns c).currRecvBuf → conn.recvBuf a = (w.conns c).recvBuf a) :
    Pending (w.setConn c conn) := by
  intro x p placed
  change (w.reqs x).messagePtr = some p at placed
  obtain ⟨cmd, current, inside⟩ := h.pending x p placed
  have behind := (h.standing x p placed).2 cmd current
  simp only [messageFirstCmd] at behind
  refine ⟨cmd, current, ?_⟩
  have live : (w.reqs x).messagePtr ≠ none := by
    rw [placed]
    exact Option.some_ne_none p
  have opened := h.laid.opened x live
  by_cases own : (w.reqs x).connId = c
  · have mem : reqMem (w.setConn c conn) x = conn.recvBuf := by
      simp [reqMem, State.setConn, own]
    obtain ⟨l, queue⟩ := h.laid.queue _ opened
    obtain ⟨q, here, large, fits⟩ := queue.stacked.mem ((queue.members x).mpr ⟨live, rfl⟩)
    rw [placed] at here
    cases here
    have proc := h.laid.proc _ opened
    have kept : cmdInBounds conn.recvBuf (p + (cmd - p)) (messageEnd conn.recvBuf p) = true :=
      inBounds_moved rfl large (fun k less => ?_) (by omega) inside
    · rwa [mem, ← show p + (cmd - p) = cmd by omega]
    · rw [own] at less fits proc ⊢
      exact below _ (by omega)
  · have mem : reqMem (w.setConn c conn) x = reqMem w x := by
      simp [reqMem, State.setConn, own]
    rw [mem]
    exact inside

theorem Good.recvPhase (h : Good w) (c : Nat) (r : Readiness) : Pending (recvPhase w c r).1 := by
  simp only [Node.recvPhase]
  split
  · simp only [connRecv]
    split
    · exact h.pending.setConn c rfl
    · cases r.recv with
      | bytes data source =>
        simp only
        split
        · exact h.pending.setConn c rfl
        · refine h.fill fun a low => ?_
          simp only [takeBytes]
          split
          · exact store_outside _ _ _ (Or.inl low)
          · exact store_outside _ _ _ (Or.inl low)
      | wouldBlock => exact h.pending.setConn c rfl
      | closed => exact h.pending.setConn c rfl
      | failed => exact h.pending.setConn c rfl
  · exact h.pending

/-- A connection that was not allocated has no request. -/
theorem Good.unclaimed {c : Nat} {u : State} (h : Good w) (free : (w.conns c).busy = false)
    (reqs : u.reqs = w.reqs) (conns : ∀ d, d ≠ c → u.conns d = w.conns d) : Pending u := by
  refine h.pending.kept fun x => Or.inr ⟨by rw [reqs], fun live => ?_⟩
  have used := h.laid.busy _ (h.laid.opened x live)
  have other : (w.reqs x).connId ≠ c := by
    intro e
    rw [e, free] at used
    cases used
  rw [reqMem, reqs, conns _ other, reqMem]

theorem Good.acceptConn {addr : Addr} {proto : Proto} (h : Good w) (done : acceptConn w addr proto = .ok w') :
    Pending w' := by
  simp only [Node.acceptConn] at done
  cases claimed : connAlloc { w with nextFd := w.nextFd + 1 } w.nextFd addr proto with
  | mk v found =>
    cases found with
    | none =>
      simp only [claimed] at done
      have unchanged : v = { w with nextFd := w.nextFd + 1 } := by
        simp only [connAlloc] at claimed
        split at claimed
        · cases claimed
          rfl
        · cases claimed
      subst unchanged
      exact Pending.closeAndForget (w := { w with nextFd := w.nextFd + 1 }) h.pending done
    | some c =>
      simp only [claimed] at done
      obtain ⟨free, rfl⟩ := connAlloc_claims claimed
      have others : ∀ d, d ≠ c → ((State.setConn { w with nextFd := w.nextFd + 1 } c
          ((w.conns c).claim w.nextFd addr proto w.thread)).conns d) = w.conns d :=
        fun d other => by simp [State.setConn, other]
      split at done
      · have enabled := opening_connEnableSsl (State.setConn { w with nextFd := w.nextFd + 1 } c
          ((w.conns c).claim w.nextFd addr proto w.thread)) c
        split at done
        · rename_i u ssl
          cases done
          rw [ssl] at enabled
          refine h.unclaimed free enabled.2 fun d other => ?_
          have before := (enabled.1.used d other).trans (others d other)
          simpa [State.setConn, State.emit, other] using before
        · rename_i u ssl
          rw [ssl] at enabled
          obtain ⟨v, closed, rfl⟩ := map_eq_ok.mp done
          have claimed : Pending u := h.unclaimed free enabled.2 fun d other =>
            (enabled.1.used d other).trans (others d other)
          exact (claimed.closeAndForget closed).connResetFrom.setConn c rfl
      · cases done
        refine h.unclaimed free rfl fun d other => ?_
        simp [State.setConn, State.emit, other]

/-- What the event takes up goes on. -/
def EventGoesOn (w : State) : Event → Prop
  | .accept _ _ => True
  | .ready c type r => (type = .timer → TimeoutGoesOn w) ∧
      ∀ v, batchOf w c type r = some v → BatchGoesOn c ((v.conns c).currRecvBuf + 1) v
  | .storage reqId => AckGoesOn w reqId
  | .elapse _ => True

def RunGoesOn : State → List (Kernel × Event) → Prop
  | _, [] => True
  | w, (kernel, e) :: rest =>
    EventGoesOn { w with kernel := kernel } e ∧ ∀ w', step w kernel e = .ok w' → RunGoesOn w' rest

theorem Good.phased {c : Nat} {r : Readiness} (h : Good w) (done : Phased w c r w') : Good w' := by
  obtain ⟨w₁, w₂, still₁, received, still₂⟩ := done
  have h₁ := h.still still₁
  rcases received with rfl | rfl
  · exact h₁.still still₂
  · have heard : Good (Node.recvPhase w₁ c r).1 := ⟨h₁.toSound.recvPhase c r, h₁.recvPhase c r⟩
    exact heard.still still₂

theorem Good.readyAttempt {c : Nat} {type : EventType} {r : Readiness} {ok : Bool} (h : Good w)
    (regular : ∀ v, readyBatch w c type r = some v → RegularBatch c ((v.conns c).currRecvBuf + 1) v)
    (timed : type = .timer → TimeoutGoesOn w)
    (onwards : ∀ v, readyBatch w c type r = some v → BatchGoesOn c ((v.conns c).currRecvBuf + 1) v)
    (done : readyAttempt w c type r = .ok (w', ok)) : Good w' := by
  rcases readyAttempt_done done with ⟨timer, expired⟩ | phased | ⟨v, batch, phased, opened, walked⟩
  · exact h.handleTimeout (timed timer) expired
  · exact h.phased phased
  · exact (h.phased phased).batch opened (regular v batch) (onwards v batch) walked

theorem Good.attempt {c : Nat} {type : EventType} {r : Readiness} {ok : Bool} (h : Good w)
    (regular : RegularEvent w (.ready c type r)) (onwards : EventGoesOn w (.ready c type r))
    (done : attempt w c type r = .ok (w', ok)) : Good w' := by
  simp only [LayoutRuns.attempt] at done
  obtain ⟨timed, onwards⟩ := onwards
  simp only [RegularEvent, batchOf] at regular onwards
  by_cases handshaking : (w.conns c).status = .sslHandshake
  · rw [if_pos handshaking] at done regular onwards
    cases shaken : r.handshake with
    | failed =>
      simp only [shaken] at done
      cases done
      exact h
    | inProgress =>
      simp only [shaken] at done
      cases done
      exact h
    | complete =>
      simp only [shaken] at done regular onwards
      have ready : Still w (w.setConn c { w.conns c with status := .ready }) := still_setConn w c rfl
      refine (h.still ready).readyAttempt regular (fun timer top slot due found m placed => ?_) onwards done
      rw [Still.reqMem ready slot]
      exact timed timer top slot due found m placed
  · rw [if_neg handshaking] at done regular onwards
    exact h.readyAttempt regular timed onwards done

theorem Good.step {kernel : Kernel} {e : Event} (h : Good w)
    (regular : RegularEvent { w with kernel := kernel } e) (onwards : EventGoesOn { w with kernel := kernel } e)
    (done : step w kernel e = .ok w') : Good w' := by
  have asked : Still w { w with kernel := kernel } := still_aside rfl rfl rfl (Nat.le_refl _)
  have before := h.still asked
  cases e with
  | accept addr proto => exact ⟨h.toSound.step regular done, before.acceptConn done⟩
  | ready c type r =>
    rcases execRequest_done done with tried | ⟨v, tried, closed⟩
    · exact before.attempt regular onwards tried
    · exact (before.attempt regular onwards tried).closeFailed closed
  | storage reqId => exact before.storageAck onwards done
  | elapse ns =>
    cases done
    have passed : Still { w with kernel := kernel } (elapse { w with kernel := kernel } ns) :=
      still_aside rfl rfl rfl (Nat.le_refl _)
    exact before.still passed

theorem Good.run {events : List (Kernel × Event)} (h : Good w) (regular : RegularRun w events)
    (onwards : RunGoesOn w events) (done : run w events = .ok w') : Good w' := by
  induction events generalizing w with
  | nil =>
    cases done
    exact h
  | cons head rest ih =>
    obtain ⟨v, taken, later⟩ := run_cons_ok done
    exact ih (h.step regular.1 onwards.1 taken) (regular.2 v taken) (onwards.2 v taken) later

end Current

/-- In every run in which each request that goes on finds a command to go on with, no
live request is without a current command in its message. -/
theorem current_commands (storageDevices : Nat) (storageFd : Nat → Nat) (files : Nat → Mem) (enableDefrag : Bool)
    {events : List (Kernel × Event)} {w : State}
    (regular : RegularRun (State.init storageDevices storageFd files enableDefrag) events)
    (onwards : RunGoesOn (State.init storageDevices storageFd files enableDefrag) events)
    (done : run (State.init storageDevices storageFd files enableDefrag) events = .ok w) : Pending w :=
  (Good.run ⟨sound_init _ _ _ _, fun _ => current_gone rfl⟩ regular onwards done).pending

/-- A request that waits for a LOAD, with the EOM behind it. -/
def loadRequest : List UInt8 := Wire.message 5 0 [.load 0, .eom]

def oneDevice : State := .init 1 (fun _ => 5) (fun _ _ => 0) true

theorem loadRequest_regular : RegularRun oneDevice (clientSends loadRequest) := by
  refine ⟨trivial, fun accepted done => ⟨fun v batch => ?_, fun _ _ => trivial⟩⟩
  cases done
  cases batch
  refine ⟨fun m conn taken _ => by decide, fun w' outcome turn => ?_⟩
  cases turn
  refine ⟨by decide, fun m conn taken => (by cases taken), fun w' outcome turn => (by cases turn)⟩

theorem loadRequest_goesOn : RunGoesOn oneDevice (clientSends loadRequest) := by
  refine ⟨trivial, fun accepted done => ⟨⟨fun timer => (by cases timer), fun v batch => ?_⟩, fun _ _ => trivial⟩⟩
  cases done
  cases batch
  refine ⟨fun m conn taken => ?_, fun w' outcome turn => ?_⟩
  · cases taken
    refine ⟨fun type => absurd type (by decide), fun _ => ⟨by decide, 12, rfl, fun stop job here asked _ => ?_⟩⟩
    cases here
    decide
  · cases turn
    exact ⟨fun m conn taken => (by cases taken), fun w' outcome turn => (by cases turn)⟩

theorem current_commands_load :
    ∃ w, run oneDevice (clientSends loadRequest) = .ok w ∧ (w.reqs 0).messagePtr = some 0 ∧ Pending w := by
  obtain ⟨w, done, placed⟩ : ∃ w, run oneDevice (clientSends loadRequest) = .ok w ∧
      (w.reqs 0).messagePtr = some 0 := ⟨_, rfl, rfl⟩
  exact ⟨w, done, placed, current_commands 1 _ _ true loadRequest_regular loadRequest_goesOn done⟩

/-- The LOAD is the last command of the message. -/
def lastLoad : List (Kernel × Event) := clientSends (Wire.message 5 0 [.load 0])

/-- The request waits for its LOAD without a current command, and the end of another
connection reads through it. -/
theorem lost_current_command :
    (∃ w, run oneDevice lastLoad = .ok w ∧ (w.reqs 0).messagePtr = some 0 ∧ (w.reqs 0).currCmd = none ∧
      ¬ Pending w) ∧
    run oneDevice (lastLoad ++ [(.silent, .accept [10, 0, 0, 8, 0, 8] .tcp),
      (.silent, .ready 1 .socket { received [] with recv := .closed })]) = .error .segfault := by
  obtain ⟨w, done, placed, none⟩ : ∃ w, run oneDevice lastLoad = .ok w ∧ (w.reqs 0).messagePtr = some 0 ∧
      (w.reqs 0).currCmd = none := ⟨_, rfl, rfl, rfl⟩
  refine ⟨⟨w, done, placed, none, fun pending => ?_⟩, ?_⟩
  · obtain ⟨cmd, current, -⟩ := pending 0 0 placed
    rw [none] at current
    cases current
  · rfl

end CurrentCommands
