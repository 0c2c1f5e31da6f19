import DistWalk.DeadPeer
import DistWalk.TimeoutTable

/-!
# Timeouts that the error path cancels

Before the error path of `exec_request` moves a waiting request on to its REPLY
it cancels a timeout. The request is looked up by the id in its message, which
its sender chose, while the table knows it by the id that this node gave it. So
the right entry goes exactly if the two ids name the same request, or if neither
of the two requests has an entry; what follows the cancellation touches none.
-/

namespace CancelledTimeouts

open ByteMemory Message Connection PriorityQueue Worker Timeout Node Requests Transitions TimeoutTable
  LayoutSteps LayoutRuns DeadPeer

/-! ## Where the walk stops -/

/-- The request that the walk over connection `c` fails, its message and its
command; the branches are those of `failWaiting`. -/
def failing (target : Addr) (c : Nat) : Nat → State → Option Nat → Except Abort (Option (Nat × Nat × Nat))
  | 0, _, _ => .ok none
  | _ + 1, _, none => .ok none
  | fuel + 1, w, some slot =>
    match (w.reqs slot).currCmd with
    | none => .error .segfault
    | some cmd =>
      let fwd := fwdOpts (reqMem w slot) cmd
      if cmdAt (reqMem w slot) cmd = .forwardBegin ∧ fwd.fwdAddr = target then
        if fwd.retries > 0 then .ok none
        else
          match (w.reqs slot).messagePtr with
          | none => .error .segfault
          | some m => .ok (some (slot, m, cmd))
      else if (w.reqs slot).next = (w.conns c).reqList then .ok none
      else failing target c fuel w (w.reqs slot).next

/-- The walk fails the request it stops at, and no other. -/
theorem failWaiting_eq (target : Addr) (c fuel : Nat) (w : State) (slot : Option Nat) :
    failWaiting target c fuel w slot =
      match failing target c fuel w slot with
      | .error e => .error e
      | .ok none => .ok w
      | .ok (some (slot, m, cmd)) => failRequest w c slot m cmd := by
  induction fuel generalizing slot with
  | zero => rfl
  | succ fuel ih =>
    cases slot with
    | none => rfl
    | some slot =>
      simp only [failWaiting, failing]
      cases (w.reqs slot).currCmd with
      | none => rfl
      | some cmd =>
        simp only
        split
        · split
          · rfl
          · cases (w.reqs slot).messagePtr with
            | none => rfl
            | some m => rfl
        · split
          · rfl
          · exact ih _

/-- The state in which `close_and_forget` is called for connection `c`. -/
def disconnected (w : State) (c : Nat) : State :=
  if (w.conns c).proto = .tcp ∧ (w.conns c).status = .ready then
    { w with activeConns := w.activeConns - 1 } else w

/-- `exec_request` for connection `c` takes its error path; having walked the
connections before `i` it stands in state `u`, and it fails the request in `slot`. -/
inductive ComesTo (w : State) (c : Nat) (type : EventType) (r : Readiness) (u : State)
    (i slot m cmd : Nat) : Prop
  | intro (v v' : State)
      (failed : attempt w c type r = .ok (v, false))
      (closed : closeAndForget (disconnected v c) (v.conns c).sock = .ok v')
      (walked : failPending (v.conns c).target i 0 v' = .ok u)
      (inTable : i < maxConns)
      (opened : (u.conns i).sock ≠ none)
      (stops : failing (v.conns c).target i (maxReqs + 1) u (u.conns i).reqList =
        .ok (some (slot, m, cmd)))

/-- Every request that the error path fails is one that it comes to. -/
theorem failPending_comes {target : Addr} {w w' : State} {fuel i : Nat}
    (h : failPending target (fuel + 1) i w = .ok w') (opened : (w.conns i).sock ≠ none) :
    (∃ slot m cmd v, failing target i (maxReqs + 1) w (w.conns i).reqList = .ok (some (slot, m, cmd)) ∧
        failRequest w i slot m cmd = .ok v ∧ failPending target fuel (i + 1) v = .ok w') ∨
      failing target i (maxReqs + 1) w (w.conns i).reqList = .ok none ∧
        failPending target fuel (i + 1) w = .ok w' := by
  simp only [failPending, if_neg opened, failWaiting_eq] at h
  cases stops : failing target i (maxReqs + 1) w (w.conns i).reqList with
  | error e =>
    simp only [stops] at h
    cases h
  | ok found =>
    cases found with
    | none =>
      simp only [stops] at h
      exact Or.inr ⟨rfl, h⟩
    | some place =>
      obtain ⟨slot, m, cmd⟩ := place
      simp only [stops] at h
      left
      cases failed : failRequest w i slot m cmd with
      | error e =>
        simp only [failed] at h
        cases h
      | ok v =>
        simp only [failed] at h
        exact ⟨slot, m, cmd, v, rfl, failed, h⟩

theorem leads_disconnected (w : State) (c : Nat) : Leads w (disconnected w c) := by
  unfold disconnected
  split
  · exact leads_aside ⟨rfl, rfl, rfl, rfl, rfl, rfl, rfl, rfl⟩
  · exact .refl w

theorem ComesTo.leads {w u : State} {c i slot m cmd : Nat} {type : EventType} {r : Readiness}
    (h : ComesTo w c type r u i slot m cmd) (opened : Opened w) : Leads w u := by
  obtain ⟨v, v', failed, closed, walked, -, -, -⟩ := h
  have tried := leads_attempt opened failed
  have shut := (leads_disconnected v c).trans (leads_closeAndForget closed)
  exact tried.trans (shut.trans (leads_failPending walked))

/-! ## The right entry -/

/-- From `u` to `v` the request in `slot` has lost its entry in the queue, if it
had one, and the entries of all other requests are what they were. -/
structure CancelsOwn (u : State) (slot : Nat) (v : State) : Prop where
  own : (v.reqs slot).timeoutNode = none
  others : ∀ s, s ≠ slot → (v.reqs s).timeoutNode = (u.reqs s).timeoutNode
  queue : ∀ n, Holds v.timeoutQueue n ↔ Holds u.timeoutQueue n ∧ (u.reqs slot).timeoutNode ≠ some n
  entry : ∀ n, Holds v.timeoutQueue n →
    (v.timeoutQueue.nodes n).key = (u.timeoutQueue.nodes n).key ∧
      (v.timeoutQueue.nodes n).data = (u.timeoutQueue.nodes n).data

/-- The id names the request in `slot`, or there is nothing to cancel. -/
def Named (u : State) (slot reqId : Nat) : Prop :=
  reqGetById u reqId = some slot ∨
    (u.reqs slot).timeoutNode = none ∧ ∀ s, reqGetById u reqId = some s → (u.reqs s).timeoutNode = none

theorem CancelsOwn.untimed {u v v' : State} {slot : Nat} (same : Untimed v v') :
    CancelsOwn u slot v' ↔ CancelsOwn u slot v := by
  constructor
  · intro h
    refine ⟨by rw [← same.node, h.own], fun s other => by rw [← same.node, h.others s other], ?_, ?_⟩
    · rw [← same.queue]
      exact h.queue
    · rw [← same.queue]
      exact h.entry
  · intro h
    refine ⟨by rw [same.node, h.own], fun s other => by rw [same.node, h.others s other], ?_, ?_⟩
    · rw [same.queue]
      exact h.queue
    · rw [same.queue]
      exact h.entry

/-- A request that is not found, or has no timeout, changes nothing. -/
theorem removeTimeout_vacant {w v : State} {reqId : Nat} {left : Int}
    (vacant : ∀ s, reqGetById w reqId = some s → (w.reqs s).timeoutNode = none)
    (h : removeTimeout w reqId = .ok (v, left)) : v = w := by
  unfold removeTimeout at h
  cases found : reqGetById w reqId with
  | none =>
    rw [found] at h
    cases h
    rfl
  | some slot =>
    simp only [found, vacant slot found] at h
    cases h
    rfl

theorem rearm_reqs {w w' : State} {elapsed : Int} (h : rearm w elapsed = .ok w') : w'.reqs = w.reqs := by
  unfold rearm at h
  split at h
  · have set := timerfdSettime_reqs h
    exact set
  · have set := timerfdSettime_reqs h
    exact set

/-- The request that is found has no timeout any more. -/
theorem removeTimeout_clears {w v : State} {reqId s : Nat} {left : Int}
    (found : reqGetById w reqId = some s) (h : removeTimeout w reqId = .ok (v, left)) :
    (v.reqs s).timeoutNode = none := by
  simp only [removeTimeout, found] at h
  split at h
  · rename_i idle
    cases h
    exact idle
  · cases h
  · split at h
    · cases h
      simp [State.setReq]
    · obtain ⟨u, armed, paired⟩ := map_eq_ok.mp h
      cases paired
      rw [rearm_reqs armed]
      simp [State.setReq]

/-- Cancelling by an id cancels for the request in `slot` exactly if the id is right. -/
theorem cancels_iff {w v : State} {reqId slot : Nat} {left : Int} (S : Slotted w)
    (h : removeTimeout w reqId = .ok (v, left)) : CancelsOwn w slot v ↔ Named w slot reqId := by
  by_cases vacant : ∀ s, reqGetById w reqId = some s → (w.reqs s).timeoutNode = none
  · -- nothing is removed
    obtain rfl := removeTimeout_vacant vacant h
    constructor
    · intro cancels
      exact Or.inr ⟨cancels.own, vacant⟩
    · intro named
      have own : (v.reqs slot).timeoutNode = none := by
        rcases named with found | ⟨idle, -⟩
        · exact vacant slot found
        · exact idle
      exact ⟨own, fun _ _ => rfl, fun n => by simp [own], fun n _ => ⟨rfl, rfl⟩⟩
  · push Not at vacant
    obtain ⟨s, found, timed⟩ := vacant
    have cleared := removeTimeout_clears found h
    obtain ⟨rfl, -⟩ := reqGetById_eq_some.mp found
    rcases removeTimeout_spec S h with rfl | ⟨node, top, q⟩
    · exact absurd cleared timed
    · constructor
      · intro cancels
        left
        by_contra other
        have apart : slotOf reqId ≠ slot := by
          rintro rfl
          exact other found
        rw [cancels.others (slotOf reqId) apart] at cleared
        exact timed cleared
      · intro named
        have same : slotOf reqId = slot := by
          rcases named with right | ⟨-, idle⟩
          · rw [found] at right
            exact Option.some.inj right
          · exact absurd (idle _ found) timed
        subst same
        constructor
        · exact cleared
        · intro s other
          rw [q.reqs, Function.update_of_ne other]
        · intro n
          rw [q.queue.holds, q.named]
          simp only [ne_eq, Option.some.injEq, eq_comm]
        · intro n _
          exact ⟨q.queue.key n, q.queue.data n⟩

/-! ## What follows the cancellation -/

theorem untimed_aside {w w' : State} (reqs : w'.reqs = w.reqs) (same : timing w' = timing w) : Untimed w w' :=
  ⟨fun s => by rw [reqs], same⟩

theorem untimed_takeSend (w : State) (c : Nat) : Untimed w (takeSend w c).1 := by
  unfold takeSend
  split
  · exact .refl w
  · exact untimed_aside rfl rfl

theorem untimed_startSendOn (w : State) (c : Nat) (target : Addr) : Untimed w (startSendOn w c target).1 := by
  simp only [startSendOn]
  split
  · exact untimed_aside rfl rfl
  · exact (untimed_takeSend w c).trans (untimed_aside rfl rfl)

theorem untimed_transmitReply {w w' : State} {slot c : Nat} {opts : ReplyOpts} {ret : Int}
    (h : transmitReply w slot c opts = .ok (w', ret)) : Untimed w w' := by
  unfold transmitReply at h
  split at h
  · simp only [startSendfileOn] at h
    split at h
    · cases h
    · cases h
      split
      · exact untimed_aside rfl rfl
      · exact untimed_aside rfl rfl
  · cases h
    exact untimed_startSendOn w c _

theorem untimed_connReqRemove (w : State) (c slot : Nat) : Untimed w (connReqRemove w c slot) := by
  rcases Step.timed (.release w c slot) with same | ⟨_, e, -⟩ | ⟨_, _, e, -⟩ | ⟨_, _, e, -⟩ | ⟨e, -⟩
  · exact same
  all_goals cases e

theorem untimed_connReset (w : State) (c : Nat) : Untimed w (connReset w c) := by
  rcases Step.timed (.reset w c) with same | ⟨_, e, -⟩ | ⟨_, _, e, -⟩ | ⟨_, _, e, -⟩ | ⟨e, -⟩
  · exact same
  all_goals cases e

theorem untimed_closeAndForget {w w' : State} {sock : Option Nat} (h : closeAndForget w sock = .ok w') :
    Untimed w w' := by
  simp only [closeAndForget] at h
  split at h
  · cases h
  · rename_i closed
    cases h
    have polled : Untimed w (w.emit (.pollDel sock)) := untimed_aside rfl rfl
    simp only [connDelSock] at closed
    split at closed
    · cases closed
    · cases closed
      exact polled.trans (untimed_aside rfl rfl)
    · rename_i c _
      cases closed
      have reset := untimed_connReset (w.emit (.pollDel sock)) c
      exact polled.trans (reset.trans (untimed_aside rfl rfl))

theorem untimed_processReply {w w' : State} {slot m cmd : Nat} {ret : Int}
    (h : processReply w slot m cmd = .ok (w', ret)) : Untimed w w' := by
  have replied : ∀ {v : State} {result : Int}, reply w slot m cmd = .ok (v, result) → Untimed w v := by
    intro v result done
    simp only [Node.reply] at done
    split at done
    · cases done
    · obtain ⟨⟨u, sent⟩, transmitted, paired⟩ := map_eq_ok.mp done
      cases paired
      have sent : Untimed w u := ⟨(untimed_transmitReply transmitted).node,
        (untimed_transmitReply transmitted).timing⟩
      have removed := untimed_connReqRemove u (w.reqs slot).connId slot
      exact sent.trans (removed.trans (untimed_aside rfl rfl))
  have polled : ∀ {v u : State} {c : Nat} {i o s : Bool}, pollMod v c i o s = .ok u → Untimed v u := by
    intro v u c i o s done
    simp only [pollMod] at done
    split at done
    · cases done
    · cases done
      exact untimed_aside rfl rfl
  simp only [processReply] at h
  split at h
  · cases h
  · rename_i v result done
    have before := replied done
    split at h
    · split at h
      · obtain ⟨u, modified, paired⟩ := map_eq_ok.mp h
        cases paired
        exact before.trans (polled modified)
      · obtain ⟨u, closed, paired⟩ := map_eq_ok.mp h
        cases paired
        exact before.trans (untimed_closeAndForget closed)
    · split at h
      · obtain ⟨u, modified, paired⟩ := map_eq_ok.mp h
        cases paired
        exact before.trans (polled modified)
      · cases h
        exact before

/-- Behind the cancellation a request whose command lies behind its header is
replied to or its connection closed: no timeout changes. -/
theorem failRequest_untimed {w v w' : State} {c slot m cmd : Nat} {left : Int}
    (placed : (w.reqs slot).messagePtr = some m) (behind : m + messageHeader ≤ cmd)
    (removed : removeTimeout w (reqIdOf (reqMem w slot) m) = .ok (v, left))
    (h : failRequest w c slot m cmd = .ok w') : Untimed v w' := by
  simp only [Node.failRequest, removed] at h
  have timed := removeTimeout_retimed removed
  obtain ⟨node, here⟩ := timed.reqs slot
  have placed' : (v.reqs slot).messagePtr = some m := by rw [here]; exact placed
  have mem : reqMem v slot = reqMem w slot := by rw [reqMem, timed.conns, here]; rfl
  split at h
  · exact untimed_closeAndForget h
  · rename_i itr found
    split at h
    · exact untimed_closeAndForget h
    · rename_i onward
      rw [not_or] at onward
      obtain ⟨stops, later⟩ := seekReply_found found
      have type : cmdAt (reqMem v slot) itr = .reply := by
        rw [mem]
        exact stops.resolve_left onward.2
      have beyond := later cmd rfl
      obtain ⟨⟨u, ret⟩, done, paired⟩ := map_eq_ok.mp h
      cases paired
      change processMessages (resumed v slot m itr) slot = _ at done
      rw [processMessages_reply placed' (by simp only [messageHeader] at behind; omega) type] at done
      have moved : Untimed v (resumed v slot m itr) :=
        ⟨setReq_keeps ReqInfo.timeoutNode v rfl, rfl⟩
      exact moved.trans (untimed_processReply done)

theorem failing_placed {target : Addr} {c fuel : Nat} {w : State} {start : Option Nat} {slot m cmd : Nat}
    (h : failing target c fuel w start = .ok (some (slot, m, cmd))) :
    (w.reqs slot).messagePtr = some m ∧ (w.reqs slot).currCmd = some cmd := by
  induction fuel generalizing start with
  | zero => cases h
  | succ fuel ih =>
    cases start with
    | none => cases h
    | some s =>
      simp only [failing] at h
      split at h
      · cases h
      · rename_i current
        split at h
        · split at h
          · cases h
          · split at h
            · cases h
            · rename_i placed
              cases h
              exact ⟨placed, current⟩
        · split at h
          · cases h
          · exact ih h

/-- In every run: when the error path fails a request, the cancellation hits this
request's entry and no other exactly if the id in the message names it or there
is no entry to cancel; and what the error path goes on to do to the request
changes no entry. -/
theorem cancels_own_iff (storageDevices : Nat) (storageFd : Nat → Nat) (files : Nat → Mem)
    (enableDefrag : Bool) {events : List (Kernel × Event)} {w u : State} {kernel : Kernel} {c : Nat}
    {type : EventType} {r : Readiness} {i slot m cmd : Nat}
    (before : run (State.init storageDevices storageFd files enableDefrag) events = .ok w)
    (comes : ComesTo { w with kernel := kernel } c type r u i slot m cmd) :
    ∃ v left, removeTimeout u (reqIdOf (reqMem u slot) m) = .ok (v, left) ∧
      (CancelsOwn u slot v ↔ Named u slot (reqIdOf (reqMem u slot) m)) ∧
      ∀ w', m + messageHeader ≤ cmd → failRequest u i slot m cmd = .ok w' →
        (CancelsOwn u slot w' ↔ Named u slot (reqIdOf (reqMem u slot) m)) := by
  have opened := opened_init storageDevices storageFd files enableDefrag
  have ran := leads_run opened before
  have asked : Leads w { w with kernel := kernel } :=
    leads_aside ⟨rfl, rfl, rfl, rfl, rfl, rfl, rfl, rfl⟩
  have reached := ran.trans (asked.trans (comes.leads (asked.opened (ran.opened opened))))
  have S : Slotted u := Reaches.invariant (fun _ _ _ _ paired s => Slotted.step paired s) reached
    (slotted_init storageDevices storageFd files enableDefrag)
  obtain ⟨v, left, removed⟩ := removeTimeout_total S (reqIdOf (reqMem u slot) m)
  have right : CancelsOwn u slot v ↔ Named u slot (reqIdOf (reqMem u slot) m) := cancels_iff S removed
  refine ⟨v, left, removed, right, fun w' behind failed => ?_⟩
  obtain ⟨_, _, -, -, -, -, -, stops⟩ := comes
  rw [← right]
  exact CancelsOwn.untimed (failRequest_untimed (failing_placed stops).1 behind removed failed)

/-! ## Two requests of one client -/

/-- The first request that the error path comes to on connection `i`. -/
def comesTo (w : State) (c : Nat) (type : EventType) (r : Readiness) (i : Nat) :
    Option (State × Nat × Nat × Nat) :=
  match attempt w c type r with
  | .ok (v, false) =>
    match closeAndForget (disconnected v c) (v.conns c).sock with
    | .ok v' =>
      match failPending (v.conns c).target i 0 v' with
      | .ok u =>
        if i < maxConns ∧ (u.conns i).sock ≠ none then
          match failing (v.conns c).target i (maxReqs + 1) u (u.conns i).reqList with
          | .ok (some place) => some (u, place)
          | _ => none
        else none
      | .error _ => none
    | .error _ => none
  | _ => none

theorem comesTo_eq_some {w u : State} {c i slot m cmd : Nat} {type : EventType} {r : Readiness}
    (h : comesTo w c type r i = some (u, slot, m, cmd)) : ComesTo w c type r u i slot m cmd := by
  unfold comesTo at h
  split at h
  · rename_i v failed
    split at h
    · rename_i v' closed
      split at h
      · rename_i u' walked
        split at h
        · rename_i here
          split at h
          · rename_i place stops
            cases h
            exact .intro v v' failed closed walked here.1 here.2 stops
          · cases h
        · cases h
      · cases h
    · cases h
  · cases h

/-- A request that is forwarded to the target with a timeout of 50 us. -/
def timed (reqId : Nat) : List UInt8 :=
  Wire.message reqId 0 [.forward false 40 deadTarget 50 0 1 1 0 .tcp, .reply 16, .reply 16, .eom]

/-- The client numbers its request as the node does. -/
theorem cancels_own_first : ∃ w u v left, run oneNode (targetConnected (timed 0)) = .ok w ∧
    ComesTo { w with kernel := .silent } 1 .socket hangsUp u 0 0 0 12 ∧
    (u.reqs 0).timeoutNode ≠ none ∧ removeTimeout u 0 = .ok (v, left) ∧ CancelsOwn u 0 v := by
  have evaluated : ((run oneNode (targetConnected (timed 0))).toOption.any fun w =>
      (comesTo { w with kernel := .silent } 1 .socket hangsUp 0).any fun p =>
        p.2 = (0, 0, 12) ∧ (p.1.reqs 0).timeoutNode ≠ none ∧ reqIdOf (reqMem p.1 0) 0 = 0 ∧
          reqGetById p.1 0 = some 0) = true := by
    decide +kernel
  obtain ⟨w, ran, here⟩ := exists_of_any evaluated
  obtain ⟨⟨u, place⟩, comes, facts⟩ := exists_of_any here
  obtain ⟨rfl, pending, id, named⟩ := of_decide_eq_true facts
  have comes := comesTo_eq_some comes
  obtain ⟨v, left, removed, right, -⟩ :=
    cancels_own_iff 0 (fun _ => 0) (fun _ _ => 0) true (toOption_eq_some ran) comes
  rw [id] at removed right
  exact ⟨w, u, v, left, toOption_eq_some ran, comes, pending, removed, right.mpr (Or.inl named)⟩

/-- The client numbers its two requests the other way round: failing the second
cancels the timeout of the first and keeps its own. -/
theorem cancels_another : ∃ w u v left, run oneNode (targetConnected (timed 1 ++ timed 0)) = .ok w ∧
    ComesTo { w with kernel := .silent } 1 .socket hangsUp u 0 1 76 88 ∧
    removeTimeout u (reqIdOf (reqMem u 1) 76) = .ok (v, left) ∧
    (v.reqs 1).timeoutNode ≠ none ∧ (u.reqs 0).timeoutNode ≠ none ∧ (v.reqs 0).timeoutNode = none ∧
    ¬ CancelsOwn u 1 v := by
  have evaluated : ((run oneNode (targetConnected (timed 1 ++ timed 0))).toOption.any fun w =>
      (comesTo { w with kernel := .silent } 1 .socket hangsUp 0).any fun p =>
        p.2 = (1, 76, 88) ∧ (p.1.reqs 0).timeoutNode ≠ none ∧
          (removeTimeout p.1 (reqIdOf (reqMem p.1 1) 76)).toOption.any fun q =>
            (q.1.reqs 1).timeoutNode ≠ none ∧ (q.1.reqs 0).timeoutNode = none) = true := by
    decide +kernel
  obtain ⟨w, ran, here⟩ := exists_of_any evaluated
  obtain ⟨⟨u, place⟩, comes, facts⟩ := exists_of_any here
  obtain ⟨rfl, pending, after⟩ := of_decide_eq_true facts
  obtain ⟨⟨v, left⟩, removed, kept⟩ := exists_of_any after
  obtain ⟨own, other⟩ := of_decide_eq_true kept
  refine ⟨w, u, v, left, toOption_eq_some ran, comesTo_eq_some comes, toOption_eq_some removed, own,
    pending, other, ?_⟩
  intro cancels
  exact own cancels.own

end CancelledTimeouts
