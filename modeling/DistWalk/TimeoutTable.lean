import DistWalk.NodeCalls
import DistWalk.Wire

/-!
# Timeout queue and live requests

Whatever the worker does, the nodes of the queue and the slots that name one
stay paired. That the paired slot holds a live request, the one whose id the
node carries, is kept as long as a request is released only after its timeout
has been cancelled. `conn_reset` and the error path do not see to that.
-/

namespace TimeoutTable

open Message Connection PriorityQueue Worker Timeout Node Transitions Requests Wire

/-- What the timeouts are made of outside the request table. -/
def timing (w : State) : PQueue × Timer × Int × Clock :=
  (w.timeoutQueue, w.timer, w.timeElapsed, w.clock)

theorem tableless_timing : Tableless timing :=
  ⟨fun _ _ _ => rfl, fun _ _ _ _ => rfl, fun _ _ => rfl, fun _ _ => rfl⟩

/-- Nothing about the timeouts has changed. -/
structure Untimed (w w' : State) : Prop where
  node : ∀ s, (w'.reqs s).timeoutNode = (w.reqs s).timeoutNode
  timing : timing w' = timing w

theorem Untimed.refl (w : State) : Untimed w w := ⟨fun _ => rfl, rfl⟩

theorem Untimed.trans {a b c : State} (h : Untimed a b) (h' : Untimed b c) : Untimed a c :=
  ⟨fun s => (h'.node s).trans (h.node s), h'.timing.trans h.timing⟩

theorem Untimed.queue {w w' : State} (h : Untimed w w') : w'.timeoutQueue = w.timeoutQueue :=
  congrArg Prod.fst h.timing

theorem Untimed.timer {w w' : State} (h : Untimed w w') : w'.timer = w.timer :=
  congrArg (fun t => t.2.1) h.timing

theorem Untimed.elapsed {w w' : State} (h : Untimed w w') : w'.timeElapsed = w.timeElapsed :=
  congrArg (fun t => t.2.2.1) h.timing

theorem Untimed.clock {w w' : State} (h : Untimed w w') : w'.clock = w.clock :=
  congrArg (fun t => t.2.2.2) h.timing

theorem acknowledge_timing (w : State) (slot id m status : Nat) :
    timing (acknowledge w slot id m status) = timing w := by
  simp only [acknowledge]
  split <;> rfl

/-- The steps that concern the timeouts, and all the others. -/
theorem Step.timed {w w' : State} {l : Label} (h : Step w l w') :
    Untimed w w' ∨ (∃ ns, l = .elapse ns ∧ w' = elapse w ns) ∨
      (∃ reqId micros, l = .insert reqId micros ∧ micros ≠ 0 ∧
        insertTimeout w reqId micros = .ok w') ∨
      (∃ reqId left, l = .remove reqId ∧ removeTimeout w reqId = .ok (w', left)) ∨
      (l = .disarm ∧ Headless w ∧ timerfdSettime w (usToIts 0) = .ok w') := by
  cases h with
  | conn c conn kept => exact Or.inl ⟨fun _ => rfl, rfl⟩
  | aside w' same =>
    refine Or.inl ⟨fun s => by rw [same.reqs], ?_⟩
    simp only [timing, same.timeoutQueue, same.timer, same.timeElapsed, same.clock]
  | elapse ns => exact Or.inr (Or.inl ⟨ns, rfl, rfl⟩)
  | enter c m used =>
    refine Or.inl ⟨fun s => ?_, tableless_timing.enterRequest w c m⟩
    by_cases own : s = slotOf w.lastReqs
    · rcases enterRequest_cases w c m with ⟨-, -, e⟩ | ⟨free, -⟩
      · rw [e]
      · rw [own, linkless_timeoutNode.enterRequest_self w c m free]
        rfl
    · exact linkless_timeoutNode.enterRequest_other w c m own
  | setCmd slot cmd => exact Or.inl ⟨setReq_keeps ReqInfo.timeoutNode w rfl, rfl⟩
  | begin slot cmd =>
    refine Or.inl ⟨setReq_keeps ReqInfo.timeoutNode w ?_, rfl⟩
    split <;> rfl
  | ack slot id m status =>
    exact Or.inl ⟨acknowledge_keeps ReqInfo.timeoutNode (fun _ _ _ _ _ _ _ => rfl) w slot id m status,
      acknowledge_timing w slot id m status⟩
  | retry slot => exact Or.inl ⟨setReq_keeps ReqInfo.timeoutNode w rfl, rfl⟩
  | skip slot m => exact Or.inl ⟨setReq_keeps ReqInfo.timeoutNode w rfl, rfl⟩
  | insert w' reqId micros nonzero done =>
    exact Or.inr (Or.inr (Or.inl ⟨reqId, micros, rfl, nonzero, done⟩))
  | remove w' reqId left done => exact Or.inr (Or.inr (Or.inr (Or.inl ⟨reqId, left, rfl, done⟩)))
  | disarm w' headless done => exact Or.inr (Or.inr (Or.inr (Or.inr ⟨rfl, headless, done⟩)))
  | release c slot =>
    refine Or.inl ⟨fun s => ?_, tableless_timing.connReqRemove w c slot⟩
    by_cases own : s = slot
    · rw [own]
      exact linkless_timeoutNode.connReqRemove_self w c slot fun _ => rfl
    · exact linkless_timeoutNode.connReqRemove w own
  | reset c =>
    exact Or.inl ⟨linkless_timeoutNode.connResetFrom_blind (fun _ => rfl) _ w _,
      tableless_timing.connResetFrom w _ _⟩

/-! ## Slots and nodes stay paired -/

theorem Slotted.untimed {w w' : State} (h : Slotted w) (u : Untimed w w') : Slotted w' where
  queue := u.queue ▸ h.queue
  capacity := u.queue ▸ h.capacity
  node := by
    intro n held
    rw [u.queue] at held ⊢
    rw [u.node]
    exact h.node n held
  slot := by
    intro s n named
    rw [u.node] at named
    rw [u.queue]
    exact h.slot s n named

/-- Only the timer has moved. -/
theorem Slotted.retimed {w w' : State} (h : Slotted w) (reqs : w'.reqs = w.reqs)
    (queue : w'.timeoutQueue = w.timeoutQueue) : Slotted w' where
  queue := queue ▸ h.queue
  capacity := queue ▸ h.capacity
  node := by
    rw [reqs, queue]
    exact h.node
  slot := by
    rw [reqs, queue]
    exact h.slot

theorem Slotted.queued {w w' : State} (h : Slotted w) {reqId node : Nat} {micros : Int}
    (q : Queued w reqId micros node w') : Slotted w' where
  queue := q.queue.wellFormed
  capacity := q.queue.capacity.trans h.capacity
  node := by
    intro n held
    by_cases new : n = node
    · rw [new, q.queue.data, q.reqs, Function.update_self]
    · rw [q.queue.dataOther n new]
      have old := h.node n (((q.queue.holds n).mp held).resolve_right new)
      rw [q.reqs]
      by_cases own : slotOf (w.timeoutQueue.nodes n).data = slotOf reqId
      · rw [own, q.vacant] at old
        cases old
      · rw [Function.update_of_ne own]
        exact old
  slot := by
    intro s n named
    rw [q.reqs] at named
    by_cases own : s = slotOf reqId
    · rw [own, Function.update_self] at named
      cases named
      exact ⟨(q.queue.holds node).mpr (Or.inr rfl), by rw [q.queue.data, own]⟩
    · rw [Function.update_of_ne own] at named
      obtain ⟨held, home⟩ := h.slot s n named
      have old : n ≠ node := fun e => q.queue.fresh (e ▸ held)
      exact ⟨(q.queue.holds n).mpr (Or.inl held), by rw [q.queue.dataOther n old, home]⟩

theorem Slotted.unqueued {w w' : State} (h : Slotted w) {reqId node top : Nat}
    (q : Unqueued w reqId node top w') : Slotted w' where
  queue := q.queue.wellFormed
  capacity := q.queue.capacity.trans h.capacity
  node := by
    intro n held
    obtain ⟨before, other⟩ := (q.queue.holds n).mp held
    have old := h.node n before
    rw [q.queue.data, q.reqs]
    by_cases own : slotOf (w.timeoutQueue.nodes n).data = slotOf reqId
    · rw [own, q.named] at old
      exact absurd (Option.some.inj old).symm other
    · rw [Function.update_of_ne own]
      exact old
  slot := by
    intro s n named
    rw [q.reqs] at named
    by_cases own : s = slotOf reqId
    · rw [own, Function.update_self] at named
      cases named
    · rw [Function.update_of_ne own] at named
      obtain ⟨held, home⟩ := h.slot s n named
      refine ⟨(q.queue.holds n).mpr ⟨held, ?_⟩, by rw [q.queue.data, home]⟩
      rintro rfl
      exact own (home.symm.trans (h.slot _ _ q.named).2)

theorem Slotted.step {w w' : State} {l : Label} (h : Slotted w) (s : Step w l w') : Slotted w' := by
  rcases Step.timed s with u | ⟨ns, -, rfl⟩ | ⟨reqId, micros, -, -, done⟩ | ⟨reqId, left, -, done⟩ |
    ⟨-, -, done⟩
  · exact Slotted.untimed h u
  · exact Slotted.retimed h rfl rfl
  · rcases insertTimeout_spec h done with rfl | ⟨node, q⟩
    · exact h
    · exact Slotted.queued h q
  · rcases removeTimeout_spec h done with rfl | ⟨node, top, q⟩
    · exact h
    · exact Slotted.unqueued h q
  · obtain ⟨-, rfl⟩ := timerfdSettime_eq_ok done
    exact Slotted.retimed h rfl rfl

theorem slotted_leads {w w' : State} (h : Leads w w') (slotted : Slotted w) : Slotted w' :=
  Reaches.invariant (fun _ _ _ _ paired s => Slotted.step paired s) h slotted

variable (storageDevices : Nat) (storageFd : Nat → Nat) (files : Nat → ByteMemory.Mem)
  (enableDefrag : Bool)

theorem slotted_init : Slotted (State.init storageDevices storageFd files enableDefrag) where
  queue := pqueueAlloc_wellFormed maxReqs
  capacity := rfl
  node := by
    intro n held
    exact absurd held.1 (Nat.not_lt_zero _)
  slot := by
    intro s n named
    cases named

/-! ## Live requests -/

def Live (w : State) (s : Nat) : Prop := (w.reqs s).reqId ≠ noReq

/-- The nodes of the queue are, one to one, the timeouts of live requests. -/
structure TimeoutsMatch (w : State) : Prop where
  node : ∀ n, Holds w.timeoutQueue n → ∃! s, Live w s ∧ (w.reqs s).timeoutNode = some n ∧
    (w.timeoutQueue.nodes n).data = (w.reqs s).reqId
  request : ∀ s n, Live w s → (w.reqs s).timeoutNode = some n →
    Holds w.timeoutQueue n ∧ (w.timeoutQueue.nodes n).data = (w.reqs s).reqId
  allocated : ∀ s, (reqAlloc w).2 = some s → ((reqAlloc w).1.reqs s).timeoutNode = none
  bounded : w.timeoutQueue.size ≤ maxReqs

/-- A request is released only without a pending timeout: when its connection
is closed, when it is replied to, when it is given up. No timeout is queued
under the id -1, which marks a free slot. -/
def TimersCancelled (w : State) : Label → Prop
  | .release _ slot => (w.reqs slot).timeoutNode = none
  | .reset c => ∀ s ∈ listed w c, (w.reqs s).timeoutNode = none
  | .insert reqId _ => reqId ≠ noReq
  | _ => True

/-- A slot that names a node holds the live request whose id the node carries. -/
structure Matched (w : State) : Prop where
  slotted : Slotted w
  named : ∀ s n, (w.reqs s).timeoutNode = some n →
    Live w s ∧ (w.timeoutQueue.nodes n).data = (w.reqs s).reqId

theorem Matched.timeoutsMatch {w : State} (h : Matched w) : TimeoutsMatch w where
  node := by
    intro n held
    have pointed := h.slotted.node n held
    obtain ⟨live, data⟩ := h.named _ n pointed
    refine ⟨slotOf (w.timeoutQueue.nodes n).data, ⟨live, pointed, data⟩, ?_⟩
    rintro s ⟨-, named, -⟩
    exact (h.slotted.slot s n named).2.symm
  request := fun s n _ named => ⟨(h.slotted.slot s n named).1, (h.named s n named).2⟩
  allocated := by
    intro s given
    simp only [reqAlloc] at given ⊢
    split at given
    · cases given
    · rename_i free
      rw [if_neg free]
      cases given
      rw [setReq_self]
      cases named : (w.reqs (slotOf w.lastReqs)).timeoutNode with
      | none => rfl
      | some n => exact absurd (h.named _ n named).1 free
  bounded := h.slotted.size_le

/-- Requests without a timeout may come and go. -/
theorem Matched.released {w w' : State} (h : Matched w) (u : Untimed w w')
    (ids : ∀ s, (w'.reqs s).reqId = (w.reqs s).reqId ∨ (w.reqs s).timeoutNode = none) :
    Matched w' where
  slotted := Slotted.untimed h.slotted u
  named := by
    intro s n named
    rw [u.node] at named
    rcases ids s with same | vacant
    · rw [Live, same, u.queue]
      exact h.named s n named
    · rw [vacant] at named
      cases named

/-- Only the timer has moved. -/
theorem Matched.retimed {w w' : State} (h : Matched w) (reqs : w'.reqs = w.reqs)
    (queue : w'.timeoutQueue = w.timeoutQueue) : Matched w' where
  slotted := Slotted.retimed h.slotted reqs queue
  named := by
    intro s n named
    rw [reqs] at named
    rw [Live, reqs, queue]
    exact h.named s n named

/-- Where an id changes, no timeout is pending. -/
theorem Matched.ids {w w' : State} {l : Label} (h : Matched w) (s : Step w l w')
    (ok : TimersCancelled w l) (x : Nat) :
    (w'.reqs x).reqId = (w.reqs x).reqId ∨ (w.reqs x).timeoutNode = none := by
  rcases s.resident static_reqId x with kept | ⟨-, released⟩ | ⟨c, m, rfl, -, -, free, -⟩
  · exact Or.inl kept
  · rcases released with ⟨c, rfl⟩ | ⟨c, rfl, inside⟩
    · exact Or.inr ok
    · exact Or.inr (ok x inside)
  · refine Or.inr ?_
    cases named : (w.reqs x).timeoutNode with
    | none => rfl
    | some n => exact absurd free (h.named x n named).1

theorem Matched.step {w w' : State} {l : Label} (h : Matched w) (ok : TimersCancelled w l)
    (s : Step w l w') : Matched w' := by
  have ids := h.ids s ok
  rcases Step.timed s with u | ⟨ns, rfl, rfl⟩ | ⟨reqId, micros, rfl, -, done⟩ |
    ⟨reqId, left, rfl, done⟩ | ⟨rfl, -, done⟩
  · exact h.released u ids
  · exact h.retimed rfl rfl
  · refine ⟨Slotted.step h.slotted s, ?_⟩
    rcases insertTimeout_spec h.slotted done with rfl | ⟨node, q⟩
    · exact h.named
    · intro x n named
      rw [q.reqs] at named
      by_cases own : x = slotOf reqId
      · have id := (reqGetById_eq_some.mp q.live).2
        subst own
        rw [Function.update_self] at named
        cases named
        rw [Live, q.reqs, Function.update_self, q.queue.data]
        exact ⟨fun e => ok (id.symm.trans e), id.symm⟩
      · rw [Function.update_of_ne own] at named
        have old : n ≠ node := fun e => q.queue.fresh (e ▸ (h.slotted.slot x n named).1)
        rw [Live, q.reqs, Function.update_of_ne own, q.queue.dataOther n old]
        exact h.named x n named
  · refine ⟨Slotted.step h.slotted s, ?_⟩
    rcases removeTimeout_spec h.slotted done with rfl | ⟨node, top, q⟩
    · exact h.named
    · intro x n named
      rw [q.reqs] at named
      by_cases own : x = slotOf reqId
      · rw [own, Function.update_self] at named
        cases named
      · rw [Function.update_of_ne own] at named
        rw [Live, q.reqs, Function.update_of_ne own, q.queue.data]
        exact h.named x n named
  · obtain ⟨-, rfl⟩ := timerfdSettime_eq_ok done
    exact h.retimed rfl rfl

/-- In every run of the worker that releases no request before its timeout is cancelled, the
queue and the live requests match. -/
theorem timeouts_match {events : List (Kernel × Event)} {w : State}
    (ran : run (State.init storageDevices storageFd files enableDefrag) events = .ok w)
    (cancelled : ∀ call ∈ runCalls (State.init storageDevices storageFd files enableDefrag) events,
      TimersCancelled call.1 call.2) :
    TimeoutsMatch w := by
  have start : Matched (State.init storageDevices storageFd files enableDefrag) :=
    ⟨slotted_init storageDevices storageFd files enableDefrag, fun s n named =>
      absurd ((slotted_init storageDevices storageFd files enableDefrag).slot s n named).1.1
        (Nat.not_lt_zero _)⟩
  have silent (w : State) (l : Label) (quiet : l.Quiet) : TimersCancelled w l := by
    cases l with
    | conn c => trivial
    | aside => trivial
    | setCmd slot => trivial
    | _ => cases quiet
  have reached := reaches_run silent (opened_init storageDevices storageFd files enableDefrag) ran cancelled
  have kept : Matched w := Reaches.invariant (fun _ _ _ ok m s => Matched.step m ok s) reached start
  exact kept.timeoutsMatch

theorem slotted_run {w : State} {events : List (Kernel × Event)}
    (h : run (State.init storageDevices storageFd files enableDefrag) events = .ok w) :
    Slotted w :=
  slotted_leads (leads_run (opened_init storageDevices storageFd files enableDefrag) h)
    (slotted_init storageDevices storageFd files enableDefrag)

instance (w : State) : (l : Label) → Decidable (TimersCancelled w l)
  | .release _ slot => inferInstanceAs (Decidable ((w.reqs slot).timeoutNode = none))
  | .reset c => inferInstanceAs (Decidable (∀ s ∈ listed w c, (w.reqs s).timeoutNode = none))
  | .insert reqId _ => inferInstanceAs (Decidable (reqId ≠ noReq))
  | .conn _ | .aside | .elapse _ | .enter _ _ | .setCmd _ | .begin _ _ | .ack _ _ | .retry _ | .skip _
  | .remove _ | .disarm => .isTrue trivial

def timedForward (retries : UInt8) : List Cmd :=
  [.forward false 64 [10, 0, 0, 1, 0, 1] 50 retries 1 0 0 .tcp, .reply 16, .reply 16, .eom]

/-- A forward is answered and its request replied to; a second one times out twice and is given
up; a third client is gone while its second request waits for storage; a third forward is
pending. -/
def fiveRequests : List (Kernel × Event) :=
  [(.silent, .accept [10, 0, 0, 9, 0, 9] .tcp),
   (.silent, .accept [10, 0, 0, 1, 0, 1] .tcp),
   (.silent, .ready 0 .socket (received (message 1 0 (timedForward 0)))),
   (.silent, .ready 1 .socket (received (message 0 0 [.eom]))),
   (.silent, .ready 0 .socket (received (message 2 0 (timedForward 1)))),
   (.silent, .elapse 50000),
   (.silent, .ready 2 .timer (received [])),
   (.silent, .elapse 50000),
   (.silent, .ready 2 .timer (received [])),
   (.silent, .accept [10, 0, 0, 8, 0, 8] .tcp),
   (.silent, .ready 2 .socket (received
     (message 3 0 [.load 0, .reply 16, .eom] ++ message 4 0 [.load 0, .reply 16, .eom]))),
   ({ Kernel.silent with sends := [.peerClosed] }, .storage 2),
   (.silent, .ready 0 .socket (received (message 5 0 (timedForward 1))))]

theorem timeouts_match_pending :
    ∃ w, run (State.init 1 (fun _ => 5) (fun _ _ => 0) true) fiveRequests = .ok w ∧
      w.timeoutQueue.size = 1 ∧ TimeoutsMatch w := by
  have evaluated : ((run (State.init 1 (fun _ => 5) (fun _ _ => 0) true) fiveRequests).toOption.any
      fun w => w.timeoutQueue.size = 1) = true := by decide +kernel
  have cancelled : ∀ call ∈ runCalls (State.init 1 (fun _ => 5) (fun _ _ => 0) true) fiveRequests,
      TimersCancelled call.1 call.2 := by decide +kernel
  obtain ⟨w, ran, size⟩ := exists_of_any evaluated
  exact ⟨w, toOption_eq_some ran, of_decide_eq_true size,
    timeouts_match 1 (fun _ => 5) (fun _ _ => 0) true (toOption_eq_some ran) cancelled⟩

/-- Two requests of one client: the first waits for a forward with a timeout,
the second for storage. The response to the second finds the client gone. -/
def clientLost : List (Kernel × Event) :=
  [(.silent, .accept [10, 0, 0, 9, 0, 9] .tcp),
   (.silent, .accept [10, 0, 0, 1, 0, 1] .tcp),
   (.silent, .ready 0 .socket (received
     (message 1 0 [.forward false 64 [10, 0, 0, 1, 0, 1] 50 0 1 1 0 .tcp, .reply 16, .reply 16, .eom] ++
      message 2 0 [.load 0, .reply 16, .eom]))),
   ({ Kernel.silent with sends := [.peerClosed] }, .storage 1)]

/-- Closing the connection releases the first request and leaves its node in
the queue. -/
theorem timeout_outlives_request :
    ∃ w, run (State.init 1 (fun _ => 5) (fun _ _ => 0) true) clientLost = .ok w ∧
      ¬ TimeoutsMatch w := by
  have evaluated : ((run (State.init 1 (fun _ => 5) (fun _ _ => 0) true) clientLost).toOption.any
      fun w => w.timeoutQueue.size = 1 ∧ (w.timeoutQueue.nodes (w.timeoutQueue.heap 0)).data = 0 ∧
        (w.reqs 0).reqId = noReq) = true := by decide +kernel
  obtain ⟨w, ran, facts⟩ := exists_of_any evaluated
  obtain ⟨size, data, released⟩ := of_decide_eq_true facts
  refine ⟨w, toOption_eq_some ran, fun matched => ?_⟩
  have paired := slotted_run 1 (fun _ => 5) (fun _ _ => 0) true (toOption_eq_some ran)
  obtain ⟨s, ⟨live, named, -⟩, -⟩ :=
    matched.node _ (paired.queue.indexed.holds (i := 0) (by omega))
  have home := (paired.slot s _ named).2
  rw [data] at home
  subst home
  exact live released

end TimeoutTable
