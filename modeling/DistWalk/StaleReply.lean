import DistWalk.ForwardQuorum
import DistWalk.ProgramFrames

/-!
# Late and stale replies

A reply says which request it belongs to and not which FORWARD of it. Here every
message that is forwarded keeps a record of its context, and a reply is followed
with the context of the message it answers. What lies ahead of a request in its
message is a list of stops. While a context is in progress the request stands at
its FORWARD_BEGIN; as long as no address is a destination of two stops, and no
context is given up that has counted a reply, a reply that is counted answers
the context it is counted in.
-/

namespace StaleReply

open ByteMemory Message Connection PriorityQueue Worker Timeout Node Transitions Requests
  ForwardReply Forwarding ForwardContext ForwardQuorum Walkers BoundedReads Relocation ReceiveQueue BufferLayout
  LayoutSteps LayoutRuns DeadPeer ReturnCodes ProgramFrames

/-! ## What lies ahead of a request -/

/-- A command that a request comes to, with the destinations of a FORWARD. -/
abbrev Stop := CommandType × List Addr

def stopAt (mem : Mem) (msgEnd cmd : Nat) : Stop :=
  (cmdAt mem cmd, if (cmdAt mem cmd).isForward then destinations mem msgEnd (some cmd) else [])

/-- The stops from `cmd` on, context after context. -/
def route (mem : Mem) (msgEnd : Nat) (cmd : Option Nat) : List Stop := readings stopAt mem msgEnd cmd

section Route

variable {mem : Mem} {msgEnd : Nat}

theorem route_cons {cmd : Nat} (inside : cmdInBounds mem cmd msgEnd = true) :
    route mem msgEnd (some cmd) =
      stopAt mem msgEnd cmd :: route mem msgEnd (cmdBoundedSkip mem (some cmd) 1 msgEnd) := readings_cons inside

/-- Skipping at least one context leaves this one behind. -/
theorem route_skip_behind {cmd : Nat} (inside : cmdInBounds mem cmd msgEnd = true) {toSkip : Int}
    (positive : 0 < toSkip) :
    route mem msgEnd (cmdBoundedSkip mem (some cmd) toSkip msgEnd) <:+ (route mem msgEnd (some cmd)).tail := by
  obtain ⟨k, rfl⟩ : ∃ k : Nat, toSkip = ((k + 1 : Nat) : Int) := ⟨toSkip.toNat - 1, by omega⟩
  rw [route, readings_skip inside, ← route, ← List.drop_tail]
  exact List.drop_suffix _ _

/-- The branches of a FORWARD, wherever its message lies. -/
theorem branchesFrom_within {lo hi : Nat} {mem mem' : Mem} (h : Within lo hi mem mem') {fuel cmd : Nat}
    (stands : Stands lo hi mem cmd) (forward : (cmdAt mem cmd).isForward = true) :
    branchesFrom mem hi fuel (some cmd) = branchesFrom mem' hi fuel (some cmd) ∧
      ∀ b ∈ branchesFrom mem hi fuel (some cmd), Stands lo hi mem b ∧ (cmdAt mem b).isForward = true := by
  induction fuel generalizing cmd with
  | zero => exact ⟨rfl, fun b inside => (List.not_mem_nil inside).elim⟩
  | succ fuel ih =>
    simp only [branchesFrom, ← Within.cmdBoundedNextForward h stands.start]
    cases step : cmdBoundedNextForward mem (some cmd) hi with
    | error e =>
      refine ⟨rfl, fun b inside => ?_⟩
      rw [List.mem_singleton.mp inside]
      exact ⟨stands, forward⟩
    | ok next =>
      cases next with
      | none =>
        have ends : ∀ mem : Mem, branchesFrom mem hi fuel none = [] := fun mem => by cases fuel <;> rfl
        simp only [ends]
        refine ⟨trivial, fun b inside => ?_⟩
        rw [List.mem_singleton.mp inside]
        exact ⟨stands, forward⟩
      | some next =>
        obtain ⟨later, type⟩ := nextForward_stands stands.start step
        obtain ⟨same, behind⟩ := ih later (by rw [type]; rfl)
        refine ⟨congrArg _ same, fun b inside => ?_⟩
        rcases List.mem_cons.mp inside with rfl | inside
        · exact ⟨stands, forward⟩
        · exact behind b inside

theorem branchesFrom_fuel {fuel fuel' : Nat} {cmd : Option Nat} (enough : ∀ c, cmd = some c → msgEnd - c < fuel)
    (enough' : ∀ c, cmd = some c → msgEnd - c < fuel') :
    branchesFrom mem msgEnd fuel cmd = branchesFrom mem msgEnd fuel' cmd := by
  induction fuel generalizing fuel' cmd with
  | zero =>
    cases cmd with
    | none => cases fuel' <;> rfl
    | some c => exact absurd (enough c rfl) (Nat.not_lt_zero _)
  | succ fuel ih =>
    cases cmd with
    | none => cases fuel' <;> rfl
    | some c =>
      cases fuel' with
      | zero => exact absurd (enough' c rfl) (Nat.not_lt_zero _)
      | succ fuel' =>
        have bound := enough c rfl
        have bound' := enough' c rfl
        rw [branchesFrom, branchesFrom]
        cases step : cmdBoundedNextForward mem (some c) msgEnd with
        | error e => rfl
        | ok next =>
          have later : ∀ d, next = some d → msgEnd - d < fuel ∧ msgEnd - d < fuel' := by
            rintro d rfl
            have further := cmdBoundedNextForward_lt step
            have inside := lt_end_of_inBounds (nextForward_stands (Nat.le_refl c) step).1.inBounds
            omega
          exact congrArg _ (ih (fun d e => (later d e).1) fun d e => (later d e).2)

theorem seen_branchesFrom {k : Nat} (fuel : Nat) (cmd : Option Nat) :
    branchesFrom mem (msgEnd + k) fuel (cmd.map (· + k)) =
      (branchesFrom (seenFrom k mem) msgEnd fuel cmd).map (· + k) := by
  induction fuel generalizing cmd with
  | zero => rfl
  | succ fuel ih =>
    cases cmd with
    | none => rfl
    | some cmd =>
      simp only [branchesFrom, Option.map_some, seen_cmdBoundedNextForward]
      cases cmdBoundedNextForward (seenFrom k mem) (some cmd) msgEnd with
      | error e => rfl
      | ok next => exact congrArg _ (ih next)

theorem portable_stopAt : Portable stopAt where
  within := by
    intro lo hi mem mem' cmd h stands
    have type : cmdAt mem cmd = cmdAt mem' cmd := h.type stands
    simp only [stopAt, ← type]
    split
    · rename_i forward
      obtain ⟨same, behind⟩ := @branchesFrom_within lo hi mem mem' h (hi + 1) cmd stands forward
      rw [destinations, branches, same, destinations, branches]
      refine congrArg _ (List.map_congr_left fun b inside => ?_)
      obtain ⟨there, is⟩ := behind b (same ▸ inside)
      exact congrArg FwdOpts.fwdAddr (h.fwdOpts there.start (room_of_forward there is))
    · rfl
  seen := by
    intro k msgEnd cmd mem stands
    simp only [stopAt, ← seen_cmdAt]
    split
    · rename_i forward
      have walked : branches mem (msgEnd + k) (some (cmd + k)) =
          (branches (seenFrom k mem) msgEnd (some cmd)).map (· + k) := by
        rw [branches, branches, ← seen_branchesFrom]
        exact branchesFrom_fuel (fun c e => by omega) fun c e => by
          cases e
          omega
      rw [destinations, destinations, walked, List.map_map]
      exact congrArg _ (List.map_congr_left fun b _ => congrArg FwdOpts.fwdAddr (seen_fwdOpts b))
    · rfl

end Route

/-- The stops that lie ahead of the request in `slot`. -/
def Ahead (w : State) (slot : Nat) (stops : List Stop) : Prop :=
  ∃ m, (w.reqs slot).messagePtr = some m ∧
    (∀ cmd, (w.reqs slot).currCmd = some cmd →
      Stands (messageFirstCmd m) (messageEnd (reqMem w slot) m) (reqMem w slot) cmd) ∧
    route (reqMem w slot) (messageEnd (reqMem w slot) m) (w.reqs slot).currCmd = stops

/-- No address is a destination of two stops. -/
def Apart (stops : List Stop) : Prop := stops.Pairwise fun stop later => stop.2.Disjoint later.2

/-- No FORWARD_CONTINUE stands outside a context. -/
def Enclosed (stops : List Stop) : Prop := ∀ stop ∈ stops, stop.1 ≠ .forwardContinue

/-! ## A request and the messages sent for it -/

/-- No reply is counted for the request: none has set a bit, or the bits mean nothing. -/
def Uncounted (r : ReqInfo) : Prop := r.fwdRepliesLeft = -1 ∨ r.fwdRepliesMask = 0

/-- In context `number`, what has been sent to its destinations was sent for it,
and nothing behind it goes to an address that has been sent to. Each bit set
stands for a destination that a message was sent to for this context. -/
structure Accounted (reqId number : Nat) (w : State) (dests : List Addr) (rest : List Stop) : Prop where
  sent : ∀ addr tag, (reqId, addr, tag) ∈ forwards w →
    (addr ∈ dests → tag = some number) ∧ ∀ stop ∈ rest, addr ∉ stop.2
  counted : ∀ i, i < 32 → acked (w.reqs (slotOf reqId)).fwdRepliesMask i = true →
    ∃ j addr, j % 32 = i ∧ dests[j]? = some addr ∧ (reqId, addr, some number) ∈ forwards w

/-- In a context the request stands at its FORWARD_BEGIN. If the accounts are
kept, nothing that lies ahead outside a context goes to an address that has been
sent to, and no reply is counted there. -/
structure Traced (accounts : Prop) (reqId : Nat) (w : State) (stops : List Stop) : Prop where
  live : (w.reqs (slotOf reqId)).reqId = reqId
  ahead : Ahead w (slotOf reqId) stops
  enclosed : Enclosed stops
  apart : accounts → Apart stops
  outside : (w.reqs (slotOf reqId)).ctx = none → accounts →
    Uncounted (w.reqs (slotOf reqId)) ∧
      ∀ addr tag, (reqId, addr, tag) ∈ forwards w → ∀ stop ∈ stops, addr ∉ stop.2
  inside : ∀ number, (w.reqs (slotOf reqId)).ctx = some number →
    ∃ dests rest, stops = (.forwardBegin, dests) :: rest ∧
      (accounts → Accounted reqId number w dests rest)

/-- Where a request stands. -/
def occupied (r : ReqInfo) : Nat × Option Nat × Option Nat × Option Nat :=
  (r.reqId, r.messagePtr, r.currCmd, r.ctx)

/-- Where it stands, and the replies it has counted. -/
def position (r : ReqInfo) : Nat × Option Nat × Option Nat × Option Nat × Int × BitVec 32 :=
  (r.reqId, r.messagePtr, r.currCmd, r.ctx, r.fwdRepliesLeft, r.fwdRepliesMask)

section Traced

variable {accounts : Prop} {reqId : Nat} {w w' : State} {stops : List Stop}

theorem Ahead.frame {slot : Nat} (h : Ahead w slot stops)
    (message : (w'.reqs slot).messagePtr = (w.reqs slot).messagePtr)
    (current : (w'.reqs slot).currCmd = (w.reqs slot).currCmd)
    (mem : reqMem w' slot = reqMem w slot) : Ahead w' slot stops := by
  obtain ⟨m, placed, behind, read⟩ := h
  refine ⟨m, message.trans placed, ?_, ?_⟩
  · rw [mem, current]
    exact behind
  · rw [mem, current]
    exact read

/-- The accounts rest on the bits set and on what has been sent. -/
theorem Accounted.frame {number : Nat} {dests : List Addr} {rest : List Stop}
    (h : Accounted reqId number w dests rest)
    (mask : (w'.reqs (slotOf reqId)).fwdRepliesMask = (w.reqs (slotOf reqId)).fwdRepliesMask)
    (sent : forwards w' = forwards w) : Accounted reqId number w' dests rest := by
  refine ⟨?_, ?_⟩
  · rw [sent]
    exact h.sent
  · rw [mask, sent]
    exact h.counted

theorem Traced.frame (h : Traced accounts reqId w stops)
    (same : position (w'.reqs (slotOf reqId)) = position (w.reqs (slotOf reqId)))
    (mem : reqMem w' (slotOf reqId) = reqMem w (slotOf reqId)) (sent : forwards w' = forwards w) :
    Traced accounts reqId w' stops := by
  simp only [position, Prod.mk.injEq] at same
  obtain ⟨id, message, current, ctx, left, mask⟩ := same
  refine ⟨id.trans h.live, h.ahead.frame message current mem, h.enclosed, h.apart, ?_, ?_⟩
  · rw [ctx, sent, Uncounted, left, mask]
    exact h.outside
  · rw [ctx]
    intro number e
    obtain ⟨dests, rest, shape, own⟩ := h.inside number e
    exact ⟨dests, rest, shape, fun kept => (own kept).frame mask sent⟩

/-- The request leaves its context behind, if it is in one, and goes on. -/
theorem Traced.onward (h : Traced accounts reqId w stops) {part : List Stop} (part_of : part <:+ stops)
    (behind : (w.reqs (slotOf reqId)).ctx ≠ none → part <:+ stops.tail)
    (live : (w'.reqs (slotOf reqId)).reqId = reqId) (ahead : Ahead w' (slotOf reqId) part)
    (ctx : (w'.reqs (slotOf reqId)).ctx = none)
    (cleared : accounts → Uncounted (w'.reqs (slotOf reqId))) (sent : forwards w' = forwards w) :
    Traced accounts reqId w' part := by
  refine ⟨live, ahead, fun stop at_ => h.enclosed stop (part_of.subset at_),
    fun kept => (h.apart kept).sublist part_of.sublist,
    fun _ kept => ⟨cleared kept, fun addr tag known stop at_ => ?_⟩, ?_⟩
  · rw [sent] at known
    cases current : (w.reqs (slotOf reqId)).ctx with
    | none => exact (h.outside current kept).2 addr tag known stop (part_of.subset at_)
    | some number =>
      obtain ⟨dests, rest, rfl, own⟩ := h.inside number current
      exact ((own kept).sent addr tag known).2 stop ((behind (by simp [current])).subset at_)
  · intro number e
    rw [ctx] at e
    cases e

theorem Traced.placed (h : Traced accounts reqId w stops) : (w.reqs (slotOf reqId)).messagePtr ≠ none := by
  obtain ⟨m, message, -⟩ := h.ahead
  rw [message]
  exact Option.some_ne_none m

theorem Traced.inUse (h : Traced accounts reqId w stops) (sound : Sound w) : InUse w (slotOf reqId) :=
  sound.laid.busy _ (sound.laid.opened _ h.placed)

/-- A request in a context stands at its FORWARD_BEGIN. -/
theorem Traced.begins (h : Traced accounts reqId w stops) (busy : (w.reqs (slotOf reqId)).ctx ≠ none)
    {cmd : Nat} (current : (w.reqs (slotOf reqId)).currCmd = some cmd) :
    cmdAt (reqMem w (slotOf reqId)) cmd = .forwardBegin := by
  obtain ⟨number, e⟩ := Option.ne_none_iff_exists'.mp busy
  obtain ⟨dests, rest, rfl, -⟩ := h.inside number e
  obtain ⟨m, -, behind, read⟩ := h.ahead
  rw [current, route_cons (behind cmd current).inBounds] at read
  exact congrArg Prod.fst (List.cons.inj read).1

/-! ## Forwarding -/

/-- What `start_forward` sends goes to destinations of the context, for it. -/
theorem startForward_sends {slot m cmd : Nat} (used : InUse w slot) {sent : Bool}
    (started : startForward w slot m cmd = .ok (w', sent)) :
    ∃ new, forwards w' = new ++ forwards w ∧
      ∀ f ∈ new, f.2.1 ∈ destinations (reqMem w slot) (messageEnd (reqMem w slot) m) (some cmd) ∧
        f.2.2 = (w.reqs slot).ctx.or (some w.nextCtx) := by
  obtain ⟨-, out, isPrefix, -, record⟩ := startForward_spec used started
  have ctx : ((beginContext w slot cmd).reqs slot).ctx = (w.reqs slot).ctx.or (some w.nextCtx) := by
    rw [beginContext_req]
    split <;> rfl
  refine ⟨_, record, fun f inside => ?_⟩
  obtain ⟨branch, member, rfl⟩ := List.mem_map.mp (List.mem_reverse.mp inside)
  refine ⟨?_, ctx⟩
  simp only [forwardOf, beginContext_reqMem]
  exact List.mem_map_of_mem (List.mem_of_mem_filter (isPrefix.subset member))

/-- Counting a reply sets its bit and no other. -/
theorem acked_or {mask : BitVec 32} {id i : Nat} (small : i < 32) (set : acked (mask ||| ackBit id) i = true) :
    acked mask i = true ∨ i = id % 32 := by
  have member := mem_setBits.mpr ⟨small, set⟩
  rw [← ackBit_mod, setBits_or (Nat.mod_lt id (by decide)), Finset.mem_insert, mem_setBits] at member
  rcases member with new | ⟨-, old⟩
  · exact Or.inr new
  · exact Or.inl old

theorem acked_cleared {mask : BitVec 32} (clear : mask = 0) (id : Nat) : acked mask id = false :=
  clear ▸ acked_zero id

/-- `start_forward` at the FORWARD_BEGIN where the request stands. -/
theorem Traced.startForward (h : Traced accounts reqId w stops) (named : reqId ≠ noReq)
    (used : InUse w (slotOf reqId)) {m cmd : Nat}
    (message : (w.reqs (slotOf reqId)).messagePtr = some m)
    (current : (w.reqs (slotOf reqId)).currCmd = some cmd)
    (begins : cmdAt (reqMem w (slotOf reqId)) cmd = .forwardBegin) {sent : Bool}
    (started : startForward w (slotOf reqId) m cmd = .ok (w', sent))
    (live : (w'.reqs (slotOf reqId)).reqId = reqId) : Traced accounts reqId w' stops := by
  obtain ⟨new, record, fresh⟩ := startForward_sends used started
  obtain ⟨sending, -⟩ := startForward_spec used started
  obtain ⟨-, -, message', current'⟩ := beginContext_resident w (slotOf reqId) cmd
  have placed : (w'.reqs (slotOf reqId)).messagePtr = (w.reqs (slotOf reqId)).messagePtr := by
    rcases (sending.remains (slotOf reqId)).place with ⟨-, same⟩ | free
    · exact same.trans message'
    · exact absurd (live.symm.trans free) named
  have core := sending.core (slotOf reqId)
  simp only [Forwarding.core, Prod.mk.injEq] at core
  obtain ⟨-, -, -, mask, -, -, -, stays, ctx⟩ := core
  have number : (w'.reqs (slotOf reqId)).ctx = (w.reqs (slotOf reqId)).ctx.or (some w.nextCtx) := by
    rw [ctx, beginContext_req]
    split <;> rfl
  have bits : (w'.reqs (slotOf reqId)).fwdRepliesMask = 0 ∨ (w.reqs (slotOf reqId)).fwdRepliesLeft ≠ -1 ∧
      (w'.reqs (slotOf reqId)).fwdRepliesMask = (w.reqs (slotOf reqId)).fwdRepliesMask := by
    rw [mask, beginContext_req]
    split
    · exact Or.inl rfl
    · rename_i begun
      exact Or.inr ⟨begun, rfl⟩
  have mem : reqMem w' (slotOf reqId) = reqMem w (slotOf reqId) :=
    (sending.reqMem (beginContext_inUse cmd used)).trans (beginContext_reqMem w _ cmd)
  have ahead := h.ahead.frame placed (stays.trans current') mem
  -- the stop where the request stands is the context that is sent
  obtain ⟨rest, shape⟩ : ∃ rest, stops = (.forwardBegin, destinations (reqMem w (slotOf reqId))
      (messageEnd (reqMem w (slotOf reqId)) m) (some cmd)) :: rest := by
    obtain ⟨m', placed', behind, read⟩ := h.ahead
    rw [message] at placed'
    cases placed'
    rw [current, route_cons (behind cmd current).inBounds, stopAt, begins] at read
    exact ⟨_, read.symm⟩
  refine ⟨live, ahead, h.enclosed, h.apart, fun none => ?_, fun n e => ⟨_, rest, shape, fun kept => ⟨?_, ?_⟩⟩⟩
  · rw [number] at none
    simp at none
  · intro addr tag known
    have apart := h.apart kept
    rw [shape] at apart
    rw [record, List.mem_append] at known
    rcases known with new | old
    · obtain ⟨member, own⟩ := fresh _ new
      refine ⟨fun _ => own.trans (number.symm.trans e), fun stop later => ?_⟩
      exact (List.pairwise_cons.mp apart).1 stop later member
    · cases before : (w.reqs (slotOf reqId)).ctx with
      | none =>
        have untouched := (h.outside before kept).2 addr tag old
        rw [shape] at untouched
        exact ⟨fun member => absurd member (untouched _ List.mem_cons_self),
          fun stop later => untouched stop (List.mem_cons_of_mem _ later)⟩
      | some n' =>
        obtain ⟨dests, rest', same, own⟩ := h.inside n' before
        rw [shape] at same
        cases same
        rw [number, before] at e
        cases e
        exact (own kept).sent addr tag old
  · -- a bit that is set has been set in this context before
    intro i small set
    rcases bits with clear | ⟨begun, same⟩
    · rw [acked_cleared clear] at set
      cases set
    · rw [same] at set
      cases before : (w.reqs (slotOf reqId)).ctx with
      | none =>
        rcases (h.outside before kept).1 with unbegun | clear
        · exact absurd unbegun begun
        · rw [acked_cleared clear] at set
          cases set
      | some n' =>
        obtain ⟨dests, rest', same, own⟩ := h.inside n' before
        rw [shape] at same
        cases same
        rw [number, before] at e
        cases e
        obtain ⟨j, addr, is, there, sent⟩ := (own kept).counted i small set
        exact ⟨j, addr, is, there, by rw [record]; exact List.mem_append_right _ sent⟩

/-- As long as the request lives, it is traced. -/
def Follows (accounts : Prop) (reqId : Nat) (w : State) : Prop :=
  (w.reqs (slotOf reqId)).messagePtr ≠ none → (w.reqs (slotOf reqId)).reqId = reqId →
    ∃ stops, Traced accounts reqId w stops

theorem follows_of_gone (gone : (w.reqs (slotOf reqId)).messagePtr = none) : Follows accounts reqId w :=
  fun live => absurd gone live

/-! ## Execution -/

theorem Traced.emit (h : Traced accounts reqId w stops) {e : Effect} (quiet : forwards (w.emit e) = forwards w) :
    Traced accounts reqId (w.emit e) stops := h.frame rfl rfl quiet

/-- The request moves on to `cmd`, where a part of what lay ahead begins. -/
theorem Traced.setCurrCmd (h : Traced accounts reqId w stops) {m : Nat}
    (message : (w.reqs (slotOf reqId)).messagePtr = some m) {cmd : Option Nat}
    (behind : ∀ c, cmd = some c → Stands (messageFirstCmd m) (messageEnd (reqMem w (slotOf reqId)) m)
      (reqMem w (slotOf reqId)) c)
    (part_of : route (reqMem w (slotOf reqId)) (messageEnd (reqMem w (slotOf reqId)) m) cmd <:+ stops)
    (stays : (w.reqs (slotOf reqId)).ctx ≠ none → cmd = (w.reqs (slotOf reqId)).currCmd) :
    ∃ part, Traced accounts reqId (setCurrCmd w (slotOf reqId) cmd) part := by
  have here : (Node.setCurrCmd w (slotOf reqId) cmd).reqs (slotOf reqId) =
      { w.reqs (slotOf reqId) with currCmd := cmd } := setReq_self w _ _
  have mem : reqMem (Node.setCurrCmd w (slotOf reqId) cmd) (slotOf reqId) = reqMem w (slotOf reqId) := by
    rw [reqMem, here]
    rfl
  by_cases busy : (w.reqs (slotOf reqId)).ctx = none
  · refine ⟨_, h.onward part_of (fun some => absurd busy some) ?_ ⟨m, ?_, ?_, ?_⟩ ?_ ?_ rfl⟩
    · rw [here]
      exact h.live
    · rw [here]
      exact message
    · rw [here, mem]
      exact behind
    · rw [here, mem]
    · rw [here]
      exact busy
    · rw [here]
      exact fun kept => (h.outside busy kept).1
  · rw [setCurrCmd_same (stays busy).symm]
    exact ⟨stops, h⟩

end Traced

/-- The loop of `process_single_message` at `cmd`, with a part of what lies ahead
of the request still to come. -/
theorem Traced.processFrom {accounts : Prop} {reqId : Nat} {w w' : State} {stops : List Stop} (named : reqId ≠ noReq)
    (h : Traced accounts reqId w stops) (used : InUse w (slotOf reqId)) {mem : Mem} {m fuel : Nat}
    (read : reqMem w (slotOf reqId) = mem) (message : (w.reqs (slotOf reqId)).messagePtr = some m)
    {cmd : Option Nat} (behind : ∀ c, cmd = some c → Stands (messageFirstCmd m) (messageEnd mem m) mem c)
    (part_of : route mem (messageEnd mem m) cmd <:+ stops)
    (stays : (w.reqs (slotOf reqId)).ctx ≠ none → cmd = (w.reqs (slotOf reqId)).currCmd)
    {ret : Int} (ran : processFrom mem (slotOf reqId) m fuel w cmd = .ok (w', ret)) :
    Follows accounts reqId w' := by
  induction fuel generalizing w cmd with
  | zero =>
    cases ran
    exact fun _ _ => ⟨stops, h⟩
  | succ fuel ih =>
    cases cmd with
    | none =>
      cases ran
      exact fun _ _ => ⟨stops, h⟩
    | some cmd =>
      have outside : cmdAt mem cmd ≠ .forwardBegin → (w.reqs (slotOf reqId)).ctx = none := by
        intro other
        by_contra busy
        have begins := h.begins busy (stays busy).symm
        rw [read] at begins
        exact other begins
      have further : ∀ c, cmdBoundedSkip mem (some cmd) 1 (messageEnd mem m) = some c →
          Stands (messageFirstCmd m) (messageEnd mem m) mem c := fun c e => (behind cmd rfl).skip e
      have rest : route mem (messageEnd mem m) (cmdBoundedSkip mem (some cmd) 1 (messageEnd mem m)) <:+
          stops := by
        refine List.IsSuffix.trans ?_ part_of
        rw [route_cons (behind cmd rfl).inBounds]
        exact List.suffix_cons _ _
      revert ran
      simp only [Node.processFrom]
      cases type : cmdAt mem cmd with
      | eom =>
        intro ran
        cases ran
        exact fun _ _ => ⟨stops, h⟩
      | compute =>
        exact fun ran => ih (h.emit rfl) used read message further rest
          (fun busy => absurd (outside (by simp [type])) busy) ran
      | forwardBegin =>
        intro ran _ live
        subst read
        obtain ⟨part, moved⟩ := h.setCurrCmd message behind part_of stays
        have here : (Node.setCurrCmd w (slotOf reqId) (some cmd)).reqs (slotOf reqId) =
            { w.reqs (slotOf reqId) with currCmd := some cmd } := setReq_self w _ _
        obtain ⟨s, started, e⟩ := map_eq_ok.mp ran
        cases e
        refine ⟨part, moved.startForward named ?_ ?_ ?_ ?_ started live⟩
        · rw [InUse, here]
          exact used
        · rw [here]
          exact message
        · rw [here]
        · rw [reqMem, here]
          exact type
      | forwardContinue =>
        refine absurd ?_ (h.enclosed (stopAt mem (messageEnd mem m) cmd) (part_of.subset ?_))
        · exact type
        · rw [route_cons (behind cmd rfl).inBounds]
          exact List.mem_cons_self
      | reply => exact fun ran => follows_of_gone (processReply_gone ran)
      | store =>
        intro ran
        simp only at ran
        split at ran
        · cases ran
          exact fun _ _ => ⟨stops, h⟩
        · split at ran
          · exact ih (h.emit rfl) used read message further rest
              (fun busy => absurd (outside (by simp [type])) busy) ran
          · cases ran
            subst read
            rw [cmdBoundedSkip_plain (Or.inl type)] at further rest
            exact fun _ _ => (h.emit rfl).setCurrCmd message further rest
              (fun busy => absurd (outside (by simp [type])) busy)
      | load =>
        intro ran
        simp only at ran
        split at ran
        · cases ran
          exact fun _ _ => ⟨stops, h⟩
        · cases ran
          subst read
          rw [cmdBoundedSkip_plain (Or.inr type)] at further rest
          exact fun _ _ => (h.emit rfl).setCurrCmd message further rest
            (fun busy => absurd (outside (by simp [type])) busy)
      | pskip =>
        intro ran
        cases ran
        exact fun _ _ => ⟨stops, h⟩
      | unknown code =>
        intro ran
        cases ran
        exact fun _ _ => ⟨stops, h⟩

theorem Traced.processMessages {accounts : Prop} {reqId : Nat} {w w' : State} {stops : List Stop}
    (named : reqId ≠ noReq) (h : Traced accounts reqId w stops) (sound : Sound w) {ret : Int}
    (ran : processMessages w (slotOf reqId) = .ok (w', ret)) : Follows accounts reqId w' := by
  have used := h.inUse sound
  obtain ⟨m, message, behind, read⟩ := h.ahead
  simp only [Node.processMessages, processSingleMessage, message] at ran
  exact h.processFrom named used rfl message behind (by rw [read]) (fun _ => rfl) ran

/-! ## Replies and expirations -/

section Events

variable {accounts : Prop} {reqId : Nat} {w w' : State} {stops : List Stop}

/-- A reply that is found answers the context that the request is in. -/
theorem Traced.found (h : Traced accounts reqId w stops) (kept : accounts)
    (standing : AtForward w (slotOf reqId)) {m : Nat}
    (message : (w.reqs (slotOf reqId)).messagePtr = some m) {addr : Addr} {tag : Option Nat}
    (sent : (reqId, addr, tag) ∈ forwards w) {id : Nat}
    (found : findForwardReplyId (reqMem w (slotOf reqId)) (w.reqs (slotOf reqId)).currCmd addr
      (messageEnd (reqMem w (slotOf reqId)) m) = .ok (some id)) :
    ∃ number dests rest, (w.reqs (slotOf reqId)).ctx = some number ∧
      stops = (.forwardBegin, dests) :: rest ∧ dests[id]? = some addr ∧ tag = some number := by
  obtain ⟨m', placed, behind, read⟩ := h.ahead
  rw [message] at placed
  cases placed
  cases current : (w.reqs (slotOf reqId)).currCmd with
  | none =>
    rw [current] at found
    cases found
  | some cmd =>
    have forward := standing cmd current
    rw [current, findForwardReplyId_eq addr forward] at found
    have here : (stopAt (reqMem w (slotOf reqId)) (messageEnd (reqMem w (slotOf reqId)) m) cmd).2 =
        destinations (reqMem w (slotOf reqId)) (messageEnd (reqMem w (slotOf reqId)) m) (some cmd) :=
      if_pos forward
    rw [← here] at found
    rw [current, route_cons (behind cmd current).inBounds] at read
    generalize stopAt (reqMem w (slotOf reqId)) (messageEnd (reqMem w (slotOf reqId)) m) cmd = stop at found read
    have member : addr ∈ stop.2 := by
      by_contra other
      rw [if_neg other] at found
      cases found
    rw [if_pos member] at found
    cases found
    cases ctx : (w.reqs (slotOf reqId)).ctx with
    | none =>
      refine absurd member ((h.outside ctx kept).2 addr tag sent stop ?_)
      rw [← read]
      exact List.mem_cons_self
    | some number =>
      obtain ⟨dests, rest, shape, own⟩ := h.inside number ctx
      rw [shape, List.cons.injEq] at read
      rw [read.1] at member ⊢
      exact ⟨number, dests, rest, rfl, shape, List.getElem?_idxOf member, ((own kept).sent addr tag sent).1 member⟩

/-- The request leaves the stop where it stands, with the status of its message
written. -/
theorem Traced.leave (h : Traced accounts reqId w stops) {m status : Nat}
    (message : (w.reqs (slotOf reqId)).messagePtr = some m) {toSkip : Int} (positive : 0 < toSkip)
    (place : occupied (w'.reqs (slotOf reqId)) =
      (reqId, some m, cmdBoundedSkip (reqMem w (slotOf reqId)) (w.reqs (slotOf reqId)).currCmd toSkip
        (messageEnd (reqMem w (slotOf reqId)) m), none))
    (cleared : accounts → Uncounted (w'.reqs (slotOf reqId)))
    (mem : reqMem w' (slotOf reqId) = setStatus (reqMem w (slotOf reqId)) m status)
    (sent : forwards w' = forwards w) : ∃ part, Traced accounts reqId w' part := by
  simp only [occupied, Prod.mk.injEq] at place
  obtain ⟨live, placed, current, ctx⟩ := place
  obtain ⟨m', message', behind, read⟩ := h.ahead
  rw [message] at message'
  cases message'
  have end_ : messageEnd (reqMem w' (slotOf reqId)) m = messageEnd (reqMem w (slotOf reqId)) m := by
    rw [mem, messageEnd_setStatus]
  have agree : Agree (messageFirstCmd m) (reqMem w (slotOf reqId)) (reqMem w' (slotOf reqId)) :=
    fun i low => by rw [mem]; exact (agree_setStatus _ m status i low).symm
  have further : ∀ c, (w'.reqs (slotOf reqId)).currCmd = some c →
      Stands (messageFirstCmd m) (messageEnd (reqMem w (slotOf reqId)) m) (reqMem w (slotOf reqId)) c := by
    intro c e
    rw [current] at e
    cases before : (w.reqs (slotOf reqId)).currCmd with
    | none =>
      rw [before] at e
      cases e
    | some cmd =>
      rw [before] at e
      exact stands_of_inBounds ((behind cmd before).start.trans (cmdBoundedSkip_le e)) (cmdBoundedSkip_inBounds e)
  have behind' : route (reqMem w (slotOf reqId)) (messageEnd (reqMem w (slotOf reqId)) m)
      (w'.reqs (slotOf reqId)).currCmd <:+ stops.tail := by
    rw [current, ← read]
    cases before : (w.reqs (slotOf reqId)).currCmd with
    | none => exact List.nil_suffix
    | some cmd => exact route_skip_behind (behind cmd before).inBounds positive
  have part_of := behind'.trans (List.tail_suffix stops)
  have within : Within (messageFirstCmd m) (messageEnd (reqMem w (slotOf reqId)) m) (reqMem w (slotOf reqId))
      (reqMem w' (slotOf reqId)) := fun i low _ => agree i low
  refine ⟨_, h.onward part_of (fun _ => behind') live ⟨m, placed, fun c e => ?_, ?_⟩ ctx cleared sent⟩
  · rw [end_]
    exact Within.stands within (further c e)
  · rw [end_]
    exact (portable_stopAt.same within fun c e => (further c e).start).symm

theorem Traced.completeContext (h : Traced accounts reqId w stops) {m : Nat}
    (message : (w.reqs (slotOf reqId)).messagePtr = some m) (status : Nat) :
    ∃ part, Traced accounts reqId (completeContext w (slotOf reqId) m status) part := by
  have here : (Node.completeContext w (slotOf reqId) m status).reqs (slotOf reqId) =
      { w.reqs (slotOf reqId) with
        currCmd := cmdBoundedSkip (reqMem (setMsgStatus w (slotOf reqId) m status) (slotOf reqId))
          (w.reqs (slotOf reqId)).currCmd 1
          (messageEnd (reqMem (setMsgStatus w (slotOf reqId) m status) (slotOf reqId)) m)
        fwdRepliesMask := 0
        fwdRepliesLeft := -1
        fwdTimeout := 0
        fwdRetries := 0
        ctx := none } := setReq_self _ _ _
  have mem : reqMem (Node.completeContext w (slotOf reqId) m status) (slotOf reqId) =
      setStatus (reqMem w (slotOf reqId)) m status := by
    rw [← reqMem_setMsgStatus, reqMem, here]
    rfl
  refine h.leave message (by decide : (0 : Int) < 1) ?_ (fun _ => ?_) mem rfl
  rotate_left
  · rw [here]
    exact Or.inl rfl
  obtain ⟨m', message', behind, -⟩ := h.ahead
  rw [message] at message'
  cases message'
  simp only [occupied, here, h.live, message, reqMem_setMsgStatus, messageEnd_setStatus]
  cases current : (w.reqs (slotOf reqId)).currCmd with
  | none => rfl
  | some cmd => rw [(agree_setStatus _ m status).cmdBoundedSkip (behind cmd current).start]

theorem Traced.skipOnFailure (h : Traced accounts reqId w stops) {m : Nat}
    (message : (w.reqs (slotOf reqId)).messagePtr = some m)
    (positive : 0 < (w.reqs (slotOf reqId)).fwdOnFailSkip)
    (uncounted : accounts → (w.reqs (slotOf reqId)).fwdRepliesMask = 0) :
    ∃ part, Traced accounts reqId (skipOnFailure w (slotOf reqId) m) part := by
  have here : (Node.skipOnFailure w (slotOf reqId) m).reqs (slotOf reqId) =
      { w.reqs (slotOf reqId) with
        currCmd := cmdBoundedSkip (reqMem w (slotOf reqId)) (w.reqs (slotOf reqId)).currCmd
          (w.reqs (slotOf reqId)).fwdOnFailSkip (messageEnd (reqMem w (slotOf reqId)) m)
        ctx := none } := setReq_self w _ _
  refine h.leave message positive ?_ (fun kept => ?_) (?_ : _ = setStatus _ m statusTimeout) rfl
  · simp only [occupied, here, h.live, message]
  · rw [here]
    exact Or.inr (uncounted kept)
  · rw [Node.skipOnFailure, reqMem_setMsgStatus, reqMem, setReq_self]
    rfl

theorem Traced.retimed (h : Traced accounts reqId w stops) (timed : Retimed w w') : Traced accounts reqId w' stops := by
  obtain ⟨node, e⟩ := timed.reqs (slotOf reqId)
  refine h.frame (by rw [e]; rfl) ?_ (Sending.retimed timed).2.2
  rw [reqMem, e, timed.conns]
  rfl

/-- A reply that is counted; the last one resumes the request. -/
theorem Traced.answered (h : Traced accounts reqId w stops) (named : reqId ≠ noReq) (sound : Sound w)
    {m id status : Nat} (message : (w.reqs (slotOf reqId)).messagePtr = some m)
    (answers : accounts → ∃ number dests rest addr, (w.reqs (slotOf reqId)).ctx = some number ∧
      stops = (.forwardBegin, dests) :: rest ∧ dests[id]? = some addr ∧ (reqId, addr, some number) ∈ forwards w)
    {ret : Int}
    (handled : (if (w.reqs (slotOf reqId)).fwdRepliesLeft - 1 ≤ 0 then
        resumeAfterContext (countReply w (slotOf reqId) id) reqId (slotOf reqId) m status
      else .ok (countReply w (slotOf reqId) id, -1)) = .ok (w', ret)) : Follows accounts reqId w' := by
  have here : (countReply w (slotOf reqId) id).reqs (slotOf reqId) = { w.reqs (slotOf reqId) with
      fwdRepliesMask := (w.reqs (slotOf reqId)).fwdRepliesMask ||| ackBit id
      fwdRepliesLeft := (w.reqs (slotOf reqId)).fwdRepliesLeft - 1 } := setReq_self w _ _
  have after : Traced accounts reqId (countReply w (slotOf reqId) id) stops := by
    have mem : reqMem (countReply w (slotOf reqId) id) (slotOf reqId) = reqMem w (slotOf reqId) := by
      rw [reqMem, here]
      rfl
    refine ⟨by rw [here]; exact h.live, h.ahead.frame (by rw [here]) (by rw [here]) mem, h.enclosed, h.apart, ?_, ?_⟩
    · rw [here]
      intro none kept
      obtain ⟨number, -, -, -, ctx, -⟩ := answers kept
      rw [none] at ctx
      cases ctx
    · rw [here]
      intro number e
      obtain ⟨dests, rest, shape, own⟩ := h.inside number e
      refine ⟨dests, rest, shape, fun kept => ⟨(own kept).sent, fun i small set => ?_⟩⟩
      rw [here] at set
      rcases acked_or small set with old | rfl
      · exact (own kept).counted i small old
      · obtain ⟨number', dests', rest', addr, ctx, shape', at_, sent⟩ := answers kept
        rw [e] at ctx
        rw [shape] at shape'
        cases ctx
        cases shape'
        exact ⟨id, addr, rfl, at_, sent⟩
  split at handled
  · rename_i last
    obtain ⟨part, completed⟩ := after.completeContext (by rw [here]; exact message) status
    simp only [resumeAfterContext] at handled
    split at handled
    · cases handled
    · rename_i w₁ left removed
      have counted : Sound (countReply w (slotOf reqId) id) := course_sound.still (still_countReply w _ id) sound
      have told := course_sound.completeContext status (by rw [here]; exact message) counted
      exact (completed.retimed (removeTimeout_retimed removed)).processMessages named
        (course_sound.still (still_removeTimeout removed) told) handled
  · cases handled
    exact fun _ _ => ⟨stops, after⟩

/-- A reply to the request; if the accounts are kept, it finds the request at a
FORWARD and answers one of its messages. -/
theorem Follows.reply (h : Follows accounts reqId w) (named : reqId ≠ noReq) (sound : Sound w)
    {slot : Nat} (found : reqGetById w reqId = some slot) {addr : Addr} {status : Nat} {ret : Int}
    (answers : accounts → AtForward w (slotOf reqId) ∧ ∃ tag, (reqId, addr, tag) ∈ forwards w)
    (handled : handleForwardReply w reqId status addr = .ok (w', ret)) : Follows accounts reqId w' := by
  obtain ⟨rfl, live⟩ := reqGetById_eq_some.mp found
  cases message : (w.reqs (slotOf reqId)).messagePtr with
  | none =>
    simp only [handleForwardReply, found, message] at handled
    cases handled
  | some m =>
    obtain ⟨stops, traced⟩ := h (by rw [message]; exact Option.some_ne_none m) live
    cases search : findForwardReplyId (reqMem w (slotOf reqId)) (w.reqs (slotOf reqId)).currCmd addr
        (messageEnd (reqMem w (slotOf reqId)) m) with
    | error e =>
      simp only [handleForwardReply, found, message, search] at handled
      cases handled
    | ok at_ =>
      cases at_ with
      | none =>
        simp only [handleForwardReply, found, message, search] at handled
        cases handled
        exact h
      | some id =>
        simp only [handleForwardReply, found, message, search] at handled
        split at handled
        · cases handled
          exact h
        · have left : ((countReply w (slotOf reqId) id).reqs (slotOf reqId)).fwdRepliesLeft =
              (w.reqs (slotOf reqId)).fwdRepliesLeft - 1 := by rw [countReply, setReq_self]
          rw [left] at handled
          refine traced.answered named sound message (fun kept => ?_) handled
          obtain ⟨standing, tag, sent⟩ := answers kept
          obtain ⟨number, dests, rest, ctx, shape, at_, own⟩ := traced.found kept standing message sent search
          exact ⟨number, dests, rest, addr, ctx, shape, at_, own ▸ sent⟩

/-- The timeout of the request expires; if the accounts are kept, no context that
has counted a reply is skipped. -/
theorem Follows.expire (h : Follows accounts reqId w) (named : reqId ≠ noReq) (sound : Sound w) {top slot : Nat}
    (due : pqueueTop w.timeoutQueue = some top) (data : (w.timeoutQueue.nodes top).data = reqId)
    (found : reqGetById w reqId = some slot)
    (uncounted : accounts → (w.reqs (slotOf reqId)).fwdRetries ≤ 0 → 0 < (w.reqs (slotOf reqId)).fwdOnFailSkip →
      (w.reqs (slotOf reqId)).fwdRepliesMask = 0)
    (handled : handleTimeout w = .ok w') : Follows accounts reqId w' := by
  obtain ⟨rfl, live⟩ := reqGetById_eq_some.mp found
  simp only [handleTimeout, due, data, found] at handled
  split at handled
  · cases handled
  · rename_i w₁ left removed
    have timed := still_removeTimeout removed
    have sound₁ := course_sound.still timed sound
    obtain ⟨node, kept₁⟩ := (removeTimeout_retimed removed).reqs (slotOf reqId)
    have placed := expireRequest_placed handled
    obtain ⟨stops, traced⟩ := h (by rwa [← (place_eq (timed.reqs _)).2.1]) live
    have traced₁ := traced.retimed (removeTimeout_retimed removed)
    obtain ⟨m, message, -, -⟩ := traced₁.ahead
    simp only [expireRequest] at handled
    split at handled
    · obtain ⟨⟨w₂, ret⟩, processed, rfl⟩ := map_eq_ok.mp handled
      have here : (useRetry w₁ (slotOf reqId)).reqs (slotOf reqId) =
          { w₁.reqs (slotOf reqId) with
            fwdRetries := (w₁.reqs (slotOf reqId)).fwdRetries - 1 } := setReq_self w₁ _ _
      have retried : Traced accounts reqId (useRetry w₁ (slotOf reqId)) stops := by
        refine traced₁.frame (by rw [here]; rfl) ?_ rfl
        rw [reqMem, here]
        rfl
      exact retried.processMessages named (course_sound.still (still_setReq w₁ _ rfl rfl) sound₁) processed
    · rename_i spent
      simp only [message] at handled
      split at handled
      · rename_i skips
        obtain ⟨⟨w₂, ret⟩, processed, rfl⟩ := map_eq_ok.mp handled
        have clear : accounts → (w₁.reqs (slotOf reqId)).fwdRepliesMask = 0 := by
          rw [kept₁] at spent skips ⊢
          exact fun kept => uncounted kept (not_lt.mp spent) skips
        obtain ⟨part, skipped⟩ := traced₁.skipOnFailure message skips clear
        exact skipped.processMessages named (course_sound.skipOnFailure message sound₁) processed
      · cases handled
        exact follows_of_gone (reqUnlink_messagePtr _ _)

end Events

/-! ## Everything else -/

/-- The worker does something that leaves the request alone or ends it. Its
message may move, and nothing is sent for it or counted. -/
structure LeavesAlone (reqId : Nat) (w w' : State) : Prop where
  carried : (w'.reqs (slotOf reqId)).messagePtr ≠ none → (w'.reqs (slotOf reqId)).reqId = reqId →
    Carried w w' (slotOf reqId)
  forwarded : ∀ addr tag, (reqId, addr, tag) ∈ forwards w' ↔ (reqId, addr, tag) ∈ forwards w

/-- What lies ahead of a request goes where its message goes. -/
theorem Ahead.carried {w w' : State} {x : Nat} {stops : List Stop} (h : Ahead w x stops) (laid : Laid w)
    (carried : Carried w w' x) : Ahead w' x stops := by
  obtain ⟨m, placed, behind, read⟩ := h
  obtain ⟨m', placed', stays⟩ := carried.stays
  rw [placed] at placed'
  cases placed'
  have large := (Laid.apart laid placed placed rfl).1
  obtain ⟨q, q', here, there, cmd, bytes⟩ := stays.moved
  rw [placed] at here
  cases here
  obtain ⟨p, at_, size⟩ := stays_size stays there large
  rw [placed] at at_
  cases at_
  have end_ : messageEnd (reqMem w' x) q' = q' + reqSizeOf (reqMem w x) m := by rw [messageEnd, size]
  refine ⟨q', there, fun c e => ?_, ?_⟩
  · rw [cmd] at e
    obtain ⟨d, current, rfl⟩ := Option.map_eq_some_iff.mp e
    obtain ⟨start, fits⟩ := behind d current
    simp only [messageFirstCmd, messageEnd] at start fits ⊢
    have type : cmdAt (reqMem w' x) (q' + (d - m)) = cmdAt (reqMem w x) d := by
      have small := four_le_cmdTypeSize (cmdAt (reqMem w x) d)
      refine congrArg CommandType.ofCode (u32_congr fun i less => ?_)
      rw [Nat.add_assoc, bytes (d - m + i) (by omega)]
      congr 1
      omega
    rw [size]
    refine ⟨by omega, ?_⟩
    rw [type]
    omega
  · rw [end_, cmd, route, portable_stopAt.moved bytes fun c e => ?_]
    · exact read
    · have start := (behind c e).start
      simp only [messageFirstCmd] at start
      omega

theorem Follows.passes {accounts : Prop} {reqId : Nat} {w w' : State} (h : Follows accounts reqId w) (laid : Laid w)
    (other : LeavesAlone reqId w w') : Follows accounts reqId w' := by
  intro there live
  have carried := other.carried there live
  obtain ⟨m, placed, stays⟩ := carried.stays
  have kept := stays.kept
  simp only [record, Prod.mk.injEq] at kept
  obtain ⟨id, -, -, left, mask, -, -, -, ctx⟩ := kept
  obtain ⟨stops, traced⟩ := h (by rw [placed]; exact Option.some_ne_none m) (id.symm.trans live)
  refine ⟨stops, live, traced.ahead.carried laid carried, traced.enclosed, traced.apart, fun none kept => ?_,
    fun number e => ?_⟩
  · obtain ⟨uncounted, untouched⟩ := traced.outside (ctx.symm.trans none) kept
    refine ⟨?_, fun addr tag sent => untouched addr tag ((other.forwarded addr tag).mp sent)⟩
    rw [Uncounted, left, mask]
    exact uncounted
  · obtain ⟨dests, rest, shape, own⟩ := traced.inside number (ctx.symm.trans e)
    refine ⟨dests, rest, shape, fun kept => ⟨fun addr tag sent => ?_, fun i small set => ?_⟩⟩
    · exact (own kept).sent addr tag ((other.forwarded addr tag).mp sent)
    · rw [mask] at set
      obtain ⟨j, addr, is, at_, sent⟩ := (own kept).counted i small set
      exact ⟨j, addr, is, at_, (other.forwarded addr _).mpr sent⟩

/-! ## Replies to a request -/

/-- The destinations of the FORWARD at which the request stands. -/
def currentDests (w : State) (slot : Nat) : List Addr :=
  match (w.reqs slot).messagePtr with
  | none => []
  | some m => destinations (reqMem w slot) (messageEnd (reqMem w slot) m) (w.reqs slot).currCmd

/-- A FORWARD context of the request is in progress, or the request stands nowhere or
at a FORWARD that does not go to `addr`. -/
def Expected (w : State) (slot : Nat) (addr : Addr) : Prop :=
  (w.reqs slot).ctx ≠ none ∨ (AtForward w slot ∧ addr ∉ currentDests w slot)

/-- A reply to a message of the request is dropped, or the message was sent for the
context that the request is in; and each bit that is set stands for a destination
that a message was sent to for this context. -/
structure NothingStale (reqId : Nat) (w : State) : Prop where
  coming : ∀ status addr tag, (reqId, addr, tag) ∈ forwards w →
    Dropped w reqId status addr ∨ (tag = (w.reqs (slotOf reqId)).ctx ∧ tag ≠ none)
  outside : (w.reqs (slotOf reqId)).reqId = reqId → (w.reqs (slotOf reqId)).ctx = none →
    Uncounted (w.reqs (slotOf reqId))
  counted : (w.reqs (slotOf reqId)).reqId = reqId → ∀ number, (w.reqs (slotOf reqId)).ctx = some number →
    ∀ i, i < 32 → acked (w.reqs (slotOf reqId)).fwdRepliesMask i = true →
      ∃ j addr, j % 32 = i ∧ (currentDests w (slotOf reqId))[j]? = some addr ∧
        (reqId, addr, some number) ∈ forwards w

section Replies

variable {accounts : Prop} {reqId : Nat} {w : State} {stops : List Stop}

/-- A request in a context has the destinations of the FORWARD_BEGIN ahead of it. -/
theorem Traced.currentDests (h : Traced accounts reqId w stops) {dests : List Addr} {rest : List Stop}
    (shape : stops = (.forwardBegin, dests) :: rest) : currentDests w (slotOf reqId) = dests := by
  obtain ⟨m, message, behind, read⟩ := h.ahead
  cases current : (w.reqs (slotOf reqId)).currCmd with
  | none =>
    rw [current, shape] at read
    cases read
  | some cmd =>
    rw [current, route_cons (behind cmd current).inBounds, shape, List.cons.injEq, stopAt, Prod.mk.injEq] at read
    obtain ⟨⟨type, own⟩, -⟩ := read
    rw [type] at own
    simp only [StaleReply.currentDests, message, current]
    exact own

/-- A reply that is expected does no harm. -/
theorem Traced.harmless (h : Traced accounts reqId w stops) {addr : Addr}
    (expected : Expected w (slotOf reqId) addr) (status : Nat) : Harmless w (slotOf reqId) reqId status addr := by
  have found := reqGetById_eq_some.mpr ⟨rfl, h.live⟩
  obtain ⟨m, message, -, -⟩ := h.ahead
  rcases expected with busy | ⟨standing, elsewhere⟩
  · have standing : AtForward w (slotOf reqId) := fun cmd current => by
      rw [h.begins busy current]
      rfl
    obtain ⟨legal, dropped | counted⟩ := handled_at_forward found message standing status addr
    · exact ⟨m, message, legal, Or.inl dropped⟩
    · exact ⟨m, message, legal, Or.inr ⟨busy, counted⟩⟩
  · obtain ⟨legal, -⟩ := handled_at_forward found message standing status addr
    refine ⟨m, message, legal, Or.inl ?_⟩
    have missed : findForwardReplyId (reqMem w (slotOf reqId)) (w.reqs (slotOf reqId)).currCmd addr
        (messageEnd (reqMem w (slotOf reqId)) m) = .ok none := by
      simp only [StaleReply.currentDests, message] at elsewhere
      cases current : (w.reqs (slotOf reqId)).currCmd with
      | none => rfl
      | some cmd =>
        rw [current] at elsewhere
        rw [findForwardReplyId_eq addr (standing cmd current), if_neg elsewhere]
    simp only [Dropped, handleForwardReply, found, message, missed]

end Replies

end StaleReply
