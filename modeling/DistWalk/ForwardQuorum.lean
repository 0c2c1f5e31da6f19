import DistWalk.Quorum
import DistWalk.ForwardContext

/-!
# Quorum and retries of a FORWARD context

A context that has been started collects the replies of its destinations. The
bits of `fwd_replies_mask`, `fwd_replies_left` and `fwd_retries` are the tally of
the replies and expirations so far, whatever their order; a retry goes to the
destinations whose bit is clear, provided that the log of the branches that are
passed over can be printed; the collection ends with the acknowledgement that
completes the quorum or with the expiration after the last retry.
-/

namespace ForwardQuorum

open ByteMemory Message Connection PriorityQueue Worker Timeout Node Transitions Requests
  ForwardReply Forwarding ForwardContext TimeoutTable Quorum Wire

/-! ## The mask as a set -/

def setBits (mask : BitVec 32) : Finset Nat := (Finset.range 32).filter fun i => acked mask i = true

theorem acked_eq_getLsbD (mask : BitVec 32) {i : Nat} (h : i < 32) :
    acked mask i = mask.getLsbD i := by
  have bit : ackBit i = BitVec.twoPow 32 i := by
    rw [ackBit, Nat.mod_eq_of_lt h, BitVec.twoPow_eq]
  have nonzero : BitVec.twoPow 32 i ≠ 0 := by
    intro zero
    have set := congrArg (fun x => x.getLsbD i) zero
    simp [h] at set
  rw [acked, bit, BitVec.and_twoPow]
  cases mask.getLsbD i with
  | true => simp only [if_true]; exact decide_eq_true nonzero
  | false => rfl

theorem setBits_zero : setBits 0#32 = ∅ := by
  refine Finset.filter_eq_empty_iff.mpr fun i _ => ?_
  rw [acked_zero]
  exact Bool.false_ne_true

theorem mem_setBits {mask : BitVec 32} {i : Nat} : i ∈ setBits mask ↔ i < 32 ∧ acked mask i = true := by
  simp [setBits]

theorem ackBit_mod (id : Nat) : ackBit (id % 32) = ackBit id := by
  rw [ackBit, ackBit, Nat.mod_mod]

theorem setBits_or {mask : BitVec 32} {id : Nat} (h : id < 32) :
    setBits (mask ||| ackBit id) = insert id (setBits mask) := by
  ext i
  rw [Finset.mem_insert, mem_setBits, mem_setBits]
  by_cases small : i < 32
  · have bit : ackBit id = BitVec.twoPow 32 id := by
      rw [ackBit, Nat.mod_eq_of_lt h, BitVec.twoPow_eq]
    rw [acked_eq_getLsbD _ small, acked_eq_getLsbD _ small, bit, BitVec.getLsbD_or,
      BitVec.getLsbD_twoPow]
    constructor
    · rintro ⟨-, set⟩
      rcases Bool.or_eq_true_iff.mp set with old | new
      · exact Or.inr ⟨small, old⟩
      · simp at new
        exact Or.inl new.2.symm
    · rintro (rfl | ⟨-, old⟩)
      · exact ⟨small, by simp [small]⟩
      · exact ⟨small, by simp [old]⟩
  · constructor
    · exact fun both => absurd both.1 small
    · rintro (rfl | both)
      · exact absurd h small
      · exact absurd both.1 small

/-! ## The destinations of a context -/

def destinations (mem : Mem) (msgEnd : Nat) (cmd : Option Nat) : List Addr :=
  (branches mem msgEnd cmd).map fun branch => (fwdOpts mem branch).fwdAddr

/-- The search finds an address at its position among the destinations. -/
theorem findForwardFrom_eq {mem : Mem} {msgEnd : Nat} (addr : Addr) (fuel : Nat) (cmd : Option Nat)
    (id : Nat) (start : ∀ c, cmd = some c → (cmdAt mem c).isForward = true) :
    let dests := (branchesFrom mem msgEnd fuel cmd).map fun branch => (fwdOpts mem branch).fwdAddr
    findForwardFrom mem addr msgEnd fuel cmd id =
      .ok (if addr ∈ dests then some (id + dests.idxOf addr) else none) := by
  induction fuel generalizing cmd id with
  | zero => rfl
  | succ fuel ih =>
    cases cmd with
    | none => rfl
    | some cmd =>
      obtain ⟨next, e⟩ := cmdBoundedNextForward_ok msgEnd (start cmd rfl)
      have later := ih next (id + 1) fun c hc => cmdBoundedNextForward_isForward (hc ▸ e)
      simp only [findForwardFrom, branchesFrom, e, List.map_cons, List.mem_cons] at later ⊢
      by_cases same : (fwdOpts mem cmd).fwdAddr = addr
      · rw [if_pos same, if_pos (Or.inl same.symm), List.idxOf_cons_eq _ same]
        rfl
      · have other : addr ≠ (fwdOpts mem cmd).fwdAddr := fun e => same e.symm
        rw [if_neg same, later, List.idxOf_cons_ne _ same]
        simp only [other, false_or, Nat.succ_eq_add_one]
        split
        · congr 2
          omega
        · rfl

theorem findForwardReplyId_eq {mem : Mem} {msgEnd cmd : Nat} (addr : Addr)
    (forward : (cmdAt mem cmd).isForward = true) :
    findForwardReplyId mem (some cmd) addr msgEnd =
      .ok (if addr ∈ destinations mem msgEnd (some cmd)
        then some ((destinations mem msgEnd (some cmd)).idxOf addr) else none) := by
  have found := @findForwardFrom_eq mem msgEnd addr (msgEnd + 1) (some cmd) 0
    fun c hc => by cases hc; exact forward
  simpa [findForwardReplyId, destinations, branches] using found

/-! ## A context and its tally -/

/-- A FORWARD context of a request, as its FORWARD_BEGIN asks for it. -/
structure Context where
  reqId : Nat
  number : Nat
  dests : List Addr
  need : Nat
  retries : Nat
  onFailSkip : Nat
  named : reqId ≠ noReq
  distinct : dests.Nodup
  few : dests.length ≤ 31
  needed : 1 ≤ need
  possible : need ≤ dests.length
  skips : 1 ≤ onFailSkip

def Context.slot (K : Context) : Nat := slotOf K.reqId

def Context.config (K : Context) : Config Addr := ⟨K.dests.toFinset, K.need, K.retries⟩

/-- The bits of a set of destinations. -/
def Context.bits (K : Context) (replied : Finset Addr) : Finset Nat := replied.image K.dests.idxOf

/-- The command a request stands at and the destinations read from there. -/
def standing (w : State) (slot : Nat) : Option (CommandType × List Addr) :=
  match (w.reqs slot).messagePtr, (w.reqs slot).currCmd with
  | some m, some cmd =>
    let mem := reqMem w slot
    some (cmdAt mem cmd, destinations mem (messageEnd mem m) (some cmd))
  | _, _ => none

/-- The request is in the context and its fields are the tally. -/
structure Collecting (K : Context) (t : Tally Addr) (w : State) : Prop where
  live : (w.reqs K.slot).reqId = K.reqId
  ctx : (w.reqs K.slot).ctx = some K.number
  stands : standing w K.slot = some (.forwardBegin, K.dests)
  within : t.replied ⊆ K.config.members
  mask : setBits (w.reqs K.slot).fwdRepliesMask = K.bits t.replied
  left : (w.reqs K.slot).fwdRepliesLeft = (K.need : Int) - t.replied.card
  retries : (w.reqs K.slot).fwdRetries = (K.retries : Int) - t.expired
  timeout : 0 < (w.reqs K.slot).fwdTimeout
  onFailSkip : (w.reqs K.slot).fwdOnFailSkip = K.onFailSkip

theorem standing_eq_some {w : State} {slot : Nat} {type : CommandType} {dests : List Addr}
    (h : standing w slot = some (type, dests)) : ∃ m cmd, (w.reqs slot).messagePtr = some m ∧
      (w.reqs slot).currCmd = some cmd ∧ cmdAt (reqMem w slot) cmd = type ∧
      destinations (reqMem w slot) (messageEnd (reqMem w slot) m) (some cmd) = dests := by
  unfold standing at h
  split at h
  · rename_i m cmd message current
    simp only [Option.some.injEq, Prod.mk.injEq] at h
    exact ⟨m, cmd, message, current, h.1, h.2⟩
  · cases h

/-- At a FORWARD_BEGIN a reply is looked up among its destinations. -/
theorem search_standing {w : State} {slot m cmd : Nat} {dests : List Addr}
    (stands : standing w slot = some (.forwardBegin, dests))
    (message : (w.reqs slot).messagePtr = some m) (current : (w.reqs slot).currCmd = some cmd)
    (addr : Addr) :
    findForwardReplyId (reqMem w slot) (w.reqs slot).currCmd addr (messageEnd (reqMem w slot) m) =
      .ok (if addr ∈ dests then some (dests.idxOf addr) else none) := by
  obtain ⟨m', cmd', message', current', begins, read⟩ := standing_eq_some stands
  rw [message] at message'
  cases message'
  rw [current] at current'
  cases current'
  rw [current, findForwardReplyId_eq addr (by rw [begins]; rfl), read]

theorem mem_bits {K : Context} {replied : Finset Addr} (within : replied ⊆ K.config.members)
    (addr : Addr) : K.dests.idxOf addr ∈ K.bits replied ↔ addr ∈ replied := by
  rw [Context.bits, Finset.mem_image]
  constructor
  · rintro ⟨other, answered, same⟩
    have known : other ∈ K.dests := List.mem_toFinset.mp (within answered)
    rwa [← (List.idxOf_inj known).mp same]
  · exact fun answered => ⟨addr, answered, rfl⟩

theorem card_bits {K : Context} {replied : Finset Addr} (within : replied ⊆ K.config.members) :
    (K.bits replied).card = replied.card := by
  refine Finset.card_image_of_injOn fun a answered b _ same => ?_
  exact (List.idxOf_inj (List.mem_toFinset.mp (within answered))).mp same

theorem index_lt {K : Context} {addr : Addr} (member : addr ∈ K.dests) : K.dests.idxOf addr < 32 := by
  have bound := List.idxOf_lt_length_of_mem member
  have few := K.few
  omega

section Collecting

variable {K : Context} {t : Tally Addr} {w : State}

/-- The bit of a destination tells whether it has replied. -/
theorem Collecting.acked_iff (h : Collecting K t w) {addr : Addr} (member : addr ∈ K.dests) :
    acked (w.reqs K.slot).fwdRepliesMask (K.dests.idxOf addr) = true ↔ addr ∈ t.replied := by
  rw [← mem_bits h.within addr, ← h.mask, mem_setBits]
  exact ⟨fun set => ⟨index_lt member, set⟩, fun both => both.2⟩

theorem Collecting.get (h : Collecting K t w) : reqGetById w K.reqId = some K.slot :=
  reqGetById_eq_some.mpr ⟨rfl, h.live⟩

/-- What stays the same, stays collecting. -/
theorem Collecting.frame {w' : State} (h : Collecting K t w)
    (core : core (w'.reqs K.slot) = core (w.reqs K.slot))
    (id : (w'.reqs K.slot).reqId = (w.reqs K.slot).reqId)
    (message : (w'.reqs K.slot).messagePtr = (w.reqs K.slot).messagePtr)
    (mem : reqMem w' K.slot = reqMem w K.slot) : Collecting K t w' := by
  simp only [Forwarding.core, Prod.mk.injEq] at core
  obtain ⟨-, -, left, mask, retries, timeout, onFailSkip, currCmd, ctx⟩ := core
  refine ⟨id.trans h.live, ctx.trans h.ctx, ?_, h.within, by rw [mask]; exact h.mask,
    left.trans h.left, retries.trans h.retries, by rw [timeout]; exact h.timeout,
    onFailSkip.trans h.onFailSkip⟩
  rw [standing, message, currCmd, mem]
  exact h.stands

/-! ## Replies -/

theorem Collecting.search (h : Collecting K t w) {m cmd : Nat}
    (message : (w.reqs K.slot).messagePtr = some m) (current : (w.reqs K.slot).currCmd = some cmd)
    (addr : Addr) :
    findForwardReplyId (reqMem w K.slot) (w.reqs K.slot).currCmd addr
      (messageEnd (reqMem w K.slot) m) =
      .ok (if addr ∈ K.dests then some (K.dests.idxOf addr) else none) :=
  search_standing h.stands message current addr

/-- A reply from outside the context, or a repeated one, changes nothing. -/
theorem Collecting.reply_ignored (h : Collecting K t w) (status : Nat) {addr : Addr}
    (known : addr ∈ K.dests → addr ∈ t.replied) :
    handleForwardReply w K.reqId status addr = .ok (w, -1) := by
  obtain ⟨m, cmd, message, current, -, -⟩ := standing_eq_some h.stands
  simp only [handleForwardReply, h.get, message, h.search message current addr]
  by_cases member : addr ∈ K.dests
  · simp only [member, if_true, (h.acked_iff member).mpr (known member)]
  · simp only [member, if_false]

/-- A first reply is counted. -/
theorem Collecting.reply_counted (h : Collecting K t w) (status : Nat) {addr : Addr}
    (member : addr ∈ K.dests) (first : addr ∉ t.replied) :
    ∃ m, (w.reqs K.slot).messagePtr = some m ∧
      handleForwardReply w K.reqId status addr =
        if (K.need : Int) - t.replied.card - 1 ≤ 0 then
          resumeAfterContext (countReply w K.slot (K.dests.idxOf addr)) K.reqId K.slot m status
        else .ok (countReply w K.slot (K.dests.idxOf addr), -1) := by
  obtain ⟨m, cmd, message, current, -, -⟩ := standing_eq_some h.stands
  have clear : ¬ acked (w.reqs K.slot).fwdRepliesMask (K.dests.idxOf addr) = true :=
    fun set => first ((h.acked_iff member).mp set)
  have left : ((countReply w K.slot (K.dests.idxOf addr)).reqs K.slot).fwdRepliesLeft =
      (K.need : Int) - t.replied.card - 1 := by rw [countReply, setReq_self]; simp only [h.left]
  refine ⟨m, message, ?_⟩
  simp only [handleForwardReply, h.get, message, h.search message current addr, member, if_true,
    clear, left]
  rfl

theorem after_reply_known {addr : Addr} (known : addr ∈ K.dests → addr ∈ t.replied) :
    t.after K.config (.reply addr) = t := by
  simp only [Tally.after]
  split
  · rename_i member
    rw [Finset.insert_eq_self.mpr (known (List.mem_toFinset.mp member))]
  · rfl

theorem after_reply_first {addr : Addr} (member : addr ∈ K.dests) :
    t.after K.config (.reply addr) = { t with replied := insert addr t.replied } := by
  simp only [Tally.after]
  rw [if_pos (show addr ∈ K.config.members from List.mem_toFinset.mpr member)]

/-- The tally after a counted reply. -/
theorem Collecting.counted (h : Collecting K t w) {addr : Addr} (member : addr ∈ K.dests)
    (first : addr ∉ t.replied) :
    Collecting K (t.after K.config (.reply addr)) (countReply w K.slot (K.dests.idxOf addr)) := by
  have here : (countReply w K.slot (K.dests.idxOf addr)).reqs K.slot = { w.reqs K.slot with
      fwdRepliesMask := (w.reqs K.slot).fwdRepliesMask ||| ackBit (K.dests.idxOf addr)
      fwdRepliesLeft := (w.reqs K.slot).fwdRepliesLeft - 1 } := setReq_self w K.slot _
  have mem : reqMem (countReply w K.slot (K.dests.idxOf addr)) K.slot = reqMem w K.slot := by
    rw [reqMem, here]
    rfl
  rw [after_reply_first member]
  refine ⟨?_, ?_, ?_, ?_, ?_, ?_, ?_, ?_, ?_⟩
  · rw [here]
    exact h.live
  · rw [here]
    exact h.ctx
  · rw [standing, here, mem]
    exact h.stands
  · exact Finset.insert_subset (List.mem_toFinset.mpr member) h.within
  · rw [here]
    simp only [setBits_or (index_lt member), h.mask, Context.bits, Finset.image_insert]
  · rw [here]
    simp only [h.left, Finset.card_insert_of_notMem first]
    omega
  · rw [here]
    exact h.retries
  · rw [here]
    exact h.timeout
  · rw [here]
    exact h.onFailSkip

/-- A reply that does not complete the quorum leaves the request waiting. -/
theorem Collecting.reply (h : Collecting K t w) (status : Nat) (addr : Addr)
    (waits : ¬ Ended K.config (t.after K.config (.reply addr))) :
    ∃ w', handleForwardReply w K.reqId status addr = .ok (w', -1) ∧
      Collecting K (t.after K.config (.reply addr)) w' ∧ forwards w' = forwards w := by
  by_cases known : addr ∈ K.dests → addr ∈ t.replied
  · refine ⟨w, h.reply_ignored status known, ?_, rfl⟩
    rw [after_reply_known known]
    exact h
  · obtain ⟨member, first⟩ := Classical.not_imp.mp known
    obtain ⟨m, -, counted⟩ := h.reply_counted status member first
    have more : ¬ (K.need : Int) - t.replied.card - 1 ≤ 0 := by
      intro last
      refine waits (Or.inl ?_)
      rw [after_reply_first member, Finset.card_insert_of_notMem first]
      change K.need ≤ t.replied.card + 1
      omega
    rw [if_neg more] at counted
    exact ⟨_, counted, h.counted member first, rfl⟩

/-- The reply that completes the quorum resumes the request. -/
theorem Collecting.reply_last (h : Collecting K t w) (status : Nat) {addr : Addr}
    (open_ : ¬ Ended K.config t) (ended : Ended K.config (t.after K.config (.reply addr))) :
    ∃ m, (w.reqs K.slot).messagePtr = some m ∧
      handleForwardReply w K.reqId status addr =
        resumeAfterContext (countReply w K.slot (K.dests.idxOf addr)) K.reqId K.slot m status := by
  rcases ending_event K.config open_ ended with ⟨a, e, member, first, last⟩ | ⟨e, -⟩
  · cases e
    obtain ⟨m, message, counted⟩ := h.reply_counted status (List.mem_toFinset.mp member) first
    have enough : (K.need : Int) - t.replied.card - 1 ≤ 0 := by
      have : t.replied.card + 1 = K.need := last
      omega
    rw [if_pos enough] at counted
    exact ⟨m, message, counted⟩
  · cases e

/-! ## Expirations -/

/-- The timeout of the request is the next to expire. -/
def AtHead (w : State) (reqId : Nat) : Prop :=
  ∃ top, pqueueTop w.timeoutQueue = some top ∧ (w.timeoutQueue.nodes top).data = reqId

theorem Collecting.handleTimeout_eq (h : Collecting K t w) (due : AtHead w K.reqId) {w₁ : State}
    {left : Int} (removed : removeTimeout w K.reqId = .ok (w₁, left)) :
    handleTimeout w = expireRequest w₁ K.slot := by
  obtain ⟨top, isTop, data⟩ := due
  simp only [handleTimeout, isTop, data, h.get, removed]

theorem Collecting.removed (h : Collecting K t w) {w₁ : State} {left : Int}
    (removed : removeTimeout w K.reqId = .ok (w₁, left)) : Collecting K t w₁ := by
  have retimed := removeTimeout_retimed removed
  obtain ⟨node, e⟩ := retimed.reqs K.slot
  refine h.frame (by rw [e]; rfl) (by rw [e]) (by rw [e]) ?_
  rw [reqMem, e, retimed.conns]
  rfl

theorem Collecting.waiting (h : Collecting K t w) (open_ : ¬ Ended K.config t) :
    0 < (w.reqs K.slot).fwdRepliesLeft := by
  have few : t.replied.card < K.need := not_le.mp fun enough => open_ (Or.inl enough)
  rw [h.left]
  omega

theorem setCurrCmd_same {w : State} {slot : Nat} {cmd : Option Nat}
    (h : (w.reqs slot).currCmd = cmd) : setCurrCmd w slot cmd = w := by
  subst h
  simp [setCurrCmd, State.setReq]

/-- A context in progress is not begun again. -/
theorem beginContext_running {w : State} {slot cmd number : Nat}
    (running : (w.reqs slot).fwdRepliesLeft ≠ -1) (ctx : (w.reqs slot).ctx = some number) :
    beginContext w slot cmd = w := by
  simp only [beginContext, running, if_false, ctx, State.setReq]
  have same : ({ w.reqs slot with ctx := (some number).or (some w.nextCtx) } : ReqInfo) =
      w.reqs slot := by
    rw [Option.some_or, ← ctx]
  rw [same]
  simp

/-- A retry of a context in progress. -/
theorem Collecting.processMessages_eq (h : Collecting K t w) :
    ∃ m cmd, (w.reqs K.slot).messagePtr = some m ∧ (w.reqs K.slot).currCmd = some cmd ∧
      processMessages w K.slot = processForward w K.slot m cmd := by
  obtain ⟨m, cmd, message, current, begins, -⟩ := standing_eq_some h.stands
  refine ⟨m, cmd, message, current, ?_⟩
  simp only [processMessages, processSingleMessage, message, current, processFrom, begins,
    setCurrCmd_same current]

/-- The branches a retry goes to are the destinations that have not replied. -/
theorem Collecting.unsettled_eq (h : Collecting K t w) (open_ : ¬ Ended K.config t) {m cmd : Nat}
    (message : (w.reqs K.slot).messagePtr = some m) (current : (w.reqs K.slot).currCmd = some cmd) :
    (unsettled (reqMem w K.slot) (w.reqs K.slot) (messageEnd (reqMem w K.slot) m)
      (branches (reqMem w K.slot) (messageEnd (reqMem w K.slot) m) (some cmd))).map
        (forwardOf w K.slot) =
      (K.dests.filter (· ∉ t.replied)).map fun addr => (K.reqId, addr, some K.number) := by
  obtain ⟨m', cmd', message', current', -, dests⟩ := standing_eq_some h.stands
  rw [message] at message'
  cases message'
  rw [current] at current'
  cases current'
  have waiting := h.waiting open_
  have judged : ∀ branch ∈ branches (reqMem w K.slot) (messageEnd (reqMem w K.slot) m) (some cmd),
      (!settled (reqMem w K.slot) (w.reqs K.slot) (messageEnd (reqMem w K.slot) m) branch) =
        decide ((fwdOpts (reqMem w K.slot) branch).fwdAddr ∉ t.replied) := by
    intro branch inside
    have member : (fwdOpts (reqMem w K.slot) branch).fwdAddr ∈ K.dests := by
      rw [← dests]
      exact List.mem_map_of_mem inside
    have running : decide ((w.reqs K.slot).fwdRepliesLeft ≠ -1) = true :=
      decide_eq_true (by omega)
    simp only [settled, h.search message current, member, if_true, running, Bool.true_and]
    by_cases answered : (fwdOpts (reqMem w K.slot) branch).fwdAddr ∈ t.replied
    · simp [(h.acked_iff member).mpr answered, answered]
    · have clear := mt (h.acked_iff member).mp answered
      simp [clear, answered]
  rw [unsettled, List.filter_congr judged, ← dests, destinations, List.filter_map, List.map_map]
  refine List.map_congr_left fun branch _ => ?_
  simp only [forwardOf, h.live, h.ctx, Function.comp]

/-- The messages of a retry of the request go out. -/
def retryGoesOut (w : State) (reqId : Nat) : Bool :=
  match removeTimeout w reqId with
  | .error _ => true
  | .ok (w, _) =>
    let slot := slotOf reqId
    match (w.reqs slot).messagePtr, (w.reqs slot).currCmd with
    | some m, some cmd =>
      allGoOut slot m (messageEnd (reqMem w slot) m + 1) (Transitions.useRetry w slot) (some cmd)
    | _, _ => true

/-! ## The log of an acknowledged branch -/

/-- The types that `cmd_log` prints; it exits on the others. -/
def printable : CommandType → Bool
  | .pskip => false
  | .unknown _ => false
  | _ => true

/-- The commands that `cmd_log` comes to. -/
def logged (mem : Mem) (msgEnd : Nat) : Nat → Option Nat → List Nat
  | 0, _ => []
  | _ + 1, none => []
  | fuel + 1, some cmd =>
    if cmdInBounds mem cmd msgEnd = false ∨ cmdAt mem cmd = .eom then []
    else cmd :: logged mem msgEnd fuel (cmdBoundedNext mem cmd msgEnd)

theorem cmdLog_printable {mem : Mem} {msgEnd fuel : Nat} {cmd : Option Nat}
    (h : ∀ c ∈ logged mem msgEnd fuel cmd, printable (cmdAt mem c) = true) :
    cmdLog mem msgEnd fuel cmd = .ok () := by
  induction fuel generalizing cmd with
  | zero => rfl
  | succ fuel ih =>
    cases cmd with
    | none => rfl
    | some cmd =>
      simp only [logged] at h
      simp only [cmdLog]
      by_cases inside : cmdInBounds mem cmd msgEnd = false
      · simp [inside]
      · simp only [Bool.not_eq_false] at inside
        by_cases last : cmdAt mem cmd = .eom
        · simp [inside, last]
        · rw [if_neg (by simp [inside, last])] at h
          have here := h cmd List.mem_cons_self
          have later := ih fun c hc => h c (List.mem_cons_of_mem cmd hc)
          cases type : cmdAt mem cmd <;> simp_all [printable]

/-- Behind every branch of the context that has replied there are only commands
that `cmd_log` prints: from the next branch on, or from behind the context. -/
def logsReplied (w : State) (slot : Nat) : Bool :=
  match (w.reqs slot).messagePtr, (w.reqs slot).currCmd with
  | some m, some cmd =>
    let mem := reqMem w slot
    let msgEnd := messageEnd mem m
    (branches mem msgEnd (some cmd)).all fun branch =>
      !settled mem (w.reqs slot) msgEnd branch ||
        (logged mem msgEnd (msgEnd + 1) (logStart mem msgEnd (some cmd) branch)).all fun c =>
          printable (cmdAt mem c)
  | _, _ => true

/-- What the log reads of its request. -/
def logView (r : ReqInfo) : Nat × Option Nat × Option Nat × Int × BitVec 32 :=
  (r.connId, r.messagePtr, r.currCmd, r.fwdRepliesLeft, r.fwdRepliesMask)

theorem logsReplied_same {w w' : State} {slot : Nat}
    (view : logView (w'.reqs slot) = logView (w.reqs slot)) (conns : w'.conns = w.conns) :
    logsReplied w' slot = logsReplied w slot := by
  simp only [logView, Prod.mk.injEq] at view
  obtain ⟨connId, message, current, left, mask⟩ := view
  have mem : reqMem w' slot = reqMem w slot := by rw [reqMem, reqMem, conns, connId]
  simp only [logsReplied, message, current, mem, settled, left, mask]

theorem logsReplied_branch {w : State} {slot m cmd branch : Nat} (printed : logsReplied w slot = true)
    (message : (w.reqs slot).messagePtr = some m) (current : (w.reqs slot).currCmd = some cmd)
    (inside : branch ∈ branches (reqMem w slot) (messageEnd (reqMem w slot) m) (some cmd))
    (skipped : settled (reqMem w slot) (w.reqs slot) (messageEnd (reqMem w slot) m) branch = true) :
    cmdLog (reqMem w slot) (messageEnd (reqMem w slot) m) (messageEnd (reqMem w slot) m + 1)
      (logStart (reqMem w slot) (messageEnd (reqMem w slot) m) (some cmd) branch) = .ok () := by
  simp only [logsReplied, message, current, List.all_eq_true, Bool.or_eq_true] at printed
  rcases printed branch inside with clear | prints
  · simp [skipped] at clear
  · exact cmdLog_printable prints

/-! ## Retries -/

theorem Collecting.useRetry (h : Collecting K t w) :
    Collecting K (t.after K.config .expire) (useRetry w K.slot) := by
  have here : (Transitions.useRetry w K.slot).reqs K.slot =
      { w.reqs K.slot with fwdRetries := (w.reqs K.slot).fwdRetries - 1 } := setReq_self w K.slot _
  refine ⟨?_, ?_, ?_, h.within, ?_, ?_, ?_, ?_, ?_⟩
  · rw [here]
    exact h.live
  · rw [here]
    exact h.ctx
  · rw [standing, reqMem, here]
    exact h.stands
  · rw [here]
    exact h.mask
  · rw [here]
    exact h.left
  · rw [here]
    simp only [h.retries, Tally.after]
    omega
  · rw [here]
    exact h.timeout
  · rw [here]
    exact h.onFailSkip

/-- What a retry does: it sends to the destinations that have not replied, and
only the number of retries changes. -/
structure Resent (K : Context) (t : Tally Addr) (w w' : State) : Prop where
  sent : forwards w' =
    ((K.dests.filter (· ∉ t.replied)).map fun addr => (K.reqId, addr, some K.number)).reverse ++
      forwards w
  mask : (w'.reqs K.slot).fwdRepliesMask = (w.reqs K.slot).fwdRepliesMask
  left : (w'.reqs K.slot).fwdRepliesLeft = (w.reqs K.slot).fwdRepliesLeft

/-- The loop of `start_forward` can go through the branches of a context in progress. -/
theorem Collecting.sendable (h : Collecting K t w) (housed : Housed w) {m cmd : Nat}
    (message : (w.reqs K.slot).messagePtr = some m) (current : (w.reqs K.slot).currCmd = some cmd)
    (printed : logsReplied w K.slot = true) :
    Sendable w K.slot m (messageEnd (reqMem w K.slot) m + 1) (some cmd) := by
  obtain ⟨m', cmd', -, current', begins, -⟩ := standing_eq_some h.stands
  rw [current] at current'
  cases current'
  refine ⟨housed K.slot (by rw [h.live]; exact K.named), le_of_lt h.timeout, ?_, ?_, ?_⟩
  · rintro c same
    cases same
    rw [begins]
    rfl
  · rw [current]
    refine fun branch inside => branch_found 0 ?_ inside
    rintro c same
    cases same
    rw [begins]
    rfl
  · intro branch inside skipped
    rw [current]
    exact logsReplied_branch printed message current inside skipped

theorem Collecting.resend (h : Collecting K t w) (open_ : ¬ Ended K.config t) (housed : Housed w)
    {m cmd : Nat} (message : (w.reqs K.slot).messagePtr = some m)
    (current : (w.reqs K.slot).currCmd = some cmd) (printed : logsReplied w K.slot = true)
    (out : allGoOut K.slot m (messageEnd (reqMem w K.slot) m + 1) w (some cmd) = true) :
    ∃ w' sent, startForward w K.slot m cmd = .ok (w', sent) ∧ Collecting K t w' ∧ Resent K t w w' := by
  have sendable := h.sendable housed message current printed
  have waiting := h.waiting open_
  have running : beginContext w K.slot cmd = w := beginContext_running (by omega) h.ctx
  obtain ⟨⟨w', sent, looped⟩, succeeds⟩ := sendBranches_goesOut sendable out
  have started : startForward w K.slot m cmd = .ok (w', sent) := by
    simp only [startForward, running, looped]
  obtain ⟨sending, _, -, whole, record⟩ := startForward_spec sendable.used started
  obtain ⟨slots, rfl⟩ := whole (by rw [forwardSucceeds, running]; exact succeeds)
  rw [running] at sending slots record
  rw [h.unsettled_eq open_ message current] at record
  have core := sending.core K.slot
  refine ⟨w', sent, started,
    h.frame core (slots K.slot).1 (slots K.slot).2 (sending.reqMem sendable.used), record, ?_, ?_⟩
  · simp only [Forwarding.core, Prod.mk.injEq] at core
    exact core.2.2.2.1
  · simp only [Forwarding.core, Prod.mk.injEq] at core
    exact core.2.2.1

/-- An expiration with a retry left. -/
theorem Collecting.retry (h : Collecting K t w) (open_ : ¬ Ended K.config (t.after K.config .expire))
    (housed : Housed w) (slotted : Slotted w) (due : AtHead w K.reqId)
    (out : retryGoesOut w K.reqId = true) (printed : logsReplied w K.slot = true) :
    ∃ w', handleTimeout w = .ok w' ∧ Collecting K (t.after K.config .expire) w' ∧ Resent K t w w' := by
  obtain ⟨w₁, left, removed⟩ := removeTimeout_total slotted K.reqId
  have retimed := removeTimeout_retimed removed
  obtain ⟨node, kept⟩ := retimed.reqs K.slot
  have h₁ := h.removed removed
  have h₂ := h₁.useRetry
  have early : t.expired + 1 ≤ K.retries := not_lt.mp fun late => open_ (Or.inr late)
  have positive : 0 < (w₁.reqs K.slot).fwdRetries := by
    rw [h₁.retries]
    omega
  have here : (Transitions.useRetry w₁ K.slot).reqs K.slot =
      { w₁.reqs K.slot with fwdRetries := (w₁.reqs K.slot).fwdRetries - 1 } :=
    setReq_self w₁ K.slot _
  have housed₂ : Housed (Transitions.useRetry w₁ K.slot) :=
    ((leads_removeTimeout removed).trans (.one (.retry w₁ K.slot))).housed housed
  have printed₂ : logsReplied (Transitions.useRetry w₁ K.slot) K.slot = true := by
    have view : logView ((Transitions.useRetry w₁ K.slot).reqs K.slot) = logView (w.reqs K.slot) := by
      rw [here, kept]
      rfl
    exact (logsReplied_same view retimed.conns).trans printed
  obtain ⟨m, cmd, message, current, e⟩ := h₂.processMessages_eq
  have out₂ : allGoOut K.slot m (messageEnd (reqMem (Transitions.useRetry w₁ K.slot) K.slot) m + 1)
      (Transitions.useRetry w₁ K.slot) (some cmd) = true := by
    have mem : reqMem (Transitions.useRetry w₁ K.slot) K.slot = reqMem w₁ K.slot := by
      rw [reqMem, here]
      rfl
    rw [here] at message current
    rw [mem]
    simp only [Context.slot] at message current ⊢
    simpa only [retryGoesOut, removed, message, current] using out
  obtain ⟨w₃, sent, started, collecting, resent⟩ := h₂.resend open_ housed₂ message current printed₂ out₂
  have unsent : forwards (Transitions.useRetry w₁ K.slot) = forwards w :=
    (Sending.retimed retimed).2.2
  refine ⟨w₃, ?_, collecting, ?_, ?_, ?_⟩
  · rw [h.handleTimeout_eq due removed, expireRequest, if_pos positive]
    rw [Transitions.useRetry] at e started
    rw [e, processForward, started]
    rfl
  · rw [← unsent]
    exact resent.sent
  · rw [resent.mask, here, kept]
  · rw [resent.left, here, kept]

/-- The expiration after the last retry. -/
theorem Collecting.giveUp (h : Collecting K t w) (last : t.expired = K.retries)
    (due : AtHead w K.reqId) {w₁ : State} {left : Int}
    (removed : removeTimeout w K.reqId = .ok (w₁, left)) :
    ∃ m, (w₁.reqs K.slot).messagePtr = some m ∧
      handleTimeout w = (processMessages (skipOnFailure w₁ K.slot m) K.slot).map (·.1) := by
  have h₁ := h.removed removed
  obtain ⟨m, cmd, message, -, -, -⟩ := standing_eq_some h₁.stands
  have none : ¬ 0 < (w₁.reqs K.slot).fwdRetries := by
    rw [h₁.retries, last]
    omega
  have skips : 0 < (w₁.reqs K.slot).fwdOnFailSkip := by
    rw [h₁.onFailSkip]
    have := K.skips
    omega
  refine ⟨m, message, ?_⟩
  rw [h.handleTimeout_eq due removed, expireRequest, if_neg none]
  simp only [message]
  rw [if_pos skips]

end Collecting

/-! ## Runs -/

/-- What the protocol of a context reads of its request. -/
def tracked (r : ReqInfo) : Nat × Option Nat × Int × BitVec 32 × Int × Int :=
  (r.reqId, r.ctx, r.fwdRepliesLeft, r.fwdRepliesMask, r.fwdRetries, r.fwdOnFailSkip)

/-- The worker does something else; the message of the request may move. -/
structure Undisturbed (slot : Nat) (w w' : State) : Prop where
  path : Leads w w'
  request : tracked (w'.reqs slot) = tracked (w.reqs slot)
  stands : standing w' slot = standing w slot

theorem undisturbed_elapse (slot : Nat) (w : State) (ns : Nat) :
    Undisturbed slot w (elapse w ns) := ⟨.one (.elapse w ns), rfl, rfl⟩

/-- Replies to the request from anywhere and expirations of its timeout, in any
order, between anything that leaves the request alone. At an expiration with a
retry left the messages go out, and what is logged behind the branches that have
replied can be printed. -/
inductive Run (K : Context) (w₀ : State) : List (Event Addr) → State → Prop
  | start : Run K w₀ [] w₀
  | reply {events : List (Event Addr)} {w w' : State} {ret : Int} (before : Run K w₀ events w)
      (status : Nat) (addr : Addr)
      (handled : handleForwardReply w K.reqId status addr = .ok (w', ret)) :
      Run K w₀ (events ++ [.reply addr]) w'
  | expire {events : List (Event Addr)} {w w' : State} (before : Run K w₀ events w)
      (due : AtHead w K.reqId)
      (out : 0 < (w.reqs K.slot).fwdRetries → retryGoesOut w K.reqId = true)
      (printed : 0 < (w.reqs K.slot).fwdRetries → logsReplied w K.slot = true)
      (handled : handleTimeout w = .ok w') : Run K w₀ (events ++ [.expire]) w'
  | pass {events : List (Event Addr)} {w w' : State} (before : Run K w₀ events w)
      (other : Undisturbed K.slot w w')
      (timeout : (w'.reqs K.slot).fwdTimeout = (w.reqs K.slot).fwdTimeout) :
      Run K w₀ (events ++ [.pass]) w'

theorem Run.leads {K : Context} {w₀ w : State} {events : List (Event Addr)}
    (h : Run K w₀ events w) : Leads w₀ w := by
  induction h with
  | start => exact .refl _
  | reply before status addr handled ih => exact ih.trans (leads_handleForwardReply handled)
  | expire before due out printed handled ih => exact ih.trans (leads_handleTimeout handled)
  | pass before other timeout ih => exact ih.trans other.path

theorem Collecting.undisturbed {K : Context} {t : Tally Addr} {w w' : State}
    (h : Collecting K t w) (other : Undisturbed K.slot w w')
    (timeout : (w'.reqs K.slot).fwdTimeout = (w.reqs K.slot).fwdTimeout) : Collecting K t w' := by
  have request := other.request
  simp only [tracked, Prod.mk.injEq] at request
  obtain ⟨id, ctx, left, mask, retries, onFailSkip⟩ := request
  exact ⟨id.trans h.live, ctx.trans h.ctx, other.stands.trans h.stands, h.within,
    by rw [mask]; exact h.mask, left.trans h.left, retries.trans h.retries,
    by rw [timeout]; exact h.timeout, onFailSkip.trans h.onFailSkip⟩

theorem Collecting.retries_pos {K : Context} {t : Tally Addr} {w : State} (h : Collecting K t w)
    (early : t.expired < K.retries) : 0 < (w.reqs K.slot).fwdRetries := by
  rw [h.retries]
  omega

/-- Until the collection ends, the fields of the request are the tally. -/
theorem Run.collecting {K : Context} {w₀ w : State} {events : List (Event Addr)}
    (h : Run K w₀ events w) (start : Collecting K .start w₀) (housed : Housed w₀) (slotted : Slotted w₀)
    (open_ : ¬ Ended K.config (tally K.config events)) :
    Collecting K (tally K.config events) w := by
  induction h with
  | start => exact start
  | reply before status addr handled ih =>
    rw [tally_concat] at open_ ⊢
    have collecting := ih fun ended => open_ (ended.after K.config _)
    obtain ⟨w₁, same, later, -⟩ := collecting.reply status addr open_
    rw [same] at handled
    cases handled
    exact later
  | expire before due out printed handled ih =>
    rw [tally_concat] at open_ ⊢
    have collecting := ih fun ended => open_ (ended.after K.config _)
    have positive := collecting.retries_pos (not_lt.mp fun late => open_ (Or.inr late))
    obtain ⟨w₁, same, later, -⟩ := collecting.retry open_ (before.leads.housed housed)
      (slotted_leads before.leads slotted) due (out positive) (printed positive)
    rw [same] at handled
    cases handled
    exact later
  | pass before other timeout ih =>
    rw [tally_concat] at open_ ⊢
    exact (ih open_).undisturbed other timeout

/-! ## The protocol -/

/-- `process_single_message` has come to the FORWARD_BEGIN of the context and
none is in progress. -/
structure Starting (K : Context) (w : State) (m cmd : Nat) : Prop where
  live : (w.reqs K.slot).reqId = K.reqId
  message : (w.reqs K.slot).messagePtr = some m
  current : (w.reqs K.slot).currCmd = some cmd
  idle : (w.reqs K.slot).fwdRepliesLeft = -1
  number : (w.reqs K.slot).ctx.or (some w.nextCtx) = some K.number
  begins : cmdAt (reqMem w K.slot) cmd = .forwardBegin
  dests : destinations (reqMem w K.slot) (messageEnd (reqMem w K.slot) m) (some cmd) = K.dests
  need : (fwdOpts (reqMem w K.slot) cmd).nAck = K.need
  retries : (fwdOpts (reqMem w K.slot) cmd).retries = K.retries
  timeout : 0 < toInt32 (fwdOpts (reqMem w K.slot) cmd).timeout
  onFailSkip : (fwdOpts (reqMem w K.slot) cmd).onFailSkip = K.onFailSkip

/-- The context has begun and its messages are out. -/
theorem Starting.collecting {K : Context} {w : State} {m cmd : Nat} (h : Starting K w m cmd)
    (housed : Housed w) (out : forwardGoesOut w K.slot m cmd = true) :
    ∃ w' sent, startForward w K.slot m cmd = .ok (w', sent) ∧ Collecting K .start w' := by
  have used : InUse w K.slot := housed K.slot (by rw [h.live]; exact K.named)
  have here := beginContext_req w K.slot cmd
  rw [if_pos h.idle] at here
  have begun : Collecting K .start (beginContext w K.slot cmd) := by
    refine ⟨?_, ?_, ?_, Finset.empty_subset _, ?_, ?_, ?_, ?_, ?_⟩
    · rw [here]
      exact h.live
    · rw [here]
      exact h.number
    · rw [standing, beginContext_reqMem, here]
      simp only [h.message, h.current, h.begins, h.dests]
    · rw [here]
      exact setBits_zero
    · rw [here]
      simp [h.need, Tally.start]
    · rw [here]
      simp [h.retries, Tally.start]
    · rw [here]
      simp only [h.timeout]
    · rw [here]
      simp [h.onFailSkip]
  obtain ⟨w', sent, started, succeeds⟩ :=
    startForward_goesOut used h.current (by rw [h.begins]; rfl) h.idle (le_of_lt h.timeout) out
  obtain ⟨sending, _, -, whole, -⟩ := startForward_spec used started
  have slots := (whole succeeds).1 K.slot
  exact ⟨w', sent, started, begun.frame (sending.core K.slot) slots.1 slots.2
    (sending.reqMem (beginContext_inUse cmd used))⟩

/-- The acknowledgement that ends the context: the request goes on behind it,
and the context is never entered again. -/
def Completes (K : Context) (w : State) (status : Nat) (addr : Addr) : Prop :=
  ∃ m cmd id, (w.reqs K.slot).messagePtr = some m ∧ (w.reqs K.slot).currCmd = some cmd ∧
    handleForwardReply w K.reqId status addr =
      resumeAfterContext (countReply w K.slot id) K.reqId K.slot m status ∧
    let w₁ := completeContext (countReply w K.slot id) K.slot m status
    (w₁.reqs K.slot).currCmd =
      cmdBoundedSkip (reqMem w₁ K.slot) (some cmd) 1 (messageEnd (reqMem w₁ K.slot) m) ∧
    ∀ w', Leads w₁ w' → Over K.number w'

/-- The expiration that ends the context: `on_fail_skip` contexts are skipped,
the status is TIMEOUT, and the context is never entered again. -/
def GivesUp (K : Context) (w : State) : Prop :=
  ∃ w₁ left m cmd, removeTimeout w K.reqId = .ok (w₁, left) ∧
    (w₁.reqs K.slot).messagePtr = some m ∧ (w₁.reqs K.slot).currCmd = some cmd ∧
      let w₂ := skipOnFailure w₁ K.slot m
      handleTimeout w = (processMessages w₂ K.slot).map (·.1) ∧
      (w₂.reqs K.slot).currCmd = cmdBoundedSkip (reqMem w₁ K.slot) (some cmd) K.onFailSkip
        (messageEnd (reqMem w₁ K.slot) m) ∧
      statusOf (reqMem w₂ K.slot) m = statusTimeout ∧
      ∀ w', Leads w₂ w' → Over K.number w'

/-- The state of a context that has not ended, and what each event does to it. -/
structure Protocol (K : Context) (t : Tally Addr) (w : State) : Prop where
  current : (w.reqs K.slot).ctx = some K.number
  mask : setBits (w.reqs K.slot).fwdRepliesMask = K.bits t.replied
  left : (w.reqs K.slot).fwdRepliesLeft =
    (K.need : Int) - (setBits (w.reqs K.slot).fwdRepliesMask).card
  waits : ∀ status addr, (t.after K.config (.reply addr)).replied.card < K.need →
    ∃ w', handleForwardReply w K.reqId status addr = .ok (w', -1) ∧
      (w'.reqs K.slot).ctx = some K.number ∧ forwards w' = forwards w
  completes : ∀ status addr, (t.after K.config (.reply addr)).replied.card = K.need →
    Completes K w status addr
  resends : t.expired < K.retries → AtHead w K.reqId → retryGoesOut w K.reqId = true →
    logsReplied w K.slot = true → ∃ w', handleTimeout w = .ok w' ∧
      Resent K t w w' ∧ (w'.reqs K.slot).ctx = some K.number
  givesUp : t.expired = K.retries → AtHead w K.reqId → GivesUp K w

section Protocol

variable {K : Context} {t : Tally Addr} {w : State}

/-- The last acknowledgement of a context moves behind it and ends it for good. -/
theorem completeContext_ends {w : State} {slot m cmd id status number : Nat} (numbered : Numbered w)
    (ctx : (w.reqs slot).ctx = some number) (current : (w.reqs slot).currCmd = some cmd) :
    let w₁ := completeContext (countReply w slot id) slot m status
    (w₁.reqs slot).currCmd =
      cmdBoundedSkip (reqMem w₁ slot) (some cmd) 1 (messageEnd (reqMem w₁ slot) m) ∧
    ∀ w', Leads w₁ w' → Over number w' := by
  have here : (completeContext (countReply w slot id) slot m status).reqs
      slot = { (countReply w slot id).reqs slot with
        currCmd := cmdBoundedSkip
          (reqMem (setMsgStatus (countReply w slot id) slot m status) slot)
          ((countReply w slot id).reqs slot).currCmd 1
          (messageEnd (reqMem (setMsgStatus (countReply w slot id) slot m status) slot) m)
        fwdRepliesMask := 0
        fwdRepliesLeft := -1
        fwdTimeout := 0
        fwdRetries := 0
        ctx := none } := setReq_self _ slot _
  have counted : ((countReply w slot id).reqs slot).currCmd = some cmd := by
    rw [countReply, setReq_self]
    exact current
  refine ⟨?_, fun w' path => Over.leads ?_ path⟩
  · rw [reqMem, here]
    simp only [counted]
    rfl
  · refine numbered.over ctx rfl (by rw [here]) fun s other => ?_
    exact congrArg ReqInfo.ctx ((setReq_other _ _ other).trans (setReq_other w _ other))

theorem Collecting.completes (h : Collecting K t w) (numbered : Numbered w)
    (open_ : ¬ Ended K.config t) (status : Nat) {addr : Addr}
    (ended : Ended K.config (t.after K.config (.reply addr))) : Completes K w status addr := by
  obtain ⟨m, message, resumed⟩ := h.reply_last status open_ ended
  obtain ⟨-, cmd, -, current, -, -⟩ := standing_eq_some h.stands
  exact ⟨m, cmd, _, message, current, resumed, completeContext_ends numbered h.ctx current⟩

theorem Collecting.givesUp (h : Collecting K t w) (numbered : Numbered w) (slotted : Slotted w)
    (last : t.expired = K.retries) (due : AtHead w K.reqId) : GivesUp K w := by
  obtain ⟨w₁, left, removed⟩ := removeTimeout_total slotted K.reqId
  obtain ⟨m, message, handled⟩ := h.giveUp last due removed
  have h₁ := h.removed removed
  obtain ⟨-, cmd, -, current, -, -⟩ := standing_eq_some h₁.stands
  have numbered₁ : Numbered w₁ := numbered.step (.remove w w₁ K.reqId left removed)
  have here : (skipOnFailure w₁ K.slot m).reqs K.slot = { w₁.reqs K.slot with
      currCmd := cmdBoundedSkip (reqMem w₁ K.slot) (w₁.reqs K.slot).currCmd
        (w₁.reqs K.slot).fwdOnFailSkip (messageEnd (reqMem w₁ K.slot) m)
      ctx := none } := setReq_self w₁ K.slot _
  refine ⟨w₁, left, m, cmd, removed, message, current, handled, ?_, ?_, fun w' path => Over.leads ?_ path⟩
  · rw [here]
    simp only [current, h₁.onFailSkip]
  · rw [skipOnFailure, reqMem_setMsgStatus]
    exact u32_storeU32 _ (m + 8) (by decide)
  · refine numbered₁.over h₁.ctx rfl (by rw [here]) fun s other => ?_
    exact congrArg ReqInfo.ctx (setReq_other w₁ _ other)

theorem Collecting.protocol (h : Collecting K t w) (open_ : ¬ Ended K.config t) (housed : Housed w)
    (slotted : Slotted w) (numbered : Numbered w) : Protocol K t w := by
  have early : t.expired ≤ K.retries := not_lt.mp fun late => open_ (Or.inr late)
  refine ⟨h.ctx, h.mask, ?_, ?_, ?_, ?_, fun last due => h.givesUp numbered slotted last due⟩
  · rw [h.mask, card_bits h.within]
    exact h.left
  · intro status addr few
    have waits : ¬ Ended K.config (t.after K.config (.reply addr)) := by
      rintro (enough | late)
      · exact absurd few (not_lt.mpr enough)
      · exact absurd early (not_le.mpr late)
    obtain ⟨w', handled, collecting, unsent⟩ := h.reply status addr waits
    exact ⟨w', handled, collecting.ctx, unsent⟩
  · intro status addr enough
    exact h.completes numbered open_ status (Or.inl (le_of_eq enough.symm))
  · intro more due out printed
    have waits : ¬ Ended K.config (t.after K.config .expire) := by
      rintro (enough | late)
      · exact open_ (Or.inl enough)
      · have : K.retries < t.expired + 1 := late
        omega
    obtain ⟨w', handled, collecting, resent⟩ := h.retry waits housed slotted due out printed
    exact ⟨w', handled, resent, collecting.ctx⟩

theorem leads_resumeAfterContext {w w' : State} {reqId slot m status : Nat} {ret : Int}
    (resumed : resumeAfterContext w reqId slot m status = .ok (w', ret)) :
    Leads (completeContext w slot m status) w' := by
  simp only [resumeAfterContext] at resumed
  split at resumed
  · cases resumed
  · rename_i removed
    exact (leads_removeTimeout removed).trans (leads_processMessages resumed)

/-- Once the collection has ended, the context is over. -/
theorem Run.over {K : Context} {w₀ w : State} {events : List (Event Addr)} (h : Run K w₀ events w)
    (start : Collecting K .start w₀) (housed : Housed w₀) (slotted : Slotted w₀) (numbered : Numbered w₀)
    (ended : Ended K.config (tally K.config events)) : Over K.number w := by
  induction h with
  | start =>
    rcases ended with enough | late
    · exact absurd enough (not_le.mpr K.needed)
    · exact absurd late (Nat.not_lt_zero _)
  | @reply events w w' ret before status addr handled ih =>
    rw [tally_concat] at ended
    by_cases already : Ended K.config (tally K.config events)
    · exact (ih already).leads (leads_handleForwardReply handled)
    · have collecting := before.collecting start housed slotted already
      obtain ⟨m, cmd, id, -, -, resumes, -, ends⟩ :=
        collecting.completes (numbered.leads before.leads) already status ended
      rw [resumes] at handled
      exact ends w' (leads_resumeAfterContext handled)
  | @expire events w w' before due out printed handled ih =>
    rw [tally_concat] at ended
    by_cases already : Ended K.config (tally K.config events)
    · exact (ih already).leads (leads_handleTimeout handled)
    · have collecting := before.collecting start housed slotted already
      rcases ending_event K.config already ended with ⟨a, e, -⟩ | ⟨-, last⟩
      · cases e
      · obtain ⟨w₁, left, m, cmd, -, -, -, skips, -, -, ends⟩ :=
          collecting.givesUp (numbered.leads before.leads) (slotted_leads before.leads slotted) last due
        rw [skips] at handled
        obtain ⟨⟨u, r⟩, executed, paired⟩ := map_eq_ok.mp handled
        cases paired
        exact ends _ (leads_processMessages executed)
  | pass before other timeout ih =>
    rw [tally_concat] at ended
    exact (ih ended).leads other.path

end Protocol

variable (storageDevices : Nat) (storageFd : Nat → Nat) (files : Nat → Mem) (enableDefrag : Bool)

/-- From the start of a context, through any interleaving of replies and
expirations, the request follows the protocol until the collection ends, as long
as the log of a retry can be printed; from then on the context is over. -/
theorem quorum_protocol (K : Context) {w₀ : State} {m cmd : Nat}
    (reached : Leads (State.init storageDevices storageFd files enableDefrag) w₀)
    (starting : Starting K w₀ m cmd) (out : forwardGoesOut w₀ K.slot m cmd = true) :
    ∃ w₁ sent, startForward w₀ K.slot m cmd = .ok (w₁, sent) ∧
      ∀ events w, Run K w₁ events w →
        (¬ Ended K.config (tally K.config events) → Protocol K (tally K.config events) w) ∧
        (Ended K.config (tally K.config events) → Over K.number w) := by
  have housed := reached.housed (housed_init storageDevices storageFd files enableDefrag)
  have slotted := slotted_leads reached (slotted_init storageDevices storageFd files enableDefrag)
  obtain ⟨w₁, sent, started, collecting⟩ := starting.collecting housed out
  have begun := leads_startForward started
  have housed' := begun.housed housed
  have slotted' := slotted_leads begun slotted
  refine ⟨w₁, sent, started, fun events w run => ⟨fun open_ => ?_, fun ended => ?_⟩⟩
  · have gathered := run.collecting collecting housed' slotted' open_
    have whole := reached.trans (begun.trans run.leads)
    exact gathered.protocol open_ (run.leads.housed housed') (slotted_leads run.leads slotted') (numbered_leads whole)
  · exact run.over collecting housed' slotted' (numbered_leads (reached.trans begun)) ended

/-- A request on a client's connection, forwarded to two peers that both have to
answer. -/
def multiForward : ConnInfo :=
  let bytes := message 1 0
    [.forward false 64 [10, 0, 0, 1, 0, 1] 50 1 2 1 0 .tcp,
     .forward true 64 [10, 0, 0, 2, 0, 2] 50 1 2 1 0 .tcp, .reply 16, .reply 16, .eom]
  { requesting with
    recvBuf := store (fun _ => 0) 0 bytes
    currRecvBuf := bytes.length
    currRecvSize := bufSize - bytes.length
    currProcBuf := bytes.length }

def secondPeer : ConnInfo :=
  { ConnInfo.init.claim 5 [10, 0, 0, 2, 0, 2] .tcp 0 with status := .ready }

def multiForwardArrived : State :=
  (((State.init 0 (fun _ => 0) (fun _ _ => 0) true).setConn 0 multiForward).setConn 1 peer).setConn 2
    secondPeer

def twoOfTwo : Context where
  reqId := 0
  number := 0
  dests := [[10, 0, 0, 1, 0, 1], [10, 0, 0, 2, 0, 2]]
  need := 2
  retries := 1
  onFailSkip := 1
  named := by decide
  distinct := by decide
  few := by decide
  needed := by decide
  possible := by decide
  skips := by decide

theorem reaches_multiForward :
    Leads (State.init 0 (fun _ => 0) (fun _ _ => 0) true) (enterRequest multiForwardArrived 0 0).1 := by
  refine Leads.trans (leads_setConn _ 0 ?_) (Leads.trans (leads_setConn _ 1 ?_)
    (Leads.trans (leads_setConn _ 2 ?_) (.one (.enter multiForwardArrived 0 0 rfl))))
  · exact ⟨rfl, fun _ => rfl, fun _ _ => rfl⟩
  · exact ⟨rfl, fun _ => rfl, fun _ _ => rfl⟩
  · exact ⟨rfl, fun _ => rfl, fun _ _ => rfl⟩

/-- The first peer answers, the timeout expires, and the message goes to the
second peer again. -/
theorem quorum_protocol_after_retry :
    ∃ w₁ w, startForward (enterRequest multiForwardArrived 0 0).1 0 0 12 = .ok (w₁, true) ∧
      Run twoOfTwo w₁ [.reply [10, 0, 0, 1, 0, 1], .pass, .expire] w ∧
      Protocol twoOfTwo (tally twoOfTwo.config [.reply [10, 0, 0, 1, 0, 1], .pass, .expire]) w := by
  have evaluated :
      ((startForward (enterRequest multiForwardArrived 0 0).1 0 0 12).toOption.any fun s =>
        s.2 = true ∧ ((handleForwardReply s.1 0 0 [10, 0, 0, 1, 0, 1]).toOption.any fun r =>
          let due := elapse r.1 50000
          retryGoesOut due 0 = true ∧ logsReplied due 0 = true ∧
          ((pqueueTop due.timeoutQueue).any fun top =>
            (due.timeoutQueue.nodes top).data = 0) = true ∧
          (handleTimeout due).toOption.isSome = true) = true) = true := by decide +kernel
  obtain ⟨⟨w₁, sent⟩, ran, facts⟩ := exists_of_any evaluated
  obtain ⟨rfl, later⟩ := of_decide_eq_true facts
  obtain ⟨⟨w₂, ret⟩, answered, facts⟩ := exists_of_any later
  obtain ⟨out, printed, head, handled⟩ := of_decide_eq_true facts
  obtain ⟨w₃, handled⟩ := Option.isSome_iff_exists.mp handled
  obtain ⟨top, isTop, data⟩ := exists_of_any head
  have started := toOption_eq_some ran
  have replied : Run twoOfTwo w₁ [.reply [10, 0, 0, 1, 0, 1]] w₂ :=
    .reply .start 0 [10, 0, 0, 1, 0, 1] (toOption_eq_some answered)
  have waited : Run twoOfTwo w₁ [.reply [10, 0, 0, 1, 0, 1], .pass] (elapse w₂ 50000) :=
    .pass replied (undisturbed_elapse _ w₂ 50000) rfl
  have run : Run twoOfTwo w₁ [.reply [10, 0, 0, 1, 0, 1], .pass, .expire] w₃ :=
    .expire waited ⟨top, isTop, of_decide_eq_true data⟩ (fun _ => out) (fun _ => printed)
      (toOption_eq_some handled)
  have starting : Starting twoOfTwo (enterRequest multiForwardArrived 0 0).1 0 12 :=
    ⟨by decide +kernel, by decide +kernel, by decide +kernel, by decide +kernel, by decide +kernel,
      by decide +kernel, by decide +kernel, by decide +kernel, by decide +kernel, by decide +kernel,
      by decide +kernel⟩
  have sends : forwardGoesOut (enterRequest multiForwardArrived 0 0).1 twoOfTwo.slot 0 12 = true := by
    decide +kernel
  obtain ⟨w₁', sent, started', protocol⟩ := quorum_protocol 0 (fun _ => 0) (fun _ _ => 0) true twoOfTwo
    reaches_multiForward starting sends
  have same : w₁' = w₁ := congrArg Prod.fst (Except.ok.inj (started'.symm.trans started))
  subst same
  exact ⟨w₁', w₃, started, run, (protocol _ _ run).1 (by decide)⟩

/-- The same with a PSKIP behind the context, which `cmd_log` does not print. -/
def skipBehind : ConnInfo :=
  let commands := encodeAll [.forward false 64 [10, 0, 0, 1, 0, 1] 50 1 2 1 0 .tcp,
    .forward true 64 [10, 0, 0, 2, 0, 2] 50 1 2 1 0 .tcp, .reply 16, .reply 16] ++ u32Bytes 3 ++ encodeAll [.eom]
  let bytes := u32Bytes 1 ++ u32Bytes (messageHeader + commands.length) ++ u32Bytes 0 ++ commands
  { requesting with
    recvBuf := store (fun _ => 0) 0 bytes
    currRecvBuf := bytes.length
    currRecvSize := bufSize - bytes.length
    currProcBuf := bytes.length }

def skipBehindArrived : State :=
  (((State.init 0 (fun _ => 0) (fun _ _ => 0) true).setConn 0 skipBehind).setConn 1 peer).setConn 2
    secondPeer

theorem reaches_skipBehind :
    Leads (State.init 0 (fun _ => 0) (fun _ _ => 0) true) (enterRequest skipBehindArrived 0 0).1 := by
  refine Leads.trans (leads_setConn _ 0 ?_) (Leads.trans (leads_setConn _ 1 ?_)
    (Leads.trans (leads_setConn _ 2 ?_) (.one (.enter skipBehindArrived 0 0 rfl))))
  · exact ⟨rfl, fun _ => rfl, fun _ _ => rfl⟩
  · exact ⟨rfl, fun _ => rfl, fun _ _ => rfl⟩
  · exact ⟨rfl, fun _ => rfl, fun _ _ => rfl⟩

/-- The first peer has answered, a retry is left and its message would go out:
the log of the acknowledged branch ends the process. -/
theorem retry_exits :
    Leads (State.init 0 (fun _ => 0) (fun _ _ => 0) true) (enterRequest skipBehindArrived 0 0).1 ∧
      Starting twoOfTwo (enterRequest skipBehindArrived 0 0).1 0 12 ∧
      ∃ w₁ w, startForward (enterRequest skipBehindArrived 0 0).1 0 0 12 = .ok (w₁, true) ∧
        Run twoOfTwo w₁ [.reply [10, 0, 0, 1, 0, 1], .pass] w ∧ AtHead w 0 ∧ (w.reqs 0).fwdRetries = 1 ∧
        retryGoesOut w 0 = true ∧ handleTimeout w = .error .exitFailure := by
  have evaluated :
      ((startForward (enterRequest skipBehindArrived 0 0).1 0 0 12).toOption.any fun s =>
        s.2 = true ∧ ((handleForwardReply s.1 0 0 [10, 0, 0, 1, 0, 1]).toOption.any fun r =>
          let due := elapse r.1 50000
          retryGoesOut due 0 = true ∧ (due.reqs 0).fwdRetries = 1 ∧
          ((pqueueTop due.timeoutQueue).any fun top =>
            (due.timeoutQueue.nodes top).data = 0) = true ∧
          (match handleTimeout due with
            | .ok _ => none
            | .error e => some e) = some .exitFailure) = true) = true := by decide +kernel
  obtain ⟨⟨w₁, sent⟩, ran, facts⟩ := exists_of_any evaluated
  obtain ⟨rfl, later⟩ := of_decide_eq_true facts
  obtain ⟨⟨w₂, ret⟩, answered, facts⟩ := exists_of_any later
  obtain ⟨out, retries, head, exits⟩ := of_decide_eq_true facts
  obtain ⟨top, isTop, data⟩ := exists_of_any head
  have replied : Run twoOfTwo w₁ [.reply [10, 0, 0, 1, 0, 1]] w₂ :=
    .reply .start 0 [10, 0, 0, 1, 0, 1] (toOption_eq_some answered)
  have waited : Run twoOfTwo w₁ [.reply [10, 0, 0, 1, 0, 1], .pass] (elapse w₂ 50000) :=
    .pass replied (undisturbed_elapse _ w₂ 50000) rfl
  have starting : Starting twoOfTwo (enterRequest skipBehindArrived 0 0).1 0 12 :=
    ⟨by decide +kernel, by decide +kernel, by decide +kernel, by decide +kernel, by decide +kernel,
      by decide +kernel, by decide +kernel, by decide +kernel, by decide +kernel, by decide +kernel,
      by decide +kernel⟩
  refine ⟨reaches_skipBehind, starting, w₁, elapse w₂ 50000, toOption_eq_some ran, waited,
    ⟨top, isTop, of_decide_eq_true data⟩, retries, out, ?_⟩
  cases handled : handleTimeout (elapse w₂ 50000) with
  | ok w' =>
    simp only [handled] at exits
    cases exits
  | error e =>
    simp only [handled, Option.some.injEq] at exits
    rw [exits]

end ForwardQuorum
