import DistWalk.ForwardQuorum
import Mathlib.Data.List.Duplicate

/-!
# Acknowledgements of any list of destinations

The destinations of a FORWARD are any list of addresses. A reply is looked up by
its address, and the position found gives one of the 32 bits of
`fwd_replies_mask`. When each message is answered once, the replies that are
counted are those that set a new bit, so the quorum is reached in time exactly
when no two positions share one.
-/

namespace Acknowledgements

open ByteMemory Message Connection PriorityQueue Worker Timeout Node Transitions Requests
  ForwardReply TimeoutTable Forwarding
  ForwardContext ForwardQuorum Wire

/-! ## Bits of positions -/

/-- The bit of the mask that stands for an address. -/
def bitOf (dests : List Addr) (addr : Addr) : Nat := dests.idxOf addr % 32

/-- The bits set by replies. -/
def bitsOf (dests seen : List Addr) : Finset Nat := (seen.map (bitOf dests)).toFinset

theorem acked_mod (mask : BitVec 32) (id : Nat) : acked mask (id % 32) = acked mask id := by
  rw [acked, acked, ackBit_mod]

theorem setBits_ackBit (id : Nat) : setBits (ackBit id) = {id % 32} := by
  have set : setBits (0#32 ||| ackBit (id % 32)) = insert (id % 32) (setBits 0#32) :=
    setBits_or (Nat.mod_lt id (by decide))
  rw [ackBit_mod, setBits_zero, BitVec.zero_or] at set
  exact set

theorem ackBit_eq_iff {id id' : Nat} : ackBit id = ackBit id' ↔ id % 32 = id' % 32 := by
  constructor
  · intro same
    have sets := congrArg setBits same
    rw [setBits_ackBit, setBits_ackBit] at sets
    exact Finset.singleton_injective sets
  · intro same
    rw [← ackBit_mod id, same, ackBit_mod]

theorem bitsOf_concat (dests seen : List Addr) (addr : Addr) :
    bitsOf dests (seen ++ [addr]) = insert (bitOf dests addr) (bitsOf dests seen) := by
  ext i
  simp [bitsOf]

/-- A further reply never takes a bit away. -/
theorem card_bitsOf_concat_le (dests seen : List Addr) (addr : Addr) :
    (bitsOf dests seen).card ≤ (bitsOf dests (seen ++ [addr])).card := by
  rw [bitsOf_concat]
  exact Finset.card_le_card (Finset.subset_insert _ _)

/-- No two positions share a bit when the addresses are distinct and there are
no more of them than bits. -/
theorem apart_iff {dests : List Addr} :
    dests.Pairwise (fun a b => bitOf dests a ≠ bitOf dests b) ↔
      dests.Nodup ∧ dests.length ≤ 32 := by
  constructor
  · intro apart
    have distinct : dests.Nodup := apart.imp fun differ same => differ (by rw [same])
    refine ⟨distinct, not_lt.mp fun long => ?_⟩
    have differ := List.pairwise_iff_getElem.mp apart 0 32 (by omega) long (by omega)
    rw [bitOf, bitOf, distinct.idxOf_getElem, distinct.idxOf_getElem] at differ
    exact differ rfl
  · rintro ⟨distinct, few⟩
    refine List.pairwise_iff_getElem.mpr fun i j hi hj less => ?_
    rw [bitOf, bitOf, distinct.idxOf_getElem, distinct.idxOf_getElem]
    omega

/-- With a bit for each position, every reply sets a new one. -/
theorem card_bitsOf {dests seen rest : List Addr}
    (apart : dests.Pairwise fun a b => bitOf dests a ≠ bitOf dests b)
    (order : (seen ++ rest).Perm dests) : (bitsOf dests seen).card = seen.length := by
  have all : (dests.map (bitOf dests)).Nodup := List.pairwise_map.mpr apart
  have some : ((seen ++ rest).map (bitOf dests)).Nodup := (order.map _).nodup_iff.mpr all
  rw [List.map_append] at some
  rw [bitsOf, List.toFinset_card_of_nodup some.of_append_left, List.length_map]

theorem card_bitsOf_le (dests seen : List Addr) : (bitsOf dests seen).card ≤ seen.length := by
  have bound := List.toFinset_card_le (seen.map (bitOf dests))
  rwa [List.length_map] at bound

/-- Two replies that share their bit count as one. -/
theorem card_bitsOf_shared {dests : List Addr} {a b : Addr} (same : bitOf dests a = bitOf dests b)
    (rest : List Addr) : (bitsOf dests (a :: b :: rest)).card ≤ rest.length + 1 := by
  have merged : bitsOf dests (a :: b :: rest) = bitsOf dests (b :: rest) := by
    simp [bitsOf, same]
  rw [merged]
  exact card_bitsOf_le dests (b :: rest)

/-! ## A context and the replies to it -/

/-- A FORWARD context of a request with any destinations. -/
structure Group where
  reqId : Nat
  number : Nat
  dests : List Addr
  need : Nat
  named : reqId ≠ noReq
  possible : need ≤ dests.length

def Group.slot (K : Group) : Nat := slotOf K.reqId

/-- `process_single_message` has come to the FORWARD_BEGIN of the context and
none is in progress. -/
structure Begins (K : Group) (w : State) (m cmd : Nat) : Prop where
  live : (w.reqs K.slot).reqId = K.reqId
  message : (w.reqs K.slot).messagePtr = some m
  current : (w.reqs K.slot).currCmd = some cmd
  idle : (w.reqs K.slot).fwdRepliesLeft = -1
  fresh : (w.reqs K.slot).ctx = none
  number : K.number = w.nextCtx
  begins : cmdAt (reqMem w K.slot) cmd = .forwardBegin
  dests : destinations (reqMem w K.slot) (messageEnd (reqMem w K.slot) m) (some cmd) = K.dests
  need : (fwdOpts (reqMem w K.slot) cmd).nAck = K.need

/-- The replies handled so far, in order, between anything that leaves the
request alone. -/
inductive Answered (K : Group) (w₀ : State) : List Addr → State → Prop
  | start : Answered K w₀ [] w₀
  | reply {seen : List Addr} {w w' : State} {ret : Int} (before : Answered K w₀ seen w)
      (status : Nat) (addr : Addr)
      (handled : handleForwardReply w K.reqId status addr = .ok (w', ret)) :
      Answered K w₀ (seen ++ [addr]) w'
  | pass {seen : List Addr} {w w' : State} (before : Answered K w₀ seen w)
      (other : Undisturbed K.slot w w') : Answered K w₀ seen w'

/-- The reply leaves the request waiting in the context. -/
def Waits (K : Group) (w : State) (status : Nat) (addr : Addr) : Prop :=
  ∃ w', handleForwardReply w K.reqId status addr = .ok (w', -1) ∧
    (w'.reqs K.slot).ctx = some K.number

/-- The reply ends the context: the request goes on behind it, and the context is
never entered again. -/
def Ends (K : Group) (w : State) (status : Nat) (addr : Addr) : Prop :=
  ∃ m cmd id, (w.reqs K.slot).messagePtr = some m ∧ (w.reqs K.slot).currCmd = some cmd ∧
    (w.reqs K.slot).ctx = some K.number ∧
    handleForwardReply w K.reqId status addr =
      resumeAfterContext (countReply w K.slot id) K.reqId K.slot m status ∧
    let w₁ := completeContext (countReply w K.slot id) K.slot m status
    (w₁.reqs K.slot).currCmd =
      cmdBoundedSkip (reqMem w₁ K.slot) (some cmd) 1 (messageEnd (reqMem w₁ K.slot) m) ∧
    ∀ w', Leads w₁ w' → Over K.number w'

/-- What a reply may do, after `count` others have been handled: the context ends
with the `n_ack`-th. -/
structure InTime (K : Group) (w : State) (count : Nat) (addr : Addr) : Prop where
  waits : count + 1 < K.need → ∀ status, Waits K w status addr
  ends : count + 1 = K.need → ∀ status, Ends K w status addr
  past : K.need ≤ count → Over K.number w

/-- The messages sent since `w₀` are answered in any order, each once, and the
context ends in time. -/
def AllInTime (K : Group) (w₀ w₁ : State) : Prop :=
  ∀ sent, forwards w₁ = (sent.map fun addr => (K.reqId, addr, some K.number)).reverse ++ forwards w₀ →
    ∀ seen addr rest, (seen ++ addr :: rest).Perm sent →
      ∀ w, Answered K w₁ seen w → InTime K w seen.length addr

/-- The bits used for two positions of the list are different. -/
def BitsApart (K : Group) (w : State) (m cmd : Nat) : Prop :=
  K.dests.Pairwise fun a b => ∀ id id',
    findForwardReplyId (reqMem w K.slot) (some cmd) a (messageEnd (reqMem w K.slot) m) = .ok (some id) →
    findForwardReplyId (reqMem w K.slot) (some cmd) b (messageEnd (reqMem w K.slot) m) = .ok (some id') →
      ackBit id ≠ ackBit id'

/-- The request is in the context and its fields record the replies seen. -/
structure Gathered (K : Group) (seen : List Addr) (w : State) : Prop where
  live : (w.reqs K.slot).reqId = K.reqId
  ctx : (w.reqs K.slot).ctx = some K.number
  stands : standing w K.slot = some (.forwardBegin, K.dests)
  mask : setBits (w.reqs K.slot).fwdRepliesMask = bitsOf K.dests seen
  left : (w.reqs K.slot).fwdRepliesLeft = (K.need : Int) - (bitsOf K.dests seen).card

section Gathered

variable {K : Group} {seen : List Addr} {w : State}

theorem Gathered.undisturbed {w' : State} (h : Gathered K seen w) (other : Undisturbed K.slot w w') :
    Gathered K seen w' := by
  have request := other.request
  simp only [tracked, Prod.mk.injEq] at request
  obtain ⟨id, ctx, left, mask, -, -⟩ := request
  exact ⟨id.trans h.live, ctx.trans h.ctx, other.stands.trans h.stands, by rw [mask]; exact h.mask,
    left.trans h.left⟩

theorem Gathered.acked_iff (h : Gathered K seen w) (addr : Addr) :
    acked (w.reqs K.slot).fwdRepliesMask (K.dests.idxOf addr) = true ↔
      bitOf K.dests addr ∈ bitsOf K.dests seen := by
  rw [← h.mask, mem_setBits, bitOf, acked_mod]
  exact ⟨fun set => ⟨Nat.mod_lt _ (by decide), set⟩, fun both => both.2⟩

theorem Gathered.counted (h : Gathered K seen w) {addr : Addr}
    (first : bitOf K.dests addr ∉ bitsOf K.dests seen) :
    Gathered K (seen ++ [addr]) (countReply w K.slot (K.dests.idxOf addr)) := by
  have here : (countReply w K.slot (K.dests.idxOf addr)).reqs K.slot = { w.reqs K.slot with
      fwdRepliesMask := (w.reqs K.slot).fwdRepliesMask ||| ackBit (K.dests.idxOf addr)
      fwdRepliesLeft := (w.reqs K.slot).fwdRepliesLeft - 1 } := setReq_self w K.slot _
  have mem : reqMem (countReply w K.slot (K.dests.idxOf addr)) K.slot = reqMem w K.slot := by
    rw [reqMem, here]
    rfl
  refine ⟨?_, ?_, ?_, ?_, ?_⟩
  · rw [here]
    exact h.live
  · rw [here]
    exact h.ctx
  · rw [standing, here, mem]
    exact h.stands
  · rw [here, bitsOf_concat]
    simp only
    rw [← ackBit_mod, setBits_or (Nat.mod_lt _ (by decide)), h.mask]
    rfl
  · rw [here, bitsOf_concat, Finset.card_insert_of_notMem first]
    simp only [h.left]
    omega

/-- A reply whose bit is set is dropped, another one counted. -/
theorem Gathered.handled (h : Gathered K seen w) (status : Nat) {addr : Addr}
    (member : addr ∈ K.dests) :
    ∃ m cmd, (w.reqs K.slot).messagePtr = some m ∧ (w.reqs K.slot).currCmd = some cmd ∧
      handleForwardReply w K.reqId status addr =
        if bitOf K.dests addr ∈ bitsOf K.dests seen then .ok (w, -1)
        else if (K.need : Int) - (bitsOf K.dests seen).card - 1 ≤ 0 then
          resumeAfterContext (countReply w K.slot (K.dests.idxOf addr)) K.reqId K.slot m status
        else .ok (countReply w K.slot (K.dests.idxOf addr), -1) := by
  obtain ⟨m, cmd, message, current, -, -⟩ := standing_eq_some h.stands
  have get : reqGetById w K.reqId = some K.slot := reqGetById_eq_some.mpr ⟨rfl, h.live⟩
  have left : ((countReply w K.slot (K.dests.idxOf addr)).reqs K.slot).fwdRepliesLeft =
      (K.need : Int) - (bitsOf K.dests seen).card - 1 := by
    rw [countReply, setReq_self]
    simp only [h.left]
  refine ⟨m, cmd, message, current, ?_⟩
  simp only [handleForwardReply, get, message, search_standing h.stands message current addr, member,
    if_true, h.acked_iff addr, left]

/-- As long as the bits are fewer than needed, the request waits. -/
theorem Gathered.reply (h : Gathered K seen w) (status : Nat) {addr : Addr} (member : addr ∈ K.dests)
    (few : (bitsOf K.dests (seen ++ [addr])).card < K.need) :
    ∃ w', handleForwardReply w K.reqId status addr = .ok (w', -1) ∧
      Gathered K (seen ++ [addr]) w' := by
  obtain ⟨m, cmd, -, -, handled⟩ := h.handled status member
  by_cases known : bitOf K.dests addr ∈ bitsOf K.dests seen
  · rw [if_pos known] at handled
    have same : bitsOf K.dests (seen ++ [addr]) = bitsOf K.dests seen := by
      rw [bitsOf_concat, Finset.insert_eq_self.mpr known]
    exact ⟨w, handled, h.live, h.ctx, h.stands, by rw [same]; exact h.mask,
      by rw [same]; exact h.left⟩
  · rw [bitsOf_concat, Finset.card_insert_of_notMem known] at few
    rw [if_neg known, if_neg (by omega)] at handled
    exact ⟨_, handled, h.counted known⟩

/-- The reply that sets the last bit needed ends the context. -/
theorem Gathered.ends (h : Gathered K seen w) (numbered : Numbered w) (status : Nat) {addr : Addr}
    (member : addr ∈ K.dests) (few : (bitsOf K.dests seen).card < K.need)
    (enough : K.need ≤ (bitsOf K.dests (seen ++ [addr])).card) : Ends K w status addr := by
  obtain ⟨m, cmd, message, current, handled⟩ := h.handled status member
  have first : bitOf K.dests addr ∉ bitsOf K.dests seen := by
    intro known
    rw [bitsOf_concat, Finset.insert_eq_self.mpr known] at enough
    omega
  rw [bitsOf_concat, Finset.card_insert_of_notMem first] at enough
  rw [if_neg first, if_pos (by omega)] at handled
  exact ⟨m, cmd, _, message, current, h.ctx, handled, completeContext_ends numbered h.ctx current⟩

end Gathered

/-- What a context that has ended leaves behind. -/
theorem Ends.over {K : Group} {w w' : State} {status : Nat} {addr : Addr} {ret : Int}
    (h : Ends K w status addr) (handled : handleForwardReply w K.reqId status addr = .ok (w', ret)) :
    Over K.number w' := by
  obtain ⟨m, cmd, id, -, -, -, resumed, -, after⟩ := h
  rw [resumed, resumeAfterContext] at handled
  split at handled
  · cases handled
  · rename_i w₂ left removed
    exact after w' ((leads_removeTimeout removed).trans (leads_processMessages handled))

theorem Waits.not_ends {K : Group} {w : State} {status : Nat} {addr : Addr}
    (h : Waits K w status addr) : ¬ Ends K w status addr := by
  obtain ⟨w', handled, ctx⟩ := h
  intro ends
  exact (ends.over handled).2 K.slot ctx

/-! ## Runs -/

section Runs

variable {K : Group} {w₁ : State}

theorem Answered.leads {seen : List Addr} {w : State} (h : Answered K w₁ seen w) : Leads w₁ w := by
  induction h with
  | start => exact .refl _
  | reply before status addr handled ih => exact ih.trans (leads_handleForwardReply handled)
  | pass before other ih => exact ih.trans other.path

/-- After any replies to the context, it is waiting for more bits or over. -/
theorem Answered.state {seen : List Addr} {w : State} (h : Answered K w₁ seen w)
    (start : Gathered K [] w₁) (positive : 1 ≤ K.need)
    (numbered : ∀ w, Leads w₁ w → Numbered w) (members : ∀ a ∈ seen, a ∈ K.dests) :
    ((bitsOf K.dests seen).card < K.need ∧ Gathered K seen w) ∨
      (K.need ≤ (bitsOf K.dests seen).card ∧ Over K.number w) := by
  induction h with
  | start => exact Or.inl ⟨positive, start⟩
  | @reply seen w w' ret before status addr handled ih =>
    have member : addr ∈ K.dests := members addr (by simp)
    rcases ih fun a ha => members a (by simp [ha]) with ⟨few, gathered⟩ | ⟨enough, done⟩
    · by_cases more : (bitsOf K.dests (seen ++ [addr])).card < K.need
      · obtain ⟨w₂, same, later⟩ := gathered.reply status member more
        rw [same] at handled
        cases handled
        exact Or.inl ⟨more, later⟩
      · have last := not_lt.mp more
        exact Or.inr ⟨last,
          (gathered.ends (numbered w before.leads) status member few last).over handled⟩
    · have more : K.need ≤ (bitsOf K.dests (seen ++ [addr])).card :=
        enough.trans (card_bitsOf_concat_le _ seen addr)
      exact Or.inr ⟨more, done.leads (leads_handleForwardReply handled)⟩
  | pass before other ih =>
    rcases ih members with ⟨few, gathered⟩ | ⟨enough, done⟩
    · exact Or.inl ⟨few, gathered.undisturbed other⟩
    · exact Or.inr ⟨enough, done.leads other.path⟩

/-- Replies whose bits are too few can all be handled. -/
theorem exists_answered (start : Gathered K [] w₁) (seen : List Addr)
    (members : ∀ a ∈ seen, a ∈ K.dests) (few : (bitsOf K.dests seen).card < K.need) :
    ∃ w, Answered K w₁ seen w ∧ Gathered K seen w := by
  induction seen using List.reverseRecOn with
  | nil => exact ⟨w₁, .start, start⟩
  | append_singleton seen addr ih =>
    have fewer : (bitsOf K.dests seen).card < K.need :=
      (card_bitsOf_concat_le _ seen addr).trans_lt few
    obtain ⟨w, answered, gathered⟩ := ih (fun a ha => members a (by simp [ha])) fewer
    obtain ⟨w', handled, later⟩ := gathered.reply 0 (members addr (by simp)) few
    exact ⟨w', .reply answered 0 addr handled, later⟩

end Runs

/-! ## Completion in time -/

section Completion

variable {K : Group} {w₀ w₁ : State} {m cmd : Nat}

theorem Begins.dests_ne_nil (h : Begins K w₀ m cmd) : K.dests ≠ [] := by
  rw [← h.dests, destinations, branches, branchesFrom]
  split
  · simp
  · simp

theorem Begins.gathered (h : Begins K w₀ m cmd) (used : InUse w₀ K.slot)
    (started : startForward w₀ K.slot m cmd = .ok (w₁, true)) : Gathered K [] w₁ := by
  obtain ⟨sending, out, -, whole, -⟩ := startForward_spec used started
  obtain ⟨begun, -⟩ := startForward_clean used h.fresh h.idle started
  have slots := (whole (forwardSucceeds_of_sent used started)).1 K.slot
  have here := beginContext_req w₀ K.slot cmd
  rw [if_pos h.idle] at here
  have mem : reqMem w₁ K.slot = reqMem w₀ K.slot :=
    (sending.reqMem (beginContext_inUse cmd used)).trans (beginContext_reqMem w₀ K.slot cmd)
  have current : (w₁.reqs K.slot).currCmd = some cmd := by
    have same := sending.core K.slot
    simp only [core, Prod.mk.injEq] at same
    rw [same.2.2.2.2.2.2.2.1, here]
    exact h.current
  refine ⟨?_, ?_, ?_, ?_, ?_⟩
  · rw [slots.1, here]
    exact h.live
  · rw [begun.ctx, h.number]
  · rw [standing, slots.2, current, mem, here]
    simp only [h.message, h.begins, h.dests]
  · rw [begun.mask]
    exact setBits_zero
  · rw [begun.left, h.need]
    simp [bitsOf]

/-- The messages that `start_forward` sends go to the destinations. -/
theorem Begins.sent_eq (h : Begins K w₀ m cmd) (used : InUse w₀ K.slot)
    (started : startForward w₀ K.slot m cmd = .ok (w₁, true)) {sent : List Addr}
    (record : forwards w₁ =
      (sent.map fun addr => (K.reqId, addr, some K.number)).reverse ++ forwards w₀) :
    sent = K.dests := by
  have all := (startForward_clean used h.fresh h.idle started).2 (forwardSucceeds_of_sent used started)
  rw [SentToAll, record] at all
  have same := List.reverse_inj.mp (List.append_cancel_right all)
  rw [← h.dests, destinations]
  have addrs := congrArg (List.map fun t => t.2.1) same
  simpa [List.map_map, Function.comp_def] using addrs

theorem Begins.record (h : Begins K w₀ m cmd) (used : InUse w₀ K.slot)
    (started : startForward w₀ K.slot m cmd = .ok (w₁, true)) :
    forwards w₁ = (K.dests.map fun addr => (K.reqId, addr, some K.number)).reverse ++ forwards w₀ := by
  have all := (startForward_clean used h.fresh h.idle started).2 (forwardSucceeds_of_sent used started)
  rw [all, ← h.dests, destinations, List.map_map, h.live, h.number]
  rfl

/-- With a bit for each position, or when the first reply is enough, the context
ends in time. -/
theorem inTime_of_counts (start : Gathered K [] w₁) (positive : 1 ≤ K.need)
    (numbered : ∀ w, Leads w₁ w → Numbered w)
    (counts : ∀ seen rest, (seen ++ rest).Perm K.dests →
      min (bitsOf K.dests seen).card K.need = min seen.length K.need)
    {seen rest : List Addr} {addr : Addr} (order : (seen ++ addr :: rest).Perm K.dests) {w : State}
    (answered : Answered K w₁ seen w) : InTime K w seen.length addr := by
  have member : addr ∈ K.dests := order.mem_iff.mp (by simp)
  have members : ∀ a ∈ seen, a ∈ K.dests := fun a ha => order.mem_iff.mp (by simp [ha])
  have before := counts seen (addr :: rest) order
  have after := counts (seen ++ [addr]) rest (by simpa using order)
  rw [List.length_append, List.length_singleton] at after
  have state := answered.state start positive numbered members
  refine ⟨fun few status => ?_, fun last status => ?_, fun enough => ?_⟩
  · rcases state with ⟨-, gathered⟩ | ⟨reached, -⟩
    · obtain ⟨w', handled, later⟩ := gathered.reply status member (by omega)
      exact ⟨w', handled, later.ctx⟩
    · omega
  · rcases state with ⟨fewer, gathered⟩ | ⟨reached, -⟩
    · exact gathered.ends (numbered w answered.leads) status member fewer (by omega)
    · omega
  · rcases state with ⟨fewer, -⟩ | ⟨-, done⟩
    · omega
    · exact done

/-- Two positions that share a bit, answered first, delay the end of the context. -/
theorem late_of_shared (start : Gathered K [] w₁) (more : 2 ≤ K.need) {a b : Addr}
    (pair : [a, b].Sublist K.dests) (same : bitOf K.dests a = bitOf K.dests b) :
    ∃ seen addr rest w, (seen ++ addr :: rest).Perm K.dests ∧ Answered K w₁ seen w ∧
      seen.length + 1 = K.need ∧ Waits K w 0 addr := by
  obtain ⟨others, perm⟩ := pair.exists_perm_append
  have long : K.need ≤ (a :: b :: others).length := by
    have := perm.length_eq
    have := K.possible
    simp only [List.length_append, List.length_cons, List.length_nil] at *
    omega
  -- of the first `n_ack` replies, two share their bit
  obtain ⟨k, need⟩ : ∃ k, K.need = k + 2 := ⟨K.need - 2, by omega⟩
  have cut : (a :: b :: others).take K.need = a :: b :: others.take k := by rw [need]; rfl
  have whole : (bitsOf K.dests ((a :: b :: others).take K.need)).card < K.need := by
    rw [cut]
    have := card_bitsOf_shared same (others.take k)
    have := List.length_take_le k others
    omega
  have nonempty : (a :: b :: others).take K.need ≠ [] := by rw [cut]; simp
  obtain ⟨seen, addr, split⟩ : ∃ seen addr, (a :: b :: others).take K.need = seen ++ [addr] :=
    ⟨_, _, (List.dropLast_append_getLast nonempty).symm⟩
  have length : seen.length + 1 = K.need := by
    have := congrArg List.length split
    rw [List.length_take, List.length_append, List.length_singleton] at this
    omega
  have order : (seen ++ addr :: (a :: b :: others).drop K.need).Perm K.dests := by
    have parts := List.take_append_drop K.need (a :: b :: others)
    rw [split, List.append_assoc, List.singleton_append] at parts
    rw [parts]
    exact perm.symm
  have members : ∀ x ∈ seen ++ [addr], x ∈ K.dests := by
    intro x hx
    refine order.mem_iff.mp ?_
    simp only [List.mem_append, List.mem_cons] at hx ⊢
    tauto
  rw [split] at whole
  have fewer : (bitsOf K.dests seen).card < K.need :=
    (card_bitsOf_concat_le _ seen addr).trans_lt whole
  obtain ⟨w, answered, gathered⟩ :=
    exists_answered start seen (fun x hx => members x (by simp [hx])) fewer
  obtain ⟨w', handled, later⟩ := gathered.reply 0 (members addr (by simp)) whole
  exact ⟨seen, addr, _, w, order, answered, length, w', handled, later.ctx⟩

/-- The context ends in time, whatever the order of the replies, exactly when one
reply is needed or no two of the positions share a bit. -/
theorem allInTime_iff (h : Begins K w₀ m cmd) (used : InUse w₀ K.slot)
    (started : startForward w₀ K.slot m cmd = .ok (w₁, true))
    (numbered : ∀ w, Leads w₁ w → Numbered w) :
    AllInTime K w₀ w₁ ↔ K.need = 1 ∨ 2 ≤ K.need ∧ K.dests.Nodup ∧ K.dests.length ≤ 32 := by
  have start := h.gathered used started
  constructor
  · intro inTime
    have each := inTime K.dests (h.record used started)
    by_cases one : K.need = 1
    · exact Or.inl one
    · by_cases more : 2 ≤ K.need
      · refine Or.inr ⟨more, apart_iff.mp ?_⟩
        refine List.pairwise_iff_forall_sublist.mpr fun {a b} pair same => ?_
        obtain ⟨seen, addr, rest, w, order, answered, length, waits⟩ :=
          late_of_shared start more pair same
        exact waits.not_ends ((each seen addr rest order w answered).ends length 0)
      · -- no reply is needed: the context would have to be over before the first
        obtain ⟨addr, rest, e⟩ := List.exists_cons_of_ne_nil h.dests_ne_nil
        have done := (each [] addr rest (by rw [e]; rfl) w₁ .start).past (by omega)
        exact absurd start.ctx (done.2 K.slot)
  · intro condition sent record seen addr rest order w answered
    rw [h.sent_eq used started record] at order
    refine inTime_of_counts start (by omega) numbered ?_ order answered
    rcases condition with one | ⟨-, distinct⟩
    · intro seen rest order
      rw [one]
      cases seen with
      | nil => rfl
      | cons a seen =>
        have : 0 < (bitsOf K.dests (a :: seen)).card :=
          Finset.card_pos.mpr ⟨bitOf K.dests a, by simp [bitsOf]⟩
        simp only [List.length_cons]
        omega
    · intro seen rest order
      rw [card_bitsOf (apart_iff.mpr distinct) order]

theorem bitsApart_iff (h : Begins K w₀ m cmd) :
    BitsApart K w₀ m cmd ↔ K.dests.Nodup ∧ K.dests.length ≤ 32 := by
  rw [← apart_iff, BitsApart]
  have forward : (cmdAt (reqMem w₀ K.slot) cmd).isForward = true := by rw [h.begins]; rfl
  have found {a : Addr} (member : a ∈ K.dests) :
      findForwardReplyId (reqMem w₀ K.slot) (some cmd) a (messageEnd (reqMem w₀ K.slot) m) =
        .ok (some (K.dests.idxOf a)) := by
    rw [findForwardReplyId_eq a forward, h.dests, if_pos member]
  refine List.pairwise_iff_forall_sublist.trans (Iff.trans ?_ List.pairwise_iff_forall_sublist.symm)
  constructor
  · intro apart a b pair same
    have inside := pair.subset
    exact apart pair _ _ (found (inside (by simp))) (found (inside (by simp)))
      (ackBit_eq_iff.mpr same)
  · intro apart a b pair id id' hid hid' same
    have inside := pair.subset
    rw [found (inside (by simp))] at hid hid'
    cases hid
    cases hid'
    exact apart pair (ackBit_eq_iff.mp same)

end Completion

variable (storageDevices : Nat) (storageFd : Nat → Nat) (files : Nat → Mem) (enableDefrag : Bool)

/-- In every reachable state, for every context that has been sent out: when its
end comes in time, and when its positions have bits of their own. -/
theorem acknowledged_in_time_iff (K : Group) {w₀ w₁ : State} {m cmd : Nat}
    (reached : Leads (State.init storageDevices storageFd files enableDefrag) w₀)
    (begins : Begins K w₀ m cmd) (started : startForward w₀ K.slot m cmd = .ok (w₁, true)) :
    (AllInTime K w₀ w₁ ↔ K.need = 1 ∨ 2 ≤ K.need ∧ K.dests.Nodup ∧ K.dests.length ≤ 32) ∧
      (BitsApart K w₀ m cmd ↔ K.dests.Nodup ∧ K.dests.length ≤ 32) := by
  have housed := reached.housed (housed_init storageDevices storageFd files enableDefrag)
  have used : InUse w₀ K.slot := housed K.slot (by rw [begins.live]; exact K.named)
  have numbered : ∀ w, Leads w₁ w → Numbered w := fun w path =>
    numbered_leads (reached.trans ((leads_startForward started).trans path))
  exact ⟨allInTime_iff begins used started numbered, bitsApart_iff begins⟩

def twoPeers : Group where
  reqId := 0
  number := 0
  dests := [[10, 0, 0, 1, 0, 1], [10, 0, 0, 2, 0, 2]]
  need := 2
  named := Nat.zero_ne_add_one 4294967294
  possible := Nat.le_refl 2

/-- Two peers that both have to answer. -/
theorem acknowledged_in_time_iff_two_peers :
    ∃ w₁, startForward (enterRequest multiForwardArrived 0 0).1 0 0 12 = .ok (w₁, true) ∧
      AllInTime twoPeers (enterRequest multiForwardArrived 0 0).1 w₁ ∧
      BitsApart twoPeers (enterRequest multiForwardArrived 0 0).1 0 12 := by
  have evaluated : ((startForward (enterRequest multiForwardArrived 0 0).1 0 0 12).toOption.any
      fun s => s.2) = true := by decide +kernel
  obtain ⟨⟨w₁, sent⟩, ran, rfl⟩ := exists_of_any evaluated
  have started := toOption_eq_some ran
  have begins : Begins twoPeers (enterRequest multiForwardArrived 0 0).1 0 12 :=
    ⟨by decide +kernel, by decide +kernel, by decide +kernel, by decide +kernel, by decide +kernel,
      by decide +kernel, by decide +kernel, by decide +kernel, by decide +kernel⟩
  obtain ⟨time, bits⟩ := acknowledged_in_time_iff 0 (fun _ => 0) (fun _ _ => 0) true twoPeers
    reaches_multiForward begins started
  exact ⟨w₁, started, time.mpr (by decide), bits.mpr (by decide)⟩

/-- A request forwarded twice to the same peer, with both answers needed. -/
def repeatedForward : ConnInfo :=
  let bytes := message 1 0
    [.forward false 64 [10, 0, 0, 1, 0, 1] 50 1 2 1 0 .tcp,
     .forward true 64 [10, 0, 0, 1, 0, 1] 50 1 2 1 0 .tcp, .reply 16, .reply 16, .eom]
  { requesting with
    recvBuf := store (fun _ => 0) 0 bytes
    currRecvBuf := bytes.length
    currRecvSize := bufSize - bytes.length
    currProcBuf := bytes.length }

def repeatedForwardArrived : State :=
  ((State.init 0 (fun _ => 0) (fun _ _ => 0) true).setConn 0 repeatedForward).setConn 1 peer

def samePeer : Group where
  reqId := 0
  number := 0
  dests := [[10, 0, 0, 1, 0, 1], [10, 0, 0, 1, 0, 1]]
  need := 2
  named := Nat.zero_ne_add_one 4294967294
  possible := Nat.le_refl 2

/-- Both messages are sent and answered, and the request waits for ever. -/
theorem repeated_destination_waits :
    ∃ w₁ w, Leads (State.init 0 (fun _ => 0) (fun _ _ => 0) true)
        (enterRequest repeatedForwardArrived 0 0).1 ∧
      Begins samePeer (enterRequest repeatedForwardArrived 0 0).1 0 12 ∧
      startForward (enterRequest repeatedForwardArrived 0 0).1 0 0 12 = .ok (w₁, true) ∧
      Answered samePeer w₁ [[10, 0, 0, 1, 0, 1]] w ∧
      handleForwardReply w 0 0 [10, 0, 0, 1, 0, 1] = .ok (w, -1) ∧
      ¬ AllInTime samePeer (enterRequest repeatedForwardArrived 0 0).1 w₁ := by
  have evaluated : ((startForward (enterRequest repeatedForwardArrived 0 0).1 0 0 12).toOption.any
      fun s => s.2) = true := by decide +kernel
  obtain ⟨⟨w₁, sent⟩, ran, rfl⟩ := exists_of_any evaluated
  have started := toOption_eq_some ran
  have begins : Begins samePeer (enterRequest repeatedForwardArrived 0 0).1 0 12 :=
    ⟨by decide +kernel, by decide +kernel, by decide +kernel, by decide +kernel, by decide +kernel,
      by decide +kernel, by decide +kernel, by decide +kernel, by decide +kernel⟩
  have reached : Leads (State.init 0 (fun _ => 0) (fun _ _ => 0) true)
      (enterRequest repeatedForwardArrived 0 0).1 := by
    refine Leads.trans (leads_setConn _ 0 ?_) (Leads.trans (leads_setConn _ 1 ?_)
      (.one (.enter repeatedForwardArrived 0 0 rfl)))
    · exact ⟨rfl, fun _ => rfl, fun _ _ => rfl⟩
    · exact ⟨rfl, fun _ => rfl, fun _ _ => rfl⟩
  have used : InUse (enterRequest repeatedForwardArrived 0 0).1 samePeer.slot := by
    refine reached.housed (housed_init 0 (fun _ => 0) (fun _ _ => 0) true) samePeer.slot ?_
    rw [begins.live]
    exact samePeer.named
  have start := begins.gathered used started
  obtain ⟨w, answered, gathered⟩ :=
    exists_answered start [[10, 0, 0, 1, 0, 1]] (by decide) (by decide)
  obtain ⟨m, cmd, -, -, dropped⟩ := 
    gathered.handled 0 (show [10, 0, 0, 1, 0, 1] ∈ samePeer.dests by decide)
  rw [if_pos (by decide)] at dropped
  refine ⟨w₁, w, reached, begins, started, answered, dropped, fun inTime => ?_⟩
  have ends := (inTime samePeer.dests (begins.record used started) [[10, 0, 0, 1, 0, 1]]
    [10, 0, 0, 1, 0, 1] [] (by decide) w answered).ends rfl 0
  exact Waits.not_ends ⟨w, dropped, gathered.ctx⟩ ends

end Acknowledgements
