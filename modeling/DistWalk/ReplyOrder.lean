import DistWalk.Acknowledgements

/-!
# The status of a multi-forward

A FORWARD that waits for all of its destinations gets one reply from each, in any
order. The request then goes on with the status of the reply that came last,
whatever the others said.
-/

namespace ReplyOrder

open ByteMemory Message Connection Worker Node Transitions Requests Forwarding ForwardContext
  ForwardQuorum Acknowledgements

/-- What a request records of the replies to its context. -/
def recorded (r : ReqInfo) : Nat × Option Nat × Int × BitVec 32 :=
  (r.reqId, r.ctx, r.fwdRepliesLeft, r.fwdRepliesMask)

/-- Anything else that the worker does while the request stands in its context, a
retry of the forward included. -/
structure Aside (slot : Nat) (w w' : State) : Prop where
  path : Leads w w'
  request : recorded (w'.reqs slot) = recorded (w.reqs slot)
  stands : standing w' slot = standing w slot

/-- The replies handled so far, in order, each with the status its destination answers. -/
inductive Replied (K : Group) (status : Addr → Nat) (w₀ : State) : List Addr → State → Prop
  | start : Replied K status w₀ [] w₀
  | reply {seen : List Addr} {w w' : State} {ret : Int} (before : Replied K status w₀ seen w)
      (addr : Addr) (handled : handleForwardReply w K.reqId (status addr) addr = .ok (w', ret)) :
      Replied K status w₀ (seen ++ [addr]) w'
  | pass {seen : List Addr} {w w' : State} (before : Replied K status w₀ seen w)
      (other : Aside K.slot w w') : Replied K status w₀ seen w'

/-- This reply ends the context, and `s` is the status in the message of the request
when it goes on behind it. -/
def GoesOnWith (K : Group) (w : State) (given : Nat) (addr : Addr) (s : Nat) : Prop :=
  ∃ m id, (w.reqs K.slot).messagePtr = some m ∧ (w.reqs K.slot).ctx = some K.number ∧
    handleForwardReply w K.reqId given addr =
      resumeAfterContext (countReply w K.slot id) K.reqId K.slot m given ∧
    statusOf (reqMem (completeContext (countReply w K.slot id) K.slot m given) K.slot) m = s

/-- When the replies arrive in this order, the request goes on with status `s`. -/
def Outcome (K : Group) (status : Addr → Nat) (w₁ : State) (order : List Addr) (s : Nat) : Prop :=
  ∃ front last w, order = front ++ [last] ∧ Replied K status w₁ front w ∧
    GoesOnWith K w (status last) last s

/-- The status is the same for every order, and SUCCESS only if every reply was. -/
structure OrderFree (K : Group) (status : Addr → Nat) (w₁ : State) : Prop where
  same : ∀ order order' s s', order.Perm K.dests → order'.Perm K.dests →
    Outcome K status w₁ order s → Outcome K status w₁ order' s' → s = s'
  success : ∀ order, order.Perm K.dests → Outcome K status w₁ order statusSuccess →
    ∀ addr ∈ K.dests, status addr = statusSuccess

/-- The values that a reply has for its status. -/
def IsStatus (s : Nat) : Prop := s = statusSuccess ∨ s = statusTimeout ∨ s = statusErr

theorem statusOf_completeContext (w : State) (slot m : Nat) {status : Nat} (fits : status < 2 ^ 32) :
    statusOf (reqMem (completeContext w slot m status) slot) m = status := by
  have mem : reqMem (completeContext w slot m status) slot = setStatus (reqMem w slot) m status := by
    rw [completeContext, reqMem, setReq_self, ← reqMem_setMsgStatus]
    rfl
  rw [mem]
  exact u32_storeU32 _ _ fits

section Outcome

variable {K : Group} {status : Addr → Nat} {w₁ : State}

theorem gathered_aside {seen : List Addr} {w w' : State} (h : Gathered K seen w)
    (other : Aside K.slot w w') : Gathered K seen w' := by
  have request := other.request
  simp only [recorded, Prod.mk.injEq] at request
  obtain ⟨id, ctx, left, mask⟩ := request
  exact ⟨id.trans h.live, ctx.trans h.ctx, other.stands.trans h.stands, by rw [mask]; exact h.mask,
    left.trans h.left⟩

theorem Replied.leads {seen : List Addr} {w : State} (h : Replied K status w₁ seen w) : Leads w₁ w := by
  induction h with
  | start => exact .refl _
  | reply before addr handled ih => exact ih.trans (leads_handleForwardReply handled)
  | pass before other ih => exact ih.trans other.path

/-- Fewer replies than needed can all be handled. -/
theorem exists_replied (start : Gathered K [] w₁) (seen : List Addr)
    (members : ∀ a ∈ seen, a ∈ K.dests) (few : (bitsOf K.dests seen).card < K.need) :
    ∃ w, Replied K status w₁ seen w ∧ Gathered K seen w := by
  induction seen using List.reverseRecOn with
  | nil => exact ⟨w₁, .start, start⟩
  | append_singleton seen addr ih =>
    have fewer : (bitsOf K.dests seen).card < K.need :=
      (card_bitsOf_concat_le _ seen addr).trans_lt few
    obtain ⟨w, replied, gathered⟩ := ih (fun a ha => members a (by simp [ha])) fewer
    obtain ⟨w', handled, later⟩ := gathered.reply (status addr) (members addr (by simp)) few
    exact ⟨w', .reply replied addr handled, later⟩

/-- All the destinations are needed, and each has a bit of its own. -/
structure Waiting (K : Group) (w₁ : State) : Prop where
  start : Gathered K [] w₁
  numbered : ∀ w, Leads w₁ w → Numbered w
  all : K.need = K.dests.length
  apart : K.dests.Pairwise fun a b => bitOf K.dests a ≠ bitOf K.dests b
  nonempty : K.dests ≠ []

/-- All replies but one are too few. -/
theorem Waiting.fewer (h : Waiting K w₁) {front : List Addr} {last : Addr}
    (order : (front ++ [last]).Perm K.dests) : (bitsOf K.dests front).card < K.need := by
  have length := order.length_eq
  rw [List.length_append, List.length_singleton] at length
  rw [card_bitsOf h.apart order, h.all]
  omega

/-- As long as a destination has not replied, the request waits. -/
theorem Waiting.gathered (h : Waiting K w₁) {seen rest : List Addr} {w : State}
    (replied : Replied K status w₁ seen w) (order : (seen ++ rest).Perm K.dests) (left : rest ≠ []) :
    Gathered K seen w := by
  induction replied generalizing rest with
  | start => exact h.start
  | @reply seen w w' ret before addr handled ih =>
    have member : addr ∈ K.dests := order.mem_iff.mp (by simp)
    have few : (bitsOf K.dests (seen ++ [addr])).card < K.need := by
      have length := order.length_eq
      have more := List.length_pos_iff.mpr left
      rw [List.length_append] at length
      rw [card_bitsOf h.apart order, h.all]
      omega
    have order' : (seen ++ addr :: rest).Perm K.dests := by simpa using order
    have earlier := ih order' (List.cons_ne_nil _ _)
    obtain ⟨w₂, same, later⟩ := earlier.reply (status addr) member few
    rw [same] at handled
    cases handled
    exact later
  | pass before other ih => exact gathered_aside (ih order left) other

/-- The last reply ends the context with its own status. -/
theorem Waiting.last (h : Waiting K w₁) {front : List Addr} {last : Addr} {w : State} {given : Nat}
    (fits : given < 2 ^ 32) (order : (front ++ [last]).Perm K.dests)
    (replied : Replied K status w₁ front w) : GoesOnWith K w given last given := by
  have member : last ∈ K.dests := order.mem_iff.mp (by simp)
  have few : (bitsOf K.dests front).card < K.need := h.fewer order
  have enough : K.need ≤ (bitsOf K.dests (front ++ [last])).card := by
    have whole : (front ++ [last] ++ []).Perm K.dests := by simpa using order
    rw [card_bitsOf h.apart whole, h.all, ← order.length_eq]
  have gathered := h.gathered replied order (List.cons_ne_nil _ _)
  have ends := gathered.ends (h.numbered w replied.leads) given member few enough
  obtain ⟨m, cmd, id, message, -, ctx, resumed, -⟩ := ends
  exact ⟨m, id, message, ctx, resumed, statusOf_completeContext _ _ _ fits⟩

theorem GoesOnWith.status_eq {w : State} {given s : Nat} {addr : Addr} (fits : given < 2 ^ 32)
    (h : GoesOnWith K w given addr s) : s = given := by
  obtain ⟨m, id, -, -, -, status⟩ := h
  rw [← status, statusOf_completeContext _ _ _ fits]

/-- The outcome is the status of the reply that comes last. -/
theorem Waiting.outcome_iff (h : Waiting K w₁) (fits : ∀ a ∈ K.dests, status a < 2 ^ 32)
    {front : List Addr} {last : Addr} (order : (front ++ [last]).Perm K.dests) {s : Nat} :
    Outcome K status w₁ (front ++ [last]) s ↔ s = status last := by
  have small := fits last (order.mem_iff.mp (by simp))
  constructor
  · rintro ⟨front', last', w, same, -, onward⟩
    obtain ⟨rfl, e⟩ := List.append_inj' same rfl
    cases e
    exact onward.status_eq small
  · rintro rfl
    obtain ⟨w, replied, -⟩ := exists_replied h.start front
      (fun a ha => order.mem_iff.mp (by simp [ha])) (h.fewer order)
    exact ⟨front, last, w, rfl, replied, h.last small order replied⟩

/-- Any destination may be the last to reply. -/
theorem exists_order_ending {addr : Addr} (member : addr ∈ K.dests) :
    ∃ front, (front ++ [addr]).Perm K.dests := by
  refine ⟨K.dests.erase addr, ?_⟩
  exact (List.perm_append_singleton addr _).trans (List.perm_cons_erase member).symm

/-- The order does not matter exactly when the replies all say the same. -/
theorem Waiting.orderFree_iff (h : Waiting K w₁) (fits : ∀ a ∈ K.dests, status a < 2 ^ 32) :
    OrderFree K status w₁ ↔ ∀ a ∈ K.dests, ∀ b ∈ K.dests, status a = status b := by
  constructor
  · intro free a ha b hb
    obtain ⟨front, order⟩ := exists_order_ending ha
    obtain ⟨front', order'⟩ := exists_order_ending hb
    exact free.same _ _ _ _ order order' ((h.outcome_iff fits order).mpr rfl)
      ((h.outcome_iff fits order').mpr rfl)
  · intro agree
    have ending {order : List Addr} (perm : order.Perm K.dests) :
        ∃ front last, order = front ++ [last] ∧ last ∈ K.dests := by
      have nonempty : order ≠ [] := by
        rintro rfl
        exact h.nonempty (List.nil_perm.mp perm)
      have split := List.dropLast_append_getLast nonempty
      exact ⟨_, _, split.symm, perm.mem_iff.mp (List.getLast_mem nonempty)⟩
    refine ⟨?_, ?_⟩
    · intro order order' s s' perm perm' outcome outcome'
      obtain ⟨front, last, rfl, member⟩ := ending perm
      obtain ⟨front', last', rfl, member'⟩ := ending perm'
      rw [(h.outcome_iff fits perm).mp outcome, (h.outcome_iff fits perm').mp outcome']
      exact agree last member last' member'
    · intro order perm outcome addr inside
      obtain ⟨front, last, rfl, member⟩ := ending perm
      rw [(h.outcome_iff fits perm).mp outcome]
      exact agree addr inside last member

end Outcome

variable (storageDevices : Nat) (storageFd : Nat → Nat) (files : Nat → Mem) (enableDefrag : Bool)

/-- A context that has been sent out waits for its replies. -/
theorem waiting_of_started {K : Group} {w₀ w₁ : State} {m cmd : Nat}
    (reached : Leads (State.init storageDevices storageFd files enableDefrag) w₀)
    (begins : Begins K w₀ m cmd) (started : startForward w₀ K.slot m cmd = .ok (w₁, true))
    (all : K.need = K.dests.length) (distinct : K.dests.Nodup) (few : K.dests.length ≤ 31) :
    Waiting K w₁ := by
  have housed := reached.housed (housed_init storageDevices storageFd files enableDefrag)
  have used : InUse w₀ K.slot := housed K.slot (by rw [begins.live]; exact K.named)
  refine ⟨begins.gathered used started, fun w path => ?_, all, ?_, begins.dests_ne_nil⟩
  · exact numbered_leads (reached.trans ((leads_startForward started).trans path))
  · exact apart_iff.mpr ⟨distinct, by omega⟩

theorem isStatus_lt {s : Nat} (h : IsStatus s) : s < 2 ^ 32 := by
  rcases h with rfl | rfl | rfl <;> decide

/-- In every reachable state, for every context that waits for all of its
destinations: with which status the request goes on, and when the order of the
replies makes no difference. -/
theorem outcome_of_last_reply (K : Group) {w₀ w₁ : State} {m cmd : Nat}
    (reached : Leads (State.init storageDevices storageFd files enableDefrag) w₀)
    (begins : Begins K w₀ m cmd) (started : startForward w₀ K.slot m cmd = .ok (w₁, true))
    (all : K.need = K.dests.length) (distinct : K.dests.Nodup) (few : K.dests.length ≤ 31)
    (status : Addr → Nat) (known : ∀ a ∈ K.dests, IsStatus (status a)) :
    (∀ front last s, (front ++ [last]).Perm K.dests →
        (Outcome K status w₁ (front ++ [last]) s ↔ s = status last)) ∧
      (OrderFree K status w₁ ↔ ∀ a ∈ K.dests, ∀ b ∈ K.dests, status a = status b) := by
  have waiting := waiting_of_started storageDevices storageFd files enableDefrag reached begins started
    all distinct few
  have fits : ∀ a ∈ K.dests, status a < 2 ^ 32 := fun a ha => isStatus_lt (known a ha)
  exact ⟨fun front last s order => waiting.outcome_iff fits order, waiting.orderFree_iff fits⟩

/-- The first peer answers with SUCCESS, the second with TIMEOUT. -/
def oneTimedOut (addr : Addr) : Nat :=
  if addr = [10, 0, 0, 2, 0, 2] then statusTimeout else statusSuccess

theorem oneTimedOut_known : ∀ a ∈ twoPeers.dests, IsStatus (oneTimedOut a) := by
  intro a ha
  simp only [oneTimedOut]
  split
  · exact Or.inr (Or.inl rfl)
  · exact Or.inl rfl

/-- The request sent to the two peers. -/
theorem twoPeers_started : ∃ w₁,
    startForward (enterRequest multiForwardArrived 0 0).1 0 0 12 = .ok (w₁, true) ∧
      Begins twoPeers (enterRequest multiForwardArrived 0 0).1 0 12 := by
  have evaluated : ((startForward (enterRequest multiForwardArrived 0 0).1 0 0 12).toOption.any
      fun s => s.2) = true := by decide +kernel
  obtain ⟨⟨w₁, sent⟩, ran, rfl⟩ := exists_of_any evaluated
  exact ⟨w₁, toOption_eq_some ran,
    ⟨by decide +kernel, by decide +kernel, by decide +kernel, by decide +kernel, by decide +kernel,
      by decide +kernel, by decide +kernel, by decide +kernel, by decide +kernel⟩⟩

theorem outcome_of_last_reply_two_peers : ∃ w₁,
    startForward (enterRequest multiForwardArrived 0 0).1 0 0 12 = .ok (w₁, true) ∧
      Outcome twoPeers oneTimedOut w₁ [[10, 0, 0, 2, 0, 2], [10, 0, 0, 1, 0, 1]] statusSuccess := by
  obtain ⟨w₁, started, begins⟩ := twoPeers_started
  obtain ⟨outcome, -⟩ := outcome_of_last_reply 0 (fun _ => 0) (fun _ _ => 0) true twoPeers
    reaches_multiForward begins started rfl (by decide) (by decide) oneTimedOut oneTimedOut_known
  exact ⟨w₁, started, (outcome [[10, 0, 0, 2, 0, 2]] _ _ (by decide)).mpr rfl⟩

/-- One peer succeeds, the other one times out: whether the request goes on with
SUCCESS depends on which of them replies last. -/
theorem reply_order_matters : ∃ w₁,
    Leads (State.init 0 (fun _ => 0) (fun _ _ => 0) true) (enterRequest multiForwardArrived 0 0).1 ∧
      Begins twoPeers (enterRequest multiForwardArrived 0 0).1 0 12 ∧
      startForward (enterRequest multiForwardArrived 0 0).1 0 0 12 = .ok (w₁, true) ∧
      Outcome twoPeers oneTimedOut w₁ [[10, 0, 0, 2, 0, 2], [10, 0, 0, 1, 0, 1]] statusSuccess ∧
      Outcome twoPeers oneTimedOut w₁ [[10, 0, 0, 1, 0, 1], [10, 0, 0, 2, 0, 2]] statusTimeout ∧
      ¬ OrderFree twoPeers oneTimedOut w₁ := by
  obtain ⟨w₁, started, begins⟩ := twoPeers_started
  have waiting := waiting_of_started 0 (fun _ => 0) (fun _ _ => 0) true reaches_multiForward begins
    started rfl (by decide) (by decide)
  have fits : ∀ a ∈ twoPeers.dests, oneTimedOut a < 2 ^ 32 :=
    fun a ha => isStatus_lt (oneTimedOut_known a ha)
  have lastOne : List.Perm ([[10, 0, 0, 2, 0, 2]] ++ [[10, 0, 0, 1, 0, 1]]) twoPeers.dests := by
    decide
  have lastTwo : List.Perm ([[10, 0, 0, 1, 0, 1]] ++ [[10, 0, 0, 2, 0, 2]]) twoPeers.dests := by
    decide
  have first : Outcome twoPeers oneTimedOut w₁ [[10, 0, 0, 2, 0, 2], [10, 0, 0, 1, 0, 1]]
      statusSuccess :=
    (waiting.outcome_iff fits lastOne).mpr rfl
  have second : Outcome twoPeers oneTimedOut w₁ [[10, 0, 0, 1, 0, 1], [10, 0, 0, 2, 0, 2]]
      statusTimeout :=
    (waiting.outcome_iff fits lastTwo).mpr rfl
  refine ⟨w₁, reaches_multiForward, begins, started, first, second, fun free => ?_⟩
  have same := free.same _ _ _ _ (by decide) (by decide) first second
  cases same

end ReplyOrder
