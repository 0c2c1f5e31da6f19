import DistWalk.Worker

/-!
# Timeouts of forwarded requests

One timerfd serves all pending timeouts. The keys of `timeout_queue` are
microseconds from a base that moves with the top of the queue: the time since
the base is the key of the top less what the timer has left. Durations are
unbounded integers, the timer counts in nanoseconds.
-/

namespace Timeout

open Message PriorityQueue Worker

/-- The `it_value` of a `struct itimerspec`. -/
structure ItimerSpec where
  sec : Int
  nsec : Int

def itsToUs (t : ItimerSpec) : Int := t.sec * 1000000 + t.nsec.tdiv 1000

def usToIts (micros : Int) : ItimerSpec := ⟨micros.tdiv 1000000, micros.tmod 1000000 * 1000⟩

/-- A zero value disarms the timer, a value out of range is refused. -/
def timerfdSettime (w : State) (its : ItimerSpec) : Except Abort State :=
  if its.sec < 0 ∨ its.nsec < 0 ∨ 999999999 < its.nsec then .error .sysCheck
  else
    let value := (its.sec * 1000000000 + its.nsec).toNat
    .ok { w with timer := ⟨value, value, pqueueTop w.timeoutQueue⟩ }

def timerfdGettime (w : State) : ItimerSpec :=
  ⟨w.timer.left / 1000000000, w.timer.left % 1000000000⟩

/-- Microseconds left on the timer, as the code reads them. -/
def remaining (w : State) : Int := itsToUs (timerfdGettime w)

/-- The passage of time. -/
def elapse (w : State) (ns : Nat) : State :=
  { w with
    timer := { w.timer with left := w.timer.left - ns }
    clock := { w.clock with now := w.clock.now + ns } }

def Clock.schedule (k : Clock) (node : Nat) (micros : Int) : Clock :=
  { k with deadline := Function.update k.deadline node (k.now + micros * 1000) }

/-- `new_micros` of `insert_timeout`. -/
def insertKey (w : State) (micros : Int) : Int :=
  match pqueueTop w.timeoutQueue with
  | none => micros
  | some top => micros + w.timeElapsed + (w.timeoutQueue.nodes top).key - remaining w

def insertTimeout (w : State) (reqId : Nat) (micros : Int) : Except Abort State :=
  match reqGetById w reqId with
  | none => .ok w
  | some slot =>
    if (w.reqs slot).timeoutNode ≠ none then .ok w
    else
      let ins := pqueueInsert w.timeoutQueue (insertKey w micros) reqId
      let w := { w with
        timeElapsed := if w.timeoutQueue.size > 0 then w.timeElapsed else 0
        timeoutQueue := ins.1
        clock := Clock.schedule w.clock ins.2 micros }
      let w := w.setReq slot { w.reqs slot with timeoutNode := some ins.2 }
      if pqueueTop ins.1 = some ins.2 then timerfdSettime w (usToIts micros) else .ok w

/-- Re-arm after the head has left the queue, `elapsed` after the base. -/
def rearm (w : State) (elapsed : Int) : Except Abort State :=
  match pqueueTop w.timeoutQueue with
  | some next =>
    timerfdSettime { w with timeElapsed := elapsed }
      (usToIts ((w.timeoutQueue.nodes next).key - elapsed))
  | none => timerfdSettime { w with timeElapsed := 0 } (usToIts 0)

/-- Returns the time that was left before the timeout, or -1. -/
def removeTimeout (w : State) (reqId : Nat) : Except Abort (State × Int) :=
  match reqGetById w reqId with
  | none => .ok (w, -1)
  | some slot =>
    match (w.reqs slot).timeoutNode, pqueueTop w.timeoutQueue with
    | none, _ => .ok (w, -1)
    | some _, none => .error .segfault
    | some node, some top =>
      let elapsed := (w.timeoutQueue.nodes top).key - remaining w
      let left := (w.timeoutQueue.nodes node).key - elapsed
      let w := { w with timeoutQueue := pqueueRemove w.timeoutQueue node }
      let w := w.setReq slot { w.reqs slot with timeoutNode := none }
      if node ≠ top then .ok (w, left) else (rearm w elapsed).map (·, left)

/-! ## The timer -/

theorem remaining_eq (w : State) : remaining w = w.timer.left / 1000 := by
  have whole : ((w.timer.left : Int) % 1000000000).tdiv 1000 = w.timer.left % 1000000000 / 1000 :=
    Int.tdiv_eq_ediv_of_nonneg (by omega)
  simp only [remaining, itsToUs, timerfdGettime, whole]
  omega

theorem remaining_nonneg (w : State) : 0 ≤ remaining w := by
  rw [remaining_eq]
  omega

theorem timerfdSettime_usToIts (w : State) {micros : Int} (h : 0 ≤ micros) :
    timerfdSettime w (usToIts micros) =
      .ok { w with timer :=
        ⟨micros.toNat * 1000, micros.toNat * 1000, pqueueTop w.timeoutQueue⟩ } := by
  have sec : micros.tdiv 1000000 = micros / 1000000 := Int.tdiv_eq_ediv_of_nonneg h
  have nsec : micros.tmod 1000000 = micros % 1000000 := Int.tmod_eq_emod_of_nonneg h
  have value : (micros / 1000000 * 1000000000 + micros % 1000000 * 1000).toNat =
      micros.toNat * 1000 := by omega
  have valid : ¬ (micros / 1000000 < 0 ∨ micros % 1000000 * 1000 < 0 ∨
      999999999 < micros % 1000000 * 1000) := by omega
  simp only [timerfdSettime, usToIts, sec, nsec, value, if_neg valid]

/-- A negative delay is refused by the kernel. -/
theorem timerfdSettime_negative (w : State) {micros : Int} (h : micros < 0) :
    timerfdSettime w (usToIts micros) = .error .sysCheck := by
  have sum : micros.tdiv 1000000 * 1000000 + micros.tmod 1000000 = micros := by
    have := Int.tmod_add_mul_tdiv micros 1000000
    omega
  have sec : micros.tdiv 1000000 ≤ 0 := by
    rw [show micros = -(-micros) by omega, Int.neg_tdiv]
    have := Int.tdiv_nonneg (a := -micros) (b := 1000000) (by omega) (by omega)
    omega
  have nsec : micros.tmod 1000000 ≤ 0 := by
    rw [show micros = -(-micros) by omega, Int.neg_tmod]
    have := Int.tmod_nonneg 1000000 (a := -micros) (by omega)
    omega
  have invalid : micros.tdiv 1000000 < 0 ∨ micros.tmod 1000000 * 1000 < 0 ∨
      999999999 < micros.tmod 1000000 * 1000 := by omega
  exact if_pos invalid

theorem timerfdSettime_eq_ok {w w' : State} {micros : Int}
    (h : timerfdSettime w (usToIts micros) = .ok w') :
    0 ≤ micros ∧ w' = { w with timer :=
      ⟨micros.toNat * 1000, micros.toNat * 1000, pqueueTop w.timeoutQueue⟩ } := by
  by_cases hm : 0 ≤ micros
  · rw [timerfdSettime_usToIts w hm] at h
    exact ⟨hm, (Except.ok.inj h).symm⟩
  · rw [timerfdSettime_negative w (by omega)] at h
    cases h

/-! ## Frames -/

/-- Of the tables and the outside, at most a `timeout_node` has changed. -/
structure Retimed (w w' : State) : Prop where
  conns : w'.conns = w.conns
  reqs : ∀ s, ∃ node, w'.reqs s = { w.reqs s with timeoutNode := node }
  effects : w'.effects = w.effects
  nextCtx : w'.nextCtx = w.nextCtx

theorem Retimed.refl (w : State) : Retimed w w := ⟨rfl, fun s => ⟨(w.reqs s).timeoutNode, rfl⟩, rfl, rfl⟩

theorem Retimed.trans {a b c : State} (h : Retimed a b) (h' : Retimed b c) : Retimed a c where
  conns := h'.conns.trans h.conns
  reqs := by
    intro s
    obtain ⟨node, e⟩ := h.reqs s
    obtain ⟨node', e'⟩ := h'.reqs s
    exact ⟨node', by rw [e', e]⟩
  effects := h'.effects.trans h.effects
  nextCtx := h'.nextCtx.trans h.nextCtx

theorem retimed_setNode (w : State) (slot : Nat) (node : Option Nat) :
    Retimed w (w.setReq slot { w.reqs slot with timeoutNode := node }) := by
  refine ⟨rfl, fun s => ?_, rfl, rfl⟩
  by_cases own : s = slot
  · subst own
    exact ⟨node, by simp [State.setReq]⟩
  · exact ⟨(w.reqs s).timeoutNode, by simp [State.setReq, own]⟩

theorem timerfdSettime_retimed {w w' : State} {its : ItimerSpec}
    (h : timerfdSettime w its = .ok w') : Retimed w w' := by
  unfold timerfdSettime at h
  split at h
  · cases h
  · cases h
    exact ⟨rfl, (Retimed.refl w).reqs, rfl, rfl⟩

theorem insertTimeout_retimed {w w' : State} {reqId : Nat} {micros : Int}
    (h : insertTimeout w reqId micros = .ok w') : Retimed w w' := by
  simp only [insertTimeout] at h
  split at h
  · cases h
    exact .refl w
  · rename_i slot _
    split at h
    · cases h
      exact .refl w
    · have named := retimed_setNode w slot
        (some (pqueueInsert w.timeoutQueue (insertKey w micros) reqId).2)
      split at h
      · have set := timerfdSettime_retimed h
        exact ⟨set.conns, (named.trans ⟨set.conns, set.reqs, set.effects, set.nextCtx⟩).reqs,
          set.effects, set.nextCtx⟩
      · cases h
        exact ⟨rfl, named.reqs, rfl, rfl⟩

theorem rearm_retimed {w w' : State} {elapsed : Int} (h : rearm w elapsed = .ok w') :
    Retimed w w' := by
  unfold rearm at h
  split at h
  · have set := timerfdSettime_retimed h
    exact ⟨set.conns, set.reqs, set.effects, set.nextCtx⟩
  · have set := timerfdSettime_retimed h
    exact ⟨set.conns, set.reqs, set.effects, set.nextCtx⟩

theorem removeTimeout_retimed {w w' : State} {reqId : Nat} {left : Int}
    (h : removeTimeout w reqId = .ok (w', left)) : Retimed w w' := by
  simp only [removeTimeout] at h
  split at h
  · cases h
    exact .refl w
  · rename_i slot _
    split at h
    · cases h
      exact .refl w
    · cases h
    · have cleared := retimed_setNode w slot none
      split at h
      · cases h
        exact ⟨rfl, cleared.reqs, rfl, rfl⟩
      · revert h
        cases armed : rearm _ _ with
        | error e => intro h; cases h
        | ok w₁ =>
          intro h
          cases h
          have set := rearm_retimed armed
          exact ⟨set.conns, (cleared.trans ⟨set.conns, set.reqs, set.effects, set.nextCtx⟩).reqs,
            set.effects, set.nextCtx⟩

/-! ## Slots and nodes

`req_unlink` and `req_alloc` leave `timeout_node` alone, so whatever happens to
the requests, the nodes of the queue and the slots that name one stay paired. -/

structure Slotted (w : State) : Prop where
  queue : WellFormed w.timeoutQueue
  capacity : w.timeoutQueue.capacity = maxReqs
  node : ∀ n, Holds w.timeoutQueue n →
    (w.reqs (slotOf (w.timeoutQueue.nodes n).data)).timeoutNode = some n
  slot : ∀ s n, (w.reqs s).timeoutNode = some n →
    Holds w.timeoutQueue n ∧ slotOf (w.timeoutQueue.nodes n).data = s

theorem reqGetById_eq_some {w : State} {reqId slot : Nat} :
    reqGetById w reqId = some slot ↔ slot = slotOf reqId ∧ (w.reqs slot).reqId = reqId := by
  unfold reqGetById
  by_cases h : (w.reqs (slotOf reqId)).reqId = reqId
  · rw [if_neg (not_not.mpr h), Option.some.injEq]
    constructor
    · rintro rfl
      exact ⟨rfl, h⟩
    · exact fun e => e.1.symm
  · rw [if_pos h]
    constructor
    · intro e; cases e
    · rintro ⟨rfl, e⟩
      exact absurd e h

theorem slotOf_lt (reqId : Nat) : slotOf reqId < maxReqs := Nat.mod_lt _ (by decide)

section Slotted

variable {w : State} (h : Slotted w)
include h

/-- Distinct heap positions belong to distinct slots. -/
theorem Slotted.position_injective {i j : Nat} (hi : i < w.timeoutQueue.size)
    (hj : j < w.timeoutQueue.size)
    (same : slotOf (w.timeoutQueue.nodes (w.timeoutQueue.heap i)).data =
      slotOf (w.timeoutQueue.nodes (w.timeoutQueue.heap j)).data) : i = j := by
  have ni := h.node _ (h.queue.indexed.holds hi)
  have nj := h.node _ (h.queue.indexed.holds hj)
  rw [same, nj] at ni
  exact heap_injective h.queue.indexed hi hj (Option.some.inj ni).symm

/-- A slot without a node leaves room for one more. -/
theorem Slotted.room {s : Nat} (hs : s < maxReqs) (free : (w.reqs s).timeoutNode = none) :
    w.timeoutQueue.size < w.timeoutQueue.capacity := by
  rcases Nat.lt_or_ge w.timeoutQueue.size w.timeoutQueue.capacity with lt | full
  · exact lt
  · exfalso
    rw [h.capacity] at full
    let place : Fin maxReqs → Fin maxReqs := fun i =>
      ⟨slotOf (w.timeoutQueue.nodes (w.timeoutQueue.heap i)).data, slotOf_lt _⟩
    have injective : Function.Injective place := by
      intro i j e
      have := h.position_injective (Nat.lt_of_lt_of_le i.2 full) (Nat.lt_of_lt_of_le j.2 full)
        (congrArg Fin.val e)
      exact Fin.ext this
    obtain ⟨i, hi⟩ := Finite.injective_iff_surjective.mp injective ⟨s, hs⟩
    have held := h.node _ (h.queue.indexed.holds (Nat.lt_of_lt_of_le i.2 full))
    have at_s : slotOf (w.timeoutQueue.nodes (w.timeoutQueue.heap i)).data = s :=
      congrArg Fin.val hi
    rw [at_s, free] at held
    cases held

theorem Slotted.size_le : w.timeoutQueue.size ≤ maxReqs := h.capacity ▸ h.queue.bounded

end Slotted

/-! ## What the two operations do -/

/-- The node is queued for the request and the timer set if it is the new top. -/
structure Queued (w : State) (reqId : Nat) (micros : Int) (node : Nat) (w' : State) : Prop where
  live : reqGetById w reqId = some (slotOf reqId)
  vacant : (w.reqs (slotOf reqId)).timeoutNode = none
  queue : Inserted w.timeoutQueue (insertKey w micros) reqId w'.timeoutQueue node
  reqs : w'.reqs = Function.update w.reqs (slotOf reqId)
    { w.reqs (slotOf reqId) with timeoutNode := some node }
  elapsed : w'.timeElapsed = if w.timeoutQueue.size > 0 then w.timeElapsed else 0
  clock : w'.clock = Clock.schedule w.clock node micros
  frame : w' = { w with
    timeoutQueue := w'.timeoutQueue, reqs := w'.reqs, timeElapsed := w'.timeElapsed
    timer := w'.timer, clock := w'.clock }
  timer : (pqueueTop w'.timeoutQueue = some node ∧ 0 ≤ micros ∧
      w'.timer = ⟨micros.toNat * 1000, micros.toNat * 1000, some node⟩) ∨
    (pqueueTop w'.timeoutQueue = pqueueTop w.timeoutQueue ∧ w.timeoutQueue.size ≠ 0 ∧
      w'.timer = w.timer)

/-- The only node of a queue is its top. -/
theorem pqueueTop_only {q : PQueue} {node : Nat} (hs : q.size = 1) (held : Holds q node) : pqueueTop q = some node := by
  rw [pqueueTop_eq_heap (by omega)]
  have at0 : (q.nodes node).heapId = 0 := by
    have := held.1
    omega
  rw [← held.2, at0]

theorem insertTimeout_spec {w w' : State} {reqId : Nat} {micros : Int} (S : Slotted w)
    (h : insertTimeout w reqId micros = .ok w') :
    w' = w ∨ ∃ node, Queued w reqId micros node w' := by
  unfold insertTimeout at h
  split at h
  · exact Or.inl (Except.ok.inj h).symm
  · rename_i slot found
    obtain ⟨rfl, -⟩ := reqGetById_eq_some.mp found
    by_cases vacant : (w.reqs (slotOf reqId)).timeoutNode = none
    · refine Or.inr ⟨(pqueueInsert w.timeoutQueue (insertKey w micros) reqId).2, ?_⟩
      simp only [vacant, ne_eq, not_true_eq_false, if_false] at h
      have room := S.room (slotOf_lt reqId) vacant
      have ins := pqueueInsert_spec S.queue room (insertKey w micros) reqId
      by_cases top : pqueueTop (pqueueInsert w.timeoutQueue (insertKey w micros) reqId).1 =
          some (pqueueInsert w.timeoutQueue (insertKey w micros) reqId).2
      · rw [if_pos top] at h
        obtain ⟨positive, rfl⟩ := timerfdSettime_eq_ok h
        exact ⟨found, vacant, ins, rfl, rfl, rfl, rfl, Or.inl ⟨top, positive, by
          simp only [State.setReq, top]⟩⟩
      · rw [if_neg top] at h
        cases h
        have nonempty : w.timeoutQueue.size ≠ 0 := by
          intro empty
          exact top (pqueueTop_only (by rw [ins.size, empty])
            ((ins.holds _).mpr (Or.inr rfl)))
        have stays := (pqueueTop_insert S.queue room (insertKey w micros) reqId nonempty).resolve_left
          top
        exact ⟨found, vacant, ins, rfl, rfl, rfl, rfl, Or.inr ⟨stays, nonempty, rfl⟩⟩
    · rw [if_pos vacant] at h
      exact Or.inl (Except.ok.inj h).symm

/-- The node of the request leaves the queue; the timer follows if it was the top. -/
structure Unqueued (w : State) (reqId node top : Nat) (w' : State) : Prop where
  live : reqGetById w reqId = some (slotOf reqId)
  named : (w.reqs (slotOf reqId)).timeoutNode = some node
  isTop : pqueueTop w.timeoutQueue = some top
  queue : Removed w.timeoutQueue node w'.timeoutQueue
  reqs : w'.reqs = Function.update w.reqs (slotOf reqId)
    { w.reqs (slotOf reqId) with timeoutNode := none }
  frame : w' = { w with
    timeoutQueue := w'.timeoutQueue, reqs := w'.reqs
    timeElapsed := w'.timeElapsed, timer := w'.timer }
  timer : (node ≠ top ∧ pqueueTop w'.timeoutQueue = some top ∧ w'.timer = w.timer ∧
      w'.timeElapsed = w.timeElapsed) ∨
    (node = top ∧ pqueueTop w'.timeoutQueue = none ∧ w'.timer = ⟨0, 0, none⟩ ∧
      w'.timeElapsed = 0) ∨
    (node = top ∧ ∃ next, pqueueTop w'.timeoutQueue = some next ∧
      let elapsed := (w.timeoutQueue.nodes top).key - remaining w
      let delay := (w.timeoutQueue.nodes next).key - elapsed
      w'.timeElapsed = elapsed ∧ 0 ≤ delay ∧
        w'.timer = ⟨delay.toNat * 1000, delay.toNat * 1000, some next⟩)

theorem removeTimeout_spec {w w' : State} {reqId : Nat} {left : Int} (S : Slotted w)
    (h : removeTimeout w reqId = .ok (w', left)) :
    w' = w ∨ ∃ node top, Unqueued w reqId node top w' := by
  unfold removeTimeout at h
  cases found : reqGetById w reqId with
  | none =>
    rw [found] at h
    cases h
    exact Or.inl rfl
  | some slot =>
    obtain ⟨rfl, -⟩ := reqGetById_eq_some.mp found
    simp only [found] at h
    split at h
    · cases h
      exact Or.inl rfl
    · cases h
    · rename_i node top named isTop
      refine Or.inr ⟨node, top, ?_⟩
      have held := (S.slot _ _ named).1
      have rem := pqueueRemove_spec S.queue held
      split at h
      · rename_i other
        cases h
        exact ⟨found, named, isTop, rem, rfl, rfl,
          Or.inl ⟨other, pqueueTop_remove S.queue held isTop other, rfl, rfl⟩⟩
      · rename_i same
        rw [not_not] at same
        subst same
        unfold rearm at h
        cases next : pqueueTop (pqueueRemove w.timeoutQueue node) with
        | none =>
          simp only [State.setReq, next] at h
          rw [timerfdSettime_usToIts _ (le_refl 0)] at h
          cases h
          exact ⟨found, named, isTop, rem, rfl, rfl, Or.inr (Or.inl ⟨rfl, next, by
            simp only [next]; rfl, rfl⟩)⟩
        | some successor =>
          simp only [State.setReq, next] at h
          have key := rem.key successor
          -- the successor was queued behind the head, whose key bounds the elapsed time
          have behind := pqueueTop_least S.queue isTop
            ((rem.holds successor).mp (pqueueTop_holds rem.wellFormed next)).1
          have nonneg := remaining_nonneg w
          rw [key, timerfdSettime_usToIts _ (by omega)] at h
          cases h
          exact ⟨found, named, isTop, rem, rfl, rfl, Or.inr (Or.inr ⟨rfl, successor, next, rfl,
            by omega, by simp only [next]⟩)⟩

/-- Re-arming behind a removed top is always possible. -/
theorem removeTimeout_total {w : State} (S : Slotted w) (reqId : Nat) :
    ∃ v left, removeTimeout w reqId = .ok (v, left) := by
  unfold removeTimeout
  cases found : reqGetById w reqId with
  | none => exact ⟨w, -1, rfl⟩
  | some slot =>
    simp only
    cases named : (w.reqs slot).timeoutNode with
    | none => exact ⟨w, -1, rfl⟩
    | some node =>
      have held := (S.slot slot node named).1
      have nonempty : w.timeoutQueue.size ≠ 0 := by
        have := held.1
        omega
      rw [pqueueTop_eq_heap nonempty]
      simp only
      split
      · exact ⟨_, _, rfl⟩
      · rename_i same
        have isTop := pqueueTop_eq_heap nonempty
        rw [not_not] at same
        rw [← same] at isTop ⊢
        have rem := pqueueRemove_spec S.queue held
        unfold rearm
        cases next : pqueueTop (pqueueRemove w.timeoutQueue node) with
        | none =>
          simp only [State.setReq, next]
          rw [timerfdSettime_usToIts _ (le_refl 0)]
          exact ⟨_, _, rfl⟩
        | some successor =>
          have behind := pqueueTop_least S.queue isTop
            ((rem.holds successor).mp (pqueueTop_holds rem.wellFormed next)).1
          have nonneg := remaining_nonneg w
          simp only [State.setReq, next]
          rw [rem.key successor, timerfdSettime_usToIts _ (by omega)]
          exact ⟨_, _, rfl⟩

end Timeout
