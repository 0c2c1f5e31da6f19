import DistWalk.TimeoutTable

/-!
# The timer behind the timeout queue

The queue is served by one timer, set for its top. Two things can go wrong:
the timer set to zero, which disarms it, when the next timeout falls due
together with a head that is removed; and the base of the keys, to which
`insert_timeout` adds `time_elapsed` although the key of the top already counts
from there. Runs that meet neither keep the timer armed and the keys exact.
-/

namespace TimerService

open Message PriorityQueue Worker Timeout Node Transitions Requests TimeoutTable Wire

/-- The timer was last set, to a positive delay, for the node that is the top now. -/
def Armed (w : State) : Prop :=
  pqueueTop w.timeoutQueue = none ∨
    (0 < w.timer.value ∧ w.timer.owner = pqueueTop w.timeoutQueue)

/-- The node of `reqId` is the top of the queue. -/
def IsHead (w : State) (reqId : Nat) : Prop :=
  ∃ top, pqueueTop w.timeoutQueue = some top ∧ (w.reqs (slotOf reqId)).timeoutNode = some top

/-- Another timeout has the key of the top and less than a microsecond is left. -/
def Tied (w : State) : Prop :=
  remaining w = 0 ∧ ∃ top n, pqueueTop w.timeoutQueue = some top ∧ Holds w.timeoutQueue n ∧
    n ≠ top ∧ (w.timeoutQueue.nodes n).key = (w.timeoutQueue.nodes top).key

/-- The head is removed only when no other timeout falls due with it, and the
timer handler finds the request of the head alive. -/
def HeadAlone (w : State) : Label → Prop
  | .remove reqId => IsHead w reqId → ¬ Tied w
  | .disarm => w.timeoutQueue.size = 0
  | _ => True

/-- The delay to the next timeout after the head has been removed. -/
theorem delay_pos {w w' : State} {reqId top next : Nat} (S : Slotted w)
    (q : Unqueued w reqId top top w') (isNext : pqueueTop w'.timeoutQueue = some next)
    (alone : ¬ Tied w) :
    0 < (w.timeoutQueue.nodes next).key -
      ((w.timeoutQueue.nodes top).key - remaining w) := by
  obtain ⟨held, other⟩ := (q.queue.holds next).mp (pqueueTop_holds q.queue.wellFormed isNext)
  have behind := pqueueTop_least S.queue q.isTop held
  have nonneg := remaining_nonneg w
  by_cases due : remaining w = 0
  · have apart : (w.timeoutQueue.nodes next).key ≠ (w.timeoutQueue.nodes top).key :=
      fun e => alone ⟨due, top, next, q.isTop, held, other, e⟩
    omega
  · omega

theorem Armed.step {w w' : State} {l : Label} (S : Slotted w) (h : Armed w) (ok : HeadAlone w l)
    (s : Step w l w') : Armed w' := by
  rcases Step.timed s with u | ⟨ns, rfl, rfl⟩ | ⟨reqId, micros, rfl, nonzero, done⟩ |
    ⟨reqId, left, rfl, done⟩ | ⟨rfl, -, done⟩
  · rw [Armed, u.queue, u.timer]
    exact h
  · exact h
  · rcases insertTimeout_spec S done with rfl | ⟨node, q⟩
    · exact h
    · rcases q.timer with ⟨top, nonneg, timer⟩ | ⟨stays, nonempty, timer⟩
      · refine Or.inr ?_
        rw [timer, top]
        exact ⟨Nat.mul_pos (by omega) (by decide), rfl⟩
      · rw [Armed, stays, timer]
        exact h
  · rcases removeTimeout_spec S done with rfl | ⟨node, top, q⟩
    · exact h
    · rcases q.timer with ⟨-, stays, timer, -⟩ | ⟨-, empty, -⟩ | ⟨rfl, next, isNext, -, -, timer⟩
      · rw [Armed, stays, timer, ← q.isTop]
        exact h
      · exact Or.inl empty
      · have positive := delay_pos S q isNext (ok ⟨node, q.isTop, q.named⟩)
        refine Or.inr ?_
        rw [timer, isNext]
        exact ⟨Nat.mul_pos (by omega) (by decide), rfl⟩
  · obtain ⟨-, rfl⟩ := timerfdSettime_eq_ok done
    exact Or.inl (pqueueTop_eq_none.mpr ok)

variable (storageDevices : Nat) (storageFd : Nat → Nat) (files : Nat → ByteMemory.Mem)
  (enableDefrag : Bool)

def timedForward (retries : UInt8) : List Cmd :=
  [.forward false 64 [10, 0, 0, 1, 0, 1] 100 retries 1 0 0 .tcp, .reply 16, .reply 16, .eom]

/-- Two forwarded requests. The first is answered and replied to, the second times out, is sent
again and times out for good. Of two timeouts queued from outside, one is removed. -/
def servedTimers : List Act :=
  [.event .silent (.accept [10, 0, 0, 9, 0, 9] .tcp),
   .event .silent (.accept [10, 0, 0, 1, 0, 1] .tcp),
   .event .silent (.ready 0 .socket (received (message 1 0 (timedForward 0)))),
   .event .silent (.elapse 30000),
   .event .silent (.ready 1 .socket (received (message 0 0 [.eom]))),
   .event .silent (.ready 0 .socket (received (message 2 0 (timedForward 1)))),
   .event .silent (.elapse 100000),
   .event .silent (.ready 2 .timer (received [])),
   .event .silent (.elapse 100000),
   .expire,
   .event .silent (.ready 0 .socket (received
     (message 3 0 [.load 0, .reply 16, .eom] ++ message 4 0 [.load 0, .reply 16, .eom]))),
   .insert 2 200, .event .silent (.elapse 50000), .insert 3 300, .insert 2 70, .remove 3]

/-- What the timer measures: whole microseconds, positive durations, and no
time between the expiration of an armed timer and its handling. -/
def Punctual (w : State) : Label → Prop
  | .elapse ns => 1000 ∣ ns ∧ (w.timeoutQueue.size = 0 ∨ w.timer.value = 0 ∨ ns ≤ w.timer.left)
  | .insert _ micros => 0 < micros
  | _ => True

/-- A timeout enters a queue that is not empty only while `time_elapsed` is
zero, and heads are removed alone. -/
def BaseKept (w : State) : Label → Prop
  | .insert reqId _ => reqGetById w reqId = some (slotOf reqId) →
      (w.reqs (slotOf reqId)).timeoutNode = none → w.timeoutQueue.size ≠ 0 → w.timeElapsed = 0
  | l => HeadAlone w l

/-- The key of every node, read from the base, is the time to its deadline. -/
def Accurate (w : State) : Prop :=
  ∀ top n, pqueueTop w.timeoutQueue = some top → Holds w.timeoutQueue n →
    ((w.timeoutQueue.nodes n).key - ((w.timeoutQueue.nodes top).key - remaining w)) * 1000 =
      w.clock.deadline n - w.clock.now

/-- The invariant: the timer runs for the top, in whole microseconds, and the
keys are exact. -/
structure Exact (w : State) : Prop where
  slotted : Slotted w
  whole : 1000 ∣ w.timer.left
  armed : w.timeoutQueue.size ≠ 0 → 0 < w.timer.value
  accurate : Accurate w

theorem remaining_mul {w : State} (h : 1000 ∣ w.timer.left) :
    remaining w * 1000 = w.timer.left := by
  rw [remaining_eq]
  omega

/-- What is left on a timer just set to `micros`. -/
theorem remaining_set {w : State} {micros : Int} {owner : Option Nat} (nonneg : 0 ≤ micros)
    (timer : w.timer = ⟨micros.toNat * 1000, micros.toNat * 1000, owner⟩) : remaining w = micros := by
  rw [remaining_eq, timer]
  simp only
  omega

theorem remaining_timer {w w' : State} (h : w'.timer = w.timer) : remaining w' = remaining w := by
  rw [remaining_eq, remaining_eq, h]

/-- The base of the keys is the same before and after an insertion. -/
theorem Queued.base {w w' : State} {reqId node : Nat} {micros : Int}
    (q : Queued w reqId micros node w') {top top' : Nat}
    (isTop : pqueueTop w.timeoutQueue = some top) (isTop' : pqueueTop w'.timeoutQueue = some top')
    (S : Slotted w) (base : w.timeElapsed = 0) :
    (w'.timeoutQueue.nodes top').key - remaining w' =
      (w.timeoutQueue.nodes top).key - remaining w := by
  have key : insertKey w micros =
      micros + 0 + (w.timeoutQueue.nodes top).key - remaining w := by
    simp only [insertKey, isTop, base]
  rcases q.timer with ⟨first, nonneg, timer⟩ | ⟨stays, -, timer⟩
  · rw [first] at isTop'
    cases isTop'
    rw [q.queue.key, key, remaining_set nonneg timer]
    omega
  · rw [stays, isTop] at isTop'
    cases isTop'
    have old : top ≠ node := fun e => q.queue.fresh (e ▸ pqueueTop_holds S.queue isTop)
    rw [q.queue.keyOther top old, remaining_timer timer]

theorem Exact.queued {w w' : State} (h : Exact w) {reqId node : Nat} {micros : Int}
    (q : Queued w reqId micros node w') (positive : 0 < micros)
    (base : w.timeoutQueue.size ≠ 0 → w.timeElapsed = 0) : Exact w' where
  slotted := Slotted.queued h.slotted q
  whole := by
    rcases q.timer with ⟨-, -, timer⟩ | ⟨-, -, timer⟩
    · rw [timer]
      exact Nat.dvd_mul_left 1000 _
    · rw [timer]
      exact h.whole
  armed := by
    intro _
    rcases q.timer with ⟨-, -, timer⟩ | ⟨-, nonempty, timer⟩
    · rw [timer]
      exact Nat.mul_pos (by omega) (by decide)
    · rw [timer]
      exact h.armed nonempty
  accurate := by
    intro top' n isTop' held
    have deadline : w'.clock.deadline node = w.clock.now + micros * 1000 := by
      rw [q.clock]
      simp [Clock.schedule]
    have now : w'.clock.now = w.clock.now := by rw [q.clock]; rfl
    cases isTop : pqueueTop w.timeoutQueue with
    | none =>
      have empty := pqueueTop_eq_none.mp isTop
      have only : ∀ x, Holds w'.timeoutQueue x → x = node := fun x hx =>
        ((q.queue.holds x).mp hx).resolve_left fun before => by
          have := before.1
          omega
      have timer := (q.timer.resolve_right fun other => other.2.1 empty).2.2
      rw [only n held, only top' (pqueueTop_holds q.queue.wellFormed isTop'), deadline, now,
        remaining_set (by omega) timer]
      omega
    | some top =>
      have nonempty : w.timeoutQueue.size ≠ 0 := by
        intro empty
        rw [pqueueTop_eq_none.mpr empty] at isTop
        cases isTop
      have same := Queued.base q isTop isTop' h.slotted (base nonempty)
      rw [same, now]
      by_cases new : n = node
      · rw [new, q.queue.key, deadline]
        simp only [insertKey, isTop, base nonempty]
        omega
      · have before := ((q.queue.holds n).mp held).resolve_right new
        have kept : w'.clock.deadline n = w.clock.deadline n := by
          rw [q.clock]
          simp [Clock.schedule, new]
        rw [q.queue.keyOther n new, kept]
        exact h.accurate top n isTop before

theorem Exact.unqueued {w w' : State} (h : Exact w) {reqId node top : Nat}
    (q : Unqueued w reqId node top w') (alone : IsHead w reqId → ¬ Tied w) : Exact w' := by
  have clock : w'.clock = w.clock := by rw [q.frame]
  have key := q.queue.key
  rcases q.timer with ⟨-, stays, timer, -⟩ | ⟨-, empty, timer, -⟩ | ⟨rfl, next, isNext, -, -, timer⟩
  · refine ⟨Slotted.unqueued h.slotted q, timer ▸ h.whole, ?_, ?_⟩
    · intro _
      rw [timer]
      apply h.armed
      intro empty
      have := q.isTop
      rw [pqueueTop_eq_none.mpr empty] at this
      cases this
    · intro top' n isTop' held
      rw [stays] at isTop'
      cases isTop'
      rw [key, key, remaining_timer timer, clock]
      exact h.accurate top n q.isTop ((q.queue.holds n).mp held).1
  · refine ⟨Slotted.unqueued h.slotted q, by rw [timer]; exact Nat.dvd_zero _, ?_, ?_⟩
    · exact fun nonempty => absurd (pqueueTop_eq_none.mp empty) nonempty
    · intro top' n isTop' _
      rw [empty] at isTop'
      cases isTop'
  · have positive := delay_pos h.slotted q isNext (alone ⟨node, q.isTop, q.named⟩)
    refine ⟨Slotted.unqueued h.slotted q, by rw [timer]; exact Nat.dvd_mul_left 1000 _, ?_, ?_⟩
    · intro _
      rw [timer]
      exact Nat.mul_pos (by omega) (by decide)
    · intro top' n isTop' held
      rw [isNext] at isTop'
      cases isTop'
      have old := h.accurate node n q.isTop ((q.queue.holds n).mp held).1
      rw [key, key, remaining_set (by omega) timer, clock]
      omega

/-- Time passes, at most until the timer expires. -/
theorem Exact.elapse {w : State} (h : Exact w) {ns : Nat} (whole : 1000 ∣ ns)
    (punctual : w.timeoutQueue.size = 0 ∨ w.timer.value = 0 ∨ ns ≤ w.timer.left) :
    Exact (elapse w ns) where
  slotted := Slotted.retimed h.slotted rfl rfl
  whole := Nat.dvd_sub h.whole whole
  armed := h.armed
  accurate := by
    intro top n isTop held
    have inTime : ns ≤ w.timer.left := by
      have nonempty : w.timeoutQueue.size ≠ 0 := fun empty => by
        have := held.1
        rw [show (Timeout.elapse w ns).timeoutQueue = w.timeoutQueue from rfl] at this
        omega
      have armed := h.armed nonempty
      omega
    have before := h.accurate top n isTop held
    have left := remaining_mul h.whole
    have left' : remaining (Timeout.elapse w ns) * 1000 = (w.timer.left - ns : Nat) :=
      remaining_mul (w := Timeout.elapse w ns) (Nat.dvd_sub h.whole whole)
    have now : (Timeout.elapse w ns).clock.now = w.clock.now + ns := rfl
    rw [now]
    simp only [Timeout.elapse] at left' ⊢
    omega

theorem Exact.step {w w' : State} {l : Label} (h : Exact w) (punctual : Punctual w l)
    (base : BaseKept w l) (s : Step w l w') : Exact w' := by
  rcases Step.timed s with u | ⟨ns, rfl, rfl⟩ | ⟨reqId, micros, rfl, -, done⟩ |
    ⟨reqId, left, rfl, done⟩ | ⟨rfl, -, done⟩
  · refine ⟨Slotted.untimed h.slotted u, u.timer ▸ h.whole, ?_, ?_⟩
    · rw [u.queue, u.timer]
      exact h.armed
    · rw [Accurate, u.queue, u.clock, remaining_timer u.timer]
      exact h.accurate
  · exact h.elapse punctual.1 punctual.2
  · rcases insertTimeout_spec h.slotted done with rfl | ⟨node, q⟩
    · exact h
    · exact Exact.queued h q punctual (base q.live q.vacant)
  · rcases removeTimeout_spec h.slotted done with rfl | ⟨node, top, q⟩
    · exact h
    · exact Exact.unqueued h q base
  · obtain ⟨-, rfl⟩ := timerfdSettime_eq_ok done
    refine ⟨Slotted.retimed h.slotted rfl rfl, Nat.dvd_zero _, fun nonempty => absurd base nonempty, ?_⟩
    intro top n _ held
    have empty : w.timeoutQueue.size = 0 := base
    exact absurd held.1 (by rw [empty]; exact Nat.not_lt_zero _)

instance (w : State) : (l : Label) → Decidable (Punctual w l)
  | .elapse ns => inferInstanceAs (Decidable
      (1000 ∣ ns ∧ (w.timeoutQueue.size = 0 ∨ w.timer.value = 0 ∨ ns ≤ w.timer.left)))
  | .insert _ micros => inferInstanceAs (Decidable (0 < micros))
  | .conn _ | .aside | .enter _ _ | .setCmd _ | .begin _ _ | .ack _ _ | .retry _ | .skip _ | .remove _
  | .disarm | .release _ _ | .reset _ => .isTrue trivial

end TimerService
