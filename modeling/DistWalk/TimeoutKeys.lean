import DistWalk.TimerService

/-!
# The range of the timeout keys

A key counts from a base that is reset only when the queue is empty. At every
moment 0 <= `time_elapsed` <= key of the top less what the timer has left, and
no key is below the top's. While no head has been removed `time_elapsed` is zero
and the keys stay within two of the longest durations. After that every timeout
is inserted late: `insert_timeout` counts `time_elapsed` twice, and as a new top
moves it on, each insertion can double the keys. Six late insertions fit.
-/

namespace TimeoutKeys

open Message PriorityQueue Worker Timeout Node Transitions TimeoutTable TimerService Wire

/-- The client's default `timeout_us`. -/
def maxMicros : Int := 10000000

def maxInt : Int := 2147483647

def InInt (x : Int) : Prop := -2147483648 ≤ x ∧ x ≤ maxInt

/-- A requested duration is positive and at most the client's default. -/
def Short : Label → Prop
  | .insert _ micros => 0 < micros ∧ micros ≤ maxMicros
  | _ => True

/-- What the two operations compute as `int`, in the order of the source:
`new_micros` after each assignment; `time_elapsed`, the time left and the
delay to the next timeout. -/
def computed (w : State) : Label → List Int
  | .insert reqId micros =>
    match reqGetById w reqId with
    | none => [micros]
    | some slot =>
      match (w.reqs slot).timeoutNode, pqueueTop w.timeoutQueue with
      | none, some top =>
        let key := (w.timeoutQueue.nodes top).key
        [micros, micros + w.timeElapsed, micros + w.timeElapsed + key, remaining w, insertKey w micros]
      | _, _ => [micros]
  | .remove reqId =>
    match reqGetById w reqId with
    | none => []
    | some slot =>
      match (w.reqs slot).timeoutNode, pqueueTop w.timeoutQueue with
      | some node, some top =>
        let elapsed := (w.timeoutQueue.nodes top).key - remaining w
        let left := (w.timeoutQueue.nodes node).key - elapsed
        let delays := match pqueueTop (pqueueRemove w.timeoutQueue node) with
          | some next => if node = top then [(w.timeoutQueue.nodes next).key - elapsed] else []
          | none => []
        [remaining w, elapsed, left] ++ delays
      | _, _ => []
  | _ => []

/-- `time_elapsed` and the keys in the queue. -/
structure Ranged (w : State) : Prop where
  elapsed : InInt w.timeElapsed
  keys : ∀ n, Holds w.timeoutQueue n → InInt (w.timeoutQueue.nodes n).key

/-- All that a step computes and leaves behind is an `int`. -/
structure Fits (w : State) (l : Label) (w' : State) : Prop where
  values : ∀ x ∈ computed w l, InInt x
  after : Ranged w'

/-- A timeout that enters a queue that is not empty finds room for its duration
above `time_elapsed` and the key of the top. -/
def Room (w : State) : Label → Prop
  | .insert reqId micros => ∀ slot top, reqGetById w reqId = some slot →
      (w.reqs slot).timeoutNode = none → pqueueTop w.timeoutQueue = some top →
      w.timeElapsed + (w.timeoutQueue.nodes top).key ≤ maxInt - micros
  | _ => True

/-! ## Where the base is -/

/-- The base lies before the top by at least what the timer has left, and after
the previous one. -/
structure Based (w : State) : Prop where
  slotted : Slotted w
  idle : w.timeoutQueue.size = 0 → w.timeElapsed = 0
  nonneg : 0 ≤ w.timeElapsed
  base : ∀ top, pqueueTop w.timeoutQueue = some top →
    w.timeElapsed + remaining w ≤ (w.timeoutQueue.nodes top).key

/-- No key is below the base. -/
theorem Based.key {w : State} (h : Based w) {top n : Nat} (isTop : pqueueTop w.timeoutQueue = some top)
    (held : Holds w.timeoutQueue n) : (w.timeoutQueue.nodes top).key ≤ (w.timeoutQueue.nodes n).key :=
  pqueueTop_least h.slotted.queue isTop held

theorem exists_top {w : State} {n : Nat} (held : Holds w.timeoutQueue n) :
    ∃ top, pqueueTop w.timeoutQueue = some top := by
  have nonempty : w.timeoutQueue.size ≠ 0 := by
    have := held.1
    omega
  exact ⟨_, pqueueTop_eq_heap nonempty⟩

theorem size_of_top {w : State} {top : Nat} (isTop : pqueueTop w.timeoutQueue = some top) :
    w.timeoutQueue.size ≠ 0 := by
  intro empty
  rw [pqueueTop_eq_none.mpr empty] at isTop
  cases isTop

theorem Based.key_nonneg {w : State} (h : Based w) {n : Nat} (held : Holds w.timeoutQueue n) :
    0 ≤ (w.timeoutQueue.nodes n).key := by
  obtain ⟨top, isTop⟩ := exists_top held
  have above := h.key isTop held
  have base := h.base top isTop
  have left := remaining_nonneg w
  have := h.nonneg
  omega

theorem Based.untimed {w w' : State} (h : Based w) (u : Untimed w w') : Based w' where
  slotted := Slotted.untimed h.slotted u
  idle := by
    rw [u.queue, u.elapsed]
    exact h.idle
  nonneg := by
    rw [u.elapsed]
    exact h.nonneg
  base := by
    rw [u.queue, u.elapsed, remaining_timer u.timer]
    exact h.base

/-- Less is left on the timer. -/
theorem Based.later {w w' : State} (h : Based w) (reqs : w'.reqs = w.reqs)
    (queue : w'.timeoutQueue = w.timeoutQueue) (elapsed : w'.timeElapsed = w.timeElapsed)
    (left : remaining w' ≤ remaining w) : Based w' where
  slotted := Slotted.retimed h.slotted reqs queue
  idle := by
    rw [queue, elapsed]
    exact h.idle
  nonneg := by
    rw [elapsed]
    exact h.nonneg
  base := by
    intro top isTop
    rw [queue] at isTop ⊢
    have := h.base top isTop
    rw [elapsed]
    omega

theorem Based.queued {w w' : State} (h : Based w) {reqId node : Nat} {micros : Int}
    (q : Queued w reqId micros node w') : Based w' where
  slotted := Slotted.queued h.slotted q
  idle := by
    intro empty
    rw [q.queue.size] at empty
    cases empty
  nonneg := by
    rw [q.elapsed]
    split
    · exact h.nonneg
    · exact le_refl 0
  base := by
    intro top' isTop'
    rw [q.elapsed]
    rcases q.timer with ⟨first, positive, timer⟩ | ⟨stays, nonempty, timer⟩
    · rw [first] at isTop'
      cases isTop'
      rw [remaining_set positive timer, q.queue.key]
      cases isTop : pqueueTop w.timeoutQueue with
      | none =>
        have empty := pqueueTop_eq_none.mp isTop
        simp [insertKey, isTop, empty]
      | some top =>
        have size := size_of_top isTop
        have base := h.base top isTop
        have := h.nonneg
        rw [if_pos (by omega)]
        simp only [insertKey, isTop]
        omega
    · rw [stays] at isTop'
      have old : top' ≠ node := fun e => q.queue.fresh (e ▸ pqueueTop_holds h.slotted.queue isTop')
      rw [if_pos (by omega), remaining_timer timer, q.queue.keyOther top' old]
      exact h.base top' isTop'

theorem Based.unqueued {w w' : State} (h : Based w) {reqId node top : Nat}
    (q : Unqueued w reqId node top w') : Based w' := by
  have slotted := Slotted.unqueued h.slotted q
  have base := h.base top q.isTop
  have left := remaining_nonneg w
  have early := h.nonneg
  rcases q.timer with ⟨-, stays, timer, elapsed⟩ | ⟨-, empty, timer, elapsed⟩ |
    ⟨rfl, next, isNext, elapsed, delay, timer⟩
  · refine ⟨slotted, fun empty => ?_, ?_, ?_⟩
    · exact absurd empty (size_of_top stays)
    · rw [elapsed]
      exact early
    · intro top' isTop'
      rw [stays] at isTop'
      cases isTop'
      rw [elapsed, remaining_timer timer, q.queue.key]
      exact base
  · refine ⟨slotted, fun _ => elapsed, ?_, ?_⟩
    · rw [elapsed]
    · intro top' isTop'
      rw [empty] at isTop'
      cases isTop'
  · refine ⟨slotted, fun empty => ?_, ?_, ?_⟩
    · exact absurd empty (size_of_top isNext)
    · rw [elapsed]
      omega
    · intro top' isTop'
      rw [isNext] at isTop'
      cases isTop'
      rw [elapsed, remaining_set delay timer, q.queue.key]
      omega

theorem Based.step {w w' : State} {l : Label} (h : Based w) (s : Step w l w') : Based w' := by
  rcases Step.timed s with u | ⟨ns, rfl, rfl⟩ | ⟨reqId, micros, rfl, -, done⟩ |
    ⟨reqId, left, rfl, done⟩ | ⟨rfl, -, done⟩
  · exact h.untimed u
  · have less : remaining (elapse w ns) ≤ remaining w := by
      rw [remaining_eq, remaining_eq]
      simp only [elapse]
      omega
    exact h.later rfl rfl rfl less
  · rcases insertTimeout_spec h.slotted done with rfl | ⟨node, q⟩
    · exact h
    · exact h.queued q
  · rcases removeTimeout_spec h.slotted done with rfl | ⟨node, top, q⟩
    · exact h
    · exact h.unqueued q
  · obtain ⟨zero, e⟩ := timerfdSettime_eq_ok done
    have off : remaining w' = 0 := remaining_set zero (by rw [e])
    have left := remaining_nonneg w
    exact h.later (by rw [e]) (by rw [e]) (by rw [e]) (off.trans_le left)

/-! ## How far the keys go -/

/-- Nothing lies above `m`. -/
structure Below (m : Int) (w : State) : Prop where
  elapsed : w.timeElapsed ≤ m
  keys : ∀ n, Holds w.timeoutQueue n → (w.timeoutQueue.nodes n).key ≤ m

theorem Below.mono {m m' : Int} {w : State} (h : Below m w) (le : m ≤ m') : Below m' w :=
  ⟨le_trans h.elapsed le, fun n held => le_trans (h.keys n held) le⟩

/-- Only an insertion can raise the bound, and only to its own key. -/
theorem Below.step {m : Int} {w w' : State} {l : Label} (h : Below m w) (based : Based w)
    (nonneg : 0 ≤ m) (s : Step w l w')
    (inserted : ∀ reqId micros node, l = .insert reqId micros → Queued w reqId micros node w' →
      insertKey w micros ≤ m) : Below m w' := by
  rcases Step.timed s with u | ⟨ns, rfl, rfl⟩ | ⟨reqId, micros, rfl, -, done⟩ |
    ⟨reqId, left, rfl, done⟩ | ⟨rfl, -, done⟩
  · constructor
    · rw [u.elapsed]
      exact h.elapsed
    · rw [u.queue]
      exact h.keys
  · exact ⟨h.elapsed, h.keys⟩
  · rcases insertTimeout_spec based.slotted done with rfl | ⟨node, q⟩
    · exact h
    · constructor
      · rw [q.elapsed]
        split
        · exact h.elapsed
        · exact nonneg
      · intro n held
        by_cases new : n = node
        · rw [new, q.queue.key]
          exact inserted reqId micros node rfl q
        · rw [q.queue.keyOther n new]
          exact h.keys n (((q.queue.holds n).mp held).resolve_right new)
  · rcases removeTimeout_spec based.slotted done with rfl | ⟨node, top, q⟩
    · exact h
    · constructor
      · have bound := h.keys top (pqueueTop_holds based.slotted.queue q.isTop)
        have left := remaining_nonneg w
        rcases q.timer with ⟨-, -, -, elapsed⟩ | ⟨-, -, -, elapsed⟩ | ⟨-, next, -, elapsed, -⟩
        · rw [elapsed]
          exact h.elapsed
        · rw [elapsed]
          exact nonneg
        · rw [elapsed]
          omega
      · intro n held
        rw [q.queue.key]
        exact h.keys n ((q.queue.holds n).mp held).1
  · obtain ⟨-, rfl⟩ := timerfdSettime_eq_ok done
    exact ⟨h.elapsed, h.keys⟩

/-- A key lies below the duration, `time_elapsed` and the key of the top together. -/
theorem insertKey_le {w : State} (micros : Int) {top : Nat} (isTop : pqueueTop w.timeoutQueue = some top) :
    insertKey w micros ≤ micros + w.timeElapsed + (w.timeoutQueue.nodes top).key := by
  have left := remaining_nonneg w
  simp only [insertKey, isTop]
  omega

theorem Ranged.of_below {w : State} (based : Based w) (h : Below maxInt w) : Ranged w where
  elapsed := by
    have := based.nonneg
    exact ⟨by omega, h.elapsed⟩
  keys := by
    intro n held
    have := based.key_nonneg held
    exact ⟨by omega, h.keys n held⟩

theorem Below.step_room {w w' : State} {l : Label} (h : Below maxInt w) (based : Based w)
    (short : Short l) (room : Room w l) (s : Step w l w') : Below maxInt w' := by
  apply h.step based (by decide) s
  intro reqId micros node e q
  subst e
  simp only [Short, maxMicros] at short
  cases isTop : pqueueTop w.timeoutQueue with
  | none =>
    simp only [insertKey, isTop, maxInt]
    omega
  | some top =>
    have fits := room _ top q.live q.vacant isTop
    have := insertKey_le micros isTop
    omega

/-- Everything a removal computes lies between 0 and a key of the queue. -/
theorem computed_remove {w : State} (based : Based w) (h : Below maxInt w) (reqId : Nat) :
    ∀ x ∈ computed w (.remove reqId), InInt x := by
  have left := remaining_nonneg w
  have early := based.nonneg
  intro x inside
  simp only [computed] at inside
  split at inside
  · cases inside
  · split at inside
    · rename_i slot _ _ _ node top named isTop
      have held := (based.slotted.slot slot node named).1
      have base := based.base top isTop
      have above := based.key isTop held
      have bound := h.keys node held
      simp only [InInt, maxInt] at bound ⊢
      rcases List.mem_append.mp inside with first | delay
      · simp only [List.mem_cons, List.not_mem_nil, or_false] at first
        rcases first with rfl | rfl | rfl
        · omega
        · omega
        · omega
      · split at delay
        · rename_i next isNext
          split at delay
          · have removed := pqueueRemove_spec based.slotted.queue held
            have behind := ((removed.holds next).mp (pqueueTop_holds removed.wellFormed isNext)).1
            have later := based.key isTop behind
            have top := h.keys next behind
            rw [List.mem_singleton] at delay
            subst delay
            simp only [maxInt] at top
            omega
          · cases delay
        · cases delay
    · cases inside

/-- A step fits if an insertion has room. -/
theorem fits_of_room {w w' : State} {l : Label} (based : Based w) (h : Below maxInt w) (short : Short l)
    (room : Room w l) (s : Step w l w') : Fits w l w' := by
  refine ⟨?_, .of_below (based.step s) (h.step_room based short room s)⟩
  cases l with
  | insert reqId micros =>
    have left := remaining_nonneg w
    have early := based.nonneg
    simp only [Short, maxMicros] at short
    have whole : InInt micros := by
      simp only [InInt, maxInt]
      omega
    intro x inside
    simp only [computed] at inside
    split at inside
    · rw [List.mem_singleton] at inside
      rwa [inside]
    · rename_i slot found
      split at inside
      · rename_i top vacant isTop
        have sum := room slot top found vacant isTop
        have base := based.base top isTop
        simp only [List.mem_cons, List.not_mem_nil, or_false, insertKey, isTop] at inside
        simp only [InInt, maxInt] at sum ⊢
        rcases inside with rfl | rfl | rfl | rfl | rfl
        all_goals omega
      · rw [List.mem_singleton] at inside
        rwa [inside]
  | remove reqId => exact computed_remove based h reqId
  | _ =>
    intro x inside
    cases inside

/-! ## Runs -/

/-- Whether a timeout is inserted while `time_elapsed`, set when a head was removed, is
counted once more. -/
def late (w : State) : Label → Nat
  | .insert _ _ => if w.timeElapsed ≠ 0 then 1 else 0
  | _ => 0

/-- The late insertions since the queue was last empty. -/
def lateSince (n : Nat) (call : State × Label) : Nat :=
  if call.1.timeoutQueue.size = 0 then 0 else n + late call.1 call.2

/-- At no time more than six. -/
def FewLate : Nat → Calls → Prop
  | _, [] => True
  | n, call :: rest => lateSince n call ≤ 6 ∧ FewLate (lateSince n call) rest

/-- While `time_elapsed` is zero the head falls due within the longest duration, and no timeout
later than that from now. -/
structure Level (w : State) : Prop where
  zero : w.timeElapsed = 0
  head : ∀ top, pqueueTop w.timeoutQueue = some top → (w.timeoutQueue.nodes top).key ≤ maxMicros
  ahead : ∀ top n, pqueueTop w.timeoutQueue = some top → Holds w.timeoutQueue n →
    (w.timeoutQueue.nodes n).key + remaining w ≤ (w.timeoutQueue.nodes top).key + maxMicros

/-- What `n` late insertions can make of a key: each adds its duration to twice the old bound. -/
def reach (n : Nat) : Int := maxMicros * (3 * 2 ^ n - 1)

theorem reach_succ (n : Nat) : reach (n + 1) = maxMicros + 2 * reach n := by
  simp only [reach, pow_succ]
  ring

theorem reach_mono {n m : Nat} (le : n ≤ m) : reach n ≤ reach m := by
  have power : (2 : Int) ^ n ≤ 2 ^ m := pow_le_pow_right₀ (by decide) le
  simp only [reach, maxMicros]
  omega

theorem reach_zero : reach 0 = 20000000 := by decide

/-- The keys of a run with `n` late insertions since the queue was last empty. -/
structure Kept (n : Nat) (w : State) : Prop where
  based : Based w
  near : Level w ∨ w.timeElapsed ≠ 0 ∧ Below (reach n) w

theorem Level.below {w : State} (h : Level w) : Below (reach 0) w where
  elapsed := by
    rw [h.zero]
    decide
  keys := by
    intro n held
    obtain ⟨top, isTop⟩ := exists_top held
    have head := h.head top isTop
    have ahead := h.ahead top n isTop held
    have left := remaining_nonneg w
    rw [reach_zero]
    simp only [maxMicros] at head ahead
    omega

theorem Kept.below {n : Nat} {w : State} (h : Kept n w) : Below (reach n) w := by
  rcases h.near with level | ⟨-, below⟩
  · exact level.below.mono (reach_mono (Nat.zero_le n))
  · exact below

/-- An empty queue is level. -/
theorem Level.empty {w : State} (based : Based w) (idle : w.timeoutQueue.size = 0) : Level w := by
  have none_ := pqueueTop_eq_none.mpr idle
  refine ⟨based.idle idle, fun top isTop => ?_, fun top n isTop _ => ?_⟩
  · rw [none_] at isTop
    cases isTop
  · rw [none_] at isTop
    cases isTop

/-- Less is left on the timer. -/
theorem Level.later {w w' : State} (h : Level w) (queue : w'.timeoutQueue = w.timeoutQueue)
    (elapsed : w'.timeElapsed = w.timeElapsed) (left : remaining w' ≤ remaining w) : Level w' := by
  refine ⟨elapsed.trans h.zero, fun top isTop => ?_, fun top n isTop held => ?_⟩
  · rw [queue] at isTop ⊢
    exact h.head top isTop
  · rw [queue] at isTop held ⊢
    have := h.ahead top n isTop held
    omega

theorem Level.queued {w w' : State} (h : Level w) (based : Based w) {reqId node : Nat} {micros : Int}
    (q : Queued w reqId micros node w') (short : micros ≤ maxMicros) : Level w' := by
  have zero : w'.timeElapsed = 0 := by
    rw [q.elapsed, h.zero, ite_self]
  rcases q.timer with ⟨first, nonneg, timer⟩ | ⟨stays, nonempty, timer⟩
  · have left := remaining_set nonneg timer
    -- the new timeout is the head, with its whole duration on the timer
    have key : ∀ top, pqueueTop w.timeoutQueue = some top →
        insertKey w micros ≤ (w.timeoutQueue.nodes top).key := by
      intro top isTop
      have held := (q.queue.holds top).mpr (Or.inl (pqueueTop_holds based.slotted.queue isTop))
      have least := pqueueTop_least q.queue.wellFormed first held
      have old : top ≠ node := fun e => q.queue.fresh (e ▸ pqueueTop_holds based.slotted.queue isTop)
      rwa [q.queue.key, q.queue.keyOther top old] at least
    refine ⟨zero, fun top isTop => ?_, fun top n isTop held => ?_⟩
    · rw [first] at isTop
      cases isTop
      rw [q.queue.key]
      cases old : pqueueTop w.timeoutQueue with
      | none =>
        simp only [insertKey, old]
        exact short
      | some top => exact (key top old).trans (h.head top old)
    · rw [first] at isTop
      cases isTop
      rw [q.queue.key, left]
      by_cases new : n = node
      · rw [new, q.queue.key]
        omega
      · have before := ((q.queue.holds n).mp held).resolve_right new
        obtain ⟨top, old⟩ := exists_top before
        have ahead := h.ahead top n old before
        rw [q.queue.keyOther n new]
        simp only [insertKey, old, h.zero]
        omega
  · obtain ⟨top, isTop⟩ : ∃ top, pqueueTop w.timeoutQueue = some top := ⟨_, pqueueTop_eq_heap nonempty⟩
    have old : top ≠ node := fun e => q.queue.fresh (e ▸ pqueueTop_holds based.slotted.queue isTop)
    refine ⟨zero, fun top' isTop' => ?_, fun top' n isTop' held => ?_⟩
    · rw [stays, isTop] at isTop'
      cases isTop'
      rw [q.queue.keyOther top old]
      exact h.head top isTop
    · rw [stays, isTop] at isTop'
      cases isTop'
      rw [q.queue.keyOther top old, remaining_timer timer]
      by_cases new : n = node
      · rw [new, q.queue.key]
        simp only [insertKey, isTop, h.zero]
        omega
      · rw [q.queue.keyOther n new]
        exact h.ahead top n isTop (((q.queue.holds n).mp held).resolve_right new)

/-- A head that is removed after some time ends it. -/
theorem Level.unqueued {w w' : State} (h : Level w) (based : Based w) {reqId node top : Nat}
    (q : Unqueued w reqId node top w') : Level w' ∨ w'.timeElapsed ≠ 0 ∧ Below (reach 0) w' := by
  have after := based.unqueued q
  have whole : ∀ n, Holds w'.timeoutQueue n → (w'.timeoutQueue.nodes n).key ≤ reach 0 := by
    intro n held
    rw [q.queue.key]
    exact h.below.keys n ((q.queue.holds n).mp held).1
  have base := based.base top q.isTop
  have left := remaining_nonneg w
  have head := h.head top q.isTop
  rcases q.timer with ⟨-, stays, timer, elapsed⟩ | ⟨-, empty, timer, elapsed⟩ |
    ⟨rfl, next, isNext, elapsed, delay, timer⟩
  · refine Or.inl ⟨elapsed.trans h.zero, fun top' isTop' => ?_, fun top' n isTop' held => ?_⟩
    · rw [stays] at isTop'
      cases isTop'
      rw [q.queue.key]
      exact head
    · rw [stays] at isTop'
      cases isTop'
      rw [q.queue.key, q.queue.key, remaining_timer timer]
      exact h.ahead top n q.isTop ((q.queue.holds n).mp held).1
  · exact Or.inl (.empty after (pqueueTop_eq_none.mp empty))
  · by_cases now : (w.timeoutQueue.nodes node).key - remaining w = 0
    · refine Or.inl ⟨elapsed.trans now, fun top' isTop' => ?_, fun top' n isTop' held => ?_⟩
      · rw [isNext] at isTop'
        cases isTop'
        have ahead := h.ahead node next q.isTop
          ((q.queue.holds next).mp (pqueueTop_holds q.queue.wellFormed isNext)).1
        rw [q.queue.key]
        omega
      · rw [isNext] at isTop'
        cases isTop'
        have ahead := h.ahead node n q.isTop ((q.queue.holds n).mp held).1
        rw [q.queue.key, q.queue.key, remaining_set delay timer]
        omega
    · refine Or.inr ⟨by rw [elapsed]; exact now, ?_, whole⟩
      rw [elapsed, reach_zero]
      simp only [maxMicros] at head
      omega

theorem Kept.step {n : Nat} {w w' : State} {l : Label} (h : Kept n w) (short : Short l) (s : Step w l w') :
    Kept (lateSince n (w, l)) w' := by
  refine ⟨h.based.step s, ?_⟩
  by_cases level : Level w
  · have wide : Below (reach 0) w' → Below (reach (lateSince n (w, l))) w' :=
      fun below => below.mono (reach_mono (Nat.zero_le _))
    rcases Step.timed s with u | ⟨ns, rfl, rfl⟩ | ⟨reqId, micros, rfl, -, done⟩ |
      ⟨reqId, left, rfl, done⟩ | ⟨rfl, -, done⟩
    · exact Or.inl (level.later u.queue u.elapsed (le_of_eq (remaining_timer u.timer)))
    · refine Or.inl (level.later rfl rfl ?_)
      rw [remaining_eq, remaining_eq]
      simp only [elapse]
      omega
    · rcases insertTimeout_spec h.based.slotted done with rfl | ⟨node, q⟩
      · exact Or.inl level
      · exact Or.inl (level.queued h.based q short.2)
    · rcases removeTimeout_spec h.based.slotted done with rfl | ⟨node, top, q⟩
      · exact Or.inl level
      · rcases level.unqueued h.based q with still | ⟨moved, below⟩
        · exact Or.inl still
        · exact Or.inr ⟨moved, wide below⟩
    · obtain ⟨zero, e⟩ := timerfdSettime_eq_ok done
      have off : remaining w' = 0 := remaining_set zero (by rw [e])
      exact Or.inl (level.later (by rw [e]) (by rw [e]) (off.trans_le (remaining_nonneg w)))
  · obtain ⟨moved, below⟩ := h.near.resolve_left level
    have nonempty : w.timeoutQueue.size ≠ 0 := fun idle => moved (h.based.idle idle)
    have count : lateSince n (w, l) = n + late w l := if_neg nonempty
    have nonneg : 0 ≤ reach n := by
      have := reach_mono (Nat.zero_le n)
      rw [reach_zero] at this
      omega
    have after : Below (reach (lateSince n (w, l))) w' := by
      refine (below.mono (reach_mono (by omega))).step h.based (nonneg.trans (reach_mono (by omega))) s ?_
      intro reqId micros node e q
      subst e
      have one : late w (.insert reqId micros) = 1 := if_pos moved
      obtain ⟨top, isTop⟩ : ∃ top, pqueueTop w.timeoutQueue = some top := ⟨_, pqueueTop_eq_heap nonempty⟩
      have sum := insertKey_le micros isTop
      have first := below.elapsed
      have second := below.keys top (pqueueTop_holds h.based.slotted.queue isTop)
      have short := short.2
      rw [count, one, reach_succ]
      omega
    by_cases zero : w'.timeElapsed = 0
    · -- only an emptied queue sets it back
      refine Or.inl (.empty (h.based.step s) ?_)
      have early := h.based.nonneg
      rcases Step.timed s with u | ⟨ns, rfl, rfl⟩ | ⟨reqId, micros, rfl, -, done⟩ |
        ⟨reqId, left, rfl, done⟩ | ⟨rfl, -, done⟩
      · exact absurd (u.elapsed.symm.trans zero) moved
      · exact absurd zero moved
      · rcases insertTimeout_spec h.based.slotted done with rfl | ⟨node, q⟩
        · exact absurd zero moved
        · rw [q.elapsed, if_pos (by omega)] at zero
          exact absurd zero moved
      · rcases removeTimeout_spec h.based.slotted done with rfl | ⟨node, top, q⟩
        · exact absurd zero moved
        · have base := h.based.base top q.isTop
          rcases q.timer with ⟨-, -, -, elapsed⟩ | ⟨-, empty, -, -⟩ | ⟨-, next, -, elapsed, -⟩
          · exact absurd (elapsed.symm.trans zero) moved
          · exact pqueueTop_eq_none.mp empty
          · rw [elapsed] at zero
            omega
      · obtain ⟨-, rfl⟩ := timerfdSettime_eq_ok done
        exact absurd zero moved
    · exact Or.inr ⟨zero, after⟩

theorem reach_six : reach 6 ≤ maxInt := by decide

/-- With at most six late insertions, all that a call computes and leaves behind is an `int`. -/
theorem Kept.fits {n : Nat} {w w' : State} {l : Label} (h : Kept n w) (short : Short l) (s : Step w l w')
    (before : n ≤ 6) (few : lateSince n (w, l) ≤ 6) : Fits w l w' := by
  have below : Below maxInt w := h.below.mono ((reach_mono before).trans reach_six)
  refine fits_of_room h.based below short ?_ s
  cases l with
  | insert reqId micros =>
    intro slot top _ _ isTop
    have second := h.below.keys top (pqueueTop_holds h.based.slotted.queue isTop)
    have nonempty := size_of_top isTop
    have count : lateSince n (w, .insert reqId micros) = n + late w (.insert reqId micros) := if_neg nonempty
    have short := short.2
    by_cases zero : w.timeElapsed = 0
    · have level : Level w := h.near.resolve_right fun both => both.1 zero
      have head := level.head top isTop
      simp only [maxMicros, maxInt] at head short ⊢
      omega
    · have one : late w (.insert reqId micros) = 1 := if_pos zero
      rw [count, one] at few
      have bound := (reach_mono few).trans reach_six
      rw [reach_succ] at bound
      have first := h.below.elapsed
      omega
  | _ => trivial

theorem Kept.quiet {n : Nat} {w w' : State} {l : Label} (h : Kept n w) (silent : l.Quiet) (s : Step w l w') :
    Kept n w' := by
  have untimed : Untimed w w' := by
    rcases Step.timed s with u | ⟨ns, rfl, -⟩ | ⟨reqId, micros, rfl, -, -⟩ | ⟨reqId, left, rfl, -⟩ | ⟨rfl, -, -⟩
    · exact u
    all_goals cases silent
  refine ⟨h.based.step s, ?_⟩
  rcases h.near with level | ⟨moved, below⟩
  · exact Or.inl (level.later untimed.queue untimed.elapsed (le_of_eq (remaining_timer untimed.timer)))
  · refine Or.inr ⟨by rw [untimed.elapsed]; exact moved, ?_⟩
    refine ⟨by rw [untimed.elapsed]; exact below.elapsed, ?_⟩
    rw [untimed.queue]
    exact below.keys

theorem Kept.ranged {n : Nat} {w : State} (h : Kept n w) (few : n ≤ 6) : Ranged w :=
  .of_below h.based (h.below.mono ((reach_mono few).trans reach_six))

/-- The calls of a run, one after the other. -/
theorem Kept.path {n : Nat} {w w' : State} {calls : Calls} (h : Kept n w) (path : Takes w calls w')
    (before : n ≤ 6) (short : ∀ call ∈ calls, Short call.2) (few : FewLate n calls) :
    (∀ call ∈ calls, Ranged call.1 ∧ ∀ x ∈ computed call.1 call.2, InInt x) ∧ Ranged w' := by
  induction path generalizing n with
  | refl => exact ⟨by simp, h.ranged before⟩
  | quiet silent first rest ih => exact ih (h.quiet silent first) before short few
  | call first rest ih =>
    have fine := short _ List.mem_cons_self
    obtain ⟨one, later⟩ := few
    obtain ⟨calls, last⟩ := ih (h.step fine first) one (fun call mem => short call (List.mem_cons_of_mem _ mem)) later
    refine ⟨List.forall_mem_cons.mpr ⟨⟨h.ranged before, ?_⟩, calls⟩, last⟩
    exact (h.fits fine first before one).values

variable (storageDevices : Nat) (storageFd : Nat → Nat) (files : Nat → ByteMemory.Mem)
  (enableDefrag : Bool)

theorem based_init : Based (State.init storageDevices storageFd files enableDefrag) where
  slotted := slotted_init storageDevices storageFd files enableDefrag
  idle := fun _ => rfl
  nonneg := le_refl 0
  base := by
    intro top isTop
    cases isTop

/-- In every run, of events and of calls from outside, in which never more than six timeouts are
inserted late since the queue was last empty, all keys, `time_elapsed` and the values that the
calls compute are in the range of an `int`. -/
theorem keys_fit {acts : List Act} {w : State}
    (ran : actAll (State.init storageDevices storageFd files enableDefrag) acts = .ok w)
    (short : ∀ call ∈ actAllCalls (State.init storageDevices storageFd files enableDefrag) acts, Short call.2)
    (few : FewLate 0 (actAllCalls (State.init storageDevices storageFd files enableDefrag) acts)) :
    (∀ call ∈ actAllCalls (State.init storageDevices storageFd files enableDefrag) acts,
      Ranged call.1 ∧ ∀ x ∈ computed call.1 call.2, InInt x) ∧ Ranged w := by
  have based := based_init storageDevices storageFd files enableDefrag
  have start : Kept 0 (State.init storageDevices storageFd files enableDefrag) := ⟨based, Or.inl (.empty based rfl)⟩
  exact start.path (takes_actAll (opened_init storageDevices storageFd files enableDefrag) ran) (by decide) short few

instance : (l : Label) → Decidable (Short l)
  | .insert _ micros => inferInstanceAs (Decidable (0 < micros ∧ micros ≤ maxMicros))
  | .conn _ | .aside | .elapse _ | .enter _ _ | .setCmd _ | .begin _ _ | .ack _ _ | .retry _ | .skip _
  | .remove _ | .disarm | .release _ _ | .reset _ => .isTrue trivial

instance : (n : Nat) → (calls : Calls) → Decidable (FewLate n calls)
  | _, [] => .isTrue trivial
  | n, call :: rest =>
    haveI : Decidable (FewLate (lateSince n call) rest) := instDecidableFewLate (lateSince n call) rest
    inferInstanceAs (Decidable (_ ∧ _))

/-- After replies, expirations and releases, the head of two timeouts is removed and a late one
is inserted. -/
def lateInsertion : List Act := servedTimers ++ [.insert 3 10000000, .remove 2, .insert 2 10000000]

theorem keys_fit_late :
    ∃ w, actAll (State.init 1 (fun _ => 5) (fun _ _ => 0) true) lateInsertion = .ok w ∧
      w.timeoutQueue.size = 2 ∧ w.timeElapsed = 50 ∧ Ranged w := by
  have evaluated : ((actAll (State.init 1 (fun _ => 5) (fun _ _ => 0) true) lateInsertion).toOption.any
      fun w => w.timeoutQueue.size = 2 ∧ w.timeElapsed = 50) = true := by decide +kernel
  have meets : (∀ call ∈ actAllCalls (State.init 1 (fun _ => 5) (fun _ _ => 0) true) lateInsertion, Short call.2) ∧
      FewLate 0 (actAllCalls (State.init 1 (fun _ => 5) (fun _ _ => 0) true) lateInsertion) := by decide +kernel
  obtain ⟨w, ran, facts⟩ := exists_of_any evaluated
  obtain ⟨size, elapsed⟩ := of_decide_eq_true facts
  exact ⟨w, toOption_eq_some ran, size, elapsed, (keys_fit 1 (fun _ => 5) (fun _ _ => 0) true
    (toOption_eq_some ran) meets.1 meets.2).2⟩

/-- Three requests wait for storage; the first one's timeout is ten seconds, almost all of which
pass. -/
def nearlyDue : List Act :=
  let waiting (id : Nat) := message id 0 [.load 0, .reply 16, .eom]
  [.event .silent (.accept [10, 0, 0, 9, 0, 9] .tcp),
   .event .silent (.ready 0 .socket (received (waiting 1 ++ waiting 2 ++ waiting 3))),
   .insert 0 10000000, .event .silent (.elapse 9990000000)]

/-- Request `k` is timed and its predecessor answered; the third request comes
and goes. No time passes. -/
def turn (k : Nat) : List Act :=
  [.insert k 10000000, .remove (1 - k), .insert 2 1, .remove 2]

/-- The queue is never empty, and each turn doubles `time_elapsed`. -/
def sevenTurns : List Act := nearlyDue ++ [1, 0, 1, 0, 1, 0, 1].flatMap turn ++ [.insert 0 10000000]

/-- After seven turns the key of the next timeout of ten seconds is beyond the range. -/
theorem key_overflows :
    ∃ w, actAll (State.init 1 (fun _ => 5) (fun _ _ => 0) true) sevenTurns = .ok w ∧
      (∀ call ∈ actAllCalls (State.init 1 (fun _ => 5) (fun _ _ => 0) true) sevenTurns, Short call.2) ∧
      ¬ Ranged w ∧ ∃ node, Holds w.timeoutQueue node ∧ maxInt < (w.timeoutQueue.nodes node).key := by
  have evaluated : ((actAll (State.init 1 (fun _ => 5) (fun _ _ => 0) true) sevenTurns).toOption.any
      fun w => (w.reqs 0).timeoutNode.any fun node =>
        decide (maxInt < (w.timeoutQueue.nodes node).key)) = true := by decide +kernel
  have short : ∀ call ∈ actAllCalls (State.init 1 (fun _ => 5) (fun _ _ => 0) true) sevenTurns, Short call.2 := by
    decide +kernel
  obtain ⟨w, ran, named⟩ := exists_of_any evaluated
  obtain ⟨node, pointed, beyond⟩ := exists_of_any named
  have taken := takes_actAll (opened_init 1 (fun _ => 5) (fun _ _ => 0) true) (toOption_eq_some ran)
  have paired : Slotted w := Reaches.invariant (fun _ _ _ _ paired s => Slotted.step paired s)
    taken.leads (slotted_init 1 (fun _ => 5) (fun _ _ => 0) true)
  have held := (paired.slot 0 node pointed).1
  have beyond := of_decide_eq_true beyond
  refine ⟨w, toOption_eq_some ran, short, fun ranged => ?_, node, held, beyond⟩
  have := (ranged.keys node held).2
  omega

end TimeoutKeys
