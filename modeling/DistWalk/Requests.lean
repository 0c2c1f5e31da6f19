import DistWalk.Node

/-!
# What the table operations do to the requests

Linking, unlinking and defragmentation touch the list pointers and the two
offsets of a request; a part of a request that reads neither is `Linkless` and
changes only where a request is entered or released.
-/

namespace Requests

open ByteMemory Message Connection PriorityQueue Worker Timeout Node

universe u
variable {α : Type u}

/-- A part of a request that does not depend on the list pointers. -/
structure Listless (f : ReqInfo → α) : Prop where
  prev : ∀ r p, f { r with prev := p } = f r
  next : ∀ r n, f { r with next := n } = f r

/-- Nor does it depend on where the message lies. -/
structure Linkless (f : ReqInfo → α) : Prop extends Listless f where
  moved : ∀ r size, f { r with
    messagePtr := r.messagePtr.map (· - size), currCmd := r.currCmd.map (· - size) } = f r

theorem linkless_timeoutNode : Linkless ReqInfo.timeoutNode :=
  ⟨⟨fun _ _ => rfl, fun _ _ => rfl⟩, fun _ _ => rfl⟩

theorem linkless_reqId : Linkless ReqInfo.reqId :=
  ⟨⟨fun _ _ => rfl, fun _ _ => rfl⟩, fun _ _ => rfl⟩

/-- A request that changes in no way `f` sees. -/
theorem setReq_keeps (f : ReqInfo → α) (w : State) {slot : Nat} {r : ReqInfo}
    (same : f r = f (w.reqs slot)) (s : Nat) : f ((w.setReq slot r).reqs s) = f (w.reqs s) := by
  simp only [State.setReq, Function.update_apply]
  split
  · rename_i e
    rw [e, same]
  · rfl

theorem setReq_self (w : State) (slot : Nat) (r : ReqInfo) : (w.setReq slot r).reqs slot = r := by
  simp [State.setReq]

theorem setReq_other (w : State) {slot s : Nat} (r : ReqInfo) (h : s ≠ slot) :
    (w.setReq slot r).reqs s = w.reqs s := by
  simp [State.setReq, h]

theorem dropHead_reqs (w : State) (c slot : Nat) : (dropHead w c slot).reqs = w.reqs := by
  unfold dropHead
  split <;> rfl

section Listless

variable {f : ReqInfo → α} (hf : Listless f) (w : State)
include hf

theorem Listless.setPrev (slot prev : Option Nat) (s : Nat) :
    f ((setPrev w slot prev).reqs s) = f (w.reqs s) := by
  cases slot with
  | none => rfl
  | some t => exact setReq_keeps f w (hf.prev _ _) s

theorem Listless.setNext (slot next : Option Nat) (s : Nat) :
    f ((setNext w slot next).reqs s) = f (w.reqs s) := by
  cases slot with
  | none => rfl
  | some t => exact setReq_keeps f w (hf.next _ _) s

theorem Listless.reqUnlink {slot s : Nat} (other : s ≠ slot) :
    f ((reqUnlink w slot).1.reqs s) = f (w.reqs s) := by
  simp only [Worker.reqUnlink, setReq_other _ _ other]
  rw [hf.setNext, hf.setPrev]

/-- What unlinking leaves of the request itself. -/
theorem Listless.reqUnlink_self (slot : Nat)
    (blind : ∀ r, f { r with reqId := noReq, messagePtr := none } = f r) :
    f ((Worker.reqUnlink w slot).1.reqs slot) = f (w.reqs slot) := by
  simp only [Worker.reqUnlink, setReq_self]
  have cleared : ∀ r : ReqInfo,
      f { r with next := none, prev := none, reqId := noReq, messagePtr := none } = f r := by
    intro r
    rw [← blind r, ← hf.next { r with reqId := noReq, messagePtr := none } none]
    exact hf.prev { r with reqId := noReq, messagePtr := none, next := none } none
  rw [cleared, hf.setNext, hf.setPrev]

end Listless

section Linkless

variable {f : ReqInfo → α} (hf : Linkless f) (w : State)
include hf

theorem Linkless.shiftNewer (size fuel : Nat) (slot : Option Nat) (s : Nat) :
    f ((shiftNewer size fuel w slot).reqs s) = f (w.reqs s) := by
  induction fuel generalizing w slot with
  | zero => rfl
  | succ fuel ih =>
    cases slot with
    | none => rfl
    | some t => exact (ih _ _).trans (setReq_keeps f w (hf.moved _ _) s)

theorem Linkless.reclaim (c slot s : Nat) :
    f ((reclaim w c slot).reqs s) = f (w.reqs s) := by
  unfold Worker.reclaim
  split
  · rfl
  · split
    · exact hf.shiftNewer _ _ _ _ s
    · rfl

theorem Linkless.connReqRemove {c slot s : Nat} (other : s ≠ slot) :
    f ((connReqRemove w c slot).reqs s) = f (w.reqs s) := by
  rw [Worker.connReqRemove, hf.reqUnlink _ other, dropHead_reqs, hf.reclaim]

theorem Linkless.connReqRemove_self (c slot : Nat)
    (blind : ∀ r, f { r with reqId := noReq, messagePtr := none } = f r) :
    f ((Worker.connReqRemove w c slot).reqs slot) = f (w.reqs slot) := by
  rw [Worker.connReqRemove, hf.reqUnlink_self _ _ blind, dropHead_reqs, hf.reclaim]

end Linkless

/-! ## Closing a connection -/

/-- The slots that `conn_reset` walks through from `slot` on. -/
def resetSlots : Nat → State → Option Nat → List Nat
  | 0, _, _ => []
  | _ + 1, _, none => []
  | fuel + 1, w, some slot => slot :: resetSlots fuel (reqUnlink w slot).1 (reqUnlink w slot).2

/-- The requests that closing connection `c` releases. -/
def listed (w : State) (c : Nat) : List Nat := resetSlots (maxReqs + 1) w (w.conns c).reqList

theorem Listless.connResetFrom {f : ReqInfo → α} (hf : Listless f) (fuel : Nat) (w : State)
    (slot : Option Nat) {s : Nat} (outside : s ∉ resetSlots fuel w slot) :
    f ((connResetFrom fuel w slot).reqs s) = f (w.reqs s) := by
  induction fuel generalizing w slot with
  | zero => rfl
  | succ fuel ih =>
    cases slot with
    | none => rfl
    | some t =>
      simp only [resetSlots, List.mem_cons, not_or] at outside
      exact (ih _ _ outside.2).trans (hf.reqUnlink w outside.1)

/-- A part that releasing does not touch survives for every slot. -/
theorem Listless.connResetFrom_blind {f : ReqInfo → α} (hf : Listless f)
    (blind : ∀ r, f { r with reqId := noReq, messagePtr := none } = f r) (fuel : Nat) (w : State)
    (slot : Option Nat) (s : Nat) :
    f ((Worker.connResetFrom fuel w slot).reqs s) = f (w.reqs s) := by
  induction fuel generalizing w slot with
  | zero => rfl
  | succ fuel ih =>
    cases slot with
    | none => rfl
    | some t =>
      refine (ih _ _).trans ?_
      by_cases e : s = t
      · rw [e]
        exact hf.reqUnlink_self w t blind
      · exact hf.reqUnlink w e

theorem reqUnlink_reqId (w : State) (slot : Nat) :
    ((reqUnlink w slot).1.reqs slot).reqId = noReq := by
  simp only [reqUnlink, setReq_self]

theorem connReqRemove_reqId (w : State) (c slot : Nat) :
    ((connReqRemove w c slot).reqs slot).reqId = noReq := reqUnlink_reqId _ _

/-- A released slot stays released. -/
theorem connResetFrom_keeps_free (fuel : Nat) (w : State) (slot : Option Nat) {s : Nat}
    (free : (w.reqs s).reqId = noReq) : ((connResetFrom fuel w slot).reqs s).reqId = noReq := by
  induction fuel generalizing w slot with
  | zero => exact free
  | succ fuel ih =>
    cases slot with
    | none => exact free
    | some t =>
      apply ih
      by_cases e : s = t
      · rw [e]
        exact reqUnlink_reqId w t
      · rw [linkless_reqId.reqUnlink w e]
        exact free

theorem connResetFrom_releases (fuel : Nat) (w : State) (slot : Option Nat) {s : Nat}
    (inside : s ∈ resetSlots fuel w slot) :
    ((connResetFrom fuel w slot).reqs s).reqId = noReq := by
  induction fuel generalizing w slot with
  | zero => cases inside
  | succ fuel ih =>
    cases slot with
    | none => cases inside
    | some t =>
      rcases List.mem_cons.mp inside with e | later
      · subst e
        exact connResetFrom_keeps_free fuel (reqUnlink w s).1 _ (reqUnlink_reqId w s)
      · exact ih _ _ later

theorem connReset_empty {w : State} {c : Nat} (empty : (w.conns c).reqList = none) : connReset w c = w := by
  rw [connReset, empty]
  rfl

/-! ## A new request -/

/-- The request as `obtain_messages` leaves it before its first command. -/
def entered (w : State) (c m : Nat) : ReqInfo :=
  { w.reqs (slotOf w.lastReqs) with
    reqId := w.lastReqs
    connId := c
    target := (w.conns c).target
    fwdRepliesLeft := -1
    messagePtr := some m
    currCmd := some (messageFirstCmd m)
    ctx := none }

/-- The slot of the next id is busy and nothing is entered, or the request
takes it. -/
theorem enterRequest_cases (w : State) (c m : Nat) :
    ((w.reqs (slotOf w.lastReqs)).reqId ≠ noReq ∧ (enterRequest w c m).2 = none ∧
      (enterRequest w c m).1 = { w with lastReqs := (w.lastReqs + 1) % 2 ^ 32 }) ∨
    ((w.reqs (slotOf w.lastReqs)).reqId = noReq ∧
      (enterRequest w c m).2 = some (slotOf w.lastReqs)) := by
  by_cases free : (w.reqs (slotOf w.lastReqs)).reqId = noReq
  · refine Or.inr ⟨free, ?_⟩
    simp [enterRequest, connReqAdd, reqAlloc, free]
  · refine Or.inl ⟨free, ?_, ?_⟩ <;> simp [enterRequest, connReqAdd, reqAlloc, free]

theorem Listless.enterRequest_other {f : ReqInfo → α} (hf : Listless f) (w : State) (c m : Nat)
    {s : Nat} (other : s ≠ slotOf w.lastReqs) :
    f ((enterRequest w c m).1.reqs s) = f (w.reqs s) := by
  by_cases free : (w.reqs (slotOf w.lastReqs)).reqId = noReq
  · simp only [enterRequest, connReqAdd, reqAlloc, free, ne_eq, not_true_eq_false, if_false]
    rw [setReq_other _ _ other]
    simp only [State.setConn]
    rw [hf.setPrev, setReq_other _ _ other, setReq_other _ _ other]
  · rcases enterRequest_cases w c m with ⟨-, -, e⟩ | ⟨absurdly, -⟩
    · rw [e]
    · exact absurd absurdly free

theorem Listless.enterRequest_self {f : ReqInfo → α} (hf : Listless f) (w : State) (c m : Nat)
    (free : (w.reqs (slotOf w.lastReqs)).reqId = noReq) :
    f ((enterRequest w c m).1.reqs (slotOf w.lastReqs)) = f (entered w c m) := by
  let slot := slotOf w.lastReqs
  simp only [enterRequest, connReqAdd, reqAlloc, free, ne_eq, not_true_eq_false, if_false]
  rw [setReq_self]
  have linked : ∀ (v : State) (next : Option Nat) (r : ReqInfo), v.reqs slot = r →
      ∃ p, (Worker.setPrev v next (some slot)).reqs slot = { r with prev := p } := by
    intro v next r h
    cases next with
    | none => exact ⟨r.prev, h⟩
    | some t =>
      by_cases e : slot = t
      · subst e
        exact ⟨some slot, by rw [Worker.setPrev, setReq_self, h]⟩
      · exact ⟨r.prev, by rw [Worker.setPrev, setReq_other _ _ e, h]⟩
  simp only [State.setConn]
  obtain ⟨p, e⟩ := linked _ _ _ (setReq_self _ slot _)
  rw [e]
  rw [setReq_self]
  simp only
  rw [← hf.prev (entered w c m) p]
  exact (hf.next { entered w c m with prev := p } _)

/-! ## The rest of the state -/

/-- Whether a connection is allocated, and its socket. -/
def housing (c : ConnInfo) : Bool × Option Nat := (c.busy, c.sock)

/-- A part of the state outside the two tables and the counters; of the
connections it may read the `housing`. -/
structure Tableless (g : State → α) : Prop where
  setReq : ∀ w slot r, g (w.setReq slot r) = g w
  setConn : ∀ w c conn, housing conn = housing (w.conns c) → g (w.setConn c conn) = g w
  lastReqs : ∀ w n, g { w with lastReqs := n } = g w
  activeReqs : ∀ w n, g { w with activeReqs := n } = g w

section Tableless

variable {g : State → α} (hg : Tableless g) (w : State)
include hg

theorem Tableless.setPrev (slot prev : Option Nat) : g (setPrev w slot prev) = g w := by
  cases slot with
  | none => rfl
  | some s => exact hg.setReq _ _ _

theorem Tableless.setNext (slot next : Option Nat) : g (setNext w slot next) = g w := by
  cases slot with
  | none => rfl
  | some s => exact hg.setReq _ _ _

theorem Tableless.reqUnlink (slot : Nat) : g (reqUnlink w slot).1 = g w := by
  simp only [Worker.reqUnlink]
  rw [hg.setReq, hg.setNext, hg.setPrev]

theorem Tableless.shiftNewer (size fuel : Nat) (slot : Option Nat) :
    g (shiftNewer size fuel w slot) = g w := by
  induction fuel generalizing w slot with
  | zero => rfl
  | succ fuel ih =>
    cases slot with
    | none => rfl
    | some s => exact (ih _ _).trans (hg.setReq _ _ _)

theorem Tableless.connReqRemove (c slot : Nat) : g (connReqRemove w c slot) = g w := by
  have reclaimed : g (Worker.reclaim w c slot) = g w := by
    unfold Worker.reclaim
    split
    · rfl
    · split
      · exact (hg.shiftNewer _ _ _ _).trans (hg.setConn _ _ _ rfl)
      · rfl
  rw [Worker.connReqRemove, hg.reqUnlink, dropHead]
  split
  · refine (hg.setConn _ _ _ ?_).trans reclaimed
    rfl
  · exact reclaimed

theorem Tableless.connResetFrom (fuel : Nat) (slot : Option Nat) :
    g (connResetFrom fuel w slot) = g w := by
  induction fuel generalizing w slot with
  | zero => rfl
  | succ fuel ih =>
    cases slot with
    | none => rfl
    | some s => exact (ih _ _).trans (hg.reqUnlink w s)

theorem Tableless.enterRequest (c m : Nat) : g (enterRequest w c m).1 = g w := by
  by_cases free : (w.reqs (slotOf w.lastReqs)).reqId = noReq
  · simp only [Node.enterRequest, connReqAdd, reqAlloc, free, ne_eq, not_true_eq_false, if_false]
    rw [hg.setReq, hg.activeReqs, hg.setConn _ _ _ (by rfl), hg.setPrev, hg.setReq, hg.setReq,
      hg.lastReqs]
  · rcases enterRequest_cases w c m with ⟨-, -, e⟩ | ⟨absurdly, -⟩
    · rw [e, hg.lastReqs]
    · exact absurd absurdly free

end Tableless

theorem tableless_housing : Tableless fun w c => housing (w.conns c) where
  setReq := fun _ _ _ => rfl
  setConn := by
    intro w c conn same
    funext i
    by_cases own : i = c
    · subst own
      simpa [State.setConn] using same
    · simp [State.setConn, own]
  lastReqs := fun _ _ => rfl
  activeReqs := fun _ _ => rfl

theorem tableless_enableDefrag : Tableless State.enableDefrag :=
  ⟨fun _ _ _ => rfl, fun _ _ _ _ => rfl, fun _ _ => rfl, fun _ _ => rfl⟩

theorem tableless_nextFd : Tableless State.nextFd :=
  ⟨fun _ _ _ => rfl, fun _ _ _ _ => rfl, fun _ _ => rfl, fun _ _ => rfl⟩

end Requests
