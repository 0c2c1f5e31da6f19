import DistWalk.ThreadedBlocks
import DistWalk.NodeCalls

/-!
# The receive queue of a connection

The live requests of an open connection hang on its `req_list`, newest first, and
their messages lie in its receive buffer in the order of arrival, below
`curr_proc_buf`. Entering a request, releasing one with its defragmentation,
closing the connection and the status that is written into a message keep this.
-/

namespace ReceiveQueue

open ByteMemory Message Connection Worker Timeout Node Requests Transitions ThreadedBlocks

/-- The request in slot `s` holds a message of connection `c`. -/
def OnConn (w : State) (c s : Nat) : Prop := (w.reqs s).messagePtr ≠ none ∧ (w.reqs s).connId = c

/-- Where a request hangs and where its message lies. -/
def place (r : ReqInfo) : Nat × Option Nat × Option Nat × Option Nat :=
  (r.connId, r.messagePtr, r.prev, r.next)

/-- `l` are the live requests of connection `c`, newest first. -/
structure Queue (w : State) (c : Nat) (l : List Nat) : Prop where
  head : (w.conns c).reqList = l.head?
  linked : Linked (fun s => (w.reqs s).next) (fun s => (w.reqs s).prev) none l
  stacked : Stacked (fun s => (w.reqs s).messagePtr) (reqSizeOf (w.conns c).recvBuf) messageHeader
    (w.conns c).currProcBuf l
  members : ∀ s, s ∈ l ↔ OnConn w c s
  slots : ∀ s ∈ l, s < maxReqs

/-- The bytes of the messages in a queue. -/
def heldBytes (w : State) (c : Nat) (l : List Nat) : Nat :=
  (l.map (blockSize (fun s => (w.reqs s).messagePtr) (reqSizeOf (w.conns c).recvBuf))).sum

/-- Connection `c` has a queue, and `lost` of the bytes before `curr_proc_buf` belong to
no live request. -/
def Queued (w : State) (c lost : Nat) : Prop :=
  ∃ l, Queue w c l ∧ (w.conns c).currProcBuf = heldBytes w c l + lost

theorem Queue.nodup {w : State} {c : Nat} {l : List Nat} (h : Queue w c l) : l.Nodup :=
  h.stacked.nodup (by decide)

theorem Queue.length_le {w : State} {c : Nat} {l : List Nat} (h : Queue w c l) : l.length ≤ maxReqs := by
  have inside : l ⊆ List.range maxReqs := fun s hs => List.mem_range.mpr (h.slots s hs)
  have := (List.subperm_of_subset h.nodup inside).length_le
  simpa using this

theorem Queue.unique {w : State} {c : Nat} {l l' : List Nat} (h : Queue w c l) (h' : Queue w c l') : l = l' :=
  h.linked.unique h'.linked (h.head.symm.trans h'.head)

theorem Queue.live {w : State} {c : Nat} {l : List Nat} (h : Queue w c l) {s : Nat} (hs : s ∈ l) :
    OnConn w c s := (h.members s).mp hs

/-! ## What leaves a queue alone -/

/-- The parts of `w` that the queue of connection `c` rests on are those of `w'`. -/
structure SameQueue (w w' : State) (c : Nat) : Prop where
  on : ∀ s, OnConn w' c s ↔ OnConn w c s
  placed : ∀ s, OnConn w c s → place (w'.reqs s) = place (w.reqs s)
  list : (w'.conns c).reqList = (w.conns c).reqList
  top : (w'.conns c).currProcBuf = (w.conns c).currProcBuf
  sizes : ∀ s p, OnConn w c s → (w.reqs s).messagePtr = some p →
    reqSizeOf (w'.conns c).recvBuf p = reqSizeOf (w.conns c).recvBuf p

theorem place_eq {r r' : ReqInfo} (h : place r' = place r) :
    r'.connId = r.connId ∧ r'.messagePtr = r.messagePtr ∧ r'.prev = r.prev ∧ r'.next = r.next := by
  simpa only [place, Prod.mk.injEq] using h

theorem Queue.same {w w' : State} {c : Nat} {l : List Nat} (h : Queue w c l) (k : SameQueue w w' c) :
    Queue w' c l where
  head := k.list.trans h.head
  linked := h.linked.congr fun s hs =>
    have e := place_eq (k.placed s (h.live hs))
    ⟨e.2.2.2, e.2.2.1⟩
  stacked := by
    rw [k.top]
    exact h.stacked.congr (fun s hs => (place_eq (k.placed s (h.live hs))).2.1)
      fun s hs p e => k.sizes s p (h.live hs) e
  members := fun s => (h.members s).trans (k.on s).symm
  slots := h.slots

theorem SameQueue.held {w w' : State} {c : Nat} {l : List Nat} (k : SameQueue w w' c) (h : Queue w c l) :
    heldBytes w' c l = heldBytes w c l := by
  refine congrArg List.sum (List.map_congr_left fun s hs => ?_)
  have here := (place_eq (k.placed s (h.live hs))).2.1
  simp only [blockSize, here]
  cases e : (w.reqs s).messagePtr with
  | none => rfl
  | some p => exact k.sizes s p (h.live hs) e

theorem SameQueue.queued {w w' : State} {c lost : Nat} (k : SameQueue w w' c) (h : Queued w c lost) :
    Queued w' c lost := by
  obtain ⟨l, queue, total⟩ := h
  exact ⟨l, queue.same k, by rw [k.top, k.held queue, total]⟩

/-! ## The status of a message -/

theorem reqSizeOf_setStatus (mem : Mem) {m q : Nat} (status : Nat) (apart : q ≤ m ∨ m + 8 ≤ q) :
    reqSizeOf (setStatus mem m status) q = reqSizeOf mem q :=
  u32_store_disjoint mem (q + 4) (m + 8) (u32Bytes status)
    (by simp only [length_u32Bytes]; omega)

theorem sameQueue_setMsgStatus {w : State} {slot m : Nat} {l : List Nat} (status : Nat)
    (placed : (w.reqs slot).messagePtr = some m) (h : Queue w (w.reqs slot).connId l) :
    SameQueue w (setMsgStatus w slot m status) (w.reqs slot).connId where
  on := fun s => Iff.rfl
  placed := fun s _ => rfl
  list := by simp [setMsgStatus, State.setConn]
  top := by simp [setMsgStatus, State.setConn]
  sizes := by
    intro s p on at_
    have own : slot ∈ l := (h.members slot).mpr ⟨by rw [placed]; exact Option.some_ne_none m, rfl⟩
    have other : s ∈ l := (h.members s).mpr on
    obtain ⟨q, here, large, -⟩ := h.stacked.mem own
    rw [placed] at here
    cases here
    simp only [messageHeader] at large
    simp only [setMsgStatus, State.setConn, Function.update_self]
    refine reqSizeOf_setStatus _ status ?_
    rcases h.stacked.apart own other placed at_ with e | e | e <;> omega

/-! ## Releasing a request -/

/-- A request whose message moves down by `size` bytes. -/
def shifted (size : Nat) (r : ReqInfo) : ReqInfo :=
  { r with messagePtr := r.messagePtr.map (· - size), currCmd := r.currCmd.map (· - size) }

theorem shiftNewer_conns (size fuel : Nat) (w : State) (slot : Option Nat) :
    (shiftNewer size fuel w slot).conns = w.conns := by
  induction fuel generalizing w slot with
  | zero => rfl
  | succ fuel ih =>
    cases slot with
    | none => rfl
    | some s => exact ih _ _

/-- The loop over the newer requests shifts each of them once. -/
theorem shiftNewer_reqs {size fuel : Nat} {w : State} {start : Option Nat} {u : List Nat}
    (rising : Rising (fun s => (w.reqs s).prev) start u) (distinct : u.Nodup) (fits : u.length < fuel)
    (s : Nat) : (shiftNewer size fuel w start).reqs s =
      if s ∈ u then shifted size (w.reqs s) else w.reqs s := by
  induction u generalizing w start fuel with
  | nil =>
    cases fuel with
    | zero => cases fits
    | succ fuel =>
      have stop : start = none := rising
      subst stop
      rfl
  | cons x u ih =>
    cases fuel with
    | zero => cases fits
    | succ fuel =>
      obtain ⟨here, later⟩ := rising
      subst here
      have fresh := List.nodup_cons.mp distinct
      have kept : ∀ y, ((w.setReq x (shifted size (w.reqs x))).reqs y).prev = (w.reqs y).prev :=
        setReq_keeps ReqInfo.prev w rfl
      have rest := @ih fuel (w.setReq x (shifted size (w.reqs x))) (w.reqs x).prev
        (by simpa only [kept] using later) fresh.2 (by simpa using fits)
      refine rest.trans ?_
      by_cases own : s = x
      · subst own
        rw [if_neg fresh.1, if_pos (by simp), setReq_self]
      · rw [setReq_other _ _ own]
        simp only [List.mem_cons, own, false_or]

/-- A request is taken out of the list that its neighbours form. -/
theorem reqUnlink_other (w : State) {slot x : Nat} (other : x ≠ slot) :
    (reqUnlink w slot).1.reqs x = { w.reqs x with
      prev := if (w.reqs slot).next = some x then (w.reqs slot).prev else (w.reqs x).prev
      next := if (w.reqs slot).prev = some x then (w.reqs slot).next else (w.reqs x).next } := by
  simp only [reqUnlink, setReq_other _ _ other]
  cases later : (w.reqs slot).next with
  | none =>
    cases earlier : (w.reqs slot).prev with
    | none => simp [setPrev, setNext]
    | some y =>
      by_cases here : y = x
      · subst here
        simp [setPrev, setNext, State.setReq]
      · simp [setPrev, setNext, State.setReq, here, Ne.symm here]
  | some z =>
    cases earlier : (w.reqs slot).prev with
    | none =>
      by_cases here : z = x
      · subst here
        simp [setPrev, setNext, State.setReq]
      · simp [setPrev, setNext, State.setReq, here, Ne.symm here]
    | some y =>
      by_cases here : y = x
      · subst here
        by_cases there : z = y
        · subst there
          simp [setPrev, setNext, State.setReq]
        · simp [setPrev, setNext, State.setReq, there, Ne.symm there]
      · by_cases there : z = x
        · subst there
          simp [setPrev, setNext, State.setReq, here, Ne.symm here]
        · simp [setPrev, setNext, State.setReq, here, there, Ne.symm here, Ne.symm there]

theorem reqUnlink_messagePtr (w : State) (slot : Nat) :
    ((reqUnlink w slot).1.reqs slot).messagePtr = none := by
  simp only [reqUnlink, setReq_self]

/-! ### The bytes -/

theorem defragment_below (conn : ConnInfo) {p size i : Nat} (below : i < p) :
    (defragment conn p size).recvBuf i = conn.recvBuf i :=
  store_outside conn.recvBuf p _ (Or.inl below)

theorem defragment_above (conn : ConnInfo) {p size i : Nat} (above : p ≤ i)
    (inside : i + size < conn.currRecvBuf) :
    (defragment conn p size).recvBuf i = conn.recvBuf (i + size) := by
  have offset : i - p < (slice conn.recvBuf (p + size) (conn.currRecvBuf - (p + size))).length := by
    rw [length_slice]
    omega
  have stored := store_inside conn.recvBuf p
    (slice conn.recvBuf (p + size) (conn.currRecvBuf - (p + size))) offset
  have here : p + (i - p) = i := by omega
  rw [here] at stored
  refine stored.trans ?_
  rw [List.getD_eq_getElem?_getD, List.getElem?_eq_getElem offset, Option.getD_some, getElem_slice]
  congr 1
  omega

theorem reqSizeOf_defragment_below (conn : ConnInfo) {p size q : Nat} (below : q + 8 ≤ p) :
    reqSizeOf (defragment conn p size).recvBuf q = reqSizeOf conn.recvBuf q :=
  u32_congr fun i hi => defragment_below conn (by omega)

theorem reqSizeOf_defragment_above (conn : ConnInfo) {p size q : Nat} (above : p + size ≤ q)
    (inside : q + 8 ≤ conn.currRecvBuf) :
    reqSizeOf (defragment conn p size).recvBuf (q - size) = reqSizeOf conn.recvBuf q := by
  refine u32_congr fun i hi => ?_
  rw [defragment_above conn (by omega) (by omega)]
  congr 1
  omega

/-! ### The queue -/

/-- What releasing the request in `slot` does to the requests: the newer ones `a` may
move, the neighbours are joined. -/
structure Released (w w' : State) (slot : Nat) (a : List Nat) (moves : Bool) (size : Nat) : Prop where
  others : ∀ x, x ≠ slot → w'.reqs x =
    { (if moves = true ∧ x ∈ a then shifted size (w.reqs x) else w.reqs x) with
      prev := if (w.reqs slot).next = some x then (w.reqs slot).prev else (w.reqs x).prev
      next := if (w.reqs slot).prev = some x then (w.reqs slot).next else (w.reqs x).next }
  gone : (w'.reqs slot).messagePtr = none

theorem dropHead_conn (w : State) (c slot : Nat) :
    (dropHead w c slot).conns = Function.update w.conns c { w.conns c with
      reqList := if (w.conns c).reqList = some slot then (w.reqs slot).next else (w.conns c).reqList } := by
  unfold dropHead
  split
  · rfl
  · simp

section Release

variable {w : State} {slot p : Nat} {a t : List Nat}

/-- With defragmentation. -/
theorem connReqRemove_moves (placed : (w.reqs slot).messagePtr = some p)
    (h : Queue w (w.reqs slot).connId (a ++ slot :: t))
    (moves : (w.conns (w.reqs slot).connId).enableDefrag = true ∧ p < bufSize) :
    Released w (connReqRemove w (w.reqs slot).connId slot) slot a true
        (reqSizeOf (w.conns (w.reqs slot).connId).recvBuf p) ∧
      (connReqRemove w (w.reqs slot).connId slot).conns =
        Function.update w.conns (w.reqs slot).connId
          { defragment (w.conns (w.reqs slot).connId) p
              (reqSizeOf (w.conns (w.reqs slot).connId).recvBuf p) with
            reqList := if (w.conns (w.reqs slot).connId).reqList = some slot then (w.reqs slot).next
              else (w.conns (w.reqs slot).connId).reqList } := by
  generalize hc : (w.reqs slot).connId = c at h moves ⊢
  generalize hsize : reqSizeOf (w.conns c).recvBuf p = size
  have distinct := h.nodup
  have rising := h.linked.rising
  have reversed : a.reverse.Nodup := List.nodup_reverse.mpr (List.nodup_append.mp distinct).1
  have short : a.reverse.length < maxReqs + 1 := by
    have := h.length_le
    simp only [List.length_append, List.length_reverse] at this ⊢
    omega
  have apart : slot ∉ a := fun inside =>
    (List.disjoint_of_nodup_append distinct) inside (List.mem_cons_self ..)
  have reclaimed : reclaim w c slot = shiftNewer size (maxReqs + 1)
      (w.setConn c (defragment (w.conns c) p size)) (w.reqs slot).prev := by
    simp only [reclaim, placed, if_pos moves, hsize]
  have reqs : ∀ x, (reclaim w c slot).reqs x = if x ∈ a then shifted size (w.reqs x) else w.reqs x := by
    intro x
    rw [reclaimed, shiftNewer_reqs (w := w.setConn c (defragment (w.conns c) p size)) rising reversed short]
    simp only [List.mem_reverse]
    rfl
  have self : (reclaim w c slot).reqs slot = w.reqs slot := by rw [reqs, if_neg apart]
  refine ⟨⟨fun x other => ?_, reqUnlink_messagePtr _ _⟩, ?_⟩
  · simp only [connReqRemove, reqUnlink_other _ other, dropHead_reqs, self, reqs]
    split <;> simp [*, shifted]
  · have conns : (reclaim w c slot).conns = Function.update w.conns c (defragment (w.conns c) p size) := by
      rw [reclaimed, shiftNewer_conns]
      rfl
    simp only [connReqRemove, reqUnlink_conns, dropHead_conn, conns, self, Function.update_self,
      Function.update_idem]
    rfl

/-- Without. -/
theorem connReqRemove_stays (placed : (w.reqs slot).messagePtr = some p)
    (stays : ¬ ((w.conns (w.reqs slot).connId).enableDefrag = true ∧ p < bufSize)) :
    Released w (connReqRemove w (w.reqs slot).connId slot) slot a false 0 ∧
      (connReqRemove w (w.reqs slot).connId slot).conns =
        Function.update w.conns (w.reqs slot).connId { w.conns (w.reqs slot).connId with
          reqList := if (w.conns (w.reqs slot).connId).reqList = some slot then (w.reqs slot).next
            else (w.conns (w.reqs slot).connId).reqList } := by
  have reclaimed : reclaim w (w.reqs slot).connId slot = w := by
    simp only [reclaim, placed, if_neg stays]
  refine ⟨⟨fun x other => ?_, reqUnlink_messagePtr _ _⟩, ?_⟩
  · simp only [connReqRemove, reclaimed, reqUnlink_other _ other, dropHead_reqs]
    simp
  · simp only [connReqRemove, reclaimed, reqUnlink_conns, dropHead_conn]

theorem Released.linked {w' : State} {moves : Bool} {size : Nat} (r : Released w w' slot a moves size)
    (h : Queue w (w.reqs slot).connId (a ++ slot :: t)) :
    Linked (fun s => (w'.reqs s).next) (fun s => (w'.reqs s).prev) none (a ++ t) := by
  have distinct := h.nodup
  have other : ∀ x ∈ a ++ t, x ≠ slot := by
    rintro x inside rfl
    exact (List.nodup_middle.mp distinct |> List.nodup_cons.mp).1 inside
  refine h.linked.unlink distinct (fun x e => by cases e) ⟨fun x hx => ?_, fun x hx => ?_⟩
  · rw [r.others x (other x hx)]
  · rw [r.others x (other x hx)]

theorem Released.messagePtr {w' : State} {moves : Bool} {size x : Nat}
    (r : Released w w' slot a moves size) (other : x ≠ slot) :
    (w'.reqs x).messagePtr =
      if moves = true ∧ x ∈ a then (w.reqs x).messagePtr.map (· - size) else (w.reqs x).messagePtr := by
  rw [r.others x other]
  split <;> simp [*, shifted]

theorem Released.connId {w' : State} {moves : Bool} {size x : Nat}
    (r : Released w w' slot a moves size) (other : x ≠ slot) :
    (w'.reqs x).connId = (w.reqs x).connId := by
  rw [r.others x other]
  split <;> simp [*, shifted]

theorem Released.on_iff {w' : State} {moves : Bool} {size : Nat}
    (r : Released w w' slot a moves size) (c x : Nat) :
    OnConn w' c x ↔ x ≠ slot ∧ OnConn w c x := by
  by_cases own : x = slot
  · subst own
    simp [OnConn, r.gone]
  · simp only [OnConn, r.messagePtr own, r.connId own, ne_eq, own, not_false_eq_true, true_and]
    split <;> simp

theorem Released.members {w' : State} {moves : Bool} {size : Nat} (r : Released w w' slot a moves size)
    (h : Queue w (w.reqs slot).connId (a ++ slot :: t)) (x : Nat) :
    x ∈ a ++ t ↔ OnConn w' (w.reqs slot).connId x := by
  rw [r.on_iff, ← h.members x]
  have fresh := (List.nodup_cons.mp (List.nodup_middle.mp h.nodup)).1
  constructor
  · intro inside
    refine ⟨?_, by simp only [List.mem_append, List.mem_cons] at inside ⊢; tauto⟩
    rintro rfl
    exact fresh inside
  · rintro ⟨other, inside⟩
    simp only [List.mem_append, List.mem_cons] at inside ⊢
    tauto

theorem Queue.head_without (h : Queue w (w.reqs slot).connId (a ++ slot :: t)) :
    (if (w.conns (w.reqs slot).connId).reqList = some slot then (w.reqs slot).next
      else (w.conns (w.reqs slot).connId).reqList) = (a ++ t).head? := by
  rw [h.head]
  cases a with
  | nil =>
    rw [List.nil_append, List.head?_cons, if_pos rfl]
    exact h.linked.next_eq
  | cons x a =>
    have other : ¬ some x = some slot := by
      intro e
      cases e
      exact (List.nodup_cons.mp h.nodup).1 (by simp)
    rw [List.cons_append, List.head?_cons, if_neg other]
    rfl

/-- The newer messages move down by the size of the released one, the older stay. -/
theorem Released.closes {w' : State} {conn : ConnInfo}
    (r : Released w w' slot a true (reqSizeOf (w.conns (w.reqs slot).connId).recvBuf p))
    (placed : (w.reqs slot).messagePtr = some p)
    (h : Queue w (w.reqs slot).connId (a ++ slot :: t))
    (inside : (w.conns (w.reqs slot).connId).currProcBuf ≤ (w.conns (w.reqs slot).connId).currRecvBuf)
    (bytes : conn.recvBuf = (defragment (w.conns (w.reqs slot).connId) p
      (reqSizeOf (w.conns (w.reqs slot).connId).recvBuf p)).recvBuf) :
    Closes (fun s => (w.reqs s).messagePtr) (fun s => (w'.reqs s).messagePtr)
      (reqSizeOf (w.conns (w.reqs slot).connId).recvBuf) (reqSizeOf conn.recvBuf)
      (reqSizeOf (w.conns (w.reqs slot).connId).recvBuf p) a t := by
  have fresh := (List.nodup_cons.mp (List.nodup_middle.mp h.nodup)).1
  have distinct := h.nodup
  obtain ⟨-, below, above⟩ := h.stacked.split placed
  have newer : ∀ x ∈ a, x ≠ slot := by
    rintro x hx rfl
    exact fresh (List.mem_append_left _ hx)
  have older : ∀ x ∈ t, x ≠ slot ∧ x ∉ a := by
    intro x hx
    refine ⟨by rintro rfl; exact fresh (List.mem_append_right _ hx), fun hx' => ?_⟩
    exact List.disjoint_of_nodup_append distinct hx' (List.mem_cons_of_mem _ hx)
  refine ⟨fun x hx q here => ⟨?_, ?_⟩, fun x hx => ?_, fun x hx q here => ?_⟩
  · rw [r.messagePtr (newer x hx), if_pos ⟨rfl, hx⟩, here]
    rfl
  · obtain ⟨q', here', lower⟩ := above x hx
    rw [here] at here'
    cases here'
    obtain ⟨q', here', large, fits⟩ := h.stacked.mem (List.mem_append_left (slot :: t) hx)
    rw [here] at here'
    cases here'
    simp only [messageHeader] at large
    rw [bytes]
    exact reqSizeOf_defragment_above _ lower (by omega)
  · rw [r.messagePtr (older x hx).1, if_neg fun e => (older x hx).2 e.2]
  · obtain ⟨q', here', large, fits⟩ := below.mem hx
    rw [here] at here'
    cases here'
    simp only [messageHeader] at large
    rw [bytes]
    exact reqSizeOf_defragment_below _ (by omega)

end Release

/-- Releasing a request gives the bytes of its message back. -/
theorem Queue.release {w : State} {slot p : Nat} {l : List Nat}
    (placed : (w.reqs slot).messagePtr = some p) (h : Queue w (w.reqs slot).connId l)
    (proc : (w.conns (w.reqs slot).connId).currProcBuf ≤ (w.conns (w.reqs slot).connId).currRecvBuf)
    (recv : (w.conns (w.reqs slot).connId).currRecvBuf ≤ bufSize) :
    ∃ l', Queue (connReqRemove w (w.reqs slot).connId slot) (w.reqs slot).connId l' ∧
      ((w.conns (w.reqs slot).connId).enableDefrag = true → ∀ lost,
        (w.conns (w.reqs slot).connId).currProcBuf = heldBytes w (w.reqs slot).connId l + lost →
        ((connReqRemove w (w.reqs slot).connId slot).conns (w.reqs slot).connId).currProcBuf =
          heldBytes (connReqRemove w (w.reqs slot).connId slot) (w.reqs slot).connId l' + lost) := by
  have own : slot ∈ l := (h.members slot).mpr ⟨by rw [placed]; exact Option.some_ne_none p, rfl⟩
  obtain ⟨a, t, rfl⟩ := List.append_of_mem own
  have slots : ∀ s ∈ a ++ t, s < maxReqs := fun s hs =>
    h.slots s (by simp only [List.mem_append, List.mem_cons] at hs ⊢; tauto)
  have low : p < bufSize := by
    obtain ⟨q, here, large, fits⟩ := h.stacked.mem own
    rw [placed] at here
    cases here
    simp only [messageHeader] at large
    omega
  by_cases defrag : (w.conns (w.reqs slot).connId).enableDefrag = true
  · obtain ⟨r, conns⟩ := connReqRemove_moves placed h ⟨defrag, low⟩
    have closes := r.closes placed h proc
      (show ((connReqRemove w (w.reqs slot).connId slot).conns (w.reqs slot).connId).recvBuf = _ by
        rw [conns, Function.update_self])
    have total := closes.total h.stacked placed
    have top : ((connReqRemove w (w.reqs slot).connId slot).conns (w.reqs slot).connId).currProcBuf =
        (w.conns (w.reqs slot).connId).currProcBuf -
          reqSizeOf (w.conns (w.reqs slot).connId).recvBuf p := by
      rw [conns, Function.update_self]
      rfl
    refine ⟨a ++ t, ⟨?_, r.linked h, ?_, r.members h, slots⟩, fun _ lost balance => ?_⟩
    · rw [conns, Function.update_self]
      exact h.head_without
    · rw [top]
      exact h.stacked.close placed closes
    · simp only [heldBytes] at balance ⊢
      omega
  · obtain ⟨r, conns⟩ := connReqRemove_stays (a := a) placed fun e => defrag e.1
    have conn : (connReqRemove w (w.reqs slot).connId slot).conns (w.reqs slot).connId =
        { w.conns (w.reqs slot).connId with reqList :=
          if (w.conns (w.reqs slot).connId).reqList = some slot then (w.reqs slot).next
            else (w.conns (w.reqs slot).connId).reqList } := by
      rw [conns, Function.update_self]
    have at_ : ∀ s ∈ a ++ t, ((connReqRemove w (w.reqs slot).connId slot).reqs s).messagePtr =
        (w.reqs s).messagePtr := by
      intro s hs
      have other : s ≠ slot := by
        rintro rfl
        exact (List.nodup_cons.mp (List.nodup_middle.mp h.nodup)).1 hs
      rw [r.messagePtr other, if_neg (by simp)]
    refine ⟨a ++ t, ⟨?_, r.linked h, ?_, r.members h, slots⟩, fun on => ?_⟩
    · rw [conn]
      exact h.head_without
    · rw [conn]
      exact h.stacked.remove.congr at_ fun s hs q e => rfl
    · exact absurd on defrag

theorem exists_released {w : State} {slot p : Nat} {a t : List Nat}
    (placed : (w.reqs slot).messagePtr = some p) (h : Queue w (w.reqs slot).connId (a ++ slot :: t)) :
    ∃ moves size, Released w (connReqRemove w (w.reqs slot).connId slot) slot a moves size ∧
      ∀ d, d ≠ (w.reqs slot).connId → (connReqRemove w (w.reqs slot).connId slot).conns d = w.conns d := by
  by_cases moves : (w.conns (w.reqs slot).connId).enableDefrag = true ∧ p < bufSize
  · obtain ⟨r, conns⟩ := connReqRemove_moves placed h moves
    exact ⟨_, _, r, fun d other => by rw [conns, Function.update_of_ne other]⟩
  · obtain ⟨r, conns⟩ := connReqRemove_stays (a := a) placed moves
    exact ⟨_, _, r, fun d other => by rw [conns, Function.update_of_ne other]⟩

/-- The requests of the other connections stay as they are. -/
theorem reqs_release {w : State} {slot p : Nat} {l : List Nat} {c x : Nat}
    (placed : (w.reqs slot).messagePtr = some p) (h : Queue w (w.reqs slot).connId l)
    (other : c ≠ (w.reqs slot).connId) (on : OnConn w c x) :
    (connReqRemove w (w.reqs slot).connId slot).reqs x = w.reqs x := by
  have own : slot ∈ l := (h.members slot).mpr ⟨by rw [placed]; exact Option.some_ne_none p, rfl⟩
  obtain ⟨a, t, rfl⟩ := List.append_of_mem own
  obtain ⟨moves, size, r, -⟩ := exists_released placed h
  have apart : x ∉ a ++ slot :: t := fun inside => other (on.2.symm.trans (h.live inside).2)
  have back : ¬ (w.reqs slot).prev = some x := by
    intro e
    have last : a.getLast? = some x := by
      rw [← e]
      simpa using h.linked.prev_eq.symm
    exact apart (List.mem_append_left _ (List.mem_of_getLast? last))
  have forth : ¬ (w.reqs slot).next = some x := by
    intro e
    have first : t.head? = some x := h.linked.next_eq.symm.trans e
    exact apart (List.mem_append_right _ (List.mem_cons_of_mem _ (List.mem_of_mem_head? first)))
  have still : ¬ (moves = true ∧ x ∈ a) := fun e => apart (List.mem_append_left _ e.2)
  have here : x ≠ slot := fun e => apart (by rw [e]; exact own)
  rw [r.others x here, if_neg still, if_neg back, if_neg forth]

theorem on_release {w : State} {slot p : Nat} {l : List Nat} (placed : (w.reqs slot).messagePtr = some p)
    (h : Queue w (w.reqs slot).connId l) (c x : Nat) :
    OnConn (connReqRemove w (w.reqs slot).connId slot) c x ↔ x ≠ slot ∧ OnConn w c x := by
  have own : slot ∈ l := (h.members slot).mpr ⟨by rw [placed]; exact Option.some_ne_none p, rfl⟩
  obtain ⟨a, t, rfl⟩ := List.append_of_mem own
  obtain ⟨moves, size, r, -⟩ := exists_released placed h
  exact r.on_iff c x

theorem conns_release {w : State} {slot p : Nat} {l : List Nat} {c : Nat}
    (placed : (w.reqs slot).messagePtr = some p) (h : Queue w (w.reqs slot).connId l)
    (other : c ≠ (w.reqs slot).connId) :
    (connReqRemove w (w.reqs slot).connId slot).conns c = w.conns c := by
  have own : slot ∈ l := (h.members slot).mpr ⟨by rw [placed]; exact Option.some_ne_none p, rfl⟩
  obtain ⟨a, t, rfl⟩ := List.append_of_mem own
  obtain ⟨moves, size, r, conns⟩ := exists_released placed h
  exact conns c other

/-- The queues of the other connections stay as they are. -/
theorem sameQueue_release {w : State} {slot p : Nat} {l : List Nat} {c : Nat}
    (placed : (w.reqs slot).messagePtr = some p) (h : Queue w (w.reqs slot).connId l)
    (other : c ≠ (w.reqs slot).connId) :
    SameQueue w (connReqRemove w (w.reqs slot).connId slot) c := by
  have conn := conns_release placed h other
  refine ⟨fun x => ?_, fun x on => ?_, by rw [conn], by rw [conn], fun x q on e => by rw [conn]⟩
  · rw [on_release placed h]
    refine ⟨And.right, fun on => ⟨?_, on⟩⟩
    rintro rfl
    exact other on.2.symm
  · rw [reqs_release placed h other on]

/-! ## Closing a connection -/

/-- Releasing the whole list of a connection leaves none of its requests. -/
theorem connResetFrom_queue {w : State} {fuel : Nat} {l : List Nat}
    (linked : Linked (fun s => (w.reqs s).next) (fun s => (w.reqs s).prev) none l)
    (distinct : l.Nodup) (fits : l.length < fuel) (x : Nat) :
    (x ∈ l → ((connResetFrom fuel w l.head?).reqs x).messagePtr = none) ∧
      (x ∉ l → (connResetFrom fuel w l.head?).reqs x = w.reqs x) := by
  induction l generalizing w fuel with
  | nil =>
    cases fuel with
    | zero => cases fits
    | succ fuel => exact ⟨fun e => absurd e List.not_mem_nil, fun _ => rfl⟩
  | cons s l ih =>
    cases fuel with
    | zero => cases fits
    | succ fuel =>
      have fresh := List.nodup_cons.mp distinct
      have back : (w.reqs s).prev = none := linked.1
      have forth : (w.reqs s).next = l.head? := linked.2.1
      have rest : (reqUnlink w s).2 = l.head? := forth
      have linked' : Linked (fun x => ((reqUnlink w s).1.reqs x).next)
          (fun x => ((reqUnlink w s).1.reqs x).prev) none l := by
        refine Linked.unlink (a := []) linked distinct (fun x e => by cases e) ⟨fun x hx => ?_, fun x hx => ?_⟩
        · have other : x ≠ s := fun e => fresh.1 (e ▸ hx)
          rw [reqUnlink_other w other]
        · have other : x ≠ s := fun e => fresh.1 (e ▸ hx)
          rw [reqUnlink_other w other]
      have later := @ih (reqUnlink w s).1 fuel linked' fresh.2 (by simpa using fits)
      simp only [List.head?_cons, connResetFrom, rest]
      by_cases own : x = s
      · subst own
        refine ⟨fun _ => ?_, fun outside => absurd (List.mem_cons_self ..) outside⟩
        have cleared := later.2 fresh.1
        rw [cleared]
        exact reqUnlink_messagePtr w x
      · simp only [List.mem_cons, own, false_or]
        refine ⟨later.1, fun outside => (later.2 outside).trans ?_⟩
        have left : ¬ (w.reqs s).next = some x := by
          rw [forth]
          exact fun e => outside (List.mem_of_mem_head? e)
        have right : ¬ (w.reqs s).prev = some x := by
          rw [back]
          exact fun e => by cases e
        rw [reqUnlink_other w own, if_neg left, if_neg right]

/-! ## A new request -/

/-- The next message that is taken lies between the two cursors. -/
theorem connPrepareRecvMessage_some {c conn : ConnInfo} {m : Nat}
    (h : connPrepareRecvMessage c = .ok (some m, conn)) :
    m = c.currProcBuf ∧ messageHeader ≤ reqSizeOf c.recvBuf m ∧
      m + reqSizeOf c.recvBuf m ≤ c.currRecvBuf ∧
      conn = { c with currProcBuf := m + reqSizeOf c.recvBuf m } := by
  simp only [connPrepareRecvMessage] at h
  split at h
  · cases h
  · split at h
    · cases h
    · split at h
      · cases h
      · rename_i whole sized
        cases h
        have large := (not_not.mp sized).1
        simp only [messageHeader] at large
        exact ⟨rfl, large, by omega, rfl⟩

theorem recvBuf_prepared {c conn : ConnInfo} {m : Nat} (h : connPrepareRecvMessage c = .ok (some m, conn)) :
    conn.recvBuf = c.recvBuf := by
  obtain ⟨-, -, -, rfl⟩ := connPrepareRecvMessage_some h
  rfl

theorem connPrepareRecvMessage_none {c conn : ConnInfo}
    (h : connPrepareRecvMessage c = .ok (none, conn)) : conn = c := by
  simp only [connPrepareRecvMessage] at h
  split at h
  · cases h
    rfl
  · split at h
    · cases h
      rfl
    · split at h
      · cases h
      · cases h

/-- The tables after a request has been entered. -/
structure Entered (w w' : State) (c m slot : Nat) : Prop where
  conn : (w'.reqs slot).connId = c
  message : (w'.reqs slot).messagePtr = some m
  head : (w'.reqs slot).next = (w.conns c).reqList
  first : (w'.reqs slot).prev = none
  others : ∀ x, x ≠ slot → place (w'.reqs x) = place { w.reqs x with
    prev := if (w.conns c).reqList = some x then some slot else (w.reqs x).prev }
  conns : w'.conns = Function.update w.conns c { w.conns c with reqList := some slot }

theorem enterRequest_entered {w w' : State} {c m slot : Nat} (h : enterRequest w c m = (w', some slot))
    (fresh : (w.conns c).reqList ≠ some slot) : Entered w w' c m slot ∧ slot = slotOf w.lastReqs := by
  have done : (enterRequest w c m).2 = some slot := by rw [h]
  rcases enterRequest_cases w c m with ⟨-, none, -⟩ | ⟨free, some⟩
  · rw [none] at done
    cases done
  · rw [some] at done
    cases done
    refine ⟨?_, rfl⟩
    simp only [enterRequest, connReqAdd, reqAlloc, free, ne_eq, not_true_eq_false, if_false,
      Prod.mk.injEq, and_true] at h
    subst h
    cases list : (w.conns c).reqList with
    | none =>
      refine ⟨?_, ?_, ?_, ?_, fun x other => ?_, ?_⟩ <;>
        simp [State.setReq, State.setConn, setPrev, place, *]
    | some y =>
      have apart : y ≠ slotOf w.lastReqs := fun e => fresh (by rw [list, e])
      refine ⟨?_, ?_, ?_, ?_, fun x other => ?_, ?_⟩
      · simp [State.setReq, State.setConn, setPrev, list, apart, Ne.symm apart]
      · simp [State.setReq, State.setConn, setPrev, list, apart, Ne.symm apart]
      · simp [State.setReq, State.setConn, setPrev, list, apart, Ne.symm apart]
      · simp [State.setReq, State.setConn, setPrev, list, apart, Ne.symm apart]
      · by_cases here : y = x
        · subst here
          simp [State.setReq, State.setConn, setPrev, list, other, place]
        · simp [State.setReq, State.setConn, setPrev, list, other, place, here, Ne.symm here]
      · simp [State.setReq, State.setConn, setPrev, list]

section Enter

variable {w w' : State} {c m slot : Nat}

theorem Entered.on_iff (e : Entered w w' c m slot) (vacant : (w.reqs slot).messagePtr = none) (d x : Nat) :
    OnConn w' d x ↔ OnConn w d x ∨ (x = slot ∧ d = c) := by
  by_cases own : x = slot
  · subst own
    simp only [OnConn, e.conn, e.message, vacant]
    simp [eq_comm]
  · have same := place_eq (e.others x own)
    simp only [OnConn, same.1, same.2.1, own, false_and, or_false]

/-- A request entered on the bytes just taken. -/
theorem Queue.enter {l : List Nat} (h : Queue w c l) (e : Entered w w' c m slot)
    (vacant : (w.reqs slot).messagePtr = none) (small : slot < maxReqs)
    (large : messageHeader ≤ reqSizeOf (w.conns c).recvBuf m)
    (top : m + reqSizeOf (w.conns c).recvBuf m ≤ (w.conns c).currProcBuf)
    (below : Stacked (fun s => (w.reqs s).messagePtr) (reqSizeOf (w.conns c).recvBuf) messageHeader m l) :
    Queue w' c (slot :: l) ∧
      heldBytes w' c (slot :: l) = heldBytes w c l + reqSizeOf (w.conns c).recvBuf m := by
  have outside : slot ∉ l := fun inside => (h.live inside).1 vacant
  have other : ∀ x ∈ l, x ≠ slot := fun x hx e => outside (e ▸ hx)
  have conn : w'.conns c = { w.conns c with reqList := some slot } := by
    rw [e.conns, Function.update_self]
  have at_ : ∀ x ∈ l, (w'.reqs x).messagePtr = (w.reqs x).messagePtr :=
    fun x hx => (place_eq (e.others x (other x hx))).2.1
  refine ⟨⟨?_, ?_, ?_, fun x => ?_, fun x hx => ?_⟩, ?_⟩
  · rw [conn]
    rfl
  · refine h.linked.push outside h.nodup (e.head.trans h.head) e.first (fun x hx => ?_) fun x hx => ?_
    · have same := (place_eq (e.others x (other x hx))).2.2.1
      rw [same, h.head]
    · exact (place_eq (e.others x (other x hx))).2.2.2
  · rw [conn]
    exact ⟨m, e.message, large, top, below.congr at_ fun x hx q here => rfl⟩
  · rw [e.on_iff vacant, List.mem_cons, h.members x]
    tauto
  · rcases List.mem_cons.mp hx with rfl | hx
    · exact small
    · exact h.slots x hx
  · have same : ∀ x ∈ l, blockSize (fun s => (w'.reqs s).messagePtr) (reqSizeOf (w.conns c).recvBuf) x =
        blockSize (fun s => (w.reqs s).messagePtr) (reqSizeOf (w.conns c).recvBuf) x := by
      intro x hx
      simp only [blockSize, at_ x hx]
    simp only [heldBytes, conn, List.map_cons, List.sum_cons, List.map_congr_left same]
    simp only [blockSize, e.message, Option.elim_some]
    omega

theorem sameQueue_enter {l : List Nat} (h : Queue w c l) (e : Entered w w' c m slot)
    (vacant : (w.reqs slot).messagePtr = none) {d : Nat} (apart : d ≠ c) : SameQueue w w' d := by
  have conn : w'.conns d = w.conns d := by rw [e.conns, Function.update_of_ne apart]
  refine ⟨fun x => ?_, fun x on => ?_, by rw [conn], by rw [conn], fun x q on here => by rw [conn]⟩
  · rw [e.on_iff vacant]
    simp [apart]
  · have other : x ≠ slot := by
      rintro rfl
      exact on.1 vacant
    have head : ¬ (w.conns c).reqList = some x := by
      intro first
      rw [h.head] at first
      exact apart (on.2.symm.trans (h.live (List.mem_of_mem_head? first)).2)
    rw [e.others x other, if_neg head]

end Enter

end ReceiveQueue
