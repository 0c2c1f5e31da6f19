import DistWalk.LayoutRuns
import DistWalk.ReturnCodes
import DistWalk.TimeoutTable

/-!
# The error path towards a dead peer

When a connection fails, `exec_request` closes it and walks the requests of every other
open connection, newest first, up to the first one that waits on the same address. That
request, unless it is to be retried, goes on with status ERR at its next REPLY, or loses
its connection. The walk ends there, whatever stands behind it in the list.
-/

namespace DeadPeer

open ByteMemory Message Connection Worker Timeout Node Requests Transitions ThreadedBlocks ReceiveQueue
  BufferLayout LayoutSteps ConnectionSlots BufferSpace LayoutRuns Walkers Forwarding ReturnCodes

/-! ## What a walk leaves alone -/

/-- A request with its timeout left out. -/
def timeless (r : ReqInfo) : ReqInfo := { r with timeoutNode := none }

/-- Connection `i` and its requests are the same, timeouts apart. -/
structure Spared (i : Nat) (w w' : State) : Prop where
  conn : w'.conns i = w.conns i
  on : ∀ s, OnConn w' i s ↔ OnConn w i s
  reqs : ∀ s, OnConn w i s → timeless (w'.reqs s) = timeless (w.reqs s)

theorem Spared.refl (i : Nat) (w : State) : Spared i w w := ⟨rfl, fun _ => Iff.rfl, fun _ _ => rfl⟩

theorem Spared.trans {i : Nat} {a b c : State} (h : Spared i a b) (h' : Spared i b c) : Spared i a c where
  conn := h'.conn.trans h.conn
  on s := (h'.on s).trans (h.on s)
  reqs s on := (h'.reqs s ((h.on s).mpr on)).trans (h.reqs s on)

theorem timeless_eq {r r' : ReqInfo} (h : timeless r' = timeless r) :
    place r' = place r ∧ r'.currCmd = r.currCmd ∧ r'.reqId = r.reqId := by
  have reqId := congrArg ReqInfo.reqId h
  have connId := congrArg ReqInfo.connId h
  have message := congrArg ReqInfo.messagePtr h
  have cmd := congrArg ReqInfo.currCmd h
  have prev := congrArg ReqInfo.prev h
  have next := congrArg ReqInfo.next h
  simp only [timeless] at reqId connId message cmd prev next
  exact ⟨by simp only [place, connId, message, prev, next], cmd, reqId⟩

theorem Spared.queue {i : Nat} {w w' : State} (h : Spared i w w') {l : List Nat} (queue : Queue w i l) :
    Queue w' i l :=
  queue.same ⟨h.on, fun s on => (timeless_eq (h.reqs s on)).1, by rw [h.conn], by rw [h.conn],
    fun s p _ _ => by rw [h.conn]⟩

section Spared

variable {i : Nat} {w w' : State}

theorem spared_of_reqs (conn : w'.conns i = w.conns i)
    (reqs : ∀ s, timeless (w'.reqs s) = timeless (w.reqs s)) : Spared i w w' where
  conn := conn
  on s := by
    have same := place_eq (timeless_eq (reqs s)).1
    simp only [OnConn, same.1, same.2.1]
  reqs s _ := reqs s

theorem spared_aside (conns : w'.conns = w.conns) (reqs : w'.reqs = w.reqs) : Spared i w w' :=
  spared_of_reqs (by rw [conns]) fun s => by rw [reqs]

theorem spared_retimed (h : Retimed w w') : Spared i w w' := by
  refine spared_of_reqs (by rw [h.conns]) fun s => ?_
  obtain ⟨node, same⟩ := h.reqs s
  rw [same]
  rfl

theorem spared_setConn {j : Nat} (other : i ≠ j) (conn : ConnInfo) : Spared i w (w.setConn j conn) :=
  spared_of_reqs (by simp [State.setConn, other]) fun _ => rfl

/-- A request of another connection changes and stays there. -/
theorem spared_setReq {slot : Nat} {r : ReqInfo} (other : i ≠ (w.reqs slot).connId)
    (same : place r = place (w.reqs slot)) : Spared i w (w.setReq slot r) where
  conn := rfl
  on s := by
    have here := place_eq (setReq_keeps place w same s)
    simp only [OnConn, here.1, here.2.1]
  reqs s on := by
    rw [setReq_other _ _ fun e => other (by rw [← e, on.2])]

theorem spared_release {slot p : Nat} {l : List Nat} (placed : (w.reqs slot).messagePtr = some p)
    (h : Queue w (w.reqs slot).connId l) (other : i ≠ (w.reqs slot).connId) :
    Spared i w (connReqRemove w (w.reqs slot).connId slot) where
  conn := conns_release placed h other
  on := (sameQueue_release placed h other).on
  reqs s on := by rw [reqs_release placed h other on]

theorem spared_connReset {j : Nat} {l : List Nat} (h : Queue w j l) (other : i ≠ j) :
    Spared i w (connReset w j) where
  conn := by rw [connReset, connResetFrom_conns]
  on s := by
    rw [connReset_on h]
    simp [other]
  reqs s on := by
    have outside : s ∉ l := fun inside => other (on.2.symm.trans (h.live inside).2)
    rw [(connReset_cleared h s).2 outside]

theorem spared_closeAndForget {j : Nat} (laid : Laid w) (other : i ≠ j)
    (h : closeAndForget w (w.conns j).sock = .ok w') : Spared i w w' := by
  obtain ⟨opened, -, conns, e, reqs⟩ := closeAndForget_cases laid h
  obtain ⟨l, queue⟩ := laid.queue j opened
  have reset := spared_connReset (queue.same ((quiet_emit w e).sameQueue j)) other
  refine ⟨conns i other, fun s => ?_, fun s on => ?_⟩
  · simp only [OnConn, reqs]
    exact reset.on s
  · rw [reqs]
    exact reset.reqs s on

theorem spared_reply {slot m cmd : Nat} {ret : Int} (laid : Laid w)
    (placed : (w.reqs slot).messagePtr = some m) (other : i ≠ (w.reqs slot).connId)
    (h : reply w slot m cmd = .ok (w', ret)) : Spared i w w' := by
  obtain ⟨v, quiet, reqs, conns, rfl⟩ := reply_cases h
  have sent : Spared i w v := spared_of_reqs (conns i other) fun s => by rw [reqs]
  have here : v.reqs slot = w.reqs slot := by rw [reqs]
  obtain ⟨l, queue⟩ := (quiet.keeps.laid laid).queue (w.reqs slot).connId (by
    rw [(inbox_eq (quiet.conns _)).2.2.2.2.2.2.1]
    exact laid.opened slot (by rw [placed]; exact Option.some_ne_none m))
  rw [← here] at queue other
  have released := spared_release (here ▸ placed) queue other
  rw [here] at released
  exact (sent.trans released).trans (spared_aside rfl rfl)

theorem spared_processReply {slot m cmd : Nat} {ret : Int} (laid : Laid w)
    (placed : (w.reqs slot).messagePtr = some m) (other : i ≠ (w.reqs slot).connId)
    (h : processReply w slot m cmd = .ok (w', ret)) : Spared i w w' := by
  obtain ⟨v, result, replied, ⟨-, conns, reqs⟩ | ⟨-, closed, -⟩⟩ := processReply_cases h
  · exact (spared_reply laid placed other replied).trans (spared_aside conns reqs)
  · exact (spared_reply laid placed other replied).trans
      (spared_closeAndForget ((course_keeps.reply placed replied).laid laid) other closed)

end Spared

/-! ## A request that fails -/

/-- The request goes on at `itr` with status ERR. -/
def resumed (w : State) (slot m itr : Nat) : State :=
  setMsgStatus (setCurrCmd w slot (some itr)) slot m statusErr

/-- The next top-level REPLY of a request that stands at `cmd`. -/
def nextReply (w : State) (slot m cmd : Nat) : Option Nat :=
  let mem := reqMem w slot
  let msgEnd := messageEnd mem m
  (seekReply mem msgEnd (msgEnd + 1) (some cmd)).filter fun itr =>
    cmdInBounds mem itr msgEnd && decide (cmdAt mem itr = .reply)

section Fails

variable {i : Nat} {w w' : State} {slot m cmd : Nat}

theorem resumed_place (itr : Nat) : place ((resumed w slot m itr).reqs slot) = place (w.reqs slot) := by
  simp only [resumed, setMsgStatus, setCurrCmd, State.setConn, State.setReq, Function.update_self]
  rfl

theorem resumed_laid (laid : Laid w) (placed : (w.reqs slot).messagePtr = some m) (itr : Nat) :
    Laid (resumed w slot m itr) := by
  have moved := quiet_setReq w slot (r := { w.reqs slot with currCmd := some itr }) rfl
  have placed' : ((setCurrCmd w slot (some itr)).reqs slot).messagePtr = some m :=
    (place_eq (moved.reqs slot)).2.1.trans placed
  exact (keeps_setMsgStatus statusErr placed').laid (moved.keeps.laid laid)

theorem spared_resumed (other : i ≠ (w.reqs slot).connId) (itr : Nat) : Spared i w (resumed w slot m itr) := by
  have moved : Spared i w (setCurrCmd w slot (some itr)) := spared_setReq other rfl
  have same : ((setCurrCmd w slot (some itr)).reqs slot).connId = (w.reqs slot).connId := by
    simp [setCurrCmd, State.setReq]
  exact moved.trans (spared_setConn (same ▸ other) _)

/-- A request that goes on at a REPLY executes it. -/
theorem processMessages_reply {itr : Nat} (placed : (w.reqs slot).messagePtr = some m)
    (behind : m + 12 ≤ itr) (reply : cmdAt (reqMem w slot) itr = .reply) :
    processMessages (resumed w slot m itr) slot = processReply (resumed w slot m itr) slot m itr := by
  have same := place_eq (@resumed_place w slot m itr)
  have current : ((resumed w slot m itr).reqs slot).currCmd = some itr := by
    simp [resumed, setMsgStatus, setCurrCmd, State.setConn, State.setReq]
  have mem : reqMem (resumed w slot m itr) slot = setStatus (reqMem w slot) m statusErr := by
    rw [resumed, reqMem_setMsgStatus]
    simp [reqMem, setCurrCmd, State.setReq]
  have type : cmdAt (reqMem (resumed w slot m itr) slot) itr = .reply := by
    rw [mem, ← reply, cmdAt, cmdAt]
    congr 1
    exact u32_store_disjoint _ _ _ _ (Or.inr (by simp only [length_u32Bytes]; omega))
  simp only [processMessages, processSingleMessage, same.2.1.trans placed, current, processFrom, type]

/-- The request ends with the REPLY of status ERR, and `process_reply` returns `ret`. -/
structure AnswersErr (w : State) (slot : Nat) (w' : State) (ret : Int) : Prop where
  sent : ∃ m cmd itr v left, (w.reqs slot).messagePtr = some m ∧ (w.reqs slot).currCmd = some cmd ∧
    nextReply w slot m cmd = some itr ∧ removeTimeout w (reqIdOf (reqMem w slot) m) = .ok (v, left) ∧
    processReply (resumed v slot m itr) slot m itr = .ok (w', ret) ∧
    statusOf (reqMem (resumed v slot m itr) slot) m = statusErr

theorem answersErr {itr : Nat} {v : State} {left ret : Int} (placed : (w.reqs slot).messagePtr = some m)
    (current : (w.reqs slot).currCmd = some cmd) (next : nextReply w slot m cmd = some itr)
    (removed : removeTimeout w (reqIdOf (reqMem w slot) m) = .ok (v, left))
    (done : processReply (resumed v slot m itr) slot m itr = .ok (w', ret)) : AnswersErr w slot w' ret := by
  refine ⟨m, cmd, itr, v, left, placed, current, next, removed, done, ?_⟩
  rw [resumed, reqMem_setMsgStatus]
  exact u32_storeU32 _ _ (by decide)

/-- A request that is answered is gone. -/
theorem AnswersErr.gone {ret : Int} (h : AnswersErr w slot w' ret) : (w'.reqs slot).messagePtr = none := by
  obtain ⟨m, cmd, itr, v, left, -, -, -, -, done, -⟩ := h.sent
  obtain ⟨u, result, replied, ⟨-, -, reqs⟩ | ⟨-, closed, -⟩⟩ := processReply_cases done
  · rw [reqs]
    exact not_not.mp (reply_removed replied).gone
  · exact closeAndForget_gone (not_not.mp (reply_removed replied).gone) closed

theorem nextReply_none {itr : Nat}
    (found : seekReply (reqMem w slot) (messageEnd (reqMem w slot) m) (messageEnd (reqMem w slot) m + 1)
      (some cmd) = some itr)
    (ends : cmdInBounds (reqMem w slot) itr (messageEnd (reqMem w slot) m) = false ∨
      cmdAt (reqMem w slot) itr = .eom) : nextReply w slot m cmd = none := by
  simp only [nextReply, found]
  rcases ends with outside | type
  · simp [outside]
  · simp [type]

theorem nextReply_some {itr : Nat}
    (found : seekReply (reqMem w slot) (messageEnd (reqMem w slot) m) (messageEnd (reqMem w slot) m + 1)
      (some cmd) = some itr)
    (inside : cmdInBounds (reqMem w slot) itr (messageEnd (reqMem w slot) m) = true)
    (type : cmdAt (reqMem w slot) itr = .reply) : nextReply w slot m cmd = some itr := by
  simp only [nextReply, found, Option.filter_some, inside, type, decide_true, Bool.and_self, if_true]

/-- What the error path does to the request it stops at. -/
theorem failRequest_cases (laid : Laid w) (placed : (w.reqs slot).messagePtr = some m)
    (current : (w.reqs slot).currCmd = some cmd) (behind : m + 12 ≤ cmd)
    (h : failRequest w (w.reqs slot).connId slot m cmd = .ok w') :
    (∀ i, i ≠ (w.reqs slot).connId → Spared i w w') ∧
      ((w'.conns (w.reqs slot).connId).sock = none ∧ nextReply w slot m cmd = none ∨
        ∃ ret, AnswersErr w slot w' ret) := by
  simp only [Node.failRequest] at h
  split at h
  · cases h
  · rename_i v left removed
    have timed := removeTimeout_retimed removed
    have laid' := (still_removeTimeout removed).keeps.laid laid
    have conns : v.conns = w.conns := timed.conns
    obtain ⟨node, here⟩ := timed.reqs slot
    have mem : reqMem v slot = reqMem w slot := by rw [reqMem, conns, here]; rfl
    have placed' : (v.reqs slot).messagePtr = some m := by rw [here]; exact placed
    have own : (v.reqs slot).connId = (w.reqs slot).connId := by rw [here]
    have closing : ∀ {u}, closeAndForget v (v.conns (w.reqs slot).connId).sock = .ok u →
        nextReply w slot m cmd = none → (∀ i, i ≠ (w.reqs slot).connId → Spared i w u) ∧
          ((u.conns (w.reqs slot).connId).sock = none ∧ nextReply w slot m cmd = none ∨
            ∃ ret, AnswersErr w slot u ret) := by
      intro u closed silent
      exact ⟨fun i other => (spared_retimed timed).trans (spared_closeAndForget laid' other closed),
        Or.inl ⟨(closeAndForget_cases laid' closed).2.1, silent⟩⟩
    split at h
    · rename_i missing
      exact closing h (by simp [nextReply, missing])
    · rename_i itr found
      split at h
      · rename_i ends
        exact closing h (nextReply_none found ends)
      · rename_i onward
        rw [not_or] at onward
        obtain ⟨stops, later⟩ := seekReply_found found
        have reply : cmdAt (reqMem w slot) itr = .reply := stops.resolve_left onward.2
        have beyond := later cmd rfl
        obtain ⟨⟨u, ret⟩, done, paired⟩ := map_eq_ok.mp h
        cases paired
        change processMessages (resumed v slot m itr) slot = _ at done
        rw [processMessages_reply placed' (by omega) (mem ▸ reply)] at done
        have same := place_eq (@resumed_place v slot m itr)
        refine ⟨fun i other => ?_, Or.inr ⟨ret, answersErr placed current ?_ removed done⟩⟩
        · have resumes : Spared i v (resumed v slot m itr) := spared_resumed (own ▸ other) itr
          have replied := spared_processReply (resumed_laid laid' placed' itr) (same.2.1.trans placed')
            (i := i) (by rw [same.1, own]; exact other) done
          exact (spared_retimed timed).trans (resumes.trans replied)
        · exact nextReply_some found (by simpa using onward.1) reply

end Fails

/-! ## The walk over one connection -/

/-- The request stands at a FORWARD_BEGIN to `target`. -/
def waitsOn (target : Addr) (w : State) (slot : Nat) : Bool :=
  match (w.reqs slot).currCmd with
  | none => false
  | some cmd =>
    decide (cmdAt (reqMem w slot) cmd = .forwardBegin ∧ (fwdOpts (reqMem w slot) cmd).fwdAddr = target)

/-- How often the FORWARD at which the request stands is retried. -/
def retriesOf (w : State) (slot : Nat) : Nat :=
  match (w.reqs slot).currCmd with
  | none => 0
  | some cmd => (fwdOpts (reqMem w slot) cmd).retries

/-- The walk over connection `i` looks at the request: no newer one waits on `target`. -/
def Visited (target : Addr) (w : State) (i slot : Nat) : Prop :=
  ∃ a t, Queue w i (a ++ slot :: t) ∧ ∀ x ∈ a, waitsOn target w x = false

/-- The newest request of connection `i` that waits on `target`. -/
def Newest (target : Addr) (w : State) (i slot : Nat) : Prop :=
  ∃ a t, Queue w i (a ++ slot :: t) ∧ waitsOn target w slot = true ∧ ∀ x ∈ a, waitsOn target w x = false

section Walk

variable {target : Addr} {i : Nat} {w w' : State}

/-- The first request that waits on the address ends the walk. -/
theorem failWaiting_cases {a t : List Nat} {fuel : Nat} (queue : Queue w i (a ++ t))
    (passed : ∀ x ∈ a, waitsOn target w x = false) (enough : t.length < fuel)
    (h : failWaiting target i fuel w t.head? = .ok w') :
    (w' = w ∧ ∀ x ∈ t, waitsOn target w x = false) ∨
    ∃ slot, Newest target w i slot ∧ (0 < retriesOf w slot ∧ w' = w ∨
      retriesOf w slot = 0 ∧ ∃ m cmd, (w.reqs slot).messagePtr = some m ∧
        (w.reqs slot).currCmd = some cmd ∧ failRequest w i slot m cmd = .ok w') := by
  induction t generalizing a fuel with
  | nil =>
    cases fuel with
    | zero => cases enough
    | succ fuel =>
      cases h
      exact Or.inl ⟨rfl, fun _ no => by cases no⟩
  | cons slot t ih =>
    cases fuel with
    | zero => cases enough
    | succ fuel =>
      rw [List.head?_cons] at h
      simp only [failWaiting] at h
      cases current : (w.reqs slot).currCmd with
      | none =>
        simp only [current] at h
        cases h
      | some cmd =>
        simp only [current] at h
        split at h
        · rename_i found
          have waits : waitsOn target w slot = true := by simp [waitsOn, current, found]
          have retries : retriesOf w slot = (fwdOpts (reqMem w slot) cmd).retries := by
            simp only [retriesOf, current]
          refine Or.inr ⟨slot, ⟨a, t, queue, waits, passed⟩, ?_⟩
          rw [retries]
          split at h
          · rename_i again
            cases h
            exact Or.inl ⟨again, rfl⟩
          · rename_i final
            split at h
            · cases h
            · rename_i m placed
              exact Or.inr ⟨by omega, m, cmd, placed, current, h⟩
        · rename_i other
          have waits : waitsOn target w slot = false := by
            simp only [waitsOn, current, decide_eq_false_iff_not]
            exact other
          have forth : (w.reqs slot).next = t.head? := queue.linked.next_eq
          have queue' : Queue w i (a ++ [slot] ++ t) := by simpa using queue
          have passed' : ∀ x ∈ a ++ [slot], waitsOn target w x = false := by
            intro x member
            rcases List.mem_append.mp member with earlier | here
            · exact passed x earlier
            · rw [List.mem_singleton.mp here]
              exact waits
          have last : ((w.reqs slot).next = (w.conns i).reqList) → t = [] := by
            intro wraps
            rw [forth, queue.head] at wraps
            cases t with
            | nil => rfl
            | cons x t =>
              have distinct := queue.nodup
              cases a with
              | nil =>
                rw [List.nil_append, List.head?_cons, List.head?_cons] at wraps
                cases wraps
                simp at distinct
              | cons y a =>
                rw [List.cons_append, List.head?_cons, List.head?_cons] at wraps
                cases wraps
                simp at distinct
          split at h
          · rename_i wraps
            cases h
            rw [last wraps]
            exact Or.inl ⟨rfl, fun x member => by rw [List.mem_singleton.mp member]; exact waits⟩
          · rw [forth] at h
            rcases ih queue' passed' (by simpa using enough) h with ⟨same, none⟩ | found
            · refine Or.inl ⟨same, fun x member => ?_⟩
              rcases List.mem_cons.mp member with rfl | later
              · exact waits
              · exact none x later
            · exact Or.inr found

/-- The requests of connection `i` stand behind their headers. -/
def BehindOn (w : State) (i : Nat) : Prop :=
  ∀ s, OnConn w i s → ∀ m cmd, (w.reqs s).messagePtr = some m → (w.reqs s).currCmd = some cmd → m + 12 ≤ cmd

theorem Spared.behindOn (h : Spared i w w') (behind : BehindOn w i) : BehindOn w' i := by
  intro s on m cmd placed current
  have before := (h.on s).mp on
  obtain ⟨place, cmds, -⟩ := timeless_eq (h.reqs s before)
  exact behind s before m cmd ((place_eq place).2.1 ▸ placed) (cmds ▸ current)

theorem Newest.on {slot : Nat} (h : Newest target w i slot) : OnConn w i slot := by
  obtain ⟨a, t, queue, -⟩ := h
  exact queue.live (by simp)

theorem Newest.unique {slot slot' : Nat} (h : Newest target w i slot) (h' : Newest target w i slot') :
    slot = slot' := by
  obtain ⟨a, t, queue, waits, passed⟩ := h
  obtain ⟨a', t', queue', waits', passed'⟩ := h'
  have first : ∀ {b u : List Nat} {s : Nat}, waitsOn target w s = true →
      (∀ x ∈ b, waitsOn target w x = false) → (b ++ s :: u).find? (waitsOn target w) = some s := by
    intro b u s waits passed
    rw [List.find?_append, List.find?_eq_none.mpr (by simpa using passed), Option.none_or,
      List.find?_cons_of_pos waits]
  have here := first (u := t) waits passed
  rw [queue.unique queue', first waits' passed'] at here
  exact (Option.some.inj here).symm

/-- What the walk over connection `i` does. -/
theorem walk_cases (laid : Laid w) (opened : (w.conns i).sock ≠ none) (behind : BehindOn w i)
    (h : failWaiting target i (maxReqs + 1) w (w.conns i).reqList = .ok w') :
    (∀ d, d ≠ i → Spared d w w') ∧
      (w' = w ∧ (∀ s, Newest target w i s → 0 < retriesOf w s) ∨
      ∃ slot, Newest target w i slot ∧ retriesOf w slot = 0 ∧
        ((w'.conns i).sock = none ∨ ∃ ret, AnswersErr w slot w' ret)) := by
  obtain ⟨l, queue⟩ := laid.queue i opened
  rw [queue.head] at h
  have enough : l.length < maxReqs + 1 := Nat.lt_succ_of_le queue.length_le
  rcases failWaiting_cases (a := []) queue (fun x no => by cases no) enough h with
    ⟨rfl, none⟩ | ⟨slot, newest, ⟨again, rfl⟩ | ⟨final, m, cmd, placed, current, failed⟩⟩
  · refine ⟨fun d _ => .refl d w', Or.inl ⟨rfl, fun s newest => ?_⟩⟩
    obtain ⟨a, t, queue', waits, -⟩ := newest
    have idle := none s (by rw [queue.unique queue']; simp)
    rw [waits] at idle
    cases idle
  · exact ⟨fun d _ => .refl d w', Or.inl ⟨rfl, fun s other => newest.unique other ▸ again⟩⟩
  · have on := newest.on
    have own : i = (w.reqs slot).connId := on.2.symm
    subst own
    obtain ⟨spared, fails⟩ := failRequest_cases laid placed current (behind slot on m cmd placed current) failed
    exact ⟨spared, Or.inr ⟨slot, newest, final, fails.imp_left And.left⟩⟩

/-! ## The walk over all connections -/

/-- Walks over other connections leave a connection alone. -/
theorem failPending_spares {fuel k : Nat} (laid : Laid w)
    (behind : ∀ j, k ≤ j → j < k + fuel → (w.conns j).sock ≠ none → BehindOn w j)
    (h : failPending target fuel k w = .ok w') :
    ∀ d, d < k ∨ k + fuel ≤ d → Spared d w w' := by
  induction fuel generalizing k w with
  | zero =>
    cases h
    exact fun d _ => .refl d _
  | succ fuel ih =>
    simp only [failPending] at h
    split at h
    · intro d outside
      exact ih laid (fun j low high => behind j (by omega) (by omega)) h d (by omega)
    · rename_i opened
      split at h
      · cases h
      · rename_i v walked
        obtain ⟨spared, -⟩ := walk_cases laid opened (behind k (Nat.le_refl k) (by omega) opened) walked
        have laid' := (course_keeps.toPassage.failWaiting course_keeps.fails walked).laid laid
        have behind' : ∀ j, k + 1 ≤ j → j < k + 1 + fuel → (v.conns j).sock ≠ none → BehindOn v j := by
          intro j low high still
          have same := spared j (by omega)
          exact same.behindOn (behind j (by omega) (by omega) (same.conn ▸ still))
        intro d outside
        exact (spared d (by omega)).trans (ih laid' behind' h d (by omega))

/-- The walk over connection `i`, with the states before and after it. -/
theorem failPending_split {fuel k : Nat} (low : k ≤ i) (high : i < k + fuel)
    (h : failPending target fuel k w = .ok w') :
    ∃ u, failPending target (i - k) k w = .ok u ∧
      failPending target (k + fuel - i) i u = .ok w' := by
  induction fuel generalizing k w with
  | zero => omega
  | succ fuel ih =>
    by_cases here : i = k
    · subst here
      refine ⟨w, ?_, ?_⟩
      · rw [Nat.sub_self]
        rfl
      · rw [Nat.add_sub_cancel_left]
        exact h
    · obtain ⟨n, rfl⟩ : ∃ n, i = k + 1 + n := ⟨i - (k + 1), by omega⟩
      have count : k + 1 + n - k = n + 1 := by omega
      have rest : k + (fuel + 1) - (k + 1 + n) = k + 1 + fuel - (k + 1 + n) := by omega
      have later : k + 1 + n - (k + 1) = n := by omega
      rw [count, rest]
      simp only [failPending] at h ⊢
      split at h
      · rename_i closed
        rw [if_pos closed]
        have split := ih (by omega) (by omega) h
        rwa [later] at split
      · rename_i opened
        rw [if_neg opened]
        split at h
        · cases h
        · rename_i v walked
          have split := ih (by omega) (by omega) h
          rwa [later] at split

end Walk

/-! ## The other requests -/

/-- A request with all that forwarding has recorded in it, and its message where that has
moved to. -/
structure Carried (w w' : State) (x : Nat) : Prop where
  stays : ∃ m, (w.reqs x).messagePtr = some m ∧ Stays (reqSizeOf (reqMem w x) m) w w' x

/-- A request as it was, with its message where that has moved to and its timeout. -/
structure Intact (w w' : State) (x : Nat) : Prop extends Carried w w' x where
  timeout : (w'.reqs x).timeoutNode = (w.reqs x).timeoutNode

section Intact

variable {w w' : State} {x slot m : Nat}

theorem Carried.on (h : Carried w w' x) :
    (w'.reqs x).messagePtr ≠ none ∧ (w'.reqs x).connId = (w.reqs x).connId := by
  obtain ⟨p, -, stays⟩ := h.stays
  exact stays.on

theorem Carried.reqId (h : Carried w w' x) : (w'.reqs x).reqId = (w.reqs x).reqId := by
  obtain ⟨p, -, stays⟩ := h.stays
  have kept := stays.kept
  simp only [record, Prod.mk.injEq] at kept
  exact kept.1

/-- The header of a message moves with it. -/
theorem stays_size {n p : Nat} (h : Stays n w w' x) (placed : (w'.reqs x).messagePtr = some p)
    (large : messageHeader ≤ n) :
    ∃ q, (w.reqs x).messagePtr = some q ∧ reqSizeOf (reqMem w' x) p = reqSizeOf (reqMem w x) q := by
  obtain ⟨q, p', at_, there, -, bytes⟩ := h.moved
  rw [placed] at there
  cases there
  simp only [messageHeader] at large
  refine ⟨q, at_, ?_⟩
  rw [reqSizeOf, reqSizeOf]
  refine u32_congr fun i less => ?_
  rw [Nat.add_assoc, bytes (4 + i) (by omega), Nat.add_assoc]

theorem Carried.trans {u : State} (laid : Laid w) (h : Carried w u x) (h' : Carried u w' x) : Carried w w' x := by
  obtain ⟨q, here, stays⟩ := h.stays
  obtain ⟨p, there, stays'⟩ := h'.stays
  obtain ⟨q', here', size⟩ := stays_size stays there (Laid.apart laid here here rfl).1
  rw [here] at here'
  cases here'
  rw [size] at stays'
  exact ⟨q, here, stays.trans stays'⟩

theorem Intact.trans {u : State} (laid : Laid w) (h : Intact w u x) (h' : Intact u w' x) : Intact w w' x :=
  ⟨h.toCarried.trans laid h'.toCarried, h'.timeout.trans h.timeout⟩

theorem Carried.tables {u : State} (h : Carried w u x) (conns : w'.conns = u.conns) (reqs : w'.reqs = u.reqs) :
    Carried w w' x := by
  obtain ⟨q, here, kept, moved⟩ := h.stays
  have bytes : reqMem w' x = reqMem u x := by rw [reqMem, reqMem, conns, reqs]
  exact ⟨q, here, by rw [reqs]; exact kept, by rw [reqs, bytes]; exact moved⟩

theorem Intact.tables {u : State} (h : Intact w u x) (conns : w'.conns = u.conns) (reqs : w'.reqs = u.reqs) :
    Intact w w' x :=
  ⟨h.toCarried.tables conns reqs, by rw [reqs]; exact h.timeout⟩

/-- Neither what is recorded of the request nor its buffer changes. -/
theorem carried_same (h : Sound w) (live : (w.reqs x).messagePtr ≠ none)
    (same : (record (w'.reqs x), (w'.reqs x).messagePtr, (w'.reqs x).currCmd) =
      (record (w.reqs x), (w.reqs x).messagePtr, (w.reqs x).currCmd))
    (bytes : reqMem w' x = reqMem w x) : Carried w w' x := by
  obtain ⟨q, here⟩ := Option.ne_none_iff_exists'.mp live
  refine ⟨q, here, stays_same here (fun cmd current => ?_) same fun k _ => by rw [bytes]⟩
  have behind := (h.standing x q here).2 cmd current
  simp only [messageFirstCmd] at behind
  omega

/-- A request whose record and buffer are not touched. -/
theorem intact_same (h : Sound w) (live : (w.reqs x).messagePtr ≠ none) (reqs : w'.reqs x = w.reqs x)
    (bytes : reqMem w' x = reqMem w x) : Intact w w' x :=
  ⟨carried_same h live (by rw [reqs]) bytes, by rw [reqs]⟩

theorem intact_conn (h : Sound w) (live : (w.reqs x).messagePtr ≠ none) (reqs : w'.reqs x = w.reqs x)
    (conn : w'.conns (w.reqs x).connId = w.conns (w.reqs x).connId) : Intact w w' x :=
  intact_same h live reqs (by rw [reqMem, reqMem, reqs, conn])

theorem intact_closeAndForget {j : Nat} (h : Sound w) (live : (w.reqs x).messagePtr ≠ none)
    (other : (w.reqs x).connId ≠ j) (closed : closeAndForget w (w.conns j).sock = .ok w') : Intact w w' x := by
  obtain ⟨opened, -, conns, e, reqs⟩ := closeAndForget_cases h.laid closed
  obtain ⟨l, queue⟩ := h.laid.queue j opened
  have outside : x ∉ l := fun inside => other (queue.live inside).2
  refine intact_conn h live ?_ (conns _ other)
  rw [reqs]
  exact (connReset_cleared (queue.same ((quiet_emit w e).sameQueue j)) x).2 outside

theorem intact_reply {cmd : Nat} {ret : Int} (h : Sound w) (placed : (w.reqs slot).messagePtr = some m)
    (live : (w.reqs x).messagePtr ≠ none) (other : x ≠ slot) (replied : reply w slot m cmd = .ok (w', ret)) :
    Intact w w' x := by
  obtain ⟨v, quiet, reqs, -, rfl⟩ := reply_cases replied
  have bytes : reqMem v x = reqMem w x := by
    rw [reqMem, reqs, (inbox_eq (quiet.conns _)).1, reqMem]
  have sent : Intact w v x := intact_same h live (by rw [reqs]) bytes
  have laid := quiet.keeps.laid h.laid
  have placed' : (v.reqs slot).messagePtr = some m := by
    rw [reqs]
    exact placed
  obtain ⟨q, here⟩ := Option.ne_none_iff_exists'.mp sent.on.1
  have opened := laid.opened slot (by rw [placed']; exact Option.some_ne_none m)
  obtain ⟨l, queue⟩ := laid.queue _ opened
  have timeout := linkless_timeoutNode.connReqRemove v (c := (v.reqs slot).connId) other
  have released : Intact v (connReqRemove v (v.reqs slot).connId slot) x := by
    refine ⟨⟨q, here, ?_⟩, timeout⟩
    have behind : ∀ cmd, (v.reqs x).currCmd = some cmd → q ≤ cmd := by
      intro cmd current
      rw [reqs] at here current
      have := (h.standing x q here).2 cmd current
      simp only [messageFirstCmd] at this
      omega
    by_cases own : (v.reqs x).connId = (v.reqs slot).connId
    · exact stays_release placed' queue (laid.proc _ opened) ((queue.members x).mpr ⟨sent.on.1, own⟩) other here
        behind
    · have same := reqs_release placed' queue own ⟨sent.on.1, rfl⟩
      refine stays_same here behind (by rw [same]) fun k _ => ?_
      rw [reqMem, same, conns_release placed' queue own, reqMem]
  have own : (v.reqs slot).connId = (w.reqs slot).connId := by rw [reqs]
  rw [own] at released
  exact (sent.trans h.laid released).tables rfl rfl

/-- Another request is left alone, unless its connection is closed. -/
theorem intact_processReply {cmd : Nat} {ret : Int} (h : Sound w) (placed : (w.reqs slot).messagePtr = some m)
    (live : (w.reqs x).messagePtr ≠ none) (other : x ≠ slot)
    (done : processReply w slot m cmd = .ok (w', ret)) :
    ((w'.conns (w.reqs slot).connId).sock = none ∧ (w.reqs x).connId = (w.reqs slot).connId ∧ ret = -1) ∨
      Intact w w' x := by
  obtain ⟨v, result, replied, ⟨-, conns, reqs⟩ | ⟨refused, closed, -⟩⟩ := processReply_cases done
  · exact Or.inr ((intact_reply h placed live other replied).tables conns reqs)
  · have kept := intact_reply h placed live other replied
    have sound := course_sound.reply placed replied h
    by_cases same : (w.reqs x).connId = (w.reqs slot).connId
    · exact Or.inl ⟨(closeAndForget_cases sound.laid closed).2.1, same, refused⟩
    · exact Or.inr (kept.trans h.laid
        (intact_closeAndForget sound kept.on.1 (by rw [kept.on.2]; exact same) closed))

theorem timerfdSettime_reqs {its : ItimerSpec} (h : timerfdSettime w its = .ok w') : w'.reqs = w.reqs := by
  unfold timerfdSettime at h
  split at h
  · cases h
  · cases h
    rfl

/-- `remove_timeout` takes the timeout of the request that its argument names, no other. -/
theorem removeTimeout_node {id : Nat} {left : Int} (h : removeTimeout w id = .ok (w', left))
    (apart : reqGetById w id = some x → (w.reqs x).timeoutNode = none) :
    (w'.reqs x).timeoutNode = (w.reqs x).timeoutNode := by
  simp only [removeTimeout] at h
  split at h
  · cases h
    rfl
  · rename_i s named
    split at h
    · cases h
      rfl
    · cases h
    · rename_i node top pending _
      have other : x ≠ s := by
        rintro rfl
        rw [apart named] at pending
        cases pending
      split at h
      · cases h
        simp [State.setReq, other]
      · obtain ⟨u, armed, paired⟩ := map_eq_ok.mp h
        cases paired
        unfold rearm at armed
        split at armed
        · rw [timerfdSettime_reqs armed]
          simp [State.setReq, other]
        · rw [timerfdSettime_reqs armed]
          simp [State.setReq, other]

theorem intact_removeTimeout {id : Nat} {left : Int} (h : Sound w) (live : (w.reqs x).messagePtr ≠ none)
    (apart : reqGetById w id = some x → (w.reqs x).timeoutNode = none)
    (removed : removeTimeout w id = .ok (w', left)) : Intact w w' x := by
  have timed := removeTimeout_retimed removed
  obtain ⟨node, same⟩ := timed.reqs x
  refine ⟨carried_same h live (by rw [same]; rfl) ?_, removeTimeout_node removed apart⟩
  rw [reqMem, same, timed.conns, reqMem]

/-- Two requests of one connection have two messages. -/
theorem separate {q : Nat} (laid : Laid w) (placed : (w.reqs slot).messagePtr = some m)
    (here : (w.reqs x).messagePtr = some q) (own : (w.reqs x).connId = (w.reqs slot).connId)
    (other : x ≠ slot) : m ≠ q := by
  rintro rfl
  obtain ⟨wide, -⟩ := Laid.apart laid placed placed rfl
  obtain ⟨tall, -⟩ := Laid.apart laid here here rfl
  obtain ⟨l, queue⟩ := laid.queue _ (laid.opened slot (by rw [placed]; exact Option.some_ne_none m))
  have inside : slot ∈ l := (queue.members slot).mpr ⟨by rw [placed]; exact Option.some_ne_none m, rfl⟩
  have member : x ∈ l := (queue.members x).mpr ⟨by rw [here]; exact Option.some_ne_none m, own⟩
  obtain ⟨a, t, rfl⟩ := List.append_of_mem inside
  obtain ⟨-, below, above⟩ := queue.stacked.split placed
  simp only [reqMem, own, messageHeader] at wide tall
  rcases List.mem_append.mp member with newer | rest
  · obtain ⟨q', at_, high⟩ := above x newer
    rw [here] at at_
    cases at_
    omega
  · obtain ⟨q', at_, -, low⟩ := below.mem ((List.mem_cons.mp rest).resolve_left other)
    rw [here] at at_
    cases at_
    omega

/-- The status of one message is in no other. -/
theorem carried_setMsgStatus (h : Sound w) (placed : (w.reqs slot).messagePtr = some m)
    (live : (w.reqs x).messagePtr ≠ none) (other : x ≠ slot) (status : Nat) :
    Carried w (setMsgStatus w slot m status) x := by
  obtain ⟨q, here⟩ := Option.ne_none_iff_exists'.mp live
  refine ⟨q, here, stays_same here (fun cmd current => ?_) rfl fun k less => ?_⟩
  · have behind := (h.standing x q here).2 cmd current
    simp only [messageFirstCmd] at behind
    omega
  · by_cases own : (w.reqs x).connId = (w.reqs slot).connId
    · have mem : reqMem (setMsgStatus w slot m status) x = setStatus (reqMem w x) m status := by
        simp [reqMem, setMsgStatus, State.setConn, own]
      obtain ⟨large, apart⟩ := Laid.apart h.laid placed here own
      obtain ⟨wide, -⟩ := Laid.apart h.laid placed placed rfl
      have distinct := separate h.laid placed here own other
      simp only [messageHeader] at wide large
      rw [mem]
      refine store_outside _ (m + 8) _ ?_
      simp only [length_u32Bytes]
      omega
    · have mem : reqMem (setMsgStatus w slot m status) x = reqMem w x := by
        simp [reqMem, setMsgStatus, State.setConn, own]
      rw [mem]

/-- Where the request goes on is a matter of its own. -/
theorem intact_resumed (h : Sound w) (placed : (w.reqs slot).messagePtr = some m) {cmd itr : Nat}
    (current : (w.reqs slot).currCmd = some cmd) (le : cmd ≤ itr)
    (live : (w.reqs x).messagePtr ≠ none) (other : x ≠ slot) : Intact w (resumed w slot m itr) x := by
  have further : Further w slot (some itr) := by
    intro d e
    cases e
    exact ⟨cmd, current, le⟩
  have same : (setCurrCmd w slot (some itr)).reqs x = w.reqs x := setReq_other _ _ other
  have moved : Intact w (setCurrCmd w slot (some itr)) x := intact_same h live same (by rw [reqMem, same]; rfl)
  have placed' : ((setCurrCmd w slot (some itr)).reqs slot).messagePtr = some m := by
    rw [setCurrCmd, setReq_self]
    exact placed
  exact moved.trans h.laid
    ⟨carried_setMsgStatus (course_sound.setCurrCmd further h) placed' moved.on.1 other statusErr, rfl⟩

theorem sound_resumed {cmd itr : Nat} (h : Sound w) (placed : (w.reqs slot).messagePtr = some m)
    (current : (w.reqs slot).currCmd = some cmd) (le : cmd ≤ itr) : Sound (resumed w slot m itr) := by
  have further : Further w slot (some itr) := by
    intro d e
    cases e
    exact ⟨cmd, current, le⟩
  have placed' : ((setCurrCmd w slot (some itr)).reqs slot).messagePtr = some m := by
    rw [setCurrCmd, setReq_self]
    exact placed
  exact course_sound.setMsgStatus _ slot m statusErr placed' (course_sound.setCurrCmd further h)

/-- The error path leaves another request alone, unless it closes the connection of both because no
REPLY is left or the response is refused. -/
theorem intact_failRequest {cmd : Nat} (h : Sound w) (placed : (w.reqs slot).messagePtr = some m)
    (current : (w.reqs slot).currCmd = some cmd) (live : (w.reqs x).messagePtr ≠ none) (other : x ≠ slot)
    (apart : reqGetById w (reqIdOf (reqMem w slot) m) = some x → (w.reqs x).timeoutNode = none)
    (failed : failRequest w (w.reqs slot).connId slot m cmd = .ok w') :
    ((w'.conns (w.reqs slot).connId).sock = none ∧ (w.reqs x).connId = (w.reqs slot).connId ∧
      (nextReply w slot m cmd = none ∨ AnswersErr w slot w' (-1))) ∨ Intact w w' x := by
  have behind := (h.standing slot m placed).2 cmd current
  simp only [messageFirstCmd, messageHeader] at behind
  simp only [Node.failRequest] at failed
  split at failed
  · cases failed
  · rename_i v left removed
    have kept := intact_removeTimeout h live apart removed
    have sound := course_sound.still (still_removeTimeout removed) h
    have timed := removeTimeout_retimed removed
    obtain ⟨node, here⟩ := timed.reqs slot
    have mem : reqMem v slot = reqMem w slot := by rw [reqMem, timed.conns, here]; rfl
    have placed' : (v.reqs slot).messagePtr = some m := by rw [here]; exact placed
    have own : (v.reqs slot).connId = (w.reqs slot).connId := by rw [here]
    have closing : ∀ {u}, closeAndForget v (v.conns (w.reqs slot).connId).sock = .ok u →
        nextReply w slot m cmd = none → ((u.conns (w.reqs slot).connId).sock = none ∧
          (w.reqs x).connId = (w.reqs slot).connId ∧
          (nextReply w slot m cmd = none ∨ AnswersErr w slot u (-1))) ∨ Intact w u x := by
      intro u closed silent
      by_cases same : (w.reqs x).connId = (w.reqs slot).connId
      · exact Or.inl ⟨(closeAndForget_cases sound.laid closed).2.1, same, Or.inl silent⟩
      · exact Or.inr (kept.trans h.laid
          (intact_closeAndForget sound kept.on.1 (by rw [kept.on.2]; exact same) closed))
    split at failed
    · rename_i missing
      exact closing failed (by simp [nextReply, missing])
    · rename_i itr found
      split at failed
      · rename_i ends
        exact closing failed (nextReply_none found ends)
      · rename_i onward
        rw [not_or] at onward
        obtain ⟨stops, later⟩ := seekReply_found found
        have reply : cmdAt (reqMem w slot) itr = .reply := stops.resolve_left onward.2
        have beyond := later cmd rfl
        obtain ⟨⟨u, ret⟩, done, paired⟩ := map_eq_ok.mp failed
        cases paired
        change processMessages (resumed v slot m itr) slot = _ at done
        rw [processMessages_reply placed' (by omega) (mem ▸ reply)] at done
        have same := place_eq (@resumed_place v slot m itr)
        have resumes := intact_resumed sound placed' (by rw [here]; exact current) beyond kept.on.1 other
        have sound' : Sound (resumed v slot m itr) :=
          sound_resumed sound placed' (by rw [here]; exact current) beyond
        have answered := intact_processReply sound' (same.2.1.trans placed') resumes.on.1 other done
        rw [same.1, own, resumes.on.2, kept.on.2] at answered
        rcases answered with ⟨closed, together, refused⟩ | after
        · subst refused
          have next := nextReply_some found (by simpa using onward.1) reply
          exact Or.inl ⟨closed, together, Or.inr (answersErr placed current next removed done)⟩
        · exact Or.inr (kept.trans h.laid (resumes.trans sound.laid after))

end Intact

/-! ## What is to hold before the walk -/

/-- The request has no top-level REPLY left. -/
def Silent (w : State) (f : Nat) : Prop :=
  ∀ m cmd, (w.reqs f).messagePtr = some m → (w.reqs f).currCmd = some cmd → nextReply w f m cmd = none

/-- The requests of connection `i` that fail with `target` fail in one step: there is one
of them, or the first one that the walk finds takes the connection along. -/
def Settles (target : Addr) (w : State) (i : Nat) : Prop :=
  ∀ s, OnConn w i s → waitsOn target w s = true → retriesOf w s = 0 →
    ∃ f, Newest target w i f ∧ retriesOf w f = 0 ∧ (s = f ∨ Silent w f)

/-- The request that fails on connection `i` takes it along: it has no REPLY left, or the response
to it is not taken. -/
def TakesAlong (target : Addr) (w : State) (i : Nat) : Prop :=
  ∃ f, Newest target w i f ∧ retriesOf w f = 0 ∧ (Silent w f ∨ ∃ u u', Spared i w u ∧ AnswersErr u f u' (-1))

/-- The response of the REPLY at `itr` fits into the send buffer of its connection. -/
def Fits (w : State) (slot itr : Nat) : Prop :=
  let p := connPrepareSendMessage (w.conns (w.reqs slot).connId)
  (replyOpts (reqMem w slot) itr).respSize ≤ reqSizeOf p.1.sendBuf p.2

/-- Nothing stops the walk over connection `i`: every request that it looks at stands at a command, and
the response to the one that fails fits. -/
structure Passable (target : Addr) (w : State) (i : Nat) : Prop where
  standing : ∀ s, Visited target w i s → (w.reqs s).currCmd ≠ none
  room : ∀ f m cmd itr, Newest target w i f → retriesOf w f = 0 → (w.reqs f).messagePtr = some m →
    (w.reqs f).currCmd = some cmd → nextReply w f m cmd = some itr → Fits w f itr

/-- The request that fails on connection `i` does not carry the id of `x` as the id of its
message, or `x` has no timeout to lose. -/
def Unnamed (target : Addr) (w : State) (i x : Nat) : Prop :=
  ∀ f m, Newest target w i f → retriesOf w f = 0 → (w.reqs f).messagePtr = some m →
    reqGetById w (reqIdOf (reqMem w f) m) = some x → (w.reqs x).timeoutNode = none

section Before

variable {target : Addr} {i s x : Nat} {w w' : State}

theorem Spared.symm (h : Spared i w w') : Spared i w' w :=
  ⟨h.conn.symm, fun s => (h.on s).symm, fun s on => (h.reqs s ((h.on s).mp on)).symm⟩

theorem Spared.stands (h : Spared i w w') (on : OnConn w i s) :
    reqMem w' s = reqMem w s ∧ (w'.reqs s).messagePtr = (w.reqs s).messagePtr ∧
      (w'.reqs s).currCmd = (w.reqs s).currCmd := by
  obtain ⟨place, cmd, -⟩ := timeless_eq (h.reqs s on)
  obtain ⟨home, message, -⟩ := place_eq place
  refine ⟨?_, message, cmd⟩
  rw [reqMem, reqMem, home, on.2, h.conn]

theorem Spared.waits (h : Spared i w w') (on : OnConn w i s) :
    waitsOn target w' s = waitsOn target w s ∧ retriesOf w' s = retriesOf w s := by
  obtain ⟨mem, -, cmd⟩ := h.stands on
  exact ⟨by rw [waitsOn, waitsOn, mem, cmd], by rw [retriesOf, retriesOf, mem, cmd]⟩

theorem Spared.newest (h : Spared i w w') (newest : Newest target w i s) : Newest target w' i s := by
  obtain ⟨a, t, queue, waits, passed⟩ := newest
  refine ⟨a, t, h.queue queue, ?_, fun x member => ?_⟩
  · rw [(h.waits (queue.live (by simp))).1]
    exact waits
  · rw [(h.waits (queue.live (by simp [member]))).1]
    exact passed x member

theorem Spared.silent {f : Nat} (h : Spared i w w') (on : OnConn w i f) (silent : Silent w f) : Silent w' f := by
  obtain ⟨mem, message, cmds⟩ := h.stands on
  intro m cmd placed current
  rw [nextReply, mem]
  exact silent m cmd (message ▸ placed) (cmds ▸ current)

theorem Spared.settles (h : Spared i w w') (settles : Settles target w i) : Settles target w' i := by
  intro s on waits final
  have before := (h.on s).mp on
  obtain ⟨waits', retries'⟩ := @Spared.waits target _ _ _ _ h before
  obtain ⟨f, newest, last, one⟩ := settles s before (waits' ▸ waits) (retries' ▸ final)
  exact ⟨f, h.newest newest, ((@Spared.waits target _ _ _ _ h newest.on).2).trans last,
    one.imp_right (h.silent newest.on)⟩

theorem Spared.takesAlong (h : Spared i w w') (along : TakesAlong target w' i) : TakesAlong target w i := by
  obtain ⟨f, newest, last, why⟩ := along
  have before := h.symm.newest newest
  refine ⟨f, before, ((@Spared.waits target _ _ _ _ h before.on).2).symm.trans last, ?_⟩
  rcases why with silent | ⟨u, u', spared, answers⟩
  · exact Or.inl (h.symm.silent newest.on silent)
  · exact Or.inr ⟨u, u', h.trans spared, answers⟩

theorem Spared.visited (h : Spared i w w') (visited : Visited target w i s) : Visited target w' i s := by
  obtain ⟨a, t, queue, passed⟩ := visited
  refine ⟨a, t, h.queue queue, fun x member => ?_⟩
  rw [(h.waits (queue.live (by simp [member]))).1]
  exact passed x member

theorem Visited.on (h : Visited target w i s) : OnConn w i s := by
  obtain ⟨a, t, queue, -⟩ := h
  exact queue.live (by simp)

theorem Spared.passable (h : Spared i w w') (passable : Passable target w i) : Passable target w' i := by
  refine ⟨fun s visited => ?_, fun f m cmd itr newest final placed current next => ?_⟩
  · have before := h.symm.visited visited
    rw [(h.stands before.on).2.2]
    exact passable.standing s before
  · have before := h.symm.newest newest
    obtain ⟨mem, message, cmds⟩ := h.stands before.on
    have home := (place_eq (timeless_eq (h.reqs f before.on)).1).1
    have fits := passable.room f m cmd itr before ((@Spared.waits target _ _ _ _ h before.on).2 ▸ final)
      (message ▸ placed) (cmds ▸ current) (by rw [← next, nextReply, nextReply, mem])
    rw [Fits, before.on.2] at fits
    rw [Fits, mem, home, before.on.2, h.conn]
    exact fits

theorem Spared.unnamed (h : Spared i w w') (kept : Intact w w' x) (unnamed : Unnamed target w i x) :
    Unnamed target w' i x := by
  intro f m newest final placed named
  have before := h.symm.newest newest
  obtain ⟨mem, message, -⟩ := h.stands before.on
  rw [kept.timeout]
  refine unnamed f m before ((@Spared.waits target _ _ _ _ h before.on).2 ▸ final) (message ▸ placed) ?_
  rw [mem] at named
  simp only [reqGetById] at named ⊢
  split at named
  · cases named
  · rename_i found
    cases named
    rw [not_not, kept.reqId] at found
    rw [if_neg (not_not.mpr found)]

theorem Sound.behindOn (h : Sound w) (i : Nat) : BehindOn w i := by
  intro s on m cmd placed current
  have behind := (h.standing s m placed).2 cmd current
  simp only [messageFirstCmd, messageHeader] at behind
  omega

/-- The walk over one connection leaves whoever does not wait on the address alone. -/
theorem intact_walk (h : Sound w) (live : (w.reqs x).messagePtr ≠ none)
    (idle : (w.reqs x).connId = i → waitsOn target w x = false) (unnamed : Unnamed target w i x)
    (opened : (w.conns i).sock ≠ none)
    (walked : failWaiting target i (maxReqs + 1) w (w.conns i).reqList = .ok w') :
    ((w'.conns i).sock = none ∧ (w.reqs x).connId = i ∧ TakesAlong target w i) ∨ Intact w w' x := by
  obtain ⟨l, queue⟩ := h.laid.queue i opened
  rw [queue.head] at walked
  have enough : l.length < maxReqs + 1 := Nat.lt_succ_of_le queue.length_le
  rcases failWaiting_cases (a := []) queue (fun x no => by cases no) enough walked with
    ⟨rfl, -⟩ | ⟨slot, newest, ⟨-, rfl⟩ | ⟨final, m, cmd, placed, current, failed⟩⟩
  · exact Or.inr (intact_same h live rfl rfl)
  · exact Or.inr (intact_same h live rfl rfl)
  · have own : (w.reqs slot).connId = i := newest.on.2
    have other : x ≠ slot := by
      rintro rfl
      obtain ⟨a, t, -, waits, -⟩ := newest
      rw [idle own] at waits
      cases waits
    subst own
    refine (intact_failRequest h placed current live other (unnamed slot m newest final placed) failed).imp_left ?_
    rintro ⟨closed, together, why⟩
    refine ⟨closed, together, slot, newest, final, why.imp (fun silent m' cmd' placed' current' => ?_) fun answers =>
      ⟨w, w', .refl _ w, answers⟩⟩
    rw [placed] at placed'
    rw [current] at current'
    cases placed'
    cases current'
    exact silent

/-- Walks over other connections leave a request alone. -/
theorem intact_failPending {fuel k : Nat} (h : Sound w) (live : (w.reqs x).messagePtr ≠ none)
    (outside : (w.reqs x).connId < k ∨ k + fuel ≤ (w.reqs x).connId)
    (unnamed : ∀ i, k ≤ i → i < k + fuel → Unnamed target w i x)
    (walked : failPending target fuel k w = .ok w') : Intact w w' x := by
  induction fuel generalizing k w with
  | zero =>
    cases walked
    exact intact_same h live rfl rfl
  | succ fuel ih =>
    simp only [failPending] at walked
    split at walked
    · exact ih h live (by omega) (fun i low high => unnamed i (by omega) (by omega)) walked
    · rename_i opened
      split at walked
      · cases walked
      · rename_i v first
        obtain ⟨spared, -⟩ := walk_cases h.laid opened (Sound.behindOn h k) first
        have kept : Intact w v x :=
          (intact_walk h live (fun e => by omega) (unnamed k (by omega) (by omega)) opened first).resolve_left
            fun both => by omega
        have sound := course_sound.toPassage.failWaiting course_sound.fails first h
        refine kept.trans h.laid (ih sound kept.on.1 (by rw [kept.on.2]; omega) (fun i low high => ?_) walked)
        exact (spared i (by omega)).unnamed kept (unnamed i (by omega) (by omega))

/-- The error path opens no connection. -/
theorem failPending_closed {fuel k : Nat} (h : Sound w) (closed : (w.conns i).sock = none)
    (walked : failPending target fuel k w = .ok w') : (w'.conns i).sock = none := by
  induction fuel generalizing k w with
  | zero =>
    cases walked
    exact closed
  | succ fuel ih =>
    simp only [failPending] at walked
    split at walked
    · exact ih h closed walked
    · rename_i opened
      split at walked
      · cases walked
      · rename_i v first
        obtain ⟨spared, -⟩ := walk_cases h.laid opened (Sound.behindOn h k) first
        have other : i ≠ k := by
          rintro rfl
          exact opened closed
        have sound := course_sound.toPassage.failWaiting course_sound.fails first h
        exact ih sound (by rw [(spared i other).conn]; exact closed) walked

end Before

/-! ## Nothing stops the error path -/

/-- The call returns, unless it stays in the loop of `conn_send_v2`. -/
def Returns {α : Type} (x : Except Abort α) : Prop := ∀ e, x = .error e → e = .stuck

section Returns

variable {α β : Type} {x : Except Abort α} {e : Abort}

theorem returns_ok (a : α) : Returns (.ok a : Except Abort α) := by
  intro e h
  cases h

theorem Returns.passed (h : Returns x) (failed : x = .error e) : Returns (.error e : Except Abort β) := by
  intro e' same
  cases same
  exact h e failed

theorem Returns.map (h : Returns x) (f : α → β) : Returns (x.map f) := by
  cases x with
  | error e => exact h.passed rfl
  | ok a => exact returns_ok _

end Returns

section Calls

variable {target : Addr} {w w' : State} {slot m cmd c i : Nat}

theorem returns_closeAndForget {sock : Option Nat} (opened : sock ≠ none) : Returns (closeAndForget w sock) := by
  cases sock with
  | none => exact absurd rfl opened
  | some s =>
    simp only [closeAndForget, connDelSock, connFindSock]
    split
    · rename_i failed
      split at failed
      · rename_i found
        cases found
      · cases failed
      · cases failed
    · exact returns_ok _

theorem returns_pollMod (opened : (w.conns c).sock ≠ none) (i o s : Bool) : Returns (pollMod w c i o s) := by
  simp only [pollMod]
  rw [if_neg opened]
  exact returns_ok _

theorem returns_reply (fits : Fits w slot cmd) : Returns (reply w slot m cmd) := by
  simp only [reply]
  rw [if_neg (Nat.not_lt.mpr fits)]
  refine Returns.map ?_ _
  unfold transmitReply
  split
  · simp only [startSendfileOn]
    split
    · intro e h
      cases h
      rfl
    · exact returns_ok _
  · exact returns_ok _

theorem returns_processReply (laid : Laid w) (placed : (w.reqs slot).messagePtr = some m) (fits : Fits w slot cmd) :
    Returns (processReply w slot m cmd) := by
  simp only [processReply]
  split
  · rename_i failed
    exact (returns_reply fits).passed failed
  · rename_i v result replied
    have opened : (v.conns (w.reqs slot).connId).sock ≠ none :=
      (reply_staysOpen replied).sock laid (laid.opened slot (by rw [placed]; exact Option.some_ne_none m))
    split
    · split
      · exact (returns_pollMod opened _ _ _).map _
      · exact (returns_closeAndForget opened).map _
    · split
      · exact (returns_pollMod opened _ _ _).map _
      · exact returns_ok _

/-- The status of a message is no part of its commands, nor of the send buffer. -/
theorem fits_resumed {itr : Nat} (behind : m + 12 ≤ itr) (fits : Fits w slot itr) :
    Fits (resumed w slot m itr) slot itr := by
  have mem : reqMem (resumed w slot m itr) slot = setStatus (reqMem w slot) m statusErr := by
    rw [resumed, reqMem_setMsgStatus]
    simp [reqMem, setCurrCmd, State.setReq]
  have size : (replyOpts (reqMem (resumed w slot m itr) slot) itr).respSize =
      (replyOpts (reqMem w slot) itr).respSize := by
    rw [mem]
    exact u32_store_disjoint _ _ _ _ (Or.inr (by simp only [length_u32Bytes]; omega))
  have conn : (resumed w slot m itr).conns (w.reqs slot).connId =
      { w.conns (w.reqs slot).connId with
        recvBuf := setStatus (w.conns (w.reqs slot).connId).recvBuf m statusErr } := by
    simp [resumed, setMsgStatus, setCurrCmd, State.setConn, State.setReq]
  rw [Fits, size, (place_eq (resumed_place itr)).1, conn]
  exact fits

theorem returns_failRequest (h : Sound w) (slotted : Slotted w) (placed : (w.reqs slot).messagePtr = some m)
    (current : (w.reqs slot).currCmd = some cmd)
    (fits : ∀ itr, nextReply w slot m cmd = some itr → Fits w slot itr) :
    Returns (failRequest w (w.reqs slot).connId slot m cmd) := by
  have behind := (h.standing slot m placed).2 cmd current
  simp only [messageFirstCmd, messageHeader] at behind
  obtain ⟨v, left, removed⟩ := removeTimeout_total slotted (reqIdOf (reqMem w slot) m)
  have timed := removeTimeout_retimed removed
  have laid := (still_removeTimeout removed).keeps.laid h.laid
  obtain ⟨node, here⟩ := timed.reqs slot
  have mem : reqMem v slot = reqMem w slot := by rw [reqMem, timed.conns, here]; rfl
  have placed' : (v.reqs slot).messagePtr = some m := by rw [here]; exact placed
  have opened : (v.conns (w.reqs slot).connId).sock ≠ none := by
    rw [timed.conns]
    exact h.laid.opened slot (by rw [placed]; exact Option.some_ne_none m)
  simp only [failRequest, removed]
  split
  · exact returns_closeAndForget opened
  · rename_i itr found
    split
    · exact returns_closeAndForget opened
    · rename_i onward
      rw [not_or] at onward
      obtain ⟨stops, later⟩ := seekReply_found found
      have reply : cmdAt (reqMem w slot) itr = .reply := stops.resolve_left onward.2
      have beyond := later cmd rfl
      have room : Fits v slot itr := by
        have before := fits itr (nextReply_some found (by simpa using onward.1) reply)
        rw [Fits] at before ⊢
        rw [mem, timed.conns, here]
        exact before
      change Returns ((processMessages (resumed v slot m itr) slot).map (·.1))
      rw [processMessages_reply placed' (by omega) (mem ▸ reply)]
      exact (returns_processReply (resumed_laid laid placed' itr)
        ((place_eq (resumed_place itr)).2.1.trans placed') (fits_resumed (by omega) room)).map _

/-- The walk over a connection that is passable comes to its end. -/
theorem returns_failWaiting {a t : List Nat} {fuel : Nat} (h : Sound w) (slotted : Slotted w)
    (queue : Queue w i (a ++ t)) (passed : ∀ x ∈ a, waitsOn target w x = false)
    (passable : Passable target w i) : Returns (failWaiting target i fuel w t.head?) := by
  induction t generalizing a fuel with
  | nil =>
    cases fuel with
    | zero => exact returns_ok _
    | succ fuel => exact returns_ok _
  | cons slot t ih =>
    cases fuel with
    | zero => exact returns_ok _
    | succ fuel =>
      have visited : Visited target w i slot := ⟨a, t, queue, passed⟩
      obtain ⟨cmd, current⟩ := Option.ne_none_iff_exists'.mp (passable.standing slot visited)
      obtain ⟨m, placed⟩ := Option.ne_none_iff_exists'.mp visited.on.1
      rw [List.head?_cons]
      simp only [failWaiting, current, placed]
      split
      · rename_i found
        have waits : waitsOn target w slot = true := by simp [waitsOn, current, found]
        split
        · exact returns_ok _
        · rename_i final
          have spent : retriesOf w slot = 0 := by
            simp only [retriesOf, current]
            omega
          have newest : Newest target w i slot := ⟨a, t, queue, waits, passed⟩
          have own := newest.on.2
          subst own
          exact returns_failRequest h slotted placed current fun itr next =>
            passable.room slot m cmd itr newest spent placed current next
      · rename_i other
        have waits : waitsOn target w slot = false := by
          simp only [waitsOn, current, decide_eq_false_iff_not]
          exact other
        split
        · exact returns_ok _
        · rw [queue.linked.next_eq]
          refine @ih (a ++ [slot]) fuel (by simpa using queue) fun x member => ?_
          rcases List.mem_append.mp member with earlier | here
          · exact passed x earlier
          · rw [List.mem_singleton.mp here]
            exact waits

theorem returns_failPending {fuel k : Nat} (h : Sound w) (slotted : Slotted w)
    (passable : ∀ j, k ≤ j → (w.conns j).sock ≠ none → Passable target w j) :
    Returns (failPending target fuel k w) := by
  induction fuel generalizing k w with
  | zero => exact returns_ok _
  | succ fuel ih =>
    simp only [failPending]
    split
    · exact ih h slotted fun j low => passable j (by omega)
    · rename_i opened
      obtain ⟨l, queue⟩ := h.laid.queue k opened
      split
      · rename_i failed
        rw [queue.head] at failed
        have returns : Returns (failWaiting target k (maxReqs + 1) w l.head?) :=
          returns_failWaiting (a := []) h slotted queue (fun x no => by cases no) (passable k (Nat.le_refl k) opened)
        exact returns.passed failed
      · rename_i v walked
        have alone : failPending target 1 k w = .ok v := by
          simp only [failPending, if_neg opened, walked]
        obtain ⟨spared, -⟩ := walk_cases h.laid opened (Sound.behindOn h k) walked
        refine ih (course_sound.toPassage.failWaiting course_sound.fails walked h)
          (TimeoutTable.slotted_leads (leads_failPending alone) slotted) fun j low still => ?_
        have same := spared j (by omega)
        exact same.passable (passable j (by omega) (same.conn ▸ still))

theorem leads_readyAttempt {w w' : State} {c : Nat} {type : EventType} {r : Readiness} {ok : Bool}
    (opened : Opened w) (h : readyAttempt w c type r = .ok (w', ok)) : Leads w w' := by
  simp only [readyAttempt] at h
  split at h
  · obtain ⟨v, expired, paired⟩ := map_eq_ok.mp h
    cases paired
    exact leads_handleTimeout expired
  · split at h
    · cases h
      exact .refl _
    · rename_i usable
      have used : (w.conns c).busy = true := opened c fun closed => usable (Or.inl closed)
      split at h
      · cases h
      · rename_i e
        cases h
        exact leads_establishPhase e
      · rename_i w₁ e
        have established := leads_establishPhase e
        have received := leads_recvPhase w₁ c r
        split at h
        · rename_i e'
          rw [e'] at received
          cases h
          exact established.trans received
        · rename_i e'
          rw [e'] at received
          have ready := established.trans received
          split at h
          · cases h
          · rename_i e''
            cases h
            exact ready.trans (leads_flushPhase e'')
          · rename_i e''
            have flushed := ready.trans (leads_flushPhase e'')
            exact flushed.trans (leads_obtainFrom (flushed.busy used) h)

theorem leads_attempt {w w' : State} {c : Nat} {type : EventType} {r : Readiness} {ok : Bool}
    (opened : Opened w) (h : attempt w c type r = .ok (w', ok)) : Leads w w' := by
  simp only [attempt] at h
  split at h
  · split at h
    · cases h
      exact .refl _
    · cases h
      exact .refl _
    · have shaken : Leads w (w.setConn c { w.conns c with status := .ready }) :=
        leads_setConn w c (.same rfl)
      exact shaken.trans (leads_readyAttempt (shaken.opened opened) h)
  · exact leads_readyAttempt opened h

end Calls

/-! ## The error path -/

/-- On the way from one state to the other the request ends with the REPLY of status ERR. -/
def Answered (i : Nat) (w w' : State) (s : Nat) : Prop :=
  ∃ u u' ret, Spared i w u ∧ AnswersErr u s u' ret ∧ Spared i u' w'

/-- Whoever waits on `target` without a retry is answered with ERR or loses its
connection; whoever does not is left alone, unless it is on the failed connection `c`
or on one that a request to be failed takes along. -/
structure Settled (c : Nat) (target : Addr) (w w' : State) : Prop where
  fails : ∀ i s, OnConn w i s → waitsOn target w s = true → retriesOf w s = 0 →
    (w'.conns i).sock = none ∨ Answered i w w' s
  others : ∀ i s, OnConn w i s → waitsOn target w s = false →
    Intact w w' s ∨ (w'.conns i).sock = none ∧ (i = c ∨ TakesAlong target w i)

section ErrorPath

variable {target : Addr} {i c s : Nat} {w w' : State}

/-- The walk over all connections, cut at the one that is looked at. -/
theorem failPending_walk (h : Sound w) (opened : (w.conns i).sock ≠ none)
    (walked : failPending target maxConns 0 w = .ok w') :
    ∃ u v n, Sound u ∧ Spared i w u ∧ failPending target i 0 w = .ok u ∧ (u.conns i).sock ≠ none ∧
      failWaiting target i (maxReqs + 1) u (u.conns i).reqList = .ok v ∧ failPending target n (i + 1) v = .ok w' := by
  obtain ⟨u, before, rest⟩ := failPending_split (Nat.zero_le i) (by simpa using h.laid.range i opened) walked
  rw [Nat.sub_zero] at before
  have sound := course_sound.toPassage.failPending course_sound.fails before h
  have spared := failPending_spares h.laid (fun j _ _ _ => Sound.behindOn h j) before i (Or.inr (by omega))
  obtain ⟨n, count⟩ : ∃ n, 0 + maxConns - i = n + 1 :=
    ⟨maxConns - i - 1, by have := h.laid.range i opened; omega⟩
  rw [count] at rest
  have opened' : (u.conns i).sock ≠ none := by
    rw [spared.conn]
    exact opened
  simp only [failPending, if_neg opened'] at rest
  split at rest
  · cases rest
  · rename_i v here
    exact ⟨u, v, n, sound, spared, before, opened', here, rest⟩

theorem failPending_settled (h : Sound w) (settles : ∀ i, Settles target w i)
    (unnamed : ∀ i x, (w.reqs x).messagePtr ≠ none → waitsOn target w x = false → Unnamed target w i x)
    (walked : failPending target maxConns 0 w = .ok w') : Settled c target w w' := by
  refine ⟨fun i s on waits final => ?_, fun i s on idle => ?_⟩
  · have opened : (w.conns i).sock ≠ none := on.2 ▸ h.laid.opened s on.1
    obtain ⟨u, v, n, sound, spared, -, opened', here, rest⟩ := failPending_walk h opened walked
    have sound' := course_sound.toPassage.failWaiting course_sound.fails here sound
    obtain ⟨f, newest, last, one⟩ := spared.settles (settles i) s ((spared.on s).mpr on)
      ((@Spared.waits target _ _ _ _ spared on).1.trans waits) ((@Spared.waits target _ _ _ _ spared on).2.trans final)
    obtain ⟨-, ⟨-, none⟩ | ⟨slot, newest', -, done⟩⟩ := walk_cases sound.laid opened' (Sound.behindOn sound i) here
    · have retried := none f newest
      omega
    · cases newest'.unique newest
      rcases done with closed | answered
      · exact Or.inl (failPending_closed sound' closed rest)
      · obtain ⟨ret, answered⟩ := answered
        rcases one with rfl | silent
        · exact Or.inr ⟨u, v, ret, spared, answered, failPending_spares sound'.laid
            (fun j _ _ _ => Sound.behindOn sound' j) rest i (Or.inl (by omega))⟩
        · obtain ⟨m, cmd, itr, _, _, placed, current, found, -⟩ := answered.sent
          rw [silent m cmd placed current] at found
          cases found
  · have opened : (w.conns i).sock ≠ none := on.2 ▸ h.laid.opened s on.1
    obtain ⟨u, v, n, sound, spared, before, opened', here, rest⟩ := failPending_walk h opened walked
    have sound' := course_sound.toPassage.failWaiting course_sound.fails here sound
    have kept : Intact w u s :=
      intact_failPending h on.1 (Or.inr (by rw [on.2]; omega)) (fun j _ _ => unnamed j s on.1 idle) before
    have home : (u.reqs s).connId = i := kept.on.2.trans on.2
    have still : waitsOn target u s = false := (@Spared.waits target _ _ _ _ spared on).1.trans idle
    rcases intact_walk sound kept.on.1 (fun _ => still) (spared.unnamed kept (unnamed i s on.1 idle)) opened' here
      with ⟨closed, -, along⟩ | kept'
    · exact Or.inr ⟨failPending_closed sound' closed rest, Or.inr (spared.takesAlong along)⟩
    · have through := kept.trans h.laid kept'
      refine Or.inl (through.trans h.laid (intact_failPending sound' through.on.1 (Or.inl ?_) (fun j low _ => ?_) rest))
      · rw [kept'.on.2, home]
        omega
      · have earlier := failPending_spares h.laid (fun d _ _ _ => Sound.behindOn h d) before j (Or.inr (by omega))
        have there := (walk_cases sound.laid opened' (Sound.behindOn sound i) here).1 j (by omega)
        exact (earlier.trans there).unnamed through (unnamed j s on.1 idle)

theorem Settled.from {u : State} (h : Settled c target u w') (laid : Laid w)
    (spared : ∀ i, i ≠ c → Spared i w u) (closed : (w'.conns c).sock = none)
    (kept : ∀ x, (w.reqs x).messagePtr ≠ none → (w.reqs x).connId ≠ c → Intact w u x) : Settled c target w w' := by
  refine ⟨fun i s on waits final => ?_, fun i s on idle => ?_⟩
  · by_cases own : i = c
    · subst own
      exact Or.inl closed
    · have same := spared i own
      refine (h.fails i s ((same.on s).mpr on) ((@Spared.waits target _ _ _ _ same on).1.trans waits)
        ((@Spared.waits target _ _ _ _ same on).2.trans final)).imp_right ?_
      rintro ⟨v, v', ret, before, answers, after⟩
      exact ⟨v, v', ret, same.trans before, answers, after⟩
  · by_cases own : i = c
    · subst own
      exact Or.inr ⟨closed, Or.inl rfl⟩
    · have same := spared i own
      rcases h.others i s ((same.on s).mpr on) ((@Spared.waits target _ _ _ _ same on).1.trans idle) with after | ⟨off, why⟩
      · exact Or.inl ((kept s on.1 (on.2 ▸ own)).trans laid after)
      · exact Or.inr ⟨off, why.imp_right same.takesAlong⟩

/-- What is to hold when the error path is taken for connection `c`. -/
structure Manageable (c : Nat) (w : State) : Prop where
  opened : (w.conns c).sock ≠ none
  passable : ∀ i, i ≠ c → (w.conns i).sock ≠ none → Passable (w.conns c).target w i
  settles : ∀ i, i ≠ c → Settles (w.conns c).target w i
  unnamed : ∀ i x, i ≠ c → (w.reqs x).messagePtr ≠ none → (w.reqs x).connId ≠ c →
    waitsOn (w.conns c).target w x = false → Unnamed (w.conns c).target w i x

theorem closeFailed_settled (h : Sound w) (manageable : Manageable c w) (done : closeFailed w c = .ok w') :
    Settled c (w.conns c).target w w' := by
  have counted : ∀ u : State, u.conns = w.conns → u.reqs = w.reqs → Sound u →
      ∀ v, closeAndForget u (w.conns c).sock = .ok v → failPending (w.conns c).target maxConns 0 v = .ok w' →
      Settled c (w.conns c).target w w' := by
    intro u conns reqs sound v closed walked
    rw [← conns] at closed
    obtain ⟨-, shut, -⟩ := closeAndForget_cases sound.laid closed
    have sound' := course_sound.closeAndForget closed sound
    have spared : ∀ i, i ≠ c → Spared i w v := fun i other =>
      (spared_aside conns reqs).trans (spared_closeAndForget sound.laid other closed)
    have kept : ∀ x, (w.reqs x).messagePtr ≠ none → (w.reqs x).connId ≠ c → Intact w v x := by
      intro x live other
      have aside : Intact w u x := (intact_same h live rfl rfl).tables conns reqs
      exact aside.trans h.laid (intact_closeAndForget sound aside.on.1 (by rw [aside.on.2]; exact other) closed)
    have off : ∀ i s, OnConn v i s → i ≠ c := by
      rintro i s on rfl
      exact sound'.laid.opened s on.1 (by rw [on.2]; exact shut)
    have elsewhere : ∀ x, (v.reqs x).messagePtr ≠ none →
        (w.reqs x).messagePtr ≠ none ∧ (w.reqs x).connId ≠ c ∧ waitsOn (w.conns c).target v x =
          waitsOn (w.conns c).target w x := by
      intro x live
      have other := off _ x ⟨live, rfl⟩
      have before := ((spared _ other).on x).mp ⟨live, rfl⟩
      exact ⟨before.1, by rw [before.2]; exact other, (@Spared.waits (w.conns c).target _ _ _ _ (spared _ other) before).1⟩
    refine Settled.from (failPending_settled sound' (fun i s on => ?_) (fun i x live idle f m newest => ?_) walked)
      h.laid spared (failPending_closed sound' shut walked) kept
    · have other := off i s on
      exact (spared i other).settles (manageable.settles i other) s on
    · have other := off i f newest.on
      obtain ⟨before, home, same⟩ := elsewhere x live
      exact (spared i other).unnamed (kept x before home)
        (manageable.unnamed i x other before home (same ▸ idle)) f m newest
  simp only [Node.closeFailed] at done
  split at done
  · cases done
  · rename_i v closed
    refine counted _ ?_ ?_ ?_ v closed done
    · split <;> rfl
    · split <;> rfl
    · split
      · exact course_sound.still (still_aside (w := w) rfl rfl rfl (Nat.le_refl _)) h
      · exact h

/-- The error path comes to its end. -/
theorem returns_closeFailed (h : Sound w) (slotted : Slotted w) (manageable : Manageable c w) :
    Returns (closeFailed w c) := by
  have counted : ∀ u : State, u.conns = w.conns → u.reqs = w.reqs → Leads w u → Sound u →
      ∀ v, closeAndForget u (w.conns c).sock = .ok v → Returns (failPending (w.conns c).target maxConns 0 v) := by
    intro u conns reqs leads sound v closed
    rw [← conns] at closed
    obtain ⟨-, shut, -⟩ := closeAndForget_cases sound.laid closed
    refine returns_failPending (course_sound.closeAndForget closed sound)
      (TimeoutTable.slotted_leads (leads.trans (leads_closeAndForget closed)) slotted) fun j _ still => ?_
    have other : j ≠ c := by
      rintro rfl
      exact still shut
    have same := (spared_aside conns reqs).trans (spared_closeAndForget sound.laid other closed)
    exact same.passable (manageable.passable j other (same.conn ▸ still))
  simp only [Node.closeFailed]
  split
  · rename_i failed
    exact (returns_closeAndForget manageable.opened).passed failed
  · rename_i v closed
    refine counted _ ?_ ?_ ?_ ?_ v closed
    · split <;> rfl
    · split <;> rfl
    · split
      · exact leads_aside ⟨rfl, rfl, rfl, rfl, rfl, rfl, rfl, rfl⟩
      · exact .refl w
    · split
      · exact course_sound.still (still_aside (w := w) rfl rfl rfl (Nat.le_refl _)) h
      · exact h

end ErrorPath

theorem regularRun_append {w : State} {events rest : List (Kernel × Event)} (h : RegularRun w (events ++ rest)) :
    RegularRun w events ∧ ∀ w', run w events = .ok w' → RegularRun w' rest := by
  induction events generalizing w with
  | nil =>
    refine ⟨trivial, fun w' done => ?_⟩
    cases done
    exact h
  | cons head events ih =>
    refine ⟨⟨h.1, fun v taken => (ih (h.2 v taken)).1⟩, fun w' done => ?_⟩
    obtain ⟨v, taken, later⟩ := run_cons_ok done
    exact (ih (h.2 v taken)).2 w' later

/-- In every run, the error path for the connection to an address comes to its end, unless it stays in
the loop of `conn_send_v2`; it fails every request that waits on that address and leaves the others
alone, as long as the walk meets no request without a command, no two of those requests are on one
connection, and the message of none carries the id of another request. -/
theorem dead_target (storageDevices : Nat) (storageFd : Nat → Nat) (files : Nat → Mem) (enableDefrag : Bool)
    {events : List (Kernel × Event)} {w v : State} {kernel : Kernel} {c : Nat} {type : EventType} {r : Readiness}
    (regular : RegularRun (State.init storageDevices storageFd files enableDefrag)
      (events ++ [(kernel, .ready c type r)]))
    (before : run (State.init storageDevices storageFd files enableDefrag) events = .ok w)
    (failed : attempt { w with kernel := kernel } c type r = .ok (v, false)) (manageable : Manageable c v) :
    (∃ w', step w kernel (.ready c type r) = .ok w' ∧ Settled c (v.conns c).target v w') ∨
      step w kernel (.ready c type r) = .error .stuck := by
  obtain ⟨earlier, last⟩ := regularRun_append regular
  have start := opened_init storageDevices storageFd files enableDefrag
  have sound := (sound_init storageDevices storageFd files enableDefrag).run earlier before
  have asked : Still w { w with kernel := kernel } := still_aside rfl rfl rfl (Nat.le_refl _)
  have reached := (course_sound.still asked sound).attempt (last w before).1 failed
  have leads := leads_run start before
  have taken : Leads w { w with kernel := kernel } := leads_aside ⟨rfl, rfl, rfl, rfl, rfl, rfl, rfl, rfl⟩
  have slotted : Slotted v := TimeoutTable.slotted_leads
    ((leads.trans taken).trans (leads_attempt ((leads.trans taken).opened start) failed))
    (TimeoutTable.slotted_init storageDevices storageFd files enableDefrag)
  have same : step w kernel (.ready c type r) = closeFailed v c := by
    change execRequest _ c type r = _
    rw [execRequest_eq, failed]
    rfl
  rw [same]
  cases done : closeFailed v c with
  | ok w' => exact Or.inl ⟨w', rfl, closeFailed_settled reached manageable done⟩
  | error e => exact Or.inr (congrArg Except.error (returns_closeFailed reached slotted manageable e done))

def deadTarget : Addr := [10, 0, 0, 1, 0, 1]

/-- A request that is forwarded to the target, without a retry. -/
def forwarded (reqId : Nat) : List UInt8 :=
  Wire.message reqId 0 [.forward false 40 deadTarget 0 0 1 0 0 .tcp, .reply 16, .reply 16, .eom]

/-- The target is connected when the bytes of a client arrive. -/
def targetConnected (bytes : List UInt8) : List (Kernel × Event) :=
  [(.silent, .accept [10, 0, 0, 9, 0, 9] .tcp), (.silent, .accept deadTarget .tcp),
   (.silent, .ready 0 .socket (received bytes))]

/-- The target is gone. -/
def hangsUp : Readiness := { received [] with recv := .closed }

def oneNode : State := .init 0 (fun _ => 0) (fun _ _ => 0) true

theorem targetConnected_regular :
    RegularRun oneNode (targetConnected (forwarded 5) ++ [(.silent, .ready 1 .socket hangsUp)]) := by
  refine ⟨trivial, fun accepted done => ⟨trivial, fun both taken => ⟨fun v batch => ?_, fun w' sent =>
    ⟨fun v batch => ?_, fun _ _ => trivial⟩⟩⟩⟩
  · cases done
    cases taken
    cases batch
    refine ⟨fun m conn taken _ => by decide, fun w' outcome turn => ?_⟩
    cases turn
    refine ⟨by decide, fun m conn taken => (by cases taken), fun w' outcome turn => (by cases turn)⟩
  · cases done
    cases taken
    cases sent
    cases batch

theorem run_last {w v w' : State} {events : List (Kernel × Event)} {kernel : Kernel} {e : Event}
    (before : run w events = .ok v) (done : run w (events ++ [(kernel, e)]) = .ok w') : step v kernel e = .ok w' := by
  induction events generalizing w with
  | nil =>
    cases before
    obtain ⟨u, taken, rest⟩ := run_cons_ok done
    cases rest
    exact taken
  | cons head events ih =>
    obtain ⟨u, taken, early⟩ := run_cons_ok before
    obtain ⟨u', again, late⟩ := run_cons_ok done
    rw [taken] at again
    cases again
    exact ih early late

/-- The only request of connection `i` settles it. -/
theorem settles_alone {target : Addr} {w : State} {i slot : Nat} (laid : Laid w)
    (alone : ∀ s, (w.reqs s).messagePtr ≠ none → s = slot) : Settles target w i := by
  intro s on waits final
  obtain ⟨l, queue⟩ := laid.queue i (on.2 ▸ laid.opened s on.1)
  have member := (queue.members s).mpr on
  obtain ⟨a, t, rfl⟩ := List.append_of_mem member
  refine ⟨s, ⟨a, t, queue, waits, fun x inside => ?_⟩, final, Or.inl rfl⟩
  have same : x = s := (alone x (queue.live (by simp [inside])).1).trans (alone s on.1).symm
  have distinct := queue.nodup
  rw [List.nodup_append] at distinct
  exact absurd same (distinct.2.2 x inside s (by simp))

/-- The only request has its next REPLY at 56, and the response fits. -/
def respondsWithin (w : State) : Prop :=
  (w.reqs 0).currCmd = some 12 ∧ nextReply w 0 0 12 = some 56 ∧ Fits w 0 56

instance (w : State) (slot itr : Nat) : Decidable (Fits w slot itr) := inferInstanceAs (Decidable (_ ≤ _))

instance (w : State) : Decidable (respondsWithin w) := inferInstanceAs (Decidable (_ ∧ _))

/-- A connection whose only request waits on the address lets the walk pass. -/
theorem passable_alone {w : State} {i : Nat} (alone : ∀ s, (w.reqs s).messagePtr ≠ none → s = 0)
    (placed : (w.reqs 0).messagePtr = some 0)
    (room : respondsWithin w) : Passable deadTarget w i := by
  refine ⟨fun s visited => ?_, fun f m cmd itr newest _ placed' current' next => ?_⟩
  · rw [alone s visited.on.1, room.1]
    exact Option.some_ne_none 12
  · obtain rfl := alone f newest.on.1
    rw [placed] at placed'
    rw [room.1] at current'
    cases placed'
    cases current'
    rw [room.2.1] at next
    cases next
    exact room.2.2

theorem targetConnected_one : ∃ w v, run oneNode (targetConnected (forwarded 5)) = .ok w ∧
    attempt { w with kernel := .silent } 1 .socket hangsUp = .ok (v, false) ∧ (v.conns 1).target = deadTarget ∧
    (v.conns 1).sock = some 4 ∧ (v.reqs 0).messagePtr = some 0 ∧ (v.reqs 0).connId = 0 ∧
    waitsOn deadTarget v 0 = true ∧ respondsWithin v ∧ ∀ s, (v.reqs (s + 1)).messagePtr = none :=
  ⟨_, _, rfl, rfl, rfl, rfl, rfl, rfl, rfl, by decide +kernel, fun _ => rfl⟩

theorem targetConnected_two : ∃ w v, run oneNode (targetConnected (forwarded 5 ++ forwarded 6)) = .ok w ∧
    attempt { w with kernel := .silent } 1 .socket hangsUp = .ok (v, false) ∧ (v.conns 1).target = deadTarget ∧
    OnConn v 0 0 ∧ waitsOn deadTarget v 0 = true ∧ retriesOf v 0 = 0 := by
  have evaluated : ((run oneNode (targetConnected (forwarded 5 ++ forwarded 6))).toOption.any fun w =>
      (attempt { w with kernel := .silent } 1 .socket hangsUp).toOption.any fun p =>
        p.2 = false ∧ (p.1.conns 1).target = deadTarget ∧ (p.1.reqs 0).messagePtr = some 0 ∧
          (p.1.reqs 0).connId = 0 ∧ waitsOn deadTarget p.1 0 = true ∧ retriesOf p.1 0 = 0) = true := by
    decide +kernel
  obtain ⟨w, ran, attempted⟩ := exists_of_any evaluated
  obtain ⟨⟨v, ok⟩, failed, facts⟩ := exists_of_any attempted
  obtain ⟨rfl, target, placed, home, waits, final⟩ := of_decide_eq_true facts
  exact ⟨w, v, toOption_eq_some ran, toOption_eq_some failed, target,
    ⟨by rw [placed]; exact Option.some_ne_none 0, home⟩, waits, final⟩

theorem dead_target_one : ∃ w v w', run oneNode (targetConnected (forwarded 5)) = .ok w ∧
    attempt { w with kernel := .silent } 1 .socket hangsUp = .ok (v, false) ∧ waitsOn deadTarget v 0 = true ∧
    step w .silent (.ready 1 .socket hangsUp) = .ok w' ∧ Settled 1 deadTarget v w' := by
  obtain ⟨w, v, before, failed, target, sock, placed, -, waits, room, none⟩ := targetConnected_one
  have opened : (v.conns 1).sock ≠ Option.none := by simp [sock]
  have evaluated : ((run oneNode (targetConnected (forwarded 5) ++ [(.silent, .ready 1 .socket hangsUp)])).toOption.any
      fun _ => true) = true := by decide +kernel
  obtain ⟨w', ran, -⟩ := exists_of_any evaluated
  have done := run_last before (toOption_eq_some ran)
  have alone : ∀ s, (v.reqs s).messagePtr ≠ Option.none → s = 0 := by
    intro s live
    cases s with
    | zero => rfl
    | succ s => exact absurd (none s) live
  have sound := (sound_init 0 (fun _ => 0) (fun _ _ => 0) true).run (regularRun_append targetConnected_regular).1 before
  have asked : Still w { w with kernel := .silent } := still_aside rfl rfl rfl (Nat.le_refl _)
  have reached := (course_sound.still asked sound).attempt ((regularRun_append targetConnected_regular).2 w before).1
    failed
  have manageable : Manageable 1 v := by
    refine ⟨opened, fun i _ _ => ?_, fun i _ => settles_alone reached.laid alone, fun i x _ live _ idle => ?_⟩
    · rw [target]
      exact passable_alone alone placed room
    · rw [target, alone x live, waits] at idle
      cases idle
  have settled := dead_target 0 (fun _ => 0) (fun _ _ => 0) true targetConnected_regular before failed manageable
  rw [target] at settled
  rcases settled with ⟨u, ended, settled⟩ | stuck
  · rw [done] at ended
    cases ended
    exact ⟨w, v, w', before, failed, waits, done, settled⟩
  · rw [done] at stuck
    cases stuck

/-- Of two requests on one connection only the newer is answered. -/
theorem older_request_waits_on : ∃ w v w', run oneNode (targetConnected (forwarded 5 ++ forwarded 6)) = .ok w ∧
    attempt { w with kernel := .silent } 1 .socket hangsUp = .ok (v, false) ∧ OnConn v 0 0 ∧
    waitsOn deadTarget v 0 = true ∧ retriesOf v 0 = 0 ∧ step w .silent (.ready 1 .socket hangsUp) = .ok w' ∧
    (w'.conns 0).sock = some 3 ∧ OnConn w' 0 0 ∧ ¬ Settled 1 deadTarget v w' := by
  obtain ⟨w, v, before, failed, target, on, waits, final⟩ := targetConnected_two
  have evaluated : ((run oneNode (targetConnected (forwarded 5 ++ forwarded 6) ++
      [(.silent, .ready 1 .socket hangsUp)])).toOption.any fun w' =>
        (w'.conns 0).sock = some 3 ∧ (w'.reqs 0).messagePtr = some 0 ∧ (w'.reqs 0).connId = 0) = true := by
    decide +kernel
  obtain ⟨w', ran, facts⟩ := exists_of_any evaluated
  obtain ⟨opened, placed, home⟩ := of_decide_eq_true facts
  have still : OnConn w' 0 0 := ⟨by rw [placed]; exact Option.some_ne_none 0, home⟩
  refine ⟨w, v, w', before, failed, on, waits, final, run_last before (toOption_eq_some ran), opened, still,
    fun settled => ?_⟩
  rcases settled.fails 0 0 on waits final with closed | ⟨u, u', _, -, answers, after⟩
  · rw [opened] at closed
    cases closed
  · exact ((after.on 0).mp still).1 answers.gone

end DeadPeer
