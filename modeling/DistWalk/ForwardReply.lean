import DistWalk.TimeoutTable

/-!
# Late and duplicate replies to a forward

A reply is matched by its request id and its sender's address against whatever
the request's current command is. The search is legal on a FORWARD command and
stays on FORWARD commands from there; on anything else it ends the process.
Nothing keeps the current command at a FORWARD until all replies have come.
-/

namespace ForwardReply

open ByteMemory Message Connection PriorityQueue Worker Timeout Node Transitions Requests
  TimeoutTable Wire

/-- The commands that the loop of `find_forward_reply_id` reads, in order. -/
def visitedFrom (mem : Mem) (matchAddr : Addr) (msgEnd : Nat) : Nat → Option Nat → List Nat
  | 0, _ => []
  | _ + 1, none => []
  | fuel + 1, some cmd =>
    if (fwdOpts mem cmd).fwdAddr = matchAddr then [cmd]
    else
      match cmdBoundedNextForward mem (some cmd) msgEnd with
      | .error _ => [cmd]
      | .ok next => cmd :: visitedFrom mem matchAddr msgEnd fuel next

/-- The commands read for a reply from `matchAddr` to the request in `slot`. -/
def visited (w : State) (slot m : Nat) (matchAddr : Addr) : List Nat :=
  let msgEnd := messageEnd (reqMem w slot) m
  visitedFrom (reqMem w slot) matchAddr msgEnd (msgEnd + 1) (w.reqs slot).currCmd

/-- The reply changes nothing. -/
def Dropped (w : State) (reqId status : Nat) (matchAddr : Addr) : Prop :=
  handleForwardReply w reqId status matchAddr = .ok (w, -1)

/-- The reply acknowledges, for the first time, the branch at the current command
that goes to its sender; the last one needed resumes the request. -/
def Acknowledges (w : State) (slot m reqId status : Nat) (matchAddr : Addr) : Prop :=
  ∃ id cmd, (visited w slot m matchAddr)[id]? = some cmd ∧
    (fwdOpts (reqMem w slot) cmd).fwdAddr = matchAddr ∧
    acked (w.reqs slot).fwdRepliesMask id = false ∧
    handleForwardReply w reqId status matchAddr =
      if (w.reqs slot).fwdRepliesLeft - 1 ≤ 0 then
        resumeAfterContext (countReply w slot id) reqId slot m status
      else .ok (countReply w slot id, -1)

/-- It does so for the FORWARD context that the request is in. -/
def Counted (w : State) (slot m reqId status : Nat) (matchAddr : Addr) : Prop :=
  (w.reqs slot).ctx ≠ none ∧ Acknowledges w slot m reqId status matchAddr

/-- What a reply may do: it is read against FORWARD commands only, and dropped
or counted. -/
def Harmless (w : State) (slot reqId status : Nat) (matchAddr : Addr) : Prop :=
  ∃ m, (w.reqs slot).messagePtr = some m ∧
    (∀ cmd ∈ visited w slot m matchAddr, (cmdAt (reqMem w slot) cmd).isForward = true) ∧
    (Dropped w reqId status matchAddr ∨ Counted w slot m reqId status matchAddr)

/-- The request has no current command or stands at a FORWARD. -/
def AtForward (w : State) (slot : Nat) : Prop :=
  ∀ cmd, (w.reqs slot).currCmd = some cmd → (cmdAt (reqMem w slot) cmd).isForward = true

/-! ## The search -/

section Search

variable {mem : Mem} {msgEnd : Nat}

theorem seekContinue_isForward {branched : Bool} {fuel : Nat} {cmd : Option Nat} {found : Nat}
    (h : seekContinue mem msgEnd branched fuel cmd = some found) :
    (cmdAt mem found).isForward = true := by
  induction fuel generalizing cmd with
  | zero => cases h
  | succ fuel ih =>
    cases cmd with
    | none => cases h
    | some cmd =>
      simp only [seekContinue] at h
      split at h
      · cases h
      · rename_i type
        split at h
        · cases h
          rw [type]
          rfl
        · cases h
      · exact ih h
      · split at h
        · cases h
        · split at h
          · cases h
          · exact ih h
      · exact ih h

/-- The next branch of a context is a FORWARD again. -/
theorem cmdBoundedNextForward_isForward {cmd : Option Nat} {next : Nat}
    (h : cmdBoundedNextForward mem cmd msgEnd = .ok (some next)) :
    (cmdAt mem next).isForward = true := by
  unfold cmdBoundedNextForward at h
  split at h
  · cases h
  · split at h
    · cases h
    · split at h
      · cases h
      · exact seekContinue_isForward (Except.ok.inj h)

theorem cmdBoundedNextForward_ok {cmd : Nat} (msgEnd : Nat) (h : (cmdAt mem cmd).isForward = true) :
    ∃ next, cmdBoundedNextForward mem (some cmd) msgEnd = .ok next := by
  simp only [cmdBoundedNextForward, h]
  split
  · exact ⟨_, rfl⟩
  · exact ⟨_, rfl⟩

variable (matchAddr : Addr)

/-- From a FORWARD on, the search reads FORWARD commands and comes to an end. -/
theorem search_legal (msgEnd : Nat) (fuel : Nat) (cmd : Option Nat) (id : Nat)
    (start : ∀ c, cmd = some c → (cmdAt mem c).isForward = true) :
    (∀ c ∈ visitedFrom mem matchAddr msgEnd fuel cmd, (cmdAt mem c).isForward = true) ∧
      ∃ found, findForwardFrom mem matchAddr msgEnd fuel cmd id = .ok found := by
  induction fuel generalizing cmd id with
  | zero => exact ⟨fun c hc => (List.not_mem_nil hc).elim, none, rfl⟩
  | succ fuel ih =>
    cases cmd with
    | none => exact ⟨fun c hc => (List.not_mem_nil hc).elim, none, rfl⟩
    | some cmd =>
      have forward := start cmd rfl
      obtain ⟨next, e⟩ := cmdBoundedNextForward_ok msgEnd forward
      have later := ih next (id + 1) fun c hc => cmdBoundedNextForward_isForward (hc ▸ e)
      simp only [visitedFrom, findForwardFrom, e]
      split
      · exact ⟨fun c hc => by rw [List.mem_singleton.mp hc]; exact forward, some id, rfl⟩
      · refine ⟨fun c hc => ?_, later.2⟩
        rcases List.mem_cons.mp hc with rfl | hc
        · exact forward
        · exact later.1 c hc

/-- The search reads its first command whatever it is. -/
theorem head_mem_visitedFrom (fuel cmd : Nat) :
    cmd ∈ visitedFrom mem matchAddr msgEnd (fuel + 1) (some cmd) := by
  simp only [visitedFrom]
  split
  · exact List.mem_singleton_self cmd
  · split
    · exact List.mem_singleton_self cmd
    · exact List.mem_cons_self

/-- A match is the command read at its position. -/
theorem found_visited (fuel : Nat) (cmd : Option Nat) (id found : Nat)
    (h : findForwardFrom mem matchAddr msgEnd fuel cmd id = .ok (some found)) :
    id ≤ found ∧ ∃ c, (visitedFrom mem matchAddr msgEnd fuel cmd)[found - id]? = some c ∧
      (fwdOpts mem c).fwdAddr = matchAddr := by
  induction fuel generalizing cmd id with
  | zero => cases h
  | succ fuel ih =>
    cases cmd with
    | none => cases h
    | some cmd =>
      simp only [findForwardFrom] at h
      simp only [visitedFrom]
      by_cases same : (fwdOpts mem cmd).fwdAddr = matchAddr
      · rw [if_pos same] at h ⊢
        cases h
        exact ⟨le_refl _, cmd, by simp, same⟩
      · rw [if_neg same] at h ⊢
        cases e : cmdBoundedNextForward mem (some cmd) msgEnd with
        | error a =>
          rw [e] at h
          cases h
        | ok next =>
          simp only [e] at h
          obtain ⟨le, c, at_id, found_⟩ := ih next (id + 1) h
          refine ⟨by omega, c, ?_, found_⟩
          rw [show found - id = (found - (id + 1)) + 1 by omega]
          simpa using at_id

end Search

/-! ## Live requests have a message -/

/-- Whether a request is live and whether it has a message. -/
def occupancy (r : ReqInfo) : Nat × Bool := (r.reqId, r.messagePtr.isSome)

theorem static_occupancy : Static occupancy :=
  ⟨⟨⟨fun _ _ => rfl, fun _ _ => rfl⟩, fun r _ => by simp [occupancy]⟩,
    fun _ _ _ _ _ _ _ _ _ => rfl⟩

def Messaged (w : State) : Prop :=
  ∀ s, (occupancy (w.reqs s)).1 ≠ noReq → (occupancy (w.reqs s)).2 = true

theorem Messaged.step {w w' : State} {l : Label} (h : Messaged w) (s : Step w l w') :
    Messaged w' := by
  intro x live
  rcases s.resident static_occupancy x with kept | ⟨free, -⟩ | ⟨c, m, -, -, -, -, e⟩
  · rw [kept] at live ⊢
    exact h x live
  · exact absurd free live
  · rw [e]
    rfl

variable (storageDevices : Nat) (storageFd : Nat → Nat) (files : Nat → Mem) (enableDefrag : Bool)

theorem live_has_message {w : State}
    (h : Leads (State.init storageDevices storageFd files enableDefrag) w) {reqId slot : Nat}
    (live : reqGetById w reqId = some slot) (named : reqId ≠ noReq) :
    ∃ m, (w.reqs slot).messagePtr = some m := by
  have kept : Messaged w := Reaches.invariant (fun _ _ _ _ kept s => Messaged.step kept s) h
    fun _ live => absurd rfl live
  have id := (reqGetById_eq_some.mp live).2
  have occupied := kept slot fun free => named (id.symm.trans free)
  exact Option.isSome_iff_exists.mp occupied

/-! ## Replies -/

/-- The handler on a legal search. -/
theorem handled_of_search {w : State} {slot m reqId status : Nat} {matchAddr : Addr}
    (live : reqGetById w reqId = some slot) (message : (w.reqs slot).messagePtr = some m)
    {found : Option Nat}
    (search : findForwardReplyId (reqMem w slot) (w.reqs slot).currCmd matchAddr
      (messageEnd (reqMem w slot) m) = .ok found) :
    Dropped w reqId status matchAddr ∨ Acknowledges w slot m reqId status matchAddr := by
  cases found with
  | none =>
    refine Or.inl ?_
    simp only [Dropped, handleForwardReply, live, message, search]
  | some id =>
    obtain ⟨-, cmd, read, same⟩ := found_visited matchAddr _ _ 0 id search
    by_cases repeated : acked (w.reqs slot).fwdRepliesMask id = true
    · refine Or.inl ?_
      simp only [Dropped, handleForwardReply, live, message, search, repeated, if_true]
    · refine Or.inr ⟨id, cmd, read, same, Bool.eq_false_iff.mpr repeated, ?_⟩
      have left : ((countReply w slot id).reqs slot).fwdRepliesLeft =
          (w.reqs slot).fwdRepliesLeft - 1 := by rw [countReply, setReq_self]
      simp only [handleForwardReply, live, message, search, repeated, left]
      rfl

/-- A reply that finds its request at a FORWARD is read against FORWARDs only. -/
theorem handled_at_forward {w : State} {slot m reqId : Nat} (live : reqGetById w reqId = some slot)
    (message : (w.reqs slot).messagePtr = some m) (standing : AtForward w slot) (status : Nat)
    (matchAddr : Addr) :
    (∀ cmd ∈ visited w slot m matchAddr, (cmdAt (reqMem w slot) cmd).isForward = true) ∧
      (Dropped w reqId status matchAddr ∨ Acknowledges w slot m reqId status matchAddr) := by
  obtain ⟨legal, found, search⟩ := search_legal matchAddr (messageEnd (reqMem w slot) m)
    (messageEnd (reqMem w slot) m + 1) (w.reqs slot).currCmd 0 standing
  exact ⟨legal, handled_of_search live message search⟩

/-- A request forwarded with a timeout, then a LOAD. -/
def forwardThenLoad : List (Kernel × Event) :=
  [(.silent, .accept [10, 0, 0, 9, 0, 9] .tcp),
   (.silent, .accept [10, 0, 0, 1, 0, 1] .tcp),
   (.silent, .ready 0 .socket (received (message 1 0
     [.forward false 64 [10, 0, 0, 1, 0, 1] 50 0 1 1 0 .tcp, .reply 16, .load 0, .reply 16, .eom])))]

/-- The forward times out and the request waits for storage when the reply
arrives at last: the process ends. -/
theorem late_reply_aborts :
    ∃ w, Leads (State.init 1 (fun _ => 5) (fun _ _ => 0) true) w ∧ reqGetById w 0 = some 0 ∧
      handleForwardReply w 0 0 [10, 0, 0, 1, 0, 1] = .error .check ∧
      ¬ Harmless w 0 0 0 [10, 0, 0, 1, 0, 1] := by
  have evaluated :
      ((run (State.init 1 (fun _ => 5) (fun _ _ => 0) true) (forwardThenLoad ++
        [(.silent, .elapse 50000), (.silent, .ready 2 .timer (received []))])).toOption.any fun w =>
        reqGetById w 0 = some 0 ∧ (w.reqs 0).currCmd = some 84 ∧
          (cmdAt (reqMem w 0) 84).isForward = false ∧
          (match handleForwardReply w 0 0 [10, 0, 0, 1, 0, 1] with
            | .error .check => true
            | _ => false) = true) = true := by decide +kernel
  obtain ⟨w, ran, facts⟩ := exists_of_any evaluated
  obtain ⟨live, current, other, ended⟩ := of_decide_eq_true facts
  have aborts : handleForwardReply w 0 0 [10, 0, 0, 1, 0, 1] = .error .check := by
    split at ended
    · assumption
    · cases ended
  refine ⟨w, leads_run (opened_init _ _ _ _) (toOption_eq_some ran), live, aborts, ?_⟩
  rintro ⟨m, -, legal, -⟩
  have read : 84 ∈ visited w 0 m [10, 0, 0, 1, 0, 1] := by
    rw [visited, current]
    exact head_mem_visitedFrom _ _ 84
  rw [legal 84 read] at other
  cases other

end ForwardReply
