import DistWalk.ForwardReply

/-!
# Batches of messages and what closes a connection

`obtain_messages` answers 0 to have its connection closed. It reads the return
codes of three functions that do not mean the same: `process_single_message` and
`process_messages` answer 1, 0 or -1 for done, needs more time and error, and
`handle_forward_reply` passes on the code of the request it resumes, with -1 also
for a reply that resumes none. The rounds of the loop are told apart here by what
happened in them, and compared with what the loop makes of them.
-/

namespace Batches

open ByteMemory Message Connection PriorityQueue Worker Timeout Node Transitions Requests
  ForwardReply Wire

/-- What happened in one round of the loop. -/
inductive Outcome
  | refused
  | executed (ret : Int)
  | dropped
  | resumed (ret : Int)
  deriving DecidableEq

/-- `conn_req_add` failed, or a message was executed and returned -1. -/
def Outcome.failed : Outcome → Bool
  | .refused => true
  | .executed ret => decide (ret < 0)
  | .dropped => false
  | .resumed ret => decide (ret < 0)

/-- The request, its message and the branch for which a reply is the last
acknowledgement of the context. -/
def completion (w : State) (reqId : Nat) (matchAddr : Addr) : Option (Nat × Nat × Nat) :=
  match reqGetById w reqId with
  | none => none
  | some slot =>
    match (w.reqs slot).messagePtr with
    | none => none
    | some m =>
      match findForwardReplyId (reqMem w slot) (w.reqs slot).currCmd matchAddr
          (messageEnd (reqMem w slot) m) with
      | .ok (some id) =>
        if acked (w.reqs slot).fwdRepliesMask id = false ∧ (w.reqs slot).fwdRepliesLeft ≤ 1 then
          some (slot, m, id)
        else none
      | _ => none

/-- One round: the state after it, what happened, and whether the loop goes on.
`none` is the end of the batch. -/
def round (w : State) (c : Nat) : Except Abort (State × Option (Outcome × Bool)) :=
  match connPrepareRecvMessage (w.conns c) with
  | .error e => .error e
  | .ok (none, conn) => .ok (w.setConn c conn, none)
  | .ok (some m, conn) =>
    let w := w.setConn c conn
    let reqId := reqIdOf conn.recvBuf m
    if cmdAt conn.recvBuf (messageFirstCmd m) = .eom then
      (handleForwardReply w reqId (statusOf conn.recvBuf m) conn.target).map fun s =>
        (s.1, some (if completion w reqId conn.target = none then .dropped else .resumed s.2,
          decide (s.2 ≠ 0)))
    else
      match enterRequest w c m with
      | (w, none) => .ok (w, some (.refused, false))
      | (w, some slot) =>
        (processSingleMessage w slot).map fun s => (s.1, some (.executed s.2, decide (¬ s.2 < 0)))

/-- What a round has done, by the message that it took. -/
inductive RoundDone (w : State) (c : Nat) : State → Option (Outcome × Bool) → Prop
  | ended {conn : ConnInfo} (prepared : connPrepareRecvMessage (w.conns c) = .ok (none, conn)) :
      RoundDone w c (w.setConn c conn) none
  | replied {m : Nat} {conn : ConnInfo} {v : State} {ret : Int}
      (prepared : connPrepareRecvMessage (w.conns c) = .ok (some m, conn))
      (type : cmdAt conn.recvBuf (messageFirstCmd m) = .eom)
      (handled : handleForwardReply (w.setConn c conn) (reqIdOf conn.recvBuf m) (statusOf conn.recvBuf m)
        conn.target = .ok (v, ret)) :
      RoundDone w c v (some (if completion (w.setConn c conn) (reqIdOf conn.recvBuf m) conn.target = none
        then .dropped else .resumed ret, decide (ret ≠ 0)))
  | refused {m : Nat} {conn : ConnInfo} {v : State}
      (prepared : connPrepareRecvMessage (w.conns c) = .ok (some m, conn))
      (type : cmdAt conn.recvBuf (messageFirstCmd m) ≠ .eom)
      (added : enterRequest (w.setConn c conn) c m = (v, none)) :
      RoundDone w c v (some (.refused, false))
  | executed {m slot : Nat} {conn : ConnInfo} {v u : State} {ret : Int}
      (prepared : connPrepareRecvMessage (w.conns c) = .ok (some m, conn))
      (type : cmdAt conn.recvBuf (messageFirstCmd m) ≠ .eom)
      (added : enterRequest (w.setConn c conn) c m = (v, some slot))
      (done : processSingleMessage v slot = .ok (u, ret)) :
      RoundDone w c u (some (.executed ret, decide (¬ ret < 0)))

theorem round_done {w w' : State} {c : Nat} {result : Option (Outcome × Bool)}
    (done : round w c = .ok (w', result)) : RoundDone w c w' result := by
  simp only [round] at done
  split at done
  · cases done
  · rename_i conn prepared
    cases done
    exact .ended prepared
  · rename_i m conn prepared
    split at done
    · rename_i type
      obtain ⟨⟨v, ret⟩, handled, paired⟩ := map_eq_ok.mp done
      cases paired
      exact .replied prepared type handled
    · rename_i type
      split at done
      · rename_i v added
        cases done
        exact .refused prepared type added
      · rename_i v slot added
        obtain ⟨⟨u, ret⟩, executed, paired⟩ := map_eq_ok.mp done
        cases paired
        exact .executed prepared type added executed

/-- The loop is a sequence of rounds. -/
theorem obtainFrom_succ (c fuel : Nat) (w : State) :
    obtainFrom c (fuel + 1) w =
      match round w c with
      | .error e => .error e
      | .ok (w', none) => .ok (w', true)
      | .ok (w', some (_, false)) => .ok (w', false)
      | .ok (w', some (_, true)) => obtainFrom c fuel w' := by
  simp only [obtainFrom, round]
  cases prepared : connPrepareRecvMessage (w.conns c) with
  | error e => rfl
  | ok p =>
    obtain ⟨_ | m, conn⟩ := p
    · rfl
    · simp only
      split
      · cases handleForwardReply (w.setConn c conn) (reqIdOf conn.recvBuf m)
          (statusOf conn.recvBuf m) conn.target with
        | error e => rfl
        | ok s =>
          obtain ⟨w', ret⟩ := s
          by_cases zero : ret = 0
          · simp [Except.map, zero]
          · simp [Except.map, zero]
      · cases added : enterRequest (w.setConn c conn) c m with
        | mk w' entered =>
          cases entered with
          | none => rfl
          | some slot =>
            simp only
            cases processSingleMessage w' slot with
            | error e => rfl
            | ok s =>
              obtain ⟨w'', ret⟩ := s
              by_cases negative : ret < 0
              · simp [Except.map, negative]
              · simp [Except.map, negative]

/-- Every round of the batch is judged by what happened in it: the loop goes on
unless the round failed. -/
def JudgedRightly (c : Nat) : Nat → State → Prop
  | 0, _ => True
  | fuel + 1, w =>
    match round w c with
    | .ok (w', some (outcome, goesOn)) =>
      (goesOn = !outcome.failed) ∧ (goesOn = true → JudgedRightly c fuel w')
    | _ => True

/-! ## Return codes of a request -/

/-- The response is accepted or stays queued on its connection. -/
def Delivered (w : State) (slot m cmd : Nat) : Prop :=
  ∀ w' ret, reply w slot m cmd = .ok (w', ret) →
    ret ≠ 0 ∨ (w'.conns (w.reqs slot).connId).status = .close ∨
      (w'.conns (w.reqs slot).connId).status = .sending

/-- From `cmd` on there are only commands that need no waiting, up to a REPLY
that is delivered or the end of the message. -/
def RunsOn (mem : Mem) (slot m : Nat) : Nat → State → Option Nat → Prop
  | 0, _, _ => True
  | _ + 1, _, none => True
  | fuel + 1, w, some cmd =>
    let next := cmdBoundedSkip mem (some cmd) 1 (messageEnd mem m)
    match cmdAt mem cmd with
    | .eom => True
    | .compute => RunsOn mem slot m fuel (w.emit (.compute slot (compTimeUs mem cmd))) next
    | .store => storageDevice mem cmd < w.storageDevices ∧ storeWaitSync mem cmd = 0 ∧
        RunsOn mem slot m fuel
          (w.emit (.storage (storageDevice mem cmd) (w.reqs slot).reqId)) next
    | .reply => Delivered w slot m cmd
    | _ => False

theorem processReply_ret {w w' : State} {slot m cmd : Nat} {ret : Int}
    (h : processReply w slot m cmd = .ok (w', ret)) :
    (ret = 1 ∨ ret = 0 ∨ ret = -1) ∧ (ret = 1 ↔ Delivered w slot m cmd) := by
  simp only [processReply] at h
  split at h
  · cases h
  · rename_i w₁ result replied
    have delivered : Delivered w slot m cmd ↔
        result ≠ 0 ∨ (w₁.conns (w.reqs slot).connId).status = .close ∨
          (w₁.conns (w.reqs slot).connId).status = .sending := by
      constructor
      · exact fun all => all w₁ result replied
      · intro here w₂ ret₂ e
        rw [replied] at e
        cases e
        exact here
    rw [delivered]
    split at h
    · rename_i unsent
      split at h
      · rename_i sending
        obtain ⟨_, -, e⟩ := map_eq_ok.mp h
        cases e
        exact ⟨Or.inl rfl, fun _ => Or.inr (Or.inr sending), fun _ => rfl⟩
      · rename_i idle
        obtain ⟨_, -, e⟩ := map_eq_ok.mp h
        cases e
        refine ⟨Or.inr (Or.inr rfl), fun one => absurd one (by decide), ?_⟩
        rintro (nonzero | closed | sending)
        · exact absurd unsent.2 nonzero
        · exact absurd closed unsent.1
        · exact absurd sending idle
    · rename_i other
      have fine : result ≠ 0 ∨ (w₁.conns (w.reqs slot).connId).status = .close ∨
          (w₁.conns (w.reqs slot).connId).status = .sending := by
        by_cases zero : result = 0
        · exact Or.inr (Or.inl (not_not.mp fun open_ => other ⟨open_, zero⟩))
        · exact Or.inl zero
      split at h
      · obtain ⟨_, -, e⟩ := map_eq_ok.mp h
        cases e
        exact ⟨Or.inl rfl, fun _ => fine, fun _ => rfl⟩
      · cases h
        exact ⟨Or.inl rfl, fun _ => fine, fun _ => rfl⟩

theorem processForward_ret {w w' : State} {slot m cmd : Nat} {ret : Int}
    (h : processForward w slot m cmd = .ok (w', ret)) : ret = 0 ∨ ret = -1 := by
  obtain ⟨s, -, e⟩ := map_eq_ok.mp h
  cases e
  cases s.2
  · exact Or.inr rfl
  · exact Or.inl rfl

/-- A request returns 1, 0 or -1, and 1 exactly when it runs on to its end. -/
theorem processFrom_ret {mem : Mem} {slot m fuel : Nat} {w w' : State} {cmd : Option Nat}
    {ret : Int} (h : processFrom mem slot m fuel w cmd = .ok (w', ret)) :
    (ret = 1 ∨ ret = 0 ∨ ret = -1) ∧ (ret = 1 ↔ RunsOn mem slot m fuel w cmd) := by
  have done : ∀ {r : Int}, r = 1 → (r = 1 ∨ r = 0 ∨ r = -1) ∧ (r = 1 ↔ True) :=
    fun e => ⟨Or.inl e, fun _ => trivial, fun _ => e⟩
  have undone : ∀ {r : Int}, r = 0 ∨ r = -1 → (r = 1 ∨ r = 0 ∨ r = -1) ∧ (r = 1 ↔ False) :=
    fun e => ⟨Or.inr e, fun one => by omega, False.elim⟩
  induction fuel generalizing w cmd with
  | zero =>
    cases h
    exact done rfl
  | succ fuel ih =>
    cases cmd with
    | none =>
      cases h
      exact done rfl
    | some cmd =>
      revert h
      simp only [processFrom, RunsOn]
      cases cmdAt mem cmd with
      | eom =>
        intro h
        cases h
        exact done rfl
      | compute => exact ih
      | forwardBegin => exact fun h => undone (processForward_ret h)
      | forwardContinue => exact fun h => undone (processForward_ret h)
      | reply => exact processReply_ret
      | store =>
        intro h
        simp only at h
        split at h
        · rename_i missing
          cases h
          refine ⟨Or.inr (Or.inr rfl), fun one => absurd one (by decide), fun valid => ?_⟩
          omega
        · rename_i present
          split at h
          · rename_i asynchronous
            have later := ih h
            exact ⟨later.1, fun one => ⟨by omega, asynchronous, later.2.mp one⟩,
              fun all => later.2.mpr all.2.2⟩
          · rename_i waits
            cases h
            exact ⟨Or.inr (Or.inl rfl), fun one => absurd one (by decide),
              fun all => absurd all.2.1 waits⟩
      | load =>
        intro h
        simp only at h
        split at h
        · cases h
          exact undone (Or.inr rfl)
        · cases h
          exact undone (Or.inl rfl)
      | pskip =>
        intro h
        cases h
        exact undone (Or.inl rfl)
      | unknown code =>
        intro h
        cases h
        exact undone (Or.inl rfl)

/-- The request in `slot` runs on from its current command. -/
def RequestRunsOn (w : State) (slot : Nat) : Prop :=
  ∀ m, (w.reqs slot).messagePtr = some m →
    RunsOn (reqMem w slot) slot m (messageEnd (reqMem w slot) m + 1) w (w.reqs slot).currCmd

theorem processMessages_ret {w w' : State} {slot : Nat} {ret : Int}
    (h : processMessages w slot = .ok (w', ret)) :
    (ret = 1 ∨ ret = 0 ∨ ret = -1) ∧ (ret = 1 ↔ RequestRunsOn w slot) := by
  simp only [processMessages, processSingleMessage] at h
  split at h
  · cases h
  · rename_i m message
    have codes := processFrom_ret h
    refine ⟨codes.1, fun one m' message' => ?_, fun runs => codes.2.mpr (runs m message)⟩
    rw [message] at message'
    cases message'
    exact codes.2.mp one

/-! ## Replies in a batch -/

/-- If the reply completes a context, the request it resumes runs on. -/
def ResumesRunning (w : State) (reqId status : Nat) (matchAddr : Addr) : Prop :=
  ∀ slot m id, completion w reqId matchAddr = some (slot, m, id) →
    ∀ w₁ left, removeTimeout (completeContext (countReply w slot id) slot m status) reqId =
      .ok (w₁, left) → RequestRunsOn w₁ slot

/-- The request of a reply, unless it is dropped. -/
theorem handleForwardReply_completion {w w' : State} {reqId status : Nat} {matchAddr : Addr}
    {ret : Int} (h : handleForwardReply w reqId status matchAddr = .ok (w', ret)) :
    (completion w reqId matchAddr = none ∧ ret = -1) ∨
      ∃ slot m id, completion w reqId matchAddr = some (slot, m, id) ∧
        resumeAfterContext (countReply w slot id) reqId slot m status = .ok (w', ret) := by
  simp only [handleForwardReply] at h
  simp only [completion]
  cases live : reqGetById w reqId with
  | none =>
    simp only [live] at h
    cases h
    exact Or.inl ⟨rfl, rfl⟩
  | some slot =>
    simp only [live] at h ⊢
    cases message : (w.reqs slot).messagePtr with
    | none =>
      simp only [message] at h
      cases h
    | some m =>
      simp only [message] at h ⊢
      cases search : findForwardReplyId (reqMem w slot) (w.reqs slot).currCmd matchAddr
          (messageEnd (reqMem w slot) m) with
      | error e =>
        simp only [search] at h
        cases h
      | ok found =>
        cases found with
        | none =>
          simp only [search] at h
          cases h
          exact Or.inl ⟨rfl, rfl⟩
        | some id =>
          have left : ((countReply w slot id).reqs slot).fwdRepliesLeft =
              (w.reqs slot).fwdRepliesLeft - 1 := by rw [countReply, setReq_self]
          simp only [search, left] at h ⊢
          by_cases repeated : acked (w.reqs slot).fwdRepliesMask id = true
          · rw [if_pos repeated] at h
            cases h
            simp [repeated]
          · rw [if_neg repeated] at h
            have clear := Bool.eq_false_iff.mpr repeated
            by_cases last : (w.reqs slot).fwdRepliesLeft - 1 ≤ 0
            · rw [if_pos last] at h
              rw [if_pos ⟨clear, by omega⟩]
              exact Or.inr ⟨slot, m, id, rfl, h⟩
            · rw [if_neg last] at h
              cases h
              rw [if_neg fun both => last (by omega)]
              exact Or.inl ⟨rfl, rfl⟩

/-- A round goes the right way exactly if the reply it handles, if any, resumes
no request that has to wait or fails. -/
theorem handled_judged {w w' : State} {reqId status : Nat} {matchAddr : Addr} {ret : Int}
    (h : handleForwardReply w reqId status matchAddr = .ok (w', ret)) :
    (decide (ret ≠ 0) = !(if completion w reqId matchAddr = none then Outcome.dropped
      else .resumed ret).failed) ↔ ResumesRunning w reqId status matchAddr := by
  rcases handleForwardReply_completion h with ⟨none, rfl⟩ | ⟨slot, m, id, found, resumed⟩
  · rw [if_pos none]
    refine ⟨fun _ slot m id some => ?_, fun _ => rfl⟩
    rw [none] at some
    cases some
  · rw [if_neg (by rw [found]; exact Option.some_ne_none _)]
    simp only [resumeAfterContext] at resumed
    split at resumed
    · cases resumed
    · rename_i w₁ left removed
      obtain ⟨codes, runs⟩ := processMessages_ret resumed
      have judged : (decide (ret ≠ 0) = !(Outcome.resumed ret).failed) ↔ ret = 1 := by
        rcases codes with rfl | rfl | rfl <;> decide
      rw [judged, runs]
      constructor
      · intro here slot' m' id' found' w₂ left' removed'
        rw [found] at found'
        cases found'
        rw [removed] at removed'
        cases removed'
        exact here
      · exact fun all => all slot m id found w₁ left removed

/-- In every round of the batch, the state it is met in given. -/
def RepliesRunOn (c : Nat) : Nat → State → Prop
  | 0, _ => True
  | fuel + 1, w =>
    (∀ m conn, connPrepareRecvMessage (w.conns c) = .ok (some m, conn) →
      cmdAt conn.recvBuf (messageFirstCmd m) = .eom →
      ResumesRunning (w.setConn c conn) (reqIdOf conn.recvBuf m) (statusOf conn.recvBuf m)
        conn.target) ∧
    ∀ w' outcome, round w c = .ok (w', some (outcome, true)) → RepliesRunOn c fuel w'

theorem round_judged {w w' : State} {c : Nat} {outcome : Outcome} {goesOn : Bool}
    (h : round w c = .ok (w', some (outcome, goesOn))) :
    (goesOn = !outcome.failed) ↔
      ∀ m conn, connPrepareRecvMessage (w.conns c) = .ok (some m, conn) →
        cmdAt conn.recvBuf (messageFirstCmd m) = .eom →
        ResumesRunning (w.setConn c conn) (reqIdOf conn.recvBuf m) (statusOf conn.recvBuf m)
          conn.target := by
  simp only [round] at h
  split at h
  · cases h
  · cases h
  · rename_i m conn prepared
    split at h
    · rename_i answer
      obtain ⟨⟨w₁, ret⟩, handled, e⟩ := map_eq_ok.mp h
      simp only [Prod.mk.injEq, Option.some.injEq] at e
      obtain ⟨-, rfl, rfl⟩ := e
      rw [handled_judged handled]
      constructor
      · intro runs m' conn' prepared'
        rw [prepared] at prepared'
        cases prepared'
        exact fun _ => runs
      · exact fun all => all m conn prepared answer
    · rename_i request
      have vacuous : ∀ m' conn', connPrepareRecvMessage (w.conns c) = .ok (some m', conn') →
          ¬ cmdAt conn'.recvBuf (messageFirstCmd m') = .eom := by
        intro m' conn' prepared'
        rw [prepared] at prepared'
        cases prepared'
        exact request
      refine iff_of_true ?_ fun m' conn' prepared' answer =>
        absurd answer (vacuous m' conn' prepared')
      split at h
      · cases h
        rfl
      · obtain ⟨⟨w₁, ret⟩, -, e⟩ := map_eq_ok.mp h
        simp only [Prod.mk.injEq, Option.some.injEq] at e
        obtain ⟨-, rfl, rfl⟩ := e
        exact decide_not

theorem judgedRightly_iff {c fuel : Nat} {w w' : State} {ret : Bool}
    (h : obtainFrom c fuel w = .ok (w', ret)) : JudgedRightly c fuel w ↔ RepliesRunOn c fuel w := by
  induction fuel generalizing w with
  | zero => exact Iff.rfl
  | succ fuel ih =>
    rw [obtainFrom_succ] at h
    simp only [JudgedRightly, RepliesRunOn]
    cases e : round w c with
    | error a =>
      rw [e] at h
      cases h
    | ok p =>
      obtain ⟨w₁, _ | ⟨outcome, goesOn⟩⟩ := p
      · refine iff_of_true trivial ⟨?_, fun _ _ absurdly => by cases absurdly⟩
        intro m conn prepared answer
        simp only [round, prepared, answer, if_true] at e
        obtain ⟨_, -, absurdly⟩ := map_eq_ok.mp e
        simp at absurdly
      · rw [← round_judged e]
        refine and_congr_right fun _ => ?_
        cases goesOn with
        | false =>
          exact iff_of_true (fun no => by cases no) fun _ _ absurdly => by cases absurdly
        | true =>
          rw [e] at h
          rw [ih h]
          constructor
          · intro runs w₂ outcome₂ same
            cases same
            exact runs rfl
          · exact fun all _ => all w₁ outcome rfl

/-! ## The batch as a whole -/

def SomeRoundFailed (c : Nat) : Nat → State → Prop
  | 0, _ => False
  | fuel + 1, w =>
    match round w c with
    | .ok (w', some (outcome, goesOn)) =>
      outcome.failed = true ∨ (goesOn = true ∧ SomeRoundFailed c fuel w')
    | _ => False

/-- A batch judged rightly is left with 0 exactly if a round failed. -/
theorem closed_iff_failed {c fuel : Nat} {w w' : State} {ret : Bool}
    (judged : JudgedRightly c fuel w) (h : obtainFrom c fuel w = .ok (w', ret)) :
    ret = false ↔ SomeRoundFailed c fuel w := by
  induction fuel generalizing w with
  | zero =>
    cases h
    exact iff_of_false (fun no => by cases no) id
  | succ fuel ih =>
    rw [obtainFrom_succ] at h
    simp only [JudgedRightly, SomeRoundFailed] at judged ⊢
    cases e : round w c with
    | error a =>
      rw [e] at h
      cases h
    | ok p =>
      obtain ⟨w₁, _ | ⟨outcome, goesOn⟩⟩ := p
      · rw [e] at h
        cases h
        exact iff_of_false (fun no => by cases no) id
      · rw [e] at h judged
        cases goesOn with
        | false =>
          cases h
          exact iff_of_true rfl (Or.inl (by simpa using judged.1.symm))
        | true =>
          have passed : outcome.failed = false := by simpa using judged.1.symm
          rw [ih (judged.2 rfl) h]
          simp [passed]

/-- What the return code of `obtain_messages` is to mean. -/
structure TornDownOnError (c : Nat) (w : State) (ret : Bool) : Prop where
  judged : JudgedRightly c ((w.conns c).currRecvBuf + 1) w
  closed : ret = false ↔ SomeRoundFailed c ((w.conns c).currRecvBuf + 1) w

/-- The connection is torn down on errors, and on nothing else, exactly if every
forward reply of the batch that completes a context resumes a request that runs
on to its end. -/
theorem torn_down_on_error_iff {c : Nat} {w w' : State} {ret : Bool}
    (returned : obtainMessages w c = .ok (w', ret)) :
    TornDownOnError c w ret ↔ RepliesRunOn c ((w.conns c).currRecvBuf + 1) w := by
  rw [← judgedRightly_iff returned]
  exact ⟨TornDownOnError.judged, fun judged => ⟨judged, closed_iff_failed judged returned⟩⟩

/-- A client and a peer, a request forwarded to the peer, and the peer's reply
in the receive buffer. -/
def answered (rest : List Cmd) : Option State :=
  (run (State.init 1 (fun _ => 5) (fun _ _ => 0) true)
    [(.silent, .accept [10, 0, 0, 9, 0, 9] .tcp),
     (.silent, .accept [10, 0, 0, 1, 0, 1] .tcp),
     (.silent, .ready 0 .socket (received (message 1 0
       ([.forward false 64 [10, 0, 0, 1, 0, 1] 0 0 1 1 0 .tcp, .reply 16] ++ rest))))]).toOption.map
    fun w => (recvPhase w 1 (received (message 0 0 [.eom]))).1

theorem torn_down_on_error_iff_reply :
    ∃ w w', answered [.reply 16, .eom] = some w ∧ obtainMessages w 1 = .ok (w', true) ∧
      (TornDownOnError 1 w true ↔ RepliesRunOn 1 ((w.conns 1).currRecvBuf + 1) w) := by
  have evaluated : ((answered [.reply 16, .eom]).any fun w =>
      (obtainMessages w 1).toOption.any fun s => s.2 = true) = true := by decide +kernel
  obtain ⟨w, ran, inner⟩ := exists_of_any evaluated
  obtain ⟨⟨w', ret⟩, obtained, facts⟩ := exists_of_any inner
  obtain rfl := of_decide_eq_true facts
  have returned := toOption_eq_some obtained
  exact ⟨w, w', ran, returned, torn_down_on_error_iff returned⟩

/-- The reply resumes a request that goes on to a LOAD and waits for it: the
peer's connection is closed though nothing has failed. -/
theorem waiting_request_closes_peer :
    ∃ w w', answered [.load 0, .reply 16, .eom] = some w ∧
      obtainMessages w 1 = .ok (w', false) ∧ ¬ TornDownOnError 1 w false := by
  have evaluated : ((answered [.load 0, .reply 16, .eom]).any fun w =>
      ((obtainMessages w 1).toOption.any fun s => s.2 = false) &&
        ((round w 1).toOption.any fun s => s.2 = some (.resumed 0, false))) = true := by
    decide +kernel
  obtain ⟨w, ran, inner⟩ := exists_of_any evaluated
  obtain ⟨obtained, waits⟩ := Bool.and_eq_true_iff.mp inner
  obtain ⟨⟨w', ret⟩, returned, facts⟩ := exists_of_any obtained
  obtain rfl := of_decide_eq_true facts
  refine ⟨w, w', ran, toOption_eq_some returned, fun contract => ?_⟩
  obtain ⟨⟨w₁, outcome⟩, e, facts⟩ := exists_of_any waits
  obtain rfl := of_decide_eq_true facts
  have judged := contract.judged
  simp only [JudgedRightly, toOption_eq_some e] at judged
  exact absurd judged.1 (by decide)

end Batches
