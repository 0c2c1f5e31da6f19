import DistWalk.OtherRequests
import DistWalk.RoundRuns
import DistWalk.Turns

/-!
# The node executes the program in each request

Every pending request has come with a round of some batch, and since then the node has
done for it what its message asks for: the tasks in their order, each once, up to the
command at which the request stands. Only a FORWARD that is given up may cost it tasks.
Nothing is done for a request, and it does not move, unless an event takes it up.
-/

namespace Execution

open ByteMemory Message Connection PriorityQueue Worker Timeout Node Requests Transitions ReceiveQueue BufferLayout
  LayoutSteps LayoutRuns BufferSpace Batches DeadPeer ReceivedBytes Programs Relocation CurrentCommands ReturnCodes
  ProgramFrames Forwarding OtherRequests RoundRuns Turns

/-! ## Where requests come from -/

/-- The request came with the message `m` in a round that began in `u`, under the next id,
and `since` is what has been done from then on. -/
structure Underway (lossy : Prop) (w : State) (x c : Nat) (u : State) (since : List Effect) : Prop where
  named : u.lastReqs = (w.reqs x).reqId
  came : ∃ m conn, connPrepareRecvMessage (u.conns c) = .ok (some m, conn) ∧
    text w.storageDevices w x =
      program conn.recvBuf w.storageDevices (messageEnd conn.recvBuf m) (some (messageFirstCmd m))
  work : work w = since ++ work u
  goes : Goes lossy (text w.storageDevices w x) (ownTasks x (w.reqs x).reqId since) (ahead w.storageDevices w x)

/-- What is known of a pending request; `began` are the states in which rounds begin, and
`lossy` the ids of the requests that may have a FORWARD given up. -/
structure Known (began : Nat → State → Prop) (lossy : Nat → Prop) (w : State) (x : Nat) : Prop where
  housed : slotOf (w.reqs x).reqId = x
  issued : (w.reqs x).reqId < w.lastReqs
  ready : Ready w x
  origin : ∃ c u since, began c u ∧ Underway (lossy (w.reqs x).reqId) w x c u since

structure Executing (began : Nat → State → Prop) (lossy : Nat → Prop) (w : State) : Prop extends Sound w where
  bounded : w.lastReqs ≤ noReq
  known : ∀ x, (w.reqs x).messagePtr ≠ none → Known began lossy w x

section Executing

variable {began : Nat → State → Prop} {lossy : Nat → Prop} {aside : Nat → Prop} {w w' : State} {slot x m c : Nat}

/-- A request that has gone on is known as it was. -/
theorem Known.advanced {done : List Effect} (h : Known began lossy w x)
    (a : Advanced (lossy (w.reqs x).reqId) w w' x done)
    (devices : w'.storageDevices = w.storageDevices) (numbers : w.lastReqs ≤ w'.lastReqs)
    (worked : work w' = done ++ work w) : Known began lossy w' x := by
  obtain ⟨c, u, since, came, named, ⟨m, conn, taken, read⟩, before, goes⟩ := h.origin
  refine ⟨by rw [a.reqId]; exact h.housed, ?_, ?_, c, u, done ++ since, came, ?_, ⟨m, conn, taken, ?_⟩, ?_, ?_⟩
  · rw [a.reqId]
    exact Nat.lt_of_lt_of_le h.issued numbers
  · rw [Ready, devices]
    exact ⟨h.ready.1.suffix a.goes.suffix, a.begun⟩
  · exact named.trans a.reqId.symm
  · rw [devices, a.text]
    exact read
  · rw [worked, before, List.append_assoc]
  · rw [devices, a.text, a.reqId, ownTasks_append]
    exact goes.trans a.goes

theorem Executing.ready (h : Executing began lossy w) (x : Nat) (live : (w.reqs x).messagePtr ≠ none) : Ready w x :=
  (h.known x live).ready

/-- Two pending requests have different ids. -/
theorem Executing.distinct (h : Executing began lossy w) (live : (w.reqs slot).messagePtr ≠ none)
    (live' : (w.reqs x).messagePtr ≠ none) (other : x ≠ slot) : (w.reqs x).reqId ≠ (w.reqs slot).reqId := by
  intro same
  have housed := (h.known x live').housed
  rw [same, (h.known slot live).housed] at housed
  exact other housed.symm

/-! ## Who is taken up and who is not -/

/-- The request in slot `x` is where it was, with nothing done for it, or it is gone; the
slot may then have a request that came later. -/
structure Bystander (x : Nat) (w w' : State) : Prop where
  numbers : w.lastReqs ≤ w'.lastReqs
  stays : (w'.reqs x).messagePtr ≠ none →
    (Kept w w' x ∧ ∃ done, work w' = done ++ work w ∧ ownTasks x (w.reqs x).reqId done = []) ∨
      w.lastReqs ≤ (w'.reqs x).reqId

theorem Bystander.trans {a b c : State} (h : Bystander x a b) (h' : Bystander x b c) : Bystander x a c := by
  refine ⟨h.numbers.trans h'.numbers, fun live => ?_⟩
  rcases h'.stays live with ⟨kept', done', worked', none'⟩ | later
  · rcases h.stays kept'.live with ⟨kept, done, worked, none⟩ | later
    · refine Or.inl ⟨kept.trans kept', done' ++ done, by rw [worked', worked, List.append_assoc], ?_⟩
      rw [kept.reqId] at none'
      rw [ownTasks_append, none, none']
      rfl
    · exact Or.inr (later.trans kept'.reqId.ge)
  · exact Or.inr (h.numbers.trans later)

/-- The requests go on, those in the slots that are left aside excepted. -/
structure Onward (began : Nat → State → Prop) (lossy : Nat → Prop) (aside : Nat → Prop) (w w' : State) : Prop where
  executing : Executing began lossy w'
  bystanders : ∀ x, aside x → Bystander x w w'

theorem Onward.trans {a b c : State} (h : Onward began lossy aside a b) (h' : Onward began lossy aside b c) :
    Onward began lossy aside a c :=
  ⟨h'.executing, fun x apart => (h.bystanders x apart).trans (h'.bystanders x apart)⟩

/-- Whoever is kept is known as before. -/
theorem Executing.kept (h : Executing began lossy w) (k : Kept w w' x)
    (devices : w'.storageDevices = w.storageDevices) (numbers : w.lastReqs ≤ w'.lastReqs)
    (worked : work w' = work w) : Known began lossy w' x :=
  (h.known x k.live).advanced (advanced_kept k (h.ready x k.live)) devices numbers worked

theorem Executing.idle (h : Executing began lossy w) (i : Idle w w') : Onward began lossy aside w w' := by
  obtain ⟨there, alike, same⟩ := i h.toSound
  obtain ⟨devices, lastReqs, worked⟩ := ledger_eq same
  refine ⟨⟨there, lastReqs ▸ h.bounded, fun x live => h.kept (alike x live) devices lastReqs.ge worked⟩, fun x _ => ?_⟩
  exact ⟨lastReqs.ge, fun live => Or.inl ⟨alike x live, [], worked, rfl⟩⟩

theorem Executing.turn (h : Executing began lossy w) (live : (w.reqs slot).messagePtr ≠ none) (taken : ¬ aside slot)
    (t : Turn (lossy (w.reqs slot).reqId) slot w w') : Onward began lossy aside w w' := by
  obtain ⟨done, worked, own, advanced⟩ := t.own
  -- what is done is none of the tasks of another request
  have foreign : ∀ x, x ≠ slot → (w.reqs x).messagePtr ≠ none → ownTasks x (w.reqs x).reqId done = [] :=
    fun x other there => ownTasks_foreign own other (h.distinct live there other)
  refine ⟨⟨t.sound, t.lastReqs ▸ h.bounded, fun x there => ?_⟩, fun x apart => ⟨t.lastReqs.ge, fun there => ?_⟩⟩
  · by_cases same : x = slot
    · subst same
      exact (h.known x live).advanced (advanced there) t.devices t.lastReqs.ge worked
    · have kept := t.others x same there
      have stays := @advanced_kept (lossy (w.reqs x).reqId) w w' x kept (h.ready x kept.live)
      refine (h.known x kept.live).advanced ⟨stays.live, stays.reqId, stays.text, ?_, stays.begun⟩ t.devices
        t.lastReqs.ge worked
      rw [foreign x same kept.live]
      exact stays.goes
  · have other : x ≠ slot := fun same => taken (same ▸ apart)
    have kept := t.others x other there
    exact Or.inl ⟨kept, done, worked, foreign x other kept.live⟩

/-! ## Batches -/

/-- The next message of the connection, if it is a request, is a proper program; if it is a
reply that completes a context, its request waits at a FORWARD. -/
def ProperRound (w : State) (c : Nat) : Prop :=
  ∀ m conn, connPrepareRecvMessage (w.conns c) = .ok (some m, conn) →
    (cmdAt conn.recvBuf (messageFirstCmd m) = .eom → ∀ slot q id,
      completion (w.setConn c conn) (reqIdOf conn.recvBuf m) conn.target = some (slot, q, id) →
        ∃ p, Awaits (w.setConn c conn) slot p) ∧
    (cmdAt conn.recvBuf (messageFirstCmd m) ≠ .eom →
      cmdInBounds conn.recvBuf (messageFirstCmd m) (messageEnd conn.recvBuf m) = true ∧
      Proper (program conn.recvBuf w.storageDevices (messageEnd conn.recvBuf m) (some (messageFirstCmd m))))

def ProperBatch (c : Nat) : Nat → State → Prop
  | 0, _ => True
  | fuel + 1, w =>
    ProperRound w c ∧ ∀ w' outcome, Batches.round w c = .ok (w', some (outcome, true)) → ProperBatch c fuel w'

/-- The next message is no reply that completes the context of a request left aside. -/
def RoundElsewhere (aside : Nat → Prop) (w : State) (c : Nat) : Prop :=
  ∀ m conn, connPrepareRecvMessage (w.conns c) = .ok (some m, conn) →
    cmdAt conn.recvBuf (messageFirstCmd m) = .eom → ∀ slot q id,
      completion (w.setConn c conn) (reqIdOf conn.recvBuf m) conn.target = some (slot, q, id) → ¬ aside slot

def BatchElsewhere (aside : Nat → Prop) (c : Nat) : Nat → State → Prop
  | 0, _ => True
  | fuel + 1, w =>
    RoundElsewhere aside w c ∧
      ∀ w' outcome, Batches.round w c = .ok (w', some (outcome, true)) → BatchElsewhere aside c fuel w'

theorem Executing.enter {conn : ConnInfo} {v : State} (h : Executing began lossy w) (now : began c w)
    (opened : (w.conns c).sock ≠ none)
    (prepared : connPrepareRecvMessage (w.conns c) = .ok (some m, conn)) (fresh : w.lastReqs ≠ noReq)
    (inside : cmdInBounds conn.recvBuf (messageFirstCmd m) (messageEnd conn.recvBuf m) = true)
    (proper : Proper (program conn.recvBuf w.storageDevices (messageEnd conn.recvBuf m) (some (messageFirstCmd m))))
    (added : enterRequest (w.setConn c conn) c m = (v, some slot)) : Onward began lossy aside w v := by
  obtain ⟨devices, numbers, worked, -⟩ : v.storageDevices = w.storageDevices ∧ v.lastReqs = w.lastReqs + 1 ∧
      work v = work w ∧ forwards v = forwards w := enterRequest_uses (w := w.setConn c conn) h.bounded fresh added
  have bounded := h.bounded
  have named : slotOf w.lastReqs = slot ∧ (v.reqs slot).reqId = w.lastReqs :=
    enterRequest_numbered (w := w.setConn c conn) added
  have taken : Alike w (w.setConn c conn) := ((inert_take opened prepared).idle h.toSound).2.1
  have others : ∀ x, x ≠ slot → (v.reqs x).messagePtr ≠ none → Kept w v x := fun x other live => by
    have there := h.toSound.take opened prepared
    have kept := kept_carried there (carried_enterRequest there added other live)
    exact (taken x kept.live).trans kept
  refine ⟨⟨h.toSound.enter opened prepared fresh added, by omega, fun x live => ?_⟩,
    fun x _ => ⟨by omega, fun live => ?_⟩⟩
  · by_cases own : x = slot
    · subst own
      obtain ⟨home, placed, cmd, list, table⟩ := enterRequest_placed added
      have mem : reqMem v x = conn.recvBuf := by
        rw [reqMem, home, table, Function.update_self]
        simp [State.setConn]
      have lies : ∀ d, ahead d v x = program conn.recvBuf d (messageEnd conn.recvBuf m) (some (messageFirstCmd m)) :=
        fun d => by rw [ahead, programAt_placed placed, mem, cmd]
      have reads : ∀ d, text d v x = program conn.recvBuf d (messageEnd conn.recvBuf m) (some (messageFirstCmd m)) :=
        fun d => by rw [text, programAt_placed placed, mem]
      refine ⟨by rw [named.2]; exact named.1, by omega, ⟨?_, fun _ => ?_⟩, c, w, [], now, named.2.symm,
        ⟨m, conn, prepared, reads _⟩, worked, ?_⟩
      · rw [lies, devices]
        exact proper
      · rw [lies, program_cons inside]
        exact List.cons_ne_nil _ _
      · rw [lies, reads]
        exact .refl _
    · exact h.kept (others x own live) devices (by omega) worked
  · by_cases own : x = slot
    · subst own
      exact Or.inr named.2.ge
    · exact Or.inl ⟨others x own live, [], worked, rfl⟩

/-- A message that is refused uses up an id. -/
theorem Executing.refused {v : State} (h : Executing began lossy w) (fresh : w.lastReqs ≠ noReq)
    (added : enterRequest w c m = (v, none)) : Onward began lossy aside w v := by
  obtain ⟨devices, numbers, worked, -⟩ := enterRequest_uses h.bounded fresh added
  have bounded := h.bounded
  have still := still_refused added
  have alike := alike_still still
  refine ⟨⟨course_sound.still still h.toSound, by omega, fun x live => h.kept (alike x live) devices (by omega) worked⟩,
    fun x _ => ⟨by omega, fun live => Or.inl ⟨alike x live, [], worked, rfl⟩⟩⟩

theorem Executing.round {result : Option (Outcome × Bool)} (h : Executing began lossy w) (now : began c w)
    (opened : (w.conns c).sock ≠ none)
    (named : ∀ m conn, connPrepareRecvMessage (w.conns c) = .ok (some m, conn) →
      cmdAt (w.conns c).recvBuf (messageFirstCmd m) ≠ .eom → w.lastReqs ≠ noReq)
    (proper : ProperRound w c) (elsewhere : RoundElsewhere aside w c)
    (done : Batches.round w c = .ok (w', result)) : Onward began lossy aside w w' := by
  have taken : ∀ {m conn}, connPrepareRecvMessage (w.conns c) = .ok (some m, conn) →
      Onward began lossy aside w (w.setConn c conn) := fun prepared => h.idle (inert_take opened prepared).idle
  cases Batches.round_done done with
  | ended prepared =>
    rw [connPrepareRecvMessage_none prepared]
    exact h.idle (inert_setConn c rfl).idle
  | @replied m conn v ret prepared type handled =>
    have first := taken prepared
    have before := first.executing
    rcases turn_handleForwardReply lossy before.toSound before.ready ((proper m conn prepared).1 type) handled with
      idle | ⟨slot, q, id, completed, placed, turn⟩
    · exact first.trans (before.idle idle)
    · have live : ((w.setConn c conn).reqs slot).messagePtr ≠ none := by rw [placed]; exact Option.some_ne_none q
      exact first.trans (before.turn live (elsewhere m conn prepared type slot q id completed) turn)
  | @refused m conn v prepared type added =>
    rw [recvBuf_prepared prepared] at type
    have fresh : (w.setConn c conn).lastReqs ≠ noReq := named m conn prepared type
    exact (taken prepared).trans ((taken prepared).executing.refused fresh added)
  | @executed m slot conn v u ret prepared type added executed =>
    obtain ⟨inside, orderly⟩ := (proper m conn prepared).2 type
    rw [recvBuf_prepared prepared] at type
    have entered : Onward began lossy aside w v :=
      h.enter now opened prepared (named m conn prepared type) inside orderly added
    obtain ⟨-, placed, -⟩ := enterRequest_placed added
    have live : (v.reqs slot).messagePtr ≠ none := by rw [placed]; exact Option.some_ne_none m
    have turn : Turn (lossy (v.reqs slot).reqId) slot v w' := turn_processSingleMessage entered.executing.toSound placed
      (entered.executing.ready slot live) executed
    have onward : Onward began lossy (fun y => aside y ∧ y ≠ slot) v w' :=
      entered.executing.turn live (fun apart => apart.2 rfl) turn
    refine ⟨onward.executing, fun x apart => ?_⟩
    by_cases own : x = slot
    · -- whoever was in this slot is gone
      subst own
      refine ⟨(entered.bystanders x apart).numbers.trans turn.lastReqs.ge, fun there => Or.inr ?_⟩
      obtain ⟨_, -, -, advanced⟩ := turn.own
      rw [(advanced there).reqId]
      exact (enterRequest_numbered (w := w.setConn c conn) added).2.ge
    · exact (entered.bystanders x apart).trans (onward.bystanders x ⟨apart, own⟩)

theorem Executing.batch {fuel : Nat} {goesOn : Bool} (h : Executing began lossy w)
    (begins : ∀ u, Rounds c fuel w u → began c u) (opened : (w.conns c).sock ≠ none) (regular : RegularBatch c fuel w)
    (proper : ProperBatch c fuel w) (elsewhere : BatchElsewhere aside c fuel w)
    (done : obtainFrom c fuel w = .ok (w', goesOn)) : Onward began lossy aside w w' := by
  induction fuel generalizing w with
  | zero =>
    cases done
    exact h.idle (.refl _)
  | succ fuel ih =>
    rw [obtainFrom_succ] at done
    cases turn : Batches.round w c with
    | error e => simp only [turn] at done; cases done
    | ok p =>
      obtain ⟨v, result⟩ := p
      have kept := h.round (begins w (.refl fuel w)) opened regular.1 proper.1 elsewhere.1 turn
      rcases result with _ | ⟨outcome, _ | _⟩
      · simp only [turn] at done
        cases done
        exact kept
      · simp only [turn] at done
        cases done
        exact kept
      · simp only [turn] at done
        obtain ⟨still, later⟩ := regular.2 v outcome turn
        exact kept.trans (ih kept.executing (fun u rounds => begins u (.turn turn rounds)) still later
          (proper.2 v outcome turn) (elsewhere.2 v outcome turn) done)

/-! ## Events -/

/-- A timeout that is due gives up a FORWARD only, and only of a request that is `lossy`;
the messages of a batch are proper. -/
def ProperEvent (lossy : Nat → Prop) (w : State) : Event → Prop
  | .ready c type r =>
    (type = .timer → ∀ top slot, pqueueTop w.timeoutQueue = some top →
      reqGetById w (w.timeoutQueue.nodes top).data = some slot → Expires (lossy (w.reqs slot).reqId) w slot) ∧
    ∀ v, batchOf w c type r = some v → ProperBatch c ((v.conns c).currRecvBuf + 1) v
  | _ => True

def ProperRun (lossy : Nat → Prop) : State → List (Kernel × Event) → Prop
  | _, [] => True
  | w, (kernel, e) :: rest =>
    ProperEvent lossy { w with kernel := kernel } e ∧ ∀ w', step w kernel e = .ok w' → ProperRun lossy w' rest

/-- The event takes up no request that is left aside: it is no storage acknowledgement for
it, its timeout is not due, and no reply completes its context. -/
def EventElsewhere (aside : Nat → Prop) (w : State) : Event → Prop
  | .ready c type r =>
    (type = .timer → ∀ top slot, pqueueTop w.timeoutQueue = some top →
      reqGetById w (w.timeoutQueue.nodes top).data = some slot → ¬ aside slot) ∧
    ∀ v, batchOf w c type r = some v → BatchElsewhere aside c ((v.conns c).currRecvBuf + 1) v
  | .storage reqId => ∀ slot, reqGetById w reqId = some slot → ¬ aside slot
  | _ => True

def RunElsewhere (aside : Nat → Prop) : State → List (Kernel × Event) → Prop
  | _, [] => True
  | w, (kernel, e) :: rest =>
    EventElsewhere aside { w with kernel := kernel } e ∧
      ∀ w', step w kernel e = .ok w' → RunElsewhere aside w' rest

theorem Executing.readyAttempt {type : EventType} {r : Readiness} {ok : Bool} (h : Executing began lossy w)
    (begins : ∀ v u, readyBatch w c type r = some v → Rounds c ((v.conns c).currRecvBuf + 1) v u → began c u)
    (regular : ∀ v, readyBatch w c type r = some v → RegularBatch c ((v.conns c).currRecvBuf + 1) v)
    (expires : type = .timer → ∀ top slot, pqueueTop w.timeoutQueue = some top →
      reqGetById w (w.timeoutQueue.nodes top).data = some slot →
        Expires (lossy (w.reqs slot).reqId) w slot ∧ ¬ aside slot)
    (proper : ∀ v, readyBatch w c type r = some v → ProperBatch c ((v.conns c).currRecvBuf + 1) v)
    (elsewhere : ∀ v, readyBatch w c type r = some v → BatchElsewhere aside c ((v.conns c).currRecvBuf + 1) v)
    (done : readyAttempt w c type r = .ok (w', ok)) : Onward began lossy aside w w' := by
  rcases readyAttempt_inert done with ⟨timer, expired⟩ | inert | ⟨v, batch, walked⟩
  · rcases turn_handleTimeout h.toSound h.ready (fun top slot due found => (expires timer top slot due found).1)
      expired with idle | ⟨top, slot, due, found, live, turn⟩
    · exact h.idle idle
    · exact h.turn live (expires timer top slot due found).2 turn
  · exact h.idle inert.idle
  · obtain ⟨inert, opened⟩ := readyBatch_inert batch
    have before : Onward began lossy aside w v := h.idle inert.idle
    exact before.trans (before.executing.batch (fun u => begins v u batch) opened (regular v batch) (proper v batch)
      (elsewhere v batch) walked)

theorem Executing.attempt {type : EventType} {r : Readiness} {ok : Bool} (h : Executing began lossy w)
    (begins : ∀ v u, batchOf w c type r = some v → Rounds c ((v.conns c).currRecvBuf + 1) v u → began c u)
    (regular : RegularEvent w (.ready c type r)) (proper : ProperEvent lossy w (.ready c type r))
    (elsewhere : EventElsewhere aside w (.ready c type r))
    (done : attempt w c type r = .ok (w', ok)) : Onward began lossy aside w w' := by
  simp only [LayoutRuns.attempt] at done
  obtain ⟨expires, proper⟩ := proper
  obtain ⟨undue, elsewhere⟩ := elsewhere
  simp only [RegularEvent, batchOf] at regular proper elsewhere begins
  by_cases handshaking : (w.conns c).status = .sslHandshake
  · rw [if_pos handshaking] at done regular proper elsewhere begins
    cases shaken : r.handshake with
    | failed =>
      simp only [shaken] at done
      cases done
      exact h.idle (.refl _)
    | inProgress =>
      simp only [shaken] at done
      cases done
      exact h.idle (.refl _)
    | complete =>
      simp only [shaken] at done regular proper elsewhere begins
      have shook : Inert w (w.setConn c { w.conns c with status := .ready }) := inert_setConn c rfl
      have ready := shook.idle
      have before : Onward began lossy aside w (w.setConn c { w.conns c with status := .ready }) := h.idle ready
      refine before.trans (before.executing.readyAttempt begins regular (fun timer top slot due found => ?_) proper
        elsewhere done)
      refine ⟨fun spent skips => ?_, undue timer top slot due found⟩
      obtain ⟨allowed, p, waits⟩ := expires timer top slot due found spent skips
      have live : (w.reqs slot).messagePtr ≠ none := by
        intro gone
        rw [Awaits, ahead, programAt, gone] at waits
        cases waits
      exact ⟨allowed, p, waits.idle ready h.toSound live⟩
  · rw [if_neg handshaking] at done regular proper elsewhere begins
    exact h.readyAttempt begins regular
      (fun timer top slot due found => ⟨expires timer top slot due found, undue timer top slot due found⟩) proper
      elsewhere done

theorem Executing.step {kernel : Kernel} {e : Event} (h : Executing began lossy w)
    (begins : ∀ c type r v u, e = .ready c type r → batchOf { w with kernel := kernel } c type r = some v →
      Rounds c ((v.conns c).currRecvBuf + 1) v u → began c u)
    (regular : RegularEvent { w with kernel := kernel } e) (proper : ProperEvent lossy { w with kernel := kernel } e)
    (elsewhere : EventElsewhere aside { w with kernel := kernel } e) (done : step w kernel e = .ok w') :
    Onward began lossy aside w w' := by
  have answers : Inert w { w with kernel := kernel } := inert_aside rfl rfl rfl (Nat.le_refl _) rfl
  have asked : Onward began lossy aside w { w with kernel := kernel } := h.idle answers.idle
  have before := asked.executing
  refine asked.trans ?_
  cases e with
  | accept addr proto => exact before.idle ((inert_acceptConn done).idle)
  | ready c type r =>
    have tries : ∀ {v ok}, LayoutRuns.attempt { w with kernel := kernel } c type r = .ok (v, ok) →
        Onward began lossy aside { w with kernel := kernel } v :=
      before.attempt (fun v u => begins c type r v u rfl) regular proper elsewhere
    rcases execRequest_done done with tried | ⟨v, tried, closed⟩
    · exact tries tried
    · exact (tries tried).trans ((tries tried).executing.idle (inert_closeFailed closed).idle)
  | storage reqId =>
    rcases turn_storageAck lossy before.toSound before.ready done with idle | ⟨slot, found, live, turn⟩
    · exact before.idle idle
    · exact before.turn live (elsewhere slot found) turn
  | elapse ns =>
    cases done
    have later : Inert { w with kernel := kernel } (elapse { w with kernel := kernel } ns) :=
      inert_aside rfl rfl rfl (Nat.le_refl _) rfl
    exact before.idle later.idle

theorem Executing.run {events : List (Kernel × Event)} (h : Executing began lossy w)
    (begins : ∀ c u, Begins w events c u → began c u) (regular : RegularRun w events)
    (proper : ProperRun lossy w events) (elsewhere : RunElsewhere aside w events) (done : run w events = .ok w') :
    Onward began lossy aside w w' := by
  induction events generalizing w with
  | nil =>
    cases done
    exact h.idle (.refl _)
  | cons head rest ih =>
    obtain ⟨v, taken, later⟩ := run_cons_ok done
    have there := h.step (fun c type r v u is batch rounds => begins c u (Or.inl ⟨type, r, v, is, batch, rounds⟩))
      regular.1 proper.1 elsewhere.1 taken
    exact there.trans (ih there.executing (fun c u later => begins c u (Or.inr ⟨v, taken, later⟩)) (regular.2 v taken)
      (proper.2 v taken) (elsewhere.2 v taken) later)

theorem batchElsewhere_nobody (fuel : Nat) (w : State) : BatchElsewhere (fun _ => False) c fuel w := by
  induction fuel generalizing w with
  | zero => trivial
  | succ fuel ih => exact ⟨fun _ _ _ _ _ _ _ _ => id, fun w' _ _ => ih w'⟩

theorem runElsewhere_nobody (w : State) (events : List (Kernel × Event)) : RunElsewhere (fun _ => False) w events := by
  induction events generalizing w with
  | nil => trivial
  | cons head rest ih =>
    obtain ⟨kernel, e⟩ := head
    refine ⟨?_, fun w' _ => ih w'⟩
    cases e with
    | ready c type r => exact ⟨fun _ _ _ _ _ => id, fun v _ => batchElsewhere_nobody _ v⟩
    | storage reqId => exact fun _ _ => id
    | _ => trivial

theorem properRun_append {before later : List (Kernel × Event)} (h : ProperRun lossy w (before ++ later)) :
    ProperRun lossy w before ∧ ∀ v, run w before = .ok v → ProperRun lossy v later := by
  induction before generalizing w with
  | nil =>
    refine ⟨trivial, fun v done => ?_⟩
    cases done
    exact h
  | cons head before ih =>
    refine ⟨⟨h.1, fun v taken => (ih (h.2 v taken)).1⟩, fun v done => ?_⟩
    obtain ⟨u, taken, later⟩ := run_cons_ok done
    exact (ih (h.2 u taken)).2 v later

end Executing

section Runs

variable (storageDevices : Nat) (storageFd : Nat → Nat) (files : Nat → Mem) (enableDefrag : Bool)

theorem executing_init (began : Nat → State → Prop) (lossy : Nat → Prop) :
    Executing began lossy (State.init storageDevices storageFd files enableDefrag) :=
  ⟨sound_init _ _ _ _, Nat.zero_le _, fun _ live => absurd rfl live⟩

/-- In every run on proper messages, each pending request came with a round that began in
some state of the run, and from then on exactly the tasks that its message asks for before
the command at which it stands were done for it, in their order and none twice; none is
left out of a request unless a FORWARD of its own was given up. -/
theorem program_executed {lossy : Nat → Prop} {events : List (Kernel × Event)} {w : State} {x : Nat}
    (regular : RegularRun (State.init storageDevices storageFd files enableDefrag) events)
    (proper : ProperRun lossy (State.init storageDevices storageFd files enableDefrag) events)
    (done : run (State.init storageDevices storageFd files enableDefrag) events = .ok w)
    (live : (w.reqs x).messagePtr ≠ none) :
    ∃ c u since, Begins (State.init storageDevices storageFd files enableDefrag) events c u ∧
      Underway (lossy (w.reqs x).reqId) w x c u since ∧
      List.Sublist (ownTasks x (w.reqs x).reqId since ++ tasks (ahead w.storageDevices w x))
        (tasks (text w.storageDevices w x)) ∧
      (¬ lossy (w.reqs x).reqId → tasks (text w.storageDevices w x) =
        ownTasks x (w.reqs x).reqId since ++ tasks (ahead w.storageDevices w x)) := by
  have onward := (executing_init storageDevices storageFd files enableDefrag _ lossy).run (fun _ _ => id) regular
    proper (runElsewhere_nobody _ events) done
  obtain ⟨c, u, since, came, underway⟩ := (onward.executing.known x live).origin
  exact ⟨c, u, since, came, underway, underway.goes.accounts, underway.goes.exact⟩

/-- In every run on proper messages, a pending request that no event takes up stands where it
stood, with its program, and nothing is done for it, whatever becomes of the others. -/
theorem stays_unless_taken_up {lossy : Nat → Prop} {before later : List (Kernel × Event)} {v w : State} {x : Nat}
    (regular : RegularRun (State.init storageDevices storageFd files enableDefrag) (before ++ later))
    (proper : ProperRun lossy (State.init storageDevices storageFd files enableDefrag) (before ++ later))
    (reached : run (State.init storageDevices storageFd files enableDefrag) before = .ok v)
    (live : (v.reqs x).messagePtr ≠ none) (elsewhere : RunElsewhere (fun slot => slot = x) v later)
    (done : run v later = .ok w) (pending : (w.reqs x).messagePtr ≠ none)
    (same : (w.reqs x).reqId = (v.reqs x).reqId) :
    (∀ devices, text devices w x = text devices v x ∧ ahead devices w x = ahead devices v x) ∧
      ∃ since, work w = since ++ work v ∧ ownTasks x (v.reqs x).reqId since = [] := by
  obtain ⟨regularBefore, regularLater⟩ := regularRun_append regular
  obtain ⟨properBefore, properLater⟩ := properRun_append proper
  have first := (executing_init storageDevices storageFd files enableDefrag (fun _ _ => True) lossy).run
    (fun _ _ _ => trivial) regularBefore properBefore (runElsewhere_nobody _ before) reached
  have onward := first.executing.run (fun _ _ _ => trivial) (regularLater v reached) (properLater v reached) elsewhere
    done
  rcases (onward.bystanders x rfl).stays pending with ⟨kept, idle⟩ | newer
  · exact ⟨fun devices => ⟨kept.text devices, kept.ahead devices⟩, idle⟩
  · have issued := (first.executing.known x live).issued
    omega

end Runs

/-- COMPUTE, LOAD, COMPUTE, LOAD, REPLY. -/
def fourTasks : List (Kernel × Event) :=
  clientSends (Wire.message 5 0 [.compute 7, .load 0, .compute 9, .load 0, .reply 16, .eom])

/-- The first LOAD is acknowledged. -/
def acknowledged : List (Kernel × Event) := fourTasks ++ [(.silent, .storage 0)]

theorem acknowledged_regular : RegularRun oneDevice acknowledged := regular_of_fit (by decide +kernel)

theorem acknowledged_proper : ProperRun (fun _ => False) oneDevice acknowledged := by
  refine ⟨trivial, fun accepted done => ⟨⟨fun timer => (by cases timer), fun v batch => ?_⟩,
    fun w taken => ⟨trivial, fun _ _ => trivial⟩⟩⟩
  cases done
  cases batch
  refine ⟨fun m conn taken => ?_, fun w' outcome turn => ?_⟩
  · cases taken
    exact ⟨fun type => absurd type (by decide), fun _ => ⟨by decide, by decide⟩⟩
  · cases turn
    exact ⟨fun m conn taken => (by cases taken), fun w' outcome turn => (by cases turn)⟩

theorem program_executed_four : ∃ w, run oneDevice acknowledged = .ok w ∧
    tasks (ahead w.storageDevices w 0) = [] ∧ ∃ c u since, Begins oneDevice acknowledged c u ∧
      Underway False w 0 c u since ∧
      ownTasks 0 (w.reqs 0).reqId since = [.compute 7, .storage 0, .compute 9, .storage 0] := by
  obtain ⟨w, done, live, read, rest⟩ : ∃ w, run oneDevice acknowledged = .ok w ∧ (w.reqs 0).messagePtr ≠ none ∧
      tasks (text w.storageDevices w 0) = [.compute 7, .storage 0, .compute 9, .storage 0] ∧
      tasks (ahead w.storageDevices w 0) = [] := ⟨_, rfl, by decide, by decide, by decide⟩
  obtain ⟨c, u, since, came, underway, -, whole⟩ :=
    program_executed 1 _ _ true acknowledged_regular acknowledged_proper done live
  have all := whole not_false
  rw [read, rest, List.append_nil] at all
  exact ⟨w, done, rest, c, u, since, came, underway, all.symm⟩

/-- Another client has its own request executed up to a LOAD. -/
def otherClient : List (Kernel × Event) :=
  [(.silent, .accept [10, 0, 0, 8, 0, 8] .tcp),
    (.silent, .ready 1 .socket (received (Wire.message 6 0 [.compute 3, .load 0, .reply 16, .eom])))]

theorem otherClient_regular : RegularRun oneDevice (fourTasks ++ otherClient) := regular_of_fit (by decide +kernel)

theorem otherClient_proper : ProperRun (fun _ => False) oneDevice (fourTasks ++ otherClient) := by
  refine ⟨trivial, fun u first => ⟨⟨fun timer => (by cases timer), fun v batch => ?_⟩, fun v second => ⟨trivial,
    fun w third => ⟨⟨fun timer => (by cases timer), fun b batch => ?_⟩, fun _ _ => trivial⟩⟩⟩⟩
  · cases first
    cases batch
    refine ⟨fun m conn taken => ?_, fun w' outcome turn => ?_⟩
    · cases taken
      exact ⟨fun type => absurd type (by decide), fun _ => ⟨by decide, by decide⟩⟩
    · cases turn
      exact ⟨fun m conn taken => (by cases taken), fun w' outcome turn => (by cases turn)⟩
  · cases first
    cases second
    cases third
    cases batch
    refine ⟨fun m conn taken => ?_, fun w' outcome turn => ?_⟩
    · cases taken
      exact ⟨fun type => absurd type (by decide), fun _ => ⟨by decide, by decide⟩⟩
    · cases turn
      exact ⟨fun m conn taken => (by cases taken), fun w' outcome turn => (by cases turn)⟩

theorem otherClient_elsewhere {v : State} (reached : run oneDevice fourTasks = .ok v) :
    RunElsewhere (fun slot => slot = 0) v otherClient := by
  cases reached
  refine ⟨trivial, fun accepted done => ⟨⟨fun timer => (by cases timer), fun v batch => ?_⟩, fun _ _ => trivial⟩⟩
  cases done
  cases batch
  refine ⟨fun m conn taken => ?_, fun w' outcome turn => ?_⟩
  · cases taken
    exact fun type => absurd type (by decide)
  · cases turn
    exact ⟨fun m conn taken => (by cases taken), fun w' outcome turn => (by cases turn)⟩

theorem stays_unless_taken_up_two : ∃ v w, run oneDevice fourTasks = .ok v ∧ run v otherClient = .ok w ∧
    work w = [.storage 0 1, .compute 1 3] ++ work v ∧ ahead 1 w 0 = ahead 1 v 0 := by
  obtain ⟨v, w, reached, done, live, pending, same, worked⟩ : ∃ v w, run oneDevice fourTasks = .ok v ∧
      run v otherClient = .ok w ∧ (v.reqs 0).messagePtr ≠ none ∧ (w.reqs 0).messagePtr ≠ none ∧
      (w.reqs 0).reqId = (v.reqs 0).reqId ∧ work w = [.storage 0 1, .compute 1 3] ++ work v :=
    ⟨_, _, rfl, rfl, by decide, by decide, by decide, by decide⟩
  have stands := stays_unless_taken_up 1 _ _ true otherClient_regular otherClient_proper reached live
    (otherClient_elsewhere reached) done pending same
  exact ⟨v, w, reached, done, worked, (stands.1 1).2⟩

end Execution
