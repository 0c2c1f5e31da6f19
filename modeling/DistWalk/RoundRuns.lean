import DistWalk.ProgramFrames

/-!
# The rounds of a run

A run of the worker is a sequence of events, and an event may be a batch: messages taken
from a connection round after round. What bookkeeping does not touch and every timeout,
storage acknowledgement and round keeps holds wherever a round begins and where the run ends.
-/

namespace RoundRuns

open Message Connection Worker Timeout Node Requests Transitions BufferLayout LayoutSteps LayoutRuns BufferSpace Batches
  DeadPeer ProgramFrames

/-- Rounds of one batch, each of which lets the batch go on. -/
inductive Rounds (c : Nat) : Nat → State → State → Prop
  | refl (fuel : Nat) (w : State) : Rounds c (fuel + 1) w w
  | turn {fuel : Nat} {w v u : State} {outcome : Outcome} (done : round w c = .ok (v, some (outcome, true)))
      (rest : Rounds c fuel v u) : Rounds c (fuel + 1) w u

/-- In `u` a round of a batch from connection `c` begins. -/
def Begins : State → List (Kernel × Event) → Nat → State → Prop
  | _, [], _, _ => False
  | w, (kernel, e) :: rest, c, u =>
    (∃ type r v, e = .ready c type r ∧ batchOf { w with kernel := kernel } c type r = some v ∧
      Rounds c ((v.conns c).currRecvBuf + 1) v u) ∨
      ∃ w', step w kernel e = .ok w' ∧ Begins w' rest c u

/-- A state in which the worker may handle a reply: a message has been taken in a round, or
the run is over. -/
inductive Attends (w : State) (events : List (Kernel × Event)) : State → Prop
  | taken {c m : Nat} {u : State} {conn : ConnInfo} (begins : Begins w events c u)
      (prepared : connPrepareRecvMessage (u.conns c) = .ok (some m, conn)) : Attends w events (u.setConn c conn)
  | ended {v : State} (done : run w events = .ok v) : Attends w events v

/-- The state in which `exec_request` calls `handle_timeout`. -/
def timeoutOf (w : State) (c : Nat) (type : EventType) (r : Readiness) : Option State :=
  if type ≠ .timer then none
  else if (w.conns c).status = .sslHandshake then
    match r.handshake with
    | .complete => some (w.setConn c { w.conns c with status := .ready })
    | _ => none
  else some w

/-- In `u` the timer of the worker has fired. -/
def Fires : State → List (Kernel × Event) → State → Prop
  | _, [], _ => False
  | w, (kernel, e) :: rest, u =>
    (∃ c type r, e = .ready c type r ∧ timeoutOf { w with kernel := kernel } c type r = some u) ∨
      ∃ w', step w kernel e = .ok w' ∧ Fires w' rest u

/-- What every round of a regular batch begins with. -/
structure Fit (w : State) (c : Nat) : Prop where
  opened : (w.conns c).sock ≠ none
  named : ∀ m conn, connPrepareRecvMessage (w.conns c) = .ok (some m, conn) →
    cmdAt (w.conns c).recvBuf (messageFirstCmd m) ≠ .eom → w.lastReqs ≠ noReq

/-- Whatever a step of the run does, it keeps `I`. -/
structure Preserved (I : State → Prop) (w : State) (events : List (Kernel × Event)) : Prop where
  inert : ∀ {v v' : State}, I v → Inert v v' → Leads v v' → I v'
  timer : ∀ {v v' : State}, Fires w events v → I v → handleTimeout v = .ok v' → I v'
  storage : ∀ {v v' : State} {reqId : Nat}, I v → storageAck v reqId = .ok v' → I v'
  round : ∀ {c : Nat} {v v' : State} {result : Option (Outcome × Bool)}, Begins w events c v → Fit v c → I v →
    Batches.round v c = .ok (v', result) → I v'

section Steps

variable {I : State → Prop} {w w' : State} {c : Nat} {type : EventType} {r : Readiness}

/-! ## What an event consists of -/

theorem inert_shaken (w : State) (c : Nat) : Inert w (w.setConn c { w.conns c with status := .ready }) :=
  inert_setConn c rfl

theorem batchOf_inert {v : State} (batch : batchOf w c type r = some v) : Inert w v ∧ (v.conns c).sock ≠ none := by
  simp only [batchOf] at batch
  split at batch
  · split at batch
    · obtain ⟨inert, opened⟩ := readyBatch_inert batch
      exact ⟨(inert_shaken w c).trans inert, opened⟩
    · cases batch
  · exact readyBatch_inert batch

theorem leads_batchOf {v : State} (batch : batchOf w c type r = some v) : Leads w v := by
  have ready : ∀ {w}, readyBatch w c type r = some v → Leads w v := by
    intro w batch
    simp only [readyBatch] at batch
    split at batch
    · cases batch
    · split at batch
      · cases batch
      · split at batch
        · rename_i w₁ established
          have received := leads_recvPhase w₁ c r
          split at batch
          · rename_i got
            rw [got] at received
            split at batch
            · rename_i flushed
              cases batch
              exact (leads_establishPhase established).trans (received.trans (leads_flushPhase flushed))
            · cases batch
          · cases batch
        · cases batch
  have shaken : Leads w (w.setConn c { w.conns c with status := .ready }) := leads_setConn w c (.same rfl)
  simp only [batchOf] at batch
  split at batch
  · split at batch
    · exact shaken.trans (ready batch)
    · cases batch
  · exact ready batch

theorem leads_timeoutOf {v : State} (timer : timeoutOf w c type r = some v) : Leads w v := by
  simp only [timeoutOf] at timer
  split at timer
  · cases timer
  · split at timer
    · split at timer
      · cases timer
        exact leads_setConn w c (.same rfl)
      · cases timer
    · cases timer
      exact .refl _

theorem leads_kernel (w : State) (kernel : Kernel) : Leads w { w with kernel := kernel } :=
  leads_aside ⟨rfl, rfl, rfl, rfl, rfl, rfl, rfl, rfl⟩

theorem leads_take {found : Option Nat} {conn : ConnInfo}
    (prepared : connPrepareRecvMessage (w.conns c) = .ok (found, conn)) : Leads w (w.setConn c conn) :=
  leads_setConn w c (.same (connPrepareRecvMessage_tableSide _ prepared))

theorem leads_enter {m : Nat} {v : State} {slot : Option Nat} (used : (w.conns c).busy = true)
    (added : enterRequest w c m = (v, slot)) : Leads w v := by
  have entered := Leads.one (Step.enter w c m used)
  rwa [added] at entered

theorem attempt_cases {ok : Bool} (done : attempt w c type r = .ok (w', ok)) :
    Inert w w' ∨ (∃ v, timeoutOf w c type r = some v ∧ Inert w v ∧ handleTimeout v = .ok w') ∨
      ∃ v, batchOf w c type r = some v ∧ obtainMessages v c = .ok (w', ok) := by
  simp only [attempt] at done
  simp only [timeoutOf, batchOf]
  by_cases shaking : (w.conns c).status = .sslHandshake
  · rw [if_pos shaking] at done
    simp only [if_pos shaking]
    cases answer : r.handshake with
    | failed =>
      simp only [answer] at done
      cases done
      exact Or.inl (.refl w)
    | inProgress =>
      simp only [answer] at done
      cases done
      exact Or.inl (.refl w)
    | complete =>
      simp only [answer] at done
      have shaken := inert_shaken w c
      rcases readyAttempt_inert done with ⟨rfl, expired⟩ | inert | ⟨v, batch, obtained⟩
      · exact Or.inr (Or.inl ⟨_, rfl, shaken, expired⟩)
      · exact Or.inl (shaken.trans inert)
      · exact Or.inr (Or.inr ⟨v, batch, obtained⟩)
  · rw [if_neg shaking] at done
    simp only [if_neg shaking]
    rcases readyAttempt_inert done with ⟨rfl, expired⟩ | inert | ⟨v, batch, obtained⟩
    · exact Or.inr (Or.inl ⟨w, rfl, .refl w, expired⟩)
    · exact Or.inl inert
    · exact Or.inr (Or.inr ⟨v, batch, obtained⟩)

theorem inert_kernel (w : State) (kernel : Kernel) : Inert w { w with kernel := kernel } :=
  inert_aside rfl rfl rfl (Nat.le_refl _) rfl

/-! ## Invariants of runs -/

theorem preserved_batch {fuel : Nat}
    (turn : ∀ u v result, Rounds c fuel w u → Fit u c → I u → round u c = .ok (v, result) → I v) (first : I w)
    (opened : (w.conns c).sock ≠ none) (regular : RegularBatch c fuel w) :
    (∀ w' goesOn, obtainFrom c fuel w = .ok (w', goesOn) → I w') ∧ ∀ u, Rounds c fuel w u → I u ∧ Fit u c := by
  induction fuel generalizing w with
  | zero =>
    refine ⟨fun w' goesOn done => ?_, fun u rounds => (by cases rounds)⟩
    cases done
    exact first
  | succ fuel ih =>
    have fit : Fit w c := ⟨opened, regular.1⟩
    have kept : ∀ {v result}, round w c = .ok (v, result) → I v := fun done => turn w _ _ (.refl fuel w) fit first done
    have later : ∀ {v outcome}, round w c = .ok (v, some (outcome, true)) →
        (∀ w' goesOn, obtainFrom c fuel v = .ok (w', goesOn) → I w') ∧ ∀ u, Rounds c fuel v u → I u ∧ Fit u c := by
      intro v outcome done
      obtain ⟨still, regular'⟩ := regular.2 v outcome done
      exact ih (fun u v' result rounds => turn u v' result (.turn done rounds)) (kept done) still regular'
    refine ⟨fun w' goesOn done => ?_, fun u rounds => ?_⟩
    · rw [obtainFrom_succ] at done
      cases turned : round w c with
      | error e => simp only [turned] at done; cases done
      | ok p =>
        obtain ⟨v, _ | ⟨outcome, _ | _⟩⟩ := p
        · simp only [turned] at done
          cases done
          exact kept turned
        · simp only [turned] at done
          cases done
          exact kept turned
        · simp only [turned] at done
          exact (later turned).1 w' goesOn done
    · cases rounds with
      | refl => exact ⟨first, fit⟩
      | turn done rest => exact (later done).2 u rest

variable {events : List (Kernel × Event)} {kernel : Kernel} {e : Event}

theorem Preserved.later (k : Preserved I w ((kernel, e) :: events)) (taken : step w kernel e = .ok w') :
    Preserved I w' events where
  inert := k.inert
  timer := fun fires => k.timer (Or.inr ⟨w', taken, fires⟩)
  storage := k.storage
  round := fun begins => k.round (Or.inr ⟨w', taken, begins⟩)

/-- The batch of an event. -/
theorem Preserved.batch (k : Preserved I w ((kernel, .ready c type r) :: events)) (first : I w)
    (regular : RegularEvent { w with kernel := kernel } (.ready c type r)) {v : State}
    (batch : batchOf { w with kernel := kernel } c type r = some v) :
    (∀ w' goesOn, obtainMessages v c = .ok (w', goesOn) → I w') ∧
      ∀ u, Rounds c ((v.conns c).currRecvBuf + 1) v u → I u ∧ Fit u c := by
  obtain ⟨inert, opened⟩ := batchOf_inert batch
  have before : I v := k.inert first ((inert_kernel w kernel).trans inert)
    ((leads_kernel w kernel).trans (leads_batchOf batch))
  exact preserved_batch (fun u v' result rounds => k.round (Or.inl ⟨type, r, v, rfl, batch, rounds⟩)) before opened
    (regular v batch)

theorem Preserved.step (k : Preserved I w ((kernel, e) :: events)) (first : I w) (opened : Opened w)
    (regular : RegularEvent { w with kernel := kernel } e) (done : step w kernel e = .ok w') : I w' := by
  have path := leads_kernel w kernel
  have asked : I { w with kernel := kernel } := k.inert first (inert_kernel w kernel) path
  cases e with
  | accept addr proto => exact k.inert asked (inert_acceptConn done) (takes_acceptConn done).leads
  | ready c type r =>
    have tries : ∀ {v ok}, attempt { w with kernel := kernel } c type r = .ok (v, ok) → I v := by
      intro v ok tried
      rcases attempt_cases tried with inert | ⟨u, timer, inert, expired⟩ | ⟨u, batch, obtained⟩
      · exact k.inert asked inert (leads_attempt (path.opened opened) tried)
      · exact k.timer (Or.inl ⟨c, type, r, rfl, timer⟩) (k.inert asked inert (leads_timeoutOf timer)) expired
      · exact (k.batch first regular batch).1 v ok obtained
    rcases execRequest_done done with tried | ⟨v, tried, closed⟩
    · exact tries tried
    · exact k.inert (tries tried) (inert_closeFailed closed) (takes_closeFailed closed).leads
  | storage reqId => exact k.storage asked done
  | elapse ns =>
    cases done
    exact k.inert asked (inert_aside rfl rfl rfl (Nat.le_refl _) rfl) (.one (.elapse _ ns))

/-- What the steps of a regular run keep holds at its end and where its rounds begin. -/
theorem Preserved.run (k : Preserved I w events) (first : I w) (opened : Opened w) (regular : RegularRun w events) :
    (∀ v, run w events = .ok v → I v) ∧ ∀ c u, Begins w events c u → I u ∧ Fit u c := by
  induction events generalizing w with
  | nil =>
    refine ⟨fun v done => ?_, fun c u begins => begins.elim⟩
    cases done
    exact first
  | cons head rest ih =>
    obtain ⟨kernel, e⟩ := head
    have onward : ∀ {v}, Node.step w kernel e = .ok v →
        (∀ v', Node.run v rest = .ok v' → I v') ∧ ∀ c u, Begins v rest c u → I u ∧ Fit u c :=
      fun taken => ih (k.later taken) (k.step first opened regular.1 taken)
        ((takes_step opened taken).leads.opened opened) (regular.2 _ taken)
    refine ⟨fun v' done => ?_, fun c u begins => ?_⟩
    · obtain ⟨v, taken, done⟩ := run_cons_ok done
      exact (onward taken).1 v' done
    · rcases begins with ⟨type, r, v, rfl, batch, rounds⟩ | ⟨v, taken, begins⟩
      · exact (k.batch first regular.1 batch).2 u rounds
      · exact (onward taken).2 c u begins

theorem Preserved.attends {v : State} (k : Preserved I w events) (first : I w) (opened : Opened w)
    (regular : RegularRun w events) (attends : Attends w events v) : I v := by
  obtain ⟨ends, rounds⟩ := k.run first opened regular
  cases attends with
  | taken begins prepared =>
    obtain ⟨there, fit⟩ := rounds _ _ begins
    exact k.inert there (inert_take fit.opened prepared) (leads_take prepared)
  | ended done => exact ends v done

end Steps

/-! ## The labels of a run up to a round -/

section Labels

variable {w w' u v : State} {c : Nat} {type : EventType} {r : Readiness}

theorem leads_round {result : Option (Outcome × Bool)} (used : (w.conns c).busy = true)
    (done : round w c = .ok (w', result)) : Leads w w' := by
  have enters : ∀ {m : Nat} {conn : ConnInfo} {v : State} {slot : Option Nat},
      connPrepareRecvMessage (w.conns c) = .ok (some m, conn) → enterRequest (w.setConn c conn) c m = (v, slot) →
      Leads w v := by
    intro m conn v slot prepared added
    have before := leads_take prepared
    exact before.trans (leads_enter (before.busy used) added)
  cases round_done done with
  | ended prepared => exact leads_take prepared
  | replied prepared type handled => exact (leads_take prepared).trans (leads_handleForwardReply handled)
  | refused prepared type added => exact enters prepared added
  | executed prepared type added executed => exact (enters prepared added).trans (leads_processMessages executed)

theorem leads_rounds {fuel : Nat} (used : (w.conns c).busy = true) (rounds : Rounds c fuel w u) : Leads w u := by
  induction rounds with
  | refl => exact .refl _
  | turn done rest ih =>
    have first := leads_round used done
    exact first.trans (ih (first.busy used))

/-- The states in which rounds begin are reached. -/
theorem leads_begins {events : List (Kernel × Event)} (opened : Opened w) (begins : Begins w events c u) :
    Leads w u := by
  induction events generalizing w with
  | nil => exact begins.elim
  | cons head rest ih =>
    obtain ⟨kernel, e⟩ := head
    rcases begins with ⟨type, r, v, rfl, batch, rounds⟩ | ⟨v, taken, begins⟩
    · have before := (leads_kernel w kernel).trans (leads_batchOf batch)
      exact before.trans (leads_rounds (before.opened opened c (batchOf_inert batch).2) rounds)
    · have first := (takes_step opened taken).leads
      exact first.trans (ih (first.opened opened) begins)

theorem leads_attends {events : List (Kernel × Event)} (opened : Opened w) (attends : Attends w events v) :
    Leads w v := by
  cases attends with
  | taken begins prepared =>
    exact (leads_begins opened begins).trans (leads_take prepared)
  | ended done => exact leads_run opened done

end Labels

/-! ## Checking a run -/

instance (w : State) (c : Nat) : Decidable (Fit w c) :=
  decidable_of_iff ((w.conns c).sock ≠ none ∧ ∀ p ∈ (connPrepareRecvMessage (w.conns c)).toOption, ∀ m ∈ p.1,
      cmdAt (w.conns c).recvBuf (messageFirstCmd m) ≠ .eom → w.lastReqs ≠ noReq) <| by
    refine ⟨fun h => ⟨h.1, fun m conn prepared => ?_⟩, fun h => ⟨h.opened, fun p taken m is => ?_⟩⟩
    · exact h.2 (some m, conn) (by rw [prepared]; rfl) m rfl
    · obtain ⟨found, conn⟩ := p
      cases is
      exact h.named m conn (toOption_eq_some taken)

/-- Every round of the batch begins in a state that meets `p`. -/
def batchAll (p : State → Bool) (c : Nat) : Nat → State → Bool
  | 0, w => p w
  | fuel + 1, w =>
    p w && match round w c with
      | .ok (w', some (_, true)) => batchAll p c fuel w'
      | _ => true

/-- The batch of the event meets `p` in its rounds, and the state in which its timer fires `q`. -/
def eventAll (p : Nat → State → Bool) (q : State → Bool) (w : State) : Event → Bool
  | .ready c type r =>
    ((batchOf w c type r).all fun v => batchAll (p c) c ((v.conns c).currRecvBuf + 1) v) && (timeoutOf w c type r).all q
  | _ => true

def runAll (p : Nat → State → Bool) (q : State → Bool) : State → List (Kernel × Event) → Bool
  | _, [] => true
  | w, (kernel, e) :: rest =>
    eventAll p q { w with kernel := kernel } e && (step w kernel e).toOption.all fun w' => runAll p q w' rest

section Checks

variable {c : Nat} {w w' u : State}

theorem batchAll_rounds {p : State → Bool} {fuel : Nat} (h : batchAll p c fuel w = true) (rounds : Rounds c fuel w u) :
    p u = true := by
  induction rounds with
  | refl fuel w =>
    simp only [batchAll, Bool.and_eq_true] at h
    exact h.1
  | turn done rest ih =>
    simp only [batchAll, done, Bool.and_eq_true] at h
    exact ih h.2

theorem batchAll_regular {p : State → Bool} (fits : ∀ v, p v = true → Fit v c) {fuel : Nat}
    (h : batchAll p c fuel w = true) : Fit w c ∧ RegularBatch c fuel w := by
  induction fuel generalizing w with
  | zero => exact ⟨fits w h, trivial⟩
  | succ fuel ih =>
    simp only [batchAll, Bool.and_eq_true] at h
    have fit := fits w h.1
    refine ⟨fit, fit.named, fun v outcome done => ?_⟩
    rw [done] at h
    obtain ⟨fit', regular⟩ := ih h.2
    exact ⟨fit'.opened, regular⟩

variable {p : Nat → State → Bool} {q : State → Bool} {events : List (Kernel × Event)}

theorem runAll_cons {kernel : Kernel} {e : Event} (h : runAll p q w ((kernel, e) :: events) = true) :
    eventAll p q { w with kernel := kernel } e = true ∧
      ∀ v, step w kernel e = .ok v → runAll p q v events = true := by
  simp only [runAll, Bool.and_eq_true] at h
  refine ⟨h.1, fun v taken => ?_⟩
  rw [taken] at h
  exact h.2

theorem runAll_begins (h : runAll p q w events = true) (begins : Begins w events c u) : p c u = true := by
  induction events generalizing w with
  | nil => exact begins.elim
  | cons head rest ih =>
    obtain ⟨here, later⟩ := runAll_cons h
    rcases begins with ⟨type, r, v, e, batch, rounds⟩ | ⟨v, taken, begins⟩
    · simp only [e, eventAll, batch, Option.all_some, Bool.and_eq_true] at here
      exact batchAll_rounds here.1 rounds
    · exact ih (later v taken) begins

theorem runAll_fires (h : runAll p q w events = true) (fires : Fires w events u) : q u = true := by
  induction events generalizing w with
  | nil => exact fires.elim
  | cons head rest ih =>
    obtain ⟨here, later⟩ := runAll_cons h
    rcases fires with ⟨c, type, r, e, timer⟩ | ⟨v, taken, fires⟩
    · simp only [e, eventAll, timer, Option.all_some, Bool.and_eq_true] at here
      exact here.2
    · exact ih (later v taken) fires

theorem runAll_regular (fits : ∀ c v, p c v = true → Fit v c) (h : runAll p q w events = true) :
    RegularRun w events := by
  induction events generalizing w with
  | nil => trivial
  | cons head rest ih =>
    obtain ⟨kernel, e⟩ := head
    obtain ⟨here, later⟩ := runAll_cons h
    refine ⟨?_, fun v taken => ih (later v taken)⟩
    cases e with
    | ready c type r =>
      intro v batch
      simp only [eventAll, batch, Option.all_some, Bool.and_eq_true] at here
      exact (batchAll_regular (fits c) here.1).2
    | _ => trivial

theorem regular_of_fit (h : runAll (fun c u => decide (Fit u c)) (fun _ => true) w events = true) :
    RegularRun w events :=
  runAll_regular (fun _ _ meets => of_decide_eq_true meets) h

end Checks

end RoundRuns
