import DistWalk.ProgramFrames

/-!
# A request is taken up

Whatever resumes a request, it goes past the tasks that it need not wait for and stops at
the next that it must, at a FORWARD, or at its REPLY. So one turn of a request does tasks
of its own program only, in the order of the program, and moves no other request.
-/

namespace Turns

open ByteMemory Message Connection PriorityQueue Worker Timeout Node Requests Transitions ReceiveQueue BufferLayout
  LayoutSteps LayoutRuns Forwarding Walkers BoundedReads Programs Relocation CurrentCommands ReturnCodes Batches
  ProgramFrames

/-! ## Tasks of one request -/

/-- A computation is known by the slot, a storage request by the id. -/
def taskOf (slot reqId : Nat) : Effect → Option Task
  | .compute s usecs => if s = slot then some (.compute usecs) else none
  | .storage devId id => if id = reqId then some (.storage devId) else none
  | _ => none

/-- The tasks of one request among those done, in the order in which they were done. -/
def ownTasks (slot reqId : Nat) (done : List Effect) : List Task := done.reverse.filterMap (taskOf slot reqId)

/-- Done for the request in `slot` and for no other. -/
def Own (slot reqId : Nat) : Effect → Prop
  | .compute s _ => s = slot
  | .storage _ id => id = reqId
  | _ => False

section Tasks

variable {slot reqId x id : Nat}

@[simp] theorem ownTasks_nil : ownTasks slot reqId [] = [] := rfl

theorem ownTasks_append (later earlier : List Effect) :
    ownTasks slot reqId (later ++ earlier) = ownTasks slot reqId earlier ++ ownTasks slot reqId later := by
  rw [ownTasks, List.reverse_append, List.filterMap_append, ownTasks, ownTasks]

@[simp] theorem ownTasks_compute (usecs : Nat) : ownTasks slot reqId [.compute slot usecs] = [.compute usecs] := by
  simp [ownTasks, taskOf]

@[simp] theorem ownTasks_storage (devId : Nat) : ownTasks slot reqId [.storage devId reqId] = [.storage devId] := by
  simp [ownTasks, taskOf]

theorem Own.isTask {e : Effect} (h : Own slot reqId e) : isTask e = true := by
  cases e with
  | compute s usecs => rfl
  | storage devId id => rfl
  | _ => cases h

theorem ownTasks_foreign {done : List Effect} (h : ∀ e ∈ done, Own slot reqId e) (other : x ≠ slot) (id_ : id ≠ reqId) :
    ownTasks x id done = [] := by
  rw [ownTasks, List.filterMap_eq_nil_iff]
  intro e member
  have own := h e (List.mem_reverse.mp member)
  cases e with
  | compute s usecs =>
    cases own
    exact if_neg other.symm
  | storage devId s =>
    cases own
    exact if_neg id_.symm
  | _ => cases own

end Tasks

theorem work_after {w : State} {effects : List Effect} {slot reqId : Nat} (own : ∀ e ∈ effects, Own slot reqId e) :
    work (after w effects) = effects ++ work w := by
  rw [work, work, after, List.filter_append, List.filter_eq_self.mpr fun e member => (own e member).isTask]

/-! ## The loop -/

/-- Where the loop ends that has done `effects` and come to the command `stop`. -/
inductive Leaves (mem : Mem) (slot m : Nat) (w : State) (effects : List Effect) (stop : Nat) : State → Prop
  | waits {devId : Nat} (type : instrAt mem w.storageDevices stop = .task (.storage devId) true) :
      Leaves mem slot m w effects stop (setCurrCmd (after w (.storage devId (w.reqs slot).reqId :: effects)) slot
        (cmdBoundedSkip mem (some stop) 1 (messageEnd mem m)))
  | forwards {w' : State} {sent : Bool} (type : cmdAt mem stop = .forwardBegin)
      (started : startForward (setCurrCmd (after w effects) slot (some stop)) slot m stop = .ok (w', sent)) :
      Leaves mem slot m w effects stop w'
  | replies {w' : State} {ret : Int} (type : cmdAt mem stop = .reply)
      (replied : processReply (after w effects) slot m stop = .ok (w', ret)) : Leaves mem slot m w effects stop w'

theorem Leaves.passed {mem : Mem} {slot m stop : Nat} {w w' : State} {e : Effect} {effects : List Effect}
    (h : Leaves mem slot m (w.emit e) effects stop w') : Leaves mem slot m w (effects ++ [e]) stop w' := by
  cases h with
  | waits type =>
    rw [after_emit]
    exact .waits type
  | forwards type started =>
    rw [after_emit] at started
    exact .forwards type started
  | replies type replied =>
    rw [after_emit] at replied
    exact .replies type replied

/-- The loop has gone past the tasks before `stop`, and done them. -/
structure Reaches (mem : Mem) (devices msgEnd slot reqId cmd : Nat) (effects : List Effect) (stop : Nat) : Prop where
  own : ∀ e ∈ effects, Own slot reqId e
  behind : cmd ≤ stop
  inside : cmdInBounds mem stop msgEnd = true
  goes : ∀ lossy, Goes lossy (program mem devices msgEnd (some cmd)) (ownTasks slot reqId effects)
    (program mem devices msgEnd (some stop))

section Loop

variable {mem : Mem} {devices msgEnd slot reqId m : Nat} {w w' : State} {ret : Int}

theorem Reaches.here {cmd : Nat} (inside : cmdInBounds mem cmd msgEnd = true) :
    Reaches mem devices msgEnd slot reqId cmd [] cmd :=
  ⟨fun e member => (by cases member), Nat.le_refl _, inside, fun _ => .refl _⟩

theorem Reaches.past {cmd next stop : Nat} {e : Effect} {t : Task} {effects : List Effect}
    (h : Reaches mem devices msgEnd slot reqId next effects stop)
    (type : program mem devices msgEnd (some cmd) = .task t false :: program mem devices msgEnd (some next))
    (own : Own slot reqId e) (is : ownTasks slot reqId [e] = [t]) (behind : cmd ≤ next) :
    Reaches mem devices msgEnd slot reqId cmd (effects ++ [e]) stop where
  own := by
    intro d member
    rcases List.mem_append.mp member with later | first
    · exact h.own d later
    · rw [List.mem_singleton.mp first]
      exact own
  behind := behind.trans h.behind
  inside := h.inside
  goes := by
    intro lossy
    rw [type, ownTasks_append, is]
    exact .task (h.goes lossy)

/-- A command that the loop goes past is followed by one that is not the end. -/
theorem exists_next {cmd : Nat} {t : Task} (proper : Proper (program mem devices msgEnd (some cmd)))
    (inside : cmdInBounds mem cmd msgEnd = true) (type : instrAt mem devices cmd = .task t false) :
    ∃ next, cmdBoundedSkip mem (some cmd) 1 msgEnd = some next ∧ cmd ≤ next ∧
      cmdInBounds mem next msgEnd = true ∧ cmdAt mem next ≠ .eom ∧
      program mem devices msgEnd (some cmd) = .task t false :: program mem devices msgEnd (some next) ∧
      Proper (program mem devices msgEnd (some next)) := by
  have here := @program_cons mem devices msgEnd cmd inside
  rw [type] at here
  rw [here] at proper
  obtain ⟨-, followed, later⟩ := proper
  obtain ⟨j, found, goesOn⟩ := followed rfl
  cases step : cmdBoundedSkip mem (some cmd) 1 msgEnd with
  | none =>
    rw [step, program_none] at found
    cases found
  | some next =>
    rw [step] at found later here
    obtain ⟨further, there⟩ := cmdBoundedSkip_spec step
    refine ⟨next, rfl, further.le, there, fun eom => goesOn ?_, here, later⟩
    rw [program_cons there, List.head?_cons, Option.mem_some_iff] at found
    rw [← found, instrAt, eom]

/-- The loop does nothing at the end of a message, or does tasks and leaves. -/
theorem leaves_of_processFrom {fuel cmd : Nat} (enough : messageEnd mem m - cmd < fuel)
    (inside : cmdInBounds mem cmd (messageEnd mem m) = true)
    (proper : Proper (program mem w.storageDevices (messageEnd mem m) (some cmd)))
    (done : processFrom mem slot m fuel w (some cmd) = .ok (w', ret)) :
    (cmdAt mem cmd = .eom ∧ w' = w) ∨
      ∃ effects stop, Reaches mem w.storageDevices (messageEnd mem m) slot (w.reqs slot).reqId cmd effects stop ∧
        Leaves mem slot m w effects stop w' := by
  induction fuel generalizing w cmd with
  | zero => exact absurd enough (Nat.not_lt_zero _)
  | succ fuel ih =>
    have sane := proper
    rw [program_cons inside] at sane
    -- past a task that is not waited for, the rest of the loop
    have onward : ∀ {e : Effect} {t : Task}, instrAt mem w.storageDevices cmd = .task t false →
        Own slot (w.reqs slot).reqId e → ownTasks slot (w.reqs slot).reqId [e] = [t] →
        processFrom mem slot m fuel (w.emit e) (cmdBoundedSkip mem (some cmd) 1 (messageEnd mem m)) = .ok (w', ret) →
        ∃ effects stop, Reaches mem w.storageDevices (messageEnd mem m) slot (w.reqs slot).reqId cmd effects stop ∧
          Leaves mem slot m w effects stop w' := by
      intro e t type own is rest
      obtain ⟨next, step, behind, there, notEnd, here, later⟩ := exists_next proper inside type
      have further := (cmdBoundedSkip_spec step).1
      have bound := lt_end_of_inBounds inside
      rw [step] at rest
      rcases @ih (w.emit e) next (by omega) there later rest with ⟨eom, -⟩ | ⟨effects, stop, reaches, leaves⟩
      · exact absurd eom notEnd
      · exact ⟨effects ++ [e], stop, reaches.past here own is behind, leaves.passed⟩
    cases type : cmdAt mem cmd with
    | eom =>
      simp only [processFrom, type] at done
      cases done
      exact Or.inl ⟨rfl, rfl⟩
    | compute =>
      simp only [processFrom, type] at done
      have own : Own slot (w.reqs slot).reqId (.compute slot (compTimeUs mem cmd)) := rfl
      exact Or.inr (onward (by rw [instrAt, type]) own (ownTasks_compute _) done)
    | forwardBegin =>
      simp only [processFrom, type] at done
      obtain ⟨⟨v, sent⟩, started, paired⟩ := map_eq_ok.mp done
      cases paired
      exact Or.inr ⟨[], cmd, .here inside, .forwards type started⟩
    | reply =>
      simp only [processFrom, type] at done
      exact Or.inr ⟨[], cmd, .here inside, .replies type done⟩
    | store =>
      simp only [processFrom, type] at done
      split at done
      · rename_i missing
        exact absurd (by rw [instrAt, type]; exact if_neg (Nat.not_lt.mpr missing)) sane.1
      · rename_i known
        have read : instrAt mem w.storageDevices cmd =
            .task (.storage (storageDevice mem cmd)) (storeWaitSync mem cmd ≠ 0) := by
          rw [instrAt, type]
          exact if_pos (Nat.lt_of_not_le known)
        split at done
        · rename_i nosync
          have own : Own slot (w.reqs slot).reqId (.storage (storageDevice mem cmd) (w.reqs slot).reqId) := rfl
          refine Or.inr (onward ?_ own (ownTasks_storage _) done)
          rw [read, nosync]
          rfl
        · rename_i sync
          cases done
          rw [← cmdBoundedSkip_plain (Or.inl type)]
          refine Or.inr ⟨[], cmd, .here inside, .waits ?_⟩
          rw [read, decide_eq_true sync]
    | load =>
      simp only [processFrom, type] at done
      split at done
      · rename_i missing
        exact absurd (by rw [instrAt, type]; exact if_neg (Nat.not_lt.mpr missing)) sane.1
      · rename_i known
        cases done
        rw [← cmdBoundedSkip_plain (Or.inr type)]
        refine Or.inr ⟨[], cmd, .here inside, .waits ?_⟩
        rw [instrAt, type]
        exact if_pos (Nat.lt_of_not_le known)
    | forwardContinue => exact absurd (by rw [instrAt, type]) sane.1
    | pskip => exact absurd (by rw [instrAt, type]) sane.1
    | unknown code => exact absurd (by rw [instrAt, type]) sane.1

end Loop

/-! ## Turns -/

/-- What lies ahead of the request is in order, and its current command is part of it. -/
def Ready (w : State) (x : Nat) : Prop :=
  Proper (ahead w.storageDevices w x) ∧ ((w.reqs x).currCmd ≠ none → ahead w.storageDevices w x ≠ [])

/-- The request has gone on in its program with the tasks among `done`. -/
structure Advanced (lossy : Prop) (w w' : State) (x : Nat) (done : List Effect) : Prop where
  live : (w.reqs x).messagePtr ≠ none
  reqId : (w'.reqs x).reqId = (w.reqs x).reqId
  text : ∀ devices, text devices w' x = text devices w x
  goes : Goes lossy (ahead w.storageDevices w x) (ownTasks x (w.reqs x).reqId done) (ahead w.storageDevices w' x)
  begun : (w'.reqs x).currCmd ≠ none → ahead w.storageDevices w' x ≠ []

/-- One request is taken up, and goes on in its program or is gone; no other is touched. -/
structure Turn (lossy : Prop) (slot : Nat) (w w' : State) : Prop where
  sound : Sound w'
  devices : w'.storageDevices = w.storageDevices
  lastReqs : w'.lastReqs = w.lastReqs
  others : ∀ x, x ≠ slot → (w'.reqs x).messagePtr ≠ none → Kept w w' x
  own : ∃ done, work w' = done ++ work w ∧ (∀ e ∈ done, Own slot (w.reqs slot).reqId e) ∧
    ((w'.reqs slot).messagePtr ≠ none → Advanced lossy w w' slot done)

section Turn

variable {lossy : Prop} {slot m : Nat} {w v w' : State}

theorem advanced_kept {x : Nat} (h : Kept w w' x) (ready : Ready w x) : Advanced lossy w w' x [] where
  live := h.live
  reqId := h.reqId
  text := h.text
  goes := by
    rw [h.ahead]
    exact .refl _
  begun := by
    rw [h.ahead]
    exact ready.2 ∘ h.begun

theorem turn_idle (h : Idle w w') (sound : Sound w) (ready : Ready w slot) : Turn lossy slot w w' := by
  obtain ⟨there, alike, same⟩ := h sound
  obtain ⟨devices, lastReqs, worked⟩ := ledger_eq same
  refine ⟨there, devices, lastReqs, fun x _ live => alike x live, [], worked, ?_, ?_⟩
  · exact fun e member => by cases member
  · exact fun live => advanced_kept (alike slot live) ready

theorem Turn.idle (h : Turn lossy slot w v) (i : Idle v w') : Turn lossy slot w w' := by
  obtain ⟨there, alike, same⟩ := i h.sound
  obtain ⟨devices, lastReqs, unworked⟩ := ledger_eq same
  obtain ⟨done, worked, own, advanced⟩ := h.own
  refine ⟨there, devices.trans h.devices, lastReqs.trans h.lastReqs, fun x other live => ?_, done, ?_, own,
    fun live => ?_⟩
  · exact (h.others x other (alike x live).live).trans (alike x live)
  · exact unworked.trans worked
  · have kept := alike slot live
    have before := advanced kept.live
    refine ⟨before.live, kept.reqId.trans before.reqId, fun d => (kept.text d).trans (before.text d), ?_, ?_⟩
    · rw [kept.ahead]
      exact before.goes
    · rw [kept.ahead]
      exact before.begun ∘ kept.begun

theorem Turn.after_idle (h : Turn lossy slot v w') (i : Idle w v) (sound : Sound w)
    (live : (v.reqs slot).messagePtr ≠ none) : Turn lossy slot w w' := by
  obtain ⟨-, alike, same⟩ := i sound
  obtain ⟨done, worked, own, advanced⟩ := h.own
  have kept := alike slot live
  obtain ⟨devices, lastReqs, unworked⟩ := ledger_eq same
  rw [kept.reqId] at own
  refine ⟨h.sound, h.devices.trans devices, h.lastReqs.trans lastReqs, fun x other live => ?_, done, ?_, own,
    fun live => ?_⟩
  · exact (alike x (h.others x other live).live).trans (h.others x other live)
  · exact worked.trans (congrArg _ unworked)
  · have later := advanced live
    refine ⟨kept.live, later.reqId.trans kept.reqId, fun d => (later.text d).trans (kept.text d), ?_, ?_⟩
    · have goes := later.goes
      rwa [devices, kept.ahead, kept.reqId] at goes
    · have begun := later.begun
      rwa [devices] at begun

theorem ready_idle (i : Idle w v) (sound : Sound w) (live : (v.reqs slot).messagePtr ≠ none) (ready : Ready w slot) :
    Ready v slot := by
  obtain ⟨-, alike, same⟩ := i sound
  have kept := alike slot live
  rw [Ready, (ledger_eq same).1, kept.ahead]
  exact ⟨ready.1, ready.2 ∘ kept.begun⟩

/-- Two turns of one request in a row. -/
theorem Turn.trans (h : Turn lossy slot w v) (h' : Turn lossy slot v w') (live : (v.reqs slot).messagePtr ≠ none) :
    Turn lossy slot w w' := by
  obtain ⟨done, worked, own, advanced⟩ := h.own
  obtain ⟨done', worked', own', advanced'⟩ := h'.own
  have first := advanced live
  rw [first.reqId] at own'
  refine ⟨h'.sound, h'.devices.trans h.devices, h'.lastReqs.trans h.lastReqs, fun x other live => ?_, done' ++ done,
    ?_, ?_, fun live => ?_⟩
  · exact (h.others x other (h'.others x other live).live).trans (h'.others x other live)
  · rw [worked', worked, List.append_assoc]
  · exact fun e member => (List.mem_append.mp member).elim (own' e) (own e)
  · have second := advanced' live
    refine ⟨first.live, second.reqId.trans first.reqId, fun d => (second.text d).trans (first.text d), ?_, ?_⟩
    · have goes := second.goes
      rw [h.devices, first.reqId] at goes
      rw [ownTasks_append]
      exact first.goes.trans goes
    · have begun := second.begun
      rwa [h.devices] at begun

theorem Turn.ready (h : Turn lossy slot w v) (ready : Ready w slot) (live : (v.reqs slot).messagePtr ≠ none) :
    Ready v slot := by
  obtain ⟨done, -, -, advanced⟩ := h.own
  have first := advanced live
  rw [Ready, h.devices]
  exact ⟨ready.1.suffix first.goes.suffix, first.begun⟩

/-- What is done for one request leaves the others where they are. -/
theorem kept_setReq {x : Nat} {effects : List Effect} {r : ReqInfo} (other : x ≠ slot)
    (live : (w.reqs x).messagePtr ≠ none) : Kept w ((after w effects).setReq slot r) x := by
  have same : ((after w effects).setReq slot r).reqs x = w.reqs x := setReq_other _ _ other
  refine kept_same (by rwa [same]) (by rw [same]) (by rw [same]) ?_
  rw [reqMem, same]
  rfl

/-- The request moves on to another command of its message, with some tasks done. -/
theorem turn_moves {effects : List Effect} {r : ReqInfo} (sound : Sound w) (placed : (w.reqs slot).messagePtr = some m)
    (same : place r = place (w.reqs slot)) (id : r.reqId = (w.reqs slot).reqId) (further : Further w slot r.currCmd)
    (own : ∀ e ∈ effects, Own slot (w.reqs slot).reqId e)
    (goes : Goes lossy (ahead w.storageDevices w slot) (ownTasks slot (w.reqs slot).reqId effects)
      (program (reqMem w slot) w.storageDevices (messageEnd (reqMem w slot) m) r.currCmd))
    (inside : ∀ c, r.currCmd = some c → cmdInBounds (reqMem w slot) c (messageEnd (reqMem w slot) m) = true) :
    Turn lossy slot w ((after w effects).setReq slot r) := by
  obtain ⟨home, message, -⟩ := place_eq same
  have still : Still w (after w effects) := still_after w effects
  have here : ((after w effects).setReq slot r).reqs slot = r := setReq_self _ _ _
  have mem : reqMem ((after w effects).setReq slot r) slot = reqMem w slot := by
    rw [reqMem, here, home]
    rfl
  have placed' : (((after w effects).setReq slot r).reqs slot).messagePtr = some m := by
    rw [here, message, placed]
  have there : ∀ devices, ahead devices ((after w effects).setReq slot r) slot =
      program (reqMem w slot) devices (messageEnd (reqMem w slot) m) r.currCmd := fun devices => by
    rw [ahead, programAt_placed placed', mem, here]
  refine ⟨?_, rfl, rfl, fun x other live => ?_, effects, ?_, own, fun live => ?_⟩
  · exact course_sound.advance (after w effects) slot r same id further (course_sound.still still sound)
  · rw [setReq_other _ _ other] at live
    exact kept_setReq other live
  · exact work_after own
  · refine ⟨by rw [placed]; exact Option.some_ne_none m, by rw [here]; exact id, fun devices => ?_, ?_, ?_⟩
    · rw [text, text, programAt_placed placed', programAt_placed placed, mem]
    · rw [there]
      exact goes
    · rw [there, here]
      intro some
      obtain ⟨c, current⟩ := Option.ne_none_iff_exists'.mp some
      rw [current, program_cons (inside c current)]
      exact List.cons_ne_nil _ _

theorem turn_processSingleMessage {ret : Int} (sound : Sound w) (placed : (w.reqs slot).messagePtr = some m)
    (ready : Ready w slot) (done : processSingleMessage w slot = .ok (w', ret)) : Turn lossy slot w w' := by
  have whole := @programAt_placed w slot m w.storageDevices (fun _ => (w.reqs slot).currCmd) placed
  simp only [processSingleMessage, placed] at done
  cases current : (w.reqs slot).currCmd with
  | none =>
    rw [current] at done
    cases done
    exact turn_idle (.refl w) sound ready
  | some cmd =>
    rw [current] at done whole
    have inside : cmdInBounds (reqMem w slot) cmd (messageEnd (reqMem w slot) m) = true := by
      by_contra outside
      refine ready.2 (by rw [current]; exact Option.some_ne_none cmd) ?_
      rw [ahead, current, whole]
      exact program_outside (Bool.eq_false_iff.mpr outside)
    have lies : ahead w.storageDevices w slot =
        program (reqMem w slot) w.storageDevices (messageEnd (reqMem w slot) m) (some cmd) := by
      rw [ahead, current, whole]
    have proper := ready.1
    rw [lies] at proper
    rcases leaves_of_processFrom (by omega) inside proper done with ⟨-, rfl⟩ | ⟨effects, stop, reaches, leaves⟩
    · exact turn_idle (.refl w') sound ready
    · have onward : ∀ d, some stop = some d → ∃ c, (w.reqs slot).currCmd = some c ∧ c ≤ d := fun d e => by
        cases e
        exact ⟨cmd, current, reaches.behind⟩
      have goes := reaches.goes lossy
      rw [← lies] at goes
      cases leaves with
      | @waits devId type =>
        refine turn_moves sound placed rfl rfl ?_ ?_ ?_ fun c step => ?_
        · exact Further.skip onward 1
        · exact fun e member => (List.mem_cons.mp member).elim (fun same => by rw [same]; rfl) (reaches.own e)
        · rw [show Effect.storage devId (w.reqs slot).reqId :: effects =
            [.storage devId (w.reqs slot).reqId] ++ effects from rfl, ownTasks_append, ownTasks_storage]
          rw [program_cons reaches.inside, type] at goes
          exact goes.trans (.one (.work _ _ _))
        · exact (cmdBoundedSkip_spec step).2
      | forwards type started =>
        have moved : Turn lossy slot w (setCurrCmd (after w effects) slot (some stop)) :=
          turn_moves sound placed rfl rfl onward reaches.own goes fun c e => by
            cases e
            exact reaches.inside
        exact moved.idle (idle_startForward started)
      | replies type replied =>
        have gone := processReply_gone replied
        obtain ⟨there, alike, same⟩ := (inert_processReply (w := after w effects) placed replied).idle
          (course_sound.still (still_after w effects) sound)
        obtain ⟨devices, lastReqs, unworked⟩ := ledger_eq same
        refine ⟨there, devices, lastReqs, fun x other live => ?_, effects, ?_, reaches.own, fun live => ?_⟩
        · have kept := alike x live
          exact (alike_still (still_after w effects) x kept.live).trans kept
        · exact unworked.trans (work_after reaches.own)
        · exact absurd gone live

/-! ## Replies to forwards -/

/-- The request waits for the replies to a FORWARD, with `p` behind it. -/
def Awaits (w : State) (x : Nat) (p : List (Instr Task)) : Prop := ahead w.storageDevices w x = .forward :: p

theorem Awaits.current {p : List (Instr Task)} (h : Awaits w slot p) (placed : (w.reqs slot).messagePtr = some m) :
    ∃ cmd, (w.reqs slot).currCmd = some cmd ∧
      cmdInBounds (reqMem w slot) cmd (messageEnd (reqMem w slot) m) = true ∧
      ∀ k : Nat, program (reqMem w slot) w.storageDevices (messageEnd (reqMem w slot) m)
        (cmdBoundedSkip (reqMem w slot) (some cmd) k (messageEnd (reqMem w slot) m)) =
          (Instr.forward :: p).drop k := by
  rw [Awaits, ahead, programAt_placed placed] at h
  cases current : (w.reqs slot).currCmd with
  | none =>
    rw [current, program_none] at h
    cases h
  | some cmd =>
    rw [current] at h
    have inside : cmdInBounds (reqMem w slot) cmd (messageEnd (reqMem w slot) m) = true := by
      by_contra outside
      rw [program_outside (Bool.eq_false_iff.mpr outside)] at h
      cases h
    exact ⟨cmd, rfl, inside, fun k => by rw [program_skip inside, h]⟩

theorem Awaits.idle {p : List (Instr Task)} (h : Awaits w slot p) (i : Idle w v) (sound : Sound w)
    (live : (v.reqs slot).messagePtr ≠ none) : Awaits v slot p := by
  obtain ⟨-, alike, same⟩ := i sound
  rw [Awaits, (ledger_eq same).1, (alike slot live).ahead]
  exact h

/-- A request that waits moves on past `k` contexts. -/
theorem turn_skips {p : List (Instr Task)} {k : Nat} {r : ReqInfo} (sound : Sound w) (awaits : Awaits w slot p)
    (placed : (w.reqs slot).messagePtr = some m) (allowed : k ≠ 1 → lossy) (some_ : k ≠ 0)
    (same : place r = place (w.reqs slot)) (id : r.reqId = (w.reqs slot).reqId)
    (skipped : r.currCmd = cmdBoundedSkip (reqMem w slot) (w.reqs slot).currCmd k (messageEnd (reqMem w slot) m)) :
    Turn lossy slot w (w.setReq slot r) := by
  obtain ⟨cmd, current, inside, skips⟩ := awaits.current placed
  rw [current] at skipped
  refine @turn_moves lossy slot m w [] r sound placed same id ?_ (fun e member => by cases member) ?_ fun c e => ?_
  · rw [skipped, ← current]
    exact (further_currCmd w slot).skip _
  · rw [skipped, skips, show ahead w.storageDevices w slot = .forward :: p from awaits]
    obtain ⟨n, rfl⟩ := Nat.exists_eq_succ_of_ne_zero some_
    by_cases one : n = 0
    · subst one
      exact .one (.answered p)
    · exact .one (.givenUp p n (allowed (by omega)))
  · rw [skipped] at e
    exact cmdBoundedSkip_inBounds e

theorem turn_resumeAfterContext {p : List (Instr Task)} {reqId status : Nat} {ret : Int} (sound : Sound w)
    (placed : (w.reqs slot).messagePtr = some m) (ready : Ready w slot) (awaits : Awaits w slot p)
    (done : resumeAfterContext w reqId slot m status = .ok (w', ret)) : Turn lossy slot w w' := by
  have live : (w.reqs slot).messagePtr ≠ none := by rw [placed]; exact Option.some_ne_none m
  have told := idle_setMsgStatus status placed
  have there : ((setMsgStatus w slot m status).reqs slot).messagePtr = some m := placed
  have completed : Turn lossy slot (setMsgStatus w slot m status) (completeContext w slot m status) :=
    turn_skips (told sound).1 (awaits.idle told sound live) there (fun e => absurd rfl e) one_ne_zero rfl rfl rfl
  have first := completed.after_idle told sound live
  have placed' : ((completeContext w slot m status).reqs slot).messagePtr = some m := by
    rw [completeContext, setReq_self]
    exact placed
  have live' : ((completeContext w slot m status).reqs slot).messagePtr ≠ none := by
    rw [placed']
    exact Option.some_ne_none m
  simp only [resumeAfterContext] at done
  split at done
  · cases done
  · rename_i u left removed
    have cancelled := first.idle (inert_removeTimeout removed).idle
    have same := (place_eq ((still_removeTimeout removed).reqs slot)).2.1
    have placed'' : (u.reqs slot).messagePtr = some m := same.trans placed'
    have live'' : (u.reqs slot).messagePtr ≠ none := by rw [same]; exact live'
    exact cancelled.trans
      (turn_processSingleMessage cancelled.sound placed'' (cancelled.ready ready live'') done) live''

/-- A reply that completes a context takes up its request; any other changes no program. -/
theorem turn_handleForwardReply (lossy : Nat → Prop) {reqId status : Nat} {matchAddr : Addr} {ret : Int}
    (sound : Sound w) (ready : ∀ x, (w.reqs x).messagePtr ≠ none → Ready w x)
    (awaits : ∀ slot m id, completion w reqId matchAddr = some (slot, m, id) → ∃ p, Awaits w slot p)
    (done : handleForwardReply w reqId status matchAddr = .ok (w', ret)) :
    Idle w w' ∨ ∃ slot m id, completion w reqId matchAddr = some (slot, m, id) ∧
      (w.reqs slot).messagePtr = some m ∧ Turn (lossy (w.reqs slot).reqId) slot w w' := by
  simp only [Node.handleForwardReply] at done
  split at done
  · cases done
    exact Or.inl (.refl w)
  · rename_i slot found
    split at done
    · cases done
    · rename_i m placed
      have live : (w.reqs slot).messagePtr ≠ none := by rw [placed]; exact Option.some_ne_none m
      split at done
      · cases done
      · cases done
        exact Or.inl (.refl w)
      · rename_i id search
        have counted : Idle w (countReply w slot id) := idle_still (still_countReply w slot id) rfl
        have same : (countReply w slot id).reqs slot = { w.reqs slot with
            fwdRepliesMask := (w.reqs slot).fwdRepliesMask ||| ackBit id
            fwdRepliesLeft := (w.reqs slot).fwdRepliesLeft - 1 } := setReq_self _ _ _
        split at done
        · cases done
          exact Or.inl (.refl w)
        · rename_i fresh
          split at done
          · rename_i last
            have reached : (w.reqs slot).fwdRepliesLeft - 1 ≤ 0 := by rwa [same] at last
            have completed : completion w reqId matchAddr = some (slot, m, id) := by
              simp only [completion, found, placed, search]
              rw [if_pos ⟨by simpa using fresh, by omega⟩]
            obtain ⟨p, waits⟩ := awaits slot m id completed
            have live' : ((countReply w slot id).reqs slot).messagePtr ≠ none := by rw [same]; exact live
            refine Or.inr ⟨slot, m, id, completed, placed, ?_⟩
            have waits' := waits.idle counted sound live'
            refine Turn.after_idle (turn_resumeAfterContext (counted sound).1 ?_ ?_ waits' done) counted sound live'
            · rw [same]
              exact placed
            · exact ready_idle counted sound live' (ready slot live)
          · cases done
            exact Or.inl counted

/-! ## Timeouts -/

/-- What an expired timeout gives up is a FORWARD, and the request may lose contexts. -/
def Expires (lossy : Prop) (w : State) (slot : Nat) : Prop :=
  ¬ (w.reqs slot).fwdRetries > 0 → (w.reqs slot).fwdOnFailSkip > 0 → lossy ∧ ∃ p, Awaits w slot p

theorem turn_expireRequest (sound : Sound w) (placed : (w.reqs slot).messagePtr = some m) (ready : Ready w slot)
    (expires : Expires lossy w slot) (done : expireRequest w slot = .ok w') : Turn lossy slot w w' := by
  have live : (w.reqs slot).messagePtr ≠ none := by rw [placed]; exact Option.some_ne_none m
  simp only [expireRequest] at done
  split at done
  · obtain ⟨⟨v, r⟩, executed, paired⟩ := map_eq_ok.mp done
    cases paired
    have used : Idle w (w.setReq slot { w.reqs slot with fwdRetries := (w.reqs slot).fwdRetries - 1 }) :=
      idle_still (still_setReq w slot rfl rfl) rfl
    have placed' : ((w.setReq slot { w.reqs slot with
        fwdRetries := (w.reqs slot).fwdRetries - 1 }).reqs slot).messagePtr = some m := by
      rw [setReq_self]
      exact placed
    have live' := fun none => Option.some_ne_none m (placed'.symm.trans none)
    exact (turn_processSingleMessage (used sound).1 placed' (ready_idle used sound live' ready) executed).after_idle
      used sound live'
  · rename_i spent
    rw [placed] at done
    simp only at done
    split at done
    · rename_i skips
      obtain ⟨⟨v, r⟩, executed, paired⟩ := map_eq_ok.mp done
      cases paired
      obtain ⟨allowed, p, waits⟩ := expires spent skips
      obtain ⟨k, count⟩ := Int.eq_ofNat_of_zero_le skips.le
      have skipped : Turn lossy slot w (w.setReq slot { w.reqs slot with
          currCmd := cmdBoundedSkip (reqMem w slot) (w.reqs slot).currCmd (w.reqs slot).fwdOnFailSkip
            (messageEnd (reqMem w slot) m)
          ctx := none }) :=
        turn_skips (k := k) sound waits placed (fun _ => allowed) (by omega) rfl rfl (by rw [count])
      have there : ((w.setReq slot { w.reqs slot with
          currCmd := cmdBoundedSkip (reqMem w slot) (w.reqs slot).currCmd (w.reqs slot).fwdOnFailSkip
            (messageEnd (reqMem w slot) m)
          ctx := none }).reqs slot).messagePtr = some m := by
        rw [setReq_self]
        exact placed
      have told : Turn lossy slot w (skipOnFailure w slot m) := skipped.idle (idle_setMsgStatus statusTimeout there)
      have placed' : ((skipOnFailure w slot m).reqs slot).messagePtr = some m := there
      have live' := fun none => Option.some_ne_none m (placed'.symm.trans none)
      exact told.trans (turn_processSingleMessage told.sound placed' (told.ready ready live') executed) live'
    · cases done
      have told := idle_setMsgStatus statusTimeout placed
      have there : ((setMsgStatus w slot m statusTimeout).reqs slot).messagePtr = some m := placed
      have removed : Idle (setMsgStatus w slot m statusTimeout)
          (connReqRemove (setMsgStatus w slot m statusTimeout) (w.reqs slot).connId slot) :=
        (inert_connReqRemove there).idle
      have counted : ∀ {u : State} {n : Int}, Idle u { u with activeReqs := n } := fun {u n} =>
        idle_still (still_activeReqs u n) rfl
      exact turn_idle ((told.trans removed).trans counted) sound ready

/-- The timeout that is due takes up its request, if there is one; `lossy` has the ids of
the requests that may have a FORWARD given up. -/
theorem turn_handleTimeout {lossy : Nat → Prop} (sound : Sound w)
    (ready : ∀ x, (w.reqs x).messagePtr ≠ none → Ready w x)
    (expires : ∀ top slot, pqueueTop w.timeoutQueue = some top →
      reqGetById w (w.timeoutQueue.nodes top).data = some slot → Expires (lossy (w.reqs slot).reqId) w slot)
    (done : handleTimeout w = .ok w') :
    Idle w w' ∨ ∃ top slot, pqueueTop w.timeoutQueue = some top ∧
      reqGetById w (w.timeoutQueue.nodes top).data = some slot ∧ (w.reqs slot).messagePtr ≠ none ∧
      Turn (lossy (w.reqs slot).reqId) slot w w' := by
  simp only [handleTimeout] at done
  split at done
  · exact Or.inl (inert_timerfdSettime done).idle
  · rename_i top due
    split at done
    · exact Or.inl (inert_timerfdSettime done).idle
    · rename_i slot found
      split at done
      · cases done
      · rename_i v left removed
        have cancelled := (inert_removeTimeout removed).idle
        have still := still_removeTimeout removed
        obtain ⟨node, same⟩ := (removeTimeout_retimed removed).reqs slot
        have live' := expireRequest_placed done
        have live : (w.reqs slot).messagePtr ≠ none := by
          rw [← (place_eq (still.reqs slot)).2.1]
          exact live'
        obtain ⟨m, placed⟩ := Option.ne_none_iff_exists'.mp live'
        refine Or.inr ⟨top, slot, due, found, live, ?_⟩
        refine (turn_expireRequest (cancelled sound).1 placed (ready_idle cancelled sound live' (ready slot live))
          (fun spent skips => ?_) done).after_idle cancelled sound live'
        rw [same] at spent skips
        obtain ⟨allowed, p, waits⟩ := expires top slot due found spent skips
        exact ⟨allowed, p, waits.idle cancelled sound live'⟩

/-! ## Storage acknowledgements -/

theorem turn_storageAck (lossy : Nat → Prop) {reqId : Nat} (sound : Sound w)
    (ready : ∀ x, (w.reqs x).messagePtr ≠ none → Ready w x) (done : storageAck w reqId = .ok w') :
    Idle w w' ∨ ∃ slot, reqGetById w reqId = some slot ∧ (w.reqs slot).messagePtr ≠ none ∧
      Turn (lossy (w.reqs slot).reqId) slot w w' := by
  simp only [storageAck] at done
  split at done
  · cases done
    exact Or.inl (.refl w)
  · rename_i slot found
    obtain ⟨⟨v, r⟩, executed, paired⟩ := map_eq_ok.mp done
    cases paired
    simp only [processMessages] at executed
    cases placed : (w.reqs slot).messagePtr with
    | none =>
      simp only [processSingleMessage, placed] at executed
      cases executed
    | some m =>
      have live : (w.reqs slot).messagePtr ≠ none := by rw [placed]; exact Option.some_ne_none m
      exact Or.inr ⟨slot, found, live, turn_processSingleMessage sound placed (ready slot live) executed⟩

end Turn

end Turns
