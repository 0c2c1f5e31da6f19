import DistWalk.EventRuns
import DistWalk.ThreadStart

/-!
# Many clients at many threads

Clients connect to a node with several worker threads and keep their connections open.
However the threads take turns, each connection is served by the worker it was given to, and
as if it were the only one.
-/

namespace ThreadService

open ByteMemory Message Connection Worker Node Requests PollBackends PollTable ConnThreads ThreadPlaces Segmentation
open SendStream (memOf)
open Service (Response Elsewhere)

/-! ## One request in any slot -/

/-- The request `r` in `slot` has been executed up to the command `cmd`, with the COMPUTEs
`begun`. -/
structure InHand (node : State) (c slot cmd : Nat) (r : Request) (rest : List UInt8) (begun : List Nat) : Prop where
  holds : Holds (node.conns c) (r.bytes ++ rest) r.bytes.length (some slot)
  single : Single node c slot
  ahead : ∃ times, r.times = begun ++ times ∧
    Simple (node.conns c).recvBuf (messageEnd (node.conns c).recvBuf 0) cmd times r.opts

/-- What has changed when the request `r` in `slot` has been answered. -/
structure Done (w w' : State) (c slot : Nat) (r : Request) (out rest : List UInt8) : Prop where
  effects : w'.effects = Effect.wire c out :: w.effects
  response : Response r out
  holds : Holds (w'.conns c) rest 0 none
  next : w'.lastReqs = w.lastReqs
  freed : (w'.reqs slot).reqId = noReq
  others : ∀ s ≠ slot, w'.reqs s = w.reqs s
  elsewhere : Elsewhere w w' c

section Round

variable {w w' : State} {c slot cmd : Nat} {r : Request} {bytes rest : List UInt8} {begun : List Nat}

theorem InHand.congr (h : InHand w c slot cmd r rest begun) (conn : w'.conns c = w.conns c)
    (reqs : w'.reqs slot = w.reqs slot) : InHand w' c slot cmd r rest begun := by
  refine ⟨conn ▸ h.holds, ?_, conn ▸ h.ahead⟩
  exact ⟨reqs ▸ h.single.conn, reqs ▸ h.single.message, reqs ▸ h.single.prev, reqs ▸ h.single.next⟩

/-- A request that has just been taken is at its first command. -/
theorem inHand_entered (holds : Holds (w.conns c) (r.bytes ++ rest) r.bytes.length (some slot))
    (single : Single w c slot) : InHand w c slot messageHeader r rest [] := by
  obtain ⟨commands, size, -⟩ := holds.message
  refine ⟨holds, single, r.times, rfl, ?_⟩
  rw [messageEnd, size, Nat.zero_add]
  exact commands

theorem reply_others {m cmd proc : Nat} {ret : Int} (single : Single w c slot)
    (holds : Holds (w.conns c) bytes proc (some slot)) (replied : reply w slot m cmd = .ok (w', ret)) :
    ∀ s ≠ slot, w'.reqs s = w.reqs s := by
  obtain ⟨v, quiet, reqs, -, rfl⟩ := LayoutSteps.reply_cases replied
  have only : Single v c slot := by
    constructor <;> rw [reqs]
    · exact single.conn
    · exact single.message
    · exact single.prev
    · exact single.next
  have same := quiet.conns c
  have listed : (v.conns c).reqList = some slot := (congrArg (fun t => t.2.2.2.2.1) same).trans holds.requests
  have defrag : (v.conns c).enableDefrag = true := (congrArg (fun t => t.2.2.2.2.2.2.2) same).trans holds.defrag
  intro s other
  simp only [single.conn, connReqRemove_single only defrag listed, Function.update_of_ne other, reqs]

theorem processReply_alone (single : Single w c slot)
    (holds : Holds (w.conns c) (r.bytes ++ rest) r.bytes.length (some slot)) (accepting : Accepting w.kernel)
    (asked : replyOpts (w.conns c).recvBuf cmd = r.opts) :
    ∃ w' out, processReply w slot 0 cmd = .ok (w', 1) ∧ Done w w' c slot r out rest := by
  obtain ⟨commands, size, id⟩ := holds.message
  have room := commands.room
  simp only [messageHeader, commandHeader] at room
  obtain ⟨large, small⟩ := commands.replies
  have status : statusOf (w.conns c).recvBuf 0 = statusOf (memOf r.bytes) 0 :=
    u32_congr fun i less => memOf_eq holds.first (by omega)
  obtain ⟨w', ret, processed, replied, answered⟩ := Service.processReply_served single holds accepting size
    (asked ▸ large) (asked ▸ small)
  obtain ⟨out, emitted, length, named⟩ := answered.wire
  rw [asked] at length
  have beyond := Service.elsewhere_reply replied
  rw [single.conn] at beyond
  refine ⟨w', out, processed, emitted, ?_, answered.holds, answered.next, answered.free slot (Or.inl rfl),
    reply_others single holds replied, beyond.conns, beyond.house, beyond.flag, beyond.nextFd⟩
  have named' : reqIdOf (memOf out) 0 = reqIdOf (memOf r.bytes) 0 := named.trans id
  by_cases file : r.opts.mode = .sendfile
  · exact ⟨length, named', fun normal => absurd file normal⟩
  · obtain ⟨buf, sent, framed, status', eom⟩ := Service.reply_framed single.conn holds accepting
      (asked ▸ large) (asked ▸ small) (asked ▸ file) replied
    rw [asked] at sent framed
    refine Service.response_of_slice length named' large status fun _ => ⟨?_, framed, status', eom⟩
    have wire := emitted.symm.trans sent
    injection wire with head
    injection head

/-- One turn of the loop executes the next COMPUTE of the request or answers it. -/
theorem InHand.turn (h : InHand w c slot cmd r rest begun) (accepting : Accepting w.kernel) :
    (∃ time, processFrom (reqMem w slot) slot 0 1 w (some cmd) = .ok (w.emit (.compute slot time), 1) ∧
      onward (reqMem w slot) 0 (some cmd) 1 = some (cmd + 8) ∧
      InHand (w.emit (.compute slot time)) c slot (cmd + 8) r rest (begun ++ [time])) ∨
    begun = r.times ∧ ∃ w' out, processFrom (reqMem w slot) slot 0 1 w (some cmd) = .ok (w', 1) ∧
      onward (reqMem w slot) 0 (some cmd) 1 = none ∧ Done w w' c slot r out rest := by
  obtain ⟨holds, single, times, all, commands⟩ := h
  have mem : reqMem w slot = (w.conns c).recvBuf := by rw [reqMem, single.conn]
  rw [mem]
  generalize opts : r.opts = asked at commands
  cases commands with
  | @compute cmd times asked here later =>
    left
    have next := skip_compute here later
    refine ⟨compTimeUs (w.conns c).recvBuf cmd, ?_, ?_, ?_⟩
    · simp only [processFrom, here]
    · simp only [onward, if_true, nextCommand, Option.bind_some, here, next]
    · refine ⟨holds, ⟨single.conn, single.message, single.prev, single.next⟩, times, ?_, opts ▸ later⟩
      rw [all, List.append_assoc]
      rfl
  | reply here last room large small =>
    right
    obtain ⟨w', out, replied, done⟩ := processReply_alone single holds accepting opts.symm
    refine ⟨(all.trans (List.append_nil begun)).symm, w', out, ?_, ?_, done⟩
    · simp only [processFrom, here]
      exact replied
    · simp only [onward, if_true, nextCommand, Option.bind_some, here]

end Round

/-! ## The clients and the workers -/

/-- A request that a worker has executed, and what was sent for it. -/
structure Job (threads : Nat) where
  worker : Fin threads
  client : Nat
  request : Request
  response : List UInt8

section Jobs

variable {n : Nat}

/-- What a job shows to the outside. -/
def Job.outputs (j : Job n) : List (Output n) :=
  j.request.times.map (.computed j.worker) ++ [.sent j.worker j.client j.response]

/-- What worker `t` computes and sends. -/
def outputsOf (t : Fin n) (outputs : List (Output n)) : List (Output n) := outputs.filter fun o => o.worker = t

def jobsOf (t : Fin n) (jobs : List (Job n)) : List (Job n) := jobs.filter fun j => j.worker = t

theorem outputsOf_append (t : Fin n) (outputs outputs' : List (Output n)) :
    outputsOf t (outputs ++ outputs') = outputsOf t outputs ++ outputsOf t outputs' := List.filter_append ..

theorem jobsOf_append (t : Fin n) (jobs jobs' : List (Job n)) :
    jobsOf t (jobs ++ jobs') = jobsOf t jobs ++ jobsOf t jobs' := List.filter_append ..

@[simp] theorem outputsOf_computed (t : Fin n) (times : List Nat) :
    outputsOf t (times.map (.computed t)) = times.map (.computed t) :=
  List.filter_eq_self.mpr fun o mem => by
    obtain ⟨time, -, rfl⟩ := List.mem_map.mp mem
    exact decide_eq_true rfl

theorem outputsOf_job (j : Job n) : outputsOf j.worker j.outputs = j.outputs := by
  rw [Job.outputs, outputsOf_append, outputsOf_computed]
  simp [outputsOf, Output.worker]

theorem outputsOf_other {t t' : Fin n} {outputs : List (Output n)} (own : outputsOf t outputs = outputs)
    (other : t' ≠ t) : outputsOf t' outputs = [] := by
  refine List.filter_eq_nil_iff.mpr fun o mem there => ?_
  have here := List.filter_eq_self.mp own o mem
  exact other ((of_decide_eq_true there).symm.trans (of_decide_eq_true here))

theorem jobsOf_own {t : Fin n} {jobs : List (Job n)} (own : ∀ j ∈ jobs, j.worker = t) :
    jobsOf t jobs = jobs ∧ outputsOf t (jobs.flatMap Job.outputs) = jobs.flatMap Job.outputs := by
  refine ⟨List.filter_eq_self.mpr fun j mem => decide_eq_true (own j mem), List.filter_eq_self.mpr fun o mem => ?_⟩
  obtain ⟨j, among, inside⟩ := List.mem_flatMap.mp mem
  have same := outputsOf_job j
  rw [own j among] at same
  exact List.filter_eq_self.mp same o inside

theorem jobsOf_other {t t' : Fin n} {jobs : List (Job n)} (own : ∀ j ∈ jobs, j.worker = t) (other : t' ≠ t) :
    jobsOf t' jobs = [] :=
  List.filter_eq_nil_iff.mpr fun j mem here => other ((of_decide_eq_true here).symm.trans (own j mem))

def requestsOf (k : Nat) (jobs : List (Job n)) : List Request :=
  (jobs.filter fun j => j.client = k).map Job.request

theorem requestsOf_append (k : Nat) (jobs jobs' : List (Job n)) :
    requestsOf k (jobs ++ jobs') = requestsOf k jobs ++ requestsOf k jobs' := by
  rw [requestsOf, List.filter_append, List.map_append]
  rfl

theorem requestsOf_other {k k' : Nat} {jobs : List (Job n)} (own : ∀ j ∈ jobs, j.client = k) (other : k' ≠ k) :
    requestsOf k' jobs = [] := by
  rw [requestsOf, List.filter_eq_nil_iff.mpr, List.map_nil]
  intro j mem here
  exact other ((of_decide_eq_true here).symm.trans (own j mem))

/-- What is in the buffer of connection `c`, of which `later` is still to be served; `begun`
are the COMPUTEs that each worker has executed for the request it has in hand. -/
def Rests (node : State) (pc : Fin n → Pc n) (begun : Fin n → List Nat) (c : Nat) (part : List UInt8)
    (later : List Request) : Prop :=
  (∃ j slot cmd r rest later', pc j = .processing c slot (some cmd) ∧ later = r :: later' ∧ part = r.bytes ++ rest ∧
    InHand node c slot cmd r rest (begun j)) ∨
  Holds (node.conns c) part 0 none ∧ (∀ j slot cmd, pc j ≠ .processing c slot cmd) ∧
    ((∃ j, pc j = .obtaining c) ∨ Partial part later)

variable {node node' : State} {pc : Fin n → Pc n} {pc' : Pc n} {begun begun' : Fin n → List Nat} {j : Fin n} {c : Nat}
  {part : List UInt8} {later : List Request}

/-- What a worker does elsewhere leaves the connection alone. -/
theorem Rests.aside (h : Rests node pc begun c part later) (conn : node'.conns c = node.conns c)
    (reqs : ∀ i slot cmd, pc i = .processing c slot cmd → node'.reqs slot = node.reqs slot)
    (before : busyWith (pc j) ≠ some c) (after : busyWith pc' ≠ some c) (others : ∀ i ≠ j, begun' i = begun i) :
    Rests node' (Function.update pc j pc') begun' c part later := by
  have differs {i : Fin n} (busy : busyWith (pc i) = some c) : i ≠ j := by
    rintro rfl
    exact before busy
  rcases h with ⟨i, slot, cmd, r, rest, later', at_, all, whole, inHand⟩ | ⟨holds, nobody, left⟩
  · have other := differs (i := i) (by rw [at_]; rfl)
    refine Or.inl ⟨i, slot, cmd, r, rest, later', ?_, all, whole, ?_⟩
    · rw [Function.update_of_ne other, at_]
    · rw [others i other]
      exact inHand.congr conn (reqs i slot _ at_)
  · refine Or.inr ⟨conn ▸ holds, fun i slot cmd at_ => ?_, left.imp_left fun ⟨i, at_⟩ => ⟨i, ?_⟩⟩
    · by_cases own : i = j
      · rw [own, Function.update_self] at at_
        exact after (by rw [at_]; rfl)
      · rw [Function.update_of_ne own] at at_
        exact nobody i slot cmd at_
    · rw [Function.update_of_ne (differs (by rw [at_]; rfl)), at_]

end Jobs

variable {cfg : Config}

/-- The state of the workers and the clients when the jobs have been done, and of the
requests in hand the COMPUTEs `begun`. -/
structure Served (sent : Nat → List Request) (s : System cfg) (jobs : List (Job cfg.threads))
    (begun : Fin cfg.threads → List Nat) : Prop where
  outputs : ∀ t, outputsOf t s.outputs = (jobsOf t jobs).flatMap Job.outputs ++ (begun t).map (.computed t)
  resting : ∀ t, (∀ c slot cmd, s.pc t ≠ .processing c slot cmd) → begun t = []
  responses : ∀ j ∈ jobs, Response j.request j.response
  workers : ∀ j ∈ jobs, ∃ c, ⟨j.client, c, j.worker⟩ ∈ s.assigned
  underway : ∀ c fd k, (s.node.conns c).sock = some fd → s.peer fd = some k →
    ∃ part later, sent k = requestsOf k jobs ++ later ∧ part ++ s.flight k = stream later ∧
      Rests s.node s.pc begun c part later
  waiting : ∀ k, (∀ c fd, (s.node.conns c).sock = some fd → s.peer fd ≠ some k) →
    requestsOf k jobs = [] ∧ s.flight k = stream (sent k)
  alone : ∀ c, (s.node.conns c).sock = none → (s.node.conns c).reqList = none
  used : ∀ slot, (s.node.reqs slot).reqId ≠ noReq → ∃ i c cmd, s.pc i = .processing c slot cmd
  flag : s.node.enableDefrag = true
  silent : s.node.effects = []

section Served

variable {sent : Nat → List Request} {s s' : System cfg} {place : Nat → Option (Place cfg.threads)}
  {jobs : List (Job cfg.threads)} {begun : Fin cfg.threads → List Nat} {j : Fin cfg.threads} {pc' : Pc cfg.threads}

/-- A worker that handles no requests does not disturb those that do. -/
theorem Served.aside (h : Served sent s jobs begun) (before : busyWith (s.pc j) = none) (after : busyWith pc' = none)
    (pc : s'.pc = Function.update s.pc j pc')
    (conns : ∀ c, (s.node.conns c).sock ≠ none → s'.node.conns c = s.node.conns c)
    (free : ∀ c, (s.node.conns c).sock = none →
      (s'.node.conns c).sock = none ∧ (s'.node.conns c).reqList = (s.node.conns c).reqList)
    (reqs : s'.node.reqs = s.node.reqs) (flag : s'.node.enableDefrag = s.node.enableDefrag)
    (effects : s'.node.effects = s.node.effects)
    (peers : ∀ c fd, (s.node.conns c).sock = some fd → s'.peer fd = s.peer fd) (flight : s'.flight = s.flight)
    (outputs : s'.outputs = s.outputs) (assigned : s.assigned ⊆ s'.assigned) : Served sent s' jobs begun := by
  have socks {c fd : Nat} : (s'.node.conns c).sock = some fd ↔ (s.node.conns c).sock = some fd := by
    cases here : (s.node.conns c).sock with
    | none => rw [(free c here).1]
    | some fd' => rw [conns c (by simp [here]), here]
  refine ⟨fun t => by rw [outputs]; exact h.outputs t, fun t rests => ?_, h.responses, fun j mem => ?_,
    fun c fd k sock peer => ?_, fun k nowhere => ?_, fun c sock => ?_, fun slot used => ?_, flag.trans h.flag,
    effects.trans h.silent⟩
  · refine h.resting t fun c slot cmd at_ => ?_
    by_cases own : t = j
    · rw [← own, at_] at before
      cases before
    · refine rests c slot cmd ?_
      rw [pc, Function.update_of_ne own, at_]
  · obtain ⟨c, member⟩ := h.workers j mem
    exact ⟨c, assigned member⟩
  · rw [socks] at sock
    rw [peers c fd sock] at peer
    obtain ⟨part, later, all, rest, rests⟩ := h.underway c fd k sock peer
    refine ⟨part, later, all, by rw [flight, rest], ?_⟩
    rw [pc]
    exact rests.aside (conns c (by simp [sock])) (fun i slot cmd _ => by rw [reqs]) (by simp [before])
      (by simp [after]) fun _ _ => rfl
  · rw [flight]
    refine h.waiting k fun c fd sock peer => nowhere c fd (socks.mpr sock) ?_
    rw [peers c fd sock, peer]
  · cases here : (s.node.conns c).sock with
    | none => exact (free c here).2.trans (h.alone c here)
    | some fd =>
      rw [socks.mpr here] at sock
      cases sock
  · rw [reqs] at used
    obtain ⟨i, c, cmd, at_⟩ := h.used slot used
    refine ⟨i, c, cmd, ?_⟩
    rw [pc, Function.update_of_ne, at_]
    rintro rfl
    rw [at_] at before
    cases before

theorem Served.goes (h : Served sent s jobs begun) (before : busyWith (s.pc j) = none) (after : busyWith pc' = none) :
    Served sent (goto s j pc') jobs begun :=
  h.aside before after rfl (fun _ _ => rfl) (fun _ free => ⟨free, rfl⟩) rfl rfl rfl (fun _ _ _ => rfl) rfl rfl
    (List.Subset.refl _)

theorem Served.watchSock (h : Served sent s jobs begun) (before : busyWith (s.pc j) = none) (t : Fin cfg.threads)
    (fd c : Nat) :
    Served sent (goto (ConnThreads.watchSock s t fd c) j .polling) jobs begun := by
  by_cases fits : (dwPollAdd (s.dwPoll t) fd dwPollIn (i2l EventKind.socket.code c)).2 = 0
  · rw [watchSock_fits fits]
    exact h.aside before rfl rfl (fun _ _ => rfl) (fun _ free => ⟨free, rfl⟩) rfl rfl rfl (fun _ _ _ => rfl) rfl rfl
      (List.Subset.refl _)
  · rw [watchSock_full fits]
    exact h.aside before rfl rfl (fun _ _ => rfl) (fun _ free => ⟨free, rfl⟩) rfl rfl rfl (fun _ _ _ => rfl) rfl rfl
      (List.Subset.refl _)

/-- No slot has the descriptor of a connection without a slot. -/
theorem unhoused (h : Placed s place) {fd : Nat} (foreign : fd ∉ own cfg) (slotless : view Place.slot place fd = none)
    (c : Nat) : (s.node.conns c).sock ≠ some fd := by
  intro sock
  rcases h.slotted.slots c fd sock with mem | slot
  · exact foreign mem
  · rw [slotless] at slot
    cases slot

theorem Served.acceptEvent (h : Served sent s jobs begun) (idle : s.pc j = .polling) {fd : Nat}
    (new : ∀ c, (s.node.conns c).sock ≠ some fd) {addr : Addr} :
    Served sent (goto { s with peer := Function.update s.peer fd (some s.clients), clients := s.clients + 1 } j
      (.claiming fd addr 0)) jobs begun := by
  refine h.aside (by rw [idle]; rfl) rfl rfl (fun _ _ => rfl) (fun _ free => ⟨free, rfl⟩) rfl rfl rfl
    (fun c fd' sock => ?_) rfl rfl (List.Subset.refl _)
  refine Function.update_of_ne ?_ _ _
  rintro rfl
  exact new c sock

theorem Served.claimSlot (h : Served sent s jobs begun) (placed : Placed s place) {fd i : Nat} {addr : Addr}
    (at_ : s.pc j = .claiming fd addr i) : Served sent (ConnThreads.claimSlot s j fd addr i) jobs begun := by
  have before : busyWith (s.pc j) = none := by rw [at_]; rfl
  rw [ConnThreads.claimSlot]
  split
  · split
    · exact h.goes before rfl
    · rename_i free
      have idle := placed.slotted.idle i (Bool.eq_false_iff.mpr free)
      refine h.aside before rfl rfl (fun c sock => ?_) (fun c sock => ?_) rfl rfl rfl (fun _ _ _ => rfl) rfl rfl
        (List.Subset.refl _)
      · exact Function.update_of_ne (by rintro rfl; exact sock idle) _ _
      · by_cases same : c = i
        · subst same
          simp [goto, setNode, State.setConn, sock]
        · simp [goto, setNode, State.setConn, same, sock]
  · exact h.goes before rfl

/-- A client whose connection gets a slot is served from its first byte on. -/
theorem Served.fillSlot (h : Served sent s jobs begun) (placed : Placed s place) {fd c : Nat} {addr : Addr}
    (memory : Bool) (at_ : s.pc j = .claimed fd addr c) :
    Served sent (ConnThreads.fillSlot s j memory fd addr c) jobs begun := by
  have before : busyWith (s.pc j) = none := by rw [at_]; rfl
  obtain ⟨here, -⟩ := placed.inHand (x := .fresh) (by rw [at_]; exact ⟨rfl, rfl⟩)
  obtain ⟨k, client, foreign⟩ := placed.client here
  have new := unhoused placed foreign (by rw [view, here]; rfl)
  have free := (placed.handed.claims j fd addr c at_).2.2.1
  rw [ConnThreads.fillSlot]
  split
  · let conn : ConnInfo :=
      { (s.node.conns c).claim fd addr .tcp j with status := .ready, enableDefrag := s.node.enableDefrag }
    have other {d : Nat} (differs : d ≠ c) : Function.update s.node.conns c conn d = s.node.conns d :=
      Function.update_of_ne differs _ _
    have filled : Function.update s.node.conns c conn c = conn := Function.update_self _ _ _
    have nowhere (d fd' : Nat) (sock : (s.node.conns d).sock = some fd') : s.peer fd' ≠ some k := by
      intro peer
      exact new d (placed.opened.distinct fd' fd k peer client ▸ sock)
    have unserved (i : Fin cfg.threads) : busyWith (s.pc i) ≠ some c := by
      intro busy
      obtain ⟨fd', there⟩ := placed.handed.working i c busy
      obtain ⟨q, atq, seen⟩ := Option.bind_eq_some_iff.mp there
      have slot : view Place.slot place fd' = some c := by
        rw [view, atq]
        cases q with
        | watched t d =>
          cases seen
          rfl
        | _ => cases seen
      rw [(placed.slotted.socks fd' c slot).1] at free
      cases free
    refine ⟨h.outputs, fun t rests => ?_, h.responses, h.workers, fun d fd' k' sock peer => ?_, fun k' away => ?_,
      fun d sock => ?_, fun slot used => ?_, h.flag, h.silent⟩
    · refine h.resting t fun d slot cmd at__ => ?_
      by_cases own : t = j
      · rw [← own, at__] at before
        cases before
      · exact rests d slot cmd ((Function.update_of_ne own _ _).trans at__)
    · by_cases same : d = c
      · subst same
        have sock' : conn.sock = some fd' := filled ▸ sock
        cases sock'
        cases client.symm.trans peer
        obtain ⟨none_, all⟩ := h.waiting k nowhere
        refine ⟨[], sent k, by rw [none_, List.nil_append], all,
          Or.inr ⟨?_, fun i slot cmd there => ?_, Or.inr (partial_nil _)⟩⟩
        · have holds := Service.holds_accepted (h.alone d free) fd addr j
          rw [← h.flag] at holds
          have here : Holds conn [] 0 none := holds
          rw [← filled] at here
          exact here
        · have differs : i ≠ j := by
            rintro rfl
            simp [goto] at there
          refine unserved i ?_
          rw [goto] at there
          simp only [Function.update_of_ne differs] at there
          exact congrArg busyWith there
      · obtain ⟨part, later, all, rest, rests⟩ := h.underway d fd' k' (other same ▸ sock) peer
        exact ⟨part, later, all, rest, rests.aside (other same) (fun _ _ _ _ => rfl) (by simp [before])
          (by simp [busyWith]) fun _ _ => rfl⟩
    · refine h.waiting k' fun d fd' sock => away d fd' ?_
      exact (congrArg ConnInfo.sock (other (by rintro rfl; rw [free] at sock; cases sock))).trans sock
    · by_cases same : d = c
      · subst same
        have sock' : conn.sock = none := filled ▸ sock
        cases sock'
      · exact (congrArg ConnInfo.reqList (other same)).trans (h.alone d (other same ▸ sock))
    · obtain ⟨i, d, cmd, there⟩ := h.used slot used
      refine ⟨i, d, cmd, (Function.update_of_ne ?_ _ _).trans there⟩
      rintro rfl
      rw [there] at before
      cases before
  · exact h.goes before rfl

theorem Served.assignThread (h : Served sent s jobs begun) {fd c : Nat} (at_ : s.pc j = .assigning fd c)
    (taken : ConnThreads.assignThread s j fd c = .ok s') : Served sent s' jobs begun := by
  have before : busyWith (s.pc j) = none := by rw [at_]; rfl
  simp only [ConnThreads.assignThread] at taken
  split at taken
  · cases taken
  · cases taken
    exact h.aside before rfl rfl (fun _ _ => rfl) (fun _ free => ⟨free, rfl⟩) rfl rfl rfl (fun _ _ _ => rfl) rfl rfl
      (List.subset_append_left _ _)

theorem Served.handOver (h : Served sent s jobs begun) {fd c : Nat} {t : Fin cfg.threads}
    (at_ : s.pc j = .handing fd c t) : Served sent (ConnThreads.handOver s j fd c t) jobs begun := by
  have before : busyWith (s.pc j) = none := by rw [at_]; rfl
  rw [ConnThreads.handOver]
  split
  · exact h.aside before rfl rfl (fun _ _ => rfl) (fun _ free => ⟨free, rfl⟩) rfl rfl rfl (fun _ _ _ => rfl) rfl rfl
      (List.Subset.refl _)
  · exact h.watchSock before t fd c

theorem Served.dispatchEvent (h : Served sent s jobs begun) (idle : s.pc j = .polling) :
    Served sent (ConnThreads.dispatchEvent s j) jobs begun := by
  have before : busyWith (s.pc j) = none := by rw [idle]; rfl
  rw [ConnThreads.dispatchEvent]
  split
  · exact h
  · simp only
    split
    · exact h.aside before before (Function.update_eq_self _ _).symm (fun _ _ => rfl) (fun _ free => ⟨free, rfl⟩) rfl
        rfl rfl (fun _ _ _ => rfl) rfl rfl (List.Subset.refl _)
    · exact h.aside before rfl rfl (fun _ _ => rfl) (fun _ free => ⟨free, rfl⟩) rfl rfl rfl (fun _ _ _ => rfl) rfl rfl
        (List.Subset.refl _)

theorem Served.takeOver (h : Served sent s jobs begun) {c : Nat} (at_ : s.pc j = .taking c)
    (taken : ConnThreads.takeOver s j c = .ok s') : Served sent s' jobs begun := by
  rw [ConnThreads.takeOver] at taken
  split at taken
  · cases taken
  · cases taken
    exact h.watchSock (by rw [at_]; rfl) j _ c

theorem Served.forget (h : Served sent s jobs begun) {fd : Nat} (at_ : s.pc j = .forgetting fd) :
    Served sent (ConnThreads.forget s j fd) jobs begun :=
  h.aside (by rw [at_]; rfl) rfl rfl (fun _ _ => rfl) (fun _ free => ⟨free, rfl⟩) rfl rfl rfl (fun _ _ _ => rfl) rfl rfl
    (List.Subset.refl _)

theorem Served.closeSock (h : Served sent s jobs begun) (placed : Placed s place) {fd : Nat}
    (at_ : s.pc j = .closing fd) : Served sent (ConnThreads.closeSock s j fd) jobs begun := by
  obtain ⟨here, -⟩ := placed.inHand (x := .turned) (by rw [at_]; exact ⟨rfl, rfl⟩)
  obtain ⟨-, -, foreign⟩ := placed.client here
  have new := unhoused placed foreign (by rw [view, here]; rfl)
  refine h.aside (by rw [at_]; rfl) rfl rfl (fun _ _ => rfl) (fun _ free => ⟨free, rfl⟩) rfl rfl rfl
    (fun c fd' sock => ?_) rfl rfl (List.Subset.refl _)
  refine Function.update_of_ne ?_ _ _
  rintro rfl
  exact new c sock

/-! ## Requests -/

/-- A connection in the table of a worker. -/
structure Has (s : System cfg) (place : Nat → Option (Place cfg.threads)) (j : Fin cfg.threads) (fd c k : Nat) :
    Prop where
  watched : view Place.watched? place fd = some (j, c)
  slot : view Place.slot place fd = some c
  sock : (s.node.conns c).sock = some fd
  peer : s.peer fd = some k
  assigned : ⟨k, c, j⟩ ∈ s.assigned
  foreign : fd ∉ own cfg

theorem Has.of_watched (h : Placed s place) {fd c : Nat} (there : view Place.watched? place fd = some (j, c)) :
    ∃ k, Has s place j fd c k := by
  obtain ⟨q, here, seen⟩ := Option.bind_eq_some_iff.mp there
  have watched : q = .watched j c := by
    cases q with
    | watched t d =>
      cases seen
      rfl
    | _ => cases seen
  rw [watched] at here
  obtain ⟨k, client, foreign⟩ := h.client here
  have slot : view Place.slot place fd = some c := by
    rw [view, here]
    rfl
  refine ⟨k, there, slot, (h.slotted.socks fd c slot).1, client, (h.given.members ⟨k, c, j⟩).mpr ⟨fd, ?_, client⟩,
    foreign⟩
  rw [view, here]
  rfl

/-- Only its own worker handles a connection. -/
theorem Has.only {fd c k : Nat} (has : Has s place j fd c k) (h : Placed s place) {i : Fin cfg.threads}
    (busy : busyWith (s.pc i) = some c) : i = j := by
  obtain ⟨fd', there⟩ := h.handed.working i c busy
  obtain ⟨k', has'⟩ := Has.of_watched h there
  have same := h.slot_injective has.slot has'.slot
  have watched := has.watched
  rw [same, there] at watched
  cases watched
  rfl

/-- Nobody executes a request of a connection whose own worker does not. -/
theorem Has.nobody {fd c k : Nat} (has : Has s place j fd c k) (h : Placed s place)
    (other : ∀ slot cmd, s.pc j ≠ .processing c slot cmd) (i : Fin cfg.threads) (slot : Nat) (cmd : Option Nat) :
    s.pc i ≠ .processing c slot cmd := by
  intro at_
  have own := has.only h (by rw [at_]; rfl)
  rw [own] at at_
  exact other slot cmd at_

/-- What its worker does for a connection leaves all others as they are. -/
theorem Served.works {fd c k : Nat} (h : Served sent s jobs begun) (placed : Placed s place)
    (has : Has s place j fd c k) (pc' : Pc cfg.threads) (w : State) (flight : Nat → List UInt8)
    (outputs : List (Output cfg.threads)) (jobs' : List (Job cfg.threads)) (times : List Nat)
    (shows : (begun j).map (.computed j) ++ outputs = jobs'.flatMap Job.outputs ++ times.map (.computed j))
    (rested : (∀ c slot cmd, pc' ≠ .processing c slot cmd) → times = [])
    (before : ∀ d ≠ c, busyWith (s.pc j) ≠ some d) (after : ∀ d ≠ c, busyWith pc' ≠ some d)
    (elsewhere : ∀ d ≠ c, w.conns d = s.node.conns d) (house : ∀ d, housing (w.conns d) = housing (s.node.conns d))
    (reqs : ∀ i d slot cmd, d ≠ c → s.pc i = .processing d slot cmd → w.reqs slot = s.node.reqs slot)
    (used : ∀ slot, (w.reqs slot).reqId ≠ noReq → ∃ i d cmd, Function.update s.pc j pc' i = .processing d slot cmd)
    (flag : w.enableDefrag = s.node.enableDefrag) (silent : w.effects = [])
    (flights : ∀ k' ≠ k, flight k' = s.flight k')
    (mine : ∀ job ∈ jobs', job.client = k ∧ job.worker = j ∧ Response job.request job.response)
    (rests : ∃ part later, sent k = requestsOf k (jobs ++ jobs') ++ later ∧ part ++ flight k = stream later ∧
      Rests w (Function.update s.pc j pc') (Function.update begun j times) c part later) :
    Served sent (goto { setNode s w with flight := flight, outputs := s.outputs ++ outputs } j pc') (jobs ++ jobs')
      (Function.update begun j times) := by
  have socks (d : Nat) : (w.conns d).sock = (s.node.conns d).sock := congrArg Prod.snd (house d)
  have others {k' : Nat} (other : k' ≠ k) : requestsOf k' (jobs ++ jobs') = requestsOf k' jobs := by
    rw [requestsOf_append, requestsOf_other (fun job mem => (mine job mem).1) other, List.append_nil]
  obtain ⟨ownJobs, ownOutputs⟩ := jobsOf_own fun job mem => (mine job mem).2.1
  have own : outputsOf j outputs = outputs := by
    have all := congrArg (outputsOf j) shows
    rw [outputsOf_append, outputsOf_append, ownOutputs, outputsOf_computed, outputsOf_computed, ← shows] at all
    exact List.append_cancel_left all
  refine ⟨fun t => ?_, fun t rests => ?_, fun job mem => ?_, fun job mem => ?_, fun d fd' k' sock peer => ?_,
    fun k' nowhere => ?_, fun d sock => ?_, used, flag.trans h.flag, silent⟩
  · have all : outputsOf t (s.outputs ++ outputs) = (jobsOf t jobs).flatMap Job.outputs ++
        ((begun t).map (.computed t) ++ outputsOf t outputs) := by
      rw [outputsOf_append, h.outputs, List.append_assoc]
    rw [jobsOf_append, List.flatMap_append, List.append_assoc]
    refine all.trans (congrArg _ ?_)
    by_cases same : t = j
    · rw [same, own, shows, ownJobs, Function.update_self]
    · rw [Function.update_of_ne same, outputsOf_other own same, jobsOf_other (fun job mem => (mine job mem).2.1) same,
        List.append_nil]
      rfl
  · by_cases same : t = j
    · subst same
      rw [Function.update_self]
      exact rested fun c slot cmd at_ => rests c slot cmd ((Function.update_self _ _ _).trans at_)
    · rw [Function.update_of_ne same]
      exact h.resting t fun c slot cmd at_ => rests c slot cmd ((Function.update_of_ne same _ _).trans at_)
  · rcases List.mem_append.mp mem with old | new
    · exact h.responses job old
    · exact (mine job new).2.2
  · rcases List.mem_append.mp mem with old | new
    · exact h.workers job old
    · obtain ⟨client, worker, -⟩ := mine job new
      rw [client, worker]
      exact ⟨c, has.assigned⟩
  · have sock' : (s.node.conns d).sock = some fd' := (socks d).symm.trans sock
    by_cases same : d = c
    · subst same
      rw [has.sock] at sock'
      cases sock'
      cases has.peer.symm.trans peer
      exact rests
    · have client : k' ≠ k := by
        rintro rfl
        have equal := placed.opened.distinct fd' fd k' peer has.peer
        rw [equal] at sock'
        rcases placed.slotted.slots d fd sock' with ours | slot
        · exact has.foreign ours
        · rw [has.slot] at slot
          cases slot
          exact same rfl
      obtain ⟨part, later, all, rest, stays⟩ := h.underway d fd' k' sock' peer
      have left : part ++ flight k' = stream later := by rw [flights k' client, rest]
      refine ⟨part, later, by rw [others client, all], left, ?_⟩
      exact stays.aside (elsewhere d same) (fun i slot cmd at_ => reqs i d slot cmd same at_) (before d same)
        (after d same) fun i other => Function.update_of_ne other _ _
  · have client : k' ≠ k := by
      rintro rfl
      exact nowhere c fd ((socks c).trans has.sock) has.peer
    rw [others client]
    obtain ⟨none_, all⟩ := h.waiting k' fun d fd' sock => nowhere d fd' ((socks d).trans sock)
    exact ⟨none_, (flights k' client).trans all⟩
  · have sock' : (s.node.conns d).sock = none := (socks d).symm.trans sock
    have other : d ≠ c := by
      rintro rfl
      rw [has.sock] at sock'
      cases sock'
    exact (congrArg ConnInfo.reqList (elsewhere d other)).trans (h.alone d sock')

/-- A worker at another place than the request of its connection has none of its connection. -/
theorem Rests.unless {n : Nat} {node : State} {pc : Fin n → Pc n} {begun : Fin n → List Nat} {c : Nat}
    {part : List UInt8} {later : List Request} (h : Rests node pc begun c part later)
    (nobody : ∀ i slot cmd, pc i ≠ .processing c slot cmd) :
    Holds (node.conns c) part 0 none ∧ ((∃ i, pc i = .obtaining c) ∨ Partial part later) := by
  rcases h with ⟨i, slot, cmd, -, -, -, at_, -⟩ | ⟨holds, -, left⟩
  · exact absurd at_ (nobody i slot _)
  · exact ⟨holds, left⟩

/-- The client keeps its connection open. A descriptor that `select()` is to wait for has a
bit in its sets. -/
def Answer.Open (cfg : Config) : Answer → Prop
  | .accepts fd _ => cfg.pollMode = .select → fd < fdSetsize
  | .receives .closed => False
  | .receives .failed => False
  | _ => True

/-- The buffer of a connection takes what comes out of the flight. -/
theorem Served.receives {fd c k : Nat} (h : Served sent s jobs begun) (placed : Placed s place)
    (has : Has s place j fd c k) (idle : s.pc j = .polling) {conn : ConnInfo} {part' rest : List UInt8}
    (same : housing conn = housing (s.node.conns c)) (holds : Holds conn part' 0 none)
    (cut : ∀ part later, sent k = requestsOf k jobs ++ later → part ++ s.flight k = stream later →
      Holds (s.node.conns c) part 0 none → part' ++ rest = part ++ s.flight k) :
    ∃ place', Placed (goto { setNode s (s.node.setConn c conn) with flight := Function.update s.flight k rest } j
        (.obtaining c)) place' ∧
      Served sent (goto { setNode s (s.node.setConn c conn) with flight := Function.update s.flight k rest } j
        (.obtaining c)) jobs begun := by
  have nobody := has.nobody placed fun slot cmd => by simp [idle]
  have house (d : Nat) : housing ((s.node.setConn c conn).conns d) = housing (s.node.conns d) := by
    by_cases here : d = c
    · subst here
      simp [State.setConn, same]
    · simp [State.setConn, here]
  refine ⟨place, ?_, ?_⟩
  · exact placed.works _ s.outputs house (Or.inl idle) (Or.inr ⟨c, rfl, fd, has.watched⟩)
  · obtain ⟨part, later, all, whole, rests⟩ := h.underway c fd k has.sock has.peer
    obtain ⟨before, -⟩ := rests.unless nobody
    have works := h.works placed has (.obtaining c) (s.node.setConn c conn) (Function.update s.flight k rest) [] []
      (begun j) (List.append_nil _) (fun _ => h.resting j fun d slot cmd => by simp [idle])
      (fun _ _ => by simp [idle, busyWith]) (fun d other same => other (Option.some.inj same).symm)
      (fun d other => by simp [State.setConn, other]) house (fun _ _ _ _ _ _ => rfl) (fun slot used => ?_) rfl h.silent
      (fun k' other => Function.update_of_ne other _ _) (fun _ mem => by cases mem)
      ⟨part', later, ?_, ?_, Or.inr ⟨?_, fun i slot cmd => ?_, Or.inl ⟨j, ?_⟩⟩⟩
    · rw [Function.update_eq_self] at works
      simp only [List.append_nil] at works
      exact works
    · obtain ⟨i, d, cmd, at_⟩ := h.used slot used
      refine ⟨i, d, cmd, ?_⟩
      rw [Function.update_of_ne, at_]
      rintro rfl
      rw [idle] at at_
      cases at_
    · rw [List.append_nil, all]
    · rw [Function.update_self, cut part later all whole before, whole]
    · simpa [State.setConn] using holds
    · rw [Function.update_apply]
      split
      · simp
      · exact nobody i slot cmd
    · rw [Function.update_self]

theorem socketEvent_served {fd c k : Nat} (h : Served sent s jobs begun) (placed : Placed s place)
    (has : Has s place j fd c k)
    (idle : s.pc j = .polling) {answer : Answer} (keeps : Answer.Open cfg answer) :
    ∃ place', Placed (socketEvent s j c answer) place' ∧ Served sent (socketEvent s j c answer) jobs begun := by
  cases answer with
  | accepts fd addr => exact ⟨place, placed, h⟩
  | reads => exact ⟨place, placed, h⟩
  | receives r =>
    obtain ⟨part, later, all, whole, rests⟩ := h.underway c fd k has.sock has.peer
    have nobody := has.nobody placed fun slot cmd => by simp [idle]
    obtain ⟨holds, obtains | unfinished⟩ := rests.unless nobody
    · obtain ⟨i, at_⟩ := obtains
      have own := has.only placed (by rw [at_]; rfl)
      rw [own, idle] at at_
      cases at_
    have client : (if (s.node.conns c).buffers then (s.node.conns c).sock else none).bind s.peer = some k := by
      rw [if_pos holds.buffers, has.sock]
      exact has.peer
    cases r with
    | closed => exact absurd keeps id
    | failed => exact absurd keeps id
    | wouldBlock =>
      have refused : connRecv (s.node.conns c) .wouldBlock = (s.node.conns c, -1) := by
        rw [connRecv, if_neg (by simp [holds.ready])]
      simp only [socketEvent, client, arrives, refused]
      exact h.receives placed has idle rfl holds fun part' later' all' whole' holds' => by
        rw [← holds'.first, ← holds.first, ← holds'.received, ← holds.received]
    | bytes n =>
      by_cases empty : s.flight k = []
      · simp only [socketEvent, client, arrives, empty, if_true]
        exact ⟨place, placed, h⟩
      · have room := holds.room unfinished whole empty
        have left := List.length_pos_of_ne_nil empty
        let got := (s.flight k).take (min (n + 1) (s.node.conns c).currRecvSize)
        have length : got.length = min (min (n + 1) (s.node.conns c).currRecvSize) (s.flight k).length :=
          List.length_take
        have some_ : got ≠ [] := List.ne_nil_of_length_pos (by omega)
        have fits : got.length ≤ (s.node.conns c).currRecvSize := by omega
        have prefix_ : got <+: s.flight k := List.take_prefix _ _
        obtain ⟨conn, taken, holds'⟩ := connRecv_whole holds some_ fits
        have same : housing conn = housing (s.node.conns c) := by
          have kept := Transitions.connRecv_tableSide (c := s.node.conns c) (.bytes got none)
          rw [taken] at kept
          exact congrArg (fun t => (t.2.1, t.2.2)) kept
        have goes : socketEvent s j c (.receives (.bytes n)) = goto { setNode s (s.node.setConn c conn) with
            flight := Function.update s.flight k ((s.flight k).drop got.length) } j (.obtaining c) := by
          simp only [socketEvent, client, arrives, empty, if_false]
          rw [show connRecv (s.node.conns c)
            (.bytes ((s.flight k).take (min (n + 1) (s.node.conns c).currRecvSize)) none) = (conn, 1) from taken]
          rfl
        rw [goes]
        refine h.receives placed has idle same holds' fun part' later' all' whole' holds'' => ?_
        have parts : part' = part := by
          rw [← holds''.first, ← holds.first, ← holds''.received, ← holds.received]
        obtain ⟨behind, cut⟩ := prefix_
        rw [parts, List.append_assoc, ← cut, List.drop_left]

/-- The worker has looked for a message of its connection. -/
theorem obtainMessage_served {c : Nat} (h : Served sent s jobs begun) (placed : Placed s place)
    (at_ : s.pc j = .obtaining c)
    (spare : ∀ i d slot cmd, s.pc i = .processing d slot cmd → slot ≠ slotOf s.node.lastReqs) :
    ∃ s' place', obtainMessage s j c = .ok s' ∧ Placed s' place' ∧ Served sent s' jobs begun := by
  have busy : busyWith (s.pc j) = some c := by rw [at_]; rfl
  obtain ⟨fd, there⟩ := placed.handed.working j c busy
  obtain ⟨k, has⟩ := Has.of_watched placed there
  have nobody := has.nobody placed fun slot cmd => by simp [at_]
  have resting := h.resting j fun d slot cmd => by simp [at_]
  have before : ∀ d ≠ c, busyWith (s.pc j) ≠ some d := by
    rw [busy]
    exact fun d other same => other (Option.some.inj same).symm
  have elsewhere {i : Fin cfg.threads} {d slot : Nat} {cmd : Option Nat} (working : s.pc i = .processing d slot cmd) :
      i ≠ j := by
    rintro rfl
    rw [at_] at working
    cases working
  obtain ⟨part, later, all, whole, rests⟩ := h.underway c fd k has.sock has.peer
  obtain ⟨holds, -⟩ := rests.unless nobody
  obtain ⟨done, later', part', split_, parts, unfinished, rest⟩ := split_stream whole
  cases done with
  | nil =>
    have same : part = part' := parts
    subst same
    have kept : s.node.setConn c (s.node.conns c) = s.node := by simp [State.setConn]
    refine ⟨goto s j .polling, place, ?_, ?_, ?_⟩
    · rw [obtainMessage, prepare_partial holds unfinished]
      simp only [kept]
      rfl
    · exact placed.works s.flight s.outputs (fun _ => rfl) (Or.inr ⟨c, busy⟩) (Or.inl rfl)
    · have works := h.works placed has .polling s.node s.flight [] [] (begun j) (List.append_nil _) (fun _ => resting)
        before (fun _ _ => by simp [busyWith]) (fun _ _ => rfl) (fun _ => rfl) (fun _ _ _ _ _ _ => rfl)
        (fun slot used => ?_) rfl h.silent (fun _ _ => rfl) (fun _ mem => by cases mem)
        ⟨part, later, by rw [List.append_nil, all], whole, Or.inr ⟨holds, fun i slot cmd => ?_, Or.inr ?_⟩⟩
      · rw [Function.update_eq_self] at works
        simp only [List.append_nil] at works
        exact works
      · obtain ⟨i, d, cmd, working⟩ := h.used slot used
        exact ⟨i, d, cmd, (Function.update_of_ne (elsewhere working) _ _).trans working⟩
      · rw [Function.update_apply]
        split
        · simp
        · exact nobody i slot cmd
      · rw [split_]
        exact unfinished
  | cons r done =>
    have first : part = r.bytes ++ (stream done ++ part') := parts.trans (List.append_assoc ..)
    subst first
    obtain ⟨commands, size, -⟩ := holds.message
    have room := commands.room
    obtain ⟨conn, prepared, sameBuf, holds'⟩ := prepare_whole holds size (by omega) r.small
    let w := s.node.setConn c conn
    have here : w.conns c = conn := by simp [w, State.setConn]
    have free : (w.reqs (slotOf w.lastReqs)).reqId = noReq := by
      by_contra used
      obtain ⟨i, d, cmd, working⟩ := h.used _ used
      exact spare i d _ cmd working rfl
    obtain ⟨w', entered, after⟩ := enterRequest_whole (w := w) (c := c) (here.symm ▸ holds') free
    have beyond : Elsewhere s.node w' c := by
      have entering := Service.elsewhere_enterRequest (w := w) 0 (here.symm ▸ holds'.requests) free
      rw [entered] at entering
      have preparing := Transitions.connPrepareRecvMessage_tableSide _ prepared
      exact (Service.elsewhere_setConn s.node c preparing).trans entering
    have command : cmdAt conn.recvBuf (messageFirstCmd 0) ≠ .eom := by
      rw [sameBuf, messageFirstCmd, Nat.zero_add]
      rcases commands.inBounds.2 with here | here <;> simp [here]
    refine ⟨goto (setNode s w') j (.processing c (slotOf w.lastReqs) (some messageHeader)), place, ?_, ?_, ?_⟩
    · rw [obtainMessage, prepared]
      simp only [if_neg command]
      rw [show enterRequest (s.node.setConn c conn) c 0 = (w', some (slotOf w.lastReqs)) from entered]
      simp only [after.cmd]
    · exact placed.works s.flight s.outputs beyond.house (Or.inr ⟨c, busy⟩) (Or.inr ⟨c, rfl, fd, has.watched⟩)
    · have works := h.works placed has (.processing c (slotOf w.lastReqs) (some messageHeader)) w' s.flight [] []
        (begun j) (List.append_nil _) (fun _ => resting) before
        (fun d other same => other (Option.some.inj same).symm) beyond.conns beyond.house
        (fun i d slot cmd _ working => after.others slot (spare i d slot cmd working)) (fun slot used => ?_) beyond.flag
        (after.effects.trans h.silent) (fun _ _ => rfl) (fun _ mem => by cases mem)
        ⟨_, later, by rw [List.append_nil, all], whole, Or.inl ⟨j, slotOf w.lastReqs, messageHeader, r, _,
          done ++ later', Function.update_self _ _ _, split_, rfl, ?_⟩⟩
      · rw [Function.update_eq_self] at works
        simp only [List.append_nil] at works
        exact works
      · by_cases new : slot = slotOf w.lastReqs
        · rw [new]
          exact ⟨j, c, _, Function.update_self _ _ _⟩
        · rw [after.others slot new] at used
          obtain ⟨i, d, cmd, working⟩ := h.used slot used
          exact ⟨i, d, cmd, (Function.update_of_ne (elsewhere working) _ _).trans working⟩
      · rw [Function.update_self, resting]
        exact inHand_entered after.holds after.single

/-- The request that a worker executes. -/
theorem Served.processing {c slot : Nat} {cmd : Option Nat} (h : Served sent s jobs begun) (placed : Placed s place)
    (at_ : s.pc j = .processing c slot cmd) :
    ∃ fd k here r rest later, Has s place j fd c k ∧ cmd = some here ∧ sent k = requestsOf k jobs ++ r :: later ∧
      r.bytes ++ rest ++ s.flight k = stream (r :: later) ∧ InHand s.node c slot here r rest (begun j) := by
  obtain ⟨fd, there⟩ := placed.handed.working j c (by rw [at_]; rfl)
  obtain ⟨k, has⟩ := Has.of_watched placed there
  obtain ⟨part, later, all, whole, rests⟩ := h.underway c fd k has.sock has.peer
  rcases rests with ⟨i, slot', here, r, rest, later', working, rfl, rfl, inHand⟩ | ⟨-, nobody, -⟩
  · have own := has.only placed (by rw [working]; rfl)
    rw [own, at_] at working
    cases working
    rw [own] at inHand
    exact ⟨fd, k, here, r, rest, later', has, rfl, all, whole, inHand⟩
  · exact absurd at_ (nobody j slot cmd)

/-- The next COMPUTE of the request has been executed, or the request has been answered. -/
theorem process_served {c slot : Nat} {cmd : Option Nat} (h : Served sent s jobs begun) (placed : Placed s place)
    (at_ : s.pc j = .processing c slot cmd) {kernel : Kernel} (accepting : Accepting kernel) :
    ∃ s' place' jobs' begun', process s j kernel c slot cmd = .ok s' ∧ Placed s' place' ∧
      Served sent s' (jobs ++ jobs') begun' := by
  obtain ⟨fd, k, here, r, rest, later, has, rfl, all, whole, inHand⟩ := h.processing placed at_
  have busy : busyWith (s.pc j) = some c := by rw [at_]; rfl
  have before : ∀ d ≠ c, busyWith (s.pc j) ≠ some d := by
    rw [busy]
    exact fun d other same => other (Option.some.inj same).symm
  let v : State := { s.node with kernel := kernel }
  have inHand' : InHand v c slot here r rest (begun j) := inHand.congr rfl rfl
  rcases inHand'.turn accepting with ⟨time, taken, next, ahead⟩ | ⟨finished, w, out, taken, last, done⟩
  · let v' : State := { v with effects := [] }
    have settled : settle s j (v.emit (.compute slot time)) =
        { setNode s v' with outputs := s.outputs ++ [.computed j time] } := by
      have effects : (v.emit (.compute slot time)).effects = [.compute slot time] := by
        rw [State.emit]
        exact congrArg _ h.silent
      rw [settle, effects]
      rfl
    refine ⟨goto { setNode s v' with outputs := s.outputs ++ [.computed j time] } j
      (.processing c slot (some (here + 8))), place, [], Function.update begun j (begun j ++ [time]), ?_, ?_, ?_⟩
    · rw [process, inHand.single.message]
      simp only
      rw [show processFrom (reqMem s.node slot) slot 0 1 v (some here) = .ok (v.emit (.compute slot time), 1) from
        taken]
      simp only
      rw [show onward (reqMem s.node slot) 0 (some here) 1 = some (here + 8) from next, settled]
    · exact placed.works s.flight _ (fun _ => rfl) (Or.inr ⟨c, busy⟩) (Or.inr ⟨c, rfl, fd, has.watched⟩)
    · refine h.works placed has (.processing c slot (some (here + 8))) v' s.flight [.computed j time] []
        (begun j ++ [time]) (by simp) (fun away => absurd rfl (away c slot _)) before
        (fun d other same => other (Option.some.inj same).symm) (fun _ _ => rfl) (fun _ => rfl)
        (fun _ _ _ _ _ _ => rfl) (fun slot' used => ?_) rfl rfl (fun _ _ => rfl) (fun _ mem => by cases mem)
        ⟨_, _, by rw [List.append_nil, all], whole, Or.inl ⟨j, slot, here + 8, r, rest, later,
          Function.update_self _ _ _, rfl, rfl, ?_⟩⟩
      · obtain ⟨i, d, cmd, working⟩ := h.used slot' used
        by_cases own : i = j
        · rw [own, at_] at working
          cases working
          exact ⟨j, c, _, Function.update_self _ _ _⟩
        · exact ⟨i, d, cmd, (Function.update_of_ne own _ _).trans working⟩
      · rw [Function.update_self]
        exact ahead.congr rfl rfl
  · let job : Job cfg.threads := ⟨j, k, r, out⟩
    let w' : State := { w with effects := [] }
    have sock : (w.conns c).sock = some fd := (congrArg Prod.snd (done.elsewhere.house c)).trans has.sock
    have settled : settle s j w = { setNode s w' with outputs := s.outputs ++ [.sent j k out] } := by
      have effects : w.effects = [.wire c out] := by
        rw [done.effects]
        exact congrArg _ h.silent
      rw [settle, effects]
      simp [perform, setNode, sock, has.peer, w']
    refine ⟨goto { setNode s w' with outputs := s.outputs ++ [.sent j k out] } j (.obtaining c), place, [job],
      Function.update begun j [], ?_, ?_, ?_⟩
    · rw [process, inHand.single.message]
      simp only
      rw [show processFrom (reqMem s.node slot) slot 0 1 v (some here) = .ok (w, 1) from taken]
      simp only
      rw [show onward (reqMem s.node slot) 0 (some here) 1 = none from last, settled]
      rfl
    · exact placed.works s.flight _ done.elsewhere.house (Or.inr ⟨c, busy⟩) (Or.inr ⟨c, rfl, fd, has.watched⟩)
    · refine h.works placed has (.obtaining c) w' s.flight [.sent j k out] [job] [] ?_ (fun _ => rfl) before
        (fun d other same => other (Option.some.inj same).symm) done.elsewhere.conns done.elsewhere.house
        (fun i d slot' cmd other working => ?_) (fun slot' used => ?_) done.elsewhere.flag rfl (fun _ _ => rfl) ?_
        ⟨rest, later, ?_, ?_, Or.inr ⟨done.holds, fun i slot' cmd => ?_, Or.inl ⟨j, Function.update_self _ _ _⟩⟩⟩
      · rw [finished]
        simp [job, Job.outputs]
      · obtain ⟨_, _, _, _, _, _, -, -, -, -, inHand''⟩ := h.processing placed working
        refine done.others slot' ?_
        rintro rfl
        exact other (inHand''.single.conn.symm.trans inHand.single.conn)
      · have differs : slot' ≠ slot := by
          rintro rfl
          exact used done.freed
        have used' : (s.node.reqs slot').reqId ≠ noReq := by
          rw [← show w.reqs slot' = s.node.reqs slot' from done.others slot' differs]
          exact used
        obtain ⟨i, d, cmd, working⟩ := h.used slot' used'
        refine ⟨i, d, cmd, (Function.update_of_ne ?_ _ _).trans working⟩
        rintro rfl
        rw [at_] at working
        cases working
        exact differs rfl
      · intro job' mem
        rw [List.mem_singleton.mp mem]
        exact ⟨rfl, rfl, done.response⟩
      · have served : requestsOf k [job] = [r] := by simp [requestsOf, job]
        rw [all, requestsOf_append, served, List.append_assoc]
        rfl
      · rw [List.append_assoc] at whole
        exact List.append_cancel_left whole
      · rw [Function.update_apply]
        split
        · simp
        · rename_i differs
          intro working
          exact differs (has.only placed (by rw [working]; rfl))

end Served

/-! ## The steps of a run -/

/-- The connections have their places, and their requests are served. -/
def Running (sent : Nat → List Request) (s : System cfg) : Prop :=
  ∃ place jobs begun, Placed s place ∧ Served sent s jobs begun

/-- The clients keep their connections open, and the sockets take the responses. -/
def Fair (cfg : Config) : Move → Prop
  | .event _ answer => Answer.Open cfg answer
  | .go _ kernel => Accepting kernel

/-- The next slot for a request is not that of one that is being executed. -/
def Regular (s : System cfg) (m : Fin cfg.threads × Move) : Prop :=
  Fair cfg m.2 ∧ ∀ i c slot cmd, s.pc i = .processing c slot cmd → slot ≠ slotOf s.node.lastReqs

theorem watchList_kinds (socks : List Nat) (i : Fin cfg.threads) :
    ∀ e ∈ watchList cfg socks i, e.2 ≠ .socket ∧ (e.2 = .dispatch → e.1 = cfg.fd (.dispatch i)) := by
  intro e mem
  simp only [watchList, List.mem_append] at mem
  rcases mem with (((listens | fixed) | stats) | storage) | dispatch
  · split at listens
    · obtain ⟨fd, -, rfl⟩ := List.mem_map.mp listens
      exact ⟨by simp, by simp⟩
    · cases listens
  · simp only [List.mem_cons, List.not_mem_nil, or_false] at fixed
    rcases fixed with rfl | rfl
    · exact ⟨by simp, by simp⟩
    · exact ⟨by simp, by simp⟩
  · split at stats
    · rw [List.mem_singleton.mp stats]
      exact ⟨by simp, by simp⟩
    · cases stats
  · obtain ⟨d, -, rfl⟩ := List.mem_map.mp storage
    exact ⟨by simp, by simp⟩
  · split at dispatch
    · rw [List.mem_singleton.mp dispatch]
      exact ⟨by simp, fun _ => rfl⟩
    · cases dispatch

section Run

variable {sent : Nat → List Request} {s s' : System cfg} {place : Nat → Option (Place cfg.threads)}
  {jobs : List (Job cfg.threads)} {begun : Fin cfg.threads → List Nat} {j : Fin cfg.threads}

/-- What an event means to a worker. -/
theorem event_means (h : Placed s place) {fd aux : Nat} (here : (s.dwPoll j).watches fd = some aux) :
    (∃ c k, Has s place j fd c k ∧ l2i aux = (EventKind.socket.code, c)) ∨
      ∃ event, l2i aux = (EventKind.code event, fd) ∧ event ≠ .socket ∧
        (event = .dispatch → fd = cfg.fd (.dispatch j)) := by
  rcases (h.watched.watches j fd aux).mp here with mem | ⟨c, there, rfl⟩
  · right
    obtain ⟨e, inside, same⟩ := List.mem_map.mp mem
    obtain ⟨d, ours⟩ := watchList_own (h.listening j) j e inside
    obtain ⟨other, dispatch⟩ := watchList_kinds _ j e inside
    obtain ⟨fd', event⟩ := e
    cases same
    have small : fd' < 2 ^ 32 := by
      have below := cfg.fd_small d
      rw [ours] at below
      exact below.trans (by decide)
    have code : event.code < 2 ^ 32 := by cases event <;> decide
    exact ⟨event, l2i_i2l code small, other, dispatch⟩
  · left
    obtain ⟨k, has⟩ := Has.of_watched h there
    have small : c < 2 ^ 32 := (h.slotted.socks fd c has.slot).2.trans (by decide)
    exact ⟨c, k, has, l2i_i2l (by decide) small⟩

theorem running_accept (h : Placed s place) (served : Served sent s jobs begun) (idle : s.pc j = .polling) (lsock : Nat)
    (answer : Answer) : Running sent (acceptEvent s j lsock answer) := by
  cases answer with
  | receives r => exact ⟨place, jobs, begun, h, served⟩
  | reads => exact ⟨place, jobs, begun, h, served⟩
  | accepts fd addr =>
    rw [acceptEvent]
    split
    · rename_i free
      obtain ⟨closed, others, -⟩ := free
      have foreign : fd ∉ own cfg := by
        rintro ⟨d, same⟩
        exact others d same
      have nowhere : place fd = none := by
        have open_ := h.opened.peers fd
        rw [closed] at open_
        exact Option.isNone_iff_eq_none.mp (Option.isSome_eq_false_iff.mp open_)
      split
      · exact ⟨_, jobs, begun, placed_accept h idle foreign closed,
          served.acceptEvent idle (unhoused h foreign (by rw [view, nowhere]; rfl))⟩
      · refine ⟨place, jobs, begun, ⟨⟨h.opened.peers, h.opened.distinct, fun fd k peer => ?_, h.opened.foreign⟩,
          h.slotted, h.handed, h.paired, h.watched, h.given, h.dropped, h.listening⟩, served.outputs, served.resting,
          served.responses, served.workers, served.underway, served.waiting, served.alone, served.used, served.flag,
          served.silent⟩
        exact Nat.lt_succ_of_lt (h.opened.known fd k peer)
    · exact ⟨place, jobs, begun, h, served⟩

theorem running_event (h : Placed s place) (served : Served sent s jobs begun) (idle : s.pc j = .polling) {fd aux : Nat}
    (here : (s.dwPoll j).watches fd = some aux) {answer : Answer} (keeps : Answer.Open cfg answer) :
    ∃ s', takeEvent s j answer (l2i aux) = .ok s' ∧ Running sent s' := by
  rcases event_means h here with ⟨c, k, has, means⟩ | ⟨event, means, other, dispatch⟩
  · obtain ⟨place', after, serves⟩ := socketEvent_served served h has idle keeps
    exact ⟨_, by rw [means]; rfl, place', jobs, begun, after, serves⟩
  · rw [means]
    cases event with
    | listen => exact ⟨_, rfl, running_accept h served idle fd answer⟩
    | socket => exact absurd rfl other
    | dispatch =>
      obtain ⟨place', after⟩ := placed_dispatchEvent h idle
      exact ⟨_, if_pos (dispatch rfl), place', jobs, begun, after, served.dispatchEvent idle⟩
    | storage => exact ⟨s, rfl, place, jobs, begun, h, served⟩
    | timer => exact ⟨s, rfl, place, jobs, begun, h, served⟩
    | connect => exact ⟨s, rfl, place, jobs, begun, h, served⟩
    | stats => exact ⟨s, rfl, place, jobs, begun, h, served⟩
    | termination => exact ⟨s, rfl, place, jobs, begun, h, served⟩

/-- Every step of a worker leads on. -/
theorem Running.step (running : Running sent s) {m : Fin cfg.threads × Move} (regular : Regular s m) :
    ∃ s', ConnThreads.step s m = some s' ∧ Running sent s' := by
  suffices goes : ∃ s', advance s m.1 m.2 = .ok s' ∧ Running sent s' by
    obtain ⟨s', taken, after⟩ := goes
    exact ⟨s', by rw [ConnThreads.step, taken]; rfl, after⟩
  obtain ⟨place, jobs, begun, h, served⟩ := running
  obtain ⟨j, m⟩ := m
  obtain ⟨fair, spare⟩ := regular
  cases m with
  | event fd answer =>
    simp only [advance]
    split
    · rename_i aux idle here
      exact running_event h served idle here fair
    · exact ⟨s, rfl, place, jobs, begun, h, served⟩
  | go memory kernel =>
    simp only [advance]
    cases at_ : s.pc j with
    | polling => exact ⟨s, rfl, place, jobs, begun, h, served⟩
    | claiming fd addr i =>
      obtain ⟨place', after⟩ := placed_claimSlot h at_
      exact ⟨_, rfl, place', jobs, begun, after, served.claimSlot h at_⟩
    | claimed fd addr c =>
      obtain ⟨place', after⟩ := placed_fillSlot h at_ memory
      exact ⟨_, rfl, place', jobs, begun, after, served.fillSlot h memory at_⟩
    | assigning fd c =>
      obtain ⟨s', place', taken, after⟩ := placed_assignThread h at_
      exact ⟨s', taken, place', jobs, begun, after, served.assignThread at_ taken⟩
    | handing fd c t =>
      obtain ⟨place', after⟩ := placed_handOver h at_
      exact ⟨_, rfl, place', jobs, begun, after, served.handOver at_⟩
    | taking c =>
      obtain ⟨s', place', taken, after⟩ := placed_takeOver h at_
      exact ⟨s', taken, place', jobs, begun, after, served.takeOver at_ taken⟩
    | obtaining c =>
      obtain ⟨s', place', taken, after, serves⟩ := obtainMessage_served served h at_ spare
      exact ⟨s', taken, place', jobs, begun, after, serves⟩
    | processing c slot cmd =>
      obtain ⟨s', place', jobs', begun', taken, after, serves⟩ := process_served served h at_ fair
      exact ⟨s', taken, place', jobs ++ jobs', begun', after, serves⟩
    | failing c => exact absurd at_ ((h.handed.whole j).1 c)
    | forgetting fd =>
      obtain ⟨place', after⟩ := placed_forget h at_
      exact ⟨_, rfl, place', jobs, begun, after, served.forget at_⟩
    | finding fd i =>
      obtain ⟨place', after⟩ := placed_findSock h at_
      refine ⟨_, rfl, place', jobs, begun, after, ?_⟩
      have before : busyWith (s.pc j) = none := by rw [at_]; rfl
      rw [findSock]
      split
      · split
        · exact served.goes before rfl
        · exact served.goes before rfl
      · exact served.goes before rfl
    | deleting fd c => exact absurd at_ ((h.handed.whole j).2 fd c)
    | closing fd =>
      obtain ⟨place', after⟩ := placed_closeSock h at_
      exact ⟨_, rfl, place', jobs, begun, after, served.closeSock h at_⟩

theorem running_start {storageFd : Nat → Nat} {files : Nat → Mem} (started : start cfg storageFd files sent = .ok s) :
    Running sent s := by
  have placed := ThreadStart.placed_start started
  obtain ⟨b, done, polls, boot, -, rfl⟩ := ThreadStart.start_cases started
  exact ⟨_, [], fun _ => [], placed, fun _ => rfl, fun _ _ => rfl, fun _ mem => (by cases mem),
    fun _ mem => (by cases mem), fun _ _ _ _ peer => (by cases peer), fun _ _ => ⟨rfl, rfl⟩, fun c _ => boot.alone c,
    fun slot used => absurd (boot.free slot) used, boot.flag, boot.silent⟩

theorem running_reached {storageFd : Nat → Nat} {files : Nat → Mem} {s₀ : System cfg}
    (started : start cfg storageFd files sent = .ok s₀) (reached : EventRuns.Reaches ConnThreads.step s₀ Regular s) :
    Running sent s := by
  refine reached.invariant (running_start started) fun s s' m running regular taken => ?_
  obtain ⟨s'', taken', after⟩ := running.step regular
  cases taken.symm.trans taken'
  exact after

/-! ## What holds in every run -/

/-- A client has one connection. -/
theorem client_once (h : Placed s place) {a b : Assignment cfg.threads} (memA : a ∈ s.assigned) (memB : b ∈ s.assigned)
    (client : a.client = b.client) : a = b := by
  obtain ⟨fd, given, peer⟩ := (h.given.members a).mp memA
  obtain ⟨fd', given', peer'⟩ := (h.given.members b).mp memB
  have same := h.opened.distinct fd fd' a.client peer (client ▸ peer')
  rw [same, given'] at given
  have conns : a.conn = b.conn := (congrArg Prod.snd (Option.some.inj given)).symm
  exact List.inj_on_of_nodup_map h.given.once memA memB conns

/-- However the workers take turns and their outputs are mixed, what each of them computes
and sends is one job after the other, and at last the first COMPUTEs of a request of a client
of its own. The jobs of a client are its first requests, in order and once each, and are all
done by the worker that the client was given to. What the client has sent beyond them is in
the buffer of its connection or in flight. When nothing of it is in flight and the workers
wait all its requests have been served. -/
theorem threads_serve {storageFd : Nat → Nat} {files : Nat → Mem} {s₀ : System cfg}
    (started : start cfg storageFd files sent = .ok s₀) (reached : EventRuns.Reaches ConnThreads.step s₀ Regular s) :
    ∃ (jobs : List (Job cfg.threads)) (begun : Fin cfg.threads → List Nat),
      (∀ t, outputsOf t s.outputs = (jobsOf t jobs).flatMap Job.outputs ++ (begun t).map (.computed t)) ∧
      (∀ t, begun t = [] ∨ ∃ k c r later, ⟨k, c, t⟩ ∈ s.assigned ∧ sent k = requestsOf k jobs ++ r :: later ∧
        begun t <+: r.times) ∧
      (∀ t, s.pc t = .polling → begun t = []) ∧
      (∀ j ∈ jobs, Response j.request j.response ∧ ∃ c, ⟨j.client, c, j.worker⟩ ∈ s.assigned) ∧
      (∀ j ∈ jobs, ∀ j' ∈ jobs, j.client = j'.client → j.worker = j'.worker) ∧
      ∀ k, (∃ part later, sent k = requestsOf k jobs ++ later ∧ part ++ s.flight k = stream later) ∧
        (s.flight k = [] → (∀ t, s.pc t = .polling) → requestsOf k jobs = sent k) := by
  obtain ⟨place, jobs, begun, h, served⟩ := running_reached started reached
  refine ⟨jobs, begun, served.outputs, fun t => ?_, fun t idle => served.resting t fun c slot cmd => by simp [idle],
    fun j mem => ⟨served.responses j mem, served.workers j mem⟩, fun j mem j' mem' same => ?_, fun k => ?_⟩
  · by_cases executing : ∃ c slot cmd, s.pc t = .processing c slot cmd
    · obtain ⟨c, slot, cmd, at_⟩ := executing
      obtain ⟨fd, k, here, r, rest, later, has, -, all, -, inHand⟩ := served.processing h at_
      obtain ⟨times, split_, -⟩ := inHand.ahead
      exact Or.inr ⟨k, c, r, later, has.assigned, all, times, split_.symm⟩
    · exact Or.inl (served.resting t fun c slot cmd at_ => executing ⟨c, slot, cmd, at_⟩)
  · obtain ⟨c, member⟩ := served.workers j mem
    obtain ⟨c', member'⟩ := served.workers j' mem'
    exact congrArg Assignment.worker (client_once h member member' same)
  · by_cases housed : ∃ c fd, (s.node.conns c).sock = some fd ∧ s.peer fd = some k
    · obtain ⟨c, fd, sock, peer⟩ := housed
      obtain ⟨part, later, all, whole, rests⟩ := served.underway c fd k sock peer
      refine ⟨⟨part, later, all, whole⟩, fun empty idle => ?_⟩
      obtain ⟨-, ⟨i, obtains⟩ | unfinished⟩ := rests.unless fun i slot cmd at_ => by rw [idle i] at at_; cases at_
      · rw [idle i] at obtains
        cases obtains
      · rw [empty, List.append_nil] at whole
        obtain ⟨rfl, -⟩ := partial_end unfinished whole
        rw [all, List.append_nil]
    · obtain ⟨none_, all⟩ := served.waiting k fun c fd sock peer => housed ⟨c, fd, sock, peer⟩
      refine ⟨⟨[], sent k, by rw [none_, List.nil_append], all⟩, fun empty _ => ?_⟩
      rw [empty] at all
      rw [none_]
      exact (partial_end (partial_nil (sent k)) all).1.symm

/-! ## Two workers -/

/-- The state after the moves, while each finds the next slot free. -/
def calm (s : System cfg) : List (Fin cfg.threads × Move) → Option (System cfg)
  | [] => some s
  | m :: moves =>
    let free := (List.finRange cfg.threads).all fun i => match s.pc i with
      | .processing _ slot _ => slot != slotOf s.node.lastReqs
      | _ => true
    if free then (ConnThreads.step s m).bind fun s' => calm s' moves else none

theorem reaches_calm {s₀ s s' : System cfg} {moves : List (Fin cfg.threads × Move)}
    (reached : EventRuns.Reaches ConnThreads.step s₀ Regular s) (fair : ∀ m ∈ moves, Fair cfg m.2)
    (ran : calm s moves = some s') : EventRuns.Reaches ConnThreads.step s₀ Regular s' := by
  induction moves generalizing s with
  | nil =>
    cases ran
    exact reached
  | cons m moves ih =>
    obtain ⟨head, tail⟩ := List.forall_mem_cons.mp fair
    simp only [calm] at ran
    split at ran
    · rename_i free
      obtain ⟨v, taken, later⟩ := Option.bind_eq_some_iff.mp ran
      refine ih (reached.step m ⟨head, fun i c slot cmd at_ => ?_⟩ taken) tail later
      have mine := List.all_eq_true.mp free i (List.mem_finRange i)
      rw [at_] at mine
      simpa using mine
    · cases ran

def twoFds : Own 2 1 0 → Nat
  | .listen i _ => 3 + i
  | .termination => 10
  | .timer i => 11 + i
  | .stat => 13
  | .storeReply _ d => d.elim0
  | .dispatch i => 14 + i

/-- A parent and a second worker that wait in `select()`. -/
def twoWorkers : Config where
  threads := 2
  binds := 1
  devices := 0
  acceptMode := .parent
  pollMode := .select
  bindAddr := fun _ => []
  fd := twoFds
  fd_injective := by decide
  fd_small := by decide
  fd_select := fun _ => by decide

/-- Each of the first two clients sends one request. -/
def oneEach : Nat → List Request := fun k => if k < 2 then [walkRequest] else []

def goOn (j : Fin 2) (n : Nat) : List (Fin 2 × Move) := List.replicate n (j, .go true .silent)

/-- The parent accepts both clients. Between the COMPUTE and the REPLY of the first one the
second worker serves the second one. -/
def bothServed : List (Fin 2 × Move) :=
  (0, .event 3 (.accepts 20 [])) :: goOn 0 5 ++ (0, .event 3 (.accepts 21 [])) :: goOn 0 6 ++
    (0, .event 14 .reads) :: goOn 0 1 ++ (1, .event 15 .reads) :: goOn 1 1 ++
    [(0, .event 20 (.receives (.bytes 39))), (1, .event 21 (.receives (.bytes 39)))] ++ goOn 0 2 ++ goOn 1 4 ++ goOn 0 2

theorem fair_goOn (j : Fin 2) (n : Nat) : ∀ m ∈ goOn j n, Fair twoWorkers m.2 := by
  intro m mem
  rw [List.eq_of_mem_replicate mem]
  exact accepting_silent

theorem fair_bothServed : ∀ m ∈ bothServed, Fair twoWorkers m.2 := by
  have goes := fair_goOn
  have small {fd : Nat} (below : fd < fdSetsize) : Answer.Open twoWorkers (.accepts fd []) := fun _ => below
  simp only [bothServed, List.forall_mem_append, List.forall_mem_cons]
  and_intros <;> first | trivial | exact goes _ _ | exact small (by decide) | exact List.forall_mem_nil _

theorem both_reached : ∃ s₀ s : System twoWorkers, start twoWorkers (fun _ => 0) (fun _ _ => 0) oneEach = .ok s₀ ∧
    EventRuns.Reaches ConnThreads.step s₀ Regular s ∧ s.assigned.length = 2 ∧
    s.outputs.map Output.worker = [(0 : Fin 2), (1 : Fin 2), (1 : Fin 2), (0 : Fin 2)] ∧
    s.flight 0 = [] ∧ s.flight 1 = [] ∧ ∀ t, s.pc t = .polling := by
  obtain ⟨s₀, s, started, ran, assigned, outputs, first, second, parent, child⟩ : ∃ s₀ s : System twoWorkers,
      start twoWorkers (fun _ => 0) (fun _ _ => 0) oneEach = .ok s₀ ∧ calm s₀ bothServed = some s ∧
      s.assigned.length = 2 ∧ s.outputs.map Output.worker = [(0 : Fin 2), (1 : Fin 2), (1 : Fin 2), (0 : Fin 2)] ∧
      s.flight 0 = [] ∧ s.flight 1 = [] ∧
      s.pc (0 : Fin 2) = .polling ∧ s.pc (1 : Fin 2) = .polling :=
    ⟨_, _, rfl, rfl, rfl, rfl, rfl, rfl, rfl, rfl⟩
  exact ⟨s₀, s, started, reaches_calm .init fair_bothServed ran, assigned, outputs, first, second,
    Fin.forall_fin_two.mpr ⟨parent, child⟩⟩

theorem threads_serve_two : ∃ (s : System twoWorkers) (jobs : List (Job twoWorkers.threads)),
    s.outputs.map Output.worker = [(0 : Fin 2), (1 : Fin 2), (1 : Fin 2), (0 : Fin 2)] ∧
    (∀ t, outputsOf t s.outputs = (jobsOf t jobs).flatMap Job.outputs) ∧
    (∀ j ∈ jobs, Response j.request j.response) ∧
    requestsOf 0 jobs = [walkRequest] ∧ requestsOf 1 jobs = [walkRequest] := by
  obtain ⟨s₀, s, started, reached, -, outputs, first, second, idle⟩ := both_reached
  obtain ⟨jobs, begun, shown, -, resting, done, -, served⟩ := threads_serve started reached
  refine ⟨s, jobs, outputs, fun t => ?_, fun j mem => (done j mem).1, (served 0).2 first idle, (served 1).2 second idle⟩
  rw [shown t, resting t (idle t)]
  exact List.append_nil _

end Run

end ThreadService
