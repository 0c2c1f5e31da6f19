import DistWalk.ConnectionSlots
import DistWalk.LayoutSteps
import DistWalk.Segmentation

/-!
# Many clients at one worker

Clients connect at any time and send requests of COMPUTEs and one REPLY. The bytes of
different connections arrive in any order and in any pieces. Each connection is served as
if it were the only one: its requests are executed and answered once, in their order, and
the response goes out on the connection of its request.
-/

namespace Service

open ByteMemory Message Connection Worker Timeout Node Requests Segmentation

open SendStream (memOf)

/-! ## The response -/

/-- The response to `r` as its REPLY asks for it. A file is sent without the EOM. -/
structure Response (r : Request) (out : List UInt8) : Prop where
  length : out.length = r.opts.respSize
  id : reqIdOf (memOf out) 0 = reqIdOf (memOf r.bytes) 0
  framed : r.opts.mode ≠ .sendfile → reqSizeOf (memOf out) 0 = out.length ∧
    statusOf (memOf out) 0 = statusOf (memOf r.bytes) 0 ∧ cmdAt (memOf out) messageHeader = .eom

/-- The words that `fillReply` writes behind the size. -/
theorem fillReply_rest (conn : ConnInfo) (mem : Mem) (m : Nat) (opts : ReplyOpts) :
    statusOf (fillReply conn mem m opts 0).sendBuf 0 = statusOf mem m ∧
      cmdAt (fillReply conn mem m opts 0).sendBuf messageHeader = .eom := by
  constructor
  · simp only [fillReply, statusOf, setStatus]
    exact u32_storeU32 _ _ (u32_lt _ _)
  · simp only [fillReply, cmdAt, setStatus, storeU32, messageFirstCmd, Nat.zero_add]
    rw [u32_store_disjoint _ _ _ _ (Or.inr (by simp [messageHeader, u32Bytes]))]
    exact congrArg CommandType.ofCode (u32_storeU32 _ _ (by decide))

/-- What an idle connection sends where the socket takes all of it. -/
theorem connStartSend_drains (conn : ConnInfo) (target : Addr) {n size : Nat} (ready : conn.status = .ready)
    (drained : conn.currSendBuf = 0 ∧ conn.currSendSize = 0) (filled : reqSizeOf conn.sendBuf 0 = size)
    (positive : 0 < size) (takes : size ≤ n) : connStartSend conn target (.done n) =
      ⟨{ conn with target := target, currSendBuf := 0, currSendSize := 0 }, size, slice conn.sendBuf 0 size⟩ := by
  let staged : ConnInfo := { conn with target := target, currSendBuf := 0, currSendSize := size }
  have now : conn.status.deferred = false := by
    rw [ready]
    rfl
  have sends : connStartSend conn target (.done n) = connSend staged (.done n) := by
    simp only [connStartSend, drained.2, if_true, Nat.zero_add, filled, now, Bool.false_eq_true, if_false]
    rfl
  rw [sends]
  exact connSend_whole ready positive takes

/-- A socket that takes everything gets the response from the drained send buffer. -/
theorem startSendOn_whole {w : State} {c size proc : Nat} {bytes : List UInt8} {requests : Option Nat}
    (holds : Holds (w.conns c) bytes proc requests) (accepting : Accepting w.kernel) (target : Addr)
    (filled : reqSizeOf (w.conns c).sendBuf 0 = size) (positive : 0 < size) (small : size ≤ bufSize) :
    (startSendOn w c target).1.effects = .wire c (slice (w.conns c).sendBuf 0 size) :: w.effects := by
  obtain ⟨n, kernel, took, all, -⟩ := takeSend_whole w c accepting
  have ready : (w.conns c).status.deferred = false := by
    rw [holds.ready]
    rfl
  have sends := connStartSend_drains (w.conns c) target holds.ready holds.drained filled positive (small.trans all)
  rw [startSendOn, ready]
  simp only [Bool.false_eq_true, if_false, took, sends]
  rfl

theorem tableless_effects : Tableless State.effects :=
  ⟨fun _ _ _ => rfl, fun _ _ _ _ => rfl, fun _ _ => rfl, fun _ _ => rfl⟩

/-- What `reply` sends where no file is asked for. -/
theorem reply_framed {w w' : State} {slot c cmd proc : Nat} {bytes : List UInt8} {requests : Option Nat} {ret : Int}
    (own : (w.reqs slot).connId = c) (holds : Holds (w.conns c) bytes proc requests)
    (accepting : Accepting w.kernel)
    (large : messageHeader + commandHeader ≤ (replyOpts (w.conns c).recvBuf cmd).respSize)
    (small : (replyOpts (w.conns c).recvBuf cmd).respSize ≤ bufSize)
    (normal : (replyOpts (w.conns c).recvBuf cmd).mode ≠ .sendfile)
    (replied : reply w slot 0 cmd = .ok (w', ret)) :
    ∃ buf, w'.effects = .wire c (slice buf 0 (replyOpts (w.conns c).recvBuf cmd).respSize) :: w.effects ∧
      reqSizeOf buf 0 = (replyOpts (w.conns c).recvBuf cmd).respSize ∧
      statusOf buf 0 = statusOf (w.conns c).recvBuf 0 ∧ cmdAt buf messageHeader = .eom := by
  subst own
  generalize asked : replyOpts (w.conns (w.reqs slot).connId).recvBuf cmd = opts at large small normal
  let prepared : ConnInfo := { w.conns (w.reqs slot).connId with
    sendBuf := setReqSize (w.conns (w.reqs slot).connId).sendBuf 0 bufSize }
  let conn := fillReply prepared (w.conns (w.reqs slot).connId).recvBuf 0 opts 0
  let filled := w.setConn (w.reqs slot).connId conn
  have here : filled.conns (w.reqs slot).connId = conn := by simp [filled, State.setConn]
  have holds' : Holds (filled.conns (w.reqs slot).connId) bytes proc requests := by
    rw [here]
    exact ⟨holds.opened, holds.buffers, holds.ready, holds.defrag, holds.drained, holds.first, holds.received,
      holds.space, holds.processed, holds.requests⟩
  have sized := (fillReply_header prepared (w.conns (w.reqs slot).connId).recvBuf 0 small).1
  obtain ⟨status, eom⟩ := fillReply_rest prepared (w.conns (w.reqs slot).connId).recvBuf 0 opts
  refine ⟨conn.sendBuf, ?_, sized, status, eom⟩
  have fits : ¬ reqSizeOf prepared.sendBuf 0 < opts.respSize := by
    rw [show reqSizeOf prepared.sendBuf 0 = bufSize from u32_storeU32 _ _ (by decide)]
    exact not_lt.mpr small
  simp only [messageHeader, commandHeader] at large
  have sent := startSendOn_whole holds' accepting (w.reqs slot).target (by rw [here]; exact sized)
    (by omega) small
  rw [here] at sent
  have transmitted : transmitReply filled slot (w.reqs slot).connId opts =
      .ok (startSendOn filled (w.reqs slot).connId (w.reqs slot).target) := by
    cases mode : opts.mode with
    | sendfile => exact absurd mode normal
    | normal =>
      rw [transmitReply, mode]
      rfl
    | other code =>
      rw [transmitReply, mode]
      rfl
  simp only [reply, reqMem, prepare_drained holds.drained, asked] at replied
  rw [if_neg fits] at replied
  have same := (congrArg (Except.map _) transmitted).symm.trans replied
  cases same
  exact (tableless_effects.connReqRemove _ _ _).trans sent

/-! ## The other connections -/

/-- The other connections are as they were, and no slot is taken or given back. -/
structure Elsewhere (w w' : State) (c : Nat) : Prop where
  conns : ∀ d ≠ c, w'.conns d = w.conns d
  house : ∀ d, housing (w'.conns d) = housing (w.conns d)
  flag : w'.enableDefrag = w.enableDefrag
  nextFd : w.nextFd ≤ w'.nextFd

theorem Elsewhere.refl (w : State) (c : Nat) : Elsewhere w w c := ⟨fun _ _ => rfl, fun _ => rfl, rfl, Nat.le_refl _⟩

theorem Elsewhere.trans {a b d : State} {c : Nat} (h : Elsewhere a b c) (h' : Elsewhere b d c) : Elsewhere a d c :=
  ⟨fun i other => (h'.conns i other).trans (h.conns i other), fun i => (h'.house i).trans (h.house i),
    h'.flag.trans h.flag, Nat.le_trans h.nextFd h'.nextFd⟩

theorem elsewhere_setConn (w : State) (c : Nat) {conn : ConnInfo}
    (same : Transitions.tableSide conn = Transitions.tableSide (w.conns c)) : Elsewhere w (w.setConn c conn) c := by
  have housed : housing conn = housing (w.conns c) := congrArg (fun t => (t.2.1, t.2.2)) same
  exact ⟨fun d other => by simp [State.setConn, other], congrFun (tableless_housing.setConn w c conn housed), rfl,
    Nat.le_refl _⟩

theorem connReqRemove_others (w : State) {c d : Nat} (slot : Nat) (other : d ≠ c) :
    (connReqRemove w c slot).conns d = w.conns d := by
  have reclaimed : (reclaim w c slot).conns d = w.conns d := by
    unfold reclaim
    split
    · rfl
    · split
      · rw [ReceiveQueue.shiftNewer_conns]
        simp [State.setConn, other]
      · rfl
  rw [connReqRemove, Transitions.reqUnlink_conns, dropHead]
  split
  · rw [← reclaimed]
    simp [State.setConn, other]
  · exact reclaimed

theorem elsewhere_reply {w w' : State} {slot m cmd : Nat} {ret : Int} (h : reply w slot m cmd = .ok (w', ret)) :
    Elsewhere w w' (w.reqs slot).connId := by
  obtain ⟨v, quiet, -, others, rfl⟩ := LayoutSteps.reply_cases h
  have flag := tableless_enableDefrag.connReqRemove v (w.reqs slot).connId slot
  have nextFd := tableless_nextFd.connReqRemove v (w.reqs slot).connId slot
  have house := tableless_housing.connReqRemove v (w.reqs slot).connId slot
  have kept (d : Nat) : housing (v.conns d) = housing (w.conns d) :=
    congrArg (fun t => (t.2.2.2.2.2.1, t.2.2.2.2.2.2.1)) (quiet.conns d)
  refine ⟨fun d other => ?_, fun d => (congrFun house d).trans (kept d), flag.trans quiet.flag, quiet.nextFd.trans (Nat.le_of_eq nextFd.symm)⟩
  exact (connReqRemove_others v slot other).trans (others d other)

/-! ## One request -/

theorem processReply_served {w : State} {slot c cmd : Nat} {message rest : List UInt8} (single : Single w c slot)
    (holds : Holds (w.conns c) (message ++ rest) message.length (some slot)) (accepting : Accepting w.kernel)
    (size : reqSizeOf (w.conns c).recvBuf 0 = message.length)
    (large : messageHeader + commandHeader ≤ (replyOpts (w.conns c).recvBuf cmd).respSize)
    (small : (replyOpts (w.conns c).recvBuf cmd).respSize ≤ bufSize) :
    ∃ w' ret, processReply w slot 0 cmd = .ok (w', 1) ∧ reply w slot 0 cmd = .ok (w', ret) ∧
      Answered w w' c slot (reqIdOf (w.conns c).recvBuf 0) (replyOpts (w.conns c).recvBuf cmd) rest := by
  obtain ⟨w', ret, replied, nonzero, answered⟩ := reply_whole single holds accepting size large small
  have ready := answered.holds.ready
  refine ⟨w', ret, ?_, replied, answered⟩
  simp [processReply, single.conn, replied, ready, nonzero]

/-- A request that has been executed, and what was sent for it. -/
structure Job where
  conn : Nat
  request : Request
  response : List UInt8

/-- What a job shows to the outside when its request has the id `id`. -/
def Job.effects (id : Nat) (j : Job) : List Effect :=
  j.request.times.map (.compute (slotOf id)) ++ [.wire j.conn j.response]

/-- What the worker has done when the next request of connection `c` has been executed. -/
structure Executed (w w' : State) (c : Nat) (j : Job) (rest : List UInt8) : Prop where
  own : j.conn = c
  effects : w'.effects = (j.effects w.lastReqs).reverse ++ w.effects
  response : Response j.request j.response
  holds : Holds (w'.conns c) rest 0 none
  next : w'.lastReqs = (w.lastReqs + 1) % 2 ^ 32
  free : ∀ s, (w.reqs s).reqId = noReq → (w'.reqs s).reqId = noReq
  accepting : Accepting w'.kernel
  elsewhere : Elsewhere w w' c

section Round

variable {w w' : State} {c : Nat} {r : Request} {rest : List UInt8}

theorem elsewhere_enterRequest (m : Nat) (alone : (w.conns c).reqList = none)
    (free : (w.reqs (slotOf w.lastReqs)).reqId = noReq) : Elsewhere w (enterRequest w c m).1 c := by
  have house := congrFun (tableless_housing.enterRequest w c m)
  rw [enterRequest_single m alone free] at house ⊢
  exact ⟨fun d other => by simp [other], house, rfl, Nat.le_refl _⟩

/-- A response of the words that `fillReply` writes. -/
theorem response_of_slice {buf mem : Mem} {out : List UInt8} (length : out.length = r.opts.respSize)
    (id : reqIdOf (memOf out) 0 = reqIdOf (memOf r.bytes) 0)
    (large : messageHeader + commandHeader ≤ r.opts.respSize)
    (same : statusOf mem 0 = statusOf (memOf r.bytes) 0)
    (framed : r.opts.mode ≠ .sendfile → out = slice buf 0 r.opts.respSize ∧ reqSizeOf buf 0 = r.opts.respSize ∧
      statusOf buf 0 = statusOf mem 0 ∧ cmdAt buf messageHeader = .eom) : Response r out := by
  refine ⟨length, id, fun normal => ?_⟩
  obtain ⟨whole, size, status, eom⟩ := framed normal
  simp only [messageHeader, commandHeader] at large
  have word {a : Nat} (inside : a + 4 ≤ 16) : u32 (memOf out) a = u32 buf a := by
    refine u32_congr fun i less => ?_
    have here := memOf_slice buf [] (n := r.opts.respSize) (i := a + i) (by omega)
    rwa [List.append_nil, ← whole] at here
  refine ⟨?_, ?_, ?_⟩
  · rw [length, ← size]
    exact word (by decide)
  · rw [← same, ← status]
    exact word (by decide)
  · rw [← eom]
    exact congrArg CommandType.ofCode (word (by decide))

theorem processSingleMessage_served (before : Entered w w' c (r.bytes ++ rest) r.bytes.length)
    (accepting : Accepting w.kernel) (elsewhere : Elsewhere w w' c) :
    ∃ w'' out, processSingleMessage w' (slotOf w.lastReqs) = .ok (w'', 1) ∧ Executed w w'' c ⟨c, r, out⟩ rest := by
  obtain ⟨w'', done, executed⟩ := processSingleMessage_whole before accepting
  obtain ⟨single, cmd, holds, -, -, -, effects, kernel⟩ := before
  obtain ⟨commands, size, -⟩ := holds.message
  have mem : reqMem w' (slotOf w.lastReqs) = (w'.conns c).recvBuf := by rw [reqMem, single.conn]
  have msgEnd : messageEnd (w'.conns c).recvBuf 0 = r.bytes.length := by rw [messageEnd, size, Nat.zero_add]
  have room := commands.room
  simp only [messageHeader, commandHeader] at room
  obtain ⟨large, small⟩ := commands.replies
  have status : statusOf (w'.conns c).recvBuf 0 = statusOf (memOf r.bytes) 0 :=
    u32_congr fun i less => memOf_eq holds.first (by omega)
  rw [← msgEnd] at commands
  have enough : r.times.length < messageEnd (w'.conns c).recvBuf 0 + 1 := by omega
  obtain ⟨last, opts, runs⟩ := processFrom_simple commands enough (slotOf w.lastReqs) w'
  let v := computed w' (slotOf w.lastReqs) r.times
  have asked : replyOpts (v.conns c).recvBuf last = r.opts := opts
  obtain ⟨v', ret, processed, replied, -⟩ := processReply_served (w := v)
    ⟨single.conn, single.message, single.prev, single.next⟩ holds (kernel ▸ accepting) size
    (asked ▸ large) (asked ▸ small)
  have same : v' = w'' := by
    rw [processSingleMessage, single.message] at done
    simp only [mem, cmd] at done
    rw [runs, processed] at done
    cases done
    rfl
  subst same
  obtain ⟨out, emitted, length, id⟩ := executed.effects
  refine ⟨v', out, done, rfl, ?_, ?_, executed.holds, executed.next, executed.free, executed.accepting, ?_⟩
  · rw [emitted, Job.effects, List.reverse_append]
    rfl
  · by_cases file : r.opts.mode = .sendfile
    · exact ⟨length, id, fun normal => absurd file normal⟩
    · obtain ⟨buf, sent, framed, status', eom⟩ := reply_framed (w := v) single.conn holds (kernel ▸ accepting)
        (asked ▸ large) (asked ▸ small) (asked ▸ file) replied
      rw [asked] at sent framed
      refine response_of_slice length id large status fun _ => ⟨?_, framed, status', eom⟩
      have wire := emitted.symm.trans sent
      injection wire with head
      injection head
  · have conn : (v.reqs (slotOf w.lastReqs)).connId = c := single.conn
    have beyond := elsewhere_reply replied
    rw [conn] at beyond
    exact elsewhere.trans ⟨beyond.conns, beyond.house, beyond.flag, beyond.nextFd⟩

/-- A round of `obtain_messages` executes the first message. -/
theorem round_served (fuel : Nat) (holds : Holds (w.conns c) (r.bytes ++ rest) 0 none) (accepting : Accepting w.kernel)
    (free : (w.reqs (slotOf w.lastReqs)).reqId = noReq) :
    ∃ w' out, obtainFrom c (fuel + 1) w = obtainFrom c fuel w' ∧ Executed w w' c ⟨c, r, out⟩ rest := by
  obtain ⟨commands, size, -⟩ := holds.message
  have room := commands.room
  obtain ⟨conn, prepared, sameBuf, holds'⟩ := prepare_whole holds size (by omega) r.small
  have here : (w.setConn c conn).conns c = conn := by simp [State.setConn]
  obtain ⟨w1, entered, before⟩ := enterRequest_whole (w := w.setConn c conn) (c := c) (here.symm ▸ holds') free
  have beyond : Elsewhere (w.setConn c conn) w1 c := by
    have entering := elsewhere_enterRequest (w := w.setConn c conn) 0 (here.symm ▸ holds'.requests) free
    rwa [entered] at entering
  obtain ⟨w', out, done, executed⟩ := processSingleMessage_served before accepting beyond
  obtain ⟨own, effects, response, after, next, free', accepting', elsewhere⟩ := executed
  have slot : slotOf (w.setConn c conn).lastReqs = slotOf w.lastReqs := rfl
  rw [slot] at entered done
  have first : cmdAt conn.recvBuf (messageFirstCmd 0) ≠ .eom := by
    rw [sameBuf, messageFirstCmd, Nat.zero_add]
    rcases commands.inBounds.2 with here | here <;> simp [here]
  refine ⟨w', out, ?_, own, effects, response, after, next, free', accepting', ?_⟩
  · rw [obtainFrom, prepared]
    simp only [if_neg first, entered, done]
    exact if_neg (by decide)
  · exact (elsewhere_setConn w c (Transitions.connPrepareRecvMessage_tableSide _ prepared)).trans elsewhere

end Round

/-! ## The messages of an event -/

/-- The id that comes behind those of the jobs. -/
def idAfter (id : Nat) : List Job → Nat
  | [] => id
  | _ :: later => idAfter ((id + 1) % 2 ^ 32) later

/-- What the jobs show to the outside, the oldest first. -/
def shown (id : Nat) : List Job → List Effect
  | [] => []
  | j :: later => j.effects id ++ shown ((id + 1) % 2 ^ 32) later

theorem idAfter_append (id : Nat) (jobs jobs' : List Job) :
    idAfter id (jobs ++ jobs') = idAfter (idAfter id jobs) jobs' := by
  induction jobs generalizing id with
  | nil => rfl
  | cons j jobs ih => exact ih _

theorem shown_append (id : Nat) (jobs jobs' : List Job) :
    shown id (jobs ++ jobs') = shown id jobs ++ shown (idAfter id jobs) jobs' := by
  induction jobs generalizing id with
  | nil => rfl
  | cons j jobs ih =>
    simp only [List.cons_append, shown, ih, idAfter, List.append_assoc]

/-- The jobs that were done on connection `c`, and the bytes that are left in its buffer. -/
structure Serves (w w' : State) (c : Nat) (jobs : List Job) (part : List UInt8) : Prop where
  done : ∀ j ∈ jobs, j.conn = c ∧ Response j.request j.response
  effects : w'.effects = (shown w.lastReqs jobs).reverse ++ w.effects
  next : w'.lastReqs = idAfter w.lastReqs jobs
  holds : Holds (w'.conns c) part 0 none
  free : ∀ s, (w'.reqs s).reqId = noReq
  elsewhere : Elsewhere w w' c

section Stream

variable {w w' : State} {c : Nat} {part : List UInt8} {done later : List Request}

/-- The batch executes every message that has arrived whole. -/
theorem batch_served {fuel : Nat} (holds : Holds (w.conns c) (stream done ++ part) 0 none)
    (accepting : Accepting w.kernel) (free : ∀ s, (w.reqs s).reqId = noReq) (unfinished : Partial part later)
    (enough : done.length < fuel) :
    ∃ w' jobs, obtainFrom c fuel w = .ok (w', true) ∧ jobs.map Job.request = done ∧ Serves w w' c jobs part := by
  induction done generalizing w fuel with
  | nil =>
    obtain ⟨fuel, rfl⟩ : ∃ f, fuel = f + 1 := ⟨fuel - 1, by omega⟩
    have same : w.setConn c (w.conns c) = w := by simp [State.setConn]
    refine ⟨w, [], ?_, rfl, ?_, rfl, rfl, holds, free, .refl w c⟩
    · rw [obtainFrom, prepare_partial holds unfinished]
      simp only [same]
    · intro j none
      cases none
  | cons r done ih =>
    rw [List.length_cons] at enough
    obtain ⟨fuel, rfl⟩ : ∃ f, fuel = f + 1 := ⟨fuel - 1, by omega⟩
    have head : stream (r :: done) ++ part = r.bytes ++ (stream done ++ part) := List.append_assoc ..
    rw [head] at holds
    obtain ⟨v, out, goes, executed⟩ := round_served fuel holds accepting (free _)
    obtain ⟨w', jobs, finished, all, serves⟩ := ih executed.holds executed.accepting
      (fun s => executed.free s (free s)) (Nat.lt_of_succ_lt_succ enough)
    refine ⟨w', ⟨c, r, out⟩ :: jobs, goes.trans finished, by rw [List.map_cons, all], ?_, ?_, ?_, serves.holds,
      serves.free, executed.elsewhere.trans serves.elsewhere⟩
    · intro j member
      rcases List.mem_cons.mp member with rfl | member
      · exact ⟨rfl, executed.response⟩
      · exact serves.done j member
    · rw [serves.effects, executed.effects, executed.next, shown, List.reverse_append, List.append_assoc]
    · rw [serves.next, executed.next]
      rfl

/-- An event that brings bytes serves what is complete with them. -/
theorem step_served {ms : List Request} {kernel : Kernel} {b ahead : List UInt8} (holds : Holds (w.conns c) part 0 none)
    (free : ∀ s, (w.reqs s).reqId = noReq) (accepting : Accepting kernel) (some_ : b ≠ [])
    (fits : b.length ≤ (w.conns c).currRecvSize) (cut : part ++ b ++ ahead = stream ms) :
    ∃ w' jobs later part', step w kernel (.ready c .socket (received b)) = .ok w' ∧
      ms = jobs.map Job.request ++ later ∧ Partial part' later ∧ part' ++ ahead = stream later ∧
      Serves w w' c jobs part' := by
  obtain ⟨done, later, part', rfl, arrived, unfinished, rest⟩ := split_stream cut
  obtain ⟨conn, taken, holds'⟩ := connRecv_whole holds some_ fits
  rw [arrived] at holds'
  let w0 : State := { w with kernel := kernel }
  let w1 := w0.setConn c conn
  have here : w1.conns c = conn := by simp [w1, State.setConn]
  have count : done.length ≤ conn.currRecvBuf := by
    rw [holds'.received, List.length_append]
    exact (length_le_stream done).trans (Nat.le_add_right ..)
  obtain ⟨w', jobs, served, all, serves⟩ := batch_served (w := w1) (here.symm ▸ holds') accepting free unfinished
    (Nat.lt_succ_of_le count)
  have beyond : Elsewhere w0 w1 c := by
    have same := Transitions.connRecv_tableSide (c := w.conns c) (.bytes b none)
    rw [taken] at same
    exact elsewhere_setConn w0 c same
  have whole := beyond.trans serves.elsewhere
  refine ⟨w', jobs, later, part', ?_, by rw [all], unfinished, rest, serves.done, serves.effects, serves.next,
    serves.holds, serves.free, whole.conns, whole.house, whole.flag, whole.nextFd⟩
  have opened : ¬ ((w0.conns c).sock = none ∨ (w0.conns c).buffers = false) := by
    simp [w0, holds.opened, holds.buffers]
  have established : establishPhase w0 c .socket (received b) = .ok (w0, true) := rfl
  have phase : recvPhase w0 c (received b) = (w1, true) := by
    simp only [recvPhase, received, if_true, w0, taken]
    rfl
  have flushed : flushPhase w1 c (received b) = .ok (w1, true) := rfl
  have batch : obtainMessages w1 c = .ok (w', true) := by rw [obtainMessages, here, served]
  have enters : step w kernel (.ready c .socket (received b)) = execReady w0 c .socket (received b) := by
    simp only [step, execRequest, holds.ready]
    rfl
  rw [enters]
  simp only [execReady, reduceCtorEq, if_false, if_neg opened, established, phase, flushed, batch]

end Stream

/-! ## The clients and the worker -/

/-- The worker, and of each connection the bytes that its client sends and that the worker
has not received. -/
structure Net where
  node : State
  flight : Nat → List UInt8

/-- A client connects, a `recv` of connection `c` is offered up to `n + 1` bytes, or time
passes. -/
inductive Input
  | accept (addr : Addr)
  | bytes (kernel : Kernel) (c n : Nat)
  | elapse (ns : Nat)

/-- What `recv` gets: no more than there is, and than `curr_recv_size`. -/
def chunk (net : Net) (c n : Nat) : List UInt8 :=
  (net.flight c).take (min (n + 1) (net.node.conns c).currRecvSize)

/-- A connection that is not open, or on which nothing is in flight, is not ready. -/
def advance (net : Net) : Input → Except Abort Net
  | .accept addr => (step net.node .silent (.accept addr .tcp)).map fun w => { net with node := w }
  | .elapse ns => (step net.node .silent (.elapse ns)).map fun w => { net with node := w }
  | .bytes kernel c n =>
    if (net.node.conns c).sock = none ∨ net.flight c = [] then .ok net
    else (step net.node kernel (.ready c .socket (received (chunk net c n)))).map fun w =>
      ⟨w, Function.update net.flight c ((net.flight c).drop (chunk net c n).length)⟩

def course (net : Net) : List Input → Except Abort Net
  | [] => .ok net
  | i :: rest =>
    match advance net i with
    | .error e => .error e
    | .ok net' => course net' rest

/-- A worker that defragments, before the first client has connected. -/
def start (storageDevices : Nat) (storageFd : Nat → Nat) (files : Nat → Mem) (sent : Nat → List Request) : Net :=
  ⟨State.init storageDevices storageFd files true, fun c => stream (sent c)⟩

def requestsOn (c : Nat) (jobs : List Job) : List Request :=
  (jobs.filter fun j => j.conn = c).map Job.request

/-- What the sockets get, and what is computed. -/
def isWork : Effect → Bool
  | .compute _ _ => true
  | .wire _ _ => true
  | _ => false

/-- Some requests of the client have been served, and some bytes of the next one have
arrived. -/
def Underway (sent : Nat → List Request) (net : Net) (jobs : List Job) (c : Nat) : Prop :=
  ∃ later part, sent c = requestsOn c jobs ++ later ∧ Partial part later ∧ part ++ net.flight c = stream later ∧
    Holds (net.node.conns c) part 0 none

/-- The state of the worker and its clients when the jobs have been done. -/
structure Serving (sent : Nat → List Request) (net : Net) (jobs : List Job) : Prop where
  work : net.node.effects.filter isWork = (shown 0 jobs).reverse
  next : net.node.lastReqs = idAfter 0 jobs
  responses : ∀ j ∈ jobs, Response j.request j.response
  free : ∀ s, (net.node.reqs s).reqId = noReq
  flag : net.node.enableDefrag = true
  issued : ∀ c s, (net.node.conns c).sock = some s → s < net.node.nextFd
  unused : ∀ c, (net.node.conns c).busy = false → (net.node.conns c).sock = none ∧ (net.node.conns c).reqList = none
  waiting : ∀ c, (net.node.conns c).sock = none → requestsOn c jobs = [] ∧ net.flight c = stream (sent c)
  underway : ∀ c, (net.node.conns c).sock ≠ none → Underway sent net jobs c

/-- How often connection `c` is ready. -/
def deliveries (c : Nat) (inputs : List Input) : Nat :=
  inputs.countP fun i => match i with
    | .bytes _ d _ => decide (d = c)
    | _ => false

/-- Connections stay open, and one that is ready gets at least a byte of those in flight. -/
structure Further (net net' : Net) (inputs : List Input) : Prop where
  opened : ∀ c, (net.node.conns c).sock ≠ none → (net'.node.conns c).sock ≠ none
  flight : ∀ c, (net.node.conns c).sock ≠ none →
    (net'.flight c).length ≤ (net.flight c).length - deliveries c inputs

theorem Further.refl (net : Net) : Further net net [] := ⟨fun _ => id, fun _ _ => Nat.le_refl _⟩

theorem Further.trans {a b d : Net} {inputs inputs' : List Input} (h : Further a b inputs)
    (h' : Further b d inputs') : Further a d (inputs ++ inputs') := by
  refine ⟨fun c opened => h'.opened c (h.opened c opened), fun c opened => ?_⟩
  have first := h.flight c opened
  have second := h'.flight c (h.opened c opened)
  have both : deliveries c (inputs ++ inputs') = deliveries c inputs + deliveries c inputs' := List.countP_append
  omega

theorem Further.drains {net net' : Net} {inputs : List Input} (h : Further net net' inputs) {c : Nat}
    (opened : (net.node.conns c).sock ≠ none) (enough : (net.flight c).length ≤ deliveries c inputs) :
    net'.flight c = [] := by
  have left := h.flight c opened
  exact List.length_eq_zero_iff.mp (by omega)

theorem deliveries_other {c d : Nat} (kernel : Kernel) (n : Nat) (other : d ≠ c) :
    deliveries d [.bytes kernel c n] = 0 := by
  simp [deliveries, Ne.symm other]

theorem requestsOn_append (c : Nat) (jobs jobs' : List Job) :
    requestsOn c (jobs ++ jobs') = requestsOn c jobs ++ requestsOn c jobs' := by
  rw [requestsOn, List.filter_append, List.map_append]
  rfl

theorem requestsOn_own {c : Nat} {jobs : List Job} (own : ∀ j ∈ jobs, j.conn = c) :
    requestsOn c jobs = jobs.map Job.request := by
  rw [requestsOn, List.filter_eq_self.mpr fun j member => decide_eq_true (own j member)]

theorem requestsOn_other {c d : Nat} {jobs : List Job} (own : ∀ j ∈ jobs, j.conn = c) (other : d ≠ c) :
    requestsOn d jobs = [] := by
  rw [requestsOn, List.filter_eq_nil_iff.mpr, List.map_nil]
  intro j member here
  exact other ((of_decide_eq_true here).symm.trans (own j member))

/-- All that the jobs show is work. -/
theorem filter_shown (id : Nat) (jobs : List Job) : (shown id jobs).filter isWork = shown id jobs := by
  induction jobs generalizing id with
  | nil => rfl
  | cons j jobs ih =>
    have own : (j.effects id).filter isWork = j.effects id := by
      refine List.filter_eq_self.mpr fun e member => ?_
      rcases List.mem_append.mp member with computes | sends
      · obtain ⟨time, -, rfl⟩ := List.mem_map.mp computes
        rfl
      · rw [List.mem_singleton.mp sends]
        rfl
    rw [shown, List.filter_append, own, ih]

section System

variable {sent : Nat → List Request} {net : Net} {jobs : List Job}

theorem serving_start (storageDevices : Nat) (storageFd : Nat → Nat) (files : Nat → Mem)
    (sent : Nat → List Request) : Serving sent (start storageDevices storageFd files sent) [] where
  work := rfl
  next := rfl
  responses := fun _ none => by cases none
  free := fun _ => rfl
  flag := rfl
  issued := fun _ _ none => by cases none
  unused := fun _ _ => ⟨rfl, rfl⟩
  waiting := fun _ _ => ⟨rfl, rfl⟩
  underway := fun _ opened => absurd rfl opened

/-- What happens apart from the connections changes nothing. -/
theorem Serving.aside (h : Serving sent net jobs) {w : State} (conns : w.conns = net.node.conns)
    (reqs : w.reqs = net.node.reqs) (next : w.lastReqs = net.node.lastReqs)
    (flag : w.enableDefrag = net.node.enableDefrag) (nextFd : net.node.nextFd ≤ w.nextFd)
    (work : w.effects.filter isWork = net.node.effects.filter isWork) : Serving sent { net with node := w } jobs := by
  refine ⟨work.trans h.work, next.trans h.next, h.responses, fun s => ?_, flag.trans h.flag, fun c s open_ => ?_,
    fun c idle => ?_, fun c closed => ?_, fun c opened => ?_⟩
  · rw [reqs]
    exact h.free s
  · exact (h.issued c s (conns ▸ open_)).trans_le nextFd
  · simp only [conns] at idle ⊢
    exact h.unused c idle
  · simp only [conns] at closed
    exact h.waiting c closed
  · simp only [conns] at opened
    obtain ⟨later, part, all, unfinished, rest, holds⟩ := h.underway c opened
    exact ⟨later, part, all, unfinished, rest, by simpa only [conns] using holds⟩

/-- A connection that has been accepted has nothing in its buffers. -/
theorem holds_accepted {conn : ConnInfo} (idle : conn.reqList = none) (sock : Nat) (addr : Addr) (thread : Nat) :
    Holds { { conn.claim sock addr .tcp thread with status := .ready } with enableDefrag := true } [] 0 none :=
  ⟨by simp [ConnInfo.claim], rfl, rfl, rfl, ⟨rfl, rfl⟩, rfl, rfl, rfl, rfl, idle⟩

theorem Serving.accept (h : Serving sent net jobs) (addr : Addr) :
    ∃ net', advance net (.accept addr) = .ok net' ∧ Serving sent net' jobs ∧ Further net net' [.accept addr] := by
  let w0 : State := { net.node with kernel := .silent, nextFd := net.node.nextFd + 1 }
  cases found : findIndex (fun i => !(net.node.conns i).busy) maxConns 0 with
  | none =>
    -- every slot is taken: the socket is closed again
    have absent : connFindSock (w0.emit (.pollDel (some net.node.nextFd))) (some net.node.nextFd) = .ok none := by
      refine congrArg Except.ok (ConnectionSlots.findIndex_eq_none.mpr fun i _ _ => ?_)
      exact decide_eq_false fun here => Nat.lt_irrefl _ (h.issued i _ here)
    let w : State := (w0.emit (.pollDel (some net.node.nextFd))).emit (.closed (some net.node.nextFd))
    refine ⟨{ net with node := w }, ?_, h.aside rfl rfl rfl rfl (Nat.le_succ _) rfl, fun _ => id, fun _ _ => Nat.le_refl _⟩
    have closed : closeAndForget w0 (some net.node.nextFd) = .ok w := by
      simp only [closeAndForget, connDelSock, absent]
      rfl
    have full : step net.node .silent (.accept addr .tcp) = .ok w := by
      simp only [step, acceptConn, connAlloc, found]
      exact closed
    simp only [advance, full]
    rfl
  | some c =>
    have idle : (net.node.conns c).busy = false := by
      simpa using Transitions.findIndex_holds found
    obtain ⟨closed, alone⟩ := h.unused c idle
    let conn : ConnInfo :=
      { { (net.node.conns c).claim net.node.nextFd addr .tcp net.node.thread with status := .ready } with
        enableDefrag := true }
    let w : State := { w0 with
      conns := Function.update net.node.conns c conn
      activeConns := net.node.activeConns + 1
      effects := .pollAdd net.node.nextFd c :: net.node.effects }
    have taken : step net.node .silent (.accept addr .tcp) = .ok w := by
      simp only [step, acceptConn, connAlloc, found]
      simp [State.setConn, State.emit, w, w0, conn, h.flag]
    have here : w.conns c = conn := by simp [w]
    have there {d : Nat} (other : d ≠ c) : w.conns d = net.node.conns d := by simp [w, other]
    refine ⟨{ net with node := w }, by simp only [advance, taken]; rfl, ⟨h.work, h.next, h.responses, h.free, h.flag,
      fun d s open_ => ?_, fun d free => ?_, fun d shut => ?_, fun d opened => ?_⟩, fun d opened => ?_,
      fun _ _ => Nat.le_refl _⟩
    · by_cases own : d = c
      · subst own
        rw [here] at open_
        cases open_
        exact Nat.lt_succ_self _
      · exact (h.issued d s (there own ▸ open_)).trans (Nat.lt_succ_self _)
    · by_cases own : d = c
      · subst own
        rw [here] at free
        cases free
      · rw [there own] at free ⊢
        exact h.unused d free
    · by_cases own : d = c
      · subst own
        rw [here] at shut
        cases shut
      · exact h.waiting d (there own ▸ shut)
    · by_cases own : d = c
      · subst own
        obtain ⟨none, all⟩ := h.waiting d closed
        refine ⟨sent d, [], ?_, partial_nil _, all, ?_⟩
        · rw [none, List.nil_append]
        · rw [here]
          exact holds_accepted alone _ _ _
      · obtain ⟨later, part, all, unfinished, rest, holds⟩ := h.underway d (there own ▸ opened)
        exact ⟨later, part, all, unfinished, rest, by simpa only [there own] using holds⟩
    · have other : d ≠ c := fun own => opened (own ▸ closed)
      rwa [there other]

/-- The bytes that `recv` gets, and what is still in flight. -/
theorem chunk_spec (n : Nat) {c : Nat} (some_ : net.flight c ≠ []) (room : 0 < (net.node.conns c).currRecvSize) :
    chunk net c n ≠ [] ∧ (chunk net c n).length ≤ (net.node.conns c).currRecvSize ∧
      chunk net c n ++ (net.flight c).drop (chunk net c n).length = net.flight c := by
  have length : (chunk net c n).length = min (min (n + 1) (net.node.conns c).currRecvSize) (net.flight c).length :=
    List.length_take
  have left := List.length_pos_of_ne_nil some_
  refine ⟨List.ne_nil_of_length_pos (by omega), by omega, ?_⟩
  have prefix_ : chunk net c n <+: net.flight c := List.take_prefix _ _
  obtain ⟨rest, whole⟩ := prefix_
  rw [← whole, List.drop_left]

theorem Serving.deliver (h : Serving sent net jobs) {kernel : Kernel} (accepting : Accepting kernel) (c n : Nat) :
    ∃ net' jobs', advance net (.bytes kernel c n) = .ok net' ∧ Serving sent net' (jobs ++ jobs') ∧
      Further net net' [.bytes kernel c n] := by
  by_cases quiet : (net.node.conns c).sock = none ∨ net.flight c = []
  · refine ⟨net, [], if_pos quiet, by rwa [List.append_nil], fun _ => id, fun d opened => ?_⟩
    by_cases here : d = c
    · subst here
      rw [quiet.resolve_left opened]
      exact Nat.zero_le _
    · rw [deliveries_other kernel n here]
      exact Nat.le_refl _
  · obtain ⟨opened, some_⟩ := not_or.mp quiet
    obtain ⟨later, part, all, unfinished, rest, holds⟩ := h.underway c opened
    obtain ⟨nonempty, fits, cut⟩ := chunk_spec n some_ (holds.room unfinished rest some_)
    rw [← cut, ← List.append_assoc] at rest
    obtain ⟨w, jobs', later', part', taken, rfl, unfinished', rest', serves⟩ :=
      step_served holds h.free accepting nonempty fits rest
    have own : ∀ j ∈ jobs', j.conn = c := fun j member => (serves.done j member).1
    have there {d : Nat} (other : d ≠ c) : w.conns d = net.node.conns d := serves.elsewhere.conns d other
    have sock (d : Nat) : (w.conns d).sock = (net.node.conns d).sock := congrArg Prod.snd (serves.elsewhere.house d)
    have busy (d : Nat) : (w.conns d).busy = (net.node.conns d).busy := congrArg Prod.fst (serves.elsewhere.house d)
    refine ⟨⟨w, Function.update net.flight c ((net.flight c).drop (chunk net c n).length)⟩, jobs', ?_, ?_, ?_⟩
    · rw [advance, if_neg quiet, taken]
      rfl
    · refine ⟨?_, ?_, ?_, serves.free, serves.elsewhere.flag.trans h.flag, fun d s open_ => ?_, fun d free => ?_,
        fun d shut => ?_, fun d open_ => ?_⟩
      · rw [serves.effects, List.filter_append, List.filter_reverse, filter_shown, h.work, h.next, shown_append,
          List.reverse_append]
      · rw [serves.next, h.next, idAfter_append]
      · intro j member
        rcases List.mem_append.mp member with before | new
        · exact h.responses j before
        · exact (serves.done j new).2
      · exact lt_of_lt_of_le (h.issued d s ((sock d).symm.trans open_)) serves.elsewhere.nextFd
      · have before := (busy d).symm.trans free
        obtain ⟨closed, alone⟩ := h.unused d before
        have other : d ≠ c := fun own => opened (own ▸ closed)
        rw [there other]
        exact ⟨closed, alone⟩
      · have closed := (sock d).symm.trans shut
        have other : d ≠ c := fun own => opened (own ▸ closed)
        obtain ⟨none, untouched⟩ := h.waiting d closed
        rw [requestsOn_append, none, requestsOn_other own other]
        exact ⟨rfl, by simpa only [Function.update_of_ne other] using untouched⟩
      · by_cases here : d = c
        · subst here
          refine ⟨later', part', ?_, unfinished', ?_, serves.holds⟩
          · rw [all, requestsOn_append, requestsOn_own own, List.append_assoc]
          · simpa only [Function.update_self] using rest'
        · obtain ⟨later'', part'', all'', unfinished'', rest'', holds''⟩ := h.underway d (sock d ▸ open_)
          refine ⟨later'', part'', ?_, unfinished'', ?_, ?_⟩
          · rw [requestsOn_append, requestsOn_other own here, List.append_nil, all'']
          · simpa only [Function.update_of_ne here] using rest''
          · simpa only [there here] using holds''
    · refine ⟨fun d opened => fun shut => opened ((sock d).symm.trans shut), fun d _ => ?_⟩
      by_cases here : d = c
      · subst here
        have shorter := congrArg List.length cut
        have positive := List.length_pos_of_ne_nil nonempty
        have once : deliveries d [.bytes kernel d n] = 1 := by simp [deliveries]
        rw [List.length_append] at shorter
        simp only [Function.update_self]
        omega
      · rw [deliveries_other kernel n here]
        simp only [Function.update_of_ne here]
        exact Nat.le_refl _

/-- The socket takes the responses. -/
def Input.Answered : Input → Prop
  | .bytes kernel _ _ => Accepting kernel
  | _ => True

theorem Serving.advance (h : Serving sent net jobs) {i : Input} (answered : i.Answered) :
    ∃ net' jobs', Service.advance net i = .ok net' ∧ Serving sent net' (jobs ++ jobs') ∧ Further net net' [i] := by
  cases i with
  | accept addr =>
    obtain ⟨net', taken, after, further⟩ := h.accept addr
    exact ⟨net', [], taken, by rwa [List.append_nil], further⟩
  | bytes kernel c n => exact h.deliver answered c n
  | elapse ns =>
    refine ⟨{ net with node := elapse { net.node with kernel := .silent } ns }, [], rfl, ?_, fun _ => id,
      fun _ _ => Nat.le_refl _⟩
    rw [List.append_nil]
    exact h.aside rfl rfl rfl rfl (Nat.le_refl _) rfl

/-- Every event is served. -/
theorem Serving.course (h : Serving sent net jobs) {inputs : List Input} (answered : ∀ i ∈ inputs, i.Answered) :
    ∃ net' jobs', Service.course net inputs = .ok net' ∧ Serving sent net' (jobs ++ jobs') ∧
      Further net net' inputs := by
  induction inputs generalizing net jobs with
  | nil => exact ⟨net, [], rfl, by rwa [List.append_nil], .refl net⟩
  | cons i inputs ih =>
    obtain ⟨head, tail⟩ := List.forall_mem_cons.mp answered
    obtain ⟨v, done, taken, after, further⟩ := h.advance head
    obtain ⟨net', done', ran, last, further'⟩ := ih after tail
    refine ⟨net', done ++ done', ?_, by rwa [← List.append_assoc], further.trans further'⟩
    rw [Service.course, taken]
    exact ran

/-- On a connection of which nothing is in flight everything has been served. -/
theorem Serving.finished (h : Serving sent net jobs) {c : Nat} (empty : net.flight c = []) :
    requestsOn c jobs = sent c := by
  by_cases closed : (net.node.conns c).sock = none
  · obtain ⟨none, all⟩ := h.waiting c closed
    rw [none]
    have nothing : sent c = [] := (partial_end (partial_nil (sent c)) (empty ▸ all)).1
    exact nothing.symm
  · obtain ⟨later, part, all, unfinished, rest, -⟩ := h.underway c closed
    rw [empty, List.append_nil] at rest
    obtain ⟨rfl, -⟩ := partial_end unfinished rest
    rw [all, List.append_nil]

/-- Whenever clients connect and however the bytes of their connections are mixed and cut,
what the worker computes and sends is one job after the other, and each connection has got
the jobs of its own first requests, in order. Only the rest of its own next request can be
in its buffer, and the requests have all been freed. -/
theorem clients_served (storageDevices : Nat) (storageFd : Nat → Nat) (files : Nat → Mem) (sent : Nat → List Request)
    {inputs : List Input} (answered : ∀ i ∈ inputs, i.Answered) :
    ∃ net jobs, Service.course (start storageDevices storageFd files sent) inputs = .ok net ∧
      net.node.effects.filter isWork = (shown 0 jobs).reverse ∧ (∀ j ∈ jobs, Response j.request j.response) ∧
      (∀ s, (net.node.reqs s).reqId = noReq) ∧
      ∀ c, (∃ later part, sent c = requestsOn c jobs ++ later ∧ Partial part later ∧
          part ++ net.flight c = stream later ∧ ((net.node.conns c).sock ≠ none → Holds (net.node.conns c) part 0 none)) ∧
        (net.flight c = [] → requestsOn c jobs = sent c) := by
  obtain ⟨net, jobs, ran, after, -⟩ := (serving_start storageDevices storageFd files sent).course answered
  rw [List.nil_append] at after
  refine ⟨net, jobs, ran, after.work, after.responses, after.free, fun c => ⟨?_, after.finished⟩⟩
  by_cases closed : (net.node.conns c).sock = none
  · obtain ⟨none, all⟩ := after.waiting c closed
    exact ⟨sent c, [], by rw [none, List.nil_append], partial_nil _, all, fun opened => absurd closed opened⟩
  · obtain ⟨later, part, all, unfinished, rest, holds⟩ := after.underway c closed
    exact ⟨later, part, all, unfinished, rest, fun _ => holds⟩

theorem course_append {a b : Net} {before : List Input} (after : List Input) (ran : Service.course a before = .ok b) :
    Service.course a (before ++ after) = Service.course b after := by
  induction before generalizing a with
  | nil =>
    cases ran
    rfl
  | cons i before ih =>
    rw [Service.course] at ran
    rw [List.cons_append, Service.course]
    cases taken : Service.advance a i with
    | error e =>
      rw [taken] at ran
      cases ran
    | ok v =>
      rw [taken] at ran
      exact ih ran

/-- From when a connection is open, as many events of its own as it has bytes bring all of
them. -/
theorem course_drains {storageDevices : Nat} {storageFd : Nat → Nat} {files : Nat → Mem} {sent : Nat → List Request}
    {before after : List Input} {net : Net} {c : Nat} (answered : ∀ i ∈ before ++ after, i.Answered)
    (ran : Service.course (start storageDevices storageFd files sent) before = .ok net)
    (opened : (net.node.conns c).sock ≠ none) (enough : (stream (sent c)).length ≤ deliveries c after) :
    ∃ net' jobs, Service.course (start storageDevices storageFd files sent) (before ++ after) = .ok net' ∧
      Serving sent net' jobs ∧ (net'.node.conns c).sock ≠ none ∧ net'.flight c = [] := by
  have begun := serving_start storageDevices storageFd files sent
  have tail : ∀ i ∈ after, i.Answered := fun i member => answered i (List.mem_append_right _ member)
  obtain ⟨v, jobs, ran', half, -⟩ := begun.course fun i member => answered i (List.mem_append_left _ member)
  cases ran.symm.trans ran'
  rw [List.nil_append] at half
  have flying : (net.flight c).length ≤ (stream (sent c)).length := by
    obtain ⟨later, part, all, -, rest, -⟩ := half.underway c opened
    have length := congrArg List.length rest
    rw [all, stream_append, List.length_append, ← length, List.length_append]
    omega
  obtain ⟨net', jobs', ran'', after', further⟩ := half.course tail
  exact ⟨net', jobs ++ jobs', (course_append after ran).trans ran'', after', further.opened c opened,
    further.drains opened (flying.trans enough)⟩

/-- Two requests on the first connection and one on the second. -/
def threeWalks : Nat → List Request
  | 0 => [walkRequest, walkRequest]
  | 1 => [walkRequest]
  | _ => []

def twoAccepts : List Input := [.accept [10, 0, 0, 9, 0, 9], .accept [10, 0, 0, 8, 0, 8]]

/-- The first connection is read byte by byte and the second one in threes, by turns. -/
def byTurns (turns : Nat) : List Input := (List.replicate turns [.bytes .silent 0 0, .bytes .silent 1 2]).flatten

theorem answered_byTurns (turns : Nat) : ∀ i ∈ twoAccepts ++ byTurns turns, i.Answered := by
  intro i member
  rcases List.mem_append.mp member with accepts | bytes
  · simp only [twoAccepts, List.mem_cons, List.not_mem_nil, or_false] at accepts
    rcases accepts with rfl | rfl <;> trivial
  · obtain ⟨turn, one, inside⟩ := List.mem_flatten.mp bytes
    rw [List.eq_of_mem_replicate one] at inside
    simp only [List.mem_cons, List.not_mem_nil, or_false] at inside
    rcases inside with rfl | rfl <;> exact accepting_silent

theorem accepts_opened (sent : Nat → List Request) :
    ∃ net, Service.course (start 0 (fun _ => 0) (fun _ _ => 0) sent) twoAccepts = .ok net ∧
      (net.node.conns 0).sock ≠ none := by
  obtain ⟨net, ran, sock⟩ : ∃ net, Service.course (start 0 (fun _ => 0) (fun _ _ => 0) sent) twoAccepts = .ok net ∧
      (net.node.conns 0).sock = some 3 := ⟨_, rfl, rfl⟩
  exact ⟨net, ran, by simp [sock]⟩

theorem deliveries_byTurns (turns : Nat) : deliveries 0 (byTurns turns) = turns := by
  simp [deliveries, byTurns]

theorem byTurns_enough : (stream (threeWalks 0)).length ≤ deliveries 0 (byTurns 80) := by
  have bytes : (stream (threeWalks 0)).length = 80 := by decide
  rw [bytes, deliveries_byTurns]

theorem clients_served_two :
    ∃ net jobs, Service.course (start 0 (fun _ => 0) (fun _ _ => 0) threeWalks) (twoAccepts ++ byTurns 80) = .ok net ∧
      net.node.effects.filter isWork = (shown 0 jobs).reverse ∧ (∀ j ∈ jobs, Response j.request j.response) ∧
      requestsOn 0 jobs = [walkRequest, walkRequest] := by
  obtain ⟨net, jobs, ran, work, responses, -, served⟩ :=
    clients_served 0 (fun _ => 0) (fun _ _ => 0) threeWalks (answered_byTurns 80)
  obtain ⟨half, accepted, opened⟩ := accepts_opened threeWalks
  obtain ⟨net', -, ran', -, -, empty⟩ := course_drains (answered_byTurns 80) accepted opened byTurns_enough
  cases ran.symm.trans ran'
  exact ⟨net, jobs, ran, work, responses, (served 0).2 empty⟩

/-- From when a connection is open it is served to the end with as many events of its own
as it has bytes, whatever the other connections do. -/
theorem drained_by_own_events (storageDevices : Nat) (storageFd : Nat → Nat) (files : Nat → Mem)
    (sent : Nat → List Request) {before after : List Input} {net : Net} {c : Nat}
    (answered : ∀ i ∈ before ++ after, i.Answered)
    (ran : Service.course (start storageDevices storageFd files sent) before = .ok net)
    (opened : (net.node.conns c).sock ≠ none) (enough : (stream (sent c)).length ≤ deliveries c after) :
    ∃ net' jobs, Service.course (start storageDevices storageFd files sent) (before ++ after) = .ok net' ∧
      net'.node.effects.filter isWork = (shown 0 jobs).reverse ∧ (∀ j ∈ jobs, Response j.request j.response) ∧
      net'.flight c = [] ∧ requestsOn c jobs = sent c ∧ Holds (net'.node.conns c) [] 0 none := by
  obtain ⟨net', jobs, ran', after', opened', empty⟩ := course_drains answered ran opened enough
  refine ⟨net', jobs, ran', after'.work, after'.responses, empty, after'.finished empty, ?_⟩
  obtain ⟨later, part, -, unfinished, rest, holds⟩ := after'.underway c opened'
  rw [empty, List.append_nil] at rest
  obtain ⟨-, rfl⟩ := partial_end unfinished rest
  exact holds

theorem drained_by_own_events_two :
    ∃ net' jobs, Service.course (start 0 (fun _ => 0) (fun _ _ => 0) threeWalks) (twoAccepts ++ byTurns 80) = .ok net' ∧
      net'.node.effects.filter isWork = (shown 0 jobs).reverse ∧ (∀ j ∈ jobs, Response j.request j.response) ∧
      net'.flight 0 = [] ∧ requestsOn 0 jobs = [walkRequest, walkRequest] ∧
      Holds (net'.node.conns 0) [] 0 none := by
  obtain ⟨net, ran, opened⟩ := accepts_opened threeWalks
  exact drained_by_own_events 0 (fun _ => 0) (fun _ _ => 0) threeWalks (answered_byTurns 80) ran opened byTurns_enough

end System

end Service
