import DistWalk.Requests
import DistWalk.SendStream

/-!
# Messages cut anywhere

A client sends requests of COMPUTEs and one REPLY. However the bytes are cut into what
`conn_recv` returns, each message is executed and answered as soon as its last byte is
there, and removing it leaves the rest of the bytes at the start of the buffer. After the
last byte the connection is as it was before the first one.
-/

namespace Segmentation

open ByteMemory Message Connection Worker Node Requests

open SendStream (memOf)

/-! ## Messages -/

theorem memOf_apply {bytes : List UInt8} {i : Nat} (inside : i < bytes.length) : memOf bytes i = bytes[i] := by
  rw [memOf, List.getD_eq_getElem?_getD, List.getElem?_eq_getElem inside]
  rfl

theorem memOf_slice (mem : Mem) (rest : List UInt8) {n i : Nat} (inside : i < n) :
    memOf (slice mem 0 n ++ rest) i = mem i := by
  have bound : i < (slice mem 0 n).length := by rwa [length_slice]
  have longer : i < (slice mem 0 n ++ rest).length := by
    rw [List.length_append]
    exact Nat.lt_add_right _ bound
  rw [memOf_apply longer, List.getElem_append_left bound, getElem_slice, Nat.zero_add]

/-- A buffer that begins with a message has its bytes. -/
theorem memOf_eq {mem : Mem} {bytes rest : List UInt8} {n : Nat} (here : slice mem 0 n = bytes ++ rest) {i : Nat}
    (inside : i < bytes.length) : mem i = memOf bytes i := by
  have longer : i < n := by
    have length := congrArg List.length here
    rw [length_slice, List.length_append] at length
    omega
  have read := memOf_slice mem [] longer
  rw [List.append_nil, here] at read
  rw [← read, memOf_apply inside, memOf_apply (by rw [List.length_append]; omega), List.getElem_append_left inside]

/-- From `cmd` on there are COMPUTEs, a REPLY whose size a buffer can hold, and EOM. -/
inductive Simple (mem : Mem) (msgEnd : Nat) : Nat → List Nat → ReplyOpts → Prop
  | reply {cmd : Nat} (here : cmdAt mem cmd = .reply) (last : cmdAt mem (cmd + 16) = .eom)
      (room : cmd + 16 + commandHeader ≤ msgEnd)
      (large : messageHeader + commandHeader ≤ (replyOpts mem cmd).respSize)
      (small : (replyOpts mem cmd).respSize ≤ bufSize) : Simple mem msgEnd cmd [] (replyOpts mem cmd)
  | compute {cmd : Nat} {times : List Nat} {opts : ReplyOpts} (here : cmdAt mem cmd = .compute)
      (rest : Simple mem msgEnd (cmd + 8) times opts) : Simple mem msgEnd cmd (compTimeUs mem cmd :: times) opts

/-- A request of COMPUTEs and a REPLY, with the times and the REPLY. -/
structure Request where
  bytes : List UInt8
  times : List Nat
  opts : ReplyOpts
  small : bytes.length ≤ bufSize
  size : reqSizeOf (memOf bytes) 0 = bytes.length
  commands : Simple (memOf bytes) bytes.length messageHeader times opts

section Commands

variable {mem mem' : Mem} {msgEnd cmd : Nat} {times : List Nat} {opts : ReplyOpts}

theorem Simple.room (h : Simple mem msgEnd cmd times opts) :
    cmd + 8 * times.length + 16 + commandHeader ≤ msgEnd := by
  induction h with
  | reply here last room => exact room
  | compute here rest ih =>
    rw [List.length_cons]
    omega

theorem Simple.replies (h : Simple mem msgEnd cmd times opts) :
    messageHeader + commandHeader ≤ opts.respSize ∧ opts.respSize ≤ bufSize := by
  induction h with
  | reply here last room large small => exact ⟨large, small⟩
  | compute here rest ih => exact ih

/-- The commands depend on the bytes of the message only. -/
theorem Simple.congr (h : Simple mem msgEnd cmd times opts) (same : ∀ i < msgEnd, mem' i = mem i) :
    Simple mem' msgEnd cmd times opts := by
  have word {a : Nat} (inside : a + 4 ≤ msgEnd) : u32 mem' a = u32 mem a :=
    u32_congr fun i less => same (a + i) (by omega)
  induction h with
  | @reply cmd here last room large small =>
    simp only [commandHeader] at room
    have opts : replyOpts mem' cmd = replyOpts mem cmd := by
      rw [replyOpts, replyOpts, word (by omega), word (by omega), same (cmd + 12) (by omega)]
    rw [← opts] at large small ⊢
    refine .reply ?_ ?_ room large small
    · rw [cmdAt, word (by omega)]
      exact here
    · rw [cmdAt, word (by omega)]
      exact last
  | @compute cmd times opts here rest ih =>
    have room := rest.room
    have time : compTimeUs mem' cmd = compTimeUs mem cmd := word (by omega)
    rw [← time]
    refine .compute ?_ ih
    rw [cmdAt, word (by omega)]
    exact here

theorem Simple.inBounds (h : Simple mem msgEnd cmd times opts) :
    cmdInBounds mem cmd msgEnd = true ∧ (cmdAt mem cmd = .reply ∨ cmdAt mem cmd = .compute) := by
  have room := h.room
  simp only [commandHeader] at room
  have fits (type : CommandType) (here : cmdAt mem cmd = type) (size : cmdTypeSize type ≤ 16) :
      cmdInBounds mem cmd msgEnd = true := by
    rw [cmdInBounds, here, if_neg (by simp only [commandHeader]; omega)]
    exact decide_eq_true (by omega)
  cases h with
  | reply here => exact ⟨fits _ here (by decide), Or.inl here⟩
  | compute here => exact ⟨fits _ here (by decide), Or.inr here⟩

/-- Skipping a COMPUTE leads to the next command. -/
theorem skip_compute (here : cmdAt mem cmd = .compute) (rest : Simple mem msgEnd (cmd + 8) times opts) :
    cmdBoundedSkip mem (some cmd) 1 msgEnd = some (cmd + 8) := by
  have inside := (Simple.compute here rest).inBounds.1
  have room := rest.room
  obtain ⟨fuel, left⟩ : ∃ fuel, msgEnd - cmd = fuel + 1 := ⟨msgEnd - cmd - 1, by omega⟩
  have next : cmdBoundedNext mem cmd msgEnd = some (cmd + 8) := by
    rw [cmdBoundedNext, here]
    exact if_pos rest.inBounds.1
  have leaves : skipContext mem msgEnd (fuel + 1) cmd 0 = some (cmd + 8) := by
    simp only [skipContext, next, nestingAfter, here]
    exact if_neg (by simp)
  rw [cmdBoundedSkip, if_pos inside]
  change skipContexts mem msgEnd 1 cmd = _
  rw [skipContexts, if_neg (by rw [here]; simp), left, leaves]
  rfl

end Commands

/-- What the COMPUTEs of a request report. -/
def computed (w : State) (slot : Nat) (times : List Nat) : State :=
  { w with effects := (times.map (Effect.compute slot)).reverse ++ w.effects }

/-- The loop of `process_single_message` comes to the REPLY. -/
theorem processFrom_simple {mem : Mem} {m cmd fuel : Nat} {times : List Nat} {opts : ReplyOpts}
    (h : Simple mem (messageEnd mem m) cmd times opts) (enough : times.length < fuel) (slot : Nat) (w : State) :
    ∃ last, replyOpts mem last = opts ∧
      processFrom mem slot m fuel w (some cmd) = processReply (computed w slot times) slot m last := by
  induction h generalizing fuel w with
  | @reply cmd here =>
    obtain ⟨fuel, rfl⟩ : ∃ f, fuel = f + 1 := ⟨fuel - 1, by omega⟩
    refine ⟨cmd, rfl, ?_⟩
    simp only [processFrom, here]
    rfl
  | @compute cmd times opts here rest ih =>
    rw [List.length_cons] at enough
    obtain ⟨fuel, rfl⟩ : ∃ f, fuel = f + 1 := ⟨fuel - 1, by omega⟩
    obtain ⟨last, reply, same⟩ := ih (Nat.lt_of_succ_lt_succ enough) (w.emit (.compute slot (compTimeUs mem cmd)))
    refine ⟨last, reply, ?_⟩
    simp only [processFrom, here, skip_compute here rest]
    rw [same]
    simp [computed, State.emit]

/-! ## The response -/

/-- The socket takes whatever it is given. -/
structure Accepting (k : Kernel) : Prop where
  sends : ∀ r ∈ k.sends, ∃ n, r = .done n ∧ bufSize ≤ n
  headers : ∀ rs ∈ k.headers, ∃ n rest, rs = .done n :: rest ∧ messageHeader ≤ n
  files : ∀ r ∈ k.files, ∃ n, r = .done n ∧ bufSize ≤ n

/-- A connection that has nothing to send, holds some bytes in its receive buffer, has
processed them up to an offset and has a list of requests. -/
structure Holds (conn : ConnInfo) (bytes : List UInt8) (proc : Nat) (requests : Option Nat) : Prop where
  opened : conn.sock ≠ none
  buffers : conn.buffers = true
  ready : conn.status = .ready
  defrag : conn.enableDefrag = true
  drained : conn.currSendBuf = 0 ∧ conn.currSendSize = 0
  first : slice conn.recvBuf 0 bytes.length = bytes
  received : conn.currRecvBuf = bytes.length
  space : conn.currRecvSize + bytes.length = bufSize
  processed : conn.currProcBuf = proc
  requests : conn.reqList = requests

theorem takeSend_whole (w : State) (c : Nat) (accepting : Accepting w.kernel) : ∃ n kernel,
    takeSend w c = ({ w with kernel := kernel }, .done n) ∧ bufSize ≤ n ∧ Accepting kernel := by
  cases answers : w.kernel.sends with
  | nil =>
    refine ⟨(w.conns c).currSendSize + 2 ^ 32, w.kernel, by rw [takeSend, answers], ?_, accepting⟩
    exact (by decide : bufSize ≤ 2 ^ 32).trans (Nat.le_add_left ..)
  | cons r rest =>
    obtain ⟨n, rfl, large⟩ := accepting.sends r (answers ▸ List.mem_cons_self)
    refine ⟨n, { w.kernel with sends := rest }, by simp only [takeSend, answers], large, ?_⟩
    exact ⟨fun r' member => accepting.sends r' (answers ▸ List.mem_cons_of_mem _ member), accepting.headers,
      accepting.files⟩

theorem takeSendfile_whole (w : State) (accepting : Accepting w.kernel) : ∃ n rest k kernel,
    takeSendfile w = ({ w with kernel := kernel }, .done n :: rest, .done k) ∧
      messageHeader ≤ n ∧ bufSize ≤ k ∧ Accepting kernel := by
  obtain ⟨n, rest, header, large⟩ : ∃ n rest, w.kernel.headers.headD [.done messageHeader] = .done n :: rest ∧
      messageHeader ≤ n := by
    cases answers : w.kernel.headers with
    | nil => exact ⟨messageHeader, [], rfl, le_refl _⟩
    | cons rs more => exact accepting.headers rs (answers ▸ List.mem_cons_self)
  obtain ⟨k, file, large'⟩ : ∃ k, w.kernel.files.headD (.done (2 ^ 32)) = .done k ∧ bufSize ≤ k := by
    cases answers : w.kernel.files with
    | nil => exact ⟨2 ^ 32, rfl, by decide⟩
    | cons r more => exact accepting.files r (answers ▸ List.mem_cons_self)
  refine ⟨n, rest, k, _, by rw [takeSendfile, header, file], large, large', ?_⟩
  exact ⟨accepting.sends, fun rs member => accepting.headers rs (List.mem_of_mem_tail member),
    fun r member => accepting.files r (List.mem_of_mem_tail member)⟩

theorem connSend_whole {conn : ConnInfo} {n : Nat} (ready : conn.status = .ready) (some_ : 0 < conn.currSendSize)
    (takes : conn.currSendSize ≤ n) : connSend conn (.done n) =
      ⟨{ conn with currSendBuf := 0, currSendSize := 0 }, conn.currSendSize,
        slice conn.sendBuf conn.currSendBuf conn.currSendSize⟩ := by
  have whole : min n conn.currSendSize = conn.currSendSize := Nat.min_eq_right takes
  have sent : conn.currSendSize ≠ 0 := Nat.pos_iff_ne_zero.mp some_
  by_cases tls : conn.useSsl = true
  · simp [connSend, connSslSend, tls, whole, sent, advanceSend]
  · simp [connSend, tls, whole, sent, advanceSend, ready]

theorem connSendV2_whole (files : Nat → Mem) (conn : ConnInfo) {n k : Nat} (rest : List IoResult)
    (header : 0 < conn.currSendSize ∧ conn.currSendSize ≤ n)
    (body : 0 < conn.fileRemaining ∧ conn.fileRemaining ≤ k) : ∃ conn',
      connSendV2 files conn (.done n :: rest) (.done k) = (some ⟨conn', 1,
        slice conn.sendBuf conn.currSendBuf conn.currSendSize ++
          slice (fileOf files conn.fileFd) conn.fileOffset conn.fileRemaining⟩, conn',
        slice conn.sendBuf conn.currSendBuf conn.currSendSize ++
          slice (fileOf files conn.fileFd) conn.fileOffset conn.fileRemaining) ∧
      conn' = { conn with
        currSendBuf := 0
        currSendSize := 0
        fileFd := none
        fileOffset := 0
        fileRemaining := 0
        status := .ready } := by
  have whole : min n conn.currSendSize = conn.currSendSize := Nat.min_eq_right header.2
  have released : min k conn.fileRemaining = conn.fileRemaining := Nat.min_eq_right body.2
  have some_ : conn.currSendSize ≠ 0 := Nat.pos_iff_ne_zero.mp header.1
  have drained (c : ConnInfo) (empty : c.currSendSize = 0) : sendHeader rest c = (c, [], .drained) := by
    unfold sendHeader
    rw [if_pos empty]
  refine ⟨_, ?_, rfl⟩
  simp [connSendV2, sendHeader, some_, whole, drained, sendBody, body.1, released, finishSendfile]

/-- What `transmitReply` does where the socket takes all of the response. -/
theorem transmitReply_whole {w : State} (slot : Nat) {c : Nat} {opts : ReplyOpts} {bytes : List UInt8} {proc : Nat}
    {requests : Option Nat} (holds : Holds (w.conns c) bytes proc requests) (accepting : Accepting w.kernel)
    (large : messageHeader + commandHeader ≤ opts.respSize) (small : opts.respSize ≤ bufSize)
    (filled : reqSizeOf (w.conns c).sendBuf 0 = opts.respSize) : ∃ ret conn out kernel,
      transmitReply w slot c opts = .ok ({ w with
        conns := Function.update w.conns c conn
        kernel := kernel
        effects := .wire c out :: w.effects }, ret) ∧ ret ≠ 0 ∧ Holds conn bytes proc requests ∧
      conn.recvBuf = (w.conns c).recvBuf ∧ Accepting kernel ∧ out.length = opts.respSize ∧
      reqIdOf (memOf out) 0 = reqIdOf (w.conns c).sendBuf 0 := by
  simp only [messageHeader, commandHeader] at large
  have ready : (w.conns c).status.deferred = false := by
    rw [holds.ready]
    rfl
  obtain ⟨start, empty⟩ := holds.drained
  have named (n : Nat) (rest : List UInt8) (four : 4 ≤ n) :
      reqIdOf (memOf (slice (w.conns c).sendBuf 0 n ++ rest)) 0 = reqIdOf (w.conns c).sendBuf 0 :=
    u32_congr fun i less => by rw [memOf_slice _ _ (by omega)]
  by_cases mode : opts.mode = .sendfile
  · obtain ⟨n, rest, k, kernel, took, header, file, accepting'⟩ := takeSendfile_whole w accepting
    simp only [messageHeader] at header
    let staged : ConnInfo :=
      { w.conns c with
        target := (w.reqs slot).target
        currSendBuf := 0
        currSendSize := messageHeader
        fileFd := some (w.storageFd opts.devId)
        fileOffset := 0
        fileRemaining := opts.respSize - messageHeader }
    have sized : setReqSize (w.conns c).sendBuf 0 opts.respSize = (w.conns c).sendBuf := storeU32_same _ _ _ filled
    have left : (2 ^ 64 + opts.respSize - messageHeader) % 2 ^ 64 = opts.respSize - messageHeader := by
      simp only [bufSize] at small
      simp only [messageHeader]
      omega
    have begins : startSendfile (w.conns c) (w.reqs slot).target (w.storageFd opts.devId) 0 opts.respSize = staged := by
      simp only [startSendfile, sized, empty, if_true, left]
      rfl
    obtain ⟨conn, taken, same⟩ := connSendV2_whole w.files staged rest ⟨(by decide : 0 < messageHeader), header⟩
      (show 0 < opts.respSize - messageHeader ∧ opts.respSize - messageHeader ≤ k by
        simp only [messageHeader]
        omega)
    have deferred : staged.status.deferred = false := ready
    have sends : connStartSendfile w.files (w.conns c) (w.reqs slot).target (w.storageFd opts.devId) 0 opts.respSize
        (.done n :: rest) (.done k) = connSendV2 w.files staged (.done n :: rest) (.done k) := by
      simp only [connStartSendfile, begins, deferred, Bool.false_eq_true, if_false]
    refine ⟨1, conn, slice (w.conns c).sendBuf 0 messageHeader ++
      slice (fileOf w.files (some (w.storageFd opts.devId))) 0 (opts.respSize - messageHeader),
      kernel, ?_, by decide, ?_, by rw [same], accepting', ?_, ?_⟩
    · rw [transmitReply, mode]
      simp only [startSendfileOn, ready, Bool.false_eq_true, if_false, took, sends, taken]
      rfl
    · rw [same]
      exact ⟨holds.opened, holds.buffers, rfl, holds.defrag, ⟨rfl, rfl⟩, holds.first, holds.received,
        holds.space, holds.processed, holds.requests⟩
    · simp only [List.length_append, length_slice, messageHeader]
      omega
    · exact named messageHeader _ (by decide)
  · obtain ⟨n, kernel, took, all, accepting'⟩ := takeSend_whole w c accepting
    let staged : ConnInfo :=
      { w.conns c with target := (w.reqs slot).target, currSendBuf := 0, currSendSize := opts.respSize }
    have sends : connStartSend (w.conns c) (w.reqs slot).target (.done n) = connSend staged (.done n) := by
      simp only [connStartSend, empty, if_true, Nat.zero_add, filled, ready, Bool.false_eq_true, if_false]
      rfl
    have taken : connSend staged (.done n) = _ :=
      connSend_whole holds.ready (by simp only [staged]; omega) (by simp only [staged]; omega)
    refine ⟨opts.respSize, { staged with currSendBuf := 0, currSendSize := 0 },
      slice (w.conns c).sendBuf 0 opts.respSize, kernel, ?_, by omega, ?_, rfl, accepting', length_slice .., ?_⟩
    · have normal : transmitReply w slot c opts = .ok (startSendOn w c (w.reqs slot).target) := by
        cases same : opts.mode with
        | sendfile => exact absurd same mode
        | normal => rw [transmitReply, same]
        | other code => rw [transmitReply, same]
      rw [normal, startSendOn, ready]
      simp only [Bool.false_eq_true, if_false, took, sends, taken]
      rfl
    · exact ⟨holds.opened, holds.buffers, holds.ready, holds.defrag, ⟨rfl, rfl⟩, holds.first, holds.received,
        holds.space, holds.processed, holds.requests⟩
    · have whole := named opts.respSize [] (by omega)
      rwa [List.append_nil] at whole

/-- The request of a connection that has no other. -/
structure Single (w : State) (c slot : Nat) : Prop where
  conn : (w.reqs slot).connId = c
  message : (w.reqs slot).messagePtr = some 0
  prev : (w.reqs slot).prev = none
  next : (w.reqs slot).next = none

theorem connReqRemove_single {w : State} {c slot : Nat} (single : Single w c slot)
    (defrag : (w.conns c).enableDefrag = true) (head : (w.conns c).reqList = some slot) :
    connReqRemove w c slot = { w with
      conns := Function.update w.conns c
        { defragment (w.conns c) 0 (reqSizeOf (w.conns c).recvBuf 0) with reqList := none }
      reqs := Function.update w.reqs slot
        { w.reqs slot with next := none, prev := none, reqId := noReq, messagePtr := none } } := by
  have inside : (w.conns c).enableDefrag = true ∧ 0 < bufSize := ⟨defrag, by decide⟩
  have reclaimed : reclaim w c slot =
      w.setConn c (defragment (w.conns c) 0 (reqSizeOf (w.conns c).recvBuf 0)) := by
    simp only [reclaim, single.message, if_pos inside, single.prev]
    rfl
  have listed : ((reclaim w c slot).conns c).reqList = some slot := by
    rw [reclaimed]
    simpa [State.setConn, defragment] using head
  rw [connReqRemove, dropHead, if_pos listed, reclaimed]
  simp [reqUnlink, State.setConn, State.setReq, single.next, single.prev, setPrev, setNext]

/-- What is left of the bytes behind the first message. -/
theorem Holds.removed {conn : ConnInfo} {message rest : List UInt8} {requests : Option Nat}
    (holds : Holds conn (message ++ rest) message.length requests)
    (size : reqSizeOf conn.recvBuf 0 = message.length) :
    Holds { defragment conn 0 (reqSizeOf conn.recvBuf 0) with reqList := none } rest 0 none := by
  obtain ⟨opened, buffers, ready, defrag, drained, first, received, space, processed, -⟩ := holds
  rw [List.length_append] at first received space
  have left : conn.currRecvBuf - (0 + message.length) = rest.length := by omega
  have tail : slice conn.recvBuf (0 + message.length) rest.length = rest := by
    rw [slice_add] at first
    exact (List.append_inj first (length_slice ..)).2
  have after : defragment conn 0 (reqSizeOf conn.recvBuf 0) = { conn with
      recvBuf := store conn.recvBuf 0 rest
      currRecvBuf := rest.length
      currProcBuf := 0
      currRecvSize := conn.currRecvSize + message.length } := by
    have end_ : conn.currRecvBuf - message.length = rest.length := by omega
    simp only [defragment, size, left, tail, processed, end_, Nat.sub_self]
  have total : conn.currRecvSize + message.length + rest.length = bufSize := by omega
  rw [after]
  exact ⟨opened, buffers, ready, defrag, drained, slice_store_self .., rfl, total, rfl, rfl⟩

/-- What `fillReply` writes at the start of a drained send buffer. -/
theorem fillReply_header (conn : ConnInfo) (mem : Mem) (m : Nat) {opts : ReplyOpts}
    (small : opts.respSize ≤ bufSize) :
    reqSizeOf (fillReply conn mem m opts 0).sendBuf 0 = opts.respSize ∧
      reqIdOf (fillReply conn mem m opts 0).sendBuf 0 = reqIdOf mem m := by
  have fits : opts.respSize < 2 ^ 32 := lt_of_le_of_lt small (by decide)
  constructor
  · simp only [fillReply, reqSizeOf, setStatus, setReqSize, storeU32, messageFirstCmd, messageHeader]
    rw [u32_store_disjoint _ _ _ _ (Or.inl (by omega)), u32_store_disjoint _ _ _ _ (Or.inl (by omega))]
    exact u32_storeU32 _ _ fits
  · simp only [fillReply, reqIdOf, setStatus, setReqSize, setReqId, storeU32, messageFirstCmd, messageHeader]
    rw [u32_store_disjoint _ _ _ _ (Or.inl (by omega)), u32_store_disjoint _ _ _ _ (Or.inl (by omega)),
      u32_store_disjoint _ _ _ _ (Or.inl (by omega))]
    exact u32_storeU32 _ _ (u32_lt _ _)

/-- What the worker has done when the request in `slot`, of id `reqId`, has been answered. -/
structure Answered (w w' : State) (c slot reqId : Nat) (opts : ReplyOpts) (rest : List UInt8) : Prop where
  wire : ∃ out, w'.effects = .wire c out :: w.effects ∧ out.length = opts.respSize ∧ reqIdOf (memOf out) 0 = reqId
  holds : Holds (w'.conns c) rest 0 none
  next : w'.lastReqs = w.lastReqs
  free : ∀ s, s = slot ∨ (w.reqs s).reqId = noReq → (w'.reqs s).reqId = noReq
  accepting : Accepting w'.kernel

theorem prepare_drained {conn : ConnInfo} (drained : conn.currSendBuf = 0 ∧ conn.currSendSize = 0) :
    connPrepareSendMessage conn = ({ conn with sendBuf := setReqSize conn.sendBuf 0 bufSize }, 0) := by
  have all : advertised conn = bufSize := by
    rw [advertised, drained.1, drained.2]
    decide
  rw [connPrepareSendMessage, all, drained.2]

/-- The response of the only request takes its message out of the buffer. -/
theorem reply_whole {w : State} {slot c cmd : Nat} {message rest : List UInt8} (single : Single w c slot)
    (holds : Holds (w.conns c) (message ++ rest) message.length (some slot)) (accepting : Accepting w.kernel)
    (size : reqSizeOf (w.conns c).recvBuf 0 = message.length)
    (large : messageHeader + commandHeader ≤ (replyOpts (w.conns c).recvBuf cmd).respSize)
    (small : (replyOpts (w.conns c).recvBuf cmd).respSize ≤ bufSize) :
    ∃ w' ret, reply w slot 0 cmd = .ok (w', ret) ∧ ret ≠ 0 ∧
      Answered w w' c slot (reqIdOf (w.conns c).recvBuf 0) (replyOpts (w.conns c).recvBuf cmd) rest := by
  let opts := replyOpts (w.conns c).recvBuf cmd
  let prepared : ConnInfo := { w.conns c with sendBuf := setReqSize (w.conns c).sendBuf 0 bufSize }
  let conn := fillReply prepared (w.conns c).recvBuf 0 opts 0
  let filled := w.setConn c conn
  have here : filled.conns c = conn := by simp [filled, State.setConn]
  obtain ⟨sized, named⟩ := fillReply_header prepared (w.conns c).recvBuf 0 small
  have holds' : Holds (filled.conns c) (message ++ rest) message.length (some slot) := by
    rw [here]
    exact ⟨holds.opened, holds.buffers, holds.ready, holds.defrag, holds.drained, holds.first, holds.received,
      holds.space, holds.processed, holds.requests⟩
  obtain ⟨ret, sent, out, kernel, transmitted, nonzero, after, sameBuf, accepting', length, id⟩ :=
    transmitReply_whole slot holds' accepting large small (by rw [here]; exact sized)
  let passed : State := { filled with
    conns := Function.update filled.conns c sent
    kernel := kernel
    effects := .wire c out :: filled.effects }
  have kept : passed.conns c = sent := by simp [passed]
  have requested : reqSizeOf sent.recvBuf 0 = message.length := by
    rw [sameBuf, here]
    exact size
  have only : Single passed c slot := ⟨single.conn, single.message, single.prev, single.next⟩
  have removed := connReqRemove_single only (by rw [kept]; exact after.defrag) (by rw [kept]; exact after.requests)
  rw [kept] at removed
  have fits : ¬ reqSizeOf prepared.sendBuf 0 < opts.respSize := by
    rw [show reqSizeOf prepared.sendBuf 0 = bufSize from u32_storeU32 _ _ (by decide)]
    exact not_lt.mpr small
  refine ⟨{ connReqRemove passed c slot with activeReqs := passed.activeReqs - 1 }, ret, ?_, nonzero, ?_⟩
  · simp only [reply, reqMem, single.conn, prepare_drained holds.drained]
    rw [if_neg fits]
    exact (congrArg (Except.map _) transmitted).trans rfl
  · rw [removed]
    refine ⟨⟨out, rfl, length, ?_⟩, ?_, rfl, ?_, accepting'⟩
    · rw [id, here]
      exact named
    · simpa using after.removed requested
    · intro s unused
      by_cases own : s = slot
      · simp [own]
      · simpa [own, passed, filled, State.setConn] using unused.resolve_left own

theorem processReply_whole {w : State} {slot c cmd : Nat} {message rest : List UInt8} (single : Single w c slot)
    (holds : Holds (w.conns c) (message ++ rest) message.length (some slot)) (accepting : Accepting w.kernel)
    (size : reqSizeOf (w.conns c).recvBuf 0 = message.length)
    (large : messageHeader + commandHeader ≤ (replyOpts (w.conns c).recvBuf cmd).respSize)
    (small : (replyOpts (w.conns c).recvBuf cmd).respSize ≤ bufSize) :
    ∃ w', processReply w slot 0 cmd = .ok (w', 1) ∧
      Answered w w' c slot (reqIdOf (w.conns c).recvBuf 0) (replyOpts (w.conns c).recvBuf cmd) rest := by
  obtain ⟨w', ret, replied, nonzero, answered⟩ := reply_whole single holds accepting size large small
  have ready := answered.holds.ready
  refine ⟨w', ?_, answered⟩
  simp [processReply, single.conn, replied, ready, nonzero]

/-! ## One message -/

/-- The request of a connection that has none takes the next slot, which is free. -/
theorem enterRequest_single {w : State} {c : Nat} (m : Nat) (alone : (w.conns c).reqList = none)
    (free : (w.reqs (slotOf w.lastReqs)).reqId = noReq) : enterRequest w c m =
      ({ w with
        conns := Function.update w.conns c { w.conns c with reqList := some (slotOf w.lastReqs) }
        reqs := Function.update w.reqs (slotOf w.lastReqs) { entered w c m with next := none, prev := none }
        lastReqs := (w.lastReqs + 1) % 2 ^ 32
        activeReqs := w.activeReqs + 1 }, some (slotOf w.lastReqs)) := by
  simp [enterRequest, connReqAdd, reqAlloc, free, alone, entered, Worker.setPrev, State.setConn, State.setReq]

/-- A request of connection `c` has been entered in the slot of the next id. -/
structure Entered (w w' : State) (c : Nat) (bytes : List UInt8) (proc : Nat) : Prop where
  single : Single w' c (slotOf w.lastReqs)
  cmd : (w'.reqs (slotOf w.lastReqs)).currCmd = some messageHeader
  holds : Holds (w'.conns c) bytes proc (some (slotOf w.lastReqs))
  recvBuf : (w'.conns c).recvBuf = (w.conns c).recvBuf
  others : ∀ s ≠ slotOf w.lastReqs, w'.reqs s = w.reqs s
  next : w'.lastReqs = (w.lastReqs + 1) % 2 ^ 32
  effects : w'.effects = w.effects
  kernel : w'.kernel = w.kernel

theorem enterRequest_whole {w : State} {c proc : Nat} {bytes : List UInt8} (holds : Holds (w.conns c) bytes proc none)
    (free : (w.reqs (slotOf w.lastReqs)).reqId = noReq) :
    ∃ w', enterRequest w c 0 = (w', some (slotOf w.lastReqs)) ∧ Entered w w' c bytes proc := by
  refine ⟨_, enterRequest_single 0 holds.requests free, ?_, ?_, ?_, ?_, ?_, rfl, rfl, rfl⟩
  · constructor <;> simp [entered]
  · simp [entered, messageFirstCmd]
  · simp only [Function.update_self]
    exact ⟨holds.opened, holds.buffers, holds.ready, holds.defrag, holds.drained, holds.first, holds.received,
      holds.space, holds.processed, rfl⟩
  · simp
  · intro s other
    exact Function.update_of_ne other _ _

/-- The first message that has arrived whole. -/
theorem prepare_whole {conn : ConnInfo} {message rest : List UInt8} {requests : Option Nat}
    (holds : Holds conn (message ++ rest) 0 requests) (size : reqSizeOf conn.recvBuf 0 = message.length)
    (large : messageHeader ≤ message.length) (small : message.length ≤ bufSize) :
    ∃ conn', connPrepareRecvMessage conn = .ok (some 0, conn') ∧ conn'.recvBuf = conn.recvBuf ∧
      Holds conn' (message ++ rest) message.length requests := by
  have arrived := holds.received
  rw [List.length_append] at arrived
  refine ⟨{ conn with currProcBuf := message.length }, ?_, rfl, ?_⟩
  · simp only [connPrepareRecvMessage, holds.processed, size]
    rw [if_neg (by omega), if_neg (by omega), if_neg (by omega), Nat.zero_add]
  · exact ⟨holds.opened, holds.buffers, holds.ready, holds.defrag, holds.drained, holds.first, holds.received,
      holds.space, rfl, holds.requests⟩

/-- What the worker has done when the next request of connection `c` has been executed. -/
structure Executed (w w' : State) (c : Nat) (r : Request) (rest : List UInt8) : Prop where
  effects : ∃ out, w'.effects = .wire c out :: (r.times.map (.compute (slotOf w.lastReqs))).reverse ++ w.effects ∧
    out.length = r.opts.respSize ∧ reqIdOf (memOf out) 0 = reqIdOf (memOf r.bytes) 0
  holds : Holds (w'.conns c) rest 0 none
  next : w'.lastReqs = (w.lastReqs + 1) % 2 ^ 32
  free : ∀ s, (w.reqs s).reqId = noReq → (w'.reqs s).reqId = noReq
  accepting : Accepting w'.kernel

section Round

variable {w w' : State} {c : Nat} {r : Request} {rest : List UInt8}

/-- The bytes of a message that lies at the start of the buffer. -/
theorem Holds.message {conn : ConnInfo} {proc : Nat} {requests : Option Nat}
    (holds : Holds conn (r.bytes ++ rest) proc requests) :
    Simple conn.recvBuf r.bytes.length messageHeader r.times r.opts ∧ reqSizeOf conn.recvBuf 0 = r.bytes.length ∧
      reqIdOf conn.recvBuf 0 = reqIdOf (memOf r.bytes) 0 := by
  have first := holds.first
  have same : ∀ i < r.bytes.length, conn.recvBuf i = memOf r.bytes i := fun i inside => memOf_eq first inside
  have commands := r.commands.congr same
  have room := commands.room
  simp only [messageHeader, commandHeader] at room
  refine ⟨commands, ?_, ?_⟩
  · rw [← r.size]
    exact u32_congr fun i less => same _ (by omega)
  · exact u32_congr fun i less => same _ (by omega)

theorem processSingleMessage_whole (before : Entered w w' c (r.bytes ++ rest) r.bytes.length)
    (accepting : Accepting w.kernel) :
    ∃ w'', processSingleMessage w' (slotOf w.lastReqs) = .ok (w'', 1) ∧ Executed w w'' c r rest := by
  obtain ⟨single, cmd, holds, recvBuf, others, next, effects, kernel⟩ := before
  obtain ⟨commands, size, id⟩ := holds.message
  have mem : reqMem w' (slotOf w.lastReqs) = (w'.conns c).recvBuf := by rw [reqMem, single.conn]
  have msgEnd : messageEnd (w'.conns c).recvBuf 0 = r.bytes.length := by rw [messageEnd, size, Nat.zero_add]
  have room := commands.room
  obtain ⟨large, small⟩ := commands.replies
  rw [← msgEnd] at commands
  have enough : r.times.length < messageEnd (w'.conns c).recvBuf 0 + 1 := by omega
  obtain ⟨last, opts, runs⟩ := processFrom_simple commands enough (slotOf w.lastReqs) w'
  rw [← opts] at large small
  obtain ⟨w'', replied, wire, holds', next', free', accepting'⟩ :=
    processReply_whole (w := computed w' (slotOf w.lastReqs) r.times)
      ⟨single.conn, single.message, single.prev, single.next⟩ holds (kernel ▸ accepting) size large small
  refine ⟨w'', ?_, ?_, holds', next'.trans next, ?_, accepting'⟩
  · rw [processSingleMessage, single.message]
    simp only [mem, cmd]
    rw [runs, replied]
  · obtain ⟨out, emitted, length, named⟩ := wire
    refine ⟨out, ?_, length.trans (congrArg ReplyOpts.respSize opts), named.trans id⟩
    rw [emitted, computed, effects]
    rfl
  · intro s unused
    apply free' s
    by_cases own : s = slotOf w.lastReqs
    · exact Or.inl own
    · refine Or.inr ?_
      rw [computed, others s own]
      exact unused

/-- A round of `obtain_messages` executes the first message and leaves the bytes behind it. -/
theorem round_whole (fuel : Nat) (holds : Holds (w.conns c) (r.bytes ++ rest) 0 none) (accepting : Accepting w.kernel)
    (free : (w.reqs (slotOf w.lastReqs)).reqId = noReq) :
    ∃ w', obtainFrom c (fuel + 1) w = obtainFrom c fuel w' ∧ Executed w w' c r rest := by
  obtain ⟨commands, size, -⟩ := holds.message
  have room := commands.room
  obtain ⟨conn, prepared, sameBuf, holds'⟩ := prepare_whole holds size (by omega) r.small
  have here : (w.setConn c conn).conns c = conn := by simp [State.setConn]
  obtain ⟨w1, entered, before⟩ := enterRequest_whole (w := w.setConn c conn) (c := c) (here.symm ▸ holds') free
  obtain ⟨w', executed, after⟩ := processSingleMessage_whole before accepting
  have slot : slotOf (w.setConn c conn).lastReqs = slotOf w.lastReqs := rfl
  rw [slot] at entered executed
  have first : cmdAt conn.recvBuf (messageFirstCmd 0) ≠ .eom := by
    rw [sameBuf, messageFirstCmd, Nat.zero_add]
    rcases commands.inBounds.2 with here | here <;> simp [here]
  refine ⟨w', ?_, after.effects, after.holds, after.next, after.free, after.accepting⟩
  rw [obtainFrom, prepared]
  simp only [if_neg first, entered, executed]
  exact if_neg (by decide)

end Round

/-! ## A stream of messages -/

/-- The bytes of the requests, one behind the other. -/
def stream (ms : List Request) : List UInt8 := (ms.map Request.bytes).flatten

/-- The bytes that have come of the requests still to come. -/
def Partial (part : List UInt8) : List Request → Prop
  | [] => part = []
  | r :: _ => ∃ more, more ≠ [] ∧ r.bytes = part ++ more

/-- From the first request id to the last one every request computes and gets one response
with its own id, oldest first. -/
inductive Served (c : Nat) : Nat → List Request → List Effect → Nat → Prop
  | nil (id : Nat) : Served c id [] [] id
  | cons {id last : Nat} {r : Request} {later : List Request} {out : List UInt8} {effects : List Effect}
      (length : out.length = r.opts.respSize) (named : reqIdOf (memOf out) 0 = reqIdOf (memOf r.bytes) 0)
      (rest : Served c ((id + 1) % 2 ^ 32) later effects last) :
      Served c id (r :: later) (r.times.map (.compute (slotOf id)) ++ .wire c out :: effects) last

/-- The slots of the next requests are free. -/
def Spare (w : State) (count : Nat) : Prop := ∀ i < count, (w.reqs (slotOf (w.lastReqs + i))).reqId = noReq

/-- The requests that have been served, and the bytes that are left of the next one. -/
structure Serves (w w' : State) (c : Nat) (done : List Request) (part : List UInt8) : Prop where
  effects : ∃ es, Served c w.lastReqs done es w'.lastReqs ∧ w'.effects = es.reverse ++ w.effects
  holds : Holds (w'.conns c) part 0 none
  spare : ∀ count, Spare w (done.length + count) → Spare w' count

theorem stream_append (ms ms' : List Request) : stream (ms ++ ms') = stream ms ++ stream ms' := by
  simp [stream]

theorem length_le_stream (ms : List Request) : ms.length ≤ (stream ms).length := by
  induction ms with
  | nil => exact Nat.le_refl _
  | cons r ms ih =>
    have room := r.commands.room
    have head : (stream (r :: ms)).length = r.bytes.length + (stream ms).length := List.length_append
    rw [List.length_cons, head]
    omega

theorem Served.append {c id next last : Nat} {ms ms' : List Request} {es es' : List Effect}
    (h : Served c id ms es next) (h' : Served c next ms' es' last) : Served c id (ms ++ ms') (es ++ es') last := by
  induction h with
  | nil => exact h'
  | cons length named rest ih =>
    rw [List.cons_append, List.append_assoc, List.cons_append]
    exact .cons length named (ih h')

theorem Serves.trans {w w' w'' : State} {c : Nat} {done done' : List Request} {part part' : List UInt8}
    (h : Serves w w' c done part) (h' : Serves w' w'' c done' part') : Serves w w'' c (done ++ done') part' := by
  obtain ⟨es, served, emitted⟩ := h.effects
  obtain ⟨es', served', emitted'⟩ := h'.effects
  refine ⟨⟨es ++ es', served.append served', ?_⟩, h'.holds, ?_⟩
  · rw [emitted', emitted, List.reverse_append, List.append_assoc]
  · intro count spare
    rw [List.length_append, Nat.add_assoc] at spare
    exact h'.spare count (h.spare _ spare)

/-- A part of the stream is some whole messages and a part of the next one. -/
theorem split_stream {bytes ahead : List UInt8} {ms : List Request} (cut : bytes ++ ahead = stream ms) :
    ∃ done later part, ms = done ++ later ∧ bytes = stream done ++ part ∧ Partial part later ∧
      part ++ ahead = stream later := by
  induction ms generalizing bytes with
  | nil =>
    obtain ⟨rfl, rfl⟩ := List.append_eq_nil_iff.mp cut
    exact ⟨[], [], [], rfl, rfl, rfl, rfl⟩
  | cons r ms ih =>
    have head : stream (r :: ms) = r.bytes ++ stream ms := rfl
    by_cases whole : ∃ later, bytes = r.bytes ++ later
    · obtain ⟨later, rfl⟩ := whole
      rw [head, List.append_assoc] at cut
      obtain ⟨done, left, part, rfl, rfl, unfinished, rest⟩ := ih (List.append_cancel_left cut)
      exact ⟨r :: done, left, part, rfl, (List.append_assoc ..).symm, unfinished, rest⟩
    · refine ⟨[], r :: ms, bytes, rfl, rfl, ?_, cut⟩
      rw [head] at cut
      rcases List.append_eq_append_iff.mp cut with ⟨more, message, -⟩ | ⟨later, rfl, -⟩
      · refine ⟨more, ?_, message⟩
        rintro rfl
        exact whole ⟨[], by rw [message, List.append_nil, List.append_nil]⟩
      · exact absurd ⟨later, rfl⟩ whole

section Stream

variable {w w' : State} {c : Nat} {r : Request} {rest part : List UInt8} {ms done later : List Request}

theorem Executed.serves (h : Executed w w' c r rest) : Serves w w' c [r] rest := by
  obtain ⟨out, emitted, length, named⟩ := h.effects
  refine ⟨⟨r.times.map (.compute (slotOf w.lastReqs)) ++ [.wire c out], ?_, ?_⟩, h.holds, ?_⟩
  · refine .cons length named ?_
    rw [h.next]
    exact .nil _
  · rw [emitted, List.reverse_append]
    rfl
  · intro count spare i less
    have same : slotOf (w'.lastReqs + i) = slotOf (w.lastReqs + (1 + i)) := by
      rw [h.next]
      simp only [slotOf, maxReqs]
      omega
    rw [same]
    exact h.free _ (spare (1 + i) (Nat.add_lt_add_left less 1))

/-- A message that has not arrived whole is left in the buffer. -/
theorem prepare_partial {conn : ConnInfo} {requests : Option Nat} (holds : Holds conn part 0 requests)
    (unfinished : Partial part later) : connPrepareRecvMessage conn = .ok (none, conn) := by
  have arrived := holds.received
  simp only [connPrepareRecvMessage, holds.processed, arrived, Nat.sub_zero]
  by_cases short : part.length < messageHeader
  · rw [if_pos short]
  · rw [if_neg short]
    simp only [messageHeader] at short
    cases later with
    | nil =>
      rw [show part = [] from unfinished] at short
      exact absurd (by decide) short
    | cons r later =>
      obtain ⟨more, some_, message⟩ := unfinished
      have length : r.bytes.length = part.length + more.length := by rw [message, List.length_append]
      have size : reqSizeOf conn.recvBuf 0 = r.bytes.length := by
        rw [← r.size]
        refine u32_congr fun i less => ?_
        have inside : 0 + 4 + i < part.length := by omega
        have here : slice conn.recvBuf 0 part.length = part ++ [] := by rw [holds.first, List.append_nil]
        rw [memOf_eq here inside, message, memOf_apply inside, memOf_apply (by rw [List.length_append]; omega),
          List.getElem_append_left inside]
      have missing := List.length_pos_of_ne_nil some_
      rw [if_pos (by rw [size]; omega)]

/-- The batch executes every message that has arrived whole. -/
theorem batch_whole {fuel : Nat} (holds : Holds (w.conns c) (stream done ++ part) 0 none)
    (accepting : Accepting w.kernel) (spare : Spare w done.length) (unfinished : Partial part later)
    (enough : done.length < fuel) : ∃ w', obtainFrom c fuel w = .ok (w', true) ∧ Serves w w' c done part := by
  induction done generalizing w fuel with
  | nil =>
    obtain ⟨fuel, rfl⟩ : ∃ f, fuel = f + 1 := ⟨fuel - 1, by omega⟩
    have same : w.setConn c (w.conns c) = w := by simp [State.setConn]
    refine ⟨w, ?_, ⟨[], .nil _, rfl⟩, holds, ?_⟩
    · rw [obtainFrom, prepare_partial holds unfinished]
      simp only [same]
    · intro count spare
      rwa [List.length_nil, Nat.zero_add] at spare
  | cons r done ih =>
    rw [List.length_cons] at enough
    obtain ⟨fuel, rfl⟩ : ∃ f, fuel = f + 1 := ⟨fuel - 1, by omega⟩
    have head : stream (r :: done) ++ part = r.bytes ++ (stream done ++ part) := List.append_assoc ..
    rw [head] at holds
    have free := spare 0 (Nat.succ_pos _)
    obtain ⟨v, goes, executed⟩ := round_whole fuel holds accepting free
    have first := executed.serves
    have spare' : Spare v done.length := first.spare _ (by rwa [List.length_cons, Nat.add_comm] at spare)
    obtain ⟨w', finished, served⟩ := ih executed.holds executed.accepting spare' (Nat.lt_of_succ_lt_succ enough)
    exact ⟨w', goes.trans finished, first.trans served⟩

/-- What `conn_recv` does with bytes that there is space for. -/
theorem connRecv_whole {conn : ConnInfo} {b : List UInt8} {requests : Option Nat} (holds : Holds conn part 0 requests)
    (some_ : b ≠ []) (fits : b.length ≤ conn.currRecvSize) :
    ∃ conn', connRecv conn (.bytes b none) = (conn', 1) ∧ Holds conn' (part ++ b) 0 requests := by
  obtain ⟨opened, buffers, ready, defrag, drained, first, received, space, processed, requests⟩ := holds
  have all : b.take conn.currRecvSize = b := List.take_of_length_le fits
  have nonempty : b.length ≠ 0 := fun empty => some_ (List.length_eq_zero_iff.mp empty)
  have same : (if conn.useSsl = true then conn else { conn with target := conn.target }) = conn := by
    split <;> rfl
  refine ⟨takeBytes conn b, ?_, opened, buffers, ready, defrag, drained, ?_, ?_, ?_, processed, requests⟩
  · rw [connRecv, if_neg (by simp [ready])]
    simp only [all, if_neg nonempty, Option.getD_none, same]
  · simp only [takeBytes, all, received, List.length_append]
    rw [slice_add, Nat.zero_add, slice_store_self, slice_store_disjoint _ _ _ _ _ (Or.inl (by omega)), first]
  · simp only [takeBytes, all, received, List.length_append]
  · simp only [takeBytes, all, List.length_append]
    omega

/-- An event that brings bytes serves what is complete with them. -/
theorem step_whole {kernel : Kernel} {b ahead : List UInt8} (holds : Holds (w.conns c) part 0 none)
    (spare : Spare w ms.length) (accepting : Accepting kernel) (some_ : b ≠ [])
    (fits : b.length ≤ (w.conns c).currRecvSize) (cut : part ++ b ++ ahead = stream ms) :
    ∃ w' done later part', step w kernel (.ready c .socket (received b)) = .ok w' ∧ ms = done ++ later ∧
      part ++ b = stream done ++ part' ∧ Partial part' later ∧ part' ++ ahead = stream later ∧
      Serves w w' c done part' := by
  obtain ⟨done, later, part', rfl, arrived, unfinished, rest⟩ := split_stream cut
  obtain ⟨conn, taken, holds'⟩ := connRecv_whole holds some_ fits
  rw [arrived] at holds'
  let w0 : State := { w with kernel := kernel }
  let w1 := w0.setConn c conn
  have here : w1.conns c = conn := by simp [w1, State.setConn]
  have count : done.length ≤ conn.currRecvBuf := by
    rw [holds'.received, List.length_append]
    exact (length_le_stream done).trans (Nat.le_add_right ..)
  have spare' : Spare w1 done.length := fun i less => spare i (by rw [List.length_append]; omega)
  obtain ⟨w', served, serves⟩ := batch_whole (w := w1) (here.symm ▸ holds') accepting spare' unfinished
    (Nat.lt_succ_of_le count)
  refine ⟨w', done, later, part', ?_, rfl, arrived, unfinished, rest, serves.effects, serves.holds, serves.spare⟩
  have opened : ¬ ((w0.conns c).sock = none ∨ (w0.conns c).buffers = false) := by
    simp [w0, holds.opened, holds.buffers]
  have established : establishPhase w0 c .socket (received b) = .ok (w0, true) := rfl
  have phase : recvPhase w0 c (received b) = (w1, true) := by
    simp only [recvPhase, received, if_true, w0, taken]
    rfl
  have flushed : flushPhase w1 c (received b) = .ok (w1, true) := rfl
  have batch : obtainMessages w1 c = .ok (w', true) := by rw [obtainMessages, here, served]
  have enters : step w kernel (.ready c .socket (received b)) = execReady w0 c .socket (received b) := by
    simp only [step, execRequest, holds.ready]
    rfl
  rw [enters]
  simp only [execReady, reduceCtorEq, if_false, if_neg opened, established, phase, flushed, batch]

end Stream

/-! ## Cutting the stream -/

/-- What the calls of `conn_recv` get, and the kernel's answers to the calls made then. -/
abbrev Pieces := List (Kernel × List UInt8)

def arrived (pieces : Pieces) : List UInt8 := (pieces.map Prod.snd).flatten

/-- Each piece is an event for connection `c`. -/
def events (c : Nat) (pieces : Pieces) : List (Kernel × Event) :=
  pieces.map fun piece => (piece.1, .ready c .socket (received piece.2))

/-- No call gets nothing or more than `curr_recv_size`, and the socket takes the responses. -/
def Deliverable (c : Nat) : State → Pieces → Prop
  | _, [] => True
  | w, (kernel, b) :: later =>
    Accepting kernel ∧ b ≠ [] ∧ b.length ≤ (w.conns c).currRecvSize ∧
      ∀ w', step w kernel (.ready c .socket (received b)) = .ok w' → Deliverable c w' later

/-- Whatever has arrived, the messages that are complete have been served. -/
theorem run_whole {w : State} {c : Nat} {part ahead : List UInt8} {ms : List Request} {pieces : Pieces}
    (holds : Holds (w.conns c) part 0 none) (unfinished : Partial part ms) (spare : Spare w ms.length)
    (given : Deliverable c w pieces) (cut : part ++ arrived pieces ++ ahead = stream ms) :
    ∃ w' done later part', run w (events c pieces) = .ok w' ∧ ms = done ++ later ∧
      part ++ arrived pieces = stream done ++ part' ∧ Partial part' later ∧ part' ++ ahead = stream later ∧
      Serves w w' c done part' := by
  induction pieces generalizing w part ms with
  | nil =>
    have all : part ++ arrived [] = part := List.append_nil part
    rw [all] at cut ⊢
    refine ⟨w, [], ms, part, rfl, rfl, rfl, unfinished, cut, ⟨[], .nil _, rfl⟩, holds, ?_⟩
    intro count spare
    rwa [List.length_nil, Nat.zero_add] at spare
  | cons piece pieces ih =>
    obtain ⟨kernel, b⟩ := piece
    obtain ⟨accepting, some_, fits, goes⟩ := given
    have head : arrived ((kernel, b) :: pieces) = b ++ arrived pieces := rfl
    rw [head, ← List.append_assoc] at cut ⊢
    rw [List.append_assoc] at cut
    obtain ⟨v, done, later, part', stepped, rfl, first, unfinished', rest, serves⟩ :=
      step_whole holds spare accepting some_ fits cut
    rw [List.length_append] at spare
    rw [← List.append_assoc] at rest
    obtain ⟨w', done', later', part'', ran, rfl, second, unfinished'', rest', serves'⟩ :=
      ih serves.holds unfinished' (serves.spare _ spare) (goes v stepped) rest
    refine ⟨w', done ++ done', later', part'', ?_, (List.append_assoc ..).symm, ?_, unfinished'', rest',
      serves.trans serves'⟩
    · simp only [events, List.map_cons, run, stepped]
      exact ran
    · rw [first, List.append_assoc, second, stream_append, List.append_assoc]

/-- While bytes are missing there is space for them. -/
theorem Holds.room {conn : ConnInfo} {part ahead : List UInt8} {requests : Option Nat} {later : List Request}
    (holds : Holds conn part 0 requests) (unfinished : Partial part later) (rest : part ++ ahead = stream later)
    (missing : ahead ≠ []) : 0 < conn.currRecvSize := by
  cases later with
  | nil =>
    obtain ⟨-, empty⟩ := List.append_eq_nil_iff.mp rest
    exact absurd empty missing
  | cons r later =>
    obtain ⟨more, some_, message⟩ := unfinished
    have small := r.small
    have space := holds.space
    have left := List.length_pos_of_ne_nil some_
    rw [message, List.length_append] at small
    omega

theorem partial_nil (ms : List Request) : Partial [] ms := by
  cases ms with
  | nil => rfl
  | cons r ms =>
    have room := r.commands.room
    refine ⟨r.bytes, ?_, rfl⟩
    intro empty
    rw [empty, List.length_nil] at room
    exact absurd room (by omega)

/-- When the stream has ended no part of a message is left. -/
theorem partial_end {part : List UInt8} {later : List Request} (unfinished : Partial part later)
    (rest : part = stream later) : later = [] ∧ part = [] := by
  cases later with
  | nil => exact ⟨rfl, unfinished⟩
  | cons r later =>
    obtain ⟨more, some_, message⟩ := unfinished
    have left := List.length_pos_of_ne_nil some_
    have length := congrArg List.length (rest.trans (show stream (r :: later) = r.bytes ++ stream later from rfl))
    rw [message, List.length_append, List.length_append] at length
    omega

/-- A stream that the buffer holds can be cut anywhere. -/
theorem deliverable_of_short {w : State} {c : Nat} {part ahead : List UInt8} {ms : List Request} {pieces : Pieces}
    (holds : Holds (w.conns c) part 0 none) (spare : Spare w ms.length)
    (given : ∀ piece ∈ pieces, Accepting piece.1 ∧ piece.2 ≠ [])
    (cut : part ++ arrived pieces ++ ahead = stream ms)
    (short : (stream ms).length ≤ bufSize) : Deliverable c w pieces := by
  induction pieces generalizing w part ms with
  | nil => trivial
  | cons piece pieces ih =>
    obtain ⟨kernel, b⟩ := piece
    obtain ⟨accepting, some_⟩ := given _ List.mem_cons_self
    have head : arrived ((kernel, b) :: pieces) = b ++ arrived pieces := rfl
    rw [head, ← List.append_assoc, List.append_assoc] at cut
    have fits : b.length ≤ (w.conns c).currRecvSize := by
      have length := congrArg List.length cut
      have space := holds.space
      simp only [List.length_append] at length
      omega
    obtain ⟨v, done, later, part', stepped, rfl, -, -, rest, serves⟩ :=
      step_whole holds spare accepting some_ fits cut
    refine ⟨accepting, some_, fits, fun w' taken => ?_⟩
    rw [stepped] at taken
    cases taken
    rw [List.length_append] at spare
    rw [stream_append, List.length_append] at short
    rw [← List.append_assoc] at rest
    exact ih serves.holds (serves.spare _ spare) (fun piece member => given piece (List.mem_cons_of_mem _ member))
      rest (by omega)

/-- However the stream is cut, each message is executed and answered once and in order as
soon as it is complete, and there is always space for bytes that are still to come. After
the last byte the connection is as before the first. -/
theorem segmentation_independent {w : State} {c : Nat} {ms : List Request} {pieces : Pieces} {ahead : List UInt8}
    (idle : Holds (w.conns c) [] 0 none) (spare : Spare w ms.length) (given : Deliverable c w pieces)
    (cut : arrived pieces ++ ahead = stream ms) :
    ∃ w' done later part effects, run w (events c pieces) = .ok w' ∧
      ms = done ++ later ∧ arrived pieces = stream done ++ part ∧ Partial part later ∧
      Served c w.lastReqs done effects w'.lastReqs ∧ w'.effects = effects.reverse ++ w.effects ∧
      Holds (w'.conns c) part 0 none ∧ (ahead ≠ [] → 0 < (w'.conns c).currRecvSize) ∧
      (ahead = [] → done = ms ∧ (w'.conns c).reqList = none ∧ (w'.conns c).currRecvBuf = 0 ∧
        (w'.conns c).currProcBuf = 0 ∧ (w'.conns c).currRecvSize = bufSize) := by
  obtain ⟨w', done, later, part, ran, all, first, unfinished, rest, serves⟩ :=
    run_whole idle (partial_nil ms) spare given cut
  obtain ⟨effects, served, emitted⟩ := serves.effects
  refine ⟨w', done, later, part, effects, ran, all, first, unfinished, served, emitted, serves.holds,
    serves.holds.room unfinished rest, ?_⟩
  rintro rfl
  rw [List.append_nil] at rest
  obtain ⟨rfl, rfl⟩ := partial_end unfinished rest
  rw [List.append_nil] at all
  exact ⟨all.symm, serves.holds.requests, serves.holds.received, serves.holds.processed, serves.holds.space⟩

/-- Request 5 of 40 bytes: COMPUTE, REPLY of 64 bytes, EOM. -/
def walkBytes : List UInt8 :=
  [5, 0, 0, 0, 40, 0, 0, 0, 0, 0, 0, 0, 0, 0, 0, 0, 10, 0, 0, 0,
    6, 0, 0, 0, 64, 0, 0, 0, 0, 0, 0, 0, 0, 0, 0, 0, 7, 0, 0, 0]

theorem walkBytes_commands : Simple (memOf walkBytes) walkBytes.length messageHeader [10] ⟨64, .normal, 0⟩ := by
  have time : compTimeUs (memOf walkBytes) messageHeader = 10 := by decide
  have opts : replyOpts (memOf walkBytes) (messageHeader + 8) = ⟨64, .normal, 0⟩ := rfl
  have last : Simple (memOf walkBytes) walkBytes.length (messageHeader + 8) [] (replyOpts (memOf walkBytes) _) :=
    .reply (by decide) (by decide) (by decide) (by rw [opts]; decide) (by rw [opts]; decide)
  have walk := Simple.compute (by decide) last
  rwa [time, opts] at walk

def walkRequest : Request where
  bytes := walkBytes
  times := [10]
  opts := ⟨64, .normal, 0⟩
  small := by decide
  size := by decide
  commands := walkBytes_commands

theorem accepting_silent : Accepting .silent := by
  constructor <;> (intro r member; cases member)

/-- Two requests, cut in the header of the first and in the REPLY of the second. -/
def twoRequests : Pieces :=
  [(.silent, (stream [walkRequest, walkRequest]).take 6),
    (.silent, ((stream [walkRequest, walkRequest]).drop 6).take 60),
    (.silent, (stream [walkRequest, walkRequest]).drop 66)]

theorem segmentation_independent_two :
    ∃ w w' effects,
      step (State.init 0 (fun _ => 0) (fun _ _ => 0) true) .silent (.accept [10, 0, 0, 9, 0, 9] .tcp) = .ok w ∧
      run w (events 0 twoRequests) = .ok w' ∧
      Served 0 w.lastReqs [walkRequest, walkRequest] effects w'.lastReqs ∧
      w'.effects = effects.reverse ++ w.effects ∧ (w'.conns 0).reqList = none ∧
      (w'.conns 0).currRecvSize = bufSize := by
  obtain ⟨w, accepted, holds, free⟩ : ∃ w,
      step (State.init 0 (fun _ => 0) (fun _ _ => 0) true) .silent (.accept [10, 0, 0, 9, 0, 9] .tcp) = .ok w ∧
      Holds (w.conns 0) [] 0 none ∧ ∀ s, (w.reqs s).reqId = noReq := by
    refine ⟨_, rfl, ?_, fun _ => rfl⟩
    exact ⟨by decide, rfl, rfl, rfl, ⟨rfl, rfl⟩, rfl, rfl, rfl, rfl, rfl⟩
  have spare : Spare w [walkRequest, walkRequest].length := fun i _ => free _
  have cut : arrived twoRequests ++ [] = stream [walkRequest, walkRequest] := by decide
  have given : Deliverable 0 w twoRequests := by
    refine deliverable_of_short holds spare ?_ cut (by decide)
    have answered : ∀ piece ∈ twoRequests, piece.1 = .silent ∧ piece.2 ≠ [] := by
      simp only [twoRequests, List.forall_mem_cons]
      exact ⟨⟨trivial, by decide⟩, ⟨trivial, by decide⟩, ⟨trivial, by decide⟩, by simp⟩
    intro piece member
    obtain ⟨silent, some_⟩ := answered piece member
    exact ⟨silent ▸ accepting_silent, some_⟩
  obtain ⟨w', done, later, part, effects, ran, -, -, -, served, emitted, -, -, finished⟩ :=
    segmentation_independent holds spare given cut
  obtain ⟨rfl, empty, -, -, space⟩ := finished rfl
  exact ⟨w, w', effects, accepted, ran, served, emitted, empty, space⟩

end Segmentation
