import DistWalk.MessageSkip
import DistWalk.ForwardContext
import DistWalk.ConnectionSlots

/-!
# What is forwarded

`single_start_forward` composes the message for one branch in the send buffer of
the connection it goes out on: the commands of the branch are copied behind a
header whose id and size it sets. The copy is bounded by the space that is left,
the size comes from the options, and the status is whatever the buffer held.
-/

namespace ForwardedMessage

open ByteMemory Message Connection PriorityQueue Worker Timeout Node Transitions Requests Walkers
  Decoding ContextGrammar Template MessageSkip Wire ForwardContext ConnectionSlots

/-- The connection as `conn_start_send` gets it; `none` if nothing is sent. -/
def handed (w : State) (slot m cmd c : Nat) (fwd : FwdOpts) : Option ConnInfo :=
  let p := connPrepareSendMessage (w.conns c)
  if (w.conns c).sock = none ∨ reqSizeOf p.1.sendBuf p.2 < fwd.pktSize then none
  else
    let f := fillForward p.1 (reqMem w slot) m cmd (w.reqs slot).reqId p.2 fwd
    if f.2 then some f.1 else none

/-- `single_start_forward` from `conn_start_send` on. -/
def transmit (w : State) (slot cmd c : Nat) (fwd : FwdOpts) : Except Abort (State × Option Nat) :=
  let req := w.reqs slot
  let s := startSendOn w c fwd.fwdAddr
  let w := s.1.emit (.forwarded req.reqId fwd.fwdAddr req.ctx)
  if s.2 < 0 then .ok (w, none)
  else if req.fwdTimeout ≠ 0 then
    (insertTimeout w req.reqId req.fwdTimeout).map (·, some cmd)
  else .ok (w, some cmd)

theorem sendForward_handed {w : State} {slot m cmd c : Nat} {fwd : FwdOpts} {conn : ConnInfo}
    (h : handed w slot m cmd c fwd = some conn) :
    sendForward w slot m cmd c fwd = transmit (w.setConn c conn) slot cmd c fwd := by
  simp only [handed] at h
  split at h
  · cases h
  · rename_i room
    obtain ⟨opened, space⟩ := not_or.mp room
    split at h
    · rename_i filled
      cases h
      simp only [sendForward, if_neg opened, if_neg space, filled]
      rfl
    · cases h

/-- The bytes where their receiver has them. -/
def receive (bytes : List UInt8) : Mem := store (fun _ => 0) 0 bytes

/-- The receiver of the bytes reads a whole message of status SUCCESS, and its
commands, walked up to EOM, are those at `branch` in `mem`. -/
structure Faithful (mem : Mem) (branch : List Nat) (bytes : List UInt8) : Prop where
  size : reqSizeOf (receive bytes) 0 = bytes.length
  status : statusOf (receive bytes) 0 = statusSuccess
  commands : ∃ cmds, decode (receive bytes) 0 = some cmds ∧
    cmds.map (cmdBytes (receive bytes)) = branch.map (cmdBytes mem)

/-- A message that is sent says what the branch says; otherwise the function
returns NULL and nothing is sent. -/
def SentAsRead (w : State) (slot m cmd c : Nat) (branch : List Nat) : Prop :=
  match handed w slot m cmd c (fwdOpts (reqMem w slot) cmd) with
  | some conn => Faithful (reqMem w slot) branch
      (slice conn.sendBuf (w.conns c).currSendSize (fwdOpts (reqMem w slot) cmd).pktSize)
  | none => ∃ w', sendForward w slot m cmd c (fwdOpts (reqMem w slot) cmd) = .ok (w', none) ∧
      w'.effects = w.effects ∧ (w'.conns c).currSendSize = (w.conns c).currSendSize

/-- A well-formed request message with a FORWARD at `cmd`: the commands before
it, the heads that follow it, the body of its branch and the REPLY of that. -/
structure InMessage (mem : Mem) (m cmd : Nat) (heads body : List Nat) (r : Nat) : Prop where
  forward : (cmdAt mem cmd).isForward = true
  message : ∃ before after rest, decode mem m = some (before ++ cmd :: after) ∧
    Chain (cmdKind mem) (before ++ cmd :: after) ∧ Branch (cmdKind mem) after heads body r rest

/-! ## Copying the branch -/

theorem skipContinues_heads {mem : Mem} {msgEnd e fuel : Nat} {heads l : List Nat}
    (h : Layout mem msgEnd e (heads ++ l)) (continued : ∀ c ∈ heads, cmdKind mem c = .continues)
    (onward : Onward (cmdKind mem) l) (enough : heads.length < fuel) :
    skipContinues mem msgEnd fuel (some ((heads ++ l).headD e)) = some (l.headD e) := by
  induction heads generalizing fuel with
  | nil =>
    obtain ⟨fuel, rfl⟩ : ∃ n, fuel = n + 1 := ⟨fuel - 1, by omega⟩
    obtain ⟨x, l, rfl⟩ := List.exists_cons_of_ne_nil onward.nonempty
    have fresh : cmdAt mem x ≠ .forwardContinue := fun cont =>
      onward.fresh x rfl (cmdKind_continues.mpr cont)
    simp [skipContinues, fresh]
  | cons x heads ih =>
    simp only [List.length_cons] at enough
    obtain ⟨fuel, rfl⟩ : ∃ n, fuel = n + 1 := ⟨fuel - 1, by omega⟩
    have here := cmdKind_continues.mp (continued x (by simp))
    rw [List.cons_append] at h ⊢
    rw [List.headD_cons, skipContinues, if_pos here, h.next]
    exact ih h.rest (fun c hc => continued c (by simp [hc])) (by omega)

/-- The branch of the FORWARD at `cmd` lies from `start` to the end of its REPLY at `r`, and
the code finds both. -/
structure Located (mem : Mem) (m cmd : Nat) (body : List Nat) (r start : Nat) : Prop where
  found : skipContinues mem (messageEnd mem m) (messageEnd mem m + 1)
    (cmdBoundedNext mem cmd (messageEnd mem m)) = some start
  sought : seekReply mem (messageEnd mem m) (messageEnd mem m + 1) (some start) = some r
  reply : cmdAt mem r = .reply
  inside : cmdInBounds mem r (messageEnd mem m) = true
  laid : Laid mem (r + cmdTypeSize .reply) (body ++ [r])
  head : (body ++ [r]).headD (r + cmdTypeSize .reply) = start
  length : start + (bytesOf mem (body ++ [r])).length = r + cmdTypeSize .reply

theorem branch_located {mem : Mem} {m cmd r : Nat} {before after heads body rest : List Nat}
    (decoded : decode mem m = some (before ++ cmd :: after))
    (branch : Branch (cmdKind mem) after heads body r rest) :
    ∃ start, Located mem m cmd body r start := by
  obtain ⟨e, layout, -⟩ := walk_layout decoded
  have reply := cmdKind_closes.mp branch.closing
  -- the message from the FORWARD on, from the branch on, and from its REPLY on
  have fromCmd : Layout mem (messageEnd mem m) e (cmd :: (heads ++ (body ++ r :: rest))) := by
    have tail := layout.tail
    rw [branch.split, List.append_assoc] at tail
    exact tail
  have fromHeads := fromCmd.rest
  have fromBody := fromHeads.tail
  have fromReply := fromBody.tail
  have onward := onward_contexts branch.inside (onward_close branch.closing rest)
  have few : (heads ++ (body ++ r :: rest)).length ≤ messageEnd mem m := by
    have bytes := fromHeads.laid.bytes.1
    have count := length_le_bytesOf mem (heads ++ (body ++ r :: rest))
    have inside := fromHeads.inside
    omega
  simp only [List.length_append, List.length_cons] at few
  have place : r + cmdTypeSize .reply = rest.headD e := by
    rw [← reply]
    exact fromReply.laid.1
  have laid : Laid mem (r + cmdTypeSize .reply) (body ++ [r]) := by
    have front := fromBody.laid
    rw [show body ++ r :: rest = (body ++ [r]) ++ rest by simp] at front
    rw [place]
    exact front.append.1
  have head : (body ++ [r]).headD (r + cmdTypeSize .reply) = (body ++ r :: rest).headD e := by
    cases body <;> rfl
  refine ⟨(body ++ r :: rest).headD e, ?_, ?_, reply, fromReply.inBounds, laid, head, ?_⟩
  · rw [fromCmd.next]
    exact skipContinues_heads fromHeads branch.continued onward (by omega)
  · exact seekReply_branch branch.inside branch.closing fromBody (by omega)
  · rw [← head]
    exact laid.bytes.1

theorem InMessage.located {mem : Mem} {m cmd r : Nat} {heads body : List Nat}
    (h : InMessage mem m cmd heads body r) :
    ∃ start, Located mem m cmd body r start := by
  obtain ⟨before, after, rest, decoded, -, branch⟩ := h.message
  exact branch_located decoded branch

/-- What `fillForward` leaves at `p` in the send buffer, which held `old`. -/
structure Filled (mem : Mem) (start len pktSize p : Nat) (old buf : Mem) : Prop where
  size : reqSizeOf buf p = pktSize
  status : statusOf buf p = statusOf old p
  copied : ∀ i, i < len → buf (p + 12 + i) = mem (start + i)
  eom : cmdAt buf (p + 12 + len) = .eom

theorem advertised_lt (conn : ConnInfo) : advertised conn < 2 ^ 32 := Nat.mod_lt _ (by decide)

theorem reqSizeOf_prepared (conn : ConnInfo) :
    reqSizeOf (connPrepareSendMessage conn).1.sendBuf conn.currSendSize = advertised conn :=
  u32_storeU32 _ _ (advertised_lt conn)

/-- The header of the copy, behind which the commands and EOM are written. -/
theorem filled_of_copy {mem old : Mem} {m start len pktSize p reqId : Nat} (size : pktSize < 2 ^ 32)
    (advert copySize : Nat) :
    let dst := setReqId (setReqSize old p advert) p (reqIdOf mem m)
    let dst := storeU32 (store dst (p + 12) (slice mem start len)) (p + 12 + len) 7
    Filled mem start len pktSize p old
      (setReqSize (setReqId (setReqSize dst p copySize) p reqId) p pktSize) := by
  intro dst dst'
  have header {i : Nat} (far : p + 8 ≤ i) :
      setReqSize (setReqId (setReqSize dst' p copySize) p reqId) p pktSize i = dst' i := by
    simp only [setReqSize, setReqId, storeU32]
    rw [store_outside _ _ _ (by simp only [length_u32Bytes]; omega),
      store_outside _ _ _ (by simp only [length_u32Bytes]; omega),
      store_outside _ _ _ (by simp only [length_u32Bytes]; omega)]
  refine ⟨u32_storeU32 _ _ size, ?_, fun i hi => ?_, ?_⟩
  · have kept : ∀ i, i < 4 → setReqSize (setReqId (setReqSize dst' p copySize) p reqId) p pktSize
        (p + 8 + i) = old (p + 8 + i) := by
      intro i hi
      rw [header (by omega)]
      simp only [dst', dst, setReqSize, setReqId, storeU32]
      rw [store_outside _ _ _ (by omega), store_outside _ _ _ (by omega),
        store_outside _ _ _ (by simp only [length_u32Bytes]; omega),
        store_outside _ _ _ (by simp only [length_u32Bytes]; omega)]
    exact u32_congr kept
  · rw [header (by omega)]
    simp only [dst', storeU32]
    rw [store_outside _ _ _ (by omega), store_inside _ _ _ (by rw [length_slice]; exact hi)]
    rw [List.getD_eq_getElem _ _ (by rw [length_slice]; exact hi), getElem_slice]
  · have word : u32 (setReqSize (setReqId (setReqSize dst' p copySize) p reqId) p pktSize)
        (p + 12 + len) = u32 dst' (p + 12 + len) := u32_congr fun i hi => header (by omega)
    rw [cmdAt, word, u32_storeU32 _ _ (by decide)]
    rfl

/-- The message is composed if the branch and EOM fit into the advertised space. -/
theorem InMessage.filled {mem : Mem} {m cmd r : Nat} {heads body : List Nat}
    (h : InMessage mem m cmd heads body r) (conn : ConnInfo) (reqId : Nat) :
    ∃ start, Laid mem (r + cmdTypeSize .reply) (body ++ [r]) ∧
      (body ++ [r]).headD (r + cmdTypeSize .reply) = start ∧
      let f := fillForward (connPrepareSendMessage conn).1 mem m cmd reqId conn.currSendSize
        (fwdOpts mem cmd)
      f.1.currSendSize = conn.currSendSize ∧ f.1.status = conn.status ∧
      (f.2 = true ↔ (bytesOf mem (body ++ [r])).length + 4 ≤ advertised conn) ∧
      (f.2 = true → Filled mem start (bytesOf mem (body ++ [r])).length (fwdOpts mem cmd).pktSize
        conn.currSendSize conn.sendBuf f.1.sendBuf) := by
  obtain ⟨start, found, sought, reply, inside, laid, head, length⟩ := h.located
  refine ⟨start, laid, head, ?_⟩
  have total : r + cmdTypeSize (cmdAt mem r) - start = (bytesOf mem (body ++ [r])).length := by
    rw [reply]
    omega
  have space : reqSizeOf (setReqId (connPrepareSendMessage conn).1.sendBuf conn.currSendSize
      (reqIdOf mem m)) conn.currSendSize = advertised conn := by
    refine Eq.trans ?_ (reqSizeOf_prepared conn)
    exact u32_store_disjoint _ _ _ _ (Or.inr (by simp only [length_u32Bytes]; omega))
  intro f
  by_cases fits : (bytesOf mem (body ++ [r])).length + 4 ≤ advertised conn
  · have room : ¬ advertised conn < (bytesOf mem (body ++ [r])).length + cmdTypeSize .eom :=
      not_lt.mpr fits
    have value : f = ({ (connPrepareSendMessage conn).1 with sendBuf := f.1.sendBuf }, true) := by
      simp only [f, fillForward, found, messageCopyTail, sought, inside, total, space, if_neg room]
      rfl
    refine ⟨by rw [value]; rfl, by rw [value]; rfl, by rw [value]; simp [fits], fun _ => ?_⟩
    simp only [f, fillForward, found, messageCopyTail, sought, inside, total, space, if_neg room]
    exact filled_of_copy (u32_lt _ _) _ _
  · have full : advertised conn < (bytesOf mem (body ++ [r])).length + cmdTypeSize .eom :=
      not_le.mp fits
    have value : f = ({ (connPrepareSendMessage conn).1 with sendBuf := f.1.sendBuf }, false) := by
      simp only [f, fillForward, found, messageCopyTail, sought, inside, total, space, if_pos full]
      rfl
    refine ⟨by rw [value]; rfl, by rw [value]; rfl, by rw [value]; simp [fits], fun done => ?_⟩
    rw [value] at done
    cases done

/-! ## What the receiver reads -/

theorem receive_at {buf : Mem} {p n i : Nat} (hi : i < n) :
    receive (slice buf p n) i = buf (p + i) := by
  have inside := store_inside (fun _ => 0) 0 (slice buf p n) (by rw [length_slice]; exact hi)
  rw [Nat.zero_add] at inside
  rw [receive, inside, List.getD_eq_getElem _ _ (by rw [length_slice]; exact hi), getElem_slice]

/-- Commands copied behind a header, with an EOM behind them, are the message there. -/
theorem decode_copied {mem buf : Mem} {p e : Nat} {branch : List Nat} (laid : Laid mem e branch)
    (commands : ∀ x ∈ branch, cmdAt mem x ≠ .eom)
    (copied : ∀ i, i < (bytesOf mem branch).length → buf (p + 12 + i) = mem (branch.headD e + i))
    (eom : cmdAt buf (p + 12 + (bytesOf mem branch).length) = .eom)
    (room : p + 16 + (bytesOf mem branch).length ≤ messageEnd buf p) :
    ∃ cmds, decode buf p = some cmds ∧
      cmds.map (cmdBytes buf) = branch.map (cmdBytes mem) := by
  obtain ⟨cmds, there, first, types, copies⟩ := laid.copied copied
  have layout : Layout buf (messageEnd buf p) (p + 12 + (bytesOf mem branch).length) cmds := by
    refine ⟨there, fun x hx => ?_, eom, by omega⟩
    have image : cmdAt buf x ∈ branch.map (cmdAt mem) := by
      rw [← types]
      exact List.mem_map_of_mem hx
    obtain ⟨y, hy, same⟩ := List.mem_map.mp image
    rw [← same]
    exact commands y hy
  refine ⟨cmds, ?_, copies⟩
  have bytes := there.bytes.1
  have count := length_le_bytesOf buf cmds
  rw [decode, show messageFirstCmd p = p + 12 from rfl, ← first]
  exact layout.walked (by omega)

/-- The receiver reads the branch exactly when the message has room for it and the
status in the buffer was SUCCESS. -/
theorem Filled.faithful_iff {mem old buf : Mem} {start pktSize p e : Nat} {branch : List Nat}
    (laid : Laid mem e branch) (head : branch.headD e = start)
    (commands : ∀ x ∈ branch, cmdAt mem x ≠ .eom)
    (h : Filled mem start (bytesOf mem branch).length pktSize p old buf) :
    Faithful mem branch (slice buf p pktSize) ↔
      statusOf old p = statusSuccess ∧ 16 + (bytesOf mem branch).length ≤ pktSize := by
  have size (long : 8 ≤ pktSize) :
      reqSizeOf (receive (slice buf p pktSize)) 0 = pktSize := by
    rw [← h.size]
    refine u32_congr fun i hi => ?_
    rw [receive_at (by rw [h.size]; omega)]
    congr 1
    omega
  have status (long : 12 ≤ pktSize) :
      statusOf (receive (slice buf p pktSize)) 0 = statusOf old p := by
    rw [← h.status]
    refine u32_congr fun i hi => ?_
    rw [receive_at (by omega)]
    congr 1
    omega
  constructor
  · intro faithful
    obtain ⟨cmds, decoded, copies⟩ := faithful.commands
    obtain ⟨e', layout, first⟩ := walk_layout decoded
    have total : (bytesOf (receive (slice buf p pktSize)) cmds).length =
        (bytesOf mem branch).length := by rw [bytesOf, copies, bytesOf]
    have place := layout.laid.bytes.1
    have inside := layout.inside
    have whole := faithful.size
    rw [length_slice] at whole
    rw [first, total] at place
    rw [messageEnd, whole] at inside
    simp only [messageFirstCmd, messageHeader] at place
    have room : 16 + (bytesOf mem branch).length ≤ pktSize := by omega
    refine ⟨?_, room⟩
    rw [← status (by omega)]
    exact faithful.status
  · rintro ⟨success, room⟩
    refine ⟨by rw [length_slice]; exact size (by omega), by rw [status (by omega)]; exact success, ?_⟩
    have copied : ∀ i, i < (bytesOf mem branch).length →
        receive (slice buf p pktSize) (12 + i) = mem (branch.headD e + i) := by
      intro i hi
      rw [receive_at (by omega), ← Nat.add_assoc, h.copied i hi, head]
    have eom : cmdAt (receive (slice buf p pktSize)) (0 + 12 + (bytesOf mem branch).length) =
        .eom := by
      rw [← h.eom]
      refine congrArg CommandType.ofCode (u32_congr fun i hi => ?_)
      rw [receive_at (by omega)]
      congr 1
      omega
    refine decode_copied laid commands (fun i hi => copied i hi) eom ?_
    rw [messageEnd, size (by omega)]
    omega

/-! ## The connection of a FORWARD -/

/-- The socket path sends on an open connection. -/
theorem forwardConn_open {w w' : State} {fwd : FwdOpts} {c : Nat} (socket : fwd.proto ≠ .dpdk)
    (h : forwardConn w fwd = (w', some c)) : (w'.conns c).sock ≠ none := by
  unfold forwardConn at h
  cases existing : connFindExisting w fwd.fwdAddr fwd.proto with
  | some i =>
    simp only [existing] at h
    cases h
    have reused := findIndex_holds existing
    intro closed
    simp [reusable, socket, closed] at reused
  | none =>
    simp only [existing] at h
    cases e : connAlloc { w with nextFd := w.nextFd + 1 } w.nextFd fwd.fwdAddr fwd.proto with
    | mk w₁ found =>
      cases found with
      | none =>
        simp only [allocForward, e] at h
        cases h
      | some i =>
        have claimed : Claimed i w
            (w₁.setConn i { w₁.conns i with enableDefrag := w₁.enableDefrag }) :=
          (connAlloc_claimed e).then (fun j => housing_setConn_same w₁ i j (by rfl)) rfl
        have opened {v : State} (here : Claimed i w v) : (v.conns i).sock ≠ none := by
          have slot := congrArg Prod.snd (here.slots i)
          rw [if_pos rfl] at slot
          exact fun closed => by cases slot.symm.trans closed
        simp only [allocForward, e] at h
        split at h
        · rcases connectForward_slots claimed w.nextFd fwd.proto with ⟨-, refused⟩ | ⟨taken, same⟩
          · rw [h] at refused
            cases refused
          · rw [h] at taken same
            cases same c rfl
            exact opened taken
        · cases h
          exact opened claimed

/-! ## What is sent -/

theorem InMessage.commands {mem : Mem} {m cmd r : Nat} {heads body : List Nat}
    (h : InMessage mem m cmd heads body r) : ∀ x ∈ body ++ [r], cmdAt mem x ≠ .eom := by
  obtain ⟨before, after, rest, decoded, -, branch⟩ := h.message
  obtain ⟨e, layout, -⟩ := walk_layout decoded
  intro x hx
  refine layout.commands x ?_
  simp only [branch.split, List.mem_append, List.mem_cons] at hx ⊢
  tauto

theorem InMessage.sent_iff {w : State} {slot m cmd c r : Nat} {heads body : List Nat}
    (h : InMessage (reqMem w slot) m cmd heads body r) (opened : (w.conns c).sock ≠ none) :
    SentAsRead w slot m cmd c (body ++ [r]) ↔
      (fwdOpts (reqMem w slot) cmd).pktSize ≤ advertised (w.conns c) ∧
      (advertised (w.conns c) < (bytesOf (reqMem w slot) (body ++ [r])).length + 4 ∨
        statusOf (w.conns c).sendBuf (w.conns c).currSendSize = statusSuccess ∧
          16 + (bytesOf (reqMem w slot) (body ++ [r])).length ≤
            (fwdOpts (reqMem w slot) cmd).pktSize) := by
  obtain ⟨start, laid, head, unsent, -, done, filled⟩ := h.filled (w.conns c) (w.reqs slot).reqId
  have advert := reqSizeOf_prepared (w.conns c)
  by_cases short : advertised (w.conns c) < (fwdOpts (reqMem w slot) cmd).pktSize
  · -- the assertion on the space fails
    have refused : handed w slot m cmd c (fwdOpts (reqMem w slot) cmd) = none := by
      simp only [handed]
      exact if_pos (Or.inr (by rw [← advert] at short; exact short))
    have aborts : sendForward w slot m cmd c (fwdOpts (reqMem w slot) cmd) = .error .assertion := by
      simp only [sendForward, if_neg opened]
      exact if_pos (by rw [← advert] at short; exact short)
    simp only [SentAsRead, refused, aborts]
    constructor
    · rintro ⟨w', returned, -⟩
      cases returned
    · rintro ⟨le, -⟩
      omega
  · have room : ¬ reqSizeOf (connPrepareSendMessage (w.conns c)).1.sendBuf
        (connPrepareSendMessage (w.conns c)).2 < (fwdOpts (reqMem w slot) cmd).pktSize := by
      rw [← advert] at short
      exact short
    by_cases fits : (bytesOf (reqMem w slot) (body ++ [r])).length + 4 ≤ advertised (w.conns c)
    · have copied := done.mpr fits
      have given : handed w slot m cmd c (fwdOpts (reqMem w slot) cmd) = some _ :=
        (if_neg (not_or.mpr ⟨opened, room⟩)).trans (if_pos copied)
      simp only [SentAsRead, given]
      refine Iff.trans ((filled copied).faithful_iff laid head h.commands) ?_
      constructor
      · exact fun both => ⟨not_lt.mp short, Or.inr both⟩
      · rintro ⟨-, full | both⟩
        · omega
        · exact both
    · have uncopied := mt done.mp fits
      have refused : handed w slot m cmd c (fwdOpts (reqMem w slot) cmd) = none :=
        (if_neg (not_or.mpr ⟨opened, room⟩)).trans (if_neg uncopied)
      have returned : ∃ w', sendForward w slot m cmd c (fwdOpts (reqMem w slot) cmd) = .ok (w', none) ∧
          w'.effects = w.effects ∧ (w'.conns c).currSendSize = (w.conns c).currSendSize := by
        refine ⟨_, (if_neg opened).trans ((if_neg room).trans
          (if_pos (Bool.eq_false_iff.mpr uncopied))), rfl, ?_⟩
        simp only [State.setConn, Function.update_self]
        exact unsent
      simp only [SentAsRead, refused]
      exact iff_of_true returned ⟨not_lt.mp short, Or.inl (not_le.mp fits)⟩

/-- A message that is taken whole goes out as it stands at the start of the buffer. -/
theorem connStartSend_whole {conn : ConnInfo} {target : Addr} {n : Nat} (idle : conn.currSendSize = 0)
    (ready : conn.status.deferred = false) (takes : reqSizeOf conn.sendBuf 0 ≤ n) :
    (connStartSend conn target (.done n)).out = slice conn.sendBuf 0 (reqSizeOf conn.sendBuf 0) := by
  have whole : min n (reqSizeOf conn.sendBuf 0) = reqSizeOf conn.sendBuf 0 := Nat.min_eq_right takes
  simp only [connStartSend, idle, if_true, Nat.zero_add, ready, Bool.false_eq_true, if_false, connSend,
    connSslSend, whole]
  split
  · split
    · rename_i empty
      rw [empty]
      rfl
    · rfl
  · split
    · rename_i empty
      rw [empty]
      rfl
    · rfl

/-- What the connection that is handed over holds. -/
theorem InMessage.handed_filled {w : State} {slot m cmd c r : Nat} {heads body : List Nat}
    {conn : ConnInfo} (h : InMessage (reqMem w slot) m cmd heads body r)
    (given : handed w slot m cmd c (fwdOpts (reqMem w slot) cmd) = some conn) :
    conn.currSendSize = (w.conns c).currSendSize ∧ conn.status = (w.conns c).status ∧
      reqSizeOf conn.sendBuf (w.conns c).currSendSize = (fwdOpts (reqMem w slot) cmd).pktSize := by
  obtain ⟨start, -, -, unsent, status, -, filled⟩ := h.filled (w.conns c) (w.reqs slot).reqId
  simp only [handed] at given
  split at given
  · cases given
  · split at given
    · rename_i copied
      cases given
      exact ⟨unsent, status, (filled copied).size⟩
    · cases given

/-- On an idle connection whose kernel takes all of it, the message is what goes
over the wire. -/
theorem InMessage.wire {w : State} {slot m cmd c r : Nat} {heads body : List Nat} {conn : ConnInfo}
    (h : InMessage (reqMem w slot) m cmd heads body r)
    (given : handed w slot m cmd c (fwdOpts (reqMem w slot) cmd) = some conn)
    (idle : (w.conns c).currSendSize = 0) (ready : (w.conns c).status.deferred = false) {n : Nat}
    (takes : (fwdOpts (reqMem w slot) cmd).pktSize ≤ n) (target : Addr) :
    (connStartSend conn target (.done n)).out =
      slice conn.sendBuf (w.conns c).currSendSize (fwdOpts (reqMem w slot) cmd).pktSize := by
  obtain ⟨unsent, status, size⟩ := h.handed_filled given
  rw [idle] at unsent size ⊢
  rw [← size] at takes ⊢
  exact connStartSend_whole unsent (by rw [status]; exact ready) takes

/-- For every FORWARD of a well-formed request, and whatever the send buffer of the
connection held: the message that goes out is the branch exactly when there is room
for `pkt_size` bytes, and either the branch does not fit into the space that is
left or it fits into `pkt_size` and the status left in the buffer is SUCCESS. -/
theorem forwarded_as_read_iff {w₀ w : State} {slot m cmd c : Nat} {before after : List Nat}
    (socket : (fwdOpts (reqMem w slot) cmd).proto ≠ .dpdk)
    (connected : forwardConn w₀ (fwdOpts (reqMem w slot) cmd) = (w, some c))
    (forward : (cmdAt (reqMem w slot) cmd).isForward = true)
    (decoded : decode (reqMem w slot) m = some (before ++ cmd :: after))
    (chain : Chain (cmdKind (reqMem w slot)) (before ++ cmd :: after)) :
    (∃ heads body r rest, Branch (cmdKind (reqMem w slot)) after heads body r rest) ∧
    (∀ heads body r rest, Branch (cmdKind (reqMem w slot)) after heads body r rest →
      (SentAsRead w slot m cmd c (body ++ [r]) ↔
        (fwdOpts (reqMem w slot) cmd).pktSize ≤ advertised (w.conns c) ∧
        (advertised (w.conns c) < (bytesOf (reqMem w slot) (body ++ [r])).length + 4 ∨
          statusOf (w.conns c).sendBuf (w.conns c).currSendSize = statusSuccess ∧
            16 + (bytesOf (reqMem w slot) (body ++ [r])).length ≤
              (fwdOpts (reqMem w slot) cmd).pktSize))) ∧
    ∀ conn, handed w slot m cmd c (fwdOpts (reqMem w slot) cmd) = some conn →
      sendForward w slot m cmd c (fwdOpts (reqMem w slot) cmd) =
        transmit (w.setConn c conn) slot cmd c (fwdOpts (reqMem w slot) cmd) ∧
      ((w.conns c).currSendSize = 0 → (w.conns c).status.deferred = false →
        ∀ n target, (fwdOpts (reqMem w slot) cmd).pktSize ≤ n →
          (connStartSend conn target (.done n)).out =
            slice conn.sendBuf (w.conns c).currSendSize (fwdOpts (reqMem w slot) cmd).pktSize) := by
  have head : cmdKind (reqMem w slot) cmd = .opens ∨ cmdKind (reqMem w slot) cmd = .continues := by
    rw [cmdKind]
    cases type : cmdAt (reqMem w slot) cmd <;> simp_all [CommandType.isForward, typeKind]
  have inMessage {heads body rest : List Nat} {r : Nat}
      (branch : Branch (cmdKind (reqMem w slot)) after heads body r rest) :
      InMessage (reqMem w slot) m cmd heads body r :=
    ⟨forward, before, after, rest, decoded, chain, branch⟩
  refine ⟨exists_branch chain head, fun heads body r rest branch => ?_, fun conn given => ?_⟩
  · exact (inMessage branch).sent_iff (forwardConn_open socket connected)
  · obtain ⟨heads, body, r, rest, branch⟩ := exists_branch chain head
    exact ⟨sendForward_handed given, fun idle ready n target takes =>
      (inMessage branch).wire given idle ready takes target⟩

def requestArrived : State :=
  ((State.init 0 (fun _ => 0) (fun _ _ => 0) true).setConn 0 requesting).setConn 1 peer

/-- The request forwarded to the peer, on a connection that has not been used. -/
theorem forwarded_as_read_first :
    SentAsRead (enterRequest requestArrived 0 0).1 0 0 12 1 [40] := by
  have existing : connFindExisting (enterRequest requestArrived 0 0).1
      (fwdOpts (reqMem (enterRequest requestArrived 0 0).1 0) 12).fwdAddr
      (fwdOpts (reqMem (enterRequest requestArrived 0 0).1 0) 12).proto = some 1 := by decide +kernel
  have connected : forwardConn (enterRequest requestArrived 0 0).1
      (fwdOpts (reqMem (enterRequest requestArrived 0 0).1 0) 12) =
        ((enterRequest requestArrived 0 0).1, some 1) := by
    simp only [forwardConn, existing]
  have branch : Branch (cmdKind (reqMem (enterRequest requestArrived 0 0).1 0)) [40, 56] [] [] 40 [56] :=
    ⟨rfl, by simp, .nil, by decide +kernel⟩
  refine ((@forwarded_as_read_iff _ _ 0 0 12 1 [] [40, 56] ?_ connected ?_ ?_ ?_).2.1
    [] [] 40 [56] branch).mpr ?_
  · decide +kernel
  · decide +kernel
  · decide +kernel
  · decide +kernel
  · decide +kernel

/-- The peer's connection after a response of status TIMEOUT has gone out on it. -/
def usedPeer : ConnInfo := { peer with sendBuf := setStatus peer.sendBuf 0 statusTimeout }

def requestForUsedPeer : State := (enterRequest (requestArrived.setConn 1 usedPeer) 0 0).1

/-- The forwarded message says TIMEOUT. -/
theorem stale_status_forwarded : ∃ conn,
    forwardConn requestForUsedPeer (fwdOpts (reqMem requestForUsedPeer 0) 12) =
      (requestForUsedPeer, some 1) ∧
    decode (reqMem requestForUsedPeer 0) 0 = some [12, 40, 56] ∧
    Chain (cmdKind (reqMem requestForUsedPeer 0)) [12, 40, 56] ∧
    handed requestForUsedPeer 0 0 12 1 (fwdOpts (reqMem requestForUsedPeer 0) 12) = some conn ∧
    statusOf (receive (slice conn.sendBuf 0 64)) 0 = statusTimeout ∧
    ¬ SentAsRead requestForUsedPeer 0 0 12 1 [40] := by
  have evaluated : ∃ conn, handed requestForUsedPeer 0 0 12 1
      (fwdOpts (reqMem requestForUsedPeer 0) 12) = some conn := Option.isSome_iff_exists.mp (by decide +kernel)
  obtain ⟨conn, given⟩ := evaluated
  have existing : connFindExisting requestForUsedPeer (fwdOpts (reqMem requestForUsedPeer 0) 12).fwdAddr
      (fwdOpts (reqMem requestForUsedPeer 0) 12).proto = some 1 := by decide +kernel
  have size : (fwdOpts (reqMem requestForUsedPeer 0) 12).pktSize = 64 := by decide +kernel
  have stale : statusOf (receive (slice conn.sendBuf 0 64)) 0 = statusTimeout := by
    have at_ : ((handed requestForUsedPeer 0 0 12 1 (fwdOpts (reqMem requestForUsedPeer 0) 12)).all
        fun conn => statusOf (receive (slice conn.sendBuf 0 64)) 0 = statusTimeout) = true := by
      decide +kernel
    rw [given] at at_
    exact of_decide_eq_true at_
  refine ⟨conn, by simp only [forwardConn, existing], by decide +kernel, by decide +kernel, given, stale, ?_⟩
  intro sent
  simp only [SentAsRead, given, size] at sent
  have success := sent.status
  rw [show (requestForUsedPeer.conns 1).currSendSize = 0 by decide +kernel, stale] at success
  cases success

end ForwardedMessage
