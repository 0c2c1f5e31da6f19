import DistWalk.Connection

/-!
# The byte stream of one connection

Messages are enqueued behind the pending bytes and leave in any number of
pieces. The stream records what the socket accepted and what was enqueued; it
is intact when the accepted bytes, followed by the pending ones, spell exactly
the enqueued messages. A new message is placed at `send_buf + curr_send_size`,
which is the end of the pending bytes only while the cursor stands at the start
of the buffer, so an enqueue behind a partial send overwrites what is pending.
-/

namespace SendStream

open ByteMemory Message Connection

/-- Buffered bytes first, then the rest of the file of a SENDFILE reply. -/
def pending (files : Nat → Mem) (c : ConnInfo) : List UInt8 :=
  slice c.sendBuf c.currSendBuf c.currSendSize ++
    slice (fileOf files c.fileFd) c.fileOffset c.fileRemaining

structure Stream where
  conn : ConnInfo
  wire : List UInt8
  queued : List UInt8

/-- A step on the send side: an enqueue (prepare, fill, start), a transmit
attempt, or a change of the fields that other parts of the node set. -/
inductive SendOp
  | enqueue (msg : List UInt8) (target : Addr) (r : IoResult)
  | enqueueFile (header : List UInt8) (target : Addr) (fd offset size : Nat)
      (sends : List IoResult) (file : IoResult)
  | send (r : IoResult)
  | sendV2 (sends : List IoResult) (file : IoResult)
  | flush (sends : List IoResult) (r : IoResult)
  | setStatus (status : Status)
  | setReplyMode (mode : ReplyMode)

/-- Prepare a message and fill it with the given bytes. -/
def fill (c : ConnInfo) (bytes : List UInt8) : ConnInfo :=
  let p := connPrepareSendMessage c
  { p.1 with sendBuf := store p.1.sendBuf p.2 bytes }

def step (files : Nat → Mem) (s : Stream) : SendOp → Stream
  | .enqueue msg target r =>
    let t := connStartSend (fill s.conn msg) target r
    ⟨t.conn, s.wire ++ t.out, s.queued ++ msg⟩
  | .enqueueFile header target fd offset size sends file =>
    let t := connStartSendfile files (fill s.conn header) target fd offset size sends file
    ⟨t.2.1, s.wire ++ t.2.2,
      s.queued ++ (header.take messageHeader ++ slice (files fd) offset (size - messageHeader))⟩
  | .send r => let t := connSend s.conn r; ⟨t.conn, s.wire ++ t.out, s.queued⟩
  | .sendV2 sends file =>
    let t := connSendV2 files s.conn sends file
    ⟨t.2.1, s.wire ++ t.2.2, s.queued⟩
  | .flush sends r =>
    let t := connFlush files s.conn sends r
    ⟨t.2.1, s.wire ++ t.2.2, s.queued⟩
  | .setStatus status => { s with conn := { s.conn with status := status } }
  | .setReplyMode mode => { s with conn := { s.conn with replyMode := mode } }

def run (files : Nat → Mem) (s : Stream) (ops : List SendOp) : Stream :=
  ops.foldl (step files) s

/-- The kernel accepts some bytes or would block. -/
def Plain : IoResult → Bool
  | .done _ => true
  | .wouldBlock => true
  | _ => false

/-- The bytes of a list as memory. -/
def memOf (bytes : List UInt8) : Mem := fun i => bytes.getD i 0

/-- A filled message announces its own length and fits the advertised space. -/
def Admissible (s : Stream) : SendOp → Prop
  | .enqueue msg _ r =>
    messageHeader ≤ msg.length ∧ msg.length ≤ advertised s.conn ∧
      reqSizeOf (memOf msg) 0 = msg.length ∧ Plain r = true
  | .enqueueFile header _ _ _ size sends file =>
    messageHeader ≤ header.length ∧ header.length ≤ advertised s.conn ∧
      messageHeader ≤ size ∧ size ≤ advertised s.conn ∧
      reqSizeOf (memOf header) 0 = size ∧ (∀ r ∈ sends, Plain r = true) ∧ Plain file = true
  | .send r => Plain r = true
  | .sendV2 sends file => (∀ r ∈ sends, Plain r = true) ∧ Plain file = true
  | .flush sends r => (∀ r ∈ sends, Plain r = true) ∧ Plain r = true
  | .setStatus _ => True
  | .setReplyMode _ => True

instance (s : Stream) (op : SendOp) : Decidable (Admissible s op) := by
  cases op <;> unfold Admissible <;> infer_instance

/-- No message is enqueued behind a partly sent one: the cursor is at the start
of the buffer or the buffer is empty, and no file is still being sent. A
SENDFILE reply is enqueued only when nothing at all is pending. -/
def Behind (s : Stream) : SendOp → Prop
  | .enqueue _ _ _ =>
    (s.conn.currSendSize = 0 ∨ s.conn.currSendBuf = 0) ∧ s.conn.fileRemaining = 0
  | .enqueueFile .. => s.conn.currSendSize = 0 ∧ s.conn.fileRemaining = 0
  | _ => True

/-- A predicate on a state and the operation taken there, along a whole run. -/
def Along (files : Nat → Mem) (P : Stream → SendOp → Prop) : Stream → List SendOp → Prop
  | _, [] => True
  | s, op :: ops => P s op ∧ Along files P (step files s op) ops

def Intact (files : Nat → Mem) (s : Stream) : Prop :=
  s.wire <+: s.queued ∧ s.wire ++ pending files s.conn = s.queued

/-- A connection on which nothing has been enqueued yet. -/
def opened (c : ConnInfo) : Stream := ⟨c, [], []⟩

def Idle (c : ConnInfo) : Prop := c.currSendSize = 0 ∧ c.fileRemaining = 0

/-! ## What each operation does to the pending bytes -/

section Operations

variable (files : Nat → Mem) (c : ConnInfo)

theorem pending_advanceSend {sent : Nat} (hs : sent ≤ c.currSendSize) :
    slice c.sendBuf c.currSendBuf sent ++ pending files (advanceSend c sent) =
      pending files c := by
  by_cases drained : c.currSendSize - sent = 0
  · have all : sent = c.currSendSize := by omega
    simp [pending, advanceSend, all, slice]
  · simp only [pending, advanceSend, if_neg drained, ← List.append_assoc]
    rw [← slice_split _ _ hs]

theorem pending_connSslSend (r : IoResult) (hr : Plain r = true) :
    (connSslSend c r).out ++ pending files (connSslSend c r).conn = pending files c := by
  cases r with
  | done n =>
    simp only [connSslSend]
    split
    · rfl
    · exact pending_advanceSend files c (Nat.min_le_right _ _)
  | wouldBlock => rfl
  | peerClosed => simp [Plain] at hr
  | failed => simp [Plain] at hr

theorem pending_connSend (r : IoResult) (hr : Plain r = true) :
    (connSend c r).out ++ pending files (connSend c r).conn = pending files c := by
  by_cases ssl : c.useSsl = true
  · simpa only [connSend, if_pos ssl] using pending_connSslSend files c r hr
  · cases r with
    | done n =>
      simp only [connSend, if_neg ssl]
      split
      · rfl
      · -- the status update touches no cursor
        have moved := pending_advanceSend files c (Nat.min_le_right n c.currSendSize)
        split
        · exact moved
        · exact moved
    | wouldBlock => simp only [connSend, if_neg ssl]; rfl
    | peerClosed => simp [Plain] at hr
    | failed => simp [Plain] at hr

theorem pending_sendHeader (sends : List IoResult) (hs : ∀ r ∈ sends, Plain r = true) :
    (sendHeader sends c).2.1 ++ pending files (sendHeader sends c).1 = pending files c := by
  induction sends generalizing c with
  | nil =>
    unfold sendHeader
    split <;> rfl
  | cons r rest ih =>
    have hrest : ∀ r ∈ rest, Plain r = true := fun r hr => hs r (List.mem_cons_of_mem _ hr)
    have hr := hs r List.mem_cons_self
    unfold sendHeader
    split
    · rfl
    · cases r with
      | done n =>
        have tail := ih { c with
          currSendBuf := c.currSendBuf + min n c.currSendSize
          currSendSize := c.currSendSize - min n c.currSendSize } hrest
        simp only [List.append_assoc]
        rw [tail]
        simp only [pending, ← List.append_assoc]
        rw [← slice_split _ _ (Nat.min_le_right n c.currSendSize)]
      | wouldBlock => exact ih c hrest
      | peerClosed => simp [Plain] at hr
      | failed => simp [Plain] at hr

theorem sendHeader_drained (sends : List IoResult)
    (h : (sendHeader sends c).2.2 = .drained) : (sendHeader sends c).1.currSendSize = 0 := by
  induction sends generalizing c with
  | nil =>
    unfold sendHeader at h ⊢
    split
    · assumption
    · rename_i hne
      simp [hne] at h
  | cons r rest ih =>
    unfold sendHeader at h ⊢
    split
    · assumption
    · rename_i hne
      simp only [if_neg hne] at h
      cases r with
      | done n => exact ih _ h
      | wouldBlock => exact ih _ h
      | peerClosed => simp at h
      | failed =>
        simp only at h ⊢
        split
        · rename_i hz; simp [hz] at h
        · rename_i hz; simp only [if_neg hz] at h; exact ih _ h

theorem pending_finishSendfile (out : List UInt8) (hz : c.currSendSize = 0) :
    (finishSendfile c out).out ++ pending files (finishSendfile c out).conn =
      out ++ pending files c := by
  unfold finishSendfile
  split
  · rename_i hf
    simp [pending, hz, hf, slice]
  · rfl

/-- The buffer is empty when the file body goes out, so the order is kept. -/
theorem pending_sendBody (r : IoResult) (hr : Plain r = true) (out : List UInt8)
    (hz : c.currSendSize = 0) :
    (sendBody files c r out).out ++ pending files (sendBody files c r out).conn =
      out ++ pending files c := by
  unfold sendBody
  split
  · cases r with
    | done n =>
      have cut := slice_split (fileOf files c.fileFd) c.fileOffset
        (Nat.min_le_right n c.fileRemaining)
      have moved : (out ++ slice (fileOf files c.fileFd) c.fileOffset (min n c.fileRemaining)) ++
          pending files { c with
            fileOffset := c.fileOffset + min n c.fileRemaining
            fileRemaining := c.fileRemaining - min n c.fileRemaining } =
          out ++ pending files c := by
        simp only [pending, hz, slice, List.nil_append, List.append_assoc]
        rw [← cut]
      simp only
      split
      · exact moved
      · rw [pending_finishSendfile]
        · exact moved
        · exact hz
    | wouldBlock => rfl
    | peerClosed => simp [Plain] at hr
    | failed => simp [Plain] at hr
  · exact pending_finishSendfile files c out hz

theorem pending_connSendV2 (sends : List IoResult) (file : IoResult)
    (hs : ∀ r ∈ sends, Plain r = true) (hf : Plain file = true) :
    (connSendV2 files c sends file).2.2 ++ pending files (connSendV2 files c sends file).2.1 =
      pending files c := by
  have head := pending_sendHeader files c sends hs
  cases hx : (sendHeader sends c).2.2 with
  | drained =>
    have body := pending_sendBody files (sendHeader sends c).1 file hf (sendHeader sends c).2.1
      (sendHeader_drained c sends hx)
    simpa only [connSendV2, hx] using body.trans head
  | peerClosed => simpa only [connSendV2, hx] using head
  | spinning => simpa only [connSendV2, hx] using head
  | underrun => simpa only [connSendV2, hx] using head

/-- Enqueueing at the end of the pending bytes appends the message. -/
theorem pending_connStartSend (msg : List UInt8) (target : Addr) (r : IoResult)
    (hr : Plain r = true) (hlen : messageHeader ≤ msg.length)
    (hsize : reqSizeOf (memOf msg) 0 = msg.length)
    (behind : c.currSendSize = 0 ∨ c.currSendBuf = 0) (hfile : c.fileRemaining = 0) :
    (connStartSend (fill c msg) target r).out ++
        pending files (connStartSend (fill c msg) target r).conn =
      pending files c ++ msg := by
  have read : reqSizeOf (fill c msg).sendBuf c.currSendSize = msg.length := by
    rw [← hsize]
    apply u32_congr
    intro i hi
    have inside : 4 + i < msg.length := by unfold messageHeader at hlen; omega
    have at4 := store_inside (connPrepareSendMessage c).1.sendBuf c.currSendSize msg inside
    simpa only [fill, connPrepareSendMessage, memOf, Nat.zero_add, Nat.add_assoc] using at4
  have start : (if c.currSendSize = 0 then 0 else c.currSendBuf) = 0 := by
    rcases behind with h | h
    · simp [h]
    · simp [h]
  have old : slice (fill c msg).sendBuf 0 c.currSendSize =
      slice c.sendBuf c.currSendBuf c.currSendSize := by
    have untouched : slice (fill c msg).sendBuf 0 c.currSendSize =
        slice c.sendBuf 0 c.currSendSize := by
      simp only [fill, connPrepareSendMessage, setReqSize, storeU32]
      rw [slice_store_disjoint _ _ _ _ _ (by omega), slice_store_disjoint _ _ _ _ _ (by omega)]
    rcases behind with h | h
    · simp [h, slice]
    · rw [untouched, h]
  have new : slice (fill c msg).sendBuf c.currSendSize msg.length = msg :=
    slice_store_self _ _ _
  have appended : pending files { fill c msg with
      target := target
      currSendBuf := if c.currSendSize = 0 then 0 else c.currSendBuf
      currSendSize := c.currSendSize + reqSizeOf (fill c msg).sendBuf c.currSendSize } =
      pending files c ++ msg := by
    have none_left : (fill c msg).fileRemaining = 0 := hfile
    simp only [pending, start, read, slice_add, Nat.zero_add, old, new, none_left, hfile, slice,
      List.append_nil]
  unfold connStartSend
  simp only
  split
  · exact appended
  · rw [pending_connSend files _ r hr]
    exact appended

/-- A SENDFILE reply on an idle connection is its header, then the file bytes. -/
theorem pending_connStartSendfile (header : List UInt8) (target : Addr) (fd offset size : Nat)
    (sends : List IoResult) (file : IoResult) (hs : ∀ r ∈ sends, Plain r = true)
    (hf : Plain file = true) (hlen : messageHeader ≤ header.length) (hmin : messageHeader ≤ size)
    (hmax : size < 2 ^ 32) (hsize : reqSizeOf (memOf header) 0 = size)
    (empty : c.currSendSize = 0) (hfile : c.fileRemaining = 0) :
    (connStartSendfile files (fill c header) target fd offset size sends file).2.2 ++
        pending files
          (connStartSendfile files (fill c header) target fd offset size sends file).2.1 =
      pending files c ++
        (header.take messageHeader ++ slice (files fd) offset (size - messageHeader)) := by
  have idle : pending files c = [] := by simp [pending, empty, hfile, slice]
  have same : setReqSize (fill c header).sendBuf 0 size = (fill c header).sendBuf := by
    apply storeU32_same
    rw [← hsize]
    apply u32_congr
    intro i hi
    have inside : 4 + i < header.length := by unfold messageHeader at hlen; omega
    have at4 := store_inside (connPrepareSendMessage c).1.sendBuf c.currSendSize header inside
    simpa only [fill, connPrepareSendMessage, memOf, empty, Nat.zero_add] using at4
  have head : slice (fill c header).sendBuf 0 messageHeader = header.take messageHeader := by
    have whole : slice (fill c header).sendBuf 0 header.length = header := by
      have h := slice_store_self (connPrepareSendMessage c).1.sendBuf c.currSendSize header
      simpa only [fill, connPrepareSendMessage, empty] using h
    rw [← take_slice _ _ _ _ hlen, whole]
  have remaining : (2 ^ 64 + size - messageHeader) % 2 ^ 64 = size - messageHeader := by
    unfold messageHeader at hmin ⊢
    omega
  have started : pending files (startSendfile (fill c header) target fd offset size) =
      header.take messageHeader ++ slice (files fd) offset (size - messageHeader) := by
    have start : (fill c header).currSendSize = 0 := empty
    simp only [pending, startSendfile, same, start, if_true, head, remaining, fileOf]
  rw [idle, List.nil_append]
  unfold connStartSendfile
  simp only
  split
  · exact started
  · rw [pending_connSendV2 files _ sends file hs hf]
    exact started

end Operations

/-! ## Whole runs -/

theorem advertised_lt (c : ConnInfo) : advertised c < 2 ^ 32 := by
  unfold advertised
  omega

theorem step_intact (files : Nat → Mem) (s : Stream) (op : SendOp)
    (h : s.wire ++ pending files s.conn = s.queued) (admissible : Admissible s op)
    (behind : Behind s op) :
    (step files s op).wire ++ pending files (step files s op).conn = (step files s op).queued := by
  cases op with
  | enqueue msg target r =>
    obtain ⟨hlen, _, hsize, hr⟩ := admissible
    have moved := pending_connStartSend files s.conn msg target r hr hlen hsize behind.1 behind.2
    simp only [step, List.append_assoc, moved]
    rw [← List.append_assoc, h]
  | enqueueFile header target fd offset size sends file =>
    obtain ⟨hlen, _, hmin, hfit, hsize, hs, hf⟩ := admissible
    have hmax := Nat.lt_of_le_of_lt hfit (advertised_lt s.conn)
    have moved := pending_connStartSendfile files s.conn header target fd offset size sends file
      hs hf hlen hmin hmax hsize behind.1 behind.2
    simp only [step, List.append_assoc, moved]
    rw [← List.append_assoc, h]
  | send r =>
    simp only [step, List.append_assoc, pending_connSend files s.conn r admissible, h]
  | sendV2 sends file =>
    simp only [step, List.append_assoc,
      pending_connSendV2 files s.conn sends file admissible.1 admissible.2, h]
  | flush sends r =>
    have moved : (connFlush files s.conn sends r).2.2 ++
        pending files (connFlush files s.conn sends r).2.1 = pending files s.conn := by
      unfold connFlush
      cases s.conn.replyMode with
      | normal => exact pending_connSend files s.conn r admissible.2
      | sendfile => exact pending_connSendV2 files s.conn sends r admissible.1 admissible.2
      | other code => rfl
    simp only [step, List.append_assoc, moved, h]
  | setStatus status => exact h
  | setReplyMode mode => exact h

theorem run_intact (files : Nat → Mem) (s : Stream) (ops : List SendOp)
    (h : s.wire ++ pending files s.conn = s.queued) (admissible : Along files Admissible s ops)
    (behind : Along files Behind s ops) :
    (run files s ops).wire ++ pending files (run files s ops).conn = (run files s ops).queued := by
  induction ops generalizing s with
  | nil => exact h
  | cons op ops ih =>
    exact ih (step files s op) (step_intact files s op h admissible.1 behind.1)
      admissible.2 behind.2

theorem Along.take {files : Nat → Mem} {P : Stream → SendOp → Prop} {s : Stream}
    {ops : List SendOp} (h : Along files P s ops) (k : Nat) : Along files P s (ops.take k) := by
  induction ops generalizing s k with
  | nil => simpa using h
  | cons op ops ih =>
    cases k with
    | zero => trivial
    | succ k => exact ⟨h.1, ih h.2 k⟩

/-- In every run that never enqueues behind a partial send, every state is
intact: no byte is lost, overwritten, duplicated or reordered. -/
theorem send_stream_intact (files : Nat → Mem) (c : ConnInfo) (idle : Idle c)
    (ops : List SendOp) (admissible : Along files Admissible (opened c) ops)
    (behind : Along files Behind (opened c) ops) (k : Nat) :
    Intact files (run files (opened c) (ops.take k)) := by
  have start : (opened c).wire ++ pending files (opened c).conn = (opened c).queued := by
    simp [opened, pending, idle.1, idle.2, slice]
  have whole := run_intact files (opened c) (ops.take k) start (admissible.take k) (behind.take k)
  exact ⟨⟨_, whole⟩, whole⟩

/-- A connected socket, as `conn_alloc` and a completed connect leave it. -/
def connected : ConnInfo :=
  { ConnInfo.init.claim 5 [127, 0, 0, 1, 31, 144] .tcp 0 with status := .ready }

/-- Two 16-byte messages that differ in their request id. -/
def messageA : List UInt8 := [1, 0, 0, 0, 16, 0, 0, 0, 0, 0, 0, 0, 7, 0, 0, 0]
def messageB : List UInt8 := [2, 0, 0, 0, 16, 0, 0, 0, 0, 0, 0, 0, 7, 0, 0, 0]

theorem send_stream_intact_two_messages :
    Intact (fun _ _ => 0) (run (fun _ _ => 0) (opened connected)
      [.enqueue messageA [] .wouldBlock, .enqueue messageB [] (.done 20), .send (.done 12)]) :=
  send_stream_intact (fun _ _ => 0) connected ⟨rfl, rfl⟩
    [.enqueue messageA [] .wouldBlock, .enqueue messageB [] (.done 20), .send (.done 12)]
    ⟨by decide +kernel, by decide +kernel, by decide +kernel, trivial⟩
    ⟨⟨.inl rfl, rfl⟩, ⟨.inr rfl, rfl⟩, trivial, trivial⟩ 3

/-- The kernel takes 4 bytes of the first message; the second one is then
written over the tail of the first. -/
theorem partial_send_overwritten :
    ¬ ∀ (files : Nat → Mem) (c : ConnInfo), Idle c → ∀ ops : List SendOp,
      Along files Admissible (opened c) ops → Intact files (run files (opened c) ops) := by
  intro intact
  have broken := intact (fun _ _ => 0) connected ⟨rfl, rfl⟩
    [.enqueue messageA [] (.done 4), .enqueue messageB [] .wouldBlock]
    ⟨by decide +kernel, by decide +kernel, trivial⟩
  exact absurd broken.2 (by decide +kernel)

end SendStream
