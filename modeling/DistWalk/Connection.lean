import DistWalk.Message

/-!
# Connection buffers

The send and receive sides of one `conn_info_t`. Pointers into `send_buf` and
`recv_buf` are offsets. What the kernel answers to `sendto`, `send`, `sendfile`,
`SSL_write`, `recvfrom` and `SSL_read` is an argument of each operation, and an
operation returns the bytes the socket accepted beside its return code.
-/

namespace Connection

open ByteMemory Message

inductive Status
  | notInit
  | ready
  | sending
  | connecting
  | sslHandshake
  | closing
  | close
  deriving DecidableEq, Repr

structure ConnInfo where
  proto : Proto
  sock : Option Nat
  status : Status
  target : Addr
  /-- whether `recv_buf` and `send_buf` are allocated -/
  buffers : Bool
  recvBuf : Mem
  sendBuf : Mem
  currRecvBuf : Nat
  currRecvSize : Nat
  currProcBuf : Nat
  currSendBuf : Nat
  currSendSize : Nat
  fileFd : Option Nat
  fileOffset : Nat
  fileRemaining : Nat
  replyMode : ReplyMode
  reqList : Option Nat
  parentThread : Nat
  busy : Bool
  enableDefrag : Bool
  isListen : Bool
  useSsl : Bool

/-- A slot of `conns[]` as `conn_init` leaves it. -/
def ConnInfo.init : ConnInfo where
  proto := .udp
  sock := none
  status := .notInit
  target := []
  buffers := false
  recvBuf := fun _ => 0
  sendBuf := fun _ => 0
  currRecvBuf := 0
  currRecvSize := 0
  currProcBuf := 0
  currSendBuf := 0
  currSendSize := 0
  fileFd := some 0
  fileOffset := 0
  fileRemaining := 0
  replyMode := .normal
  reqList := none
  parentThread := 0
  busy := false
  enableDefrag := false
  isListen := false
  useSsl := false

/-- The part of `conn_alloc` after a free slot has been claimed. The fields of
`sendfile()`, `reply_mode`, `req_list` and `is_listen` keep what they held. -/
def ConnInfo.claim (c : ConnInfo) (sock : Nat) (target : Addr) (proto : Proto)
    (thread : Nat) : ConnInfo :=
  { c with
    proto := proto
    sock := some sock
    status := if proto = .tcp then .notInit else .ready
    target := target
    buffers := true
    recvBuf := storeU32 (fun _ => 0) (messageFirstCmd 0) 7
    sendBuf := storeU32 (fun _ => 0) (messageFirstCmd 0) 7
    currRecvBuf := 0
    currRecvSize := bufSize
    currProcBuf := 0
    currSendBuf := 0
    currSendSize := 0
    parentThread := thread
    busy := true
    useSsl := false }

/-- What a system call that moves bytes out answers. -/
inductive IoResult
  | done (n : Nat)
  | wouldBlock
  | peerClosed
  | failed
  deriving DecidableEq, Repr

inductive RecvResult
  | bytes (data : List UInt8) (source : Option Addr)
  | wouldBlock
  | closed
  | failed
  deriving DecidableEq, Repr

/-- Result of a transmit operation: connection, return code, bytes accepted. -/
structure Sent where
  conn : ConnInfo
  ret : Int
  out : List UInt8

/-! ## Sending -/

/-- Free space that `conn_prepare_send_message` writes into the new header. -/
def advertised (c : ConnInfo) : Nat :=
  (bufSize + 2 ^ 32 - (c.currSendBuf + c.currSendSize) % 2 ^ 32) % 2 ^ 32

/-- The new message starts at `send_buf + curr_send_size`. -/
def connPrepareSendMessage (c : ConnInfo) : ConnInfo × Nat :=
  ({ c with sendBuf := setReqSize c.sendBuf c.currSendSize (advertised c) }, c.currSendSize)

/-- Bytes leave from `curr_send_buf`; a drained buffer rewinds the cursor. -/
def advanceSend (c : ConnInfo) (sent : Nat) : ConnInfo :=
  { c with
    currSendBuf := if c.currSendSize - sent = 0 then 0 else c.currSendBuf + sent
    currSendSize := c.currSendSize - sent }

/-- `SSL_write` answers zero only together with a want-read or want-write code. -/
def connSslSend (c : ConnInfo) (r : IoResult) : Sent :=
  match r with
  | .done n =>
    let sent := min n c.currSendSize
    if sent = 0 then ⟨c, 0, []⟩
    else ⟨advanceSend c sent, sent, slice c.sendBuf c.currSendBuf sent⟩
  | .wouldBlock => ⟨c, 0, []⟩
  | .peerClosed => ⟨{ c with status := .closing }, 0, []⟩
  | .failed => ⟨c, -1, []⟩

def connSend (c : ConnInfo) (r : IoResult) : Sent :=
  if c.useSsl then connSslSend c r
  else
    match r with
    | .done n =>
      let sent := min n c.currSendSize
      if sent = 0 then ⟨c, 0, []⟩
      else
        let c' := advanceSend c sent
        let c' := if c'.currSendSize = 0 ∧ c'.status = .sending then
          { c' with status := .ready } else c'
        ⟨c', sent, slice c.sendBuf c.currSendBuf sent⟩
    | .wouldBlock => ⟨{ c with status := .sending }, 0, []⟩
    | .peerClosed => ⟨{ c with status := .closing }, 0, []⟩
    | .failed => ⟨c, -1, []⟩

/-- How the header loop of `conn_send_v2` is left. `spinning` is a call that
still retries `send` after all the answers given; `underrun` is the cursor
moved before the buffer by a failed `send`. -/
inductive HeaderExit
  | drained
  | peerClosed
  | spinning
  | underrun
  deriving DecidableEq, Repr

/-- Phase 1 of `conn_send_v2`: retry until the buffer is empty. Any other error
adds the -1 of `send` to the cursor. -/
def sendHeader : List IoResult → ConnInfo → ConnInfo × List UInt8 × HeaderExit
  | rs, c =>
    if c.currSendSize = 0 then (c, [], .drained)
    else
      match rs with
      | [] => (c, [], .spinning)
      | r :: rest =>
        match r with
        | .done n =>
          let sent := min n c.currSendSize
          let next := sendHeader rest
            { c with currSendBuf := c.currSendBuf + sent, currSendSize := c.currSendSize - sent }
          (next.1, slice c.sendBuf c.currSendBuf sent ++ next.2.1, next.2.2)
        | .wouldBlock => sendHeader rest c
        | .peerClosed => ({ c with status := .closing }, [], .peerClosed)
        | .failed =>
          if c.currSendBuf = 0 then (c, [], .underrun)
          else sendHeader rest
            { c with currSendBuf := c.currSendBuf - 1, currSendSize := c.currSendSize + 1 }

/-- The contents behind a file descriptor. -/
def fileOf (files : Nat → Mem) : Option Nat → Mem
  | none => fun _ => 0
  | some fd => files fd

/-- Phase 3 of `conn_send_v2`. -/
def finishSendfile (c : ConnInfo) (out : List UInt8) : Sent :=
  if c.fileRemaining = 0 then
    ⟨{ c with fileFd := none, fileOffset := 0, currSendBuf := 0, status := .ready }, 1, out⟩
  else ⟨c, 1, out⟩

/-- Phase 2 of `conn_send_v2`: `sendfile` advances `file_offset` itself. -/
def sendBody (files : Nat → Mem) (c : ConnInfo) (r : IoResult) (out : List UInt8) : Sent :=
  if c.fileRemaining > 0 then
    match r with
    | .done n =>
      let released := min n c.fileRemaining
      let out := out ++ slice (fileOf files c.fileFd) c.fileOffset released
      let c := { c with
        fileOffset := c.fileOffset + released
        fileRemaining := c.fileRemaining - released }
      if c.fileRemaining > 0 then ⟨{ c with status := .sending }, 0, out⟩
      else finishSendfile c out
    | .wouldBlock => ⟨{ c with status := .sending }, 0, out⟩
    | .peerClosed => ⟨{ c with status := .closing }, -1, out⟩
    | .failed => ⟨c, -1, out⟩
  else finishSendfile c out

/-- `sends` answers the `send` calls of the header loop, `file` the one
`sendfile` call. A call that is still in the loop has not returned: `none`. -/
def connSendV2 (files : Nat → Mem) (c : ConnInfo) (sends : List IoResult) (file : IoResult) :
    Option Sent × ConnInfo × List UInt8 :=
  let h := sendHeader sends c
  match h.2.2 with
  | .drained =>
    let s := sendBody files h.1 file h.2.1
    (some s, s.conn, s.out)
  | .peerClosed => (some ⟨h.1, -1, h.2.1⟩, h.1, h.2.1)
  | .spinning => (none, h.1, h.2.1)
  | .underrun => (none, h.1, h.2.1)

/-- Statuses in which a message is only enqueued. -/
def Status.deferred : Status → Bool
  | .connecting => true
  | .sslHandshake => true
  | .notInit => true
  | _ => false

def connStartSend (c : ConnInfo) (target : Addr) (r : IoResult) : Sent :=
  let m := c.currSendSize
  let c := { c with
    target := target
    currSendBuf := if c.currSendSize = 0 then 0 else c.currSendBuf
    currSendSize := c.currSendSize + reqSizeOf c.sendBuf m }
  if c.status.deferred then ⟨c, 0, []⟩ else connSend c r

/-- The cursor part of `conn_start_sendfile`: the header is taken from the
start of `send_buf`. -/
def startSendfile (c : ConnInfo) (target : Addr) (fd offset size : Nat) : ConnInfo :=
  { c with
    target := target
    sendBuf := setReqSize c.sendBuf 0 size
    currSendBuf := if c.currSendSize = 0 then 0 else c.currSendBuf
    currSendSize := messageHeader
    fileFd := some fd
    fileOffset := offset
    fileRemaining := (2 ^ 64 + size - messageHeader) % 2 ^ 64 }

def connStartSendfile (files : Nat → Mem) (c : ConnInfo) (target : Addr) (fd offset size : Nat)
    (sends : List IoResult) (file : IoResult) : Option Sent × ConnInfo × List UInt8 :=
  let c := startSendfile c target fd offset size
  if c.status.deferred then (some ⟨c, 0, []⟩, c, []) else connSendV2 files c sends file

def connFlush (files : Nat → Mem) (c : ConnInfo) (sends : List IoResult) (r : IoResult) :
    Option Sent × ConnInfo × List UInt8 :=
  match c.replyMode with
  | .normal => let s := connSend c r; (some s, s.conn, s.out)
  | .sendfile => connSendV2 files c sends r
  | .other _ => (some ⟨c, -1, []⟩, c, [])

/-! ## Receiving -/

/-- The bytes that fit are stored at `curr_recv_buf`. A receive into a full
buffer answers zero and reads as a closed peer. -/
def takeBytes (c : ConnInfo) (data : List UInt8) : ConnInfo :=
  let got := data.take c.currRecvSize
  { c with
    recvBuf := store c.recvBuf c.currRecvBuf got
    currRecvBuf := c.currRecvBuf + got.length
    currRecvSize := c.currRecvSize - got.length }

/-- 1 if received, -1 if the call would block, 0 on a closed peer or an error. -/
def connRecv (c : ConnInfo) (r : RecvResult) : ConnInfo × Int :=
  if c.useSsl ∧ c.status = .sslHandshake then (c, 1)
  else
    match r with
    | .bytes data source =>
      if (data.take c.currRecvSize).length = 0 then (c, 0)
      else
        let c := if c.useSsl then c else { c with target := source.getD c.target }
        (takeBytes c data, 1)
    | .wouldBlock => (c, -1)
    | .closed => (c, 0)
    | .failed => (c, 0)

/-- The next complete message between `curr_proc_buf` and `curr_recv_buf`. -/
def connPrepareRecvMessage (c : ConnInfo) : Except Abort (Option Nat × ConnInfo) :=
  let msgSize := c.currRecvBuf - c.currProcBuf
  let m := c.currProcBuf
  if msgSize < messageHeader then .ok (none, c)
  else if msgSize < reqSizeOf c.recvBuf m then .ok (none, c)
  else if ¬ (messageHeader ≤ reqSizeOf c.recvBuf m ∧ reqSizeOf c.recvBuf m ≤ bufSize) then
    .error .assertion
  else .ok (some m, { c with currProcBuf := m + reqSizeOf c.recvBuf m })

end Connection
