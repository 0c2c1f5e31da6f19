import DistWalk.ByteMemory

/-!
# Messages and the bounded command walkers

A message is a header of three words (request id, size, status) followed by
commands of variable size. The walkers below work on the bytes in place: a
command is the offset where it starts, NULL is `none`, and every walk is
bounded by the end of its message. Loops carry fuel; each step advances by at
least one command header, so the distance to the end of the message is enough.
-/

namespace Message

open ByteMemory

/-- What ends the worker: `check()`, `assert()` (that of `conn_find_sock` by itself),
`sys_check()`, `exit()`, a NULL pointer that is read, and a system call loop that is
never left. -/
inductive Abort
  | check
  | assertion
  | noSocket
  | sysCheck
  | exitFailure
  | segfault
  | stuck
  deriving DecidableEq, Repr

inductive CommandType
  | compute
  | store
  | load
  | pskip
  | forwardBegin
  | forwardContinue
  | reply
  | eom
  | unknown (code : Nat)
  deriving DecidableEq, Repr

def CommandType.ofCode : Nat → CommandType
  | 0 => .compute
  | 1 => .store
  | 2 => .load
  | 3 => .pskip
  | 4 => .forwardBegin
  | 5 => .forwardContinue
  | 6 => .reply
  | 7 => .eom
  | n => .unknown n

/-- Both kinds of FORWARD command. -/
def CommandType.isForward : CommandType → Bool
  | .forwardBegin => true
  | .forwardContinue => true
  | _ => false

inductive Proto
  | udp
  | tcp
  | tls
  | dpdk
  | other (code : Nat)
  deriving DecidableEq, Repr

def Proto.ofCode : Nat → Proto
  | 0 => .udp
  | 1 => .tcp
  | 2 => .tls
  | 3 => .dpdk
  | n => .other n

inductive ReplyMode
  | normal
  | sendfile
  | other (code : Nat)
  deriving DecidableEq, Repr

def ReplyMode.ofCode : Nat → ReplyMode
  | 0 => .normal
  | 1 => .sendfile
  | n => .other n

/-- Values of `msg_status_t` as they stand in the header. -/
def statusSuccess : Nat := 0
def statusTimeout : Nat := 1
def statusErr : Nat := 2

/-- The six bytes of `fwd_addr`: host, then port, both as they lie in memory. -/
abbrev Addr := List UInt8

def bufSize : Nat := 16 * 1024 * 1024

/-- `sizeof(message_t)` and `sizeof(command_t)`. -/
def messageHeader : Nat := 12
def commandHeader : Nat := 4

/-! ## Header fields -/

def reqIdOf (mem : Mem) (m : Nat) : Nat := u32 mem m
def reqSizeOf (mem : Mem) (m : Nat) : Nat := u32 mem (m + 4)
def statusOf (mem : Mem) (m : Nat) : Nat := u32 mem (m + 8)
def setReqId (mem : Mem) (m v : Nat) : Mem := storeU32 mem m v
def setReqSize (mem : Mem) (m v : Nat) : Mem := storeU32 mem (m + 4) v
def setStatus (mem : Mem) (m v : Nat) : Mem := storeU32 mem (m + 8) v

def messageEnd (mem : Mem) (m : Nat) : Nat := m + reqSizeOf mem m
def messageFirstCmd (m : Nat) : Nat := m + messageHeader

/-! ## Commands and their options -/

def cmdAt (mem : Mem) (cmd : Nat) : CommandType := .ofCode (u32 mem cmd)

def cmdTypeSize : CommandType → Nat
  | .reply => commandHeader + 12
  | .forwardBegin => commandHeader + 24
  | .forwardContinue => commandHeader + 24
  | .compute => commandHeader + 4
  | .load => commandHeader + 24
  | .store => commandHeader + 24
  | .pskip => commandHeader
  | .eom => commandHeader
  | .unknown _ => commandHeader

structure FwdOpts where
  pktSize : Nat
  fwdAddr : Addr
  timeout : Nat
  retries : Nat
  nAck : Nat
  onFailSkip : Nat
  branched : Nat
  proto : Proto

def fwdOpts (mem : Mem) (cmd : Nat) : FwdOpts where
  pktSize := u32 mem (cmd + 4)
  fwdAddr := slice mem (cmd + 8) 6
  timeout := u32 mem (cmd + 16)
  retries := (mem (cmd + 20)).toNat
  nAck := (mem (cmd + 21)).toNat
  onFailSkip := (mem (cmd + 22)).toNat
  branched := (mem (cmd + 23)).toNat
  proto := .ofCode (u32 mem (cmd + 24))

structure ReplyOpts where
  respSize : Nat
  mode : ReplyMode
  devId : Nat

def replyOpts (mem : Mem) (cmd : Nat) : ReplyOpts where
  respSize := u32 mem (cmd + 4)
  mode := .ofCode (u32 mem (cmd + 8))
  devId := (mem (cmd + 12)).toNat

def compTimeUs (mem : Mem) (cmd : Nat) : Nat := u32 mem (cmd + 4)

/-- `wait_sync` and `dev_id` follow the two 64-bit words of a STORE, `dev_id`
alone those of a LOAD. -/
def storeWaitSync (mem : Mem) (cmd : Nat) : Nat := (mem (cmd + 20)).toNat
def storeDevId (mem : Mem) (cmd : Nat) : Nat := (mem (cmd + 21)).toNat
def loadDevId (mem : Mem) (cmd : Nat) : Nat := (mem (cmd + 20)).toNat

/-! ## Walking -/

def cmdInBounds (mem : Mem) (cmd msgEnd : Nat) : Bool :=
  if cmd + commandHeader > msgEnd then false
  else decide (cmd + cmdTypeSize (cmdAt mem cmd) ≤ msgEnd)

def cmdBoundedNext (mem : Mem) (cmd msgEnd : Nat) : Option Nat :=
  let wouldBeNext := cmd + cmdTypeSize (cmdAt mem cmd)
  if cmdInBounds mem wouldBeNext msgEnd then some wouldBeNext else none

/-- How passing over `cmd` changes the number of open FORWARD scopes. -/
def nestingAfter (mem : Mem) (cmd next : Nat) (nestedFwd : Int) : Int :=
  match cmdAt mem cmd with
  | .forwardBegin => nestedFwd + 1
  | .reply => if cmdAt mem next ≠ .forwardContinue then nestedFwd - 1 else nestedFwd
  | _ => nestedFwd

/-- The inner loop of `cmd_bounded_skip`: leave the context that starts at `cmd`. -/
def skipContext (mem : Mem) (msgEnd : Nat) : Nat → Nat → Int → Option Nat
  | 0, _, _ => none
  | fuel + 1, cmd, nestedFwd =>
    match cmdBoundedNext mem cmd msgEnd with
    | none => none
    | some next =>
      let nested := nestingAfter mem cmd next nestedFwd
      if cmdAt mem next ≠ .eom ∧ nested > 0 then skipContext mem msgEnd fuel next nested
      else some next

def skipContexts (mem : Mem) (msgEnd : Nat) : Nat → Nat → Option Nat
  | 0, cmd => some cmd
  | toSkip + 1, cmd =>
    if cmdAt mem cmd = .eom then none
    else (skipContext mem msgEnd (msgEnd - cmd) cmd 0).bind (skipContexts mem msgEnd toSkip)

def cmdBoundedSkip (mem : Mem) (cmd : Option Nat) (toSkip : Int) (msgEnd : Nat) : Option Nat :=
  match cmd with
  | none => none
  | some cmd =>
    if cmdInBounds mem cmd msgEnd then skipContexts mem msgEnd toSkip.toNat cmd else none

/-- The loop of `cmd_bounded_next_forward`: step over nested contexts until the
next FORWARD_CONTINUE of this context, or its end. -/
def seekContinue (mem : Mem) (msgEnd : Nat) (branched : Bool) : Nat → Option Nat → Option Nat
  | 0, _ => none
  | _ + 1, none => none
  | fuel + 1, some cmd =>
    match cmdAt mem cmd with
    | .eom => none
    | .forwardContinue => if cmdInBounds mem cmd msgEnd then some cmd else none
    | .forwardBegin =>
      seekContinue mem msgEnd branched fuel (cmdBoundedSkip mem (some cmd) 1 msgEnd)
    | .reply =>
      match cmdBoundedNext mem cmd msgEnd with
      | none => none
      | some next =>
        if !branched || cmdAt mem next ≠ .forwardContinue then none
        else seekContinue mem msgEnd branched fuel (some next)
    | _ => seekContinue mem msgEnd branched fuel (cmdBoundedNext mem cmd msgEnd)

def cmdBoundedNextForward (mem : Mem) (cmd : Option Nat) (msgEnd : Nat) :
    Except Abort (Option Nat) :=
  match cmd with
  | none => .ok none
  | some cmd =>
    if !cmdInBounds mem cmd msgEnd then .ok none
    else if !(cmdAt mem cmd).isForward then .error .check
    else
      .ok (seekContinue mem msgEnd ((fwdOpts mem cmd).branched ≠ 0) (msgEnd - cmd)
        (cmdBoundedNext mem cmd msgEnd))

/-- The loop of `find_forward_reply_id`, with `id` the position of `cmd`. -/
def findForwardFrom (mem : Mem) (matchAddr : Addr) (msgEnd : Nat) :
    Nat → Option Nat → Nat → Except Abort (Option Nat)
  | 0, _, _ => .ok none
  | _ + 1, none, _ => .ok none
  | fuel + 1, some cmd, id =>
    if (fwdOpts mem cmd).fwdAddr = matchAddr then .ok (some id)
    else
      match cmdBoundedNextForward mem (some cmd) msgEnd with
      | .error e => .error e
      | .ok next => findForwardFrom mem matchAddr msgEnd fuel next (id + 1)

/-- The 0-based position of `match_addr` in the context, or -1 (`none`). -/
def findForwardReplyId (mem : Mem) (cmd : Option Nat) (matchAddr : Addr) (msgEnd : Nat) :
    Except Abort (Option Nat) :=
  findForwardFrom mem matchAddr msgEnd (msgEnd + 1) cmd 0

/-- The search loop shared by `message_copy_tail` and the error path: skip
contexts until a REPLY or EOM. -/
def seekReply (mem : Mem) (msgEnd : Nat) : Nat → Option Nat → Option Nat
  | 0, _ => none
  | _ + 1, none => none
  | fuel + 1, some cmd =>
    if cmdAt mem cmd = .eom ∨ cmdAt mem cmd = .reply then some cmd
    else seekReply mem msgEnd fuel (cmdBoundedSkip mem (some cmd) 1 msgEnd)

/-- Copy the commands from `cmd` to the matching REPLY behind the header at
`mDst`, then append EOM. `req_size` of the destination is the available size. -/
def messageCopyTail (mem : Mem) (m : Nat) (dst : Mem) (mDst : Nat) (cmd : Option Nat) :
    Mem × Option Nat :=
  let dst := setReqId dst mDst (reqIdOf mem m)
  let msgEnd := messageEnd mem m
  match cmd, seekReply mem msgEnd (msgEnd + 1) cmd with
  | some cmd, some itr =>
    if !cmdInBounds mem itr msgEnd then (dst, none)
    else
      let cmdsLen := itr + cmdTypeSize (cmdAt mem itr) - cmd
      if reqSizeOf dst mDst < cmdsLen + cmdTypeSize .eom then (dst, none)
      else
        let endCommand := messageFirstCmd mDst + cmdsLen
        let dst := store dst (messageFirstCmd mDst) (slice mem cmd cmdsLen)
        let dst := storeU32 dst endCommand 7
        (setReqSize dst mDst (endCommand + cmdTypeSize .eom - mDst), some itr)
  | _, _ => (dst, none)

/-- `cmd_log` prints commands up to EOM and exits on a type it cannot print. -/
def cmdLog (mem : Mem) (msgEnd : Nat) : Nat → Option Nat → Except Abort Unit
  | 0, _ => .ok ()
  | _ + 1, none => .ok ()
  | fuel + 1, some cmd =>
    if !cmdInBounds mem cmd msgEnd then .ok ()
    else
      match cmdAt mem cmd with
      | .eom => .ok ()
      | .pskip => .error .exitFailure
      | .unknown _ => .error .exitFailure
      | _ => cmdLog mem msgEnd fuel (cmdBoundedNext mem cmd msgEnd)

end Message
