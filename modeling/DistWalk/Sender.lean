import DistWalk.BoundedReads
import DistWalk.Service
import DistWalk.TemplateRoundTrip

/-!
# The sender of a session

`thread_sender` composes one request after the other from the template and sends it on the
connection of its session. A packet that is too large for the send buffer, or too small for
the commands, is left out. Pacing, timestamps and the DPDK build are not part of it. Where
the socket takes all it is given, what goes out is a list of whole messages, each with the
id of its packet and the commands that the draws keep of the template.
-/

namespace Sender

open ByteMemory Message Connection Template TemplateSkip TemplateDump TemplateRoundTrip BoundedReads Decoding
  Segmentation Service

open SendStream (memOf)

/-- The size and the values drawn for a packet, and the answer to its `send`. -/
structure Packet where
  size : Nat
  draws : Draws
  sent : IoResult

/-- The nodes that the options leave in a template. -/
def Proper (template : List CcmdNode) : Prop := ∀ node ∈ template, TemplateDump.Encodable node.cmd

/-- The commands that the packet `pktId` carries, with the values drawn. -/
def carried (template : List CcmdNode) (pktId : Nat) (draws : Draws) : List (CommandType × Options) :=
  sampled draws 0 (emitted draws (pktId % 2 ^ 32) (template.length + 1) 0 template)

/-- A message as its packet asks for it. -/
structure Carries (template : List CcmdNode) (pktId : Nat) (p : Packet) (bytes : List UInt8) : Prop where
  length : bytes.length = p.size
  small : bytes.length ≤ bufSize
  size : reqSizeOf (memOf bytes) 0 = bytes.length
  id : reqIdOf (memOf bytes) 0 = pktId % 2 ^ 32
  status : statusOf (memOf bytes) 0 = statusSuccess
  commands : ∃ e cmds, Layout (memOf bytes) bytes.length e cmds ∧ cmds.headD e = messageHeader ∧
    cmds.map (commandAt (memOf bytes)) = carried template pktId p.draws

/-- The connection of a session has nothing to send, and the status word in its buffer is 0. -/
structure Fresh (conn : ConnInfo) : Prop where
  ready : conn.status = .ready
  drained : conn.currSendBuf = 0 ∧ conn.currSendSize = 0
  status : statusOf conn.sendBuf 0 = statusSuccess

/-- A size that the options accept, values that the fields hold, and a socket that takes
everything. -/
structure Sendable (template : List CcmdNode) (pktId : Nat) (p : Packet) : Prop where
  large : minSendSize ≤ p.size
  small : p.size < 2 ^ 32
  fit : ∀ c ∈ carried template pktId p.draws, c.2.Fit
  taken : ∃ n, p.sent = .done n ∧ bufSize ≤ n

/-- `P` of every packet, with its id. -/
def Each (P : Nat → Packet → Prop) : Nat → List Packet → Prop
  | _, [] => True
  | pktId, p :: rest => P pktId p ∧ Each P (pktId + 1) rest

section Bytes

variable {lo hi : Nat} {mem mem' : Mem}

end Bytes

/-! ## One packet -/

section Packet

variable {template : List CcmdNode} {conn : ConnInfo} {pktId : Nat} {p : Packet}

end Packet

end Sender
