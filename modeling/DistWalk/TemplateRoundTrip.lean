import DistWalk.TemplateDump

/-!
# From the template to the message and back

What a receiver reads out of a message that `ccmd_dump` composed in full: the
commands that the skips keep of the chain, in order, each with the option values
of its node and the sizes that were sampled for it.
-/

namespace TemplateRoundTrip

open ByteMemory Message Wire Walkers Template TemplateSkip Decoding TemplateDump

/-! ## Options, field by field -/

inductive Options
  | none
  | compute (compTimeUs : Nat)
  | store (offset nbytes waitSync devId : Nat)
  | load (offset nbytes devId : Nat)
  | forward (opts : FwdOpts)
  | reply (opts : ReplyOpts)

/-- The little-endian 64-bit word at `a`. -/
def u64 (mem : Mem) (a : Nat) : Nat := u32 mem a + 2 ^ 32 * u32 mem (a + 4)

/-- The options of the command at `cmd`, as its type lays them out. -/
def optionsAt (mem : Mem) (cmd : Nat) : Options :=
  match cmdAt mem cmd with
  | .compute => .compute (compTimeUs mem cmd)
  | .store =>
    .store (u64 mem (cmd + 4)) (u64 mem (cmd + 12)) (storeWaitSync mem cmd) (storeDevId mem cmd)
  | .load => .load (u64 mem (cmd + 4)) (u64 mem (cmd + 12)) (loadDevId mem cmd)
  | .forwardBegin | .forwardContinue => .forward (fwdOpts mem cmd)
  | .reply => .reply (replyOpts mem cmd)
  | _ => .none

/-- The options of a node, with the values sampled for it in place of those that
`pd_val` and `pd_val2` specify. -/
def nodeOptions (node : CcmdNode) (val val2 : Nat) : Options :=
  match node.cmd with
  | .compute => .compute val
  | .store => .store val2 val node.store.waitSync node.store.devId
  | .load => .load val2 val node.load.devId
  | .forwardBegin | .forwardContinue => .forward { node.fwd with pktSize := val }
  | .reply => .reply { node.resp with respSize := val }
  | _ => .none

/-- Every field holds its value, an enumeration one of its codes. -/
def Options.Fit : Options → Prop
  | .none => True
  | .compute compTimeUs => compTimeUs < 2 ^ 32
  | .store offset nbytes waitSync devId =>
    offset < 2 ^ 64 ∧ nbytes < 2 ^ 64 ∧ waitSync < 256 ∧ devId < 256
  | .load offset nbytes devId => offset < 2 ^ 64 ∧ nbytes < 2 ^ 64 ∧ devId < 256
  | .forward opts =>
    opts.pktSize < 2 ^ 32 ∧ opts.fwdAddr.length = 6 ∧ opts.timeout < 2 ^ 32 ∧ opts.retries < 256 ∧
      opts.nAck < 256 ∧ opts.onFailSkip < 256 ∧ opts.branched < 256 ∧
      protoCode opts.proto < 2 ^ 32 ∧ Proto.ofCode (protoCode opts.proto) = opts.proto
  | .reply opts =>
    opts.respSize < 2 ^ 32 ∧ modeCode opts.mode < 2 ^ 32 ∧
      ReplyMode.ofCode (modeCode opts.mode) = opts.mode ∧ opts.devId < 256

/-- The commands that a request carries for these nodes, the samples of the first
one from the `k`-th draw on. -/
def sampled (draws : Draws) : Nat → List CcmdNode → List (CommandType × Options)
  | _, [] => []
  | k, node :: rest =>
    (node.cmd, nodeOptions node (draws.sample (k + samples node.cmd - 1)) (draws.sample k)) ::
      sampled draws (k + samples node.cmd) rest

/-- The command at `cmd`, as its receiver reads it. -/
def commandAt (mem : Mem) (cmd : Nat) : CommandType × Options := (cmdAt mem cmd, optionsAt mem cmd)

/-! ## Reading a field back -/

theorem length_optionBytes {node : CcmdNode} (val val2 : Nat) (encodable : Encodable node.cmd)
    (addr : node.cmd.isForward = true → node.fwd.fwdAddr.length = 6) :
    commandHeader + (optionBytes node val val2).length = cmdTypeSize node.cmd := by
  cases kind : node.cmd with
  | eom => exact absurd kind encodable.1
  | unknown n => exact absurd kind (encodable.2 n)
  | forwardBegin =>
    rw [kind] at addr
    simp [optionBytes, kind, cmdTypeSize, addr rfl]
  | forwardContinue =>
    rw [kind] at addr
    simp [optionBytes, kind, cmdTypeSize, addr rfl]
  | _ => simp [optionBytes, kind, cmdTypeSize, u64Bytes]

def minSendSize : Nat := messageHeader + 2 * commandHeader

end TemplateRoundTrip
