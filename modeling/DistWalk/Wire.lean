import DistWalk.Message

/-!
# Messages as bytes

The encoding of a command list, as the walkers read it back: each command is
its type word and the options of that type, padding included, and a message is
its header and its commands.
-/

namespace Wire

open ByteMemory Message

def protoCode : Proto → Nat
  | .udp => 0
  | .tcp => 1
  | .tls => 2
  | .dpdk => 3
  | .other n => n

inductive Cmd
  | compute (usecs : Nat)
  | store (waitSync : Bool) (devId : UInt8)
  | load (devId : UInt8)
  | forward (continued : Bool) (pktSize : Nat) (addr : Addr) (timeout : Nat)
      (retries nAck onFailSkip branched : UInt8) (proto : Proto)
  | reply (respSize : Nat)
  | eom

def Cmd.encode : Cmd → List UInt8
  | .compute usecs => u32Bytes 0 ++ u32Bytes usecs
  | .store waitSync devId =>
    u32Bytes 1 ++ List.replicate 16 0 ++ [if waitSync then 1 else 0, devId, 0, 0] ++ u32Bytes 0
  | .load devId => u32Bytes 2 ++ List.replicate 16 0 ++ [devId, 0, 0, 0] ++ u32Bytes 0
  | .forward continued pktSize addr timeout retries nAck onFailSkip branched proto =>
    u32Bytes (if continued then 5 else 4) ++ u32Bytes pktSize ++ addr ++ [0, 0] ++
      u32Bytes timeout ++ [retries, nAck, onFailSkip, branched] ++ u32Bytes (protoCode proto)
  | .reply respSize => u32Bytes 6 ++ u32Bytes respSize ++ u32Bytes 0 ++ [0, 0, 0, 0]
  | .eom => u32Bytes 7

def encodeAll (cmds : List Cmd) : List UInt8 := (cmds.map Cmd.encode).flatten

/-- A message that is exactly as long as its commands. -/
def message (reqId status : Nat) (cmds : List Cmd) : List UInt8 :=
  u32Bytes reqId ++ u32Bytes (messageHeader + (encodeAll cmds).length) ++ u32Bytes status ++
    encodeAll cmds

end Wire
