import DistWalk.ContextGrammar
import DistWalk.Message

/-!
# The client's command template

The chain of commands that the client's options build and that every request is
composed from. The queue that holds the nodes keeps their order, so the chain is
the list of its nodes and a pointer to a node is its position. Values of a
`pd_spec_t` are rationals, NaN is `none`.
-/

namespace Template

open Message ContextGrammar

inductive PdType
  | none
  | fixed
  | unif
  | expon
  | norm
  | lognorm
  | gamma
  | arithSeq
  | geoSeq
  | sfile
  deriving DecidableEq, Repr

structure PdSpec where
  prob : PdType
  val : Option ℚ
  std : Option ℚ
  min : Option ℚ
  max : Option ℚ
  samples : List ℚ
  curSample : Nat
  deriving DecidableEq

def pdBuildFixed (val : ℚ) : PdSpec := ⟨.fixed, some val, some 0, none, none, [], 0⟩

def pdBuildNone : PdSpec := ⟨.none, none, some 0, none, none, [], 0⟩

def pdIsNone (p : PdSpec) : Bool := p.prob = .none

structure StoreOpts where
  waitSync : Nat
  devId : Nat

structure LoadOpts where
  devId : Nat

structure CcmdNode where
  cmd : CommandType
  pdVal : PdSpec
  pdVal2 : PdSpec
  store : StoreOpts
  load : LoadOpts
  fwd : FwdOpts
  resp : ReplyOpts
  nSkip : Int
  nEvery : Int

/-- A node as `calloc` and the defaults of `ccmd_add` leave it. -/
def CcmdNode.new (cmd : CommandType) (pdSpec : PdSpec) : CcmdNode where
  cmd := cmd
  pdVal := pdSpec
  pdVal2 := ⟨.none, some 0, some 0, some 0, some 0, [], 0⟩
  store := ⟨0, 0⟩
  load := ⟨0⟩
  fwd := ⟨0, List.replicate 6 0, 0, 0, 0, 0, 0, .udp⟩
  resp := ⟨0, .normal, 0⟩
  nSkip := 0
  nEvery := 0

/-- The part a command plays in the nesting of FORWARD contexts. -/
def typeKind : CommandType → Kind
  | .forwardBegin => .opens
  | .forwardContinue => .continues
  | .reply => .closes
  | _ => .simple

def nodeKind (node : CcmdNode) : Kind := typeKind node.cmd

/-- The capacity of the queue behind the chain. -/
def chainCapacity : Nat := 100

/-! ## Skipping on the template -/

/-- `nested_fwd` after passing a node of `ccmd_skip`; `none` is the NULL returned at
a REPLY that closes no scope. -/
def nestedAfter (node : CcmdNode) (rest : List CcmdNode) (nestedFwd : Nat) : Option Nat :=
  match node.cmd with
  | .forwardBegin => some (nestedFwd + 1)
  | .reply =>
    if nestedFwd > 0 then
      match rest with
      | [] => some nestedFwd
      | next :: _ => some (if next.cmd ≠ .forwardContinue then nestedFwd - 1 else nestedFwd)
    else none
  | _ => some nestedFwd

/-- The inner loop of `ccmd_skip`: leave the context that starts here. An empty
rest is the NULL at the end of the chain. -/
def skipNode : List CcmdNode → Nat → Option (List CcmdNode)
  | [], _ => some []
  | node :: rest, nestedFwd =>
    match nestedAfter node rest nestedFwd with
    | none => none
    | some nested => if rest ≠ [] ∧ nested > 0 then skipNode rest nested else some rest

/-- The NULL that `ccmd_skip` returns is the empty rest of the chain. -/
def ccmdSkip : List CcmdNode → Nat → List CcmdNode
  | chain, 0 => chain
  | [], _ + 1 => []
  | node :: rest, toSkip + 1 =>
    match skipNode (node :: rest) 0 with
    | none => []
    | some next => ccmdSkip next toSkip

/-! ## What a request keeps of the template -/

/-- The random outcomes of one `ccmd_dump`: the results of `drand48_r` and of
`pd_sample`, in call order, the latter as the integers that are stored. -/
structure Draws where
  uniform : Nat → ℚ
  sample : Nat → Nat

/-- Whether a PSKIP is taken for this request, on the `k`-th draw. The `int` of the
node becomes unsigned beside `req_id`. -/
def skipTaken (draws : Draws) (reqId k : Nat) (node : CcmdNode) : Bool :=
  decide (reqId % (node.nEvery % 2 ^ 32).toNat = 0) && node.pdVal.val.any fun prob => draws.uniform k ≤ prob

/-- The commands of the chain that `ccmd_dump` encodes: the iteration of its loop
without the message. -/
def emitted (draws : Draws) (reqId : Nat) : Nat → Nat → List CcmdNode → List CcmdNode
  | 0, _, _ => []
  | _ + 1, _, [] => []
  | fuel + 1, k, node :: rest =>
    if node.cmd = .pskip then
      if skipTaken draws reqId k node then
        emitted draws reqId fuel (k + 1) (ccmdSkip rest node.nSkip.toNat)
      else emitted draws reqId fuel (k + 1) rest
    else node :: emitted draws reqId fuel k rest

end Template
