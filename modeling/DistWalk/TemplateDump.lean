import DistWalk.BalancedTemplate
import DistWalk.TemplateRoom
import DistWalk.TemplateSkip
import DistWalk.Decoding
import DistWalk.Wire

/-!
# Composing a request from the template

`ccmd_dump` writes the commands of the chain into a message, sampling their
values, and ends with EOM. What the receiver decodes from a message that was
composed in full is what the skips keep of the chain.
-/

namespace TemplateDump

open ByteMemory Message Wire Walkers ContextGrammar Template ClientOptions BalancedTemplate
  TemplateSkip Decoding
open FullChain (Builder parseOptions_room)

def typeCode : CommandType → Nat
  | .compute => 0
  | .store => 1
  | .load => 2
  | .pskip => 3
  | .forwardBegin => 4
  | .forwardContinue => 5
  | .reply => 6
  | .eom => 7
  | .unknown n => n

def modeCode : ReplyMode → Nat
  | .normal => 0
  | .sendfile => 1
  | .other n => n

/-- The options of a command with its sampled values: those of `pd_val` and, for
STORE and LOAD, of `pd_val2`. Nodes are zeroed, so the padding is zero. -/
def optionBytes (node : CcmdNode) (val val2 : Nat) : List UInt8 :=
  match node.cmd with
  | .store =>
    u64Bytes val2 ++ u64Bytes val ++ [UInt8.ofNat node.store.waitSync, UInt8.ofNat node.store.devId] ++
      List.replicate 6 0
  | .load => u64Bytes val2 ++ u64Bytes val ++ [UInt8.ofNat node.load.devId] ++ List.replicate 7 0
  | .compute => u32Bytes val
  | .reply =>
    u32Bytes val ++ u32Bytes (modeCode node.resp.mode) ++ [UInt8.ofNat node.resp.devId, 0, 0, 0]
  | .forwardBegin | .forwardContinue =>
    u32Bytes val ++ node.fwd.fwdAddr ++ [0, 0] ++ u32Bytes node.fwd.timeout ++
      [UInt8.ofNat node.fwd.retries, UInt8.ofNat node.fwd.nAck, UInt8.ofNat node.fwd.onFailSkip,
        UInt8.ofNat node.fwd.branched] ++ u32Bytes (protoCode node.fwd.proto)
  | _ => []

/-- How many values are sampled for a command; `pd_val2` comes first. -/
def samples : CommandType → Nat
  | .store => 2
  | .load => 2
  | _ => 1

/-- The variables of the loop of `ccmd_dump`: the buffer, `m_cmd_itr`, `avail` and the
number of draws so far. -/
structure DumpState where
  mem : Mem
  cmd : Nat
  avail : Nat
  uniforms : Nat
  samples : Nat

/-- The command of a node at `m_cmd_itr`. -/
def encodeNode (draws : Draws) (st : DumpState) (node : CcmdNode) : Mem :=
  let mem := storeU32 st.mem st.cmd (typeCode node.cmd)
  store mem (st.cmd + commandHeader)
    (optionBytes node (draws.sample (st.samples + samples node.cmd - 1)) (draws.sample st.samples))

/-- The loop of `ccmd_dump`: the buffer and the return code. -/
def dumpFrom (draws : Draws) (reqId msgEnd : Nat) :
    Nat → DumpState → List CcmdNode → Except Abort (Mem × Bool)
  | 0, st, _ => .ok (st.mem, false)
  | _ + 1, st, [] =>
    if st.avail < cmdTypeSize .eom then .ok (st.mem, false)
    else .ok (storeU32 st.mem st.cmd (typeCode .eom), true)
  | fuel + 1, st, node :: rest =>
    let named := storeU32 st.mem st.cmd (typeCode node.cmd)
    if st.avail < cmdTypeSize node.cmd then .ok (named, false)
    else
      let avail := st.avail - cmdTypeSize node.cmd
      match node.cmd with
      | .eom => .error .exitFailure
      | .unknown _ => .error .exitFailure
      | .pskip =>
        dumpFrom draws reqId msgEnd fuel
          { st with mem := named, avail := avail, uniforms := st.uniforms + 1 }
          (if skipTaken draws reqId st.uniforms node then ccmdSkip rest node.nSkip.toNat else rest)
      | _ =>
        let mem := encodeNode draws st node
        match cmdBoundedNext mem st.cmd msgEnd with
        | none => .ok (mem, false)
        | some next =>
          dumpFrom draws reqId msgEnd fuel
            { st with mem := mem, cmd := next, avail := avail
                      samples := st.samples + samples node.cmd } rest

/-- `req_id` and `req_size` of the message are set before. -/
def ccmdDump (draws : Draws) (chain : List CcmdNode) (mem : Mem) (m : Nat) : Except Abort (Mem × Bool) :=
  dumpFrom draws (reqIdOf mem m) (messageEnd mem m) (chain.length + 1)
    ⟨mem, messageFirstCmd m, reqSizeOf mem m, 0, 0⟩ chain

/-! ## What the receiver decodes -/

/-- The types that a template holds. -/
def Encodable (type : CommandType) : Prop := type ≠ .eom ∧ ∀ n, type ≠ .unknown n

theorem cmdAt_typeCode {type : CommandType} (known : ∀ n, type ≠ .unknown n) {mem : Mem} {cmd : Nat}
    (word : u32 mem cmd = typeCode type) : cmdAt mem cmd = type := by
  rw [cmdAt, word]
  cases type with
  | unknown n => exact absurd rfl (known n)
  | _ => rfl

theorem typeCode_lt {type : CommandType} (known : ∀ n, type ≠ .unknown n) : typeCode type < 2 ^ 32 := by
  cases type with
  | unknown n => exact absurd rfl (known n)
  | _ => decide

/-- Below `m_cmd_itr` nothing is written any more. -/
theorem encodeNode_below (draws : Draws) (st : DumpState) (node : CcmdNode) {i : Nat} (hi : i < st.cmd) :
    encodeNode draws st node i = st.mem i := by
  rw [encodeNode, store_outside _ _ _ (by omega), storeU32, store_outside _ _ _ (by omega)]

theorem encodeNode_word (draws : Draws) (st : DumpState) (node : CcmdNode)
    (known : ∀ n, node.cmd ≠ .unknown n) :
    u32 (encodeNode draws st node) st.cmd = typeCode node.cmd := by
  rw [encodeNode, u32_store_disjoint _ _ _ _ (by simp only [commandHeader]; omega),
    u32_storeU32 _ _ (typeCode_lt known)]

/-- The message that `mem` holds from `cmd` on, once composed in full: everything
below is as it was, and the commands walked up to EOM are `kept`. -/
structure Composed (st : DumpState) (msgEnd fuel : Nat) (mem : Mem) (kept : List CcmdNode) : Prop where
  below : ∀ i, i < st.cmd → mem i = st.mem i
  empty : kept = [] ↔ cmdAt mem st.cmd = .eom
  walked : kept ≠ [] ∨ st.cmd + 4 ≤ msgEnd → ∃ cmds, walk mem msgEnd fuel st.cmd = some cmds ∧
    cmds.map (cmdAt mem) = kept.map (·.cmd)

/-- A command written at `m_cmd_itr`, with the rest composed behind it. -/
theorem Composed.cons {draws : Draws} {st st' : DumpState} {msgEnd fuel next : Nat} {mem : Mem}
    {node : CcmdNode} {kept : List CcmdNode} (encodable : Encodable node.cmd)
    (bounded : cmdBoundedNext (encodeNode draws st node) st.cmd msgEnd = some next)
    (moved : st'.mem = encodeNode draws st node ∧ st'.cmd = next)
    (h : Composed st' msgEnd fuel mem kept) : Composed st msgEnd (fuel + 1) mem (node :: kept) := by
  obtain ⟨e, inside⟩ := cmdBoundedNext_eq_some bounded
  have written := cmdAt_typeCode encodable.2 (encodeNode_word draws st node encodable.2)
  rw [written] at e
  have size := four_le_cmdTypeSize node.cmd
  have fits : next + 4 ≤ msgEnd := by
    have := cmdInBounds_iff.mp inside
    have := four_le_cmdTypeSize (cmdAt (encodeNode draws st node) next)
    omega
  have same : ∀ i, i < next → mem i = encodeNode draws st node i := by
    intro i hi
    have := h.below i (by rw [moved.2]; exact hi)
    rwa [moved.1] at this
  have type : cmdAt mem st.cmd = node.cmd := by
    rw [← written]
    have : u32 mem st.cmd = u32 (encodeNode draws st node) st.cmd :=
      u32_congr fun i hi => same _ (by omega)
    rw [cmdAt, this, cmdAt]
  refine ⟨?_, by simp [type, encodable.1], fun _ => ?_⟩
  · intro i hi
    rw [same i (by omega), encodeNode_below draws st node hi]
  · obtain ⟨cmds, walked, types⟩ := h.walked (Or.inr (by rw [moved.2]; exact fits))
    refine ⟨st.cmd :: cmds, ?_, by simp [type, types]⟩
    apply walk_cons
    · rw [cmdInBounds_iff, type]
      omega
    · rw [type]
      exact encodable.1
    · rw [type, ← e, ← moved.2]
      exact walked

/-- The chain after a PSKIP. -/
def afterSkip (draws : Draws) (reqId uniforms : Nat) (node : CcmdNode) (rest : List CcmdNode) :
    List CcmdNode :=
  if skipTaken draws reqId uniforms node then ccmdSkip rest node.nSkip.toNat else rest

/-- One iteration of the loop, when the message gets composed in full: a PSKIP leaves its
type word to be overwritten, any other node becomes a command. -/
theorem dumpFrom_cons {draws : Draws} {reqId msgEnd fuel : Nat} {st : DumpState} {node : CcmdNode}
    {rest : List CcmdNode} {mem : Mem}
    (h : dumpFrom draws reqId msgEnd (fuel + 1) st (node :: rest) = .ok (mem, true)) :
    (node.cmd = .pskip ∧
      emitted draws reqId (fuel + 1) st.uniforms (node :: rest) =
        emitted draws reqId fuel (st.uniforms + 1) (afterSkip draws reqId st.uniforms node rest) ∧
      ∃ st', dumpFrom draws reqId msgEnd fuel st' (afterSkip draws reqId st.uniforms node rest) =
          .ok (mem, true) ∧
        st'.mem = storeU32 st.mem st.cmd (typeCode .pskip) ∧ st'.cmd = st.cmd ∧
        st'.uniforms = st.uniforms + 1 ∧ st'.samples = st.samples) ∨
    (Encodable node.cmd ∧
      emitted draws reqId (fuel + 1) st.uniforms (node :: rest) =
        node :: emitted draws reqId fuel st.uniforms rest ∧
      ∃ st', dumpFrom draws reqId msgEnd fuel st' rest = .ok (mem, true) ∧
        cmdBoundedNext (encodeNode draws st node) st.cmd msgEnd = some st'.cmd ∧
        st'.mem = encodeNode draws st node ∧ st'.uniforms = st.uniforms ∧
        st'.samples = st.samples + samples node.cmd) := by
  by_cases skip : node.cmd = .pskip
  · simp only [dumpFrom, skip] at h
    split at h
    · cases h
    · refine Or.inl ⟨skip, ?_, _, h, rfl, rfl, rfl, rfl⟩
      simp only [emitted, skip, if_true, afterSkip]
      split <;> rfl
  · have kept : emitted draws reqId (fuel + 1) st.uniforms (node :: rest) =
        node :: emitted draws reqId fuel st.uniforms rest := by simp [emitted, skip]
    simp only [dumpFrom] at h
    split at h
    · cases h
    · split at h
      · cases h
      · cases h
      · contradiction
      · rename_i notEom notUnknown notSkip
        split at h
        · cases h
        · rename_i next bounded
          exact Or.inr ⟨⟨notEom, notUnknown⟩, kept, _, h, bounded, rfl, rfl, rfl⟩

theorem dumpFrom_composed {draws : Draws} {reqId msgEnd fuel : Nat} {st : DumpState}
    {chain : List CcmdNode} {mem : Mem}
    (h : dumpFrom draws reqId msgEnd fuel st chain = .ok (mem, true)) :
    Composed st msgEnd fuel mem (emitted draws reqId fuel st.uniforms chain) := by
  induction fuel generalizing st chain with
  | zero => cases h
  | succ fuel ih =>
    cases chain with
    | nil =>
      simp only [dumpFrom] at h
      split at h
      · cases h
      · cases h
        have eom : cmdAt (storeU32 st.mem st.cmd (typeCode .eom)) st.cmd = .eom :=
          cmdAt_typeCode (by simp) (u32_storeU32 _ _ (typeCode_lt (by simp)))
        refine ⟨?_, by simp [emitted, eom], ?_⟩
        · intro i hi
          exact store_outside _ _ _ (by omega)
        · intro room
          have inside := room.resolve_left (by simp [emitted])
          exact ⟨[], walk_eom inside eom, by simp [emitted]⟩
    | cons node rest =>
      rcases dumpFrom_cons h with ⟨-, same, st', dumped, bytes, place, draw, -⟩ |
        ⟨encodable, same, st', dumped, bounded, bytes, draw, -⟩
      · have kept := ih dumped
        rw [draw] at kept
        rw [same]
        refine ⟨?_, place ▸ kept.empty, ?_⟩
        · intro i hi
          rw [kept.below i (by omega), bytes]
          exact store_outside _ _ _ (by omega)
        · intro room
          obtain ⟨cmds, walked, types⟩ := kept.walked (place ▸ room)
          exact ⟨cmds, walk_more (place ▸ walked) (Nat.le_succ fuel), types⟩
      · have kept := ih dumped
        rw [draw] at kept
        rw [same]
        exact kept.cons encodable bounded ⟨bytes, rfl⟩

theorem messageEnd_dumped {draws : Draws} {chain : List CcmdNode} {mem mem' : Mem} {m : Nat}
    (dumped : ccmdDump draws chain mem m = .ok (mem', true)) : messageEnd mem' m = messageEnd mem m := by
  have composed := dumpFrom_composed dumped
  have size : reqSizeOf mem' m = reqSizeOf mem m :=
    u32_congr fun i hi => composed.below _ (by simp only [messageFirstCmd, messageHeader]; omega)
  rw [messageEnd, messageEnd, size]

/-! ## Skipping never removes the reply -/

/-- The message at `m` is not empty, closes every context it opens, and ends with a
REPLY outside any context. -/
def Answerable (mem : Mem) (m : Nat) : Prop :=
  cmdAt mem (messageFirstCmd m) ≠ .eom ∧
    ∃ cmds, decode mem m = some cmds ∧ Chain typeKind (cmds.map (cmdAt mem))

/-- Of a balanced template the message keeps the reply exactly when its skips stay. -/
theorem answerable_iff {draws : Draws} {chain : List CcmdNode} {mem mem' : Mem} {m : Nat}
    (template : Chain nodeKind chain) (dumped : ccmdDump draws chain mem m = .ok (mem', true)) :
    Answerable mem' m ↔ SkipsStay draws (reqIdOf mem m) (chain.length + 1) 0 start chain := by
  have composed := dumpFrom_composed dumped
  have header := messageEnd_dumped dumped
  have kept : scan nodeKind start (emitted draws (reqIdOf mem m) (chain.length + 1) 0 chain) =
      some accepted ↔ SkipsStay draws (reqIdOf mem m) (chain.length + 1) 0 start chain :=
    emitted_balanced_iff ⟨chain_iff_scan.mp template, rfl, Or.inl rfl⟩
      (Nat.lt_succ_self chain.length)
  rw [← kept, ← chain_iff_scan]
  -- the commands walked have the types of the commands kept
  have same {cmds : List Nat} {l : List CcmdNode} (types : cmds.map (cmdAt mem') = l.map (·.cmd)) :
      Chain typeKind (cmds.map (cmdAt mem')) ↔ Chain nodeKind l := by
    rw [types, chain_map]
    rfl
  constructor
  · rintro ⟨first, cmds, decoded, chain⟩
    obtain ⟨cmds', walked, types⟩ := composed.walked (Or.inl (mt composed.empty.mp first))
    have enough : walk mem' (messageEnd mem m) (messageEnd mem m + 1) (messageFirstCmd m) =
        some cmds' := walk_enough walked (by omega)
    rw [decode, header, enough, Option.some.injEq] at decoded
    subst decoded
    exact (same types).mp chain
  · intro chain
    have nonempty := ne_nil_of_scan (by simp) (chain_iff_scan.mp chain)
    obtain ⟨cmds, walked, types⟩ := composed.walked (Or.inl nonempty)
    refine ⟨mt composed.empty.mpr nonempty, cmds, ?_, (same types).mpr chain⟩
    rw [decode, header]
    exact walk_enough walked (by omega)

/-- The template is what the parser has linked; one that its queue holds is balanced
when every forward has its place. -/
theorem skipping_keeps_reply_iff {opts : List Opt} {s : Builder} {draws : Draws} {mem mem' : Mem}
    {m : Nat} (each : EachForward ForwardFits .init opts) (parsed : FullChain.parseOptions opts = .ok s)
    (room : s.linked.length ≤ chainCapacity)
    (dumped : ccmdDump draws s.linked mem m = .ok (mem', true)) :
    Answerable mem' m ↔
      SkipsStay draws (reqIdOf mem m) (s.linked.length + 1) 0 start s.linked := by
  have template : Chain nodeKind s.linked := by
    obtain ⟨whole, nothing⟩ := parseOptions_room parsed room
    have same : s.linked = s.chain := by rw [Builder.linked, nothing, Option.toList_none, List.append_nil]
    rw [same]
    rcases parseFrom_balanced balanced_init each with full | ⟨s', done, chain⟩
    · cases whole.symm.trans full
    · cases whole.symm.trans done
      exact chain
  exact answerable_iff template dumped

/-- An empty message of 1024 bytes, and draws that take every skip. -/
def blank : Mem := storeU32 (fun _ => 0) 4 1024
def alwaysSkip : Draws := ⟨fun _ => 0, fun _ => 16⟩

/-- A skip of the one command before the REPLY leaves the REPLY. -/
theorem skipping_keeps_reply_one_command : ∃ s mem',
    FullChain.parseOptions [.skip 1 1 1, .compTime (pdBuildFixed 10)] = .ok s ∧
      ccmdDump alwaysSkip s.linked blank 0 = .ok (mem', true) ∧ Answerable mem' 0 ∧
      SkipsStay alwaysSkip (reqIdOf blank 0) (s.linked.length + 1) 0 start s.linked := by
  have composed : ∃ s mem' cmds,
      FullChain.parseOptions [.skip 1 1 1, .compTime (pdBuildFixed 10)] = .ok s ∧
      s.linked.length = 3 ∧ ccmdDump alwaysSkip s.linked blank 0 = .ok (mem', true) ∧
      cmdAt mem' (messageFirstCmd 0) = .reply ∧ decode mem' 0 = some cmds ∧
      cmds.map (cmdAt mem') = [.reply] := ⟨_, _, _, rfl, rfl, rfl, rfl, rfl, rfl⟩
  obtain ⟨s, mem', cmds, parsed, length, dumped, first, decoded, types⟩ := composed
  have room : s.linked.length ≤ chainCapacity := by rw [length]; decide
  have answerable : Answerable mem' 0 := by
    refine ⟨by simp [first], cmds, decoded, ?_⟩
    rw [types]
    decide
  have each : EachForward ForwardFits .init [.skip 1 1 1, .compTime (pdBuildFixed 10)] := by
    simp [EachForward]
  exact ⟨s, mem', parsed, dumped, answerable,
    (skipping_keeps_reply_iff each parsed room dumped).mp answerable⟩

/-- A skip of more commands than the scope has left takes the REPLY with them. -/
theorem skip_drops_reply : ∃ s mem',
    FullChain.parseOptions [.skip 2 1 1, .compTime (pdBuildFixed 10)] = .ok s ∧
      ccmdDump alwaysSkip s.linked blank 0 = .ok (mem', true) ∧
      cmdAt mem' (messageFirstCmd 0) = .eom ∧ ¬ Answerable mem' 0 := by
  have first : ∃ s mem', FullChain.parseOptions [.skip 2 1 1, .compTime (pdBuildFixed 10)] = .ok s ∧
      ccmdDump alwaysSkip s.linked blank 0 = .ok (mem', true) ∧
      cmdAt mem' (messageFirstCmd 0) = .eom := ⟨_, _, rfl, rfl, rfl⟩
  obtain ⟨s, mem', parsed, dumped, eom⟩ := first
  exact ⟨s, mem', parsed, dumped, eom, fun answerable => answerable.1 eom⟩

end TemplateDump
