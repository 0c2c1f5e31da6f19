import DistWalk.TemplateRoundTrip

/-!
# The space a request takes

`ccmd_dump` has two checks of its space. The counter `avail` starts from the whole
`req_size`, so it leaves out the header, and it is charged for PSKIPs, which take no
bytes. `cmd_bounded_next` is asked about the command behind the one just written,
whose type is whatever the buffer holds there. Together they are not the check
that the message fits.
-/

namespace DumpSpace

open ByteMemory Message Walkers Template TemplateSkip TemplateDump TemplateRoundTrip

/-- A node as the client makes them: it has a known type, and its address six bytes. -/
structure Sendable (node : CcmdNode) : Prop where
  encodable : Encodable node.cmd
  addr : node.fwd.fwdAddr.length = 6

/-- The nodes that the loop comes to if the space never ends. -/
def visited (draws : Draws) (reqId : Nat) : Nat → Nat → List CcmdNode → List CcmdNode
  | 0, _, _ => []
  | _ + 1, _, [] => []
  | fuel + 1, k, node :: rest =>
    if node.cmd = .pskip then
      node :: visited draws reqId fuel (k + 1) (afterSkip draws reqId k node rest)
    else node :: visited draws reqId fuel k rest

/-- What `avail` is charged for nodes. -/
def charge (nodes : List CcmdNode) : Nat := (nodes.map fun node => cmdTypeSize node.cmd).sum

/-- The nodes that become commands. -/
def commands (nodes : List CcmdNode) : List CcmdNode := nodes.filter fun node => node.cmd ≠ .pskip

/-- The loop of `ccmd_dump` past the nodes it comes to. -/
def dumpNodes (draws : Draws) (msgEnd : Nat) : DumpState → List CcmdNode → Mem × Bool
  | st, [] =>
    if st.avail < cmdTypeSize .eom then (st.mem, false)
    else (storeU32 st.mem st.cmd (typeCode .eom), true)
  | st, node :: rest =>
    let named := storeU32 st.mem st.cmd (typeCode node.cmd)
    if st.avail < cmdTypeSize node.cmd then (named, false)
    else
      let avail := st.avail - cmdTypeSize node.cmd
      if node.cmd = .pskip then
        dumpNodes draws msgEnd { st with mem := named, avail := avail, uniforms := st.uniforms + 1 } rest
      else
        let mem := encodeNode draws st node
        match cmdBoundedNext mem st.cmd msgEnd with
        | none => (mem, false)
        | some next =>
          dumpNodes draws msgEnd { st with mem := mem, cmd := next, avail := avail
                                           samples := st.samples + samples node.cmd } rest

section Nodes

variable {draws : Draws} {reqId msgEnd : Nat}

end Nodes

/-! ## When the return code is 1 -/

section Space

variable {draws : Draws} {msgEnd : Nat}

theorem cmdTypeSize_le (type : CommandType) : cmdTypeSize type ≤ 28 := by
  cases type <;> simp [cmdTypeSize, commandHeader]

@[simp] theorem charge_cons (node : CcmdNode) (rest : List CcmdNode) :
    charge (node :: rest) = cmdTypeSize node.cmd + charge rest := rfl

theorem commands_pskip {node : CcmdNode} (skip : node.cmd = .pskip) (rest : List CcmdNode) :
    commands (node :: rest) = commands rest := List.filter_cons_of_neg (by simp [skip])

theorem commands_command {node : CcmdNode} (command : node.cmd ≠ .pskip) (rest : List CcmdNode) :
    commands (node :: rest) = node :: commands rest := List.filter_cons_of_pos (by simp [command])

theorem encodeNode_above {st : DumpState} {node : CcmdNode} (sendable : Sendable node) {i : Nat}
    (hi : st.cmd + cmdTypeSize node.cmd ≤ i) : encodeNode draws st node i = st.mem i := by
  have size := length_optionBytes (draws.sample (st.samples + samples node.cmd - 1))
    (draws.sample st.samples) sendable.encodable fun _ => sendable.addr
  simp only [commandHeader] at size
  rw [encodeNode, store_outside _ _ _ (by simp only [commandHeader]; omega), storeU32,
    store_outside _ _ _ (by simp only [length_u32Bytes]; omega)]

/-- The state behind a PSKIP, and behind a command. -/
def pastSkip (st : DumpState) (node : CcmdNode) : DumpState :=
  { st with mem := storeU32 st.mem st.cmd (typeCode node.cmd), uniforms := st.uniforms + 1
            avail := st.avail - cmdTypeSize node.cmd }

def pastCommand (draws : Draws) (st : DumpState) (node : CcmdNode) : DumpState :=
  { st with mem := encodeNode draws st node, cmd := st.cmd + cmdTypeSize node.cmd
            avail := st.avail - cmdTypeSize node.cmd, samples := st.samples + samples node.cmd }

theorem dumpNodes_pskip {st : DumpState} {node : CcmdNode} {rest : List CcmdNode}
    (skip : node.cmd = .pskip) : dumpNodes draws msgEnd st (node :: rest) =
      if st.avail < cmdTypeSize node.cmd then (storeU32 st.mem st.cmd (typeCode node.cmd), false)
      else dumpNodes draws msgEnd (pastSkip st node) rest := by
  simp only [dumpNodes, if_pos skip]
  rfl

/-- The bytes that `cmd_bounded_next` reads behind a command are those from before. -/
theorem dumpNodes_command {st : DumpState} {node : CcmdNode} {rest : List CcmdNode}
    (sendable : Sendable node) (command : node.cmd ≠ .pskip) :
    dumpNodes draws msgEnd st (node :: rest) =
      if st.avail < cmdTypeSize node.cmd then (storeU32 st.mem st.cmd (typeCode node.cmd), false)
      else if cmdInBounds st.mem (st.cmd + cmdTypeSize node.cmd) msgEnd then
        dumpNodes draws msgEnd (pastCommand draws st node) rest
      else (encodeNode draws st node, false) := by
  have type := cmdAt_typeCode sendable.encodable.2 (encodeNode_word draws st node sendable.encodable.2)
  have behind : Agree (st.cmd + cmdTypeSize node.cmd) (encodeNode draws st node) st.mem :=
    fun i le => encodeNode_above sendable le
  simp only [dumpNodes, if_neg command, cmdBoundedNext, type, behind.cmdInBounds le_rfl]
  by_cases inside : cmdInBounds st.mem (st.cmd + cmdTypeSize node.cmd) msgEnd = true
  · simp only [inside, if_true]
    rfl
  · simp only [inside, Bool.false_eq_true, if_false]

/-- Behind every command what `mem` holds there would lie inside the message. -/
def Clear (mem : Mem) (msgEnd : Nat) : Nat → List CcmdNode → Prop
  | _, [] => True
  | cmd, node :: rest =>
    if node.cmd = .pskip then Clear mem msgEnd cmd rest
    else cmdInBounds mem (cmd + cmdTypeSize node.cmd) msgEnd = true ∧
      Clear mem msgEnd (cmd + cmdTypeSize node.cmd) rest

theorem Clear.agree {lo cmd : Nat} {mem mem' : Mem} {nodes : List CcmdNode}
    (same : Agree lo mem mem') (le : lo ≤ cmd + 4) (h : Clear mem msgEnd cmd nodes) :
    Clear mem' msgEnd cmd nodes := by
  induction nodes generalizing cmd with
  | nil => trivial
  | cons node rest ih =>
    have four := four_le_cmdTypeSize node.cmd
    by_cases skip : node.cmd = .pskip
    · simp only [Clear, if_pos skip] at h ⊢
      exact ih le h
    · simp only [Clear, if_neg skip] at h ⊢
      exact ⟨by rw [← same.cmdInBounds (by omega)]; exact h.1, ih (by omega) h.2⟩

theorem clear_iff {lo cmd : Nat} {mem mem' : Mem} {nodes : List CcmdNode}
    (same : Agree lo mem mem') (le : lo ≤ cmd + 4) :
    Clear mem msgEnd cmd nodes ↔ Clear mem' msgEnd cmd nodes :=
  ⟨fun h => h.agree same le, fun h => h.agree (fun i le => (same i le).symm) le⟩

/-- The return code is 1 if the counter lasts and every next command would lie inside. -/
theorem dumpNodes_ok_iff {st : DumpState} {nodes : List CcmdNode}
    (sendable : ∀ node ∈ nodes, Sendable node) :
    (dumpNodes draws msgEnd st nodes).2 = true ↔
      charge nodes + 4 ≤ st.avail ∧ Clear st.mem msgEnd st.cmd nodes := by
  induction nodes generalizing st with
  | nil =>
    have charge : charge [] = 0 := rfl
    have size : cmdTypeSize .eom = 4 := rfl
    simp only [dumpNodes, Clear, and_true, charge]
    split
    · simp only [Bool.false_eq_true, false_iff]
      omega
    · simp only [true_iff]
      omega
  | cons node rest ih =>
    have here := sendable node List.mem_cons_self
    have others := fun x hx => sendable x (List.mem_cons_of_mem node hx)
    rw [charge_cons]
    by_cases skip : node.cmd = .pskip
    · rw [dumpNodes_pskip skip]
      split
      · simp only [Bool.false_eq_true, false_iff]
        omega
      · have behind : Agree (st.cmd + 4) (pastSkip st node).mem st.mem :=
          fun i le => store_outside _ _ _ (by simp only [length_u32Bytes]; omega)
        have clear : Clear (pastSkip st node).mem msgEnd st.cmd rest ↔
            Clear st.mem msgEnd st.cmd (node :: rest) := by
          rw [Clear, if_pos skip]
          exact clear_iff behind le_rfl
        rw [ih others, ← clear]
        refine and_congr_left fun _ => ?_
        simp only [pastSkip]
        omega
    · rw [dumpNodes_command here skip]
      split
      · simp only [Bool.false_eq_true, false_iff]
        omega
      · have behind : Agree (st.cmd + cmdTypeSize node.cmd) (pastCommand draws st node).mem st.mem :=
          fun i le => encodeNode_above here le
        rw [Clear, if_neg skip]
        by_cases inside : cmdInBounds st.mem (st.cmd + cmdTypeSize node.cmd) msgEnd = true
        · rw [if_pos inside, ih others]
          have clear : Clear (pastCommand draws st node).mem msgEnd (st.cmd + cmdTypeSize node.cmd) rest ↔
              Clear st.mem msgEnd (st.cmd + cmdTypeSize node.cmd) rest :=
            clear_iff behind (Nat.le_add_right _ 4)
          simp only [pastCommand] at clear ⊢
          rw [clear, and_iff_right inside]
          refine and_congr_left fun _ => ?_
          omega
        · simp only [inside, Bool.false_eq_true, if_false, false_and, and_false]

/-- The last of the next commands is the one behind the whole message. -/
theorem Clear.last {mem : Mem} {cmd : Nat} {nodes : List CcmdNode} (h : Clear mem msgEnd cmd nodes)
    (some : commands nodes ≠ []) : cmdInBounds mem (cmd + charge (commands nodes)) msgEnd = true := by
  induction nodes generalizing cmd with
  | nil => exact absurd rfl some
  | cons node rest ih =>
    by_cases skip : node.cmd = .pskip
    · rw [Clear, if_pos skip] at h
      rw [commands_pskip skip] at some ⊢
      exact ih h some
    · rw [Clear, if_neg skip] at h
      rw [commands_command skip, charge_cons, ← Nat.add_assoc]
      by_cases more : commands rest = []
      · rw [more]
        exact h.1
      · exact ih h.2 more

/-- With room for the longest command behind the message nothing depends on `mem`. -/
theorem clear_of_room {mem : Mem} {cmd : Nat} {nodes : List CcmdNode}
    (room : commands nodes = [] ∨ cmd + charge (commands nodes) + 28 ≤ msgEnd) :
    Clear mem msgEnd cmd nodes := by
  induction nodes generalizing cmd with
  | nil => trivial
  | cons node rest ih =>
    by_cases skip : node.cmd = .pskip
    · rw [commands_pskip skip] at room
      rw [Clear, if_pos skip]
      exact ih room
    · rw [commands_command skip] at room
      have room := room.resolve_left (by simp)
      rw [charge_cons] at room
      have longest := cmdTypeSize_le (cmdAt mem (cmd + cmdTypeSize node.cmd))
      rw [Clear, if_neg skip]
      exact ⟨cmdInBounds_iff.mpr (by omega), ih (Or.inr (by omega))⟩

/-! ## What is written -/

/-- Offsets count from the start of the message, which has `size` bytes. The loop comes to
a command that the counter allows and that does not fit: before it the space left
behind each command was that of EOM at least. -/
def Oversteps (size : Nat) : Nat → Nat → List CcmdNode → Prop
  | _, _, [] => False
  | offset, avail, node :: rest =>
    cmdTypeSize node.cmd ≤ avail ∧
      if node.cmd = .pskip then Oversteps size offset (avail - cmdTypeSize node.cmd) rest
      else size < offset + cmdTypeSize node.cmd ∨
        (offset + cmdTypeSize node.cmd + 4 ≤ size ∧
          Oversteps size (offset + cmdTypeSize node.cmd) (avail - cmdTypeSize node.cmd) rest)

theorem typeWord_outside {mem : Mem} {cmd i : Nat} {type : CommandType}
    (outside : i < cmd ∨ cmd + 4 ≤ i) : storeU32 mem cmd (typeCode type) i = mem i :=
  store_outside _ _ _ (by simpa only [length_u32Bytes] using outside)

/-- If no command oversteps the message nothing is written behind it. -/
theorem dumpNodes_kept {st : DumpState} {nodes : List CcmdNode} {m size offset i : Nat}
    (sendable : ∀ node ∈ nodes, Sendable node) (place : st.cmd = m + offset) (limit : msgEnd = m + size)
    (room : offset + 4 ≤ size) (stays : ¬ Oversteps size offset st.avail nodes) (hi : msgEnd ≤ i) :
    (dumpNodes draws msgEnd st nodes).1 i = st.mem i := by
  induction nodes generalizing st offset with
  | nil =>
    simp only [dumpNodes]
    split
    · rfl
    · exact typeWord_outside (by omega)
  | cons node rest ih =>
    have here := sendable node List.mem_cons_self
    have others := fun x hx => sendable x (List.mem_cons_of_mem node hx)
    have named : storeU32 st.mem st.cmd (typeCode node.cmd) i = st.mem i := typeWord_outside (by omega)
    by_cases skip : node.cmd = .pskip
    · rw [dumpNodes_pskip skip]
      split
      · exact named
      · rename_i allowed
        rw [← named]
        refine ih others place room fun past => stays ?_
        rw [Oversteps, if_pos skip]
        exact ⟨not_lt.mp allowed, past⟩
    · rw [dumpNodes_command here skip]
      split
      · exact named
      · rename_i allowed
        rw [Oversteps, if_neg skip] at stays
        have within : offset + cmdTypeSize node.cmd ≤ size := by
          by_contra beyond
          exact stays ⟨not_lt.mp allowed, Or.inl (not_le.mp beyond)⟩
        have written : encodeNode draws st node i = st.mem i := encodeNode_above here (by omega)
        split
        · rename_i inside
          have fits := cmdInBounds_iff.mp inside
          have four := four_le_cmdTypeSize (cmdAt st.mem (st.cmd + cmdTypeSize node.cmd))
          have behind : offset + cmdTypeSize node.cmd + 4 ≤ size := by omega
          rw [← written]
          exact @ih (pastCommand draws st node) _ others (by simp only [pastCommand]; omega) behind
            fun past => stays ⟨not_lt.mp allowed, Or.inr ⟨behind, past⟩⟩
        · exact written

/-- `mem` is filled with one byte, which is no type of a command, from `lo` on. -/
structure Fill (lo : Nat) (b : UInt8) (mem : Mem) : Prop where
  byte : b = 1 ∨ b = 2
  same : ∀ i, lo ≤ i → mem i = b

theorem Fill.cmdTypeSize {lo cmd : Nat} {b : UInt8} {mem : Mem} (h : Fill lo b mem) (le : lo ≤ cmd) :
    cmdTypeSize (cmdAt mem cmd) = 4 := by
  have bytes : cmdAt mem cmd = cmdAt (fun _ => b) cmd :=
    congrArg CommandType.ofCode (u32_congr fun i _ => h.same _ (by omega))
  rw [bytes]
  rcases h.byte with rfl | rfl <;> rfl

end Space

/-! ## Exactly when the space is respected -/

/-- The bytes of the request with the header and EOM. -/
def requestSize (nodes : List CcmdNode) : Nat :=
  messageHeader + charge (commands nodes) + cmdTypeSize .eom

/-- For every content of the buffer the return code tells whether the request fits, and
nothing is written behind the message. -/
def Exact (draws : Draws) (chain : List CcmdNode) (m reqId size : Nat) : Prop :=
  ∀ mem, reqIdOf mem m = reqId → reqSizeOf mem m = size →
    ∃ mem' ok, ccmdDump draws chain mem m = .ok (mem', ok) ∧
      (ok = true ↔ messageHeader + charge (emitted draws reqId (chain.length + 1) 0 chain) +
        cmdTypeSize .eom ≤ size) ∧
      ∀ i, m + size ≤ i → mem' i = mem i

/-- There is room for one type behind the header; no command that does not fit is reached;
and if the request fits, the counter lasts for its PSKIPs and there is room for the
longest command behind the last one. -/
structure Spacious (nodes : List CcmdNode) (size : Nat) : Prop where
  first : messageHeader + commandHeader ≤ size
  stays : ¬ Oversteps size messageHeader size nodes
  lasts : requestSize nodes ≤ size → charge nodes + cmdTypeSize .eom ≤ size
  stale : requestSize nodes ≤ size →
    commands nodes = [] ∨ messageHeader + charge (commands nodes) + 28 ≤ size

/-- A buffer of one byte, with the two words that are set before. -/
def filled (b : UInt8) (m reqId size : Nat) : Mem := setReqSize (setReqId (fun _ => b) m reqId) m size

section Exact

variable {draws : Draws} {chain nodes : List CcmdNode} {m reqId size : Nat}

/-- The loop over the nodes it comes to, from the start of the message. -/
def dumpAll (draws : Draws) (m size : Nat) (nodes : List CcmdNode) (mem : Mem) : Mem × Bool :=
  dumpNodes draws (m + size) ⟨mem, messageFirstCmd m, size, 0, 0⟩ nodes

theorem dumpAll_ok_iff {mem : Mem} (sendable : ∀ node ∈ nodes, Sendable node) :
    (dumpAll draws m size nodes mem).2 = true ↔
      charge nodes + 4 ≤ size ∧ Clear mem (m + size) (messageFirstCmd m) nodes :=
  dumpNodes_ok_iff sendable

/-- With enough room for the first type a code of 1 means that the request fits. -/
theorem fits_of_ok {mem : Mem} (sendable : ∀ node ∈ nodes, Sendable node)
    (first : messageHeader + commandHeader ≤ size)
    (ok : (dumpAll draws m size nodes mem).2 = true) : requestSize nodes ≤ size := by
  obtain ⟨-, clear⟩ := (dumpAll_ok_iff sendable).mp ok
  simp only [messageHeader, commandHeader] at first
  simp only [requestSize, messageHeader, cmdTypeSize, commandHeader]
  by_cases none : commands nodes = []
  · have zero : charge (commands nodes) = 0 := by
      rw [none]
      rfl
    omega
  · have inside := cmdInBounds_iff.mp (clear.last none)
    have four := four_le_cmdTypeSize (cmdAt mem (messageFirstCmd m + charge (commands nodes)))
    simp only [messageFirstCmd, messageHeader] at inside four
    omega

theorem Spacious.dumped (h : Spacious nodes size) (sendable : ∀ node ∈ nodes, Sendable node)
    (draws : Draws) (m : Nat) (mem : Mem) : ((dumpAll draws m size nodes mem).2 = true ↔ requestSize nodes ≤ size) ∧
      ∀ i, m + size ≤ i → (dumpAll draws m size nodes mem).1 i = mem i := by
  refine ⟨⟨fits_of_ok sendable h.first, fun fits => ?_⟩, fun i hi => ?_⟩
  · refine (dumpAll_ok_iff sendable).mpr ⟨h.lasts fits, clear_of_room ?_⟩
    refine (h.stale fits).imp_right fun room => ?_
    simp only [messageFirstCmd]
    omega
  · exact dumpNodes_kept sendable rfl rfl h.first h.stays hi

end Exact

/-! ## One REPLY -/

end DumpSpace
