import DistWalk.Template

/-!
# Building the template from the client's options

The cases of `argp_client_parse_opt` that add commands to the template, and its
end. An option is given with its argument already split into tokens and the
values of its specifications; the checks on the syntax of an argument have passed.
Pointers to nodes are positions in the chain.
-/

namespace ClientOptions

open Message ContextGrammar Template

/-- One token of the argument of `--forward`. -/
inductive FwdToken
  | retry (n : Int)
  | timeout (us : ℚ)
  | nack (n : Int)
  | branch
  | dest (proto : Proto) (addr : Addr)

/-- The options that shape the template. -/
inductive Opt
  | compTime (val : PdSpec)
  | storeData (val off : PdSpec) (sync : Bool) (devId : Nat)
  | loadData (val off : PdSpec) (devId : Nat)
  | skip (nSkip nEvery : ℕ+) (prob : ℚ)
  | forward (tokens : List FwdToken)
  | reply (val : PdSpec) (mode : ReplyMode) (devId : Nat)

/-- What ends the parsing: a NULL pointer that is read and a failed `check()`.
`full` marks a chain, or its replies in waiting, that outgrow their queue; what
the parser does from there on is in `FullChain`. -/
inductive ParseAbort
  | segfault
  | check
  | full
  deriving DecidableEq, Repr

/-- The chain and the parsing state of `struct argp_client_arguments`. -/
structure ParseState where
  chain : List CcmdNode
  reservedFwdReplies : List Nat
  lastReservedUsed : Option Nat
  fwdScope : Int
  branchingDegree : Int
  currForwardBegin : Option Nat
  lastRespSize : PdSpec

def defaultRespSize : Nat := 512

/-- `ARGP_KEY_INIT`. -/
def ParseState.init : ParseState where
  chain := []
  reservedFwdReplies := []
  lastReservedUsed := none
  fwdScope := 0
  branchingDegree := 0
  currForwardBegin := none
  lastRespSize := pdBuildFixed defaultRespSize

/-- The position of `ccmd_last`. -/
def ParseState.last (s : ParseState) : Option Nat :=
  if s.chain = [] then none else some (s.chain.length - 1)

def ccmdAdd (s : ParseState) (node : CcmdNode) : Except ParseAbort ParseState :=
  if s.chain.length < chainCapacity then .ok { s with chain := s.chain ++ [node] }
  else .error .full

/-! ## FORWARD -/

/-- Close the previous branch of a branched forward with its reserved reply. -/
def closeBranch (s : ParseState) : Except ParseAbort ParseState :=
  if s.branchingDegree > 0 then
    match s.chain.getLast? with
    | none => .error .segfault
    | some last =>
      if last.cmd ≠ .reply then
        match s.reservedFwdReplies.getLast? with
        | none => .error .segfault
        | some key =>
          (ccmdAdd s (.new .reply (pdBuildFixed key))).map fun s =>
            { s with reservedFwdReplies := s.reservedFwdReplies.dropLast }
      else .ok s
  else .ok s

/-- The local variables of the FORWARD case. -/
structure FwdLocals where
  timeoutUs : ℚ
  retryNum : Int
  nack : Int
  branched : Bool
  multiFwds : Nat
  fwdItrStart : Option Nat

def FwdLocals.init : FwdLocals := ⟨10000000, 0, -1, false, 0, none⟩

/-- The node of one destination. It may become a FORWARD_CONTINUE later. -/
def destNode (proto : Proto) (addr : Addr) : CcmdNode :=
  let node := CcmdNode.new .forwardBegin (pdBuildFixed defaultRespSize)
  { node with fwd := { node.fwd with onFailSkip := 1, proto := proto, fwdAddr := addr } }

def fwdToken (s : ParseState) (v : FwdLocals) :
    FwdToken → Except ParseAbort (ParseState × FwdLocals)
  | .retry n => .ok (s, { v with retryNum := n })
  | .timeout us => .ok (s, { v with timeoutUs := us })
  | .nack n => .ok (s, { v with nack := n })
  | .branch => .ok ({ s with branchingDegree := s.branchingDegree + 1 }, { v with branched := true })
  | .dest proto addr =>
    (ccmdAdd s (destNode proto addr)).map fun s =>
      ({ s with currForwardBegin :=
          if v.multiFwds = 0 ∧ s.branchingDegree = 0 then s.last else s.currForwardBegin },
        { v with
          fwdItrStart := if v.multiFwds = 0 then s.last else v.fwdItrStart
          multiFwds := v.multiFwds + 1 })

def fwdTokens (s : ParseState) (v : FwdLocals) :
    List FwdToken → Except ParseAbort (ParseState × FwdLocals)
  | [] => .ok (s, v)
  | token :: rest =>
    match fwdToken s v token with
    | .error e => .error e
    | .ok (s, v) => fwdTokens s v rest

/-- The number of acknowledgements asked for. -/
def fwdNack (v : FwdLocals) : Int :=
  if v.nack ≤ 0 ∨ (v.branched = false ∧ v.multiFwds < v.nack) then v.multiFwds else v.nack

/-- An `int` stored in a `uint8_t` and in a `uint32_t`. -/
def toUInt8 (n : Int) : Nat := (n % 256).toNat
def toUInt32 (n : Int) : Nat := (n % 2 ^ 32).toNat

/-- A `double` cast to `int`. -/
def truncate (q : ℚ) : Int := q.num.tdiv q.den

/-- The run-time parameters go to the FORWARD_BEGIN of the context. -/
def setBegin (v : FwdLocals) (node : CcmdNode) : CcmdNode :=
  { node with fwd := { node.fwd with
    nAck := toUInt8 (node.fwd.nAck + fwdNack v)
    timeout := toUInt32 (truncate v.timeoutUs)
    retries := toUInt8 v.retryNum
    branched := if v.branched then 1 else 0 } }

def setContinue (v : FwdLocals) (node : CcmdNode) : CcmdNode :=
  { node with
    cmd := .forwardContinue
    fwd := { node.fwd with
      timeout := toUInt32 (-1)
      retries := toUInt8 (-1)
      branched := if v.branched then 1 else 0
      nAck := 0 } }

/-- Apply `f` to the nodes from position `i` on. -/
def modifyFrom (f : CcmdNode → CcmdNode) (i : Nat) (chain : List CcmdNode) : List CcmdNode :=
  chain.take i ++ (chain.drop i).map f

/-- A forward that is not a branch starts a context of its own. -/
def settleBegin (s : ParseState) (v : FwdLocals) : ParseState :=
  if v.branched = false then
    { s with branchingDegree := 0, currForwardBegin := v.fwdItrStart } else s

/-- Write the parameters into the FORWARD_BEGIN, unless this is a further branch. -/
def updateBegin (s : ParseState) (v : FwdLocals) : Except ParseAbort ParseState :=
  if s.branchingDegree ≤ 1 then
    match s.currForwardBegin with
    | none => .error .segfault
    | some i => .ok { s with chain := s.chain.modify i (setBegin v) }
  else .ok s

/-- Turn the other nodes of this option into FORWARD_CONTINUEs. -/
def continueOthers (s : ParseState) (v : FwdLocals) : Except ParseAbort ParseState :=
  match v.fwdItrStart with
  | none => if s.currForwardBegin = none then .error .segfault else .ok s
  | some i =>
    let i := if s.currForwardBegin = some i then i + 1 else i
    .ok { s with chain := modifyFrom (setContinue v) i s.chain }

/-- Reserve a reply for the scope just opened, in a queue as long as the chain's. -/
def reserveReply (s : ParseState) : Except ParseAbort ParseState :=
  if s.reservedFwdReplies.length < chainCapacity then
    .ok { s with
      reservedFwdReplies := s.reservedFwdReplies ++ [defaultRespSize]
      fwdScope := s.fwdScope + 1 }
  else .error .full

/-- The `FORWARD_CMD` case. -/
def parseForward (s : ParseState) (tokens : List FwdToken) : Except ParseAbort ParseState :=
  match closeBranch s with
  | .error e => .error e
  | .ok s =>
    match fwdTokens s .init tokens with
    | .error e => .error e
    | .ok (s, v) =>
      match updateBegin (settleBegin s v) v with
      | .error e => .error e
      | .ok s =>
        match continueOthers s v with
        | .error e => .error e
        | .ok s => reserveReply s

/-! ## REPLY -/

def minReplySize : Nat := messageHeader

/-- Clamp the limits of a response size; a comparison with NaN is false. -/
def clampReply (val : PdSpec) : PdSpec :=
  let val := if pdIsNone val then pdBuildFixed defaultRespSize else val
  let val := { val with min := val.min.map fun x : ℚ => if x < minReplySize then minReplySize else x }
  { val with max := val.max.map fun x : ℚ => if x > bufSize then bufSize else x }

def replyNode (val : PdSpec) (mode : ReplyMode) (devId : Nat) : CcmdNode :=
  let node := CcmdNode.new .reply val
  { node with resp := { node.resp with mode := mode, devId := devId % 256 } }

/-- The `REPLY_CMD` case: the first command of the chain, a reply outside any
scope (which updates one that ends the chain already), or the reply of the
innermost scope. -/
def parseReply (s : ParseState) (val : PdSpec) (mode : ReplyMode) (devId : Nat) :
    Except ParseAbort ParseState :=
  let val := clampReply val
  match s.chain.getLast? with
  | none => ccmdAdd s (replyNode val mode devId)
  | some last =>
    if s.fwdScope ≤ 0 then
      if last.cmd = .reply ∧ s.last ≠ s.lastReservedUsed then
        .ok { s with chain := s.chain.modify (s.chain.length - 1) ({ · with pdVal := val }) }
      else ccmdAdd s (replyNode val mode devId)
    else
      (ccmdAdd { s with reservedFwdReplies := s.reservedFwdReplies.dropLast }
        (replyNode val mode devId)).map fun s =>
          { s with lastReservedUsed := s.last, fwdScope := s.fwdScope - 1 }

/-! ## The other options and the end -/

def parseOpt (s : ParseState) : Opt → Except ParseAbort ParseState
  | .compTime val => ccmdAdd s (.new .compute val)
  | .storeData val off sync devId =>
    ccmdAdd s { CcmdNode.new .store val with
      pdVal2 := off, store := ⟨if sync then 1 else 0, devId % 256⟩ }
  | .loadData val off devId =>
    ccmdAdd s { CcmdNode.new .load val with pdVal2 := off, load := ⟨devId % 256⟩ }
  | .skip nSkip nEvery prob =>
    ccmdAdd s { CcmdNode.new .pskip (pdBuildFixed prob) with nSkip := nSkip, nEvery := nEvery }
  | .forward tokens => parseForward s tokens
  | .reply val mode devId => parseReply s val mode devId

/-- Exhaust the deferred replies, at most `fuel` of them. -/
def exhaustReplies : Nat → ParseState → Except ParseAbort ParseState
  | 0, s => .ok s
  | fuel + 1, s =>
    match s.reservedFwdReplies.getLast? with
    | none => .ok s
    | some key =>
      if s.fwdScope > 0 then
        match ccmdAdd s (.new .reply (pdBuildFixed key)) with
        | .error e => .error e
        | .ok s =>
          exhaustReplies fuel { s with
            reservedFwdReplies := s.reservedFwdReplies.dropLast
            lastReservedUsed := s.last
            fwdScope := s.fwdScope - 1 }
      else .ok s

/-- `ARGP_KEY_END`. -/
def parseEnd (s : ParseState) : Except ParseAbort ParseState :=
  match exhaustReplies s.reservedFwdReplies.length s with
  | .error e => .error e
  | .ok s =>
    if s.reservedFwdReplies ≠ [] then .error .check
    else if s.last = s.lastReservedUsed then ccmdAdd s (.new .reply s.lastRespSize)
    else
      match s.chain.getLast? with
      | none => .error .segfault
      | some last => if last.cmd ≠ .reply then ccmdAdd s (.new .reply s.lastRespSize) else .ok s

def parseFrom (s : ParseState) : List Opt → Except ParseAbort ParseState
  | [] => parseEnd s
  | opt :: rest =>
    match parseOpt s opt with
    | .error e => .error e
    | .ok s => parseFrom s rest

def parseOptions (opts : List Opt) : Except ParseAbort ParseState := parseFrom .init opts

/-! ## What an option adds -/

/-- The kinds of the commands of a chain. -/
def kinds (chain : List CcmdNode) : List Kind := chain.map nodeKind

theorem scan_kinds (t : Nat × Spot) (chain : List CcmdNode) :
    scan id t (kinds chain) = scan nodeKind t chain := scan_map id nodeKind t chain

theorem kinds_append (a b : List CcmdNode) : kinds (a ++ b) = kinds a ++ kinds b := List.map_append

theorem ccmdAdd_eq_ok {s s' : ParseState} {node : CcmdNode} (h : ccmdAdd s node = .ok s') :
    s' = { s with chain := s.chain ++ [node] } := by
  unfold ccmdAdd at h
  split at h
  · cases h
    rfl
  · cases h

theorem ccmdAdd_cases (s : ParseState) (node : CcmdNode) :
    ccmdAdd s node = .ok { s with chain := s.chain ++ [node] } ∨ ccmdAdd s node = .error .full := by
  unfold ccmdAdd
  split
  · exact Or.inl rfl
  · exact Or.inr rfl

theorem kinds_modify (chain : List CcmdNode) (i : Nat) {f : CcmdNode → CcmdNode}
    (same : ∀ node, nodeKind (f node) = nodeKind node) : kinds (chain.modify i f) = kinds chain := by
  induction chain generalizing i with
  | nil => simp [kinds]
  | cons node chain ih =>
    cases i with
    | zero => simp [kinds, same]
    | succ i => simpa [kinds] using ih i

/-- The destinations among the tokens of a forward. -/
def dests (tokens : List FwdToken) : List (Proto × Addr) :=
  tokens.filterMap fun
    | .dest proto addr => some (proto, addr)
    | _ => none

/-- How often `branch` stands among the tokens. -/
def branches : List FwdToken → Nat
  | [] => 0
  | .branch :: rest => branches rest + 1
  | _ :: rest => branches rest

/-- How often `branch` stands before the first destination. -/
def branchesBefore : List FwdToken → Nat
  | [] => 0
  | .branch :: rest => branchesBefore rest + 1
  | .dest _ _ :: _ => 0
  | _ :: rest => branchesBefore rest

/-- The state and the locals after the tokens of a forward, from any locals. -/
structure Tokenized (s : ParseState) (v : FwdLocals) (tokens : List FwdToken) (s' : ParseState)
    (v' : FwdLocals) : Prop where
  chain : s'.chain = s.chain ++ (dests tokens).map fun d => destNode d.1 d.2
  reserved : s'.reservedFwdReplies = s.reservedFwdReplies
  used : s'.lastReservedUsed = s.lastReservedUsed
  scope : s'.fwdScope = s.fwdScope
  degree : s'.branchingDegree = s.branchingDegree + branches tokens
  branched : v'.branched = (v.branched || decide (0 < branches tokens))
  start : v'.fwdItrStart =
    if v.multiFwds = 0 ∧ dests tokens ≠ [] then some s.chain.length else v.fwdItrStart
  begins : s'.currForwardBegin =
    if v.multiFwds = 0 ∧ dests tokens ≠ [] ∧ s.branchingDegree + branchesBefore tokens = 0 then
      some s.chain.length else s.currForwardBegin

theorem fwdTokens_spec {tokens : List FwdToken} {s s' : ParseState} {v v' : FwdLocals}
    (h : fwdTokens s v tokens = .ok (s', v')) : Tokenized s v tokens s' v' := by
  induction tokens generalizing s v with
  | nil =>
    cases h
    exact ⟨by simp [dests], rfl, rfl, rfl, by simp [branches], by simp [branches], by simp [dests],
      by simp [dests]⟩
  | cons token rest ih =>
    simp only [fwdTokens] at h
    cases token with
    | retry n =>
      obtain ⟨chain, reserved, used, scope, degree, branched, start, begins⟩ := ih h
      exact ⟨chain, reserved, used, scope, degree, branched, start, begins⟩
    | timeout us =>
      obtain ⟨chain, reserved, used, scope, degree, branched, start, begins⟩ := ih h
      exact ⟨chain, reserved, used, scope, degree, branched, start, begins⟩
    | nack n =>
      obtain ⟨chain, reserved, used, scope, degree, branched, start, begins⟩ := ih h
      exact ⟨chain, reserved, used, scope, degree, branched, start, begins⟩
    | branch =>
      obtain ⟨chain, reserved, used, scope, degree, branched, start, begins⟩ := ih h
      refine ⟨chain, reserved, used, scope, ?_, ?_, start, ?_⟩
      · rw [degree]
        simp only [branches]
        push_cast
        omega
      · simpa [branches] using branched
      · rw [begins]
        have moved : s.branchingDegree + 1 + (branchesBefore rest : Int) =
            s.branchingDegree + ((branchesBefore rest + 1 : Nat) : Int) := by
          push_cast
          omega
        simp only [branchesBefore, moved]
        rfl
    | dest proto addr =>
      cases hadd : ccmdAdd s (destNode proto addr) with
      | error e =>
        simp only [fwdToken, hadd, Except.map] at h
        cases h
      | ok s1 =>
        have e := ccmdAdd_eq_ok hadd
        subst e
        simp only [fwdToken, hadd, Except.map] at h
        have last : ({ s with chain := s.chain ++ [destNode proto addr] } : ParseState).last =
            some s.chain.length := by simp [ParseState.last]
        obtain ⟨chain, reserved, used, scope, degree, branched, start, begins⟩ := ih h
        refine ⟨?_, reserved, used, scope, degree, branched, ?_, ?_⟩
        · rw [chain]
          simp [dests]
        · rw [start]
          simp [dests, last]
        · rw [begins]
          simp [dests, branchesBefore, last]

/-- The errors of the token loop are those of a full chain. -/
theorem fwdTokens_error {tokens : List FwdToken} {s : ParseState} {v : FwdLocals} {e : ParseAbort}
    (h : fwdTokens s v tokens = .error e) : e = .full := by
  induction tokens generalizing s v with
  | nil => cases h
  | cons token rest ih =>
    simp only [fwdTokens] at h
    cases token with
    | retry n => exact ih h
    | timeout us => exact ih h
    | nack n => exact ih h
    | branch => exact ih h
    | dest proto addr =>
      rcases ccmdAdd_cases s (destNode proto addr) with added | full
      · simp only [fwdToken, added, Except.map] at h
        exact ih h
      · simp only [fwdToken, full, Except.map] at h
        cases h
        rfl

/-- A branched forward before, whose last branch has not been closed. -/
def needsClose (s : ParseState) : Bool :=
  decide (0 < s.branchingDegree) && !s.chain.getLast?.any fun last => last.cmd = .reply

/-- The kinds of the chain once the previous branch is closed. -/
def closedKinds (s : ParseState) : List Kind :=
  if needsClose s then kinds s.chain ++ [.closes] else kinds s.chain

/-- Whether the first destination of a forward becomes a FORWARD_CONTINUE. -/
def continuesContext (s : ParseState) (tokens : List FwdToken) : Bool :=
  decide (dests tokens ≠ [] ∧ 0 < branches tokens ∧
    s.branchingDegree + branchesBefore tokens ≠ 0)

/-- The kinds of the commands a forward adds behind the closed branch. -/
def forwardKinds (s : ParseState) (tokens : List FwdToken) : List Kind :=
  match dests tokens with
  | [] => []
  | _ :: others =>
    (if continuesContext s tokens then .continues else .opens) ::
      List.replicate others.length .continues

/-- What closing the previous branch does to the state. -/
structure Closed (s s' : ParseState) : Prop where
  kinds : kinds s'.chain = closedKinds s
  reserved : s'.reservedFwdReplies.length =
    s.reservedFwdReplies.length - if needsClose s then 1 else 0
  available : needsClose s = true → s.reservedFwdReplies ≠ []
  longer : s.chain.length ≤ s'.chain.length
  used : s'.lastReservedUsed = s.lastReservedUsed
  scope : s'.fwdScope = s.fwdScope
  degree : s'.branchingDegree = s.branchingDegree
  begins : s'.currForwardBegin = s.currForwardBegin

theorem closeBranch_spec {s s' : ParseState} (h : closeBranch s = .ok s') : Closed s s' := by
  simp only [closeBranch] at h
  by_cases branched : s.branchingDegree > 0
  · rw [if_pos branched] at h
    cases hlast : s.chain.getLast? with
    | none =>
      simp only [hlast] at h
      cases h
    | some last =>
      simp only [hlast] at h
      by_cases reply : last.cmd = .reply
      · rw [if_neg (by simpa using reply)] at h
        cases h
        have no : needsClose s = false := by simp [needsClose, hlast, reply]
        exact ⟨by simp [closedKinds, no], by simp [no], by simp [no], le_rfl, rfl, rfl, rfl, rfl⟩
      · rw [if_pos reply] at h
        have yes : needsClose s = true := by simp [needsClose, hlast, reply, branched]
        cases hkey : s.reservedFwdReplies.getLast? with
        | none =>
          simp only [hkey] at h
          cases h
        | some key =>
          simp only [hkey] at h
          have some_reserved : s.reservedFwdReplies ≠ [] := by
            rintro empty
            simp [empty] at hkey
          rcases ccmdAdd_cases s (.new .reply (pdBuildFixed key)) with added | full
          · simp only [added, Except.map, Except.ok.injEq] at h
            subst h
            refine ⟨?_, ?_, fun _ => some_reserved, by simp, rfl, rfl, rfl, rfl⟩
            · simp [closedKinds, yes, kinds, nodeKind, CcmdNode.new, typeKind]
            · simp [yes]
          · simp only [full, Except.map] at h
            cases h
  · rw [if_neg branched] at h
    cases h
    have no : needsClose s = false := by simp [needsClose, branched]
    exact ⟨by simp [closedKinds, no], by simp [no], by simp [no], le_rfl, rfl, rfl, rfl, rfl⟩

theorem closeBranch_error {s : ParseState} {e : ParseAbort} (h : closeBranch s = .error e)
    (begun : 0 < s.branchingDegree → s.chain ≠ [])
    (available : needsClose s = true → s.reservedFwdReplies ≠ []) : e = .full := by
  simp only [closeBranch] at h
  by_cases branched : s.branchingDegree > 0
  · rw [if_pos branched] at h
    cases hlast : s.chain.getLast? with
    | none => exact absurd (List.getLast?_eq_none_iff.mp hlast) (begun branched)
    | some last =>
      simp only [hlast] at h
      by_cases reply : last.cmd = .reply
      · rw [if_neg (by simpa using reply)] at h
        cases h
      · rw [if_pos reply] at h
        have yes : needsClose s = true := by simp [needsClose, hlast, reply, branched]
        cases hkey : s.reservedFwdReplies.getLast? with
        | none => exact absurd (List.getLast?_eq_none_iff.mp hkey) (available yes)
        | some key =>
          simp only [hkey] at h
          rcases ccmdAdd_cases s (.new .reply (pdBuildFixed key)) with added | full
          · simp only [added, Except.map] at h
            cases h
          · simp only [full, Except.map] at h
            cases h
            rfl
  · rw [if_neg branched] at h
    cases h

theorem setBegin_kind (v : FwdLocals) (node : CcmdNode) :
    nodeKind (setBegin v node) = nodeKind node := rfl

theorem kinds_continued (v : FwdLocals) (nodes : List CcmdNode) :
    kinds (nodes.map (setContinue v)) = List.replicate nodes.length .continues := by
  induction nodes with
  | nil => rfl
  | cons node nodes ih =>
    simp only [kinds, List.map_cons, List.length_cons, List.replicate_succ] at ih ⊢
    rw [ih]
    rfl

theorem kinds_modifyFrom (v : FwdLocals) (chain : List CcmdNode) (i : Nat) :
    kinds (modifyFrom (setContinue v) i chain) =
      (kinds chain).take i ++ List.replicate (chain.length - i) .continues := by
  rw [modifyFrom, kinds_append, kinds_continued, List.length_drop]
  simp only [kinds, List.map_take]

theorem kinds_dests (ds : List (Proto × Addr)) :
    kinds (ds.map fun d => destNode d.1 d.2) = List.replicate ds.length .opens := by
  induction ds with
  | nil => rfl
  | cons d ds ih =>
    simp only [kinds, List.map_cons, List.length_cons, List.replicate_succ] at ih ⊢
    rw [ih]
    rfl

/-- The kinds after a chain `a` and the destinations of a forward, of which the
first keeps its kind or not. -/
theorem kinds_continueFrom {a : List Kind} {chain : List CcmdNode} {n : Nat} (v : FwdLocals)
    (before : kinds chain = a ++ List.replicate (n + 1) .opens) (first : Bool) :
    kinds (modifyFrom (setContinue v) (if first then a.length + 1 else a.length) chain) =
      a ++ (if first then .opens else .continues) :: List.replicate n .continues := by
  have length : chain.length = a.length + (n + 1) := by
    have := congrArg List.length before
    simpa [kinds] using this
  rw [kinds_modifyFrom, before, length]
  cases first with
  | true =>
    have left : a.length + (n + 1) - (a.length + 1) = n := by omega
    simp only [if_true, left, List.replicate_succ, List.take_append]
    simp
  | false =>
    have left : a.length + (n + 1) - a.length = n + 1 := by omega
    simp [left, List.replicate_succ]

/-- What a forward does to the state. -/
structure Forwarded (s : ParseState) (tokens : List FwdToken) (s' : ParseState) : Prop where
  kinds : kinds s'.chain = closedKinds s ++ forwardKinds s tokens
  reserved : s'.reservedFwdReplies.length =
    s.reservedFwdReplies.length - (if needsClose s then 1 else 0) + 1
  available : needsClose s = true → s.reservedFwdReplies ≠ []
  destination : dests tokens = [] → 0 < branches tokens ∧ s.currForwardBegin ≠ none
  used : s'.lastReservedUsed = s.lastReservedUsed
  scope : s'.fwdScope = s.fwdScope + 1
  degree : 0 ≤ s'.branchingDegree
  begins : ∀ i, s'.currForwardBegin = some i → i < s'.chain.length
  lost : s'.currForwardBegin = none →
    continuesContext s tokens = true ∧ s.currForwardBegin = none

theorem parseForward_eq_ok {s s' : ParseState} {tokens : List FwdToken}
    (h : parseForward s tokens = .ok s') : ∃ s1 s2 v s3 s4, closeBranch s = .ok s1 ∧
      fwdTokens s1 .init tokens = .ok (s2, v) ∧ updateBegin (settleBegin s2 v) v = .ok s3 ∧
      continueOthers s3 v = .ok s4 ∧ reserveReply s4 = .ok s' := by
  simp only [parseForward] at h
  cases h1 : closeBranch s with
  | error e => simp only [h1] at h; cases h
  | ok s1 =>
    simp only [h1] at h
    cases h2 : fwdTokens s1 .init tokens with
    | error e => simp only [h2] at h; cases h
    | ok t =>
      obtain ⟨s2, v⟩ := t
      simp only [h2] at h
      cases h3 : updateBegin (settleBegin s2 v) v with
      | error e => simp only [h3] at h; cases h
      | ok s3 =>
        simp only [h3] at h
        cases h4 : continueOthers s3 v with
        | error e => simp only [h4] at h; cases h
        | ok s4 =>
          simp only [h4] at h
          exact ⟨s1, s2, v, s3, s4, rfl, h2, h3, h4, h⟩

/-- The state after the parameters are written: only the contents of a node change. -/
structure Updated (s s' : ParseState) : Prop where
  kinds : kinds s'.chain = kinds s.chain
  reserved : s'.reservedFwdReplies = s.reservedFwdReplies
  used : s'.lastReservedUsed = s.lastReservedUsed
  scope : s'.fwdScope = s.fwdScope
  degree : s'.branchingDegree = s.branchingDegree
  begins : s'.currForwardBegin = s.currForwardBegin
  begun : s.branchingDegree ≤ 1 → s.currForwardBegin ≠ none

theorem updateBegin_spec {s s' : ParseState} {v : FwdLocals} (h : updateBegin s v = .ok s') :
    Updated s s' := by
  simp only [updateBegin] at h
  by_cases low : s.branchingDegree ≤ 1
  · rw [if_pos low] at h
    cases hb : s.currForwardBegin with
    | none =>
      simp only [hb] at h
      cases h
    | some i =>
      simp only [hb] at h
      cases h
      exact ⟨kinds_modify s.chain i (setBegin_kind v), rfl, rfl, rfl, rfl, hb.symm, by simp [hb]⟩
  · rw [if_neg low] at h
    cases h
    exact ⟨rfl, rfl, rfl, rfl, rfl, rfl, fun le => absurd le low⟩

/-- The branch of a forward is settled by its tokens and the degree before. -/
theorem settleBegin_begins {s : ParseState} {tokens : List FwdToken} {s1 s2 : ParseState}
    {v : FwdLocals} (closed : Closed s s1) (tokenized : Tokenized s1 .init tokens s2 v)
    (some_dest : dests tokens ≠ []) (bound : ∀ i, s.currForwardBegin = some i → i < s.chain.length) :
    (settleBegin s2 v).currForwardBegin = some s1.chain.length ↔
      continuesContext s tokens = false := by
  have start : v.fwdItrStart = some s1.chain.length := by
    rw [tokenized.start, if_pos ⟨rfl, some_dest⟩]
  have begins := tokenized.begins
  rw [closed.degree, closed.begins] at begins
  have old : s.currForwardBegin ≠ some s1.chain.length := by
    rintro e
    have := bound _ e
    have := closed.longer
    omega
  by_cases branched : 0 < branches tokens
  · have isBranched : v.branched = true := by rw [tokenized.branched]; simp [branched]
    simp only [settleBegin, isBranched, Bool.true_eq_false, if_false, begins]
    by_cases zero : s.branchingDegree + branchesBefore tokens = 0
    · simp [continuesContext, zero, some_dest, FwdLocals.init]
    · simp [continuesContext, zero, some_dest, branched, FwdLocals.init, old]
  · have notBranched : v.branched = false := by
      rw [tokenized.branched]
      simp [FwdLocals.init, branched]
    simp [settleBegin, notBranched, start, continuesContext, branched]

/-- The fields of the state that settling a forward does not touch. -/
def replySide (s : ParseState) : List Nat × Option Nat × Int :=
  (s.reservedFwdReplies, s.lastReservedUsed, s.fwdScope)

theorem settleBegin_replySide (s : ParseState) (v : FwdLocals) :
    replySide (settleBegin s v) = replySide s := by
  simp only [settleBegin]
  split <;> rfl

theorem continueOthers_frame {s s' : ParseState} {v : FwdLocals}
    (h : continueOthers s v = .ok s') : replySide s' = replySide s ∧
      s'.branchingDegree = s.branchingDegree ∧ s'.currForwardBegin = s.currForwardBegin := by
  simp only [continueOthers] at h
  split at h
  · split at h
    · cases h
    · cases h
      exact ⟨rfl, rfl, rfl⟩
  · cases h
    exact ⟨rfl, rfl, rfl⟩

/-- The kinds that the token loop and `continueOthers` leave behind the closed branch. -/
theorem continueOthers_kinds {s s1 s2 s3 s4 : ParseState} {tokens : List FwdToken} {v : FwdLocals}
    (closed : Closed s s1) (tokenized : Tokenized s1 .init tokens s2 v)
    (updated : Updated (settleBegin s2 v) s3) (h : continueOthers s3 v = .ok s4)
    (bound : ∀ i, s.currForwardBegin = some i → i < s.chain.length) :
    kinds s4.chain = closedKinds s ++ forwardKinds s tokens := by
  have before : kinds s3.chain =
      closedKinds s ++ List.replicate (dests tokens).length .opens := by
    have settled : (settleBegin s2 v).chain = s2.chain := by
      simp only [settleBegin]
      split <;> rfl
    rw [updated.kinds, settled, tokenized.chain, kinds_append, closed.kinds, kinds_dests]
  cases hd : dests tokens with
  | nil =>
    have start : v.fwdItrStart = none := by
      rw [tokenized.start, if_neg (by simp [hd])]
      rfl
    simp only [continueOthers, start] at h
    split at h
    · cases h
    · cases h
      rw [before, forwardKinds, hd]
      rfl
  | cons d others =>
    have some_dest : dests tokens ≠ [] := by simp [hd]
    have start : v.fwdItrStart = some s1.chain.length := by
      rw [tokenized.start, if_pos ⟨rfl, some_dest⟩]
    have length : s1.chain.length = (closedKinds s).length := by
      rw [← closed.kinds]
      simp [kinds]
    have settled := settleBegin_begins closed tokenized some_dest bound
    rw [length] at settled
    simp only [continueOthers, start, updated.begins, Except.ok.injEq] at h
    subst h
    rw [hd] at before
    have cut := kinds_continueFrom v before (!continuesContext s tokens)
    simp only [forwardKinds, hd, settled, length]
    cases hc : continuesContext s tokens with
    | true => simpa [hc] using cut
    | false => simpa [hc] using cut

/-- When a forward is left without a FORWARD_BEGIN to write its parameters to. -/
theorem settleBegin_none {s s1 s2 : ParseState} {tokens : List FwdToken} {v : FwdLocals}
    (closed : Closed s s1) (tokenized : Tokenized s1 .init tokens s2 v)
    (lost : (settleBegin s2 v).currForwardBegin = none) :
    dests tokens = [] ∧ (branches tokens = 0 ∨ s.currForwardBegin = none) ∨
      continuesContext s tokens = true ∧ s.currForwardBegin = none := by
  have start := tokenized.start
  have begins := tokenized.begins
  have branched := tokenized.branched
  rw [closed.begins, closed.degree] at begins
  by_cases none_dest : dests tokens = []
  · refine Or.inl ⟨none_dest, ?_⟩
    by_cases none_branch : branches tokens = 0
    · exact Or.inl none_branch
    · have yes : v.branched = true := by rw [branched]; simp; omega
      rw [if_neg (by simp [none_dest])] at begins
      simp only [settleBegin, yes, Bool.true_eq_false, if_false, begins] at lost
      exact Or.inr lost
  · rw [if_pos ⟨rfl, none_dest⟩] at start
    by_cases none_branch : branches tokens = 0
    · have no : v.branched = false := by rw [branched]; simp [FwdLocals.init, none_branch]
      simp [settleBegin, no, start] at lost
    · have yes : v.branched = true := by rw [branched]; simp; omega
      simp only [settleBegin, yes, Bool.true_eq_false, if_false, begins] at lost
      by_cases zero : s.branchingDegree + branchesBefore tokens = 0
      · rw [if_pos ⟨rfl, none_dest, zero⟩] at lost
        cases lost
      · rw [if_neg (by simp [zero])] at lost
        refine Or.inr ⟨?_, lost⟩
        simp only [continuesContext, decide_eq_true_eq]
        exact ⟨none_dest, by omega, zero⟩

/-- Without a destination nothing is begun: the forward is a branch of a context
that exists. -/
theorem destination_missing {s s1 s2 s3 s4 : ParseState} {tokens : List FwdToken} {v : FwdLocals}
    (closed : Closed s s1) (tokenized : Tokenized s1 .init tokens s2 v)
    (updated : Updated (settleBegin s2 v) s3) (h : continueOthers s3 v = .ok s4)
    (missing : dests tokens = []) : 0 < branches tokens ∧ s.currForwardBegin ≠ none := by
  have start : v.fwdItrStart = none := by
    rw [tokenized.start, if_neg (by simp [missing])]
    rfl
  have begins : s2.currForwardBegin = s.currForwardBegin := by
    rw [tokenized.begins, if_neg (by simp [missing]), closed.begins]
  have begun : (settleBegin s2 v).currForwardBegin ≠ none := by
    rintro e
    simp only [continueOthers, start, updated.begins, e, if_true] at h
    cases h
  have branched : v.branched = true := by
    by_contra no
    simp only [Bool.not_eq_true] at no
    simp [settleBegin, no, start] at begun
  simp only [settleBegin, branched, Bool.true_eq_false, if_false, begins] at begun
  refine ⟨?_, begun⟩
  rw [tokenized.branched] at branched
  simpa [FwdLocals.init] using branched

/-- The position of the FORWARD_BEGIN stays inside the chain. -/
theorem begins_inside {s s1 s2 : ParseState} {tokens : List FwdToken} {v : FwdLocals}
    (closed : Closed s s1) (tokenized : Tokenized s1 .init tokens s2 v)
    (bound : ∀ i, s.currForwardBegin = some i → i < s.chain.length) {i : Nat}
    (h : (settleBegin s2 v).currForwardBegin = some i) :
    i < s1.chain.length + (dests tokens).length := by
  have longer := closed.longer
  have start := tokenized.start
  have begins := tokenized.begins
  by_cases none_dest : dests tokens = []
  · rw [if_neg (by simp [none_dest])] at start begins
    rw [closed.begins] at begins
    simp only [settleBegin] at h
    split at h
    · simp only [start] at h
      cases h
    · rw [begins] at h
      have := bound i h
      omega
  · have pos : 0 < (dests tokens).length := List.length_pos_iff.mpr none_dest
    rw [if_pos ⟨rfl, none_dest⟩] at start
    simp only [settleBegin] at h
    split at h
    · simp only [start, Option.some.injEq] at h
      omega
    · rw [begins] at h
      split at h
      · cases h
        omega
      · rw [closed.begins] at h
        have := bound i h
        omega

theorem parseForward_spec {s s' : ParseState} {tokens : List FwdToken}
    (h : parseForward s tokens = .ok s') (degree : 0 ≤ s.branchingDegree)
    (bound : ∀ i, s.currForwardBegin = some i → i < s.chain.length) : Forwarded s tokens s' := by
  obtain ⟨s1, s2, v, s3, s4, h1, h2, h3, h4, h5⟩ := parseForward_eq_ok h
  have closed := closeBranch_spec h1
  have tokenized := fwdTokens_spec h2
  have updated := updateBegin_spec h3
  obtain ⟨side, degree4, begins4⟩ := continueOthers_frame h4
  have kinds4 := continueOthers_kinds closed tokenized updated h4 bound
  have settledSide := settleBegin_replySide s2 v
  simp only [replySide, Prod.mk.injEq, updated.reserved, updated.used, updated.scope] at side settledSide
  obtain ⟨reserved4, used4, scope4⟩ := side
  obtain ⟨reserved2, used2, scope2⟩ := settledSide
  simp only [reserveReply] at h5
  split at h5
  · cases h5
    have missing := destination_missing closed tokenized updated h4
    refine ⟨kinds4, ?_, closed.available, missing, ?_, ?_, ?_, ?_, ?_⟩
    · simp [reserved4, reserved2, tokenized.reserved, closed.reserved]
    · rw [used4, used2, tokenized.used, closed.used]
    · simp [scope4, scope2, tokenized.scope, closed.scope]
    · rw [degree4, updated.degree]
      simp only [settleBegin]
      split
      · exact le_rfl
      · rw [tokenized.degree, closed.degree]
        omega
    · intro i hi
      rw [begins4, updated.begins] at hi
      have inside := begins_inside closed tokenized bound hi
      have length4 : s4.chain.length = s1.chain.length + (dests tokens).length := by
        have e4 := congrArg List.length kinds4
        have e1 := congrArg List.length closed.kinds
        simp only [kinds, List.length_map, List.length_append] at e4 e1
        rw [e4, e1]
        cases hd : dests tokens with
        | nil => simp [forwardKinds, hd]
        | cons d others => simp [forwardKinds, hd]
      rw [length4]
      exact inside
    · intro lost
      rw [begins4, updated.begins] at lost
      rcases settleBegin_none closed tokenized lost with ⟨none_dest, no_branch | no_begin⟩ | unbegun
      · exact absurd no_branch (missing none_dest).1.ne'
      · exact absurd no_begin (missing none_dest).2
      · exact unbegun
  · cases h5

theorem Forwarded.longer {s s' : ParseState} {tokens : List FwdToken} (f : Forwarded s tokens s') :
    s.chain.length ≤ s'.chain.length := by
  have e := congrArg List.length f.kinds
  have closed : s.chain.length ≤ (closedKinds s).length := by
    simp only [closedKinds, ClientOptions.kinds]
    split <;> simp
  simp only [ClientOptions.kinds, List.length_map, List.length_append] at e
  omega

/-- The condition on a forward, in the state before it: a branch that is still
open has a reply reserved, a FORWARD_CONTINUE comes where a context can be
continued, and only a branch of a context that exists may have no destination. -/
structure ForwardFits (s : ParseState) (tokens : List FwdToken) : Prop where
  closable : needsClose s = true → s.reservedFwdReplies ≠ []
  continuable : continuesContext s tokens = true → ∃ d spot,
    scan id start (closedKinds s) = some (d, spot) ∧ (spot = .header ∨ spot = .closed)
  destination : dests tokens = [] → 0 < branches tokens ∧ s.currForwardBegin ≠ none

theorem parseForward_error {s : ParseState} {tokens : List FwdToken} {e : ParseAbort}
    (h : parseForward s tokens = .error e) (fits : ForwardFits s tokens)
    (begun : 0 < s.branchingDegree → s.chain ≠ [])
    (known : continuesContext s tokens = true → s.currForwardBegin ≠ none) : e = .full := by
  simp only [parseForward] at h
  cases h1 : closeBranch s with
  | error e1 =>
    simp only [h1] at h
    cases h
    exact closeBranch_error h1 begun fits.closable
  | ok s1 =>
    simp only [h1] at h
    have closed := closeBranch_spec h1
    cases h2 : fwdTokens s1 .init tokens with
    | error e2 =>
      simp only [h2] at h
      cases h
      exact fwdTokens_error h2
    | ok t =>
      obtain ⟨s2, v⟩ := t
      simp only [h2] at h
      have tokenized := fwdTokens_spec h2
      have settled : (settleBegin s2 v).currForwardBegin ≠ none := by
        rintro lost
        rcases settleBegin_none closed tokenized lost with
          ⟨none_dest, no_branch | no_begin⟩ | ⟨continues, no_begin⟩
        · exact absurd no_branch (fits.destination none_dest).1.ne'
        · exact absurd no_begin (fits.destination none_dest).2
        · exact absurd no_begin (known continues)
      cases h3 : updateBegin (settleBegin s2 v) v with
      | error e3 =>
        simp only [updateBegin] at h3
        split at h3
        · split at h3
          · contradiction
          · cases h3
        · cases h3
      | ok s3 =>
        simp only [h3] at h
        have updated := updateBegin_spec h3
        cases h4 : continueOthers s3 v with
        | error e4 =>
          simp only [continueOthers, updated.begins, settled, if_false] at h4
          split at h4 <;> cases h4
        | ok s4 =>
          simp only [h4, reserveReply] at h
          split at h
          · cases h
          · cases h
            rfl

end ClientOptions
