import DistWalk.ClientOptions

/-!
# The option parser behind a full chain

`ccmd_add` links a new node behind the last one of the queue and then enqueues it.
A full queue takes no more nodes: the new one hangs behind the last until the next
takes its place, and what the parser then writes to `ccmd_last` goes to the last
node of the queue. As long as nothing is refused this is the parser of
`ClientOptions`.
-/

namespace FullChain

open Message ContextGrammar Template ClientOptions

/-- The parsing state with the node behind the last one of a full queue. -/
structure Builder extends ParseState where
  behind : Option CcmdNode

def Builder.init : Builder := ⟨.init, none⟩

/-- The nodes that the template walks from the first one on. -/
def Builder.linked (s : Builder) : List CcmdNode := s.chain ++ s.behind.toList

def ccmdAdd (s : Builder) (cmd : CommandType) (val : PdSpec) : Builder :=
  if s.chain.length < chainCapacity then { s with chain := s.chain ++ [.new cmd val] }
  else { s with behind := some (.new cmd val) }

/-- Write to `ccmd_last`. -/
def setLast (s : Builder) (f : CcmdNode → CcmdNode) : Builder :=
  { s with chain := s.chain.modify (s.chain.length - 1) f }

/-! ## FORWARD -/

def closeBranch (s : Builder) : Except ParseAbort Builder :=
  if s.branchingDegree > 0 then
    match s.chain.getLast? with
    | none => .error .segfault
    | some last =>
      if last.cmd ≠ .reply then
        match s.reservedFwdReplies.getLast? with
        | none => .error .segfault
        | some key =>
          let s := ccmdAdd s .reply (pdBuildFixed key)
          .ok { s with reservedFwdReplies := s.reservedFwdReplies.dropLast }
      else .ok s
  else .ok s

def setDest (proto : Proto) (addr : Addr) (node : CcmdNode) : CcmdNode :=
  { node with fwd := { node.fwd with onFailSkip := 1, proto := proto, fwdAddr := addr } }

def fwdToken (s : Builder) (v : FwdLocals) : FwdToken → Builder × FwdLocals
  | .retry n => (s, { v with retryNum := n })
  | .timeout us => (s, { v with timeoutUs := us })
  | .nack n => (s, { v with nack := n })
  | .branch => ({ s with branchingDegree := s.branchingDegree + 1 }, { v with branched := true })
  | .dest proto addr =>
    let s := ccmdAdd s .forwardBegin (pdBuildFixed defaultRespSize)
    let s := { s with currForwardBegin :=
      if v.multiFwds = 0 ∧ s.branchingDegree = 0 then s.last else s.currForwardBegin }
    (setLast s (setDest proto addr),
      { v with
        fwdItrStart := if v.multiFwds = 0 then s.last else v.fwdItrStart
        multiFwds := v.multiFwds + 1 })

def fwdTokens (s : Builder) (v : FwdLocals) : List FwdToken → Builder × FwdLocals
  | [] => (s, v)
  | token :: rest => fwdTokens (fwdToken s v token).1 (fwdToken s v token).2 rest

def settleBegin (s : Builder) (v : FwdLocals) : Builder :=
  { s with toParseState := ClientOptions.settleBegin s.toParseState v }

def updateBegin (s : Builder) (v : FwdLocals) : Except ParseAbort Builder :=
  (ClientOptions.updateBegin s.toParseState v).map fun p => { s with toParseState := p }

/-- The other nodes of the option, and the one behind them. -/
def continueOthers (s : Builder) (v : FwdLocals) : Except ParseAbort Builder :=
  (ClientOptions.continueOthers s.toParseState v).map fun p =>
    { toParseState := p
      behind := if v.fwdItrStart = none then s.behind else s.behind.map (setContinue v) }

def reserveReply (s : Builder) : Builder :=
  { s with
    reservedFwdReplies :=
      if s.reservedFwdReplies.length < chainCapacity then s.reservedFwdReplies ++ [defaultRespSize]
      else s.reservedFwdReplies
    fwdScope := s.fwdScope + 1 }

def parseForward (s : Builder) (tokens : List FwdToken) : Except ParseAbort Builder :=
  match closeBranch s with
  | .error e => .error e
  | .ok s =>
    let (s, v) := fwdTokens s .init tokens
    match updateBegin (settleBegin s v) v with
    | .error e => .error e
    | .ok s =>
      match continueOthers s v with
      | .error e => .error e
      | .ok s => .ok (reserveReply s)

/-! ## The other options -/

def setMode (mode : ReplyMode) (devId : Nat) (node : CcmdNode) : CcmdNode :=
  { node with resp := { node.resp with mode := mode, devId := devId % 256 } }

def parseReply (s : Builder) (val : PdSpec) (mode : ReplyMode) (devId : Nat) : Builder :=
  let val := clampReply val
  match s.chain.getLast? with
  | none => setLast (ccmdAdd s .reply val) (setMode mode devId)
  | some last =>
    if s.fwdScope ≤ 0 then
      if last.cmd = .reply ∧ s.last ≠ s.lastReservedUsed then setLast s ({ · with pdVal := val })
      else setLast (ccmdAdd s .reply val) (setMode mode devId)
    else
      let s := { s with reservedFwdReplies := s.reservedFwdReplies.dropLast }
      let s := setLast (ccmdAdd s .reply val) (setMode mode devId)
      { s with lastReservedUsed := s.last, fwdScope := s.fwdScope - 1 }

def parseOpt (s : Builder) : Opt → Except ParseAbort Builder
  | .compTime val => .ok (ccmdAdd s .compute val)
  | .storeData val off sync devId =>
    .ok (setLast (ccmdAdd s .store val)
      ({ · with pdVal2 := off, store := ⟨if sync then 1 else 0, devId % 256⟩ }))
  | .loadData val off devId =>
    .ok (setLast (ccmdAdd s .load val) ({ · with pdVal2 := off, load := ⟨devId % 256⟩ }))
  | .skip nSkip nEvery prob =>
    .ok (setLast (ccmdAdd s .pskip (pdBuildFixed prob)) ({ · with nSkip := nSkip, nEvery := nEvery }))
  | .forward tokens => parseForward s tokens
  | .reply val mode devId => .ok (parseReply s val mode devId)

def parseMany (s : Builder) : List Opt → Except ParseAbort Builder
  | [] => .ok s
  | opt :: rest =>
    match parseOpt s opt with
    | .error e => .error e
    | .ok s => parseMany s rest

theorem parseMany_append (s : Builder) (a b : List Opt) :
    parseMany s (a ++ b) = match parseMany s a with
      | .error e => .error e
      | .ok s => parseMany s b := by
  induction a generalizing s with
  | nil => rfl
  | cons opt a ih =>
    simp only [List.cons_append, parseMany]
    cases parseOpt s opt with
    | error e => rfl
    | ok s => exact ih s

/-! ## The end -/

/-- Exhaust the deferred replies, at most `fuel` of them. -/
def exhaustReplies : Nat → Builder → Builder
  | 0, s => s
  | fuel + 1, s =>
    match s.reservedFwdReplies.getLast? with
    | none => s
    | some key =>
      if s.fwdScope > 0 then
        let s := ccmdAdd s .reply (pdBuildFixed key)
        exhaustReplies fuel { s with
          reservedFwdReplies := s.reservedFwdReplies.dropLast
          lastReservedUsed := s.last
          fwdScope := s.fwdScope - 1 }
      else s

/-- `ARGP_KEY_END`. -/
def parseEnd (s : Builder) : Except ParseAbort Builder :=
  let s := exhaustReplies s.reservedFwdReplies.length s
  if s.reservedFwdReplies ≠ [] then .error .check
  else if s.last = s.lastReservedUsed then .ok (ccmdAdd s .reply s.lastRespSize)
  else
    match s.chain.getLast? with
    | none => .error .segfault
    | some last => .ok (if last.cmd ≠ .reply then ccmdAdd s .reply s.lastRespSize else s)

def parseOptions (opts : List Opt) : Except ParseAbort Builder :=
  match parseMany .init opts with
  | .error e => .error e
  | .ok s => parseEnd s

/-! ## While the chain has room -/

/-- The parsing state with nothing behind the chain. -/
abbrev whole (s : ParseState) : Builder := ⟨s, none⟩

theorem modify_last (chain : List CcmdNode) (node : CcmdNode) (f : CcmdNode → CcmdNode) :
    (chain ++ [node]).modify ((chain ++ [node]).length - 1) f = chain ++ [f node] := by
  induction chain with
  | nil => rfl
  | cons first chain ih => simpa using ih

theorem setLast_id (s : Builder) : setLast s id = s := by
  simp [setLast]

theorem ccmdAdd_whole {s : ParseState} (room : s.chain.length < chainCapacity) (cmd : CommandType)
    (val : PdSpec) : ccmdAdd (whole s) cmd val = whole { s with chain := s.chain ++ [.new cmd val] } :=
  if_pos room

/-- A node that the queue takes is the last one. -/
theorem added_whole {s : ParseState} (room : s.chain.length < chainCapacity) (cmd : CommandType)
    (val : PdSpec) (f : CcmdNode → CcmdNode) : setLast (ccmdAdd (whole s) cmd val) f =
      whole { s with chain := s.chain ++ [f (.new cmd val)] } := by
  rw [ccmdAdd_whole room, setLast, modify_last]

theorem clientAdd_room {s : ParseState} {node : CcmdNode} (room : s.chain.length < chainCapacity) :
    ClientOptions.ccmdAdd s node = .ok { s with chain := s.chain ++ [node] } := if_pos room

theorem room_of_fits {s : ParseState} {node : CcmdNode}
    (fits : ClientOptions.ccmdAdd s node ≠ .error .full) : s.chain.length < chainCapacity := by
  by_contra full
  exact fits (if_neg full)

theorem opt_whole {s : ParseState} {cmd : CommandType} {val : PdSpec} {f : CcmdNode → CcmdNode}
    (fits : ClientOptions.ccmdAdd s (f (.new cmd val)) ≠ .error .full) :
    .ok (setLast (ccmdAdd (whole s) cmd val) f) =
      (ClientOptions.ccmdAdd s (f (.new cmd val))).map whole := by
  have room := room_of_fits fits
  rw [added_whole room, clientAdd_room room]
  rfl

theorem map_ne_full {r : Except ParseAbort ParseState} {f : ParseState → ParseState}
    (fits : r.map f ≠ .error .full) : r ≠ .error .full := by
  rintro rfl
  exact fits rfl

theorem closeBranch_whole {s : ParseState} (fits : ClientOptions.closeBranch s ≠ .error .full) :
    closeBranch (whole s) = (ClientOptions.closeBranch s).map whole := by
  simp only [ClientOptions.closeBranch] at fits ⊢
  simp only [closeBranch]
  by_cases branched : s.branchingDegree > 0
  · simp only [if_pos branched] at fits ⊢
    cases here : s.chain.getLast? with
    | none => rfl
    | some last =>
      simp only [here] at fits ⊢
      by_cases answered : last.cmd ≠ .reply
      · simp only [if_pos answered] at fits ⊢
        cases reserved : s.reservedFwdReplies.getLast? with
        | none => rfl
        | some key =>
          simp only [reserved] at fits ⊢
          have room := room_of_fits (map_ne_full fits)
          rw [ccmdAdd_whole room, clientAdd_room room]
          rfl
      · simp only [if_neg answered]
        rfl
  · simp only [if_neg branched]
    rfl

theorem fwdToken_whole {token : FwdToken} {s t : ParseState} {v u : FwdLocals}
    (h : ClientOptions.fwdToken s v token = .ok (t, u)) :
    fwdToken (whole s) v token = (whole t, u) := by
  cases token with
  | dest proto addr =>
    simp only [ClientOptions.fwdToken] at h
    have room : s.chain.length < chainCapacity := by
      apply room_of_fits
      rintro full
      rw [full] at h
      cases h
    rw [clientAdd_room room] at h
    cases h
    simp only [fwdToken, ccmdAdd_whole room, setLast, modify_last, ParseState.last]
    simp [destNode, setDest]
  | _ =>
    cases h
    rfl

theorem fwdTokens_whole {tokens : List FwdToken} {s s' : ParseState} {v v' : FwdLocals}
    (h : ClientOptions.fwdTokens s v tokens = .ok (s', v')) :
    fwdTokens (whole s) v tokens = (whole s', v') := by
  induction tokens generalizing s v with
  | nil =>
    cases h
    rfl
  | cons token rest ih =>
    simp only [ClientOptions.fwdTokens] at h
    cases here : ClientOptions.fwdToken s v token with
    | error e =>
      simp only [here] at h
      cases h
    | ok t =>
      simp only [here] at h
      rw [fwdTokens, fwdToken_whole here]
      exact ih h

theorem parseForward_whole {s : ParseState} {tokens : List FwdToken}
    (fits : ClientOptions.parseForward s tokens ≠ .error .full) :
    parseForward (whole s) tokens = (ClientOptions.parseForward s tokens).map whole := by
  simp only [ClientOptions.parseForward] at fits ⊢
  have closed : ClientOptions.closeBranch s ≠ .error .full := by
    rintro full
    exact fits (by rw [full])
  rw [parseForward, closeBranch_whole closed]
  cases one : ClientOptions.closeBranch s with
  | error e => rfl
  | ok s1 =>
    simp only [one] at fits ⊢
    cases two : ClientOptions.fwdTokens s1 .init tokens with
    | error e =>
      simp only [two, fwdTokens_error two] at fits
      exact absurd rfl fits
    | ok t =>
      obtain ⟨s2, v⟩ := t
      simp only [two, Except.map, fwdTokens_whole two] at fits ⊢
      simp only [updateBegin, settleBegin]
      cases three : ClientOptions.updateBegin (ClientOptions.settleBegin s2 v) v with
      | error e => rfl
      | ok s3 =>
        simp only [three, Except.map] at fits ⊢
        simp only [continueOthers]
        cases four : ClientOptions.continueOthers s3 v with
        | error e => rfl
        | ok s4 =>
          simp only [four, Except.map, ClientOptions.reserveReply] at fits ⊢
          split at fits
          · rename_i room
            rw [if_pos room]
            simp [reserveReply, room]
          · exact absurd rfl fits

theorem parseReply_whole {s : ParseState} {val : PdSpec} {mode : ReplyMode} {devId : Nat}
    (fits : ClientOptions.parseReply s val mode devId ≠ .error .full) :
    .ok (parseReply (whole s) val mode devId) =
      (ClientOptions.parseReply s val mode devId).map whole := by
  simp only [ClientOptions.parseReply] at fits ⊢
  simp only [parseReply]
  cases here : s.chain.getLast? with
  | none =>
    simp only [here] at fits ⊢
    exact opt_whole fits
  | some last =>
    simp only [here] at fits ⊢
    by_cases scope : s.fwdScope ≤ 0
    · simp only [if_pos scope] at fits ⊢
      by_cases update : last.cmd = .reply ∧ s.last ≠ s.lastReservedUsed
      · simp only [if_pos update]
        rfl
      · simp only [if_neg update] at fits ⊢
        exact opt_whole fits
    · simp only [if_neg scope] at fits ⊢
      have room := room_of_fits (map_ne_full fits)
      rw [clientAdd_room room]
      have added := added_whole room .reply (clampReply val) (setMode mode devId)
      simp only at added
      rw [added]
      rfl

/-- Where the chain has room an option does what `ClientOptions` says. -/
theorem parseOpt_whole {s : ParseState} {opt : Opt} (fits : ClientOptions.parseOpt s opt ≠ .error .full) :
    parseOpt (whole s) opt = (ClientOptions.parseOpt s opt).map whole := by
  cases opt with
  | compTime val =>
    have added := opt_whole (f := id) fits
    rwa [setLast_id] at added
  | storeData val off sync devId => exact opt_whole fits
  | loadData val off devId => exact opt_whole fits
  | skip nSkip nEvery prob => exact opt_whole fits
  | forward tokens => exact parseForward_whole fits
  | reply val mode devId => exact parseReply_whole fits

theorem exhaustReplies_whole {fuel : Nat} {s : ParseState}
    (fits : ClientOptions.exhaustReplies fuel s ≠ .error .full) :
    .ok (exhaustReplies fuel (whole s)) = (ClientOptions.exhaustReplies fuel s).map whole := by
  induction fuel generalizing s with
  | zero => rfl
  | succ fuel ih =>
    simp only [ClientOptions.exhaustReplies] at fits ⊢
    simp only [exhaustReplies]
    cases reserved : s.reservedFwdReplies.getLast? with
    | none => rfl
    | some key =>
      simp only [reserved] at fits ⊢
      by_cases scope : s.fwdScope > 0
      · simp only [if_pos scope] at fits ⊢
        have room : s.chain.length < chainCapacity := by
          apply room_of_fits
          rintro full
          rw [full] at fits
          exact fits rfl
        rw [clientAdd_room room] at fits ⊢
        rw [ccmdAdd_whole room]
        exact ih fits
      · simp only [if_neg scope]
        rfl

theorem parseEnd_whole {s : ParseState} (fits : ClientOptions.parseEnd s ≠ .error .full) :
    parseEnd (whole s) = (ClientOptions.parseEnd s).map whole := by
  simp only [ClientOptions.parseEnd] at fits ⊢
  simp only [parseEnd]
  have exhausted : ClientOptions.exhaustReplies s.reservedFwdReplies.length s ≠ .error .full := by
    rintro full
    exact fits (by rw [full])
  have agrees := exhaustReplies_whole exhausted
  cases one : ClientOptions.exhaustReplies s.reservedFwdReplies.length s with
  | error e =>
    rw [one] at agrees
    cases agrees
  | ok t =>
    rw [one] at agrees
    have same : exhaustReplies s.reservedFwdReplies.length (whole s) = whole t := Except.ok.inj agrees
    simp only [one] at fits ⊢
    simp only [same]
    by_cases left : t.reservedFwdReplies ≠ []
    · simp only [if_pos left]
      rfl
    · simp only [if_neg left] at fits ⊢
      have added (fits : ClientOptions.ccmdAdd t (.new .reply t.lastRespSize) ≠ .error .full) :
          .ok (ccmdAdd (whole t) .reply t.lastRespSize) =
            (ClientOptions.ccmdAdd t (.new .reply t.lastRespSize)).map whole := by
        have added := opt_whole (f := id) fits
        rwa [setLast_id] at added
      by_cases used : t.last = t.lastReservedUsed
      · simp only [if_pos used] at fits ⊢
        exact added fits
      · simp only [if_neg used] at fits ⊢
        cases here : t.chain.getLast? with
        | none => rfl
        | some last =>
          simp only [here] at fits ⊢
          by_cases answered : last.cmd ≠ .reply
          · simp only [if_pos answered] at fits ⊢
            exact added fits
          · simp only [if_neg answered]
            rfl

/-- A parser that is refused nothing is that of `ClientOptions`. -/
theorem parseFrom_whole {opts : List Opt} {s : ParseState}
    (fits : ClientOptions.parseFrom s opts ≠ .error .full) :
    (parseMany (whole s) opts).bind parseEnd = (ClientOptions.parseFrom s opts).map whole := by
  induction opts generalizing s with
  | nil => exact parseEnd_whole fits
  | cons opt rest ih =>
    simp only [ClientOptions.parseFrom] at fits ⊢
    have one : ClientOptions.parseOpt s opt ≠ .error .full := by
      rintro full
      exact fits (by rw [full])
    rw [parseMany, parseOpt_whole one]
    cases here : ClientOptions.parseOpt s opt with
    | error e => rfl
    | ok t =>
      simp only [here] at fits
      exact ih fits

theorem parseOptions_whole {opts : List Opt} (fits : ClientOptions.parseOptions opts ≠ .error .full) :
    parseOptions opts = (ClientOptions.parseOptions opts).map whole := by
  have agrees := parseFrom_whole (s := .init) fits
  rw [ClientOptions.parseOptions, ← agrees, parseOptions]
  change _ = (parseMany .init opts).bind parseEnd
  cases parseMany .init opts <;> rfl

end FullChain
