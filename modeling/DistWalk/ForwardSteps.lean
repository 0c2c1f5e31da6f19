import DistWalk.FullChain

/-!
# What an option does to the FORWARD commands

Of each node of the chain only its command and its number of acknowledgements are
followed. An option that is no forward adds other commands. A forward adds its
destinations: they become FORWARD_CONTINUEs, except for the first one of a forward that
begins a context.
-/

namespace ForwardSteps

open Message ContextGrammar Template FullChain
open ClientOptions (Opt FwdToken FwdLocals ParseState ParseAbort dests branches branchesBefore needsClose
  continuesContext setBegin setContinue fwdNack toUInt8 modifyFrom clampReply)

def isForward : Opt → Bool
  | .forward _ => true
  | _ => false

/-- The value of the last `nack=`. -/
def lastNack : List FwdToken → Option Int
  | [] => none
  | .nack n :: rest => (lastNack rest).or (some n)
  | _ :: rest => lastNack rest

/-- The `nack=` of a forward that counts: a positive one, and without a branch no more
than its destinations. -/
def ownNack (tokens : List FwdToken) : Option Int :=
  (lastNack tokens).filter fun n => 0 < n ∧ (branches tokens = 0 → n ≤ (dests tokens).length)

/-- The number of acknowledgements that a forward asks for by itself. -/
def asked (tokens : List FwdToken) : Int := (ownNack tokens).getD (dests tokens).length

/-- Where the first command of a context goes, behind the previous branch once that is
closed. -/
def contextStart (s : Builder) : Nat := s.chain.length + if needsClose s.toParseState then 1 else 0

/-- A branch that is still open has a reply reserved for it. -/
def Closable (s : Builder) : Prop := needsClose s.toParseState = true → s.reservedFwdReplies ≠ []

/-! ## Marks -/

/-- What counts of a node. -/
def mark (node : CcmdNode) : CommandType × Nat := (node.cmd, node.fwd.nAck)

def marks (s : Builder) : List (CommandType × Nat) := s.chain.map mark

@[simp]
theorem length_marks (s : Builder) : (marks s).length = s.chain.length := List.length_map _

/-- The node at `i` of the queue is a FORWARD_BEGIN. -/
def Begun (s : Builder) (i : Nat) : Prop := ∃ n, (marks s)[i]? = some (.forwardBegin, n)

theorem map_modify {α β : Type} {f : α → α} {g : α → β} {h : β → β} (commutes : ∀ a, g (f a) = h (g a))
    (l : List α) (i : Nat) : (l.modify i f).map g = (l.map g).modify i h := by
  induction l generalizing i with
  | nil => simp
  | cons a l ih =>
    cases i with
    | zero => simp [commutes]
    | succ i => simp [ih]

/-- What holds of every state between two options. -/
structure Parsed (s : Builder) : Prop where
  degree : 0 ≤ s.branchingDegree
  begins : ∀ i, s.currForwardBegin = some i → i < s.chain.length
  begun : 0 < s.branchingDegree → s.chain ≠ []
  held : s.chain.length ≤ chainCapacity
  behind : ∀ node, s.behind = some node → node.cmd ≠ .forwardBegin

theorem parsed_init : Parsed .init where
  degree := le_refl 0
  begins := by
    intro i h
    cases h
  begun := fun h => absurd h (lt_irrefl 0)
  held := Nat.zero_le _
  behind := by
    intro node h
    cases h

/-! ## Options that are no forward -/

/-- Commands other than FORWARD_BEGIN are added, as far as there is room. -/
structure Quiet (s s' : Builder) : Prop where
  added : ∃ nodes, marks s' = (marks s ++ nodes).take chainCapacity ∧
    ∀ m ∈ nodes, m.1 ≠ CommandType.forwardBegin
  degree : s'.branchingDegree = s.branchingDegree
  begins : s'.currForwardBegin = s.currForwardBegin
  behind : ∀ node, s'.behind = some node → s.behind = some node ∨ node.cmd ≠ .forwardBegin

theorem marks_take {s : Builder} (held : s.chain.length ≤ chainCapacity) :
    (marks s ++ []).take chainCapacity = marks s := by
  rw [List.append_nil, List.take_of_length_le (by rwa [length_marks])]

theorem marks_ccmdAdd {s : Builder} (held : s.chain.length ≤ chainCapacity) (cmd : CommandType)
    (val : PdSpec) :
    marks (ccmdAdd s cmd val) = (marks s ++ [(cmd, 0)]).take chainCapacity := by
  unfold ccmdAdd
  split
  · rename_i room
    rw [List.take_of_length_le (by simpa using room)]
    simp [marks, mark, CcmdNode.new]
  · have full : (marks s).length = chainCapacity := by
      rw [length_marks]
      omega
    rw [← full, List.take_left]
    rfl

theorem marks_setLast {s : Builder} {f : CcmdNode → CcmdNode} (same : ∀ node, mark (f node) = mark node) :
    marks (setLast s f) = marks s := by
  simp only [marks, setLast]
  rw [map_modify (h := id) same, List.modify_id]

theorem ccmdAdd_frame (s : Builder) (cmd : CommandType) (val : PdSpec) :
    (ccmdAdd s cmd val).branchingDegree = s.branchingDegree ∧
      (ccmdAdd s cmd val).currForwardBegin = s.currForwardBegin ∧
      ∀ node, (ccmdAdd s cmd val).behind = some node → s.behind = some node ∨ node.cmd = cmd := by
  unfold ccmdAdd
  split
  · exact ⟨rfl, rfl, fun _ h => Or.inl h⟩
  · refine ⟨rfl, rfl, fun node h => Or.inr ?_⟩
    cases h
    rfl

theorem quiet_ccmdAdd {s : Builder} (held : s.chain.length ≤ chainCapacity) {cmd : CommandType}
    (other : cmd ≠ .forwardBegin) (val : PdSpec) : Quiet s (ccmdAdd s cmd val) := by
  obtain ⟨degree, begins, behind⟩ := ccmdAdd_frame s cmd val
  refine ⟨⟨[(cmd, 0)], marks_ccmdAdd held cmd val, by simpa using other⟩, degree, begins, ?_⟩
  intro node h
  rcases behind node h with old | new
  · exact Or.inl old
  · exact Or.inr (by rwa [new])

theorem Quiet.setLast {s t : Builder} (q : Quiet s t) {f : CcmdNode → CcmdNode}
    (same : ∀ node, mark (f node) = mark node) : Quiet s (setLast t f) where
  added := by
    rw [marks_setLast same]
    exact q.added
  degree := q.degree
  begins := q.begins
  behind := q.behind

theorem Quiet.refl {s : Builder} (held : s.chain.length ≤ chainCapacity) : Quiet s s :=
  ⟨⟨[], (marks_take held).symm, by simp⟩, rfl, rfl, fun _ h => Or.inl h⟩

theorem quiet_closeBranch {s s' : Builder} (held : s.chain.length ≤ chainCapacity)
    (h : closeBranch s = .ok s') : Quiet s s' ∧ Closable s ∧ (marks s').length = min (contextStart s) chainCapacity := by
  simp only [closeBranch] at h
  by_cases branched : s.branchingDegree > 0
  · simp only [if_pos branched] at h
    cases here : s.chain.getLast? with
    | none =>
      simp only [here] at h
      cases h
    | some last =>
      simp only [here] at h
      by_cases answered : last.cmd ≠ .reply
      · simp only [if_pos answered] at h
        have open_ : needsClose s.toParseState = true := by simp [needsClose, here, answered, branched]
        cases reserved : s.reservedFwdReplies.getLast? with
        | none =>
          simp only [reserved] at h
          cases h
        | some key =>
          simp only [reserved, Except.ok.injEq] at h
          subst h
          have added := marks_ccmdAdd held .reply (pdBuildFixed key)
          have quiet := quiet_ccmdAdd held (by decide : CommandType.reply ≠ .forwardBegin) (pdBuildFixed key)
          refine ⟨⟨quiet.added, quiet.degree, quiet.begins, quiet.behind⟩, ?_, ?_⟩
          · rintro - empty
            rw [empty] at reserved
            cases reserved
          · have length := congrArg List.length added
            simpa [contextStart, open_, Nat.min_comm] using length
      · simp only [if_neg answered, Except.ok.injEq] at h
        subst h
        have closed : needsClose s.toParseState = false := by
          simp [needsClose, here, not_not.mp answered]
        refine ⟨Quiet.refl held, fun open_ => ?_, ?_⟩
        · rw [closed] at open_
          cases open_
        · simpa [contextStart, closed] using held
  · simp only [if_neg branched, Except.ok.injEq] at h
    subst h
    have closed : needsClose s.toParseState = false := by simp [needsClose, branched]
    refine ⟨Quiet.refl held, fun open_ => ?_, ?_⟩
    · rw [closed] at open_
      cases open_
    · simpa [contextStart, closed] using held

theorem quiet_parseReply {s : Builder} (held : s.chain.length ≤ chainCapacity) (val : PdSpec)
    (mode : ReplyMode) (devId : Nat) : Quiet s (parseReply s val mode devId) := by
  have other : CommandType.reply ≠ .forwardBegin := by decide
  have added := (quiet_ccmdAdd held other (clampReply val)).setLast (f := setMode mode devId) fun _ => rfl
  simp only [parseReply]
  cases s.chain.getLast? with
  | none => exact added
  | some last =>
    simp only
    split
    · split
      · exact (Quiet.refl held).setLast fun _ => rfl
      · exact added
    · have inner := (quiet_ccmdAdd (s := { s with reservedFwdReplies := s.reservedFwdReplies.dropLast }) held
        other (clampReply val)).setLast (f := setMode mode devId) fun _ => rfl
      exact ⟨inner.added, inner.degree, inner.begins, inner.behind⟩

theorem quiet_parseOpt {s s' : Builder} {opt : Opt} (held : s.chain.length ≤ chainCapacity)
    (own : isForward opt = false) (h : parseOpt s opt = .ok s') : Quiet s s' := by
  cases opt with
  | forward tokens => cases own
  | compTime val =>
    cases h
    exact quiet_ccmdAdd held (by decide) val
  | storeData val off sync devId =>
    cases h
    exact (quiet_ccmdAdd held (by decide) val).setLast fun _ => rfl
  | loadData val off devId =>
    cases h
    exact (quiet_ccmdAdd held (by decide) val).setLast fun _ => rfl
  | skip nSkip nEvery prob =>
    cases h
    exact (quiet_ccmdAdd held (by decide) (pdBuildFixed prob)).setLast fun _ => rfl
  | reply val mode devId =>
    cases h
    exact quiet_parseReply held val mode devId

theorem parseOpt_own {opt : Opt} (own : isForward opt = false) (s : Builder) :
    ∃ s', parseOpt s opt = .ok s' := by
  cases opt with
  | forward tokens => cases own
  | _ => exact ⟨_, rfl⟩

theorem Quiet.length {s s' : Builder} (q : Quiet s s') (held : s.chain.length ≤ chainCapacity) :
    s.chain.length ≤ s'.chain.length ∧ s'.chain.length ≤ chainCapacity := by
  obtain ⟨nodes, eq, -⟩ := q.added
  have length := congrArg List.length eq
  simp only [length_marks, List.length_take, List.length_append] at length
  omega

theorem Quiet.parsed {s s' : Builder} (q : Quiet s s') (p : Parsed s) : Parsed s' := by
  obtain ⟨longer, held⟩ := q.length p.held
  refine ⟨by rw [q.degree]; exact p.degree, ?_, ?_, held, ?_⟩
  · intro i h
    rw [q.begins] at h
    exact lt_of_lt_of_le (p.begins i h) longer
  · intro branched empty
    rw [q.degree] at branched
    have some_node := List.length_pos_iff.mpr (p.begun branched)
    rw [empty, List.length_nil] at longer
    omega
  · intro node h
    rcases q.behind node h with old | other
    · exact p.behind node old
    · exact other

/-- Positions that are in the queue already keep their marks. -/
theorem Quiet.kept {s s' : Builder} (q : Quiet s s') (held : s.chain.length ≤ chainCapacity) {i : Nat}
    (inside : i < s.chain.length) : (marks s')[i]? = (marks s)[i]? := by
  obtain ⟨nodes, eq, -⟩ := q.added
  rw [eq, List.getElem?_take_of_lt (by omega), List.getElem?_append_left (by rwa [length_marks])]

theorem Quiet.begun {s s' : Builder} (q : Quiet s s') {i : Nat} (h : Begun s' i) : Begun s i := by
  obtain ⟨nodes, eq, others⟩ := q.added
  obtain ⟨n, here⟩ := h
  rw [eq, List.getElem?_take] at here
  split at here
  · by_cases inside : i < (marks s).length
    · rw [List.getElem?_append_left inside] at here
      exact ⟨n, here⟩
    · rw [List.getElem?_append_right (by omega)] at here
      exact absurd rfl (others _ (List.mem_of_getElem? here))
  · cases here

/-! ## The tokens of a forward -/

/-- Where `ccmd_last` stands once a node is added. -/
def spot (s : Builder) : Nat := min s.chain.length (chainCapacity - 1)

theorem last_ccmdAdd {s : Builder} (held : s.chain.length ≤ chainCapacity) (cmd : CommandType)
    (val : PdSpec) : (ccmdAdd s cmd val).last = some (spot s) := by
  have capacity : chainCapacity = 100 := rfl
  unfold ccmdAdd
  split
  · simp only [ParseState.last, spot]
    rw [if_neg (by simp)]
    simp only [List.length_append, List.length_cons, List.length_nil, Option.some.injEq]
    omega
  · have nonempty : s.chain ≠ [] := List.length_pos_iff.mp (by omega)
    simp only [ParseState.last, spot, if_neg nonempty, Option.some.injEq]
    omega

/-- The state and the locals after the tokens of a forward, from any locals. -/
structure Tokenized (s : Builder) (v : FwdLocals) (tokens : List FwdToken) (s' : Builder)
    (v' : FwdLocals) : Prop where
  added : marks s' = (marks s ++ List.replicate (dests tokens).length (CommandType.forwardBegin, 0)).take chainCapacity
  behind : dests tokens = [] → s'.behind = s.behind
  degree : s'.branchingDegree = s.branchingDegree + branches tokens
  branched : v'.branched = (v.branched || decide (0 < branches tokens))
  multi : v'.multiFwds = v.multiFwds + (dests tokens).length
  nack : v'.nack = (lastNack tokens).getD v.nack
  start : v'.fwdItrStart = if v.multiFwds = 0 ∧ dests tokens ≠ [] then some (spot s) else v.fwdItrStart
  begins : s'.currForwardBegin =
    if v.multiFwds = 0 ∧ dests tokens ≠ [] ∧ s.branchingDegree + branchesBefore tokens = 0 then
      some (spot s) else s.currForwardBegin

theorem take_take_append {α : Type} (n : Nat) (a b : List α) : (a.take n ++ b).take n = (a ++ b).take n := by
  rcases Nat.le_total a.length n with short | long
  · rw [List.take_of_length_le short]
  · rw [List.take_append_of_le_length long, List.take_append_of_le_length (by simp [long]), List.take_take,
      Nat.min_self]

/-- What one destination does. -/
theorem fwdToken_dest {s : Builder} (held : s.chain.length ≤ chainCapacity) (v : FwdLocals) (proto : Proto)
    (addr : Addr) :
    marks (fwdToken s v (.dest proto addr)).1 = (marks s ++ [(CommandType.forwardBegin, 0)]).take chainCapacity ∧
      (fwdToken s v (.dest proto addr)).1.branchingDegree = s.branchingDegree ∧
      (fwdToken s v (.dest proto addr)).1.currForwardBegin =
        (if v.multiFwds = 0 ∧ s.branchingDegree = 0 then some (spot s) else s.currForwardBegin) ∧
      (fwdToken s v (.dest proto addr)).2.fwdItrStart =
        (if v.multiFwds = 0 then some (spot s) else v.fwdItrStart) := by
  obtain ⟨degree, begins, -⟩ := ccmdAdd_frame s .forwardBegin (pdBuildFixed ClientOptions.defaultRespSize)
  have last := last_ccmdAdd held .forwardBegin (pdBuildFixed ClientOptions.defaultRespSize)
  have added := marks_ccmdAdd held .forwardBegin (pdBuildFixed ClientOptions.defaultRespSize)
  refine ⟨?_, degree, ?_, ?_⟩
  · rw [← added]
    exact marks_setLast fun _ => rfl
  · simp only [fwdToken, setLast, degree, begins]
    rw [← last]
  · simp only [fwdToken]
    rw [← last]
    rfl

theorem fwdTokens_spec {tokens : List FwdToken} {s s' : Builder} {v v' : FwdLocals}
    (held : s.chain.length ≤ chainCapacity) (h : fwdTokens s v tokens = (s', v')) :
    Tokenized s v tokens s' v' := by
  induction tokens generalizing s v with
  | nil =>
    cases h
    exact ⟨(marks_take held).symm, fun _ => rfl, by simp [branches], by simp [branches], rfl, rfl,
      by simp [dests], by simp [dests]⟩
  | cons token rest ih =>
    rw [fwdTokens] at h
    cases token with
    | retry n =>
      obtain ⟨added, behind, degree, branched, multi, nack, start, begins⟩ := ih held h
      exact ⟨added, behind, degree, branched, multi, nack, start, begins⟩
    | timeout us =>
      obtain ⟨added, behind, degree, branched, multi, nack, start, begins⟩ := ih held h
      exact ⟨added, behind, degree, branched, multi, nack, start, begins⟩
    | nack n =>
      obtain ⟨added, behind, degree, branched, multi, nack, start, begins⟩ := ih held h
      refine ⟨added, behind, degree, branched, multi, ?_, start, begins⟩
      rw [nack, lastNack]
      cases lastNack rest with
      | none => rfl
      | some k => rfl
    | branch =>
      obtain ⟨added, behind, degree, branched, multi, nack, start, begins⟩ :=
        ih (s := (fwdToken s v .branch).1) held h
      refine ⟨added, behind, ?_, ?_, multi, nack, start, ?_⟩
      · rw [degree]
        simp only [fwdToken, branches]
        push_cast
        omega
      · simpa [fwdToken, branches] using branched
      · have moved : s.branchingDegree + 1 + (branchesBefore rest : Int) =
            s.branchingDegree + ((branchesBefore rest + 1 : Nat) : Int) := by
          push_cast
          omega
        rw [begins]
        simp only [fwdToken, branchesBefore, moved]
        rfl
    | dest proto addr =>
      obtain ⟨marked, degree1, begins1, start1⟩ := fwdToken_dest held v proto addr
      have length1 : (fwdToken s v (.dest proto addr)).1.chain.length = min chainCapacity (s.chain.length + 1) := by
        rw [← length_marks, marked, List.length_take, List.length_append, length_marks]
        rfl
      obtain ⟨added, behind, degree, branched, multi, nack, start, begins⟩ := ih (by omega) h
      refine ⟨?_, fun none => ?_, ?_, branched, ?_, nack, ?_, ?_⟩
      · rw [added, marked, take_take_append]
        simp [dests, List.replicate_succ]
      · simp [dests] at none
      · rw [degree, degree1]
        rfl
      · rw [multi]
        simp only [fwdToken, dests, List.filterMap_cons, List.length_cons]
        omega
      · rw [start, start1]
        simp [fwdToken, dests]
      · rw [begins, begins1]
        simp [fwdToken, dests, branchesBefore]

/-! ## One forward -/

theorem parseForward_eq_ok {s s' : Builder} {tokens : List FwdToken}
    (h : parseForward s tokens = .ok s') : ∃ s1 s2 v s3 s4, closeBranch s = .ok s1 ∧
      fwdTokens s1 .init tokens = (s2, v) ∧ updateBegin (settleBegin s2 v) v = .ok s3 ∧
      continueOthers s3 v = .ok s4 ∧ s' = reserveReply s4 := by
  simp only [parseForward] at h
  cases h1 : closeBranch s with
  | error e => simp only [h1] at h; cases h
  | ok s1 =>
    simp only [h1] at h
    cases h2 : fwdTokens s1 .init tokens with
    | mk s2 v =>
      simp only [h2] at h
      cases h3 : updateBegin (settleBegin s2 v) v with
      | error e => simp only [h3] at h; cases h
      | ok s3 =>
        simp only [h3] at h
        cases h4 : continueOthers s3 v with
        | error e => simp only [h4] at h; cases h
        | ok s4 =>
          simp only [h4, Except.ok.injEq] at h
          exact ⟨s1, s2, v, s3, s4, rfl, h2, h3, h4, h.symm⟩

theorem settleBegin_chain (s : Builder) (v : FwdLocals) : (settleBegin s v).chain = s.chain := by
  simp only [settleBegin, ClientOptions.settleBegin]
  split <;> rfl

/-- The branch that a forward belongs to, and how many are open. -/
theorem settled_begins {s s1 s2 : Builder} {tokens : List FwdToken} {v : FwdLocals} (q : Quiet s s1)
    (t : Tokenized s1 .init tokens s2 v) :
    (settleBegin s2 v).currForwardBegin = (if dests tokens = [] then
        if branches tokens = 0 then none else s.currForwardBegin
      else if continuesContext s.toParseState tokens then s.currForwardBegin else some (spot s1)) ∧
      (settleBegin s2 v).branchingDegree =
        if branches tokens = 0 then 0 else s.branchingDegree + branches tokens := by
  have start := t.start
  have begins := t.begins
  have branched := t.branched
  have degree := t.degree
  rw [q.degree] at begins degree
  rw [q.begins] at begins
  simp only [FwdLocals.init, true_and, Bool.false_or] at start begins branched
  simp only [settleBegin, ClientOptions.settleBegin, continuesContext]
  by_cases plain : branches tokens = 0
  · rw [if_pos (by simp [branched, plain])]
    simp [plain, start]
  · rw [if_neg (by simp [branched]; omega)]
    refine ⟨?_, by rw [if_neg plain]; exact degree⟩
    rw [begins]
    by_cases none : dests tokens = []
    · simp [none, plain]
    · by_cases fresh : s.branchingDegree + branchesBefore tokens = 0
      · simp [none, fresh]
      · simp [none, fresh, Nat.pos_of_ne_zero plain]

/-- What writing the parameters does. -/
structure Updated (s : Builder) (v : FwdLocals) (s' : Builder) : Prop where
  written : ∀ i, (marks s')[i]? = if s.branchingDegree ≤ 1 ∧ s.currForwardBegin = some i then
    (marks s)[i]?.map fun m => (m.1, toUInt8 (m.2 + fwdNack v)) else (marks s)[i]?
  length : s'.chain.length = s.chain.length
  degree : s'.branchingDegree = s.branchingDegree
  begins : s'.currForwardBegin = s.currForwardBegin
  behind : s'.behind = s.behind

theorem updateBegin_spec {s s' : Builder} {v : FwdLocals} (h : updateBegin s v = .ok s') :
    Updated s v s' := by
  simp only [updateBegin, ClientOptions.updateBegin] at h
  split at h
  · rename_i low
    cases begun : s.currForwardBegin with
    | none =>
      simp only [begun] at h
      cases h
    | some i =>
      simp only [begun] at h
      cases h
      refine ⟨fun j => ?_, List.length_modify .., rfl, begun.symm, rfl⟩
      simp only [marks]
      rw [map_modify (h := fun m => (m.1, toUInt8 (m.2 + fwdNack v))) (fun _ => rfl), List.getElem?_modify]
      by_cases same : i = j
      · subst same
        simp [low, begun]
      · simp [same, begun]
  · rename_i high
    cases h
    refine ⟨fun j => ?_, rfl, rfl, rfl, rfl⟩
    rw [if_neg fun both => high both.1]

/-- The nodes from `i` on have been changed. -/
theorem getElem?_modifyFrom (f : CcmdNode → CcmdNode) (i j : Nat) (chain : List CcmdNode) :
    (modifyFrom f i chain)[j]? = if j < i then chain[j]? else chain[j]?.map f := by
  rw [modifyFrom, List.getElem?_append, List.length_take]
  by_cases inside : j < chain.length
  · by_cases before : j < i
    · rw [if_pos (by omega), if_pos before, List.getElem?_take_of_lt before]
    · have place : i + (j - min i chain.length) = j := by omega
      rw [if_neg (by omega), if_neg before, List.getElem?_map, List.getElem?_drop, place]
  · have beyond : chain[j]? = none := List.getElem?_eq_none_iff.mpr (by omega)
    rw [if_neg (by omega), List.getElem?_map, List.getElem?_drop, beyond,
      List.getElem?_eq_none_iff.mpr (by omega)]
    split <;> rfl

theorem length_modifyFrom (f : CcmdNode → CcmdNode) (i : Nat) (chain : List CcmdNode) :
    (modifyFrom f i chain).length = chain.length := by
  simp only [modifyFrom, List.length_append, List.length_take, List.length_map, List.length_drop]
  omega

/-- What turning the other nodes into FORWARD_CONTINUEs does. -/
structure Continuing (s : Builder) (v : FwdLocals) (s' : Builder) : Prop where
  begun : v.fwdItrStart = none → s.currForwardBegin ≠ none
  kept : v.fwdItrStart = none → marks s' = marks s ∧ s'.behind = s.behind
  changed : ∀ i, v.fwdItrStart = some i → (∀ k, (marks s')[k]? =
    if k < (if s.currForwardBegin = some i then i + 1 else i) then (marks s)[k]?
    else (marks s)[k]?.map fun _ => (CommandType.forwardContinue, 0)) ∧
    ∀ node, s'.behind = some node → node.cmd = .forwardContinue
  length : s'.chain.length = s.chain.length
  degree : s'.branchingDegree = s.branchingDegree
  begins : s'.currForwardBegin = s.currForwardBegin

theorem continueOthers_spec {s s' : Builder} {v : FwdLocals} (h : continueOthers s v = .ok s') :
    Continuing s v s' := by
  simp only [continueOthers, ClientOptions.continueOthers] at h
  cases start : v.fwdItrStart with
  | none =>
    by_cases begun : s.currForwardBegin = none
    · simp only [start, if_pos begun] at h
      cases h
    · simp only [start, if_neg begun] at h
      cases h
      refine ⟨fun _ => begun, fun _ => ⟨rfl, rfl⟩, ?_, rfl, rfl, rfl⟩
      intro i other
      rw [start] at other
      cases other
  | some i =>
    simp only [start, Except.map, Except.ok.injEq] at h
    subst h
    refine ⟨?_, ?_, ?_, length_modifyFrom .., rfl, rfl⟩
    · intro none
      rw [start] at none
      cases none
    · intro none
      rw [start] at none
      cases none
    · intro j same
      rw [start] at same
      cases same
      refine ⟨fun k => ?_, ?_⟩
      · simp only [marks, List.getElem?_map, getElem?_modifyFrom]
        generalize (if s.currForwardBegin = some i then i + 1 else i) = j
        by_cases before : k < j
        · simp only [if_pos before]
        · simp only [if_neg before, Option.map_map]
          rfl
      · intro node behind
        simp at behind
        obtain ⟨old, -, rfl⟩ := behind
        rfl

/-- A forward, step by step. -/
structure Steps (s : Builder) (tokens : List FwdToken) (s' : Builder) : Prop where
  closable : Closable s
  steps : ∃ s1 s2 v s3, Quiet s s1 ∧ s1.chain.length = min (contextStart s) chainCapacity ∧
    Tokenized s1 .init tokens s2 v ∧ Updated (settleBegin s2 v) v s3 ∧ Continuing s3 v s'

theorem parseForward_steps {s s' : Builder} {tokens : List FwdToken} (p : Parsed s)
    (h : parseForward s tokens = .ok s') : Steps s tokens s' := by
  obtain ⟨s1, s2, v, s3, s4, h1, h2, h3, h4, rfl⟩ := parseForward_eq_ok h
  obtain ⟨quiet, closable, length⟩ := quiet_closeBranch p.held h1
  have continuing := continueOthers_spec h4
  refine ⟨closable, s1, s2, v, s3, quiet, ?_, ?_, updateBegin_spec h3, ?_⟩
  · rwa [length_marks] at length
  · exact fwdTokens_spec (quiet.length p.held).2 h2
  · exact ⟨continuing.begun, continuing.kept, continuing.changed, continuing.length,
      continuing.degree, continuing.begins⟩

/-- Where a forward has a destination and continues no context, it begins one. -/
def Begins (s : Builder) (tokens : List FwdToken) : Prop :=
  dests tokens ≠ [] ∧ continuesContext s.toParseState tokens = false

theorem Tokenized.inside {s s' : Builder} {v v' : FwdLocals} {tokens : List FwdToken}
    (t : Tokenized s v tokens s' v') (held : s.chain.length ≤ chainCapacity) {i : Nat}
    (inside : i < s.chain.length) : (marks s')[i]? = (marks s)[i]? := by
  rw [t.added, List.getElem?_take_of_lt (by omega), List.getElem?_append_left (by rwa [length_marks])]

theorem Tokenized.outside {s s' : Builder} {v v' : FwdLocals} {tokens : List FwdToken}
    (t : Tokenized s v tokens s' v') {i : Nat} (outside : s.chain.length ≤ i) :
    (marks s')[i]? = if i < min (s.chain.length + (dests tokens).length) chainCapacity then
      some (.forwardBegin, 0) else none := by
  have place : (marks s ++ List.replicate (dests tokens).length (CommandType.forwardBegin, 0))[i]? =
      if i < s.chain.length + (dests tokens).length then some (.forwardBegin, 0) else none := by
    rw [List.getElem?_append_right (by rwa [length_marks]), List.getElem?_replicate, length_marks]
    by_cases below : i < s.chain.length + (dests tokens).length
    · rw [if_pos below, if_pos (by omega)]
    · rw [if_neg below, if_neg (by omega)]
  rw [t.added, List.getElem?_take, place]
  by_cases room : i < chainCapacity
  · simp [room]
  · simp [room]

theorem fwdNack_eq {tokens : List FwdToken} {s s' : Builder} {v : FwdLocals}
    (t : Tokenized s .init tokens s' v) : fwdNack v = asked tokens := by
  have plain : v.branched = false ↔ branches tokens = 0 := by
    rw [t.branched]
    simp [FwdLocals.init]
  have multi : v.multiFwds = (dests tokens).length := t.multi.trans (Nat.zero_add _)
  have nack : v.nack = (lastNack tokens).getD (-1) := t.nack
  simp only [fwdNack, asked, ownNack, plain, multi, nack]
  cases lastNack tokens with
  | none => simp
  | some n =>
    simp only [Option.filter_some, Option.getD_some]
    by_cases counts : 0 < n ∧ (branches tokens = 0 → n ≤ (dests tokens).length)
    · rw [if_neg (by omega), if_pos (decide_eq_true counts)]
      rfl
    · rw [if_pos (by omega), if_neg (by rwa [decide_eq_true_eq])]
      rfl

section Steps

variable {s s' : Builder} {tokens : List FwdToken}

theorem Steps.degree (f : Steps s tokens s') :
    s'.branchingDegree = if branches tokens = 0 then 0 else s.branchingDegree + branches tokens := by
  obtain ⟨s1, s2, v, s3, quiet, -, tokenized, updated, continuing⟩ := f.steps
  rw [continuing.degree, updated.degree, (settled_begins quiet tokenized).2]

theorem Steps.begins (f : Steps s tokens s') : s'.currForwardBegin =
    if dests tokens = [] then if branches tokens = 0 then none else s.currForwardBegin
    else if continuesContext s.toParseState tokens then s.currForwardBegin
    else some (min (contextStart s) (chainCapacity - 1)) := by
  obtain ⟨s1, s2, v, s3, quiet, length, tokenized, updated, continuing⟩ := f.steps
  have capacity : chainCapacity = 100 := rfl
  have place : spot s1 = min (contextStart s) (chainCapacity - 1) := by
    rw [spot, length]
    omega
  rw [continuing.begins, updated.begins, (settled_begins quiet tokenized).1, place]

theorem Steps.length (f : Steps s tokens s') :
    s'.chain.length = min (contextStart s + (dests tokens).length) chainCapacity := by
  obtain ⟨s1, s2, v, s3, quiet, length, tokenized, updated, continuing⟩ := f.steps
  have added := congrArg List.length tokenized.added
  simp only [length_marks, List.length_take, List.length_append, List.length_replicate] at added
  rw [continuing.length, updated.length, settleBegin_chain, added, length]
  omega

/-- A FORWARD_BEGIN behind a forward has been one before, or is its own first node. -/
theorem Steps.begun (f : Steps s tokens s') (p : Parsed s) {i : Nat} (h : Begun s' i) :
    Begun s i ∨ i = contextStart s ∧ i < chainCapacity ∧ Begins s tokens := by
  obtain ⟨s1, s2, v, s3, quiet, length, tokenized, updated, continuing⟩ := f.steps
  have capacity : chainCapacity = 100 := rfl
  have settled := (settled_begins quiet tokenized).1
  obtain ⟨n, here⟩ := h
  -- what is a FORWARD_BEGIN in the end has not become a FORWARD_CONTINUE
  have written : (marks s3)[i]? = some (.forwardBegin, n) ∧ (s1.chain.length ≤ i → dests tokens ≠ [] →
      i = spot s1 ∧ s3.currForwardBegin = some i) := by
    cases start : v.fwdItrStart with
    | none =>
      rw [(continuing.kept start).1] at here
      refine ⟨here, fun _ some_dest => ?_⟩
      rw [tokenized.start, if_pos ⟨rfl, some_dest⟩] at start
      cases start
    | some j =>
      rw [(continuing.changed j start).1] at here
      have known := tokenized.start
      rw [start] at known
      by_cases before : i < if s3.currForwardBegin = some j then j + 1 else j
      · rw [if_pos before] at here
        refine ⟨here, fun new some_dest => ?_⟩
        rw [if_pos ⟨rfl, some_dest⟩, Option.some.injEq] at known
        subst known
        by_cases same : s3.currForwardBegin = some (spot s1)
        · rw [if_pos same] at before
          have place : i = spot s1 := by
            simp only [spot] at before ⊢
            omega
          exact ⟨place, by rw [place]; exact same⟩
        · rw [if_neg same] at before
          simp only [spot] at before
          omega
      · rw [if_neg before, Option.map_eq_some_iff] at here
        obtain ⟨m, -, other⟩ := here
        cases other
  obtain ⟨at3, own⟩ := written
  have at2 : ∃ m, (marks s2)[i]? = some (.forwardBegin, m) := by
    rw [updated.written, marks, settleBegin_chain] at at3
    split at at3
    · obtain ⟨m, there, e⟩ := Option.map_eq_some_iff.mp at3
      cases m
      cases e
      exact ⟨_, there⟩
    · exact ⟨n, at3⟩
  obtain ⟨m, at2⟩ := at2
  by_cases old : i < s1.chain.length
  · rw [tokenized.inside (quiet.length p.held).2 old] at at2
    exact Or.inl (quiet.begun ⟨m, at2⟩)
  · right
    rw [tokenized.outside (by omega)] at at2
    have below : i < min (s1.chain.length + (dests tokens).length) chainCapacity := by
      by_contra beyond
      rw [if_neg beyond] at at2
      cases at2
    have some_dest : dests tokens ≠ [] := by
      intro none
      rw [none, List.length_nil] at below
      omega
    obtain ⟨place, begun⟩ := own (by omega) some_dest
    simp only [spot] at place
    rw [updated.begins, settled, if_neg some_dest] at begun
    refine ⟨by omega, by omega, some_dest, ?_⟩
    by_contra continues
    rw [if_pos (by simpa using continues)] at begun
    have := p.begins i begun
    have := (quiet.length p.held).1
    omega

/-- The first node of a forward that begins a context: it has been given the number
asked for, unless two branches have been counted already. -/
theorem Steps.first (f : Steps s tokens s') (begins : Begins s tokens)
    (room : contextStart s < chainCapacity) : s'.currForwardBegin = some (contextStart s) ∧
      (marks s')[contextStart s]? = some (.forwardBegin,
        if branches tokens = 0 ∨ s.branchingDegree + branches tokens ≤ 1 then toUInt8 (asked tokens) else 0) := by
  have capacity : chainCapacity = 100 := rfl
  obtain ⟨some_dest, fresh⟩ := begins
  have curr := f.begins
  rw [if_neg some_dest, if_neg (by simp [fresh]), Nat.min_eq_left (by omega)] at curr
  refine ⟨curr, ?_⟩
  obtain ⟨s1, s2, v, s3, quiet, length, tokenized, updated, continuing⟩ := f.steps
  have degree := (settled_begins quiet tokenized).2
  rw [Nat.min_eq_left (by omega)] at length
  have start : v.fwdItrStart = some (contextStart s) := by
    rw [tokenized.start, if_pos ⟨rfl, some_dest⟩, spot, length, Nat.min_eq_left (by omega)]
  have curr3 : s3.currForwardBegin = some (contextStart s) := continuing.begins.symm.trans curr
  have new : (marks s2)[contextStart s]? = some (.forwardBegin, 0) := by
    have some_dests := List.length_pos_iff.mpr some_dest
    rw [tokenized.outside (by omega), if_pos (by omega)]
  rw [(continuing.changed _ start).1, curr3, if_pos rfl, if_pos (Nat.lt_succ_self _), updated.written, marks,
    settleBegin_chain, ← marks, new, ← updated.begins, curr3, degree, ← fwdNack_eq tokenized]
  by_cases plain : branches tokens = 0
  · simp [plain]
  · by_cases low : s.branchingDegree + branches tokens ≤ 1
    · simp [plain, low]
    · simp [plain, low]

/-- A further branch keeps the FORWARD_BEGIN of its context. -/
theorem Steps.kept (f : Steps s tokens s') (p : Parsed s) (branched : 0 < branches tokens)
    (degree : 1 ≤ s.branchingDegree) {q : Nat} (here : s.currForwardBegin = some q) :
    s'.currForwardBegin = some q ∧ (marks s')[q]? = (marks s)[q]? := by
  have capacity : chainCapacity = 100 := rfl
  have curr : s'.currForwardBegin = some q := by
    rw [f.begins, here]
    by_cases none : dests tokens = []
    · rw [if_pos none, if_neg (by omega)]
    · have continues : continuesContext s.toParseState tokens = true := by
        simp only [continuesContext, decide_eq_true_eq]
        exact ⟨none, branched, by omega⟩
      rw [if_neg none, if_pos continues]
  refine ⟨curr, ?_⟩
  obtain ⟨s1, s2, v, s3, quiet, length, tokenized, updated, continuing⟩ := f.steps
  obtain ⟨longer, held⟩ := quiet.length p.held
  have inside := p.begins q here
  have many := (settled_begins quiet tokenized).2
  rw [if_neg (by omega)] at many
  have at3 : (marks s3)[q]? = (marks s)[q]? := by
    rw [updated.written, if_neg (by rw [many]; omega), marks, settleBegin_chain, ← marks,
      tokenized.inside held (by omega), quiet.kept p.held inside]
  rw [← at3]
  cases start : v.fwdItrStart with
  | none => rw [(continuing.kept start).1]
  | some j =>
    have known := tokenized.start
    rw [start] at known
    have place : j = spot s1 := by
      split at known
      · exact Option.some.inj known
      · cases known
    simp only [spot] at place
    rw [(continuing.changed j start).1, ← continuing.begins, curr, if_pos]
    by_cases same : q = j
    · rw [if_pos (by rw [same])]
      omega
    · rw [if_neg (by simpa using same)]
      omega

/-- A forward without a destination is a branch of a context that has begun. -/
theorem Steps.known (f : Steps s tokens s') (none : dests tokens = []) :
    s'.currForwardBegin ≠ Option.none := by
  obtain ⟨s1, s2, v, s3, quiet, length, tokenized, updated, continuing⟩ := f.steps
  have start : v.fwdItrStart = Option.none := by
    rw [tokenized.start, if_neg (fun both => both.2 none)]
    rfl
  rw [continuing.begins]
  exact continuing.begun start

/-- The node behind the queue, if the forward has put one there, is a FORWARD_CONTINUE. -/
theorem Steps.behind (f : Steps s tokens s') (p : Parsed s) {node : CcmdNode}
    (h : s'.behind = some node) : node.cmd ≠ .forwardBegin := by
  obtain ⟨s1, s2, v, s3, quiet, length, tokenized, updated, continuing⟩ := f.steps
  have start := tokenized.start
  by_cases none : dests tokens = []
  · rw [if_neg (fun both => both.2 none)] at start
    rw [(continuing.kept start).2, updated.behind] at h
    exact (quiet.parsed p).behind node ((tokenized.behind none).symm.trans h)
  · rw [if_pos ⟨rfl, none⟩] at start
    rw [(continuing.changed _ start).2 node h]
    decide

theorem Steps.longer (f : Steps s tokens s') (p : Parsed s) : s.chain.length ≤ s'.chain.length := by
  have held := p.held
  rw [f.length, contextStart]
  omega

theorem Steps.inside (f : Steps s tokens s') (p : Parsed s) :
    ∀ i, s'.currForwardBegin = some i → i < s'.chain.length := by
  have capacity : chainCapacity = 100 := rfl
  have length := f.length
  intro i here
  by_cases none : dests tokens = []
  · rw [f.begins, if_pos none] at here
    split at here
    · cases here
    · exact lt_of_lt_of_le (p.begins i here) (f.longer p)
  · have some_dests := List.length_pos_iff.mpr none
    rw [f.begins, if_neg none] at here
    split at here
    · exact lt_of_lt_of_le (p.begins i here) (f.longer p)
    · cases here
      omega

/-- Behind a forward there is a command. -/
theorem Steps.nonempty (f : Steps s tokens s') (p : Parsed s) : s'.chain ≠ [] := by
  intro empty
  have length := f.length
  have inside := f.inside p
  rw [empty, List.length_nil] at length inside
  by_cases none : dests tokens = []
  · obtain ⟨i, here⟩ := Option.ne_none_iff_exists'.mp (f.known none)
    exact absurd (inside i here) (Nat.not_lt_zero i)
  · have := List.length_pos_iff.mpr none
    have capacity : chainCapacity = 100 := rfl
    omega

theorem Steps.parsed (f : Steps s tokens s') (p : Parsed s) : Parsed s' := by
  have length := f.length
  have degree := p.degree
  refine ⟨?_, f.inside p, fun _ => f.nonempty p, by omega, fun node => f.behind p⟩
  rw [f.degree]
  split <;> omega

end Steps

theorem Parsed.opt {s s' : Builder} {opt : Opt} (p : Parsed s) (h : parseOpt s opt = .ok s') :
    Parsed s' := by
  cases opt with
  | forward tokens => exact (parseForward_steps p h).parsed p
  | _ => exact (quiet_parseOpt p.held rfl h).parsed p

theorem Parsed.many {s s' : Builder} {opts : List Opt} (p : Parsed s)
    (h : parseMany s opts = .ok s') : Parsed s' := by
  induction opts generalizing s with
  | nil =>
    cases h
    exact p
  | cons opt rest ih =>
    simp only [parseMany] at h
    cases parsed : parseOpt s opt with
    | error e =>
      simp only [parsed] at h
      cases h
    | ok t =>
      simp only [parsed] at h
      exact ih (p.opt parsed) h

/-! ## Going on in a context -/

/-- The parser goes on in the context as it is. -/
structure Continued (s s' : Builder) : Prop where
  degree : s.branchingDegree ≤ s'.branchingDegree
  kept : ∀ q, s.currForwardBegin = some q → s'.currForwardBegin = some q ∧ (marks s')[q]? = (marks s)[q]?
  begun : ∀ i, Begun s' i → Begun s i

theorem Continued.refl (s : Builder) : Continued s s :=
  ⟨le_refl _, fun _ here => ⟨here, rfl⟩, fun _ begun => begun⟩

theorem Continued.trans {a b c : Builder} (ab : Continued a b) (bc : Continued b c) : Continued a c := by
  refine ⟨ab.degree.trans bc.degree, fun q here => ?_, fun i begun => ab.begun i (bc.begun i begun)⟩
  obtain ⟨there, same⟩ := ab.kept q here
  obtain ⟨final, again⟩ := bc.kept q there
  exact ⟨final, again.trans same⟩

theorem Quiet.continued {s s' : Builder} (q : Quiet s s') (p : Parsed s) : Continued s s' := by
  refine ⟨le_of_eq q.degree.symm, fun i here => ?_, fun i => q.begun⟩
  exact ⟨q.begins.trans here, q.kept p.held (p.begins i here)⟩

/-- A further branch continues its context. -/
theorem Steps.continued {s s' : Builder} {tokens : List FwdToken} (f : Steps s tokens s') (p : Parsed s)
    (branched : 0 < branches tokens) (degree : 1 ≤ s.branchingDegree) : Continued s s' := by
  refine ⟨?_, fun q here => f.kept p branched degree here, fun i begun => ?_⟩
  · rw [f.degree, if_neg (by omega)]
    omega
  · rcases f.begun p begun with old | ⟨-, -, some_dest, fresh⟩
    · exact old
    · simp only [continuesContext, decide_eq_false_iff_not] at fresh
      exact absurd ⟨some_dest, branched, by omega⟩ fresh

theorem rest_continued {opts : List Opt} {s s' : Builder} (p : Parsed s)
    (own : ∀ opt ∈ opts, isForward opt = false) (h : parseMany s opts = .ok s') : Continued s s' := by
  induction opts generalizing s with
  | nil =>
    cases h
    exact Continued.refl _
  | cons opt rest ih =>
    simp only [parseMany] at h
    have quiet := own opt (List.mem_cons_self ..)
    obtain ⟨t, parsed⟩ := parseOpt_own quiet s
    simp only [parsed] at h
    have first := (quiet_parseOpt p.held quiet parsed).continued p
    exact first.trans (ih (p.opt parsed) (fun o member => own o (List.mem_cons_of_mem _ member)) h)

theorem parseMany_own {opts : List Opt} (own : ∀ opt ∈ opts, isForward opt = false) (s : Builder) :
    ∃ s', parseMany s opts = .ok s' := by
  induction opts generalizing s with
  | nil => exact ⟨s, rfl⟩
  | cons opt rest ih =>
    obtain ⟨t, parsed⟩ := parseOpt_own (own opt (List.mem_cons_self ..)) s
    simp only [parseMany, parsed]
    exact ih (fun o member => own o (List.mem_cons_of_mem _ member)) t

/-! ## What may fail -/

theorem closeBranch_ok {s : Builder} (p : Parsed s) (closable : Closable s) : ∃ s', closeBranch s = .ok s' := by
  simp only [closeBranch]
  by_cases branched : s.branchingDegree > 0
  · simp only [if_pos branched]
    obtain ⟨last, here⟩ := Option.ne_none_iff_exists'.mp (mt List.getLast?_eq_none_iff.mp (p.begun branched))
    simp only [here]
    by_cases answered : last.cmd ≠ .reply
    · simp only [if_pos answered]
      have open_ : needsClose s.toParseState = true := by simp [needsClose, here, answered, branched]
      obtain ⟨key, reserved⟩ := Option.ne_none_iff_exists'.mp (mt List.getLast?_eq_none_iff.mp (closable open_))
      simp only [reserved]
      exact ⟨_, rfl⟩
    · simp only [if_neg answered]
      exact ⟨_, rfl⟩
  · simp only [if_neg branched]
    exact ⟨_, rfl⟩

theorem updateBegin_ok {s : Builder} (begun : s.currForwardBegin ≠ none) (v : FwdLocals) :
    ∃ s', updateBegin s v = .ok s' := by
  obtain ⟨i, here⟩ := Option.ne_none_iff_exists'.mp begun
  simp only [updateBegin, ClientOptions.updateBegin, here]
  split <;> exact ⟨_, rfl⟩

theorem continueOthers_ok {s : Builder} (begun : s.currForwardBegin ≠ none) (v : FwdLocals) :
    ∃ s', continueOthers s v = .ok s' := by
  simp only [continueOthers, ClientOptions.continueOthers]
  cases v.fwdItrStart with
  | none =>
    simp only [if_neg begun]
    exact ⟨_, rfl⟩
  | some i => exact ⟨_, rfl⟩

/-- A forward that can close its predecessor goes through where it begins a context, or
is a branch of one that has begun. -/
theorem parseForward_ok {s : Builder} {tokens : List FwdToken} (p : Parsed s) (closable : Closable s)
    (known : Begins s tokens ∨ 0 < branches tokens ∧ s.currForwardBegin ≠ none) :
    ∃ s', parseForward s tokens = .ok s' := by
  obtain ⟨s1, closed⟩ := closeBranch_ok p closable
  obtain ⟨quiet, -, -⟩ := quiet_closeBranch p.held closed
  cases tokenized : fwdTokens s1 .init tokens with
  | mk s2 v =>
    have settled := (settled_begins quiet (fwdTokens_spec (quiet.length p.held).2 tokenized)).1
    have begun : (settleBegin s2 v).currForwardBegin ≠ none := by
      rw [settled]
      rcases known with ⟨some_dest, fresh⟩ | ⟨branched, begun⟩
      · simp [some_dest, fresh]
      · rw [if_neg (by omega : ¬ branches tokens = 0)]
        split
        · exact begun
        · split
          · exact begun
          · simp
    obtain ⟨s3, updated⟩ := updateBegin_ok begun v
    have begun3 : s3.currForwardBegin ≠ none := by
      rw [(updateBegin_spec updated).begins]
      exact begun
    obtain ⟨s4, continued⟩ := continueOthers_ok begun3 v
    exact ⟨reserveReply s4, by simp only [parseForward, closed, tokenized, updated, continued]⟩

end ForwardSteps
