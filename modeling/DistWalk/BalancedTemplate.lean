import DistWalk.ClientOptions

/-!
# The template that the options build is balanced

The parser keeps the chain readable as contexts: there is a reply reserved for
every scope that is still open, so that the end can close them all. What can go
wrong is a FORWARD_CONTINUE in a place where no context can be continued, and a
NULL pointer on the way to it.
-/

namespace BalancedTemplate

open Message ContextGrammar Template ClientOptions

def endsInReply (s : ParseState) : Bool := s.chain.getLast?.any fun last => last.cmd = .reply

/-- The parsing state while the chain has `d` scopes open and ends at `spot`. -/
structure Balanced (s : ParseState) (d : Nat) (spot : Spot) : Prop where
  scanned : scan id start (kinds s.chain) = some (d, spot)
  reserved : d ≤ s.reservedFwdReplies.length
  answered : s.reservedFwdReplies = [] → s.last ≠ s.lastReservedUsed → endsInReply s = true →
    spot = .top
  scope : (s.reservedFwdReplies.length : Int) ≤ s.fwdScope
  used : ∀ i, s.lastReservedUsed = some i → i < s.chain.length
  degree : 0 ≤ s.branchingDegree
  begun : 0 < s.branchingDegree → s.chain ≠ []
  begins : ∀ i, s.currForwardBegin = some i → i < s.chain.length
  unbegun : s.currForwardBegin = none → d = 0 ∧ spot ≠ .header ∧ spot ≠ .closed

theorem balanced_init : Balanced .init 0 .other :=
  ⟨rfl, le_rfl, fun _ _ _ => by contradiction, le_rfl, by simp [ParseState.init],
    le_rfl, by simp [ParseState.init], by simp [ParseState.init], by simp⟩

/-- The scopes left open by a REPLY. -/
def afterReply : Nat → Nat × Spot
  | 0 => (0, .top)
  | d + 1 => (d, .closed)

theorem scanItem_afterReply (d : Nat) (spot : Spot) :
    scanItem (d, spot) .closes = some (afterReply d) := by
  cases d with
  | zero => exact scanItem_closes_top spot
  | succ d => exact scanItem_closes d spot

theorem scan_snoc {k : List Kind} {t t' : Nat × Spot} {x : Kind} (h : scan id start k = some t)
    (item : scanItem t x = some t') : scan id start (k ++ [x]) = some t' := by
  rw [scan_append, h, Option.bind_some, scan, id_eq, item]
  rfl

/-- Appending a command that is neither a FORWARD nor a REPLY. -/
theorem Balanced.simple {s : ParseState} {d : Nat} {spot : Spot} (h : Balanced s d spot)
    {node : CcmdNode} (plain : nodeKind node = .simple) (other : node.cmd ≠ .reply) :
    Balanced { s with chain := s.chain ++ [node] } d .other where
  scanned := by
    rw [kinds_append]
    exact scan_snoc h.scanned (by simp only [plain, scanItem_simple])
  reserved := h.reserved
  answered := by
    intro _ _ reply
    simp [endsInReply, other] at reply
  scope := h.scope
  used := by
    intro i hi
    have := h.used i hi
    simp only [List.length_append, List.length_cons, List.length_nil]
    omega
  degree := h.degree
  begun := by simp
  begins := by
    intro i hi
    have := h.begins i hi
    simp only [List.length_append, List.length_cons, List.length_nil]
    omega
  unbegun := fun none_begun => ⟨(h.unbegun none_begun).1, by simp, by simp⟩

/-- Appending a REPLY that answers the scope it closes, if any: one reserved reply
is used up and the scope counter goes down with it. -/
theorem Balanced.reply {s : ParseState} {d : Nat} {spot : Spot} (h : Balanced s d spot)
    {node : CcmdNode} (closing : nodeKind node = .closes) (open_scope : 0 < s.fwdScope) :
    Balanced { s with
        chain := s.chain ++ [node]
        reservedFwdReplies := s.reservedFwdReplies.dropLast
        lastReservedUsed := some s.chain.length
        fwdScope := s.fwdScope - 1 } (afterReply d).1 (afterReply d).2 where
  scanned := by
    rw [kinds_append]
    exact scan_snoc h.scanned (by simp only [closing, scanItem_afterReply])
  reserved := by
    have := h.reserved
    cases d with
    | zero => exact Nat.zero_le _
    | succ d =>
      simp only [afterReply, List.length_dropLast]
      omega
  answered := by
    intro _ notUsed
    simp [ParseState.last] at notUsed
  scope := by
    have := h.scope
    simp only [List.length_dropLast]
    omega
  used := by simp
  degree := h.degree
  begun := by simp
  begins := by
    intro i hi
    have := h.begins i hi
    simp only [List.length_append, List.length_cons, List.length_nil]
    omega
  unbegun := by
    intro none_begun
    have zero := (h.unbegun none_begun).1
    subst zero
    exact ⟨rfl, by simp [afterReply], by simp [afterReply]⟩

/-- Appending a REPLY outside any scope. -/
theorem Balanced.topReply {s : ParseState} {spot : Spot} (h : Balanced s 0 spot)
    {node : CcmdNode} (closing : nodeKind node = .closes) :
    Balanced { s with chain := s.chain ++ [node] } 0 .top where
  scanned := by
    rw [kinds_append]
    exact scan_snoc h.scanned (by simp only [closing, scanItem_closes_top])
  reserved := h.reserved
  answered := fun _ _ _ => rfl
  scope := h.scope
  used := by
    intro i hi
    have := h.used i hi
    simp only [List.length_append, List.length_cons, List.length_nil]
    omega
  degree := h.degree
  begun := by simp
  begins := by
    intro i hi
    have := h.begins i hi
    simp only [List.length_append, List.length_cons, List.length_nil]
    omega
  unbegun := fun _ => ⟨rfl, by simp, by simp⟩

/-- Changing the contents of nodes without their kinds or number. -/
theorem Balanced.rewrite {s : ParseState} {d : Nat} {spot : Spot} (h : Balanced s d spot)
    {chain : List CcmdNode} (same : kinds chain = kinds s.chain) (top : spot = .top) :
    Balanced { s with chain := chain } d spot := by
  have length : chain.length = s.chain.length := by
    have := congrArg List.length same
    simpa [kinds] using this
  refine ⟨by rw [same]; exact h.scanned, h.reserved, fun _ _ _ => top, h.scope, ?_, h.degree, ?_, ?_,
    h.unbegun⟩
  · intro i hi
    rw [length]
    exact h.used i hi
  · intro branched empty
    apply h.begun branched
    rw [← List.length_eq_zero_iff, ← length, List.length_eq_zero_iff]
    exact empty
  · intro i hi
    rw [length]
    exact h.begins i hi

/-- A step that leaves the parsing state balanced, or stops at a full queue. -/
def Keeps (r : Except ParseAbort ParseState) : Prop :=
  r = .error .full ∨ ∃ s d spot, r = .ok s ∧ Balanced s d spot

theorem keeps_ccmdAdd {s : ParseState} {node : CcmdNode} {d : Nat} {spot : Spot}
    (h : Balanced { s with chain := s.chain ++ [node] } d spot) : Keeps (ccmdAdd s node) := by
  rcases ccmdAdd_cases s node with added | full
  · exact Or.inr ⟨_, d, spot, added, h⟩
  · exact Or.inl full

theorem parseReply_keeps {s : ParseState} {d : Nat} {spot : Spot} (h : Balanced s d spot)
    (val : PdSpec) (mode : ReplyMode) (devId : Nat) : Keeps (parseReply s val mode devId) := by
  have closing : nodeKind (replyNode (clampReply val) mode devId) = .closes := rfl
  simp only [parseReply]
  cases hlast : s.chain.getLast? with
  | none =>
    have empty := List.getLast?_eq_none_iff.mp hlast
    have scanned := h.scanned
    simp only [empty, kinds, List.map_nil, scan, start, Option.some.injEq, Prod.mk.injEq] at scanned
    obtain ⟨rfl, rfl⟩ := scanned
    exact keeps_ccmdAdd (h.topReply closing)
  | some last =>
    by_cases scope : s.fwdScope ≤ 0
    · have none_reserved : s.reservedFwdReplies = [] := by
        have := h.scope
        rw [← List.length_eq_zero_iff]
        omega
      have top : d = 0 := by
        have := h.reserved
        rw [none_reserved] at this
        simpa using this
      subst top
      simp only [if_pos scope]
      by_cases update : last.cmd = .reply ∧ s.last ≠ s.lastReservedUsed
      · rw [if_pos update]
        have ends : endsInReply s = true := by simp [endsInReply, hlast, update.1]
        refine Or.inr ⟨_, 0, spot, rfl, h.rewrite ?_ (h.answered none_reserved update.2 ends)⟩
        exact kinds_modify s.chain _ fun node => rfl
      · rw [if_neg update]
        exact keeps_ccmdAdd (h.topReply closing)
    · simp only [if_neg scope]
      have replied := h.reply closing (by omega)
      rcases ccmdAdd_cases { s with reservedFwdReplies := s.reservedFwdReplies.dropLast }
        (replyNode (clampReply val) mode devId) with added | full
      · refine Or.inr ⟨_, _, _, ?_, replied⟩
        simp [added, Except.map, ParseState.last]
      · exact Or.inl (by simp only [full, Except.map])

/-- The scan of the chain once the previous branch is closed. -/
theorem Balanced.closed {s : ParseState} {d : Nat} {spot : Spot} (h : Balanced s d spot) :
    scan id start (closedKinds s) =
      some (if needsClose s then afterReply d else (d, spot)) := by
  simp only [closedKinds]
  split
  · exact scan_snoc h.scanned (scanItem_afterReply d spot)
  · exact h.scanned

theorem afterReply_le (d : Nat) : (afterReply d).1 ≤ d - 1 := by
  cases d with
  | zero => exact le_rfl
  | succ d => exact le_rfl

/-- The scopes open once the previous branch is closed have a reply each. -/
theorem Balanced.closed_reserved {s : ParseState} {d : Nat} {spot : Spot} (h : Balanced s d spot) :
    (if needsClose s then afterReply d else (d, spot)).1 ≤
      s.reservedFwdReplies.length - if needsClose s then 1 else 0 := by
  have reserved := h.reserved
  split
  · have := afterReply_le d
    omega
  · simpa using reserved

/-- A context that can be continued has a FORWARD_BEGIN. -/
theorem Balanced.known {s : ParseState} {d : Nat} {spot : Spot} (h : Balanced s d spot)
    {tokens : List FwdToken} (fits : ForwardFits s tokens)
    (continues : continuesContext s tokens = true) : s.currForwardBegin ≠ none := by
  rintro none_begun
  obtain ⟨rfl, notHeader, notClosed⟩ := h.unbegun none_begun
  obtain ⟨e, spot', closed, resumable⟩ := fits.continuable continues
  rw [h.closed] at closed
  split at closed
  · cases closed
    simp at resumable
  · cases closed
    rcases resumable with header | closed
    · exact notHeader header
    · exact notClosed closed

theorem scan_replicate (e n : Nat) :
    scan id (e, .header) (List.replicate n .continues) = some (e, .header) := by
  have passed : scan id (e, .header) (List.replicate n Kind.continues ++ []) =
      scan id (e, .header) [] := scan_continues e (by simp) []
  simpa [scan] using passed

/-- The commands of a forward open at most one more scope. -/
theorem scan_forwardKinds {s : ParseState} {tokens : List FwdToken} {e : Nat} {spot : Spot}
    (resumable : continuesContext s tokens = true → spot = .header ∨ spot = .closed) :
    ∃ e' spot', scan id (e, spot) (forwardKinds s tokens) = some (e', spot') ∧ e' ≤ e + 1 := by
  simp only [forwardKinds]
  cases dests tokens with
  | nil => exact ⟨e, spot, rfl, by omega⟩
  | cons dest others =>
    cases continues : continuesContext s tokens with
    | false =>
      refine ⟨e + 1, .header, ?_, le_rfl⟩
      rw [if_neg (by simp), scan_cons (scanItem_opens e spot), scan_replicate]
    | true =>
      rw [if_pos rfl]
      rcases resumable continues with rfl | rfl
      · exact ⟨e, .header, by rw [scan_cons (t := (e, .header)) rfl, scan_replicate], by omega⟩
      · exact ⟨e + 1, .header, by rw [scan_cons (t := (e + 1, .header)) rfl, scan_replicate], le_rfl⟩

theorem Balanced.forward {s s' : ParseState} {d : Nat} {spot : Spot} (h : Balanced s d spot)
    {tokens : List FwdToken} (fits : ForwardFits s tokens) (f : Forwarded s tokens s') :
    ∃ d' spot', Balanced s' d' spot' := by
  have resumable : continuesContext s tokens = true →
      (if needsClose s then afterReply d else (d, spot)).2 = .header ∨
      (if needsClose s then afterReply d else (d, spot)).2 = .closed := by
    intro continues
    obtain ⟨e, spot', closed, resumable⟩ := fits.continuable continues
    rw [h.closed, Option.some.injEq] at closed
    rw [closed]
    exact resumable
  obtain ⟨e', spot', scanned, le⟩ := scan_forwardKinds
    (e := (if needsClose s then afterReply d else (d, spot)).1) resumable
  have closed_reserved := h.closed_reserved
  have begun : s'.currForwardBegin ≠ none := by
    rintro lost
    obtain ⟨continues, none_begun⟩ := f.lost lost
    exact h.known fits continues none_begun
  have nonempty : s'.chain ≠ [] := by
    rintro empty
    obtain ⟨i, hi⟩ := Option.ne_none_iff_exists'.mp begun
    have := f.begins i hi
    simp [empty] at this
  refine ⟨e', spot', ?_, ?_, ?_, ?_, ?_, f.degree, fun _ => nonempty, f.begins,
    fun none_begun => absurd none_begun begun⟩
  · rw [f.kinds, scan_append, h.closed, Option.bind_some]
    exact scanned
  · rw [f.reserved]
    omega
  · intro empty
    have := f.reserved
    simp [empty] at this
  · have := h.scope
    rw [f.reserved, f.scope]
    split <;> omega
  · intro i hi
    rw [f.used] at hi
    have := h.used i hi
    have := f.longer
    omega

theorem parseOpt_keeps {s : ParseState} {d : Nat} {spot : Spot} (h : Balanced s d spot) {opt : Opt}
    (fits : ∀ tokens, opt = .forward tokens → ForwardFits s tokens) : Keeps (parseOpt s opt) := by
  cases opt with
  | compTime val => exact keeps_ccmdAdd (h.simple rfl (by simp [CcmdNode.new]))
  | storeData val off sync devId => exact keeps_ccmdAdd (h.simple rfl (by simp [CcmdNode.new]))
  | loadData val off devId => exact keeps_ccmdAdd (h.simple rfl (by simp [CcmdNode.new]))
  | skip nSkip nEvery prob => exact keeps_ccmdAdd (h.simple rfl (by simp [CcmdNode.new]))
  | forward tokens =>
    have this := fits tokens rfl
    simp only [parseOpt]
    cases hf : parseForward s tokens with
    | error e =>
      have full := parseForward_error hf this h.begun (h.known this)
      exact Or.inl (by rw [full])
    | ok s' =>
      obtain ⟨d', spot', kept⟩ := h.forward this (parseForward_spec hf h.degree h.begins)
      exact Or.inr ⟨s', d', spot', rfl, kept⟩
  | reply val mode devId => exact parseReply_keeps h val mode devId

/-! ## The end -/

/-- The deferred replies close every scope; after one of them the chain ends with
the last reserved reply used. -/
theorem exhaustReplies_keeps {fuel : Nat} {s : ParseState} {d : Nat} {spot : Spot}
    (h : Balanced s d spot) (enough : s.reservedFwdReplies.length ≤ fuel) :
    exhaustReplies fuel s = .error .full ∨ ∃ s' spot', exhaustReplies fuel s = .ok s' ∧
      Balanced s' 0 spot' ∧ s'.reservedFwdReplies = [] := by
  induction fuel generalizing s d spot with
  | zero =>
    have none_reserved : s.reservedFwdReplies = [] := List.length_eq_zero_iff.mp (by omega)
    have top : d = 0 := by
      have := h.reserved
      rw [none_reserved] at this
      simpa using this
    subst top
    exact Or.inr ⟨s, spot, rfl, h, none_reserved⟩
  | succ fuel ih =>
    simp only [exhaustReplies]
    cases hkey : s.reservedFwdReplies.getLast? with
    | none =>
      have none_reserved := List.getLast?_eq_none_iff.mp hkey
      have top : d = 0 := by
        have := h.reserved
        rw [none_reserved] at this
        simpa using this
      subst top
      exact Or.inr ⟨s, spot, rfl, h, none_reserved⟩
    | some key =>
      have some_reserved : s.reservedFwdReplies ≠ [] := by
        rintro empty
        simp [empty] at hkey
      have positive := List.length_pos_iff.mpr some_reserved
      have scope := h.scope
      simp only [if_pos (show s.fwdScope > 0 by omega)]
      have replied := h.reply (show nodeKind (.new .reply (pdBuildFixed key)) = .closes from rfl)
        (by omega)
      rcases ccmdAdd_cases s (.new .reply (pdBuildFixed key)) with added | full
      · simp only [added]
        have last : ({ s with chain := s.chain ++ [CcmdNode.new .reply (pdBuildFixed key)] } :
            ParseState).last = some s.chain.length := by simp [ParseState.last]
        rw [last]
        refine ih replied ?_
        simp only [List.length_dropLast]
        omega
      · exact Or.inl (by simp only [full])

theorem parseEnd_keeps {s : ParseState} {d : Nat} {spot : Spot} (h : Balanced s d spot) :
    parseEnd s = .error .full ∨ ∃ s', parseEnd s = .ok s' ∧ Chain nodeKind s'.chain := by
  have accepted {s : ParseState} {spot : Spot} (b : Balanced s 0 spot) (top : spot = .top) :
      Chain nodeKind s.chain := by
    rw [chain_iff_scan, ← scan_kinds, b.scanned, top]
    rfl
  simp only [parseEnd]
  rcases exhaustReplies_keeps h le_rfl with full | ⟨s', spot', exhausted, balanced, none_reserved⟩
  · exact Or.inl (by rw [full])
  · simp only [exhausted, none_reserved, ne_eq, not_true_eq_false, if_false]
    have added : ∀ node, nodeKind node = .closes → ccmdAdd s' node = .error .full ∨
        ∃ t, ccmdAdd s' node = .ok t ∧ Chain nodeKind t.chain := by
      intro node closing
      rcases ccmdAdd_cases s' node with added | full
      · exact Or.inr ⟨_, added, accepted (balanced.topReply closing) rfl⟩
      · exact Or.inl full
    split
    · exact added _ rfl
    · rename_i notUsed
      cases hlast : s'.chain.getLast? with
      | none =>
        have empty := List.getLast?_eq_none_iff.mp hlast
        have unused : s'.lastReservedUsed = none := by
          cases hu : s'.lastReservedUsed with
          | none => rfl
          | some i =>
            have := balanced.used i hu
            simp [empty] at this
        exact absurd (by simp [ParseState.last, empty, unused]) notUsed
      | some last =>
        by_cases reply : last.cmd = .reply
        · simp only [reply, not_true_eq_false, if_false]
          have ends : endsInReply s' = true := by simp [endsInReply, hlast, reply]
          exact Or.inr ⟨s', rfl, accepted balanced (balanced.answered none_reserved notUsed ends)⟩
        · simp only [reply, not_false_eq_true, if_true]
          exact added _ rfl

/-! ## Every forward in its place -/

/-- Every forward of the options meets `ok` in the state before it. -/
def EachForward (ok : ParseState → List FwdToken → Prop) : ParseState → List Opt → Prop
  | _, [] => True
  | s, opt :: rest =>
    (∀ tokens, opt = .forward tokens → ok s tokens) ∧
      ∀ s', parseOpt s opt = .ok s' → EachForward ok s' rest

theorem parseFrom_balanced {opts : List Opt} {s : ParseState} {d : Nat} {spot : Spot}
    (h : Balanced s d spot) (fits : EachForward ForwardFits s opts) :
    parseFrom s opts = .error .full ∨
      ∃ s', parseFrom s opts = .ok s' ∧ Chain nodeKind s'.chain := by
  induction opts generalizing s d spot with
  | nil => exact parseEnd_keeps h
  | cons opt rest ih =>
    simp only [parseFrom]
    rcases parseOpt_keeps h fits.1 with full | ⟨s', d', spot', parsed, kept⟩
    · exact Or.inl (by rw [full])
    · rw [parsed]
      exact ih kept (fits.2 s' parsed)

/-- What the parser needs of a state to settle a forward, whatever the chain is. -/
structure Tame (s : ParseState) : Prop where
  degree : 0 ≤ s.branchingDegree
  begins : ∀ i, s.currForwardBegin = some i → i < s.chain.length

theorem ccmdAdd_grows {s s' : ParseState} {node : CcmdNode} (h : Tame s)
    (added : ccmdAdd s node = .ok s') : Tame s' ∧ kinds s.chain <+: kinds s'.chain := by
  rw [ccmdAdd_eq_ok added]
  refine ⟨⟨h.degree, ?_⟩, by rw [kinds_append]; exact List.prefix_append _ _⟩
  intro i hi
  have := h.begins i hi
  simp only [List.length_append, List.length_cons, List.length_nil]
  omega

theorem parseReply_grows {s s' : ParseState} {val : PdSpec} {mode : ReplyMode} {devId : Nat}
    (h : Tame s) (parsed : parseReply s val mode devId = .ok s') :
    Tame s' ∧ kinds s.chain <+: kinds s'.chain := by
  simp only [parseReply] at parsed
  cases hlast : s.chain.getLast? with
  | none =>
    simp only [hlast] at parsed
    exact ccmdAdd_grows h parsed
  | some last =>
    simp only [hlast] at parsed
    split at parsed
    · split at parsed
      · cases parsed
        have same : kinds (s.chain.modify (s.chain.length - 1) ({ · with pdVal := clampReply val })) =
            kinds s.chain := kinds_modify s.chain _ fun node => rfl
        refine ⟨⟨h.degree, ?_⟩, same ▸ List.prefix_rfl⟩
        intro i hi
        simpa using h.begins i hi
      · exact ccmdAdd_grows h parsed
    · have tame : Tame { s with reservedFwdReplies := s.reservedFwdReplies.dropLast } :=
        ⟨h.degree, h.begins⟩
      rcases ccmdAdd_cases { s with reservedFwdReplies := s.reservedFwdReplies.dropLast }
        (replyNode (clampReply val) mode devId) with added | full
      · have grown := ccmdAdd_grows tame added
        simp only [added, Except.map, Except.ok.injEq] at parsed
        subst parsed
        exact ⟨⟨grown.1.degree, grown.1.begins⟩, grown.2⟩
      · simp only [full, Except.map] at parsed
        cases parsed

theorem closedKinds_grows (s : ParseState) : kinds s.chain <+: closedKinds s := by
  simp only [closedKinds]
  split
  · exact List.prefix_append _ _
  · exact List.prefix_rfl

theorem parseOpt_grows {s s' : ParseState} {opt : Opt} (h : Tame s)
    (parsed : parseOpt s opt = .ok s') : Tame s' ∧ kinds s.chain <+: kinds s'.chain := by
  cases opt with
  | compTime val => exact ccmdAdd_grows h parsed
  | storeData val off sync devId => exact ccmdAdd_grows h parsed
  | loadData val off devId => exact ccmdAdd_grows h parsed
  | skip nSkip nEvery prob => exact ccmdAdd_grows h parsed
  | forward tokens =>
    have f := parseForward_spec parsed h.degree h.begins
    refine ⟨⟨f.degree, f.begins⟩, (closedKinds_grows s).trans ?_⟩
    rw [f.kinds]
    exact List.prefix_append _ _
  | reply val mode devId => exact parseReply_grows h parsed

theorem exhaustReplies_grows {fuel : Nat} {s s' : ParseState}
    (h : exhaustReplies fuel s = .ok s') : kinds s.chain <+: kinds s'.chain := by
  induction fuel generalizing s with
  | zero =>
    cases h
    exact List.prefix_rfl
  | succ fuel ih =>
    simp only [exhaustReplies] at h
    cases hkey : s.reservedFwdReplies.getLast? with
    | none =>
      simp only [hkey] at h
      cases h
      exact List.prefix_rfl
    | some key =>
      simp only [hkey] at h
      split at h
      · rcases ccmdAdd_cases s (.new .reply (pdBuildFixed key)) with added | full
        · simp only [added] at h
          refine List.IsPrefix.trans ?_ (ih h)
          rw [kinds_append]
          exact List.prefix_append _ _
        · simp only [full] at h
          cases h
      · cases h
        exact List.prefix_rfl

theorem parseEnd_grows {s s' : ParseState} (h : parseEnd s = .ok s') :
    kinds s.chain <+: kinds s'.chain := by
  simp only [parseEnd] at h
  cases hx : exhaustReplies s.reservedFwdReplies.length s with
  | error e =>
    simp only [hx] at h
    cases h
  | ok t =>
    have grown := exhaustReplies_grows hx
    have added : ∀ {node}, ccmdAdd t node = .ok s' → kinds s.chain <+: kinds s'.chain := by
      intro node added
      rw [ccmdAdd_eq_ok added, kinds_append]
      exact grown.trans (List.prefix_append _ _)
    simp only [hx] at h
    split at h
    · cases h
    · split at h
      · exact added h
      · cases hlast : t.chain.getLast? with
        | none =>
          simp only [hlast] at h
          cases h
        | some last =>
          simp only [hlast] at h
          split at h
          · exact added h
          · cases h
            exact grown

theorem parseFrom_grows {opts : List Opt} {s s' : ParseState} (h : Tame s)
    (parsed : parseFrom s opts = .ok s') : kinds s.chain <+: kinds s'.chain := by
  induction opts generalizing s with
  | nil => exact parseEnd_grows parsed
  | cons opt rest ih =>
    simp only [parseFrom] at parsed
    cases ho : parseOpt s opt with
    | error e =>
      simp only [ho] at parsed
      cases parsed
    | ok t =>
      simp only [ho] at parsed
      have grown := parseOpt_grows h ho
      exact grown.2.trans (ih grown.1 parsed)

/-- A prefix of what the scanner can read can be read. -/
theorem scan_prefix {a b : List Kind} (le : a <+: b) {t : Nat × Spot}
    (h : scan id start b = some t) : ∃ t', scan id start a = some t' := by
  obtain ⟨c, rfl⟩ := le
  rw [scan_append] at h
  exact Option.isSome_iff_exists.mp (by
    cases ha : scan id start a with
    | none =>
      rw [ha] at h
      cases h
    | some t' => rfl)

/-- A FORWARD_CONTINUE that can be read stands where a context can be continued. -/
theorem continuable_of_scan {s : ParseState} {tokens : List FwdToken} {t : Nat × Spot}
    (h : scan id start (closedKinds s ++ forwardKinds s tokens) = some t)
    (continues : continuesContext s tokens = true) : ∃ d spot,
      scan id start (closedKinds s) = some (d, spot) ∧ (spot = .header ∨ spot = .closed) := by
  obtain ⟨⟨d, spot⟩, closed⟩ := scan_prefix (List.prefix_append _ _) h
  refine ⟨d, spot, closed, ?_⟩
  rw [scan_append, closed, Option.bind_some] at h
  have some_dest : dests tokens ≠ [] := by
    simp only [continuesContext, decide_eq_true_eq] at continues
    exact continues.1
  cases hd : dests tokens with
  | nil => exact absurd hd some_dest
  | cons dest others =>
    simp only [forwardKinds, hd, continues, if_true, scan, id_eq] at h
    cases spot with
    | header => exact Or.inl rfl
    | closed => exact Or.inr rfl
    | top => simp [scanItem] at h
    | other => simp [scanItem] at h

theorem eachForward_of_scan {opts : List Opt} {s s' : ParseState} {t : Nat × Spot} (h : Tame s)
    (parsed : parseFrom s opts = .ok s') (scanned : scan id start (kinds s'.chain) = some t) :
    EachForward ForwardFits s opts := by
  induction opts generalizing s with
  | nil => trivial
  | cons opt rest ih =>
    simp only [parseFrom] at parsed
    cases ho : parseOpt s opt with
    | error e =>
      simp only [ho] at parsed
      cases parsed
    | ok s1 =>
      simp only [ho] at parsed
      have grown := parseOpt_grows h ho
      refine ⟨?_, ?_⟩
      · rintro tokens rfl
        have f := parseForward_spec ho h.degree h.begins
        obtain ⟨t1, scanned1⟩ := scan_prefix (parseFrom_grows grown.1 parsed) scanned
        rw [f.kinds] at scanned1
        exact ⟨f.available, continuable_of_scan scanned1, f.destination⟩
      · intro s2 same
        cases ho.symm.trans same
        exact ih grown.1 parsed

theorem template_balanced_iff (opts : List Opt) (fits : parseOptions opts ≠ .error .full) :
    (∃ s, parseOptions opts = .ok s ∧ Chain nodeKind s.chain) ↔
      EachForward ForwardFits .init opts := by
  constructor
  · rintro ⟨s, parsed, chain⟩
    rw [chain_iff_scan, ← scan_kinds] at chain
    exact eachForward_of_scan ⟨le_rfl, by simp [ParseState.init]⟩ parsed chain
  · intro each
    rcases parseFrom_balanced balanced_init each with full | done
    · exact absurd full fits
    · exact done

/-- Two branches, of which the second closes the first, are balanced. -/
theorem template_balanced_iff_two_branches :
    EachForward ForwardFits .init
      [.forward [.dest .tcp [127, 0, 0, 1, 31, 64], .branch], .compTime (pdBuildFixed 10),
        .forward [.dest .tcp [127, 0, 0, 1, 31, 65], .branch]] := by
  refine (template_balanced_iff _ ?_).mp ⟨_, rfl, by decide⟩
  rintro full
  cases full

/-- `branch` before the first destination reads through a NULL FORWARD_BEGIN. -/
theorem branch_first_crashes :
    let opts : List Opt := [.forward [.branch, .dest .tcp [127, 0, 0, 1, 31, 64]]]
    parseOptions opts = .error .segfault ∧
      ¬ ∃ s, parseOptions opts = .ok s ∧ Chain nodeKind s.chain := by
  refine ⟨rfl, ?_⟩
  rintro ⟨s, parsed, -⟩
  cases parsed

end BalancedTemplate
