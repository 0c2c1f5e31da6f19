import DistWalk.ForwardSteps

/-!
# Templates that the queue holds

A template of at most `chainCapacity` commands is one that the parser was never
refused a node for. Once a node is refused it hangs behind a full chain and stays
there; once a reply in waiting is refused, there are more of them and commands
together than the chain can hold, and each one that is taken out of waiting
becomes a command.
-/

namespace FullChain

open Message Template ClientOptions ForwardSteps

/-- A node was refused, or one of the replies in waiting will be. -/
def Overfull (s : Builder) : Prop :=
  (s.behind ≠ none ∧ chainCapacity ≤ s.chain.length) ∨
    chainCapacity < s.chain.length + s.reservedFwdReplies.length

theorem Overfull.kept {s t : Builder} (h : Overfull s) (behind : s.behind ≠ none → t.behind ≠ none)
    (chain : s.chain.length ≤ t.chain.length)
    (reserved : s.reservedFwdReplies.length ≤ t.reservedFwdReplies.length) : Overfull t := by
  rcases h with ⟨hangs, full⟩ | more
  · exact Or.inl ⟨behind hangs, by omega⟩
  · exact Or.inr (by omega)

/-- A command is added, and at most one reply less is in waiting. -/
theorem Overfull.added {s t : Builder} (h : Overfull s) (cmd : CommandType) (val : PdSpec)
    (behind : t.behind = (ccmdAdd s cmd val).behind)
    (chain : t.chain.length = (ccmdAdd s cmd val).chain.length)
    (reserved : s.reservedFwdReplies.length ≤ t.reservedFwdReplies.length + 1) : Overfull t := by
  by_cases room : s.chain.length < chainCapacity
  · rw [ccmdAdd, if_pos room] at behind chain
    simp only [List.length_append, List.length_singleton] at chain
    rcases h with ⟨-, full⟩ | more
    · omega
    · exact Or.inr (by omega)
  · rw [ccmdAdd, if_neg room] at behind chain
    simp only at chain
    refine Or.inl ⟨?_, by omega⟩
    rw [behind]
    simp

/-- A command that the queue refuses hangs behind the chain. -/
theorem overfull_refused {s t : Builder} (cmd : CommandType) (val : PdSpec)
    (full : ¬ s.chain.length < chainCapacity) (behind : t.behind = (ccmdAdd s cmd val).behind)
    (chain : t.chain.length = (ccmdAdd s cmd val).chain.length) : Overfull t := by
  rw [ccmdAdd, if_neg full] at behind chain
  simp only at chain
  refine Or.inl ⟨?_, by omega⟩
  rw [behind]
  simp

theorem length_setLast (s : Builder) (f : CcmdNode → CcmdNode) :
    (setLast s f).chain.length = s.chain.length := List.length_modify ..

theorem reserved_ccmdAdd (s : Builder) (cmd : CommandType) (val : PdSpec) :
    (ccmdAdd s cmd val).reservedFwdReplies = s.reservedFwdReplies := by
  unfold ccmdAdd
  split <;> rfl

theorem refused_of_full {s : ParseState} {node : CcmdNode}
    (full : ClientOptions.ccmdAdd s node = .error .full) : ¬ s.chain.length < chainCapacity := by
  intro room
  rw [clientAdd_room room] at full
  cases full

theorem full_of_map {r : Except ParseAbort ParseState} {f : ParseState → ParseState}
    (full : r.map f = .error .full) : r = .error .full := by
  cases r with
  | ok s => cases full
  | error e =>
    cases full
    rfl

/-! ## What an option leaves -/

theorem Overfull.closeBranch {s s' : Builder} (h : Overfull s) (closed : closeBranch s = .ok s') :
    Overfull s' := by
  simp only [FullChain.closeBranch] at closed
  split at closed
  · cases here : s.chain.getLast? with
    | none =>
      simp only [here] at closed
      cases closed
    | some last =>
      simp only [here] at closed
      split at closed
      · cases reserved : s.reservedFwdReplies.getLast? with
        | none =>
          simp only [reserved] at closed
          cases closed
        | some key =>
          simp only [reserved] at closed
          cases closed
          refine h.added .reply (pdBuildFixed key) rfl rfl ?_
          simp only [reserved_ccmdAdd, List.length_dropLast]
          omega
      · cases closed
        exact h
  · cases closed
    exact h

theorem Overfull.fwdToken {s : Builder} (h : Overfull s) (v : FwdLocals) (token : FwdToken) :
    Overfull (fwdToken s v token).1 := by
  cases token with
  | dest proto addr =>
    refine h.added .forwardBegin (pdBuildFixed defaultRespSize) rfl ?_ ?_
    · simp [FullChain.fwdToken, length_setLast]
    · simp only [FullChain.fwdToken, setLast, reserved_ccmdAdd]
      omega
  | _ => exact h

theorem Overfull.fwdTokens {s : Builder} (h : Overfull s) (tokens : List FwdToken) (v : FwdLocals) :
    Overfull (fwdTokens s v tokens).1 := by
  induction tokens generalizing s v with
  | nil => exact h
  | cons token rest ih => exact ih (h.fwdToken v token) _

theorem Overfull.settleBegin {s : Builder} (h : Overfull s) (v : FwdLocals) :
    Overfull (settleBegin s v) := by
  have same : (ClientOptions.settleBegin s.toParseState v).chain = s.chain ∧
      (ClientOptions.settleBegin s.toParseState v).reservedFwdReplies = s.reservedFwdReplies := by
    unfold ClientOptions.settleBegin
    split <;> exact ⟨rfl, rfl⟩
  refine h.kept (fun hangs => hangs) ?_ ?_
  · simp only [FullChain.settleBegin, same.1, le_refl]
  · simp only [FullChain.settleBegin, same.2, le_refl]

theorem Overfull.updateBegin {s s' : Builder} {v : FwdLocals} (h : Overfull s)
    (updated : updateBegin s v = .ok s') : Overfull s' := by
  simp only [FullChain.updateBegin, ClientOptions.updateBegin] at updated
  split at updated
  · split at updated
    · cases updated
    · cases updated
      exact h.kept (fun hangs => hangs) (by simp) le_rfl
  · cases updated
    exact h

theorem Overfull.continueOthers {s s' : Builder} {v : FwdLocals} (h : Overfull s)
    (continued : continueOthers s v = .ok s') : Overfull s' := by
  simp only [FullChain.continueOthers, ClientOptions.continueOthers] at continued
  cases start : v.fwdItrStart with
  | none =>
    simp only [start] at continued
    by_cases begun : s.currForwardBegin = none
    · simp only [if_pos begun] at continued
      cases continued
    · simp only [if_neg begun] at continued
      cases continued
      exact h.kept (fun hangs => hangs) le_rfl le_rfl
  | some i =>
    simp only [start] at continued
    cases continued
    exact h.kept (by simp) (by simp [length_modifyFrom]) le_rfl

theorem Overfull.reserveReply {s : Builder} (h : Overfull s) : Overfull (reserveReply s) := by
  refine h.kept (fun hangs => hangs) le_rfl ?_
  simp only [FullChain.reserveReply]
  split
  · simp
  · exact le_rfl

theorem Overfull.parseReply {s : Builder} (h : Overfull s) (val : PdSpec) (mode : ReplyMode)
    (devId : Nat) : Overfull (parseReply s val mode devId) := by
  have added := h.added (t := setLast (ccmdAdd s .reply (clampReply val)) (setMode mode devId))
    .reply (clampReply val) rfl (length_setLast ..)
    (by simp only [setLast, reserved_ccmdAdd]; omega)
  simp only [FullChain.parseReply]
  cases s.chain.getLast? with
  | none => exact added
  | some last =>
    simp only
    split
    · split
      · exact h.kept (fun hangs => hangs) (length_setLast ..).ge le_rfl
      · exact added
    · have same (reserved : List Nat) :
          (ccmdAdd { s with reservedFwdReplies := reserved } .reply (clampReply val)).chain =
              (ccmdAdd s .reply (clampReply val)).chain ∧
            (ccmdAdd { s with reservedFwdReplies := reserved } .reply (clampReply val)).behind =
              (ccmdAdd s .reply (clampReply val)).behind := by
        by_cases room : s.chain.length < chainCapacity
        · simp only [ccmdAdd, if_pos room, and_self]
        · simp only [ccmdAdd, if_neg room, and_self]
      obtain ⟨chain, behind⟩ := same s.reservedFwdReplies.dropLast
      refine h.added .reply (clampReply val) behind ?_ ?_
      · exact (length_setLast _ _).trans (congrArg List.length chain)
      · simp only [setLast, reserved_ccmdAdd, List.length_dropLast]
        omega

theorem Overfull.opt {s s' : Builder} {opt : Opt} (h : Overfull s) (parsed : parseOpt s opt = .ok s') :
    Overfull s' := by
  have added (cmd : CommandType) (val : PdSpec) (f : CcmdNode → CcmdNode) :
      Overfull (setLast (ccmdAdd s cmd val) f) := by
    refine h.added cmd val rfl (length_setLast ..) ?_
    simp only [setLast, reserved_ccmdAdd]
    omega
  cases opt with
  | compTime val =>
    cases parsed
    have := added .compute val id
    rwa [setLast_id] at this
  | storeData val off sync devId =>
    cases parsed
    exact added ..
  | loadData val off devId =>
    cases parsed
    exact added ..
  | skip nSkip nEvery prob =>
    cases parsed
    exact added ..
  | forward tokens =>
    obtain ⟨s1, s2, v, s3, s4, closed, tokenized, updated, continued, rfl⟩ := parseForward_eq_ok parsed
    have second : Overfull s2 := by
      have := (h.closeBranch closed).fwdTokens tokens .init
      rwa [tokenized] at this
    exact (((second.settleBegin v).updateBegin updated).continueOthers continued).reserveReply
  | reply val mode devId =>
    cases parsed
    exact h.parseReply val mode devId

theorem Overfull.many {opts : List Opt} {s s' : Builder} (h : Overfull s)
    (parsed : parseMany s opts = .ok s') : Overfull s' := by
  induction opts generalizing s with
  | nil =>
    cases parsed
    exact h
  | cons opt rest ih =>
    simp only [parseMany] at parsed
    cases one : parseOpt s opt with
    | error e =>
      simp only [one] at parsed
      cases parsed
    | ok t =>
      simp only [one] at parsed
      exact ih (h.opt one) parsed

/-! ## What is refused -/

theorem closeBranch_refused {s : ParseState} {s' : Builder}
    (full : ClientOptions.closeBranch s = .error .full) (closed : closeBranch (whole s) = .ok s') :
    Overfull s' := by
  simp only [ClientOptions.closeBranch] at full
  simp only [closeBranch] at closed
  by_cases branched : s.branchingDegree > 0
  · simp only [if_pos branched] at full closed
    cases here : s.chain.getLast? with
    | none =>
      simp only [here] at full
      cases full
    | some last =>
      simp only [here] at full closed
      by_cases answered : last.cmd ≠ .reply
      · simp only [if_pos answered] at full closed
        cases reserved : s.reservedFwdReplies.getLast? with
        | none =>
          simp only [reserved] at full
          cases full
        | some key =>
          simp only [reserved] at full closed
          cases closed
          exact overfull_refused (s := whole s) _ _ (refused_of_full (full_of_map full)) rfl rfl
      · simp only [if_neg answered] at full
        cases full
  · simp only [if_neg branched] at full
    cases full

theorem fwdTokens_refused {tokens : List FwdToken} {s : ParseState} {v : FwdLocals} {e : ParseAbort}
    (full : ClientOptions.fwdTokens s v tokens = .error e) : Overfull (fwdTokens (whole s) v tokens).1 := by
  induction tokens generalizing s v with
  | nil => cases full
  | cons token rest ih =>
    simp only [ClientOptions.fwdTokens] at full
    simp only [fwdTokens]
    cases one : ClientOptions.fwdToken s v token with
    | ok t =>
      simp only [one] at full
      rw [fwdToken_whole one]
      exact ih full
    | error e =>
      apply Overfull.fwdTokens
      cases token with
      | dest proto addr =>
        have refused : ¬ s.chain.length < chainCapacity := by
          intro room
          simp only [ClientOptions.fwdToken, clientAdd_room room] at one
          cases one
        exact overfull_refused (s := whole s) .forwardBegin (pdBuildFixed defaultRespSize)
          refused rfl (by simp [fwdToken, length_setLast])
      | _ => cases one

/-- A reply that cannot wait any more: behind a hundred others there is at least the
command that opened the scope. -/
theorem reserveReply_refused {s : ParseState} (full : ClientOptions.reserveReply s = .error .full)
    (begun : s.chain ≠ []) : Overfull (reserveReply (whole s)) := by
  simp only [ClientOptions.reserveReply] at full
  split at full
  · cases full
  · rename_i waiting
    have some_node := List.length_pos_iff.mpr begun
    refine Or.inr ?_
    simp only [reserveReply, if_neg waiting]
    omega

theorem parseForward_refused {s : ParseState} {s' : Builder} {tokens : List FwdToken}
    (p : Parsed (whole s)) (full : ClientOptions.parseForward s tokens = .error .full)
    (h : parseForward (whole s) tokens = .ok s') : Overfull s' := by
  have begun := (parseForward_steps p h).nonempty p
  obtain ⟨s1, s2, v, s3, s4, closed, tokenized, updated, continued, rfl⟩ := parseForward_eq_ok h
  have onward (second : Overfull s2) : Overfull (reserveReply s4) :=
    (((second.settleBegin v).updateBegin updated).continueOthers continued).reserveReply
  simp only [ClientOptions.parseForward] at full
  cases one : ClientOptions.closeBranch s with
  | error e =>
    simp only [one] at full
    cases full
    have second := (closeBranch_refused one closed).fwdTokens tokens .init
    rw [tokenized] at second
    exact onward second
  | ok t1 =>
    have same : closeBranch (whole s) = .ok (whole t1) := by
      rw [closeBranch_whole (by rw [one]; simp), one]
      rfl
    rw [closed] at same
    cases same
    simp only [one] at full
    cases two : ClientOptions.fwdTokens t1 .init tokens with
    | error e =>
      have second := fwdTokens_refused two
      rw [tokenized] at second
      exact onward second
    | ok t =>
      obtain ⟨t2, u⟩ := t
      rw [fwdTokens_whole two] at tokenized
      cases tokenized
      simp only [two] at full
      simp only [updateBegin, settleBegin] at updated
      cases three : ClientOptions.updateBegin (ClientOptions.settleBegin t2 v) v with
      | error e =>
        rw [three] at updated
        cases updated
      | ok t3 =>
        rw [three] at updated
        cases updated
        simp only [three] at full
        simp only [continueOthers] at continued
        cases four : ClientOptions.continueOthers t3 v with
        | error e =>
          rw [four] at continued
          cases continued
        | ok t4 =>
          rw [four] at continued
          cases continued
          simp only [four] at full
          simp only [Option.map_none, ite_self] at begun ⊢
          exact reserveReply_refused full begun

theorem parseReply_refused {s : ParseState} {val : PdSpec} {mode : ReplyMode} {devId : Nat}
    (full : ClientOptions.parseReply s val mode devId = .error .full) :
    Overfull (parseReply (whole s) val mode devId) := by
  simp only [ClientOptions.parseReply] at full
  simp only [parseReply]
  have hangs (refused : ¬ s.chain.length < chainCapacity) (reserved : List Nat) :
      Overfull (setLast (ccmdAdd { whole s with reservedFwdReplies := reserved } .reply (clampReply val))
        (setMode mode devId)) :=
    overfull_refused (s := { whole s with reservedFwdReplies := reserved }) _ _ refused rfl (length_setLast ..)
  cases here : s.chain.getLast? with
  | none =>
    simp only [here] at full ⊢
    exact hangs (refused_of_full full) _
  | some last =>
    simp only [here] at full ⊢
    by_cases scope : s.fwdScope ≤ 0
    · simp only [if_pos scope] at full ⊢
      by_cases update : last.cmd = .reply ∧ s.last ≠ s.lastReservedUsed
      · simp only [if_pos update] at full
        cases full
      · simp only [if_neg update] at full ⊢
        exact hangs (refused_of_full full) _
    · simp only [if_neg scope] at full ⊢
      have refused := refused_of_full (full_of_map full)
      exact hangs refused _

theorem parseOpt_refused {s : ParseState} {s' : Builder} {opt : Opt} (p : Parsed (whole s))
    (full : ClientOptions.parseOpt s opt = .error .full) (h : parseOpt (whole s) opt = .ok s') :
    Overfull s' := by
  cases opt with
  | compTime val =>
    cases h
    exact overfull_refused (s := whole s) _ _ (refused_of_full full) rfl rfl
  | storeData val off sync devId =>
    cases h
    exact overfull_refused (s := whole s) _ _ (refused_of_full full) rfl (length_setLast ..)
  | loadData val off devId =>
    cases h
    exact overfull_refused (s := whole s) _ _ (refused_of_full full) rfl (length_setLast ..)
  | skip nSkip nEvery prob =>
    cases h
    exact overfull_refused (s := whole s) _ _ (refused_of_full full) rfl (length_setLast ..)
  | forward tokens => exact parseForward_refused p full h
  | reply val mode devId =>
    cases h
    exact parseReply_refused full

/-! ## The end -/

theorem Overfull.exhaustReplies {fuel : Nat} {s : Builder} (h : Overfull s) :
    Overfull (exhaustReplies fuel s) := by
  induction fuel generalizing s with
  | zero => exact h
  | succ fuel ih =>
    simp only [FullChain.exhaustReplies]
    cases s.reservedFwdReplies.getLast? with
    | none => exact h
    | some key =>
      simp only
      split
      · refine ih (h.added .reply (pdBuildFixed key) rfl rfl ?_)
        simp only [reserved_ccmdAdd, List.length_dropLast]
        omega
      · exact h

theorem exhaustReplies_refused {fuel : Nat} {s : ParseState}
    (full : ClientOptions.exhaustReplies fuel s = .error .full) : Overfull (exhaustReplies fuel (whole s)) := by
  induction fuel generalizing s with
  | zero => cases full
  | succ fuel ih =>
    simp only [ClientOptions.exhaustReplies] at full
    simp only [exhaustReplies]
    cases reserved : s.reservedFwdReplies.getLast? with
    | none =>
      simp only [reserved] at full
      cases full
    | some key =>
      simp only [reserved] at full ⊢
      by_cases scope : s.fwdScope > 0
      · simp only [if_pos scope] at full ⊢
        by_cases room : s.chain.length < chainCapacity
        · rw [clientAdd_room room] at full
          rw [ccmdAdd_whole room]
          exact ih full
        · apply Overfull.exhaustReplies
          exact overfull_refused (s := whole s) .reply (pdBuildFixed key) room rfl rfl
      · simp only [if_neg scope] at full
        cases full

theorem linked_ccmdAdd (s : Builder) (cmd : CommandType) (val : PdSpec) :
    s.linked.length ≤ (ccmdAdd s cmd val).linked.length := by
  unfold ccmdAdd
  split
  · simp [Builder.linked]
  · cases s.behind <;> simp [Builder.linked]

/-- The end links what is left, so the template is longer than the queue. -/
theorem beyond_of_exhausted {s t : Builder} (exhausted : Overfull (exhaustReplies s.reservedFwdReplies.length s))
    (ended : parseEnd s = .ok t) : chainCapacity < t.linked.length := by
  simp only [parseEnd] at ended
  split at ended
  · cases ended
  · rename_i spent
    have beyond : chainCapacity < (exhaustReplies s.reservedFwdReplies.length s).linked.length := by
      rw [Builder.linked, List.length_append]
      rcases exhausted with ⟨hangs, full⟩ | more
      · obtain ⟨node, hangs⟩ := Option.ne_none_iff_exists'.mp hangs
        rw [hangs, Option.toList_some, List.length_singleton]
        omega
      · rw [not_not.mp spent, List.length_nil] at more
        omega
    split at ended
    · cases ended
      exact lt_of_lt_of_le beyond (linked_ccmdAdd ..)
    · split at ended
      · cases ended
      · cases ended
        split
        · exact lt_of_lt_of_le beyond (linked_ccmdAdd ..)
        · exact beyond

theorem parseEnd_refused {s : ParseState} {t : Builder} (full : ClientOptions.parseEnd s = .error .full)
    (ended : parseEnd (whole s) = .ok t) : chainCapacity < t.linked.length := by
  simp only [ClientOptions.parseEnd] at full
  cases one : ClientOptions.exhaustReplies s.reservedFwdReplies.length s with
  | error e =>
    simp only [one] at full
    cases full
    exact beyond_of_exhausted (exhaustReplies_refused one) ended
  | ok u =>
    have agrees := exhaustReplies_whole (by rw [one]; simp)
    rw [one] at agrees
    have same : exhaustReplies s.reservedFwdReplies.length (whole s) = whole u := Except.ok.inj agrees
    have hangs (refused : ClientOptions.ccmdAdd u (.new .reply u.lastRespSize) = .error .full) :
        chainCapacity < (ccmdAdd (whole u) .reply u.lastRespSize).linked.length := by
      have room := refused_of_full refused
      rw [ccmdAdd, if_neg room]
      simp only [Builder.linked, List.length_append, Option.toList_some, List.length_singleton]
      omega
    simp only [one] at full
    simp only [parseEnd, same] at ended
    split at full
    · cases full
    · rename_i spent
      rw [if_neg spent] at ended
      split at full
      · rename_i used
        rw [if_pos used] at ended
        cases ended
        exact hangs full
      · rename_i unused
        rw [if_neg unused] at ended
        cases last : u.chain.getLast? with
        | none =>
          simp only [last] at full
          cases full
        | some node =>
          simp only [last] at full ended
          cases ended
          split at full
          · rename_i other
            rw [if_pos other]
            exact hangs full
          · cases full

/-- The parser that is refused nothing is the parser of `ClientOptions`. -/
theorem parseFrom_room {opts : List Opt} {s : ParseState} {s' t : Builder} (p : Parsed (whole s))
    (parsed : parseMany (whole s) opts = .ok s') (ended : parseEnd s' = .ok t)
    (room : t.linked.length ≤ chainCapacity) :
    ClientOptions.parseFrom s opts = .ok t.toParseState ∧ t.behind = none := by
  induction opts generalizing s with
  | nil =>
    cases parsed
    have fits : ClientOptions.parseEnd s ≠ .error .full := by
      intro full
      have := parseEnd_refused full ended
      omega
    rw [parseEnd_whole fits] at ended
    cases same : ClientOptions.parseEnd s with
    | error e =>
      rw [same] at ended
      cases ended
    | ok u =>
      rw [same] at ended
      cases ended
      exact ⟨same, rfl⟩
  | cons opt rest ih =>
    simp only [parseMany] at parsed
    cases one : parseOpt (whole s) opt with
    | error e =>
      simp only [one] at parsed
      cases parsed
    | ok s1 =>
      simp only [one] at parsed
      have fits : ClientOptions.parseOpt s opt ≠ .error .full := by
        intro full
        have refused := (parseOpt_refused p full one).many parsed
        have := beyond_of_exhausted refused.exhaustReplies ended
        omega
      have onward := p.opt one
      rw [parseOpt_whole fits] at one
      cases here : ClientOptions.parseOpt s opt with
      | error e =>
        rw [here] at one
        cases one
      | ok u =>
        rw [here] at one
        cases one
        simp only [ClientOptions.parseFrom, here]
        exact ih onward parsed

theorem parseOptions_room {opts : List Opt} {t : Builder} (parsed : parseOptions opts = .ok t)
    (room : t.linked.length ≤ chainCapacity) :
    ClientOptions.parseOptions opts = .ok t.toParseState ∧ t.behind = none := by
  simp only [parseOptions] at parsed
  cases many : parseMany .init opts with
  | error e =>
    simp only [many] at parsed
    cases parsed
  | ok s' =>
    simp only [many] at parsed
    exact parseFrom_room parsed_init many parsed room

end FullChain
