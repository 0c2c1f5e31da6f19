import DistWalk.MessageSkip
import DistWalk.TemplateDump

/-!
# Skipping on the template and in the message

`ccmd_skip` walks the nodes of the chain, `cmd_bounded_skip` the commands of the
message composed from it. As long as the template does not run into its end or
into a REPLY without a scope, both count the same scopes and stop at the same
command, whether or not the chain is balanced.
-/

namespace SkipAgreement

open ByteMemory Message Walkers Template TemplateSkip Decoding MessageSkip TemplateDump


/-- The commands at these offsets have the types of these nodes. -/
def Spells (mem : Mem) (cmds : List Nat) (nodes : List CcmdNode) : Prop :=
  cmds.map (cmdAt mem) = nodes.map (·.cmd)

section Skip

variable {mem : Mem} {msgEnd e : Nat}

theorem Spells.cons {cmds : List Nat} {node : CcmdNode} {rest : List CcmdNode}
    (h : Spells mem cmds (node :: rest)) :
    ∃ x l, cmds = x :: l ∧ cmdAt mem x = node.cmd ∧ Spells mem l rest := by
  cases cmds with
  | nil => cases h
  | cons x l =>
    simp only [Spells, List.map_cons, List.cons.injEq] at h
    exact ⟨x, l, rfl, h.1, h.2⟩

theorem Spells.length {cmds : List Nat} {nodes : List CcmdNode} (h : Spells mem cmds nodes) :
    cmds.length = nodes.length := by
  simpa using congrArg List.length h

theorem Spells.ne_nil {cmds : List Nat} {nodes : List CcmdNode} (h : Spells mem cmds nodes)
    (nonempty : nodes ≠ []) : cmds ≠ [] := by
  rintro rfl
  exact nonempty (by simpa [Spells] using h.symm)

/-- Passing a node changes the number of scopes as passing its command does, unless
the node is the last one. -/
theorem nestingAfter_eq {x : Nat} {l : List Nat} {node : CcmdNode} {rest : List CcmdNode}
    {k nested : Nat} (type : cmdAt mem x = node.cmd) (spelled : Spells mem l rest)
    (more : rest ≠ []) (passed : nestedAfter node rest k = some nested) :
    nestingAfter mem x (l.headD e) k = nested := by
  obtain ⟨next, others, rfl⟩ := List.exists_cons_of_ne_nil more
  obtain ⟨y, l, rfl, next_type, -⟩ := spelled.cons
  rw [nestingAfter, type, List.headD_cons, next_type]
  cases kind : node.cmd with
  | forwardBegin =>
    simp only [nestedAfter, kind, Option.some.injEq] at passed
    simp only [← passed, Nat.cast_add, Nat.cast_one]
  | reply =>
    simp only [nestedAfter, kind] at passed
    by_cases positive : k > 0
    · rw [if_pos positive, Option.some.injEq] at passed
      by_cases fresh : next.cmd = .forwardContinue
      · simp only [fresh, ne_eq, not_true_eq_false, if_false] at passed ⊢
        rw [passed]
      · simp only [fresh, ne_eq, not_false_eq_true, if_true] at passed ⊢
        omega
    · rw [if_neg positive] at passed
      cases passed
  | _ =>
    simp only [nestedAfter, kind, Option.some.injEq] at passed
    simp only [passed]

/-- Where leaving a context on the template ends at a node, leaving it in the message
ends at the command of that node. -/
theorem leave_of_skipNode {nodes nodes' : List CcmdNode} {cmds : List Nat} {k : Nat}
    (layout : Layout mem msgEnd e cmds) (spelled : Spells mem cmds nodes) (start : nodes ≠ [])
    (skipped : skipNode nodes k = some nodes') (more : nodes' ≠ []) :
    ∃ l, l <:+ cmds ∧ Spells mem l nodes' ∧ leave mem msgEnd e cmds k = some (l.headD e) := by
  induction nodes generalizing cmds k with
  | nil => exact absurd rfl start
  | cons node rest ih =>
    obtain ⟨x, l, rfl, type, later⟩ := spelled.cons
    simp only [skipNode] at skipped
    cases passed : nestedAfter node rest k with
    | none =>
      simp only [passed] at skipped
      cases skipped
    | some nested =>
      simp only [passed] at skipped
      have onward : rest ≠ [] := by
        rintro rfl
        simp at skipped
        exact more skipped
      have other := layout.rest.head_ne_eom (later.ne_nil onward)
      rw [leave_cons layout k (nestingAfter_eq type later onward passed)]
      split at skipped
      · rename_i open_scope
        obtain ⟨l', suffix, spelled', left⟩ := ih layout.rest later onward skipped
        rw [if_pos ⟨other, by omega⟩]
        exact ⟨l', suffix.trans (List.suffix_cons x l), spelled', left⟩
      · rename_i closed
        cases skipped
        rw [if_neg (by simp only [onward, ne_eq, not_false_eq_true, true_and] at closed; omega)]
        exact ⟨l, List.suffix_cons x l, later, rfl⟩

theorem skipContexts_of_ccmdSkip {nodes : List CcmdNode} {cmds : List Nat} {n : Nat}
    (layout : Layout mem msgEnd e cmds) (spelled : Spells mem cmds nodes)
    (more : ccmdSkip nodes n ≠ []) :
    ∃ l, l <:+ cmds ∧ Spells mem l (ccmdSkip nodes n) ∧
      skipContexts mem msgEnd n (cmds.headD e) = some (l.headD e) := by
  induction n generalizing nodes cmds with
  | zero =>
    have all : ccmdSkip nodes 0 = nodes := by cases nodes <;> rfl
    rw [all]
    exact ⟨cmds, List.suffix_rfl, spelled, rfl⟩
  | succ n ih =>
    cases nodes with
    | nil => exact absurd rfl more
    | cons node rest =>
      simp only [ccmdSkip] at more ⊢
      cases skipped : skipNode (node :: rest) 0 with
      | none => simp [skipped] at more
      | some nodes' =>
        simp only [skipped] at more ⊢
        have again : nodes' ≠ [] := by
          rintro rfl
          cases n <;> exact more rfl
        obtain ⟨l, suffix, spelled', left⟩ :=
          leave_of_skipNode layout spelled (List.cons_ne_nil node rest) skipped again
        obtain ⟨front, rfl⟩ := suffix
        obtain ⟨l', suffix', spelled'', found⟩ := ih layout.tail spelled' more
        refine ⟨l', suffix'.trans (List.suffix_append front l), spelled'', ?_⟩
        have other := layout.head_ne_eom (spelled.ne_nil (List.cons_ne_nil node rest))
        have left : skipContext mem msgEnd (msgEnd - (front ++ l).headD e) ((front ++ l).headD e) 0 =
            some (l.headD e) := left
        rw [skipContexts, if_neg other, left, Option.bind_some, found]

end Skip

theorem emitted_plain {draws : Draws} {reqId fuel k : Nat} {chain : List CcmdNode}
    (plain : ∀ node ∈ chain, node.cmd ≠ .pskip) (enough : chain.length < fuel) :
    emitted draws reqId fuel k chain = chain := by
  induction chain generalizing fuel with
  | nil =>
    cases fuel with
    | zero => rfl
    | succ fuel => rfl
  | cons node rest ih =>
    obtain ⟨more, rfl⟩ : ∃ more, fuel = more + 1 := ⟨fuel - 1, by simp at enough; omega⟩
    have enough' : rest.length < more := by simpa using enough
    have later := ih (fun node h => plain node (List.mem_cons_of_mem _ h)) enough'
    rw [emitted, if_neg (plain node (List.mem_cons_self ..)), later]

theorem skips_agree {draws : Draws} {chain : List CcmdNode} {mem mem' : Mem} {m n k : Nat}
    (plain : ∀ node ∈ chain, node.cmd ≠ .pskip)
    (dumped : ccmdDump draws chain mem m = .ok (mem', true))
    (found : ccmdSkip chain n = chain.drop k) (inside : k < chain.length) :
    ∃ cmds c, decode mem' m = some cmds ∧ cmds[k]? = some c ∧
      cmdBoundedSkip mem' (some (messageFirstCmd m)) n (messageEnd mem' m) = some c := by
  have composed := dumpFrom_composed dumped
  have same := messageEnd_dumped dumped
  have nonempty : chain ≠ [] := by
    rintro rfl
    simp at inside
  have kept : emitted draws (reqIdOf mem m) (chain.length + 1) 0 chain = chain :=
    emitted_plain plain (Nat.lt_succ_self _)
  rw [kept] at composed
  obtain ⟨cmds, walked, types⟩ := composed.walked (Or.inl nonempty)
  have spelled : Spells mem' cmds chain := types
  have decoded : decode mem' m = some cmds := by
    rw [decode, same]
    exact walk_enough walked (by simp only [messageFirstCmd]; omega)
  obtain ⟨e, layout, first⟩ := walk_layout walked
  have first : cmds.headD e = messageFirstCmd m := first
  have more : ccmdSkip chain n ≠ [] := by
    rw [found]
    simpa using inside
  obtain ⟨l, ⟨front, rfl⟩, spelled', skipped⟩ := skipContexts_of_ccmdSkip layout spelled more
  -- the rests are as long as each other, so they start at the same place
  have position : front.length = k := by
    have total := spelled.length
    have rest := spelled'.length
    rw [found, List.length_drop] at rest
    rw [List.length_append] at total
    omega
  obtain ⟨c, l, rfl⟩ := List.exists_cons_of_ne_nil (spelled'.ne_nil more)
  refine ⟨_, c, decoded, ?_, ?_⟩
  · rw [← position, List.getElem?_append_right le_rfl]
    simp
  · have bounds := layout.inBounds
    rw [first] at bounds skipped
    rw [cmdBoundedSkip, same, if_pos bounds]
    exact skipped

/-- Skipping two contexts of a chain with an unmatched REPLY in front of its end. -/
theorem skips_agree_two_contexts :
    let chain := [CommandType.forwardBegin, .compute, .reply, .store, .reply, .compute].map
      fun type => CcmdNode.new type (pdBuildFixed 10)
    ∃ mem' cmds c, ccmdDump alwaysSkip chain blank 0 = .ok (mem', true) ∧
      decode mem' 0 = some cmds ∧ cmds[4]? = some c ∧
      cmdBoundedSkip mem' (some (messageFirstCmd 0)) 2 (messageEnd mem' 0) = some c := by
  intro chain
  have plain : ∀ node ∈ chain, node.cmd ≠ .pskip := by simp [chain, CcmdNode.new]
  obtain ⟨mem', dumped⟩ : ∃ mem', ccmdDump alwaysSkip chain blank 0 = .ok (mem', true) := ⟨_, rfl⟩
  have found : ccmdSkip chain 2 = chain.drop 4 := rfl
  obtain ⟨cmds, c, skipped⟩ := skips_agree plain dumped found (by simp [chain])
  exact ⟨mem', cmds, c, dumped, skipped⟩

end SkipAgreement
