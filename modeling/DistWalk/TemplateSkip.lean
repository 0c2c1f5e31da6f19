import DistWalk.Template

/-!
# Skipping on a balanced template

On a chain that reads as contexts, `ccmd_skip` passes over whole contexts, or
falls off the chain when its scope ends first. What a request keeps of the chain
is then balanced exactly when no skip falls off, or one does right after a REPLY
outside any scope.
-/

namespace TemplateSkip

open Message ContextGrammar Template

/-! ## Skipping one context -/

theorem nodeKind_continues {node : CcmdNode} :
    nodeKind node = .continues ↔ node.cmd = .forwardContinue := by
  simp only [nodeKind]
  cases node.cmd <;> simp [typeKind]

theorem nodeKind_opens {node : CcmdNode} : nodeKind node = .opens ↔ node.cmd = .forwardBegin := by
  simp only [nodeKind]
  cases node.cmd <;> simp [typeKind]

theorem nodeKind_closes {node : CcmdNode} : nodeKind node = .closes ↔ node.cmd = .reply := by
  simp only [nodeKind]
  cases node.cmd <;> simp [typeKind]

/-- A command that changes nothing is passed. -/
theorem skipNode_pass {node : CcmdNode} {l : List CcmdNode} (k : Nat) (nonempty : l ≠ [])
    (pass : nodeKind node = .simple ∨ nodeKind node = .continues) :
    skipNode (node :: l) (k + 1) = skipNode l (k + 1) := by
  have notBegin : node.cmd ≠ .forwardBegin := by
    rintro e
    simp [nodeKind, e, typeKind] at pass
  have notReply : node.cmd ≠ .reply := by
    rintro e
    simp [nodeKind, e, typeKind] at pass
  have same : nestedAfter node l (k + 1) = some (k + 1) := by
    cases hc : node.cmd <;> simp_all [nestedAfter]
  simp [skipNode, same, nonempty]

theorem skipNode_begin {node : CcmdNode} {l : List CcmdNode} (k : Nat) (nonempty : l ≠ [])
    (opening : nodeKind node = .opens) : skipNode (node :: l) k = skipNode l (k + 1) := by
  rw [nodeKind_opens] at opening
  simp [skipNode, nestedAfter, opening, nonempty]

/-- The REPLY of a scope closes it unless a FORWARD_CONTINUE follows. -/
theorem skipNode_close {node : CcmdNode} {l : List CcmdNode} (k : Nat) (onward : Onward nodeKind l)
    (closing : nodeKind node = .closes) :
    skipNode (node :: l) (k + 1) = if 0 < k then skipNode l k else some l := by
  rw [nodeKind_closes] at closing
  cases l with
  | nil => exact absurd rfl onward.nonempty
  | cons next l =>
    have other : next.cmd ≠ .forwardContinue := fun e =>
      onward.fresh next rfl (nodeKind_continues.mpr e)
    simp [skipNode, nestedAfter, closing, other]

theorem skipNode_again {node next : CcmdNode} {l : List CcmdNode} (k : Nat)
    (closing : nodeKind node = .closes) (again : nodeKind next = .continues) :
    skipNode (node :: next :: l) (k + 1) = skipNode (next :: l) (k + 1) := by
  rw [nodeKind_closes] at closing
  rw [nodeKind_continues] at again
  rw [skipNode]
  simp [nestedAfter, closing, again]

theorem skipNode_simple {node : CcmdNode} {l : List CcmdNode} (plain : nodeKind node = .simple) :
    skipNode (node :: l) 0 = some l := by
  have notBegin : node.cmd ≠ .forwardBegin := fun e => by simp [nodeKind, e, typeKind] at plain
  have notReply : node.cmd ≠ .reply := fun e => by simp [nodeKind, e, typeKind] at plain
  have same : nestedAfter node l 0 = some 0 := by
    cases hc : node.cmd <;> simp_all [nestedAfter]
  simp [skipNode, same]

theorem skipNode_skipper : Skipper nodeKind (fun _ => True) skipNode some where
  tail _ := trivial
  simple _ _ plain := skipNode_simple plain
  pass k _ nonempty pass := skipNode_pass k nonempty pass
  opens k _ nonempty opening := skipNode_begin k nonempty opening
  again k _ closing again := skipNode_again k closing again
  close k _ onward closing := skipNode_close k onward closing

theorem skipNode_context {a l : List CcmdNode} (h : Derives nodeKind .context a)
    (onward : Onward nodeKind l) : skipNode (a ++ l) 0 = some l :=
  skipNode_skipper.context h trivial onward

/-! ## Skipping several -/

/-- At least `n` contexts follow in the same scope. -/
def HasContexts (l : List CcmdNode) (n : Nat) : Prop :=
  ∃ cs : List (List CcmdNode), cs.length = n ∧ (∀ c ∈ cs, Derives nodeKind .context c) ∧
    cs.flatten <+: l

theorem hasContexts_zero (l : List CcmdNode) : HasContexts l 0 := ⟨[], rfl, by simp, by simp⟩

/-- A rest of a balanced chain starts with a context of its scope, or with the REPLY
that ends the scope. -/
theorem front_context {d : Nat} {l : List CcmdNode}
    (h : scan nodeKind (d, .other) l = some accepted) :
    (∃ a rest, l = a ++ rest ∧ Derives nodeKind .context a ∧ Onward nodeKind rest ∧
      scan nodeKind (d, .other) rest = some accepted) ∨
    ∃ r rest, l = r :: rest ∧ nodeKind r = .closes := by
  have onward {rest : List CcmdNode} (h : scan nodeKind (d, .other) rest = some accepted) :
      Onward nodeKind rest := by
    refine ⟨ne_nil_of_scan (by simp) h, ?_⟩
    rintro node hn cont
    cases rest with
    | nil => cases hn
    | cons x rest =>
      cases hn
      simp [scan, cont, scanItem] at h
  cases l with
  | nil => exact absurd rfl (ne_nil_of_scan (by simp) h)
  | cons x l =>
    cases hk : nodeKind x with
    | simple =>
      rw [scan_cons (by rw [hk]; exact scanItem_simple d .other)] at h
      exact Or.inl ⟨[x], l, rfl, .simple hk, onward h, h⟩
    | opens =>
      rw [scan_cons (by rw [hk]; exact scanItem_opens d .other)] at h
      obtain ⟨b, rest, rfl, branches, done⟩ := branches_scope l d h
      exact Or.inl ⟨x :: b, rest, rfl, .scope hk branches, onward done, done⟩
    | continues => simp [scan, hk, scanItem] at h
    | closes => exact Or.inr ⟨x, l, rfl, hk⟩

theorem HasContexts.cons {a l : List CcmdNode} {n : Nat} (first : Derives nodeKind .context a)
    (h : HasContexts l n) : HasContexts (a ++ l) (n + 1) := by
  obtain ⟨cs, length, contexts, le⟩ := h
  refine ⟨a :: cs, by simp [length], ?_, by simpa using le⟩
  rintro c mem
  rcases List.mem_cons.mp mem with rfl | mem
  · exact first
  · exact contexts c mem

/-- The first context is the one that skipping leaves behind, so the others follow it. -/
theorem HasContexts.tail {a l : List CcmdNode} {n : Nat} (first : Derives nodeKind .context a)
    (onward : Onward nodeKind l) (h : HasContexts (a ++ l) (n + 1)) : HasContexts l n := by
  obtain ⟨cs, length, contexts, le⟩ := h
  cases n with
  | zero => exact hasContexts_zero l
  | succ n =>
    match cs, length with
    | c :: c' :: cs, length =>
      obtain ⟨rest, split⟩ := le
      simp only [List.flatten_cons, List.append_assoc] at split
      have next := onward_context (contexts c' (by simp)) (cs.flatten ++ rest)
      have skipped := skipNode_context (contexts c (by simp)) next
      rw [split, skipNode_context first onward, Option.some.injEq] at skipped
      refine ⟨c' :: cs, by simpa using length, fun b mem => contexts b (by simp [List.mem_cons.mp mem]), rest, ?_⟩
      rw [skipped]
      simp

theorem no_contexts_at_close {r : CcmdNode} {l : List CcmdNode} {n : Nat}
    (closing : nodeKind r = .closes) : ¬ HasContexts (r :: l) (n + 1) := by
  rintro ⟨cs, length, contexts, le⟩
  match cs, length with
  | c :: cs, _ =>
    obtain ⟨node, tail, rfl, head⟩ := context_head (contexts c (by simp))
    obtain ⟨rest, split⟩ := le
    simp only [List.flatten_cons, List.cons_append, List.cons.injEq] at split
    rw [split.1, closing] at head
    simp at head

theorem ccmdSkip_close {r : CcmdNode} {l : List CcmdNode} {n : Nat} (closing : nodeKind r = .closes) :
    ccmdSkip (r :: l) (n + 1) = [] := by
  rw [nodeKind_closes] at closing
  simp [ccmdSkip, skipNode, nestedAfter, closing]

/-- A skip either leaves a balanced rest of the same scope or falls off the chain. -/
theorem ccmdSkip_cases {d n : Nat} {l : List CcmdNode}
    (h : scan nodeKind (d, .other) l = some accepted) :
    HasContexts l n ∧ scan nodeKind (d, .other) (ccmdSkip l n) = some accepted ∨
      ¬ HasContexts l n ∧ ccmdSkip l n = [] := by
  induction n generalizing l with
  | zero => exact Or.inl ⟨hasContexts_zero l, by cases l <;> exact h⟩
  | succ n ih =>
    rcases front_context h with ⟨a, rest, rfl, first, onward, done⟩ | ⟨r, rest, rfl, closing⟩
    · have skipped : ccmdSkip (a ++ rest) (n + 1) = ccmdSkip rest n := by
        have one := skipNode_context first onward
        obtain ⟨node, tail, rfl, -⟩ := context_head first
        simp only [List.cons_append] at one ⊢
        simp only [ccmdSkip, one]
      rw [skipped]
      rcases ih done with ⟨has, kept⟩ | ⟨hasnt, off⟩
      · exact Or.inl ⟨has.cons first, kept⟩
      · exact Or.inr ⟨fun has => hasnt (has.tail first onward), off⟩
    · exact Or.inr ⟨no_contexts_at_close closing, ccmdSkip_close closing⟩

/-- A skip leaves a rest of the chain. -/
theorem skipNode_suffix {l l' : List CcmdNode} {k : Nat} (h : skipNode l k = some l') : l' <:+ l := by
  induction l generalizing k with
  | nil =>
    cases h
    exact List.suffix_rfl
  | cons node l ih =>
    simp only [skipNode] at h
    cases ha : nestedAfter node l k with
    | none =>
      simp only [ha] at h
      cases h
    | some nested =>
      simp only [ha] at h
      split at h
      · exact (ih h).trans (List.suffix_cons node l)
      · cases h
        exact List.suffix_cons node _

theorem ccmdSkip_suffix (l : List CcmdNode) (n : Nat) : ccmdSkip l n <:+ l := by
  induction n generalizing l with
  | zero => cases l <;> exact List.suffix_rfl
  | succ n ih =>
    cases l with
    | nil => exact List.suffix_rfl
    | cons node l =>
      simp only [ccmdSkip]
      cases hs : skipNode (node :: l) 0 with
      | none => exact List.nil_suffix
      | some rest => exact (ih rest).trans (skipNode_suffix hs)

/-! ## What a request keeps -/

/-- Every skip that is taken has its commands in its own scope, or comes when what
has been kept so far, read up to `t`, ends with a REPLY outside any scope. -/
def SkipsStay (draws : Draws) (reqId : Nat) :
    Nat → Nat → Nat × Spot → List CcmdNode → Prop
  | 0, _, _, _ => True
  | _ + 1, _, _, [] => True
  | fuel + 1, k, t, node :: rest =>
    if node.cmd = .pskip then
      if skipTaken draws reqId k node then
        (HasContexts rest node.nSkip.toNat ∨ t = accepted) ∧
          (HasContexts rest node.nSkip.toNat →
            SkipsStay draws reqId fuel (k + 1) t (ccmdSkip rest node.nSkip.toNat))
      else SkipsStay draws reqId fuel (k + 1) t rest
    else
      ∀ t', scanItem t (nodeKind node) = some t' → SkipsStay draws reqId fuel k t' rest

/-- Where the template is at `(d, spot)`, what is kept of it is at the same number of
scopes, and at the same spot unless the template goes on without continuing a scope. -/
structure Along (d : Nat) (spot : Spot) (t : Nat × Spot) (l : List CcmdNode) : Prop where
  template : scan nodeKind (d, spot) l = some accepted
  depth : t.1 = d
  spot : t.2 = spot ∨ Onward nodeKind l

theorem emitted_balanced_iff {draws : Draws} {reqId fuel k d : Nat} {spot : Spot} {t : Nat × Spot}
    {l : List CcmdNode} (along : Along d spot t l) (enough : l.length < fuel) :
    scan nodeKind t (emitted draws reqId fuel k l) = some accepted ↔
      SkipsStay draws reqId fuel k t l := by
  induction fuel generalizing k d spot t l with
  | zero => omega
  | succ fuel ih =>
    cases l with
    | nil =>
      have template := along.template
      simp only [scan, Option.some.injEq] at template
      have same : t.2 = spot := along.spot.resolve_right fun onward => onward.nonempty rfl
      have done : t = accepted := by rw [← template, ← along.depth, ← same]
      simp [emitted, SkipsStay, scan, done]
    | cons node rest =>
      simp only [List.length_cons] at enough
      by_cases skip : node.cmd = .pskip
      · have simple : nodeKind node = .simple := by simp [nodeKind, skip, typeKind]
        have after : scan nodeKind (d, .other) rest = some accepted := by
          have template := along.template
          rwa [scan_cons (by rw [simple]; exact scanItem_simple d spot)] at template
        have onward {l : List CcmdNode} (h : scan nodeKind (d, .other) l = some accepted) :
            Along d .other t l := by
          refine ⟨h, along.depth, Or.inr ⟨ne_nil_of_scan (by simp) h, ?_⟩⟩
          rintro x hx cont
          cases l with
          | nil => cases hx
          | cons y l =>
            cases hx
            simp [scan, cont, scanItem] at h
        simp only [emitted, SkipsStay, skip, if_true]
        cases taken : skipTaken draws reqId k node with
        | false => simpa using ih (onward after) (by omega)
        | true =>
          simp only [if_true]
          rcases ccmdSkip_cases (n := node.nSkip.toNat) after with ⟨has, kept⟩ | ⟨hasnt, off⟩
          · have := (ccmdSkip_suffix rest node.nSkip.toNat).length_le
            rw [ih (onward kept) (by omega)]
            simp [has]
          · have ended : emitted draws reqId fuel (k + 1) [] = [] := by cases fuel <;> rfl
            simp [off, ended, hasnt, scan]
      · simp only [emitted, SkipsStay, skip, if_false]
        have template := along.template
        -- only a FORWARD_CONTINUE depends on the spot, and then the spots are the same
        have same : scanItem t (nodeKind node) = scanItem (d, spot) (nodeKind node) := by
          obtain ⟨d', spot'⟩ := t
          have depth : d' = d := along.depth
          subst depth
          rcases along.spot with rfl | onward
          · rfl
          · have notCont := onward.fresh node rfl
            cases hk : nodeKind node with
            | simple => simp only [scanItem_simple]
            | opens => simp only [scanItem_opens]
            | continues => exact absurd hk notCont
            | closes =>
              cases d' with
              | zero => simp only [scanItem_closes_top]
              | succ d' => simp only [scanItem_closes]
        cases hs : scanItem (d, spot) (nodeKind node) with
        | none => simp [scan, hs] at template
        | some t' =>
          rw [hs] at same
          rw [scan_cons hs] at template
          rw [scan_cons same]
          have kept := ih (k := k) (t := t') ⟨template, rfl, Or.inl rfl⟩ (by omega)
          rw [kept]
          constructor
          · intro stay t'' e
            cases same.symm.trans e
            exact stay
          · intro stay
            exact stay t' same

end TemplateSkip
