import DistWalk.MessageSkip
import DistWalk.Forwarding

/-!
# Walking contexts and the branches of one

The bounded walkers on a row of contexts, of any nesting: skipping passes whole
contexts, and the next FORWARD of a context is the next one that belongs to it,
never one of a context inside.
-/

namespace ContextWalks

open ByteMemory Message Walkers ContextGrammar Template MessageSkip Forwarding

section Walks

variable {mem : Mem} {msgEnd : Nat}

/-! ## Skipping contexts -/

theorem onward_next {next : Nat} (fresh : cmdAt mem next ≠ .forwardContinue) :
    Onward (cmdKind mem) [next] := by
  refine ⟨by simp, fun x hx => ?_⟩
  cases hx
  exact fun cont => fresh (cmdKind_continues.mp cont)

theorem onward_flatten {contexts : List (List Nat)} {l : List Nat}
    (each : ∀ a ∈ contexts, Derives (cmdKind mem) .context a) (onward : Onward (cmdKind mem) l) :
    Onward (cmdKind mem) (contexts.flatten ++ l) :=
  onward_contexts (.of_flatten each) onward

/-- From the first of some contexts, `cmd_bounded_skip` gets to the command behind the
`j`-th one. -/
theorem skips_contexts {contexts : List (List Nat)} {next j : Nat}
    (each : ∀ a ∈ contexts, Derives (cmdKind mem) .context a)
    (row : Row mem msgEnd (contexts.flatten ++ [next]))
    (fresh : cmdAt mem next ≠ .forwardContinue) (le : j ≤ contexts.length) :
    cmdBoundedSkip mem (contexts.flatten ++ [next]).head? j msgEnd =
      ((contexts.drop j).flatten ++ [next]).head? := by
  induction j generalizing contexts with
  | zero =>
    obtain ⟨x, l, same⟩ := List.exists_cons_of_ne_nil (show contexts.flatten ++ [next] ≠ [] by simp)
    rw [List.drop_zero, same, List.head?_cons, cmdBoundedSkip,
      if_pos (row.inside x (by simp [same]))]
    rfl
  | succ j ih =>
    obtain ⟨a, contexts, rfl⟩ := List.exists_cons_of_ne_nil (show contexts ≠ [] by
      rintro rfl
      simp at le)
    have first := each a List.mem_cons_self
    have others := fun b hb => each b (List.mem_cons_of_mem a hb)
    rw [List.flatten_cons, List.append_assoc] at row ⊢
    have skipped := cmdBoundedSkip_row row first (onward_flatten others (onward_next fresh))
    obtain ⟨x, rest, rfl, -⟩ := context_head first
    rw [List.cons_append] at row skipped ⊢
    rw [List.head?_cons, cmdBoundedSkip_succ (row.inside x List.mem_cons_self), ← List.head?_cons,
      skipped, List.drop_succ_cons]
    exact ih others (Row.drop (a := x :: rest) row) (by simpa using le)

/-! ## The branches of one context -/

/-- A FORWARD context that starts at `x`: the commands `l` behind `x`, the
FORWARD_CONTINUEs of the context itself and the commands of the contexts inside. -/
inductive ForwardContext (mem : Mem) (x : Nat) : List Nat → List Nat → List Nat → Prop
  | plain {heads body : List Nat} {r : Nat} (continued : ∀ c ∈ heads, cmdKind mem c = .continues)
      (inside : Derives (cmdKind mem) .contexts body) (closing : cmdKind mem r = .closes)
      (flags : ∀ c ∈ x :: heads, (fwdOpts mem c).branched = 0) :
      ForwardContext mem x (heads ++ body ++ [r]) heads body
  | branched {l own nested : List Nat} (owned : Owned (cmdKind mem) l own nested)
      (flags : ∀ c ∈ x :: own, (fwdOpts mem c).branched ≠ 0) : ForwardContext mem x l own nested

/-- `cmd_bounded_next_forward`, called again and again from `cmd` on, returns these
commands and then NULL. -/
def Enumerates (mem : Mem) (msgEnd : Nat) : Nat → List Nat → Prop
  | cmd, [] => cmdBoundedNextForward mem (some cmd) msgEnd = .ok none
  | cmd, c :: rest =>
    cmdBoundedNextForward mem (some cmd) msgEnd = .ok (some c) ∧ Enumerates mem msgEnd c rest

theorem seekContinue_simple {b : Bool} {fuel cmd : Nat} (plain : cmdKind mem cmd = .simple)
    (other : cmdAt mem cmd ≠ .eom) :
    seekContinue mem msgEnd b (fuel + 1) (some cmd) =
      seekContinue mem msgEnd b fuel (cmdBoundedNext mem cmd msgEnd) := by
  rw [cmdKind] at plain
  rw [seekContinue]
  cases type : cmdAt mem cmd <;> simp_all [typeKind]

theorem seekContinue_opens {b : Bool} {fuel cmd : Nat} (opening : cmdAt mem cmd = .forwardBegin) :
    seekContinue mem msgEnd b (fuel + 1) (some cmd) =
      seekContinue mem msgEnd b fuel (cmdBoundedSkip mem (some cmd) 1 msgEnd) := by
  rw [seekContinue, opening]

theorem seekContinue_continues {b : Bool} {fuel cmd : Nat}
    (continues : cmdAt mem cmd = .forwardContinue) (inside : cmdInBounds mem cmd msgEnd = true) :
    seekContinue mem msgEnd b (fuel + 1) (some cmd) = some cmd := by
  simp only [seekContinue, continues, inside, if_true]

/-- The contexts of a branch are stepped over, up to its REPLY. -/
theorem seekContinue_body {b : Bool} {body l : List Nat} {r fuel : Nat}
    (inside : Derives (cmdKind mem) .contexts body) (closing : cmdKind mem r = .closes)
    (row : Row mem msgEnd (body ++ r :: l)) (enough : body.length + 2 ≤ fuel) :
    ∃ more, seekContinue mem msgEnd b fuel (body ++ r :: l).head? =
      seekContinue mem msgEnd b (more + 2) (some r) := by
  obtain ⟨contexts, rfl, each⟩ := inside.flatten
  induction contexts generalizing fuel with
  | nil => exact ⟨fuel - 2, by rw [Nat.sub_add_cancel (by simpa using enough)]; rfl⟩
  | cons a contexts ih =>
    have first := each a List.mem_cons_self
    have others := fun b hb => each b (List.mem_cons_of_mem a hb)
    rw [List.flatten_cons, List.append_assoc] at row ⊢
    rw [List.flatten_cons, List.length_append] at enough
    have onward := onward_flatten others (onward_close closing l)
    have skipped := cmdBoundedSkip_row row first onward
    obtain ⟨x, rest, rfl, head⟩ := context_head first
    simp only [List.length_cons] at enough
    obtain ⟨fuel, rfl⟩ : ∃ n, fuel = n + 1 := ⟨fuel - 1, by omega⟩
    have fewer : contexts.flatten.length + 2 ≤ fuel := by omega
    obtain ⟨more, found⟩ := ih others (.of_flatten others) (Row.drop row) fewer
    refine ⟨more, Eq.trans ?_ found⟩
    have other := row.ne_eom (by simp [onward.nonempty])
    rw [List.cons_append, List.head?_cons] at skipped ⊢
    rcases head with plain | opening
    · -- a context that starts with a plain command is that command
      cases first with
      | simple =>
        obtain ⟨y, tail, same⟩ := List.exists_cons_of_ne_nil onward.nonempty
        rw [same] at row ⊢
        rw [seekContinue_simple plain other, row.next]
        rfl
      | scope opening => simp [plain] at opening
    · rw [seekContinue_opens (cmdKind_opens.mp opening), skipped]

theorem forward_inBounds {x : Nat} {l : List Nat} (row : Row mem msgEnd (x :: l))
    (forward : (cmdAt mem x).isForward = true) :
    cmdBoundedNextForward mem (some x) msgEnd =
      .ok (seekContinue mem msgEnd ((fwdOpts mem x).branched ≠ 0) (msgEnd - x)
        (cmdBoundedNext mem x msgEnd)) := by
  simp [cmdBoundedNextForward, row.inside x List.mem_cons_self, forward]

theorem forward_continued {x c : Nat} {l : List Nat} (row : Row mem msgEnd (x :: c :: l))
    (forward : (cmdAt mem x).isForward = true) (continues : cmdKind mem c = .continues) :
    cmdBoundedNextForward mem (some x) msgEnd = .ok (some c) := by
  have room := row.length_le
  simp only [List.length_cons] at room
  obtain ⟨fuel, enough⟩ : ∃ n, msgEnd - x = n + 1 := ⟨msgEnd - x - 1, by omega⟩
  rw [forward_inBounds row forward, row.next, enough,
    seekContinue_continues (cmdKind_continues.mp continues) (row.inside c (by simp))]

/-- From the last FORWARD in front of a branch: the command behind the REPLY of the
branch, if the context is branched and goes on there. -/
theorem forward_branch {x r y : Nat} {body l : List Nat}
    (row : Row mem msgEnd (x :: (body ++ r :: y :: l))) (forward : (cmdAt mem x).isForward = true)
    (inside : Derives (cmdKind mem) .contexts body) (closing : cmdKind mem r = .closes) :
    cmdBoundedNextForward mem (some x) msgEnd =
      .ok (if (fwdOpts mem x).branched ≠ 0 ∧ cmdAt mem y = .forwardContinue then some y else none) := by
  have room := row.length_le
  simp only [List.length_append, List.length_cons] at room
  obtain ⟨first, tail, same⟩ := List.exists_cons_of_ne_nil (show body ++ r :: y :: l ≠ [] by simp)
  have enough : body.length + 2 ≤ msgEnd - x := by omega
  obtain ⟨more, found⟩ := seekContinue_body (b := (fwdOpts mem x).branched ≠ 0) inside closing
    row.tail enough
  have behind := Row.drop row.tail
  rw [forward_inBounds row forward]
  rw [same] at row found
  rw [row.next, ← List.head?_cons, found, seekContinue, cmdKind_closes.mp closing]
  simp only [behind.next]
  by_cases continues : cmdAt mem y = .forwardContinue
  · by_cases flag : (fwdOpts mem x).branched = 0
    · simp [flag]
    · simp [flag, continues,
        seekContinue_continues continues (behind.inside y (by simp))]
  · simp [continues]

/-- Through the FORWARDs that lie one behind the other. -/
theorem enumerates_heads {x : Nat} {heads l own : List Nat} (row : Row mem msgEnd (x :: (heads ++ l)))
    (forward : (cmdAt mem x).isForward = true) (continued : ∀ c ∈ heads, cmdKind mem c = .continues)
    (last : ∀ z ∈ x :: heads, Row mem msgEnd (z :: l) → (cmdAt mem z).isForward = true →
      Enumerates mem msgEnd z own) : Enumerates mem msgEnd x (heads ++ own) := by
  induction heads generalizing x with
  | nil => exact last x List.mem_cons_self row forward
  | cons c heads ih =>
    have here := continued c List.mem_cons_self
    refine ⟨forward_continued row forward here, ?_⟩
    refine ih row.tail ?_ (fun d hd => continued d (List.mem_cons_of_mem c hd))
      fun z hz => last z (List.mem_cons_of_mem x hz)
    rw [cmdKind_continues.mp here]
    rfl

theorem enumerates_branched {x next : Nat} {l own nested : List Nat}
    (owned : Owned (cmdKind mem) l own nested) (flags : ∀ c ∈ x :: own, (fwdOpts mem c).branched ≠ 0)
    (forward : (cmdAt mem x).isForward = true) (row : Row mem msgEnd (x :: (l ++ [next])))
    (fresh : cmdAt mem next ≠ .forwardContinue) : Enumerates mem msgEnd x own := by
  induction owned generalizing x with
  | @last heads body r continued inside closing =>
    rw [List.append_assoc, List.append_assoc] at row
    rw [← List.append_nil heads]
    refine enumerates_heads row forward continued fun z _ row forward => ?_
    rw [Enumerates, forward_branch row forward inside closing, if_neg fun both => fresh both.2]
  | @more heads body rest own nested r c continued inside closing again others ih =>
    rw [List.append_assoc, List.append_assoc] at row
    refine enumerates_heads row forward continued fun z hz row forward => ?_
    have flag := flags z (by simp only [List.mem_cons, List.mem_append] at hz ⊢; tauto)
    have next := cmdKind_continues.mp again
    refine ⟨by rw [forward_branch row forward inside closing, if_pos ⟨flag, next⟩], ?_⟩
    have behind := (Row.drop row.tail).tail
    refine ih (fun d hd => flags d (by simp only [List.mem_cons, List.mem_append] at hd ⊢; tauto)) ?_
      behind
    rw [next]
    rfl

theorem ForwardContext.enumerates {x next : Nat} {l own nested : List Nat}
    (context : ForwardContext mem x l own nested) (opening : cmdAt mem x = .forwardBegin)
    (row : Row mem msgEnd (x :: (l ++ [next]))) (fresh : cmdAt mem next ≠ .forwardContinue) :
    Enumerates mem msgEnd x own := by
  have forward : (cmdAt mem x).isForward = true := by
    rw [opening]
    rfl
  cases context with
  | plain continued inside closing flags =>
    rw [List.append_assoc, List.append_assoc] at row
    rw [← List.append_nil own]
    refine enumerates_heads row forward continued fun z hz row forward => ?_
    rw [Enumerates, forward_branch row forward inside closing, if_neg fun both => both.1 (flags z hz)]
  | branched owned flags => exact enumerates_branched owned flags forward row fresh

/-- What is enumerated is what `start_forward` iterates over. -/
theorem branchesFrom_enumerates {x fuel : Nat} {own : List Nat} (h : Enumerates mem msgEnd x own)
    (enough : own.length + 1 < fuel) : branchesFrom mem msgEnd fuel (some x) = x :: own := by
  induction own generalizing x fuel with
  | nil =>
    obtain ⟨fuel, rfl⟩ : ∃ n, fuel = n + 2 := ⟨fuel - 2, by simp at enough; omega⟩
    have done : cmdBoundedNextForward mem (some x) msgEnd = .ok none := h
    simp only [branchesFrom, done]
  | cons c own ih =>
    obtain ⟨fuel, rfl⟩ : ∃ n, fuel = n + 1 := ⟨fuel - 1, by omega⟩
    simp only [branchesFrom, h.1]
    rw [ih h.2 (by simpa using enough)]

/-! ## Each once, none of the contexts inside -/

theorem ForwardContext.owned {x : Nat} {l own nested : List Nat}
    (context : ForwardContext mem x l own nested) : Owned (cmdKind mem) l own nested := by
  cases context with
  | plain continued inside closing _ => exact .last continued inside closing
  | branched owned _ => exact owned

theorem sorted_of_row {l : List Nat} (row : Row mem msgEnd l) : l.Pairwise (· < ·) := by
  have forwards : l.IsChain (· < ·) := row.follows.imp fun x y step => by
    have advance := four_le_cmdTypeSize (cmdAt mem x)
    omega
  exact forwards.pairwise

/-- `cmd_bounded_next_forward` enumerates the FORWARD_CONTINUEs of the context itself, in
order and each once, and none of a context inside. -/
theorem forwards_enumerated {x next : Nat} {l own nested : List Nat}
    (context : ForwardContext mem x l own nested) (opening : cmdAt mem x = .forwardBegin)
    (row : Row mem msgEnd (x :: (l ++ [next]))) (fresh : cmdAt mem next ≠ .forwardContinue) :
    Enumerates mem msgEnd x own ∧ branches mem msgEnd (some x) = x :: own ∧
      (x :: own).Pairwise (· < ·) ∧ own.Disjoint nested := by
  have enumerates := context.enumerates opening row fresh
  have sorted := sorted_of_row row
  have sublist := context.owned.sublist
  obtain ⟨closers, -, perm⟩ := context.owned.perm
  have few := row.length_le
  have count := sublist.length_le
  simp only [List.length_append, List.length_cons] at few
  have scope : (x :: l).Sublist (x :: (l ++ [next])) := (List.sublist_append_left l _).cons_cons x
  refine ⟨enumerates, branchesFrom_enumerates enumerates (by omega),
    sorted.sublist ((sublist.cons_cons x).trans scope), ?_⟩
  have once : l.Nodup := ((sorted.sublist scope).tail).imp fun less => ne_of_lt less
  exact List.disjoint_of_nodup_append (List.Nodup.of_append_left (perm.nodup_iff.mpr once))

end Walks

/-! ## A context of each kind inside the other -/

/-- A branched context with two branches and a second FORWARD for the first one; in that
branch a context that is not branched. EOM follows at 224. -/
def nestedForwards : Mem := fun a =>
  match a with
  | 0 => 4 | 23 => 1 | 28 => 5 | 51 => 1 | 56 => 4 | 84 => 5 | 120 => 6 | 136 => 6
  | 152 => 5 | 175 => 1 | 180 => 1 | 208 => 6 | 224 => 7
  | _ => 0

theorem nestedForwards_row :
    Row nestedForwards 228 [0, 28, 56, 84, 112, 120, 136, 152, 180, 208, 224] :=
  ⟨by decide +kernel, by decide +kernel⟩

theorem nestedForwards_inner : Derives (cmdKind nestedForwards) .context [56, 84, 112, 120] := by
  have body : Derives (cmdKind nestedForwards) .contexts ([112] ++ []) := .cons (.simple rfl) .nil
  have rest : Derives (cmdKind nestedForwards) .branches ([84] ++ [112] ++ [120]) :=
    .last (by decide) body rfl
  exact .scope rfl rest

theorem nestedForwards_owned : Owned (cmdKind nestedForwards)
    [28, 56, 84, 112, 120, 136, 152, 180, 208] [28, 152] [56, 84, 112, 120, 180] := by
  have first : Derives (cmdKind nestedForwards) .contexts ([56, 84, 112, 120] ++ []) :=
    .cons nestedForwards_inner .nil
  have second : Derives (cmdKind nestedForwards) .contexts ([180] ++ []) := .cons (.simple rfl) .nil
  have last : Owned (cmdKind nestedForwards) ([] ++ [180] ++ [208]) [] [180] :=
    .last (by simp) second rfl
  have whole : Owned (cmdKind nestedForwards)
      ([28] ++ [56, 84, 112, 120] ++ 136 :: 152 :: ([] ++ [180] ++ [208])) ([28] ++ [152])
      ([56, 84, 112, 120] ++ [180]) := .more (by decide) first rfl rfl last
  exact whole

theorem nestedForwards_plain :
    ForwardContext nestedForwards 56 ([84] ++ [112] ++ [120]) [84] [112] := by
  have body : Derives (cmdKind nestedForwards) .contexts ([112] ++ []) := .cons (.simple rfl) .nil
  exact .plain (by decide) body rfl (by decide +kernel)

theorem skips_contexts_nested :
    cmdBoundedSkip nestedForwards (some 0) 1 228 = some 224 ∧
      cmdBoundedSkip nestedForwards (some 56) 1 228 = some 136 := by
  have inner : Row nestedForwards 228 [56, 84, 112, 120, 136] :=
    ⟨by decide +kernel, by decide +kernel⟩
  constructor
  · exact @skips_contexts _ _ [[0, 28, 56, 84, 112, 120, 136, 152, 180, 208]] _ 1
      (by simpa using .scope rfl nestedForwards_owned.derives) nestedForwards_row (by decide) le_rfl
  · exact @skips_contexts _ _ [[56, 84, 112, 120]] _ 1 (by simpa using nestedForwards_inner) inner
      (by decide) le_rfl

theorem forwards_enumerated_nested :
    Enumerates nestedForwards 228 0 [28, 152] ∧ Enumerates nestedForwards 228 56 [84] := by
  have inner : Row nestedForwards 228 [56, 84, 112, 120, 136] :=
    ⟨by decide +kernel, by decide +kernel⟩
  constructor
  · exact (forwards_enumerated (.branched nestedForwards_owned (by decide +kernel)) rfl
      nestedForwards_row (by decide)).1
  · exact (forwards_enumerated nestedForwards_plain rfl inner (by decide)).1

end ContextWalks
