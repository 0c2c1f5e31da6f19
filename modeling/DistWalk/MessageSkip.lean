import DistWalk.Decoding
import DistWalk.Template

/-!
# Skipping on a well-formed message

The commands of a message that is walked up to EOM and reads as contexts: the
bounded walkers pass over whole contexts, and the search for the REPLY of a
branch ends at the REPLY that closes it.
-/

namespace MessageSkip

open ByteMemory Message Walkers Decoding ContextGrammar Template

/-- The part the command at an offset plays in the nesting. -/
def cmdKind (mem : Mem) (cmd : Nat) : Kind := typeKind (cmdAt mem cmd)

theorem cmdKind_continues {mem : Mem} {cmd : Nat} :
    cmdKind mem cmd = .continues ↔ cmdAt mem cmd = .forwardContinue := by
  rw [cmdKind]
  cases cmdAt mem cmd <;> simp [typeKind]

theorem cmdKind_opens {mem : Mem} {cmd : Nat} :
    cmdKind mem cmd = .opens ↔ cmdAt mem cmd = .forwardBegin := by
  rw [cmdKind]
  cases cmdAt mem cmd <;> simp [typeKind]

theorem cmdKind_closes {mem : Mem} {cmd : Nat} :
    cmdKind mem cmd = .closes ↔ cmdAt mem cmd = .reply := by
  rw [cmdKind]
  cases cmdAt mem cmd <;> simp [typeKind]

theorem skipContext_stuck {mem : Mem} {msgEnd cmd : Nat} (fuel : Nat) (nested : Int)
    (stuck : cmdBoundedNext mem cmd msgEnd = none) :
    skipContext mem msgEnd fuel cmd nested = none := by
  cases fuel with
  | zero => rfl
  | succ fuel => simp only [skipContext, stuck]

/-- The distance to the end of the message is enough to leave a context. -/
theorem skipContext_enough {mem : Mem} {msgEnd fuel fuel' cmd : Nat} {nested : Int}
    (enough : msgEnd - cmd ≤ fuel) (enough' : msgEnd - cmd ≤ fuel') :
    skipContext mem msgEnd fuel cmd nested = skipContext mem msgEnd fuel' cmd nested := by
  induction fuel generalizing fuel' cmd nested with
  | zero =>
    cases step : cmdBoundedNext mem cmd msgEnd with
    | none => rw [skipContext_stuck _ _ step, skipContext_stuck _ _ step]
    | some next =>
      have := lt_end_of_inBounds (inBounds_of_next step)
      omega
  | succ fuel ih =>
    cases step : cmdBoundedNext mem cmd msgEnd with
    | none => rw [skipContext_stuck _ _ step, skipContext_stuck _ _ step]
    | some next =>
      have := lt_end_of_inBounds (inBounds_of_next step)
      have := cmdBoundedNext_lt step
      obtain ⟨more, rfl⟩ : ∃ more, fuel' = more + 1 := ⟨fuel' - 1, by omega⟩
      simp only [skipContext, step]
      split
      · exact ih (by omega) (by omega)
      · rfl

section Layout

variable {mem : Mem} {msgEnd e : Nat}

/-- Leave the context at the front with `k` scopes open. -/
def leave (mem : Mem) (msgEnd e : Nat) (l : List Nat) (k : Nat) : Option Nat :=
  skipContext mem msgEnd (msgEnd - l.headD e) (l.headD e) k

/-- One step of leaving a context. -/
theorem leave_cons {x : Nat} {l : List Nat} (h : Layout mem msgEnd e (x :: l)) (k : Nat) {n : Int}
    (nesting : nestingAfter mem x (l.headD e) k = n) :
    leave mem msgEnd e (x :: l) k =
      if cmdAt mem (l.headD e) ≠ .eom ∧ n > 0 then
        skipContext mem msgEnd (msgEnd - l.headD e) (l.headD e) n
      else some (l.headD e) := by
  have step := h.next
  have below := lt_end_of_inBounds (inBounds_of_next step)
  have later := cmdBoundedNext_lt step
  obtain ⟨fuel, enough⟩ : ∃ fuel, msgEnd - x = fuel + 1 := ⟨msgEnd - x - 1, by omega⟩
  rw [leave, List.headD_cons, enough]
  simp only [skipContext, step, nesting]
  split
  · exact skipContext_enough (by omega) le_rfl
  · rfl

theorem nestingAfter_pass {cmd next : Nat} (k : Int)
    (pass : cmdKind mem cmd = .simple ∨ cmdKind mem cmd = .continues) :
    nestingAfter mem cmd next k = k := by
  rw [cmdKind] at pass
  cases hc : cmdAt mem cmd <;> simp_all [nestingAfter, typeKind]

end Layout

/-! ## Commands in a row -/

/-- Commands that lie one behind the other, all inside the message; only the last one
may be EOM. -/
structure Row (mem : Mem) (msgEnd : Nat) (cmds : List Nat) : Prop where
  follows : cmds.IsChain fun x y => cmdAt mem x ≠ .eom ∧ y = x + cmdTypeSize (cmdAt mem x)
  inside : ∀ x ∈ cmds, cmdInBounds mem x msgEnd = true

section Row

variable {mem : Mem} {msgEnd : Nat}

theorem Row.tail {x : Nat} {l : List Nat} (h : Row mem msgEnd (x :: l)) : Row mem msgEnd l :=
  ⟨h.follows.tail, fun y hy => h.inside y (List.mem_cons_of_mem x hy)⟩

theorem Row.drop {a l : List Nat} (h : Row mem msgEnd (a ++ l)) : Row mem msgEnd l := by
  induction a with
  | nil => exact h
  | cons x a ih => exact ih h.tail

theorem Row.ne_eom {x : Nat} {l : List Nat} (h : Row mem msgEnd (x :: l)) (more : l ≠ []) :
    cmdAt mem x ≠ .eom := by
  obtain ⟨y, l, rfl⟩ := List.exists_cons_of_ne_nil more
  exact (List.isChain_cons_cons.mp h.follows).1.1

theorem Row.next {x y : Nat} {l : List Nat} (h : Row mem msgEnd (x :: y :: l)) :
    cmdBoundedNext mem x msgEnd = some y := by
  have place := (List.isChain_cons_cons.mp h.follows).1.2
  have inside := h.inside y (by simp)
  simp only [cmdBoundedNext, ← place, inside, if_true]

/-- Every command takes at least a byte, so there are no more of them than bytes. -/
theorem Row.length_le {x : Nat} {l : List Nat} (h : Row mem msgEnd (x :: l)) :
    l.length < msgEnd - x := by
  induction l generalizing x with
  | nil =>
    have below := lt_end_of_inBounds (h.inside x (by simp))
    simp only [List.length_nil]
    omega
  | cons y l ih =>
    have forwards := cmdBoundedNext_lt h.next
    have rest := ih h.tail
    simp only [List.length_cons]
    omega

/-- A message that is walked up to EOM is a row that ends with this EOM. -/
theorem row_of_layout {e : Nat} {l : List Nat} (h : Layout mem msgEnd e l) :
    Row mem msgEnd (l ++ [e]) := by
  induction l with
  | nil => exact ⟨.singleton e, by simpa using h.inBounds⟩
  | cons x l ih =>
    have rest := ih h.rest
    have here : ∃ y l', l ++ [e] = y :: l' ∧ l.headD e = y := by
      cases l with
      | nil => exact ⟨e, [], rfl, rfl⟩
      | cons y l => exact ⟨y, l ++ [e], rfl, rfl⟩
    obtain ⟨y, l', same, first⟩ := here
    rw [List.cons_append, same]
    rw [same] at rest
    refine ⟨.cons_cons ⟨h.commands x (by simp), ?_⟩ rest.follows, ?_⟩
    · rw [← first]
      exact h.laid.1.symm
    · simpa using ⟨h.inBounds, rest.inside y (by simp), fun z hz => rest.inside z (by simp [hz])⟩

/-- Leave the context at the front with `k` scopes open; with a scope open it is
left at EOM as well. -/
def leaveRow (mem : Mem) (msgEnd : Nat) : List Nat → Nat → Option Nat
  | [], _ => none
  | x :: _, k =>
    if k ≠ 0 ∧ cmdAt mem x = .eom then some x
    else skipContext mem msgEnd (msgEnd - x) x k

/-- One step of leaving a context. -/
theorem leaveRow_cons {x y : Nat} {l : List Nat} (h : Row mem msgEnd (x :: y :: l)) (k : Nat) {n : Nat}
    (nesting : nestingAfter mem x y k = n) :
    leaveRow mem msgEnd (x :: y :: l) k =
      if 0 < n then leaveRow mem msgEnd (y :: l) n else some y := by
  have below := lt_end_of_inBounds (h.inside y (by simp))
  have later := cmdBoundedNext_lt h.next
  have other := h.ne_eom (by simp)
  obtain ⟨fuel, enough⟩ : ∃ fuel, msgEnd - x = fuel + 1 := ⟨msgEnd - x - 1, by omega⟩
  have positive : ((n : Int) > 0) ↔ 0 < n := by omega
  rw [leaveRow, if_neg (by simp [other]), enough]
  simp only [skipContext, h.next, nesting, positive, leaveRow]
  by_cases more : 0 < n
  · by_cases eom : cmdAt mem y = .eom
    · rw [if_neg (by simp [eom]), if_pos more, if_pos ⟨by omega, eom⟩]
    · rw [if_pos ⟨eom, more⟩, if_pos more, if_neg (by simp [eom])]
      exact skipContext_enough (by omega) le_rfl
  · rw [if_neg (by simp [more]), if_neg more]

theorem leaveRow_skipper (mem : Mem) (msgEnd : Nat) :
    Skipper (cmdKind mem) (Row mem msgEnd) (leaveRow mem msgEnd) List.head? where
  tail h := h.tail
  simple {x l} h nonempty plain := by
    obtain ⟨y, l, rfl⟩ := List.exists_cons_of_ne_nil nonempty
    rw [leaveRow_cons h 0 (nestingAfter_pass 0 (Or.inl plain)), if_neg (Nat.lt_irrefl 0)]
    rfl
  pass {x l} k h nonempty pass := by
    obtain ⟨y, l, rfl⟩ := List.exists_cons_of_ne_nil nonempty
    rw [leaveRow_cons h (k + 1) (nestingAfter_pass _ pass), if_pos (Nat.succ_pos k)]
  opens {x l} k h nonempty opening := by
    obtain ⟨y, l, rfl⟩ := List.exists_cons_of_ne_nil nonempty
    have nesting : nestingAfter mem x y k = ((k + 1 : Nat) : Int) := by
      simp [nestingAfter, cmdKind_opens.mp opening]
    rw [leaveRow_cons h k nesting, if_pos (Nat.succ_pos k)]
  again {x c l} k h closing again := by
    have nesting : nestingAfter mem x c ((k + 1 : Nat) : Int) = ((k + 1 : Nat) : Int) := by
      simp [nestingAfter, cmdKind_closes.mp closing, cmdKind_continues.mp again]
    rw [leaveRow_cons h (k + 1) nesting, if_pos (Nat.succ_pos k)]
  close {x l} k h onward closing := by
    obtain ⟨y, l, rfl⟩ := List.exists_cons_of_ne_nil onward.nonempty
    have fresh : cmdAt mem y ≠ .forwardContinue :=
      fun cont => onward.fresh y rfl (cmdKind_continues.mpr cont)
    have nesting : nestingAfter mem x y ((k + 1 : Nat) : Int) = (k : Int) := by
      simp only [nestingAfter, cmdKind_closes.mp closing, ne_eq, fresh, not_false_eq_true, if_true]
      omega
    rw [leaveRow_cons h (k + 1) nesting]
    rfl

/-- `cmd_bounded_skip` passes over one context. -/
theorem cmdBoundedSkip_row {a l : List Nat} (h : Row mem msgEnd (a ++ l))
    (derives : Derives (cmdKind mem) .context a) (onward : Onward (cmdKind mem) l) :
    cmdBoundedSkip mem (a ++ l).head? 1 msgEnd = l.head? := by
  rw [← (leaveRow_skipper mem msgEnd).context derives h onward]
  obtain ⟨x, rest, rfl, -⟩ := context_head derives
  have other := h.ne_eom (by simp [onward.nonempty])
  rw [List.cons_append] at h ⊢
  rw [List.head?_cons, cmdBoundedSkip_one (h.inside x (by simp)), if_neg other, leaveRow,
    if_neg (by simp)]
  rfl

end Row

section Layout

variable {mem : Mem} {msgEnd e : Nat}

theorem cmdBoundedSkip_context {a l : List Nat} (h : Layout mem msgEnd e (a ++ l))
    (derives : Derives (cmdKind mem) .context a) (onward : Onward (cmdKind mem) l) :
    cmdBoundedSkip mem (some ((a ++ l).headD e)) 1 msgEnd = some (l.headD e) := by
  have row := row_of_layout h
  rw [List.append_assoc] at row
  have later : Onward (cmdKind mem) (l ++ [e]) := by
    obtain ⟨y, l, rfl⟩ := List.exists_cons_of_ne_nil onward.nonempty
    exact ⟨by simp, fun x hx => onward.fresh x (by simpa using hx)⟩
  have skipped := cmdBoundedSkip_row row derives later
  have first (l : List Nat) : (l ++ [e]).head? = some (l.headD e) := by cases l <;> rfl
  rwa [← List.append_assoc, first, first] at skipped

/-- From the first command of a branch the search finds the REPLY that closes it. -/
theorem seekReply_branch {body rest : List Nat} {r fuel : Nat}
    (inside : Derives (cmdKind mem) .contexts body) (closing : cmdKind mem r = .closes)
    (h : Layout mem msgEnd e (body ++ r :: rest)) (enough : body.length < fuel) :
    seekReply mem msgEnd fuel (some ((body ++ r :: rest).headD e)) = some r := by
  obtain ⟨contexts, rfl, each⟩ := inside.flatten
  induction contexts generalizing fuel with
  | nil =>
    obtain ⟨fuel, rfl⟩ : ∃ n, fuel = n + 1 := ⟨fuel - 1, by omega⟩
    simp [seekReply, cmdKind_closes.mp closing]
  | cons a contexts ih =>
    have first := each a (by simp)
    obtain ⟨x, tail, rfl, head⟩ := context_head first
    rw [List.flatten_cons, List.append_assoc] at h ⊢
    simp only [List.flatten_cons, List.cons_append, List.length_cons, List.length_append] at enough
    obtain ⟨fuel, rfl⟩ : ∃ n, fuel = n + 1 := ⟨fuel - 1, by omega⟩
    have others : Derives (cmdKind mem) .contexts contexts.flatten :=
      .of_flatten fun c hc => each c (by simp [hc])
    have skipped := cmdBoundedSkip_context h first
      (onward_contexts others (onward_close closing rest))
    have notEom : cmdAt mem x ≠ .eom := h.commands x (by simp)
    have notReply : cmdAt mem x ≠ .reply := by
      intro reply
      rw [cmdKind_closes.mpr reply] at head
      simp at head
    rw [List.cons_append, List.headD_cons] at skipped ⊢
    rw [seekReply, if_neg (by simp [notEom, notReply]), skipped]
    exact ih (fun c hc => each c (by simp [hc])) others (Layout.tail (a := x :: tail) h) (by omega)

end Layout

end MessageSkip
