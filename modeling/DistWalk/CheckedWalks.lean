import DistWalk.BoundedReads
import DistWalk.MessageSkip
import DistWalk.WhileLoops

/-!
# The walkers with every read checked

The bounded walkers once more, as loops that read through a window: the bytes from
where the walk starts up to the end of the message. A read of any other byte is a
fault, and a loop that does not end is pending for every fuel. Neither happens,
whatever the bytes are, and the walkers return what the ones of `Message` return.
-/

namespace CheckedWalks

open ByteMemory Message Walkers BoundedReads MessageSkip WhileLoops

/-- The bytes of a memory that may be read. -/
structure Window where
  mem : Mem
  lo : Nat
  hi : Nat

inductive Fault
  | outside (addr : Nat)
  | check
  deriving DecidableEq

/-! ## Reads -/

def Window.byte (v : Window) (addr : Nat) : Run Fault UInt8 :=
  if v.lo ≤ addr ∧ addr < v.hi then return v.mem addr else throw (.outside addr)

/-- The four bytes of `cmd->cmd`. -/
def Window.cmdAt (v : Window) (cmd : Nat) : Run Fault CommandType :=
  if v.lo ≤ cmd ∧ cmd + 4 ≤ v.hi then return Message.cmdAt v.mem cmd else throw (.outside cmd)

/-- `branched` among the options of a FORWARD. -/
def Window.branched (v : Window) (cmd : Nat) : Run Fault Bool := do
  return decide ((← v.byte (cmd + 23)).toNat ≠ 0)

/-! ## The walkers -/

def Window.cmdInBounds (v : Window) (cmd msgEnd : Nat) : Run Fault Bool := do
  if cmd + commandHeader > msgEnd then return false
  let type ← v.cmdAt cmd
  return decide (cmd + cmdTypeSize type ≤ msgEnd)

def Window.cmdBoundedNext (v : Window) (cmd msgEnd : Nat) : Run Fault (Option Nat) := do
  let type ← v.cmdAt cmd
  let wouldBeNext := cmd + cmdTypeSize type
  return if ← v.cmdInBounds wouldBeNext msgEnd then some wouldBeNext else none

def Window.nestingAfter (v : Window) (cmd next : Nat) (nestedFwd : Int) : Run Fault Int := do
  match ← v.cmdAt cmd with
  | .forwardBegin => return nestedFwd + 1
  | .reply => return if (← v.cmdAt next) ≠ .forwardContinue then nestedFwd - 1 else nestedFwd
  | _ => return nestedFwd

/-- A round of the inner loop of `cmd_bounded_skip`, which is left with NULL where the
function returns it. -/
def Window.leaveRound (v : Window) (msgEnd : Nat) : Nat × Int → Run Fault ((Nat × Int) ⊕ Option Nat)
  | (cmd, nestedFwd) => do
    match ← v.cmdBoundedNext cmd msgEnd with
    | none => return .inr none
    | some next =>
      let nested ← v.nestingAfter cmd next nestedFwd
      return if (← v.cmdAt next) ≠ .eom ∧ nested > 0 then .inl (next, nested) else .inr (some next)

/-- A round of the outer loop. -/
def Window.skipRound (v : Window) (msgEnd fuel : Nat) : Nat × Int → Run Fault ((Nat × Int) ⊕ Option Nat)
  | (cmd, toSkip) => do
    if (← v.cmdAt cmd) ≠ .eom ∧ toSkip > 0 then
      match ← loop (v.leaveRound msgEnd) fuel (cmd, 0) with
      | none => return .inr none
      | some next => return .inl (next, toSkip - 1)
    else return .inr (if toSkip > 0 then none else some cmd)

def Window.cmdBoundedSkip (v : Window) (fuel : Nat) (cmd : Option Nat) (toSkip : Int) (msgEnd : Nat) :
    Run Fault (Option Nat) := do
  match cmd with
  | none => return none
  | some cmd =>
    if !(← v.cmdInBounds cmd msgEnd) then return none
    loop (v.skipRound msgEnd fuel) fuel (cmd, toSkip)

/-- A round of the loop of `cmd_bounded_next_forward`. -/
def Window.seekRound (v : Window) (msgEnd fuel : Nat) (branched : Bool) :
    Option Nat → Run Fault (Option Nat ⊕ Option Nat)
  | none => return .inr none
  | some cmd => do
    match ← v.cmdAt cmd with
    | .eom => return .inr (some cmd)
    | .forwardContinue => return .inr (some cmd)
    | .forwardBegin => return .inl (← v.cmdBoundedSkip fuel (some cmd) 1 msgEnd)
    | type =>
      match ← v.cmdBoundedNext cmd msgEnd with
      | none => return .inr none
      | some next =>
        if type = .reply then
          if !branched then return .inr none
          else if (← v.cmdAt next) ≠ .forwardContinue then return .inr none
          else return .inl (some next)
        else return .inl (some next)

/-- The test behind the loop. -/
def Window.branchAt (v : Window) (msgEnd : Nat) : Option Nat → Run Fault (Option Nat)
  | none => return none
  | some cmd => do
    if !(← v.cmdInBounds cmd msgEnd) then return none
    return if (← v.cmdAt cmd) = .forwardContinue then some cmd else none

def Window.cmdBoundedNextForward (v : Window) (fuel : Nat) (cmd : Option Nat) (msgEnd : Nat) :
    Run Fault (Option Nat) := do
  match cmd with
  | none => return none
  | some cmd =>
    if !(← v.cmdInBounds cmd msgEnd) then return none
    if !(← v.cmdAt cmd).isForward then throw .check
    let branched ← v.branched cmd
    let start ← v.cmdBoundedNext cmd msgEnd
    v.branchAt msgEnd (← loop (v.seekRound msgEnd fuel branched) fuel start)

/-! ## No fault -/

section Walks

variable {mem : Mem} {lo hi : Nat}

theorem cmdAt_eq {cmd : Nat} (s : Stands lo hi mem cmd) :
    (Window.mk mem lo hi).cmdAt cmd = pure (Message.cmdAt mem cmd) := by
  have size := four_le_cmdTypeSize (Message.cmdAt mem cmd)
  have fits := s.fits
  exact if_pos ⟨s.start, by simp only; omega⟩

theorem cmdInBounds_eq {cmd : Nat} (le : lo ≤ cmd) :
    (Window.mk mem lo hi).cmdInBounds cmd hi = pure (Message.cmdInBounds mem cmd hi) := by
  rw [Window.cmdInBounds, Message.cmdInBounds]
  by_cases beyond : cmd + commandHeader > hi
  · rw [if_pos beyond, if_pos beyond]
  · have read : (Window.mk mem lo hi).cmdAt cmd = pure (Message.cmdAt mem cmd) :=
      if_pos ⟨le, not_lt.mp beyond⟩
    rw [if_neg beyond, if_neg beyond, read, pure_bind]

theorem cmdBoundedNext_eq {cmd : Nat} (s : Stands lo hi mem cmd) :
    (Window.mk mem lo hi).cmdBoundedNext cmd hi = pure (Message.cmdBoundedNext mem cmd hi) := by
  have le : lo ≤ cmd + cmdTypeSize (Message.cmdAt mem cmd) := Nat.le_add_right_of_le s.start
  rw [Window.cmdBoundedNext, cmdAt_eq s, pure_bind]
  simp only [cmdInBounds_eq le, pure_bind, Message.cmdBoundedNext]

theorem nestingAfter_eq {cmd next : Nat} (s : Stands lo hi mem cmd) (later : Stands lo hi mem next) (nested : Int) :
    (Window.mk mem lo hi).nestingAfter cmd next nested = pure (Message.nestingAfter mem cmd next nested) := by
  rw [Window.nestingAfter, cmdAt_eq s, pure_bind, Message.nestingAfter]
  cases Message.cmdAt mem cmd <;> simp only [cmdAt_eq later, pure_bind]

/-- The inner loop leaves the context, in fewer rounds than there are bytes. -/
theorem leave_ends {cmd fuel : Nat} {nested : Int} (s : Stands lo hi mem cmd) (enough : hi - cmd < fuel) :
    loop ((Window.mk mem lo hi).leaveRound hi) fuel (cmd, nested) =
      pure (skipContext mem hi (hi - cmd) cmd nested) := by
  refine loop_computes _ (fun t : Nat × Int => Stands lo hi mem t.1)
    (fun t : Nat × Int => skipContext mem hi (hi - t.1) t.1 t.2) (fun t : Nat × Int => hi - t.1) ?_ s enough
  rintro ⟨x, k⟩ (here : Stands lo hi mem x)
  have bound := lt_end_of_inBounds here.inBounds
  obtain ⟨n, left⟩ : ∃ n, hi - x = n + 1 := ⟨hi - x - 1, by omega⟩
  simp only [Window.leaveRound, cmdBoundedNext_eq here, pure_bind, left, skipContext]
  cases step : Message.cmdBoundedNext mem x hi with
  | none => exact Or.inr rfl
  | some next =>
    have later := here.next step
    have forwards := cmdBoundedNext_lt step
    simp only [nestingAfter_eq here later, cmdAt_eq later, pure_bind]
    split
    · refine Or.inl ⟨_, rfl, later, by omega, ?_⟩
      exact skipContext_enough le_rfl (by omega)
    · exact Or.inr rfl

/-- The outer loop skips context after context. -/
theorem skip_ends {cmd fuel fuel' : Nat} {toSkip : Int} (s : Stands lo hi mem cmd) (enough : hi - cmd < fuel)
    (enough' : hi - cmd < fuel') :
    loop ((Window.mk mem lo hi).skipRound hi fuel) fuel' (cmd, toSkip) =
      pure (skipContexts mem hi toSkip.toNat cmd) := by
  refine loop_computes _ (fun t : Nat × Int => Stands lo hi mem t.1 ∧ cmd ≤ t.1)
    (fun t : Nat × Int => skipContexts mem hi t.2.toNat t.1) (fun t : Nat × Int => hi - t.1) ?_ ⟨s, le_rfl⟩ enough'
  rintro ⟨x, k⟩ ⟨(here : Stands lo hi mem x), (behind : cmd ≤ x)⟩
  simp only [Window.skipRound, cmdAt_eq here, pure_bind]
  by_cases more : k > 0
  · obtain ⟨n, count⟩ : ∃ n, k.toNat = n + 1 := ⟨k.toNat - 1, by omega⟩
    rw [count, skipContexts]
    by_cases eom : Message.cmdAt mem x = .eom
    · rw [if_neg (by simp [eom]), if_pos more, if_pos eom]
      exact Or.inr rfl
    · rw [if_pos ⟨eom, more⟩, if_neg eom, leave_ends here (by omega), pure_bind]
      cases left : skipContext mem hi (hi - x) x 0 with
      | none => exact Or.inr rfl
      | some next =>
        obtain ⟨forwards, inside⟩ := skipContext_spec left
        have start := here.start
        have bound := lt_end_of_inBounds inside
        have rest : (k - 1).toNat = n := by omega
        refine Or.inl ⟨_, rfl, ⟨stands_of_inBounds (by omega) inside, by simp only; omega⟩, by omega, ?_⟩
        rw [rest, Option.bind_some]
  · have skipped : k.toNat = 0 := by omega
    rw [if_neg (by simp [more]), if_neg more, skipped]
    exact Or.inr rfl

theorem cmdBoundedSkip_eq {cmd fuel : Nat} (le : lo ≤ cmd) (enough : hi - cmd < fuel) (toSkip : Int) :
    (Window.mk mem lo hi).cmdBoundedSkip fuel (some cmd) toSkip hi =
      pure (Message.cmdBoundedSkip mem (some cmd) toSkip hi) := by
  simp only [Window.cmdBoundedSkip, cmdInBounds_eq le, pure_bind, Message.cmdBoundedSkip]
  cases inside : Message.cmdInBounds mem cmd hi with
  | false => rfl
  | true => exact skip_ends (stands_of_inBounds le inside) enough enough

theorem seekContinue_none (branched : Bool) (fuel : Nat) : seekContinue mem hi branched fuel none = none := by
  cases fuel <;> rfl

/-- The distance to the end of the message is enough to find the next branch. -/
theorem seekContinue_enough {branched : Bool} {fuel fuel' : Nat} {cmd : Option Nat}
    (s : ∀ c, cmd = some c → Stands lo hi mem c) (enough : ∀ c, cmd = some c → hi - c ≤ fuel)
    (enough' : ∀ c, cmd = some c → hi - c ≤ fuel') :
    seekContinue mem hi branched fuel cmd = seekContinue mem hi branched fuel' cmd := by
  induction fuel generalizing fuel' cmd with
  | zero =>
    cases cmd with
    | none => rw [seekContinue_none, seekContinue_none]
    | some c =>
      have inside := lt_end_of_inBounds (s c rfl).inBounds
      have short := enough c rfl
      omega
  | succ fuel ih =>
    cases cmd with
    | none => rw [seekContinue_none, seekContinue_none]
    | some c =>
      have here := s c rfl
      have inside := lt_end_of_inBounds here.inBounds
      have short := enough c rfl
      have short' := enough' c rfl
      obtain ⟨more, rfl⟩ : ∃ more, fuel' = more + 1 := ⟨fuel' - 1, by omega⟩
      have onward {next : Option Nat} (step : ∀ x, next = some x → c < x ∧ Stands lo hi mem x) :
          seekContinue mem hi branched fuel next = seekContinue mem hi branched more next := by
        refine ih (fun x e => (step x e).2) (fun x e => ?_) (fun x e => ?_)
        · have := (step x e).1
          omega
        · have := (step x e).1
          omega
      have skipped := onward fun x e => ⟨(cmdBoundedSkip_spec e).1, here.skip e⟩
      have moved := onward fun x e => ⟨cmdBoundedNext_lt e, here.next e⟩
      simp only [seekContinue, skipped, moved]
      split
      · rfl
      · rfl
      · rfl
      · cases step : Message.cmdBoundedNext mem c hi with
        | none => rfl
        | some next => rw [step] at moved; simp only [moved]
      · rfl

/-- Where the loop stops, the test behind it finds the next branch or none. -/
theorem seek_ends {fuel fuel' : Nat} {branched : Bool} {start : Option Nat} (reach : Nat)
    (s : ∀ c, start = some c → Stands lo hi mem c ∧ reach ≤ c) (enough : hi - reach < fuel)
    (enough' : hi - reach < fuel') :
    (loop ((Window.mk mem lo hi).seekRound hi fuel branched) fuel' start >>= (Window.mk mem lo hi).branchAt hi) =
      pure (seekContinue mem hi branched (hi - reach) start) := by
  refine loop_computes_then _ _ (fun t : Option Nat => ∀ c, t = some c → Stands lo hi mem c ∧ reach ≤ c)
    (fun t => seekContinue mem hi branched (hi - reach) t)
    (fun t : Option Nat => t.elim 0 fun c => hi - c) ?_ s ?_
  · rintro (_ | x) inv
    · refine Or.inr ⟨none, rfl, ?_⟩
      rw [seekContinue_none]
      rfl
    obtain ⟨here, behind⟩ := inv x rfl
    have bound := lt_end_of_inBounds here.inBounds
    obtain ⟨n, left⟩ : ∃ n, hi - reach = n + 1 := ⟨hi - reach - 1, by omega⟩
    -- every way to go on leads to a later command, or to none
    have goes {next : Option Nat} (later : ∀ c, next = some c → Stands lo hi mem c ∧ x < c) :
        (∀ c, next = some c → Stands lo hi mem c ∧ reach ≤ c) ∧
          (next.elim 0 fun c => hi - c) < hi - x ∧
          seekContinue mem hi branched (n + 1) next = seekContinue mem hi branched n next := by
      refine ⟨fun c e => ⟨(later c e).1, by have := (later c e).2; omega⟩, ?_, ?_⟩
      · cases next with
        | none => exact Nat.sub_pos_of_lt bound
        | some c =>
          have := (later c rfl).2
          simp only [Option.elim_some]
          omega
      · refine seekContinue_enough (fun c e => (later c e).1) (fun c e => ?_) (fun c e => ?_)
        · have := (later c e).2
          omega
        · have := (later c e).2
          omega
    have atBranch : (Window.mk mem lo hi).branchAt hi (some x) =
        pure (if Message.cmdAt mem x = .forwardContinue then some x else none) := by
      simp only [Window.branchAt, cmdInBounds_eq here.start, here.inBounds, cmdAt_eq here, pure_bind]
      rfl
    simp only [Window.seekRound, cmdAt_eq here, pure_bind, left, seekContinue]
    cases type : Message.cmdAt mem x with
    | eom =>
      refine Or.inr ⟨some x, rfl, ?_⟩
      rw [atBranch, type]
      rfl
    | forwardContinue =>
      refine Or.inr ⟨some x, rfl, ?_⟩
      rw [atBranch, type, if_pos rfl, if_pos here.inBounds]
    | forwardBegin =>
      obtain ⟨inv', smaller, same⟩ := goes fun c e => ⟨here.skip e, (cmdBoundedSkip_spec e).1⟩
      refine Or.inl ⟨Message.cmdBoundedSkip mem (some x) 1 hi, ?_, inv', smaller, same⟩
      simp only [cmdBoundedSkip_eq here.start (show hi - x < fuel by omega), pure_bind]
    | reply =>
      simp only [cmdBoundedNext_eq here, pure_bind, if_true]
      cases step : Message.cmdBoundedNext mem x hi with
      | none => exact Or.inr ⟨none, rfl, rfl⟩
      | some next =>
        obtain ⟨inv', smaller, same⟩ := goes fun c (e : some next = some c) =>
          Option.some.inj e ▸ ⟨here.next step, cmdBoundedNext_lt step⟩
        cases branched with
        | false => exact Or.inr ⟨none, rfl, rfl⟩
        | true =>
          simp only [cmdAt_eq (here.next step), pure_bind, Bool.not_true, Bool.false_or, Bool.false_eq_true, if_false,
            decide_eq_true_eq]
          split
          · exact Or.inr ⟨none, rfl, rfl⟩
          · exact Or.inl ⟨some next, rfl, inv', smaller, same⟩
    | _ =>
      obtain ⟨inv', smaller, same⟩ := goes fun c e => ⟨here.next e, cmdBoundedNext_lt e⟩
      simp only [cmdBoundedNext_eq here, pure_bind, reduceCtorEq, if_false]
      cases step : Message.cmdBoundedNext mem x hi with
      | none =>
        refine Or.inr ⟨none, rfl, ?_⟩
        rw [seekContinue_none]
        rfl
      | some next =>
        rw [step] at inv' smaller same
        exact Or.inl ⟨some next, rfl, inv', smaller, same⟩
  · cases start with
    | none => exact Nat.zero_lt_of_lt enough'
    | some c =>
      have := (s c rfl).2
      simp only [Option.elim_some]
      omega

theorem branched_eq {cmd : Nat} (le : lo ≤ cmd) (room : cmd + 28 ≤ hi) :
    (Window.mk mem lo hi).branched cmd = pure (decide ((fwdOpts mem cmd).branched ≠ 0)) := by
  have read : (Window.mk mem lo hi).byte (cmd + 23) = pure (mem (cmd + 23)) :=
    if_pos ⟨by simp only; omega, by simp only; omega⟩
  rw [Window.branched, read, pure_bind]
  rfl

/-- The search for the next branch of a FORWARD is the one of `Message`. -/
theorem cmdBoundedNextForward_eq {cmd fuel : Nat} (s : Stands lo hi mem cmd) (enough : hi - cmd < fuel)
    (forward : (Message.cmdAt mem cmd).isForward = true) :
    ∃ found, Message.cmdBoundedNextForward mem (some cmd) hi = .ok found ∧
      (Window.mk mem lo hi).cmdBoundedNextForward fuel (some cmd) hi = pure found := by
  have room := room_of_forward s forward
  have start : ∀ c, Message.cmdBoundedNext mem cmd hi = some c → Stands lo hi mem c ∧ cmd ≤ c :=
    fun c e => ⟨s.next e, (cmdBoundedNext_lt e).le⟩
  refine ⟨_, by simp only [Message.cmdBoundedNextForward, s.inBounds, forward]; rfl, ?_⟩
  simp only [Window.cmdBoundedNextForward, cmdInBounds_eq s.start, s.inBounds, cmdAt_eq s, forward,
    branched_eq s.start room, cmdBoundedNext_eq s, pure_bind]
  exact seek_ends cmd start enough enough

end Walks

/-! ## Safety -/

/-- NULL, or a command in bounds that is not before the start, and behind it where `behind`. -/
structure Lands (mem : Mem) (msgEnd cmd : Nat) (behind : Prop) (r : Option Nat) : Prop where
  inBounds : ∀ next, r = some next → Message.cmdInBounds mem next msgEnd = true
  notBefore : ∀ next, r = some next → cmd ≤ next
  after : behind → ∀ next, r = some next → cmd < next

theorem lands_after {mem : Mem} {msgEnd cmd : Nat} {behind : Prop} {r : Option Nat}
    (inside : ∀ next, r = some next → Message.cmdInBounds mem next msgEnd = true)
    (later : ∀ next, r = some next → cmd < next) : Lands mem msgEnd cmd behind r :=
  ⟨inside, fun next e => (later next e).le, fun _ => later⟩

/-- Skipping a context or more leads behind the start. -/
theorem cmdBoundedSkip_lt {mem : Mem} {msgEnd cmd next : Nat} {toSkip : Int} (positive : 0 < toSkip)
    (h : Message.cmdBoundedSkip mem (some cmd) toSkip msgEnd = some next) : cmd < next := by
  have inside : Message.cmdInBounds mem cmd msgEnd = true := by
    by_contra outside
    rw [Message.cmdBoundedSkip, if_neg outside] at h
    cases h
  obtain ⟨k, rfl⟩ : ∃ k : Nat, toSkip = ((k + 1 : Nat) : Int) := ⟨toSkip.toNat - 1, by omega⟩
  rw [cmdBoundedSkip_succ inside] at h
  cases first : Message.cmdBoundedSkip mem (some cmd) 1 msgEnd with
  | none =>
    rw [first] at h
    cases h
  | some c =>
    rw [first] at h
    exact (cmdBoundedSkip_spec first).1.trans_le (cmdBoundedSkip_le h)

/-- From a command in bounds the three walkers read nothing before it and nothing beyond
the end of the message, end, and return NULL or a command in bounds where it should be. -/
theorem walkers_safe (mem : Mem) (msgEnd cmd : Nat) (inside : Message.cmdInBounds mem cmd msgEnd = true) (toSkip : Int)
    (fuel : Nat) (enough : msgEnd - cmd < fuel) :
    (∃ r, (Window.mk mem cmd msgEnd).cmdBoundedNext cmd msgEnd = pure r ∧ Lands mem msgEnd cmd True r) ∧
    (∃ r, (Window.mk mem cmd msgEnd).cmdBoundedSkip fuel (some cmd) toSkip msgEnd = pure r ∧
      Lands mem msgEnd cmd (0 < toSkip ∧ Message.cmdAt mem cmd ≠ .eom) r) ∧
    ((Message.cmdAt mem cmd).isForward = true →
      ∃ r, (Window.mk mem cmd msgEnd).cmdBoundedNextForward fuel (some cmd) msgEnd = pure r ∧
        Lands mem msgEnd cmd True r) := by
  have here : Stands cmd msgEnd mem cmd := stands_of_inBounds le_rfl inside
  refine ⟨⟨_, cmdBoundedNext_eq here, ?_⟩, ⟨_, cmdBoundedSkip_eq le_rfl enough toSkip, ?_⟩, fun forward => ?_⟩
  · exact lands_after (fun next e => (cmdBoundedNext_eq_some e).2) fun next e => cmdBoundedNext_lt e
  · exact ⟨fun next e => cmdBoundedSkip_inBounds e, fun next e => cmdBoundedSkip_le e,
      fun more next e => cmdBoundedSkip_lt more.1 e⟩
  · obtain ⟨found, model, ended⟩ := cmdBoundedNextForward_eq here enough forward
    refine ⟨found, ended, lands_after (fun next e => ?_) fun next e => ?_⟩
    · exact (nextForward_stands le_rfl (model.trans (congrArg _ e))).1.inBounds
    · exact cmdBoundedNextForward_lt (model.trans (congrArg _ e))

/-- Every word is a FORWARD_BEGIN, and no scope is ever closed. -/
def unclosed : Mem := fun i => if i % 4 = 0 then 4 else 0

theorem walkers_safe_unclosed :
    (∃ r, (Window.mk unclosed 0 60).cmdBoundedNext 0 60 = pure r ∧ Lands unclosed 60 0 True r) ∧
    (∃ r, (Window.mk unclosed 0 60).cmdBoundedSkip 61 (some 0) 1 60 = pure r ∧
      Lands unclosed 60 0 (0 < (1 : Int) ∧ Message.cmdAt unclosed 0 ≠ .eom) r) ∧
    ∃ r, (Window.mk unclosed 0 60).cmdBoundedNextForward 61 (some 0) 60 = pure r ∧ Lands unclosed 60 0 True r := by
  obtain ⟨next, skip, branch⟩ := walkers_safe unclosed 60 0 (by decide) 1 61 (by decide)
  exact ⟨next, skip, branch (by decide)⟩

end CheckedWalks
