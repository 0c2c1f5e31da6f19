import DistWalk.Message

/-!
# Where the walkers go and what they read

A walker leaves a command forwards and stays inside the message, so it reads
nothing before the command it starts at. Skipping several contexts is skipping
one after the other.
-/

namespace Walkers

open ByteMemory Message

theorem four_le_cmdTypeSize (type : CommandType) : 4 ≤ cmdTypeSize type := by
  cases type <;> simp [cmdTypeSize, commandHeader]

section Progress

variable {mem : Mem} {msgEnd : Nat}

theorem cmdBoundedNext_eq_some {cmd next : Nat} (h : cmdBoundedNext mem cmd msgEnd = some next) :
    next = cmd + cmdTypeSize (cmdAt mem cmd) ∧ cmdInBounds mem next msgEnd = true := by
  simp only [cmdBoundedNext] at h
  split at h
  · rename_i inside
    cases h
    exact ⟨rfl, inside⟩
  · cases h

theorem cmdBoundedNext_lt {cmd next : Nat} (h : cmdBoundedNext mem cmd msgEnd = some next) :
    cmd < next := by
  have advance := four_le_cmdTypeSize (cmdAt mem cmd)
  have place := (cmdBoundedNext_eq_some h).1
  omega

theorem cmdInBounds_iff {cmd : Nat} :
    cmdInBounds mem cmd msgEnd = true ↔ cmd + cmdTypeSize (cmdAt mem cmd) ≤ msgEnd := by
  have size := four_le_cmdTypeSize (cmdAt mem cmd)
  by_cases beyond : cmd + commandHeader > msgEnd
  · rw [cmdInBounds, if_pos beyond]
    simp only [commandHeader] at beyond
    simp only [Bool.false_eq_true, false_iff]
    omega
  · rw [cmdInBounds, if_neg beyond, decide_eq_true_eq]

theorem lt_end_of_inBounds {cmd : Nat} (h : cmdInBounds mem cmd msgEnd = true) : cmd < msgEnd := by
  have size := four_le_cmdTypeSize (cmdAt mem cmd)
  have fits := cmdInBounds_iff.mp h
  omega

/-- Leaving a context goes forwards, to a command inside the message. -/
theorem skipContext_spec {fuel cmd next : Nat} {nested : Int}
    (h : skipContext mem msgEnd fuel cmd nested = some next) :
    cmd < next ∧ cmdInBounds mem next msgEnd = true := by
  induction fuel generalizing cmd nested with
  | zero => cases h
  | succ fuel ih =>
    simp only [skipContext] at h
    split at h
    · cases h
    · rename_i later step
      have forwards := cmdBoundedNext_lt step
      split at h
      · obtain ⟨beyond, inside⟩ := ih h
        exact ⟨by omega, inside⟩
      · cases h
        exact ⟨forwards, (cmdBoundedNext_eq_some step).2⟩

theorem cmdBoundedSkip_one {cmd : Nat} (inside : cmdInBounds mem cmd msgEnd = true) :
    cmdBoundedSkip mem (some cmd) 1 msgEnd =
      if cmdAt mem cmd = .eom then none else skipContext mem msgEnd (msgEnd - cmd) cmd 0 := by
  simp only [cmdBoundedSkip, if_pos inside]
  change skipContexts mem msgEnd 1 cmd = _
  simp only [skipContexts]
  split
  · rfl
  · cases skipContext mem msgEnd (msgEnd - cmd) cmd 0 <;> rfl

theorem cmdBoundedSkip_spec {cmd next : Nat} (h : cmdBoundedSkip mem (some cmd) 1 msgEnd = some next) :
    cmd < next ∧ cmdInBounds mem next msgEnd = true := by
  by_cases inside : cmdInBounds mem cmd msgEnd = true
  · rw [cmdBoundedSkip_one inside] at h
    split at h
    · cases h
    · exact skipContext_spec h
  · simp only [cmdBoundedSkip, if_neg inside] at h
    cases h

theorem skipContexts_le {toSkip cmd next : Nat}
    (h : skipContexts mem msgEnd toSkip cmd = some next) : cmd ≤ next := by
  induction toSkip generalizing cmd with
  | zero =>
    cases h
    exact Nat.le_refl _
  | succ toSkip ih =>
    simp only [skipContexts] at h
    split at h
    · cases h
    · obtain ⟨later, left, beyond⟩ := Option.bind_eq_some_iff.mp h
      exact Nat.le_trans (Nat.le_of_lt (skipContext_spec left).1) (ih beyond)

theorem cmdBoundedSkip_le {cmd next : Nat} {toSkip : Int}
    (h : cmdBoundedSkip mem (some cmd) toSkip msgEnd = some next) : cmd ≤ next := by
  simp only [cmdBoundedSkip] at h
  split at h
  · exact skipContexts_le h
  · cases h

theorem skipContexts_inBounds {toSkip cmd next : Nat} (inside : cmdInBounds mem cmd msgEnd = true)
    (h : skipContexts mem msgEnd toSkip cmd = some next) : cmdInBounds mem next msgEnd = true := by
  induction toSkip generalizing cmd with
  | zero =>
    cases h
    exact inside
  | succ toSkip ih =>
    simp only [skipContexts] at h
    split at h
    · cases h
    · obtain ⟨later, left, beyond⟩ := Option.bind_eq_some_iff.mp h
      exact ih (skipContext_spec left).2 beyond

/-- However many contexts are skipped, the command found lies in the message. -/
theorem cmdBoundedSkip_inBounds {cmd next : Nat} {toSkip : Int}
    (h : cmdBoundedSkip mem (some cmd) toSkip msgEnd = some next) : cmdInBounds mem next msgEnd = true := by
  simp only [cmdBoundedSkip] at h
  split at h
  · rename_i inside
    exact skipContexts_inBounds inside h
  · cases h

/-- Skipping one more context. -/
theorem cmdBoundedSkip_succ {cmd : Nat} (inside : cmdInBounds mem cmd msgEnd = true) (k : Nat) :
    cmdBoundedSkip mem (some cmd) ((k + 1 : Nat) : Int) msgEnd =
      cmdBoundedSkip mem (cmdBoundedSkip mem (some cmd) 1 msgEnd) k msgEnd := by
  rw [cmdBoundedSkip_one inside]
  simp only [cmdBoundedSkip, if_pos inside, Int.toNat_natCast, skipContexts]
  split
  · rfl
  · cases left : skipContext mem msgEnd (msgEnd - cmd) cmd 0 with
    | none => rfl
    | some next => simp only [Option.bind_some, if_pos (skipContext_spec left).2]

theorem inBounds_of_next {cmd next : Nat} (h : cmdBoundedNext mem cmd msgEnd = some next) :
    cmdInBounds mem cmd msgEnd = true := by
  obtain ⟨place, inside⟩ := cmdBoundedNext_eq_some h
  have advance := four_le_cmdTypeSize (cmdAt mem cmd)
  have bound := lt_end_of_inBounds inside
  have here : ¬ cmd + commandHeader > msgEnd := by
    simp only [commandHeader]
    omega
  rw [cmdInBounds, if_neg here]
  exact decide_eq_true (by omega)

/-- A command that opens no scope is a context of its own. -/
theorem cmdBoundedSkip_plain {cmd : Nat} (plain : cmdAt mem cmd = .store ∨ cmdAt mem cmd = .load) :
    cmdBoundedSkip mem (some cmd) 1 msgEnd = cmdBoundedNext mem cmd msgEnd := by
  by_cases inside : cmdInBounds mem cmd msgEnd = true
  · obtain ⟨n, e⟩ : ∃ n, msgEnd - cmd = n + 1 := ⟨msgEnd - cmd - 1, by
      have := lt_end_of_inBounds inside
      omega⟩
    rw [cmdBoundedSkip_one inside, e, skipContext]
    rcases plain with type | type <;> rw [type] <;>
      cases cmdBoundedNext mem cmd msgEnd <;> simp [nestingAfter, type]
  · rw [cmdBoundedSkip, if_neg inside]
    cases step : cmdBoundedNext mem cmd msgEnd with
    | none => rfl
    | some next => exact absurd (inBounds_of_next step) inside

end Progress

/-! ## What is read -/

/-- The two memories hold the same bytes from `lo` on. -/
def Agree (lo : Nat) (mem mem' : Mem) : Prop := ∀ i, lo ≤ i → mem i = mem' i

section Agree

variable {lo : Nat} {mem mem' : Mem} (h : Agree lo mem mem') {msgEnd : Nat}

include h

theorem Agree.u32 {a : Nat} (le : lo ≤ a) : u32 mem a = u32 mem' a :=
  u32_congr fun i _ => h (a + i) (by omega)

theorem Agree.cmdAt {cmd : Nat} (le : lo ≤ cmd) : cmdAt mem cmd = cmdAt mem' cmd :=
  congrArg CommandType.ofCode (h.u32 le)

theorem Agree.fwdOpts {cmd : Nat} (le : lo ≤ cmd) : fwdOpts mem cmd = fwdOpts mem' cmd := by
  have addr : slice mem (cmd + 8) 6 = slice mem' (cmd + 8) 6 :=
    slice_congr fun i _ => h _ (by omega)
  have size := h.u32 (show lo ≤ cmd + 4 by omega)
  have timeout := h.u32 (show lo ≤ cmd + 16 by omega)
  have proto := h.u32 (show lo ≤ cmd + 24 by omega)
  simp only [Message.fwdOpts, addr, size, timeout, proto, h (cmd + 20) (by omega),
    h (cmd + 21) (by omega), h (cmd + 22) (by omega), h (cmd + 23) (by omega)]

theorem Agree.cmdInBounds {cmd : Nat} (le : lo ≤ cmd) :
    cmdInBounds mem cmd msgEnd = cmdInBounds mem' cmd msgEnd := by
  rw [Message.cmdInBounds, h.cmdAt le, Message.cmdInBounds]

theorem Agree.cmdBoundedNext {cmd : Nat} (le : lo ≤ cmd) :
    cmdBoundedNext mem cmd msgEnd = cmdBoundedNext mem' cmd msgEnd := by
  simp only [Message.cmdBoundedNext, h.cmdAt le]
  rw [h.cmdInBounds (by omega)]

theorem Agree.nestingAfter {cmd next : Nat} (le : lo ≤ cmd) (le' : lo ≤ next) (nested : Int) :
    nestingAfter mem cmd next nested = nestingAfter mem' cmd next nested := by
  simp only [Message.nestingAfter, h.cmdAt le, h.cmdAt le']

theorem Agree.skipContext {fuel cmd : Nat} (le : lo ≤ cmd) (nested : Int) :
    skipContext mem msgEnd fuel cmd nested = skipContext mem' msgEnd fuel cmd nested := by
  induction fuel generalizing cmd nested with
  | zero => rfl
  | succ fuel ih =>
    simp only [Message.skipContext, h.cmdBoundedNext le]
    cases step : Message.cmdBoundedNext mem' cmd msgEnd with
    | none => rfl
    | some next =>
      have le' : lo ≤ next := Nat.le_of_lt (Nat.lt_of_le_of_lt le (cmdBoundedNext_lt step))
      simp only [h.nestingAfter le le', h.cmdAt le', ih le']

theorem Agree.skipContexts {toSkip cmd : Nat} (le : lo ≤ cmd) :
    skipContexts mem msgEnd toSkip cmd = skipContexts mem' msgEnd toSkip cmd := by
  induction toSkip generalizing cmd with
  | zero => rfl
  | succ toSkip ih =>
    simp only [Message.skipContexts, h.cmdAt le, h.skipContext le]
    split
    · rfl
    · cases left : Message.skipContext mem' msgEnd (msgEnd - cmd) cmd 0 with
      | none => rfl
      | some next => exact ih (Nat.le_of_lt (Nat.lt_of_le_of_lt le (skipContext_spec left).1))

theorem Agree.cmdBoundedSkip {cmd : Nat} (le : lo ≤ cmd) (toSkip : Int) :
    cmdBoundedSkip mem (some cmd) toSkip msgEnd = cmdBoundedSkip mem' (some cmd) toSkip msgEnd := by
  simp only [Message.cmdBoundedSkip, h.cmdInBounds le, h.skipContexts le]

theorem Agree.seekContinue {branched : Bool} {fuel : Nat} {cmd : Option Nat}
    (le : ∀ c, cmd = some c → lo ≤ c) :
    seekContinue mem msgEnd branched fuel cmd = seekContinue mem' msgEnd branched fuel cmd := by
  induction fuel generalizing cmd with
  | zero => rfl
  | succ fuel ih =>
    cases cmd with
    | none => rfl
    | some cmd =>
      have here := le cmd rfl
      have next : ∀ c, Message.cmdBoundedNext mem' cmd msgEnd = some c → lo ≤ c :=
        fun c e => Nat.le_of_lt (Nat.lt_of_le_of_lt here (cmdBoundedNext_lt e))
      simp only [Message.seekContinue, h.cmdAt here, h.cmdInBounds here, h.cmdBoundedNext here,
        h.cmdBoundedSkip here, ih next,
        ih fun c e => Nat.le_of_lt (Nat.lt_of_le_of_lt here (cmdBoundedSkip_spec e).1)]
      split
      · rfl
      · rfl
      · rfl
      · cases step : Message.cmdBoundedNext mem' cmd msgEnd with
        | none => rfl
        | some c =>
          have le' := next c step
          have later := @ih (some c) fun x e => Option.some.inj e ▸ le'
          simp only [h.cmdAt le', later]
      · rfl

theorem Agree.cmdBoundedNextForward {cmd : Nat} (le : lo ≤ cmd) :
    cmdBoundedNextForward mem (some cmd) msgEnd = cmdBoundedNextForward mem' (some cmd) msgEnd := by
  simp only [Message.cmdBoundedNextForward, h.cmdInBounds le, h.cmdAt le, h.fwdOpts le,
    h.cmdBoundedNext le]
  rw [h.seekContinue fun c e => Nat.le_of_lt (Nat.lt_of_le_of_lt le (cmdBoundedNext_lt e))]

end Agree

theorem seekContinue_le {mem : Mem} {msgEnd : Nat} {branched : Bool} {fuel : Nat} {cmd : Option Nat}
    {lo found : Nat} (le : ∀ c, cmd = some c → lo ≤ c)
    (h : seekContinue mem msgEnd branched fuel cmd = some found) : lo ≤ found := by
  induction fuel generalizing cmd with
  | zero => cases h
  | succ fuel ih =>
    cases cmd with
    | none => cases h
    | some cmd =>
      have here := le cmd rfl
      simp only [seekContinue] at h
      split at h
      · cases h
      · split at h
        · cases h
          exact here
        · cases h
      · exact ih (fun c e => Nat.le_of_lt (Nat.lt_of_le_of_lt here (cmdBoundedSkip_spec e).1)) h
      · split at h
        · cases h
        · rename_i next step
          split at h
          · cases h
          · refine ih (fun c e => ?_) h
            cases e
            exact Nat.le_of_lt (Nat.lt_of_le_of_lt here (cmdBoundedNext_lt step))
      · exact ih (fun c e => Nat.le_of_lt (Nat.lt_of_le_of_lt here (cmdBoundedNext_lt e))) h

/-- The next branch of a context lies behind this one. -/
theorem cmdBoundedNextForward_lt {mem : Mem} {msgEnd cmd next : Nat}
    (h : cmdBoundedNextForward mem (some cmd) msgEnd = .ok (some next)) : cmd < next := by
  simp only [cmdBoundedNextForward] at h
  split at h
  · cases h
  · split at h
    · cases h
    · exact seekContinue_le (fun c e => cmdBoundedNext_lt e) (Except.ok.inj h)

/-- The status of a message lies before its commands. -/
theorem agree_setStatus (mem : Mem) (m status : Nat) :
    Agree (messageFirstCmd m) (setStatus mem m status) mem := by
  intro i le
  refine store_outside mem (m + 8) _ (Or.inr ?_)
  simp only [messageFirstCmd, messageHeader] at le
  simp only [length_u32Bytes]
  omega

theorem messageEnd_setStatus (mem : Mem) (m status : Nat) :
    messageEnd (setStatus mem m status) m = messageEnd mem m := by
  have apart := u32_store_disjoint mem (m + 4) (m + 8) (u32Bytes status) (Or.inl (by omega))
  exact congrArg (m + ·) apart

end Walkers
