import DistWalk.OwnBytes
import DistWalk.Programs

/-!
# The program in a message

What a message asks of the worker that gets it, context after context, is a program. It
is read from the bytes of the message alone, so it is the same wherever the message lies.
-/

namespace Relocation

open ByteMemory Message Walkers Node BoundedReads OwnBytes Programs

/-- What a request asks for besides forwarding: a computation, or a job of a storage worker. -/
inductive Task
  | compute (us : Nat)
  | storage (device : Nat)
  deriving DecidableEq, Repr

/-- A command as the worker takes it where it comes to it. -/
def instrAt (mem : Mem) (devices cmd : Nat) : Instr Task :=
  match cmdAt mem cmd with
  | .compute => .task (.compute (compTimeUs mem cmd)) false
  | .store =>
    if storageDevice mem cmd < devices then .task (.storage (storageDevice mem cmd)) (storeWaitSync mem cmd ≠ 0)
    else .stray
  | .load =>
    if storageDevice mem cmd < devices then .task (.storage (storageDevice mem cmd)) true else .stray
  | .forwardBegin => .forward
  | .reply => .reply
  | .eom => .finish
  | _ => .stray

/-- The commands from `cmd` on, context after context. -/
def commandsFrom (mem : Mem) (msgEnd : Nat) : Nat → Option Nat → List Nat
  | 0, _ => []
  | _ + 1, none => []
  | fuel + 1, some cmd =>
    if cmdInBounds mem cmd msgEnd then
      cmd :: commandsFrom mem msgEnd fuel (cmdBoundedSkip mem (some cmd) 1 msgEnd)
    else []

def commands (mem : Mem) (msgEnd : Nat) (cmd : Option Nat) : List Nat := commandsFrom mem msgEnd (msgEnd + 1) cmd

/-- What `read` says of each of these commands. -/
def readings {α : Type} (read : Mem → Nat → Nat → α) (mem : Mem) (msgEnd : Nat) (cmd : Option Nat) : List α :=
  (commands mem msgEnd cmd).map (read mem msgEnd)

/-- What lies ahead from `cmd` on in a message. -/
def program (mem : Mem) (devices msgEnd : Nat) (cmd : Option Nat) : List (Instr Task) :=
  readings (fun mem _ cmd => instrAt mem devices cmd) mem msgEnd cmd

section Commands

variable {mem : Mem} {msgEnd : Nat}

theorem commandsFrom_fuel {fuel fuel' : Nat} {cmd : Option Nat} (enough : ∀ c, cmd = some c → msgEnd - c < fuel)
    (enough' : ∀ c, cmd = some c → msgEnd - c < fuel') :
    commandsFrom mem msgEnd fuel cmd = commandsFrom mem msgEnd fuel' cmd := by
  induction fuel generalizing fuel' cmd with
  | zero =>
    cases cmd with
    | none => cases fuel' <;> rfl
    | some c => exact absurd (enough c rfl) (Nat.not_lt_zero _)
  | succ fuel ih =>
    cases cmd with
    | none => cases fuel' <;> rfl
    | some c =>
      cases fuel' with
      | zero => exact absurd (enough' c rfl) (Nat.not_lt_zero _)
      | succ fuel' =>
        have bound := enough c rfl
        have bound' := enough' c rfl
        have later : ∀ d, cmdBoundedSkip mem (some c) 1 msgEnd = some d → msgEnd - d < fuel ∧ msgEnd - d < fuel' := by
          intro d step
          obtain ⟨further, inside⟩ := cmdBoundedSkip_spec step
          have := lt_end_of_inBounds inside
          omega
        rw [commandsFrom, commandsFrom, ih (fun d e => (later d e).1) fun d e => (later d e).2]

@[simp] theorem commands_none : commands mem msgEnd none = [] := rfl

theorem commands_outside {cmd : Nat} (outside : cmdInBounds mem cmd msgEnd = false) :
    commands mem msgEnd (some cmd) = [] := by
  simp [commands, commandsFrom, outside]

theorem commands_cons {cmd : Nat} (inside : cmdInBounds mem cmd msgEnd = true) :
    commands mem msgEnd (some cmd) = cmd :: commands mem msgEnd (cmdBoundedSkip mem (some cmd) 1 msgEnd) := by
  rw [commands, commandsFrom, if_pos inside]
  congr 1
  refine commandsFrom_fuel (fun next e => ?_) (fun next e => by omega)
  obtain ⟨further, there⟩ := cmdBoundedSkip_spec e
  have := lt_end_of_inBounds there
  omega

/-- Skipping contexts drops their commands. -/
theorem commands_skip {cmd : Nat} (inside : cmdInBounds mem cmd msgEnd = true) (k : Nat) :
    commands mem msgEnd (cmdBoundedSkip mem (some cmd) k msgEnd) = (commands mem msgEnd (some cmd)).drop k := by
  induction k generalizing cmd with
  | zero =>
    rw [cmdBoundedSkip, if_pos inside]
    rfl
  | succ k ih =>
    rw [cmdBoundedSkip_succ inside, commands_cons inside, List.drop_succ_cons]
    cases step : cmdBoundedSkip mem (some cmd) 1 msgEnd with
    | none =>
      rw [commands_none, List.drop_nil]
      rfl
    | some next => exact ih (cmdBoundedSkip_spec step).2

end Commands

section Readings

variable {α : Type} {read : Mem → Nat → Nat → α} {mem : Mem} {msgEnd : Nat}

@[simp] theorem readings_none : readings read mem msgEnd none = [] := rfl

theorem readings_cons {cmd : Nat} (inside : cmdInBounds mem cmd msgEnd = true) :
    readings read mem msgEnd (some cmd) =
      read mem msgEnd cmd :: readings read mem msgEnd (cmdBoundedSkip mem (some cmd) 1 msgEnd) := by
  rw [readings, commands_cons inside, List.map_cons, readings]

theorem readings_skip {cmd : Nat} (inside : cmdInBounds mem cmd msgEnd = true) (k : Nat) :
    readings read mem msgEnd (cmdBoundedSkip mem (some cmd) k msgEnd) =
      (readings read mem msgEnd (some cmd)).drop k := by
  rw [readings, commands_skip inside, List.map_drop, readings]

end Readings

section Program

variable {mem : Mem} {devices msgEnd : Nat}

@[simp] theorem program_none : program mem devices msgEnd none = [] := rfl

theorem program_outside {cmd : Nat} (outside : cmdInBounds mem cmd msgEnd = false) :
    program mem devices msgEnd (some cmd) = [] := by
  rw [program, readings, commands_outside outside, List.map_nil]

theorem program_cons {cmd : Nat} (inside : cmdInBounds mem cmd msgEnd = true) :
    program mem devices msgEnd (some cmd) =
      instrAt mem devices cmd :: program mem devices msgEnd (cmdBoundedSkip mem (some cmd) 1 msgEnd) :=
  readings_cons inside

/-- Skipping contexts drops them from the program. -/
theorem program_skip {cmd : Nat} (inside : cmdInBounds mem cmd msgEnd = true) (k : Nat) :
    program mem devices msgEnd (cmdBoundedSkip mem (some cmd) k msgEnd) =
      (program mem devices msgEnd (some cmd)).drop k :=
  readings_skip inside k

end Program

/-! ## Bytes elsewhere -/

section Within

variable {lo hi devices : Nat} {mem mem' : Mem} (h : Within lo hi mem mem')

include h

theorem Within.instrAt {cmd : Nat} (s : Stands lo hi mem cmd) : instrAt mem devices cmd = instrAt mem' devices cmd := by
  have type := h.type s
  cases kind : cmdAt mem cmd with
  | compute =>
    have fits := s.fits
    simp only [kind, cmdTypeSize, commandHeader] at fits
    have us : compTimeUs mem cmd = compTimeUs mem' cmd :=
      h.u32 (Nat.le_add_right_of_le s.start) (by omega)
    simp only [Relocation.instrAt, ← type, kind, us]
  | store =>
    obtain ⟨device, wait⟩ := storage_within h s (Or.inl kind)
    simp only [Relocation.instrAt, ← type, kind, device, wait]
  | load =>
    obtain ⟨device, -⟩ := storage_within h s (Or.inr kind)
    simp only [Relocation.instrAt, ← type, kind, device]
  | forwardBegin | forwardContinue | reply | eom | pskip | unknown code =>
    simp only [Relocation.instrAt, ← type, kind]

theorem Within.commands {cmd : Option Nat} (le : ∀ c, cmd = some c → lo ≤ c) :
    commands mem hi cmd = commands mem' hi cmd ∧ ∀ c ∈ commands mem hi cmd, Stands lo hi mem c := by
  unfold Relocation.commands
  generalize hi + 1 = fuel
  induction fuel generalizing cmd with
  | zero => exact ⟨rfl, fun c member => (List.not_mem_nil member).elim⟩
  | succ fuel ih =>
    cases cmd with
    | none => exact ⟨rfl, fun c member => (List.not_mem_nil member).elim⟩
    | some cmd =>
      have start := le cmd rfl
      simp only [Relocation.commandsFrom, ← h.cmdInBounds start]
      split
      · rename_i inside
        obtain ⟨same, stand⟩ := @ih (cmdBoundedSkip mem (some cmd) 1 hi) fun c e =>
          start.trans (cmdBoundedSkip_spec e).1.le
        rw [← h.cmdBoundedSkip start]
        refine ⟨congrArg _ same, fun c member => ?_⟩
        rcases List.mem_cons.mp member with rfl | later
        · exact stands_of_inBounds start inside
        · exact stand c later
      · exact ⟨rfl, fun c member => (List.not_mem_nil member).elim⟩

end Within

/-- The memory as it is seen from `k` further on. -/
def seenFrom (k : Nat) (mem : Mem) : Mem := fun i => mem (i + k)

section Seen

variable {k devices msgEnd : Nat} {mem : Mem}

theorem seen_u32 (a : Nat) : u32 (seenFrom k mem) a = u32 mem (a + k) :=
  u32_congr fun i _ => by rw [seenFrom, Nat.add_right_comm]

theorem seen_cmdAt (cmd : Nat) : cmdAt (seenFrom k mem) cmd = cmdAt mem (cmd + k) :=
  congrArg CommandType.ofCode (seen_u32 cmd)

theorem seen_cmdInBounds (cmd : Nat) :
    cmdInBounds (seenFrom k mem) cmd msgEnd = cmdInBounds mem (cmd + k) (msgEnd + k) := by
  rw [Bool.eq_iff_iff, cmdInBounds_iff, cmdInBounds_iff, seen_cmdAt]
  omega

theorem seen_cmdBoundedNext (cmd : Nat) : cmdBoundedNext mem (cmd + k) (msgEnd + k) =
    (cmdBoundedNext (seenFrom k mem) cmd msgEnd).map (· + k) := by
  simp only [cmdBoundedNext, seen_cmdInBounds, seen_cmdAt, Nat.add_right_comm cmd k]
  split <;> rfl

theorem seen_skipContext (fuel : Nat) {cmd : Nat} {nested : Int} :
    skipContext mem (msgEnd + k) fuel (cmd + k) nested =
      (skipContext (seenFrom k mem) msgEnd fuel cmd nested).map (· + k) := by
  induction fuel generalizing cmd nested with
  | zero => rfl
  | succ fuel ih =>
    simp only [skipContext, seen_cmdBoundedNext]
    cases cmdBoundedNext (seenFrom k mem) cmd msgEnd with
    | none => rfl
    | some next =>
      have depth : nestingAfter mem (cmd + k) (next + k) nested = nestingAfter (seenFrom k mem) cmd next nested := by
        simp only [nestingAfter, seen_cmdAt]
      simp only [Option.map_some, depth, ← seen_cmdAt, ih]
      split <;> rfl

theorem seen_cmdBoundedSkip (cmd : Nat) : cmdBoundedSkip mem (some (cmd + k)) 1 (msgEnd + k) =
    (cmdBoundedSkip (seenFrom k mem) (some cmd) 1 msgEnd).map (· + k) := by
  by_cases inside : cmdInBounds mem (cmd + k) (msgEnd + k) = true
  · rw [cmdBoundedSkip_one inside, cmdBoundedSkip_one ((seen_cmdInBounds cmd).trans inside), seen_cmdAt,
      Nat.add_sub_add_right, seen_skipContext]
    split <;> rfl
  · have outside : ¬ cmdInBounds (seenFrom k mem) cmd msgEnd = true := by rwa [seen_cmdInBounds]
    rw [cmdBoundedSkip, cmdBoundedSkip, if_neg inside, if_neg outside]
    rfl

theorem seen_instrAt (cmd : Nat) : instrAt (seenFrom k mem) devices cmd = instrAt mem devices (cmd + k) := by
  have us : compTimeUs (seenFrom k mem) cmd = compTimeUs mem (cmd + k) := by
    rw [compTimeUs, seen_u32, compTimeUs, Nat.add_right_comm]
  have wait : storeWaitSync (seenFrom k mem) cmd = storeWaitSync mem (cmd + k) := by
    rw [storeWaitSync, seenFrom, storeWaitSync, Nat.add_right_comm]
  have device : storageDevice (seenFrom k mem) cmd = storageDevice mem (cmd + k) := by
    simp only [storageDevice, storeDevId, loadDevId, seen_cmdAt, seenFrom, Nat.add_right_comm cmd]
  simp only [instrAt, seen_cmdAt, us, wait, device]

theorem seen_fwdOpts (cmd : Nat) : fwdOpts (seenFrom k mem) cmd = fwdOpts mem (cmd + k) := by
  have addr : slice (seenFrom k mem) (cmd + 8) 6 = slice mem (cmd + 8 + k) 6 :=
    slice_congr fun i _ => by rw [seenFrom, Nat.add_right_comm]
  simp only [fwdOpts, seen_u32, addr, seenFrom, Nat.add_right_comm cmd]

theorem seen_seekContinue (branched : Bool) (fuel : Nat) (cmd : Option Nat) :
    seekContinue mem (msgEnd + k) branched fuel (cmd.map (· + k)) =
      (seekContinue (seenFrom k mem) msgEnd branched fuel cmd).map (· + k) := by
  induction fuel generalizing cmd with
  | zero => rfl
  | succ fuel ih =>
    cases cmd with
    | none => rfl
    | some cmd =>
      simp only [seekContinue, Option.map_some, ← seen_cmdAt, ← seen_cmdInBounds, seen_cmdBoundedNext,
        seen_cmdBoundedSkip]
      cases cmdAt (seenFrom k mem) cmd with
      | eom => rfl
      | forwardContinue =>
        simp only
        split <;> rfl
      | reply =>
        simp only
        cases cmdBoundedNext (seenFrom k mem) cmd msgEnd with
        | none => rfl
        | some next =>
          simp only [Option.map_some, ← seen_cmdAt]
          split
          · rfl
          · exact ih (some next)
      | forwardBegin | compute | store | load | pskip | unknown code => exact ih _

theorem seen_cmdBoundedNextForward (cmd : Nat) : cmdBoundedNextForward mem (some (cmd + k)) (msgEnd + k) =
    (cmdBoundedNextForward (seenFrom k mem) (some cmd) msgEnd).map (Option.map (· + k)) := by
  simp only [cmdBoundedNextForward, ← seen_cmdInBounds, ← seen_cmdAt, ← seen_fwdOpts, seen_cmdBoundedNext,
    Nat.add_sub_add_right, seen_seekContinue]
  split
  · rfl
  · split <;> rfl

theorem seen_commands (cmd : Option Nat) :
    commands mem (msgEnd + k) (cmd.map (· + k)) = (commands (seenFrom k mem) msgEnd cmd).map (· + k) := by
  have walked : ∀ fuel, commandsFrom mem (msgEnd + k) fuel (cmd.map (· + k)) =
      (commandsFrom (seenFrom k mem) msgEnd fuel cmd).map (· + k) := by
    intro fuel
    induction fuel generalizing cmd with
    | zero => rfl
    | succ fuel ih =>
      cases cmd with
      | none => rfl
      | some cmd =>
        simp only [commandsFrom, Option.map_some, ← seen_cmdInBounds, seen_cmdBoundedSkip, ih]
        split <;> rfl
  rw [commands, walked, commands]
  congr 1
  exact commandsFrom_fuel (fun c e => by omega) fun c e => by omega

end Seen

/-- What is read of a command rests on the bytes of the message alone, wherever it lies. -/
structure Portable {α : Type} (read : Mem → Nat → Nat → α) : Prop where
  within : ∀ {lo hi : Nat} {mem mem' : Mem} {cmd : Nat}, Within lo hi mem mem' → Stands lo hi mem cmd →
    read mem hi cmd = read mem' hi cmd
  seen : ∀ {k msgEnd cmd : Nat} {mem : Mem}, Stands 0 msgEnd (seenFrom k mem) cmd →
    read (seenFrom k mem) msgEnd cmd = read mem (msgEnd + k) (cmd + k)

section Portable

variable {α : Type} {read : Mem → Nat → Nat → α} (portable : Portable read)

include portable

theorem Portable.same {lo hi : Nat} {mem mem' : Mem} (within : Within lo hi mem mem') {cmd : Option Nat}
    (le : ∀ c, cmd = some c → lo ≤ c) : readings read mem hi cmd = readings read mem' hi cmd := by
  obtain ⟨same, stand⟩ := Within.commands within le
  rw [readings, readings, ← same]
  exact List.map_congr_left fun c member => portable.within within (stand c member)

/-- A message whose bytes lie `k` further on elsewhere. -/
theorem Portable.lower {lo hi k : Nat} {mem mem' : Mem} (bytes : ∀ i, lo ≤ i → i < hi → mem' i = mem (i + k))
    {cmd : Option Nat} (le : ∀ c, cmd = some c → lo ≤ c) :
    readings read mem' hi cmd = readings read mem (hi + k) (cmd.map (· + k)) := by
  have within : Within lo hi mem' (seenFrom k mem) := bytes
  rw [portable.same within le, readings, readings, seen_commands, List.map_map]
  obtain ⟨-, stand⟩ := @Within.commands 0 hi _ _ (fun i _ _ => rfl : Within 0 hi (seenFrom k mem) (seenFrom k mem)) cmd
    fun c _ => Nat.zero_le c
  exact List.map_congr_left fun c member => portable.seen (stand c member)

/-- What is read of a message of `n` bytes goes where the message goes. -/
theorem Portable.moved {mem mem' : Mem} {m m' n : Nat} (bytes : ∀ k, k < n → mem' (m' + k) = mem (m + k))
    {cmd : Option Nat} (behind : ∀ c, cmd = some c → m ≤ c) :
    readings read mem' (m' + n) (cmd.map fun c => m' + (c - m)) = readings read mem (m + n) cmd := by
  rcases Nat.le_total m' m with down | up
  · obtain ⟨k, rfl⟩ := Nat.exists_eq_add_of_le down
    rw [@Portable.lower α read portable m' (m' + n) k mem mem' (fun i low high => ?_) _ fun c e => ?_]
    · rw [Option.map_map, Nat.add_right_comm]
      cases cmd with
      | none => rfl
      | some c =>
        have := behind c rfl
        simp only [Option.map_some, Function.comp_apply]
        congr 2
        omega
    · have same := bytes (i - m') (by omega)
      rw [show m' + (i - m') = i by omega] at same
      rw [same]
      congr 1
      omega
    · obtain ⟨d, -, rfl⟩ := Option.map_eq_some_iff.mp e
      exact Nat.le_add_right _ _
  · obtain ⟨k, rfl⟩ := Nat.exists_eq_add_of_le up
    rw [@Portable.lower α read portable m (m + n) k mem' mem (fun i low high => ?_) _ behind]
    · rw [Nat.add_right_comm]
      cases cmd with
      | none => rfl
      | some c =>
        have := behind c rfl
        simp only [Option.map_some]
        congr 2
        omega
    · have same := bytes (i - m) (by omega)
      rw [show m + (i - m) = i by omega] at same
      rw [← same]
      congr 1
      omega

end Portable

theorem portable_instrAt (devices : Nat) : Portable fun mem _ cmd => instrAt mem devices cmd where
  within := fun within stands => Within.instrAt within stands
  seen := fun _ => seen_instrAt _

end Relocation
