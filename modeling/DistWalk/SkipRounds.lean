import DistWalk.Walkers
import DistWalk.Requests

/-!
# Skipping at once and one at a time

Skipping some contexts and then some more is skipping all of them at once, on any
bytes. An expired timeout skips `on_fail_skip` contexts at once and so finds the command
that the loop of `process_single_message`, which skips one in each round, has after as
many rounds. If the loop ends before, at EOM or NULL, the timeout finds NULL.
-/

namespace SkipRounds

open ByteMemory Message Walkers Worker Node Requests

/-! ## The law -/

theorem skipContexts_add (mem : Mem) (msgEnd a b cmd : Nat) : skipContexts mem msgEnd (a + b) cmd =
    (skipContexts mem msgEnd a cmd).bind (skipContexts mem msgEnd b) := by
  induction a generalizing cmd with
  | zero => rw [Nat.zero_add, skipContexts, Option.bind_some]
  | succ a ih =>
    rw [Nat.succ_add, skipContexts, skipContexts]
    split
    · rfl
    · rw [Option.bind_assoc]
      exact congrArg _ (funext ih)

theorem cmdBoundedSkip_none (mem : Mem) (toSkip : Int) (msgEnd : Nat) :
    cmdBoundedSkip mem none toSkip msgEnd = none := rfl

/-- Skipping some contexts and then some more. -/
theorem cmdBoundedSkip_add (mem : Mem) (msgEnd : Nat) (cmd : Option Nat) (a b : Nat) :
    cmdBoundedSkip mem cmd ((a + b : Nat) : Int) msgEnd =
      cmdBoundedSkip mem (cmdBoundedSkip mem cmd a msgEnd) b msgEnd := by
  cases cmd with
  | none => rfl
  | some cmd =>
    by_cases inside : cmdInBounds mem cmd msgEnd = true
    · have first : cmdBoundedSkip mem (some cmd) a msgEnd = skipContexts mem msgEnd a cmd := by
        rw [cmdBoundedSkip, if_pos inside, Int.toNat_natCast]
      rw [cmdBoundedSkip, if_pos inside, Int.toNat_natCast, skipContexts_add, ← first]
      cases landed : cmdBoundedSkip mem (some cmd) a msgEnd with
      | none => rfl
      | some next =>
        rw [Option.bind_some, cmdBoundedSkip, if_pos (cmdBoundedSkip_inBounds landed), Int.toNat_natCast]
    · have outside (toSkip : Int) : cmdBoundedSkip mem (some cmd) toSkip msgEnd = none := by
        rw [cmdBoundedSkip, if_neg inside]
      rw [outside, outside, cmdBoundedSkip_none]

/-! ## Rounds -/

/-- The loop of `process_single_message` goes from one value of `cmd` to another in so many
rounds; it makes no round at NULL and at EOM. -/
inductive Rounds (mem : Mem) (msgEnd : Nat) : Nat → Option Nat → Option Nat → Prop
  | start (cmd : Option Nat) : Rounds mem msgEnd 0 cmd cmd
  | round {k cmd : Nat} {last : Option Nat} (more : cmdAt mem cmd ≠ .eom)
      (rest : Rounds mem msgEnd k (cmdBoundedSkip mem (some cmd) 1 msgEnd) last) :
      Rounds mem msgEnd (k + 1) (some cmd) last

/-- The loop makes no further round. -/
def Over (mem : Mem) (cmd : Option Nat) : Prop := ∀ c, cmd = some c → cmdAt mem c = .eom

section Rounds

variable {mem : Mem} {msgEnd : Nat}

theorem cmdBoundedSkip_eom {cmd : Nat} (eom : cmdAt mem cmd = .eom) {toSkip : Int} (positive : 0 < toSkip) :
    cmdBoundedSkip mem (some cmd) toSkip msgEnd = none := by
  obtain ⟨k, count⟩ : ∃ k, toSkip.toNat = k + 1 := ⟨toSkip.toNat - 1, by omega⟩
  rw [cmdBoundedSkip]
  split
  · rw [count, skipContexts, if_pos eom]
  · rfl

/-- What skipping at once comes to after one round of the loop. -/
theorem cmdBoundedSkip_round (cmd : Option Nat) (k : Nat) : cmdBoundedSkip mem cmd ((k + 1 : Nat) : Int) msgEnd =
    cmdBoundedSkip mem (cmdBoundedSkip mem cmd 1 msgEnd) k msgEnd := by
  rw [Nat.add_comm]
  exact cmdBoundedSkip_add mem msgEnd cmd 1 k

/-- Rounds that end at a command end where skipping at once does. -/
theorem Rounds.skips {k next : Nat} {cmd last : Option Nat} (h : Rounds mem msgEnd k cmd last) (found : last = some next)
    (inside : ∀ c, cmd = some c → cmdInBounds mem c msgEnd = true) : cmdBoundedSkip mem cmd k msgEnd = some next := by
  induction h with
  | start cmd =>
    subst found
    rw [cmdBoundedSkip, if_pos (inside next rfl)]
    rfl
  | @round k cmd last more rest ih =>
    rw [cmdBoundedSkip_round]
    exact ih found fun c e => (cmdBoundedSkip_spec e).2

/-- The loop makes all the rounds to a command that is found at once. -/
theorem rounds_of_skip {k next : Nat} {cmd : Option Nat} (found : cmdBoundedSkip mem cmd k msgEnd = some next) :
    Rounds mem msgEnd k cmd (some next) := by
  induction k generalizing cmd with
  | zero =>
    cases cmd with
    | none => cases found
    | some c =>
      rw [cmdBoundedSkip] at found
      split at found
      · cases found
        exact .start _
      · cases found
  | succ k ih =>
    cases cmd with
    | none => cases found
    | some c =>
      have more : cmdAt mem c ≠ .eom := by
        intro eom
        rw [cmdBoundedSkip_eom eom (by omega)] at found
        cases found
      rw [cmdBoundedSkip_round] at found
      exact .round more (ih found)

/-- If nothing is found at once, the loop ends by then. -/
theorem over_of_skip {k : Nat} {cmd : Option Nat} (inside : ∀ c, cmd = some c → cmdInBounds mem c msgEnd = true)
    (missed : cmdBoundedSkip mem cmd k msgEnd = none) :
    ∃ j ≤ k, ∃ last, Rounds mem msgEnd j cmd last ∧ Over mem last := by
  induction k generalizing cmd with
  | zero =>
    cases cmd with
    | none => exact ⟨0, le_rfl, none, .start _, fun c e => by cases e⟩
    | some c =>
      rw [cmdBoundedSkip, if_pos (inside c rfl)] at missed
      cases missed
  | succ k ih =>
    cases cmd with
    | none => exact ⟨0, Nat.zero_le _, none, .start _, fun c e => by cases e⟩
    | some c =>
      by_cases eom : cmdAt mem c = .eom
      · exact ⟨0, Nat.zero_le _, some c, .start _, fun c' e => by cases e; exact eom⟩
      · rw [cmdBoundedSkip_round] at missed
        obtain ⟨j, le, last, rounds, ended⟩ := ih (fun c' e => (cmdBoundedSkip_spec e).2) missed
        exact ⟨j + 1, Nat.succ_le_succ le, last, .round eom rounds, ended⟩

end Rounds

/-! ## The loop of the model -/

/-- Commands after which the loop goes on. -/
def PassedOver (mem : Mem) (storageDevices cmd : Nat) : Prop :=
  cmdAt mem cmd = .compute ∨
    (cmdAt mem cmd = .store ∧ storageDevice mem cmd < storageDevices ∧ storeWaitSync mem cmd = 0)

/-- The rounds are those of `process_single_message` over commands after which it goes on. -/
theorem Rounds.processFrom {mem : Mem} {slot m k : Nat} {cmd last : Option Nat} {w : State}
    (h : Rounds mem (messageEnd mem m) k cmd last)
    (passed : ∀ j < k, ∀ c, Rounds mem (messageEnd mem m) j cmd (some c) → PassedOver mem w.storageDevices c)
    (fuel : Nat) : ∃ w' : State, processFrom mem slot m (fuel + k) w cmd = processFrom mem slot m fuel w' last ∧
      w'.reqs = w.reqs ∧ w'.storageDevices = w.storageDevices := by
  induction h generalizing w with
  | start cmd => exact ⟨w, rfl, rfl, rfl⟩
  | @round k c last more rest ih =>
    have onward (w₁ : State) (reqs : w₁.reqs = w.reqs) (devices : w₁.storageDevices = w.storageDevices) :
        ∃ w' : State, Node.processFrom mem slot m (fuel + k) w₁ (cmdBoundedSkip mem (some c) 1 (messageEnd mem m)) =
          Node.processFrom mem slot m fuel w' last ∧ w'.reqs = w.reqs ∧ w'.storageDevices = w.storageDevices := by
      obtain ⟨w', same, reqs', devices'⟩ := ih (w := w₁) fun j less c' rounds =>
        devices ▸ passed (j + 1) (by omega) c' (.round more rounds)
      exact ⟨w', same, reqs'.trans reqs, devices'.trans devices⟩
    rw [← Nat.add_assoc, Node.processFrom]
    rcases passed 0 (Nat.succ_pos k) c (.start _) with type | ⟨type, known, unsynced⟩
    · simp only [type]
      exact onward _ rfl rfl
    · simp only [type, if_neg (not_le.mpr known), unsynced, if_true]
      exact onward _ rfl rfl

/-! ## An expired timeout -/

theorem currCmd_skipOnFailure (w : State) (slot m : Nat) : ((skipOnFailure w slot m).reqs slot).currCmd =
    cmdBoundedSkip (reqMem w slot) (w.reqs slot).currCmd (((w.reqs slot).fwdOnFailSkip.toNat : Nat) : Int)
      (messageEnd (reqMem w slot) m) := by
  have here : ((skipOnFailure w slot m).reqs slot).currCmd = cmdBoundedSkip (reqMem w slot)
      (w.reqs slot).currCmd (w.reqs slot).fwdOnFailSkip (messageEnd (reqMem w slot) m) := by
    simp only [skipOnFailure, setMsgStatus, State.setConn]
    rw [setReq_self]
  rw [here]
  cases (w.reqs slot).currCmd with
  | none => rfl
  | some cmd => rw [cmdBoundedSkip, cmdBoundedSkip, Int.toNat_natCast]

/-- Skipping `a + b` contexts is skipping `a` and then `b`, on any bytes. So an expired
timeout lands at a command exactly when the loop that skips one context a round does so
after `on_fail_skip` rounds, and where it has NULL the loop ends by then. -/
theorem skip_at_once :
    (∀ (mem : Mem) (msgEnd : Nat) (cmd : Option Nat) (a b : Nat),
      cmdBoundedSkip mem cmd ((a + b : Nat) : Int) msgEnd =
        cmdBoundedSkip mem (cmdBoundedSkip mem cmd a msgEnd) b msgEnd) ∧
    ∀ (w : State) (slot m : Nat),
      let mem := reqMem w slot
      let msgEnd := messageEnd mem m
      let k := (w.reqs slot).fwdOnFailSkip.toNat
      (∀ c, (w.reqs slot).currCmd = some c → cmdInBounds mem c msgEnd = true) →
      (∀ next, ((skipOnFailure w slot m).reqs slot).currCmd = some next ↔
        Rounds mem msgEnd k (w.reqs slot).currCmd (some next)) ∧
      (((skipOnFailure w slot m).reqs slot).currCmd = none →
        ∃ j ≤ k, ∃ last, Rounds mem msgEnd j (w.reqs slot).currCmd last ∧ Over mem last) := by
  refine ⟨cmdBoundedSkip_add, ?_⟩
  intro w slot m mem msgEnd k inside
  rw [currCmd_skipOnFailure]
  exact ⟨fun next => ⟨rounds_of_skip, fun rounds => rounds.skips rfl inside⟩, over_of_skip inside⟩

/-- A message of four COMPUTEs whose current command is the first one. -/
def fourComputes : State :=
  let w := State.init 0 (fun _ => 0) (fun _ _ => 0) true
  let w := w.setReq 0 { w.reqs 0 with messagePtr := some 0, currCmd := some 12, fwdOnFailSkip := 2 }
  w.setConn (w.reqs 0).connId { w.conns (w.reqs 0).connId with recvBuf := fun i => if i = 4 then 44 else 0 }

theorem skip_at_once_computes :
    ((skipOnFailure fourComputes 0 0).reqs 0).currCmd = some 28 ∧
      Rounds (reqMem fourComputes 0) 44 2 (some 12) (some 28) := by
  have landed : ((skipOnFailure fourComputes 0 0).reqs 0).currCmd = some 28 := by decide
  have inside : ∀ c, (fourComputes.reqs 0).currCmd = some c →
      cmdInBounds (reqMem fourComputes 0) c (messageEnd (reqMem fourComputes 0) 0) = true := by
    intro c e
    cases e
    decide
  exact ⟨landed, ((skip_at_once.2 fourComputes 0 0 inside).1 28).mp landed⟩

end SkipRounds
