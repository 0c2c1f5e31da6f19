import DistWalk.Walkers
import DistWalk.Node

/-!
# What the walkers read of a message

Two memories that hold the same bytes between the start and the end of a message
are walked alike: a walker that starts at a command inside the bounds reads only
commands inside the bounds. The functions that read a command without a check of
their own (its options, the loop over the branches of a FORWARD) need the room
that command takes.
-/

namespace BoundedReads

open ByteMemory Message Walkers Node

/-- The two memories hold the same bytes from `lo` up to `hi`. -/
def Within (lo hi : Nat) (mem mem' : Mem) : Prop := ∀ i, lo ≤ i → i < hi → mem i = mem' i

theorem Within.symm {lo hi : Nat} {mem mem' : Mem} (h : Within lo hi mem mem') :
    Within lo hi mem' mem := fun i le lt => (h i le lt).symm

/-- A command that stands inside the bounds. -/
structure Stands (lo hi : Nat) (mem : Mem) (cmd : Nat) : Prop where
  start : lo ≤ cmd
  fits : cmd + cmdTypeSize (cmdAt mem cmd) ≤ hi

theorem Stands.inBounds {lo hi cmd : Nat} {mem : Mem} (h : Stands lo hi mem cmd) :
    cmdInBounds mem cmd hi = true := cmdInBounds_iff.mpr h.fits

theorem stands_of_inBounds {lo hi cmd : Nat} {mem : Mem} (le : lo ≤ cmd)
    (inside : cmdInBounds mem cmd hi = true) : Stands lo hi mem cmd := ⟨le, cmdInBounds_iff.mp inside⟩

theorem Stands.next {lo hi cmd next : Nat} {mem : Mem} (h : Stands lo hi mem cmd)
    (step : cmdBoundedNext mem cmd hi = some next) : Stands lo hi mem next := by
  obtain ⟨place, inside⟩ := cmdBoundedNext_eq_some step
  exact stands_of_inBounds (by have := h.start; omega) inside

theorem Stands.skip {lo hi cmd next : Nat} {mem : Mem} (h : Stands lo hi mem cmd)
    (step : cmdBoundedSkip mem (some cmd) 1 hi = some next) : Stands lo hi mem next := by
  obtain ⟨later, inside⟩ := cmdBoundedSkip_spec step
  exact stands_of_inBounds (by have := h.start; omega) inside

section Within

variable {lo hi : Nat} {mem mem' : Mem} (h : Within lo hi mem mem')

include h

theorem Within.u32 {a : Nat} (le : lo ≤ a) (room : a + 4 ≤ hi) : u32 mem a = u32 mem' a :=
  u32_congr fun i _ => h (a + i) (by omega) (by omega)

theorem Within.slice {a n : Nat} (le : lo ≤ a) (room : a + n ≤ hi) : slice mem a n = slice mem' a n :=
  slice_congr fun i _ => h (a + i) (by omega) (by omega)

theorem Within.cmdAt {cmd : Nat} (le : lo ≤ cmd) (room : cmd + 4 ≤ hi) :
    cmdAt mem cmd = cmdAt mem' cmd := congrArg CommandType.ofCode (h.u32 le room)

theorem Within.cmdInBounds {cmd : Nat} (le : lo ≤ cmd) :
    cmdInBounds mem cmd hi = cmdInBounds mem' cmd hi := by
  simp only [Message.cmdInBounds]
  split
  · rfl
  · rename_i room
    rw [h.cmdAt le (by simp only [commandHeader] at room; omega)]

/-- The type word of a standing command is read inside the bounds. -/
theorem Within.type {cmd : Nat} (s : Stands lo hi mem cmd) : Message.cmdAt mem cmd = Message.cmdAt mem' cmd := by
  have size := four_le_cmdTypeSize (Message.cmdAt mem cmd)
  exact h.cmdAt s.start (by have := s.fits; omega)

theorem Within.stands {cmd : Nat} (s : Stands lo hi mem cmd) : Stands lo hi mem' cmd :=
  ⟨s.start, by rw [← h.type s]; exact s.fits⟩

theorem Within.cmdBoundedNext {cmd : Nat} (s : Stands lo hi mem cmd) :
    cmdBoundedNext mem cmd hi = cmdBoundedNext mem' cmd hi := by
  have le : lo ≤ cmd + cmdTypeSize (Message.cmdAt mem' cmd) := Nat.le_add_right_of_le s.start
  simp only [Message.cmdBoundedNext, h.type s, h.cmdInBounds le]

theorem Within.skipContext {fuel cmd : Nat} (s : Stands lo hi mem cmd) (nested : Int) :
    skipContext mem hi fuel cmd nested = skipContext mem' hi fuel cmd nested := by
  induction fuel generalizing cmd nested with
  | zero => rfl
  | succ fuel ih =>
    simp only [Message.skipContext, ← h.cmdBoundedNext s]
    cases step : Message.cmdBoundedNext mem cmd hi with
    | none => rfl
    | some next =>
      have later := s.next step
      have depth : nestingAfter mem cmd next nested = nestingAfter mem' cmd next nested := by
        simp only [nestingAfter, h.type s, h.type later]
      simp only [depth, h.type later, ih later]

theorem Within.skipContexts {toSkip cmd : Nat} (s : Stands lo hi mem cmd) :
    skipContexts mem hi toSkip cmd = skipContexts mem' hi toSkip cmd := by
  induction toSkip generalizing cmd with
  | zero => rfl
  | succ toSkip ih =>
    simp only [Message.skipContexts, h.type s, ← h.skipContext s]
    split
    · rfl
    · cases left : Message.skipContext mem hi (hi - cmd) cmd 0 with
      | none => rfl
      | some next =>
        obtain ⟨later, inside⟩ := skipContext_spec left
        exact ih (stands_of_inBounds (by have := s.start; omega) inside)

theorem Within.cmdBoundedSkip {cmd : Nat} (le : lo ≤ cmd) (toSkip : Int) :
    cmdBoundedSkip mem (some cmd) toSkip hi = cmdBoundedSkip mem' (some cmd) toSkip hi := by
  simp only [Message.cmdBoundedSkip, ← h.cmdInBounds le]
  split
  · rename_i inside
    exact h.skipContexts (stands_of_inBounds le inside)
  · rfl

/-- The options of a FORWARD need the room of one, wherever they are read. -/
theorem Within.fwdOpts {cmd : Nat} (le : lo ≤ cmd) (room : cmd + 28 ≤ hi) :
    fwdOpts mem cmd = fwdOpts mem' cmd := by
  have addr := h.slice (show lo ≤ cmd + 8 by omega) (show cmd + 8 + 6 ≤ hi by omega)
  have size := h.u32 (show lo ≤ cmd + 4 by omega) (by omega)
  have timeout := h.u32 (show lo ≤ cmd + 16 by omega) (by omega)
  have proto := h.u32 (show lo ≤ cmd + 24 by omega) (by omega)
  simp only [Message.fwdOpts, addr, size, timeout, proto, h (cmd + 20) (by omega) (by omega),
    h (cmd + 21) (by omega) (by omega), h (cmd + 22) (by omega) (by omega),
    h (cmd + 23) (by omega) (by omega)]

theorem Within.seekContinue {branched : Bool} {fuel : Nat} {cmd : Option Nat}
    (s : ∀ c, cmd = some c → Stands lo hi mem c) :
    seekContinue mem hi branched fuel cmd = seekContinue mem' hi branched fuel cmd := by
  induction fuel generalizing cmd with
  | zero => rfl
  | succ fuel ih =>
    cases cmd with
    | none => rfl
    | some cmd =>
      have here := s cmd rfl
      have skipped := ih fun c e => here.skip e
      have moved := ih fun c e => here.next e
      simp only [Message.seekContinue, h.type here, h.cmdInBounds here.start, ← h.cmdBoundedNext here,
        ← h.cmdBoundedSkip here.start, skipped, moved]
      split
      · rfl
      · rfl
      · rfl
      · cases step : Message.cmdBoundedNext mem cmd hi with
        | none => rfl
        | some c =>
          have later := here.next step
          have onward := @ih (some c) fun x e => Option.some.inj e ▸ later
          simp only [h.type later, onward]
      · rfl

end Within

theorem room_of_forward {lo hi cmd : Nat} {mem : Mem} (s : Stands lo hi mem cmd)
    (forward : (cmdAt mem cmd).isForward = true) : cmd + 28 ≤ hi := by
  have fits := s.fits
  cases type : cmdAt mem cmd <;>
    simp only [type, CommandType.isForward, Bool.false_eq_true, cmdTypeSize, commandHeader] at forward fits <;>
    omega

/-- A branch found behind another one is a FORWARD_CONTINUE inside the bounds. -/
theorem seekContinue_stands {lo hi : Nat} {mem : Mem} {branched : Bool} {fuel found : Nat} {cmd : Option Nat}
    (s : ∀ c, cmd = some c → Stands lo hi mem c)
    (h : seekContinue mem hi branched fuel cmd = some found) :
    Stands lo hi mem found ∧ cmdAt mem found = .forwardContinue := by
  induction fuel generalizing cmd with
  | zero => cases h
  | succ fuel ih =>
    cases cmd with
    | none => cases h
    | some cmd =>
      have here := s cmd rfl
      simp only [seekContinue] at h
      split at h
      · cases h
      · rename_i type
        split at h
        · cases h
          exact ⟨here, type⟩
        · cases h
      · exact ih (fun c e => here.skip e) h
      · split at h
        · cases h
        · rename_i next step
          split at h
          · cases h
          · refine ih (fun c e => ?_) h
            cases e
            exact here.next step
      · exact ih (fun c e => here.next e) h

theorem nextForward_stands {lo hi cmd next : Nat} {mem : Mem} (le : lo ≤ cmd)
    (h : cmdBoundedNextForward mem (some cmd) hi = .ok (some next)) :
    Stands lo hi mem next ∧ cmdAt mem next = .forwardContinue := by
  simp only [cmdBoundedNextForward] at h
  split at h
  · cases h
  · rename_i inside
    split at h
    · cases h
    · have here : Stands lo hi mem cmd := stands_of_inBounds le (by simpa using inside)
      exact seekContinue_stands (fun c e => here.next e) (Except.ok.inj h)

section Within

variable {lo hi : Nat} {mem mem' : Mem} (h : Within lo hi mem mem')

include h

theorem Within.cmdBoundedNextForward {cmd : Nat} (le : lo ≤ cmd) :
    cmdBoundedNextForward mem (some cmd) hi = cmdBoundedNextForward mem' (some cmd) hi := by
  simp only [Message.cmdBoundedNextForward, ← h.cmdInBounds le]
  split
  · rfl
  · rename_i inside
    have here : Stands lo hi mem cmd := stands_of_inBounds le (by simpa using inside)
    rw [← h.type here]
    split
    · rfl
    · rename_i forward
      have room := room_of_forward here (by simpa using forward)
      rw [h.fwdOpts le room, ← h.cmdBoundedNext here,
        h.seekContinue fun c e => here.next e]

/-- The search for a branch starts where a FORWARD has room. -/
theorem Within.findForwardFrom (addr : Addr) (fuel id : Nat) {cmd : Option Nat}
    (room : ∀ c, cmd = some c → lo ≤ c ∧ c + 28 ≤ hi) :
    findForwardFrom mem addr hi fuel cmd id = findForwardFrom mem' addr hi fuel cmd id := by
  induction fuel generalizing cmd id with
  | zero => rfl
  | succ fuel ih =>
    cases cmd with
    | none => rfl
    | some cmd =>
      obtain ⟨le, fits⟩ := room cmd rfl
      simp only [Message.findForwardFrom, h.fwdOpts le fits, ← h.cmdBoundedNextForward le]
      split
      · rfl
      · cases step : Message.cmdBoundedNextForward mem (some cmd) hi with
        | error e => rfl
        | ok next =>
          refine ih _ fun c e => ?_
          subst e
          obtain ⟨later, type⟩ := nextForward_stands le step
          exact ⟨later.start, room_of_forward later (by rw [type]; rfl)⟩

theorem Within.seekReply (fuel : Nat) {cmd : Option Nat}
    (s : ∀ c, cmd = some c → Stands lo hi mem c) :
    seekReply mem hi fuel cmd = seekReply mem' hi fuel cmd := by
  induction fuel generalizing cmd with
  | zero => rfl
  | succ fuel ih =>
    cases cmd with
    | none => rfl
    | some cmd =>
      have here := s cmd rfl
      simp only [Message.seekReply, h.type here, ← h.cmdBoundedSkip here.start]
      split
      · rfl
      · exact ih fun c e => here.skip e

theorem Within.skipContinues (fuel : Nat) {cmd : Option Nat}
    (s : ∀ c, cmd = some c → Stands lo hi mem c) :
    skipContinues mem hi fuel cmd = skipContinues mem' hi fuel cmd := by
  induction fuel generalizing cmd with
  | zero => rfl
  | succ fuel ih =>
    cases cmd with
    | none => rfl
    | some cmd =>
      have here := s cmd rfl
      simp only [Node.skipContinues, h.type here, ← h.cmdBoundedNext here]
      split
      · exact ih fun c e => here.next e
      · rfl

theorem Within.cmdLog (fuel : Nat) {cmd : Option Nat} (le : ∀ c, cmd = some c → lo ≤ c) :
    cmdLog mem hi fuel cmd = cmdLog mem' hi fuel cmd := by
  induction fuel generalizing cmd with
  | zero => rfl
  | succ fuel ih =>
    cases cmd with
    | none => rfl
    | some cmd =>
      have here := le cmd rfl
      simp only [Message.cmdLog, ← h.cmdInBounds here]
      split
      · rfl
      · rename_i inside
        have stands : Stands lo hi mem cmd := stands_of_inBounds here (by simpa using inside)
        have onward := ih fun c e => (stands.next e).start
        simp only [h.type stands, ← h.cmdBoundedNext stands, onward]

end Within

theorem seekReply_stands {lo hi : Nat} {mem : Mem} {fuel found : Nat} {cmd : Option Nat}
    (s : ∀ c, cmd = some c → Stands lo hi mem c) (h : seekReply mem hi fuel cmd = some found) :
    Stands lo hi mem found := by
  induction fuel generalizing cmd with
  | zero => cases h
  | succ fuel ih =>
    cases cmd with
    | none => cases h
    | some cmd =>
      have here := s cmd rfl
      simp only [seekReply] at h
      split at h
      · cases h
        exact here
      · exact ih (fun c e => here.skip e) h

theorem skipContinues_stands {lo hi : Nat} {mem : Mem} {fuel found : Nat} {cmd : Option Nat}
    (s : ∀ c, cmd = some c → Stands lo hi mem c) (h : skipContinues mem hi fuel cmd = some found) :
    Stands lo hi mem found := by
  induction fuel generalizing cmd with
  | zero => cases h
  | succ fuel ih =>
    cases cmd with
    | none => cases h
    | some cmd =>
      have here := s cmd rfl
      simp only [skipContinues] at h
      split at h
      · exact ih (fun c e => here.next e) h
      · cases h
        exact here

/-! ## A message -/

/-- The message at `m` has a header, and its bytes are the same in both memories. -/
structure SameMessage (mem mem' : Mem) (m : Nat) : Prop where
  header : m + messageHeader ≤ messageEnd mem m
  bytes : Within m (messageEnd mem m) mem mem'

/-- A command of the message at `m`. -/
abbrev CommandOf (mem : Mem) (m cmd : Nat) : Prop :=
  Stands (messageFirstCmd m) (messageEnd mem m) mem cmd

section SameMessage

variable {mem mem' : Mem} {m : Nat} (h : SameMessage mem mem' m)

include h

theorem SameMessage.reqSizeOf : reqSizeOf mem' m = reqSizeOf mem m :=
  (h.bytes.u32 (by omega) (by have := h.header; simp only [messageHeader] at this; omega)).symm

theorem SameMessage.messageEnd : messageEnd mem' m = messageEnd mem m :=
  congrArg (m + ·) h.reqSizeOf

theorem SameMessage.reqIdOf : reqIdOf mem' m = reqIdOf mem m :=
  (h.bytes.u32 (by omega) (by have := h.header; simp only [messageHeader] at this; omega)).symm

theorem SameMessage.statusOf : statusOf mem' m = statusOf mem m :=
  (h.bytes.u32 (by omega) (by have := h.header; simp only [messageHeader] at this; omega)).symm

theorem SameMessage.commands :
    Within (messageFirstCmd m) (Message.messageEnd mem m) mem mem' :=
  fun i le lt => h.bytes i (by simp only [messageFirstCmd] at le; omega) lt

theorem SameMessage.messageCopyTail (dst : Mem) (p : Nat) {cmd : Option Nat}
    (s : ∀ c, cmd = some c → CommandOf mem m c) :
    messageCopyTail mem' m dst p cmd = messageCopyTail mem m dst p cmd := by
  have found := h.commands.seekReply (Message.messageEnd mem m + 1) s
  simp only [Message.messageCopyTail, h.messageEnd, h.reqIdOf, ← found]
  cases cmd with
  | none => rfl
  | some cmd =>
    have start := s cmd rfl
    cases at_ : seekReply mem (Message.messageEnd mem m) (Message.messageEnd mem m + 1) (some cmd) with
    | none => rfl
    | some itr =>
      have last := seekReply_stands s at_
      have inside : cmd + (itr + cmdTypeSize (cmdAt mem itr) - cmd) ≤ Message.messageEnd mem m := by
        have := last.fits
        have := lt_end_of_inBounds start.inBounds
        omega
      simp only [← h.commands.cmdInBounds last.start, ← h.commands.type last,
        ← h.commands.slice start.start inside]

theorem SameMessage.fillForward (conn : Connection.ConnInfo) {cmd : Nat} (reqId p : Nat) (fwd : FwdOpts)
    (s : CommandOf mem m cmd) :
    fillForward conn mem' m cmd reqId p fwd = fillForward conn mem m cmd reqId p fwd := by
  have next := h.commands.cmdBoundedNext s
  have tail := h.commands.skipContinues (Message.messageEnd mem m + 1) fun c e => s.next e
  have copied := h.messageCopyTail conn.sendBuf p
    fun c (e : skipContinues mem (Message.messageEnd mem m) (Message.messageEnd mem m + 1)
        (cmdBoundedNext mem cmd (Message.messageEnd mem m)) = some c) =>
      skipContinues_stands (fun c e => s.next e) e
  simp only [Node.fillForward, h.messageEnd, ← next, ← tail, copied]

end SameMessage

end BoundedReads
