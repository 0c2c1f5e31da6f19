import DistWalk.ForwardedMessage

/-!
# Copying the tail of a message

`message_copy_tail` takes the commands from where it starts to the REPLY of the
branch, whatever contexts lie between, and appends EOM. The space it is told is
that of the whole message, but it compares it with the commands and EOM alone:
the header in front of them is not counted.
-/

namespace TailCopy

open ByteMemory Message Walkers ContextGrammar Decoding Template MessageSkip Node ForwardedMessage

/-- The command that ends the tail from `cmd` on, if it lies inside the message. -/
def tailEnd (mem : Mem) (m cmd : Nat) : Option Nat :=
  (seekReply mem (messageEnd mem m) (messageEnd mem m + 1) (some cmd)).filter
    fun itr => cmdInBounds mem itr (messageEnd mem m)

/-- The bytes of the commands from `cmd` on to the one at `itr`. -/
def tailLength (mem : Mem) (cmd itr : Nat) : Nat := itr + cmdTypeSize (cmdAt mem itr) - cmd

/-- What is written if there is enough space: the id, the commands, EOM, the size. -/
def writeTail (mem : Mem) (m : Nat) (dst : Mem) (mDst cmd len : Nat) : Mem :=
  let endCommand := messageFirstCmd mDst + len
  let dst := store (setReqId dst mDst (reqIdOf mem m)) (messageFirstCmd mDst) (slice mem cmd len)
  setReqSize (storeU32 dst endCommand 7) mDst (endCommand + cmdTypeSize .eom - mDst)

section Copy

variable {mem dst : Mem} {m mDst cmd : Nat}

theorem reqSizeOf_setReqId (dst : Mem) (mDst v : Nat) :
    reqSizeOf (setReqId dst mDst v) mDst = reqSizeOf dst mDst :=
  u32_store_disjoint _ _ _ _ (Or.inr (by simp only [length_u32Bytes]; omega))

theorem messageCopyTail_none (h : tailEnd mem m cmd = none) :
    messageCopyTail mem m dst mDst (some cmd) = (setReqId dst mDst (reqIdOf mem m), none) := by
  simp only [tailEnd] at h
  simp only [messageCopyTail]
  cases found : seekReply mem (messageEnd mem m) (messageEnd mem m + 1) (some cmd) with
  | none => rfl
  | some itr =>
    rw [found] at h
    have outside : cmdInBounds mem itr (messageEnd mem m) = false := by simpa using h
    simp [outside]

theorem messageCopyTail_some {itr : Nat} (h : tailEnd mem m cmd = some itr) :
    messageCopyTail mem m dst mDst (some cmd) =
      if reqSizeOf dst mDst < tailLength mem cmd itr + 4 then
        (setReqId dst mDst (reqIdOf mem m), none)
      else (writeTail mem m dst mDst cmd (tailLength mem cmd itr), some itr) := by
  obtain ⟨found, inside⟩ := Option.filter_eq_some_iff.mp h
  simp only [messageCopyTail, found, inside, Bool.not_true, Bool.false_eq_true, if_false,
    reqSizeOf_setReqId]
  rfl

/-! ## What is left alone -/

theorem setReqId_outside {i : Nat} (v : Nat) (outside : i < mDst ∨ mDst + 4 ≤ i) :
    setReqId dst mDst v i = dst i :=
  store_outside _ _ _ (by simpa only [length_u32Bytes] using outside)

theorem setReqSize_outside {i : Nat} (v : Nat) (outside : i < mDst + 4 ∨ mDst + 8 ≤ i) :
    setReqSize dst mDst v i = dst i :=
  store_outside _ _ _ (by
    simp only [length_u32Bytes]
    omega)

/-- Nothing is written outside the composed message. -/
theorem writeTail_outside {len i : Nat} (outside : i < mDst ∨ mDst + 16 + len ≤ i) :
    writeTail mem m dst mDst cmd len i = dst i := by
  simp only [writeTail, messageFirstCmd, messageHeader]
  rw [setReqSize_outside _ (by omega), storeU32,
    store_outside _ _ _ (by simp only [length_u32Bytes]; omega),
    store_outside _ _ _ (by simp only [length_slice]; omega), setReqId_outside _ (by omega)]

/-- The last byte of EOM. -/
theorem writeTail_last {len : Nat} : writeTail mem m dst mDst cmd len (mDst + 12 + len + 3) = 0 := by
  simp only [writeTail, messageFirstCmd, messageHeader]
  rw [setReqSize_outside _ (by omega), storeU32, store_inside _ _ _ (by decide)]
  rfl

theorem writeTail_copied {len i : Nat} (hi : i < len) :
    writeTail mem m dst mDst cmd len (mDst + 12 + i) = mem (cmd + i) := by
  simp only [writeTail, messageFirstCmd, messageHeader]
  rw [setReqSize_outside _ (by omega), storeU32, store_outside _ _ _ (by omega),
    store_inside _ _ _ (by rw [length_slice]; exact hi),
    List.getD_eq_getElem _ _ (by rw [length_slice]; exact hi), getElem_slice]

theorem writeTail_eom (len : Nat) :
    cmdAt (writeTail mem m dst mDst cmd len) (mDst + 12 + len) = .eom := by
  have word : u32 (writeTail mem m dst mDst cmd len) (mDst + 12 + len) = 7 := by
    refine Eq.trans (u32_store_disjoint _ _ _ _ (Or.inr ?_)) (u32_storeU32 _ _ (by decide))
    simp only [length_u32Bytes, messageFirstCmd, messageHeader]
    omega
  rw [cmdAt, word]
  rfl

theorem writeTail_reqId (len : Nat) :
    reqIdOf (writeTail mem m dst mDst cmd len) mDst = reqIdOf mem m := by
  have kept : ∀ i, i < 4 → writeTail mem m dst mDst cmd len (mDst + i) =
      setReqId dst mDst (reqIdOf mem m) (mDst + i) := by
    intro i hi
    simp only [writeTail, messageFirstCmd, messageHeader]
    rw [setReqSize_outside _ (by omega), storeU32, store_outside _ _ _ (by omega),
      store_outside _ _ _ (by omega)]
  exact (u32_congr kept).trans (u32_storeU32 _ _ (u32_lt _ _))

theorem writeTail_reqSize {len : Nat} (small : 16 + len < 2 ^ 32) :
    reqSizeOf (writeTail mem m dst mDst cmd len) mDst = 16 + len := by
  have total : messageFirstCmd mDst + len + cmdTypeSize .eom - mDst = 16 + len := by
    simp only [messageFirstCmd, messageHeader, cmdTypeSize, commandHeader]
    omega
  simp only [writeTail, total]
  exact u32_storeU32 _ _ small

/-! ## The tail of a branch -/

/-- With room for the header, the branch and EOM, the copy is a message with the id of the
source whose commands are the branch up to its REPLY; nothing else changes. The source may
lie in the same memory, outside the copy. -/
theorem branch_copied {f r : Nat} {before after heads body rest : List Nat}
    (decoded : decode mem m = some (before ++ f :: after))
    (branch : Branch (cmdKind mem) after heads body r rest)
    (room : 16 + (bytesOf mem (body ++ [r])).length ≤ reqSizeOf dst mDst) :
    ∃ start, skipContinues mem (messageEnd mem m) (messageEnd mem m + 1)
        (cmdBoundedNext mem f (messageEnd mem m)) = some start ∧
      (messageCopyTail mem m dst mDst (some start)).2 = some r ∧
      let copy := (messageCopyTail mem m dst mDst (some start)).1
      reqIdOf copy mDst = reqIdOf mem m ∧
      reqSizeOf copy mDst = 16 + (bytesOf mem (body ++ [r])).length ∧
      (∃ cmds, decode copy mDst = some cmds ∧
        cmds.map (cmdBytes copy) = (body ++ [r]).map (cmdBytes mem) ∧
        cmdAt copy (mDst + 12 + (bytesOf mem (body ++ [r])).length) = .eom) ∧
      ∀ i, i < mDst ∨ mDst + reqSizeOf copy mDst ≤ i → copy i = dst i := by
  obtain ⟨start, found, sought, reply, inside, laid, head, length⟩ := branch_located decoded branch
  have tail : tailEnd mem m start = some r := Option.filter_eq_some_iff.mpr ⟨sought, inside⟩
  have len : tailLength mem start r = (bytesOf mem (body ++ [r])).length := by
    rw [tailLength, reply]
    omega
  have enough : ¬ reqSizeOf dst mDst < tailLength mem start r + 4 := by omega
  have small : 16 + (bytesOf mem (body ++ [r])).length < 2 ^ 32 := lt_of_le_of_lt room (u32_lt _ _)
  have commands : ∀ x ∈ body ++ [r], cmdAt mem x ≠ .eom := by
    obtain ⟨e, layout, -⟩ := walk_layout decoded
    intro x hx
    refine layout.commands x ?_
    simp only [branch.split, List.mem_append, List.mem_cons] at hx ⊢
    tauto
  refine ⟨start, found, ?_⟩
  rw [messageCopyTail_some tail, if_neg enough, len]
  have size : reqSizeOf (writeTail mem m dst mDst start (bytesOf mem (body ++ [r])).length) mDst =
      16 + (bytesOf mem (body ++ [r])).length := writeTail_reqSize small
  have eom : cmdAt (writeTail mem m dst mDst start (bytesOf mem (body ++ [r])).length)
      (mDst + 12 + (bytesOf mem (body ++ [r])).length) = .eom := writeTail_eom _
  refine ⟨rfl, writeTail_reqId _, size, ?_, fun i outside => ?_⟩
  · obtain ⟨cmds, walked, copies⟩ := decode_copied laid commands
      (fun i hi => by rw [writeTail_copied hi, head]) eom (by rw [messageEnd, size]; omega)
    exact ⟨cmds, walked, copies, eom⟩
  · rw [size] at outside
    exact writeTail_outside (by omega)

/-! ## The space that is given -/

/-- On NULL only the id in the header may have changed; otherwise nothing is written outside
the available bytes. -/
def Respects (mem : Mem) (m : Nat) (dst : Mem) (mDst : Nat) (cmd : Nat) : Prop :=
  let copy := messageCopyTail mem m dst mDst (some cmd)
  (copy.2 = none → ∀ i, messageFirstCmd mDst ≤ i → copy.1 i = dst i) ∧
    (copy.2 ≠ none → ∀ i, i < mDst ∨ mDst + reqSizeOf dst mDst ≤ i → copy.1 i = dst i)

/-- The space is respected, whatever the destination holds, unless the commands and EOM fit
into it without the header but not with it. -/
theorem copied_within_iff {avail : Nat} (word : avail < 2 ^ 32) :
    (∀ dst, reqSizeOf dst mDst = avail → Respects mem m dst mDst cmd) ↔
      ∀ itr, tailEnd mem m cmd = some itr →
        avail < tailLength mem cmd itr + 4 ∨ tailLength mem cmd itr + 16 ≤ avail := by
  constructor
  · intro respects itr found
    by_contra! between
    -- a destination with another byte where the last one of EOM is written
    let dst : Mem := setReqSize (fun _ => 1) mDst avail
    have size : reqSizeOf dst mDst = avail := u32_storeU32 _ _ word
    obtain ⟨-, inside⟩ := respects dst size
    rw [messageCopyTail_some found, size, if_neg (by omega)] at inside
    have kept : writeTail mem m dst mDst cmd _ (mDst + 12 + tailLength mem cmd itr + 3) = _ :=
      inside (by simp) _ (by omega)
    have other : dst (mDst + 12 + tailLength mem cmd itr + 3) = 1 := setReqSize_outside _ (by omega)
    rw [writeTail_last, other] at kept
    exact absurd kept (by decide)
  · intro fits dst size
    have header : ∀ i, messageFirstCmd mDst ≤ i → setReqId dst mDst (reqIdOf mem m) i = dst i := by
      intro i le
      simp only [messageFirstCmd, messageHeader] at le
      exact setReqId_outside _ (by omega)
    cases found : tailEnd mem m cmd with
    | none =>
      rw [Respects, messageCopyTail_none found]
      exact ⟨fun _ => header, fun some => absurd rfl some⟩
    | some itr =>
      rw [Respects, messageCopyTail_some found, size]
      rcases fits itr found with full | room
      · rw [if_pos full]
        exact ⟨fun _ => header, fun some => absurd rfl some⟩
      · rw [if_neg (by omega)]
        exact ⟨fun none => by simp at none, fun _ i outside => writeTail_outside (by omega)⟩

end Copy

/-! ## Copies -/

/-- A branched context with two branches, the first of which has a second FORWARD and a
context of its own. -/
def nestedMessage : Mem := fun a =>
  match a with
  | 0 => 9 | 5 => 1
  | 12 => 4 | 35 => 1 | 40 => 5 | 63 => 1 | 68 => 4 | 96 => 5 | 132 => 6 | 148 => 6
  | 164 => 5 | 187 => 1 | 192 => 1 | 220 => 6 | 236 => 6 | 252 => 7
  | _ => 0

theorem nestedMessage_branch :
    Branch (cmdKind nestedMessage) [40, 68, 96, 124, 132, 148, 164, 192, 220, 236] [40]
      [68, 96, 124, 132] 148 [164, 192, 220, 236] := by
  have body : Derives (cmdKind nestedMessage) .contexts ([124] ++ []) := .cons (.simple rfl) .nil
  have rest : Derives (cmdKind nestedMessage) .branches ([96] ++ [124] ++ [132]) :=
    .last (by decide) body rfl
  have inside : Derives (cmdKind nestedMessage) .contexts ([68, 96, 124, 132] ++ []) :=
    .cons (.scope rfl rest) .nil
  exact ⟨rfl, by decide, inside, rfl⟩

def roomyDst : Mem := setReqSize (fun _ => 1) 0 1024

theorem branch_copied_nested : ∃ start,
    (messageCopyTail nestedMessage 0 roomyDst 0 (some start)).2 = some 148 ∧
      reqIdOf (messageCopyTail nestedMessage 0 roomyDst 0 (some start)).1 0 = 9 := by
  have decoded : decode nestedMessage 0 =
      some ([] ++ 12 :: [40, 68, 96, 124, 132, 148, 164, 192, 220, 236]) := by decide +kernel
  obtain ⟨start, -, copied, same, -⟩ := @branch_copied _ roomyDst 0 0 _ _ _ _ _ _ _ decoded
    nestedMessage_branch (by decide +kernel)
  exact ⟨start, copied, same⟩

/-- A message with one REPLY. -/
def replyMessage : Mem := fun a =>
  match a with
  | 4 => 32 | 12 => 6 | 28 => 7
  | _ => 0

/-- A destination with room for the REPLY and EOM. -/
def tightDst : Mem := setReqSize (fun _ => 1) 0 20

theorem copied_within_reply : Respects replyMessage 0 roomyDst 0 12 :=
  (@copied_within_iff replyMessage 0 0 12 1024 (by decide)).mpr (by
    intro itr found
    have same : tailEnd replyMessage 0 12 = some 12 := by decide +kernel
    cases same.symm.trans found
    decide +kernel) roomyDst (by decide +kernel)

theorem tail_beyond_space : reqSizeOf tightDst 0 = 20 ∧
    (messageCopyTail replyMessage 0 tightDst 0 (some 12)).2 = some 12 ∧
    (messageCopyTail replyMessage 0 tightDst 0 (some 12)).1 31 ≠ tightDst 31 ∧
    ¬ Respects replyMessage 0 tightDst 0 12 := by
  have size : reqSizeOf tightDst 0 = 20 := by decide +kernel
  have copied : (messageCopyTail replyMessage 0 tightDst 0 (some 12)).2 = some 12 := by decide +kernel
  have beyond : (messageCopyTail replyMessage 0 tightDst 0 (some 12)).1 31 ≠ tightDst 31 := by
    decide +kernel
  refine ⟨size, copied, beyond, fun respects => beyond (respects.2 ?_ 31 (by omega))⟩
  simp [copied]

end TailCopy
