import DistWalk.Walkers

/-!
# Decoding a message

The commands of a message as its receiver walks them, one after the other up to
EOM and never past the end of the message.
-/

namespace Decoding

open ByteMemory Message Walkers

/-- The commands from `cmd` up to EOM; `none` if the message ends before EOM. -/
def walk (mem : Mem) (msgEnd : Nat) : Nat → Nat → Option (List Nat)
  | 0, _ => none
  | fuel + 1, cmd =>
    if cmdInBounds mem cmd msgEnd = false then none
    else if cmdAt mem cmd = .eom then some []
    else (walk mem msgEnd fuel (cmd + cmdTypeSize (cmdAt mem cmd))).map (cmd :: ·)

/-- The commands of the message at `m`. -/
def decode (mem : Mem) (m : Nat) : Option (List Nat) :=
  walk mem (messageEnd mem m) (messageEnd mem m + 1) (messageFirstCmd m)

theorem walk_eom {mem : Mem} {msgEnd fuel cmd : Nat} (inside : cmd + 4 ≤ msgEnd)
    (eom : cmdAt mem cmd = .eom) : walk mem msgEnd (fuel + 1) cmd = some [] := by
  have bounds : cmdInBounds mem cmd msgEnd = true := by
    rw [cmdInBounds_iff, eom]
    exact inside
  simp [walk, bounds, eom]

theorem walk_cons {mem : Mem} {msgEnd fuel cmd : Nat} {rest : List Nat}
    (bounds : cmdInBounds mem cmd msgEnd = true) (other : cmdAt mem cmd ≠ .eom)
    (h : walk mem msgEnd fuel (cmd + cmdTypeSize (cmdAt mem cmd)) = some rest) :
    walk mem msgEnd (fuel + 1) cmd = some (cmd :: rest) := by
  simp [walk, bounds, other, h]

theorem walk_more {mem : Mem} {msgEnd fuel fuel' cmd : Nat} {cmds : List Nat}
    (h : walk mem msgEnd fuel cmd = some cmds) (le : fuel ≤ fuel') :
    walk mem msgEnd fuel' cmd = some cmds := by
  induction fuel generalizing fuel' cmd cmds with
  | zero => cases h
  | succ fuel ih =>
    obtain ⟨more, rfl⟩ := Nat.exists_eq_add_of_lt (show fuel < fuel' by omega)
    simp only [walk] at h ⊢
    split at h
    · cases h
    · rename_i bounds
      rw [if_neg bounds]
      split at h
      · rename_i eom
        rw [if_pos eom]
        exact h
      · rename_i other
        rw [if_neg other]
        obtain ⟨rest, walked, e⟩ := Option.map_eq_some_iff.mp h
        rw [ih walked (by omega)]
        exact congrArg some e

/-- The distance to the end of the message is enough. -/
theorem walk_enough {mem : Mem} {msgEnd fuel fuel' cmd : Nat} {cmds : List Nat}
    (h : walk mem msgEnd fuel cmd = some cmds) (enough : msgEnd - cmd < fuel') :
    walk mem msgEnd fuel' cmd = some cmds := by
  induction fuel generalizing fuel' cmd cmds with
  | zero => cases h
  | succ fuel ih =>
    obtain ⟨more, rfl⟩ := Nat.exists_eq_succ_of_ne_zero (show fuel' ≠ 0 by omega)
    simp only [walk] at h ⊢
    split at h
    · cases h
    · rename_i bounds
      rw [if_neg bounds]
      have fits := cmdInBounds_iff.mp (Bool.not_eq_false _ ▸ bounds)
      have size := four_le_cmdTypeSize (cmdAt mem cmd)
      split at h
      · rename_i eom
        rw [if_pos eom]
        exact h
      · rename_i other
        rw [if_neg other]
        obtain ⟨rest, walked, e⟩ := Option.map_eq_some_iff.mp h
        rw [ih walked (by omega)]
        exact congrArg some e

/-! ## How the commands lie in the message -/

/-- The commands lie one right behind the other, the last one up to `e`. -/
def Laid (mem : Mem) (e : Nat) : List Nat → Prop
  | [] => True
  | x :: l => x + cmdTypeSize (cmdAt mem x) = l.headD e ∧ Laid mem e l

/-- The bytes of a command. -/
def cmdBytes (mem : Mem) (cmd : Nat) : List UInt8 := slice mem cmd (cmdTypeSize (cmdAt mem cmd))

/-- The bytes that commands take together. -/
def bytesOf (mem : Mem) (cmds : List Nat) : List UInt8 := (cmds.map (cmdBytes mem)).flatten

theorem bytesOf_cons (mem : Mem) (x : Nat) (l : List Nat) :
    bytesOf mem (x :: l) = cmdBytes mem x ++ bytesOf mem l := rfl

/-- A message that is walked up to an EOM at `e`. -/
structure Layout (mem : Mem) (msgEnd e : Nat) (cmds : List Nat) : Prop where
  laid : Laid mem e cmds
  commands : ∀ x ∈ cmds, cmdAt mem x ≠ .eom
  eom : cmdAt mem e = .eom
  inside : e + 4 ≤ msgEnd

section Laid

variable {mem : Mem} {e : Nat}

theorem Laid.append {a b : List Nat} (h : Laid mem e (a ++ b)) :
    Laid mem (b.headD e) a ∧ Laid mem e b := by
  induction a with
  | nil => exact ⟨trivial, h⟩
  | cons x a ih =>
    obtain ⟨place, rest⟩ := h
    obtain ⟨front, back⟩ := ih rest
    refine ⟨⟨place.trans ?_, front⟩, back⟩
    cases a with
    | nil => cases b <;> rfl
    | cons y a => rfl

/-- From the first command to `e` are the bytes of the commands. -/
theorem Laid.bytes {l : List Nat} (h : Laid mem e l) :
    l.headD e + (bytesOf mem l).length = e ∧
      slice mem (l.headD e) (bytesOf mem l).length = bytesOf mem l := by
  induction l with
  | nil => exact ⟨rfl, rfl⟩
  | cons x l ih =>
    obtain ⟨place, rest⟩ := h
    obtain ⟨length, bytes⟩ := ih rest
    have size : (cmdBytes mem x).length = cmdTypeSize (cmdAt mem x) := length_slice _ _ _
    rw [bytesOf_cons, List.length_append, List.headD_cons, size]
    refine ⟨by omega, ?_⟩
    rw [slice_add, place, bytes]
    rfl

theorem length_le_bytesOf (mem : Mem) (l : List Nat) : l.length ≤ (bytesOf mem l).length := by
  induction l with
  | nil => exact Nat.zero_le _
  | cons x l ih =>
    have size : (cmdBytes mem x).length = cmdTypeSize (cmdAt mem x) := length_slice _ _ _
    have four := four_le_cmdTypeSize (cmdAt mem x)
    rw [bytesOf_cons, List.length_append, List.length_cons]
    omega

theorem Laid.le {l : List Nat} (h : Laid mem e l) : l.headD e ≤ e := by
  have := h.bytes.1
  omega

/-- Commands copied to another place are laid there as they were. -/
theorem Laid.copied {l : List Nat} (h : Laid mem e l) {rx : Mem} {q : Nat}
    (same : ∀ i, i < (bytesOf mem l).length → rx (q + i) = mem (l.headD e + i)) :
    ∃ cmds, Laid rx (q + (bytesOf mem l).length) cmds ∧
      cmds.headD (q + (bytesOf mem l).length) = q ∧
      cmds.map (cmdAt rx) = l.map (cmdAt mem) ∧ cmds.map (cmdBytes rx) = l.map (cmdBytes mem) := by
  induction l generalizing q with
  | nil => exact ⟨[], trivial, rfl, rfl, rfl⟩
  | cons x l ih =>
    obtain ⟨place, rest⟩ := h
    have size : (cmdBytes mem x).length = cmdTypeSize (cmdAt mem x) := length_slice _ _ _
    have four := four_le_cmdTypeSize (cmdAt mem x)
    rw [bytesOf_cons, List.length_append, List.headD_cons, size] at same
    have type : cmdAt rx q = cmdAt mem x :=
      congrArg CommandType.ofCode (u32_congr fun i hi => same i (by omega))
    have bytes : cmdBytes rx q = cmdBytes mem x := by
      rw [cmdBytes, type]
      exact slice_congr fun i hi => same i (by omega)
    obtain ⟨cmds, laid, head, types, copies⟩ := ih rest
      (q := q + cmdTypeSize (cmdAt mem x)) fun i hi => by
        have at_i := same (cmdTypeSize (cmdAt mem x) + i) (by omega)
        rw [← Nat.add_assoc, ← Nat.add_assoc, place] at at_i
        exact at_i
    have total : q + (bytesOf mem (x :: l)).length =
        q + cmdTypeSize (cmdAt mem x) + (bytesOf mem l).length := by
      rw [bytesOf_cons, List.length_append, size]
      omega
    rw [total]
    exact ⟨q :: cmds, ⟨by rw [type, head], laid⟩, rfl, by rw [List.map_cons, type, types]; rfl,
      by rw [List.map_cons, bytes, copies]; rfl⟩

end Laid

theorem walk_layout {mem : Mem} {msgEnd fuel cmd : Nat} {cmds : List Nat}
    (h : walk mem msgEnd fuel cmd = some cmds) :
    ∃ e, Layout mem msgEnd e cmds ∧ cmds.headD e = cmd := by
  induction fuel generalizing cmd cmds with
  | zero => cases h
  | succ fuel ih =>
    simp only [walk] at h
    split at h
    · cases h
    · rename_i bounds
      have fits := cmdInBounds_iff.mp (Bool.not_eq_false _ ▸ bounds)
      split at h
      · rename_i eom
        cases h
        rw [eom] at fits
        exact ⟨cmd, ⟨trivial, by simp, eom, fits⟩, rfl⟩
      · rename_i other
        obtain ⟨rest, walked, rfl⟩ := Option.map_eq_some_iff.mp h
        obtain ⟨e, layout, place⟩ := ih walked
        refine ⟨e, ⟨⟨place.symm, layout.laid⟩, ?_, layout.eom, layout.inside⟩, rfl⟩
        intro x hx
        rcases List.mem_cons.mp hx with rfl | hx
        · exact other
        · exact layout.commands x hx

theorem Layout.tail {mem : Mem} {msgEnd e : Nat} {a b : List Nat} (h : Layout mem msgEnd e (a ++ b)) :
    Layout mem msgEnd e b :=
  ⟨h.laid.append.2, fun x hx => h.commands x (by simp [hx]), h.eom, h.inside⟩

theorem Layout.rest {mem : Mem} {msgEnd e x : Nat} {l : List Nat} (h : Layout mem msgEnd e (x :: l)) :
    Layout mem msgEnd e l := Layout.tail (a := [x]) h

section Layout

variable {mem : Mem} {msgEnd e : Nat}

theorem Layout.inBounds {l : List Nat} (h : Layout mem msgEnd e l) :
    cmdInBounds mem (l.headD e) msgEnd = true := by
  rw [cmdInBounds_iff]
  have inside := h.inside
  cases l with
  | nil =>
    rw [List.headD_nil, h.eom]
    exact inside
  | cons x l =>
    obtain ⟨place, rest⟩ := h.laid
    have below := rest.le
    rw [List.headD_cons]
    omega

theorem Layout.next {x : Nat} {l : List Nat} (h : Layout mem msgEnd e (x :: l)) :
    cmdBoundedNext mem x msgEnd = some (l.headD e) := by
  have inside := h.rest.inBounds
  simp only [cmdBoundedNext, h.laid.1, inside, if_true]

theorem Layout.head_ne_eom {l : List Nat} (h : Layout mem msgEnd e l) (nonempty : l ≠ []) :
    cmdAt mem (l.headD e) ≠ .eom := by
  obtain ⟨x, l, rfl⟩ := List.exists_cons_of_ne_nil nonempty
  exact h.commands x (by simp)

end Layout

theorem Layout.walked {mem : Mem} {msgEnd e fuel : Nat} {cmds : List Nat}
    (h : Layout mem msgEnd e cmds) (enough : cmds.length < fuel) :
    walk mem msgEnd fuel (cmds.headD e) = some cmds := by
  induction cmds generalizing fuel with
  | nil =>
    obtain ⟨more, rfl⟩ := Nat.exists_eq_add_of_lt enough
    exact walk_eom h.inside h.eom
  | cons x cmds ih =>
    obtain ⟨more, rfl⟩ : ∃ more, fuel = more + 1 := ⟨fuel - 1, by simp at enough; omega⟩
    obtain ⟨place, rest⟩ := h.laid
    have below := rest.le
    rw [List.headD_cons]
    refine walk_cons ?_ (h.commands x (by simp)) ?_
    · rw [cmdInBounds_iff]
      have := h.inside
      omega
    · rw [place]
      exact ih h.rest (by simp at enough; omega)

end Decoding
