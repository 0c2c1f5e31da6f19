import DistWalk.CircularWindow
import DistWalk.StorageFile

/-!
# LOAD reads the file around

`safe_read` goes back to the start of the file at its end, and remembers how much
was left to read when it did: if that much is still left at the next end, the file
is empty. So a LOAD of a file that is not empty delivers the cells of a circular
array from the position on, whatever the reads return, and one of an empty file
gives up after two reads for each piece.
-/

namespace CyclicReads

open ByteMemory Message CircularWindow StorageFile

/-- Where the next byte is read. -/
def firstByte (f : File) : Nat := if f.pos < f.size then f.pos else 0

/-- The bytes of the file from there on, around. -/
def cyclic (f : File) (n : Nat) : List UInt8 := (window f.size (firstByte f) n).map f.data

/-- The position once `n` bytes have been read around. -/
def endPos (f : File) (n : Nat) : Nat := if n = 0 then f.pos else (firstByte f + n - 1) % f.size + 1

/-- The state of a device but for its buffer and the position. -/
structure Kept (d d' : Device) : Prop where
  data : d'.file.data = d.file.data
  size : d'.file.size = d.file.size
  storageOffset : d'.storageOffset = d.storageOffset

/-- `n` bytes have been read around from where the device stood. -/
structure ReadAround (d d' : Device) (n : Nat) : Prop extends Kept d d' where
  received : d'.received = d.received ++ cyclic d.file n
  pos : d'.file.pos = endPos d.file n

theorem slice_eq_map (m : Mem) (a n : Nat) : slice m a n = (List.range' a n).map m := by
  induction n generalizing a with
  | zero => rfl
  | succ n ih =>
    rw [slice, ih, List.range'_succ, List.map_cons]

/-- Bytes that do not reach beyond the end are read in one piece. -/
theorem cyclic_straight {f : File} {n : Nat} (inside : f.pos < f.size) (short : f.pos + n ≤ f.size) :
    cyclic f n = slice f.data f.pos n := by
  rw [cyclic, firstByte, if_pos inside, window_straight short, slice_eq_map]

theorem endPos_le {f : File} {n : Nat} (nonempty : 0 < f.size) (some_read : 0 < n) :
    endPos f n ≤ f.size := by
  rw [endPos, if_neg (by omega)]
  exact Nat.mod_lt _ nonempty

/-- Without going around, the position is behind what has been read. -/
theorem endPos_straight {f : File} {n : Nat} (straight : f.pos + n ≤ f.size) : endPos f n = f.pos + n := by
  rw [endPos]
  split
  · omega
  · rw [firstByte, if_pos (by omega), Nat.mod_eq_of_lt (by omega)]
    omega

theorem firstByte_mod {f : File} (inside : f.pos ≤ f.size) : firstByte f % f.size = f.pos % f.size := by
  rw [firstByte]
  split
  · rfl
  · have last : f.pos = f.size := by omega
    rw [last, Nat.zero_mod, Nat.mod_self]

/-- The next byte behind those read around. -/
theorem firstByte_endPos {f g : File} {n : Nat} (nonempty : 0 < f.size) (same : g.size = f.size)
    (pos : g.pos = endPos f n) : firstByte g % f.size = (firstByte f + n) % f.size := by
  rcases Nat.eq_zero_or_pos n with rfl | some_read
  · have unmoved : firstByte g = firstByte f := by
      simp only [firstByte, same, pos, endPos, if_true]
    rw [unmoved, Nat.add_zero]
  · have inside : g.pos ≤ g.size := by
      rw [pos, same]
      exact endPos_le nonempty some_read
    have step : firstByte f + n - 1 + 1 = firstByte f + n := by omega
    rw [← same, firstByte_mod inside, same, pos, endPos, if_neg (by omega), Nat.mod_add_mod, step]

theorem cyclic_add {f g : File} {n m : Nat} (nonempty : 0 < f.size) (data : g.data = f.data)
    (size : g.size = f.size) (pos : g.pos = endPos f n) :
    cyclic f (n + m) = cyclic f n ++ cyclic g m := by
  have next : window f.size (firstByte f + n) m = window f.size (firstByte g) m := by
    rw [← window_mod, ← firstByte_endPos nonempty size pos, window_mod]
  rw [cyclic, window_add, List.map_append, next, cyclic, cyclic, data, size]

theorem endPos_add {f g : File} {n m : Nat} (nonempty : 0 < f.size) (size : g.size = f.size)
    (pos : g.pos = endPos f n) : endPos f (n + m) = endPos g m := by
  rcases Nat.eq_zero_or_pos m with rfl | some_read
  · rw [Nat.add_zero, ← pos, endPos, if_pos rfl]
  · have congruent : (firstByte f + n) + (m - 1) ≡ firstByte g + (m - 1) [MOD f.size] :=
      Nat.ModEq.add_right _ (firstByte_endPos nonempty size pos).symm
    have left : firstByte f + (n + m) - 1 = firstByte f + n + (m - 1) := by omega
    have right : firstByte g + m - 1 = firstByte g + (m - 1) := by omega
    rw [endPos, endPos, if_neg (by omega), if_neg (by omega), left, right, size]
    exact congrArg (· + 1) congruent

theorem ReadAround.trans {d e d' : Device} {n m : Nat} (nonempty : 0 < d.file.size)
    (first : ReadAround d e n) (second : ReadAround e d' m) : ReadAround d d' (n + m) where
  data := second.data.trans first.data
  size := second.size.trans first.size
  storageOffset := second.storageOffset.trans first.storageOffset
  received := by
    rw [second.received, first.received, List.append_assoc,
      cyclic_add nonempty first.data first.size first.pos]
  pos := by
    rw [second.pos, endPos_add nonempty first.size first.pos]

/-! ## One piece -/

theorem readable_le (f : File) (len r : Nat) : f.readable len r ≤ len := by
  rw [File.readable]
  split <;> omega

theorem readable_pos {f : File} (inside : f.pos < f.size) {len : Nat} (some_left : 0 < len) (r : Nat) :
    0 < f.readable len r ∧ f.pos + f.readable len r ≤ f.size := by
  rw [File.readable, if_neg (by omega)]
  omega

theorem readable_end {f : File} (behind : f.size ≤ f.pos) (len r : Nat) : f.readable len r = 0 := by
  rw [File.readable, if_pos behind]

/-- A read before the end reads around as much as it returns. -/
theorem readCall_inside {io : Schedule} {d e : Device} {b len received : Nat}
    (h : readCall io d b len = some (received, e)) (inside : d.file.pos < d.file.size)
    (some_left : 0 < len) : 0 < received ∧ received ≤ len ∧ ReadAround d e received := by
  simp only [readCall] at h
  cases outcome : io d.calls with
  | none =>
    simp only [outcome] at h
    cases h
  | some r =>
    simp only [outcome, Option.some.injEq, Prod.mk.injEq] at h
    obtain ⟨rfl, rfl⟩ := h
    obtain ⟨positive, short⟩ := readable_pos inside some_left r
    refine ⟨positive, readable_le _ len r, ⟨rfl, rfl, rfl⟩, ?_, ?_⟩
    · rw [cyclic_straight inside short]
    · rw [endPos, if_neg (by omega), firstByte, if_pos inside, Nat.mod_eq_of_lt (by omega)]
      simp only [File.afterRead]
      omega

/-- A read at the end returns nothing and leaves the position. -/
theorem readCall_end {io : Schedule} {d e : Device} {b len received : Nat}
    (h : readCall io d b len = some (received, e)) (behind : d.file.size ≤ d.file.pos) :
    received = 0 ∧ Kept d e ∧ e.received = d.received ∧ e.calls = d.calls + 1 ∧
      e.file.pos = d.file.pos := by
  simp only [readCall] at h
  cases outcome : io d.calls with
  | none =>
    simp only [outcome] at h
    cases h
  | some r =>
    simp only [outcome, Option.some.injEq, Prod.mk.injEq] at h
    obtain ⟨rfl, rfl⟩ := h
    have nothing := readable_end behind len r
    refine ⟨nothing, ⟨rfl, rfl, rfl⟩, ?_, rfl, ?_⟩
    · simp only [nothing, slice, List.append_nil]
    · simp only [File.afterRead, nothing, Nat.add_zero]

theorem readCall_none {io : Schedule} {d : Device} {b len : Nat} (h : readCall io d b len = none) :
    io d.calls = none := by
  simp only [readCall] at h
  cases outcome : io d.calls with
  | none => rfl
  | some r =>
    simp only [outcome] at h
    cases h

/-- Reading on from the start is reading around from the end. -/
theorem ReadAround.of_rewound {d e d' : Device} {n : Nat} (kept : Kept d e)
    (received : e.received = d.received) (behind : d.file.size ≤ d.file.pos) (some_left : 0 < n)
    (h : ReadAround e.rewind d' n) : ReadAround d d' n := by
  have start : firstByte e.rewind.file = firstByte d.file := by
    rw [firstByte, firstByte, if_neg (not_lt.mpr behind)]
    split <;> rfl
  have data : e.rewind.file.data = d.file.data := kept.data
  have size : e.rewind.file.size = d.file.size := kept.size
  refine ⟨⟨h.data.trans data, h.size.trans size, h.storageOffset.trans kept.storageOffset⟩, ?_, ?_⟩
  · rw [h.received, cyclic, cyclic, start, data, size]
    exact congrArg (· ++ _) received
  · rw [h.pos, endPos, endPos, start, size, if_neg (by omega), if_neg (by omega)]

/-- `safe_read` on a file that is not empty: `lenOnLastSeek` is larger than what is left,
unless it has not been set or nothing has been read since it was. -/
theorem safeRead_around (io : Schedule) {fuel : Nat} {d : Device} {b len last : Nat}
    (nonempty : 0 < d.file.size)
    (remembered : last = 0 ∨ len < last ∨ last = len ∧ d.file.pos < d.file.size) :
    Ends io.Fails (fuel ≤ 2 * len + if d.file.pos < d.file.size then 0 else 1)
      (fun d' => ReadAround d d' len) (safeRead io fuel d b len last) := by
  induction fuel generalizing d b len last with
  | zero => exact .fuel (Nat.zero_le _)
  | succ fuel ih =>
    rw [safeRead]
    by_cases done : len = 0
    · subst done
      rw [if_pos rfl]
      refine .done ⟨⟨rfl, rfl, rfl⟩, ?_, ?_⟩
      · simp [cyclic]
      · rw [endPos, if_pos rfl]
    · rw [if_neg done]
      have some_left : 0 < len := Nat.pos_of_ne_zero done
      cases read : readCall io d b len with
      | none => exact .exit ⟨_, readCall_none read⟩
      | some r =>
        obtain ⟨received, e⟩ := r
        rcases lt_or_ge d.file.pos d.file.size with inside | behind
        · -- something is read, so less is left than was remembered
          obtain ⟨positive, le, around⟩ := readCall_inside read inside some_left
          simp only [if_neg (Nat.ne_of_gt positive)]
          refine Ends.imp id (fun low => ?_) (fun d' rest => ?_)
            (ih (by rw [around.size]; exact nonempty) (by omega))
          · rw [if_pos inside]
            split at low <;> omega
          · have whole := ReadAround.trans nonempty around rest
            rwa [Nat.add_sub_cancel' le] at whole
        · -- the end: what was remembered is not what is left
          obtain ⟨rfl, kept, same, -, -⟩ := readCall_end read behind
          have fresh : ¬ (last > 0 ∧ last = len) := by omega
          simp only [if_true, if_neg fresh]
          have inside : e.rewind.file.pos < e.rewind.file.size := by
            have size : e.rewind.file.size = d.file.size := kept.size
            rw [size]
            exact nonempty
          refine Ends.imp id (fun low => ?_) (fun d' rest => ?_)
            (ih (d := e.rewind) (lt_of_le_of_lt (Nat.zero_le _) inside) (Or.inr (Or.inr ⟨rfl, inside⟩)))
          · rw [if_pos inside] at low
            rw [if_neg (by omega)]
            omega
          · exact rest.of_rewound kept same behind some_left

/-- At most `n` reads have returned nothing. -/
structure ReadNothing (d d' : Device) (n : Nat) : Prop extends Kept d d' where
  received : d'.received = d.received
  calls : d'.calls ≤ d.calls + n

theorem ReadNothing.trans {d e d' : Device} {n m : Nat} (first : ReadNothing d e n)
    (second : ReadNothing e d' m) : ReadNothing d d' (n + m) where
  data := second.data.trans first.data
  size := second.size.trans first.size
  storageOffset := second.storageOffset.trans first.storageOffset
  received := second.received.trans first.received
  calls := by
    have := first.calls
    have := second.calls
    omega

/-- On an empty file the second read finds as much left as was remembered. -/
theorem safeRead_empty (io : Schedule) {fuel : Nat} {d : Device} {b len : Nat} (empty : d.file.size = 0)
    (some_left : 0 < len) : Ends io.Fails (fuel ≤ 1)
      (fun d' => ReadNothing d d' 2 ∧ d'.file.pos = 0) (safeRead io fuel d b len 0) := by
  have unread : len ≠ 0 := Nat.ne_of_gt some_left
  cases fuel with
  | zero => exact .fuel (Nat.zero_le 1)
  | succ fuel =>
    rw [safeRead, if_neg unread]
    cases first : readCall io d b len with
    | none => exact .exit ⟨_, readCall_none first⟩
    | some r =>
      obtain ⟨received, e⟩ := r
      obtain ⟨rfl, kept, same, calls, -⟩ := readCall_end first (by omega)
      simp only [if_true, lt_irrefl, false_and, if_false]
      cases fuel with
      | zero => exact .fuel (le_refl 1)
      | succ fuel =>
        have still : e.rewind.file.size = 0 := kept.size.trans empty
        have broken : len > 0 ∧ len = len := ⟨some_left, rfl⟩
        rw [safeRead, if_neg unread]
        cases second : readCall io e.rewind b len with
        | none => exact .exit ⟨_, readCall_none second⟩
        | some r =>
          obtain ⟨received, e'⟩ := r
          obtain ⟨rfl, kept', same', calls', pos⟩ :=
            readCall_end second (by rw [still]; exact Nat.zero_le _)
          dsimp only
          rw [if_pos rfl, if_pos broken]
          refine .done ⟨⟨⟨kept'.data.trans kept.data, kept'.size.trans kept.size,
            kept'.storageOffset.trans kept.storageOffset⟩, same'.trans same, ?_⟩, pos⟩
          have kept_calls : e.rewind.calls = e.calls := rfl
          omega

/-! ## The whole LOAD -/

theorem nextPiece_bounds {left : Nat} (some_left : left ≠ 0) :
    0 < nextPiece left ∧ nextPiece left ≤ left ∧ nextPiece left ≤ bufSize := by
  have buf : bufSize = 16777216 := rfl
  simp only [nextPiece]
  split <;> omega

/-- What the pieces do, one behind the other, while `I` holds. -/
theorem loadChunks_ends (io : Schedule) (fuel : Nat) {I : Device → Prop}
    {P : Device → Device → Nat → Prop} (nothing : ∀ d, P d d 0)
    (piece : ∀ d len, I d → 0 < len → len ≤ bufSize →
      Ends io.Fails (fuel ≤ 2 * len + 1) (fun e => I e ∧ P d e len) (safeRead io fuel d 0 len 0))
    (compose : ∀ d e d' left, I d → left ≠ 0 → P d e (nextPiece left) → P e d' (left - nextPiece left) →
      P d d' left) {turns left : Nat} {d : Device} (inv : I d) :
    Ends io.Fails (turns ≤ left ∨ fuel ≤ 2 * left + 1) (fun d' => P d d' left)
      (loadChunks io fuel turns d left) := by
  induction turns generalizing d left with
  | zero => exact .fuel (Or.inl (Nat.zero_le _))
  | succ turns ih =>
    rw [loadChunks]
    by_cases done : left = 0
    · subst done
      rw [if_pos rfl]
      exact .done (nothing d)
    · rw [if_neg done]
      obtain ⟨positive, le, small⟩ := nextPiece_bounds done
      have first := piece d (nextPiece left) inv positive small
      dsimp only
      cases read : safeRead io fuel d 0 (nextPiece left) 0 with
      | error e =>
        rw [read] at first
        cases first with
        | exit failed => exact .exit failed
        | fuel low => exact .fuel (Or.inr (by omega))
      | ok e =>
        obtain ⟨inv', first⟩ := first.of_ok read
        dsimp only
        rw [if_neg (Nat.ne_of_gt positive)]
        refine Ends.imp id (fun low => ?_) (fun d' rest => ?_) (ih inv')
        · omega
        · exact compose d e d' left inv done first rest

theorem loadChunks_around (io : Schedule) (fuel : Nat) {turns left : Nat} {d : Device}
    (nonempty : 0 < d.file.size) : Ends io.Fails (turns ≤ left ∨ fuel ≤ 2 * left + 1)
      (fun d' => ReadAround d d' left) (loadChunks io fuel turns d left) := by
  refine loadChunks_ends io fuel (I := fun d => 0 < d.file.size) (P := ReadAround) ?_ ?_ ?_ nonempty
  · intro d
    refine ⟨⟨rfl, rfl, rfl⟩, ?_, ?_⟩
    · simp [cyclic]
    · rw [endPos, if_pos rfl]
  · intro d len nonempty positive _
    refine Ends.imp id (fun low => ?_) (fun e around => ?_) (safeRead_around io nonempty (Or.inl rfl))
    · split at low <;> omega
    · exact ⟨by rw [around.size]; exact nonempty, around⟩
  · intro d e d' left nonempty some_left first rest
    have whole := ReadAround.trans nonempty first rest
    rwa [Nat.add_sub_cancel' (nextPiece_bounds some_left).2.1] at whole

/-- The pieces of a transfer. -/
def pieces (n : Nat) : Nat := (n + bufSize - 1) / bufSize

theorem pieces_next (left : Nat) :
    pieces left = pieces (nextPiece left) + pieces (left - nextPiece left) := by
  have buf : bufSize = 16777216 := rfl
  simp only [pieces, nextPiece, buf]
  split <;> omega

theorem pieces_one {len : Nat} (positive : 0 < len) (small : len ≤ bufSize) : pieces len = 1 := by
  have buf : bufSize = 16777216 := rfl
  simp only [pieces, buf] at small ⊢
  omega

/-- What is left of an empty file when `n` bytes should have been read. -/
structure GaveUp (d d' : Device) (n : Nat) : Prop extends ReadNothing d d' (2 * pieces n) where
  pos : d'.file.pos = if n = 0 then d.file.pos else 0

theorem loadChunks_empty (io : Schedule) (fuel : Nat) {turns left : Nat} {d : Device}
    (empty : d.file.size = 0) : Ends io.Fails (turns ≤ left ∨ fuel ≤ 2 * left + 1)
      (fun d' => GaveUp d d' left) (loadChunks io fuel turns d left) := by
  refine loadChunks_ends io fuel (I := fun d => d.file.size = 0) (P := GaveUp) ?_ ?_ ?_ empty
  · intro d
    exact ⟨⟨⟨rfl, rfl, rfl⟩, rfl, Nat.le_add_right _ _⟩, rfl⟩
  · intro d len empty positive small
    refine Ends.imp id (fun low => ?_) (fun e ended => ?_) (safeRead_empty io empty positive)
    · omega
    · obtain ⟨nothing, start⟩ := ended
      refine ⟨nothing.size.trans empty, ⟨?_, ?_⟩⟩
      · rw [pieces_one positive small]
        exact nothing
      · rw [if_neg (Nat.ne_of_gt positive), start]
  · intro d e d' left _ some_left first rest
    obtain ⟨positive, -, -⟩ := nextPiece_bounds some_left
    refine ⟨?_, ?_⟩
    · rw [pieces_next left, Nat.mul_add]
      exact ReadNothing.trans first.toReadNothing rest.toReadNothing
    · rw [rest.pos, first.pos, if_neg (Nat.ne_of_gt positive), ite_self, if_neg some_left]

/-- A LOAD ends. It has read all its bytes, around from the first one in the file, or it
has given up on an empty file after two reads for each piece. -/
theorem load_reads_around {io : Schedule} (works : ¬ io.Fails) (d : Device)
    (nbytes offset : UInt64) {fuel : Nat} (enough : 2 * nbytes.toNat + 2 ≤ fuel) :
    ∃ d', loadData io fuel d nbytes offset = .ok d' ∧
      (0 < d.file.size → d'.received =
        d.received ++ cyclic (positionLoad d offset.toUInt32).file nbytes.toNat) ∧
      (d.file.size = 0 → d'.received = d.received ∧ d'.calls ≤ d.calls + 2 * pieces nbytes.toNat) := by
  have low : ¬ (fuel ≤ nbytes.toNat ∨ fuel ≤ 2 * nbytes.toNat + 1) := by omega
  have size := positionLoad_size d offset.toUInt32
  rw [loadData]
  rcases Nat.eq_zero_or_pos d.file.size with empty | nonempty
  · obtain ⟨e, loaded, nothing⟩ := (loadChunks_empty io fuel (size.trans empty)).exists_ok works low
    rw [loaded]
    refine ⟨_, rfl, fun nonempty => absurd empty (Nat.ne_of_gt nonempty), fun _ => ⟨?_, ?_⟩⟩
    · exact nothing.received.trans (positionLoad_received d _)
    · have calls := nothing.calls
      rwa [positionLoad_calls] at calls
  · obtain ⟨e, loaded, around⟩ :=
      (loadChunks_around io fuel (by rw [size]; exact nonempty)).exists_ok works low
    rw [loaded]
    refine ⟨_, rfl, fun _ => ?_, fun empty => absurd empty (Nat.ne_of_gt nonempty)⟩
    have received := around.received
    rwa [positionLoad_received] at received

/-- A device whose file holds three bytes, at the last of them. -/
def threeBytes : Device :=
  { Device.init (fun _ => 0) with
    file := ((File.blank 0 (Nat.zero_le _)).write [1, 2, 3] (by decide)).seek 2 }

theorem load_reads_around_wraps :
    ∃ d', loadData (fun _ => some 2) 12 threeBytes 5 0xFFFFFFFFFFFFFFFF = .ok d' ∧
      d'.received = [3, 1, 2, 3, 1] := by
  have works : ¬ Schedule.Fails fun _ => some 2 := by
    rintro ⟨_, fails⟩
    cases fails
  have enough : 2 * (5 : UInt64).toNat + 2 ≤ 12 := by decide
  obtain ⟨d', loaded, around, -⟩ := load_reads_around works threeBytes 5 0xFFFFFFFFFFFFFFFF enough
  exact ⟨d', loaded, around (by decide)⟩

end CyclicReads
