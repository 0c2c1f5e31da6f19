import DistWalk.CyclicReads

/-!
# Where STORE writes

A STORE should write where its offset says, or behind the operation before it, and
the offset that the device keeps should follow the position in the file. Three
things break this: the 64 bits of the offset are cut to 32, of which one value
means that none is given; with O_DIRECT that value is rounded up to blocks like
any other; and a LOAD that goes around the end adds its length all the same.
-/

namespace StoragePlacement

open ByteMemory Message StorageFile CyclicReads

/-! ## What is written -/

/-- The `n` bytes `byte 0`, `byte 1` and so on have been written. -/
structure Wrote (d d' : Device) (n : Nat) (byte : Nat → UInt8) : Prop where
  data : ∀ i, d'.file.data i =
    if d.file.pos ≤ i ∧ i < d.file.pos + n then byte (i - d.file.pos) else d.file.data i
  pos : d'.file.pos = d.file.pos + n
  size : d.file.size ≤ d'.file.size
  buf : d'.buf = d.buf
  storageOffset : d'.storageOffset = d.storageOffset

theorem Wrote.nothing (d : Device) (byte : Nat → UInt8) : Wrote d d 0 byte where
  data := by
    intro i
    rw [if_neg (by omega)]
  pos := rfl
  size := le_refl _
  buf := rfl
  storageOffset := rfl

theorem Wrote.trans {d e d' : Device} {n m : Nat} {byte : Nat → UInt8} (first : Wrote d e n byte)
    (second : Wrote e d' m fun k => byte (n + k)) : Wrote d d' (n + m) byte where
  data := by
    intro i
    rw [second.data, first.data, first.pos]
    by_cases early : i < d.file.pos + n
    · rw [if_neg (by omega)]
      by_cases inside : d.file.pos ≤ i
      · rw [if_pos ⟨inside, early⟩, if_pos (by omega)]
      · rw [if_neg (by omega), if_neg (by omega)]
    · by_cases late : i < d.file.pos + n + m
      · have shifted : n + (i - (d.file.pos + n)) = i - d.file.pos := by omega
        rw [if_pos (by omega), if_pos (by omega), shifted]
      · rw [if_neg (by omega), if_neg (by omega), if_neg (by omega)]
  pos := by
    rw [second.pos, first.pos, Nat.add_assoc]
  size := first.size.trans second.size
  buf := second.buf.trans first.buf
  storageOffset := second.storageOffset.trans first.storageOffset

theorem Wrote.congr {d d' : Device} {n : Nat} {byte byte' : Nat → UInt8} (h : Wrote d d' n byte)
    (same : ∀ k, k < n → byte k = byte' k) : Wrote d d' n byte' where
  data := by
    intro i
    rw [h.data]
    by_cases inside : d.file.pos ≤ i ∧ i < d.file.pos + n
    · rw [if_pos inside, if_pos inside, same _ (by omega)]
    · rw [if_neg inside, if_neg inside]
  pos := h.pos
  size := h.size
  buf := h.buf
  storageOffset := h.storageOffset

theorem slice_getD (m : Mem) (a n k : Nat) (h : k < n) : (slice m a n).getD k 0 = m (a + k) := by
  have inside : k < (slice m a n).length := by rwa [length_slice]
  rw [List.getD_eq_getElem _ _ inside, getElem_slice]

theorem writeCall_wrote {io : Schedule} {d e : Device} {b len written : Nat} (some_left : 0 < len)
    (h : writeCall io d b len = some (written, e)) :
    0 < written ∧ written ≤ len ∧ Wrote d e written fun k => d.buf (b + k) := by
  simp only [writeCall] at h
  cases outcome : io d.calls with
  | none =>
    simp only [outcome] at h
    cases h
  | some r =>
    simp only [outcome] at h
    split at h
    · cases h
    · rename_i below
      simp only [Option.some.injEq, Prod.mk.injEq] at h
      obtain ⟨rfl, rfl⟩ := h
      have placed := d.file.placed
      refine ⟨?_, ?_, ⟨?_, ?_, le_max_left _ _, rfl, rfl⟩⟩
      · rw [File.writable]
        omega
      · rw [File.writable]
        omega
      · intro i
        simp only [File.write, store, length_slice]
        by_cases inside : d.file.pos ≤ i ∧ i < d.file.pos + d.file.writable len r
        · rw [if_pos inside, if_pos inside, slice_getD _ _ _ _ (by omega)]
        · rw [if_neg inside, if_neg inside]
      · simp only [File.write, length_slice]

theorem writeCall_none {io : Schedule} {d : Device} {b len : Nat} (h : writeCall io d b len = none) :
    io.Fails ∨ d.file.pos = maxOffset := by
  simp only [writeCall] at h
  cases outcome : io d.calls with
  | none => exact Or.inl ⟨_, outcome⟩
  | some r =>
    simp only [outcome] at h
    split at h
    · rename_i full
      exact Or.inr full
    · cases h

/-- `safe_write` fails only on a failed call, or where the file can grow no more. -/
theorem safeWrite_wrote (io : Schedule) {fuel : Nat} {d : Device} {b len : Nat} :
    Ends (io.Fails ∨ maxOffset < d.file.pos + len) (fuel ≤ len)
      (fun d' => Wrote d d' len fun k => d.buf (b + k)) (safeWrite io fuel d b len) := by
  induction fuel generalizing d b len with
  | zero => exact .fuel (Nat.zero_le _)
  | succ fuel ih =>
    rw [safeWrite]
    by_cases done : len = 0
    · subst done
      rw [if_pos rfl]
      exact .done (Wrote.nothing d _)
    · rw [if_neg done]
      have some_left : 0 < len := Nat.pos_of_ne_zero done
      cases call : writeCall io d b len with
      | none =>
        refine .exit ((writeCall_none call).imp_right fun full => ?_)
        omega
      | some r =>
        obtain ⟨written, e⟩ := r
        obtain ⟨positive, le, wrote⟩ := writeCall_wrote some_left call
        dsimp only
        refine Ends.imp (fun fails => ?_) (fun low => ?_) (fun d' rest => ?_) ih
        · have pos := wrote.pos
          refine fails.imp_right fun full => ?_
          omega
        · omega
        · have behind : Wrote e d' (len - written) fun k => d.buf (b + (written + k)) := by
            refine rest.congr fun k _ => ?_
            rw [wrote.buf, Nat.add_assoc]
          have whole := Wrote.trans wrote behind
          rwa [Nat.add_sub_cancel' le] at whole

/-- A transfer of several pieces repeats the buffer. -/
theorem storeChunks_wrote (io : Schedule) (fuel : Nat) {turns left : Nat} {d : Device} :
    Ends (io.Fails ∨ maxOffset < d.file.pos + left) (turns ≤ left ∨ fuel ≤ left)
      (fun d' => Wrote d d' left fun k => d.buf (k % bufSize)) (storeChunks io fuel turns d left) := by
  have capacity : 0 < bufSize := by decide
  induction turns generalizing d left with
  | zero => exact .fuel (Or.inl (Nat.zero_le _))
  | succ turns ih =>
    rw [storeChunks]
    by_cases done : left = 0
    · subst done
      rw [if_pos rfl]
      exact .done (Wrote.nothing d _)
    · rw [if_neg done]
      obtain ⟨positive, le, small⟩ := nextPiece_bounds done
      have first : Ends _ _ _ (safeWrite io fuel d 0 (nextPiece left)) := safeWrite_wrote io
      dsimp only
      cases written : safeWrite io fuel d 0 (nextPiece left) with
      | error e =>
        rw [written] at first
        cases first with
        | exit failed =>
          refine .exit (failed.imp_right fun full => ?_)
          omega
        | fuel low => exact .fuel (Or.inr (by omega))
      | ok e =>
        have wrote := first.of_ok written
        dsimp only
        refine Ends.imp (fun fails => ?_) (fun low => ?_) (fun d' rest => ?_) ih
        · have pos := wrote.pos
          refine fails.imp_right fun full => ?_
          omega
        · omega
        · have front : Wrote d e (nextPiece left) fun k => d.buf (k % bufSize) := by
            refine wrote.congr fun k below => ?_
            rw [Nat.zero_add, Nat.mod_eq_of_lt (lt_of_lt_of_le below small)]
          have behind : Wrote e d' (left - nextPiece left) fun k => d.buf ((nextPiece left + k) % bufSize) := by
            refine rest.congr fun k below => ?_
            have whole : nextPiece left = bufSize := by
              simp only [nextPiece] at below ⊢
              split
              · rfl
              · rename_i fits
                rw [if_neg fits] at below
                omega
            rw [wrote.buf, whole, Nat.add_mod_left]
          have whole := Wrote.trans front behind
          rwa [Nat.add_sub_cancel' le] at whole

/-! ## What is documented -/

/-- Rounded up to blocks with O_DIRECT. -/
def rounded (cfg : Config) (n : Nat) : Nat :=
  if cfg.useOdirect then (n + cfg.blkSize.toNat - 1) / cfg.blkSize.toNat * cfg.blkSize.toNat else n

/-- The offset of -1, in 64 bits. -/
def unset : UInt64 := 0xFFFFFFFFFFFFFFFF

/-- Behind the operation before, or at 0 if that goes past the size of the storage. -/
def appendStart (cfg : Config) (d : Device) (nbytes : UInt64) : Nat :=
  if d.file.pos + rounded cfg nbytes.toNat > cfg.maxStorageSize.toNat then 0 else d.file.pos

def wantedStart (cfg : Config) (d : Device) (nbytes offset : UInt64) : Nat :=
  if offset = unset then appendStart cfg d nbytes else rounded cfg offset.toNat

/-- The bytes of a STORE lie where they should, and only there. -/
structure Stored (cfg : Config) (d d' : Device) (nbytes offset : UInt64) : Prop where
  data : ∀ i, d'.file.data i =
    if wantedStart cfg d nbytes offset ≤ i ∧
        i < wantedStart cfg d nbytes offset + rounded cfg nbytes.toNat then
      d.buf ((i - wantedStart cfg d nbytes offset) % bufSize) else d.file.data i
  pos : d'.file.pos = wantedStart cfg d nbytes offset + rounded cfg nbytes.toNat

/-- The device knows the position in its file. -/
def Tracked (d : Device) : Prop := d.storageOffset.toNat = d.file.pos

/-- What a command should have done. -/
def Placed (cfg : Config) (d d' : Device) : Cmd → Prop
  | .store nbytes offset => Stored cfg d d' nbytes offset ∧ Tracked d'
  | .load _ _ => Tracked d'

/-- The condition on a command and the state before it. The rounding of a STORE stays
within 64 bits; its offset, rounded, is below `2 ^ 32 - 1`, or is taken for -1 where
the next position is the same; and the -1 of an append is still one when rounded, or
has become the next position. A LOAD does not go around, unless the sum of its start
and its length overflows to where it ends. -/
def Fitting (cfg : Config) (d : Device) : Cmd → Prop
  | .store nbytes offset =>
    (cfg.useOdirect = true → nbytes.toNat + cfg.blkSize.toNat ≤ 2 ^ 64) ∧
      if offset = unset then
        cfg.offset offset = noOffset ∨ (cfg.offset offset).toNat = appendStart cfg d nbytes
      else rounded cfg offset.toNat < 2 ^ 32 - 1 ∨
        cfg.offset offset = noOffset ∧ appendStart cfg d nbytes = rounded cfg offset.toNat
  | .load nbytes offset =>
    let file := (positionLoad d offset.toUInt32).file
    nbytes = 0 ∨ file.pos + nbytes.toNat ≤ file.size ∨
      2 ^ 64 ≤ file.pos + nbytes.toNat ∧ file.pos + nbytes.toNat - 2 ^ 64 = endPos file nbytes.toNat

/-! ## Rounding -/

theorem le_roundUp {blk : Nat} (positive : 0 < blk) (n : Nat) : n ≤ (n + blk - 1) / blk * blk := by
  have split := Nat.div_add_mod (n + blk - 1) blk
  have rest := Nat.mod_lt (n + blk - 1) positive
  rw [Nat.mul_comm] at split
  omega

theorem le_rounded (cfg : Config) (n : Nat) : n ≤ rounded cfg n := by
  rw [rounded]
  split
  · exact le_roundUp cfg.positive n
  · exact le_refl n

/-- With O_DIRECT something takes at least a block. -/
theorem blk_le_rounded (cfg : Config) {n : Nat} (odirect : cfg.useOdirect = true) (some_bytes : 0 < n) :
    cfg.blkSize.toNat ≤ rounded cfg n := by
  have one : 1 ≤ (n + cfg.blkSize.toNat - 1) / cfg.blkSize.toNat :=
    (Nat.one_le_div_iff cfg.positive).mpr (by omega)
  rw [rounded, if_pos odirect]
  exact Nat.le_mul_of_pos_left _ one

/-- The rounding of the code, which may overflow. -/
theorem roundUp_toNat (cfg : Config) (n : UInt64) : (cfg.roundUp n).toNat =
    (n.toNat + cfg.blkSize.toNat - 1) % 2 ^ 64 / cfg.blkSize.toNat * cfg.blkSize.toNat := by
  have positive := cfg.positive
  have small := cfg.blkSize.toNat_lt
  have sum : (n + cfg.blkSize - 1).toNat = (n.toNat + cfg.blkSize.toNat - 1) % 2 ^ 64 := by
    rw [UInt64.toNat_sub, UInt64.toNat_add]
    simp only [UInt64.toNat_one]
    omega
  have below : (n.toNat + cfg.blkSize.toNat - 1) % 2 ^ 64 / cfg.blkSize.toNat * cfg.blkSize.toNat < 2 ^ 64 :=
    lt_of_le_of_lt (Nat.div_mul_le_self _ _) (Nat.mod_lt _ (by norm_num))
  rw [Config.roundUp, UInt64.toNat_mul, UInt64.toNat_div, sum, Nat.mod_eq_of_lt below]

theorem totalBytes_exact (cfg : Config) {nbytes : UInt64}
    (fits : cfg.useOdirect = true → nbytes.toNat + cfg.blkSize.toNat ≤ 2 ^ 64) :
    (cfg.totalBytes nbytes).toNat = rounded cfg nbytes.toNat := by
  rw [Config.totalBytes, rounded]
  by_cases odirect : cfg.useOdirect = true
  · have := cfg.positive
    have := fits odirect
    rw [if_pos odirect, if_pos odirect, roundUp_toNat, Nat.mod_eq_of_lt (by omega)]
  · rw [if_neg odirect, if_neg odirect]

/-- What overflows when rounded is more than a file can hold. -/
theorem overflow_rounded (cfg : Config) {n : Nat} (odirect : cfg.useOdirect = true)
    (overflow : 2 ^ 64 < n + cfg.blkSize.toNat) : maxOffset < rounded cfg n := by
  have small := cfg.blkSize.toNat_lt
  have own := le_rounded cfg n
  have block := blk_le_rounded cfg (n := n) odirect (by omega)
  simp only [maxOffset]
  omega

theorem offset_exact (cfg : Config) {offset : UInt64} (low : rounded cfg offset.toNat < 2 ^ 32 - 1) :
    (cfg.offset offset).toNat = rounded cfg offset.toNat := by
  have le := le_rounded cfg offset.toNat
  have cut : offset.toUInt32.toNat = offset.toNat := by
    rw [UInt64.toNat_toUInt32, Nat.mod_eq_of_lt (by omega)]
  rw [Config.offset]
  by_cases odirect : cfg.useOdirect = true
  · have positive := cfg.positive
    have blk := cfg.blkSize.toNat_lt
    have sum : offset.toNat + cfg.blkSize.toNat - 1 < 2 ^ 64 := by
      rcases Nat.eq_zero_or_pos offset.toNat with zero | some_offset
      · omega
      · have := blk_le_rounded cfg odirect some_offset
        omega
    have same : (cfg.roundUp offset.toUInt32.toUInt64).toNat = rounded cfg offset.toNat := by
      rw [roundUp_toNat, UInt32.toNat_toUInt64, cut, Nat.mod_eq_of_lt sum, rounded, if_pos odirect]
    rw [if_pos odirect, UInt64.toNat_toUInt32, same, Nat.mod_eq_of_lt (by omega)]
  · rw [if_neg odirect, cut, rounded, if_neg odirect]

/-! ## One command -/

/-- Where the code writes. -/
def actualStart (cfg : Config) (d : Device) (nbytes offset : UInt64) : Nat :=
  if cfg.offset offset ≠ noOffset then (cfg.offset offset).toNat
  else if (d.storageOffset + cfg.totalBytes nbytes).toNat > cfg.maxStorageSize.toNat then 0
  else d.file.pos

/-- What moving to the start of a STORE leaves as it is, and where it goes. -/
structure Positioned (d p : Device) (start : Nat) : Prop where
  data : p.file.data = d.file.data
  size : p.file.size = d.file.size
  buf : p.buf = d.buf
  tracked : Tracked p
  pos : p.file.pos = start

theorem positionStore_spec (cfg : Config) {d : Device} (tracked : Tracked d) (nbytes offset : UInt64) :
    Positioned d (positionStore cfg d (cfg.offset offset) (cfg.totalBytes nbytes))
      (actualStart cfg d nbytes offset) := by
  rw [positionStore, actualStart]
  by_cases given : cfg.offset offset ≠ noOffset
  · rw [if_pos given, if_pos given]
    exact ⟨rfl, rfl, rfl, UInt32.toNat_toUInt64 _, rfl⟩
  · rw [if_neg given, if_neg given]
    by_cases past : d.storageOffset + cfg.totalBytes nbytes > cfg.maxStorageSize
    · rw [if_pos past, if_pos (UInt64.lt_iff_toNat_lt.mp past)]
      exact ⟨rfl, rfl, rfl, rfl, rfl⟩
    · rw [if_neg past, if_neg (mt UInt64.lt_iff_toNat_lt.mpr past)]
      exact ⟨rfl, rfl, rfl, tracked, rfl⟩

/-- `total` bytes lie from `start` on, and the device has kept track of them. -/
structure StoredAt (d d' : Device) (start total : Nat) : Prop where
  data : ∀ i, d'.file.data i =
    if start ≤ i ∧ i < start + total then d.buf ((i - start) % bufSize) else d.file.data i
  pos : d'.file.pos = start + total
  size : d.file.size ≤ d'.file.size
  tracked : Tracked d'

theorem storeData_spec {io : Schedule} {fuel : Nat} {cfg : Config} {d d' : Device} {nbytes offset : UInt64}
    (tracked : Tracked d) (h : storeData io fuel cfg d nbytes offset = .ok d') :
    StoredAt d d' (actualStart cfg d nbytes offset) (cfg.totalBytes nbytes).toNat := by
  simp only [storeData] at h
  have positioned := positionStore_spec cfg tracked nbytes offset
  cases stored : storeChunks io fuel fuel
      (positionStore cfg d (cfg.offset offset) (cfg.totalBytes nbytes)) (cfg.totalBytes nbytes).toNat with
  | error e =>
    simp only [stored] at h
    cases h
  | ok e =>
    simp only [stored, Except.ok.injEq] at h
    subst h
    have wrote := (storeChunks_wrote io fuel).of_ok stored
    refine ⟨?_, ?_, ?_, ?_⟩
    · intro i
      rw [wrote.data, positioned.pos, positioned.buf, positioned.data]
    · rw [wrote.pos, positioned.pos]
    · rw [← positioned.size]
      exact wrote.size
    · have placed := e.file.placed
      have known := positioned.tracked
      have pos := wrote.pos
      simp only [Tracked, maxOffset] at known placed ⊢
      rw [UInt64.toNat_add, wrote.storageOffset, known, ← pos, Nat.mod_eq_of_lt (by omega)]

/-- A STORE is right if its length does not overflow and it starts in the right place. -/
theorem stored_iff {cfg : Config} {d d' : Device} {nbytes offset : UInt64}
    (h : StoredAt d d' (actualStart cfg d nbytes offset) (cfg.totalBytes nbytes).toNat) :
    Stored cfg d d' nbytes offset ↔
      (cfg.useOdirect = true → nbytes.toNat + cfg.blkSize.toNat ≤ 2 ^ 64) ∧
        actualStart cfg d nbytes offset = wantedStart cfg d nbytes offset := by
  have placed := d'.file.placed
  constructor
  · intro stored
    have ends := stored.pos
    have fits : cfg.useOdirect = true → nbytes.toNat + cfg.blkSize.toNat ≤ 2 ^ 64 := by
      intro odirect
      by_contra overflow
      have := overflow_rounded cfg odirect (not_le.mp overflow)
      omega
    refine ⟨fits, ?_⟩
    have total := totalBytes_exact cfg fits
    have pos := h.pos
    omega
  · rintro ⟨fits, start⟩
    have total := totalBytes_exact cfg fits
    refine ⟨?_, ?_⟩
    · rw [← start, ← total]
      exact h.data
    · rw [← start, ← total]
      exact h.pos

/-- Where an append goes, while the sum does not overflow. -/
theorem actualStart_append {cfg : Config} {d d' : Device} {nbytes offset : UInt64} (tracked : Tracked d)
    (fits : cfg.useOdirect = true → nbytes.toNat + cfg.blkSize.toNat ≤ 2 ^ 64)
    (h : StoredAt d d' (actualStart cfg d nbytes offset) (cfg.totalBytes nbytes).toNat)
    (taken : cfg.offset offset = noOffset) :
    actualStart cfg d nbytes offset = appendStart cfg d nbytes := by
  have placed := d'.file.placed
  have before := d.file.placed
  have pos := h.pos
  have total := totalBytes_exact cfg fits
  have sum : (d.storageOffset + cfg.totalBytes nbytes).toNat = d.file.pos + rounded cfg nbytes.toNat := by
    simp only [Tracked, maxOffset] at tracked placed before
    rw [UInt64.toNat_add, tracked, total, Nat.mod_eq_of_lt (by omega)]
  rw [actualStart, if_neg (by simp [taken]), appendStart, sum]

theorem store_placed_iff {cfg : Config} {d d' : Device} {nbytes offset : UInt64} (tracked : Tracked d)
    (h : StoredAt d d' (actualStart cfg d nbytes offset) (cfg.totalBytes nbytes).toNat) :
    Placed cfg d d' (.store nbytes offset) ↔ Fitting cfg d (.store nbytes offset) := by
  simp only [Placed, Fitting, h.tracked, and_true]
  rw [stored_iff h]
  refine and_congr_right fun fits => ?_
  have append := actualStart_append tracked fits h
  have given : cfg.offset offset ≠ noOffset → actualStart cfg d nbytes offset = (cfg.offset offset).toNat := by
    intro given
    rw [actualStart, if_pos given]
  rw [wantedStart]
  by_cases none_given : offset = unset
  · rw [if_pos none_given, if_pos none_given]
    by_cases taken : cfg.offset offset = noOffset
    · simp only [taken, append taken, true_or]
    · rw [given taken]
      simp only [taken, false_or]
  · rw [if_neg none_given, if_neg none_given]
    by_cases taken : cfg.offset offset = noOffset
    · have high : ¬ rounded cfg offset.toNat < 2 ^ 32 - 1 := by
        intro low
        have same := offset_exact cfg low
        rw [taken] at same
        have sentinel : noOffset.toNat = 2 ^ 32 - 1 := rfl
        omega
      rw [append taken]
      simp only [taken, high, true_and, false_or]
    · rw [given taken]
      simp only [taken, false_and, or_false]
      constructor
      · intro same
        have bound := (cfg.offset offset).toNat_lt
        have other : (cfg.offset offset).toNat ≠ 2 ^ 32 - 1 := by
          intro sentinel
          exact taken (UInt32.toNat_inj.mp sentinel)
        omega
      · exact offset_exact cfg

/-- A LOAD keeps track of the position if it does not go around. -/
theorem load_placed_iff {io : Schedule} {fuel : Nat} {cfg : Config} {d d' : Device} {nbytes offset : UInt64}
    (tracked : Tracked d) (nonempty : 0 < d.file.size) (h : loadData io fuel d nbytes offset = .ok d') :
    (Placed cfg d d' (.load nbytes offset) ↔ Fitting cfg d (.load nbytes offset)) ∧
      d'.file.size = d.file.size := by
  simp only [loadData] at h
  have known : Tracked (positionLoad d offset.toUInt32) := by
    rw [positionLoad]
    split
    · exact UInt32.toNat_toUInt64 _
    · exact tracked
  have size := positionLoad_size d offset.toUInt32
  simp only [Placed, Fitting]
  generalize positionLoad d offset.toUInt32 = p at h known size
  cases loaded : loadChunks io fuel fuel p nbytes.toNat with
  | error e =>
    simp only [loaded] at h
    cases h
  | ok e =>
    simp only [loaded, Except.ok.injEq] at h
    subst h
    have around := (loadChunks_around io fuel (by rw [size]; exact nonempty)).of_ok loaded
    refine ⟨?_, around.size.trans size⟩
    have length := nbytes.toNat_lt
    have placed := p.file.placed
    have sized := p.file.sized
    simp only [Tracked, maxOffset] at known placed sized ⊢
    rw [UInt64.toNat_add, around.storageOffset, known, around.pos]
    by_cases zero : nbytes = 0
    · subst zero
      simp [endPos]
      omega
    · have some_bytes : 0 < nbytes.toNat := by
        refine Nat.pos_of_ne_zero fun empty => zero ?_
        exact UInt64.toNat_inj.mp empty
      have le := endPos_le (f := p.file) (by rw [size]; exact nonempty) some_bytes
      simp only [zero, false_or]
      by_cases straight : p.file.pos + nbytes.toNat ≤ p.file.size
      · rw [endPos_straight straight]
        omega
      · omega

/-! ## Sequences of commands -/

/-- The states that a storage worker reaches by commands that are each `ok` in the state
before it. -/
inductive Ran (io : Schedule) (cfg : Config) (buf : Mem) (ok : Device → Cmd → Prop) : Device → Prop
  | init : Ran io cfg buf ok (.init buf)
  | step {d d' : Device} {cmd : Cmd} {fuel : Nat} (run : Ran io cfg buf ok d) (fits : ok d cmd)
      (h : exec io fuel cfg d cmd = .ok d') : Ran io cfg buf ok d'

/-- What holds of the device whatever the commands are, while it keeps track. -/
structure Sound (d : Device) : Prop where
  tracked : Tracked d
  nonempty : 0 < d.file.size

theorem sound_init (buf : Mem) : Sound (.init buf) where
  tracked := rfl
  nonempty := by
    have positive : 0 < bufSize := by decide
    exact positive

theorem exec_placed_iff {io : Schedule} {fuel : Nat} {cfg : Config} {d d' : Device} {cmd : Cmd}
    (sound : Sound d) (h : exec io fuel cfg d cmd = .ok d') :
    (Placed cfg d d' cmd ↔ Fitting cfg d cmd) ∧ 0 < d'.file.size := by
  cases cmd with
  | store nbytes offset =>
    have stored := storeData_spec sound.tracked h
    exact ⟨store_placed_iff sound.tracked stored, lt_of_lt_of_le sound.nonempty stored.size⟩
  | load nbytes offset =>
    obtain ⟨iff, size⟩ : (Placed cfg d d' (.load nbytes offset) ↔
        Fitting cfg d (.load nbytes offset)) ∧ d'.file.size = d.file.size :=
      load_placed_iff sound.tracked sound.nonempty h
    exact ⟨iff, by rw [size]; exact sound.nonempty⟩

theorem Placed.tracked {cfg : Config} {d d' : Device} {cmd : Cmd} (h : Placed cfg d d' cmd) :
    Tracked d' := by
  cases cmd with
  | store nbytes offset => exact h.2
  | load nbytes offset => exact h

theorem Ran.sound {io : Schedule} {cfg : Config} {buf : Mem} {d : Device}
    (run : Ran io cfg buf (Fitting cfg) d) : Sound d := by
  induction run with
  | init => exact sound_init buf
  | step run fits h ih =>
    obtain ⟨iff, nonempty⟩ := exec_placed_iff ih h
    exact ⟨(iff.mpr fits).tracked, nonempty⟩

/-- Behind commands that fit, a command is placed as documented just if it fits. -/
theorem placed_iff {io : Schedule} {fuel : Nat} {cfg : Config} {buf : Mem} {d d' : Device} {cmd : Cmd}
    (run : Ran io cfg buf (Fitting cfg) d) (h : exec io fuel cfg d cmd = .ok d') :
    Placed cfg d d' cmd ↔ Fitting cfg d cmd :=
  (exec_placed_iff run.sound h).1

/-- A device of a gibibyte without O_DIRECT. -/
def plainDevice : Config where
  useOdirect := false
  blkSize := 4096
  maxStorageSize := 1073741824
  positive := by decide

/-- Three bytes at 17, in two calls, and three more behind them. -/
theorem placed_behind : ∃ d d', exec (fun _ => some 2) 4 plainDevice (.init fun _ => 7) (.store 3 17) = .ok d ∧
    exec (fun _ => some 2) 4 plainDevice d (.store 3 unset) = .ok d' ∧ Placed plainDevice d d' (.store 3 unset) ∧
    d'.file.pos = 23 := by
  obtain ⟨d, d', stored, appended, behind⟩ :
      ∃ d d', exec (fun _ => some 2) 4 plainDevice (.init fun _ => 7) (.store 3 17) = .ok d ∧
        exec (fun _ => some 2) 4 plainDevice d (.store 3 unset) = .ok d' ∧ d'.file.pos = 23 :=
    ⟨_, _, rfl, rfl, by decide⟩
  have fits : Fitting plainDevice (.init fun _ => 7) (.store 3 17) := by
    refine ⟨nofun, ?_⟩
    rw [if_neg (by decide)]
    exact Or.inl (by decide)
  refine ⟨d, d', stored, appended, (placed_iff (.step .init fits stored) appended).mpr ⟨nofun, ?_⟩, behind⟩
  rw [if_pos rfl]
  exact Or.inl rfl

/-- A STORE at 4 GiB writes at 0. -/
theorem large_offset_truncated : ∃ d',
    exec (fun _ => some 1) 2 plainDevice (.init fun _ => 7) (.store 1 4294967296) = .ok d' ∧
      ¬ Placed plainDevice (.init fun _ => 7) d' (.store 1 4294967296) := by
  refine ⟨_, rfl, ?_⟩
  rintro ⟨stored, -⟩
  have ends := stored.pos
  revert ends
  decide

end StoragePlacement
