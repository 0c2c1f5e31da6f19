import DistWalk.ByteMemory
import DistWalk.Message

/-!
# STORE and LOAD on the file of a storage device

`store` and `load` of `dw_node.c` with the loops of `safe_write` and `safe_read`
around the system calls. A schedule says how much each call transfers, or that it
fails; a failed transfer ends the node in `check`. What a `fsync` waits for is in
no file content, so it is left out.
-/

namespace StorageFile

open ByteMemory Message

/-- The largest position in a file. -/
def maxOffset : Nat := 2 ^ 63 - 1

/-- A regular file and the position of its descriptor, which may lie behind the end. A
hole reads as zeros. -/
structure File where
  data : Mem
  size : Nat
  pos : Nat
  zeros : ∀ i, size ≤ i → data i = 0
  sized : size ≤ maxOffset
  placed : pos ≤ maxOffset

/-- A file of zeros, as `fallocate` makes it. -/
def File.blank (size : Nat) (sized : size ≤ maxOffset) : File where
  data := fun _ => 0
  size := size
  pos := 0
  zeros := fun _ _ => rfl
  sized := sized
  placed := Nat.zero_le _

/-- `lseek` to an offset of 32 bits, which does not fail. -/
def File.seek (f : File) (offset : UInt32) : File where
  data := f.data
  size := f.size
  pos := offset.toNat
  zeros := f.zeros
  sized := f.sized
  placed := by
    have := offset.toNat_lt
    simp only [maxOffset]
    omega

/-- What a `read` of `len` bytes returns that would give `r`: nothing at the end, else
at least one byte and no more than there are. -/
def File.readable (f : File) (len r : Nat) : Nat :=
  if f.size ≤ f.pos then 0 else min (max r 1) (min len (f.size - f.pos))

def File.afterRead (f : File) (len r : Nat) : File where
  data := f.data
  size := f.size
  pos := f.pos + f.readable len r
  zeros := f.zeros
  sized := f.sized
  placed := by
    have := f.sized
    have := f.placed
    simp only [File.readable]
    split <;> omega

/-- What a `write` of `len` bytes takes that would take `r`. -/
def File.writable (f : File) (len r : Nat) : Nat := min (max r 1) (min len (maxOffset - f.pos))

/-- The file once some bytes have been written. -/
def File.write (f : File) (l : List UInt8) (room : f.pos + l.length ≤ maxOffset) : File where
  data := store f.data f.pos l
  size := max f.size (f.pos + l.length)
  pos := f.pos + l.length
  zeros := by
    intro i behind
    rw [store_outside _ _ _ (Or.inr (le_trans (le_max_right _ _) behind))]
    exact f.zeros i (le_trans (le_max_left _ _) behind)
  sized := max_le f.sized room
  placed := room

/-- `storage_info_t` with the `store_buf` of the worker; `calls` counts the transfers and
`received` keeps what the reads have returned. -/
structure Device where
  file : File
  buf : Mem
  storageOffset : UInt64
  calls : Nat
  received : List UInt8

/-- The device once its file is created and `BUF_SIZE` bytes are allocated to it. -/
def Device.init (buf : Mem) : Device where
  file := .blank bufSize (by decide)
  buf := buf
  storageOffset := 0
  calls := 0
  received := []

/-- Go back to the start of the file. -/
def Device.rewind (d : Device) : Device := { d with file := d.file.seek 0 }

/-- The settings of a device. -/
structure Config where
  useOdirect : Bool
  blkSize : UInt64
  maxStorageSize : UInt64
  positive : 0 < blkSize.toNat

/-- What the `k`-th transfer of bytes would move; `none` if it fails. -/
abbrev Schedule := Nat → Option Nat

inductive Stop
  | exit
  | fuel
  deriving DecidableEq, Repr

/-- Some transfer fails. -/
def Schedule.Fails (io : Schedule) : Prop := ∃ k, io k = none

/-- How a loop of transfers may end: with the node, because a transfer failed; with no
fuel left, of which there was too little; or in a state as described. -/
inductive Ends (failed short : Prop) (P : Device → Prop) : Except Stop Device → Prop
  | exit (h : failed) : Ends failed short P (.error .exit)
  | fuel (h : short) : Ends failed short P (.error .fuel)
  | done {d : Device} (h : P d) : Ends failed short P (.ok d)

section Ends

variable {failed short : Prop} {P : Device → Prop} {r : Except Stop Device}

theorem Ends.imp {failed' short' : Prop} {P' : Device → Prop} (fails : failed → failed')
    (low : short → short') (weaken : ∀ d, P d → P' d) (h : Ends failed short P r) :
    Ends failed' short' P' r := by
  cases h with
  | exit h => exact .exit (fails h)
  | fuel h => exact .fuel (low h)
  | done h => exact .done (weaken _ h)

theorem Ends.of_ok {d : Device} (h : Ends failed short P r) (ok : r = .ok d) : P d := by
  subst ok
  cases h with
  | done h => exact h

/-- Without failures and with enough fuel there is such a state. -/
theorem Ends.exists_ok (h : Ends failed short P r) (works : ¬ failed) (enough : ¬ short) :
    ∃ d, r = .ok d ∧ P d := by
  cases h with
  | exit h => exact absurd h works
  | fuel h => exact absurd h enough
  | done h => exact ⟨_, rfl, h⟩

end Ends

/-! ## Transfers -/

/-- `read` into the buffer from `b` on: what it returns, and the device. -/
def readCall (io : Schedule) (d : Device) (b len : Nat) : Option (Nat × Device) :=
  match io d.calls with
  | none => none
  | some r =>
    let bytes := slice d.file.data d.file.pos (d.file.readable len r)
    some (d.file.readable len r, { d with
      file := d.file.afterRead len r
      buf := store d.buf b bytes
      calls := d.calls + 1
      received := d.received ++ bytes })

/-- `safe_read`, of which the node survives only the return of 0. -/
def safeRead (io : Schedule) : Nat → Device → Nat → Nat → Nat → Except Stop Device
  | 0, _, _, _, _ => .error .fuel
  | fuel + 1, d, b, len, lenOnLastSeek =>
    if len = 0 then .ok d
    else
      match readCall io d b len with
      | none => .error .exit
      | some (received, d) =>
        if received = 0 then
          if lenOnLastSeek > 0 ∧ lenOnLastSeek = len then .ok d
          else safeRead io fuel d.rewind b len len
        else safeRead io fuel d (b + received) (len - received) lenOnLastSeek

/-- `write` from the buffer at `b` on; it fails at the largest position. -/
def writeCall (io : Schedule) (d : Device) (b len : Nat) : Option (Nat × Device) :=
  match io d.calls with
  | none => none
  | some r =>
    if d.file.pos = maxOffset then none
    else some (d.file.writable len r, { d with
      file := d.file.write (slice d.buf b (d.file.writable len r)) (by
        have := d.file.placed
        rw [length_slice, File.writable]
        omega)
      calls := d.calls + 1 })

/-- `safe_write`. -/
def safeWrite (io : Schedule) : Nat → Device → Nat → Nat → Except Stop Device
  | 0, _, _, _ => .error .fuel
  | fuel + 1, d, b, len =>
    if len = 0 then .ok d
    else
      match writeCall io d b len with
      | none => .error .exit
      | some (written, d) => safeWrite io fuel d (b + written) (len - written)

/-! ## STORE -/

/-- Round up to blocks, in 64 bits. -/
def Config.roundUp (cfg : Config) (n : UInt64) : UInt64 :=
  (n + cfg.blkSize - 1) / cfg.blkSize * cfg.blkSize

/-- `total_bytes`. -/
def Config.totalBytes (cfg : Config) (nbytes : UInt64) : UInt64 :=
  if cfg.useOdirect then cfg.roundUp nbytes else nbytes

/-- The `offset` of a STORE, an `uint32_t`. -/
def Config.offset (cfg : Config) (offset : UInt64) : UInt32 :=
  if cfg.useOdirect then (cfg.roundUp offset.toUInt32.toUInt64).toUInt32 else offset.toUInt32

/-- The -1 that an `uint32_t` is compared with. -/
def noOffset : UInt32 := 0xFFFFFFFF

/-- Move to the offset that is given, or back to 0 at the end of the storage. -/
def positionStore (cfg : Config) (d : Device) (offset : UInt32) (totalBytes : UInt64) : Device :=
  if offset ≠ noOffset then
    { d with file := d.file.seek offset, storageOffset := offset.toUInt64 }
  else if d.storageOffset + totalBytes > cfg.maxStorageSize then
    { d.rewind with storageOffset := 0 }
  else d

/-- The next piece of a transfer, as much as fits the buffer. -/
def nextPiece (left : Nat) : Nat := if left > bufSize then bufSize else left

/-- The loop over the pieces, with `left` bytes left. -/
def storeChunks (io : Schedule) (fuel : Nat) : Nat → Device → Nat → Except Stop Device
  | 0, _, _ => .error .fuel
  | turns + 1, d, left =>
    if left = 0 then .ok d
    else
      let bytes := nextPiece left
      match safeWrite io fuel d 0 bytes with
      | .error e => .error e
      | .ok d => storeChunks io fuel turns d (left - bytes)

def storeData (io : Schedule) (fuel : Nat) (cfg : Config) (d : Device) (nbytes offset : UInt64) :
    Except Stop Device :=
  let totalBytes := cfg.totalBytes nbytes
  match storeChunks io fuel fuel (positionStore cfg d (cfg.offset offset) totalBytes) totalBytes.toNat with
  | .error e => .error e
  | .ok d => .ok { d with storageOffset := d.storageOffset + totalBytes }

/-! ## LOAD -/

def positionLoad (d : Device) (offset : UInt32) : Device :=
  if offset ≠ noOffset then
    { d with file := d.file.seek offset, storageOffset := offset.toUInt64 }
  else d

theorem positionLoad_size (d : Device) (offset : UInt32) :
    (positionLoad d offset).file.size = d.file.size := by
  rw [positionLoad]
  split <;> rfl

theorem positionLoad_received (d : Device) (offset : UInt32) :
    (positionLoad d offset).received = d.received := by
  rw [positionLoad]
  split <;> rfl

theorem positionLoad_calls (d : Device) (offset : UInt32) : (positionLoad d offset).calls = d.calls := by
  rw [positionLoad]
  split <;> rfl

def loadChunks (io : Schedule) (fuel : Nat) : Nat → Device → Nat → Except Stop Device
  | 0, _, _ => .error .fuel
  | turns + 1, d, left =>
    if left = 0 then .ok d
    else
      let bytes := nextPiece left
      match safeRead io fuel d 0 bytes 0 with
      | .error e => .error e
      | .ok d => if bytes = 0 then .ok d else loadChunks io fuel turns d (left - bytes)

def loadData (io : Schedule) (fuel : Nat) (d : Device) (nbytes offset : UInt64) : Except Stop Device :=
  match loadChunks io fuel fuel (positionLoad d offset.toUInt32) nbytes.toNat with
  | .error e => .error e
  | .ok d => .ok { d with storageOffset := d.storageOffset + nbytes }

/-! ## Sequences of commands -/

inductive Cmd
  | store (nbytes offset : UInt64)
  | load (nbytes offset : UInt64)
  deriving DecidableEq, Repr

def exec (io : Schedule) (fuel : Nat) (cfg : Config) (d : Device) : Cmd → Except Stop Device
  | .store nbytes offset => storeData io fuel cfg d nbytes offset
  | .load nbytes offset => loadData io fuel d nbytes offset

end StorageFile
