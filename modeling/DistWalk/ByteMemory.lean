import Mathlib

/-!
# Byte memory with little-endian words

A buffer is a total function from offsets to bytes, so a pointer is an offset
and an out-of-range access is still a value. A slice reads a run of bytes and
`store` overwrites one. Words are read and written least significant byte
first. Nothing below depends on what the bytes stand for.
-/

namespace ByteMemory

abbrev Mem := Nat → UInt8

/-- The `n` bytes starting at `a`. -/
def slice (m : Mem) (a : Nat) : Nat → List UInt8
  | 0 => []
  | n + 1 => m a :: slice m (a + 1) n

/-- Overwrite the bytes from `a` on with `l`. -/
def store (m : Mem) (a : Nat) (l : List UInt8) : Mem :=
  fun i => if a ≤ i ∧ i < a + l.length then l.getD (i - a) 0 else m i

@[simp] theorem length_slice (m : Mem) (a n : Nat) : (slice m a n).length = n := by
  induction n generalizing a with
  | zero => rfl
  | succ n ih => simp [slice, ih]

theorem slice_add (m : Mem) (a n k : Nat) :
    slice m a (n + k) = slice m a n ++ slice m (a + n) k := by
  induction n generalizing a with
  | zero => simp [slice]
  | succ n ih =>
    have hn : n + 1 + k = n + k + 1 := by omega
    have ha : a + 1 + n = a + (n + 1) := by omega
    simp only [hn, slice, ih (a + 1), ha, List.cons_append]

theorem slice_congr {m m' : Mem} {a b n : Nat}
    (same : ∀ i, i < n → m (a + i) = m' (b + i)) : slice m a n = slice m' b n := by
  induction n generalizing a b with
  | zero => rfl
  | succ n ih =>
    have head := same 0 (by omega)
    have tail : slice m (a + 1) n = slice m' (b + 1) n := by
      apply ih
      intro i hi
      have h := same (i + 1) (by omega)
      simpa only [Nat.add_assoc, Nat.add_comm 1 i] using h
    simp only [Nat.add_zero] at head
    simp only [slice, head, tail]

theorem take_slice (m : Mem) (a n k : Nat) (hk : k ≤ n) :
    (slice m a n).take k = slice m a k := by
  have hn : n = k + (n - k) := by omega
  rw [hn, slice_add, List.take_left']
  exact length_slice m a k

/-- A split of a slice at any point not past its end. -/
theorem slice_split (m : Mem) (a : Nat) {k n : Nat} (hk : k ≤ n) :
    slice m a n = slice m a k ++ slice m (a + k) (n - k) := by
  rw [← slice_add, Nat.add_sub_cancel' hk]

theorem store_inside (m : Mem) (a : Nat) (l : List UInt8) {i : Nat} (hi : i < l.length) :
    store m a l (a + i) = l.getD i 0 := by
  have inside : a ≤ a + i ∧ a + i < a + l.length := ⟨by omega, by omega⟩
  simp only [store, if_pos inside, Nat.add_sub_cancel_left]

theorem store_outside (m : Mem) (a : Nat) (l : List UInt8) {i : Nat}
    (hi : i < a ∨ a + l.length ≤ i) : store m a l i = m i := by
  have outside : ¬ (a ≤ i ∧ i < a + l.length) := by omega
  simp only [store, if_neg outside]

theorem getElem_slice (m : Mem) (a n i : Nat) (h : i < (slice m a n).length) :
    (slice m a n)[i] = m (a + i) := by
  induction i generalizing a n with
  | zero =>
    cases n with
    | zero => simp at h
    | succ n => rfl
  | succ i ih =>
    cases n with
    | zero => simp at h
    | succ n =>
      simp only [slice, List.getElem_cons_succ]
      rw [ih]
      congr 1
      omega

theorem slice_store_self (m : Mem) (a : Nat) (l : List UInt8) :
    slice (store m a l) a l.length = l := by
  apply List.ext_getElem (length_slice _ _ _)
  intro i h1 h2
  rw [getElem_slice, store_inside m a l h2]
  simp [List.getD_eq_getElem?_getD, h2]

theorem slice_store_disjoint (m : Mem) (a b n : Nat) (l : List UInt8)
    (apart : a + n ≤ b ∨ b + l.length ≤ a) : slice (store m b l) a n = slice m a n := by
  apply slice_congr
  intro i hi
  exact store_outside m b l (by omega)

/-- The little-endian 32-bit word at `a`. -/
def u32 (m : Mem) (a : Nat) : Nat :=
  (m a).toNat + 256 * ((m (a + 1)).toNat + 256 * ((m (a + 2)).toNat + 256 * (m (a + 3)).toNat))

/-- The four bytes of a 32-bit word, least significant first. -/
def u32Bytes (v : Nat) : List UInt8 :=
  [UInt8.ofNat (v % 256), UInt8.ofNat (v / 256 % 256), UInt8.ofNat (v / 65536 % 256),
    UInt8.ofNat (v / 16777216 % 256)]

/-- The eight bytes of a 64-bit word. -/
def u64Bytes (v : Nat) : List UInt8 := u32Bytes v ++ u32Bytes (v / 2 ^ 32)

def storeU32 (m : Mem) (a v : Nat) : Mem := store m a (u32Bytes v)

@[simp] theorem length_u32Bytes (v : Nat) : (u32Bytes v).length = 4 := rfl

theorem u32_lt (m : Mem) (a : Nat) : u32 m a < 2 ^ 32 := by
  have h0 := (m a).toNat_lt
  have h1 := (m (a + 1)).toNat_lt
  have h2 := (m (a + 2)).toNat_lt
  have h3 := (m (a + 3)).toNat_lt
  unfold u32
  omega

theorem u32_congr {m m' : Mem} {a b : Nat} (same : ∀ i, i < 4 → m (a + i) = m' (b + i)) :
    u32 m a = u32 m' b := by
  have h0 := same 0 (by omega)
  have h1 := same 1 (by omega)
  have h2 := same 2 (by omega)
  have h3 := same 3 (by omega)
  simp only [Nat.add_zero] at h0
  simp only [u32, h0, h1, h2, h3]

theorem u32_storeU32 (m : Mem) (a : Nat) {v : Nat} (hv : v < 2 ^ 32) :
    u32 (storeU32 m a v) a = v := by
  have at0 : storeU32 m a v (a + 0) = UInt8.ofNat (v % 256) :=
    store_inside m a (u32Bytes v) (i := 0) (by simp)
  have at1 : storeU32 m a v (a + 1) = UInt8.ofNat (v / 256 % 256) :=
    store_inside m a (u32Bytes v) (i := 1) (by simp)
  have at2 : storeU32 m a v (a + 2) = UInt8.ofNat (v / 65536 % 256) :=
    store_inside m a (u32Bytes v) (i := 2) (by simp)
  have at3 : storeU32 m a v (a + 3) = UInt8.ofNat (v / 16777216 % 256) :=
    store_inside m a (u32Bytes v) (i := 3) (by simp)
  simp only [Nat.add_zero] at at0
  simp only [u32, at0, at1, at2, at3, UInt8.toNat_ofNat', Nat.reducePow, Nat.mod_mod]
  omega

theorem u32_store_disjoint (m : Mem) (a b : Nat) (l : List UInt8)
    (apart : a + 4 ≤ b ∨ b + l.length ≤ a) : u32 (store m b l) a = u32 m a := by
  apply u32_congr
  intro i hi
  exact store_outside m b l (by omega)

/-- A word written where the bytes already spell it changes nothing. -/
theorem storeU32_same (m : Mem) (a v : Nat) (h : u32 m a = v) : storeU32 m a v = m := by
  funext i
  by_cases inside : a ≤ i ∧ i < a + 4
  · have h0 := (m a).toNat_lt
    have h1 := (m (a + 1)).toNat_lt
    have h2 := (m (a + 2)).toNat_lt
    have h3 := (m (a + 3)).toNat_lt
    have hi : i = a ∨ i = a + 1 ∨ i = a + 2 ∨ i = a + 3 := by omega
    unfold u32 at h
    have e0 : v % 256 = (m a).toNat := by omega
    have e1 : v / 256 % 256 = (m (a + 1)).toNat := by omega
    have e2 : v / 65536 % 256 = (m (a + 2)).toNat := by omega
    have e3 : v / 16777216 % 256 = (m (a + 3)).toNat := by omega
    rcases hi with rfl | rfl | rfl | rfl
    · simp [storeU32, store, u32Bytes, e0]
    · simp [storeU32, store, u32Bytes, e1]
    · simp [storeU32, store, u32Bytes, e2]
    · simp [storeU32, store, u32Bytes, e3]
  · exact store_outside m a (u32Bytes v) (by simp only [length_u32Bytes]; omega)

end ByteMemory
