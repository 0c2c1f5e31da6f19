import Mathlib

/-!
# Order of an implicit binary heap

Keys of any linear order stand at positions `0 .. n-1`; the parent of a
position is `(i-1)/2`. A sift exchanges one key with its parent or with its
smaller child. The predicates below say which pairs may be out of order while
a sift is under way, and each exchange moves the exception one level.
-/

namespace HeapOrder

universe u

variable {α : Type u} [LinearOrder α]

def parent (i : Nat) : Nat := (i - 1) / 2

def Ordered (k : Nat → α) (n : Nat) : Prop :=
  ∀ j, 0 < j → j < n → k (parent j) ≤ k j

/-- Only the pair of `i` and its parent may be out of order. -/
structure UpReady (k : Nat → α) (n i : Nat) : Prop where
  others : ∀ j, 0 < j → j < n → j ≠ i → k (parent j) ≤ k j
  below : ∀ j, 0 < j → j < n → parent j = i → 0 < i → k (parent i) ≤ k j

/-- Only the pairs of `i` and its children may be out of order. -/
structure DownReady (k : Nat → α) (n i : Nat) : Prop where
  others : ∀ j, 0 < j → j < n → parent j ≠ i → k (parent j) ≤ k j
  below : ∀ j, 0 < j → j < n → parent j = i → 0 < i → k (parent i) ≤ k j

/-- The key at `i` is arbitrary; all pairs without it are in order. -/
structure HoleReady (k : Nat → α) (n i : Nat) : Prop where
  others : ∀ j, 0 < j → j < n → j ≠ i → parent j ≠ i → k (parent j) ≤ k j
  below : ∀ j, 0 < j → j < n → parent j = i → 0 < i → k (parent i) ≤ k j

theorem parent_lt {i : Nat} (hi : 0 < i) : parent i < i := by
  unfold parent
  omega

/-- Keys after the positions `i` and `j` are exchanged. -/
def exchange (k : Nat → α) (i j : Nat) : Nat → α := k ∘ Equiv.swap i j

omit [LinearOrder α] in
theorem exchange_left (k : Nat → α) (i j : Nat) : exchange k i j i = k j := by
  simp [exchange]

omit [LinearOrder α] in
theorem exchange_right (k : Nat → α) (i j : Nat) : exchange k i j j = k i := by
  simp [exchange]

omit [LinearOrder α] in
theorem exchange_other (k : Nat → α) {i j x : Nat} (hi : x ≠ i) (hj : x ≠ j) :
    exchange k i j x = k x := by
  simp [exchange, Equiv.swap_apply_of_ne_of_ne hi hj]

theorem root_le {k : Nat → α} {n : Nat} (h : Ordered k n) {i : Nat} (hi : i < n) :
    k 0 ≤ k i := by
  induction i using Nat.strongRecOn with
  | ind i ih =>
    by_cases h0 : i = 0
    · rw [h0]
    · have hp := parent_lt (Nat.pos_of_ne_zero h0)
      exact le_trans (ih (parent i) hp (by omega)) (h i (by omega) hi)

theorem UpReady.ordered {k : Nat → α} {n i : Nat} (h : UpReady k n i)
    (stop : i = 0 ∨ k (parent i) ≤ k i) : Ordered k n := by
  intro j hj hn
  by_cases hji : j = i
  · subst j
    rcases stop with h0 | hle
    · omega
    · exact hle
  · exact h.others j hj hn hji

theorem DownReady.ordered {k : Nat → α} {n i : Nat} (h : DownReady k n i)
    (stop : ∀ j, 0 < j → j < n → parent j = i → k i ≤ k j) : Ordered k n := by
  intro j hj hn
  by_cases hji : parent j = i
  · rw [hji]
    exact stop j hj hn hji
  · exact h.others j hj hn hji

theorem HoleReady.up {k : Nat → α} {n i : Nat} (h : HoleReady k n i) (hi : 0 < i)
    (lt : k i < k (parent i)) : UpReady k n i where
  others := by
    intro j hj hn hji
    by_cases hp : parent j = i
    · rw [hp]
      exact le_trans (le_of_lt lt) (h.below j hj hn hp hi)
    · exact h.others j hj hn hji hp
  below := h.below

theorem HoleReady.down {k : Nat → α} {n i : Nat} (h : HoleReady k n i)
    (stop : i = 0 ∨ k (parent i) ≤ k i) : DownReady k n i where
  others := by
    intro j hj hn hp
    by_cases hji : j = i
    · subst j
      rcases stop with h0 | hle
      · omega
      · exact hle
    · exact h.others j hj hn hji hp
  below := h.below

/-- A key smaller than its parent moves up one level. -/
theorem UpReady.exchange {k : Nat → α} {n i : Nat} (h : UpReady k n i) (hi : 0 < i)
    (hn : i < n) (lt : k i < k (parent i)) :
    UpReady (HeapOrder.exchange k (parent i) i) n (parent i) := by
  have hpi := parent_lt hi
  -- the old parent key, now at i, stays at or below every key it is above
  have grand : 0 < parent i → k (parent (parent i)) ≤ k (parent i) :=
    fun hp => h.others (parent i) hp (by omega) (by omega)
  constructor
  · intro j hj hjn hjp
    by_cases hji : j = i
    · subst j
      rw [exchange_left, exchange_right]
      exact le_of_lt lt
    · rw [exchange_other k hjp hji]
      by_cases hpp : parent j = parent i
      · rw [hpp, exchange_left]
        have old := h.others j hj hjn hji
        rw [hpp] at old
        exact le_trans (le_of_lt lt) old
      · by_cases hpi' : parent j = i
        · rw [hpi', exchange_right]
          exact h.below j hj hjn hpi' hi
        · rw [exchange_other k hpp hpi']
          exact h.others j hj hjn hji
  · intro j hj hjn hjp hp
    have hgi : parent (parent i) < parent i := parent_lt hp
    rw [exchange_other k (by omega) (by omega)]
    by_cases hji : j = i
    · rw [hji, exchange_right]
      exact grand hp
    · have hjne : j ≠ parent i := by
        intro e
        rw [e] at hjp
        omega
      rw [exchange_other k hjne hji]
      have old := h.others j hj hjn hji
      rw [hjp] at old
      exact le_trans (grand hp) old

/-- A key larger than its smaller child `c` moves down one level. -/
theorem DownReady.exchange {k : Nat → α} {n i c : Nat} (h : DownReady k n i) (hc : 0 < c)
    (hcn : c < n) (child : parent c = i) (lt : k c < k i)
    (least : ∀ j, 0 < j → j < n → parent j = i → k c ≤ k j) :
    DownReady (HeapOrder.exchange k c i) n c := by
  have hic : i < c := child ▸ parent_lt hc
  constructor
  · intro j hj hjn hjp
    by_cases hji : j = i
    · subst j
      have hpi : parent i < i := parent_lt hj
      rw [exchange_right, exchange_other k (by omega) (by omega)]
      exact h.below c hc hcn child hj
    · by_cases hjc : j = c
      · subst j
        rw [child, exchange_left, exchange_right]
        exact le_of_lt lt
      · rw [exchange_other k hjc hji]
        by_cases hpi : parent j = i
        · rw [hpi, exchange_right]
          exact least j hj hjn hpi
        · rw [exchange_other k hjp hpi]
          exact h.others j hj hjn hpi
  · intro j hj hjn hjp _
    have hcj : c < j := hjp ▸ parent_lt hj
    rw [child, exchange_right, exchange_other k (by omega) (by omega)]
    have old := h.others j hj hjn (by omega)
    rwa [hjp] at old

end HeapOrder
