import Mathlib

/-!
# Windows on a circular array

The cells of a circular array of `cap` cells that an occupied region of `n` cells
covers from `head` on. A region grows at its back and shrinks at both ends; while it
is no longer than the array, no cell is covered twice.
-/

namespace CircularWindow

def window (cap head n : Nat) : List Nat := (List.range n).map fun k => (head + k) % cap

variable {cap head n : Nat}

@[simp] theorem window_zero (cap head : Nat) : window cap head 0 = [] := rfl

@[simp] theorem length_window (cap head n : Nat) : (window cap head n).length = n := by simp [window]

/-- The region grows at its back. -/
theorem window_back (cap head n : Nat) : window cap head (n + 1) = window cap head n ++ [(head + n) % cap] := by
  simp [window, List.range_succ]

/-- The cell at the front, and the region behind it. -/
theorem window_front (cap head n : Nat) : window cap head (n + 1) = head % cap :: window cap (head + 1) n := by
  simp only [window, List.range_succ_eq_map, List.map_cons, List.map_map, Nat.add_zero]
  congr 1
  refine List.map_congr_left fun k _ => ?_
  simp only [Function.comp_apply]
  congr 1
  omega

/-- A region is one region behind another. -/
theorem window_add (cap head n m : Nat) :
    window cap head (n + m) = window cap head n ++ window cap (head + n) m := by
  induction m with
  | zero => simp
  | succ m ih =>
    rw [← Nat.add_assoc, window_back, ih, window_back, List.append_assoc, Nat.add_assoc]

theorem window_mod (cap head n : Nat) : window cap (head % cap) n = window cap head n := by
  simp [window, Nat.mod_add_mod]

/-- Two cells of a region that the array holds are not the same. -/
theorem offset_injective {i j : Nat} (hi : i < cap) (hj : j < cap) (same : (head + i) % cap = (head + j) % cap) :
    i = j := by
  have congruent : i ≡ j [MOD cap] := Nat.ModEq.add_left_cancel' head same
  rwa [Nat.ModEq, Nat.mod_eq_of_lt hi, Nat.mod_eq_of_lt hj] at congruent

theorem nodup_window (fits : n ≤ cap) : (window cap head n).Nodup := by
  refine List.Nodup.map_on (fun i hi j hj same => ?_) List.nodup_range
  rw [List.mem_range] at hi hj
  exact offset_injective (by omega) (by omega) same

/-- The cell behind a region that leaves one free. -/
theorem next_notMem_window (room : n < cap) : (head + n) % cap ∉ window cap head n := by
  have distinct : (window cap head (n + 1)).Nodup := nodup_window (Nat.succ_le_of_lt room)
  rw [window_back, List.nodup_append] at distinct
  intro inside
  exact distinct.2.2 _ inside _ (List.mem_singleton_self _) rfl

/-- A region that does not reach beyond the last cell. -/
theorem window_straight (straight : head + n ≤ cap) : window cap head n = List.range' head n := by
  induction n generalizing head with
  | zero => rfl
  | succ n ih =>
    rw [window_front, ih (by omega), List.range'_succ, Nat.mod_eq_of_lt (by omega)]

end CircularWindow
