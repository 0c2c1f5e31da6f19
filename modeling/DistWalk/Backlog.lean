import Mathlib.Algebra.Order.Group.Basic

/-!
# Backlogs

What is left to do when each round adds its own share, which may be negative, and never
leaves less than a floor: the recursion of a queue with one server.
-/

namespace Backlog

variable {α : Type*} [AddCommGroup α] [LinearOrder α]

/-- The backlog after the rounds, from one of `x`. -/
def backlog (floor : α) : α → List α → α
  | x, [] => x
  | x, u :: us => backlog floor (max (x + u) floor) us

variable [IsOrderedAddMonoid α] {floor x : α} {us : List α}

/-- Where every round takes away at least `d`, nothing but the floor is left in the end. -/
theorem backlog_drains {d : α} (nonneg : 0 ≤ d) (drained : ∀ u ∈ us, u ≤ -d) :
    backlog floor x us ≤ max (x - us.length • d) floor := by
  induction us generalizing x with
  | nil => simp [backlog]
  | cons u us ih =>
    have taken : x + u ≤ x - d := by
      rw [sub_eq_add_neg]
      exact add_le_add_right (drained u List.mem_cons_self) x
    refine (ih fun v mem => drained v (List.mem_cons_of_mem u mem)).trans (max_le ?_ (le_max_right _ _))
    rcases max_choice (x + u) floor with first | second
    · rw [first]
      refine le_max_of_le_left ?_
      rw [List.length_cons, succ_nsmul', ← sub_sub]
      exact sub_le_sub_right taken _
    · rw [second]
      exact le_max_of_le_right (sub_le_self _ (nsmul_nonneg nonneg _))

end Backlog
