import Mathlib.Logic.Function.Basic
import Mathlib.Data.List.Basic

/-!
# Chains of next pointers

The cells that a chain of pointers visits, from its first cell to the one without a
successor. A pointer determines its chain, and writing the successor of a cell of the
chain replaces what comes behind it.
-/

namespace LinkedChain

universe u
variable {α : Type u}

/-- From the pointer `p` on, the chain visits the cells of the list. -/
inductive Linked (next : α → Option α) : Option α → List α → Prop
  | nil : Linked next none []
  | cons {a : α} {rest : List α} (later : Linked next (next a) rest) : Linked next (some a) (a :: rest)

variable {next next' : α → Option α} {p : Option α} {l : List α}

theorem Linked.unique {l' : List α} (h : Linked next p l) (h' : Linked next p l') : l = l' := by
  induction h generalizing l' with
  | nil =>
    cases h'
    rfl
  | cons later ih =>
    cases h' with
    | cons later' => rw [ih later']

theorem Linked.congr (h : Linked next p l) (same : ∀ a ∈ l, next' a = next a) : Linked next' p l := by
  induction h with
  | nil => exact .nil
  | cons later ih =>
    apply Linked.cons
    rw [same _ (List.mem_cons_self ..)]
    exact ih fun b inside => same b (List.mem_cons_of_mem _ inside)

/-- The chain begins with its first cell. -/
theorem Linked.head (h : Linked next p l) : p = l.head? := by
  cases h with
  | nil => rfl
  | cons later => rfl

/-- Behind the cells that keep their successors the chain goes on as `a` now says. -/
theorem Linked.relink {front behind : List α} {a : α} {rest : List α}
    (h : Linked next p (front ++ a :: behind)) (same : ∀ b ∈ front, next' b = next b)
    (later : Linked next' (next' a) rest) : Linked next' p (front ++ a :: rest) := by
  induction front generalizing p with
  | nil =>
    cases h
    exact .cons later
  | cons b front ih =>
    cases h with
    | cons after =>
      apply Linked.cons
      rw [same b (List.mem_cons_self ..)]
      exact ih after fun c inside => same c (List.mem_cons_of_mem _ inside)

end LinkedChain
