import DistWalk.KeyedTable

/-!
# Visiting a table while entries leave it

The ready entries of a table are visited one after the other, each call going on from
the position that the last one left. An entry that comes once is deleted on its visit:
the last entry takes its place, and the position stays. Every ready entry is visited
once, and what is left are the entries that are not ready or stay.
-/

namespace SwapIteration

open KeyedTable
open scoped List

universe u v w

/-! ## Deletion at a position -/

section Table

variable {α : Type u}

theorem getLast_dropLast_perm (b : List α) : (b.getLast?.toList ++ b.dropLast).Perm b := by
  cases split : b.getLast? with
  | none => simp [List.getLast?_eq_none_iff.mp split]
  | some last =>
    have whole : b.dropLast ++ [last] = b := List.dropLast_append_getLast? last split
    have moved : ([last] ++ b.dropLast).Perm (b.dropLast ++ [last]) := List.perm_append_comm
    rw [whole] at moved
    exact moved

/-- What stands before the deleted entry stays, and of what stands behind it the last
entry comes first. -/
theorem swapDelete_append (a b : List α) (x : α) :
    swapDelete (a ++ x :: b) a.length = a ++ (b.getLast?.toList ++ b.dropLast) := by
  cases split : b.getLast? with
  | none =>
    have empty := List.getLast?_eq_none_iff.mp split
    subst empty
    simp [swapDelete]
  | some last =>
    have nonempty : b ≠ [] := by
      rintro rfl
      cases split
    have ends : (a ++ x :: b).getLast? = some last := by
      rw [List.getLast?_append_cons, List.getLast?_cons, split]
      rfl
    have inner : a.length < (a ++ x :: b).length - 1 := by
      have := List.length_pos_iff.mpr nonempty
      simp only [List.length_append, List.length_cons]
      omega
    have front : (a ++ x :: b).dropLast = a ++ x :: b.dropLast := by
      rw [List.dropLast_append_of_ne_nil (List.cons_ne_nil x b), List.dropLast_cons_of_ne_nil nonempty]
    rw [swapDelete, ends]
    simp only [if_pos inner, front]
    rw [List.set_append_right _ _ (le_refl _), Nat.sub_self]
    rfl

variable (ready once : α → Bool)

/-- The entries that will still be visited. -/
def pending (l : List α) (i : Nat) : List α := (l.drop i).filter ready

/-- The entries that will be left. -/
def left (l : List α) (i : Nat) : List α := l.take i ++ (l.drop i).filter fun a => !(ready a && once a)

/-- The table and the position after the visit of the entry at `j`. -/
def visit (l : List α) (j : Nat) (e : α) : List α × Nat := if once e then (swapDelete l j, j) else (l, j + 1)

/-- The entry at `j` is the first one from `i` on that is ready. -/
structure First (l : List α) (i j : Nat) (e : α) : Prop where
  le : i ≤ j
  here : l[j]? = some e
  isReady : ready e = true
  passed : ∀ x, i ≤ x → x < j → ∀ a, l[x]? = some a → ready a = false

/-- No entry is ready from `i` on. -/
def NoneFrom (l : List α) (i : Nat) : Prop := ∀ x, i ≤ x → ∀ a, l[x]? = some a → ready a = false

variable {ready} {l : List α} {i j : Nat} {e : α}

theorem NoneFrom.pending (h : NoneFrom ready l i) : pending ready l i = [] := by
  refine List.filter_eq_nil_iff.mpr fun a member => ?_
  obtain ⟨k, there⟩ := List.mem_iff_getElem?.mp member
  rw [List.getElem?_drop] at there
  simp [h (i + k) (Nat.le_add_right i k) a there]

theorem NoneFrom.left (h : NoneFrom ready l i) : left ready once l i = l := by
  have all : (l.drop i).filter (fun a => !(ready a && once a)) = l.drop i := by
    refine List.filter_eq_self.mpr fun a member => ?_
    obtain ⟨k, there⟩ := List.mem_iff_getElem?.mp member
    rw [List.getElem?_drop] at there
    simp [h (i + k) (Nat.le_add_right i k) a there]
  rw [SwapIteration.left, all, List.take_append_drop]

/-- The entries before the position, those that are passed, the entry and the rest. -/
theorem First.split (h : First ready l i j e) : ∃ a passed rest, l = a ++ (passed ++ e :: rest) ∧ a.length = i ∧
    (a ++ passed).length = j ∧ ∀ x ∈ passed, ready x = false := by
  obtain ⟨bound, here⟩ := List.getElem?_eq_some_iff.mp h.here
  have le := h.le
  refine ⟨l.take i, (l.drop i).take (j - i), l.drop (j + 1), ?_, ?_, ?_, ?_⟩
  · have tail : l.drop j = e :: l.drop (j + 1) := by rw [List.drop_eq_getElem_cons bound, here]
    have middle : (l.drop i).drop (j - i) = l.drop j := by
      rw [List.drop_drop]
      congr 1
      omega
    rw [← tail, ← middle, List.take_append_drop, List.take_append_drop]
  · rw [List.length_take]
    omega
  · rw [List.length_append, List.length_take, List.length_take, List.length_drop]
    omega
  · intro x member
    obtain ⟨k, there⟩ := List.mem_iff_getElem?.mp member
    rw [List.getElem?_take] at there
    split at there
    · rename_i inside
      rw [List.getElem?_drop] at there
      exact h.passed (i + k) (by omega) (by omega) x there
    · cases there

/-- The visit takes the entry out of those that will be visited. -/
theorem First.pending_visit (h : First ready l i j e) :
    (pending ready l i).Perm (e :: pending ready (visit once l j e).1 (visit once l j e).2) := by
  obtain ⟨a, passed, rest, rfl, rfl, rfl, idle⟩ := h.split
  have skipped : passed.filter ready = [] := List.filter_eq_nil_iff.mpr fun x member => by simp [idle x member]
  have before : pending ready (a ++ (passed ++ e :: rest)) a.length = e :: rest.filter ready := by
    rw [pending, List.drop_left, List.filter_append, skipped, List.nil_append, List.filter_cons_of_pos h.isReady]
  rw [before, ← List.append_assoc]
  refine List.Perm.cons e ?_
  rw [visit]
  split
  · rw [swapDelete_append, pending, List.drop_left]
    exact ((getLast_dropLast_perm rest).filter ready).symm
  · have behind : (a ++ passed ++ e :: rest).drop ((a ++ passed).length + 1) = rest := by
      rw [List.drop_append, List.drop_of_length_le (Nat.le_succ _), List.nil_append]
      simp
    rw [pending, behind]

/-- The visit does not change what will be left. -/
theorem First.left_visit (h : First ready l i j e) :
    (left ready once (visit once l j e).1 (visit once l j e).2).Perm (left ready once l i) := by
  obtain ⟨a, passed, rest, rfl, rfl, rfl, idle⟩ := h.split
  have stay : passed.filter (fun x => !(ready x && once x)) = passed :=
    List.filter_eq_self.mpr fun x member => by simp [idle x member]
  have before : left ready once (a ++ (passed ++ e :: rest)) a.length =
      a ++ (passed ++ (e :: rest).filter fun x => !(ready x && once x)) := by
    rw [left, List.take_left, List.drop_left, List.filter_append, stay]
  rw [before, ← List.append_assoc, ← List.append_assoc, visit]
  cases comes : once e with
  | true =>
    rw [if_pos rfl, swapDelete_append, left, List.take_left, List.drop_left,
      List.filter_cons_of_neg (by simp [h.isReady, comes])]
    exact ((getLast_dropLast_perm rest).filter _).append_left _
  | false =>
    have behind : (a ++ passed ++ e :: rest).drop ((a ++ passed).length + 1) = rest := by
      rw [List.drop_append, List.drop_of_length_le (Nat.le_succ _), List.nil_append]
      simp
    have upTo : (a ++ passed ++ e :: rest).take ((a ++ passed).length + 1) = a ++ passed ++ [e] := by
      rw [List.take_append, List.take_of_length_le (Nat.le_succ _)]
      simp
    rw [if_neg (by simp), left, behind, upTo, List.filter_cons_of_pos (by simp [comes]), List.append_assoc,
      List.singleton_append]

/-- After the visit fewer entries stand from the position on, and the position is inside. -/
theorem First.shorter (h : First ready l i j e) : (visit once l j e).2 ≤ (visit once l j e).1.length ∧
    (visit once l j e).1.length - (visit once l j e).2 < l.length - i := by
  obtain ⟨bound, -⟩ := List.getElem?_eq_some_iff.mp h.here
  have le := h.le
  have deleted := (swapDelete_perm l bound).length_eq
  simp only [List.length_cons] at deleted
  rw [visit]
  split
  · simp only
    omega
  · simp only
    omega

end Table

/-! ## Until nothing comes -/

section Draining

variable {τ : Type v} {ρ : Type w} (next : τ → τ × Option ρ)

/-- The calls up to the first one that returns nothing, and what they return. -/
inductive Drains : τ → List ρ → τ → Prop
  | stop {t t' : τ} (last : next t = (t', none)) : Drains t [] t'
  | more {t t' t'' : τ} {r : ρ} {rs : List ρ} (first : next t = (t', some r)) (rest : Drains t' rs t'') :
      Drains t (r :: rs) t''

variable {next}

/-- The calls come to an end and return what was due, if each of them makes a measure
smaller and returns one of the things that are due. -/
theorem exists_drains (μ : τ → Nat) (due : τ → List ρ) (inv post : τ → Prop)
    (more : ∀ t t' r, inv t → next t = (t', some r) → inv t' ∧ μ t' < μ t ∧ (due t).Perm (r :: due t'))
    (stop : ∀ t t', inv t → next t = (t', none) → post t' ∧ due t = []) {t : τ} (start : inv t) :
    ∃ rs t', Drains next t rs t' ∧ rs.Perm (due t) ∧ post t' := by
  induction size : μ t using Nat.strong_induction_on generalizing t with
  | _ n ih =>
    cases called : next t with
    | mk t' r =>
      cases r with
      | none =>
        obtain ⟨good, nothing⟩ := stop t t' start called
        exact ⟨[], t', .stop called, by rw [nothing], good⟩
      | some r =>
        obtain ⟨kept, smaller, due_⟩ := more t t' r start called
        obtain ⟨rs, t'', rest, all, good⟩ := ih (μ t') (size ▸ smaller) kept rfl
        exact ⟨r :: rs, t'', .more called rest, (all.cons r).trans due_.symm, good⟩

end Draining

end SwapIteration
