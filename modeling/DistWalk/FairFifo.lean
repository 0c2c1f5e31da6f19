import Mathlib.Data.List.Basic

/-!
# Fair queues

A queue over time: an instant may take the head and may append at the end. If heads are
taken again and again, whatever stands in the queue is taken. `taken` counts the taken
elements that satisfy `p`.
-/

namespace FairFifo

universe u

variable {α : Type u}

structure Fifo (p : α → Bool) (queue : Nat → List α) (taken : Nat → Nat) (takes : Nat → Prop) :
    Prop where
  take : ∀ n, takes n →
    (∃ new, queue (n + 1) = (queue n).tail ++ new) ∧
      taken (n + 1) = taken n + ((queue n).take 1).countP p
  keep : ∀ n, ¬ takes n → (∃ new, queue (n + 1) = queue n ++ new) ∧ taken (n + 1) = taken n

variable {p : α → Bool} {queue : Nat → List α} {taken : Nat → Nat} {takes : Nat → Prop}

/-- Until the next head is taken, the queue only grows. -/
theorem Fifo.next_take (h : Fifo p queue taken takes) {n : Nat} (again : ∃ m, n ≤ m ∧ takes m) :
    ∃ m, n ≤ m ∧ takes m ∧ (∃ new, queue m = queue n ++ new) ∧ taken m = taken n := by
  obtain ⟨m, later, takesThere⟩ := again
  obtain ⟨d, rfl⟩ := Nat.exists_eq_add_of_le later
  induction d generalizing n with
  | zero => exact ⟨n, Nat.le_refl n, takesThere, ⟨[], (List.append_nil _).symm⟩, rfl⟩
  | succ d ih =>
    by_cases now : takes n
    · exact ⟨n, Nat.le_refl n, now, ⟨[], (List.append_nil _).symm⟩, rfl⟩
    · obtain ⟨⟨new, grown⟩, same⟩ := h.keep n now
      have shifted : n + (d + 1) = n + 1 + d := by omega
      rw [shifted] at takesThere
      obtain ⟨m, after, there, ⟨more, grown'⟩, same'⟩ := ih (by omega) takesThere
      refine ⟨m, by omega, there, ⟨new ++ more, ?_⟩, same'.trans same⟩
      rw [grown', grown, List.append_assoc]

theorem Fifo.takes_first (h : Fifo p queue taken takes) (fair : ∀ n, ∃ m, n ≤ m ∧ takes m)
    (n k : Nat) (within : k ≤ (queue n).length) :
    ∃ m, n ≤ m ∧ (∃ new, queue m = (queue n).drop k ++ new) ∧
      taken m = taken n + ((queue n).take k).countP p := by
  induction k with
  | zero => exact ⟨n, Nat.le_refl n, ⟨[], by simp⟩, by simp⟩
  | succ k ih =>
    obtain ⟨m, later, ⟨new, rest⟩, count⟩ := ih (by omega)
    obtain ⟨m', later', now, ⟨more, grown⟩, same⟩ := h.next_take (fair m)
    obtain ⟨⟨last, tail⟩, counted⟩ := h.take m' now
    have inside : k < (queue n).length := by omega
    have split : (queue n).drop k = (queue n)[k] :: (queue n).drop (k + 1) :=
      List.drop_eq_getElem_cons inside
    rw [rest, split, List.cons_append, List.cons_append] at grown
    refine ⟨m' + 1, by omega, ⟨new ++ more ++ last, ?_⟩, ?_⟩
    · rw [tail, grown, List.tail_cons, List.append_assoc, List.append_assoc, List.append_assoc]
    · have head : (queue m').take 1 = [(queue n)[k]] := by
        rw [grown, List.take_succ_cons, List.take_zero]
      rw [counted, head, same, count, List.take_add_one, List.getElem?_eq_getElem inside,
        List.countP_append, Option.toList_some, Nat.add_assoc]

/-- Everything that stands in a fair queue is taken. -/
theorem Fifo.takes_all (h : Fifo p queue taken takes) (fair : ∀ n, ∃ m, n ≤ m ∧ takes m) (n : Nat) :
    ∃ m, n ≤ m ∧ taken m = taken n + (queue n).countP p := by
  obtain ⟨m, later, -, count⟩ := h.takes_first fair n (queue n).length (Nat.le_refl _)
  rw [List.take_length] at count
  exact ⟨m, later, count⟩

end FairFifo
