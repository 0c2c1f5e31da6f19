import Mathlib

/-!
# Doubly linked slots with blocks in a buffer

Slots of a table are threaded by `next` and `prev` from the newest to the oldest,
and the block of each slot lies in a buffer below the blocks of all newer ones.
The two facts are kept apart: `Linked` speaks of the pointers only, `Stacked` of
the addresses only. Taking a slot out of the middle closes the gap of its block by
moving the newer blocks down.
-/

namespace ThreadedBlocks

/-! ## Pointers -/

section Pointers

variable (next prev : Nat → Option Nat)

/-- `l` is threaded from its head on; `before` is what the head points back to. -/
def Linked : Option Nat → List Nat → Prop
  | _, [] => True
  | before, s :: rest => prev s = before ∧ next s = rest.head? ∧ Linked (some s) rest

/-- The slots met when `prev` is followed from `start` to the end. -/
def Rising : Option Nat → List Nat → Prop
  | start, [] => start = none
  | start, s :: rest => start = some s ∧ Rising (prev s) rest

variable {next prev} {next' prev' : Nat → Option Nat}

theorem Linked.congr {before : Option Nat} {l : List Nat} (h : Linked next prev before l)
    (same : ∀ s ∈ l, next' s = next s ∧ prev' s = prev s) : Linked next' prev' before l := by
  induction l generalizing before with
  | nil => trivial
  | cons s rest ih =>
    obtain ⟨back, forth, later⟩ := h
    obtain ⟨sameNext, samePrev⟩ := same s (List.mem_cons_self ..)
    exact ⟨samePrev.trans back, sameNext.trans forth,
      ih later fun x hx => same x (List.mem_cons_of_mem _ hx)⟩

theorem Linked.prev_eq {before : Option Nat} {a t : List Nat} {s : Nat}
    (h : Linked next prev before (a ++ s :: t)) : prev s = a.getLast?.or before := by
  induction a generalizing before with
  | nil => exact h.1
  | cons x a ih =>
    rw [ih h.2.2]
    cases last : a.getLast? with
    | none => simp [List.getLast?_cons, last]
    | some y => simp [List.getLast?_cons, last]

theorem Linked.next_eq {before : Option Nat} {a t : List Nat} {s : Nat}
    (h : Linked next prev before (a ++ s :: t)) : next s = t.head? := by
  induction a generalizing before with
  | nil => exact h.2.1
  | cons x a ih => exact ih h.2.2

/-- The pointers and the head determine the list. -/
theorem Linked.unique {before before' : Option Nat} {l l' : List Nat} (h : Linked next prev before l)
    (h' : Linked next prev before' l') (head : l.head? = l'.head?) : l = l' := by
  induction l generalizing before before' l' with
  | nil => exact (List.head?_eq_none_iff.mp head.symm).symm
  | cons s rest ih =>
    cases l' with
    | nil => cases head
    | cons s' rest' =>
      cases head
      rw [ih h.2.2 h'.2.2 (h.2.1.symm.trans h'.2.1)]

/-- Following `prev` from a slot meets the newer slots, the nearest first. -/
theorem Linked.rising {a t : List Nat} {s : Nat} (h : Linked next prev none (a ++ s :: t)) :
    Rising prev (prev s) a.reverse := by
  induction a using List.reverseRecOn generalizing s t with
  | nil => exact h.1
  | append_singleton a x ih =>
    have back : prev s = some x := by simpa using h.prev_eq
    rw [List.append_assoc] at h
    simp only [List.reverse_append, List.reverse_cons, List.reverse_nil, List.nil_append,
      List.singleton_append]
    exact ⟨back, ih h⟩

/-- A slot leaves the list: its neighbours point to each other. -/
structure Unlinks (next prev next' prev' : Nat → Option Nat) (s : Nat) (l : List Nat) : Prop where
  forth : ∀ x ∈ l, next' x = if prev s = some x then next s else next x
  back : ∀ x ∈ l, prev' x = if next s = some x then prev s else prev x

theorem Linked.unlink {before : Option Nat} {a t : List Nat} {s : Nat}
    (h : Linked next prev before (a ++ s :: t)) (distinct : (a ++ s :: t).Nodup)
    (outside : ∀ x, before = some x → x ∉ a ++ s :: t)
    (u : Unlinks next prev next' prev' s (a ++ t)) : Linked next' prev' before (a ++ t) := by
  have back := h.prev_eq
  have forth := h.next_eq
  induction a generalizing before with
  | nil =>
    cases t with
    | nil => trivial
    | cons y t =>
      obtain ⟨-, -, hy, hyn, later⟩ := h
      have notBack : ∀ x ∈ y :: t, prev s ≠ some x := by
        intro x hx e
        have e' : before = some x := by rw [← e, back]; rfl
        exact outside x e' (List.mem_cons_of_mem _ hx)
      have fresh : y ∉ t := (List.nodup_cons.mp (List.nodup_cons.mp distinct).2).1
      refine ⟨?_, ?_, later.congr fun x hx => ?_⟩
      · have here : next s = some y := forth
        rw [u.back y (by simp), if_pos here, back]
        rfl
      · rw [u.forth y (by simp), if_neg (notBack y (by simp)), hyn]
      · have other : ¬ next s = some x := by
          rw [forth]
          intro e
          cases e
          exact fresh hx
        have mem : x ∈ [] ++ y :: t := by simp [hx]
        rw [u.forth x mem, u.back x mem, if_neg (notBack x (by simp [hx])), if_neg other]
        exact ⟨rfl, rfl⟩
  | cons x a ih =>
    obtain ⟨hx, hxn, later⟩ := h
    have distinct' := List.nodup_cons.mp distinct
    have back' := later.prev_eq
    refine ⟨?_, ?_, ih later distinct'.2 ?_ ⟨fun y hy => u.forth y ?_, fun y hy => u.back y ?_⟩ back'⟩
    · have other : ¬ next s = some x := by
        rw [forth]
        intro e
        exact distinct'.1 (List.mem_append_right _ (List.mem_cons_of_mem _ (List.mem_of_mem_head? e)))
      rw [u.back x (by simp), if_neg other, hx]
    · rw [u.forth x (by simp)]
      cases a with
      | nil =>
        have here : prev s = some x := by rw [back']; rfl
        rw [if_pos here, forth]
        rfl
      | cons z a =>
        have other : ¬ prev s = some x := by
          rw [back']
          intro e
          have inside : x ∈ z :: a := by
            cases last : (z :: a).getLast? with
            | none => simp at last
            | some y =>
              rw [last] at e
              cases e
              exact List.mem_of_getLast? last
          exact distinct'.1 (List.mem_append_left _ inside)
        rw [if_neg other, hxn]
        rfl
    · intro y e
      cases e
      exact distinct'.1
    · exact List.mem_cons_of_mem _ hy
    · exact List.mem_cons_of_mem _ hy

/-- A new head. -/
theorem Linked.push {l : List Nat} {s : Nat} (h : Linked next prev none l) (fresh : s ∉ l)
    (distinct : l.Nodup) (head : next' s = l.head?) (first : prev' s = none)
    (back : ∀ x ∈ l, prev' x = if l.head? = some x then some s else prev x)
    (forth : ∀ x ∈ l, next' x = next x) : Linked next' prev' none (s :: l) := by
  refine ⟨first, head, ?_⟩
  cases l with
  | nil => trivial
  | cons y l =>
    obtain ⟨-, hyn, later⟩ := h
    refine ⟨?_, (forth y (by simp)).trans hyn, later.congr fun x hx => ⟨forth x (by simp [hx]), ?_⟩⟩
    · rw [back y (by simp)]
      exact if_pos rfl
    · have other : ¬ (y :: l).head? = some x := by
        intro e
        cases e
        exact (List.nodup_cons.mp distinct).1 hx
      rw [back x (by simp [hx]), if_neg other]

end Pointers

/-! ## Blocks -/

section Blocks

/-- The blocks of `l` lie below `top`, each below the one before it. `at_` gives the
address of a slot's block, `size` the size of the block at an address. -/
def Stacked (at_ : Nat → Option Nat) (size : Nat → Nat) (least : Nat) : Nat → List Nat → Prop
  | _, [] => True
  | top, s :: rest => ∃ p, at_ s = some p ∧ least ≤ size p ∧ p + size p ≤ top ∧
      Stacked at_ size least p rest

/-- The size of the block of a slot. -/
def blockSize (at_ : Nat → Option Nat) (size : Nat → Nat) (s : Nat) : Nat := (at_ s).elim 0 size

variable {at_ at_' : Nat → Option Nat} {size size' : Nat → Nat} {least : Nat}

theorem Stacked.mono {top top' : Nat} {l : List Nat} (h : Stacked at_ size least top l)
    (le : top ≤ top') : Stacked at_ size least top' l := by
  cases l with
  | nil => trivial
  | cons s rest =>
    obtain ⟨p, place, large, fits, below⟩ := h
    exact ⟨p, place, large, Nat.le_trans fits le, below⟩

theorem Stacked.mem {top : Nat} {l : List Nat} (h : Stacked at_ size least top l) {s : Nat}
    (hs : s ∈ l) : ∃ p, at_ s = some p ∧ least ≤ size p ∧ p + size p ≤ top := by
  induction l generalizing top with
  | nil => cases hs
  | cons x rest ih =>
    obtain ⟨p, place, large, fits, below⟩ := h
    rcases List.mem_cons.mp hs with rfl | later
    · exact ⟨p, place, large, fits⟩
    · obtain ⟨q, place', large', fits'⟩ := ih below later
      exact ⟨q, place', large', by omega⟩

theorem Stacked.congr {top : Nat} {l : List Nat} (h : Stacked at_ size least top l)
    (place : ∀ s ∈ l, at_' s = at_ s) (same : ∀ s ∈ l, ∀ p, at_ s = some p → size' p = size p) :
    Stacked at_' size' least top l := by
  induction l generalizing top with
  | nil => trivial
  | cons s rest ih =>
    obtain ⟨p, here, large, fits, below⟩ := h
    have size_p := same s (by simp) p here
    refine ⟨p, (place s (by simp)).trans here, by omega, by omega, ih below ?_ ?_⟩
    · exact fun x hx => place x (by simp [hx])
    · exact fun x hx => same x (by simp [hx])

/-- Two blocks of a stack do not overlap. -/
theorem Stacked.apart {top : Nat} {l : List Nat} (h : Stacked at_ size least top l)
    {s t p q : Nat} (hs : s ∈ l) (ht : t ∈ l) (hp : at_ s = some p) (hq : at_ t = some q) :
    p = q ∨ p + size p ≤ q ∨ q + size q ≤ p := by
  induction l generalizing top with
  | nil => cases hs
  | cons x rest ih =>
    obtain ⟨a, here, large, fits, below⟩ := h
    rcases List.mem_cons.mp hs with own | later
    · subst own
      rcases List.mem_cons.mp ht with own' | later'
      · subst own'
        exact Or.inl (Option.some.inj (hp.symm.trans hq))
      · obtain ⟨b, there, -, lower⟩ := below.mem later'
        rw [here] at hp
        rw [there] at hq
        cases hp
        cases hq
        exact Or.inr (Or.inr lower)
    · rcases List.mem_cons.mp ht with own' | later'
      · subst own'
        obtain ⟨b, there, -, lower⟩ := below.mem later
        rw [here] at hq
        rw [there] at hp
        cases hp
        cases hq
        exact Or.inr (Or.inl lower)
      · exact ih below later later'

theorem Stacked.nodup {top : Nat} {l : List Nat} (h : Stacked at_ size least top l) (some_ : 0 < least) :
    l.Nodup := by
  induction l generalizing top with
  | nil => exact List.nodup_nil
  | cons s rest ih =>
    obtain ⟨p, here, large, fits, below⟩ := h
    refine List.nodup_cons.mpr ⟨fun again => ?_, ih below⟩
    obtain ⟨q, there, large', lower⟩ := below.mem again
    rw [here] at there
    cases there
    omega

/-- The blocks below a slot of the stack and those above it. -/
theorem Stacked.split {top p : Nat} {a t : List Nat} {s : Nat}
    (h : Stacked at_ size least top (a ++ s :: t)) (hp : at_ s = some p) :
    p + size p ≤ top ∧ Stacked at_ size least p t ∧
      ∀ x ∈ a, ∃ q, at_ x = some q ∧ p + size p ≤ q := by
  induction a generalizing top with
  | nil =>
    obtain ⟨q, here, -, fits, below⟩ := h
    rw [hp] at here
    cases here
    exact ⟨fits, below, fun x hx => by cases hx⟩
  | cons x a ih =>
    obtain ⟨q, here, -, fits, below⟩ := h
    obtain ⟨lower, rest, others⟩ := ih below
    refine ⟨by omega, rest, fun y hy => ?_⟩
    rcases List.mem_cons.mp hy with rfl | hy
    · exact ⟨q, here, lower⟩
    · exact others y hy

/-- A block is taken out and the others stay where they are. -/
theorem Stacked.remove {top : Nat} {a t : List Nat} {s : Nat}
    (h : Stacked at_ size least top (a ++ s :: t)) : Stacked at_ size least top (a ++ t) := by
  induction a generalizing top with
  | nil =>
    obtain ⟨p, -, -, fits, below⟩ := h
    exact below.mono (by omega)
  | cons x a ih =>
    obtain ⟨q, here, large, fits, below⟩ := h
    exact ⟨q, here, large, fits, ih below⟩

/-- The block of `s` is taken out and the newer blocks move down by its size. -/
structure Closes (at_ at_' : Nat → Option Nat) (size size' : Nat → Nat) (n : Nat) (a t : List Nat) :
    Prop where
  moved : ∀ x ∈ a, ∀ q, at_ x = some q → at_' x = some (q - n) ∧ size' (q - n) = size q
  kept : ∀ x ∈ t, at_' x = at_ x
  same : ∀ x ∈ t, ∀ q, at_ x = some q → size' q = size q

theorem Stacked.close {top p : Nat} {a t : List Nat} {s : Nat}
    (h : Stacked at_ size least top (a ++ s :: t)) (hp : at_ s = some p)
    (c : Closes at_ at_' size size' (size p) a t) : Stacked at_' size' least (top - size p) (a ++ t) := by
  induction a generalizing top with
  | nil =>
    obtain ⟨fits, below, -⟩ := Stacked.split (a := []) h hp
    exact (below.congr c.kept c.same).mono (by omega)
  | cons x a ih =>
    obtain ⟨q, here, large, fits, below⟩ := h
    have lower := (Stacked.split below hp).1
    obtain ⟨moved, size_q⟩ := c.moved x (by simp) q here
    refine ⟨q - size p, moved, by omega, by omega, ih below ⟨fun y hy => c.moved y (by simp [hy]), c.kept, c.same⟩⟩

/-- What is left of the total when a block is taken out. -/
theorem Closes.total {top p : Nat} {a t : List Nat} {s : Nat}
    (h : Stacked at_ size least top (a ++ s :: t)) (hp : at_ s = some p)
    (c : Closes at_ at_' size size' (size p) a t) :
    ((a ++ s :: t).map (blockSize at_ size)).sum =
      ((a ++ t).map (blockSize at_' size')).sum + size p := by
  have newer : ∀ x ∈ a, blockSize at_' size' x = blockSize at_ size x := by
    intro x hx
    obtain ⟨q, here, -⟩ := (Stacked.split h hp).2.2 x hx
    obtain ⟨moved, same⟩ := c.moved x hx q here
    simp only [blockSize, moved, here, Option.elim_some, same]
  have older : ∀ x ∈ t, blockSize at_' size' x = blockSize at_ size x := by
    intro x hx
    obtain ⟨q, here, -⟩ := (Stacked.split h hp).2.1.mem hx
    simp only [blockSize, c.kept x hx, here, Option.elim_some, c.same x hx q here]
  have own : blockSize at_ size s = size p := by simp only [blockSize, hp, Option.elim_some]
  simp only [List.map_append, List.map_cons, List.sum_append, List.sum_cons, own,
    List.map_congr_left newer, List.map_congr_left older]
  omega

end Blocks

end ThreadedBlocks
