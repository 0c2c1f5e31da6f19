import DistWalk.CircularWindow

/-!
# The bounded queue of the command templates

`queue.c` keeps its nodes in an array with a head and a tail index. What a caller sees
is a bounded list, read from the head to the tail. The iterator compares its index with
the tail, so it reads the list only while the nodes lie in one piece and do not leave
room before the head alone; and removing at the tail steps below index 0.
-/

namespace BoundedQueue

open CircularWindow

universe u
variable {δ : Type u}

structure Node (δ : Type u) where
  key : Int
  data : δ

/-- `nodes` is the memory that `nodes[i]` addresses. -/
structure Queue (δ : Type u) where
  nodes : Int → Node δ
  head : Int
  tail : Int
  size : Int
  capacity : Int

/-- An `uint32_t` that is stored in an `int`. -/
def int32 (n : Nat) : Int := (BitVec.ofNat 32 n).toInt

/-- `heap` is what the allocated memory holds. -/
def queueAlloc (capacity : Nat) (heap : Int → Node δ) : Queue δ := ⟨heap, 0, -1, 0, int32 capacity⟩

/-- The queue, and the index of the new node or NULL. -/
def queueEnqueue (q : Queue δ) (key : Int) (data : δ) : Queue δ × Option Int :=
  if q.size = q.capacity then (q, none)
  else
    let tail := (q.tail + 1).tmod q.capacity
    ({ q with tail := tail, nodes := Function.update q.nodes tail ⟨key, data⟩, size := q.size + 1 }, some tail)

def queueDequeueHead (q : Queue δ) : Queue δ :=
  if q.size = 0 then q
  else { q with size := q.size - 1, head := (q.head + 1).tmod q.capacity }

def queueDequeueTail (q : Queue δ) : Queue δ :=
  if q.size = 0 then q
  else { q with size := q.size - 1, tail := (q.tail - 1).tmod q.capacity }

def queueDrop (q : Queue δ) : Queue δ := { q with head := 0, tail := -1, size := 0 }

def queueHead (q : Queue δ) : Option Int := if q.size = 0 then none else some q.head

def queueTail (q : Queue δ) : Option Int := if q.size = 0 then none else some q.tail

def queueItrBegin (q : Queue δ) : Int := q.head

def queueItrHasNext (q : Queue δ) (itr : Int) : Bool := decide (q.size ≠ 0 ∧ 0 ≤ itr ∧ itr ≤ q.tail)

def queueNode (q : Queue δ) (i : Int) : Option Int := if queueItrHasNext q i then some i else none

/-- The node and the iterator after it. -/
def queueItrNext (q : Queue δ) (itr : Int) : Option Int × Int :=
  if queueItrHasNext q itr then
    let next := (itr + 1).tmod q.capacity
    (queueNode q itr, if queueNode q next = queueHead q then -1 else next)
  else (none, itr)

/-- `while (queue_itr_has_next(q, itr)) queue_itr_next(q, &itr)` visits these nodes. -/
inductive Visits (q : Queue δ) : Int → List Int → Prop
  | done {itr : Int} (stop : queueItrHasNext q itr = false) : Visits q itr []
  | node {itr next i : Int} {rest : List Int} (more : queueItrHasNext q itr = true)
      (read : queueItrNext q itr = (some i, next)) (later : Visits q next rest) : Visits q itr (i :: rest)

inductive QueueCall (δ : Type u)
  | enqueue (key : Int) (data : δ)
  | dequeueHead
  | dequeueTail
  | drop

def apply (q : Queue δ) : QueueCall δ → Queue δ
  | .enqueue key data => (queueEnqueue q key data).1
  | .dequeueHead => queueDequeueHead q
  | .dequeueTail => queueDequeueTail q
  | .drop => queueDrop q

def run (q : Queue δ) (calls : List (QueueCall δ)) : Queue δ := calls.foldl apply q

/-! ## A bounded list -/

/-- What a call does to a list of at most `capacity` nodes. -/
def listed (capacity : Nat) (xs : List (Node δ)) : QueueCall δ → List (Node δ)
  | .enqueue key data => if xs.length = capacity then xs else xs ++ [⟨key, data⟩]
  | .dequeueHead => xs.tail
  | .dequeueTail => xs.dropLast
  | .drop => []

def listRun (capacity : Nat) (calls : List (QueueCall δ)) : List (Node δ) := calls.foldl (listed capacity) []

/-- An index of the array. -/
def Inside (q : Queue δ) (i : Int) : Prop := 0 ≤ i ∧ i < q.capacity

/-- At its two ends the queue is the list `xs`. -/
structure EndsAs (q : Queue δ) (xs : List (Node δ)) : Prop where
  size : q.size = xs.length
  head : (queueHead q).map q.nodes = xs.head? ∧ ∀ i, queueHead q = some i → Inside q i
  tail : (queueTail q).map q.nodes = xs.getLast? ∧ ∀ i, queueTail q = some i → Inside q i
  full : q.size = q.capacity → ∀ key data, queueEnqueue q key data = (q, none)
  room : q.size ≠ q.capacity → ∀ key data, ∃ i, (queueEnqueue q key data).2 = some i ∧ Inside q i ∧
    (queueEnqueue q key data).1.nodes i = ⟨key, data⟩

/-- The iterator visits the nodes of `xs`, each once and in order. -/
def IteratesAs (q : Queue δ) (xs : List (Node δ)) : Prop :=
  ∃ l, Visits q (queueItrBegin q) l ∧ l.map q.nodes = xs ∧ l.Nodup ∧ ∀ i ∈ l, Inside q i

/-- The nodes lie in one piece that starts at index 0 or ends before the last one. -/
def Straight (q : Queue δ) : Prop :=
  q.size = 0 ∨ q.head ≤ q.tail ∧ (q.head = 0 ∨ q.tail + 1 < q.capacity)

/-- A node besides the one at index 0 is left when that one is removed at the tail. -/
def StepsBelow (q : Queue δ) (call : QueueCall δ) : Prop :=
  match call with
  | .dequeueTail => q.tail = 0 ∧ 1 < q.size
  | _ => False

/-! ## The nodes of the array -/

/-- `head + n` wraps to the cell behind the tail, and a tail that is in use is an index. -/
structure Holds (capacity : Nat) (q : Queue δ) (h : Nat) (xs : List (Node δ)) : Prop where
  cells : q.capacity = capacity
  head : q.head = h
  below : h < capacity
  size : q.size = xs.length
  fits : xs.length ≤ capacity
  nodes : ((window capacity h xs.length).map fun i : Nat => q.nodes i) = xs
  behind : -1 ≤ q.tail ∧ q.tail < capacity
  next : (q.tail + 1).tmod capacity = ((h + xs.length) % capacity : Nat)
  used : xs ≠ [] → 0 ≤ q.tail

section Holds

variable {capacity h : Nat} {q : Queue δ} {xs : List (Node δ)}

theorem tmod_natCast (n capacity : Nat) : (n : Int).tmod capacity = (n % capacity : Nat) := by
  rw [Int.ofNat_tmod]

theorem holds_alloc (positive : 1 ≤ capacity) (fits : capacity < 2 ^ 31) (heap : Int → Node δ) :
    Holds capacity (queueAlloc capacity heap) 0 [] where
  cells := by
    have small : (BitVec.ofNat 32 capacity).toNat = capacity := by
      rw [BitVec.toNat_ofNat]
      exact Nat.mod_eq_of_lt (by omega)
    change (BitVec.ofNat 32 capacity).toInt = capacity
    rw [BitVec.toInt_eq_toNat_of_lt (by rw [small]; omega), small]
  head := rfl
  below := positive
  size := rfl
  fits := Nat.zero_le _
  nodes := rfl
  behind := ⟨le_refl _, by change (-1 : Int) < capacity; omega⟩
  next := by simp [queueAlloc]
  used := fun absurdly => absurd rfl absurdly

/-- In a queue with nodes the tail is the last cell of the window. -/
theorem Holds.tail_eq (held : Holds capacity q h xs) (nonempty : xs ≠ []) :
    q.tail = ((h + (xs.length - 1)) % capacity : Nat) := by
  have positive : 0 < xs.length := List.length_pos_iff.mpr nonempty
  obtain ⟨t, tail⟩ := Int.eq_ofNat_of_zero_le (held.used nonempty)
  have small : t < capacity := by
    have := held.behind.2
    omega
  have next := held.next
  rw [tail, ← Nat.cast_succ, tmod_natCast] at next
  have same : (t + 1) % capacity = (h + xs.length) % capacity := by exact_mod_cast next
  have congruent : t + 1 ≡ h + (xs.length - 1) + 1 [MOD capacity] := by
    rw [show h + (xs.length - 1) + 1 = h + xs.length by omega]
    exact same
  have reduced : t ≡ h + (xs.length - 1) [MOD capacity] := Nat.ModEq.add_right_cancel' 1 congruent
  rw [tail, ← Nat.mod_eq_of_lt small]
  exact_mod_cast reduced

theorem Holds.endsAs (held : Holds capacity q h xs) (positive : 1 ≤ capacity) : EndsAs q xs where
  size := held.size
  head := by
    cases xs with
    | nil => simp [queueHead, held.size]
    | cons x xs =>
      have nodes := held.nodes
      rw [List.length_cons, window_front, List.map_cons, List.cons.injEq, Nat.mod_eq_of_lt held.below] at nodes
      have occupied : q.size ≠ 0 := by rw [held.size, List.length_cons]; omega
      rw [queueHead, if_neg occupied, held.head]
      refine ⟨by simp [nodes.1], fun i e => ?_⟩
      cases e
      rw [Inside, held.cells]
      have := held.below
      omega
  tail := by
    rcases List.eq_nil_or_concat xs with rfl | ⟨ys, y, rfl⟩
    · simp [queueTail, held.size]
    · have tail := held.tail_eq (by simp)
      have nodes := held.nodes
      simp only [List.concat_eq_append, List.length_append, List.length_singleton] at nodes tail
      rw [window_back, List.map_append] at nodes
      have last := (List.append_inj' nodes rfl).2
      rw [Nat.add_sub_cancel] at tail
      have occupied : q.size ≠ 0 := by
        rw [held.size, List.concat_eq_append, List.length_append, List.length_singleton]
        omega
      rw [queueTail, if_neg occupied, tail]
      refine ⟨?_, fun i e => ?_⟩
      · simpa using last
      · cases e
        rw [Inside, held.cells]
        have := Nat.mod_lt (h + ys.length) (show 0 < capacity by omega)
        omega
  full := by
    intro full key data
    rw [queueEnqueue, if_pos full]
  room := by
    intro room key data
    refine ⟨(q.tail + 1).tmod q.capacity, ?_, ?_, ?_⟩
    · rw [queueEnqueue, if_neg room]
    · have lt := Nat.mod_lt (h + xs.length) (show 0 < capacity by omega)
      rw [Inside, held.cells, held.next]
      omega
    · rw [queueEnqueue, if_neg room]
      exact Function.update_self ..

/-! ### The calls -/

theorem Holds.enqueue (held : Holds capacity q h xs) (key : Int) (data : δ) :
    Holds capacity (queueEnqueue q key data).1 h (listed capacity xs (.enqueue key data)) := by
  by_cases full : xs.length = capacity
  · have stays : q.size = q.capacity := by rw [held.size, held.cells, full]
    rw [queueEnqueue, if_pos stays, listed, if_pos full]
    exact held
  · have room : ¬ q.size = q.capacity := by
      rw [held.size, held.cells]
      exact_mod_cast full
    have fewer : xs.length < capacity := lt_of_le_of_ne held.fits full
    have below := Nat.mod_lt (h + xs.length) (show 0 < capacity by omega)
    rw [queueEnqueue, if_neg room, listed, if_neg full]
    have at_ : (q.tail + 1).tmod q.capacity = ((h + xs.length) % capacity : Nat) := by
      rw [held.cells, held.next]
    simp only [at_]
    generalize cell : (h + xs.length) % capacity = k at below at_
    refine ⟨held.cells, held.head, held.below, ?_, ?_, ?_, ⟨?_, ?_⟩, ?_, fun _ => ?_⟩
    · simp [held.size]
    · simpa using fewer
    · rw [List.length_append, List.length_singleton, window_back, List.map_append]
      congr 1
      · refine Eq.trans (List.map_congr_left fun i inside => ?_) held.nodes
        have other : ((i : Nat) : Int) ≠ k := by
          intro same
          have here : i = k := by exact_mod_cast same
          exact next_notMem_window fewer (cell ▸ here ▸ inside)
        exact Function.update_of_ne other _ _
      · rw [cell, List.map_singleton]
        exact congrArg (fun node => [node]) (Function.update_self ..)
    · change -1 ≤ (k : Int)
      omega
    · change (k : Int) < capacity
      exact_mod_cast below
    · change ((k : Int) + 1).tmod capacity = _
      rw [← cell, List.length_append, List.length_singleton, ← Nat.cast_succ, tmod_natCast]
      congr 1
      rw [Nat.succ_eq_add_one, Nat.mod_add_mod, Nat.add_assoc]
    · change 0 ≤ (k : Int)
      omega

theorem Holds.dequeueHead (held : Holds capacity q h xs) :
    ∃ h', Holds capacity (queueDequeueHead q) h' (listed capacity xs .dequeueHead) := by
  cases xs with
  | nil =>
    have empty : q.size = 0 := held.size
    rw [queueDequeueHead, if_pos empty]
    exact ⟨h, held⟩
  | cons x xs =>
    have occupied : ¬ q.size = 0 := by rw [held.size, List.length_cons]; omega
    have nodes := held.nodes
    have next := held.next
    rw [List.length_cons, window_front, List.map_cons, List.cons.injEq] at nodes
    rw [queueDequeueHead, if_neg occupied]
    refine ⟨(h + 1) % capacity, held.cells, ?_, Nat.mod_lt _ (by have := held.below; omega), ?_, ?_, ?_,
      held.behind, ?_, fun _ => held.used (by simp)⟩
    · change (q.head + 1).tmod q.capacity = _
      rw [held.head, held.cells, ← Nat.cast_succ, tmod_natCast]
    · change q.size - 1 = _
      rw [held.size]
      simp [listed]
    · exact Nat.le_of_succ_le held.fits
    · change ((window capacity ((h + 1) % capacity) xs.length).map fun i : Nat => q.nodes i) = xs
      rw [window_mod]
      exact nodes.2
    · change (q.tail + 1).tmod capacity = (((h + 1) % capacity + xs.length) % capacity : Nat)
      rw [next, List.length_cons, Nat.mod_add_mod]
      congr 2
      omega

/-- As long as no node but one at index 0 goes at the tail. -/
theorem Holds.dequeueTail (held : Holds capacity q h xs) (above : ¬ StepsBelow q .dequeueTail) :
    Holds capacity (queueDequeueTail q) h (listed capacity xs .dequeueTail) := by
  rcases List.eq_nil_or_concat xs with rfl | ⟨ys, y, rfl⟩
  · have empty : q.size = 0 := held.size
    rw [queueDequeueTail, if_pos empty]
    exact held
  · rw [List.concat_eq_append] at held ⊢
    have size := held.size
    have fits := held.fits
    rw [List.length_append, List.length_singleton] at size fits
    have occupied : ¬ q.size = 0 := by omega
    have tail := held.tail_eq (by simp)
    rw [List.length_append, List.length_singleton, Nat.add_sub_cancel] at tail
    have nodes := held.nodes
    rw [List.length_append, List.length_singleton, window_back, List.map_append] at nodes
    have below := held.below
    have last := Nat.mod_lt (h + ys.length) (show 0 < capacity by omega)
    -- The new tail is one below, but -1 stays -1 or becomes 0 where nothing is left.
    have moved : -1 ≤ (q.tail - 1).tmod capacity ∧ (q.tail - 1).tmod capacity < capacity ∧
        ((q.tail - 1).tmod capacity + 1).tmod capacity = q.tail ∧
        (ys ≠ [] → 0 ≤ (q.tail - 1).tmod capacity) := by
      by_cases zero : q.tail = 0
      · have none : ys = [] := by
          by_contra some
          have := List.length_pos_iff.mpr some
          exact above ⟨zero, by omega⟩
        rw [zero]
        by_cases one : capacity = 1
        · subst one
          refine ⟨by decide, by decide, by decide, fun some => absurd none some⟩
        · have minus : ((0 : Int) - 1).tmod capacity = -1 := by
            rw [zero_sub, Int.neg_tmod, ← Nat.cast_one, tmod_natCast, Nat.mod_eq_of_lt (by omega)]
          rw [minus]
          refine ⟨le_refl _, by omega, by simp, fun some => absurd none some⟩
      · obtain ⟨t, e⟩ : ∃ t : Nat, q.tail = t + 1 := ⟨((h + ys.length) % capacity) - 1, by omega⟩
        have small : t + 1 < capacity := by omega
        have minus : (q.tail - 1).tmod capacity = t := by
          rw [e, add_sub_cancel_right, tmod_natCast, Nat.mod_eq_of_lt (by omega)]
        rw [minus, e]
        refine ⟨by omega, by omega, ?_, fun _ => by omega⟩
        rw [← Nat.cast_succ, tmod_natCast, Nat.mod_eq_of_lt small]
    rw [queueDequeueTail, if_neg occupied]
    simp only [held.cells]
    have shorter : listed capacity (ys ++ [y]) .dequeueTail = ys := List.dropLast_concat
    rw [shorter]
    refine ⟨rfl, held.head, below, by simp only; omega, by omega, ?_, ⟨moved.1, moved.2.1⟩, ?_, moved.2.2.2⟩
    · exact (List.append_inj' nodes rfl).1
    · rw [moved.2.2.1, tail]

theorem holds_drop (held : Holds capacity q h xs) : Holds capacity (queueDrop q) 0 [] where
  cells := held.cells
  head := rfl
  below := Nat.zero_lt_of_lt held.below
  size := rfl
  fits := Nat.zero_le _
  nodes := rfl
  behind := ⟨le_refl _, by change (-1 : Int) < capacity; omega⟩
  next := by simp [queueDrop]
  used := fun absurdly => absurd rfl absurdly

theorem Holds.call (held : Holds capacity q h xs) (call : QueueCall δ) (above : ¬ StepsBelow q call) :
    ∃ h', Holds capacity (apply q call) h' (listed capacity xs call) := by
  cases call with
  | enqueue key data => exact ⟨h, held.enqueue key data⟩
  | dequeueHead => exact held.dequeueHead
  | dequeueTail => exact ⟨h, held.dequeueTail above⟩
  | drop => exact ⟨0, holds_drop held⟩

end Holds

/-! ## The iterator -/

section Iterator

variable {q : Queue δ} {i : Int}

theorem hasNext_iff : queueItrHasNext q i = true ↔ q.size ≠ 0 ∧ 0 ≤ i ∧ i ≤ q.tail := by
  rw [queueItrHasNext, decide_eq_true_iff]

/-- The iterator goes on at the next index, unless that is the head again. -/
theorem itrNext_of_hasNext (more : queueItrHasNext q i = true) :
    queueItrNext q i = (some i, if queueNode q ((i + 1).tmod q.capacity) = queueHead q then -1
      else (i + 1).tmod q.capacity) := by
  simp only [queueItrNext, more, if_true, queueNode]

theorem Visits.cons_iff (more : queueItrHasNext q i = true) {l : List Int} :
    Visits q i l ↔ ∃ rest, l = i :: rest ∧ Visits q (queueItrNext q i).2 rest := by
  constructor
  · intro visits
    cases visits with
    | done stop => rw [more] at stop; cases stop
    | node more' read later =>
      have first := congrArg Prod.fst read
      rw [itrNext_of_hasNext more] at first
      cases first
      exact ⟨_, rfl, by rw [read]; exact later⟩
  · rintro ⟨rest, rfl, later⟩
    refine .node more ?_ later
    rw [itrNext_of_hasNext more]

theorem Visits.nil_iff (stop : queueItrHasNext q i = false) {l : List Int} : Visits q i l ↔ l = [] := by
  constructor
  · intro visits
    cases visits with
    | done _ => rfl
    | node more _ _ => rw [stop] at more; cases more
  · rintro rfl
    exact .done stop

end Iterator

section Straight

variable {capacity h : Nat} {q : Queue δ} {xs : List (Node δ)}

theorem Holds.occupied (held : Holds capacity q h xs) (nonempty : xs ≠ []) : q.size ≠ 0 := by
  have positive := List.length_pos_iff.mpr nonempty
  have size := held.size
  omega

/-- From any of its nodes, the iterator visits the rest of one piece and leaves the tail. -/
theorem Holds.visits_piece (held : Holds capacity q h xs) (nonempty : xs ≠ [])
    (piece : h + xs.length ≤ capacity) {m i : Nat} (from_ : h ≤ i) (rest_ : i + m + 1 = h + xs.length)
    {l : List Int} : Visits q i l ↔
      ∃ rest, l = (List.range' i (m + 1)).map (fun k : Nat => (k : Int)) ++ rest ∧
        Visits q (queueItrNext q q.tail).2 rest := by
  have occupied := held.occupied nonempty
  have tail : q.tail = ((i + m : Nat) : Int) := by
    rw [held.tail_eq nonempty, Nat.mod_eq_of_lt (by omega)]
    congr 1
    omega
  have more : queueItrHasNext q i = true := hasNext_iff.mpr ⟨occupied, by omega, by omega⟩
  induction m generalizing i l with
  | zero =>
    rw [Visits.cons_iff more, tail]
    simp
  | succ m ih =>
    have up : ((i : Int) + 1).tmod q.capacity = ((i + 1 : Nat) : Int) := by
      rw [held.cells, ← Nat.cast_succ, tmod_natCast, Nat.mod_eq_of_lt (by omega)]
    have later : queueItrHasNext q ((i + 1 : Nat) : Int) = true := hasNext_iff.mpr ⟨occupied, by omega, by omega⟩
    have other : ¬ queueNode q ((i + 1 : Nat) : Int) = queueHead q := by
      rw [queueNode, if_pos later, queueHead, if_neg occupied, held.head, Option.some.injEq, Nat.cast_inj]
      omega
    have next : (queueItrNext q i).2 = ((i + 1 : Nat) : Int) := by
      rw [itrNext_of_hasNext more, up, if_neg other]
    rw [Visits.cons_iff more, next, List.range'_succ, List.map_cons]
    constructor
    · rintro ⟨l, rfl, visits⟩
      obtain ⟨rest, rfl, over_⟩ := (ih (by omega) (by omega) (by rw [tail]; congr 1; omega) later).mp visits
      exact ⟨rest, rfl, over_⟩
    · rintro ⟨rest, rfl, over_⟩
      exact ⟨_, rfl, (ih (by omega) (by omega) (by rw [tail]; congr 1; omega) later).mpr ⟨rest, rfl, over_⟩⟩

/-- Behind the tail the iterator stops, or reads on at index 0. -/
theorem Holds.behind_tail (held : Holds capacity q h xs) (nonempty : xs ≠ []) :
    (Straight q → queueItrHasNext q (queueItrNext q q.tail).2 = false) ∧
      (q.tail + 1 = capacity → h ≠ 0 → (queueItrNext q q.tail).2 = 0) := by
  have occupied := held.occupied nonempty
  have used := held.used nonempty
  have more : queueItrHasNext q q.tail = true := hasNext_iff.mpr ⟨occupied, used, le_refl _⟩
  have top := held.behind.2
  have head := held.head
  obtain ⟨t, tail⟩ := Int.eq_ofNat_of_zero_le used
  have first : queueNode q 0 = some 0 := if_pos (hasNext_iff.mpr ⟨occupied, le_refl _, used⟩)
  have start : queueHead q = some (h : Int) := by rw [queueHead, if_neg occupied, head]
  rw [itrNext_of_hasNext more, held.cells, tail, ← Nat.cast_succ, tmod_natCast]
  rcases Nat.lt_or_ge (t + 1) capacity with small | large
  · rw [Nat.mod_eq_of_lt small]
    have beyond : queueItrHasNext q ((t + 1 : Nat) : Int) = false := by
      rw [← Bool.not_eq_true, hasNext_iff]
      omega
    have none : queueNode q ((t + 1 : Nat) : Int) = none := by
      rw [queueNode, beyond]
      rfl
    refine ⟨fun _ => ?_, fun end_ => by omega⟩
    rw [none, start, if_neg (by simp)]
    exact beyond
  · have whole : t.succ % capacity = 0 := by
      rw [show t.succ = capacity by omega, Nat.mod_self]
    rw [whole]
    refine ⟨fun straight => ?_, fun _ apart => ?_⟩
    · have zero : h = 0 := by
        rcases straight with empty | ⟨-, zero | room⟩
        · exact absurd empty occupied
        · omega
        · have := held.cells
          omega
      rw [Nat.cast_zero, first, start, zero, Nat.cast_zero, if_pos rfl, ← Bool.not_eq_true, hasNext_iff]
      omega
    · rw [Nat.cast_zero, first, start, if_neg]
      simp only [Option.some.injEq]
      omega

/-- The iterator reads the list exactly where the nodes lie straight. -/
theorem Holds.iterates_iff (held : Holds capacity q h xs) : IteratesAs q xs ↔ Straight q := by
  by_cases nonempty : xs = []
  · subst nonempty
    have empty : q.size = 0 := held.size
    have stop : queueItrHasNext q (queueItrBegin q) = false := by
      rw [← Bool.not_eq_true, hasNext_iff]
      exact fun more => more.1 empty
    exact ⟨fun _ => Or.inl empty, fun _ => ⟨[], .done stop, rfl, List.nodup_nil, by simp⟩⟩
  · have occupied := held.occupied nonempty
    have positive := List.length_pos_iff.mpr nonempty
    have tail := held.tail_eq nonempty
    have below := held.below
    have fits := held.fits
    have begins : queueItrBegin q = (h : Int) := held.head
    rcases Nat.lt_or_ge capacity (h + xs.length) with wraps | piece
    · -- The tail lies before the head, where the iterator starts.
      have before : q.tail < q.head := by
        have folded : (h + (xs.length - 1)) % capacity = h + (xs.length - 1) - capacity := by
          rw [Nat.mod_eq_sub_mod (by omega), Nat.mod_eq_of_lt (by omega)]
        rw [tail, folded, held.head]
        omega
      have stop : queueItrHasNext q (queueItrBegin q) = false := by
        rw [← Bool.not_eq_true, hasNext_iff, queueItrBegin]
        omega
      constructor
      · rintro ⟨l, visits, rfl, -⟩
        rw [(Visits.nil_iff stop).mp visits] at nonempty
        exact absurd rfl nonempty
      · rintro (empty | ⟨le, -⟩)
        · exact absurd empty occupied
        · omega
    · have whole : ∀ l : List Int, Visits q h l ↔
          ∃ rest, l = (List.range' h xs.length).map (fun k : Nat => (k : Int)) ++ rest ∧
            Visits q (queueItrNext q q.tail).2 rest := by
        intro l
        have visits := held.visits_piece nonempty piece (m := xs.length - 1) (l := l) (le_refl h) (by omega)
        rwa [show xs.length - 1 + 1 = xs.length by omega] at visits
      obtain ⟨stops, goesOn⟩ := held.behind_tail nonempty
      rw [Nat.mod_eq_of_lt (by omega)] at tail
      constructor
      · rintro ⟨l, visits, contents, -⟩
        rw [begins] at visits
        obtain ⟨rest, rfl, later⟩ := (whole l).mp visits
        refine Or.inr ⟨by rw [tail, held.head]; omega, ?_⟩
        by_contra bent
        rw [not_or, held.head, held.cells] at bent
        have next := goesOn (by omega) (by omega)
        rw [next] at later
        have more : queueItrHasNext q 0 = true := hasNext_iff.mpr ⟨occupied, le_refl _, by omega⟩
        obtain ⟨others, rfl, -⟩ := (Visits.cons_iff more).mp later
        have lengths := congrArg List.length contents
        simp only [List.length_map, List.length_append, List.length_range', List.length_cons] at lengths
        omega
      · intro straight
        refine ⟨(List.range' h xs.length).map (fun k : Nat => (k : Int)), ?_, ?_, ?_, ?_⟩
        · rw [begins]
          exact (whole _).mpr ⟨[], by simp, .done (stops straight)⟩
        · rw [List.map_map, ← window_straight piece]
          exact held.nodes
        · exact List.Nodup.map Nat.cast_injective List.nodup_range'
        · intro i member
          obtain ⟨k, inside, rfl⟩ := List.mem_map.mp member
          have := List.mem_range'_1.mp inside
          rw [Inside, held.cells]
          omega

end Straight

/-! ## Runs -/

section Runs

variable {capacity : Nat} {heap : Int → Node δ}

/-- A node removed at the tail of a queue whose tail is at index 0 leaves it outside. -/
theorem not_endsAs_below {q : Queue δ} {call : QueueCall δ} {xs : List (Node δ)} (two : 1 < q.capacity)
    (steps : StepsBelow q call) : ¬ EndsAs (apply q call) xs := by
  cases call with
  | dequeueTail =>
    obtain ⟨zero, others⟩ := steps
    intro ends
    obtain ⟨n, cells⟩ := Int.eq_ofNat_of_zero_le (show 0 ≤ q.capacity by omega)
    have moved : ((0 : Int) - 1).tmod q.capacity = -1 := by
      rw [zero_sub, Int.neg_tmod, cells, ← Nat.cast_one, tmod_natCast, Nat.mod_eq_of_lt (by omega)]
    have tail : queueTail (queueDequeueTail q) = some (-1) := by
      rw [queueDequeueTail, if_neg (by omega), queueTail, if_neg (by simp only; omega), zero, moved]
    have inside := ends.tail.2 (-1) tail
    exact absurd inside.1 (by decide)
  | enqueue key data => exact steps.elim
  | dequeueHead => exact steps.elim
  | drop => exact steps.elim

theorem run_concat (q : Queue δ) (calls : List (QueueCall δ)) (call : QueueCall δ) :
    run q (calls ++ [call]) = apply (run q calls) call := by
  rw [run, List.foldl_append]
  rfl

theorem listRun_concat (calls : List (QueueCall δ)) (call : QueueCall δ) :
    listRun capacity (calls ++ [call]) = listed capacity (listRun capacity calls) call := by
  rw [listRun, List.foldl_append]
  rfl

/-- The array holds the list for as long as no call has stepped below index 0. -/
theorem holds_run (positive : 1 ≤ capacity) (fits : capacity < 2 ^ 31) (calls : List (QueueCall δ))
    (above : ∀ done call, done ++ [call] <+: calls → ¬ StepsBelow (run (queueAlloc capacity heap) done) call) :
    ∃ h, Holds capacity (run (queueAlloc capacity heap) calls) h (listRun capacity calls) := by
  induction calls using List.reverseRecOn with
  | nil => exact ⟨0, holds_alloc positive fits heap⟩
  | append_singleton calls call ih =>
    obtain ⟨h, held⟩ := ih fun done call' earlier => above done call' (earlier.trans (List.prefix_append _ _))
    rw [run_concat, listRun_concat]
    exact held.call call (above calls call (List.prefix_refl _))

/-- The first call that steps below index 0 is seen at the tail. -/
theorem holds_of_endsAs (positive : 1 ≤ capacity) (fits : capacity < 2 ^ 31) (calls : List (QueueCall δ))
    (right : ∀ done, done <+: calls → EndsAs (run (queueAlloc capacity heap) done) (listRun capacity done)) :
    (∃ h, Holds capacity (run (queueAlloc capacity heap) calls) h (listRun capacity calls)) ∧
      ∀ done call, done ++ [call] <+: calls → ¬ StepsBelow (run (queueAlloc capacity heap) done) call := by
  induction calls using List.reverseRecOn with
  | nil =>
    refine ⟨⟨0, holds_alloc positive fits heap⟩, fun done call first => ?_⟩
    have := first.length_le
    simp at this
  | append_singleton calls call ih =>
    obtain ⟨⟨h, held⟩, above⟩ := ih fun done earlier => right done (earlier.trans (List.prefix_append _ _))
    have here : ¬ StepsBelow (run (queueAlloc capacity heap) calls) call := by
      intro steps
      have ends := right _ (List.prefix_refl _)
      rw [run_concat] at ends
      refine not_endsAs_below ?_ steps ends
      -- Two nodes need two cells.
      have size := held.size
      have few := held.fits
      cases call with
      | dequeueTail =>
        have others := steps.2
        rw [held.cells]
        omega
      | enqueue key data => exact steps.elim
      | dequeueHead => exact steps.elim
      | drop => exact steps.elim
    refine ⟨?_, fun done call' earlier => ?_⟩
    · rw [run_concat, listRun_concat]
      exact held.call call here
    · rcases (List.prefix_concat_iff).mp earlier with same | before
      · obtain ⟨rfl, last⟩ := List.append_inj' same rfl
        cases last
        exact here
      · exact above done call' before

/-- The ends of the queue are those of the list in every state of a run exactly if no
call steps below index 0. -/
theorem ends_agree_iff (positive : 1 ≤ capacity) (fits : capacity < 2 ^ 31) (calls : List (QueueCall δ)) :
    (∀ done, done <+: calls → EndsAs (run (queueAlloc capacity heap) done) (listRun capacity done)) ↔
      ∀ done call, done ++ [call] <+: calls → ¬ StepsBelow (run (queueAlloc capacity heap) done) call := by
  refine ⟨fun right => (holds_of_endsAs positive fits calls right).2, fun above done part => ?_⟩
  obtain ⟨h, held⟩ := holds_run positive fits done
    fun done' call earlier => above done' call (earlier.trans part)
  exact held.endsAs positive

theorem Straight.above {q : Queue δ} {h : Nat} {xs : List (Node δ)} (held : Holds capacity q h xs)
    (straight : Straight q) (call : QueueCall δ) : ¬ StepsBelow q call := by
  cases call with
  | dequeueTail =>
    rintro ⟨zero, others⟩
    have size := held.size
    have nonempty : xs ≠ [] := by
      rintro rfl
      simp at size
      omega
    have tail := held.tail_eq nonempty
    have head := held.head
    have fits := held.fits
    rcases straight with empty | ⟨le, -⟩
    · omega
    · have start : h = 0 := by omega
      rw [start, zero, Nat.zero_add, Nat.mod_eq_of_lt (by omega)] at tail
      omega
  | enqueue key data => exact id
  | dequeueHead => exact id
  | drop => exact id

/-- The queue is the bounded list in every state of a run exactly if its nodes lie
straight in every state. -/
theorem bounded_list_iff (positive : 1 ≤ capacity) (fits : capacity < 2 ^ 31) (calls : List (QueueCall δ)) :
    (∀ done, done <+: calls → EndsAs (run (queueAlloc capacity heap) done) (listRun capacity done) ∧
        IteratesAs (run (queueAlloc capacity heap) done) (listRun capacity done)) ↔
      ∀ done, done <+: calls → Straight (run (queueAlloc capacity heap) done) := by
  constructor
  · intro right done part
    obtain ⟨⟨h, held⟩, -⟩ := holds_of_endsAs positive fits done
      fun done' earlier => (right done' (earlier.trans part)).1
    exact held.iterates_iff.mp (right done part).2
  · intro straight
    have held : ∀ done, done <+: calls →
        ∃ h, Holds capacity (run (queueAlloc capacity heap) done) h (listRun capacity done) := by
      intro done part
      induction done using List.reverseRecOn with
      | nil => exact ⟨0, holds_alloc positive fits heap⟩
      | append_singleton done call ih =>
        have before := (List.prefix_append done [call]).trans part
        obtain ⟨h, held⟩ := ih before
        rw [run_concat, listRun_concat]
        exact held.call call ((straight done before).above held call)
    intro done part
    obtain ⟨h, held⟩ := held done part
    exact ⟨held.endsAs positive, held.iterates_iff.mpr (straight done part)⟩

end Runs

instance (q : Queue δ) : Decidable (Straight q) :=
  inferInstanceAs (Decidable (q.size = 0 ∨ q.head ≤ q.tail ∧ (q.head = 0 ∨ q.tail + 1 < q.capacity)))

/-- Three nodes, and one is removed at each end. -/
def trimmed : List (QueueCall Nat) :=
  [.enqueue 0 10, .enqueue 1 20, .enqueue 2 30, .dequeueTail, .dequeueHead]

theorem bounded_list_trimmed :
    EndsAs (run (queueAlloc 3 fun _ => ⟨0, 0⟩) trimmed) [⟨1, 20⟩] ∧
      IteratesAs (run (queueAlloc 3 fun _ => ⟨0, 0⟩) trimmed) [⟨1, 20⟩] := by
  have straight : ∀ done ∈ trimmed.inits, Straight (run (queueAlloc 3 fun _ => ⟨0, 0⟩) done) := by decide
  exact (bounded_list_iff (by decide) (by decide) trimmed).mpr
    (fun done part => straight done ((List.mem_inits done trimmed).mpr part)) trimmed (List.prefix_refl _)

/-- Two nodes fill an array of two, and the older one is removed: the iterator visits the
node at index 1, then reads index 0 again. With a third node there, removing that one
leaves the tail at index -1. -/
theorem iterator_reads_removed :
    ¬ IteratesAs (run (queueAlloc 2 fun _ => ⟨0, 0⟩) [.enqueue 0 10, .enqueue 1 20, .dequeueHead])
        (listRun 2 [.enqueue 0 10, .enqueue 1 20, .dequeueHead]) ∧
      queueTail (run (queueAlloc 2 fun _ => (⟨0, 0⟩ : Node Nat))
        [.enqueue 0 10, .enqueue 1 20, .dequeueHead, .enqueue 2 30, .dequeueTail]) = some (-1) := by
  refine ⟨?_, by decide⟩
  rintro ⟨l, visits, contents, -⟩
  obtain ⟨rest, rfl, later⟩ := (Visits.cons_iff (by decide)).mp visits
  obtain ⟨others, rfl, -⟩ := (Visits.cons_iff (i := 0) (by decide)).mp later
  have lengths := congrArg List.length contents
  simp [listRun, listed] at lengths

end BoundedQueue
