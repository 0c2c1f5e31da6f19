import DistWalk.PriorityQueue

/-!
# Runs of the priority queue

A caller of the queue sees a multiset of pairs of key and data and a table of handles.
`Ledger` keeps both from the calls alone; whatever the sequence of calls, the three
arrays of the queue represent the ledger. `capacity` is an `int`, so the positions of the
heap and of their children fit in the 32 bits that they have.
-/

namespace QueueRuns

open HeapOrder PriorityQueue

inductive QueueOp
  | insert (key : Int) (data : Nat)
  | remove (node : Nat)
  | pop

def apply (q : PQueue) : QueueOp → PQueue
  | .insert key data => (pqueueInsert q key data).1
  | .remove node => pqueueRemove q node
  | .pop => pqueuePop q

/-- An insertion needs room, a removed node is in the queue, and only a queue with
nodes is popped. -/
def Allowed (q : PQueue) : QueueOp → Prop
  | .insert _ _ => q.size < q.capacity
  | .remove node => Holds q node
  | .pop => q.size ≠ 0

instance (q : PQueue) : (op : QueueOp) → Decidable (Allowed q op)
  | .insert _ _ => inferInstanceAs (Decidable (q.size < q.capacity))
  | .remove node => inferInstanceAs (Decidable ((q.nodes node).heapId < q.size ∧ q.heap (q.nodes node).heapId = node))
  | .pop => inferInstanceAs (Decidable (q.size ≠ 0))

/-- What the caller put in and took out, and the pairs behind the handles it holds. -/
structure Ledger where
  inserted : Multiset (Int × Nat)
  removed : Multiset (Int × Nat)
  live : Nat → Option (Int × Nat)

def Ledger.empty : Ledger := ⟨0, 0, fun _ => none⟩

/-- Take out the pair behind a handle. -/
def Ledger.drop (l : Ledger) (node : Nat) : Ledger :=
  { l with
    removed := (l.live node).elim 0 (fun p => {p}) + l.removed
    live := Function.update l.live node none }

def Ledger.record (l : Ledger) (q : PQueue) : QueueOp → Ledger
  | .insert key data =>
    { l with
      inserted := (key, data) ::ₘ l.inserted
      live := Function.update l.live (pqueueInsert q key data).2 (some (key, data)) }
  | .remove node => l.drop node
  | .pop => (pqueueTop q).elim l l.drop

/-- The queues and ledgers that calls lead to from `pqueue_alloc`. -/
inductive Run (capacity : Nat) : PQueue → Ledger → Prop
  | alloc : Run capacity (pqueueAlloc capacity) .empty
  | call {q : PQueue} {l : Ledger} (op : QueueOp) (run : Run capacity q l) (allowed : Allowed q op) :
      Run capacity (apply q op) (l.record q op)

/-! ## Contents -/

def entry (q : PQueue) (node : Nat) : Int × Nat := ((q.nodes node).key, (q.nodes node).data)

/-- The pairs of the nodes in the heap. -/
def contents (q : PQueue) : Multiset (Int × Nat) :=
  (Multiset.range q.size).map fun i => entry q (q.heap i)

/-- The node ids of the heap, then those of the free part of the stack. -/
def nodeIds (q : PQueue) : List Nat :=
  (List.range q.size).map q.heap ++ (List.range (q.capacity - q.size)).map q.stack

/-- The nodes in the heap. -/
def heldNodes (q : PQueue) : Multiset Nat := (Multiset.range q.size).map q.heap

theorem mem_heldNodes {q : PQueue} (h : Indexed q) (x : Nat) : x ∈ heldNodes q ↔ Holds q x := by
  rw [holds_iff_mem h, heldNodes, Multiset.mem_map]
  simp only [Multiset.mem_range]

theorem nodup_heldNodes {q : PQueue} (h : Indexed q) : (heldNodes q).Nodup := by
  refine Multiset.Nodup.map_on (fun i hi j hj e => ?_) (Multiset.nodup_range q.size)
  exact heap_injective h (Multiset.mem_range.mp hi) (Multiset.mem_range.mp hj) e

theorem contents_eq (q : PQueue) : contents q = (heldNodes q).map (entry q) := by
  rw [heldNodes, Multiset.map_map]
  rfl

theorem nodeIds_perm {q : PQueue} (h : WellFormed q) : (nodeIds q).Perm (List.range q.capacity) := by
  have heap : ((List.range q.size).map q.heap).Nodup := by
    refine List.Nodup.map_on (fun i hi j hj e => ?_) List.nodup_range
    exact heap_injective h.indexed (List.mem_range.mp hi) (List.mem_range.mp hj) e
  have stack : ((List.range (q.capacity - q.size)).map q.stack).Nodup := by
    refine List.Nodup.map_on (fun i hi j hj e => ?_) List.nodup_range
    exact h.distinct i j (List.mem_range.mp hi) (List.mem_range.mp hj) e
  have apart : List.Disjoint ((List.range q.size).map q.heap)
      ((List.range (q.capacity - q.size)).map q.stack) := by
    intro x inHeap inStack
    obtain ⟨i, hi, rfl⟩ := List.mem_map.mp inHeap
    obtain ⟨j, hj, e⟩ := List.mem_map.mp inStack
    refine (h.free j (List.mem_range.mp hj)).2 ?_
    rw [e]
    exact h.indexed.holds (List.mem_range.mp hi)
  refine (List.perm_ext_iff_of_nodup (heap.append stack apart) List.nodup_range).mpr fun x => ?_
  simp only [List.mem_append, List.mem_map, List.mem_range]
  constructor
  · rintro (⟨i, hi, rfl⟩ | ⟨j, hj, rfl⟩)
    · exact h.used i hi
    · exact (h.free j hj).1
  · intro small
    rcases h.covered x small with held | free
    · exact Or.inl ((holds_iff_mem h.indexed x).mp held)
    · exact Or.inr free

/-! ## The calls -/

theorem heldNodes_insert {q q' : PQueue} {key : Int} {data node : Nat} (h : WellFormed q)
    (ins : Inserted q key data q' node) : heldNodes q' = node ::ₘ heldNodes q := by
  have fresh : node ∉ heldNodes q := by
    rw [mem_heldNodes h.indexed]
    exact ins.fresh
  refine (Multiset.Nodup.ext (nodup_heldNodes ins.wellFormed.indexed)
    ((nodup_heldNodes h.indexed).cons fresh)).mpr fun x => ?_
  rw [mem_heldNodes ins.wellFormed.indexed, ins.holds, Multiset.mem_cons, mem_heldNodes h.indexed]
  exact or_comm

theorem contents_insert {q q' : PQueue} {key : Int} {data node : Nat} (h : WellFormed q)
    (ins : Inserted q key data q' node) : contents q' = (key, data) ::ₘ contents q := by
  have new : entry q' node = (key, data) := Prod.ext ins.key ins.data
  have old : ∀ x ∈ heldNodes q, entry q' x = entry q x := by
    intro x held
    have other : x ≠ node := by
      rintro rfl
      exact ins.fresh ((mem_heldNodes h.indexed x).mp held)
    exact Prod.ext (ins.keyOther x other) (ins.dataOther x other)
  rw [contents_eq, contents_eq, heldNodes_insert h ins, Multiset.map_cons, new, Multiset.map_congr rfl old]

theorem heldNodes_remove {q q' : PQueue} {node : Nat} (h : WellFormed q) (held : Holds q node)
    (rem : Removed q node q') : heldNodes q = node ::ₘ heldNodes q' := by
  have gone : node ∉ heldNodes q' := by
    rw [mem_heldNodes rem.wellFormed.indexed, rem.holds]
    exact fun still => still.2 rfl
  refine (Multiset.Nodup.ext (nodup_heldNodes h.indexed)
    ((nodup_heldNodes rem.wellFormed.indexed).cons gone)).mpr fun x => ?_
  rw [mem_heldNodes h.indexed, Multiset.mem_cons, mem_heldNodes rem.wellFormed.indexed, rem.holds]
  constructor
  · intro here
    by_cases own : x = node
    · exact Or.inl own
    · exact Or.inr ⟨here, own⟩
  · rintro (rfl | ⟨here, -⟩)
    · exact held
    · exact here

theorem contents_remove {q q' : PQueue} {node : Nat} (h : WellFormed q) (held : Holds q node)
    (rem : Removed q node q') : contents q = entry q node ::ₘ contents q' := by
  have same : ∀ x ∈ heldNodes q', entry q x = entry q' x :=
    fun x _ => Prod.ext (rem.key x).symm (rem.data x).symm
  rw [contents_eq, contents_eq, heldNodes_remove h held rem, Multiset.map_cons,
    Multiset.map_congr rfl same]

/-- The top stands at the root, so nothing rises when it leaves. -/
theorem pqueuePop_eq {q : PQueue} (h : WellFormed q) {top : Nat} (ht : pqueueTop q = some top) :
    pqueuePop q = pqueueRemove q top := by
  have nonempty : q.size ≠ 0 := by
    intro empty
    rw [pqueueTop_eq_none.mpr empty] at ht
    cases ht
  have root : q.heap 0 = top := Option.some.inj ((pqueueTop_eq_heap nonempty).symm.trans ht)
  have hid : (q.nodes top).heapId = 0 := by
    rw [← root]
    exact h.indexed 0 (Nat.pos_of_ne_zero nonempty)
  have place : (pqueueDetach q top).heap 0 = q.heap (q.size - 1) := by
    rw [← hid]
    exact pqueueDetach_heap_hole
  have moved : ((pqueueDetach q top).nodes ((pqueueDetach q top).heap 0)).heapId = 0 := by
    rw [place]
    simp [pqueueDetach, hid]
  have stays := up_at_root ((pqueueDetach q top).size + 1) (pqueueDetach q top) moved rfl
  rw [place] at stays
  simp only [pqueuePop, ht, pqueueRemove, stays]

/-! ## Runs -/

/-- The arrays represent the ledger. -/
structure Represents (q : PQueue) (l : Ledger) : Prop where
  wellFormed : WellFormed q
  balance : contents q + l.removed = l.inserted
  live : ∀ x p, l.live x = some p ↔ Holds q x ∧ entry q x = p

theorem represents_alloc (capacity : Nat) : Represents (pqueueAlloc capacity) .empty where
  wellFormed := pqueueAlloc_wellFormed capacity
  balance := rfl
  live := fun x p => by simp [Ledger.empty, Holds, pqueueAlloc]

theorem Represents.insert {q : PQueue} {l : Ledger} (h : Represents q l) (room : q.size < q.capacity)
    (key : Int) (data : Nat) :
    Represents (apply q (.insert key data)) (l.record q (.insert key data)) := by
  have ins := pqueueInsert_spec h.wellFormed room key data
  refine ⟨ins.wellFormed, ?_, fun x p => ?_⟩
  · simp only [apply, Ledger.record, contents_insert h.wellFormed ins, Multiset.cons_add, h.balance]
  · simp only [apply, Ledger.record, Function.update_apply, ins.holds]
    by_cases own : x = (pqueueInsert q key data).2
    · subst own
      have new : entry (pqueueInsert q key data).1 (pqueueInsert q key data).2 = (key, data) :=
        Prod.ext ins.key ins.data
      simp only [if_true, or_true, true_and, new, Option.some.injEq]
    · have same : entry (pqueueInsert q key data).1 x = entry q x :=
        Prod.ext (ins.keyOther x own) (ins.dataOther x own)
      simp only [own, if_false, or_false, same, h.live]

theorem Represents.remove {q : PQueue} {l : Ledger} (h : Represents q l) {node : Nat} (held : Holds q node) :
    Represents (pqueueRemove q node) (l.drop node) := by
  have rem := pqueueRemove_spec h.wellFormed held
  have named : l.live node = some (entry q node) := (h.live node _).mpr ⟨held, rfl⟩
  refine ⟨rem.wellFormed, ?_, fun x p => ?_⟩
  · have before := h.balance
    rw [contents_remove h.wellFormed held rem] at before
    simp only [Ledger.drop, named, Option.elim_some, ← before]
    rw [← Multiset.singleton_add]
    exact add_left_comm _ _ _ |>.trans (add_assoc _ _ _).symm
  · have same : entry (pqueueRemove q node) x = entry q x := Prod.ext (rem.key x) (rem.data x)
    simp only [Ledger.drop, Function.update_apply, rem.holds, same]
    by_cases own : x = node
    · simp [own]
    · simp [own, h.live]

theorem Represents.call {q : PQueue} {l : Ledger} (h : Represents q l) {op : QueueOp}
    (allowed : Allowed q op) : Represents (apply q op) (l.record q op) := by
  cases op with
  | insert key data => exact h.insert allowed key data
  | remove node => exact h.remove allowed
  | pop =>
    have top := pqueueTop_eq_heap (q := q) allowed
    simp only [apply, Ledger.record, top, Option.elim_some, pqueuePop_eq h.wellFormed top]
    exact h.remove (pqueueTop_holds h.wellFormed top)

theorem Run.represents {capacity : Nat} {q : PQueue} {l : Ledger} (run : Run capacity q l) :
    Represents q l := by
  induction run with
  | alloc => exact represents_alloc capacity
  | call op _ allowed ih => exact ih.call allowed

/-- What a caller may rely on. -/
structure Refines (capacity : Nat) (q : PQueue) (l : Ledger) : Prop where
  size : q.capacity = capacity
  partition : (nodeIds q).Perm (List.range capacity)
  indexed : ∀ i, i < q.size → (q.nodes (q.heap i)).heapId = i
  ordered : Ordered (keyAt q) q.size
  balance : contents q + l.removed = l.inserted
  empty : pqueueTop q = none ↔ q.size = 0
  least : ∀ top, pqueueTop q = some top → Holds q top ∧ ∀ p ∈ contents q, (q.nodes top).key ≤ p.1
  handles : ∀ node p, l.live node = some p → Holds q node ∧ entry q node = p
  pop : ∀ top, pqueueTop q = some top → pqueuePop q = pqueueRemove q top

theorem Run.capacity {n : Nat} {q : PQueue} {l : Ledger} (run : Run n q l) : q.capacity = n := by
  induction run with
  | alloc => rfl
  | @call q l op run allowed ih =>
    have h := run.represents.wellFormed
    cases op with
    | insert key data => exact (pqueueInsert_spec h allowed key data).capacity.trans ih
    | remove node => exact (pqueueRemove_spec h allowed).capacity.trans ih
    | pop =>
      have top := pqueueTop_eq_heap (q := q) allowed
      simp only [apply, pqueuePop_eq h top]
      exact (pqueueRemove_spec h (pqueueTop_holds h top)).capacity.trans ih

/-- Every sequence of calls leaves the three arrays representing the multiset of what
was inserted less what was removed, with a least key at the top. -/
theorem queue_refines (capacity : Nat) (q : PQueue) (l : Ledger) (run : Run capacity q l) :
    Refines capacity q l := by
  have h := run.represents
  refine ⟨run.capacity, ?_, h.wellFormed.indexed, h.wellFormed.ordered, h.balance, pqueueTop_eq_none,
    fun top ht => ⟨pqueueTop_holds h.wellFormed ht, fun p hp => ?_⟩, fun node p named => (h.live node p).mp named,
    fun top ht => pqueuePop_eq h.wellFormed ht⟩
  · rw [← run.capacity]
    exact nodeIds_perm h.wellFormed
  · rw [contents_eq] at hp
    obtain ⟨x, hx, rfl⟩ := Multiset.mem_map.mp hp
    exact pqueueTop_least h.wellFormed ht ((mem_heldNodes h.wellFormed.indexed x).mp hx)

/-- Seven nodes, of which the second rises to the top. The last one takes the place of 11
and rises over 10, and then 3 takes the place of 1 and sinks under 2. -/
theorem queue_refines_sifting : ∃ q l, Run 7 q l ∧ Refines 7 q l ∧ (List.range q.size).map (keyAt q) = [2, 4, 3, 10, 12] ∧
    l.removed = {(1, 1), (11, 3)} := by
  have first := Run.call (.insert 1 1) (.call (.insert 10 0) (.alloc : Run 7 _ _) (by decide +kernel)) (by decide +kernel)
  have second := Run.call (.insert 11 3) (.call (.insert 2 2) first (by decide +kernel)) (by decide +kernel)
  have third := Run.call (.insert 3 5) (.call (.insert 12 4) second (by decide +kernel)) (by decide +kernel)
  have last := Run.call .pop (.call (.remove 3) (.call (.insert 4 6) third (by decide +kernel)) (by decide +kernel)) (by decide +kernel)
  exact ⟨_, _, last, queue_refines 7 _ _ last, by decide +kernel, by decide +kernel⟩

end QueueRuns
