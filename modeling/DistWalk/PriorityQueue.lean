import DistWalk.HeapOrder

/-!
# Priority queue with stable node handles

`nodes` holds the entries, `heap` maps heap positions to node ids, `stack`
keeps the free ids, and every node remembers its heap position. A handle is a
node id and stays valid until the node is removed, however often the heap is
rearranged in between.
-/

namespace PriorityQueue

open HeapOrder

structure PNode where
  heapId : Nat
  key : Int
  data : Nat

structure PQueue where
  nodes : Nat → PNode
  heap : Nat → Nat
  stack : Nat → Nat
  size : Nat
  capacity : Nat

def pqueueAlloc (capacity : Nat) : PQueue where
  nodes := fun _ => ⟨0, 0, 0⟩
  heap := fun _ => 0
  stack := fun i => i
  size := 0
  capacity := capacity

def PQueue.setHeapId (q : PQueue) (node i : Nat) : PQueue :=
  { q with nodes := Function.update q.nodes node { q.nodes node with heapId := i } }

def swapNode (q : PQueue) (node0 node1 : Nat) : PQueue :=
  let i0 := (q.nodes node0).heapId
  let i1 := (q.nodes node1).heapId
  let heap := Function.update (Function.update q.heap i0 (q.heap i1)) i1 (q.heap i0)
  (({ q with heap := heap } : PQueue).setHeapId node0 i1).setHeapId node1 i0

def getParentNode (q : PQueue) (node : Nat) : Option Nat :=
  if (q.nodes node).heapId = 0 then none
  else some (q.heap (((q.nodes node).heapId - 1) / 2))

def getChildNode (q : PQueue) (node : Nat) : Option Nat :=
  let child1 := 2 * (q.nodes node).heapId + 1
  let child2 := 2 * (q.nodes node).heapId + 2
  if child1 ≥ q.size then none
  else if child2 ≥ q.size then some (q.heap child1)
  else if (q.nodes (q.heap child1)).key < (q.nodes (q.heap child2)).key then some (q.heap child1)
  else some (q.heap child2)

def up : Nat → PQueue → Nat → PQueue
  | 0, q, _ => q
  | fuel + 1, q, node =>
    match getParentNode q node with
    | none => q
    | some parent =>
      if (q.nodes parent).key > (q.nodes node).key then up fuel (swapNode q parent node) node
      else q

def down : Nat → PQueue → Nat → PQueue
  | 0, q, _ => q
  | fuel + 1, q, node =>
    match getChildNode q node with
    | none => q
    | some child =>
      if (q.nodes child).key < (q.nodes node).key then down fuel (swapNode q child node) node
      else q

/-- The new node, its key and data, at the end of the heap. -/
def pqueueAppend (q : PQueue) (key : Int) (data : Nat) : PQueue :=
  let node := q.stack (q.capacity - q.size - 1)
  { q with
    nodes := Function.update q.nodes node ⟨q.size, key, data⟩
    heap := Function.update q.heap q.size node
    size := q.size + 1 }

/-- The queue and the handle of the new node. -/
def pqueueInsert (q : PQueue) (key : Int) (data : Nat) : PQueue × Nat :=
  let node := q.stack (q.capacity - q.size - 1)
  (up (q.size + 1) (pqueueAppend q key data) node, node)

/-- The last entry takes the place of `node`, whose id becomes free. -/
def pqueueDetach (q : PQueue) (node : Nat) : PQueue :=
  let size := q.size - 1
  let hid := (q.nodes node).heapId
  let last := q.heap size
  { q with
    nodes := Function.update q.nodes last { q.nodes last with heapId := hid }
    heap := Function.update q.heap hid last
    stack := Function.update q.stack (q.capacity - size - 1) node
    size := size }

def pqueueRemove (q : PQueue) (node : Nat) : PQueue :=
  let curr := q.heap (q.size - 1)
  let q := pqueueDetach q node
  let q := up (q.size + 1) q curr
  down (q.size + 1) q curr

def pqueueTop (q : PQueue) : Option Nat :=
  if q.size = 0 then none else some (q.heap 0)

def pqueuePop (q : PQueue) : PQueue :=
  match pqueueTop q with
  | none => q
  | some node =>
    let curr := q.heap (q.size - 1)
    let q := pqueueDetach q node
    down (q.size + 1) q curr

/-! ## Representation -/

/-- `node` is in the queue, at the position it remembers. -/
def Holds (q : PQueue) (node : Nat) : Prop :=
  (q.nodes node).heapId < q.size ∧ q.heap (q.nodes node).heapId = node

def Indexed (q : PQueue) : Prop := ∀ i, i < q.size → (q.nodes (q.heap i)).heapId = i

def keyAt (q : PQueue) (i : Nat) : Int := (q.nodes (q.heap i)).key

/-- The heap entries and the free part of the stack partition the node ids. -/
structure WellFormed (q : PQueue) : Prop where
  indexed : Indexed q
  bounded : q.size ≤ q.capacity
  used : ∀ i, i < q.size → q.heap i < q.capacity
  free : ∀ j, j < q.capacity - q.size → q.stack j < q.capacity ∧ ¬ Holds q (q.stack j)
  distinct : ∀ i j, i < q.capacity - q.size → j < q.capacity - q.size →
    q.stack i = q.stack j → i = j
  covered : ∀ x, x < q.capacity → Holds q x ∨ ∃ j, j < q.capacity - q.size ∧ q.stack j = x
  ordered : Ordered (keyAt q) q.size

theorem Indexed.holds {q : PQueue} (h : Indexed q) {i : Nat} (hi : i < q.size) :
    Holds q (q.heap i) := by
  have hid := h i hi
  exact ⟨by omega, by rw [hid]⟩

theorem pqueueAlloc_wellFormed (capacity : Nat) : WellFormed (pqueueAlloc capacity) where
  indexed := by intro i hi; simp [pqueueAlloc] at hi
  bounded := Nat.zero_le _
  used := by intro i hi; simp [pqueueAlloc] at hi
  free := by
    intro j hj
    exact ⟨by simpa [pqueueAlloc] using hj, by simp [Holds, pqueueAlloc]⟩
  distinct := by intro i j _ _ h; exact h
  covered := by intro x hx; exact Or.inr ⟨x, by simpa [pqueueAlloc] using hx, rfl⟩
  ordered := by intro j _ hj; simp [pqueueAlloc] at hj

/-! ## Rearranging -/

/-- `q'` holds the nodes of `q` with their keys and data, at other positions. -/
structure Rearranged (q q' : PQueue) : Prop where
  size : q'.size = q.size
  capacity : q'.capacity = q.capacity
  stack : q'.stack = q.stack
  key : ∀ x, (q'.nodes x).key = (q.nodes x).key
  data : ∀ x, (q'.nodes x).data = (q.nodes x).data
  indexed : Indexed q → Indexed q'
  holds : Indexed q → ∀ x, Holds q' x ↔ Holds q x

theorem Rearranged.refl (q : PQueue) : Rearranged q q :=
  ⟨rfl, rfl, rfl, fun _ => rfl, fun _ => rfl, id, fun _ _ => Iff.rfl⟩

theorem Rearranged.trans {a b c : PQueue} (h : Rearranged a b) (h' : Rearranged b c) :
    Rearranged a c where
  size := h'.size.trans h.size
  capacity := h'.capacity.trans h.capacity
  stack := h'.stack.trans h.stack
  key := fun x => (h'.key x).trans (h.key x)
  data := fun x => (h'.data x).trans (h.data x)
  indexed := fun hi => h'.indexed (h.indexed hi)
  holds := fun hi x => (h'.holds (h.indexed hi) x).trans (h.holds hi x)

section Swap

variable {q : PQueue} {i j : Nat}

theorem swapNode_heapId (hi : (q.nodes (q.heap i)).heapId = i)
    (hj : (q.nodes (q.heap j)).heapId = j) (x : Nat) :
    ((swapNode q (q.heap i) (q.heap j)).nodes x).heapId =
      if x = q.heap j then i else if x = q.heap i then j else (q.nodes x).heapId := by
  simp only [swapNode, PQueue.setHeapId, hi, hj, Function.update_apply]
  by_cases h1 : x = q.heap j
  · simp [h1]
  · by_cases h0 : x = q.heap i
    · have ne : q.heap i ≠ q.heap j := h0 ▸ h1
      simp [h0, ne]
    · simp [h0, h1]

theorem swapNode_heap (hi : (q.nodes (q.heap i)).heapId = i)
    (hj : (q.nodes (q.heap j)).heapId = j) (x : Nat) :
    (swapNode q (q.heap i) (q.heap j)).heap x = q.heap (Equiv.swap i j x) := by
  simp only [swapNode, PQueue.setHeapId, hi, hj, Function.update_apply, Equiv.swap_apply_def]
  by_cases h1 : x = j
  · by_cases h0 : x = i
    · simp [← h0, ← h1]
    · simp only [if_pos h1, if_neg h0]
  · simp only [if_neg h1]
    split <;> rfl

theorem swapNode_key (a b x : Nat) :
    ((swapNode q a b).nodes x).key = (q.nodes x).key := by
  simp only [swapNode, PQueue.setHeapId, Function.update_apply]
  split
  · rename_i h
    subst h
    split
    · rename_i h0; rw [h0]
    · rfl
  · split
    · rename_i h; rw [h]
    · rfl

theorem swapNode_data (a b x : Nat) :
    ((swapNode q a b).nodes x).data = (q.nodes x).data := by
  simp only [swapNode, PQueue.setHeapId, Function.update_apply]
  split
  · rename_i h
    subst h
    split
    · rename_i h0; rw [h0]
    · rfl
  · split
    · rename_i h; rw [h]
    · rfl

theorem swap_lt {n : Nat} (hi : i < n) (hj : j < n) {x : Nat} (hx : x < n) :
    Equiv.swap i j x < n := by
  rw [Equiv.swap_apply_def]
  split
  · exact hj
  · split
    · exact hi
    · exact hx

theorem swapNode_indexed (h : Indexed q) (hi : i < q.size) (hj : j < q.size) :
    Indexed (swapNode q (q.heap i) (q.heap j)) := by
  intro x hx
  change x < q.size at hx
  have inj : ∀ a b, a < q.size → b < q.size → q.heap a = q.heap b → a = b := by
    intro a b ha hb hab
    rw [← h a ha, hab, h b hb]
  rw [swapNode_heapId (h i hi) (h j hj), swapNode_heap (h i hi) (h j hj)]
  have hs := swap_lt hi hj hx
  by_cases hxj : Equiv.swap i j x = j
  · have e : x = i := by simpa using congrArg (Equiv.swap i j) hxj
    rw [hxj, if_pos rfl, e]
  · have nej : q.heap (Equiv.swap i j x) ≠ q.heap j := fun e => hxj (inj _ _ hs hj e)
    rw [if_neg nej]
    by_cases hxi : Equiv.swap i j x = i
    · have e : x = j := by simpa using congrArg (Equiv.swap i j) hxi
      rw [hxi, if_pos rfl, e]
    · have nei : q.heap (Equiv.swap i j x) ≠ q.heap i := fun e => hxi (inj _ _ hs hi e)
      rw [if_neg nei, h _ hs]
      have hx1 : x ≠ i := by intro e; subst e; simp at hxj
      have hx2 : x ≠ j := by intro e; subst e; simp at hxi
      exact Equiv.swap_apply_of_ne_of_ne hx1 hx2

theorem holds_iff_mem {q : PQueue} (h : Indexed q) (x : Nat) :
    Holds q x ↔ ∃ p, p < q.size ∧ q.heap p = x := by
  constructor
  · intro hx
    exact ⟨_, hx.1, hx.2⟩
  · rintro ⟨p, hp, rfl⟩
    exact h.holds hp

theorem swapNode_rearranged (h : Indexed q) (hi : i < q.size) (hj : j < q.size) :
    Rearranged q (swapNode q (q.heap i) (q.heap j)) where
  size := rfl
  capacity := rfl
  stack := rfl
  key := swapNode_key _ _
  data := swapNode_data _ _
  indexed := fun _ => swapNode_indexed h hi hj
  holds := by
    intro _ x
    rw [holds_iff_mem (swapNode_indexed h hi hj), holds_iff_mem h]
    constructor
    · rintro ⟨p, hp, e⟩
      rw [swapNode_heap (h i hi) (h j hj)] at e
      exact ⟨_, swap_lt hi hj hp, e⟩
    · rintro ⟨p, hp, e⟩
      refine ⟨Equiv.swap i j p, swap_lt hi hj hp, ?_⟩
      rw [swapNode_heap (h i hi) (h j hj), Equiv.swap_apply_self]
      exact e

theorem keyAt_swapNode (h : Indexed q) (hi : i < q.size) (hj : j < q.size) :
    keyAt (swapNode q (q.heap i) (q.heap j)) = exchange (keyAt q) i j := by
  funext x
  simp only [keyAt, swapNode_key, swapNode_heap (h i hi) (h j hj), exchange, Function.comp]

end Swap

/-! ## Sifting -/

theorem up_at_root (fuel : Nat) (q : PQueue) {i : Nat} (hid : (q.nodes (q.heap i)).heapId = i)
    (h0 : i = 0) : up fuel q (q.heap i) = q := by
  have none_above : getParentNode q (q.heap i) = none := by
    unfold getParentNode
    rw [hid, if_pos h0]
  cases fuel with
  | zero => rfl
  | succ fuel => simp only [up, none_above]

theorem up_step (fuel : Nat) (q : PQueue) {i : Nat} (hid : (q.nodes (q.heap i)).heapId = i)
    (h0 : i ≠ 0) :
    up (fuel + 1) q (q.heap i) =
      if keyAt q i < keyAt q (parent i) then
        up fuel (swapNode q (q.heap (parent i)) (q.heap i)) (q.heap i)
      else q := by
  have above : getParentNode q (q.heap i) = some (q.heap (parent i)) := by
    simp [getParentNode, hid, h0, parent]
  simp only [up, above]
  rfl

/-- After the exchange the sifted node stands at the other position. -/
theorem swapNode_place {q : PQueue} (h : Indexed q) {i j : Nat} (hi : i < q.size)
    (hj : j < q.size) : (swapNode q (q.heap j) (q.heap i)).heap j = q.heap i := by
  rw [swapNode_heap (h j hj) (h i hi), Equiv.swap_apply_left]

theorem up_rearranged (fuel : Nat) (q : PQueue) {i : Nat} (h : Indexed q) (hi : i < q.size) :
    Rearranged q (up fuel q (q.heap i)) := by
  induction fuel generalizing q i with
  | zero => exact .refl q
  | succ fuel ih =>
    by_cases h0 : i = 0
    · rw [up_at_root _ _ (h i hi) h0]
      exact .refl q
    · have hp := parent_lt (Nat.pos_of_ne_zero h0)
      have hpn : parent i < q.size := by omega
      rw [up_step fuel q (h i hi) h0]
      split
      · have moved := swapNode_rearranged h hpn hi
        have rest := ih (swapNode q (q.heap (parent i)) (q.heap i)) (moved.indexed h)
          (i := parent i) hpn
        rw [swapNode_place h hi hpn] at rest
        exact moved.trans rest
      · exact .refl q

theorem up_orders (fuel : Nat) (q : PQueue) {i : Nat} (h : Indexed q) (hi : i < q.size)
    (enough : i < fuel) (ready : UpReady (keyAt q) q.size i) :
    Ordered (keyAt (up fuel q (q.heap i))) (up fuel q (q.heap i)).size := by
  induction fuel generalizing q i with
  | zero => omega
  | succ fuel ih =>
    by_cases h0 : i = 0
    · rw [up_at_root _ _ (h i hi) h0]
      exact ready.ordered (.inl h0)
    · have hp := parent_lt (Nat.pos_of_ne_zero h0)
      have hpn : parent i < q.size := by omega
      rw [up_step fuel q (h i hi) h0]
      split
      · rename_i lt
        have next := ready.exchange (Nat.pos_of_ne_zero h0) hi lt
        rw [← keyAt_swapNode h hpn hi] at next
        have rest := ih (swapNode q (q.heap (parent i)) (q.heap i)) (swapNode_indexed h hpn hi)
          (i := parent i) hpn (by omega) next
        rwa [swapNode_place h hi hpn] at rest
      · rename_i le
        exact ready.ordered (.inr (not_lt.mp le))

theorem parent_cases {i j : Nat} (hj : 0 < j) (h : parent j = i) : j = 2 * i + 1 ∨ j = 2 * i + 2 := by
  unfold parent at h
  omega

theorem down_spec (fuel : Nat) (q : PQueue) {i : Nat} (h : Indexed q) (hi : i < q.size)
    (enough : q.size < fuel + i) (ready : DownReady (keyAt q) q.size i) :
    Rearranged q (down fuel q (q.heap i)) ∧
      Ordered (keyAt (down fuel q (q.heap i))) (down fuel q (q.heap i)).size := by
  induction fuel generalizing q i with
  | zero => omega
  | succ fuel ih =>
    -- one exchange with the smaller child c, then the rest of the loop
    have descend : ∀ c, c < q.size → 0 < c → parent c = i →
        (∀ j, 0 < j → j < q.size → parent j = i → keyAt q c ≤ keyAt q j) →
        getChildNode q (q.heap i) = some (q.heap c) →
        Rearranged q (down (fuel + 1) q (q.heap i)) ∧
          Ordered (keyAt (down (fuel + 1) q (q.heap i))) (down (fuel + 1) q (q.heap i)).size := by
      intro c hc hc0 child least found
      have hic : i < c := child ▸ parent_lt hc0
      simp only [down, found]
      split
      · rename_i lt
        have moved := swapNode_rearranged h hc hi
        have next := ready.exchange hc0 hc child lt least
        rw [← keyAt_swapNode h hc hi] at next
        have rest := ih (swapNode q (q.heap c) (q.heap i)) (moved.indexed h) (i := c) hc
          (by change q.size < fuel + c; omega) next
        rw [swapNode_place h hi hc] at rest
        exact ⟨moved.trans rest.1, rest.2⟩
      · rename_i le
        refine ⟨.refl q, ready.ordered ?_⟩
        intro j hj hjn hp
        exact le_trans (not_lt.mp le) (least j hj hjn hp)
    have hid := h i hi
    by_cases h1 : 2 * i + 1 < q.size
    · by_cases h2 : 2 * i + 2 < q.size
      · by_cases lt : keyAt q (2 * i + 1) < keyAt q (2 * i + 2)
        · refine descend (2 * i + 1) h1 (by omega) (by unfold parent; omega) ?_ ?_
          · intro j hj _ hp
            rcases parent_cases hj hp with e | e
            · rw [e]
            · rw [e]; exact le_of_lt lt
          · unfold keyAt at lt
            simp [getChildNode, hid, lt, Nat.not_le.mpr h1, Nat.not_le.mpr h2]
        · refine descend (2 * i + 2) h2 (by omega) (by unfold parent; omega) ?_ ?_
          · intro j hj _ hp
            rcases parent_cases hj hp with e | e
            · rw [e]; exact not_lt.mp lt
            · rw [e]
          · unfold keyAt at lt
            simp [getChildNode, hid, lt, Nat.not_le.mpr h1, Nat.not_le.mpr h2]
      · refine descend (2 * i + 1) h1 (by omega) (by unfold parent; omega) ?_ ?_
        · intro j hj hjn hp
          rcases parent_cases hj hp with e | e
          · rw [e]
          · omega
        · simp [getChildNode, hid, Nat.not_le.mpr h1, Nat.not_lt.mp h2]
    · have none_below : getChildNode q (q.heap i) = none := by
        simp [getChildNode, hid, Nat.not_lt.mp h1]
      simp only [down, none_below]
      refine ⟨.refl q, ready.ordered ?_⟩
      intro j hj hjn hp
      rcases parent_cases hj hp with e | e <;> omega

/-- Sifting keeps the free ids and every node, so only the order is left to check. -/
theorem WellFormed.rearranged {q q' : PQueue} (indexed : Indexed q) (bounded : q.size ≤ q.capacity)
    (used : ∀ i, i < q.size → q.heap i < q.capacity)
    (free : ∀ j, j < q.capacity - q.size → q.stack j < q.capacity ∧ ¬ Holds q (q.stack j))
    (distinct : ∀ i j, i < q.capacity - q.size → j < q.capacity - q.size →
      q.stack i = q.stack j → i = j)
    (covered : ∀ x, x < q.capacity → Holds q x ∨ ∃ j, j < q.capacity - q.size ∧ q.stack j = x)
    (h : Rearranged q q') (ordered : Ordered (keyAt q') q'.size) : WellFormed q' where
  indexed := h.indexed indexed
  bounded := by rw [h.size, h.capacity]; exact bounded
  used := by
    intro i hi
    have held := (h.holds indexed _).mp ((h.indexed indexed).holds hi)
    rw [h.capacity, ← held.2]
    exact used _ held.1
  free := by
    intro j hj
    rw [h.size, h.capacity] at hj
    rw [h.stack, h.capacity, h.holds indexed]
    exact free j hj
  distinct := by
    intro i j hi hj e
    rw [h.size, h.capacity] at hi hj
    rw [h.stack] at e
    exact distinct i j hi hj e
  covered := by
    intro x hx
    rw [h.capacity] at hx
    rw [h.holds indexed, h.size, h.capacity, h.stack]
    exact covered x hx
  ordered := ordered

/-! ## Insertion -/

theorem Holds.heap_ne {q : PQueue} (h : Indexed q) {x : Nat} (hx : ¬ Holds q x) {i : Nat}
    (hi : i < q.size) : q.heap i ≠ x := by
  intro e
  exact hx (e ▸ h.holds hi)

section Append

variable {q : PQueue} {key : Int} {data node : Nat}

theorem pqueueAppend_indexed (h : Indexed q)
    (fresh : ¬ Holds q (q.stack (q.capacity - q.size - 1))) : Indexed (pqueueAppend q key data) := by
  intro i hi
  change i < q.size + 1 at hi
  by_cases e : i = q.size
  · simp [pqueueAppend, e]
  · have hiq : i < q.size := by omega
    have ne := Holds.heap_ne h fresh hiq
    simp only [pqueueAppend, Function.update_of_ne e, Function.update_of_ne ne]
    exact h i hiq

theorem pqueueAppend_holds (h : Indexed q)
    (fresh : ¬ Holds q (q.stack (q.capacity - q.size - 1))) (x : Nat) :
    Holds (pqueueAppend q key data) x ↔ Holds q x ∨ x = q.stack (q.capacity - q.size - 1) := by
  rw [holds_iff_mem (pqueueAppend_indexed h fresh), holds_iff_mem h]
  constructor
  · rintro ⟨p, hp, e⟩
    change p < q.size + 1 at hp
    by_cases hps : p = q.size
    · right
      simpa [pqueueAppend, hps] using e.symm
    · left
      exact ⟨p, by omega, by simpa [pqueueAppend, Function.update_of_ne hps] using e⟩
  · rintro (⟨p, hp, e⟩ | e)
    · have hps : p ≠ q.size := by omega
      exact ⟨p, by change p < q.size + 1; omega, by simpa [pqueueAppend, Function.update_of_ne hps] using e⟩
    · exact ⟨q.size, by change q.size < q.size + 1; omega, by simp [pqueueAppend, e]⟩

theorem pqueueAppend_upReady (h : WellFormed q)
    (fresh : ¬ Holds q (q.stack (q.capacity - q.size - 1))) :
    UpReady (keyAt (pqueueAppend q key data)) (q.size + 1) q.size := by
  have old : ∀ i, i < q.size → keyAt (pqueueAppend q key data) i = keyAt q i := by
    intro i hi
    have ne := Holds.heap_ne h.indexed fresh hi
    have e : i ≠ q.size := by omega
    simp only [keyAt, pqueueAppend, Function.update_of_ne e, Function.update_of_ne ne]
  constructor
  · intro j hj hjn hjs
    have hp := parent_lt hj
    rw [old j (by omega), old _ (by omega)]
    exact h.ordered j hj (by omega)
  · intro j hj hjn hp
    have := parent_lt hj
    omega

end Append

/-- What an insertion does: a fresh handle, and all else as before. -/
structure Inserted (q : PQueue) (key : Int) (data : Nat) (q' : PQueue) (node : Nat) : Prop where
  wellFormed : WellFormed q'
  size : q'.size = q.size + 1
  capacity : q'.capacity = q.capacity
  fresh : ¬ Holds q node
  holds : ∀ x, Holds q' x ↔ Holds q x ∨ x = node
  key : (q'.nodes node).key = key
  data : (q'.nodes node).data = data
  keyOther : ∀ x, x ≠ node → (q'.nodes x).key = (q.nodes x).key
  dataOther : ∀ x, x ≠ node → (q'.nodes x).data = (q.nodes x).data

theorem pqueueInsert_spec {q : PQueue} (h : WellFormed q) (room : q.size < q.capacity)
    (key : Int) (data : Nat) :
    Inserted q key data (pqueueInsert q key data).1 (pqueueInsert q key data).2 := by
  have hfree := h.free (q.capacity - q.size - 1) (by omega)
  have indexed : Indexed (pqueueAppend q key data) := pqueueAppend_indexed h.indexed hfree.2
  have holds : ∀ x, Holds (pqueueAppend q key data) x ↔
      Holds q x ∨ x = q.stack (q.capacity - q.size - 1) := pqueueAppend_holds h.indexed hfree.2
  have place : (pqueueAppend q key data).heap q.size = q.stack (q.capacity - q.size - 1) := by
    simp [pqueueAppend]
  have inside : q.size < (pqueueAppend q key data).size := Nat.lt_succ_self _
  have moved := up_rearranged (q.size + 1) (pqueueAppend q key data) indexed inside
  have ordered := up_orders (q.size + 1) (pqueueAppend q key data) indexed inside (by omega)
    (pqueueAppend_upReady h hfree.2)
  rw [place] at moved ordered
  have wellFormed : WellFormed (pqueueInsert q key data).1 := by
    refine WellFormed.rearranged indexed (by change q.size + 1 ≤ q.capacity; omega)
      ?_ ?_ ?_ ?_ moved ordered
    · intro i hi
      have held := indexed.holds hi
      rcases (holds _).mp held with old | new
      · rw [← old.2]; exact h.used _ old.1
      · rw [new]; exact hfree.1
    · intro j hj
      change j < q.capacity - (q.size + 1) at hj
      have hjf := h.free j (by omega)
      refine ⟨hjf.1, ?_⟩
      intro held
      rcases (holds _).mp held with old | new
      · exact hjf.2 old
      · have := h.distinct j (q.capacity - q.size - 1) (by omega) (by omega) new
        omega
    · intro i j hi hj e
      change i < q.capacity - (q.size + 1) at hi
      change j < q.capacity - (q.size + 1) at hj
      exact h.distinct i j (by omega) (by omega) e
    · intro x hx
      rcases h.covered x hx with old | ⟨j, hj, e⟩
      · exact Or.inl ((holds x).mpr (Or.inl old))
      · by_cases top : j = q.capacity - q.size - 1
        · exact Or.inl ((holds x).mpr (Or.inr (by rw [← e, top])))
        · exact Or.inr ⟨j, by change j < q.capacity - (q.size + 1); omega, e⟩
  refine ⟨wellFormed, moved.size, moved.capacity, hfree.2, ?_, ?_, ?_, ?_, ?_⟩
  · intro x
    exact (moved.holds indexed x).trans (holds x)
  · have same := moved.key (q.stack (q.capacity - q.size - 1))
    simpa [pqueueInsert, pqueueAppend] using same
  · have same := moved.data (q.stack (q.capacity - q.size - 1))
    simpa [pqueueInsert, pqueueAppend] using same
  · intro x hx
    have hx' : x ≠ q.stack (q.capacity - q.size - 1) := hx
    have same := moved.key x
    simpa [pqueueInsert, pqueueAppend, Function.update_of_ne hx'] using same
  · intro x hx
    have hx' : x ≠ q.stack (q.capacity - q.size - 1) := hx
    have same := moved.data x
    simpa [pqueueInsert, pqueueAppend, Function.update_of_ne hx'] using same

/-! ## Removal -/

/-- What a removal does: the node is gone, and all else is as before. -/
structure Removed (q : PQueue) (node : Nat) (q' : PQueue) : Prop where
  wellFormed : WellFormed q'
  size : q'.size + 1 = q.size
  capacity : q'.capacity = q.capacity
  holds : ∀ x, Holds q' x ↔ Holds q x ∧ x ≠ node
  key : ∀ x, (q'.nodes x).key = (q.nodes x).key
  data : ∀ x, (q'.nodes x).data = (q.nodes x).data

section Detach

variable {q : PQueue} {node : Nat}

theorem pqueueDetach_key (x : Nat) : ((pqueueDetach q node).nodes x).key = (q.nodes x).key := by
  simp only [pqueueDetach, Function.update_apply]
  split
  · rename_i h; rw [h]
  · rfl

theorem pqueueDetach_data (x : Nat) :
    ((pqueueDetach q node).nodes x).data = (q.nodes x).data := by
  simp only [pqueueDetach, Function.update_apply]
  split
  · rename_i h; rw [h]
  · rfl

/-- Positions other than the freed one keep their node. -/
theorem pqueueDetach_heap {i : Nat} (hi : i ≠ (q.nodes node).heapId) :
    (pqueueDetach q node).heap i = q.heap i := by
  simp only [pqueueDetach, Function.update_of_ne hi]

theorem pqueueDetach_heap_hole :
    (pqueueDetach q node).heap (q.nodes node).heapId = q.heap (q.size - 1) := by
  simp [pqueueDetach]

theorem heap_injective {q : PQueue} (h : Indexed q) {i j : Nat} (hi : i < q.size)
    (hj : j < q.size) (e : q.heap i = q.heap j) : i = j := by
  rw [← h i hi, e, h j hj]

theorem pqueueDetach_indexed (h : Indexed q) : Indexed (pqueueDetach q node) := by
  intro i hi
  change i < q.size - 1 at hi
  by_cases hole : i = (q.nodes node).heapId
  · rw [hole, pqueueDetach_heap_hole]
    simp [pqueueDetach]
  · rw [pqueueDetach_heap hole]
    have ne : q.heap i ≠ q.heap (q.size - 1) := by
      intro e
      have := heap_injective h (by omega) (by omega) e
      omega
    simp only [pqueueDetach, Function.update_of_ne ne]
    exact h i (by omega)

theorem pqueueDetach_holds (h : Indexed q) (held : Holds q node) (x : Nat) :
    Holds (pqueueDetach q node) x ↔ Holds q x ∧ x ≠ node := by
  have hsize := held.1
  rw [holds_iff_mem (pqueueDetach_indexed h), holds_iff_mem h]
  constructor
  · rintro ⟨p, hp, e⟩
    change p < q.size - 1 at hp
    by_cases hole : p = (q.nodes node).heapId
    · rw [hole, pqueueDetach_heap_hole] at e
      refine ⟨⟨q.size - 1, by omega, e⟩, ?_⟩
      intro hx
      rw [hx, ← held.2] at e
      have := heap_injective h (by omega) hsize e
      omega
    · rw [pqueueDetach_heap hole] at e
      refine ⟨⟨p, by omega, e⟩, ?_⟩
      intro hx
      rw [hx, ← held.2] at e
      exact hole (heap_injective h (by omega) hsize e)
  · rintro ⟨⟨p, hp, e⟩, hne⟩
    have hole : p ≠ (q.nodes node).heapId := by
      intro hpe
      rw [hpe, held.2] at e
      exact hne e.symm
    by_cases last : p = q.size - 1
    · refine ⟨(q.nodes node).heapId, ?_, ?_⟩
      · change (q.nodes node).heapId < q.size - 1
        omega
      · rw [pqueueDetach_heap_hole, ← last, e]
    · refine ⟨p, ?_, ?_⟩
      · change p < q.size - 1
        omega
      · rw [pqueueDetach_heap hole, e]

theorem pqueueDetach_keyAt {i : Nat} (hi : i ≠ (q.nodes node).heapId) :
    keyAt (pqueueDetach q node) i = keyAt q i := by
  simp only [keyAt, pqueueDetach_key, pqueueDetach_heap hi]

theorem pqueueDetach_holeReady (h : WellFormed q) (held : Holds q node) :
    HoleReady (keyAt (pqueueDetach q node)) (q.size - 1) (q.nodes node).heapId := by
  constructor
  · intro j hj hjn hji hp
    rw [pqueueDetach_keyAt hji, pqueueDetach_keyAt hp]
    exact h.ordered j hj (by omega)
  · intro j hj hjn hp hpos
    have hlt := parent_lt hpos
    have hjne : j ≠ (q.nodes node).heapId := by
      have := parent_lt hj
      omega
    rw [pqueueDetach_keyAt hjne, pqueueDetach_keyAt (by omega)]
    have upper := h.ordered _ hpos held.1
    have lower := h.ordered j hj (by omega)
    rw [hp] at lower
    exact le_trans upper lower

/-- The freed id joins the stack. -/
theorem pqueueDetach_rest (h : WellFormed q) (held : Holds q node) {q' : PQueue}
    (moved : Rearranged (pqueueDetach q node) q') (ordered : Ordered (keyAt q') q'.size) :
    Removed q node q' := by
  have hsize := held.1
  have hbound := h.bounded
  have indexed : Indexed (pqueueDetach q node) := pqueueDetach_indexed h.indexed
  have holds := pqueueDetach_holds h.indexed held
  have top : q.capacity - (q.size - 1) - 1 = q.capacity - q.size := by omega
  have stackTop : (pqueueDetach q node).stack (q.capacity - q.size) = node := by
    simp [pqueueDetach, top]
  have stackLow : ∀ j, j < q.capacity - q.size → (pqueueDetach q node).stack j = q.stack j := by
    intro j hj
    simp only [pqueueDetach, top]
    exact Function.update_of_ne (by omega) _ _
  have wellFormed : WellFormed q' := by
    refine WellFormed.rearranged indexed (by change q.size - 1 ≤ q.capacity; omega)
      ?_ ?_ ?_ ?_ moved ordered
    · intro i hi
      have old := ((holds _).mp (indexed.holds hi)).1
      rw [← old.2]
      exact h.used _ old.1
    · intro j hj
      change j < q.capacity - (q.size - 1) at hj
      by_cases e : j = q.capacity - q.size
      · rw [e, stackTop, holds]
        have := h.used _ held.1
        rw [held.2] at this
        exact ⟨this, fun hx => hx.2 rfl⟩
      · rw [stackLow j (by omega), holds]
        have hf := h.free j (by omega)
        exact ⟨hf.1, fun hx => hf.2 hx.1⟩
    · intro i j hi hj e
      change i < q.capacity - (q.size - 1) at hi
      change j < q.capacity - (q.size - 1) at hj
      have free : ∀ a, a < q.capacity - q.size → q.stack a ≠ node := by
        intro a ha hn
        exact (h.free a ha).2 (hn ▸ held)
      by_cases hi' : i = q.capacity - q.size
      · by_cases hj' : j = q.capacity - q.size
        · omega
        · rw [hi', stackTop, stackLow j (by omega)] at e
          exact absurd e.symm (free j (by omega))
      · by_cases hj' : j = q.capacity - q.size
        · rw [hj', stackTop, stackLow i (by omega)] at e
          exact absurd e (free i (by omega))
        · rw [stackLow i (by omega), stackLow j (by omega)] at e
          exact h.distinct i j (by omega) (by omega) e
    · intro x hx
      by_cases e : x = node
      · exact Or.inr ⟨q.capacity - q.size, by change _ < q.capacity - (q.size - 1); omega,
          by rw [stackTop, e]⟩
      · rcases h.covered x hx with old | ⟨j, hj, hs⟩
        · exact Or.inl ((holds x).mpr ⟨old, e⟩)
        · exact Or.inr ⟨j, by change j < q.capacity - (q.size - 1); omega,
            by rw [stackLow j hj, hs]⟩
  refine ⟨wellFormed, ?_, moved.capacity, ?_, ?_, ?_⟩
  · rw [moved.size]
    change q.size - 1 + 1 = q.size
    omega
  · intro x
    exact (moved.holds indexed x).trans (holds x)
  · intro x
    exact (moved.key x).trans (pqueueDetach_key x)
  · intro x
    exact (moved.data x).trans (pqueueDetach_data x)

end Detach

theorem pqueueDetach_last_ordered {q : PQueue} (h : WellFormed q) {node : Nat}
    (held : Holds q node) (last : (q.nodes node).heapId = q.size - 1)
    (h0 : (q.nodes node).heapId ≠ 0) :
    keyAt (pqueueDetach q node) (parent (q.nodes node).heapId) ≤
      keyAt (pqueueDetach q node) (q.nodes node).heapId := by
  have hp := parent_lt (Nat.pos_of_ne_zero h0)
  have same : keyAt (pqueueDetach q node) (q.nodes node).heapId =
      keyAt q (q.nodes node).heapId := by
    simp only [keyAt, pqueueDetach_key, pqueueDetach_heap_hole]
    rw [last]
  rw [pqueueDetach_keyAt (by omega), same]
  exact h.ordered _ (Nat.pos_of_ne_zero h0) held.1

theorem up_ordered (fuel : Nat) (q : PQueue) (i : Nat) (hid : (q.nodes (q.heap i)).heapId = i)
    (stop : i = 0 ∨ keyAt q (parent i) ≤ keyAt q i) : up fuel q (q.heap i) = q := by
  by_cases h0 : i = 0
  · exact up_at_root fuel q hid h0
  · have hle := stop.resolve_left h0
    cases fuel with
    | zero => rfl
    | succ fuel => rw [up_step fuel q hid h0, if_neg (not_lt.mpr hle)]

theorem down_past (fuel : Nat) (q : PQueue) (node : Nat) (past : q.size ≤ (q.nodes node).heapId) :
    down fuel q node = q := by
  cases fuel with
  | zero => rfl
  | succ fuel =>
    have none_below : getChildNode q node = none := by
      simp only [getChildNode]
      rw [if_pos (by omega)]
    simp only [down, none_below]

theorem pqueueRemove_spec {q : PQueue} (h : WellFormed q) {node : Nat} (held : Holds q node) :
    Removed q node (pqueueRemove q node) := by
  have hsize := held.1
  have indexed : Indexed (pqueueDetach q node) := pqueueDetach_indexed h.indexed
  have hole := pqueueDetach_holeReady h held
  have place : (pqueueDetach q node).heap (q.nodes node).heapId = q.heap (q.size - 1) :=
    pqueueDetach_heap_hole
  have hid : ((pqueueDetach q node).nodes (q.heap (q.size - 1))).heapId =
      (q.nodes node).heapId := by simp [pqueueDetach]
  have hid' : ((pqueueDetach q node).nodes
      ((pqueueDetach q node).heap (q.nodes node).heapId)).heapId = (q.nodes node).heapId := by
    rw [place, hid]
  have size : (pqueueDetach q node).size = q.size - 1 := rfl
  unfold pqueueRemove
  simp only
  by_cases last : (q.nodes node).heapId = q.size - 1
  · -- the removed node was the last entry: both sifts leave the heap alone
    have stop : (q.nodes node).heapId = 0 ∨
        keyAt (pqueueDetach q node) (parent (q.nodes node).heapId) ≤
          keyAt (pqueueDetach q node) (q.nodes node).heapId := by
      by_cases h0 : (q.nodes node).heapId = 0
      · exact Or.inl h0
      · exact Or.inr (pqueueDetach_last_ordered h held last h0)
    have stay := up_ordered ((pqueueDetach q node).size + 1) (pqueueDetach q node) _ hid' stop
    rw [place] at stay
    rw [stay, down_past _ _ _ (by rw [hid, size]; omega)]
    refine pqueueDetach_rest h held (.refl _) ?_
    intro j hj hjn
    have hp := parent_lt hj
    rw [size] at hjn
    rw [pqueueDetach_keyAt (by omega), pqueueDetach_keyAt (by omega)]
    exact h.ordered j hj (by omega)
  · have inside : (q.nodes node).heapId < (pqueueDetach q node).size := by rw [size]; omega
    by_cases move : 0 < (q.nodes node).heapId ∧ keyAt (pqueueDetach q node) (q.nodes node).heapId <
        keyAt (pqueueDetach q node) (parent (q.nodes node).heapId)
    · -- the moved entry rises; afterwards the heap is in order and `down` stops at once
      have moved := up_rearranged ((pqueueDetach q node).size + 1) (pqueueDetach q node)
        indexed inside
      have ordered := up_orders ((pqueueDetach q node).size + 1) (pqueueDetach q node)
        indexed inside (by omega) (hole.up move.1 move.2)
      rw [place] at moved ordered
      have heldLast : Holds (pqueueDetach q node) (q.heap (q.size - 1)) := by
        rw [← place]
        exact indexed.holds inside
      have held' := (moved.holds indexed _).mpr heldLast
      have again := down_spec
        ((up ((pqueueDetach q node).size + 1) (pqueueDetach q node) (q.heap (q.size - 1))).size + 1)
        (up ((pqueueDetach q node).size + 1) (pqueueDetach q node) (q.heap (q.size - 1)))
        (moved.indexed indexed) held'.1 (by omega)
        ⟨fun j hj hjn _ => ordered j hj hjn, by
          intro j hj hjn hp hpos
          have lower := ordered j hj hjn
          rw [hp] at lower
          exact le_trans (ordered _ hpos held'.1) lower⟩
      rw [held'.2] at again
      exact pqueueDetach_rest h held (moved.trans again.1) again.2
    · have stop : (q.nodes node).heapId = 0 ∨
          keyAt (pqueueDetach q node) (parent (q.nodes node).heapId) ≤
            keyAt (pqueueDetach q node) (q.nodes node).heapId := by
        by_cases h0 : (q.nodes node).heapId = 0
        · exact Or.inl h0
        · exact Or.inr (not_lt.mp fun lt => move ⟨Nat.pos_of_ne_zero h0, lt⟩)
      have stay := up_ordered ((pqueueDetach q node).size + 1) (pqueueDetach q node) _ hid' stop
      rw [place] at stay
      rw [stay]
      have sift := down_spec ((pqueueDetach q node).size + 1) (pqueueDetach q node) indexed inside
        (by omega) (hole.down stop)
      rw [place] at sift
      exact pqueueDetach_rest h held sift.1 sift.2

/-! ## The top -/

theorem pqueueTop_eq_none {q : PQueue} : pqueueTop q = none ↔ q.size = 0 := by
  unfold pqueueTop
  split <;> simp_all

theorem pqueueTop_holds {q : PQueue} (h : WellFormed q) {top : Nat} (ht : pqueueTop q = some top) :
    Holds q top := by
  unfold pqueueTop at ht
  split at ht
  · cases ht
  · rename_i hne
    cases ht
    exact h.indexed.holds (Nat.pos_of_ne_zero hne)

/-- The top has a least key. -/
theorem pqueueTop_least {q : PQueue} (h : WellFormed q) {top : Nat}
    (ht : pqueueTop q = some top) {x : Nat} (hx : Holds q x) :
    (q.nodes top).key ≤ (q.nodes x).key := by
  unfold pqueueTop at ht
  split at ht
  · cases ht
  · cases ht
    have least := root_le h.ordered hx.1
    simpa only [keyAt, hx.2] using least

/-- `up` brings its node to the root or leaves the root alone. -/
theorem up_root (fuel : Nat) (q : PQueue) {i : Nat} (h : Indexed q) (hi : i < q.size) :
    (up fuel q (q.heap i)).heap 0 = q.heap 0 ∨
      (up fuel q (q.heap i)).heap 0 = q.heap i ∧ keyAt q i < keyAt q 0 := by
  induction fuel generalizing q i with
  | zero => exact Or.inl rfl
  | succ fuel ih =>
    by_cases h0 : i = 0
    · rw [up_at_root _ _ (h i hi) h0]
      exact Or.inl rfl
    · have hp := parent_lt (Nat.pos_of_ne_zero h0)
      have hpn : parent i < q.size := by omega
      rw [up_step fuel q (h i hi) h0]
      split
      · rename_i lt
        have moved := swapNode_rearranged h hpn hi
        have rest := ih (swapNode q (q.heap (parent i)) (q.heap i)) (moved.indexed h)
          (i := parent i) hpn
        rw [swapNode_place h hi hpn, keyAt_swapNode h hpn hi, exchange_left] at rest
        by_cases hp0 : parent i = 0
        · right
          rw [hp0] at lt rest
          rw [swapNode_place h hi (hp0 ▸ hpn)] at rest
          refine ⟨?_, lt⟩
          rcases rest with same | node
          · exact hp0 ▸ same
          · exact hp0 ▸ node.1
        · rw [swapNode_heap (h _ hpn) (h i hi),
            Equiv.swap_apply_of_ne_of_ne (Ne.symm hp0) (Ne.symm h0),
            exchange_other _ (Ne.symm hp0) (Ne.symm h0)] at rest
          exact rest
      · exact Or.inl rfl

theorem down_root (fuel : Nat) (q : PQueue) {i : Nat} (h : Indexed q) (hi : i < q.size)
    (below : 0 < i) : (down fuel q (q.heap i)).heap 0 = q.heap 0 := by
  induction fuel generalizing q i with
  | zero => rfl
  | succ fuel ih =>
    have descend : ∀ c, c < q.size → i < c →
        (down fuel (swapNode q (q.heap c) (q.heap i)) (q.heap i)).heap 0 = q.heap 0 := by
      intro c hc hic
      have moved := swapNode_rearranged h hc hi
      have rest := ih (swapNode q (q.heap c) (q.heap i)) (moved.indexed h) (i := c) hc (by omega)
      rw [swapNode_place h hi hc] at rest
      rw [rest, swapNode_heap (h c hc) (h i hi),
        Equiv.swap_apply_of_ne_of_ne (by omega) (by omega)]
    have hid := h i hi
    unfold down getChildNode
    simp only [hid]
    by_cases h1 : 2 * i + 1 ≥ q.size
    · simp only [if_pos h1]
    · simp only [if_neg h1]
      by_cases h2 : 2 * i + 2 ≥ q.size
      · simp only [if_pos h2]
        split
        · exact descend _ (by omega) (by omega)
        · rfl
      · simp only [if_neg h2]
        by_cases lt : (q.nodes (q.heap (2 * i + 1))).key < (q.nodes (q.heap (2 * i + 2))).key
        · simp only [if_pos lt]
          split
          · exact descend _ (by omega) (by omega)
          · rfl
        · simp only [if_neg lt]
          split
          · exact descend _ (by omega) (by omega)
          · rfl

theorem pqueueTop_eq_heap {q : PQueue} (h : q.size ≠ 0) : pqueueTop q = some (q.heap 0) := by
  simp only [pqueueTop, if_neg h]

/-- An inserted node becomes the top or leaves the old top in place. -/
theorem pqueueTop_insert {q : PQueue} (h : WellFormed q) (room : q.size < q.capacity)
    (key : Int) (data : Nat) (hne : q.size ≠ 0) :
    pqueueTop (pqueueInsert q key data).1 = some (pqueueInsert q key data).2 ∨
      pqueueTop (pqueueInsert q key data).1 = pqueueTop q := by
  have ins := pqueueInsert_spec h room key data
  have hfree := h.free (q.capacity - q.size - 1) (by omega)
  have indexed : Indexed (pqueueAppend q key data) := pqueueAppend_indexed h.indexed hfree.2
  have place : (pqueueAppend q key data).heap q.size = q.stack (q.capacity - q.size - 1) := by
    simp [pqueueAppend]
  have old : (pqueueAppend q key data).heap 0 = q.heap 0 := by
    simp only [pqueueAppend]
    exact Function.update_of_ne (Ne.symm hne) _ _
  have root := up_root (q.size + 1) (pqueueAppend q key data) (i := q.size) indexed
    (by change q.size < q.size + 1; omega)
  rw [place, old] at root
  have size : (pqueueInsert q key data).1.size ≠ 0 := by rw [ins.size]; omega
  rw [pqueueTop_eq_heap size, pqueueTop_eq_heap hne, Option.some.injEq, Option.some.injEq]
  exact root.symm.imp And.left id

/-- Removing another node leaves the top in place: the entry that fills the
hole is not smaller than the root, so no sift reaches it. -/
theorem pqueueTop_remove {q : PQueue} (h : WellFormed q) {node top : Nat} (held : Holds q node)
    (ht : pqueueTop q = some top) (hne : node ≠ top) :
    pqueueTop (pqueueRemove q node) = some top := by
  have hsize := held.1
  have rem := pqueueRemove_spec h held
  have root : q.heap 0 = top := by
    rw [pqueueTop_eq_heap (by omega)] at ht
    exact Option.some.inj ht
  have hid0 : (q.nodes node).heapId ≠ 0 := by
    intro e
    have := held.2
    rw [e, root] at this
    exact hne this.symm
  have heldTop := pqueueTop_holds h ht
  have size : (pqueueRemove q node).size ≠ 0 := by
    have := ((rem.holds top).mpr ⟨heldTop, Ne.symm hne⟩).1
    omega
  have indexed : Indexed (pqueueDetach q node) := pqueueDetach_indexed h.indexed
  have place : (pqueueDetach q node).heap (q.nodes node).heapId = q.heap (q.size - 1) :=
    pqueueDetach_heap_hole
  have detached : (pqueueDetach q node).heap 0 = q.heap 0 := pqueueDetach_heap (Ne.symm hid0)
  have hid : ((pqueueDetach q node).nodes (q.heap (q.size - 1))).heapId =
      (q.nodes node).heapId := by simp [pqueueDetach]
  have small : keyAt (pqueueDetach q node) 0 ≤
      ((pqueueDetach q node).nodes (q.heap (q.size - 1))).key := by
    rw [pqueueDetach_keyAt (Ne.symm hid0), pqueueDetach_key]
    exact root_le h.ordered (i := q.size - 1) (by omega)
  have keep : (pqueueRemove q node).heap 0 = q.heap 0 := by
    unfold pqueueRemove
    simp only
    by_cases inside : (q.nodes node).heapId < q.size - 1
    · have risen := up_root ((pqueueDetach q node).size + 1) (pqueueDetach q node)
        (i := (q.nodes node).heapId) indexed inside
      have stays : ¬ keyAt (pqueueDetach q node) (q.nodes node).heapId <
          keyAt (pqueueDetach q node) 0 := by
        rw [keyAt, place]
        exact not_lt.mpr small
      have top' := risen.resolve_right fun moved => stays moved.2
      rw [place, detached] at top'
      -- the sifted node is still below the root, so `down` starts below it
      have moved : Rearranged (pqueueDetach q node)
          (up ((pqueueDetach q node).size + 1) (pqueueDetach q node) (q.heap (q.size - 1))) := by
        rw [← place]
        exact up_rearranged _ _ indexed inside
      have held' := (moved.holds indexed _).mpr (place ▸ indexed.holds inside)
      have below : 0 < ((up ((pqueueDetach q node).size + 1) (pqueueDetach q node)
          (q.heap (q.size - 1))).nodes (q.heap (q.size - 1))).heapId := by
        by_contra h0
        have at0 := held'.2
        rw [Nat.eq_zero_of_not_pos h0, top'] at at0
        have := heap_injective h.indexed (by omega) (by omega) at0
        omega
      have sunk := down_root
        ((up ((pqueueDetach q node).size + 1) (pqueueDetach q node) (q.heap (q.size - 1))).size + 1)
        _ (moved.indexed indexed) held'.1 below
      rw [held'.2] at sunk
      exact sunk.trans top'
    · have last : (q.nodes node).heapId = q.size - 1 := by omega
      have stay := up_ordered ((pqueueDetach q node).size + 1) (pqueueDetach q node) _
        (by rw [place, hid]) (Or.inr (pqueueDetach_last_ordered h held last hid0))
      rw [place] at stay
      rw [stay, down_past _ _ _ (by rw [hid]; change q.size - 1 ≤ _; omega), detached]
  rw [pqueueTop_eq_heap size, keep, root]

end PriorityQueue
