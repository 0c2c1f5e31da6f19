import DistWalk.BoundedQueue
import DistWalk.FullChain
import DistWalk.LinkedChain

/-!
# The template as a queue and as a chain

`ccmd_add` makes a node known twice: it links the node behind `ccmd_last`, and it
enqueues a pointer to it. The two agree while the queue has room. A full queue refuses
the pointer after the node has been linked, and `ccmd_add` does not look at what
`queue_enqueue` returns: the node hangs at the end of the chain, but it is not
`ccmd_last`.
-/

namespace TemplateQueue

open Message Template BoundedQueue LinkedChain

/-- A node in memory, with its `next`. -/
structure Cell where
  node : CcmdNode
  next : Option Nat

/-- The queue of pointers to nodes and the memory they point to. Memory from `unused` on
has not been handed out by `calloc`. -/
structure Chain where
  queue : Queue Nat
  cells : Nat → Cell
  unused : Nat

/-- The nodes that are read along the `next` pointers. -/
def Chain.next (q : Chain) (a : Nat) : Option Nat := (q.cells a).next

def ccmdFirst (q : Chain) : Option Nat := (queueHead q.queue).map fun i => (q.queue.nodes i).data

def ccmdLast (q : Chain) : Option Nat := (queueTail q.queue).map fun i => (q.queue.nodes i).data

/-- The value of a command in its `enum`. -/
def cmdCode : CommandType → Int
  | .compute => 0
  | .store => 1
  | .load => 2
  | .pskip => 3
  | .forwardBegin => 4
  | .forwardContinue => 5
  | .reply => 6
  | .eom => 7
  | .unknown code => code

/-- `ccmd_last(q)->next = new_node` in a queue that is not empty. -/
def linkLast (q : Chain) (new : Nat) : Chain :=
  if q.queue.size ≥ 1 then
    match ccmdLast q with
    | none => q
    | some last => { q with cells := Function.update q.cells last { q.cells last with next := some new } }
  else q

/-- Without a queue the client exits; this is the only failure that is reported. -/
def ccmdAdd (q : Option Chain) (cmd : CommandType) (val : PdSpec) : Except Abort Chain :=
  match q with
  | none => .error .exitFailure
  | some q =>
    let new := q.unused
    let q := { q with cells := Function.update q.cells new ⟨.new cmd val, none⟩, unused := new + 1 }
    let q := linkLast q new
    .ok { q with queue := (queueEnqueue q.queue (cmdCode cmd) new).1 }

/-- The queue that `queue_alloc` gives, in some memory. -/
def Chain.alloc (capacity : Nat) (heap : Int → Node Nat) (cells : Nat → Cell) : Chain :=
  ⟨queueAlloc capacity heap, cells, 0⟩

/-- The arguments of calls of `ccmd_add`, one after the other. -/
def addAll (q : Chain) : List (CommandType × PdSpec) → Except Abort Chain
  | [] => .ok q
  | (cmd, val) :: rest =>
    match ccmdAdd (some q) cmd val with
    | .error e => .error e
    | .ok q => addAll q rest

/-- `ccmd_last` is the node just added, and the chain lists it behind those before. -/
structure Added (q q' : Chain) (before : List Nat) (cmd : CommandType) (val : PdSpec) : Prop where
  last : ccmdLast q' = some q.unused
  chain : Linked q'.next (ccmdFirst q') (before ++ [q.unused])
  node : (q'.cells q.unused).node = .new cmd val
  kept : ∀ a ∈ before, (q'.cells a).node = (q.cells a).node

/-- A call adds its node, or reports that it failed. -/
def AddsOrReports (q : Chain) (before : List Nat) (cmd : CommandType) (val : PdSpec) : Prop :=
  (∃ q', ccmdAdd (some q) cmd val = .ok q' ∧ Added q q' before cmd val) ∨
    ∃ e, ccmdAdd (some q) cmd val = .error e

/-! ## What the queue and the chain hold -/

/-- The queue points to `nodes`, and the chain runs over them to a node `behind`, which
is there only when the queue is full. -/
structure Represents (capacity : Nat) (q : Chain) (nodes : List Nat) (behind : Option Nat) : Prop where
  queue : ∃ h xs, Holds capacity q.queue h xs ∧ xs.map (·.data) = nodes
  chain : Linked q.next nodes.head? (nodes ++ behind.toList)
  used : ∀ a ∈ nodes ++ behind.toList, a < q.unused
  distinct : nodes.Nodup
  full : behind ≠ none → nodes.length = capacity

section Represents

variable {capacity : Nat} {q : Chain} {nodes : List Nat} {behind : Option Nat}

theorem Represents.first (r : Represents capacity q nodes behind) (positive : 1 ≤ capacity) :
    ccmdFirst q = nodes.head? := by
  obtain ⟨h, xs, held, rfl⟩ := r.queue
  have ends := (held.endsAs positive).head.1
  have split : ccmdFirst q = ((queueHead q.queue).map q.queue.nodes).map (·.data) := by
    rw [ccmdFirst, Option.map_map]
    rfl
  rw [split, ends, List.head?_map]

theorem Represents.last (r : Represents capacity q nodes behind) (positive : 1 ≤ capacity) :
    ccmdLast q = nodes.getLast? := by
  obtain ⟨h, xs, held, rfl⟩ := r.queue
  have ends := (held.endsAs positive).tail.1
  have split : ccmdLast q = ((queueTail q.queue).map q.queue.nodes).map (·.data) := by
    rw [ccmdLast, Option.map_map]
    rfl
  rw [split, ends, List.getLast?_map]

theorem Represents.size (r : Represents capacity q nodes behind) : q.queue.size = nodes.length := by
  obtain ⟨h, xs, held, rfl⟩ := r.queue
  rw [held.size, List.length_map]

theorem Represents.fits (r : Represents capacity q nodes behind) : nodes.length ≤ capacity := by
  obtain ⟨h, xs, held, rfl⟩ := r.queue
  rw [List.length_map]
  exact held.fits

theorem represents_alloc (positive : 1 ≤ capacity) (small : capacity < 2 ^ 31) (heap : Int → Node Nat)
    (cells : Nat → Cell) : Represents capacity (.alloc capacity heap cells) [] none where
  queue := ⟨0, [], holds_alloc positive small heap, rfl⟩
  chain := .nil
  used := by
    intro a inside
    cases inside
  distinct := List.nodup_nil
  full := fun absurdly => absurd rfl absurdly

/-! ### A call -/

/-- The node that `calloc` hands out. -/
def Chain.calloc (q : Chain) (node : CcmdNode) : Chain :=
  { q with cells := Function.update q.cells q.unused ⟨node, none⟩, unused := q.unused + 1 }

theorem ccmdAdd_some (q : Chain) (cmd : CommandType) (val : PdSpec) :
    ccmdAdd (some q) cmd val =
      .ok { linkLast (q.calloc (.new cmd val)) q.unused with
        queue := (queueEnqueue (linkLast (q.calloc (.new cmd val)) q.unused).queue (cmdCode cmd) q.unused).1 } :=
  rfl

/-- Memory that nothing points to can be handed out. -/
theorem Represents.calloc (r : Represents capacity q nodes behind) (node : CcmdNode) :
    Represents capacity (q.calloc node) nodes behind where
  queue := r.queue
  chain := by
    apply r.chain.congr
    intro a inside
    have old : a ≠ q.unused := Nat.ne_of_lt (r.used a inside)
    simp [Chain.next, Chain.calloc, old]
  used := fun a inside => Nat.lt_succ_of_lt (r.used a inside)
  distinct := r.distinct
  full := r.full

@[simp] theorem linkLast_queue (q : Chain) (new : Nat) : (linkLast q new).queue = q.queue := by
  unfold linkLast
  split
  · cases ccmdLast q with
    | none => rfl
    | some last => rfl
  · rfl

@[simp] theorem linkLast_unused (q : Chain) (new : Nat) : (linkLast q new).unused = q.unused := by
  unfold linkLast
  split
  · cases ccmdLast q with
    | none => rfl
    | some last => rfl
  · rfl

/-- Only `next` is written. -/
theorem linkLast_node (q : Chain) (new a : Nat) : ((linkLast q new).cells a).node = (q.cells a).node := by
  unfold linkLast
  split
  · cases ccmdLast q with
    | none => rfl
    | some last =>
      by_cases here : a = last
      · subst here
        simp
      · simp [here]
  · rfl

/-- The chain goes on from the last node of the queue to the new one. -/
theorem Represents.linkLast (r : Represents capacity q nodes behind) (positive : 1 ≤ capacity) {new : Nat}
    (fresh : new ∉ nodes) (ends : q.next new = none) :
    Linked (linkLast q new).next (nodes ++ [new]).head? (nodes ++ [new]) := by
  have size := r.size
  have last := r.last positive
  cases nodes using List.reverseRecOn with
  | nil =>
    have empty : ¬ q.queue.size ≥ 1 := by
      rw [size]
      decide
    rw [TemplateQueue.linkLast, if_neg empty]
    apply Linked.cons
    rw [ends]
    exact .nil
  | append_singleton front last' =>
    rw [List.getLast?_concat] at last
    have occupied : q.queue.size ≥ 1 := by
      rw [size, List.length_append, List.length_singleton]
      omega
    have distinct := List.nodup_append.1 r.distinct
    have other : new ≠ last' := by
      rintro rfl
      exact fresh (by simp)
    have split : Linked q.next (front ++ [last']).head? (front ++ last' :: behind.toList) := by
      have chain := r.chain
      rwa [List.append_assoc, List.singleton_append] at chain
    rw [TemplateQueue.linkLast, if_pos occupied, last, List.append_assoc, List.singleton_append]
    have head : (front ++ last' :: [new]).head? = (front ++ [last']).head? := by
      cases front with
      | nil => rfl
      | cons a front => rfl
    rw [head]
    apply split.relink
    · intro a inside
      have apart : a ≠ last' := fun same => distinct.2.2 a inside last' (by simp) same
      simp [Chain.next, apart]
    · have linked : Chain.next { q with cells := Function.update q.cells last' { q.cells last' with next := some new } }
          last' = some new := by
        simp [Chain.next]
      rw [linked]
      apply Linked.cons
      have stays : Chain.next { q with cells := Function.update q.cells last' { q.cells last' with next := some new } }
          new = q.next new := by
        simp [Chain.next, other]
      rw [stays, ends]
      exact .nil

/-- The chain and the queue after a call: with room the node joins both, else it takes
the place behind the last one. -/
theorem Represents.add (r : Represents capacity q nodes behind) (positive : 1 ≤ capacity)
    (cmd : CommandType) (val : PdSpec) : ∃ q', ccmdAdd (some q) cmd val = .ok q' ∧
      q'.unused = q.unused + 1 ∧ (q'.cells q.unused).node = .new cmd val ∧
      (∀ a < q.unused, (q'.cells a).node = (q.cells a).node) ∧
      if nodes.length < capacity then Represents capacity q' (nodes ++ [q.unused]) none
      else Represents capacity q' nodes (some q.unused) := by
  have old : ∀ a ∈ nodes, a < q.unused := fun a inside => r.used a (List.mem_append_left _ inside)
  have fresh : q.unused ∉ nodes := fun inside => Nat.lt_irrefl _ (old _ inside)
  have distinct : (nodes ++ [q.unused]).Nodup := by
    rw [List.nodup_append]
    refine ⟨r.distinct, List.nodup_singleton _, ?_⟩
    intro a inside b new same
    rw [List.mem_singleton] at new
    exact fresh (new ▸ same ▸ inside)
  have used : ∀ a ∈ nodes ++ [q.unused], a < q.unused + 1 := by
    intro a inside
    rcases List.mem_append.1 inside with earlier | new
    · exact Nat.lt_succ_of_lt (old a earlier)
    · rw [List.mem_singleton.1 new]
      exact Nat.lt_succ_self _
  have chain := (r.calloc (.new cmd val)).linkLast positive fresh (by simp [Chain.next, Chain.calloc])
  obtain ⟨h, xs, held, contents⟩ := r.queue
  have after := held.enqueue (cmdCode cmd) q.unused
  have length : xs.length = nodes.length := by rw [← contents, List.length_map]
  rw [ccmdAdd_some]
  refine ⟨_, rfl, ?_, ?_, ?_, ?_⟩
  · rw [linkLast_unused]
    rfl
  · rw [linkLast_node]
    simp [Chain.calloc]
  · intro a earlier
    rw [linkLast_node]
    have apart : a ≠ q.unused := Nat.ne_of_lt earlier
    simp [Chain.calloc, apart]
  · by_cases room : nodes.length < capacity
    · rw [if_pos room]
      rw [listed, if_neg (by omega)] at after
      exact {
        queue := ⟨h, _, by rw [linkLast_queue]; exact after, by rw [List.map_append, contents]; rfl⟩
        chain := by
          rw [Option.toList_none, List.append_nil]
          exact chain
        used := by
          rw [Option.toList_none, List.append_nil, linkLast_unused]
          exact used
        distinct := distinct
        full := fun absurdly => absurd rfl absurdly }
    · have fits := r.fits
      rw [if_neg room]
      rw [listed, if_pos (by omega)] at after
      have head : (nodes ++ [q.unused]).head? = nodes.head? := by
        cases nodes with
        | nil => exact absurd positive room
        | cons a nodes => rfl
      rw [head] at chain
      exact {
        queue := ⟨h, xs, by rw [linkLast_queue]; exact after, contents⟩
        chain := chain
        used := by
          rw [linkLast_unused]
          exact used
        distinct := r.distinct
        full := fun _ => by omega }

end Represents

/-! ## Any number of calls -/

/-- The queue keeps the first nodes, as many as it has room for. -/
theorem Represents.run {capacity : Nat} {q : Chain} {nodes : List Nat} {behind : Option Nat}
    (r : Represents capacity q nodes behind) (positive : 1 ≤ capacity) (calls : List (CommandType × PdSpec)) :
    ∃ q' behind', addAll q calls = .ok q' ∧ q'.unused = q.unused + calls.length ∧
      Represents capacity q' (nodes ++ List.range' q.unused (min calls.length (capacity - nodes.length))) behind' := by
  induction calls generalizing q nodes behind with
  | nil => exact ⟨q, behind, rfl, rfl, by simpa using r⟩
  | cons call rest ih =>
    obtain ⟨q', added, unused, -, -, holds⟩ := r.add positive call.1 call.2
    have fits := r.fits
    simp only [addAll, added, List.length_cons]
    by_cases room : nodes.length < capacity
    · rw [if_pos room] at holds
      obtain ⟨q'', behind', run, later, holds'⟩ := ih holds
      refine ⟨q'', behind', run, by omega, ?_⟩
      have split : List.range' q.unused (min (rest.length + 1) (capacity - nodes.length)) =
          q.unused :: List.range' (q.unused + 1) (min rest.length (capacity - (nodes.length + 1))) := by
        rw [← List.range'_succ]
        congr 1
        omega
      rw [unused, List.length_append, List.length_singleton, List.append_assoc] at holds'
      rw [split]
      exact holds'
    · rw [if_neg room] at holds
      obtain ⟨q'', behind', run, later, holds'⟩ := ih holds
      refine ⟨q'', behind', run, by omega, ?_⟩
      have none_ : capacity - nodes.length = 0 := by omega
      simp only [none_, Nat.min_zero, List.range'_zero] at holds' ⊢
      exact holds'

/-- The queue that the parser allocates has an `int` for its capacity. -/
theorem alloc_capacity {n : Nat} (positive : 1 ≤ int32 n) :
    ∃ capacity : Nat, int32 n = capacity ∧ 1 ≤ capacity ∧ capacity < 2 ^ 31 ∧
      ∀ heap cells, Chain.alloc n heap cells = .alloc capacity heap cells := by
  have small : int32 n < 2 ^ 31 := BitVec.toInt_lt
  obtain ⟨capacity, here⟩ := Int.eq_ofNat_of_zero_le (show 0 ≤ int32 n by omega)
  have below : capacity < 2 ^ 31 := by omega
  refine ⟨capacity, here, by omega, below, fun heap cells => ?_⟩
  have same : int32 n = int32 capacity := by
    rw [here]
    exact (holds_alloc (by omega) below heap).cells.symm
  rw [Chain.alloc, Chain.alloc, queueAlloc, queueAlloc, same]

/-- A node is added while the queue has room for it, and nothing is reported otherwise. -/
theorem adds_iff {capacity : Nat} {q : Chain} {nodes : List Nat} {behind : Option Nat}
    (r : Represents capacity q nodes behind) (positive : 1 ≤ capacity) (cmd : CommandType) (val : PdSpec) :
    AddsOrReports q nodes cmd val ↔ nodes.length < capacity := by
  obtain ⟨q', added, unused, node, kept, holds⟩ := r.add positive cmd val
  constructor
  · rintro (⟨other, same, adds⟩ | ⟨e, failed⟩)
    · rw [added] at same
      cases same
      by_contra full
      rw [if_neg full] at holds
      have last := adds.last
      rw [holds.last positive] at last
      exact Nat.lt_irrefl _ (r.used _ (List.mem_append_left _ (List.mem_of_getLast? last)))
    · rw [added] at failed
      cases failed
  · intro room
    rw [if_pos room] at holds
    refine .inl ⟨q', added, ?_, ?_, node, fun a inside => ?_⟩
    · rw [holds.last positive, List.getLast?_concat]
    · have chain := holds.chain
      rwa [Option.toList_none, List.append_nil, ← holds.first positive] at chain
    · exact kept a (r.used a (List.mem_append_left _ inside))

/-- Every one of the calls adds its node, which `calloc` numbers in order, or reports
that it failed. -/
def Aligned (q : Chain) (calls : List (CommandType × PdSpec)) : Prop :=
  ∀ earlier cmd val rest, calls = earlier ++ (cmd, val) :: rest → ∀ q', addAll q earlier = .ok q' →
    AddsOrReports q' (List.range earlier.length) cmd val

/-- Queue and chain stay aligned up to the capacity of the queue. -/
theorem aligned_iff (n : Nat) (heap : Int → Node Nat) (cells : Nat → Cell)
    (calls : List (CommandType × PdSpec)) (positive : 1 ≤ int32 n) :
    Aligned (.alloc n heap cells) calls ↔ (calls.length : Int) ≤ int32 n := by
  obtain ⟨capacity, value, above, below, alloc⟩ := alloc_capacity positive
  rw [value, alloc]
  have start := represents_alloc above below heap cells
  have reached : ∀ earlier : List (CommandType × PdSpec), ∃ q' behind, addAll (.alloc capacity heap cells) earlier = .ok q' ∧
      Represents capacity q' (List.range (min earlier.length capacity)) behind := by
    intro earlier
    obtain ⟨q', behind, run, -, holds⟩ := start.run above earlier
    refine ⟨q', behind, run, ?_⟩
    rw [List.range_eq_range']
    exact holds
  constructor
  · intro aligned
    by_contra more
    have long : capacity < calls.length := by omega
    -- the first call beyond the capacity
    have split : calls = calls.take capacity ++ (calls[capacity].1, calls[capacity].2) :: calls.drop (capacity + 1) := by
      rw [Prod.mk.eta, ← List.drop_eq_getElem_cons long, List.take_append_drop]
    obtain ⟨q', behind, run, holds⟩ := reached (calls.take capacity)
    have adds := aligned _ _ _ _ split q' run
    rw [List.length_take, Nat.min_eq_left long.le] at adds holds
    rw [Nat.min_self] at holds
    have room := (adds_iff holds above _ _).1 adds
    rw [List.length_range] at room
    exact Nat.lt_irrefl _ room
  · rintro fits earlier cmd val rest rfl q' run
    obtain ⟨q'', behind, run', holds⟩ := reached earlier
    rw [run] at run'
    cases run'
    rw [List.length_append, List.length_cons] at fits
    have room : earlier.length < capacity := by omega
    rw [Nat.min_eq_left room.le] at holds
    apply (adds_iff holds above cmd val).2
    rwa [List.length_range]

theorem aligned_two : Aligned (.alloc 2 (fun _ => ⟨0, 0⟩) (fun _ => ⟨.new .eom pdBuildNone, none⟩))
    [(.compute, pdBuildFixed 5), (.reply, pdBuildFixed 8)] :=
  (aligned_iff 2 _ _ _ (by decide)).mpr (by decide)

/-- Two commands and room for one: the chain lists both, but the last one is the first. -/
theorem second_behind_last : ∃ q q',
    addAll (.alloc 1 (fun _ => ⟨0, 0⟩) (fun _ => ⟨.new .eom pdBuildNone, none⟩)) [(.compute, pdBuildFixed 5)] =
      .ok q ∧
    ccmdAdd (some q) .reply (pdBuildFixed 8) = .ok q' ∧ ccmdLast q' = some 0 ∧ q'.next 0 = some 1 ∧
    ¬ Aligned (.alloc 1 (fun _ => ⟨0, 0⟩) (fun _ => ⟨.new .eom pdBuildNone, none⟩))
      [(.compute, pdBuildFixed 5), (.reply, pdBuildFixed 8)] := by
  refine ⟨_, _, rfl, rfl, rfl, rfl, ?_⟩
  intro aligned
  rcases aligned [_] _ _ [] rfl _ rfl with ⟨q', added, adds⟩ | ⟨e, failed⟩
  · cases added
    exact absurd adds.last (by decide)
  · cases failed

/-! ## The parser's chain -/

/-- The chain of the option parser is what the queue points to, with the node behind it. -/
structure Builds (q : Chain) (nodes : List Nat) (behind : Option Nat) (s : FullChain.Builder) : Prop where
  chain : s.chain = nodes.map fun a => (q.cells a).node
  behind : s.behind = behind.map fun a => (q.cells a).node

/-- What `FullChain` does to its chain, `ccmd_add` does to the queue and the nodes. -/
theorem Builds.add {q : Chain} {nodes : List Nat} {behind : Option Nat} {s : FullChain.Builder}
    (b : Builds q nodes behind s) (r : Represents chainCapacity q nodes behind) (cmd : CommandType) (val : PdSpec) :
    ∃ q' nodes' behind', ccmdAdd (some q) cmd val = .ok q' ∧ Represents chainCapacity q' nodes' behind' ∧
      Builds q' nodes' behind' (FullChain.ccmdAdd s cmd val) := by
  obtain ⟨q', added, -, node, kept, holds⟩ := r.add (by decide) cmd val
  have same : ∀ a ∈ nodes ++ behind.toList, (q'.cells a).node = (q.cells a).node :=
    fun a inside => kept a (r.used a inside)
  have chain : (nodes.map fun a => (q'.cells a).node) = s.chain := by
    rw [b.chain]
    exact List.map_congr_left fun a inside => same a (List.mem_append_left _ inside)
  have length : s.chain.length = nodes.length := by rw [b.chain, List.length_map]
  by_cases room : nodes.length < chainCapacity
  · rw [if_pos room] at holds
    have alone : behind = none := by
      by_contra there
      exact Nat.ne_of_lt room (r.full there)
    refine ⟨q', _, _, added, holds, ?_⟩
    rw [FullChain.ccmdAdd, length, if_pos room]
    constructor
    · rw [List.map_append, chain, List.map_singleton, node]
    · rw [b.behind, alone]
      rfl
  · rw [if_neg room] at holds
    refine ⟨q', _, _, added, holds, ?_⟩
    rw [FullChain.ccmdAdd, length, if_neg room]
    constructor
    · exact chain.symm
    · rw [Option.map_some, node]

end TemplateQueue
