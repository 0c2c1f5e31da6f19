import DistWalk.Requests

/-!
# Looking a request up by its id

A request is known by the number of the `req_alloc` call that made it. Its id
is this number modulo 2^32 and its slot the number modulo MAX_REQS; the id -1,
which marks an unused slot, is an id like any other. A history carries the
requests that were allocated and not yet unlinked beside the table, and a slot
reads the id of the newest of those it holds. `req_get_by_id` is right for
every id other than -1. For -1 it is right where slot 65535 holds exactly one
request: with none the mark itself is found, and a request with id -1 has its
slot given away to the next one.
-/

namespace RequestLookup

open Message Worker Requests Node

/-- A call of `req_alloc` or of `req_unlink` on `reqs[slot]`. -/
inductive Call
  | alloc
  | unlink (slot : Nat)
  deriving DecidableEq, Repr

/-- The table, how often `req_alloc` was called, and the numbers of the calls
whose request has not been unlinked, newest first. -/
structure History where
  table : State
  allocs : Nat
  live : List Nat

def History.init (w : State) : History := ⟨w, 0, []⟩

def idOf (n : Nat) : Nat := n % 2 ^ 32

def History.step (h : History) : Call → History
  | .alloc =>
    { table := (reqAlloc h.table).1
      allocs := h.allocs + 1
      live := if (reqAlloc h.table).2.isSome then h.allocs :: h.live else h.live }
  | .unlink slot =>
    { h with
      table := (reqUnlink h.table slot).1
      live := h.live.filter fun n => decide (slotOf n ≠ slot) }

def History.run (h : History) (calls : List Call) : History := calls.foldl History.step h

/-- The allocated requests of one slot, newest first. -/
def History.held (h : History) (slot : Nat) : List Nat :=
  h.live.filter fun n => decide (slotOf n = slot)

/-- `req_get_by_id(x)` returns the allocated request with id `x`, and NULL when
there is none. -/
structure Finds (h : History) (x : Nat) : Prop where
  complete : ∀ n ∈ h.live, idOf n = x → reqGetById h.table x = some (slotOf n)
  sound : ∀ slot, reqGetById h.table x = some slot → ∃ n ∈ h.live, idOf n = x ∧ slotOf n = slot

/-! ## What a slot reads -/

/-- The id in a slot and the requests it holds after `allocs` calls. A request
with id -1 looks free and loses its slot when the counter comes round to it. -/
inductive Reads (allocs : Nat) : Nat → List Nat → Prop
  | free : Reads allocs noReq []
  | one (n : Nat) (earlier : n < allocs)
      (recent : idOf n = noReq → allocs ≤ n + maxReqs) : Reads allocs (idOf n) [n]
  | shared (m n : Nat) (marked : idOf n = noReq) (other : idOf m ≠ noReq) :
      Reads allocs (idOf m) [m, n]

structure Kept (h : History) : Prop where
  counter : h.table.lastReqs = idOf h.allocs
  slots : ∀ slot < maxReqs, Reads h.allocs (h.table.reqs slot).reqId (h.held slot)

theorem slotOf_idOf (n : Nat) : slotOf (idOf n) = slotOf n := by
  simp only [slotOf, idOf, maxReqs]
  omega

theorem slotOf_lt (n : Nat) : slotOf n < maxReqs := Nat.mod_lt _ (by decide)

theorem kept_init {w : State} (fresh : w.lastReqs = 0) (unused : ∀ slot, (w.reqs slot).reqId = noReq) :
    Kept (.init w) where
  counter := by simpa [History.init, idOf] using fresh
  slots := by
    intro slot _
    have reads : Reads 0 noReq [] := .free
    rw [← unused slot] at reads
    exact reads

/-- Another slot: one more call only brings the counter closer. -/
theorem Reads.pass {allocs id : Nat} {held : List Nat} (reads : Reads allocs id held)
    (elsewhere : ∀ n ∈ held, slotOf n ≠ slotOf allocs) : Reads (allocs + 1) id held := by
  cases reads with
  | free => exact .free
  | one n earlier recent =>
    apply Reads.one n (by omega)
    intro marked
    have apart : allocs ≠ n + maxReqs := by
      intro e
      apply elsewhere n (List.mem_singleton.mpr rfl)
      simp [e, slotOf]
    have := recent marked
    omega
  | shared m n marked other => exact .shared m n marked other

/-- A busy slot that the counter comes to: the call returns NULL. -/
theorem Reads.refuse {allocs id : Nat} {held : List Nat} (reads : Reads allocs id held)
    (busy : id ≠ noReq) : Reads (allocs + 1) id held := by
  cases reads with
  | free => exact absurd rfl busy
  | one n earlier recent =>
    apply Reads.one n (by omega)
    intro marked
    exact absurd marked busy
  | shared m n marked other => exact .shared m n marked other

/-- A slot that looks free and that the counter comes to. -/
theorem Reads.take {allocs id : Nat} {held : List Nat} (reads : Reads allocs id held)
    (free : id = noReq) : Reads (allocs + 1) (idOf allocs) (allocs :: held) := by
  cases reads with
  | free =>
    apply Reads.one allocs (Nat.lt_succ_self _)
    intro _
    simp [maxReqs]
  | one n earlier recent =>
    -- fewer than 2^32 calls after the one that gave the id -1
    apply Reads.shared allocs n free
    intro again
    have near := recent free
    simp only [idOf, noReq, maxReqs] at free again near
    omega
  | shared m n marked other => exact absurd free other

/-! ## Every sequence of calls -/

theorem reqAlloc_cases (w : State) :
    ((w.reqs (slotOf w.lastReqs)).reqId ≠ noReq ∧
      reqAlloc w = ({ w with lastReqs := (w.lastReqs + 1) % 2 ^ 32 }, none)) ∨
    ((w.reqs (slotOf w.lastReqs)).reqId = noReq ∧
      (reqAlloc w).2 = some (slotOf w.lastReqs) ∧
      (reqAlloc w).1.lastReqs = (w.lastReqs + 1) % 2 ^ 32 ∧
      ((reqAlloc w).1.reqs (slotOf w.lastReqs)).reqId = w.lastReqs ∧
      ∀ slot, slot ≠ slotOf w.lastReqs → (reqAlloc w).1.reqs slot = w.reqs slot) := by
  by_cases free : (w.reqs (slotOf w.lastReqs)).reqId = noReq
  · right
    refine ⟨free, ?_, ?_, ?_, ?_⟩
    · simp [reqAlloc, free]
    · simp [reqAlloc, free, State.setReq]
    · simp [reqAlloc, free, State.setReq]
    · intro slot other
      simp [reqAlloc, free, State.setReq, other]
  · left
    exact ⟨free, by simp [reqAlloc, free]⟩

theorem Kept.alloc {h : History} (kept : Kept h) : Kept (h.step .alloc) := by
  have here : slotOf h.table.lastReqs = slotOf h.allocs := by rw [kept.counter, slotOf_idOf]
  have next : (h.table.lastReqs + 1) % 2 ^ 32 = idOf (h.allocs + 1) := by
    rw [kept.counter]
    simp only [idOf]
    omega
  have elsewhere : ∀ slot, slot ≠ slotOf h.allocs → ∀ n ∈ h.held slot, slotOf n ≠ slotOf h.allocs := by
    intro slot other n inside
    have same : slotOf n = slot := by simpa using (List.mem_filter.mp inside).2
    rwa [same]
  rcases reqAlloc_cases h.table with ⟨busy, e⟩ | ⟨free, returned, counter, self, others⟩
  · have step : h.step .alloc =
        ⟨{ h.table with lastReqs := (h.table.lastReqs + 1) % 2 ^ 32 }, h.allocs + 1, h.live⟩ := by
      simp [History.step, e]
    rw [step]
    constructor
    · exact next
    · intro slot bound
      by_cases own : slot = slotOf h.allocs
      · rw [here, ← own] at busy
        exact (kept.slots slot bound).refuse busy
      · exact (kept.slots slot bound).pass (elsewhere slot own)
  · have step : h.step .alloc = ⟨(reqAlloc h.table).1, h.allocs + 1, h.allocs :: h.live⟩ := by
      simp [History.step, returned]
    rw [step]
    constructor
    · exact counter.trans next
    · intro slot bound
      by_cases own : slot = slotOf h.allocs
      · subst own
        rw [here] at free self
        have held : (⟨(reqAlloc h.table).1, h.allocs + 1, h.allocs :: h.live⟩ : History).held
            (slotOf h.allocs) = h.allocs :: h.held (slotOf h.allocs) := by
          simp [History.held]
        rw [held, self, kept.counter]
        exact (kept.slots _ bound).take free
      · have held : (⟨(reqAlloc h.table).1, h.allocs + 1, h.allocs :: h.live⟩ : History).held slot =
            h.held slot := by
          simp [History.held, Ne.symm own]
        rw [held, others slot (by rwa [here])]
        exact (kept.slots slot bound).pass (elsewhere slot own)

theorem Kept.unlink {h : History} (kept : Kept h) (slot : Nat) : Kept (h.step (.unlink slot)) := by
  have held : ∀ s, (h.step (.unlink slot)).held s = if s = slot then [] else h.held s := by
    intro s
    simp only [History.step, History.held, List.filter_filter]
    split
    · rename_i own
      subst own
      apply List.filter_eq_nil_iff.mpr
      simp
    · rename_i other
      apply List.filter_congr
      intro n _
      by_cases e : slotOf n = s
      · simp [e, other]
      · simp [e]
  constructor
  · have tableless : (reqUnlink h.table slot).1.lastReqs = h.table.lastReqs := by
      simp only [reqUnlink, State.setReq, Worker.setPrev, Worker.setNext]
      repeat' split
      all_goals rfl
    exact tableless.trans kept.counter
  · intro s bound
    rw [held]
    split
    · rename_i own
      subst own
      have reads : Reads h.allocs noReq [] := .free
      rw [← reqUnlink_reqId h.table s] at reads
      exact reads
    · rename_i other
      have id : ((reqUnlink h.table slot).1.reqs s).reqId = (h.table.reqs s).reqId :=
        linkless_reqId.reqUnlink h.table other
      have reads := kept.slots s bound
      rw [← id] at reads
      exact reads

theorem Kept.step {h : History} (kept : Kept h) (call : Call) : Kept (h.step call) := by
  cases call with
  | alloc => exact kept.alloc
  | unlink slot => exact kept.unlink slot

theorem Kept.run {h : History} (kept : Kept h) (calls : List Call) : Kept (h.run calls) := by
  induction calls generalizing h with
  | nil => exact kept
  | cons call calls ih => exact ih (kept.step call)

/-! ## The lookup -/

theorem reqGetById_slot (w : State) (x slot : Nat) :
    reqGetById w x = some slot ↔ (w.reqs (slotOf x)).reqId = x ∧ slotOf x = slot := by
  unfold reqGetById
  split
  · rename_i other
    simp [other]
  · rename_i same
    simp only [ne_eq, not_not] at same
    simp [same]

/-- The requests with id `x` are those of its slot. -/
theorem mem_held {h : History} {x n : Nat} (named : idOf n = x) :
    n ∈ h.held (slotOf x) ↔ n ∈ h.live := by
  have slot : slotOf n = slotOf x := by rw [← named, slotOf_idOf]
  simp [History.held, slot]

theorem finds_held {h : History} {x : Nat} :
    Finds h x ↔ ((h.table.reqs (slotOf x)).reqId = x ↔ ∃ n ∈ h.held (slotOf x), idOf n = x) := by
  constructor
  · intro finds
    constructor
    · intro found
      obtain ⟨n, inside, named, -⟩ := finds.sound (slotOf x) ((reqGetById_slot _ _ _).mpr ⟨found, rfl⟩)
      exact ⟨n, (mem_held named).mpr inside, named⟩
    · rintro ⟨n, inside, named⟩
      exact ((reqGetById_slot _ _ _).mp (finds.complete n ((mem_held named).mp inside) named)).1
  · intro agree
    constructor
    · intro n inside named
      apply (reqGetById_slot _ _ _).mpr
      refine ⟨agree.mpr ⟨n, (mem_held named).mpr inside, named⟩, ?_⟩
      rw [← named, slotOf_idOf]
    · intro slot found
      obtain ⟨same, e⟩ := (reqGetById_slot _ _ _).mp found
      obtain ⟨n, inside, named⟩ := agree.mp same
      refine ⟨n, (mem_held named).mp inside, named, ?_⟩
      rw [← e, ← named, slotOf_idOf]

theorem Kept.lookup_iff {h : History} (kept : Kept h) (x : Nat) :
    Finds h x ↔ (x = noReq → (h.held (slotOf noReq)).length = 1) := by
  rw [finds_held]
  have reads := kept.slots (slotOf x) (slotOf_lt x)
  have slot : x = noReq → h.held (slotOf noReq) = h.held (slotOf x) := by
    intro e
    rw [e]
  generalize (h.table.reqs (slotOf x)).reqId = id at reads ⊢
  generalize h.held (slotOf x) = held at reads slot ⊢
  cases reads with
  | free =>
    constructor
    · intro agree marked
      obtain ⟨n, inside, -⟩ := agree.mp marked.symm
      cases inside
    · intro single
      constructor
      · intro marked
        have := single marked.symm
        rw [slot marked.symm] at this
        cases this
      · rintro ⟨n, inside, -⟩
        cases inside
  | one n earlier recent =>
    constructor
    · intro _ marked
      rw [slot marked]
      rfl
    · intro _
      simp
  | shared m n marked other =>
    constructor
    · intro agree e
      have := agree.mpr ⟨n, by simp, marked.trans e.symm⟩
      exact absurd (this.trans e) other
    · intro single
      constructor
      · intro found
        exact ⟨m, by simp, found⟩
      · rintro ⟨k, inside, named⟩
        simp only [List.mem_cons, List.not_mem_nil, or_false] at inside
        rcases inside with rfl | rfl
        · exact named
        · have e : x = noReq := named.symm.trans marked
          have := single e
          rw [slot e] at this
          cases this

/-- After every sequence of calls the lookup is sound and complete for an id
exactly if it is not -1 or slot 65535 holds one request. -/
theorem finds_iff (storageDevices : Nat) (storageFd : Nat → Nat) (files : Nat → ByteMemory.Mem)
    (enableDefrag : Bool) (calls : List Call) (x : Nat) :
    let h := (History.init (State.init storageDevices storageFd files enableDefrag)).run calls
    Finds h x ↔ (x = noReq → (h.held (slotOf noReq)).length = 1) := by
  apply Kept.lookup_iff
  apply Kept.run
  exact kept_init rfl fun _ => rfl

/-- Before the first call slot 65535 holds nothing and reads -1: a forward
reply with `req_id` -1 finds it, and its message is NULL. -/
theorem unused_slot_found :
    let w := State.init 0 (fun _ => 0) (fun _ _ => 0) false
    ¬ Finds (.init w) noReq ∧ reqGetById w noReq = some 65535 ∧
      ∀ status matchAddr, handleForwardReply w noReq status matchAddr = .error .segfault := by
  intro w
  have found : reqGetById w noReq = some 65535 := by decide
  refine ⟨?_, found, ?_⟩
  · intro finds
    obtain ⟨n, inside, -⟩ := finds.sound 65535 found
    cases inside
  · intro status matchAddr
    rw [handleForwardReply, found]
    rfl

end RequestLookup
