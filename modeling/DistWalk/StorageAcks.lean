import DistWalk.StorageWorkers
import DistWalk.FairFifo

/-!
# Storage acknowledgements

Over every interleaving of requests, executions, ticks and receptions: a LOAD or sync
STORE that was issued is acknowledged once or still waits, in the pipe to its storage
worker or in the queue of the next tick. The invariant `Keeps` allows for acknowledgements
that are owed between two writes of one event.
-/

namespace StorageAcks

open ByteMemory (Mem)
open Message Worker PriorityQueue QueueRuns StorageWorkers FairFifo

/-- The ticket of a request in the pipe of a device and a worker. -/
def ticketOf (dev worker : Nat) (w : StorageReq) : Option Ticket :=
  (jobAt w.mem 0).map fun job => ⟨job, dev, worker, w.reqId⟩

/-- The requests of a ticket that the storage worker has not read yet. -/
def inPipe (s : System) (t : Ticket) : Nat :=
  (s.storefd t.dev t.worker).countP fun w => decide (ticketOf t.dev t.worker w = some t)

/-- The acknowledgements of a ticket that wait for a tick. -/
def inQueue (s : System) (t : Ticket) : Nat :=
  if t.job = .store true then
    (contents (s.syncWaitingQueue t.dev)).count ((t.worker : Int), t.reqId)
  else 0

/-- What happened before the last fsync of a device. -/
def settled (dev : Nat) : List Note → List Note
  | [] => []
  | n :: trace => if n = .synced dev then trace else settled dev trace

/-- No acknowledgement comes before its execution, and with periodic sync none of a
STORE before an fsync that follows the execution. -/
structure Timely (cfg : Config) (trace : List Note) : Prop where
  executed : ∀ t, trace.count (.acked t) ≤ trace.count (.executed t)
  synced : ∀ t, t.job = .store true → 0 < cfg.periodicSyncMsec t.dev →
    trace.count (.acked t) ≤ (settled t.dev trace).count (.executed t)

/-- The acknowledgements written to one worker for one request id. -/
def acksOf (trace : List Note) (dev worker reqId : Nat) : Nat :=
  trace.count (.acked ⟨.load, dev, worker, reqId⟩) +
    trace.count (.acked ⟨.store true, dev, worker, reqId⟩)

structure ExactlyOnce (cfg : Config) (s : System) : Prop where
  once : ∀ t, t.job.acknowledged = true →
    s.trace.count (.acked t) + (inPipe s t + inQueue s t) = s.trace.count (.issued t)
  never : ∀ t, t.job.acknowledged = false → s.trace.count (.acked t) = 0
  timely : ∀ earlier, earlier <:+ s.trace → Timely cfg earlier
  delivered : ∀ dev worker reqId,
    s.trace.count (.received dev worker reqId) + (s.storeReplyfd dev worker).count reqId =
      acksOf s.trace dev worker reqId

/-- The queue of a storage worker: its keys are worker ids. -/
structure Sound (q : PQueue) : Prop where
  wellFormed : WellFormed q
  capacity : q.capacity = maxReqs
  workers : ∀ p ∈ contents q, 0 ≤ p.1

/-- `owed` are the executed requests whose acknowledgement is neither written nor queued. -/
structure Keeps (cfg : Config) (owed : Multiset Ticket) (s : System) : Prop where
  own : ∀ dev worker, ∀ w ∈ s.storefd dev worker, w.workerId = worker
  sound : ∀ dev, Sound (s.syncWaitingQueue dev)
  idle : ∀ dev, cfg.periodicSyncMsec dev ≤ 0 → (s.syncWaitingQueue dev).size = 0
  served : ∀ t, s.trace.count (.executed t) + inPipe s t = s.trace.count (.issued t)
  answered : ∀ t, s.trace.count (.acked t) + (inQueue s t + owed.count t) =
    if t.job.acknowledged then s.trace.count (.executed t) else 0
  timely : ∀ earlier, earlier <:+ s.trace → Timely cfg earlier
  delivered : ∀ dev worker reqId,
    s.trace.count (.received dev worker reqId) + (s.storeReplyfd dev worker).count reqId =
      acksOf s.trace dev worker reqId

theorem Keeps.exactlyOnce {cfg : Config} {s : System} (h : Keeps cfg 0 s) : ExactlyOnce cfg s where
  once t yes := by
    have served := h.served t
    have answered := h.answered t
    rw [if_pos yes, Multiset.count_zero] at answered
    omega
  never t no := by
    have answered := h.answered t
    rw [no, if_neg Bool.false_ne_true] at answered
    omega
  timely := h.timely
  delivered := h.delivered

/-! ## Pipes and traces -/

@[simp] theorem setPipe_same {α : Type} (pipes : Nat → Nat → List α) (dev worker : Nat) (l : List α) :
    setPipe pipes dev worker l dev worker = l := by
  simp [setPipe]

theorem setPipe_other {α : Type} {pipes : Nat → Nat → List α} {dev worker d w : Nat} {l : List α}
    (other : ¬ (d = dev ∧ w = worker)) : setPipe pipes dev worker l d w = pipes d w :=
  if_neg other

/-- One more note of a ticket. -/
theorem count_note {note : Ticket → Note} (injective : Function.Injective note) (t u : Ticket)
    (trace : List Note) :
    (note u :: trace).count (note t) = trace.count (note t) + if u = t then 1 else 0 := by
  by_cases same : u = t
  · rw [same, List.count_cons_self, if_pos rfl]
  · rw [List.count_cons_of_ne (fun e => same (injective e)), if_neg same, Nat.add_zero]

theorem issued_injective : Function.Injective Note.issued := fun _ _ e => Note.issued.inj e

theorem executed_injective : Function.Injective Note.executed := fun _ _ e => Note.executed.inj e

theorem acked_injective : Function.Injective Note.acked := fun _ _ e => Note.acked.inj e

theorem acksOf_acked {t : Ticket} (yes : t.job.acknowledged = true) (trace : List Note)
    (dev worker reqId : Nat) :
    acksOf (.acked t :: trace) dev worker reqId = acksOf trace dev worker reqId +
      if t.dev = dev ∧ t.worker = worker ∧ t.reqId = reqId then 1 else 0 := by
  obtain ⟨job, d, w, r⟩ := t
  rw [acksOf, acksOf, count_note acked_injective, count_note acked_injective]
  simp only [Ticket.mk.injEq]
  cases job with
  | load => simp; omega
  | store waitSync =>
    cases waitSync with
    | true => simp; omega
    | false => simp [Job.acknowledged] at yes

/-- One more id in a pipe of acknowledgements. -/
theorem count_written (pipes : Nat → Nat → List Nat) (t : Ticket) (dev worker reqId : Nat) :
    (setPipe pipes t.dev t.worker (pipes t.dev t.worker ++ [t.reqId]) dev worker).count reqId =
      (pipes dev worker).count reqId +
        if t.dev = dev ∧ t.worker = worker ∧ t.reqId = reqId then 1 else 0 := by
  by_cases same : dev = t.dev ∧ worker = t.worker
  · obtain ⟨rfl, rfl⟩ := same
    rw [setPipe_same, List.count_append, List.count_singleton]
    simp
  · rw [setPipe_other same, if_neg (fun e => same ⟨e.1.symm, e.2.1.symm⟩), Nat.add_zero]

theorem ticketOf_place {dev worker : Nat} {w : StorageReq} {t : Ticket}
    (h : ticketOf dev worker w = some t) : t.dev = dev ∧ t.worker = worker := by
  obtain ⟨job, -, rfl⟩ := Option.map_eq_some_iff.mp h
  exact ⟨rfl, rfl⟩

theorem inPipe_append {s s' : System} {dev worker : Nat} {w : StorageReq}
    (pipe : s'.storefd = setPipe s.storefd dev worker (s.storefd dev worker ++ [w])) (t : Ticket) :
    inPipe s' t = inPipe s t + if ticketOf dev worker w = some t then 1 else 0 := by
  rw [inPipe, inPipe, pipe]
  by_cases same : t.dev = dev ∧ t.worker = worker
  · obtain ⟨rfl, rfl⟩ := same
    rw [setPipe_same, List.countP_append, List.countP_singleton]
    simp only [decide_eq_true_eq]
  · have other : ticketOf dev worker w ≠ some t := fun e => same (ticketOf_place e)
    rw [setPipe_other same, if_neg other, Nat.add_zero]

theorem inPipe_tail {s s' : System} {dev worker : Nat} {w : StorageReq} {rest : List StorageReq}
    (here : s.storefd dev worker = w :: rest)
    (pipe : s'.storefd = setPipe s.storefd dev worker rest) (t : Ticket) :
    inPipe s t = inPipe s' t + if ticketOf dev worker w = some t then 1 else 0 := by
  rw [inPipe, inPipe, pipe]
  by_cases same : t.dev = dev ∧ t.worker = worker
  · obtain ⟨rfl, rfl⟩ := same
    rw [setPipe_same, here, List.countP_cons]
    simp only [decide_eq_true_eq]
  · have other : ticketOf dev worker w ≠ some t := fun e => same (ticketOf_place e)
    rw [setPipe_other same, if_neg other, Nat.add_zero]

/-- One more acknowledgement in a queue. -/
theorem inQueue_setQueue {s : System} {q : PQueue} {t : Ticket} (sync : t.job = .store true)
    (more : contents q = ((t.worker : Int), t.reqId) ::ₘ contents (s.syncWaitingQueue t.dev))
    (u : Ticket) : inQueue (s.setQueue t.dev q) u = inQueue s u + if u = t then 1 else 0 := by
  by_cases here : u.job = .store true ∧ u.dev = t.dev
  · have pair : (((u.worker : Int), u.reqId) = ((t.worker : Int), t.reqId)) ↔ u = t := by
      obtain ⟨job, dev, worker, reqId⟩ := u
      obtain ⟨job', dev', worker', reqId'⟩ := t
      simp only at here sync
      simp [here, sync]
    simp only [inQueue, here.1, here.2, System.setQueue, Function.update_self, more, if_true,
      Multiset.count_cons, pair]
  · have other : u ≠ t := fun e => here ⟨e ▸ sync, congrArg Ticket.dev e⟩
    rw [if_neg other, Nat.add_zero, inQueue, inQueue]
    by_cases waits : u.job = .store true
    · have away : u.dev ≠ t.dev := fun e => here ⟨waits, e⟩
      simp [System.setQueue, away]
    · rw [if_neg waits, if_neg waits]

theorem timely_nil (cfg : Config) : Timely cfg [] where
  executed _ := le_refl _
  synced _ _ _ := le_refl _

/-- A note that acknowledges nothing is never too early. -/
theorem Timely.cons {cfg : Config} {trace : List Note} (h : Timely cfg trace) {n : Note}
    (silent : ∀ t, n ≠ .acked t) : Timely cfg (n :: trace) where
  executed t := by
    rw [List.count_cons_of_ne (silent t)]
    exact (h.executed t).trans List.count_le_count_cons
  synced t sync periodic := by
    rw [List.count_cons_of_ne (silent t), settled]
    split
    · exact h.executed t
    · exact h.synced t sync periodic

theorem settled_acked (dev : Nat) (t : Ticket) (trace : List Note) :
    settled dev (.acked t :: trace) = settled dev trace := by
  rw [settled, if_neg (by simp)]

theorem Timely.acked {cfg : Config} {trace : List Note} (h : Timely cfg trace) {t : Ticket}
    (owed : trace.count (.acked t) < trace.count (.executed t))
    (synced : t.job = .store true → 0 < cfg.periodicSyncMsec t.dev →
      trace.count (.acked t) < (settled t.dev trace).count (.executed t)) :
    Timely cfg (.acked t :: trace) where
  executed u := by
    rw [List.count_cons_of_ne (by simp : Note.acked t ≠ .executed u), count_note acked_injective]
    split
    · rename_i same
      exact same ▸ owed
    · exact h.executed u
  synced u sync periodic := by
    rw [settled_acked, count_note acked_injective]
    split
    · rename_i same
      subst same
      exact synced sync periodic
    · exact h.synced u sync periodic

theorem timely_suffix {cfg : Config} {trace : List Note} {n : Note}
    (h : ∀ earlier, earlier <:+ trace → Timely cfg earlier) (now : Timely cfg (n :: trace)) :
    ∀ earlier, earlier <:+ n :: trace → Timely cfg earlier := by
  intro earlier suffix
  rcases List.suffix_cons_iff.mp suffix with rfl | before
  · exact now
  · exact h earlier before

/-! ## The writes of an event -/

section Writes

variable {cfg : Config} {owed : Multiset Ticket} {s : System}

theorem contents_alloc (capacity : Nat) : contents (pqueueAlloc capacity) = 0 := rfl

theorem sound_alloc : Sound (pqueueAlloc maxReqs) where
  wellFormed := pqueueAlloc_wellFormed maxReqs
  capacity := rfl
  workers p member := by
    rw [contents_alloc] at member
    exact absurd member (Multiset.notMem_zero p)

theorem keeps_init (cfg : Config) : Keeps cfg 0 .init where
  own _ _ _ member := absurd member List.not_mem_nil
  sound _ := sound_alloc
  idle _ _ := rfl
  served _ := rfl
  answered t := by
    have none : inQueue .init t = 0 := by
      rw [inQueue]
      split
      · exact Multiset.count_zero _
      · rfl
    rw [none, Multiset.count_zero]
    split <;> rfl
  timely earlier suffix := by
    rw [List.suffix_nil.mp suffix]
    exact timely_nil cfg
  delivered _ _ _ := rfl

/-- An fsync. -/
theorem Keeps.sync (h : Keeps cfg owed s) (dev : Nat) : Keeps cfg owed (s.note (.synced dev)) where
  own := h.own
  sound := h.sound
  idle := h.idle
  served t := by simpa [System.note, inPipe] using h.served t
  answered t := by simpa [System.note, inQueue] using h.answered t
  timely := timely_suffix h.timely ((h.timely _ (List.suffix_refl _)).cons (by simp))
  delivered dev worker reqId := by simpa [System.note, acksOf] using h.delivered dev worker reqId

/-- The connection worker writes a request. -/
theorem Keeps.issue (h : Keeps cfg owed s) {mem : Mem} {cmd : Nat} {job : Job}
    (asks : jobAt mem cmd = some job) (dev worker reqId : Nat) :
    Keeps cfg owed { s with
      storefd := setPipe s.storefd dev worker
        (s.storefd dev worker ++ [storageReq worker reqId mem cmd])
      trace := .issued ⟨job, dev, worker, reqId⟩ :: s.trace } where
  own d w r member := by
    simp only [setPipe] at member
    split at member
    · rename_i same
      rw [List.mem_append, List.mem_singleton] at member
      rcases member with old | rfl
      · exact same.2 ▸ h.own dev worker r old
      · exact same.2.symm
    · exact h.own d w r member
  sound := h.sound
  idle := h.idle
  served t := by
    have ticket : ticketOf dev worker (storageReq worker reqId mem cmd) =
        some ⟨job, dev, worker, reqId⟩ := by
      rw [ticketOf, jobAt_storageReq, asks]
      rfl
    have before := h.served t
    rw [inPipe_append rfl, ticket, count_note issued_injective, List.count_cons_of_ne (by simp)]
    simp only [Option.some.injEq]
    omega
  answered t := by simpa [inQueue] using h.answered t
  timely := timely_suffix h.timely ((h.timely _ (List.suffix_refl _)).cons (by simp))
  delivered dev worker reqId := by simpa [acksOf] using h.delivered dev worker reqId

theorem Keeps.own_tail (h : Keeps cfg owed s) {dev worker : Nat} {w : StorageReq}
    {rest : List StorageReq} (here : s.storefd dev worker = w :: rest) :
    ∀ d w', ∀ r ∈ setPipe s.storefd dev worker rest d w', r.workerId = w' := by
  intro d w' r member
  simp only [setPipe] at member
  split at member
  · rename_i same
    refine same.2 ▸ h.own dev worker r ?_
    rw [here]
    exact List.mem_cons_of_mem _ member
  · exact h.own d w' r member

/-- The storage worker reads a request and executes it. -/
theorem Keeps.execute (h : Keeps cfg 0 s) {dev worker : Nat} {w : StorageReq}
    {rest : List StorageReq} (here : s.storefd dev worker = w :: rest) {t : Ticket}
    (ticket : ticketOf dev worker w = some t) :
    Keeps cfg (if t.job.acknowledged then {t} else 0)
      { s with
        storefd := setPipe s.storefd dev worker rest
        trace := .executed t :: s.trace } where
  own := h.own_tail here
  sound := h.sound
  idle := h.idle
  served u := by
    have before := h.served u
    have read := inPipe_tail here
      (rfl : { s with storefd := setPipe s.storefd dev worker rest,
                      trace := .executed t :: s.trace }.storefd = _) u
    rw [ticket] at read
    rw [count_note executed_injective, List.count_cons_of_ne (by simp)]
    simp only [Option.some.injEq] at read
    omega
  answered u := by
    have before := h.answered u
    rw [Multiset.count_zero] at before
    rw [count_note executed_injective, List.count_cons_of_ne (by simp : Note.executed t ≠ .acked u)]
    have owedNow : (if t.job.acknowledged then {t} else 0 : Multiset Ticket).count u =
        if u.job.acknowledged then if t = u then 1 else 0 else 0 := by
      by_cases same : t = u
      · subst same
        split <;> simp
      · have other : u ≠ t := fun e => same e.symm
        split <;> simp [other]
    change _ + (inQueue s u + _) = _
    rw [owedNow]
    by_cases yes : u.job.acknowledged
    · simp only [if_pos yes] at before ⊢
      omega
    · simp only [if_neg yes] at before ⊢
      omega
  timely := timely_suffix h.timely ((h.timely _ (List.suffix_refl _)).cons (by simp))
  delivered dev worker reqId := by simpa [acksOf] using h.delivered dev worker reqId

/-- A request that is neither STORE nor LOAD is skipped. -/
theorem Keeps.skip (h : Keeps cfg owed s) {dev worker : Nat} {w : StorageReq}
    {rest : List StorageReq} (here : s.storefd dev worker = w :: rest)
    (unknown : ticketOf dev worker w = none) :
    Keeps cfg owed { s with storefd := setPipe s.storefd dev worker rest } where
  own := h.own_tail here
  sound := h.sound
  idle := h.idle
  served u := by
    have before := h.served u
    have read := inPipe_tail here
      (rfl : { s with storefd := setPipe s.storefd dev worker rest }.storefd = _) u
    rw [unknown, if_neg (by simp), Nat.add_zero] at read
    rw [← read]
    exact before
  answered := h.answered
  timely := h.timely
  delivered := h.delivered

/-- The storage worker writes an acknowledgement it owes. -/
theorem Keeps.ack {t : Ticket} (h : Keeps cfg (t ::ₘ owed) s) (yes : t.job.acknowledged = true)
    (synced : t.job = .store true → 0 < cfg.periodicSyncMsec t.dev →
      s.trace.count (.executed t) ≤ (settled t.dev s.trace).count (.executed t)) :
    Keeps cfg owed (s.ack t) where
  own := h.own
  sound := h.sound
  idle := h.idle
  served u := by simpa [System.ack, inPipe] using h.served u
  answered u := by
    have before := h.answered u
    rw [Multiset.count_cons] at before
    change (Note.acked t :: s.trace).count (.acked u) + (inQueue s u + _) =
      if u.job.acknowledged then (Note.acked t :: s.trace).count (Note.executed u) else 0
    rw [count_note acked_injective, List.count_cons_of_ne (by simp : Note.acked t ≠ .executed u)]
    rw [← before]
    by_cases same : t = u
    · rw [if_pos same, if_pos same.symm]
      omega
    · rw [if_neg same, if_neg (Ne.symm same)]
      omega
  timely := by
    have owes := h.answered t
    rw [if_pos yes, Multiset.count_cons_self] at owes
    have now := h.timely _ (List.suffix_refl _)
    refine timely_suffix h.timely (now.acked (by omega) fun sync periodic => ?_)
    have := synced sync periodic
    omega
  delivered dev worker reqId := by
    have before := h.delivered dev worker reqId
    have silent : (Note.acked t :: s.trace).count (.received dev worker reqId) =
        s.trace.count (.received dev worker reqId) := List.count_cons_of_ne (by simp)
    change (Note.acked t :: s.trace).count _ + (setPipe _ _ _ _ dev worker).count _ = acksOf (_ :: _) _ _ _
    rw [silent, acksOf_acked yes, count_written, ← before]
    omega

theorem Keeps.setQueue (h : Keeps cfg owed s) {dev : Nat} {q : PQueue} {owed' : Multiset Ticket}
    (sound : Sound q) (idle : cfg.periodicSyncMsec dev ≤ 0 → q.size = 0)
    (moved : ∀ u, inQueue (s.setQueue dev q) u + owed'.count u = inQueue s u + owed.count u) :
    Keeps cfg owed' (s.setQueue dev q) where
  own := h.own
  sound d := by
    by_cases same : d = dev
    · subst same
      simpa [System.setQueue] using sound
    · simpa [System.setQueue, same] using h.sound d
  idle d off := by
    by_cases same : d = dev
    · subst same
      simpa [System.setQueue] using idle off
    · simpa [System.setQueue, same] using h.idle d off
  served := h.served
  answered u := by
    rw [moved u]
    exact h.answered u
  timely := h.timely
  delivered := h.delivered

/-- The storage worker puts an acknowledgement it owes in the queue. -/
theorem Keeps.enqueue {t : Ticket} (h : Keeps cfg (t ::ₘ owed) s) (sync : t.job = .store true)
    (periodic : 0 < cfg.periodicSyncMsec t.dev)
    (room : (s.syncWaitingQueue t.dev).size < maxReqs) :
    Keeps cfg owed
      (s.setQueue t.dev (pqueueInsert (s.syncWaitingQueue t.dev) t.worker t.reqId).1) := by
  have sound := h.sound t.dev
  have inserted := pqueueInsert_spec sound.wellFormed (sound.capacity.symm ▸ room) t.worker t.reqId
  have more := contents_insert sound.wellFormed inserted
  refine h.setQueue ⟨inserted.wellFormed, inserted.capacity.trans sound.capacity, ?_⟩
    (fun off => by omega) fun u => ?_
  · intro p member
    rw [more, Multiset.mem_cons] at member
    rcases member with rfl | old
    · exact Int.natCast_nonneg _
    · exact sound.workers p old
  · rw [inQueue_setQueue sync more, Multiset.count_cons]
    omega

/-- The storage worker takes the top of the queue. -/
theorem Keeps.pop (h : Keeps cfg owed s) {dev top : Nat}
    (first : pqueueTop (s.syncWaitingQueue dev) = some top) :
    Keeps cfg
      (⟨.store true, dev, ((s.syncWaitingQueue dev).nodes top).key.toNat,
        ((s.syncWaitingQueue dev).nodes top).data⟩ ::ₘ owed)
      (s.setQueue dev (pqueuePop (s.syncWaitingQueue dev))) := by
  have sound := h.sound dev
  have held := pqueueTop_holds sound.wellFormed first
  have removed := pqueueRemove_spec sound.wellFormed held
  have less := contents_remove sound.wellFormed held removed
  rw [← pqueuePop_eq sound.wellFormed first] at removed less
  have worker : (((s.syncWaitingQueue dev).nodes top).key.toNat : Int) =
      ((s.syncWaitingQueue dev).nodes top).key := by
    refine Int.toNat_of_nonneg (sound.workers (entry (s.syncWaitingQueue dev) top) ?_)
    rw [less]
    exact Multiset.mem_cons_self _ _
  refine h.setQueue ⟨removed.wellFormed, removed.capacity.trans sound.capacity, ?_⟩ ?_ fun u => ?_
  · intro p member
    refine sound.workers p ?_
    rw [less]
    exact Multiset.mem_cons_of_mem member
  · intro off
    have := h.idle dev off
    have := removed.size
    omega
  · have before : s = (s.setQueue dev (pqueuePop (s.syncWaitingQueue dev))).setQueue dev
        (s.syncWaitingQueue dev) := by
      simp [System.setQueue]
    have split := @inQueue_setQueue (s.setQueue dev (pqueuePop (s.syncWaitingQueue dev)))
      (s.syncWaitingQueue dev)
      ⟨.store true, dev, ((s.syncWaitingQueue dev).nodes top).key.toNat,
        ((s.syncWaitingQueue dev).nodes top).data⟩ rfl
      (by simpa [System.setQueue, worker, entry] using less) u
    rw [← before] at split
    rw [split, Multiset.count_cons]
    omega

/-- The connection worker reads an acknowledgement. -/
theorem Keeps.receive (h : Keeps cfg owed s) (dev worker : Nat) :
    Keeps cfg owed (receive s dev worker) := by
  rw [StorageWorkers.receive]
  split
  · exact h
  · rename_i reqIdAck rest here
    exact {
      own := h.own
      sound := h.sound
      idle := h.idle
      served := fun t => by simpa [inPipe] using h.served t
      answered := fun t => by simpa [inQueue] using h.answered t
      timely := timely_suffix h.timely ((h.timely _ (List.suffix_refl _)).cons (by simp))
      delivered := by
        intro d w r
        have before := h.delivered d w r
        have acks : acksOf (.received dev worker reqIdAck :: s.trace) d w r = acksOf s.trace d w r := by
          simp [acksOf]
        change _ + (setPipe _ _ _ _ d w).count r = acksOf (_ :: _) _ _ _
        rw [acks, ← before]
        by_cases same : d = dev ∧ w = worker
        · obtain ⟨rfl, rfl⟩ := same
          rw [setPipe_same, here, List.count_cons, List.count_cons]
          simp
          omega
        · have silent : Note.received dev worker reqIdAck ≠ .received d w r := by
            intro e
            obtain ⟨rfl, rfl, -⟩ := Note.received.inj e
            exact same ⟨rfl, rfl⟩
          rw [setPipe_other same, List.count_cons_of_ne silent] }

end Writes

/-! ## Events -/

section Events

variable {cfg : Config} {s : System}

theorem Keeps.request (h : Keeps cfg 0 s) (worker reqId : Nat) (mem : Mem) (cmd : Nat) :
    Keeps cfg 0 (request cfg s worker reqId mem cmd) := by
  rw [StorageWorkers.request]
  split
  · exact h
  · rename_i job asks
    simp only
    split
    · exact h
    · exact h.issue asks _ worker reqId

theorem ticketOf_load {dev worker : Nat} {w : StorageReq} (kind : cmdAt w.mem 0 = .load) :
    ticketOf dev worker w = some ⟨.load, dev, worker, w.reqId⟩ := by
  simp [ticketOf, jobAt, kind]

theorem ticketOf_store {dev worker : Nat} {w : StorageReq} (kind : cmdAt w.mem 0 = .store) :
    ticketOf dev worker w =
      some ⟨.store (decide (storeWaitSync w.mem 0 ≠ 0)), dev, worker, w.reqId⟩ := by
  simp [ticketOf, jobAt, kind]

theorem store_queue (s : System) (dev : Nat) (w : StorageReq) (seeks : Bool) :
    (store cfg s dev w seeks).syncWaitingQueue = s.syncWaitingQueue := by
  rw [StorageWorkers.store]
  split <;> rfl

/-- `store` leaves the acknowledgement of a sync STORE owed. -/
theorem Keeps.store (h : Keeps cfg 0 s) {dev worker : Nat} {w : StorageReq}
    {rest : List StorageReq} (here : s.storefd dev worker = w :: rest)
    (kind : cmdAt w.mem 0 = .store) (seeks : Bool) :
    Keeps cfg (if storeWaitSync w.mem 0 = 0 then 0 else {⟨.store true, dev, worker, w.reqId⟩})
      (store cfg { s with storefd := setPipe s.storefd dev worker rest } dev w seeks) := by
  have issuer : w.workerId = worker := h.own dev worker w (here ▸ List.mem_cons_self ..)
  have executed := h.execute here (ticketOf_store kind)
  have owes : (if (⟨.store (decide (storeWaitSync w.mem 0 ≠ 0)), dev, worker, w.reqId⟩ :
      Ticket).job.acknowledged then {⟨.store (decide (storeWaitSync w.mem 0 ≠ 0)), dev, worker, w.reqId⟩}
        else 0 : Multiset Ticket) =
      if storeWaitSync w.mem 0 = 0 then 0 else {⟨.store true, dev, worker, w.reqId⟩} := by
    by_cases flag : storeWaitSync w.mem 0 = 0
    · simp [flag, Job.acknowledged]
    · simp [flag, Job.acknowledged]
  rw [owes] at executed
  rw [StorageWorkers.store, issuer]
  generalize (if storeWaitSync w.mem 0 = 0 then 0 else {⟨.store true, dev, worker, w.reqId⟩} :
    Multiset Ticket) = owed at executed ⊢
  split
  · exact executed.sync dev
  · exact executed

theorem Keeps.serve (h : Keeps cfg 0 s) (dev worker : Nat) (seeks : Bool)
    (allowed : Allowed cfg s (.serve dev worker seeks)) :
    Keeps cfg 0 (serve cfg s dev worker seeks) := by
  rw [StorageWorkers.serve]
  cases here : s.storefd dev worker with
  | nil => exact h
  | cons w rest =>
    have issuer : w.workerId = worker := h.own dev worker w (here ▸ List.mem_cons_self ..)
    cases kind : cmdAt w.mem 0 with
    | store =>
      have stored := h.store here kind seeks
      simp only [kind]
      by_cases flag : storeWaitSync w.mem 0 = 0
      · rw [if_pos flag]
        rwa [if_pos flag] at stored
      · rw [if_neg flag, issuer]
        rw [if_neg flag] at stored
        by_cases off : cfg.periodicSyncMsec dev ≤ 0
        · rw [if_pos off]
          exact Keeps.ack stored rfl fun _ on => absurd off (not_le.mpr on)
        · rw [if_neg off]
          have room : (s.syncWaitingQueue dev).size < maxReqs := by
            refine allowed w (by simp [here]) ⟨?_, not_le.mp off⟩
            simp [jobAt, kind, flag]
          refine Keeps.enqueue stored rfl (not_le.mp off) ?_
          rw [store_queue]
          exact room
    | load =>
      have loaded := h.execute here (ticketOf_load kind)
      simp only [kind, load, issuer]
      exact Keeps.ack loaded rfl (by simp)
    | _ =>
      simp only [kind]
      exact h.skip here (by simp [ticketOf, jobAt, kind])

/-- Every execution on the device is older than its last fsync. -/
def AllSettled (dev : Nat) (trace : List Note) : Prop :=
  ∀ t, trace.count (.executed t) ≤ (settled dev trace).count (.executed t)

theorem allSettled_synced (dev : Nat) (trace : List Note) : AllSettled dev (.synced dev :: trace) := by
  intro t
  rw [settled, if_pos rfl, List.count_cons_of_ne (by simp)]

theorem AllSettled.acked {dev : Nat} {trace : List Note} (h : AllSettled dev trace) (t : Ticket) :
    AllSettled dev (.acked t :: trace) := by
  intro u
  rw [settled_acked, List.count_cons_of_ne (by simp)]
  exact h u

theorem Keeps.drain (fuel : Nat) {dev : Nat} (h : Keeps cfg 0 s) (old : AllSettled dev s.trace) :
    Keeps cfg 0 (drain dev fuel s) := by
  induction fuel generalizing s with
  | zero => exact h
  | succ fuel ih =>
    rw [StorageWorkers.drain]
    simp only
    split
    · exact h
    · rename_i top first
      exact ih ((h.pop first).ack rfl fun _ _ => old _) (old.acked _)

/-- As many turns as the queue has nodes empty it. -/
theorem drain_empties (fuel : Nat) {dev : Nat} (h : Keeps cfg 0 s) (old : AllSettled dev s.trace)
    (enough : (s.syncWaitingQueue dev).size ≤ fuel) :
    ((drain dev fuel s).syncWaitingQueue dev).size = 0 := by
  induction fuel generalizing s with
  | zero => exact Nat.le_zero.mp enough
  | succ fuel ih =>
    rw [StorageWorkers.drain]
    simp only
    split
    · rename_i none
      exact pqueueTop_eq_none.mp none
    · rename_i top first
      have sound := h.sound dev
      have held := pqueueTop_holds sound.wellFormed first
      have removed := pqueueRemove_spec sound.wellFormed held
      rw [← pqueuePop_eq sound.wellFormed first] at removed
      refine ih ((h.pop first).ack rfl fun _ _ => old _) (old.acked _) ?_
      have := removed.size
      simp only [System.ack, System.setQueue, Function.update_self]
      omega

theorem Keeps.tick (h : Keeps cfg 0 s) (dev : Nat) : Keeps cfg 0 (tick cfg s dev) := by
  rw [StorageWorkers.tick]
  split
  · exact h
  · exact (h.sync dev).drain _ (allSettled_synced dev _)

theorem tick_empties (h : Keeps cfg 0 s) {dev : Nat} (on : 0 < cfg.periodicSyncMsec dev) :
    ((tick cfg s dev).syncWaitingQueue dev).size = 0 := by
  rw [StorageWorkers.tick, if_neg (not_le.mpr on)]
  exact drain_empties _ (h.sync dev) (allSettled_synced dev _) (le_refl _)

theorem Keeps.step (h : Keeps cfg 0 s) (op : Op) (allowed : Allowed cfg s op) :
    Keeps cfg 0 (step cfg s op) := by
  cases op with
  | request worker reqId mem cmd => exact h.request worker reqId mem cmd
  | serve dev worker seeks => exact h.serve dev worker seeks allowed
  | tick dev => exact h.tick dev
  | receive dev worker => exact h.receive dev worker

theorem keeps_of_reaches (h : Reaches cfg s) : Keeps cfg 0 s := by
  induction h with
  | init => exact keeps_init cfg
  | step op before allowed ih => exact ih.step op allowed

end Events

/-! ## Fair runs -/

/-- What a storage worker leaves alone, and that it only writes at the end of a pipe. -/
structure Serves (s s' : System) : Prop where
  storefd : s'.storefd = s.storefd
  trace : s.trace <:+ s'.trace
  issued : ∀ t, s'.trace.count (.issued t) = s.trace.count (.issued t)
  received : ∀ dev worker reqId,
    s'.trace.count (.received dev worker reqId) = s.trace.count (.received dev worker reqId)
  replies : ∀ dev worker, s.storeReplyfd dev worker <+: s'.storeReplyfd dev worker

theorem Serves.refl (s : System) : Serves s s where
  storefd := rfl
  trace := List.suffix_refl _
  issued _ := rfl
  received _ _ _ := rfl
  replies _ _ := List.prefix_refl _

theorem Serves.trans {a b c : System} (h : Serves a b) (h' : Serves b c) : Serves a c where
  storefd := h'.storefd.trans h.storefd
  trace := h.trace.trans h'.trace
  issued t := (h'.issued t).trans (h.issued t)
  received dev worker reqId := (h'.received dev worker reqId).trans (h.received dev worker reqId)
  replies dev worker := (h.replies dev worker).trans (h'.replies dev worker)

theorem serves_note (s : System) {n : Note} (issued : ∀ t, n ≠ .issued t)
    (received : ∀ dev worker reqId, n ≠ .received dev worker reqId) : Serves s (s.note n) where
  storefd := rfl
  trace := List.suffix_cons _ _
  issued t := List.count_cons_of_ne (issued t)
  received dev worker reqId := List.count_cons_of_ne (received dev worker reqId)
  replies _ _ := List.prefix_refl _

theorem serves_ack (s : System) (t : Ticket) : Serves s (s.ack t) where
  storefd := rfl
  trace := List.suffix_cons _ _
  issued _ := List.count_cons_of_ne (by simp)
  received _ _ _ := List.count_cons_of_ne (by simp)
  replies dev worker := by
    simp only [System.ack, setPipe]
    split
    · rename_i same
      rw [same.1, same.2]
      exact List.prefix_append _ _
    · exact List.prefix_refl _

theorem serves_setQueue (s : System) (dev : Nat) (q : PQueue) : Serves s (s.setQueue dev q) where
  storefd := rfl
  trace := List.suffix_refl _
  issued _ := rfl
  received _ _ _ := rfl
  replies _ _ := List.prefix_refl _

theorem serves_drain (dev fuel : Nat) (s : System) : Serves s (drain dev fuel s) := by
  induction fuel generalizing s with
  | zero => exact .refl s
  | succ fuel ih =>
    rw [drain]
    simp only
    split
    · exact .refl s
    · exact (serves_setQueue s dev _).trans ((serves_ack _ _).trans (ih _))

theorem serves_tick (cfg : Config) (s : System) (dev : Nat) : Serves s (tick cfg s dev) := by
  rw [tick]
  split
  · exact .refl s
  · exact (serves_note s (by simp) (by simp)).trans (serves_drain dev _ _)

theorem serves_store (cfg : Config) (s : System) (dev : Nat) (w : StorageReq) (seeks : Bool) :
    Serves s (store cfg s dev w seeks) := by
  have executed : Serves s (s.note (.executed
      ⟨.store (decide (storeWaitSync w.mem 0 ≠ 0)), dev, w.workerId, w.reqId⟩)) :=
    serves_note s (by simp) (by simp)
  rw [StorageWorkers.store]
  split
  · exact executed.trans (serves_note _ (by simp) (by simp))
  · exact executed

/-- The storage worker reads one request and leaves the other pipes alone. -/
theorem serves_serve (cfg : Config) (s : System) (dev worker : Nat) (seeks : Bool) :
    Serves { s with storefd := setPipe s.storefd dev worker (s.storefd dev worker).tail }
      (serve cfg s dev worker seeks) := by
  rw [serve]
  cases here : s.storefd dev worker with
  | nil =>
    have same : setPipe s.storefd dev worker [] = s.storefd := by
      funext d w
      by_cases own : d = dev ∧ w = worker
      · obtain ⟨rfl, rfl⟩ := own
        rw [setPipe_same, here]
      · rw [setPipe_other own]
    simp only [List.tail_nil, same]
    exact .refl s
  | cons w rest =>
    rw [List.tail_cons]
    cases kind : cmdAt w.mem 0 with
    | store =>
      simp only [kind]
      have stored := serves_store cfg
        { s with storefd := setPipe s.storefd dev worker rest } dev w seeks
      split
      · exact stored
      · split
        · exact stored.trans (serves_ack _ _)
        · exact stored.trans (serves_setQueue _ _ _)
    | load =>
      simp only [kind, load]
      exact (serves_note _ (by simp) (by simp)).trans (serves_ack _ _)
    | _ =>
      simp only [kind]
      exact .refl _

/-- A run in which every pipe is read and every timer fires again and again. -/
structure FairRun (cfg : Config) where
  state : Nat → System
  op : Nat → Op
  start : state 0 = .init
  allowed : ∀ n, Allowed cfg (state n) (op n)
  next : ∀ n, state (n + 1) = step cfg (state n) (op n)
  serves : ∀ n dev worker, dev < cfg.storageDevices → worker < cfg.connThreads →
    ∃ m, n ≤ m ∧ ∃ seeks, op m = .serve dev worker seeks
  ticks : ∀ n dev, dev < cfg.storageDevices → 0 < cfg.periodicSyncMsec dev →
    ∃ m, n ≤ m ∧ op m = .tick dev
  receives : ∀ n dev worker, dev < cfg.storageDevices → worker < cfg.connThreads →
    ∃ m, n ≤ m ∧ op m = .receive dev worker

section Fair

variable {cfg : Config} (r : FairRun cfg)

theorem FairRun.reaches (n : Nat) : Reaches cfg (r.state n) := by
  induction n with
  | zero =>
    rw [r.start]
    exact .init
  | succ n ih =>
    rw [r.next]
    exact .step (r.op n) ih (r.allowed n)

theorem FairRun.keeps (n : Nat) : Keeps cfg 0 (r.state n) := keeps_of_reaches (r.reaches n)

theorem trace_step (s : System) (op : Op) : s.trace <:+ (step cfg s op).trace := by
  cases op with
  | request worker reqId mem cmd =>
    simp only [step, request]
    split
    · exact List.suffix_refl _
    · split
      · exact List.suffix_refl _
      · exact List.suffix_cons _ _
  | serve dev worker seeks => exact (serves_serve cfg s dev worker seeks).trace
  | tick dev => exact (serves_tick cfg s dev).trace
  | receive dev worker =>
    simp only [step, StorageWorkers.receive]
    split
    · exact List.suffix_refl _
    · exact List.suffix_cons _ _

theorem FairRun.count_mono (note : Note) {n m : Nat} (later : n ≤ m) :
    (r.state n).trace.count note ≤ (r.state m).trace.count note := by
  induction m, later using Nat.le_induction with
  | base => exact le_refl _
  | succ m _ ih =>
    rw [r.next]
    exact ih.trans ((trace_step (r.state m) (r.op m)).sublist.count_le note)

/-- The pipe of requests, seen by one ticket. -/
theorem FairRun.requests (t : Ticket) :
    Fifo (fun w => decide (ticketOf t.dev t.worker w = some t))
      (fun n => (r.state n).storefd t.dev t.worker)
      (fun n => (r.state n).trace.count (.executed t))
      (fun n => ∃ seeks, r.op n = .serve t.dev t.worker seeks) where
  take n now := by
    obtain ⟨seeks, now⟩ := now
    have before := (r.keeps n).served t
    have after := (r.keeps (n + 1)).served t
    have frame := serves_serve cfg (r.state n) t.dev t.worker seeks
    have issued : (serve cfg (r.state n) t.dev t.worker seeks).trace.count (.issued t) =
        (r.state n).trace.count (.issued t) := frame.issued t
    have pipe : (serve cfg (r.state n) t.dev t.worker seeks).storefd t.dev t.worker =
        ((r.state n).storefd t.dev t.worker).tail := by
      rw [frame.storefd]
      exact setPipe_same _ _ _ _
    simp only [r.next, now, step, inPipe, issued, pipe] at before after ⊢
    refine ⟨⟨[], (List.append_nil _).symm⟩, ?_⟩
    cases here : (r.state n).storefd t.dev t.worker with
    | nil =>
      simp only [here, List.tail_nil, List.take_nil, List.countP_nil] at before after ⊢
      omega
    | cons w rest =>
      rw [here, List.countP_cons] at before
      rw [here, List.tail_cons] at after
      rw [List.take_succ_cons, List.take_zero, List.countP_singleton]
      omega
  keep n other := by
    have before := (r.keeps n).served t
    have after := (r.keeps (n + 1)).served t
    simp only [r.next, inPipe] at before after ⊢
    cases op : r.op n with
    | request worker reqId mem cmd =>
      simp only [op, step, request] at after ⊢
      split
      · exact ⟨⟨[], (List.append_nil _).symm⟩, rfl⟩
      · split
        · exact ⟨⟨[], (List.append_nil _).symm⟩, rfl⟩
        · refine ⟨?_, List.count_cons_of_ne (by simp)⟩
          simp only [setPipe]
          split
          · rename_i same
            rw [same.1, same.2]
            exact ⟨_, rfl⟩
          · exact ⟨[], (List.append_nil _).symm⟩
    | serve dev worker seeks =>
      have away : ¬ (t.dev = dev ∧ t.worker = worker) := by
        rintro ⟨rfl, rfl⟩
        exact other ⟨seeks, op⟩
      have frame := serves_serve cfg (r.state n) dev worker seeks
      have issued : (serve cfg (r.state n) dev worker seeks).trace.count (.issued t) =
          (r.state n).trace.count (.issued t) := frame.issued t
      have pipe : (serve cfg (r.state n) dev worker seeks).storefd t.dev t.worker =
          (r.state n).storefd t.dev t.worker := by
        rw [frame.storefd]
        exact setPipe_other away
      simp only [op, step, issued, pipe] at after ⊢
      refine ⟨⟨[], (List.append_nil _).symm⟩, ?_⟩
      omega
    | tick dev =>
      have frame := serves_tick cfg (r.state n) dev
      simp only [op, step] at after ⊢
      rw [frame.issued, frame.storefd] at after
      rw [frame.storefd]
      refine ⟨⟨[], (List.append_nil _).symm⟩, ?_⟩
      omega
    | receive dev worker =>
      simp only [step, receive]
      split
      · exact ⟨⟨[], (List.append_nil _).symm⟩, rfl⟩
      · exact ⟨⟨[], (List.append_nil _).symm⟩, List.count_cons_of_ne (by simp)⟩

/-- The pipe of acknowledgements, seen by one request id. -/
theorem FairRun.replies (dev worker reqId : Nat) :
    Fifo (fun id => id == reqId)
      (fun n => (r.state n).storeReplyfd dev worker)
      (fun n => (r.state n).trace.count (.received dev worker reqId))
      (fun n => r.op n = .receive dev worker) where
  take n now := by
    simp only [r.next, now, step, StorageWorkers.receive]
    split
    · rename_i here
      simp only [here, List.tail_nil, List.take_nil, List.countP_nil]
      exact ⟨⟨[], rfl⟩, rfl⟩
    · rename_i id rest here
      simp only [here, setPipe_same, List.tail_cons, List.take_succ_cons, List.take_zero,
        List.countP_singleton, List.count_cons]
      exact ⟨⟨[], (List.append_nil _).symm⟩, by simp⟩
  keep n other := by
    simp only [r.next]
    cases op : r.op n with
    | request worker' reqId' mem cmd =>
      simp only [step, request]
      split
      · exact ⟨⟨[], (List.append_nil _).symm⟩, rfl⟩
      · split
        · exact ⟨⟨[], (List.append_nil _).symm⟩, rfl⟩
        · exact ⟨⟨[], (List.append_nil _).symm⟩, List.count_cons_of_ne (by simp)⟩
    | serve dev' worker' seeks =>
      have frame := serves_serve cfg (r.state n) dev' worker' seeks
      obtain ⟨new, grown⟩ := frame.replies dev worker
      exact ⟨⟨new, grown.symm⟩, frame.received dev worker reqId⟩
    | tick dev' =>
      have frame := serves_tick cfg (r.state n) dev'
      obtain ⟨new, grown⟩ := frame.replies dev worker
      exact ⟨⟨new, grown.symm⟩, frame.received dev worker reqId⟩
    | receive dev' worker' =>
      have away : ¬ (dev = dev' ∧ worker = worker') := by
        rintro ⟨rfl, rfl⟩
        exact other op
      simp only [step, StorageWorkers.receive]
      split
      · exact ⟨⟨[], (List.append_nil _).symm⟩, rfl⟩
      · rename_i id rest here
        have silent : Note.received dev' worker' id ≠ .received dev worker reqId := by
          intro e
          obtain ⟨rfl, rfl, -⟩ := Note.received.inj e
          exact away ⟨rfl, rfl⟩
        simp only [setPipe_other away]
        exact ⟨⟨[], (List.append_nil _).symm⟩, List.count_cons_of_ne silent⟩

theorem FairRun.executes (n : Nat) (t : Ticket) (device : t.dev < cfg.storageDevices)
    (thread : t.worker < cfg.connThreads) :
    ∃ m, n ≤ m ∧ (r.state n).trace.count (.issued t) ≤ (r.state m).trace.count (.executed t) := by
  have fair := fun k => r.serves k t.dev t.worker device thread
  obtain ⟨m, later, count⟩ := (r.requests t).takes_all fair n
  have served := (r.keeps n).served t
  rw [inPipe] at served
  exact ⟨m, later, by omega⟩

/-- An executed LOAD is acknowledged at once, an executed sync STORE after the next tick. -/
theorem FairRun.acknowledges (n : Nat) (t : Ticket) (device : t.dev < cfg.storageDevices)
    (yes : t.job.acknowledged = true) :
    ∃ m, n ≤ m ∧ (r.state n).trace.count (.executed t) ≤ (r.state m).trace.count (.acked t) := by
  by_cases waits : t.job = .store true ∧ 0 < cfg.periodicSyncMsec t.dev
  · obtain ⟨m, later, now⟩ := r.ticks n t.dev device waits.2
    have empty : inQueue (r.state (m + 1)) t = 0 := by
      have size := tick_empties (r.keeps m) waits.2
      rw [r.next, now, inQueue, if_pos waits.1, step, contents, size]
      rfl
    have answered := (r.keeps (m + 1)).answered t
    rw [if_pos yes, empty, Multiset.count_zero] at answered
    have executed := r.count_mono (.executed t) (by omega : n ≤ m + 1)
    exact ⟨m + 1, by omega, by omega⟩
  · have empty : inQueue (r.state n) t = 0 := by
      rw [inQueue]
      split
      · rename_i sync
        have size := (r.keeps n).idle t.dev (not_lt.mp fun on => waits ⟨sync, on⟩)
        rw [contents, size]
        rfl
      · rfl
    have answered := (r.keeps n).answered t
    rw [if_pos yes, empty, Multiset.count_zero] at answered
    exact ⟨n, le_refl n, by omega⟩

theorem FairRun.delivers (n dev worker reqId : Nat) (device : dev < cfg.storageDevices)
    (thread : worker < cfg.connThreads) :
    ∃ m, n ≤ m ∧ acksOf (r.state n).trace dev worker reqId ≤
      (r.state m).trace.count (.received dev worker reqId) := by
  have fair := fun k => r.receives k dev worker device thread
  obtain ⟨m, later, count⟩ := (r.replies dev worker reqId).takes_all fair n
  have delivered := (r.keeps n).delivered dev worker reqId
  rw [List.count.eq_1 reqId] at delivered
  exact ⟨m, later, by omega⟩

end Fair

/-- In a fair run every LOAD and sync STORE ends up acknowledged, and its worker reads
the acknowledgement. -/
structure Answers {cfg : Config} (r : FairRun cfg) : Prop where
  acked : ∀ n t, t.dev < cfg.storageDevices → t.worker < cfg.connThreads →
    t.job.acknowledged = true →
    ∃ m, n ≤ m ∧ (r.state n).trace.count (.issued t) ≤ (r.state m).trace.count (.acked t)
  received : ∀ n dev worker reqId, dev < cfg.storageDevices → worker < cfg.connThreads →
    ∃ m, n ≤ m ∧ acksOf (r.state n).trace dev worker reqId ≤
      (r.state m).trace.count (.received dev worker reqId)

theorem storage_acknowledged_once (cfg : Config) :
    (∀ s, Reaches cfg s → ExactlyOnce cfg s) ∧ ∀ r : FairRun cfg, Answers r := by
  refine ⟨fun s reached => (keeps_of_reaches reached).exactlyOnce, fun r => ⟨?_, r.delivers⟩⟩
  intro n t device thread yes
  obtain ⟨m, later, executed⟩ := r.executes n t device thread
  obtain ⟨m', later', acked⟩ := r.acknowledges m t device yes
  exact ⟨m', later.trans later', executed.trans acked⟩

/-- Two connection workers and a device that syncs every 50 ms. -/
def syncedDevice : Config := ⟨2, 1, fun _ => 50⟩

/-- A STORE with `wait_sync`, and a LOAD. -/
def syncStore : Mem := fun a => if a = 0 then 1 else if a = 20 then 1 else 0
def plainLoad : Mem := fun a => if a = 0 then 2 else 0

/-- One request of each worker, and then the pipes of both and the timer in turn. -/
def turns : Nat → Op
  | 0 => .request 0 7 syncStore 0
  | 1 => .request 1 8 plainLoad 0
  | n + 2 =>
    match n % 5 with
    | 0 => .serve 0 0 true
    | 1 => .serve 0 1 true
    | 2 => .tick 0
    | 3 => .receive 0 0
    | _ => .receive 0 1

def turnState : Nat → System
  | 0 => .init
  | n + 1 => step syncedDevice (turnState n) (turns n)

theorem turns_cases (n : Nat) : (∃ worker seeks, turns (n + 2) = .serve 0 worker seeks) ∨
    turns (n + 2) = .tick 0 ∨ ∃ worker, turns (n + 2) = .receive 0 worker := by
  simp only [turns]
  split
  · exact .inl ⟨0, true, rfl⟩
  · exact .inl ⟨1, true, rfl⟩
  · exact .inr (.inl rfl)
  · exact .inr (.inr ⟨0, rfl⟩)
  · exact .inr (.inr ⟨1, rfl⟩)

theorem turnState_pipes (n worker : Nat) : (turnState (n + 4)).storefd 0 worker = [] := by
  induction n with
  | zero =>
    match worker with
    | 0 => rfl
    | 1 => rfl
    | _ + 2 => rfl
  | succ n ih =>
    rw [turnState]
    rcases turns_cases (n + 2) with ⟨w, seeks, op⟩ | op | ⟨w, op⟩
    · rw [op, step, (serves_serve syncedDevice (turnState (n + 4)) 0 w seeks).storefd]
      simp only [setPipe]
      split
      · rename_i same
        rw [← same.2, ih, List.tail_nil]
      · exact ih
    · rw [op, step, (serves_tick syncedDevice (turnState (n + 4)) 0).storefd]
      exact ih
    · rw [op, step, StorageWorkers.receive]
      split
      · exact ih
      · exact ih

theorem turns_allowed (n : Nat) : Allowed syncedDevice (turnState n) (turns n) := by
  match n with
  | 0 => exact ⟨by decide, by decide⟩
  | 1 => exact ⟨by decide, by decide⟩
  | 2 => exact fun _ _ _ => by decide
  | 3 => exact fun _ _ _ => by decide
  | n + 4 =>
    rcases turns_cases (n + 2) with ⟨w, seeks, op⟩ | op | ⟨w, op⟩
    · rw [op]
      intro r member
      rw [turnState_pipes] at member
      cases member
    · rw [op]
      exact trivial
    · rw [op]
      exact trivial

theorem turns_again (n : Nat) {k : Nat} (small : k < 5) : ∃ m, n ≤ m ∧ ∃ j, m = j + 2 ∧ j % 5 = k :=
  ⟨5 * n + k + 2, by omega, 5 * n + k, rfl, by omega⟩

def fairTurns : FairRun syncedDevice where
  state := turnState
  op := turns
  start := rfl
  allowed := turns_allowed
  next _ := rfl
  serves n dev worker device thread := by
    obtain rfl : dev = 0 := Nat.lt_one_iff.mp device
    have two : worker = 0 ∨ worker = 1 := by
      have : worker < 2 := thread
      omega
    rcases two with rfl | rfl
    · obtain ⟨m, later, j, rfl, turn⟩ := turns_again n (by decide : 0 < 5)
      exact ⟨_, later, true, by simp [turns, turn]⟩
    · obtain ⟨m, later, j, rfl, turn⟩ := turns_again n (by decide : 1 < 5)
      exact ⟨_, later, true, by simp [turns, turn]⟩
  ticks n dev device _ := by
    obtain rfl : dev = 0 := Nat.lt_one_iff.mp device
    obtain ⟨m, later, j, rfl, turn⟩ := turns_again n (by decide : 2 < 5)
    exact ⟨_, later, by simp [turns, turn]⟩
  receives n dev worker device thread := by
    obtain rfl : dev = 0 := Nat.lt_one_iff.mp device
    have two : worker = 0 ∨ worker = 1 := by
      have : worker < 2 := thread
      omega
    rcases two with rfl | rfl
    · obtain ⟨m, later, j, rfl, turn⟩ := turns_again n (by decide : 3 < 5)
      exact ⟨_, later, by simp [turns, turn]⟩
    · obtain ⟨m, later, j, rfl, turn⟩ := turns_again n (by decide : 4 < 5)
      exact ⟨_, later, by simp [turns, turn]⟩

theorem storage_acknowledged_once_in_turns :
    ExactlyOnce syncedDevice (turnState 7) ∧ Answers fairTurns ∧
      (turnState 7).trace.count (.acked ⟨.store true, 0, 0, 7⟩) = 1 ∧
      (turnState 7).trace.count (.acked ⟨.load, 0, 1, 8⟩) = 1 := by
  obtain ⟨once, answers⟩ := storage_acknowledged_once syncedDevice
  exact ⟨once _ (fairTurns.reaches 7), answers fairTurns, by decide, by decide⟩

end StorageAcks
