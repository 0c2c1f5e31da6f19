import DistWalk.Node
import DistWalk.QueueRuns
import DistWalk.Walkers

/-!
# Storage workers

Connection workers hand STORE and LOAD commands to the storage worker of a device and
wait for its acknowledgement. Each pair of a device and a connection worker has its own
two pipes, `storefd` for the requests and `store_replyfd` for the acknowledgements. With
periodic sync the acknowledgement of a STORE stays in a priority queue until the next tick.
-/

namespace StorageWorkers

open ByteMemory Message Worker Node PriorityQueue Walkers

/-- What a command asks of a storage worker. -/
inductive Job
  | load
  | store (waitSync : Bool)
  deriving DecidableEq, Repr

/-- A nosync STORE is answered by nobody. -/
def Job.acknowledged : Job → Bool
  | .load => true
  | .store waitSync => waitSync

def jobAt (mem : Mem) (cmd : Nat) : Option Job :=
  match cmdAt mem cmd with
  | .load => some .load
  | .store => some (.store (decide (storeWaitSync mem cmd ≠ 0)))
  | _ => none

/-- `storage_req_t`; the bytes of the command are followed by those of its options. -/
structure StorageReq where
  workerId : Nat
  reqId : Nat
  cmd : List UInt8

def StorageReq.mem (w : StorageReq) : Mem := fun a => w.cmd.getD a 0

/-- The request that `process_single_message` writes for the command at `cmd`. -/
def storageReq (workerId reqId : Nat) (mem : Mem) (cmd : Nat) : StorageReq where
  workerId := workerId
  reqId := reqId
  cmd := slice mem cmd (cmdTypeSize (cmdAt mem cmd))

/-- A request as the two sides know it. -/
structure Ticket where
  job : Job
  dev : Nat
  worker : Nat
  reqId : Nat
  deriving DecidableEq, Repr

inductive Note
  | issued (t : Ticket)
  | executed (t : Ticket)
  | synced (dev : Nat)
  | acked (t : Ticket)
  | received (dev worker reqId : Nat)
  deriving DecidableEq, Repr

/-- `trace` keeps what happened, the last first. -/
structure System where
  storefd : Nat → Nat → List StorageReq
  storeReplyfd : Nat → Nat → List Nat
  syncWaitingQueue : Nat → PQueue
  trace : List Note

structure Config where
  connThreads : Nat
  storageDevices : Nat
  periodicSyncMsec : Nat → Int

def System.init : System where
  storefd _ _ := []
  storeReplyfd _ _ := []
  syncWaitingQueue _ := pqueueAlloc maxReqs
  trace := []

def System.note (s : System) (n : Note) : System := { s with trace := n :: s.trace }

/-- The pipe of one device and one worker. -/
def setPipe {α : Type} (pipes : Nat → Nat → List α) (dev worker : Nat) (l : List α) :
    Nat → Nat → List α :=
  fun d w => if d = dev ∧ w = worker then l else pipes d w

/-- Write the request id to the worker's `store_replyfd`. -/
def System.ack (s : System) (t : Ticket) : System :=
  { s with
    storeReplyfd := setPipe s.storeReplyfd t.dev t.worker (s.storeReplyfd t.dev t.worker ++ [t.reqId])
    trace := .acked t :: s.trace }

def System.setQueue (s : System) (dev : Nat) (q : PQueue) : System :=
  { s with syncWaitingQueue := Function.update s.syncWaitingQueue dev q }

/-! ## Connection worker -/

/-- The STORE and LOAD cases of `process_single_message`. -/
def request (cfg : Config) (s : System) (worker reqId : Nat) (mem : Mem) (cmd : Nat) : System :=
  match jobAt mem cmd with
  | none => s
  | some job =>
    let dev := storageDevice mem cmd
    if cfg.storageDevices ≤ dev then s
    else
      { s with
        storefd := setPipe s.storefd dev worker
          (s.storefd dev worker ++ [storageReq worker reqId mem cmd])
        trace := .issued ⟨job, dev, worker, reqId⟩ :: s.trace }

/-- The STORAGE event of `conn_worker`. -/
def receive (s : System) (dev worker : Nat) : System :=
  match s.storeReplyfd dev worker with
  | [] => s
  | reqIdAck :: rest =>
    { s with
      storeReplyfd := setPipe s.storeReplyfd dev worker rest
      trace := .received dev worker reqIdAck :: s.trace }

/-! ## Storage worker -/

/-- `store` gives up when its `lseek` fails. -/
def store (cfg : Config) (s : System) (dev : Nat) (w : StorageReq) (seeks : Bool) : System :=
  let waitSync := decide (storeWaitSync w.mem 0 ≠ 0)
  let s := s.note (.executed ⟨.store waitSync, dev, w.workerId, w.reqId⟩)
  if seeks = true ∧ waitSync = true ∧ cfg.periodicSyncMsec dev ≤ 0 then s.note (.synced dev) else s

def load (s : System) (dev : Nat) (w : StorageReq) : System :=
  s.note (.executed ⟨.load, dev, w.workerId, w.reqId⟩)

/-- The STORAGE event of `storage_worker`. -/
def serve (cfg : Config) (s : System) (dev worker : Nat) (seeks : Bool) : System :=
  match s.storefd dev worker with
  | [] => s
  | w :: rest =>
    let s := { s with storefd := setPipe s.storefd dev worker rest }
    match cmdAt w.mem 0 with
    | .store =>
      let s := store cfg s dev w seeks
      if storeWaitSync w.mem 0 = 0 then s
      else if cfg.periodicSyncMsec dev ≤ 0 then s.ack ⟨.store true, dev, w.workerId, w.reqId⟩
      else s.setQueue dev (pqueueInsert (s.syncWaitingQueue dev) w.workerId w.reqId).1
    | .load => (load s dev w).ack ⟨.load, dev, w.workerId, w.reqId⟩
    | _ => s

/-- The loop of the TIMER event: acknowledge the top of the queue until none is left. -/
def drain (dev : Nat) : Nat → System → System
  | 0, s => s
  | fuel + 1, s =>
    let q := s.syncWaitingQueue dev
    match pqueueTop q with
    | none => s
    | some top =>
      let workerId := (q.nodes top).key.toNat
      let reqId := (q.nodes top).data
      drain dev fuel ((s.setQueue dev (pqueuePop q)).ack ⟨.store true, dev, workerId, reqId⟩)

/-- The TIMER event of `storage_worker`; without periodic sync there is no timer. -/
def tick (cfg : Config) (s : System) (dev : Nat) : System :=
  if cfg.periodicSyncMsec dev ≤ 0 then s
  else drain dev (s.syncWaitingQueue dev).size (s.note (.synced dev))

/-! ## Runs -/

inductive Op
  | request (worker reqId : Nat) (mem : Mem) (cmd : Nat)
  | serve (dev worker : Nat) (seeks : Bool)
  | tick (dev : Nat)
  | receive (dev worker : Nat)

def step (cfg : Config) (s : System) : Op → System
  | .request worker reqId mem cmd => request cfg s worker reqId mem cmd
  | .serve dev worker seeks => serve cfg s dev worker seeks
  | .tick dev => tick cfg s dev
  | .receive dev worker => receive s dev worker

/-- Whether the acknowledgement of a request waits for the next tick. -/
def Queues (cfg : Config) (dev : Nat) (w : StorageReq) : Prop :=
  jobAt w.mem 0 = some (.store true) ∧ 0 < cfg.periodicSyncMsec dev

/-- Requests come from the node's own workers for its own devices, and no more than
`MAX_REQS` acknowledgements wait for a tick. -/
def Allowed (cfg : Config) (s : System) : Op → Prop
  | .request worker _ mem cmd =>
    worker < cfg.connThreads ∧ storageDevice mem cmd < cfg.storageDevices
  | .serve dev worker _ => ∀ w ∈ (s.storefd dev worker).head?, Queues cfg dev w →
      (s.syncWaitingQueue dev).size < maxReqs
  | .tick _ => True
  | .receive _ _ => True

inductive Reaches (cfg : Config) : System → Prop
  | init : Reaches cfg .init
  | step {s : System} (op : Op) (before : Reaches cfg s) (allowed : Allowed cfg s op) :
      Reaches cfg (step cfg s op)

/-! ## The two sides read the same command -/

theorem length_storageReq (workerId reqId : Nat) (mem : Mem) (cmd : Nat) :
    (storageReq workerId reqId mem cmd).cmd.length = cmdTypeSize (cmdAt mem cmd) :=
  length_slice mem cmd _

theorem storageReq_mem (workerId reqId : Nat) (mem : Mem) (cmd : Nat) {a : Nat}
    (inside : a < cmdTypeSize (cmdAt mem cmd)) :
    (storageReq workerId reqId mem cmd).mem a = mem (cmd + a) := by
  have bound : a < (storageReq workerId reqId mem cmd).cmd.length := by
    rw [length_storageReq]
    exact inside
  rw [StorageReq.mem, List.getD_eq_getElem _ _ bound]
  exact getElem_slice mem cmd _ _ _

theorem cmdAt_storageReq (workerId reqId : Nat) (mem : Mem) (cmd : Nat) :
    cmdAt (storageReq workerId reqId mem cmd).mem 0 = cmdAt mem cmd := by
  have header : 4 ≤ cmdTypeSize (cmdAt mem cmd) := four_le_cmdTypeSize _
  have same : u32 (storageReq workerId reqId mem cmd).mem 0 = u32 mem cmd := by
    refine u32_congr fun i hi => ?_
    rw [Nat.zero_add]
    exact storageReq_mem workerId reqId mem cmd (by omega)
  rw [cmdAt, same, cmdAt]

/-- The storage worker finds in its copy the job that the connection worker sent. -/
theorem jobAt_storageReq (workerId reqId : Nat) (mem : Mem) (cmd : Nat) :
    jobAt (storageReq workerId reqId mem cmd).mem 0 = jobAt mem cmd := by
  rw [jobAt, jobAt, cmdAt_storageReq]
  cases kind : cmdAt mem cmd with
  | store =>
    have inside : 20 < cmdTypeSize (cmdAt mem cmd) := by rw [kind]; decide
    have flag : storeWaitSync (storageReq workerId reqId mem cmd).mem 0 = storeWaitSync mem cmd := by
      rw [storeWaitSync, Nat.zero_add, storageReq_mem workerId reqId mem cmd inside]
      rfl
    simp only [flag]
  | _ => rfl

/-- The connection worker stops at a command exactly when its storage worker will
acknowledge it. -/
theorem processFrom_storage {mem : Mem} {cmd : Nat} {job : Job} (h : jobAt mem cmd = some job)
    (slot m fuel : Nat) (w : State) (valid : storageDevice mem cmd < w.storageDevices) :
    processFrom mem slot m (fuel + 1) w (some cmd) =
      let w := w.emit (.storage (storageDevice mem cmd) (w.reqs slot).reqId)
      if job.acknowledged then
        .ok (setCurrCmd w slot (cmdBoundedNext mem cmd (messageEnd mem m)), 0)
      else processFrom mem slot m fuel w (cmdBoundedSkip mem (some cmd) 1 (messageEnd mem m)) := by
  have known := Nat.not_le.mpr valid
  cases kind : cmdAt mem cmd with
  | store =>
    simp only [jobAt, kind, Option.some.injEq] at h
    subst h
    by_cases flag : storeWaitSync mem cmd = 0
    · simp [processFrom, kind, known, flag, Job.acknowledged]
    · simp [processFrom, kind, known, flag, Job.acknowledged]
  | load =>
    simp only [jobAt, kind, Option.some.injEq] at h
    subst h
    simp [processFrom, kind, known, Job.acknowledged]
  | _ => simp [jobAt, kind] at h

end StorageWorkers
