import DistWalk.Message
import Mathlib.Data.List.Infix

/-!
# The proxy

`dw_proxy` copies bytes between its clients and one server. Each flow has two threads that
use the same two descriptors, and each of them closes both when it ends. The threads of all
flows run in any order; what the kernel answers to a call is part of the step, and the
descriptors it hands out are free ones. The peers' bytes are given from the start: a `read`
gets a piece of those not read yet, and 0 when there are none left. Signals and the options
are left out.
-/

namespace Proxy

open Message

def maxFlows : Nat := 16

inductive Side
  | client
  | server
  deriving DecidableEq, Repr

def Side.other : Side → Side
  | .client => .server
  | .server => .client

/-- What a descriptor refers to: nothing, the socket of a flow to one of its peers, or
something else that is open. -/
inductive Target
  | free
  | sock (flow : Nat) (side : Side)
  | aside
  deriving DecidableEq, Repr

/-- Where a thread of a flow stands. `pause` is the `usleep` before what was read is
written, and `write` has the bytes that are left to write. -/
inductive Pc
  | delay
  | connect
  | read
  | pause (buf : List UInt8)
  | write (buf : List UInt8)
  | closeServer
  | closeClient
  | join
  | done
  deriving DecidableEq, Repr

structure Flow where
  fdClient : Nat
  fdServer : Nat
  sender : Pc
  receiver : Option Pc

structure State where
  fds : Nat → Target
  flows : Nat → Flow
  nFlows : Nat
  unread : Nat → Side → List UInt8
  written : Nat → Side → List UInt8

/-- The kernel's answer to a call: whether it fails, how many bytes it moves, and the
descriptor it hands out. -/
structure Reply where
  failed : Bool
  n : Nat
  fd : Nat

inductive Action
  | accept (r : Reply)
  | sender (i : Nat) (r : Reply)
  | receiver (i : Nat) (r : Reply)

/-! ## System calls -/

def setFd (p : State) (fd : Nat) (t : Target) : State := { p with fds := Function.update p.fds fd t }

def setFlow (p : State) (i : Nat) (f : Flow) : State := { p with flows := Function.update p.flows i f }

def setBytes (bytes : Nat → Side → List UInt8) (i : Nat) (side : Side) (b : List UInt8) : Nat → Side → List UInt8 :=
  Function.update bytes i (Function.update (bytes i) side b)

/-- `read` of at most `fragSize` bytes; `none` is -1. -/
def readFd (fragSize : Nat) (p : State) (fd : Nat) (r : Reply) : State × Option (List UInt8) :=
  match p.fds fd with
  | .sock i side =>
    if r.failed then (p, none)
    else
      let got := (p.unread i side).take (min (r.n + 1) fragSize)
      ({ p with unread := setBytes p.unread i side ((p.unread i side).drop got.length) }, some got)
  | _ => (p, none)

/-- `write` takes some of the bytes; `none` is -1. -/
def writeFd (p : State) (fd : Nat) (buf : List UInt8) (r : Reply) : Option (State × Nat) :=
  match p.fds fd with
  | .sock i side =>
    if r.failed then none
    else some ({ p with written := setBytes p.written i side (p.written i side ++ buf.take r.n) }, min r.n buf.length)
  | _ => none

/-! ## Threads -/

/-- The loop of both threads, from descriptor `src` to `dst`; the sender sleeps before it
writes. -/
def copyStep (fragSize : Nat) (sleeps : Bool) (src dst : Nat) (p : State) (pc : Pc) (r : Reply) :
    Except Abort (State × Pc) :=
  match pc with
  | .read =>
    match readFd fragSize p src r with
    | (p, none) => .ok (p, .closeServer)
    | (p, some []) => .ok (p, .closeServer)
    | (p, some got) => .ok (p, if sleeps then .pause got else .write got)
  | .pause buf => .ok (p, .write buf)
  | .write buf =>
    match writeFd p dst buf r with
    | none => .error .check
    | some (p, n) => .ok (p, if buf.drop n = [] then .read else .write (buf.drop n))
  | pc => .ok (p, pc)

/-- A step of the thread `sender` of flow `i`. -/
def senderStep (fragSize : Nat) (p : State) (i : Nat) (r : Reply) : Except Abort State :=
  let f := p.flows i
  match f.sender with
  | .delay =>
    if r.failed then .error .check
    else if p.fds r.fd ≠ .free then .ok p
    else .ok (setFlow (setFd p r.fd (.sock i .server)) i { f with fdServer := r.fd, sender := .connect })
  | .connect =>
    if r.failed then .ok (setFlow p i { f with sender := .done })
    else .ok (setFlow p i { f with sender := .read, receiver := some .read })
  | .closeServer => .ok (setFlow (setFd p f.fdServer .free) i { f with sender := .closeClient })
  | .closeClient => .ok (setFlow (setFd p f.fdClient .free) i { f with sender := .join })
  | .join => if f.receiver = some .done then .ok (setFlow p i { f with sender := .done }) else .ok p
  | pc => (copyStep fragSize true f.fdClient f.fdServer p pc r).map fun s => setFlow s.1 i { f with sender := s.2 }

/-- A step of the thread `receiver` of flow `i`. -/
def receiverStep (fragSize : Nat) (p : State) (i : Nat) (r : Reply) : Except Abort State :=
  let f := p.flows i
  match f.receiver with
  | none => .ok p
  | some .closeServer => .ok (setFlow (setFd p f.fdServer .free) i { f with receiver := some .closeClient })
  | some .closeClient => .ok (setFlow (setFd p f.fdClient .free) i { f with receiver := some .done })
  | some pc =>
    (copyStep fragSize false f.fdServer f.fdClient p pc r).map fun s => setFlow s.1 i { f with receiver := some s.2 }

/-- A new connection: the flows of those that have ended are not used again. -/
def acceptFlow (p : State) (r : Reply) : Except Abort State :=
  if r.failed then .error .exitFailure
  else if p.fds r.fd ≠ .free then .ok p
  else if p.nFlows < maxFlows then
    .ok { setFlow (setFd p r.fd (.sock p.nFlows .client)) p.nFlows ⟨r.fd, 0, .delay, none⟩ with nFlows := p.nFlows + 1 }
  else .error .check

/-- Only the flows that have been accepted have threads. -/
def step (fragSize : Nat) (p : State) : Action → Except Abort State
  | .accept r => acceptFlow p r
  | .sender i r => if i < p.nFlows then senderStep fragSize p i r else .ok p
  | .receiver i r => if i < p.nFlows then receiverStep fragSize p i r else .ok p

def run (fragSize : Nat) (p : State) : List Action → Except Abort State
  | [] => .ok p
  | a :: rest =>
    match step fragSize p a with
    | .error e => .error e
    | .ok p => run fragSize p rest

/-- Before the first client; `fds` are the descriptors that are open anyway, and `sent` is
what the peers send. -/
def start (open_ : Nat → Bool) (sent : Nat → Side → List UInt8) : State where
  fds := fun fd => if open_ fd then .aside else .free
  flows := fun _ => ⟨0, 0, .delay, none⟩
  nFlows := 0
  unread := sent
  written := fun _ _ => []

/-! ## What a flow owns -/

/-- Before the label `end`. -/
def Pc.looping : Pc → Bool
  | .closeServer => false
  | .closeClient => false
  | .join => false
  | .done => false
  | _ => true

/-- In the loop. -/
def Pc.copying : Pc → Bool
  | .read => true
  | .pause _ => true
  | .write _ => true
  | _ => false

/-- The bytes that a thread has read and not written. -/
def Pc.held : Pc → List UInt8
  | .pause buf => buf
  | .write buf => buf
  | _ => []

/-- One of the threads is at its end. -/
def Flow.Ending (f : Flow) : Prop := f.sender.looping = false ∨ ∃ pc, f.receiver = some pc ∧ pc.looping = false

/-- No thread is left. -/
def Flow.Ended (f : Flow) : Prop := f.sender = .done ∧ (f.receiver = none ∨ f.receiver = some .done)

/-- No flow is on its way out: each one that has begun to end has ended. -/
def Calm (p : State) : Prop := ∀ i < p.nFlows, (p.flows i).Ending → (p.flows i).Ended

/-- A step that takes a descriptor comes when no flow is on its way out. -/
def Spaced (p : State) : Action → Prop
  | .accept _ => Calm p
  | .sender i _ => i < p.nFlows → (p.flows i).sender = .delay → Calm p
  | .receiver _ _ => True

/-- Descriptor `fd` is the socket of flow `i` to `side`, or the flow has closed it. -/
def Owns (p : State) (i : Nat) (side : Side) (fd : Nat) : Prop :=
  p.fds fd = .sock i side ∨ (p.flows i).Ending ∧ p.fds fd = .free

/-- What has been written on one side, what is held, and what has not been read on the other
side is what the other side sends. -/
structure Relays (sent : Nat → Side → List UInt8) (p : State) (i : Nat) : Prop where
  forth : p.written i .server ++ (p.flows i).sender.held ++ p.unread i .client = sent i .client
  back : p.written i .client ++ ((p.flows i).receiver.elim [] Pc.held) ++ p.unread i .server = sent i .server

structure SoundFlow (sent : Nat → Side → List UInt8) (p : State) (i : Nat) : Prop where
  client : ¬ (p.flows i).Ended → Owns p i .client (p.flows i).fdClient
  server : ¬ (p.flows i).Ended → (p.flows i).sender ≠ .delay → Owns p i .server (p.flows i).fdServer
  started : (p.flows i).receiver ≠ none → (p.flows i).sender ≠ .delay ∧ (p.flows i).sender ≠ .connect
  relays : Relays sent p i

structure Sound (sent : Nat → Side → List UInt8) (p : State) : Prop where
  flows : ∀ i < p.nFlows, SoundFlow sent p i
  unused : ∀ i ≥ p.nFlows, p.unread i = sent i ∧ p.written i = fun _ => []

/-- A step of flow `i`: it may close its own descriptors, and take a free one when no flow is
on its way out. -/
structure Touches (p p' : State) (i : Nat) : Prop where
  flows : ∀ j ≠ i, p'.flows j = p.flows j
  unread : ∀ j ≠ i, p'.unread j = p.unread j
  written : ∀ j ≠ i, p'.written j = p.written j
  fds : ∀ fd, p'.fds fd = p.fds fd ∨ (∃ side, p.fds fd = .sock i side) ∨ (p.fds fd = .free ∧ Calm p)

theorem Ended.ending {f : Flow} (h : f.Ended) : f.Ending := by
  left
  rw [h.1]
  rfl

/-- The descriptors of another flow stay its own. -/
theorem Owns.touched {p p' : State} {i j : Nat} {side : Side} {fd : Nat} (h : Owns p j side fd) (t : Touches p p' i)
    (other : j ≠ i) (known : j < p.nFlows) (running : ¬ (p.flows j).Ended) : Owns p' j side fd := by
  rw [Owns, t.flows j other]
  rcases t.fds fd with same | ⟨side', own⟩ | ⟨free, calm⟩
  · rw [same]
    exact h
  · rcases h with here | ⟨-, here⟩
    · rw [own] at here
      cases here
      exact absurd rfl other
    · rw [own] at here
      cases here
  · rcases h with here | ⟨ending, -⟩
    · rw [free] at here
      cases here
    · exact absurd (calm j known ending) running

theorem SoundFlow.touched {sent : Nat → Side → List UInt8} {p p' : State} {i j : Nat} (h : SoundFlow sent p j)
    (t : Touches p p' i) (other : j ≠ i) (known : j < p.nFlows) : SoundFlow sent p' j := by
  have flow := t.flows j other
  refine ⟨fun running => ?_, fun running late => ?_, ?_, ?_⟩
  · rw [flow] at running ⊢
    exact (h.client running).touched t other known running
  · rw [flow] at running late ⊢
    exact (h.server running late).touched t other known running
  · rw [flow]
    exact h.started
  · refine ⟨?_, ?_⟩
    · rw [t.written j other, t.unread j other, flow]
      exact h.relays.forth
    · rw [t.written j other, t.unread j other, flow]
      exact h.relays.back

theorem Sound.touched {sent : Nat → Side → List UInt8} {p p' : State} {i : Nat} (h : Sound sent p)
    (same : p'.nFlows = p.nFlows) (t : Touches p p' i) (known : i < p.nFlows) (own : SoundFlow sent p' i) :
    Sound sent p' := by
  refine ⟨fun j inside => ?_, fun j beyond => ?_⟩
  · by_cases here : j = i
    · exact here ▸ own
    · exact (h.flows j (same ▸ inside)).touched t here (same ▸ inside)
  · rw [same] at beyond
    have other : j ≠ i := by omega
    rw [t.unread j other, t.written j other]
    exact h.unused j beyond

/-! ## Copying -/

/-- Bytes of flow `i` that come from `side` move on; `held` and `held'` are what the thread
holds. -/
structure Moves (p p' : State) (i : Nat) (side : Side) (held held' : List UInt8) : Prop where
  fds : p'.fds = p.fds
  flows : p'.flows = p.flows
  nFlows : p'.nFlows = p.nFlows
  unread : ∀ j s, j ≠ i ∨ s ≠ side → p'.unread j s = p.unread j s
  written : ∀ j s, j ≠ i ∨ s ≠ side.other → p'.written j s = p.written j s
  bytes : p'.written i side.other ++ held' ++ p'.unread i side =
    p.written i side.other ++ held ++ p.unread i side

theorem Moves.none {p : State} {i : Nat} {side : Side} {held held' : List UInt8} (same : held' = held) :
    Moves p p i side held held' :=
  ⟨rfl, rfl, rfl, fun _ _ _ => rfl, fun _ _ _ => rfl, by rw [same]⟩

@[simp] theorem setBytes_self (bytes : Nat → Side → List UInt8) (i : Nat) (side : Side) (b : List UInt8) :
    setBytes bytes i side b i side = b := by
  simp [setBytes]

theorem setBytes_other (bytes : Nat → Side → List UInt8) {i j : Nat} {side s : Side} (b : List UInt8)
    (other : j ≠ i ∨ s ≠ side) : setBytes bytes i side b j s = bytes j s := by
  by_cases here : j = i
  · subst here
    simp [setBytes, other.resolve_left (fun apart => apart rfl)]
  · simp [setBytes, here]

section Copying

variable {fragSize : Nat} {sleeps : Bool} {src dst i : Nat} {side : Side} {p p' : State} {pc pc' : Pc} {r : Reply}

theorem readFd_moves (own : p.fds src = .sock i side ∨ p.fds src = .free) :
    Moves p (readFd fragSize p src r).1 i side [] ((readFd fragSize p src r).2.getD []) := by
  rcases own with here | closed
  · simp only [readFd, here]
    split
    · exact .none rfl
    · have whole := List.take_append_drop (min (r.n + 1) fragSize) (p.unread i side)
      have length : (List.take (min (r.n + 1) fragSize) (p.unread i side)).length =
          min (min (r.n + 1) fragSize) (p.unread i side).length := List.length_take
      refine ⟨rfl, rfl, rfl, fun j s other => setBytes_other _ _ other, fun _ _ _ => rfl, ?_⟩
      simp only [setBytes_self, Option.getD_some, List.append_nil, List.append_assoc]
      exact congrArg _ (List.prefix_iff_eq_append.mp (List.take_prefix _ _))
  · simp only [readFd, closed]
    exact .none rfl

theorem writeFd_moves {buf : List UInt8} {n : Nat} (own : p.fds dst = .sock i side.other ∨ p.fds dst = .free)
    (done : writeFd p dst buf r = some (p', n)) : Moves p p' i side buf (buf.drop n) := by
  rcases own with here | closed
  · simp only [writeFd, here] at done
    split at done
    · cases done
    · cases done
      refine ⟨rfl, rfl, rfl, fun _ _ _ => rfl, fun j s other => setBytes_other _ _ other, ?_⟩
      simp only [setBytes_self, List.append_assoc]
      refine congrArg _ ?_
      rw [← List.append_assoc, ← List.length_take]
      exact congrArg (· ++ p.unread i side) (List.prefix_iff_eq_append.mp (List.take_prefix _ _))
  · simp only [writeFd, closed] at done
    cases done

/-- A step of the loop moves the bytes of its own flow. -/
theorem copyStep_moves (from_ : p.fds src = .sock i side ∨ p.fds src = .free)
    (into : p.fds dst = .sock i side.other ∨ p.fds dst = .free)
    (done : copyStep fragSize sleeps src dst p pc r = .ok (p', pc')) : Moves p p' i side pc.held pc'.held := by
  cases pc with
  | read =>
    have moved := @readFd_moves fragSize src i side p r from_
    simp only [copyStep] at done
    split at done
    · rename_i v e
      cases done
      rw [e] at moved
      exact moved
    · rename_i v e
      cases done
      rw [e] at moved
      exact moved
    · rename_i v got _ e
      cases done
      rw [e] at moved
      cases sleeps <;> exact moved
  | pause buf =>
    cases done
    exact .none rfl
  | write buf =>
    simp only [copyStep] at done
    split at done
    · cases done
    · rename_i v n e
      have moved := writeFd_moves into e
      cases done
      split
      · rename_i empty
        rw [empty] at moved
        exact moved
      · exact moved
  | delay | connect | closeServer | closeClient | join | done =>
    cases done
    exact .none rfl

end Copying

/-! ## Steps -/

section Steps

@[simp] theorem setFlow_flows (p : State) (i : Nat) (f : Flow) : (setFlow p i f).flows i = f := by
  simp [setFlow]

@[simp] theorem setFlow_fds (p : State) (i : Nat) (f : Flow) : (setFlow p i f).fds = p.fds := rfl

@[simp] theorem setFlow_unread (p : State) (i : Nat) (f : Flow) : (setFlow p i f).unread = p.unread := rfl

@[simp] theorem setFlow_written (p : State) (i : Nat) (f : Flow) : (setFlow p i f).written = p.written := rfl

/-- Closing, in a flow that is at its end. -/
theorem setFd_fds_free (p : State) {i fd : Nat} {f : Flow} (ending : f.Ending) (x : Nat) :
    (setFlow (setFd p fd .free) i f).fds x = p.fds x ∨
      (setFlow (setFd p fd .free) i f).fds x = .free ∧ ((setFlow (setFd p fd .free) i f).flows i).Ending := by
  by_cases here : x = fd
  · right
    simpa [setFd, here] using ending
  · left
    simp [setFd, here]

@[simp] theorem setFlow_nFlows (p : State) (i : Nat) (f : Flow) : (setFlow p i f).nFlows = p.nFlows := rfl

variable {sent : Nat → Side → List UInt8} {p p' : State} {i : Nat}

/-- What a step of a flow asks of the flow itself, where it takes no descriptor. -/
structure Carries (sent : Nat → Side → List UInt8) (p p' : State) (i : Nat) : Prop where
  client : (p'.flows i).fdClient = (p.flows i).fdClient
  server : (p'.flows i).fdServer = (p.flows i).fdServer
  fds : ∀ fd, p'.fds fd = p.fds fd ∨ p'.fds fd = .free ∧ (p'.flows i).Ending
  ending : (p.flows i).Ending → (p'.flows i).Ending
  running : ¬ (p'.flows i).Ended → ¬ (p.flows i).Ended
  early : (p'.flows i).sender ≠ .delay → (p.flows i).sender ≠ .delay
  started : (p'.flows i).receiver ≠ none → (p'.flows i).sender ≠ .delay ∧ (p'.flows i).sender ≠ .connect
  relays : Relays sent p' i

theorem Owns.carried {side : Side} {fd : Nat} (h : Owns p i side fd) (t : Carries sent p p' i) :
    Owns p' i side fd := by
  rcases t.fds fd with same | ⟨free, ending⟩
  · rw [Owns, same]
    rcases h with here | ⟨ending, free⟩
    · exact Or.inl here
    · exact Or.inr ⟨t.ending ending, free⟩
  · exact Or.inr ⟨ending, free⟩

theorem SoundFlow.carried (h : SoundFlow sent p i) (t : Carries sent p p' i) : SoundFlow sent p' i where
  client := fun running => t.client ▸ (h.client (t.running running)).carried t
  server := fun running late => t.server ▸ (h.server (t.running running) (t.early late)).carried t
  started := t.started
  relays := t.relays

/-- Setting the flow alone. -/
theorem touches_setFlow (p : State) (i : Nat) (f : Flow) : Touches p (setFlow p i f) i :=
  ⟨fun j other => by simp [setFlow, other], fun _ _ => rfl, fun _ _ => rfl, fun _ => Or.inl rfl⟩

/-- Closing a descriptor that is the flow's own, or closed already. -/
theorem touches_close {side : Side} {fd : Nat} (own : Owns p i side fd) (f : Flow) :
    Touches p (setFlow (setFd p fd .free) i f) i := by
  refine ⟨fun j other => by simp [setFlow, setFd, other], fun _ _ => rfl, fun _ _ => rfl, fun x => ?_⟩
  by_cases here : x = fd
  · subst here
    rcases own with own | ⟨-, free⟩
    · exact Or.inr (Or.inl ⟨side, own⟩)
    · left
      simp [setFlow, setFd, free]
  · left
    simp [setFlow, setFd, here]

theorem touches_moves {side : Side} {held held' : List UInt8} {v : State} (moves : Moves p v i side held held')
    (f : Flow) : Touches p (setFlow v i f) i := by
  refine ⟨fun j other => ?_, fun j other => ?_, fun j other => ?_, fun x => Or.inl ?_⟩
  · simp [setFlow, other, moves.flows]
  · funext s
    exact moves.unread j s (Or.inl other)
  · funext s
    exact moves.written j s (Or.inl other)
  · exact congrFun moves.fds x

theorem setFlow_sender {pc : Pc} (at_ : (p.flows i).sender = pc) :
    setFlow p i { p.flows i with sender := pc } = p := by
  subst at_
  simp [setFlow]

theorem setFlow_receiver {pc : Pc} (at_ : (p.flows i).receiver = some pc) :
    setFlow p i { p.flows i with receiver := some pc } = p := by
  rw [← at_]
  simp [setFlow]

theorem map_ok {α β : Type} {x : Except Abort α} {f : α → β} {b : β} (h : x.map f = .ok b) : ∃ a, x = .ok a ∧ f a = b := by
  cases x with
  | error e => cases h
  | ok a => exact ⟨a, rfl, Except.ok.inj h⟩

theorem copyStep_late {fragSize src dst : Nat} {sleeps : Bool} {pc pc' : Pc} {r : Reply} (busy : pc.copying = true)
    (done : copyStep fragSize sleeps src dst p pc r = .ok (p', pc')) :
    pc' ≠ .delay ∧ pc' ≠ .connect ∧ pc' ≠ .done := by
  cases pc with
  | read =>
    simp only [copyStep] at done
    split at done
    · cases done
      simp
    · cases done
      simp
    · cases done
      cases sleeps <;> simp
  | pause buf =>
    cases done
    simp
  | write buf =>
    simp only [copyStep] at done
    split at done
    · cases done
    · cases done
      split <;> simp
  | delay | connect | closeServer | closeClient | join | done => cases busy

/-- What a step of a `sender` does. -/
theorem senderStep_cases {fragSize : Nat} {r : Reply} (done : senderStep fragSize p i r = .ok p') :
    p' = p ∨
    ((p.flows i).sender = .delay ∧ p.fds r.fd = .free ∧
      p' = setFlow (setFd p r.fd (.sock i .server)) i { p.flows i with fdServer := r.fd, sender := .connect }) ∨
    ((p.flows i).sender = .connect ∧ p' = setFlow p i { p.flows i with sender := .done }) ∨
    ((p.flows i).sender = .connect ∧ p' = setFlow p i { p.flows i with sender := .read, receiver := some .read }) ∨
    ((p.flows i).sender = .closeServer ∧
      p' = setFlow (setFd p (p.flows i).fdServer .free) i { p.flows i with sender := .closeClient }) ∨
    ((p.flows i).sender = .closeClient ∧
      p' = setFlow (setFd p (p.flows i).fdClient .free) i { p.flows i with sender := .join }) ∨
    ((p.flows i).sender = .join ∧ (p.flows i).receiver = some .done ∧
      p' = setFlow p i { p.flows i with sender := .done }) ∨
    ∃ v pc', (p.flows i).sender.copying = true ∧
      copyStep fragSize true (p.flows i).fdClient (p.flows i).fdServer p (p.flows i).sender r = .ok (v, pc') ∧
      p' = setFlow v i { p.flows i with sender := pc' } := by
  cases at_ : (p.flows i).sender with
  | delay =>
    simp only [senderStep, at_] at done
    split at done
    · cases done
    · split at done
      · cases done
        exact Or.inl rfl
      · rename_i free
        cases done
        exact Or.inr (Or.inl ⟨rfl, not_not.mp free, rfl⟩)
  | connect =>
    simp only [senderStep, at_] at done
    split at done
    · cases done
      exact Or.inr (Or.inr (Or.inl ⟨rfl, rfl⟩))
    · cases done
      exact Or.inr (Or.inr (Or.inr (Or.inl ⟨rfl, rfl⟩)))
  | read | pause buf | write buf =>
    simp only [senderStep, at_] at done
    obtain ⟨⟨v, pc'⟩, copied, e⟩ := map_ok done
    exact Or.inr (Or.inr (Or.inr (Or.inr (Or.inr (Or.inr (Or.inr ⟨v, pc', rfl, copied, e.symm⟩))))))
  | closeServer =>
    simp only [senderStep, at_] at done
    cases done
    exact Or.inr (Or.inr (Or.inr (Or.inr (Or.inl ⟨rfl, rfl⟩))))
  | closeClient =>
    simp only [senderStep, at_] at done
    cases done
    exact Or.inr (Or.inr (Or.inr (Or.inr (Or.inr (Or.inl ⟨rfl, rfl⟩)))))
  | join =>
    simp only [senderStep, at_] at done
    split at done
    · rename_i joined
      cases done
      exact Or.inr (Or.inr (Or.inr (Or.inr (Or.inr (Or.inr (Or.inl ⟨rfl, joined, rfl⟩))))))
    · cases done
      exact Or.inl rfl
  | done =>
    simp only [senderStep, at_] at done
    cases done
    exact Or.inl (setFlow_sender at_)

/-- What a step of a `receiver` does. -/
theorem receiverStep_cases {fragSize : Nat} {r : Reply} (done : receiverStep fragSize p i r = .ok p') :
    p' = p ∨
    ((p.flows i).receiver = some .closeServer ∧
      p' = setFlow (setFd p (p.flows i).fdServer .free) i { p.flows i with receiver := some .closeClient }) ∨
    ((p.flows i).receiver = some .closeClient ∧
      p' = setFlow (setFd p (p.flows i).fdClient .free) i { p.flows i with receiver := some .done }) ∨
    ∃ pc v pc', (p.flows i).receiver = some pc ∧ pc.copying = true ∧
      copyStep fragSize false (p.flows i).fdServer (p.flows i).fdClient p pc r = .ok (v, pc') ∧
      p' = setFlow v i { p.flows i with receiver := some pc' } := by
  rcases at_ : (p.flows i).receiver with _ | pc
  · simp only [receiverStep, at_] at done
    cases done
    exact Or.inl rfl
  · cases pc with
    | read | pause buf | write buf =>
      simp only [receiverStep, at_] at done
      obtain ⟨⟨v, pc'⟩, copied, e⟩ := map_ok done
      exact Or.inr (Or.inr (Or.inr ⟨_, v, pc', rfl, rfl, copied, e.symm⟩))
    | closeServer =>
      simp only [receiverStep, at_] at done
      cases done
      exact Or.inr (Or.inl ⟨rfl, rfl⟩)
    | closeClient =>
      simp only [receiverStep, at_] at done
      cases done
      exact Or.inr (Or.inr (Or.inl ⟨rfl, rfl⟩))
    | delay | connect | join | done =>
      simp only [receiverStep, at_] at done
      cases done
      exact Or.inl (setFlow_receiver at_)

theorem Relays.kept (h : Relays sent p i) (unread : p'.unread = p.unread) (written : p'.written = p.written)
    (sends : (p'.flows i).sender.held = (p.flows i).sender.held)
    (receives : (p'.flows i).receiver.elim [] Pc.held = (p.flows i).receiver.elim [] Pc.held) : Relays sent p' i := by
  refine ⟨?_, ?_⟩
  · rw [unread, written, sends]
    exact h.forth
  · rw [unread, written, receives]
    exact h.back

/-- A flow whose thread takes a step in the loop, from its side of the flow to the other. -/
theorem Relays.copied {held held' : List UInt8} {v : State} {f : Flow} (h : Relays sent p i)
    (moves : Moves p v i .client held held') (had : (p.flows i).sender.held = held) (has : f.sender.held = held')
    (same : f.receiver = (p.flows i).receiver) : Relays sent (setFlow v i f) i := by
  refine ⟨?_, ?_⟩
  · have bytes := moves.bytes
    rw [← had, ← has] at bytes
    simpa [Side.other] using bytes.trans h.forth
  · have unread := moves.unread i .server (Or.inr (by decide))
    have written := moves.written i .client (Or.inr (by decide))
    simpa [same, unread, written] using h.back

theorem Relays.returned {held held' : List UInt8} {v : State} {f : Flow} (h : Relays sent p i)
    (moves : Moves p v i .server held held') (had : (p.flows i).receiver.elim [] Pc.held = held)
    (has : f.receiver.elim [] Pc.held = held') (same : f.sender = (p.flows i).sender) :
    Relays sent (setFlow v i f) i := by
  refine ⟨?_, ?_⟩
  · have unread := moves.unread i .client (Or.inr (by decide))
    have written := moves.written i .server (Or.inr (by decide))
    simpa [same, unread, written] using h.forth
  · have bytes := moves.bytes
    rw [← had, ← has] at bytes
    simpa [Side.other] using bytes.trans h.back

/-- A step of the sender keeps what holds of all flows. -/
theorem senderStep_sound {fragSize : Nat} {r : Reply} (h : Sound sent p) (known : i < p.nFlows)
    (calm : (p.flows i).sender = .delay → Calm p) (done : senderStep fragSize p i r = .ok p') :
    Sound sent p' ∧ p'.nFlows = p.nFlows := by
  have own := h.flows i known
  rcases senderStep_cases done with rfl | ⟨at_, free, rfl⟩ | ⟨at_, rfl⟩ | ⟨at_, rfl⟩ | ⟨at_, rfl⟩ | ⟨at_, rfl⟩ |
    ⟨at_, joined, rfl⟩ | ⟨v, pc', busy, copied, rfl⟩
  · exact ⟨h, rfl⟩
  · -- a new descriptor for the server
    have alone : (p.flows i).receiver = none := by
      by_contra other
      exact (own.started other).1 at_
    have running : ¬ (p.flows i).Ended := by simp [Flow.Ended, at_]
    have client : p.fds (p.flows i).fdClient = .sock i .client := by
      rcases own.client running with here | ⟨ending, -⟩
      · exact here
      · simp [Flow.Ending, at_, alone, Pc.looping] at ending
    have apart : (p.flows i).fdClient ≠ r.fd := by
      intro same
      rw [same, free] at client
      cases client
    refine ⟨h.touched rfl ?_ known ?_, rfl⟩
    · refine ⟨fun j other => by simp [setFlow, setFd, other], fun _ _ => rfl, fun _ _ => rfl, fun fd => ?_⟩
      by_cases here : fd = r.fd
      · subst here
        exact Or.inr (Or.inr ⟨free, calm at_⟩)
      · left
        simp [setFd, here]
    · refine ⟨fun _ => Or.inl ?_, fun _ _ => Or.inl ?_, fun some => ?_, ?_⟩
      · simpa [setFd, apart] using client
      · simp [setFd]
      · simp [alone] at some
      · exact own.relays.kept rfl rfl (by simp [at_, Pc.held]) (by simp)
  · refine ⟨h.touched rfl (touches_setFlow p i _) known (own.carried ?_), rfl⟩
    have alone : (p.flows i).receiver = none := by
      by_contra other
      exact (own.started other).2 at_
    exact {
      client := by simp
      server := by simp
      fds := fun _ => Or.inl rfl
      ending := fun _ => Or.inl (by simp [Pc.looping])
      running := fun _ => by simp [Flow.Ended, at_]
      early := fun _ => by simp [at_]
      started := by simp [alone]
      relays := own.relays.kept rfl rfl (by simp [at_, Pc.held]) (by simp) }
  · refine ⟨h.touched rfl (touches_setFlow p i _) known (own.carried ?_), rfl⟩
    have alone : (p.flows i).receiver = none := by
      by_contra other
      exact (own.started other).2 at_
    exact {
      client := by simp
      server := by simp
      fds := fun _ => Or.inl rfl
      ending := by simp [Flow.Ending, at_, alone, Pc.looping]
      running := fun _ => by simp [Flow.Ended, at_]
      early := fun _ => by simp [at_]
      started := by simp
      relays := own.relays.kept rfl rfl (by simp [at_, Pc.held]) (by simp [alone, Pc.held]) }
  · have running : ¬ (p.flows i).Ended := by simp [Flow.Ended, at_]
    have server := own.server running (by simp [at_])
    refine ⟨h.touched rfl (touches_close server _) known (own.carried ?_), rfl⟩
    exact {
      client := by simp
      server := by simp
      fds := fun fd => setFd_fds_free p (by simp [Flow.Ending, Pc.looping]) fd
      ending := fun _ => Or.inl (by simp [Pc.looping])
      running := fun _ => running
      early := fun _ => by simp [at_]
      started := by simp
      relays := own.relays.kept rfl rfl (by simp [at_, Pc.held]) (by simp) }
  · have running : ¬ (p.flows i).Ended := by simp [Flow.Ended, at_]
    refine ⟨h.touched rfl (touches_close (own.client running) _) known (own.carried ?_), rfl⟩
    exact {
      client := by simp
      server := by simp
      fds := fun fd => setFd_fds_free p (by simp [Flow.Ending, Pc.looping]) fd
      ending := fun _ => Or.inl (by simp [Pc.looping])
      running := fun _ => running
      early := fun _ => by simp [at_]
      started := by simp
      relays := own.relays.kept rfl rfl (by simp [at_, Pc.held]) (by simp) }
  · refine ⟨h.touched rfl (touches_setFlow p i _) known (own.carried ?_), rfl⟩
    exact {
      client := by simp
      server := by simp
      fds := fun _ => Or.inl rfl
      ending := fun _ => Or.inl (by simp [Pc.looping])
      running := fun _ => by simp [Flow.Ended, at_]
      early := fun _ => by simp [at_]
      started := by simp
      relays := own.relays.kept rfl rfl (by simp [at_, Pc.held]) (by simp) }
  · have running : ¬ (p.flows i).Ended := by
      rintro ⟨ended, -⟩
      simp [ended, Pc.copying] at busy
    have late : (p.flows i).sender ≠ .delay := by
      intro early
      simp [early, Pc.copying] at busy
    have looping : (p.flows i).sender.looping = true := by
      cases at_ : (p.flows i).sender <;> simp_all [Pc.copying, Pc.looping]
    have moves := copyStep_moves ((own.client running).imp_right And.right) ((own.server running late).imp_right And.right)
      copied
    have next := copyStep_late busy copied
    refine ⟨h.touched moves.nFlows (touches_moves moves _) known (own.carried ?_), moves.nFlows⟩
    exact {
      client := by simp
      server := by simp
      fds := fun fd => Or.inl (congrFun moves.fds fd)
      ending := fun ending => by
        rcases ending with over_ | receives
        · rw [looping] at over_
          cases over_
        · exact Or.inr (by simpa using receives)
      running := fun _ => running
      early := fun _ => late
      started := fun _ => by simpa using ⟨next.1, next.2.1⟩
      relays := own.relays.copied moves rfl rfl rfl }

/-- A step of the receiver keeps what holds of all flows. -/
theorem receiverStep_sound {fragSize : Nat} {r : Reply} (h : Sound sent p) (known : i < p.nFlows)
    (done : receiverStep fragSize p i r = .ok p') : Sound sent p' ∧ p'.nFlows = p.nFlows := by
  have own := h.flows i known
  rcases receiverStep_cases done with rfl | ⟨at_, rfl⟩ | ⟨at_, rfl⟩ | ⟨pc, v, pc', at_, busy, copied, rfl⟩
  · exact ⟨h, rfl⟩
  · have running : ¬ (p.flows i).Ended := by simp [Flow.Ended, at_]
    have late := own.started (by simp [at_])
    refine ⟨h.touched rfl (touches_close (own.server running late.1) _) known (own.carried ?_), rfl⟩
    exact {
      client := by simp
      server := by simp
      fds := fun fd => setFd_fds_free p (Or.inr ⟨.closeClient, rfl, rfl⟩) fd
      ending := fun _ => Or.inr ⟨.closeClient, by simp, rfl⟩
      running := fun _ => running
      early := fun _ => late.1
      started := fun _ => by simpa using late
      relays := own.relays.kept rfl rfl (by simp) (by simp [at_, Pc.held]) }
  · have running : ¬ (p.flows i).Ended := by simp [Flow.Ended, at_]
    have late := own.started (by simp [at_])
    refine ⟨h.touched rfl (touches_close (own.client running) _) known (own.carried ?_), rfl⟩
    exact {
      client := by simp
      server := by simp
      fds := fun fd => setFd_fds_free p (Or.inr ⟨.done, rfl, rfl⟩) fd
      ending := fun _ => Or.inr ⟨.done, by simp, rfl⟩
      running := fun _ => running
      early := fun _ => late.1
      started := fun _ => by simpa using late
      relays := own.relays.kept rfl rfl (by simp) (by simp [at_, Pc.held]) }
  · have running : ¬ (p.flows i).Ended := by
      rintro ⟨-, none | ended⟩
      · rw [at_] at none
        cases none
      · rw [at_] at ended
        cases ended
        cases busy
    have late := own.started (by simp [at_])
    have looping : pc.looping = true := by
      cases pc <;> simp_all [Pc.copying, Pc.looping]
    have moves := @copyStep_moves fragSize false (p.flows i).fdServer (p.flows i).fdClient i .server p v pc pc' r
      ((own.server running late.1).imp_right And.right) ((own.client running).imp_right And.right) copied
    refine ⟨h.touched moves.nFlows (touches_moves moves _) known (own.carried ?_), moves.nFlows⟩
    exact {
      client := by simp
      server := by simp
      fds := fun fd => Or.inl (congrFun moves.fds fd)
      ending := fun ending => by
        rcases ending with sends | ⟨pc, same, over_⟩
        · exact Or.inl (by simpa using sends)
        · rw [at_] at same
          cases same
          rw [looping] at over_
          cases over_
      running := fun _ => running
      early := fun _ => late.1
      started := fun _ => by simpa using late
      relays := own.relays.returned moves (by simp [at_]) rfl rfl }

/-- A new client gets a flow of its own. -/
theorem acceptFlow_sound {r : Reply} (h : Sound sent p) (bounded : p.nFlows ≤ maxFlows) (calm : Calm p)
    (done : acceptFlow p r = .ok p') : Sound sent p' ∧ p'.nFlows ≤ maxFlows := by
  simp only [acceptFlow] at done
  split at done
  · cases done
  split at done
  · cases done
    exact ⟨h, bounded⟩
  rename_i free
  have free := not_not.mp free
  split at done
  · rename_i room
    cases done
    refine ⟨⟨fun j inside => ?_, fun j beyond => ?_⟩, room⟩
    · by_cases here : j = p.nFlows
      · subst here
        obtain ⟨unread, written⟩ := h.unused p.nFlows le_rfl
        refine ⟨fun _ => Or.inl ?_, fun _ late => ?_, fun some => ?_, ?_⟩
        · simp [setFlow, setFd]
        · simp [setFlow] at late
        · simp [setFlow] at some
        · refine ⟨?_, ?_⟩
          · simp [setFlow, setFd, unread, written, Pc.held]
          · simp [setFlow, setFd, unread, written]
      · have older : j < p.nFlows := by
          have inside : j < p.nFlows + 1 := inside
          omega
        refine (h.flows j older).touched (i := p.nFlows) ?_ here older
        refine ⟨fun j other => by simp [setFlow, setFd, other], fun _ _ => rfl, fun _ _ => rfl, fun fd => ?_⟩
        by_cases same : fd = r.fd
        · subst same
          exact Or.inr (Or.inr ⟨free, calm⟩)
        · left
          simp [setFlow, setFd, same]
    · have beyond : p.nFlows + 1 ≤ j := beyond
      exact h.unused j (by omega)
  · cases done

theorem step_sound {fragSize : Nat} {a : Action} (h : Sound sent p) (bounded : p.nFlows ≤ maxFlows)
    (spaced : Spaced p a) (done : step fragSize p a = .ok p') : Sound sent p' ∧ p'.nFlows ≤ maxFlows := by
  cases a with
  | accept r => exact acceptFlow_sound h bounded spaced done
  | sender i r =>
    simp only [step] at done
    split at done
    · rename_i known
      obtain ⟨sound, same⟩ := senderStep_sound h known (spaced known) done
      exact ⟨sound, same ▸ bounded⟩
    · cases done
      exact ⟨h, bounded⟩
  | receiver i r =>
    simp only [step] at done
    split at done
    · rename_i known
      obtain ⟨sound, same⟩ := receiverStep_sound h known done
      exact ⟨sound, same ▸ bounded⟩
    · cases done
      exact ⟨h, bounded⟩

theorem sound_start (open_ : Nat → Bool) (sent : Nat → Side → List UInt8) : Sound sent (start open_ sent) :=
  ⟨fun _ inside => absurd inside (Nat.not_lt_zero _), fun _ _ => ⟨rfl, rfl⟩⟩

end Steps

/-! ## Runs -/

instance (f : Flow) : Decidable f.Ended :=
  inferInstanceAs (Decidable (_ ∧ _))

instance (f : Flow) : Decidable f.Ending :=
  decidable_of_iff (f.sender.looping = false ∨ f.receiver.any (fun pc => !pc.looping) = true) (by
    rw [Flow.Ending]
    cases f.receiver <;> simp)

instance (p : State) : Decidable (Calm p) :=
  inferInstanceAs (Decidable (∀ i < p.nFlows, (p.flows i).Ending → (p.flows i).Ended))

instance (p : State) (a : Action) : Decidable (Spaced p a) :=
  match a with
  | .accept _ => inferInstanceAs (Decidable (Calm p))
  | .sender i _ => inferInstanceAs (Decidable (i < p.nFlows → (p.flows i).sender = .delay → Calm p))
  | .receiver _ _ => .isTrue trivial

/-- Every step of the run that takes a descriptor comes when no flow is on its way out. -/
def SpacedRun (fragSize : Nat) (p : State) : List Action → Bool
  | [] => true
  | a :: rest =>
    decide (Spaced p a) &&
      match step fragSize p a with
      | .error _ => true
      | .ok p => SpacedRun fragSize p rest

theorem run_sound {fragSize : Nat} {sent : Nat → Side → List UInt8} {actions : List Action} {p p' : State}
    (h : Sound sent p) (bounded : p.nFlows ≤ maxFlows) (spaced : SpacedRun fragSize p actions = true)
    (ran : run fragSize p actions = .ok p') : Sound sent p' ∧ p'.nFlows ≤ maxFlows := by
  induction actions generalizing p with
  | nil =>
    cases ran
    exact ⟨h, bounded⟩
  | cons a rest ih =>
    rw [SpacedRun, Bool.and_eq_true, decide_eq_true_eq] at spaced
    simp only [run] at ran
    split at ran
    · cases ran
    · rename_i mid stepped
      obtain ⟨sound, bound⟩ := step_sound h bounded spaced.1 stepped
      rw [stepped] at spaced
      exact ih sound bound spaced.2 ran

/-- What a flow has read from one side and not yet written to the other. -/
def holding (p : State) (i : Nat) : Side → List UInt8
  | .client => (p.flows i).sender.held
  | .server => (p.flows i).receiver.elim [] Pc.held

/-- Whatever the order of the threads, each flow passes on the bytes of its own client and of
its own server, in order and without loss. -/
theorem relayed_in_order {fragSize : Nat} {open_ : Nat → Bool} {sent : Nat → Side → List UInt8}
    {actions : List Action} {p : State} (spaced : SpacedRun fragSize (start open_ sent) actions = true)
    (ran : run fragSize (start open_ sent) actions = .ok p) :
    p.nFlows ≤ maxFlows ∧
      (∀ i < p.nFlows, ∀ side, p.written i side.other ++ holding p i side ++ p.unread i side = sent i side) ∧
      ∀ i ≥ p.nFlows, ∀ side, p.unread i side = sent i side ∧ p.written i side = [] := by
  obtain ⟨sound, bounded⟩ := run_sound (sound_start open_ sent) (Nat.zero_le _) spaced ran
  refine ⟨bounded, fun i known side => ?_, fun i beyond side => ?_⟩
  · cases side with
    | client => exact (sound.flows i known).relays.forth
    | server => exact (sound.flows i known).relays.back
  · obtain ⟨unread, written⟩ := sound.unused i beyond
    exact ⟨by rw [unread], by rw [written]⟩

/-- The clients send 1, 2, 3 and 9, and the servers 5. -/
def twoPeers (i : Nat) : Side → List UInt8
  | .client => if i = 0 then [1, 2, 3] else if i = 1 then [9] else []
  | .server => [5]

def fourOpen (fd : Nat) : Bool := fd < 4

def reply (n fd : Nat) : Reply := ⟨false, n, fd⟩

/-- The first flow has ended when the second one takes its descriptors. -/
def twoFlows : List Action :=
  [.accept (reply 0 4), .sender 0 (reply 0 5), .sender 0 (reply 0 0), .sender 0 (reply 1 0), .sender 0 (reply 0 0),
    .receiver 0 (reply 1 0), .sender 0 (reply 1 0), .receiver 0 (reply 9 0), .sender 0 (reply 4 0),
    .sender 0 (reply 9 0), .sender 0 (reply 0 0), .sender 0 (reply 4 0), .sender 0 (reply 9 0), .receiver 0 (reply 9 0),
    .receiver 0 (reply 0 0), .receiver 0 (reply 0 0), .sender 0 (reply 9 0), .sender 0 (reply 0 0),
    .sender 0 (reply 0 0), .sender 0 (reply 0 0),
    .accept (reply 0 4), .sender 1 (reply 0 5), .sender 1 (reply 0 0), .sender 1 (reply 4 0), .sender 1 (reply 0 0),
    .sender 1 (reply 4 0)]

theorem relayed_in_order_two : ∃ p, run 2 (start fourOpen twoPeers) twoFlows = .ok p ∧ p.nFlows ≤ maxFlows ∧
    (∀ i < p.nFlows, ∀ side, p.written i side.other ++ holding p i side ++ p.unread i side = twoPeers i side) ∧
    ∀ i ≥ p.nFlows, ∀ side, p.unread i side = twoPeers i side ∧ p.written i side = [] :=
  ⟨_, rfl, @relayed_in_order 2 fourOpen twoPeers twoFlows _ (by decide) rfl⟩

/-- While the first flow is on its way out, the second one gets the descriptors that its receiver
has closed. -/
def tooEarly : List Action :=
  [.accept (reply 0 4), .sender 0 (reply 0 5), .sender 0 (reply 0 0), .sender 0 (reply 9 0),
    .receiver 0 ⟨true, 0, 0⟩, .receiver 0 (reply 0 0), .receiver 0 (reply 0 0),
    .accept (reply 0 4), .sender 1 (reply 0 5), .sender 0 (reply 0 0), .sender 0 (reply 9 0)]

-- the bytes of the first client go to the server of the second
example : (run 2 (start fourOpen twoPeers) tooEarly).map (fun p => (p.written 0 .server, p.written 1 .server)) =
    .ok ([], [1, 2]) := by
  rfl

end Proxy
