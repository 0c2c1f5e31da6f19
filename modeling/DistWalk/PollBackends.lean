import DistWalk.KeyedTable

/-!
# The poll back-ends

`dw_poll_t` keeps the interests of a worker in one of three ways: two tables for
`select()`, one for `poll()`, or the kernel's own for `epoll`. The tables are
lists in array order; a descriptor is a number. Of the kernel, epoll is
level-triggered, ADD and MOD set mask and data, and EPOLLONESHOT disarms after
one delivery.
-/

namespace PollBackends

open KeyedTable

def maxPollFd : Nat := 8192

/-- FD_SETSIZE. -/
def fdSetsize : Nat := 1024

/-- The bits of `dw_poll_flags`. -/
structure PollFlags where
  pollIn : Bool
  pollOut : Bool
  oneshot : Bool
  err : Bool
  hup : Bool
  deriving DecidableEq

def PollFlags.zero : PollFlags := ⟨false, false, false, false, false⟩

/-- `flags & (DW_POLLIN | DW_POLLOUT)`. -/
def PollFlags.directed (flags : PollFlags) : Bool := flags.pollIn || flags.pollOut

/-- `flags & ~DW_POLLONESHOT`. -/
def PollFlags.persistent (flags : PollFlags) : PollFlags := { flags with oneshot := false }

/-! ## select -/

/-- `fd_set`: one bit for each descriptor below FD_SETSIZE. -/
abbrev FdSet := BitVec fdSetsize

/-- FD_SET. A descriptor from FD_SETSIZE on has no bit: the macro writes behind the set,
where glibc does not end the process. -/
def fdSet (fd : Nat) (set : FdSet) : Option FdSet :=
  if fd < fdSetsize then some (set ||| BitVec.twoPow fdSetsize fd) else none

def fdIsset (fd : Nat) (set : FdSet) : Bool := set.getLsbD fd

structure SelectEntry where
  fd : Nat
  flags : PollFlags
  aux : Nat

/-- The two tables, the descriptor sets that `select()` returned and the position of
`dw_poll_next`. -/
structure SelectFds where
  rd : List SelectEntry
  wr : List SelectEntry
  rdFds : FdSet
  wrFds : FdSet
  iter : Nat

def SelectFds.init : SelectFds := ⟨[], [], 0, 0, 0⟩

def dwSelectAddRd (t : SelectFds) (fd : Nat) (flags : PollFlags) (aux : Nat) : SelectFds :=
  { t with rd := t.rd ++ [⟨fd, flags, aux⟩] }

def dwSelectAddWr (t : SelectFds) (fd : Nat) (flags : PollFlags) (aux : Nat) : SelectFds :=
  { t with wr := t.wr ++ [⟨fd, flags, aux⟩] }

def dwSelectDelRdPos (t : SelectFds) (i : Nat) : SelectFds := { t with rd := swapDelete t.rd i }

def dwSelectDelWrPos (t : SelectFds) (i : Nat) : SelectFds := { t with wr := swapDelete t.wr i }

def selectAdd (t : SelectFds) (fd : Nat) (flags : PollFlags) (aux : Nat) : SelectFds × Int :=
  if (flags.pollIn = true ∧ t.rd.length = maxPollFd) ∨
      (flags.pollOut = true ∧ t.wr.length = maxPollFd) then (t, -1)
  else
    let t := if flags.pollIn then dwSelectAddRd t fd flags aux else t
    let t := if flags.pollOut then dwSelectAddWr t fd flags aux else t
    (t, 0)

/-- What `dw_poll_mod` does to one of the two tables. -/
def selectModSide (l : List SelectEntry) (wanted : Bool) (fd : Nat) (flags : PollFlags)
    (aux : Nat) : List SelectEntry :=
  let i := position (·.fd) fd l
  if i < l.length ∧ wanted = false then swapDelete l i
  else if i = l.length ∧ wanted = true then l ++ [⟨fd, flags, aux⟩]
  else if i < l.length ∧ wanted = true then l.set i ⟨fd, flags.persistent, aux⟩
  else l

def selectMod (t : SelectFds) (fd : Nat) (flags : PollFlags) (aux : Nat) : SelectFds × Int :=
  ({ t with
      rd := selectModSide t.rd flags.pollIn fd flags aux
      wr := selectModSide t.wr flags.pollOut fd flags aux }, 0)

/-- The loop of FD_SET over one of the tables, from FD_ZERO. -/
def fdSets (l : List SelectEntry) : Option FdSet := l.foldlM (fun set e => fdSet e.fd set) 0

/-- `dw_poll_wait`: `select()` is asked for the descriptors of the tables and leaves those
of them that are ready; if it reports none nothing is iterated over. -/
def selectWait (t : SelectFds) (rv : Int) (rdReady wrReady : FdSet) : Option SelectFds := do
  let rdFds ← fdSets t.rd
  let wrFds ← fdSets t.wr
  some { t with
    rdFds := rdFds &&& rdReady
    wrFds := wrFds &&& wrReady
    iter := if rv > 0 then 0 else t.rd.length + t.wr.length }

/-- The loops that look for the next position whose descriptor is set. -/
def seek (isSet : Nat → Bool) (bound : Nat) : Nat → Nat → Nat
  | 0, i => i
  | fuel + 1, i => if i < bound ∧ isSet i = false then seek isSet bound fuel (i + 1) else i

def isSetAt (set : FdSet) (l : List SelectEntry) (i : Nat) : Bool :=
  (l[i]?).any fun e => fdIsset e.fd set

/-- `dw_poll_next` behind `dw_poll_wait`, which has given each descriptor a bit: the tables
after it, the flags and the aux value of the event. -/
def selectNext (t : SelectFds) : SelectFds × Option (PollFlags × Nat) :=
  let i := seek (isSetAt t.rdFds t.rd) t.rd.length (t.rd.length - t.iter) t.iter
  match t.rd[i]? with
  | some e =>
    let t := { t with iter := i }
    (if e.flags.oneshot then dwSelectDelRdPos t i else { t with iter := i + 1 },
      some (⟨true, false, false, false, false⟩, e.aux))
  | none =>
    let nRd := t.rd.length
    let j := seek (fun j => isSetAt t.wrFds t.wr (j - nRd)) (nRd + t.wr.length)
      (nRd + t.wr.length - i) i
    let t := { t with iter := j }
    match t.wr[j - nRd]? with
    | some e =>
      (if e.flags.oneshot then dwSelectDelWrPos t (j - nRd) else { t with iter := j + 1 },
        some (⟨false, true, false, false, false⟩, e.aux))
    | none => (t, none)

/-! ## poll -/

/-- A `struct pollfd` with the flags and the aux value beside it. `revents` may have bits
that `dw_poll_next` does not report, such as POLLNVAL. -/
structure PollEntry where
  fd : Nat
  evIn : Bool
  evOut : Bool
  revents : BitVec 16
  flags : PollFlags
  aux : Nat

structure PollFds where
  fds : List PollEntry
  iter : Nat

def PollFds.init : PollFds := ⟨[], 0⟩

def dwPollDelPos (t : PollFds) (i : Nat) : PollFds := { t with fds := swapDelete t.fds i }

def pollAdd (t : PollFds) (fd : Nat) (flags : PollFlags) (aux : Nat) : PollFds × Int :=
  if t.fds.length = maxPollFd then (t, -1)
  else ({ t with fds := t.fds ++ [⟨fd, flags.pollIn, flags.pollOut, 0, flags, aux⟩] }, 0)

/-- The position is compared with the number of descriptors only after a deletion
has made it smaller. -/
def pollMod (t : PollFds) (fd : Nat) (flags : PollFlags) (aux : Nat) : PollFds × Int :=
  let i := position (·.fd) fd t.fds
  let t' :=
    match t.fds[i]? with
    | some e =>
      if flags.directed = false then dwPollDelPos t i
      else
        { t with fds := t.fds.set i { e with
            evIn := flags.pollIn, evOut := flags.pollOut, flags := flags.persistent, aux := aux } }
    | none => t
  if i = t'.fds.length ∧ flags ≠ .zero then pollAdd t' fd flags aux else (t', 0)

/-- The bits of POLLIN, POLLOUT, POLLERR and POLLHUP. -/
def reventsFlags (revents : BitVec 16) : PollFlags :=
  ⟨revents &&& 0x001#16 ≠ 0, revents &&& 0x004#16 ≠ 0, false, revents &&& 0x008#16 ≠ 0, revents &&& 0x010#16 ≠ 0⟩

/-- `dw_poll_wait`: `poll()` fills in `revents`, and if it reports no descriptor nothing is
iterated over. -/
def pollWait (t : PollFds) (rv : Int) (revents : Nat → BitVec 16) : PollFds where
  fds := t.fds.mapIdx fun i e => { e with revents := revents i }
  iter := if rv > 0 then 0 else t.fds.length

def pollNext (t : PollFds) : PollFds × Option (PollFlags × Nat) :=
  let i := seek (fun i => (t.fds[i]?).any fun e => e.revents ≠ 0) t.fds.length
    (t.fds.length - t.iter) t.iter
  let t := { t with iter := i }
  match t.fds[i]? with
  | some e =>
    (if e.flags.oneshot then dwPollDelPos t i else { t with iter := i + 1 }, some (reventsFlags e.revents, e.aux))
  | none => (t, none)

/-! ## epoll -/

/-- What the kernel keeps of a registered descriptor. -/
structure EpollItem where
  evIn : Bool
  evOut : Bool
  oneshot : Bool
  data : Nat
  deriving DecidableEq

structure EpollFds where
  items : Nat → Option EpollItem

def EpollFds.init : EpollFds := ⟨fun _ => none⟩

def EpollFds.setItem (t : EpollFds) (fd : Nat) (item : Option EpollItem) : EpollFds :=
  ⟨Function.update t.items fd item⟩

def epollAdd (t : EpollFds) (fd : Nat) (flags : PollFlags) (aux : Nat) : EpollFds × Int :=
  match t.items fd with
  | some _ => (t, -1)
  | none => (t.setItem fd (some ⟨flags.pollIn, flags.pollOut, flags.oneshot, aux⟩), 0)

/-- EPOLL_CTL_MOD without EPOLLONESHOT, or EPOLL_CTL_DEL. -/
def epollMod (t : EpollFds) (fd : Nat) (flags : PollFlags) (aux : Nat) : EpollFds × Int :=
  match t.items fd with
  | none => (t, -1)
  | some _ =>
    if flags.directed then (t.setItem fd (some ⟨flags.pollIn, flags.pollOut, false, aux⟩), 0)
    else (t.setItem fd none, 0)

/-! ## One event

An event on a descriptor that is ready for reading, for writing or for both, as it
is after an error. In `select()` it comes back in two calls of `dw_poll_next`, one
for each table. -/

def selectDeliverSide (l : List SelectEntry) (fd : Nat) : List SelectEntry :=
  let i := position (·.fd) fd l
  match l[i]? with
  | some e => if e.flags.oneshot then swapDelete l i else l
  | none => l

def selectEvent (t : SelectFds) (fd : Nat) (readable writable : Bool) : SelectFds :=
  { t with
    rd := if readable then selectDeliverSide t.rd fd else t.rd
    wr := if writable then selectDeliverSide t.wr fd else t.wr }

/-- `dw_poll_wait` first gives every descriptor of the tables its bit. -/
def selectDeliver (t : SelectFds) (fd : Nat) (readable writable : Bool) : Option SelectFds := do
  let _ ← fdSets t.rd
  let _ ← fdSets t.wr
  some (selectEvent t fd readable writable)

def pollDeliver (t : PollFds) (fd : Nat) (readable writable : Bool) : PollFds :=
  let i := position (·.fd) fd t.fds
  match t.fds[i]? with
  | some e =>
    if ((e.evIn && readable) || (e.evOut && writable)) && e.flags.oneshot then dwPollDelPos t i else t
  | none => t

def epollDeliver (t : EpollFds) (fd : Nat) (readable writable : Bool) : EpollFds :=
  match t.items fd with
  | some item =>
    if ((item.evIn && readable) || (item.evOut && writable)) && item.oneshot then
      t.setItem fd (some { item with evIn := false, evOut := false })
    else t
  | none => t

end PollBackends
