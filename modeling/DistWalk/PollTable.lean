import DistWalk.PollAgreement

/-!
# The descriptors that a worker watches

Each worker keeps its interests in one of the three back-ends. As long as it adds
descriptors for reading and deletes them, every back-end is a map from descriptors to aux
values, apart from the room in the tables of `select()` and `poll()`.
-/

namespace PollTable

open KeyedTable PollBackends PollAgreement

/-- `dw_poll_type_t`. -/
inductive PollType
  | select
  | poll
  | epoll
  deriving DecidableEq, Repr

inductive DwPoll
  | select (t : SelectFds)
  | poll (t : PollFds)
  | epoll (t : EpollFds)

def dwPollInit : PollType → DwPoll
  | .select => .select .init
  | .poll => .poll .init
  | .epoll => .epoll .init

def dwPollAdd (p : DwPoll) (fd : Nat) (flags : PollFlags) (aux : Nat) : DwPoll × Int :=
  match p with
  | .select t => (.select (selectAdd t fd flags aux).1, (selectAdd t fd flags aux).2)
  | .poll t => (.poll (pollAdd t fd flags aux).1, (pollAdd t fd flags aux).2)
  | .epoll t => (.epoll (epollAdd t fd flags aux).1, (epollAdd t fd flags aux).2)

def dwPollMod (p : DwPoll) (fd : Nat) (flags : PollFlags) (aux : Nat) : DwPoll × Int :=
  match p with
  | .select t => (.select (selectMod t fd flags aux).1, (selectMod t fd flags aux).2)
  | .poll t => (.poll (pollMod t fd flags aux).1, (pollMod t fd flags aux).2)
  | .epoll t => (.epoll (epollMod t fd flags aux).1, (epollMod t fd flags aux).2)

def dwPollDel (p : DwPoll) (fd : Nat) : DwPoll × Int := dwPollMod p fd .zero 0

/-- DW_POLLIN. -/
def dwPollIn : PollFlags := ⟨true, false, false, false, false⟩

/-- The aux value that comes with `fd` when it can be read from. -/
def DwPoll.watches : DwPoll → Nat → Option Nat
  | .select t, fd => (selectArmed t fd).1
  | .poll t, fd => (pollArmed t fd).1
  | .epoll t, fd => (epollArmed t fd).1

/-- Every registered descriptor is watched for reading. -/
def DwPoll.Plain : DwPoll → Prop
  | .select t => Keyed (·.fd) t.rd ∧ t.wr = []
  | .poll t => Keyed (·.fd) t.fds ∧ ∀ fd item, pollView t fd = some item → item.evIn = true
  | .epoll t => ∀ fd item, t.items fd = some item → item.evIn = true

/-- There is no room for another descriptor. -/
def DwPoll.Full : DwPoll → Prop
  | .select t => t.rd.length = maxPollFd
  | .poll t => t.fds.length = maxPollFd
  | .epoll _ => False

theorem plain_init (type : PollType) : (dwPollInit type).Plain ∧ ∀ fd, (dwPollInit type).watches fd = none := by
  cases type with
  | select => exact ⟨⟨List.nodup_nil, rfl⟩, fun _ => rfl⟩
  | poll => exact ⟨⟨List.nodup_nil, fun _ _ => nofun⟩, fun _ => rfl⟩
  | epoll => exact ⟨fun _ _ => nofun, fun _ => rfl⟩

theorem selectArmed_sideView (t : SelectFds) (fd : Nat) : (selectArmed t fd).1 = (sideView t.rd fd).map Prod.snd := by
  simp only [selectArmed, sideView, Option.map_map]
  rfl

theorem pollArmed_pollView (t : PollFds) (fd : Nat) :
    (pollArmed t fd).1 = (pollView t fd).bind fun item => if item.evIn then some item.data else none := by
  simp only [pollArmed, pollView]
  cases lookup (·.fd) t.fds fd with
  | none => rfl
  | some e => rfl

theorem epollArmed_items (t : EpollFds) (fd : Nat) :
    (epollArmed t fd).1 = (t.items fd).bind fun item => if item.evIn then some item.data else none := by
  simp only [epollArmed]
  cases t.items fd with
  | none => rfl
  | some item => rfl

/-- Where nothing is read from nothing is registered. -/
theorem unwatched {view : Option EpollItem} (plain : ∀ item, view = some item → item.evIn = true)
    (free : (view.bind fun item => if item.evIn then some item.data else none) = none) : view = none := by
  cases view with
  | none => rfl
  | some item => simp [plain item rfl] at free

section Calls

variable {p : DwPoll} {fd : Nat}

/-- A new descriptor is watched unless the table is full. -/
theorem dwPollAdd_spec (plain : p.Plain) (free : p.watches fd = none) (aux : Nat) :
    (dwPollAdd p fd dwPollIn aux).1.Plain ∧
      ((dwPollAdd p fd dwPollIn aux).2 = 0 ∧
          (∀ k, (dwPollAdd p fd dwPollIn aux).1.watches k = if k = fd then some aux else p.watches k) ∨
        (dwPollAdd p fd dwPollIn aux).2 ≠ 0 ∧ (dwPollAdd p fd dwPollIn aux).1 = p ∧ p.Full) := by
  cases p with
  | select t =>
    obtain ⟨keyed, noWr⟩ := plain
    by_cases full : t.rd.length = maxPollFd
    · have same : selectAdd t fd dwPollIn aux = (t, -1) := by
        simp [selectAdd, dwPollIn, full]
      simp only [dwPollAdd, same]
      exact ⟨⟨keyed, noWr⟩, Or.inr ⟨by decide, trivial, full⟩⟩
    · have grown : selectAdd t fd dwPollIn aux = ({ t with rd := t.rd ++ [⟨fd, dwPollIn, aux⟩] }, 0) := by
        simp [selectAdd, dwPollIn, full, dwSelectAddRd]
      have missing : sideView t.rd fd = none := by
        simpa [DwPoll.watches, selectArmed_sideView] using free
      obtain ⟨keyed', view⟩ := sideView_append keyed missing dwPollIn aux
      simp only [dwPollAdd, grown]
      refine ⟨⟨keyed', noWr⟩, Or.inl ⟨trivial, fun k => ?_⟩⟩
      simp only [DwPoll.watches, selectArmed_sideView, view k]
      split <;> rfl
  | poll t =>
    obtain ⟨keyed, reads⟩ := plain
    by_cases full : t.fds.length = maxPollFd
    · have same : pollAdd t fd dwPollIn aux = (t, -1) := by simp [pollAdd, full]
      simp only [dwPollAdd, same]
      exact ⟨⟨keyed, reads⟩, Or.inr ⟨by decide, trivial, full⟩⟩
    · have missing : pollView t fd = none :=
        unwatched (reads fd) (by simpa only [DwPoll.watches, pollArmed_pollView] using free)
      let e : PollEntry := ⟨fd, true, false, 0, dwPollIn, aux⟩
      have grown : pollAdd t fd dwPollIn aux = ({ t with fds := t.fds ++ [e] }, 0) := by
        simp [pollAdd, full, dwPollIn, e]
      have fresh : lookup (·.fd) t.fds e.fd = none := by simpa [pollView] using missing
      have view : ∀ k, pollView { t with fds := t.fds ++ [e] } k =
          if k = fd then some ⟨true, false, false, aux⟩ else pollView t k := by
        intro k
        simp only [pollView, lookup_append keyed fresh, e, eq_comm]
        split <;> rfl
      simp only [dwPollAdd, grown]
      refine ⟨⟨keyed_append keyed fresh, fun k item here => ?_⟩, Or.inl ⟨trivial, fun k => ?_⟩⟩
      · rw [view k] at here
        split at here
        · cases here
          rfl
        · exact reads k item here
      · simp only [DwPoll.watches, pollArmed_pollView, view k]
        split <;> rfl
  | epoll t =>
    have missing : t.items fd = none :=
      unwatched (plain fd) (by simpa only [DwPoll.watches, epollArmed_items] using free)
    have grown : epollAdd t fd dwPollIn aux = (t.setItem fd (some ⟨true, false, false, aux⟩), 0) := by
      simp [epollAdd, missing, dwPollIn]
    simp only [dwPollAdd, grown]
    refine ⟨fun k item here => ?_, Or.inl ⟨trivial, fun k => ?_⟩⟩
    · rw [setItem_items] at here
      split at here
      · cases here
        rfl
      · exact plain k item here
    · simp only [DwPoll.watches, epollArmed_items, setItem_items]
      split <;> rfl

theorem dwPollDel_spec (plain : p.Plain) (fd : Nat) :
    (dwPollDel p fd).1.Plain ∧ ∀ k, (dwPollDel p fd).1.watches k = if k = fd then none else p.watches k := by
  cases p with
  | select t =>
    obtain ⟨keyed, noWr⟩ := plain
    obtain ⟨keyed', view⟩ := sideView_modSide keyed false fd .zero 0
    have others : selectModSide t.wr false fd .zero 0 = [] := by simp [noWr, selectModSide]
    refine ⟨⟨keyed', others⟩, fun k => ?_⟩
    simp only [dwPollDel, dwPollMod, selectMod, DwPoll.watches, selectArmed_sideView]
    rw [show PollFlags.zero.pollIn = false from rfl, view k]
    split <;> rfl
  | poll t =>
    obtain ⟨keyed, reads⟩ := plain
    obtain ⟨keyed', view⟩ := pollView_del keyed fd 0
    refine ⟨⟨keyed', fun k item here => ?_⟩, fun k => ?_⟩
    · rw [view k] at here
      split at here
      · cases here
      · exact reads k item here
    · simp only [dwPollDel, dwPollMod, DwPoll.watches, pollArmed_pollView, view k]
      split <;> rfl
  | epoll t =>
    have items : ∀ k, (epollMod t fd .zero 0).1.items k = if k = fd then none else t.items k := by
      intro k
      simp only [epollMod]
      cases here : t.items fd with
      | none =>
        by_cases own : k = fd
        · simp [own, here]
        · simp [own]
      | some item => exact setItem_items _ _ _ k
    refine ⟨fun k item here => ?_, fun k => ?_⟩
    · rw [items k] at here
      split at here
      · cases here
      · exact plain k item here
    · simp only [dwPollDel, dwPollMod, DwPoll.watches, epollArmed_items, items k]
      split <;> rfl

end Calls

end PollTable
