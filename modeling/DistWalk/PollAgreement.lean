import DistWalk.PollBackends

/-!
# What the poll back-ends agree on

The interests that are armed in the three back-ends, over any sequence of calls.
They are the same as long as a one-shot interest is armed by `dw_poll_add` only,
an event on a one-shot descriptor that waits for both directions comes for
both, and every descriptor has a bit in the sets of `select()`.
-/

namespace PollAgreement

open KeyedTable PollBackends

/-! ## Tables in step -/

/-- The three back-ends, kept by the same calls. -/
structure Tables where
  sel : SelectFds
  pol : PollFds
  epo : EpollFds

def Tables.init : Tables := ⟨.init, .init, .init⟩

inductive Op
  | add (fd : Nat) (flags : PollFlags) (aux : Nat)
  | mod (fd : Nat) (flags : PollFlags) (aux : Nat)
  | del (fd : Nat)
  | deliver (fd : Nat) (readable writable : Bool)

def Tables.add (t : Tables) (fd : Nat) (flags : PollFlags) (aux : Nat) : Tables :=
  ⟨(selectAdd t.sel fd flags aux).1, (pollAdd t.pol fd flags aux).1, (epollAdd t.epo fd flags aux).1⟩

def Tables.mod (t : Tables) (fd : Nat) (flags : PollFlags) (aux : Nat) : Tables :=
  ⟨(selectMod t.sel fd flags aux).1, (pollMod t.pol fd flags aux).1, (epollMod t.epo fd flags aux).1⟩

/-- What the events leave, `sel` being what they leave in `select()`. -/
def Tables.deliver (t : Tables) (sel : SelectFds) (fd : Nat) (readable writable : Bool) : Tables :=
  ⟨sel, pollDeliver t.pol fd readable writable, epollDeliver t.epo fd readable writable⟩

/-- `dw_poll_del` is `dw_poll_mod` without flags. -/
def apply (t : Tables) : Op → Option Tables
  | .add fd flags aux => some (t.add fd flags aux)
  | .mod fd flags aux => some (t.mod fd flags aux)
  | .del fd => some (t.mod fd .zero 0)
  | .deliver fd readable writable => do
    let sel ← selectDeliver t.sel fd readable writable
    some (t.deliver sel fd readable writable)

/-- The aux values bound to the interests in IN and in OUT that are armed. -/
def selectArmed (t : SelectFds) (fd : Nat) : Option Nat × Option Nat :=
  ((lookup (·.fd) t.rd fd).map (·.aux), (lookup (·.fd) t.wr fd).map (·.aux))

def pollArmed (t : PollFds) (fd : Nat) : Option Nat × Option Nat :=
  match lookup (·.fd) t.fds fd with
  | some e => (if e.evIn then some e.aux else none, if e.evOut then some e.aux else none)
  | none => (none, none)

def epollArmed (t : EpollFds) (fd : Nat) : Option Nat × Option Nat :=
  match t.items fd with
  | some item => (if item.evIn then some item.data else none, if item.evOut then some item.data else none)
  | none => (none, none)

/-- The same interests are armed, with the same aux values. -/
def Agree (t : Tables) : Prop :=
  ∀ fd, selectArmed t.sel fd = epollArmed t.epo fd ∧ pollArmed t.pol fd = epollArmed t.epo fd

/-- There is room for one more entry in each table. -/
def Room (t : Tables) : Prop :=
  t.sel.rd.length < maxPollFd ∧ t.sel.wr.length < maxPollFd ∧ t.pol.fds.length < maxPollFd

instance (t : Tables) : Decidable (Room t) := inferInstanceAs (Decidable (_ ∧ _ ∧ _))

/-- What a caller keeps to: a descriptor is added when it is not registered, and the
tables have room. -/
def Allowed (t : Tables) : Op → Prop
  | .add fd _ _ => t.epo.items fd = none ∧ Room t
  | .mod _ _ _ => Room t
  | _ => True

/-- Where the back-ends do the same: a descriptor is below FD_SETSIZE; `dw_poll_mod`
changes a registered descriptor, and with DW_POLLONESHOT it asks only for directions that
are armed; an event on a one-shot descriptor armed for both directions comes for both. -/
def Uniform (t : Tables) : Op → Prop
  | .add fd _ _ => fd < fdSetsize
  | .mod fd flags _ =>
    if flags.directed then
      ∃ item, t.epo.items fd = some item ∧
        (flags.oneshot = true → (flags.pollIn = true → item.evIn = true) ∧
          (flags.pollOut = true → item.evOut = true))
    else flags = .zero
  | .deliver fd readable writable =>
    ∀ item, t.epo.items fd = some item → item.oneshot = true → item.evIn = true → item.evOut = true →
      readable = writable
  | _ => True

/-- The tables after any sequence of calls and events. -/
inductive Reached (ok : Tables → Op → Prop) : Tables → Prop
  | init : Reached ok .init
  | step {t t' : Tables} {op : Op} (before : Reached ok t) (fine : ok t op) (goes : apply t op = some t') :
    Reached ok t'

/-! ## The sets of `select()` -/

theorem fdSets_from (l : List SelectEntry) (set : FdSet) :
    ((∀ e ∈ l, e.fd < fdSetsize) → ∃ set', l.foldlM (fun set e => fdSet e.fd set) set = some set') ∧
    ∀ set', l.foldlM (fun set e => fdSet e.fd set) set = some set' →
      (∀ e ∈ l, e.fd < fdSetsize) ∧
        ∀ fd, fdIsset fd set' = true ↔ fdIsset fd set = true ∨ ∃ e ∈ l, e.fd = fd := by
  induction l generalizing set with
  | nil => exact ⟨fun _ => ⟨set, rfl⟩, by simp⟩
  | cons e l ih =>
    rw [List.foldlM_cons, fdSet]
    by_cases bit : e.fd < fdSetsize
    · obtain ⟨goes, found⟩ := ih (set ||| BitVec.twoPow fdSetsize e.fd)
      rw [if_pos bit, Option.bind_eq_bind, Option.bind_some]
      refine ⟨fun all => goes fun x mem => all x (List.mem_cons_of_mem e mem), fun set' same => ?_⟩
      obtain ⟨inside, bits⟩ := found set' same
      refine ⟨List.forall_mem_cons.mpr ⟨bit, inside⟩, fun fd => ?_⟩
      have added : fdIsset fd (set ||| BitVec.twoPow fdSetsize e.fd) = true ↔
          fdIsset fd set = true ∨ e.fd = fd := by
        simp only [fdIsset, BitVec.getLsbD_or, BitVec.getLsbD_twoPow, bit, decide_true, Bool.true_and,
          Bool.or_eq_true, decide_eq_true_eq]
      rw [bits fd, added, List.exists_mem_cons_iff, or_assoc]
    · rw [if_neg bit]
      refine ⟨fun all => absurd (all e List.mem_cons_self) bit, fun set' same => ?_⟩
      cases same

theorem fdSets_eq_some {l : List SelectEntry} : (∃ set, fdSets l = some set) ↔ ∀ e ∈ l, e.fd < fdSetsize :=
  ⟨fun ⟨set, same⟩ => ((fdSets_from l 0).2 set same).1, (fdSets_from l 0).1⟩

/-- The set has the bits of the table's descriptors. -/
theorem fdIsset_fdSets {l : List SelectEntry} {set : FdSet} (same : fdSets l = some set) (fd : Nat) :
    fdIsset fd set = true ↔ ∃ e ∈ l, e.fd = fd := by
  rw [((fdSets_from l 0).2 set same).2 fd]
  simp [fdIsset]

/-- All descriptors of the tables have a bit. -/
def InSets (t : SelectFds) : Prop := (∀ e ∈ t.rd, e.fd < fdSetsize) ∧ ∀ e ∈ t.wr, e.fd < fdSetsize

theorem selectDeliver_cases (t : SelectFds) (fd : Nat) (readable writable : Bool) :
    (InSets t ∧ selectDeliver t fd readable writable = some (selectEvent t fd readable writable)) ∨
    ¬ InSets t ∧ selectDeliver t fd readable writable = none := by
  rw [InSets, ← fdSets_eq_some, ← fdSets_eq_some, selectDeliver]
  cases fdSets t.rd with
  | none => exact Or.inr ⟨by simp, rfl⟩
  | some rd =>
    cases fdSets t.wr with
    | none => exact Or.inr ⟨by simp, rfl⟩
    | some wr => exact Or.inl ⟨⟨⟨rd, rfl⟩, ⟨wr, rfl⟩⟩, rfl⟩

/-! ## One table of `select()` -/

/-- What a table says of a descriptor: whether it is one-shot, and its aux value. -/
def sideView (l : List SelectEntry) (fd : Nat) : Option (Bool × Nat) :=
  (lookup (·.fd) l fd).map fun e => (e.flags.oneshot, e.aux)

theorem lookup_none_of_position {α : Type} {key : α → Nat} {l : List α} {k : Nat}
    (h : ¬ position key k l < l.length) : lookup key l k = none := by
  by_contra found
  exact h (position_lt.mpr found)

theorem sideView_modSide {l : List SelectEntry} (h : Keyed (·.fd) l) (wanted : Bool) (fd : Nat)
    (flags : PollFlags) (aux : Nat) :
    Keyed (·.fd) (selectModSide l wanted fd flags aux) ∧
      ∀ k, sideView (selectModSide l wanted fd flags aux) k =
        if k = fd then
          if wanted then some (if (sideView l fd).isSome then false else flags.oneshot, aux) else none
        else sideView l k := by
  by_cases present : position (·.fd) fd l < l.length
  · have own := key_position present
    have found := lookup_position h present
    cases wanted with
    | false =>
      rw [selectModSide, if_pos ⟨present, rfl⟩]
      refine ⟨keyed_swapDelete h present, fun k => ?_⟩
      rw [sideView, lookup_swapDelete h present, own]
      by_cases same : k = fd
      · simp [same]
      · simp [same, Ne.symm same, sideView]
    | true =>
      have changed : selectModSide l true fd flags aux =
          l.set (position (·.fd) fd l) ⟨fd, flags.persistent, aux⟩ := by
        simp [selectModSide, present, Nat.ne_of_lt present]
      rw [changed]
      refine ⟨keyed_set h present own.symm, fun k => ?_⟩
      rw [sideView, lookup_set h present own.symm]
      by_cases same : k = fd
      · simp [same, sideView, found, PollFlags.persistent]
      · simp [same, Ne.symm same, sideView]
  · have missing := lookup_none_of_position present
    have ends : position (·.fd) fd l = l.length := by
      have : position (·.fd) fd l ≤ l.length := position_le fd l
      omega
    cases wanted with
    | false =>
      have same : selectModSide l false fd flags aux = l := by simp [selectModSide, present]
      rw [same]
      refine ⟨h, fun k => ?_⟩
      by_cases own : k = fd
      · simp [own, sideView, missing]
      · simp [own]
    | true =>
      have grown : selectModSide l true fd flags aux = l ++ [⟨fd, flags, aux⟩] := by
        simp [selectModSide, ends]
      rw [grown]
      refine ⟨keyed_append h missing, fun k => ?_⟩
      rw [sideView, lookup_append h missing]
      by_cases same : k = fd
      · simp [same, sideView, missing]
      · simp [same, Ne.symm same, sideView]

theorem sideView_append {l : List SelectEntry} (h : Keyed (·.fd) l) {fd : Nat}
    (missing : sideView l fd = none) (flags : PollFlags) (aux : Nat) :
    Keyed (·.fd) (l ++ [⟨fd, flags, aux⟩]) ∧
      ∀ k, sideView (l ++ [⟨fd, flags, aux⟩]) k =
        if k = fd then some (flags.oneshot, aux) else sideView l k := by
  have missing : lookup (·.fd) l fd = none := by simpa [sideView] using missing
  refine ⟨keyed_append h missing, fun k => ?_⟩
  rw [sideView, lookup_append h missing]
  by_cases same : k = fd
  · simp [same]
  · simp [same, Ne.symm same, sideView]

theorem sideView_deliverSide {l : List SelectEntry} (h : Keyed (·.fd) l) (fd : Nat) :
    Keyed (·.fd) (selectDeliverSide l fd) ∧
      ∀ k, sideView (selectDeliverSide l fd) k =
        if k = fd then (sideView l fd).bind fun v => if v.1 then none else some v
        else sideView l k := by
  by_cases present : position (·.fd) fd l < l.length
  · have own := key_position present
    have found := lookup_position h present
    by_cases once : l[position (·.fd) fd l].flags.oneshot = true
    · have removed : selectDeliverSide l fd = swapDelete l (position (·.fd) fd l) := by
        simp [selectDeliverSide, present, once]
      rw [removed]
      refine ⟨keyed_swapDelete h present, fun k => ?_⟩
      rw [sideView, lookup_swapDelete h present, own]
      by_cases same : k = fd
      · simp [same, sideView, found, once]
      · simp [same, Ne.symm same, sideView]
    · have kept : selectDeliverSide l fd = l := by simp [selectDeliverSide, present, once]
      rw [kept]
      refine ⟨h, fun k => ?_⟩
      by_cases same : k = fd
      · simp [same, sideView, found, once]
      · simp [same]
  · have missing := lookup_none_of_position present
    have kept : selectDeliverSide l fd = l := by simp [selectDeliverSide, present]
    rw [kept]
    refine ⟨h, fun k => ?_⟩
    by_cases same : k = fd
    · simp [same, sideView, missing]
    · simp [same]

/-! ## The table of `poll()` -/

/-- A descriptor of `poll()`, as the kernel would keep it for epoll. -/
def pollItem (e : PollEntry) : EpollItem := ⟨e.evIn, e.evOut, e.flags.oneshot, e.aux⟩

def pollView (t : PollFds) (fd : Nat) : Option EpollItem := (lookup (·.fd) t.fds fd).map pollItem

theorem pollView_add {t : PollFds} (h : Keyed (·.fd) t.fds) {fd : Nat}
    (missing : pollView t fd = none) (room : t.fds.length < maxPollFd) (flags : PollFlags) (aux : Nat) :
    Keyed (·.fd) (pollAdd t fd flags aux).1.fds ∧
      ∀ k, pollView (pollAdd t fd flags aux).1 k =
        if k = fd then some ⟨flags.pollIn, flags.pollOut, flags.oneshot, aux⟩ else pollView t k := by
  have missing : lookup (·.fd) t.fds fd = none := by simpa [pollView] using missing
  rw [pollAdd, if_neg (Nat.ne_of_lt room)]
  refine ⟨keyed_append h missing, fun k => ?_⟩
  rw [pollView, lookup_append h missing]
  by_cases same : k = fd
  · simp [same, pollItem]
  · simp [same, Ne.symm same, pollView]

/-- An entry that is changed keeps no one-shot flag, a new one keeps that of the call. -/
theorem pollView_mod {t : PollFds} (h : Keyed (·.fd) t.fds) (fd : Nat)
    (room : t.fds.length < maxPollFd) {flags : PollFlags} (directed : flags.directed = true) (aux : Nat) :
    Keyed (·.fd) (pollMod t fd flags aux).1.fds ∧
      ∀ k, pollView (pollMod t fd flags aux).1 k =
        if k = fd then some ⟨flags.pollIn, flags.pollOut,
          if (pollView t fd).isSome then false else flags.oneshot, aux⟩
        else pollView t k := by
  have nonzero : flags ≠ .zero := by
    rintro rfl
    cases directed
  by_cases present : position (·.fd) fd t.fds < t.fds.length
  · have own := key_position present
    have found := lookup_position h present
    obtain ⟨e, he⟩ : ∃ e, t.fds[position (·.fd) fd t.fds] = e := ⟨_, rfl⟩
    rw [he] at own found
    have here : t.fds[position (·.fd) fd t.fds]? = some e := by
      rw [List.getElem?_eq_getElem present, he]
    have changed : (pollMod t fd flags aux).1.fds = t.fds.set (position (·.fd) fd t.fds)
        ⟨e.fd, flags.pollIn, flags.pollOut, e.revents, flags.persistent, aux⟩ := by
      simp [pollMod, here, directed, Nat.ne_of_lt present]
    have place : (⟨e.fd, flags.pollIn, flags.pollOut, e.revents, flags.persistent, aux⟩ :
        PollEntry).fd = t.fds[position (·.fd) fd t.fds].fd := by rw [he]
    refine ⟨changed ▸ keyed_set h present place, fun k => ?_⟩
    rw [pollView, changed, lookup_set h present place]
    by_cases same : k = fd
    · simp [same, own, pollView, found, pollItem, PollFlags.persistent]
    · simp [same, own, Ne.symm same, pollView]
  · have missing := lookup_none_of_position present
    have ends : position (·.fd) fd t.fds = t.fds.length := by
      have : position (·.fd) fd t.fds ≤ t.fds.length := position_le fd t.fds
      omega
    have grown : (pollMod t fd flags aux).1 = (pollAdd t fd flags aux).1 := by
      simp [pollMod, ends, nonzero]
    have view : pollView t fd = none := by rw [pollView, missing, Option.map_none]
    rw [grown]
    simpa [view] using pollView_add h view room flags aux

theorem pollView_del {t : PollFds} (h : Keyed (·.fd) t.fds) (fd aux : Nat) :
    Keyed (·.fd) (pollMod t fd .zero aux).1.fds ∧
      ∀ k, pollView (pollMod t fd .zero aux).1 k = if k = fd then none else pollView t k := by
  by_cases present : position (·.fd) fd t.fds < t.fds.length
  · have own := key_position present
    have removed : (pollMod t fd .zero aux).1.fds = swapDelete t.fds (position (·.fd) fd t.fds) := by
      simp [pollMod, present, PollFlags.zero, PollFlags.directed, dwPollDelPos]
    refine ⟨removed ▸ keyed_swapDelete h present, fun k => ?_⟩
    rw [pollView, removed, lookup_swapDelete h present, own]
    by_cases same : k = fd
    · simp [same]
    · simp [same, Ne.symm same, pollView]
  · have missing := lookup_none_of_position present
    have kept : (pollMod t fd .zero aux).1 = t := by simp [pollMod, present]
    rw [kept]
    refine ⟨h, fun k => ?_⟩
    by_cases same : k = fd
    · simp [same, pollView, missing]
    · simp [same]

/-- What an event leaves of a descriptor in `poll()`. -/
def afterEvent (item : EpollItem) (readable writable : Bool) : Option EpollItem :=
  if ((item.evIn && readable) || (item.evOut && writable)) && item.oneshot then none else some item

theorem pollView_deliver {t : PollFds} (h : Keyed (·.fd) t.fds) (fd : Nat) (readable writable : Bool) :
    Keyed (·.fd) (pollDeliver t fd readable writable).fds ∧
      ∀ k, pollView (pollDeliver t fd readable writable) k =
        if k = fd then (pollView t fd).bind fun item => afterEvent item readable writable
        else pollView t k := by
  by_cases present : position (·.fd) fd t.fds < t.fds.length
  · have own := key_position present
    have found := lookup_position h present
    obtain ⟨e, he⟩ : ∃ e, t.fds[position (·.fd) fd t.fds] = e := ⟨_, rfl⟩
    rw [he] at own found
    have here : t.fds[position (·.fd) fd t.fds]? = some e := by
      rw [List.getElem?_eq_getElem present, he]
    by_cases fires : (((e.evIn && readable) || (e.evOut && writable)) && e.flags.oneshot) = true
    · have removed : (pollDeliver t fd readable writable).fds =
          swapDelete t.fds (position (·.fd) fd t.fds) := by
        simp only [pollDeliver, here, fires, if_true, dwPollDelPos]
      refine ⟨removed ▸ keyed_swapDelete h present, fun k => ?_⟩
      rw [pollView, removed, lookup_swapDelete h present, he, own]
      by_cases same : k = fd
      · simp only [same, if_true, Option.map_none, pollView, found, Option.map_some, Option.bind_some,
          afterEvent, pollItem, fires]
      · simp [same, Ne.symm same, pollView]
    · have kept : pollDeliver t fd readable writable = t := by
        simp only [pollDeliver, here, fires, Bool.false_eq_true, if_false]
      rw [kept]
      refine ⟨h, fun k => ?_⟩
      by_cases same : k = fd
      · simp only [same, if_true, pollView, found, Option.map_some, Option.bind_some, afterEvent,
          pollItem, fires, Bool.false_eq_true, if_false]
      · simp [same]
  · have missing := lookup_none_of_position present
    have kept : pollDeliver t fd readable writable = t := by simp [pollDeliver, present]
    rw [kept]
    refine ⟨h, fun k => ?_⟩
    by_cases same : k = fd
    · simp [same, pollView, missing]
    · simp [same]

/-! ## Back-ends in step -/

/-- A direction of a descriptor that is armed in epoll. -/
def armedSide (direction : EpollItem → Bool) (item : Option EpollItem) : Option (Bool × Nat) :=
  item.bind fun it => if direction it then some (it.oneshot, it.data) else none

/-- A descriptor without an armed interest counts as absent. -/
def live (item : Option EpollItem) : Option EpollItem := item.filter fun it => it.evIn || it.evOut

/-- What the back-ends say of one descriptor: the entries of `select()`, the entry of
`poll()` and the item of epoll. -/
structure Matches (rd wr : Option (Bool × Nat)) (pol epo : Option EpollItem) : Prop where
  reads : rd = armedSide EpollItem.evIn epo
  writes : wr = armedSide EpollItem.evOut epo
  polls : live pol = live epo
  absent : epo = none → pol = none

structure InStep (t : Tables) : Prop where
  rdKeyed : Keyed (·.fd) t.sel.rd
  wrKeyed : Keyed (·.fd) t.sel.wr
  polKeyed : Keyed (·.fd) t.pol.fds
  same : ∀ fd, Matches (sideView t.sel.rd fd) (sideView t.sel.wr fd) (pollView t.pol fd)
    (t.epo.items fd)
  bits : ∀ fd item, t.epo.items fd = some item → fd < fdSetsize

/-- The entries of `select()` are of registered descriptors. -/
theorem InStep.inSets {t : Tables} (h : InStep t) : InSets t.sel := by
  have registered {l : List SelectEntry} {direction : EpollItem → Bool} (keyed : Keyed (·.fd) l)
      (views : ∀ fd, sideView l fd = armedSide direction (t.epo.items fd)) (e : SelectEntry) (mem : e ∈ l) :
      e.fd < fdSetsize := by
    have found := views e.fd
    rw [sideView, (lookup_eq_some keyed).mpr ⟨mem, rfl⟩] at found
    cases item : t.epo.items e.fd with
    | none => simp [item, armedSide] at found
    | some it => exact h.bits e.fd it item
  exact ⟨registered h.rdKeyed fun fd => (h.same fd).reads, registered h.wrKeyed fun fd => (h.same fd).writes⟩

/-- A call changes what the back-ends say of its own descriptor only. -/
theorem InStep.change {t t' : Tables} (h : InStep t) (fd : Nat) {rd wr : Option (Bool × Nat)}
    {pol epo : Option EpollItem}
    (inRd : Keyed (·.fd) t'.sel.rd ∧
      ∀ k, sideView t'.sel.rd k = if k = fd then rd else sideView t.sel.rd k)
    (inWr : Keyed (·.fd) t'.sel.wr ∧
      ∀ k, sideView t'.sel.wr k = if k = fd then wr else sideView t.sel.wr k)
    (inPol : Keyed (·.fd) t'.pol.fds ∧
      ∀ k, pollView t'.pol k = if k = fd then pol else pollView t.pol k)
    (inEpo : ∀ k, t'.epo.items k = if k = fd then epo else t.epo.items k)
    (point : Matches rd wr pol epo) (bit : ∀ item, epo = some item → fd < fdSetsize) : InStep t' := by
  refine ⟨inRd.1, inWr.1, inPol.1, fun k => ?_, fun k item here => ?_⟩
  · rw [inRd.2 k, inWr.2 k, inPol.2 k, inEpo k]
    by_cases own : k = fd
    · simpa only [if_pos own] using point
    · simpa only [if_neg own] using h.same k
  · rw [inEpo k] at here
    by_cases own : k = fd
    · rw [own]
      exact bit item (by rwa [if_pos own] at here)
    · rw [if_neg own] at here
      exact h.bits k item here

theorem setItem_items (t : EpollFds) (fd : Nat) (item : Option EpollItem) (k : Nat) :
    (t.setItem fd item).items k = if k = fd then item else t.items k := by
  simp only [EpollFds.setItem, Function.update_apply]

section Steps

variable {t : Tables}

theorem InStep.add (h : InStep t) {fd : Nat} (fresh : t.epo.items fd = none) (room : Room t)
    (bit : fd < fdSetsize) (flags : PollFlags) (aux : Nat) : InStep (t.add fd flags aux) := by
  have here := h.same fd
  rw [fresh] at here
  have noRd : sideView t.sel.rd fd = none := here.reads
  have noWr : sideView t.sel.wr fd = none := here.writes
  have sides : (selectAdd t.sel fd flags aux).1.rd =
        (if flags.pollIn then t.sel.rd ++ [⟨fd, flags, aux⟩] else t.sel.rd) ∧
      (selectAdd t.sel fd flags aux).1.wr =
        (if flags.pollOut then t.sel.wr ++ [⟨fd, flags, aux⟩] else t.sel.wr) := by
    have fits : ¬ ((flags.pollIn = true ∧ t.sel.rd.length = maxPollFd) ∨
        (flags.pollOut = true ∧ t.sel.wr.length = maxPollFd)) := by
      have := room.1
      have := room.2.1
      omega
    rw [selectAdd, if_neg fits]
    cases flags.pollIn <;> cases flags.pollOut <;> exact ⟨rfl, rfl⟩
  have side {l : List SelectEntry} (keyed : Keyed (·.fd) l) (no : sideView l fd = none) (wanted : Bool) :
      Keyed (·.fd) (if wanted then l ++ [⟨fd, flags, aux⟩] else l) ∧
        ∀ k, sideView (if wanted then l ++ [⟨fd, flags, aux⟩] else l) k =
          if k = fd then if wanted then some (flags.oneshot, aux) else none else sideView l k := by
    cases wanted with
    | true => exact sideView_append keyed no flags aux
    | false =>
      refine ⟨keyed, fun k => ?_⟩
      by_cases own : k = fd
      · simp [own, no]
      · simp [own]
  have inEpo : ∀ k, (epollAdd t.epo fd flags aux).1.items k =
      if k = fd then some ⟨flags.pollIn, flags.pollOut, flags.oneshot, aux⟩ else t.epo.items k := by
    intro k
    simp only [epollAdd, fresh]
    exact setItem_items _ _ _ k
  exact h.change fd (sides.1 ▸ side h.rdKeyed noRd _) (sides.2 ▸ side h.wrKeyed noWr _)
    (pollView_add h.polKeyed (here.absent rfl) room.2.2 flags aux) inEpo ⟨rfl, rfl, rfl, by simp⟩
    fun _ _ => bit

/-- A call that asks for nothing removes the descriptor. -/
theorem InStep.remove (h : InStep t) (fd aux : Nat) : InStep (t.mod fd .zero aux) := by
  have inEpo : ∀ k, (t.mod fd .zero aux).epo.items k =
      if k = fd then none else t.epo.items k := by
    intro k
    simp only [Tables.mod, epollMod]
    cases item : t.epo.items fd with
    | none =>
      by_cases own : k = fd
      · simp [own, item]
      · simp [own]
    | some it => exact setItem_items _ _ _ k
  exact h.change fd (sideView_modSide h.rdKeyed false fd .zero aux)
    (sideView_modSide h.wrKeyed false fd .zero aux) (pollView_del h.polKeyed fd aux) inEpo
    ⟨rfl, rfl, rfl, fun _ => rfl⟩ (by simp)

/-- A direction that is asked for ends without the one-shot flag, when it was armed or
the call has no such flag. -/
theorem armedSide_mod (direction : EpollItem → Bool) (it after : EpollItem) {wanted once : Bool}
    (asked : direction after = wanted) (plain : after.oneshot = false)
    (armed : once = true → wanted = true → direction it = true) :
    (if wanted then
      some (if (armedSide direction (some it)).isSome then false else once, after.data) else none) =
      armedSide direction (some after) := by
  cases wanted with
  | false => simp [armedSide, asked]
  | true =>
    cases once with
    | false => simp [armedSide, asked, plain]
    | true => simp [armedSide, asked, plain, armed rfl rfl]

theorem InStep.mod (h : InStep t) (room : Room t) {fd : Nat} {flags : PollFlags}
    (directed : flags.directed = true) (aux : Nat) {it : EpollItem} (item : t.epo.items fd = some it)
    (armed : flags.oneshot = true → (flags.pollIn = true → it.evIn = true) ∧
      (flags.pollOut = true → it.evOut = true)) : InStep (t.mod fd flags aux) := by
  have here := h.same fd
  rw [item] at here
  have inRd := sideView_modSide h.rdKeyed flags.pollIn fd flags aux
  have inWr := sideView_modSide h.wrKeyed flags.pollOut fd flags aux
  rw [here.reads] at inRd
  rw [here.writes] at inWr
  have inEpo : ∀ k, (t.mod fd flags aux).epo.items k =
      if k = fd then some ⟨flags.pollIn, flags.pollOut, false, aux⟩ else t.epo.items k := by
    intro k
    simp only [Tables.mod, epollMod, item, directed, if_true]
    exact setItem_items _ _ _ k
  -- with the one-shot flag some direction is armed, so `poll()` has an entry to change
  have plain : (if (pollView t.pol fd).isSome then false else flags.oneshot) = false := by
    cases once : flags.oneshot with
    | false => simp
    | true =>
      have asked := armed once
      have alive : live (some it) = some it := by
        simp only [PollFlags.directed, Bool.or_eq_true] at directed
        rcases directed with reading | writing
        · simp [live, asked.1 reading]
        · simp [live, asked.2 writing]
      have entry := here.polls
      rw [alive] at entry
      cases view : pollView t.pol fd with
      | none => simp [view, live] at entry
      | some e => simp
  have inPol := pollView_mod h.polKeyed fd room.2.2 directed aux
  rw [plain] at inPol
  refine h.change fd inRd inWr inPol inEpo ⟨?_, ?_, rfl, by simp⟩ fun _ _ => h.bits fd it item
  · exact armedSide_mod EpollItem.evIn it ⟨flags.pollIn, flags.pollOut, false, aux⟩ rfl rfl
      fun once => (armed once).1
  · exact armedSide_mod EpollItem.evOut it ⟨flags.pollIn, flags.pollOut, false, aux⟩ rfl rfl
      fun once => (armed once).2

/-- What an event leaves of one direction. -/
theorem armedSide_event (direction : EpollItem → Bool) (it : EpollItem) (ready : Bool) :
    (if ready then (armedSide direction (some it)).bind fun v => if v.1 then none else some v
      else armedSide direction (some it)) =
      if direction it && !(ready && it.oneshot) then some (it.oneshot, it.data) else none := by
  cases ready <;> cases armed : direction it <;> cases once : it.oneshot <;>
    simp [armedSide, armed, once]

/-- What an event leaves of a descriptor in epoll. -/
def disarmed (it : EpollItem) (readable writable : Bool) : EpollItem :=
  if ((it.evIn && readable) || (it.evOut && writable)) && it.oneshot then
    { it with evIn := false, evOut := false }
  else it

theorem live_armed {e : EpollItem} (h : (e.evIn || e.evOut) = true) : live (some e) = some e := by
  simp only [live, Option.filter, h, if_true]

theorem live_idle {e : EpollItem} (h : (e.evIn || e.evOut) = false) : live (some e) = none := by
  simp only [live, Option.filter, h, Bool.false_eq_true, if_false]

/-- An event takes away an armed descriptor in `poll()`, and none else. -/
theorem live_afterEvent (pol : Option EpollItem) (readable writable : Bool) :
    live (pol.bind fun e => afterEvent e readable writable) =
      (live pol).bind fun e => afterEvent e readable writable := by
  cases pol with
  | none => rfl
  | some e =>
    cases armed : e.evIn || e.evOut with
    | false =>
      have idle := Bool.or_eq_false_iff.mp armed
      rw [Option.bind_some, live_idle armed, Option.bind_none, afterEvent, idle.1, idle.2]
      exact live_idle armed
    | true =>
      rw [Option.bind_some, live_armed armed, Option.bind_some, afterEvent]
      split
      · rfl
      · exact live_armed armed

theorem live_disarmed (it : EpollItem) (readable writable : Bool) :
    live (some (disarmed it readable writable)) =
      (live (some it)).bind fun e => afterEvent e readable writable := by
  rw [← live_afterEvent, Option.bind_some, disarmed, afterEvent]
  split
  · rfl
  · rfl

theorem Matches.event {rd wr : Option (Bool × Nat)} {pol : Option EpollItem} {it : EpollItem}
    (h : Matches rd wr pol (some it)) {readable writable : Bool}
    (both : it.oneshot = true → it.evIn = true → it.evOut = true → readable = writable) :
    Matches (if readable then rd.bind fun v => if v.1 then none else some v else rd)
      (if writable then wr.bind fun v => if v.1 then none else some v else wr)
      (pol.bind fun item => afterEvent item readable writable) (some (disarmed it readable writable)) := by
  refine ⟨?_, ?_, ?_, by simp⟩
  · rw [h.reads, armedSide_event]
    obtain ⟨evIn, evOut, once, data⟩ := it
    cases evIn <;> cases evOut <;> cases once <;> cases readable <;> cases writable <;>
      simp_all [armedSide, disarmed]
  · rw [h.writes, armedSide_event]
    obtain ⟨evIn, evOut, once, data⟩ := it
    cases evIn <;> cases evOut <;> cases once <;> cases readable <;> cases writable <;>
      simp_all [armedSide, disarmed]
  · rw [live_afterEvent, live_disarmed, h.polls]

theorem InStep.deliver (h : InStep t) (fd : Nat) (readable writable : Bool)
    (both : ∀ item, t.epo.items fd = some item → item.oneshot = true → item.evIn = true →
      item.evOut = true → readable = writable) :
    InStep (t.deliver (selectEvent t.sel fd readable writable) fd readable writable) := by
  have side {l : List SelectEntry} (keyed : Keyed (·.fd) l) (ready : Bool) :
      Keyed (·.fd) (if ready then selectDeliverSide l fd else l) ∧
        ∀ k, sideView (if ready then selectDeliverSide l fd else l) k =
          if k = fd then
            if ready then (sideView l fd).bind fun v => if v.1 then none else some v else sideView l fd
          else sideView l k := by
    cases ready with
    | true => exact sideView_deliverSide keyed fd
    | false =>
      refine ⟨keyed, fun k => ?_⟩
      by_cases own : k = fd
      · simp [own]
      · simp [own]
  have inPol := pollView_deliver h.polKeyed fd readable writable
  have here := h.same fd
  cases item : t.epo.items fd with
  | none =>
    rw [item] at here
    have inEpo : ∀ k, (epollDeliver t.epo fd readable writable).items k =
        if k = fd then none else t.epo.items k := by
      intro k
      simp only [epollDeliver, item]
      by_cases own : k = fd
      · simp [own, item]
      · simp [own]
    refine h.change fd (side h.rdKeyed readable) (side h.wrKeyed writable) inPol inEpo ?_ ?_
    · rw [here.reads, here.writes, here.absent rfl]
      exact ⟨by simp [armedSide], by simp [armedSide], rfl, fun _ => rfl⟩
    · simp
  | some it =>
    rw [item] at here
    have inEpo : ∀ k, (epollDeliver t.epo fd readable writable).items k =
        if k = fd then some (disarmed it readable writable) else t.epo.items k := by
      intro k
      simp only [epollDeliver, item, disarmed]
      split
      · exact setItem_items _ _ _ k
      · by_cases own : k = fd
        · simp [own, item]
        · simp [own]
    exact h.change fd (side h.rdKeyed readable) (side h.wrKeyed writable) inPol inEpo
      (here.event (both it item)) fun _ _ => h.bits fd it item

/-- What `dw_poll_next` does to the tables is the delivery of the event it returns. -/
structure Delivered (t t' : SelectFds) (fd : Nat) (reading : Bool) : Prop where
  rd : t'.rd = (selectEvent t fd reading (!reading)).rd
  wr : t'.wr = (selectEvent t fd reading (!reading)).wr

theorem seek_stops (isSet : Nat → Bool) (bound fuel i : Nat) (enough : bound - i ≤ fuel)
    (inside : seek isSet bound fuel i < bound) : isSet (seek isSet bound fuel i) = true := by
  induction fuel generalizing i with
  | zero =>
    simp only [seek] at inside
    omega
  | succ fuel ih =>
    simp only [seek] at inside ⊢
    split at inside
    · rename_i passed
      rw [if_pos passed]
      exact ih (i + 1) (by omega) inside
    · rename_i stopped
      rw [if_neg stopped]
      have set := not_and.mp stopped inside
      simpa using set

theorem deliverSide_at {l : List SelectEntry} (h : Keyed (·.fd) l) {i : Nat} {e : SelectEntry}
    (he : l[i]? = some e) :
    selectDeliverSide l e.fd = if e.flags.oneshot then swapDelete l i else l := by
  obtain ⟨hi, rfl⟩ := List.getElem?_eq_some_iff.mp he
  have place := position_getElem h hi
  simp only [selectDeliverSide, place, he]

theorem selectNext_delivers {t t' : SelectFds} {flags : PollFlags} {aux : Nat}
    (rdKeyed : Keyed (·.fd) t.rd) (wrKeyed : Keyed (·.fd) t.wr)
    (h : selectNext t = (t', some (flags, aux))) :
    ∃ e : SelectEntry, e.aux = aux ∧ Delivered t t' e.fd flags.pollIn ∧
      ((flags.pollIn = true ∧ e ∈ t.rd ∧ fdIsset e.fd t.rdFds = true) ∨
        (flags.pollIn = false ∧ e ∈ t.wr ∧ fdIsset e.fd t.wrFds = true)) := by
  simp only [selectNext] at h
  cases reading : t.rd[seek (isSetAt t.rdFds t.rd) t.rd.length (t.rd.length - t.iter) t.iter]? with
  | some e =>
    simp only [reading, Prod.mk.injEq, Option.some.injEq] at h
    obtain ⟨rfl, rfl, rfl⟩ := h
    have inside := (List.getElem?_eq_some_iff.mp reading).1
    have set := seek_stops _ _ _ _ le_rfl inside
    refine ⟨e, rfl, ?_, Or.inl ⟨rfl, List.mem_of_getElem? reading, by simpa [isSetAt, reading] using set⟩⟩
    refine ⟨?_, ?_⟩
    · simp only [selectEvent, if_true, deliverSide_at rdKeyed reading]
      split <;> rfl
    · simp only [selectEvent, Bool.not_true, Bool.false_eq_true, if_false]
      split <;> rfl
  | none =>
    simp only [reading] at h
    -- all of the first table is passed, so the position is one of the second
    have beyond := List.getElem?_eq_none_iff.mp reading
    generalize seek (isSetAt t.rdFds t.rd) t.rd.length (t.rd.length - t.iter) t.iter = i at h beyond
    cases writing : t.wr[seek (fun j => isSetAt t.wrFds t.wr (j - t.rd.length))
        (t.rd.length + t.wr.length) (t.rd.length + t.wr.length - i) i - t.rd.length]? with
    | none => simp [writing] at h
    | some e =>
      simp only [writing, Prod.mk.injEq, Option.some.injEq] at h
      obtain ⟨rfl, rfl, rfl⟩ := h
      have inside := (List.getElem?_eq_some_iff.mp writing).1
      have set := seek_stops _ _ _ _ le_rfl (show seek (fun j => isSetAt t.wrFds t.wr (j - t.rd.length))
        (t.rd.length + t.wr.length) (t.rd.length + t.wr.length - i) i <
          t.rd.length + t.wr.length by omega)
      rw [isSetAt, writing] at set
      refine ⟨e, rfl, ?_, Or.inr ⟨rfl, List.mem_of_getElem? writing, set⟩⟩
      refine ⟨?_, ?_⟩
      · simp only [selectEvent, Bool.false_eq_true, if_false]
        split <;> rfl
      · simp only [selectEvent, Bool.not_false, if_true, deliverSide_at wrKeyed writing]
        split <;> rfl

/-- In `poll()` one call returns both directions. -/
theorem pollNext_delivers {t t' : PollFds} {flags : PollFlags} {aux : Nat} (keyed : Keyed (·.fd) t.fds)
    (h : pollNext t = (t', some (flags, aux))) :
    ∃ e ∈ t.fds, e.aux = aux ∧ reventsFlags e.revents = flags ∧
      ∀ readable writable, ((e.evIn && readable) || (e.evOut && writable)) = true →
        t'.fds = (pollDeliver t e.fd readable writable).fds := by
  simp only [pollNext] at h
  generalize seek _ t.fds.length (t.fds.length - t.iter) t.iter = i at h
  cases found : t.fds[i]? with
  | none => simp [found] at h
  | some e =>
    simp only [found, Prod.mk.injEq, Option.some.injEq] at h
    obtain ⟨rfl, rfl, rfl⟩ := h
    refine ⟨e, List.mem_of_getElem? found, rfl, rfl, fun readable writable fires => ?_⟩
    obtain ⟨hi, rfl⟩ := List.getElem?_eq_some_iff.mp found
    have place := position_getElem keyed hi
    simp only [pollDeliver, place, found, fires, Bool.true_and]
    split <;> rfl

end Steps

/-! ## Over any sequence -/

theorem InStep.step {t t' : Tables} (h : InStep t) {op : Op} (allowed : Allowed t op)
    (uniform : Uniform t op) (goes : apply t op = some t') : InStep t' := by
  cases op with
  | add fd flags aux =>
    cases goes
    exact h.add allowed.1 allowed.2 uniform flags aux
  | mod fd flags aux =>
    cases goes
    simp only [Uniform] at uniform
    split at uniform
    · rename_i directed
      obtain ⟨it, item, armed⟩ := uniform
      exact h.mod allowed directed aux item armed
    · subst uniform
      exact h.remove fd aux
  | del fd =>
    cases goes
    exact h.remove fd 0
  | deliver fd readable writable =>
    rcases selectDeliver_cases t.sel fd readable writable with ⟨-, same⟩ | ⟨-, same⟩
    · simp only [apply, same] at goes
      cases goes
      exact h.deliver fd readable writable uniform
    · simp only [apply, same] at goes
      cases goes

/-- Where all descriptors have a bit every call and every event goes through. -/
theorem InStep.goes {t : Tables} (h : InStep t) (op : Op) : ∃ t', apply t op = some t' := by
  cases op with
  | deliver fd readable writable =>
    rcases selectDeliver_cases t.sel fd readable writable with ⟨-, same⟩ | ⟨outside, -⟩
    · exact ⟨t.deliver (selectEvent t.sel fd readable writable) fd readable writable, by simp [apply, same]⟩
    · exact absurd h.inSets outside
  | _ => exact ⟨_, rfl⟩

/-- The interests of a descriptor as the kernel keeps it. -/
def armedBoth (item : Option EpollItem) : Option Nat × Option Nat :=
  ((armedSide EpollItem.evIn item).map (·.2), (armedSide EpollItem.evOut item).map (·.2))

theorem armedBoth_live (item : Option EpollItem) : armedBoth (live item) = armedBoth item := by
  cases item with
  | none => rfl
  | some it =>
    cases armed : it.evIn || it.evOut with
    | true => rw [live_armed armed]
    | false =>
      have idle := Bool.or_eq_false_iff.mp armed
      simp [live_idle armed, armedBoth, armedSide, idle.1, idle.2]

theorem epollArmed_eq (t : EpollFds) (fd : Nat) : epollArmed t fd = armedBoth (t.items fd) := by
  rw [epollArmed]
  cases t.items fd with
  | none => rfl
  | some it => cases reading : it.evIn <;> cases writing : it.evOut <;>
      simp [armedBoth, armedSide, reading, writing]

theorem pollArmed_eq (t : PollFds) (fd : Nat) : pollArmed t fd = armedBoth (pollView t fd) := by
  rw [pollArmed, pollView]
  cases lookup (·.fd) t.fds fd with
  | none => rfl
  | some e => cases reading : e.evIn <;> cases writing : e.evOut <;>
      simp [armedBoth, armedSide, pollItem, reading, writing]

theorem InStep.agree {t : Tables} (h : InStep t) : Agree t := by
  intro fd
  have here := h.same fd
  have aux (l : List SelectEntry) :
      (lookup (·.fd) l fd).map (·.aux) = (sideView l fd).map (·.2) := by
    rw [sideView, Option.map_map]
    rfl
  refine ⟨?_, ?_⟩
  · rw [epollArmed_eq, selectArmed, aux, aux, here.reads, here.writes]
    rfl
  · rw [epollArmed_eq, pollArmed_eq, ← armedBoth_live, here.polls, armedBoth_live]

end PollAgreement
