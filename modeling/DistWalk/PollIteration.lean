import DistWalk.PollAgreement
import DistWalk.SwapIteration

/-!
# Iterating over the events

After `dw_poll_wait`, `dw_poll_next` is called until it returns 0. In `select()` one
position runs over the two tables, and the second one begins where the first one ends,
which moves with every deletion. In either back-end each ready entry is reported once,
and the one-shot entries among them are deleted; in `select()` only if every descriptor of
the tables is below FD_SETSIZE, which the tables do not ask for.
-/

namespace PollIteration

open KeyedTable PollBackends PollAgreement SwapIteration
open scoped List

/-! ## The loops -/

theorem seek_le (isSet : Nat → Bool) (bound fuel i : Nat) : i ≤ seek isSet bound fuel i := by
  induction fuel generalizing i with
  | zero => exact le_rfl
  | succ fuel ih =>
    rw [seek]
    split
    · exact (Nat.le_succ i).trans (ih (i + 1))
    · exact le_rfl

theorem seek_passed (isSet : Nat → Bool) (bound fuel i : Nat) :
    ∀ x, i ≤ x → x < seek isSet bound fuel i → isSet x = false := by
  induction fuel generalizing i with
  | zero =>
    intro x le lt
    exact absurd le (not_le.mpr lt)
  | succ fuel ih =>
    intro x le lt
    rw [seek] at lt
    split at lt
    · rename_i unset
      rcases le.eq_or_lt with rfl | more
      · exact unset.2
      · exact ih (i + 1) x more lt
    · exact absurd le (not_le.mpr lt)

theorem seek_end (isSet : Nat → Bool) (bound fuel i : Nat) : seek isSet bound fuel i ≤ max i bound := by
  induction fuel generalizing i with
  | zero => exact le_max_left _ _
  | succ fuel ih =>
    rw [seek]
    split
    · rename_i inside
      have := ih (i + 1)
      omega
    · exact le_max_left _ _

/-- The loop over the second table, seen from its beginning. -/
theorem seek_shift (isSet : Nat → Bool) (n bound fuel i : Nat) :
    seek (fun j => isSet (j - n)) (n + bound) fuel (n + i) = n + seek isSet bound fuel i := by
  induction fuel generalizing i with
  | zero => rfl
  | succ fuel ih =>
    rw [seek, seek, Nat.add_sub_cancel_left]
    by_cases unset : i < bound ∧ isSet i = false
    · rw [if_pos unset, if_pos ⟨Nat.add_lt_add_left unset.1 n, unset.2⟩]
      exact ih (i + 1)
    · rw [if_neg unset, if_neg fun h => unset ⟨Nat.lt_of_add_lt_add_left h.1, h.2⟩]

section Loops

variable {α : Type} (ready : α → Bool) (l : List α) (i : Nat)

/-- Where the loops over a table stop. -/
def stop : Nat := seek (fun j => (l[j]?).any ready) l.length (l.length - i) i

/-- The loop finds the first ready entry, or passes all that are left. -/
theorem first_or_none : (∃ e, First ready l i (stop ready l i) e) ∨
    (NoneFrom ready l i ∧ l[stop ready l i]? = none ∧ stop ready l i = max i l.length) := by
  have le := seek_le (fun j => (l[j]?).any ready) l.length (l.length - i) i
  have passed := seek_passed (fun j => (l[j]?).any ready) l.length (l.length - i) i
  have stops := seek_stops (fun j => (l[j]?).any ready) l.length (l.length - i) i le_rfl
  have ends := seek_end (fun j => (l[j]?).any ready) l.length (l.length - i) i
  change i ≤ stop ready l i at le
  change ∀ x, i ≤ x → x < stop ready l i → _ at passed
  change stop ready l i < l.length → ((l[stop ready l i]?).any ready) = true at stops
  change stop ready l i ≤ max i l.length at ends
  have unready (x : Nat) (from_ : i ≤ x) (before : x < stop ready l i) (a : α) (there : l[x]? = some a) :
      ready a = false := by simpa [there] using passed x from_ before
  cases here : l[stop ready l i]? with
  | some e =>
    have bound := (List.getElem?_eq_some_iff.mp here).1
    exact Or.inl ⟨e, le, here, by simpa [here] using stops bound, unready⟩
  | none =>
    have beyond := List.getElem?_eq_none_iff.mp here
    refine Or.inr ⟨fun x from_ a there => ?_, rfl, by omega⟩
    have bound := (List.getElem?_eq_some_iff.mp there).1
    exact unready x from_ (bound.trans_le beyond) a there

end Loops

/-! ## One call -/

def readReport (e : SelectEntry) : PollFlags × Nat := (⟨true, false, false, false, false⟩, e.aux)
def writeReport (e : SelectEntry) : PollFlags × Nat := (⟨false, true, false, false, false⟩, e.aux)
def pollReport (e : PollEntry) : PollFlags × Nat := (reventsFlags e.revents, e.aux)

/-- What `dw_poll_next` deletes when it reports it. -/
def selectOnce (e : SelectEntry) : Bool := e.flags.oneshot
def pollOnce (e : PollEntry) : Bool := e.flags.oneshot

def hasRevents (e : PollEntry) : Bool := decide (e.revents ≠ 0)

/-- The tables after the visit of a read entry, and after that of a write entry. -/
def visitRd (t : SelectFds) (j : Nat) (e : SelectEntry) : SelectFds :=
  { t with rd := (visit selectOnce t.rd j e).1, iter := (visit selectOnce t.rd j e).2 }

def visitWr (t : SelectFds) (j : Nat) (e : SelectEntry) : SelectFds :=
  { t with wr := (visit selectOnce t.wr j e).1, iter := t.rd.length + (visit selectOnce t.wr j e).2 }

/-- A call reports the next ready entry of the read table, and if there is none, the next
one of the write table. -/
theorem selectNext_cases (t : SelectFds) :
    (∃ j e, First (fun e => fdIsset e.fd t.rdFds) t.rd t.iter j e ∧
      selectNext t = (visitRd t j e, some (readReport e))) ∨
    NoneFrom (fun e => fdIsset e.fd t.rdFds) t.rd t.iter ∧
      ((∃ j e, First (fun e => fdIsset e.fd t.wrFds) t.wr (t.iter - t.rd.length) j e ∧
        selectNext t = (visitWr t j e, some (writeReport e))) ∨
      NoneFrom (fun e => fdIsset e.fd t.wrFds) t.wr (t.iter - t.rd.length) ∧
        ∃ i, selectNext t = ({ t with iter := i }, none)) := by
  have reads : seek (isSetAt t.rdFds t.rd) t.rd.length (t.rd.length - t.iter) t.iter =
      stop (fun e => fdIsset e.fd t.rdFds) t.rd t.iter := rfl
  simp only [selectNext, reads]
  rcases first_or_none (fun e => fdIsset e.fd t.rdFds) t.rd t.iter with ⟨e, first⟩ | ⟨idle, missing, place⟩
  · refine Or.inl ⟨_, e, first, ?_⟩
    simp only [first.here]
    cases once : e.flags.oneshot with
    | true => simp [dwSelectDelRdPos, visitRd, visit, selectOnce, once, readReport]
    | false => simp [visitRd, visit, selectOnce, once, readReport]
  · refine Or.inr ⟨idle, ?_⟩
    have from_ : stop (fun e => fdIsset e.fd t.rdFds) t.rd t.iter = t.rd.length + (t.iter - t.rd.length) := by omega
    have writes : seek (fun j => isSetAt t.wrFds t.wr (j - t.rd.length)) (t.rd.length + t.wr.length)
        (t.rd.length + t.wr.length - (t.rd.length + (t.iter - t.rd.length))) (t.rd.length + (t.iter - t.rd.length)) =
          t.rd.length + stop (fun e => fdIsset e.fd t.wrFds) t.wr (t.iter - t.rd.length) := by
      rw [Nat.add_sub_add_left]
      exact seek_shift (isSetAt t.wrFds t.wr) _ _ _ _
    simp only [missing]
    rw [from_, writes, Nat.add_sub_cancel_left]
    rcases first_or_none (fun e => fdIsset e.fd t.wrFds) t.wr (t.iter - t.rd.length) with ⟨e, first⟩ | ⟨idle', missing', -⟩
    · refine Or.inl ⟨_, e, first, ?_⟩
      simp only [first.here]
      cases once : e.flags.oneshot with
      | true => simp [dwSelectDelWrPos, visitWr, visit, selectOnce, once, writeReport]
      | false => simp [visitWr, visit, selectOnce, once, writeReport, Nat.add_assoc]
    · refine Or.inr ⟨idle', t.rd.length + stop (fun e => fdIsset e.fd t.wrFds) t.wr (t.iter - t.rd.length), ?_⟩
      simp only [missing']

theorem pollNext_cases (t : PollFds) :
    (∃ j e, First hasRevents t.fds t.iter j e ∧
      pollNext t = (⟨(visit pollOnce t.fds j e).1, (visit pollOnce t.fds j e).2⟩, some (pollReport e))) ∨
    NoneFrom hasRevents t.fds t.iter ∧ ∃ i, pollNext t = (⟨t.fds, i⟩, none) := by
  have place : seek (fun i => (t.fds[i]?).any fun e => e.revents ≠ 0) t.fds.length (t.fds.length - t.iter) t.iter =
      stop hasRevents t.fds t.iter := rfl
  simp only [pollNext, place]
  rcases first_or_none hasRevents t.fds t.iter with ⟨e, first⟩ | ⟨idle, missing, -⟩
  · refine Or.inl ⟨_, e, first, ?_⟩
    simp only [first.here]
    cases once : e.flags.oneshot with
    | true => simp [dwPollDelPos, visit, pollOnce, once, pollReport]
    | false => simp [visit, pollOnce, once, pollReport]
  · refine Or.inr ⟨idle, stop hasRevents t.fds t.iter, ?_⟩
    simp only [missing]

/-! ## All calls -/

/-- What is still to be reported from the tables of `select()`. -/
def selectDue (t : SelectFds) : List (PollFlags × Nat) :=
  (pending (fun e => fdIsset e.fd t.rdFds) t.rd t.iter).map readReport ++
    (pending (fun e => fdIsset e.fd t.wrFds) t.wr (t.iter - t.rd.length)).map writeReport

/-- The descriptor sets, and the tables as they will be left. -/
structure SelectLeaves (rdFds wrFds : FdSet) (rd wr : List SelectEntry) (t : SelectFds) : Prop where
  reads : t.rdFds = rdFds
  writes : t.wrFds = wrFds
  leavesRd : (left (fun e => fdIsset e.fd rdFds) selectOnce t.rd t.iter).Perm rd
  leavesWr : (left (fun e => fdIsset e.fd wrFds) selectOnce t.wr (t.iter - t.rd.length)).Perm wr

theorem noneFrom_beyond {α : Type} (ready : α → Bool) {l : List α} {i : Nat} (beyond : l.length ≤ i) :
    NoneFrom ready l i := by
  intro x from_ a there
  have bound := (List.getElem?_eq_some_iff.mp there).1
  exact absurd bound (not_lt.mpr (beyond.trans from_))

section Select

variable {t : SelectFds} {j : Nat} {e : SelectEntry}

/-- The visit of a read entry happens before the write table is reached. -/
theorem visitRd_iter (first : First (fun e => fdIsset e.fd t.rdFds) t.rd t.iter j e) :
    t.iter - t.rd.length = 0 ∧ (visitRd t j e).iter - (visitRd t j e).rd.length = 0 := by
  obtain ⟨inside, shorter⟩ := first.shorter selectOnce
  simp only [visitRd]
  omega

theorem selectDue_visitRd (first : First (fun e => fdIsset e.fd t.rdFds) t.rd t.iter j e) :
    (selectDue t).Perm (readReport e :: selectDue (visitRd t j e)) := by
  obtain ⟨before, after⟩ := visitRd_iter first
  rw [selectDue, selectDue, before, after]
  exact ((first.pending_visit selectOnce).map readReport).append_right _

/-- In the write table nothing is due of the read table. -/
theorem visitWr_passed : NoneFrom (fun x => fdIsset x.fd (visitWr t j e).rdFds) (visitWr t j e).rd (visitWr t j e).iter :=
  noneFrom_beyond _ (Nat.le_add_right _ _)

theorem visitWr_iter : (visitWr t j e).iter - (visitWr t j e).rd.length = (visit selectOnce t.wr j e).2 :=
  Nat.add_sub_cancel_left _ _

theorem selectDue_visitWr (idle : NoneFrom (fun e => fdIsset e.fd t.rdFds) t.rd t.iter)
    (first : First (fun e => fdIsset e.fd t.wrFds) t.wr (t.iter - t.rd.length) j e) :
    (selectDue t).Perm (writeReport e :: selectDue (visitWr t j e)) := by
  rw [selectDue, selectDue, idle.pending, visitWr_passed.pending, visitWr_iter]
  exact (first.pending_visit selectOnce).map writeReport

end Select

/-- The calls after a `select()` report all that is due and leave what they should. -/
theorem select_drains {rdFds wrFds : FdSet} {rd wr : List SelectEntry} {t : SelectFds}
    (start : SelectLeaves rdFds wrFds rd wr t) :
    ∃ events t', Drains selectNext t events t' ∧ events.Perm (selectDue t) ∧ t'.rd.Perm rd ∧ t'.wr.Perm wr := by
  refine exists_drains (fun t => t.rd.length + t.wr.length - t.iter) selectDue
    (SelectLeaves rdFds wrFds rd wr) (fun t' => t'.rd.Perm rd ∧ t'.wr.Perm wr) ?_ ?_ start
  · intro t t' r inv called
    obtain ⟨rfl, rfl, leavesRd, leavesWr⟩ := inv
    rcases selectNext_cases t with ⟨j, e, first, same⟩ | ⟨idle, ⟨j, e, first, same⟩ | ⟨-, i, same⟩⟩
    · rw [same] at called
      cases called
      obtain ⟨inside, shorter⟩ := first.shorter selectOnce
      obtain ⟨before, after⟩ := visitRd_iter first
      refine ⟨⟨rfl, rfl, (first.left_visit selectOnce).trans leavesRd, ?_⟩, ?_, selectDue_visitRd first⟩
      · rw [after]
        rw [before] at leavesWr
        exact leavesWr
      · simp only [visitRd]
        omega
    · rw [same] at called
      cases called
      obtain ⟨inside, shorter⟩ := first.shorter selectOnce
      refine ⟨⟨rfl, rfl, ?_, ?_⟩, ?_, selectDue_visitWr idle first⟩
      · rw [idle.left selectOnce] at leavesRd
        exact (List.Perm.of_eq (visitWr_passed.left selectOnce)).trans leavesRd
      · rw [visitWr_iter]
        exact (first.left_visit selectOnce).trans leavesWr
      · simp only [visitWr]
        omega
    · rw [same] at called
      cases called
  · intro t t' inv called
    obtain ⟨rfl, rfl, leavesRd, leavesWr⟩ := inv
    rcases selectNext_cases t with ⟨j, e, first, same⟩ | ⟨idle, ⟨j, e, first, same⟩ | ⟨idle', i, same⟩⟩
    · rw [same] at called
      cases called
    · rw [same] at called
      cases called
    · rw [same] at called
      cases called
      rw [idle.left selectOnce] at leavesRd
      rw [idle'.left selectOnce] at leavesWr
      refine ⟨⟨leavesRd, leavesWr⟩, ?_⟩
      rw [selectDue, idle.pending, idle'.pending]
      rfl

/-- The calls after a `poll()` report all that is due and leave what they should. -/
theorem poll_drains {fds : List PollEntry} {t : PollFds} (start : (left hasRevents pollOnce t.fds t.iter).Perm fds) :
    ∃ events t', Drains pollNext t events t' ∧ events.Perm ((pending hasRevents t.fds t.iter).map pollReport) ∧
      t'.fds.Perm fds := by
  refine exists_drains (fun t : PollFds => t.fds.length - t.iter)
    (fun t => (pending hasRevents t.fds t.iter).map pollReport)
    (fun t => (left hasRevents pollOnce t.fds t.iter).Perm fds) (fun t' => t'.fds.Perm fds) ?_ ?_ start
  · intro t t' r leaves called
    rcases pollNext_cases t with ⟨j, e, first, same⟩ | ⟨-, i, same⟩
    · rw [same] at called
      cases called
      refine ⟨(first.left_visit pollOnce).trans leaves, (first.shorter pollOnce).2, ?_⟩
      exact (first.pending_visit pollOnce).map pollReport
    · rw [same] at called
      cases called
  · intro t t' leaves called
    rcases pollNext_cases t with ⟨j, e, first, same⟩ | ⟨idle, i, same⟩
    · rw [same] at called
      cases called
    · rw [same] at called
      cases called
      rw [idle.left pollOnce] at leaves
      exact ⟨leaves, by rw [idle.pending]; rfl⟩

/-! ## From a wait -/

/-- What `select()` reports to be ready, when it reports any descriptors. -/
def selected (rv : Int) (ready : FdSet) (e : SelectEntry) : Bool := decide (0 < rv) && fdIsset e.fd ready

def polled (rv : Int) (e : PollEntry) : Bool := decide (0 < rv) && hasRevents e

/-- What is registered of an entry. -/
def registration (e : PollEntry) : Nat × Bool × Bool × PollFlags × Nat := (e.fd, e.evIn, e.evOut, e.flags, e.aux)

/-- `dw_poll_wait` comes back, and the calls of `dw_poll_next` up to the first that returns 0
report each ready entry once, with its aux value, and nothing else; the tables keep what they
had except for the one-shot entries that were reported. -/
def SelectExact (t : SelectFds) (rv : Int) (rdReady wrReady : FdSet) : Prop :=
  ∃ waited events t', selectWait t rv rdReady wrReady = some waited ∧ Drains selectNext waited events t' ∧
    events.Perm ((t.rd.filter (selected rv rdReady)).map readReport ++
      (t.wr.filter (selected rv wrReady)).map writeReport) ∧
    t'.rd.Perm (t.rd.filter fun e => !(selected rv rdReady e && e.flags.oneshot)) ∧
    t'.wr.Perm (t.wr.filter fun e => !(selected rv wrReady e && e.flags.oneshot))

def PollExact (t : PollFds) (rv : Int) (revents : Nat → BitVec 16) : Prop :=
  ∃ events t', Drains pollNext (pollWait t rv revents) events t' ∧
    events.Perm (((pollWait t rv revents).fds.filter (polled rv)).map pollReport) ∧
    t'.fds.Perm ((pollWait t rv revents).fds.filter fun e => !(polled rv e && e.flags.oneshot)) ∧
    (pollWait t rv revents).fds.map registration = t.fds.map registration

section Wait

variable {α : Type} {rv : Int} {l : List α} {i : Nat} (ready once : α → Bool)

theorem pending_wait (answered : 0 < rv → i = 0) (nothing : ¬ 0 < rv → l.length ≤ i) :
    pending ready l i = l.filter fun e => decide (0 < rv) && ready e := by
  by_cases answer : 0 < rv
  · simp [pending, answered answer, answer]
  · rw [(noneFrom_beyond ready (nothing answer)).pending]
    simp [answer]

theorem left_wait (answered : 0 < rv → i = 0) (nothing : ¬ 0 < rv → l.length ≤ i) :
    left ready once l i = l.filter fun e => !(decide (0 < rv) && ready e && once e) := by
  by_cases answer : 0 < rv
  · simp [left, answered answer, answer]
  · rw [(noneFrom_beyond ready (nothing answer)).left once]
    simp [answer]

end Wait

/-- Of the descriptors that it is asked for, `select()` leaves the ready ones. -/
theorem selected_asked {l : List SelectEntry} {asked : FdSet} (same : fdSets l = some asked) (ready : FdSet)
    (rv : Int) {e : SelectEntry} (mem : e ∈ l) : selected rv (asked &&& ready) e = selected rv ready e := by
  have bit : fdIsset e.fd asked = true := (fdIsset_fdSets same e.fd).mpr ⟨e, mem, rfl⟩
  rw [fdIsset] at bit
  simp only [selected, fdIsset, BitVec.getLsbD_and, bit, Bool.true_and]

/-- The tables after `dw_poll_wait`. -/
theorem selectWait_cases (t : SelectFds) (rv : Int) (rdReady wrReady : FdSet) :
    (InSets t ∧ ∃ rdAsked wrAsked waited, fdSets t.rd = some rdAsked ∧ fdSets t.wr = some wrAsked ∧
      selectWait t rv rdReady wrReady = some waited ∧ waited = { t with
        rdFds := rdAsked &&& rdReady
        wrFds := wrAsked &&& wrReady
        iter := if rv > 0 then 0 else t.rd.length + t.wr.length }) ∨
    ¬ InSets t ∧ selectWait t rv rdReady wrReady = none := by
  rw [InSets, ← fdSets_eq_some, ← fdSets_eq_some, selectWait]
  cases rd : fdSets t.rd with
  | none => exact Or.inr ⟨by simp, rfl⟩
  | some rdAsked =>
    cases wr : fdSets t.wr with
    | none => exact Or.inr ⟨by simp, rfl⟩
    | some wrAsked => exact Or.inl ⟨⟨⟨rdAsked, rfl⟩, ⟨wrAsked, rfl⟩⟩, rdAsked, wrAsked, _, rfl, rfl, rfl, rfl⟩

/-- In `select()` the iteration is exact where every descriptor has a bit, and nowhere else. -/
theorem selectExact_iff (t : SelectFds) (rv : Int) (rdReady wrReady : FdSet) :
    SelectExact t rv rdReady wrReady ↔ InSets t := by
  rcases selectWait_cases t rv rdReady wrReady with
    ⟨inSets, rdAsked, wrAsked, waited, rdSame, wrSame, goes, shape⟩ | ⟨outside, stops⟩
  · refine ⟨fun _ => inSets, fun _ => ?_⟩
    have rd : waited.rd = t.rd := by rw [shape]
    have wr : waited.wr = t.wr := by rw [shape]
    have start : 0 < rv → waited.iter = 0 := fun answer => by rw [shape]; exact if_pos answer
    have ended : ¬ 0 < rv → waited.iter = t.rd.length + t.wr.length := fun none_ => by rw [shape]; exact if_neg none_
    have endedRd : ¬ 0 < rv → t.rd.length ≤ waited.iter := fun none_ => by rw [ended none_]; omega
    have startWr : 0 < rv → waited.iter - t.rd.length = 0 := fun answer => by rw [start answer, Nat.zero_sub]
    have endedWr : ¬ 0 < rv → t.wr.length ≤ waited.iter - t.rd.length := fun none_ => by rw [ended none_]; omega
    have bits : waited.rdFds = rdAsked &&& rdReady ∧ waited.wrFds = wrAsked &&& wrReady := by
      rw [shape]
      exact ⟨rfl, rfl⟩
    have due : selectDue waited =
        (t.rd.filter (selected rv rdReady)).map readReport ++ (t.wr.filter (selected rv wrReady)).map writeReport := by
      rw [selectDue, bits.1, bits.2, rd, wr, pending_wait _ start endedRd, pending_wait _ startWr endedWr]
      exact congrArg₂ (fun rd wr => rd.map readReport ++ wr.map writeReport)
        (List.filter_congr fun e mem => selected_asked rdSame rdReady rv mem)
        (List.filter_congr fun e mem => selected_asked wrSame wrReady rv mem)
    have kept {l : List SelectEntry} {asked : FdSet} (same : fdSets l = some asked) (ready : FdSet) {i : Nat}
        (start : 0 < rv → i = 0) (ended : ¬ 0 < rv → l.length ≤ i) :
        (left (fun e => fdIsset e.fd (asked &&& ready)) selectOnce l i).Perm
          (l.filter fun e => !(selected rv ready e && e.flags.oneshot)) := by
      rw [left_wait _ _ start ended]
      refine .of_eq (List.filter_congr fun e mem => ?_)
      rw [← selected_asked same ready rv mem]
      rfl
    have leaves : SelectLeaves (rdAsked &&& rdReady) (wrAsked &&& wrReady)
        (t.rd.filter fun e => !(selected rv rdReady e && e.flags.oneshot))
        (t.wr.filter fun e => !(selected rv wrReady e && e.flags.oneshot)) waited := by
      refine ⟨bits.1, bits.2, ?_, ?_⟩
      · rw [rd]
        exact kept rdSame rdReady start endedRd
      · rw [rd, wr]
        exact kept wrSame wrReady startWr endedWr
    obtain ⟨events, t', drained, reported, leftRd, leftWr⟩ := select_drains leaves
    rw [due] at reported
    exact ⟨waited, events, t', goes, drained, reported, leftRd, leftWr⟩
  · refine ⟨?_, fun inSets => absurd inSets outside⟩
    rintro ⟨waited, -, -, goes, -⟩
    rw [stops] at goes
    cases goes

theorem registration_pollWait (t : PollFds) (rv : Int) (revents : Nat → BitVec 16) :
    (pollWait t rv revents).fds.map registration = t.fds.map registration := by
  refine List.ext_getElem? fun i => ?_
  rw [pollWait, List.getElem?_map, List.getElem?_mapIdx, List.getElem?_map, Option.map_map]
  rfl

theorem pollExact (t : PollFds) (rv : Int) (revents : Nat → BitVec 16) : PollExact t rv revents := by
  have start : 0 < rv → (pollWait t rv revents).iter = 0 := fun answer => if_pos answer
  have ended : ¬ 0 < rv → (pollWait t rv revents).fds.length ≤ (pollWait t rv revents).iter := fun none_ => by
    rw [pollWait, if_neg none_, List.length_mapIdx]
  have due : pending hasRevents (pollWait t rv revents).fds (pollWait t rv revents).iter =
      (pollWait t rv revents).fds.filter (polled rv) := pending_wait _ start ended
  obtain ⟨events, t', drained, reported, kept⟩ := poll_drains (.of_eq (left_wait hasRevents pollOnce start ended))
  rw [due] at reported
  exact ⟨events, t', drained, reported, kept, registration_pollWait t rv revents⟩

/-- The iteration over the events of `poll()` is always exact, that over those of `select()`
if and only if every descriptor of its tables is below FD_SETSIZE. -/
theorem iteration_exact_iff (t : SelectFds) (u : PollFds) (rv : Int) (rdReady wrReady : FdSet)
    (revents : Nat → BitVec 16) :
    (SelectExact t rv rdReady wrReady ↔ (∀ e ∈ t.rd, e.fd < fdSetsize) ∧ ∀ e ∈ t.wr, e.fd < fdSetsize) ∧
      PollExact u rv revents :=
  ⟨selectExact_iff t rv rdReady wrReady, pollExact u rv revents⟩

/-- A descriptor that the tables of `select()` take and that has no bit in its sets. -/
theorem descriptor_without_bit : (selectAdd .init 1024 ⟨true, false, false, false, false⟩ 7).2 = 0 ∧
    ¬ SelectExact (selectAdd .init 1024 ⟨true, false, false, false, false⟩ 7).1 1 0 0 := by
  refine ⟨rfl, fun iterates => ?_⟩
  have bits := ((selectExact_iff _ _ _ _).mp iterates).1
  exact absurd (bits ⟨1024, ⟨true, false, false, false, false⟩, 7⟩ List.mem_cons_self) (by decide)

end PollIteration
