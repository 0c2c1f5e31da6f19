import Mathlib.Tactic.Ring
import Mathlib.Algebra.Order.Ring.Int
import Mathlib.Algebra.Order.Group.Abs

/-!
# Elapsed times of the client

The sender records when a packet leaves through `ts_sub_us`, which normalises the
nanoseconds before it divides. `process_reply` divides their difference as it is,
towards zero, so a reply whose nanoseconds lie before those of the start is dated
to the next full microsecond. A `long` is an integer here: of two readings less than
292 years apart the seconds times 1000000 or 1000000000 stay within its range.
-/

namespace ElapsedTimes

structure Timespec where
  tvSec : Int
  tvNsec : Int
  deriving DecidableEq, Repr

def nsecPerSec : Int := 1000000000

def Timespec.Normalised (t : Timespec) : Prop := 0 ≤ t.tvNsec ∧ t.tvNsec < nsecPerSec

instance (t : Timespec) : Decidable t.Normalised := inferInstanceAs (Decidable (_ ∧ _))

/-- The time since the epoch, in nanoseconds. -/
def Timespec.nanos (t : Timespec) : Int := t.tvSec * nsecPerSec + t.tvNsec

/-- What `clock_gettime` gives. -/
structure Stamp extends Timespec where
  normalised : toTimespec.Normalised

/-- The loop of `ts_sub`. -/
def borrow (c : Timespec) : Timespec :=
  if c.tvNsec < 0 then borrow ⟨c.tvSec - 1, c.tvNsec + nsecPerSec⟩ else c
termination_by (-c.tvNsec).toNat
decreasing_by
  simp only [nsecPerSec]
  omega

def tsSub (a b : Timespec) : Timespec := borrow ⟨a.tvSec - b.tvSec, a.tvNsec - b.tvNsec⟩

/-- Division in C goes towards zero. -/
def tsSubUs (a b : Timespec) : Int :=
  let c := tsSub a b
  c.tvSec * 1000000 + c.tvNsec.tdiv 1000

def tsSubNs (a b : Timespec) : Int :=
  let c := tsSub a b
  c.tvSec * nsecPerSec + c.tvNsec

/-- The value of `usecs_send` for a packet sent at `send`. -/
def usecsSend (useNano : Bool) (send start : Timespec) : Int :=
  if useNano then tsSubNs send start else tsSubUs send start

/-- The value of `usecs` in `process_reply`. -/
def usecsNow (useNano : Bool) (now start : Timespec) : Int :=
  if useNano then (now.tvSec - start.tvSec) * nsecPerSec + (now.tvNsec - start.tvNsec)
  else (now.tvSec - start.tvSec) * 1000000 + (now.tvNsec - start.tvNsec).tdiv 1000

/-- A packet and its reply in an experiment that began at `start`. -/
structure Exchange where
  start : Stamp
  send : Stamp
  reply : Stamp
  started : start.nanos ≤ send.nanos
  answered : send.nanos ≤ reply.nanos

/-- The elapsed time that is stored for the packet. -/
def Exchange.elapsed (e : Exchange) (useNano : Bool) : Int :=
  usecsNow useNano e.reply.toTimespec e.start.toTimespec -
    usecsSend useNano e.send.toTimespec e.start.toTimespec

/-- Both ends are rounded alike, and what is reported is less than a microsecond off. -/
structure Exact (e : Exchange) : Prop where
  same : usecsNow false e.reply.toTimespec e.start.toTimespec =
    tsSubUs e.reply.toTimespec e.start.toTimespec
  nonneg : 0 ≤ e.elapsed false
  near : |e.elapsed false * 1000 - (e.reply.nanos - e.send.nanos)| < 1000

/-! ## Differences -/

/-- The loop keeps the time and makes the nanoseconds positive. -/
theorem borrow_spec (c : Timespec) :
    (borrow c).nanos = c.nanos ∧ 0 ≤ (borrow c).tvNsec ∧
      (c.tvNsec < nsecPerSec → (borrow c).tvNsec < nsecPerSec) := by
  induction c using borrow.induct with
  | case1 c negative ih =>
    rw [borrow, if_pos negative]
    obtain ⟨time, positive, below⟩ := ih
    refine ⟨?_, positive, fun _ => below ?_⟩
    · rw [time]
      simp only [Timespec.nanos, nsecPerSec]
      omega
    · simp only [nsecPerSec] at negative ⊢
      omega
  | case2 c positive =>
    rw [borrow, if_neg positive]
    exact ⟨rfl, not_lt.mp positive, id⟩

theorem tsSub_spec (a b : Stamp) :
    (tsSub a.toTimespec b.toTimespec).nanos = a.nanos - b.nanos ∧
      (tsSub a.toTimespec b.toTimespec).Normalised := by
  obtain ⟨time, positive, below⟩ := borrow_spec ⟨a.tvSec - b.tvSec, a.tvNsec - b.tvNsec⟩
  obtain ⟨-, small⟩ := a.normalised
  obtain ⟨early, -⟩ := b.normalised
  refine ⟨?_, positive, below ?_⟩
  · rw [tsSub, time]
    simp only [Timespec.nanos, nsecPerSec]
    omega
  · simp only at early small ⊢
    omega

/-- `ts_sub_us` is the floor of the exact difference. -/
theorem tsSubUs_eq (a b : Stamp) : tsSubUs a.toTimespec b.toTimespec = (a.nanos - b.nanos) / 1000 := by
  obtain ⟨time, positive, -⟩ := tsSub_spec a b
  simp only [tsSubUs]
  rw [← time, Int.tdiv_eq_ediv_of_nonneg positive]
  simp only [Timespec.nanos, nsecPerSec]
  omega

theorem tsSubNs_eq (a b : Stamp) : tsSubNs a.toTimespec b.toTimespec = a.nanos - b.nanos :=
  (tsSub_spec a b).1

/-- In nanoseconds the two ends always agree. -/
theorem usecsNow_nano (a b : Stamp) : usecsNow true a.toTimespec b.toTimespec =
    tsSubNs a.toTimespec b.toTimespec := by
  rw [tsSubNs_eq]
  simp only [usecsNow, Timespec.nanos, if_true]
  ring

theorem elapsed_nano (e : Exchange) : e.elapsed true = e.reply.nanos - e.send.nanos := by
  have now := usecsNow_nano e.reply e.start
  simp only [Exchange.elapsed, usecsSend, if_true]
  rw [now, tsSubNs_eq, tsSubNs_eq]
  ring

/-- Towards zero is down for what is not negative, and for whole microseconds. -/
theorem tdiv_eq_ediv_iff (x : Int) : x.tdiv 1000 = x / 1000 ↔ 0 ≤ x ∨ 1000 ∣ x := by
  constructor
  · intro same
    by_contra other
    obtain ⟨negative, broken⟩ := not_or.mp other
    have up := Int.neg_tdiv x 1000
    rw [Int.tdiv_eq_ediv_of_nonneg (show 0 ≤ -x by omega)] at up
    omega
  · rintro (positive | whole)
    · exact Int.tdiv_eq_ediv_of_nonneg positive
    · rw [Int.tdiv_eq_ediv_of_dvd whole]

/-- `process_reply` divides only the nanoseconds. -/
theorem usecsNow_eq (a b : Stamp) : usecsNow false a.toTimespec b.toTimespec =
    (a.nanos - b.nanos) / 1000 + ((a.tvNsec - b.tvNsec).tdiv 1000 - (a.tvNsec - b.tvNsec) / 1000) := by
  simp only [usecsNow, Timespec.nanos, nsecPerSec, Bool.false_eq_true, if_false]
  omega

theorem same_iff (a b : Stamp) :
    usecsNow false a.toTimespec b.toTimespec = tsSubUs a.toTimespec b.toTimespec ↔
      b.tvNsec ≤ a.tvNsec ∨ 1000 ∣ a.tvNsec - b.tvNsec := by
  have rounding := tdiv_eq_ediv_iff (a.tvNsec - b.tvNsec)
  rw [usecsNow_eq, tsSubUs_eq, add_eq_left, sub_eq_zero, rounding, sub_nonneg]

/-- A packet is timed to the microsecond exactly if the nanoseconds of its reply do not
lie before those of the start, or by whole microseconds. -/
theorem elapsed_exact_iff (e : Exchange) :
    Exact e ↔ e.start.tvNsec ≤ e.reply.tvNsec ∨ 1000 ∣ e.reply.tvNsec - e.start.tvNsec := by
  rw [← same_iff]
  constructor
  · exact Exact.same
  · intro same
    have answered := e.answered
    have elapsed : e.elapsed false =
        (e.reply.nanos - e.start.nanos) / 1000 - (e.send.nanos - e.start.nanos) / 1000 := by
      simp only [Exchange.elapsed, usecsSend, Bool.false_eq_true, if_false]
      rw [same, tsSubUs_eq, tsSubUs_eq]
    refine ⟨same, ?_, ?_⟩
    · rw [elapsed]
      omega
    · rw [elapsed, abs_lt]
      omega

/-- A reply in the same instant as its packet. -/
def instant (start now : Stamp) (order : start.nanos ≤ now.nanos) : Exchange :=
  ⟨start, now, now, order, le_refl _⟩

/-- The experiment began half a microsecond before a full second. A reply that comes a
microsecond into the next one, with its packet, is dated a microsecond later. -/
theorem reply_dated_later :
    let e := instant ⟨⟨0, 999999500⟩, by decide⟩ ⟨⟨1, 1000⟩, by decide⟩ (by decide)
    e.reply.nanos = e.send.nanos ∧ e.elapsed false = 1 ∧ ¬ Exact e := by
  intro e
  refine ⟨rfl, ?_, ?_⟩
  · have sent : usecsSend false e.send.toTimespec e.start.toTimespec = 1 := tsSubUs_eq e.send e.start
    rw [Exchange.elapsed, sent]
    rfl
  · intro exact
    have same := exact.same
    rw [tsSubUs_eq] at same
    revert same
    decide

end ElapsedTimes
