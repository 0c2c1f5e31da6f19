import DistWalk.Backlog
import DistWalk.ClientOptions
import DistWalk.ElapsedTimes

/-!
# The pace of the sender

After each packet `thread_sender` moves its deadline on by a period and waits for it, either
reading the clock again and again or in `clock_nanosleep`. The deadline does not depend on
when the packets really went out, so a packet is never early and a delay is made up later.
Sending itself is not part of this; a turn tells what the clock showed.
-/

namespace Pacing

open ElapsedTimes ClientOptions Backlog

/-- The loop of `ts_add`. -/
def carry (c : Timespec) : Timespec :=
  if nsecPerSec ≤ c.tvNsec then carry ⟨c.tvSec + 1, c.tvNsec - nsecPerSec⟩ else c
termination_by c.tvNsec.toNat
decreasing_by
  simp only [nsecPerSec] at *
  omega

def tsAdd (a b : Timespec) : Timespec := carry ⟨a.tvSec + b.tvSec, a.tvNsec + b.tvNsec⟩

def tsLeq (a b : Timespec) : Bool :=
  let ts := tsSub a b
  ts.tvSec < 0 || (ts.tvSec = 0 && ts.tvNsec < 0)

/-- `period_ns` for a sample of the period in microseconds, if it is an `unsigned long`. -/
def periodNs (sample : ℚ) : Option Nat :=
  let ns := truncate (sample * 1000)
  if 0 ≤ ns ∧ ns < 2 ^ 64 then some ns.toNat else none

def tsDelta (ns : Nat) : Timespec := ⟨ns / 1000000000, ns % 1000000000⟩

/-- A packet: when it was sent, the sample of the period, what the clock showed while the
thread was spinning, and when it went on. -/
structure Turn where
  sent : Stamp
  sample : ℚ
  early : List Stamp
  resumed : Stamp

/-- Whether the wait for `deadline` ends as the turn tells. A thread in `clock_nanosleep`
does not read the clock. -/
def waits (useWaitSpinning : Bool) (deadline : Timespec) (t : Turn) : Bool :=
  if useWaitSpinning then
    t.early.all (fun ts => tsLeq ts.toTimespec deadline) && !tsLeq t.resumed.toTimespec deadline
  else t.early.isEmpty

/-- The loop over the packets from `next_pkt` on: `ts_now` after them. -/
def pace (useWaitSpinning : Bool) : Timespec → List Turn → Option Timespec
  | tsNow, [] => some tsNow
  | tsNow, t :: turns => do
    let ns ← periodNs t.sample
    let tsNow := tsAdd tsNow (tsDelta ns)
    if waits useWaitSpinning tsNow t then pace useWaitSpinning tsNow turns else none

/-- The period of a turn. -/
def Turn.period (t : Turn) : Int := truncate (t.sample * 1000)

def periods (turns : List Turn) : Int := (turns.map Turn.period).sum

/-- The readings of a turn after its packet was sent. -/
def Turn.readings (t : Turn) : List Int := (t.early.map fun ts => ts.nanos) ++ [t.resumed.nanos]

/-- The clock never goes back. -/
def Forward : Int → List Turn → Prop
  | _, [] => True
  | last, t :: turns =>
    last ≤ t.sent.nanos ∧ (t.sent.nanos :: t.readings).Pairwise (· ≤ ·) ∧ Forward t.resumed.nanos turns

/-- `clock_nanosleep` does not return before the `ts_now` that it is given. -/
def Slept : Timespec → List Turn → Prop
  | _, [] => True
  | tsNow, t :: turns =>
    ∀ ns, periodNs t.sample = some ns →
      (tsAdd tsNow (tsDelta ns)).nanos ≤ t.resumed.nanos ∧ Slept (tsAdd tsNow (tsDelta ns)) turns

/-- From one reading to the next, the first at most `first` and the others at most `step` later. -/
def Spaced (first step : Int) : Int → List Int → Prop
  | _, [] => True
  | last, now :: later => now ≤ last + first ∧ Spaced step step now later

/-- Bounds on the delays: up to `allow` from the last reading to the next packet, then `first`
until the thread looks at the clock or is asleep, `step` to see that the deadline has passed,
and `next` from there to the packet after. -/
def Prompt (useWaitSpinning : Bool) (first step next : Int) : Int → Int → Int → List Turn → Prop
  | _, _, _, [] => True
  | deadline, last, allow, t :: turns =>
    t.sent.nanos ≤ last + allow ∧
      (if useWaitSpinning then Spaced first step t.sent.nanos t.readings
        else t.resumed.nanos ≤ max (t.sent.nanos + first) (deadline + t.period + step)) ∧
      Prompt useWaitSpinning first step next (deadline + t.period) t.resumed.nanos next turns

/-- How long after its deadline a packet is sent, in a session that began at `start`. -/
def lateness (start : Int) (before : List Turn) (t : Turn) : Int := t.sent.nanos - (start + periods before)

/-! ## The clock -/

theorem carry_spec (c : Timespec) (nonneg : 0 ≤ c.tvNsec) :
    (carry c).nanos = c.nanos ∧ (carry c).Normalised := by
  induction c using carry.induct with
  | case1 c large ih =>
    rw [carry, if_pos large]
    obtain ⟨time, normal⟩ := ih (by simpa using large)
    refine ⟨?_, normal⟩
    rw [time]
    simp only [Timespec.nanos, nsecPerSec]
    omega
  | case2 c small =>
    rw [carry, if_neg small]
    exact ⟨rfl, nonneg, not_le.mp small⟩

theorem normalised_ext {a b : Timespec} (normal : a.Normalised) (normal' : b.Normalised) (time : a.nanos = b.nanos) :
    a = b := by
  simp only [Timespec.Normalised, Timespec.nanos, nsecPerSec] at normal normal' time
  have seconds : a.tvSec = b.tvSec := by omega
  have rest : a.tvNsec = b.tvNsec := by omega
  cases a
  cases b
  simp only at seconds rest
  rw [seconds, rest]

theorem tsDelta_spec (ns : Nat) : (tsDelta ns).nanos = ns ∧ (tsDelta ns).Normalised := by
  simp only [tsDelta, Timespec.nanos, Timespec.Normalised, nsecPerSec]
  omega

theorem tsAdd_spec {a b : Timespec} (normal : a.Normalised) (normal' : b.Normalised) :
    (tsAdd a b).nanos = a.nanos + b.nanos ∧ (tsAdd a b).Normalised := by
  obtain ⟨time, keeps⟩ := carry_spec ⟨a.tvSec + b.tvSec, a.tvNsec + b.tvNsec⟩ (add_nonneg normal.1 normal'.1)
  refine ⟨?_, keeps⟩
  rw [tsAdd, time]
  simp only [Timespec.nanos]
  ring

/-- `ts_leq` is in fact the strict order. -/
theorem tsLeq_iff (a b : Stamp) : tsLeq a.toTimespec b.toTimespec = true ↔ a.nanos < b.nanos := by
  obtain ⟨time, positive, below⟩ := tsSub_spec a b
  simp only [tsLeq, Bool.or_eq_true, Bool.and_eq_true, decide_eq_true_eq]
  simp only [Timespec.nanos, nsecPerSec] at time below ⊢
  omega

/-! ## A turn -/

section Turns

variable {useWaitSpinning : Bool} {tsNow final : Timespec} {t : Turn} {turns : List Turn} {first step next : Int}

theorem pace_cons (ran : pace useWaitSpinning tsNow (t :: turns) = some final) :
    ∃ ns : Nat, periodNs t.sample = some ns ∧ t.period = ns ∧
      waits useWaitSpinning (tsAdd tsNow (tsDelta ns)) t = true ∧
        pace useWaitSpinning (tsAdd tsNow (tsDelta ns)) turns = some final := by
  rw [pace] at ran
  obtain ⟨ns, sampled, later⟩ := Option.bind_eq_some_iff.mp ran
  have period : t.period = ns := by
    rw [periodNs] at sampled
    split at sampled
    · rename_i range
      cases sampled
      exact (Int.toNat_of_nonneg range.1).symm
    · cases sampled
  dsimp only at later
  split at later
  · rename_i waited
    exact ⟨ns, sampled, period, waited, later⟩
  · cases later

/-- The loop that spins ends at a reading that is not before the deadline. -/
theorem spun (deadline : Stamp) (waited : waits true deadline.toTimespec t = true) :
    (∀ ts ∈ t.early, ts.nanos < deadline.nanos) ∧ deadline.nanos ≤ t.resumed.nanos := by
  simp only [waits, if_true, Bool.and_eq_true, List.all_eq_true, Bool.not_eq_true'] at waited
  refine ⟨fun ts mem => (tsLeq_iff _ _).mp (waited.1 ts mem), not_lt.mp fun early => ?_⟩
  rw [(tsLeq_iff _ _).mpr early] at waited
  cases waited.2

/-- The last reading comes soon after the deadline, or is the first one. -/
theorem spaced_last {last bound : Int} {early : List Stamp} {resumed : Stamp}
    (spaced : Spaced first step last (early.map (·.nanos) ++ [resumed.nanos]))
    (before : ∀ ts ∈ early, ts.nanos < bound) :
    resumed.nanos ≤ max (last + first) (bound + step) := by
  induction early generalizing last first with
  | nil => exact le_max_of_le_left spaced.1
  | cons ts early ih =>
    have passed := before ts List.mem_cons_self
    have later := ih spaced.2 fun ts mem => before ts (List.mem_cons_of_mem _ mem)
    rcases le_max_iff.mp later with near | near
    · exact le_max_of_le_right (near.trans (add_le_add_left passed.le step))
    · exact le_max_of_le_right near

/-- Spinning and sleeping keep the same promises. -/
theorem waited_prompt (deadline : Stamp) (waited : waits useWaitSpinning deadline.toTimespec t = true)
    (delays : if useWaitSpinning then Spaced first step t.sent.nanos t.readings
      else t.resumed.nanos ≤ max (t.sent.nanos + first) (deadline.nanos + step)) :
    t.resumed.nanos ≤ max (t.sent.nanos + first) (deadline.nanos + step) := by
  cases useWaitSpinning with
  | false => exact delays
  | true => exact spaced_last delays (spun deadline waited).1

end Turns

/-! ## A session -/

section Sessions

variable {useWaitSpinning : Bool} {final : Timespec} {first step next : Int}

theorem lateness_cons (start : Int) (u : Turn) (before : List Turn) (t : Turn) :
    lateness start (u :: before) t = lateness (start + u.period) before t := by
  simp only [lateness, periods, List.map_cons, List.sum_cons, add_assoc]

/-- The deadline is the time of the start and the periods since, whenever the packets were sent. -/
theorem pace_exact (tsNow : Stamp) {turns : List Turn}
    (ran : pace useWaitSpinning tsNow.toTimespec turns = some final) :
    final.nanos = tsNow.nanos + periods turns ∧ final.Normalised := by
  induction turns generalizing tsNow with
  | nil =>
    cases ran
    exact ⟨by simp [periods], tsNow.normalised⟩
  | cons t turns ih =>
    obtain ⟨ns, -, sampled, -, later⟩ := pace_cons ran
    obtain ⟨time, normal⟩ := tsAdd_spec tsNow.normalised (tsDelta_spec ns).2
    obtain ⟨exact_, keeps⟩ := ih ⟨_, normal⟩ later
    refine ⟨?_, keeps⟩
    rw [exact_, time, (tsDelta_spec ns).1, ← sampled]
    simp only [periods, List.map_cons, List.sum_cons, add_assoc]

/-- No packet is sent before its deadline. -/
theorem pace_notEarly (tsNow : Stamp) {last : Int} {turns before after : List Turn} {t : Turn}
    (ran : pace useWaitSpinning tsNow.toTimespec turns = some final) (clock : Forward last turns)
    (slept : useWaitSpinning = false → Slept tsNow.toTimespec turns) (due : tsNow.nanos ≤ last)
    (split : turns = before ++ t :: after) : 0 ≤ lateness tsNow.nanos before t := by
  induction before generalizing tsNow last turns with
  | nil =>
    cases split
    have sent := clock.1
    simp only [lateness, periods, List.map_nil, List.sum_nil]
    omega
  | cons u before ih =>
    cases split
    obtain ⟨ns, drawn, sampled, waited, later⟩ := pace_cons ran
    obtain ⟨time, normal⟩ := tsAdd_spec tsNow.normalised (tsDelta_spec ns).2
    rw [(tsDelta_spec ns).1, ← sampled] at time
    have passed : (tsAdd tsNow.toTimespec (tsDelta ns)).nanos ≤ u.resumed.nanos := by
      cases useWaitSpinning with
      | false => exact (slept rfl ns drawn).1
      | true => exact (spun ⟨_, normal⟩ waited).2
    have notEarly := ih ⟨_, normal⟩ later clock.2.2 (fun sleeping => (slept sleeping ns drawn).2) passed rfl
    rw [lateness_cons, ← time]
    exact notEarly

/-- What a packet is late by is the backlog of the delays before it. -/
theorem pace_prompt (tsNow : Stamp) (late : Int) {last allow : Int} {turns before after : List Turn} {t : Turn}
    (ran : pace useWaitSpinning tsNow.toTimespec turns = some final)
    (prompt : Prompt useWaitSpinning first step next tsNow.nanos last allow turns)
    (behind : last + allow ≤ tsNow.nanos + late) (split : turns = before ++ t :: after) :
    lateness tsNow.nanos before t ≤
      backlog (step + next) late (before.map fun u => first + next - u.period) := by
  induction before generalizing tsNow last allow late turns with
  | nil =>
    cases split
    have sent := prompt.1
    simp only [lateness, periods, List.map_nil, List.sum_nil, backlog]
    omega
  | cons u before ih =>
    cases split
    obtain ⟨ns, -, sampled, waited, later⟩ := pace_cons ran
    obtain ⟨time, normal⟩ := tsAdd_spec tsNow.normalised (tsDelta_spec ns).2
    rw [(tsDelta_spec ns).1, ← sampled] at time
    obtain ⟨sent, delays, rest⟩ := prompt
    have resumed := waited_prompt ⟨_, normal⟩ waited (by rw [time]; exact delays)
    rw [time] at resumed
    have bound := ih ⟨_, normal⟩ (max (late + (first + next - u.period)) (step + next)) later
      (by rw [time]; exact rest) (by rw [time]; omega) rfl
    rw [lateness_cons, ← time]
    exact bound

end Sessions

/-- Every packet of a session is sent at its deadline or later, in both ways of waiting;
what it is late by is a backlog, to which every round adds its delays and from which it
takes its period, so that a delay is made up by what the periods leave to spare. -/
theorem packets_paced {useWaitSpinning : Bool} {tsNow : Stamp} {final : Timespec} {turns : List Turn}
    (ran : pace useWaitSpinning tsNow.toTimespec turns = some final) (clock : Forward tsNow.nanos turns)
    (slept : useWaitSpinning = false → Slept tsNow.toTimespec turns) :
    final.nanos = tsNow.nanos + periods turns ∧
      ∀ before t after, turns = before ++ t :: after →
        0 ≤ lateness tsNow.nanos before t ∧
          ∀ first step next late, Prompt useWaitSpinning first step next tsNow.nanos tsNow.nanos late turns →
            lateness tsNow.nanos before t ≤
              backlog (step + next) late (before.map fun u => first + next - u.period) ∧
            ∀ spare, 0 ≤ spare → (∀ u ∈ before, first + next + spare ≤ u.period) →
              lateness tsNow.nanos before t ≤ max (late - before.length * spare) (step + next) := by
  refine ⟨(pace_exact tsNow ran).1, fun before t after split =>
    ⟨pace_notEarly tsNow ran clock slept le_rfl split, ?_⟩⟩
  intro first step next late prompt
  have bound := pace_prompt tsNow late ran prompt le_rfl split
  refine ⟨bound, fun spare nonneg slack => bound.trans ?_⟩
  have drained : ∀ v ∈ before.map fun u => first + next - u.period, v ≤ -spare := fun v mem => by
    obtain ⟨u, among, rfl⟩ := List.mem_map.mp mem
    have := slack u among
    omega
  have drains : backlog (step + next) late _ ≤ _ := backlog_drains nonneg drained
  rwa [List.length_map, nsmul_eq_mul] at drains

def readingAt (ns : Nat) : Stamp := ⟨tsDelta ns, (tsDelta_spec ns).2⟩

theorem tsLeq_readingAt (a b : Nat) : tsLeq (readingAt a).toTimespec (tsDelta b) = decide (a < b) := by
  have order := tsLeq_iff (readingAt a) (readingAt b)
  have start : (readingAt a).nanos = a := (tsDelta_spec a).1
  have stop : (readingAt b).nanos = b := (tsDelta_spec b).1
  rw [start, stop, Nat.cast_lt] at order
  rw [Bool.eq_iff_iff, decide_eq_true_eq]
  exact order

theorem tsAdd_tsDelta (a b : Nat) : tsAdd (tsDelta a) (tsDelta b) = tsDelta (a + b) := by
  obtain ⟨time, normal⟩ := tsAdd_spec (tsDelta_spec a).2 (tsDelta_spec b).2
  obtain ⟨sum, small⟩ := tsDelta_spec (a + b)
  rw [(tsDelta_spec a).1, (tsDelta_spec b).1, ← Nat.cast_add, ← sum] at time
  exact normalised_ext normal small time

/-- Two packets at intervals of 1.5 microseconds, the second one after a long delay. -/
def twoTurns : List Turn :=
  [⟨readingAt 5999999900, 3 / 2, [readingAt 6000000000, readingAt 6000001200], readingAt 6000001400⟩,
    ⟨readingAt 6000007000, 3 / 2, [], readingAt 6000007100⟩]

/-- A third one right after them. -/
def lastTurn : Turn := ⟨readingAt 6000007200, 3 / 2, [], readingAt 6000007300⟩

def threeTurns : List Turn := twoTurns ++ [lastTurn]

/-- The same packets from a thread that sleeps between them. -/
def asleep (turns : List Turn) : List Turn := turns.map fun t => { t with early := [] }

theorem periodNs_sampled : periodNs (3 / 2) = some 1500 := by
  norm_num [periodNs, truncate]
  rfl

theorem threeTurns_paced : pace true (readingAt 5999999800).toTimespec threeTurns = some (tsDelta 6000004300) := by
  have start : (readingAt 5999999800).toTimespec = tsDelta 5999999800 := rfl
  simp only [threeTurns, twoTurns, lastTurn, List.cons_append, List.nil_append, pace, periodNs_sampled, start,
    Option.bind_eq_bind, Option.bind_some, tsAdd_tsDelta, waits, List.all_cons, List.all_nil, tsLeq_readingAt]
  decide

theorem threeTurns_forward : Forward (readingAt 5999999800).nanos threeTurns := by
  simp [Forward, threeTurns, twoTurns, lastTurn, readingAt, Turn.readings, tsDelta, Timespec.nanos, nsecPerSec]

theorem threeTurns_prompt :
    Prompt true 1200 1200 5600 (readingAt 5999999800).nanos (readingAt 5999999800).nanos 100 threeTurns := by
  simp [Prompt, Spaced, threeTurns, twoTurns, lastTurn, readingAt, Turn.readings, tsDelta, Timespec.nanos, nsecPerSec]

theorem asleep_paced :
    pace false (readingAt 5999999800).toTimespec (asleep threeTurns) = some (tsDelta 6000004300) := by
  have start : (readingAt 5999999800).toTimespec = tsDelta 5999999800 := rfl
  simp only [asleep, threeTurns, twoTurns, lastTurn, List.cons_append, List.nil_append, List.map_cons, List.map_nil,
    pace, periodNs_sampled, start, Option.bind_eq_bind, Option.bind_some, tsAdd_tsDelta, waits]
  decide

theorem asleep_forward : Forward (readingAt 5999999800).nanos (asleep threeTurns) := by
  simp [Forward, asleep, threeTurns, twoTurns, lastTurn, readingAt, Turn.readings, tsDelta, Timespec.nanos, nsecPerSec]

theorem asleep_slept : Slept (readingAt 5999999800).toTimespec (asleep threeTurns) := by
  have start : (readingAt 5999999800).toTimespec = tsDelta 5999999800 := rfl
  have time : ∀ a : Nat, (readingAt a).nanos = a := fun a => (tsDelta_spec a).1
  simp [Slept, asleep, threeTurns, twoTurns, lastTurn, periodNs_sampled, start, tsAdd_tsDelta, tsDelta_spec, time]

theorem asleep_prompt :
    Prompt false 1200 1200 5600 (readingAt 5999999800).nanos (readingAt 5999999800).nanos 100 (asleep threeTurns) := by
  have period : ∀ sent early resumed, Turn.period ⟨sent, 3 / 2, early, resumed⟩ = 1500 := fun sent early resumed => by
    norm_num [Turn.period, truncate]
  simp [Prompt, asleep, threeTurns, twoTurns, lastTurn, period, readingAt, tsDelta, Timespec.nanos, nsecPerSec]

theorem packets_paced_three :
    (0 ≤ lateness (readingAt 5999999800).nanos twoTurns lastTurn ∧
      lateness (readingAt 5999999800).nanos twoTurns lastTurn ≤
        backlog (1200 + 5600) 100 (twoTurns.map fun u => 1200 + 5600 - u.period)) ∧
    0 ≤ lateness (readingAt 5999999800).nanos (asleep twoTurns) lastTurn ∧
      lateness (readingAt 5999999800).nanos (asleep twoTurns) lastTurn ≤
        backlog (1200 + 5600) 100 ((asleep twoTurns).map fun u => 1200 + 5600 - u.period) :=
  have spinning := (packets_paced threeTurns_paced threeTurns_forward nofun).2 twoTurns lastTurn [] rfl
  have sleeping := (packets_paced asleep_paced asleep_forward fun _ => asleep_slept).2 (asleep twoTurns) lastTurn [] rfl
  ⟨⟨spinning.1, (spinning.2 1200 1200 5600 100 threeTurns_prompt).1⟩,
    ⟨sleeping.1, (sleeping.2 1200 1200 5600 100 asleep_prompt).1⟩⟩

end Pacing
