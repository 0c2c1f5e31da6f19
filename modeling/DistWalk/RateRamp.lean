import DistWalk.EventRuns
import DistWalk.SequenceLength

/-!
# The rate ramp of the sender

After each packet the sender draws a rate for every step that has begun since the packet
before. It takes that packet's time from the array in which both are recorded. With
`--per-session-output` the array is reused from session to session and zeroed in between,
so at the first packet of a session the steps are counted from the start again, and in
sessions of one packet no step is ever seen. The first packet of all draws nothing. A rate
that is drawn is cut to an `int`.
-/

namespace RateRamp

open ClientOptions SequenceLength EventRuns

/-- `rates` are the samples of `--rate`, the first of them drawn with the options. -/
structure Setup where
  perSessionOutput : Bool
  useNano : Bool
  pktsPerSession : Nat
  rampStepSecs : Nat
  ramps : 0 < rampStepSecs
  rates : Nat → ℚ

/-- The array that the receiver zeroes as well, the samples drawn after the first one, and
`send_period_us_pd`. `last` is when the last packet was sent, and `sending` the packet that
has been recorded since, with its time. -/
structure World where
  usecsSend : Nat → Int
  drawn : Nat
  period : ℚ
  last : Int
  sending : Option (Nat × Int)

def World.init (s : Setup) : World := ⟨fun _ => 0, 0, 1000000 / s.rates 0, 0, none⟩

def Setup.idx (s : Setup) (pktId : Nat) : Nat :=
  if s.perSessionOutput then pktId % s.pktsPerSession else pktId

def Setup.timeDiv (s : Setup) : Int := if s.useNano then 1000000000 else 1000000

/-- `long` to `int`. -/
def toInt (v : Int) : Int := (v + 2 ^ 31) % 2 ^ 32 - 2 ^ 31

/-- `step_prev` and `step`. -/
def Setup.stepOf (s : Setup) (usecs : Int) : Int := toInt ((usecs.tdiv s.timeDiv).tdiv s.rampStepSecs)

/-- `rate`, which is checked to be positive. -/
def sampledRate (q : ℚ) : Option Int := do
  let rate ← storedInt q
  if 0 < rate then some rate else none

/-- So many turns of the loop that draws, on the samples drawn and the period. -/
def drawRates (s : Setup) : Nat → Nat × ℚ → Option (Nat × ℚ)
  | 0, x => some x
  | turns + 1, (drawn, _) => do
    let rate ← sampledRate (s.rates (drawn + 1))
    drawRates s turns (drawn + 1, 1000000 / rate)

/-- The packet before has left its time in the array, and it lies in an earlier step. -/
def Seen (s : Setup) (w : World) (pktId : Nat) : Prop :=
  0 < pktId ∧ s.stepOf (w.usecsSend (s.idx (pktId - 1))) < s.stepOf (w.usecsSend (s.idx pktId))

instance (s : Setup) (w : World) (pktId : Nat) : Decidable (Seen s w pktId) :=
  inferInstanceAs (Decidable (_ ∧ _))

/-- The turns of `while (step_prev++ < step)`. -/
def turns (s : Setup) (w : World) (pktId : Nat) : Nat :=
  if 0 < pktId then
    (s.stepOf (w.usecsSend (s.idx pktId)) - s.stepOf (w.usecsSend (s.idx (pktId - 1)))).toNat
  else 0

inductive Event
  /-- The sender records the time of a packet. -/
  | record (pktId : Nat) (usecs : Int)
  /-- The receiver ends a session. -/
  | reset
  /-- The sender has sent the packet and adapts its rate. -/
  | ramp

def step (s : Setup) (w : World) : Event → Option World
  | .record pktId usecs =>
    if w.sending = none ∧ w.last ≤ usecs then
      some { w with
        usecsSend := Function.update w.usecsSend (s.idx pktId) usecs
        sending := some (pktId, usecs) }
    else none
  | .reset => if s.perSessionOutput then some { w with usecsSend := fun _ => 0 } else none
  | .ramp => do
    let (pktId, usecs) ← w.sending
    let (drawn, period) ← drawRates s (turns s w pktId) (w.drawn, w.period)
    some { w with drawn := drawn, period := period, last := usecs, sending := none }

/-- The worlds that events lead to, when every ramp meets a condition on the world before it
and the packet. -/
def Reached (s : Setup) (ok : World → Nat → Int → Prop) : World → Prop :=
  Reaches (step s) (.init s) fun w e => e = .ramp → ∀ p t, w.sending = some (p, t) → ok w p t

/-- The number of the step that a time lies in. -/
def Setup.stepAt (s : Setup) (t : Int) : Nat := (t / (s.timeDiv * s.rampStepSecs)).toNat

/-- As many samples have been drawn as steps have begun, and the period belongs to the last. -/
structure OnRamp (s : Setup) (w : World) : Prop where
  drawn : w.drawn = s.stepAt w.last
  period : w.period = 1000000 / s.rates (s.stepAt w.last)

/-- An `int` that is at least 1. -/
def Fair (q : ℚ) : Prop := 0 < truncate q ∧ truncate q < 2 ^ 31

/-- Where the array shows a new step, it shows the step of the last packet before it, and
where it shows none there is none; the steps have their number in an `int`; and the samples
for the steps that have begun are positive as `int`s, the last of them without being cut. -/
structure Follows (s : Setup) (w : World) (pktId : Nat) (t : Int) : Prop where
  steps : if Seen s w pktId then s.stepOf (w.usecsSend (s.idx (pktId - 1))) = s.stepAt w.last
    else s.stepAt t = s.stepAt w.last
  int : s.stepAt t < 2 ^ 31
  fair : ∀ j, s.stepAt w.last < j → j ≤ s.stepAt t → Fair (s.rates j)
  whole : s.stepAt w.last < s.stepAt t → (truncate (s.rates (s.stepAt t)) : ℚ) = s.rates (s.stepAt t)

/-! ## Drawing -/

theorem sampledRate_eq (q : ℚ) : sampledRate q = some (truncate q) ∧ Fair q ∨ sampledRate q = none ∧ ¬ Fair q := by
  rw [sampledRate, storedInt, Fair]
  split
  · rename_i range
    by_cases positive : 0 < truncate q
    · left
      exact ⟨by simp [positive], positive, range.2⟩
    · right
      exact ⟨by simp [positive], fun fair => positive fair.1⟩
  · rename_i range
    right
    refine ⟨rfl, fun fair => range ⟨?_, fair.2⟩⟩
    have := fair.1
    omega

/-- The loop draws one sample a turn, and the period is that of the last one. -/
theorem drawRates_iff (s : Setup) {m d d' : Nat} {x x' : ℚ} : drawRates s m (d, x) = some (d', x') ↔
    d' = d + m ∧ (∀ j, d < j → j ≤ d + m → Fair (s.rates j)) ∧
      x' = if m = 0 then x else 1000000 / truncate (s.rates (d + m)) := by
  induction m generalizing d x with
  | zero =>
    simp only [drawRates, Option.some.injEq, Prod.mk.injEq, Nat.add_zero, if_true]
    constructor
    · rintro ⟨rfl, rfl⟩
      exact ⟨rfl, fun j after before => absurd (Nat.lt_of_lt_of_le after before) (Nat.lt_irrefl _), rfl⟩
    · rintro ⟨rfl, -, rfl⟩
      exact ⟨rfl, rfl⟩
  | succ m ih =>
    have next : d + 1 + m = d + (m + 1) := by omega
    rcases sampledRate_eq (s.rates (d + 1)) with ⟨sampled, fair⟩ | ⟨none, unfair⟩
    · have turn : drawRates s (m + 1) (d, x) = drawRates s m (d + 1, 1000000 / truncate (s.rates (d + 1))) := by
        rw [drawRates, sampled]
        rfl
      rw [turn, ih, next, if_neg (Nat.succ_ne_zero m)]
      refine and_congr_right fun _ => and_congr ?_ ?_
      · constructor
        · intro later j after before
          by_cases first : j = d + 1
          · exact first ▸ fair
          · exact later j (by omega) before
        · intro all j after before
          exact all j (by omega) before
      · by_cases last : m = 0
        · subst last
          rw [if_pos rfl]
        · rw [if_neg last]
    · have turn : drawRates s (m + 1) (d, x) = Option.none := by
        rw [drawRates, none]
        rfl
      rw [turn]
      constructor
      · intro drawn
        cases drawn
      · rintro ⟨-, all, -⟩
        exact absurd (all (d + 1) (by omega) (by omega)) unfair

/-! ## Steps -/

section Steps

variable {s : Setup} {t t' : Int}

theorem Setup.timeDiv_pos (s : Setup) : 0 < s.timeDiv := by
  rw [Setup.timeDiv]
  split
  · decide
  · decide

theorem Setup.stepAt_mono (s : Setup) (later : t ≤ t') : s.stepAt t ≤ s.stepAt t' := by
  have positive := Int.mul_pos s.timeDiv_pos (Int.natCast_pos.mpr s.ramps)
  exact Int.toNat_le_toNat (Int.ediv_le_ediv positive later)

/-- The code counts the steps in an `int`. -/
theorem Setup.stepOf_eq (s : Setup) (nonneg : 0 ≤ t) : s.stepOf t = toInt (s.stepAt t) := by
  have positive := Int.mul_pos s.timeDiv_pos (Int.natCast_pos.mpr s.ramps)
  have first := Int.ediv_nonneg nonneg (Int.le_of_lt s.timeDiv_pos)
  rw [Setup.stepOf, Setup.stepAt, Int.tdiv_eq_ediv_of_nonneg nonneg, Int.tdiv_eq_ediv_of_nonneg first,
    Int.ediv_ediv_of_nonneg (Int.le_of_lt s.timeDiv_pos),
    Int.toNat_of_nonneg (Int.ediv_nonneg nonneg (Int.le_of_lt positive))]

theorem toInt_small {k : Nat} (small : k < 2 ^ 31) : toInt k = k := by
  rw [toInt]
  omega

theorem toInt_lt (k : Nat) : toInt k < 2 ^ 31 ∧ (2 ^ 31 ≤ k → toInt k ≤ k - 2 ^ 32) := by
  rw [toInt]
  omega

/-- Steps that are counted from `c` on are those from `a` on exactly if `c` is `a`, and the
last of them is an `int`. -/
theorem counted_iff {a b c : Nat} (small : a < 2 ^ 31) (earlier : c ≤ a) (seen : toInt c < toInt b) :
    a + (toInt b - toInt c).toNat = b ↔ toInt c = a ∧ b < 2 ^ 31 := by
  have shown := toInt_small (Nat.lt_of_le_of_lt earlier small)
  obtain ⟨bound, large⟩ := toInt_lt b
  rw [shown] at seen ⊢
  by_cases inside : b < 2 ^ 31
  · rw [toInt_small inside] at seen ⊢
    omega
  · have wrapped := large (Nat.not_lt.mp inside)
    omega

end Steps

/-! ## One ramp -/

/-- The slots hold times of packets that have been sent, or zeros, and all is well so far. -/
structure Sound (s : Setup) (w : World) : Prop where
  start : 0 ≤ w.last
  small : s.stepAt w.last < 2 ^ 31
  past : ∀ i, (∀ p t, w.sending = some (p, t) → i ≠ s.idx p) → 0 ≤ w.usecsSend i ∧ w.usecsSend i ≤ w.last
  present : ∀ p t, w.sending = some (p, t) →
    w.last ≤ t ∧ (w.usecsSend (s.idx p) = t ∨ w.usecsSend (s.idx p) = 0)
  ramp : OnRamp s w

section Ramp

variable {s : Setup} {w w' : World} {p : Nat} {t : Int}

theorem turns_unseen (unseen : ¬ Seen s w p) : turns s w p = 0 := by
  rw [turns]
  split
  · rename_i positive
    have order : ¬ _ := fun less => unseen ⟨positive, less⟩
    rw [Int.toNat_eq_zero]
    omega
  · rfl

/-- A new step is seen between two slots, of which the later one holds the time of this
packet and the other one an earlier time. -/
theorem Sound.seen (h : Sound s w) (here : w.sending = some (p, t)) (seen : Seen s w p) :
    w.usecsSend (s.idx p) = t ∧ 0 ≤ w.usecsSend (s.idx (p - 1)) ∧ w.usecsSend (s.idx (p - 1)) ≤ w.last := by
  have other : s.idx (p - 1) ≠ s.idx p := by
    intro same
    have less := seen.2
    rw [same] at less
    exact lt_irrefl _ less
  have past := h.past (s.idx (p - 1)) (by
    intro p' t' here'
    rw [here] at here'
    cases here'
    exact other)
  refine ⟨(h.present p t here).2.resolve_right ?_, past⟩
  intro zero
  have less := seen.2
  have small := Nat.lt_of_le_of_lt (s.stepAt_mono past.2) h.small
  rw [zero, s.stepOf_eq past.1, toInt_small small] at less
  have nothing : s.stepOf 0 = 0 := by simp [Setup.stepOf, toInt]
  omega

theorem Sound.turns_iff (h : Sound s w) (here : w.sending = some (p, t)) :
    s.stepAt w.last + turns s w p = s.stepAt t ↔
      (if Seen s w p then s.stepOf (w.usecsSend (s.idx (p - 1))) = s.stepAt w.last
        else s.stepAt t = s.stepAt w.last) ∧ s.stepAt t < 2 ^ 31 := by
  have later := (h.present p t here).1
  by_cases seen : Seen s w p
  · obtain ⟨present, nonneg, before⟩ := h.seen here seen
    have shown := seen.2
    rw [turns, if_pos seen.1, if_pos seen]
    rw [present, s.stepOf_eq nonneg, s.stepOf_eq (le_trans h.start later)] at shown ⊢
    exact counted_iff h.small (s.stepAt_mono before) shown
  · have small := h.small
    rw [turns_unseen seen, if_neg seen]
    omega

/-- Where the samples that the steps ask for are drawn, the period is the one of the step. -/
theorem period_iff {a b : Nat} {x : ℚ} (before : x = 1000000 / s.rates a) (order : a ≤ b) :
    ((∀ j, a < j → j ≤ b → Fair (s.rates j)) ∧
      1000000 / s.rates b = if b - a = 0 then x else 1000000 / (truncate (s.rates b) : ℚ)) ↔
    (∀ j, a < j → j ≤ b → Fair (s.rates j)) ∧ (a < b → (truncate (s.rates b) : ℚ) = s.rates b) := by
  refine and_congr_right fun _ => ?_
  by_cases same : a = b
  · subst same
    simp [before]
  · have less : a < b := Nat.lt_of_le_of_ne order same
    rw [if_neg (by omega)]
    constructor
    · intro equal _
      rw [div_eq_mul_inv, div_eq_mul_inv] at equal
      have million : (1000000 : ℚ) ≠ 0 := by norm_num
      exact (inv_inj.mp (mul_left_cancel₀ million equal)).symm
    · intro whole
      rw [whole less]

theorem Sound.ramp_iff (h : Sound s w) (here : w.sending = some (p, t)) :
    (∃ w', step s w .ramp = some w' ∧ OnRamp s w') ↔ Follows s w p t := by
  have order := s.stepAt_mono (h.present p t here).1
  have drawn : (∃ w', step s w .ramp = some w' ∧ OnRamp s w') ↔
      drawRates s (turns s w p) (s.stepAt w.last, w.period) =
        some (s.stepAt t, 1000000 / s.rates (s.stepAt t)) := by
    simp only [step, here, Option.bind_eq_bind, Option.bind_some, h.ramp.drawn]
    constructor
    · rintro ⟨w', done, drawn, period⟩
      obtain ⟨⟨d, x⟩, drew, rest⟩ := Option.bind_eq_some_iff.mp done
      cases rest
      rw [drew]
      exact congrArg some (Prod.ext drawn period)
    · intro drew
      rw [drew]
      exact ⟨_, rfl, rfl, rfl⟩
  rw [drawn, drawRates_iff]
  constructor
  · rintro ⟨total, fair, period⟩
    obtain ⟨steps, int⟩ := (h.turns_iff here).mp total.symm
    have count : s.stepAt t - s.stepAt w.last = turns s w p := by omega
    rw [← total] at fair period
    rw [← count] at period
    obtain ⟨-, whole⟩ := (period_iff h.ramp.period order).mp ⟨fair, period⟩
    exact ⟨steps, int, fair, whole⟩
  · rintro ⟨steps, int, fair, whole⟩
    have total := (h.turns_iff here).mpr ⟨steps, int⟩
    have count : s.stepAt t - s.stepAt w.last = turns s w p := by omega
    obtain ⟨-, period⟩ := (period_iff h.ramp.period order).mpr ⟨fair, whole⟩
    rw [count] at period
    rw [total]
    exact ⟨rfl, fair, period⟩

end Ramp

/-! ## Runs -/

theorem sound_init (s : Setup) : Sound s (.init s) where
  start := le_refl _
  small := by simp [World.init, Setup.stepAt]
  past _ _ := ⟨le_refl _, le_refl _⟩
  present p t here := by cases here
  ramp := ⟨by simp [World.init, Setup.stepAt], by simp [World.init, Setup.stepAt]⟩

section Runs

variable {s : Setup} {w w' : World}

theorem Sound.record (h : Sound s w) (idle : w.sending = none) {p : Nat} {t : Int} (later : w.last ≤ t) :
    Sound s { w with usecsSend := Function.update w.usecsSend (s.idx p) t, sending := some (p, t) } where
  start := h.start
  small := h.small
  past i other := by
    have away : i ≠ s.idx p := other p t rfl
    simp only [Function.update_of_ne away]
    exact h.past i fun p' t' here => by
      rw [idle] at here
      cases here
  present p' t' here := by
    cases here
    exact ⟨later, .inl (Function.update_self ..)⟩
  ramp := ⟨h.ramp.drawn, h.ramp.period⟩

theorem Sound.reset (h : Sound s w) : Sound s { w with usecsSend := fun _ => 0 } where
  start := h.start
  small := h.small
  past _ _ := ⟨le_refl _, h.start⟩
  present p t here := ⟨(h.present p t here).1, .inr rfl⟩
  ramp := ⟨h.ramp.drawn, h.ramp.period⟩

/-- A ramp that stays on the ramp. -/
theorem Sound.ramped (h : Sound s w) {p : Nat} {t : Int} (here : w.sending = some (p, t))
    (int : s.stepAt t < 2 ^ 31) {x : Nat × ℚ}
    (onRamp : OnRamp s { w with drawn := x.1, period := x.2, last := t, sending := none }) :
    Sound s { w with drawn := x.1, period := x.2, last := t, sending := none } where
  start := le_trans h.start (h.present p t here).1
  small := int
  past i := by
    intro _
    obtain ⟨later, present⟩ := h.present p t here
    by_cases same : i = s.idx p
    · subst same
      have nonneg := le_trans h.start later
      rcases present with now | zero
      · simp only [now]
        exact ⟨nonneg, le_refl _⟩
      · simp only [zero]
        exact ⟨le_refl _, nonneg⟩
    · obtain ⟨nonneg, before⟩ := h.past i fun p' t' here' => by
        rw [here] at here'
        cases here'
        exact same
      exact ⟨nonneg, le_trans before later⟩
  present p t none := by cases none
  ramp := onRamp

theorem Sound.step (h : Sound s w) {e : Event} (done : step s w e = some w')
    (meets : e = .ramp → ∀ p t, w.sending = some (p, t) → Follows s w p t) : Sound s w' := by
  cases e with
  | record p t =>
    simp only [RateRamp.step] at done
    split at done
    · rename_i allowed
      cases done
      exact h.record allowed.1 allowed.2
    · cases done
  | reset =>
    simp only [RateRamp.step] at done
    split at done
    · cases done
      exact h.reset
    · cases done
  | ramp =>
    have after := done
    obtain ⟨⟨p, t⟩, here, rest⟩ := Option.bind_eq_some_iff.mp done
    have follows := meets rfl p t here
    obtain ⟨w₁, done₁, onRamp⟩ := (h.ramp_iff here).mpr follows
    rw [after] at done₁
    cases done₁
    obtain ⟨x, drew, rest⟩ := Option.bind_eq_some_iff.mp rest
    cases rest
    exact h.ramped here follows.int onRamp

theorem Reached.sound (h : Reached s (Follows s) w) : Sound s w :=
  h.invariant (sound_init s) fun _ _ _ sound meets done => sound.step done meets

end Runs

/-- In a run whose ramps all follow the steps the rate is the one of the step that the last
packet was sent in, and the next ramp keeps it so exactly if it follows them as well. -/
theorem rate_follows_steps {s : Setup} {w : World} (h : Reached s (Follows s) w) :
    (w.drawn = s.stepAt w.last ∧ w.period = 1000000 / s.rates (s.stepAt w.last)) ∧
    ∀ p t, w.sending = some (p, t) →
      ((∃ w', step s w .ramp = some w' ∧ OnRamp s w') ↔ Follows s w p t) := by
  have sound := h.sound
  exact ⟨⟨sound.ramp.drawn, sound.ramp.period⟩, fun p t here => sound.ramp_iff here⟩

/-! ## When the steps are followed -/

section Kinds

variable {s : Setup} {w : World} {p : Nat} {t : Int}

/-- With both times in the array the steps between them are seen. -/
theorem Sound.steps_of_kept (h : Sound s w) (here : w.sending = some (p, t)) (later : 0 < p)
    (before : w.usecsSend (s.idx (p - 1)) = w.last) (now : w.usecsSend (s.idx p) = t) (int : s.stepAt t < 2 ^ 31) :
    if Seen s w p then s.stepOf (w.usecsSend (s.idx (p - 1))) = s.stepAt w.last
      else s.stepAt t = s.stepAt w.last := by
  have order := (h.present p t here).1
  have steps := s.stepAt_mono order
  have last := s.stepOf_eq h.start
  have this := s.stepOf_eq (le_trans h.start order)
  rw [toInt_small h.small] at last
  rw [toInt_small int] at this
  split
  · rw [before, last]
  · rename_i unseen
    by_contra differ
    apply unseen
    refine ⟨later, ?_⟩
    rw [before, now, last, this]
    omega

/-- The first packet of all draws nothing. -/
theorem follows_first (follows : Follows s w 0 t) : s.stepAt t = s.stepAt w.last := by
  have steps := follows.steps
  rwa [if_neg (fun seen => Nat.lt_irrefl 0 seen.1)] at steps

/-- Nothing is seen in sessions of one packet, which share their slot. -/
theorem follows_single (output : s.perSessionOutput = true) (single : s.pktsPerSession = 1)
    (follows : Follows s w p t) : s.stepAt t = s.stepAt w.last := by
  have shared : s.idx (p - 1) = s.idx p := by
    simp only [Setup.idx, output, single, if_true, Nat.mod_one]
  have steps := follows.steps
  rwa [if_neg (fun seen => lt_irrefl _ (shared ▸ seen.2))] at steps

/-- After a reset the steps are counted from the start again: no packet of a later session
follows them at its beginning, once a step has begun. -/
theorem Sound.begun_of_reset (h : Sound s w) (here : w.sending = some (p, t))
    (zero : w.usecsSend (s.idx (p - 1)) = 0) (begun : 0 < s.stepAt w.last) (now : w.usecsSend (s.idx p) = t)
    (later : 0 < p) : ¬ Follows s w p t := by
  intro follows
  have steps := follows.steps
  have order := (h.present p t here).1
  have this := s.stepOf_eq (le_trans h.start order)
  have more := s.stepAt_mono order
  rw [toInt_small follows.int] at this
  have nothing : s.stepOf 0 = 0 := by simp [Setup.stepOf, toInt]
  have seen : Seen s w p := by
    refine ⟨later, ?_⟩
    rw [zero, now, nothing, this]
    omega
  rw [if_pos seen, zero, nothing] at steps
  omega

/-- A packet that has been recorded and follows the steps is sent. -/
theorem Reached.ramp (h : Reached s (Follows s) w) (here : w.sending = some (p, t)) (follows : Follows s w p t) :
    ∃ w', Reached s (Follows s) w' ∧ w'.sending = none ∧ w'.last = t ∧ w'.usecsSend = w.usecsSend := by
  obtain ⟨w', done, -⟩ := (h.sound.ramp_iff here).mpr follows
  have meets : Event.ramp = .ramp → ∀ p' t', w.sending = some (p', t') → Follows s w p' t' := by
    intro _ p' t' here'
    rw [here] at here'
    cases here'
    exact follows
  refine ⟨w', Reaches.step .ramp h meets done, ?_⟩
  obtain ⟨⟨p', t'⟩, here', rest⟩ := Option.bind_eq_some_iff.mp done
  rw [here] at here'
  cases here'
  obtain ⟨x, drew, rest⟩ := Option.bind_eq_some_iff.mp rest
  cases rest
  exact ⟨rfl, rfl, rfl⟩

theorem Reached.record (h : Reached s (Follows s) w) (idle : w.sending = none) (p : Nat) (later : w.last ≤ t) :
    Reached s (Follows s) { w with
      usecsSend := Function.update w.usecsSend (s.idx p) t, sending := some (p, t) } := by
  have taken : step s w (.record p t) = some { w with
      usecsSend := Function.update w.usecsSend (s.idx p) t, sending := some (p, t) } := by
    rw [step, if_pos ⟨idle, later⟩]
  exact Reaches.step (.record p t) h (fun ramp => by cases ramp) taken

end Kinds

/-- Without output for each session the rate follows the steps in every run that begins in
step 0, when the rates are positive `int`s. -/
theorem reached_plain {s : Setup} (plain : s.perSessionOutput = false)
    (rates : ∀ j, 0 < j → Fair (s.rates j) ∧ (truncate (s.rates j) : ℚ) = s.rates j) {times : Nat → Int}
    (start : 0 ≤ times 0) (order : Monotone times) (first : s.stepAt (times 0) = 0)
    (int : ∀ m, s.stepAt (times m) < 2 ^ 31) (m : Nat) :
    ∃ w, Reached s (Follows s) w ∧ w.sending = none ∧ w.last = times m ∧ w.usecsSend m = times m := by
  have own : ∀ p, s.idx p = p := fun p => by simp [Setup.idx, plain]
  have fair : ∀ a b j, a < j → j ≤ b → Fair (s.rates j) := fun a b j after _ => (rates j (by omega)).1
  induction m with
  | zero =>
    have recorded := Reached.record (Reaches.init : Reached s (Follows s) (.init s)) rfl 0 start
    have follows : Follows s { World.init s with
        usecsSend := Function.update (World.init s).usecsSend (s.idx 0) (times 0)
        sending := some (0, times 0) } 0 (times 0) := by
      have unseen : ∀ w, ¬ Seen s w 0 := fun w seen => Nat.lt_irrefl 0 seen.1
      refine ⟨?_, int 0, fair _ _, fun more => ?_⟩
      · rw [if_neg (unseen _), first]
        simp [World.init, Setup.stepAt]
      · rw [first] at more
        exact absurd more (Nat.not_lt_zero _)
    obtain ⟨w', reached, idle, last, same⟩ := recorded.ramp rfl follows
    refine ⟨w', reached, idle, last, ?_⟩
    simp only [same, own, Function.update_self]
  | succ m ih =>
    obtain ⟨w, reached, idle, last, slot⟩ := ih
    have later : w.last ≤ times (m + 1) := by
      rw [last]
      exact order (Nat.le_succ m)
    have recorded := reached.record idle (m + 1) later
    have before : Function.update w.usecsSend (s.idx (m + 1)) (times (m + 1)) (s.idx m) = w.last := by
      rw [own, own, Function.update_of_ne (by omega), slot, last]
    have steps := recorded.sound.steps_of_kept rfl (Nat.succ_pos m) before (Function.update_self ..) (int (m + 1))
    obtain ⟨w', reached', idle', last', same⟩ := recorded.ramp rfl
      ⟨steps, int (m + 1), fair _ _, fun more => (rates _ (by omega)).2⟩
    refine ⟨w', reached', idle', last', ?_⟩
    rw [same, own]
    exact Function.update_self ..

/-- Sessions of two packets, steps of a second, and rates of 10, 20, 30 and so on. -/
def tens : Setup := ⟨true, false, 2, 1, Nat.one_pos, fun k => 10 * (k + 1)⟩

/-- Packets at 0 s, 1 s and, in the next session, 2 s. -/
def twoSessions : List Event :=
  [.record 0 0, .ramp, .record 1 1000000, .ramp, .reset, .record 2 2000000, .ramp]

/-- At the beginning of the second session the first step is counted again. -/
theorem step_counted_twice : ∃ w, Reached tens (fun _ _ _ => True) w ∧ w.last = 2000000 ∧
    tens.stepAt w.last = 2 ∧ w.drawn = 3 ∧ w.period = 1000000 / tens.rates 3 ∧ ¬ OnRamp tens w := by
  have outcome : (run (step tens) (.init tens) twoSessions).map (fun w => (w.last, w.drawn, w.period)) =
      some (2000000, 3, 1000000 / tens.rates 3) := by decide +kernel
  obtain ⟨w, done, values⟩ := Option.map_eq_some_iff.mp outcome
  obtain ⟨last, drawn, period⟩ : w.last = 2000000 ∧ w.drawn = 3 ∧ w.period = 1000000 / tens.rates 3 := by
    simpa only [Prod.mk.injEq] using values
  have steps : tens.stepAt w.last = 2 := by
    rw [last]
    decide
  refine ⟨w, Reaches.init.run (fun _ _ _ _ _ _ => trivial) done, last, steps, drawn, period, ?_⟩
  intro onRamp
  have drew := onRamp.drawn
  rw [drawn, steps] at drew
  exact absurd drew (by decide)

/-- A rate of 10 and then of 20, without output for each session. -/
def tenTwenty : Setup := ⟨false, false, 2, 1, Nat.one_pos, fun k => if k = 0 then 10 else 20⟩

theorem rate_follows_second : ∃ w, Reached tenTwenty (Follows tenTwenty) w ∧ w.last = 1000000 ∧
    w.drawn = 1 ∧ w.period = 1000000 / tenTwenty.rates 1 := by
  have rates : ∀ j, 0 < j → Fair (tenTwenty.rates j) ∧ (truncate (tenTwenty.rates j) : ℚ) = tenTwenty.rates j := by
    intro j later
    have twenty : tenTwenty.rates j = 20 := if_neg (by omega)
    have whole : truncate 20 = 20 := by decide +kernel
    rw [twenty, Fair, whole]
    exact ⟨by decide, by norm_num⟩
  have order : Monotone fun m : Nat => min (1000000 * m : Int) 1000000 := by
    intro a b less
    simp only
    omega
  have steps : tenTwenty.stepAt 1000000 = 1 := by decide
  have int : ∀ m : Nat, tenTwenty.stepAt (min (1000000 * m : Int) 1000000) < 2 ^ 31 := by
    intro m
    have most := tenTwenty.stepAt_mono (min_le_right (1000000 * m : Int) 1000000)
    omega
  obtain ⟨w, reached, -, last, -⟩ := reached_plain rfl rates (by decide) order (by decide) int 1
  have last' : w.last = 1000000 := last
  obtain ⟨drawn, period⟩ := (rate_follows_steps reached).1
  rw [last', steps] at drawn period
  exact ⟨w, reached, last', drawn, period⟩

end RateRamp
