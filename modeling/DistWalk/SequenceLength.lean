import DistWalk.ReplySizes

/-!
# The length of an arithmetic sequence

`--num-pkts=auto` takes the number of rates from `pd_len`, which divides the range of
a sequence by its step and adds one. That is the number of samples up to the last
value of a rising sequence whose step divides the range. A step that does not is one
sample short, since the last one is clamped, and a negative step gives no length.
-/

namespace SequenceLength

open Template ClientOptions ReplySizes RejectionSampling

/-- A `double` that is stored in an `int`, where the language defines it. -/
def storedInt (q : ℚ) : Option Int :=
  if -2 ^ 31 ≤ truncate q ∧ truncate q < 2 ^ 31 then some (truncate q) else none

/-- The first `n` samples, with up to `fuel` turns for each. -/
def samples (gen : Nat → ℚ) (fuel n : Nat) (p : PdSpec) : List (Option ℚ) :=
  drawMany (pdNext gen) pdAccepts fuel n ⟨p, 0⟩

/-- No token sets the start. -/
def DefaultStart (tokens : List PdToken) : Prop :=
  ∀ t ∈ tokens, (∀ v, t ≠ .avg v) ∧ ∀ v, t ≠ .value v

/-- An arithmetic sequence over integers, as it is parsed. -/
structure Ramp where
  tokens : List PdToken
  spec : PdSpec
  min : Int
  max : Int
  step : Int
  parsed : pdParseBytes .aseq tokens = some spec
  start : DefaultStart tokens
  least : spec.min = some (min : ℚ)
  greatest : spec.max = some (max : ℚ)
  std : spec.std = some (step : ℚ)
  less : min < max
  moves : step ≠ 0

/-- The value that the sequence stays at. -/
def Ramp.last (r : Ramp) : Int := if 0 < r.step then r.max else r.min

theorem pdToken_val {t t' : PdSpec × ℚ} {token : PdToken} (h : pdToken t token = some t')
    (other : (∀ v, token ≠ .avg v) ∧ ∀ v, token ≠ .value v) : t'.1.val = t.1.val := by
  cases token with
  | avg v => exact absurd rfl (other.1 v)
  | value v => exact absurd rfl (other.2 v)
  | step v =>
    simp only [pdToken] at h
    split at h
    · cases h
      rfl
    · cases h
  | unit factor =>
    simp only [pdToken] at h
    split at h
    · cases h
      rfl
    · cases h
  | _ =>
    cases h
    rfl

theorem pdTokens_val {tokens : List PdToken} {t t' : PdSpec × ℚ}
    (h : tokens.foldlM pdToken t = some t') (start : DefaultStart tokens) : t'.1.val = t.1.val := by
  induction tokens generalizing t with
  | nil =>
    cases h
    rfl
  | cons token rest ih =>
    rw [List.foldlM_cons] at h
    obtain ⟨u, first, later⟩ := Option.bind_eq_some_iff.mp h
    have one := pdToken_val first (start token (List.mem_cons_self ..))
    have all := ih later fun t inside => start t (List.mem_cons_of_mem _ inside)
    exact all.trans one

section Ramp

variable (r : Ramp)

theorem Ramp.kind : r.spec.prob = .arithSeq := by
  have parsed := r.parsed
  simp only [pdParseBytes] at parsed
  cases folded : r.tokens.foldlM pdToken (pdStart .aseq) with
  | none =>
    simp only [folded] at parsed
    cases parsed
  | some t =>
    have frame := pdTokens_frame folded
    simp only [folded] at parsed
    split at parsed
    · simp only [Option.some.injEq] at parsed
      rw [← parsed]
      exact frame.1
    · cases parsed

/-- A sequence starts at the end that it moves away from. -/
theorem Ramp.starts : r.spec.val = some ((if 0 < r.step then r.min else r.max : Int) : ℚ) := by
  have parsed := r.parsed
  have least := r.least
  have greatest := r.greatest
  have std := r.std
  simp only [pdParseBytes] at parsed
  cases folded : r.tokens.foldlM pdToken (pdStart .aseq) with
  | none =>
    simp only [folded] at parsed
    cases parsed
  | some t =>
    have frame := pdTokens_frame folded
    have val := pdTokens_val folded r.start
    simp only [folded] at parsed
    split at parsed
    · simp only [Option.some.injEq] at parsed
      rw [← parsed] at least greatest std ⊢
      have seq : isSeq t.1 = true := by simp [isSeq, frame.1, pdStart, headType]
      have arith : t.1.prob = .arithSeq := frame.1
      have open_ : t.1.val = none := val
      simp only [pdDefaults] at least greatest std ⊢
      have still : stillStep { t.1 with samples := t.1.samples.map (· * t.2) } = 0 := by
        simp [stillStep, arith]
      have seq' : isSeq { t.1 with samples := t.1.samples.map (· * t.2) } = true := seq
      rw [still, seq', std, open_]
      simp only [Option.isNone_none, Bool.and_true, if_true, numGe, Option.any_some, least, greatest]
      have moves := r.moves
      by_cases up : 0 < r.step
      · have rises : (0 : ℚ) ≤ (r.step : ℚ) := by exact_mod_cast le_of_lt up
        simp [up, rises]
      · have falls : ¬ (0 : ℚ) ≤ (r.step : ℚ) := by
          have : r.step < 0 := by omega
          push Not
          exact_mod_cast this
        simp [up, falls]
    · cases parsed

/-! ## The samples -/

/-- The value after `k` steps. -/
def Ramp.level (k : Nat) : Int :=
  if 0 < r.step then Min.min (r.min + k * r.step) r.max else Max.max (r.max + k * r.step) r.min

theorem Ramp.saturates (k : Nat) :
    saturate r.spec (some ((r.level k : ℚ) + (r.step : ℚ))) = some ((r.level (k + 1) : Int) : ℚ) := by
  have less := r.less
  have moves := r.moves
  have sum : (r.level k : ℚ) + (r.step : ℚ) = ((r.level k + r.step : Int) : ℚ) := by push_cast; rfl
  have above : numGe (some ((r.level k + r.step : Int) : ℚ)) (some (r.max : ℚ)) =
      decide (r.max ≤ r.level k + r.step) := by
    simp only [numGe, Option.any_some]
    exact decide_eq_decide.mpr Int.cast_le
  have below : numGe (some (r.min : ℚ)) (some ((r.level k + r.step : Int) : ℚ)) =
      decide (r.level k + r.step ≤ r.min) := by
    simp only [numGe, Option.any_some]
    exact decide_eq_decide.mpr Int.cast_le
  have next : r.level (k + 1) = if r.max ≤ r.level k + r.step then r.max
      else if r.level k + r.step ≤ r.min then r.min else r.level k + r.step := by
    have product : ((k + 1 : Nat) : Int) * r.step = k * r.step + r.step := by push_cast; ring
    have sign : 0 < r.step → 0 ≤ (k : Int) * r.step := fun up =>
      Int.mul_nonneg (Int.natCast_nonneg k) (le_of_lt up)
    have sign' : ¬ 0 < r.step → (k : Int) * r.step ≤ 0 := fun down =>
      Int.mul_nonpos_of_nonneg_of_nonpos (Int.natCast_nonneg k) (not_lt.mp down)
    simp only [Ramp.level, product]
    by_cases up : 0 < r.step
    · have := sign up
      simp only [if_pos up]
      split
      · omega
      · split
        · omega
        · omega
    · have := sign' up
      simp only [if_neg up]
      split
      · omega
      · split
        · omega
        · omega
  rw [sum, saturate, r.greatest, r.least, above, below, next]
  simp only [decide_eq_true_eq]
  split
  · rfl
  · split
    · rfl
    · rfl

theorem Ramp.level_within (k : Nat) : r.min ≤ r.level k ∧ r.level k ≤ r.max := by
  have less := r.less
  have up : 0 < r.step → 0 ≤ (k : Int) * r.step := fun up =>
    Int.mul_nonneg (Int.natCast_nonneg k) (le_of_lt up)
  have down : ¬ 0 < r.step → (k : Int) * r.step ≤ 0 := fun down =>
    Int.mul_nonpos_of_nonneg_of_nonpos (Int.natCast_nonneg k) (not_lt.mp down)
  simp only [Ramp.level]
  split
  · rename_i rising
    have := up rising
    omega
  · rename_i falling
    have := down falling
    omega

/-- No sample is drawn twice: all levels lie between the limits. -/
theorem Ramp.draws (gen : Nat → ℚ) (fuel n k : Nat) :
    drawMany (pdNext gen) pdAccepts (fuel + 1) n ⟨{ r.spec with val := some (r.level k : ℚ) }, 0⟩ =
      (List.range' k n).map fun j => some ((r.level j : Int) : ℚ) := by
  have seq : isSeq r.spec = true := by simp [isSeq, r.kind]
  induction n generalizing k with
  | zero => rfl
  | succ n ih =>
    have moved := seq_next gen seq r.std (r.level k : ℚ)
    have within := r.level_within k
    have accepted : pdAccepts ⟨{ r.spec with val := some (r.level k : ℚ) }, 0⟩
        (some (r.level k : ℚ)) = true := by
      apply (seq_accepts seq _).mpr
      constructor
      · intro a least
        rw [r.least, Option.mem_some_iff] at least
        rw [← least]
        exact_mod_cast within.1
      · intro b greatest
        rw [r.greatest, Option.mem_some_iff] at greatest
        rw [← greatest]
        exact_mod_cast within.2
    have op : seqOp r.spec (r.level k : ℚ) (r.step : ℚ) = (r.level k : ℚ) + (r.step : ℚ) := by
      simp [seqOp, r.kind]
    rw [op, r.saturates] at moved
    simp only [drawMany, retry, moved, accepted, if_true, List.range'_succ, List.map_cons, ih (k + 1)]

end Ramp

/-- A C library in which nothing is random. -/
def still : ℚ → ℚ := fun _ => 0

end SequenceLength
