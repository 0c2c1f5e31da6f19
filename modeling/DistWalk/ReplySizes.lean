import DistWalk.ClientOptions
import DistWalk.RejectionSampling

/-!
# The sizes of the replies

The client clamps the limits of a response size, not the size: a limit that is
not given stays NaN, a fixed size has no limits, and a uniform one has no order
between them. So the clamped limits bound the samples of a sequence or a file
only where both are given.
-/

namespace ReplySizes

open Message Template ClientOptions RejectionSampling

/-! ## Specifications -/

/-- A comparison with NaN is false. -/
def numGe (a b : Option ℚ) : Bool := a.any fun x => b.any fun y => decide (y ≤ x)

def numLt (a b : Option ℚ) : Bool := a.any fun x => b.any fun y => decide (x < y)

/-- An operation on NaN is NaN. -/
def numOp (op : ℚ → ℚ → ℚ) (a b : Option ℚ) : Option ℚ := a.bind fun x => b.map (op x)

/-- The first token of a specification. A file is what `pd_load_file` reads from
its column. The distributions whose parameters come from `exp` or `sqrt` are
left out, with the two whose samples come from `log`. -/
inductive PdHead
  | none
  | unif
  | aseq
  | gseq
  | file (column : List ℚ)
  | value (v : Option ℚ)

/-- A further token: `step=` is for a sequence and `unit=` for a file; `k=` and
`scale=` are read and not used. -/
inductive PdToken
  | min (v : Option ℚ)
  | max (v : Option ℚ)
  | std (v : Option ℚ)
  | k (v : Option ℚ)
  | scale (v : Option ℚ)
  | avg (v : Option ℚ)
  | step (v : Option ℚ)
  | unit (factor : ℚ)
  | value (v : Option ℚ)

def headType : PdHead → PdType
  | .none => .none
  | .unif => .unif
  | .aseq => .arithSeq
  | .gseq => .geoSeq
  | .file _ => .sfile
  | .value _ => .fixed

/-- The specification and `file_unit_us` before the loop over the tokens. -/
def pdStart (head : PdHead) : PdSpec × ℚ :=
  let column := match head with | .file column => column | _ => []
  let val := match head with | .value v => v | _ => none
  (⟨headType head, val, none, none, none, column, 0⟩, 1)

def isSeq (p : PdSpec) : Bool := p.prob = .arithSeq || p.prob = .geoSeq

/-- One token; `none` is an exit at one that is not recognized. -/
def pdToken (t : PdSpec × ℚ) : PdToken → Option (PdSpec × ℚ)
  | .min v => some ({ t.1 with min := v }, t.2)
  | .max v => some ({ t.1 with max := v }, t.2)
  | .std v => some ({ t.1 with std := v }, t.2)
  | .k _ => some t
  | .scale _ => some t
  | .avg v => some ({ t.1 with val := v }, t.2)
  | .step v => if isSeq t.1 then some ({ t.1 with std := v }, t.2) else none
  | .unit factor => if t.1.prob = .sfile then some (t.1, factor) else none
  | .value v => some ({ t.1 with val := v }, t.2)

/-- The step of a sequence that does not move it: its neutral element. -/
def stillStep (p : PdSpec) : ℚ := if p.prob = .arithSeq then 0 else 1

/-- The step and the start of a sequence that are not given. -/
def pdDefaults (p : PdSpec) : PdSpec :=
  let std := if p.std.isNone then
    (if p.prob = .arithSeq then some 1 else if p.prob = .geoSeq then some 2 else none) else p.std
  let val := if isSeq p && p.val.isNone then
    (if numGe std (some (stillStep p)) then p.min else p.max) else p.val
  { p with std := std, val := val }

/-- The checks at the end. An empty file fails in `pd_load_file`. -/
def pdChecks (p : PdSpec) : Bool :=
  match p.prob with
  | .fixed => p.val.isSome
  | .unif => p.min.isSome && p.max.isSome
  | .sfile => !p.samples.isEmpty
  | .arithSeq | .geoSeq =>
    p.val.isSome && (numGe p.std (some (stillStep p)) && p.max.isSome ||
      numLt p.std (some (stillStep p)) && p.min.isSome)
  | _ => true

/-- `pd_parse_bytes` on an argument split at the colons. -/
def pdParseBytes (head : PdHead) (tokens : List PdToken) : Option PdSpec :=
  match tokens.foldlM pdToken (pdStart head) with
  | none => none
  | some (p, factor) =>
    let p := pdDefaults { p with samples := p.samples.map (· * factor) }
    if pdChecks p then some p else none

/-! ## Samples -/

/-- The specification as the samples drawn from it leave it, and how often a random
number has been generated for it. -/
structure Sampler where
  spec : PdSpec
  calls : Nat

/-- The next value of a sequence once it has moved to `v`. -/
def saturate (p : PdSpec) (v : Option ℚ) : Option ℚ :=
  if numGe v p.max then p.max else if numGe p.min v then p.min else v

/-- The `switch` of `pd_sample`. A uniform value takes a result of `drand48_r`; what
`gen` stands for in the other random cases is the result of their generator. -/
def pdNext (gen : Nat → ℚ) (s : Sampler) : Option ℚ × Sampler :=
  let p := s.spec
  match p.prob with
  | .none => (none, s)
  | .fixed => (p.val, s)
  | .unif =>
    (numOp (· + ·) p.min ((numOp (· - ·) p.max p.min).map (· * gen s.calls)), { s with calls := s.calls + 1 })
  | .arithSeq => (p.val, { s with spec := { p with val := saturate p (numOp (· + ·) p.val p.std) } })
  | .geoSeq => (p.val, { s with spec := { p with val := saturate p (numOp (· * ·) p.val p.std) } })
  | .sfile =>
    (p.samples[p.curSample]?, { s with spec := { p with curSample := (p.curSample + 1) % p.samples.length } })
  | _ => (some (gen s.calls), { s with calls := s.calls + 1 })

/-- Whether `pd_sample` returns the value. A fixed and a uniform one are returned
from the `switch`; sampling from `PD_NONE` ends the client. -/
def pdAccepts (s : Sampler) (v : Option ℚ) : Bool :=
  match s.spec.prob with
  | .none => false
  | .fixed | .unif => true
  | _ => !(numLt v s.spec.min || numLt s.spec.max v)

/-- `pd_sample`, within `fuel` turns of its loop. -/
def pdSample (gen : Nat → ℚ) (fuel : Nat) (s : Sampler) : Option (Option ℚ × Sampler) :=
  retry (pdNext gen) pdAccepts fuel s

/-- A `double` stored in a `uint32_t`, where the language defines it. -/
def storedSize (v : Option ℚ) : Option Nat :=
  v.bind fun q => if -1 < q ∧ q < 2 ^ 32 then some (truncate q).toNat else none

/-- The `resp_size` of one REPLY of the template in `n` requests, as `ccmd_dump` stores it. -/
def respSizes (gen : Nat → ℚ) (fuel : Nat) : Nat → Sampler → List (Option Nat)
  | 0, _ => []
  | n + 1, s =>
    match pdSample gen fuel s with
    | none => []
    | some (v, s') => storedSize v :: respSizes gen fuel n s'

/-- A size that the node accepts. -/
def Sized (size : Option Nat) : Prop := ∃ b, size = some b ∧ minReplySize ≤ b ∧ b ≤ bufSize

/-! ## When the limits bound the samples -/

/-- A value between the least reply and the buffer, rounded down. -/
def fits (v : Option ℚ) : Bool := numGe v (some minReplySize) && numLt v (some (bufSize + 1))

/-- The operation of a sequence. -/
def seqOp (p : PdSpec) : ℚ → ℚ → ℚ := if p.prob = .arithSeq then (· + ·) else (· * ·)

/-- The condition on a parsed size, by its kind. A fixed one fits, and the limits of
a uniform one lie on the right side of the bounds. A sequence has both limits. Or
it has an upper one, and neither that nor its start is too small; or it has a lower
one, and neither that nor its start is too large, nor what it first moves to from
below. The samples of a file fit unless the limits reject them. -/
def bounded (p : PdSpec) : Bool :=
  match p.prob with
  | .fixed => fits p.val
  | .unif => numLt p.min (some (bufSize + 1)) && numGe p.max (some minReplySize)
  | .arithSeq | .geoSeq =>
    match p.min, p.max with
    | none, some b => numGe p.val (some minReplySize) && decide (minReplySize ≤ b)
    | some a, none =>
      numLt p.val (some (bufSize + 1)) && decide (a < bufSize + 1) &&
        (!numLt p.val (some (max a minReplySize)) ||
          numLt (numOp (seqOp p) p.val p.std) (some (bufSize + 1)))
    | _, _ => true
  | .sfile => p.samples.all fun q => !pdAccepts ⟨clampReply p, 0⟩ (some q) || fits (some q)
  | _ => true

theorem fits_some (q : ℚ) : fits (some q) = true ↔ minReplySize ≤ q ∧ q < bufSize + 1 := by
  simp [fits, numGe, numLt]

theorem fits_none : fits none = false := rfl

theorem truncate_of_nonneg {q : ℚ} (nonneg : 0 ≤ q) : truncate q = ⌊q⌋ := by
  rw [truncate, Int.tdiv_eq_ediv_of_nonneg (Rat.num_nonneg.mpr nonneg), Rat.floor_def']

theorem truncate_of_neg {q : ℚ} (neg : q < 0) : truncate q ≤ 0 := by
  have num := Rat.num_neg.mpr neg
  have opposite := Int.tdiv_nonneg (show 0 ≤ -q.num by omega) (show (0 : Int) ≤ q.den by omega)
  rw [Int.neg_tdiv] at opposite
  rw [truncate]
  omega

theorem sized_storedSize (v : Option ℚ) : Sized (storedSize v) ↔ fits v = true := by
  have buf : bufSize = 16777216 := rfl
  have least : minReplySize = 12 := rfl
  cases v with
  | none => simp [Sized, storedSize, fits_none]
  | some q =>
    rw [fits_some, least, buf]
    constructor
    · rintro ⟨b, stored, low, high⟩
      simp only [storedSize, Option.bind_some] at stored
      split at stored
      · cases stored
        have nonneg : 0 ≤ q := by
          by_contra neg
          have := truncate_of_neg (not_le.mp neg)
          omega
        rw [truncate_of_nonneg nonneg] at low high
        have floor_low : 12 ≤ ⌊q⌋ := by omega
        have floor_high : ⌊q⌋ < 16777217 := by omega
        constructor
        · exact_mod_cast Int.le_floor.mp floor_low
        · have := Int.floor_lt.mp floor_high
          push_cast at this ⊢
          linarith
      · cases stored
    · rintro ⟨low, high⟩
      push_cast at low high
      have nonneg : 0 ≤ q := by linarith
      have floor_low : 12 ≤ ⌊q⌋ := Int.le_floor.mpr (by exact_mod_cast low)
      have floor_high : ⌊q⌋ < 16777217 := Int.floor_lt.mpr (by push_cast; linarith)
      refine ⟨(truncate q).toNat, ?_, ?_, ?_⟩
      · rw [storedSize, Option.bind_some, if_pos]
        constructor <;> linarith
      · rw [truncate_of_nonneg nonneg]
        omega
      · rw [truncate_of_nonneg nonneg]
        omega

/-! ## What the parser accepts -/

/-- What `pd_parse_bytes` leaves in a specification, beyond its checks. -/
structure Parsed (p : PdSpec) : Prop where
  checked : pdChecks p = true
  known : p.prob = .none ∨ p.prob = .fixed ∨ p.prob = .unif ∨ isSeq p = true ∨ p.prob = .sfile
  first : p.curSample = 0

/-- What a token leaves as it is. -/
theorem pdToken_frame {t t' : PdSpec × ℚ} {token : PdToken} (h : pdToken t token = some t') :
    t'.1.prob = t.1.prob ∧ t'.1.curSample = t.1.curSample := by
  cases token with
  | step v =>
    simp only [pdToken] at h
    split at h
    · cases h
      exact ⟨rfl, rfl⟩
    · cases h
  | unit factor =>
    simp only [pdToken] at h
    split at h
    · cases h
      exact ⟨rfl, rfl⟩
    · cases h
  | _ =>
    cases h
    exact ⟨rfl, rfl⟩

theorem pdTokens_frame {tokens : List PdToken} {t t' : PdSpec × ℚ}
    (h : tokens.foldlM pdToken t = some t') :
    t'.1.prob = t.1.prob ∧ t'.1.curSample = t.1.curSample := by
  induction tokens generalizing t with
  | nil =>
    cases h
    exact ⟨rfl, rfl⟩
  | cons token rest ih =>
    rw [List.foldlM_cons] at h
    obtain ⟨u, first, later⟩ := Option.bind_eq_some_iff.mp h
    have one := pdToken_frame first
    have all := ih later
    exact ⟨all.1.trans one.1, all.2.trans one.2⟩

theorem pdParseBytes_spec {head : PdHead} {tokens : List PdToken} {p : PdSpec}
    (h : pdParseBytes head tokens = some p) : Parsed p := by
  simp only [pdParseBytes] at h
  cases folded : tokens.foldlM pdToken (pdStart head) with
  | none =>
    simp only [folded] at h
    cases h
  | some t =>
    obtain ⟨u, factor⟩ := t
    have frame := pdTokens_frame folded
    simp only [folded] at h
    split at h
    · rename_i checked
      simp only [Option.some.injEq] at h
      subst h
      refine ⟨checked, ?_, frame.2⟩
      have prob : u.prob = headType head := frame.1
      simp only [isSeq, pdDefaults, prob]
      cases head <;> simp [headType]
    · cases h

/-! ## Each kind of specification -/

/-- Results of `drand48_r`. -/
def Unit01 (gen : Nat → ℚ) : Prop := ∀ k, 0 ≤ gen k ∧ gen k < 1

/-- All sizes that all runs of requests carry are accepted by the node. -/
def AlwaysSized (val : PdSpec) : Prop :=
  ∀ gen, Unit01 gen → ∀ fuel n, ∀ size ∈ respSizes gen fuel n ⟨val, 0⟩, Sized size

/-- The sizes are those of the values drawn. -/
theorem respSizes_eq (gen : Nat → ℚ) (fuel n : Nat) (s : Sampler) :
    respSizes gen fuel n s = (drawMany (pdNext gen) pdAccepts fuel n s).map storedSize := by
  induction n generalizing s with
  | zero => rfl
  | succ n ih =>
    simp only [respSizes, drawMany, pdSample]
    cases retry (pdNext gen) pdAccepts fuel s with
    | none => rfl
    | some r => exact congrArg (storedSize r.1 :: ·) (ih r.2)

/-- The value that the sampler tries at its `k`-th turn. -/
def tried (gen : Nat → ℚ) (val : PdSpec) (k : Nat) : Option ℚ :=
  (pdNext gen (ahead (pdNext gen) k ⟨val, 0⟩)).1

theorem alwaysSized_iff (val : PdSpec) : AlwaysSized val ↔ ∀ gen, Unit01 gen → ∀ k,
    pdAccepts (ahead (pdNext gen) k ⟨val, 0⟩) (tried gen val k) = true → fits (tried gen val k) = true := by
  have sized : ∀ gen fuel n, (∀ size ∈ respSizes gen fuel n ⟨val, 0⟩, Sized size) ↔
      ∀ v ∈ drawMany (pdNext gen) pdAccepts fuel n ⟨val, 0⟩, fits v = true := by
    intro gen fuel n
    simp only [respSizes_eq, List.forall_mem_map, sized_storedSize]
  simp only [AlwaysSized, sized, forall_drawMany]
  rfl

theorem clampReply_some {p : PdSpec} (some_kind : p.prob ≠ .none) : clampReply p = { p with
    min := p.min.map (max · (minReplySize : ℚ)), max := p.max.map (min · (bufSize : ℚ)) } := by
  have low : (fun x : ℚ => if x < minReplySize then (minReplySize : ℚ) else x) =
      fun x => max x (minReplySize : ℚ) := by
    funext x
    rcases lt_or_ge x (minReplySize : ℚ) with below | above
    · rw [if_pos below, max_eq_right (le_of_lt below)]
    · rw [if_neg (not_lt.mpr above), max_eq_left above]
  have high : (fun x : ℚ => if x > bufSize then (bufSize : ℚ) else x) =
      fun x => min x (bufSize : ℚ) := by
    funext x
    rcases lt_or_ge (bufSize : ℚ) x with above | below
    · rw [if_pos above, min_eq_right (le_of_lt above)]
    · rw [if_neg (not_lt.mpr below), min_eq_left below]
  simp only [clampReply, pdIsNone, some_kind, decide_false, Bool.false_eq_true, if_false, low, high]

theorem fixed_ahead (gen : Nat → ℚ) {val : PdSpec} (kind : val.prob = .fixed) (k : Nat) :
    ahead (pdNext gen) k ⟨val, 0⟩ = ⟨val, 0⟩ := by
  induction k with
  | zero => rfl
  | succ k ih =>
    rw [ahead_succ', ih]
    simp only [pdNext, kind]

/-- A fixed size is never clamped. -/
theorem fixed_sized {p : PdSpec} (kind : p.prob = .fixed) : AlwaysSized p ↔ fits p.val = true := by
  rw [alwaysSized_iff]
  have value : ∀ gen k, tried gen p k = p.val := by
    intro gen k
    rw [tried, fixed_ahead gen kind]
    simp only [pdNext, kind]
  constructor
  · intro all
    have first := all (fun _ => 0) (fun _ => ⟨le_refl 0, one_pos⟩) 0
    rw [value] at first
    apply first
    rw [fixed_ahead _ kind]
    simp only [pdAccepts, kind]
  · intro fit gen _ k _
    rw [value]
    exact fit

theorem unif_ahead (gen : Nat → ℚ) {val : PdSpec} (kind : val.prob = .unif) (k : Nat) :
    ahead (pdNext gen) k ⟨val, 0⟩ = ⟨val, k⟩ := by
  induction k with
  | zero => rfl
  | succ k ih =>
    rw [ahead_succ', ih]
    simp only [pdNext, kind]

/-- All values between two limits, in any order, fit if and only if the first fits and
the second, which is not reached, is not too small. -/
theorem between_fits {a b : ℚ} (low : (minReplySize : ℚ) ≤ a) (high : b ≤ bufSize) :
    (∀ x, 0 ≤ x → x < 1 → fits (some (a + (b - a) * x)) = true) ↔
      a < bufSize + 1 ∧ minReplySize ≤ b := by
  simp only [fits_some]
  constructor
  · intro all
    constructor
    · have first := (all 0 (le_refl 0) one_pos).2
      linarith
    · by_contra small
      have small := not_le.mp small
      have gap : 0 < a - b := by linarith
      have near : (minReplySize - b) / (2 * (a - b)) ≤ 1 / 2 := by
        rw [div_le_div_iff₀ (by linarith) (by norm_num)]
        linarith
      have pos : 0 < (minReplySize - b) / (2 * (a - b)) := div_pos (by linarith) (by linarith)
      have below := (all (1 - (minReplySize - b) / (2 * (a - b))) (by linarith) (by linarith)).1
      have half : (a - b) * ((minReplySize - b) / (2 * (a - b))) = (minReplySize - b) / 2 := by
        field_simp
      have expand : a + (b - a) * (1 - (minReplySize - b) / (2 * (a - b))) =
          b + (a - b) * ((minReplySize - b) / (2 * (a - b))) := by ring
      rw [expand, half] at below
      linarith
  · rintro ⟨first, last⟩ x nonneg below
    have expand : a + (b - a) * x = (1 - x) * a + x * b := by ring
    rw [expand]
    constructor
    · have := mul_le_mul_of_nonneg_left low (show 0 ≤ 1 - x by linarith)
      have := mul_le_mul_of_nonneg_left last nonneg
      linarith
    · have := mul_lt_mul_of_pos_left first (show 0 < 1 - x by linarith)
      have := mul_le_mul_of_nonneg_left high nonneg
      linarith

theorem unif_sized {p : PdSpec} (kind : p.prob = .unif) {a b : ℚ} (min_eq : p.min = some a)
    (max_eq : p.max = some b) : AlwaysSized (clampReply p) ↔ a < bufSize + 1 ∧ minReplySize ≤ b := by
  have buf : (bufSize : ℚ) = 16777216 := by norm_num [bufSize]
  have least : (minReplySize : ℚ) = 12 := by norm_num [minReplySize, messageHeader]
  have some_kind : p.prob ≠ .none := by simp [kind]
  rw [alwaysSized_iff, clampReply_some some_kind]
  generalize hc : { p with min := p.min.map (max · (minReplySize : ℚ)), max := p.max.map (min · (bufSize : ℚ)) } = c
  have kind_c : c.prob = .unif := by rw [← hc]; exact kind
  have value : ∀ gen k, tried gen c k =
      some (max a minReplySize + (min b bufSize - max a minReplySize) * gen k) := by
    intro gen k
    rw [tried, unif_ahead gen kind_c]
    simp only [pdNext, kind_c]
    simp [← hc, min_eq, max_eq, numOp]
  have accepted : ∀ gen k v, pdAccepts (ahead (pdNext gen) k ⟨c, 0⟩) v = true := by
    intro gen k v
    rw [unif_ahead gen kind_c]
    simp only [pdAccepts, kind_c]
  have between := between_fits (le_max_right a (minReplySize : ℚ)) (min_le_right b (bufSize : ℚ))
  have same : (max a (minReplySize : ℚ) < bufSize + 1 ∧ (minReplySize : ℚ) ≤ min b bufSize) ↔
      a < bufSize + 1 ∧ minReplySize ≤ b := by
    rw [max_lt_iff, le_min_iff, buf, least]
    norm_num
  rw [← same, ← between]
  simp only [value, accepted, true_imp_iff]
  constructor
  · intro all x nonneg below
    exact all (fun _ => x) (fun _ => ⟨nonneg, below⟩) 0
  · intro all gen unit k
    exact all (gen k) (unit k).1 (unit k).2

/-! ## Sequences -/

section Sequence

variable {c : PdSpec} {v d : ℚ}

/-- The limits that are given admit the value. -/
def InLimits (c : PdSpec) (w : ℚ) : Prop := (∀ a ∈ c.min, a ≤ w) ∧ ∀ b ∈ c.max, w ≤ b

theorem seq_next (gen : Nat → ℚ) (kind : isSeq c = true) (std : c.std = some d) (w : ℚ) :
    pdNext gen ⟨{ c with val := some w }, 0⟩ =
      (some w, ⟨{ c with val := saturate c (some (seqOp c w d)) }, 0⟩) := by
  rcases Bool.or_eq_true_iff.mp kind with arith | geo
  · have arith := of_decide_eq_true arith
    simp [pdNext, arith, seqOp, numOp, std, saturate]
  · have geo := of_decide_eq_true geo
    simp [pdNext, geo, seqOp, numOp, std, saturate]

theorem seq_accepts (kind : isSeq c = true) (w : ℚ) :
    pdAccepts ⟨{ c with val := some w }, 0⟩ (some w) = true ↔ InLimits c w := by
  have checked : pdAccepts ⟨{ c with val := some w }, 0⟩ (some w) =
      !(numLt (some w) c.min || numLt c.max (some w)) := by
    rcases Bool.or_eq_true_iff.mp kind with arith | geo
    · simp only [pdAccepts, of_decide_eq_true arith]
    · simp only [pdAccepts, of_decide_eq_true geo]
  rw [checked, InLimits]
  cases c.min <;> cases c.max <;> simp [numLt]

/-- A sequence stays where its steps keep it. -/
theorem seq_invariant {I : ℚ → Prop} (kind : isSeq c = true) (val : c.val = some v)
    (std : c.std = some d) (start : I v)
    (step : ∀ w, I w → ∃ w', saturate c (some (seqOp c w d)) = some w' ∧ I w') (gen : Nat → ℚ) (k : Nat) :
    ∃ w, ahead (pdNext gen) k ⟨c, 0⟩ = ⟨{ c with val := some w }, 0⟩ ∧ I w := by
  induction k with
  | zero =>
    refine ⟨v, ?_, start⟩
    rw [← val]
    rfl
  | succ k ih =>
    obtain ⟨w, here, inv⟩ := ih
    obtain ⟨w', moved, kept⟩ := step w inv
    refine ⟨w', ?_, kept⟩
    rw [ahead_succ', here, seq_next gen kind std, moved]

theorem seq_sized_of {I : ℚ → Prop} (kind : isSeq c = true) (val : c.val = some v)
    (std : c.std = some d) (start : I v)
    (step : ∀ w, I w → ∃ w', saturate c (some (seqOp c w d)) = some w' ∧ I w')
    (fit : ∀ w, I w → InLimits c w → fits (some w) = true) : AlwaysSized c := by
  rw [alwaysSized_iff]
  intro gen _ k
  obtain ⟨w, here, inv⟩ := seq_invariant kind val std start step gen k
  rw [tried, here, seq_next gen kind std]
  intro accepted
  exact fit w inv ((seq_accepts kind w).mp accepted)

/-- The first value of a sequence is sized, unless it is rejected. -/
theorem seq_first (kind : isSeq c = true) (val : c.val = some v) (std : c.std = some d)
    (sized : AlwaysSized c) (within : InLimits c v) : fits (some v) = true := by
  have start : (⟨c, 0⟩ : Sampler) = ⟨{ c with val := some v }, 0⟩ := by rw [← val]
  have all := (alwaysSized_iff c).mp sized (fun _ => 0) (fun _ => ⟨le_refl 0, one_pos⟩) 0
  simp only [tried, ahead, Function.iterate_zero, id] at all
  rw [start, seq_next _ kind std] at all
  exact all ((seq_accepts kind v).mpr within)

/-- So is the second. -/
theorem seq_second {w : ℚ} (kind : isSeq c = true) (val : c.val = some v) (std : c.std = some d)
    (sized : AlwaysSized c) (moved : saturate c (some (seqOp c v d)) = some w) (within : InLimits c w) :
    fits (some w) = true := by
  have start : (⟨c, 0⟩ : Sampler) = ⟨{ c with val := some v }, 0⟩ := by rw [← val]
  have all := (alwaysSized_iff c).mp sized (fun _ => 0) (fun _ => ⟨le_refl 0, one_pos⟩) 1
  simp only [tried, ahead, Function.iterate_one] at all
  rw [start, seq_next _ kind std, moved, seq_next _ kind std] at all
  exact all ((seq_accepts kind w).mpr within)

/-- With both limits all accepted values of a sequence lie between them. -/
theorem seq_both {a b : ℚ} (kind : isSeq c = true) (val : c.val = some v) (std : c.std = some d)
    (min_eq : c.min = some a) (max_eq : c.max = some b) (low : (minReplySize : ℚ) ≤ a)
    (high : b ≤ bufSize) : AlwaysSized c := by
  refine seq_sized_of (I := fun _ => True) kind val std trivial ?_ ?_
  · intro w _
    simp only [saturate, min_eq, max_eq]
    split
    · exact ⟨b, rfl, trivial⟩
    · split
      · exact ⟨a, rfl, trivial⟩
      · exact ⟨_, rfl, trivial⟩
  · rintro w - ⟨above, below⟩
    have := above a min_eq
    have := below b max_eq
    rw [fits_some]
    constructor <;> linarith

/-- An upper limit alone does not keep a sequence above the least reply. -/
theorem seq_upper {b : ℚ} (kind : isSeq c = true) (val : c.val = some v) (std : c.std = some d)
    (min_eq : c.min = none) (max_eq : c.max = some b) (high : b ≤ bufSize)
    (grows : ∀ w, (minReplySize : ℚ) ≤ w → w ≤ seqOp c w d) :
    AlwaysSized c ↔ (minReplySize : ℚ) ≤ v ∧ (minReplySize : ℚ) ≤ b := by
  have moved : ∀ x, saturate c (some x) = some (min x b) := by
    intro x
    simp only [saturate, min_eq, max_eq, numGe, Option.any_some, Option.any_none, decide_eq_true_eq]
    split
    · rename_i above
      rw [min_eq_right above]
    · rename_i below
      rw [min_eq_left (le_of_lt (not_le.mp below))]
      rfl
  have within : ∀ w, InLimits c w ↔ w ≤ b := by
    intro w
    simp [InLimits, min_eq, max_eq]
  constructor
  · intro sized
    have second := seq_second kind val std sized (moved _) ((within _).mpr (min_le_right _ b))
    have upper : (minReplySize : ℚ) ≤ b := ((fits_some _).mp second).1.trans (min_le_right _ b)
    refine ⟨?_, upper⟩
    by_contra small
    have first := seq_first kind val std sized ((within v).mpr (by linarith))
    exact small ((fits_some v).mp first).1
  · rintro ⟨first, upper⟩
    refine seq_sized_of (I := fun w => (minReplySize : ℚ) ≤ w) kind val std first ?_ ?_
    · intro w low
      exact ⟨_, moved _, le_min (low.trans (grows w low)) upper⟩
    · intro w low inside
      have := (within w).mp inside
      rw [fits_some]
      exact ⟨low, by linarith⟩

/-- A lower limit alone does not keep a sequence within the buffer. -/
theorem seq_lower {a : ℚ} (kind : isSeq c = true) (val : c.val = some v) (std : c.std = some d)
    (min_eq : c.min = some a) (max_eq : c.max = none) (low : (minReplySize : ℚ) ≤ a)
    (shrinks : ∀ w, (minReplySize : ℚ) ≤ w → seqOp c w d ≤ w) :
    AlwaysSized c ↔ v < bufSize + 1 ∧ a < bufSize + 1 ∧ (v < a → seqOp c v d < bufSize + 1) := by
  have moved : ∀ x, saturate c (some x) = some (max x a) := by
    intro x
    simp only [saturate, min_eq, max_eq, numGe, Option.any_some, Option.any_none, decide_eq_true_eq]
    rw [if_neg (by simp)]
    split
    · rename_i below
      rw [max_eq_right below]
    · rename_i above
      rw [max_eq_left (le_of_lt (not_le.mp above))]
  have within : ∀ w, InLimits c w ↔ a ≤ w := by
    intro w
    simp [InLimits, min_eq, max_eq]
  constructor
  · intro sized
    rcases lt_or_ge v a with below | above
    · have second := (fits_some _).mp
        (seq_second kind val std sized (moved _) ((within _).mpr (le_max_right _ a)))
      have := le_max_left (seqOp c v d) a
      have := le_max_right (seqOp c v d) a
      refine ⟨?_, ?_, fun _ => ?_⟩ <;> linarith [second.2]
    · have first := (fits_some v).mp (seq_first kind val std sized ((within v).mpr above))
      exact ⟨first.2, by linarith [first.2], fun below => absurd below (not_lt.mpr above)⟩
  · rintro ⟨first, limit, rising⟩
    -- a value below the limit is rejected; what it moves to is not
    refine seq_sized_of (I := fun w => w < bufSize + 1 ∧ (w < a → seqOp c w d < bufSize + 1)) kind val
      std ⟨first, rising⟩ ?_ ?_
    · rintro w ⟨high, rising⟩
      refine ⟨_, moved _, max_lt ?_ limit, ?_⟩
      · rcases lt_or_ge w a with below | above
        · exact rising below
        · exact lt_of_le_of_lt (shrinks w (low.trans above)) high
      · intro below
        exact absurd (le_max_right _ a) (not_le.mpr below)
    · rintro w ⟨high, -⟩ inside
      rw [fits_some]
      exact ⟨low.trans ((within w).mp inside), high⟩

theorem seq_grows (kind : isSeq c = true) (up : stillStep c ≤ d) {w : ℚ}
    (low : (minReplySize : ℚ) ≤ w) : w ≤ seqOp c w d := by
  have nonneg : 0 ≤ w := le_trans (Nat.cast_nonneg _) low
  rcases Bool.or_eq_true_iff.mp kind with arith | geo
  · have arith := of_decide_eq_true arith
    simp only [stillStep, seqOp, arith, if_true] at up ⊢
    linarith
  · have geo := of_decide_eq_true geo
    have up : 1 ≤ d := by simpa [stillStep, geo] using up
    have op : seqOp c w d = w * d := by simp [seqOp, geo]
    rw [op]
    exact le_mul_of_one_le_right nonneg up

theorem seq_shrinks (kind : isSeq c = true) (down : d < stillStep c) {w : ℚ}
    (low : (minReplySize : ℚ) ≤ w) : seqOp c w d ≤ w := by
  have nonneg : 0 ≤ w := le_trans (Nat.cast_nonneg _) low
  rcases Bool.or_eq_true_iff.mp kind with arith | geo
  · have arith := of_decide_eq_true arith
    simp only [stillStep, seqOp, arith, if_true] at down ⊢
    linarith
  · have geo := of_decide_eq_true geo
    have down : d < 1 := by simpa [stillStep, geo] using down
    have op : seqOp c w d = w * d := by simp [seqOp, geo]
    rw [op]
    exact mul_le_of_le_one_right nonneg (le_of_lt down)

end Sequence

/-- What the checks say of a sequence. -/
theorem seq_checked {p : PdSpec} (kind : isSeq p = true) (checked : pdChecks p = true) :
    ∃ v d, p.val = some v ∧ p.std = some d ∧
      (stillStep p ≤ d ∧ p.max ≠ none ∨ d < stillStep p ∧ p.min ≠ none) := by
  have spelled : (p.val.isSome && (numGe p.std (some (stillStep p)) && p.max.isSome ||
      numLt p.std (some (stillStep p)) && p.min.isSome)) = true := by
    rcases Bool.or_eq_true_iff.mp kind with arith | geo
    · simpa only [pdChecks, of_decide_eq_true arith] using checked
    · simpa only [pdChecks, of_decide_eq_true geo] using checked
  cases val : p.val with
  | none => simp [val] at spelled
  | some v =>
    cases std : p.std with
    | none => simp [numGe, numLt, std] at spelled
    | some d =>
      refine ⟨v, d, rfl, rfl, ?_⟩
      simpa [val, std, numGe, numLt, Option.isSome_iff_ne_none] using spelled

theorem seq_sized {p : PdSpec} (kind : isSeq p = true) (checked : pdChecks p = true) :
    AlwaysSized (clampReply p) ↔ bounded p = true := by
  have buf : (bufSize : ℚ) = 16777216 := by norm_num [bufSize]
  have least : (minReplySize : ℚ) = 12 := by norm_num [minReplySize, messageHeader]
  obtain ⟨v, d, val, std, way⟩ := seq_checked kind checked
  have some_kind : p.prob ≠ .none := by
    intro e
    simp [isSeq, e] at kind
  have spelled : bounded p = match p.min, p.max with
      | none, some b => numGe p.val (some minReplySize) && decide (minReplySize ≤ b)
      | some a, none =>
        numLt p.val (some (bufSize + 1)) && decide (a < bufSize + 1) &&
          (!numLt p.val (some (max a minReplySize)) ||
            numLt (numOp (seqOp p) p.val p.std) (some (bufSize + 1)))
      | _, _ => true := by
    rcases Bool.or_eq_true_iff.mp kind with arith | geo
    · simp only [bounded, of_decide_eq_true arith]
    · simp only [bounded, of_decide_eq_true geo]
  rw [clampReply_some some_kind, spelled]
  cases min_eq : p.min with
  | none =>
    cases max_eq : p.max with
    | none =>
      rcases way with ⟨-, no⟩ | ⟨-, no⟩
      · exact absurd max_eq no
      · exact absurd min_eq no
    | some b =>
      have up : stillStep p ≤ d := by
        rcases way with ⟨up, -⟩ | ⟨-, no⟩
        · exact up
        · exact absurd min_eq no
      refine Iff.trans (seq_upper kind val std rfl rfl (min_le_right _ _) fun w low =>
        seq_grows kind up low) ?_
      simp only [val, numGe, Option.any_some, Bool.and_eq_true, decide_eq_true_eq, le_min_iff, buf, least]
      norm_num
  | some a =>
    cases max_eq : p.max with
    | none =>
      have down : d < stillStep p := by
        rcases way with ⟨-, no⟩ | ⟨down, -⟩
        · exact absurd max_eq no
        · exact down
      refine Iff.trans (seq_lower kind val std rfl rfl (le_max_right _ _) fun w low =>
        seq_shrinks kind down low) ?_
      have limit : max a (minReplySize : ℚ) < bufSize + 1 ↔ a < bufSize + 1 := by
        rw [max_lt_iff, buf, least]
        norm_num
      simp only [val, std, numLt, numOp, Option.any_some, Option.bind_some, Option.map_some,
        Bool.and_eq_true, Bool.or_eq_true, Bool.not_eq_true', decide_eq_true_eq, decide_eq_false_iff_not,
        ← imp_iff_not_or, and_assoc, limit]
      rfl
    | some b =>
      simp only [Option.map_some, iff_true]
      exact seq_both kind val std rfl rfl (le_max_right _ _) (min_le_right _ _)

/-! ## Files, defaults and the whole -/

theorem file_ahead (gen : Nat → ℚ) {c : PdSpec} (kind : c.prob = .sfile) (first : c.curSample = 0) (k : Nat) :
    ahead (pdNext gen) k ⟨c, 0⟩ = ⟨{ c with curSample := k % c.samples.length }, 0⟩ := by
  induction k with
  | zero =>
    have start : ({ c with curSample := 0 } : PdSpec) = c := by rw [← first]
    rw [Nat.zero_mod, start]
    rfl
  | succ k ih =>
    rw [ahead_succ', ih]
    simp only [pdNext, kind, Nat.mod_add_mod]

/-- The samples of a file come one after the other, from the first again. -/
theorem file_sized {c : PdSpec} (kind : c.prob = .sfile) (first : c.curSample = 0)
    (nonempty : c.samples ≠ []) : AlwaysSized c ↔
      ∀ q ∈ c.samples, pdAccepts ⟨c, 0⟩ (some q) = true → fits (some q) = true := by
  rw [alwaysSized_iff]
  have length := List.length_pos_iff.mpr nonempty
  have value : ∀ gen k, tried gen c k = c.samples[k % c.samples.length]? := by
    intro gen k
    rw [tried, file_ahead gen kind first]
    simp only [pdNext, kind]
  have accepts : ∀ gen k v, pdAccepts (ahead (pdNext gen) k ⟨c, 0⟩) v = pdAccepts ⟨c, 0⟩ v := by
    intro gen k v
    rw [file_ahead gen kind first]
    simp only [pdAccepts]
  simp only [value, accepts]
  constructor
  · intro all q member accepted
    obtain ⟨i, inside, here⟩ := List.mem_iff_getElem.mp member
    have reached := all (fun _ => 0) (fun _ => ⟨le_refl 0, one_pos⟩) i
    rw [Nat.mod_eq_of_lt inside, List.getElem?_eq_getElem inside, here] at reached
    exact reached accepted
  · intro all gen _ k accepted
    have inside := Nat.mod_lt k length
    rw [List.getElem?_eq_getElem inside] at accepted ⊢
    exact all _ (List.getElem_mem inside) accepted

/-- Where no size is given, the default one fits. -/
theorem none_sized {p : PdSpec} (kind : p.prob = .none) : AlwaysSized (clampReply p) := by
  have default_spec : clampReply p = pdBuildFixed defaultRespSize := by
    simp [clampReply, pdIsNone, kind, pdBuildFixed]
  rw [default_spec]
  refine (fixed_sized rfl).mpr ?_
  simp only [pdBuildFixed, fits_some, defaultRespSize, minReplySize, messageHeader, bufSize]
  norm_num

/-- The sizes of a reply are accepted by the node in every run of requests if and only
if the parsed size is bounded. -/
theorem reply_sizes_iff {head : PdHead} {tokens : List PdToken} {p : PdSpec}
    (parsed : pdParseBytes head tokens = some p) : AlwaysSized (clampReply p) ↔ bounded p = true := by
  obtain ⟨checked, known, first⟩ := pdParseBytes_spec parsed
  rcases known with none_kind | fixed | unif | seq | file
  · simp only [none_sized none_kind, bounded, none_kind]
  · have clamped : (clampReply p).prob = .fixed := by
      rw [clampReply_some (by simp [fixed])]
      exact fixed
    have same : (clampReply p).val = p.val := by
      rw [clampReply_some (by simp [fixed])]
    rw [fixed_sized clamped, same]
    simp only [bounded, fixed]
  · have limits : p.min.isSome = true ∧ p.max.isSome = true := by
      simpa [pdChecks, unif] using checked
    obtain ⟨a, min_eq⟩ := Option.isSome_iff_exists.mp limits.1
    obtain ⟨b, max_eq⟩ := Option.isSome_iff_exists.mp limits.2
    rw [unif_sized unif min_eq max_eq]
    simp [bounded, unif, min_eq, max_eq, numLt, numGe]
  · exact seq_sized seq checked
  · have some_kind : p.prob ≠ .none := by simp [file]
    have nonempty : p.samples ≠ [] := by
      simpa [pdChecks, file] using checked
    have clamped : (clampReply p).prob = .sfile ∧ (clampReply p).curSample = 0 ∧
        (clampReply p).samples = p.samples := by
      rw [clampReply_some some_kind]
      exact ⟨file, first, rfl⟩
    rw [file_sized clamped.1 clamped.2.1 (by rw [clamped.2.2]; exact nonempty), clamped.2.2]
    simp [bounded, file, imp_iff_not_or]

/-- A sequence from 1000 to 5000 by steps of 1000 has both limits. -/
theorem sequence_sized : AlwaysSized (clampReply
    ⟨.arithSeq, some 1000, some 1000, some 1000, some 5000, [], 0⟩) := by
  have parsed : pdParseBytes .aseq [.min (some 1000), .max (some 5000), .step (some 1000)] =
      some ⟨.arithSeq, some 1000, some 1000, some 1000, some 5000, [], 0⟩ := by decide
  exact (reply_sizes_iff parsed).mpr rfl

/-- A fixed size of 4 bytes is parsed, and kept, and stored in every reply. -/
theorem fixed_unclamped : ∃ p, pdParseBytes (.value (some 4)) [] = some p ∧
    ¬ AlwaysSized (clampReply p) := by
  refine ⟨⟨.fixed, some 4, none, none, none, [], 0⟩, by decide, ?_⟩
  rintro sized
  obtain ⟨b, stored, low, -⟩ := sized (fun _ => 0) (fun _ => ⟨le_refl 0, one_pos⟩) 1 1 (some 4)
    (by decide)
  cases stored
  revert low
  decide

end ReplySizes
