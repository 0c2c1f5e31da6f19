import DistWalk.Scanning
import Mathlib.Data.Finset.Basic
import Mathlib.Data.List.Perm.Basic
import Mathlib.Order.Interval.Finset.Nat

/-!
# Lists of cores

`aff_list_parse` reads the elements of a list in a loop, and `sscanf` leaves `step` as it
is where a range does not give one. A range without a step takes the step of the last
range before it that has one, so what it adds to the mask depends on its predecessors.
-/

namespace CoreLists

open Scanning

/-- The client exits, or `i += step` leaves the range of `int`. -/
inductive Failure
  | exit
  | overflow
  deriving DecidableEq

abbrev CpuSet := Finset Nat

def cpuSetSize : Nat := 1024

/-- `CPU_SET`, which ignores a core beyond the size of the set. -/
def cpuSet (i : Nat) (mask : CpuSet) : CpuSet := if i < cpuSetSize then insert i mask else mask

/-- The least number that is no `int`. -/
def intEnd : Nat := 2 ^ 31

/-- `min`, `max` and `step` where the format of a range matches at least up to `max`.
Otherwise `step` keeps its value, and what else was assigned is not read. -/
def scanRange (tok : List Char) (step : Int) : Option (Int × Int × Int) :=
  match scanInt tok with
  | none => none
  | some (min, rest) =>
    match scanAfter ['-'] scanInt rest with
    | none => none
    | some (max, rest) =>
      match scanAfter [':'] scanInt rest with
      | none => some (min, max, step)
      | some (step, _) => some (min, max, step)

/-- The three formats of a single core. -/
def scanCore (tok : List Char) : Option Int :=
  ((scanInt tok).or ((scanAfter ['-'] scanInt tok).or (scanInt tok))).map (·.1)

/-- `for (i = min; i <= max; i += step) CPU_SET(i, mask)`; a positive step bounds the turns. -/
def setCores (max step : Nat) : Nat → Nat → CpuSet → Except Failure CpuSet
  | 0, _, mask => .ok mask
  | fuel + 1, i, mask =>
    if i ≤ max then
      if i + step < intEnd then setCores max step fuel (i + step) (cpuSet i mask) else .error .overflow
    else .ok mask

/-- One turn of the loop, on the mask and `step`. -/
def affToken (ncpu : Nat) (mask : CpuSet) (step : Int) (tok : List Char) : Except Failure (CpuSet × Int) :=
  match scanRange tok step with
  | some (min, max, step) =>
    let (min, max) := if min > max then (max, min) else (min, max)
    if ¬ (min ≥ 0 ∧ min < ncpu) then .error .exit
    else if ¬ (max ≥ 0 ∧ max < ncpu) then .error .exit
    else if ¬ step > 0 then .error .exit
    else (setCores max.toNat step.toNat (max.toNat + 1) min.toNat mask).map (·, step)
  | none =>
    match scanCore tok with
    | none => .error .exit
    | some val => if val.natAbs < ncpu then .ok (cpuSet val.natAbs mask, step) else .error .exit

def affTokens (ncpu : Nat) (mask : CpuSet) (step : Int) : List (List Char) → Except Failure (CpuSet × Int)
  | [] => .ok (mask, step)
  | tok :: rest =>
    match affToken ncpu mask step tok with
    | .error e => .error e
    | .ok (mask, step) => affTokens ncpu mask step rest

def affListParse (str : List Char) (ncpu : Nat) : Except Failure CpuSet :=
  (affTokens ncpu ∅ 1 (str.splitOn ',')).map (·.1)

/-! ## Lists and their meaning -/

inductive Element
  | core (c : Numeral)
  | range (a b : Numeral)
  | stepped (a b s : Numeral)

def Element.text : Element → List Char
  | .core c => c.text
  | .range a b => a.text ++ '-' :: b.text
  | .stepped a b s => a.text ++ '-' :: (b.text ++ ':' :: s.text)

/-- The cores exist, and a step is a positive `int`. -/
def Element.Valid (ncpu : Nat) : Element → Prop
  | .core c => c.value < ncpu
  | .range a b => a.value < ncpu ∧ b.value < ncpu
  | .stepped a b s => a.value < ncpu ∧ b.value < ncpu ∧ 0 < s.value ∧ s.value < intEnd

def listText (l : List Element) : List Char := [','].intercalate (l.map (·.text))

/-- The mask of a list is the union of the masks of its elements, and what is added for a
range without a step are all cores between its ends. -/
structure UnionOfElements (ncpu : Nat) (l : List Element) : Prop where
  union : ∃ mask, affListParse (listText l) ncpu = .ok mask ∧ ∃ alone : Element → CpuSet,
    (∀ e ∈ l, affListParse e.text ncpu = .ok (alone e)) ∧ ∀ c, c ∈ mask ↔ ∃ e ∈ l, c ∈ alone e
  contributes : ∀ before a b after, l = before ++ .range a b :: after → ∃ mask step added step',
    affTokens ncpu ∅ 1 (before.map (·.text)) = .ok (mask, step) ∧
    affToken ncpu ∅ step (Element.range a b).text = .ok (added, step') ∧
    ∀ c, min a.value b.value ≤ c → c ≤ max a.value b.value → c ∈ added

/-- The step in force behind a list. -/
def stepAfter (step : Nat) : List Element → Nat
  | [] => step
  | .stepped _ _ s :: rest => stepAfter s.value rest
  | _ :: rest => stepAfter step rest

/-- From `lo` on, `i += step` comes beyond `hi` within `int`. -/
def Passes (lo hi step : Nat) : Prop := lo + ((hi - lo) / step + 1) * step < intEnd

instance (lo hi step : Nat) : Decidable (Passes lo hi step) := Nat.decLt _ _

/-- With the step in force the element adds what it adds alone. -/
def Element.Fine (step : Nat) : Element → Prop
  | .core _ => True
  | .range a b => max a.value b.value < cpuSetSize ∧
      (step = 1 ∨ a.value = b.value ∧ a.value + step < intEnd)
  | .stepped a b s => Passes (min a.value b.value) (max a.value b.value) s.value

/-! ## The loop over a range -/

/-- The cores that a range with a step stands for. -/
def picks (lo hi step : Nat) : CpuSet := (Finset.Icc lo hi).filter fun c => step ∣ c - lo ∧ c < cpuSetSize

theorem mem_picks {lo hi step c : Nat} :
    c ∈ picks lo hi step ↔ lo ≤ c ∧ c ≤ hi ∧ step ∣ c - lo ∧ c < cpuSetSize := by
  simp only [picks, Finset.mem_filter, Finset.mem_Icc, and_assoc]

theorem mem_cpuSet {i c : Nat} {mask : CpuSet} : c ∈ cpuSet i mask ↔ c ∈ mask ∨ c = i ∧ i < cpuSetSize := by
  by_cases small : i < cpuSetSize
  · simp only [cpuSet, if_pos small, Finset.mem_insert]
    tauto
  · simp only [cpuSet, if_neg small]
    tauto

/-- The first core, and those from the next one on. -/
theorem mem_picks_step {lo hi step c : Nat} (moves : 0 < step) (inside : lo ≤ hi) :
    c ∈ picks lo hi step ↔ (c = lo ∧ lo < cpuSetSize) ∨ c ∈ picks (lo + step) hi step := by
  rw [mem_picks, mem_picks]
  constructor
  · rintro ⟨above, below, ⟨k, distance⟩, small⟩
    cases k with
    | zero =>
      left
      omega
    | succ k =>
      have split : step * (k + 1) = step * k + step := Nat.mul_succ step k
      right
      exact ⟨by omega, below, ⟨k, by omega⟩, small⟩
  · rintro (⟨rfl, small⟩ | ⟨above, below, ⟨k, distance⟩, small⟩)
    · exact ⟨le_rfl, inside, by simp, small⟩
    · have split : step * (k + 1) = step * k + step := Nat.mul_succ step k
      exact ⟨by omega, below, ⟨k + 1, by omega⟩, small⟩

/-- The last value of `i` is one step behind that of a loop that begins later. -/
theorem passes_step {lo hi step : Nat} (moves : 0 < step) (more : lo + step ≤ hi) :
    Passes lo hi step ↔ Passes (lo + step) hi step := by
  have one : (hi - lo) / step = (hi - (lo + step)) / step + 1 := by
    rw [← Nat.sub_sub, ← Nat.add_div_right _ moves]
    congr 1
    omega
  have split : ((hi - (lo + step)) / step + 1 + 1) * step = ((hi - (lo + step)) / step + 1) * step + step :=
    Nat.succ_mul _ step
  rw [Passes, Passes, one, split]
  omega

theorem passes_last {lo hi step : Nat} (inside : lo ≤ hi) (last : hi < lo + step) :
    Passes lo hi step ↔ lo + step < intEnd := by
  rw [Passes, Nat.div_eq_of_lt (by omega)]
  omega

theorem setCores_beyond {hi step fuel lo : Nat} (beyond : hi < lo) (mask : CpuSet) :
    setCores hi step fuel lo mask = .ok mask := by
  cases fuel with
  | zero => rfl
  | succ fuel => exact if_neg (by omega)

/-- The loop adds the picked cores, unless `i` overflows on the way. -/
theorem setCores_spec {hi step : Nat} (moves : 0 < step) {fuel lo : Nat} {mask : CpuSet} (inside : lo ≤ hi)
    (enough : hi < lo + fuel) : setCores hi step fuel lo mask =
      if Passes lo hi step then .ok (mask ∪ picks lo hi step) else .error .overflow := by
  induction fuel generalizing lo mask with
  | zero => omega
  | succ fuel ih =>
    rw [setCores, if_pos inside]
    by_cases more : lo + step ≤ hi
    · have later := passes_step moves more
      by_cases fits : lo + step < intEnd
      · rw [if_pos fits, ih more (by omega)]
        by_cases passes : Passes lo hi step
        · rw [if_pos passes, if_pos (later.mp passes)]
          congr 1
          ext c
          rw [Finset.mem_union, Finset.mem_union, mem_cpuSet, mem_picks_step moves inside, or_assoc]
        · rw [if_neg passes, if_neg fun passed => passes (later.mpr passed)]
      · rw [if_neg fits, if_neg]
        intro passes
        have further : lo + step ≤ lo + ((hi - lo) / step + 1) * step :=
          Nat.add_le_add_left (Nat.le_mul_of_pos_left _ (Nat.succ_pos _)) lo
        exact fits (lt_of_le_of_lt further passes)
    · have last := passes_last inside (Nat.not_le.mp more)
      by_cases fits : lo + step < intEnd
      · rw [if_pos fits, if_pos (last.mpr fits), setCores_beyond (by omega)]
        congr 1
        ext c
        rw [Finset.mem_union, mem_cpuSet, mem_picks_step moves inside, mem_picks]
        have behind : ¬ (lo + step ≤ c ∧ c ≤ hi ∧ step ∣ c - (lo + step) ∧ c < cpuSetSize) := by omega
        tauto
      · rw [if_neg fits, if_neg fun passes => fits (last.mp passes)]

/-! ## One element -/

/-- What the element adds with the step in force. -/
def Element.selects (step : Nat) : Element → CpuSet
  | .core c => cpuSet c.value ∅
  | .range a b => picks (min a.value b.value) (max a.value b.value) step
  | .stepped a b s => picks (min a.value b.value) (max a.value b.value) s.value

/-- No overflow with the step in force. -/
def Element.Fits (step : Nat) : Element → Prop
  | .core _ => True
  | .range a b => Passes (min a.value b.value) (max a.value b.value) step
  | .stepped a b s => Passes (min a.value b.value) (max a.value b.value) s.value

instance (step : Nat) (e : Element) : Decidable (e.Fits step) :=
  match e with
  | .core _ => inferInstanceAs (Decidable True)
  | .range a b => inferInstanceAs (Decidable (Passes (min a.value b.value) (max a.value b.value) step))
  | .stepped a b s => inferInstanceAs (Decidable (Passes (min a.value b.value) (max a.value b.value) s.value))

theorem scanRange_core (c : Numeral) (step : Int) : scanRange c.text step = none := by
  have read := scanInt_numeral c ends_nil
  rw [List.append_nil] at read
  simp only [scanRange, read]
  rfl

theorem scanCore_core (c : Numeral) : scanCore c.text = some (c.value : Int) := by
  have read := scanInt_numeral c ends_nil
  rw [List.append_nil] at read
  simp only [scanCore, read]
  rfl

theorem scanRange_range (a b : Numeral) (step : Int) :
    scanRange (a.text ++ '-' :: b.text) step = some ((a.value : Int), (b.value : Int), step) := by
  have first := scanInt_numeral a (ends_cons (c := '-') rfl b.text)
  have second := scanInt_numeral b ends_nil
  rw [List.append_nil] at second
  simp only [scanRange, first, scanAfter_head, second]
  rfl

theorem scanRange_stepped (a b s : Numeral) (step : Int) :
    scanRange (a.text ++ '-' :: (b.text ++ ':' :: s.text)) step =
      some ((a.value : Int), (b.value : Int), (s.value : Int)) := by
  have first := scanInt_numeral a (ends_cons (c := '-') rfl (b.text ++ ':' :: s.text))
  have second := scanInt_numeral b (ends_cons (c := ':') rfl s.text)
  have third := scanInt_numeral s ends_nil
  rw [List.append_nil] at third
  simp only [scanRange, first, scanAfter_head, second, third]

/-- The step in force behind the element. -/
def Element.next (step : Nat) : Element → Nat
  | .stepped _ _ s => s.value
  | _ => step

theorem affToken_range {ncpu : Nat} {tok : List Char} {step : Int} {a b s : Nat} (mask : CpuSet)
    (scanned : scanRange tok step = some ((a : Int), (b : Int), (s : Int))) (first : a < ncpu) (second : b < ncpu)
    (moves : 0 < s) : affToken ncpu mask step tok =
      if Passes (min a b) (max a b) s then .ok (mask ∪ picks (min a b) (max a b) s, (s : Int))
      else .error .overflow := by
  have ends : min a b ≤ max a b := min_le_max
  have looped : setCores (max a b) s (max a b + 1) (min a b) mask = _ := setCores_spec moves ends (by omega)
  have swapped : (if (a : Int) > b then ((b : Int), (a : Int)) else ((a : Int), (b : Int))) =
      (((min a b : Nat) : Int), ((max a b : Nat) : Int)) := by
    by_cases greater : (a : Int) > b
    · rw [if_pos greater, min_eq_right (by omega), max_eq_left (by omega)]
    · rw [if_neg greater, min_eq_left (by omega), max_eq_right (by omega)]
  simp only [affToken, scanned, swapped]
  rw [if_neg (by omega), if_neg (by omega), if_neg (by omega), Int.toNat_natCast, Int.toNat_natCast,
    Int.toNat_natCast, looped]
  split
  · rfl
  · rfl

/-- What one turn does for a valid element. -/
theorem affToken_spec {ncpu step : Nat} {e : Element} (valid : e.Valid ncpu) (moves : 0 < step) (mask : CpuSet) :
    affToken ncpu mask step e.text =
      if e.Fits step then .ok (mask ∪ e.selects step, (e.next step : Int)) else .error .overflow := by
  cases e with
  | core c =>
    have small : (c.value : Int).natAbs < ncpu := valid
    simp only [Element.text, affToken, scanRange_core, scanCore_core, Element.Fits]
    rw [if_pos small]
    congr 2
    ext i
    rw [mem_cpuSet, Finset.mem_union, Element.selects, mem_cpuSet]
    simp
  | range a b => exact affToken_range mask (scanRange_range a b step) valid.1 valid.2 moves
  | stepped a b s =>
    exact affToken_range mask (scanRange_stepped a b s step) valid.1 valid.2.1 valid.2.2.1

theorem next_pos {ncpu step : Nat} {e : Element} (valid : e.Valid ncpu) (moves : 0 < step) :
    0 < e.next step := by
  cases e with
  | core c => exact moves
  | range a b => exact moves
  | stepped a b s => exact valid.2.2.1

/-! ## A list -/

theorem comma_notMem (e : Element) : ',' ∉ e.text := by
  have digits : ∀ n : Numeral, ',' ∉ n.text := by
    intro n inside
    cases n.digits ',' inside
  cases e with
  | core c => exact digits c
  | range a b => simp [Element.text, digits]
  | stepped a b s => simp [Element.text, digits]

/-- A list that is not empty is split into its elements. -/
theorem splitOn_listText {l : List Element} (nonempty : l ≠ []) :
    (listText l).splitOn ',' = l.map (·.text) := by
  apply List.splitOn_intercalate
  · intro text inside
    obtain ⟨e, -, rfl⟩ := List.mem_map.mp inside
    exact comma_notMem e
  · simpa using nonempty

/-- What the elements add, one after the other. -/
def selected (step : Nat) : List Element → CpuSet
  | [] => ∅
  | e :: rest => e.selects step ∪ selected (e.next step) rest

/-- Each element meets `P` with the step in force. -/
def Along (P : Nat → Element → Prop) (step : Nat) : List Element → Prop
  | [] => True
  | e :: rest => P step e ∧ Along P (e.next step) rest

theorem stepAfter_cons (step : Nat) (e : Element) (rest : List Element) :
    stepAfter step (e :: rest) = stepAfter (e.next step) rest := by
  cases e with
  | core c => rfl
  | range a b => rfl
  | stepped a b s => rfl

theorem along_iff {P : Nat → Element → Prop} {step : Nat} {l : List Element} :
    Along P step l ↔ ∀ before e after, l = before ++ e :: after → P (stepAfter step before) e := by
  induction l generalizing step with
  | nil =>
    constructor
    · rintro - before e after split
      simp at split
    · exact fun _ => trivial
  | cons first rest ih =>
    rw [Along, ih]
    constructor
    · rintro ⟨here, later⟩ before e after split
      cases before with
      | nil =>
        cases split
        exact here
      | cons other before =>
        rw [List.cons_append, List.cons.injEq] at split
        obtain ⟨rfl, split⟩ := split
        rw [stepAfter_cons]
        exact later before e after split
    · intro all
      constructor
      · exact all [] first rest rfl
      · intro before e after split
        have there := all (first :: before) e after (by rw [split, List.cons_append])
        rwa [stepAfter_cons] at there

theorem stepAfter_pos {ncpu step : Nat} {l : List Element} (valid : ∀ e ∈ l, e.Valid ncpu) (moves : 0 < step) :
    0 < stepAfter step l := by
  induction l generalizing step with
  | nil => exact moves
  | cons e rest ih =>
    rw [stepAfter_cons]
    exact ih (fun f inside => valid f (List.mem_cons_of_mem _ inside)) (next_pos (valid e (List.mem_cons_self ..)) moves)

/-- The step in force is the first one or that of some range. -/
theorem stepAfter_cases (step : Nat) (l : List Element) :
    stepAfter step l = step ∨ ∃ a b s, .stepped a b s ∈ l ∧ stepAfter step l = s.value := by
  induction l generalizing step with
  | nil => exact .inl rfl
  | cons e rest ih =>
    rw [stepAfter_cons]
    rcases ih (e.next step) with same | ⟨a, b, s, inside, here⟩
    · rw [same]
      cases e with
      | core c => exact .inl rfl
      | range a b => exact .inl rfl
      | stepped a b s => exact .inr ⟨a, b, s, List.mem_cons_self .., rfl⟩
    · exact .inr ⟨a, b, s, List.mem_cons_of_mem _ inside, here⟩

theorem affTokens_ok {ncpu step : Nat} {l : List Element} (valid : ∀ e ∈ l, e.Valid ncpu) (moves : 0 < step)
    (mask : CpuSet) (fits : Along (fun step e => e.Fits step) step l) :
    affTokens ncpu mask step (l.map (·.text)) = .ok (mask ∪ selected step l, (stepAfter step l : Int)) := by
  induction l generalizing step mask with
  | nil => simp [affTokens, selected, stepAfter]
  | cons e rest ih =>
    have first := valid e (List.mem_cons_self ..)
    rw [List.map_cons, affTokens, affToken_spec first moves, if_pos fits.1]
    simp only
    rw [ih (fun f inside => valid f (List.mem_cons_of_mem _ inside)) (next_pos first moves) _ fits.2, selected,
      stepAfter_cons, Finset.union_assoc]

theorem fits_of_ok {ncpu step : Nat} {l : List Element} (valid : ∀ e ∈ l, e.Valid ncpu) (moves : 0 < step)
    {mask : CpuSet} {r : CpuSet × Int} (done : affTokens ncpu mask step (l.map (·.text)) = .ok r) :
    Along (fun step e => e.Fits step) step l := by
  induction l generalizing step mask with
  | nil => trivial
  | cons e rest ih =>
    have first := valid e (List.mem_cons_self ..)
    rw [List.map_cons, affTokens, affToken_spec first moves] at done
    by_cases fits : e.Fits step
    · rw [if_pos fits] at done
      exact ⟨fits, ih (fun f inside => valid f (List.mem_cons_of_mem _ inside)) (next_pos first moves) done⟩
    · rw [if_neg fits] at done
      cases done

theorem affListParse_eq {ncpu : Nat} {l : List Element} (nonempty : l ≠ []) :
    affListParse (listText l) ncpu = (affTokens ncpu ∅ 1 (l.map (·.text))).map (·.1) := by
  rw [affListParse, splitOn_listText nonempty]

/-- An element alone has the step 1 in force. -/
theorem affListParse_alone {ncpu : Nat} {e : Element} (valid : e.Valid ncpu) (fits : e.Fits 1) :
    affListParse e.text ncpu = .ok (e.selects 1) := by
  have whole : listText [e] = e.text := by simp [listText]
  have done := affTokens_ok (l := [e]) (by simpa using valid) Nat.one_pos ∅ ⟨fits, trivial⟩
  rw [Nat.cast_one] at done
  rw [← whole, affListParse_eq (by simp), done]
  simp [Except.map, selected]

/-! ## The union -/

theorem mem_selected_iff {step : Nat} {l : List Element} {c : Nat} :
    c ∈ selected step l ↔ ∃ before e after, l = before ++ e :: after ∧ c ∈ e.selects (stepAfter step before) := by
  induction l generalizing step with
  | nil => simp [selected]
  | cons first rest ih =>
    rw [selected, Finset.mem_union, ih]
    constructor
    · rintro (here | ⟨before, e, after, rfl, there⟩)
      · exact ⟨[], first, rest, rfl, here⟩
      · exact ⟨first :: before, e, after, rfl, by rwa [stepAfter_cons]⟩
    · rintro ⟨before, e, after, split, inside⟩
      cases before with
      | nil =>
        cases split
        exact .inl inside
      | cons other before =>
        rw [List.cons_append, List.cons.injEq] at split
        obtain ⟨rfl, split⟩ := split
        rw [stepAfter_cons] at inside
        exact .inr ⟨before, e, after, split, inside⟩

/-- Ends that are equal, or a step of 1, make no difference to a range. -/
theorem picks_fine {lo hi step : Nat} (fine : step = 1 ∨ lo = hi) : picks lo hi step = picks lo hi 1 := by
  rcases fine with rfl | rfl
  · rfl
  · ext c
    rw [mem_picks, mem_picks]
    constructor
    · rintro ⟨above, below, -, small⟩
      exact ⟨above, below, one_dvd _, small⟩
    · rintro ⟨above, below, -, small⟩
      exact ⟨above, below, by simp [le_antisymm below above], small⟩

theorem ends_eq {a b : Nat} (same : a = b) : min a b = max a b := by
  rw [same, min_self, max_self]

theorem Element.Fine.selects {step : Nat} {e : Element} (fine : e.Fine step) : e.selects step = e.selects 1 := by
  cases e with
  | core c => rfl
  | range a b => exact picks_fine (fine.2.imp_right fun ends => ends_eq ends.1)
  | stepped a b s => rfl

theorem Element.Fine.fits {ncpu step : Nat} {e : Element} (valid : e.Valid ncpu) (int : ncpu < intEnd)
    (fine : e.Fine step) : e.Fits step ∧ e.Fits 1 := by
  cases e with
  | core c => exact ⟨trivial, trivial⟩
  | range a b =>
    have below : max a.value b.value < ncpu := max_lt valid.1 valid.2
    have ordered := min_le_max (a := a.value) (b := b.value)
    have one : Passes (min a.value b.value) (max a.value b.value) 1 := by
      rw [Passes, Nat.div_one]
      omega
    refine ⟨?_, one⟩
    rcases fine.2 with rfl | ⟨same, short⟩
    · exact one
    · simp only [Element.Fits, same, min_self, max_self, Passes, Nat.sub_self, Nat.zero_div]
      rw [same] at short
      omega
  | stepped a b s => exact ⟨fine, fine⟩

/-- A range that adds all its cores and does not overflow is fine. -/
theorem fine_of_all {a b : Numeral} {step : Nat} (fits : (Element.range a b).Fits step)
    (all : ∀ c, min a.value b.value ≤ c → c ≤ max a.value b.value → c ∈ (Element.range a b).selects step) :
    (Element.range a b).Fine step := by
  have ordered := min_le_max (a := a.value) (b := b.value)
  have last := (mem_picks.mp (all _ ordered le_rfl)).2.2.2
  refine ⟨last, ?_⟩
  by_cases same : a.value = b.value
  · right
    simp only [Element.Fits, same, min_self, max_self, Passes, Nat.sub_self, Nat.zero_div] at fits
    rw [same]
    exact ⟨rfl, by omega⟩
  · left
    have further : min a.value b.value + 1 ≤ max a.value b.value := by omega
    have next := (mem_picks.mp (all (min a.value b.value + 1) (by omega) further)).2.2.1
    rw [Nat.add_sub_cancel_left] at next
    exact Nat.dvd_one.mp next

variable {ncpu : Nat} {l : List Element}

theorem fine_of_union (nonempty : l ≠ []) (valid : ∀ e ∈ l, e.Valid ncpu) (u : UnionOfElements ncpu l) :
    ∀ before e after, l = before ++ e :: after → e.Fine (stepAfter 1 before) := by
  obtain ⟨mask, whole, -⟩ := u.union
  have fits : Along (fun step e => e.Fits step) 1 l := by
    rw [affListParse_eq nonempty] at whole
    cases done : affTokens ncpu ∅ 1 (l.map (·.text)) with
    | error e =>
      rw [done] at whole
      cases whole
    | ok r => exact fits_of_ok valid Nat.one_pos done
  intro before e after split
  have here := along_iff.mp fits before e after split
  cases e with
  | core c => trivial
  | range a b =>
    obtain ⟨mask, step, added, step', reached, adds, all⟩ := u.contributes before a b after split
    have earlier : ∀ f ∈ before, f.Valid ncpu := fun f inside => valid f (by simp [split, inside])
    have fitted : Along (fun step e => e.Fits step) 1 before := by
      rw [along_iff]
      intro front f back cut
      exact along_iff.mp fits front f (back ++ .range a b :: after) (by simp [split, cut])
    have moves := stepAfter_pos earlier Nat.one_pos
    have done := affTokens_ok earlier Nat.one_pos ∅ fitted
    rw [Nat.cast_one, reached] at done
    cases done
    rw [affToken_spec (valid _ (by simp [split])) moves, if_pos here] at adds
    cases adds
    exact fine_of_all here fun c above below => by simpa using all c above below
  | stepped a b s => exact here

theorem union_of_fine (int : ncpu < intEnd) (nonempty : l ≠ []) (valid : ∀ e ∈ l, e.Valid ncpu)
    (fine : ∀ before e after, l = before ++ e :: after → e.Fine (stepAfter 1 before)) : UnionOfElements ncpu l := by
  have place : ∀ e ∈ l, ∃ step, e.Fine step := by
    intro e inside
    obtain ⟨before, after, split⟩ := List.append_of_mem inside
    exact ⟨_, fine before e after split⟩
  have fits : ∀ before e after, l = before ++ e :: after → e.Fits (stepAfter 1 before) :=
    fun before e after split => ((fine before e after split).fits (valid e (by simp [split])) int).1
  constructor
  · refine ⟨selected 1 l, ?_, fun e => e.selects 1, ?_, ?_⟩
    · have done := affTokens_ok valid Nat.one_pos ∅ (along_iff.mpr fits)
      rw [Nat.cast_one, Finset.empty_union] at done
      rw [affListParse_eq nonempty, done]
      rfl
    · intro e inside
      obtain ⟨step, here⟩ := place e inside
      exact affListParse_alone (valid e inside) (here.fits (valid e inside) int).2
    · intro c
      rw [mem_selected_iff]
      constructor
      · rintro ⟨before, e, after, split, inside⟩
        rw [(fine before e after split).selects] at inside
        exact ⟨e, by simp [split], inside⟩
      · rintro ⟨e, there, inside⟩
        obtain ⟨before, after, split⟩ := List.append_of_mem there
        refine ⟨before, e, after, split, ?_⟩
        rwa [(fine before e after split).selects]
  · intro before a b after split
    have earlier : ∀ f ∈ before, f.Valid ncpu := fun f inside => valid f (by simp [split, inside])
    have fitted : Along (fun step e => e.Fits step) 1 before := by
      rw [along_iff]
      intro front f back cut
      exact fits front f (back ++ .range a b :: after) (by simp [split, cut])
    have moves := stepAfter_pos earlier Nat.one_pos
    have done := affTokens_ok earlier Nat.one_pos ∅ fitted
    rw [Nat.cast_one] at done
    have here := fine before (.range a b) after split
    have adds := affToken_spec (valid (.range a b) (by simp [split])) moves ∅
    rw [if_pos (fits _ _ _ split)] at adds
    refine ⟨_, _, _, _, done, adds, ?_⟩
    intro c above below
    rw [Finset.empty_union, here.selects]
    exact mem_picks.mpr ⟨above, below, one_dvd _, lt_of_le_of_lt below here.1⟩

/-- The list is fine in its order exactly if every range without a step is: it ends
below the size of a CPU set, and the step in force is 1 or its ends are equal; and no
loop overflows. It is so in every order exactly if no step of the list gets in the way of
any range. -/
theorem union_iff (int : ncpu < intEnd) (nonempty : l ≠ []) (valid : ∀ e ∈ l, e.Valid ncpu) :
    (UnionOfElements ncpu l ↔
      ∀ before e after, l = before ++ e :: after → e.Fine (stepAfter 1 before)) ∧
    ((∀ l', l'.Perm l → UnionOfElements ncpu l') ↔
      ∀ e ∈ l, e.Fine 1 ∧ ∀ a b s, .stepped a b s ∈ l → e.Fine s.value) := by
  refine ⟨⟨fine_of_union nonempty valid, union_of_fine int nonempty valid⟩, ?_, ?_⟩
  · intro all e inside
    have fine : ∀ l', l'.Perm l → ∀ before e after, l' = before ++ e :: after → e.Fine (stepAfter 1 before) := by
      intro l' perm
      have some_ : l' ≠ [] := by
        rintro rfl
        exact nonempty perm.symm.eq_nil
      exact fine_of_union some_ (fun f there => valid f (perm.mem_iff.mp there)) (all l' perm)
    obtain ⟨front, back, rfl⟩ := List.append_of_mem inside
    have first : e.Fine 1 := fine (e :: (front ++ back)) List.perm_middle.symm [] e _ rfl
    refine ⟨first, fun a b s there => ?_⟩
    by_cases same : .stepped a b s = e
    · rw [← same] at first ⊢
      exact first
    · -- the range with the step, then this element, then the others
      have other : .stepped a b s ∈ front ++ back := by
        simp only [List.mem_append, List.mem_cons, same, false_or] at there ⊢
        exact there
      obtain ⟨front', back', split⟩ := List.append_of_mem other
      have perm : (.stepped a b s :: e :: (front' ++ back')).Perm (front ++ e :: back) := by
        apply (List.Perm.swap e (.stepped a b s) (front' ++ back')).trans
        apply List.Perm.trans (List.Perm.cons e _) List.perm_middle.symm
        rw [split]
        exact List.perm_middle.symm
      exact fine _ perm [.stepped a b s] e _ rfl
  · intro all l' perm
    have some_ : l' ≠ [] := by
      rintro rfl
      exact nonempty perm.symm.eq_nil
    apply union_of_fine int some_ fun f there => valid f (perm.mem_iff.mp there)
    rintro before e after rfl
    obtain ⟨first, others⟩ := all e (perm.mem_iff.mp (by simp))
    rcases stepAfter_cases 1 before with same | ⟨a, b, s, inside, here⟩
    · rwa [same]
    · rw [here]
      exact others a b s (perm.mem_iff.mp (by simp [inside]))

/-- `6-8,0-4:2`. -/
def cores : List Element :=
  [.range (oneDigit '6' rfl) (oneDigit '8' rfl),
    .stepped (oneDigit '0' rfl) (oneDigit '4' rfl) (oneDigit '2' rfl)]

theorem cores_valid : ∀ e ∈ cores, e.Valid 16 := by
  rintro e inside
  simp only [cores, List.mem_cons, List.not_mem_nil, or_false] at inside
  rcases inside with rfl | rfl
  · exact ⟨by decide, by decide⟩
  · exact ⟨by decide, by decide, by decide, by decide⟩

theorem cores_union : UnionOfElements 16 cores := by
  apply (union_iff (by decide) (by decide) cores_valid).1.mpr
  have along : Along Element.Fine 1 cores := ⟨⟨by decide, .inl rfl⟩, show Passes 0 4 2 by decide, trivial⟩
  exact along_iff.mp along

/-- In the other order the range has the step 2, and core 7 is left out. -/
theorem later_range_thinned : ∃ mask mask',
    affListParse "6-8,0-4:2".toList 16 = .ok mask ∧ 7 ∈ mask ∧
    affListParse "0-4:2,6-8".toList 16 = .ok mask' ∧ 7 ∉ mask' ∧
    listText cores.reverse = "0-4:2,6-8".toList ∧ ¬ UnionOfElements 16 cores.reverse := by
  refine ⟨_, _, rfl, by decide, rfl, by decide, by decide, ?_⟩
  intro union
  have valid : ∀ e ∈ cores.reverse, e.Valid 16 := by simpa using cores_valid
  have fine := along_iff.mpr (fine_of_union (by decide) valid union)
  rcases fine.2.1.2 with one | ⟨same, -⟩
  · exact absurd one (by decide)
  · exact absurd same (by decide)

end CoreLists
