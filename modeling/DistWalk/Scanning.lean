import Mathlib.Data.List.Basic
import Mathlib.Data.Rat.Cast.Defs

/-!
# Reading C strings

The fields that `strsep` splits a string into, and what the conversions `%d` and `%lf` of
`sscanf` read off the beginning of a string, with numerals as texts. The conversions stop
at the first character that does not belong to the number. A `%lf` here has no exponent,
and none of the spellings of an infinity, a NaN or a hexadecimal number.
-/

namespace Scanning

/-! ## Fields -/

/-- The pieces between separators that are not empty. -/
def fields (sep : Char → Bool) (s : List Char) : List (List Char) := (s.splitOnP sep).filter (· ≠ [])

section Fields

variable {sep : Char → Bool}

@[simp] theorem fields_nil : fields sep [] = [] := by
  simp [fields]

theorem fields_append_cons {c : Char} (separates : sep c = true) (a b : List Char) :
    fields sep (a ++ c :: b) = fields sep a ++ fields sep b := by
  rw [fields, List.splitOnP_append_cons a b separates, List.filter_append]
  rfl

theorem fields_cons {c : Char} (separates : sep c = true) (s : List Char) : fields sep (c :: s) = fields sep s := by
  have split := fields_append_cons separates [] s
  rwa [fields_nil, List.nil_append, List.nil_append] at split

theorem fields_word {w : List Char} (nonempty : w ≠ []) (whole : ∀ c ∈ w, sep c = false) : fields sep w = [w] := by
  rw [fields, List.splitOnP_eq_singleton whole]
  simp [nonempty]

theorem fields_intercalate {c : Char} (separates : sep c = true) (ws : List (List Char)) :
    fields sep ([c].intercalate ws) = ws.flatMap (fields sep) := by
  induction ws with
  | nil => simp
  | cons w ws ih =>
    cases ws with
    | nil => simp
    | cons w' ws =>
      rw [List.intercalate_cons_cons, List.append_assoc, List.singleton_append, fields_append_cons separates, ih]
      rfl

theorem mem_splitOnP {s t : List Char} (inside : t ∈ s.splitOnP sep) : ∀ c ∈ t, sep c = false := by
  induction s generalizing t with
  | nil =>
    rw [List.splitOnP_nil, List.mem_singleton] at inside
    simp [inside]
  | cons d s ih =>
    rw [List.splitOnP_cons_eq_if_modifyHead] at inside
    by_cases separates : sep d = true
    · rw [if_pos separates, List.mem_cons] at inside
      rcases inside with rfl | inside
      · simp
      · exact ih inside
    · rw [if_neg separates] at inside
      obtain ⟨first, rest, split⟩ := List.exists_cons_of_ne_nil (List.splitOnP_ne_nil sep s)
      rw [split] at inside ih
      rw [List.modifyHead_cons, List.mem_cons] at inside
      rcases inside with rfl | inside
      · intro c there
        rcases List.mem_cons.mp there with rfl | there
        · simpa using separates
        · exact ih (List.mem_cons_self ..) c there
      · exact ih (List.mem_cons_of_mem _ inside)

theorem mem_fields {s t : List Char} (inside : t ∈ fields sep s) : t ≠ [] ∧ ∀ c ∈ t, sep c = false := by
  obtain ⟨piece, nonempty⟩ := List.mem_filter.mp inside
  exact ⟨by simpa using nonempty, mem_splitOnP piece⟩

/-- The first field of a string that begins with a character of a field. -/
theorem fields_head {c : Char} (inside : sep c = false) (s : List Char) :
    ∃ w rest, fields sep (c :: s) = (c :: w) :: rest := by
  obtain ⟨first, rest, split⟩ := List.exists_cons_of_ne_nil (List.splitOnP_ne_nil sep s)
  refine ⟨first, rest.filter (· ≠ []), ?_⟩
  rw [fields, List.splitOnP_cons_eq_if_modifyHead, if_neg (by simp [inside]), split]
  rfl

end Fields

/-! ## Conversions -/

/-- A space, or one of the characters from the tabulator to the carriage return. -/
def isSpace (c : Char) : Bool := c = ' ' || decide (9 ≤ c.toNat ∧ c.toNat ≤ 13)

/-- The value of a run of digits, whose first part is `acc`. -/
def digitsFrom (acc : Nat) (ds : List Char) : Nat := ds.foldl (fun n c => 10 * n + (c.toNat - '0'.toNat)) acc

/-- The run of digits at the beginning, and what is behind it. -/
def digitRun (s : List Char) : List Char × List Char := (s.takeWhile Char.isDigit, s.dropWhile Char.isDigit)

/-- Spaces and a sign, with the factor of the sign. -/
def scanSign (s : List Char) : Int × List Char :=
  match s.dropWhile isSpace with
  | '-' :: rest => (-1, rest)
  | '+' :: rest => (1, rest)
  | rest => (1, rest)

/-- The conversion `%d`: the number and what is left of the string. -/
def scanInt (s : List Char) : Option (Int × List Char) :=
  let (sign, s) := scanSign s
  let (ds, rest) := digitRun s
  if ds = [] then none else some (sign * digitsFrom 0 ds, rest)

/-- The digits behind a decimal point. -/
def scanFraction : List Char → List Char
  | '.' :: rest => (digitRun rest).1
  | _ => []

/-- The conversion `%lf`. -/
def scanDouble (s : List Char) : Option ℚ :=
  let (sign, s) := scanSign s
  let (whole, rest) := digitRun s
  let fraction := scanFraction rest
  if whole ++ fraction = [] then none
  else some (sign * (digitsFrom (digitsFrom 0 whole) fraction / 10 ^ fraction.length))

/-- A format that begins with literal text: the text, then a conversion. -/
def scanAfter {α : Type} (literal : List Char) (scan : List Char → Option α) (s : List Char) : Option α :=
  match s.dropPrefix? literal with
  | none => none
  | some rest => scan rest

/-- An unsigned number as a text. -/
structure Numeral where
  text : List Char
  digits : ∀ c ∈ text, c.isDigit = true
  nonempty : text ≠ []

/-- A numeral of one digit. -/
def oneDigit (c : Char) (digit : c.isDigit = true) : Numeral where
  text := [c]
  digits := by
    intro d inside
    rwa [List.mem_singleton.mp inside]
  nonempty := List.cons_ne_nil c []

def Numeral.value (n : Numeral) : Nat := digitsFrom 0 n.text

inductive Sign
  | absent
  | minus
  | plus
  deriving DecidableEq

def Sign.text : Sign → List Char
  | .absent => []
  | .minus => ['-']
  | .plus => ['+']

def Sign.factor : Sign → Int
  | .minus => -1
  | _ => 1

/-- A numeral that may have a sign. -/
structure Integer where
  sign : Sign
  numeral : Numeral

def Integer.text (z : Integer) : List Char := z.sign.text ++ z.numeral.text

def Integer.value (z : Integer) : Int := z.sign.factor * z.numeral.value

/-- The text does not go on with a digit. -/
def Ends (rest : List Char) : Prop := ∀ c ∈ rest.head?, c.isDigit = false

theorem ends_nil : Ends [] := by
  intro c first
  cases first

theorem ends_cons {c : Char} (other : c.isDigit = false) (rest : List Char) : Ends (c :: rest) := by
  intro d first
  cases first
  exact other

theorem scanAfter_append {α : Type} (literal : List Char) (scan : List Char → Option α) (rest : List Char) :
    scanAfter literal scan (literal ++ rest) = scan rest := by
  have dropped : (literal ++ rest).dropPrefix? literal = some rest :=
    List.dropPrefix?_eq_some_iff.mpr ⟨literal, rfl, by simp⟩
  rw [scanAfter, dropped]

theorem scanAfter_head {α : Type} (c : Char) (scan : List Char → Option α) (rest : List Char) :
    scanAfter [c] scan (c :: rest) = scan rest := scanAfter_append [c] scan rest

@[simp] theorem scanAfter_nil {α : Type} (scan : List Char → Option α) (s : List Char) :
    scanAfter [] scan s = scan s := scanAfter_append [] scan s

@[simp] theorem scanAfter_same {α : Type} (c : Char) (literal : List Char) (scan : List Char → Option α)
    (rest : List Char) : scanAfter (c :: literal) scan (c :: rest) = scanAfter literal scan rest := by
  simp [scanAfter, List.dropPrefix?]

theorem scanAfter_other {α : Type} {c d : Char} (other : d ≠ c) (literal : List Char)
    (scan : List Char → Option α) (rest : List Char) : scanAfter (c :: literal) scan (d :: rest) = none := by
  simp [scanAfter, List.dropPrefix?, other]

/-! ## Reading a numeral -/

theorem digitRun_append {ds rest : List Char} (digits : ∀ c ∈ ds, c.isDigit = true) (ends : Ends rest) :
    digitRun (ds ++ rest) = (ds, rest) := by
  have stop : rest.takeWhile Char.isDigit = [] ∧ rest.dropWhile Char.isDigit = rest := by
    cases rest with
    | nil => exact ⟨rfl, rfl⟩
    | cons c rest =>
      have other : c.isDigit = false := ends c rfl
      exact ⟨List.takeWhile_cons_of_neg (by simp [other]), List.dropWhile_cons_of_neg (by simp [other])⟩
  rw [digitRun, List.takeWhile_append_of_pos digits, List.dropWhile_append_of_pos digits, stop.1, stop.2,
    List.append_nil]

theorem digitRun_numeral (n : Numeral) {rest : List Char} (ends : Ends rest) :
    digitRun (n.text ++ rest) = (n.text, rest) := digitRun_append n.digits ends

/-- A digit is neither a space nor a sign. -/
theorem digit_plain {c : Char} (digit : c.isDigit = true) : isSpace c = false ∧ c ≠ '-' ∧ c ≠ '+' := by
  have least : 48 ≤ c.toNat := by
    simp only [Char.isDigit, Bool.and_eq_true, decide_eq_true_eq, ge_iff_le, UInt32.le_iff_toNat_le] at digit
    exact digit.1
  refine ⟨?_, ?_, ?_⟩
  · have other : c ≠ ' ' := by
      rintro rfl
      cases digit
    simp [isSpace, other]
    omega
  · rintro rfl
    cases digit
  · rintro rfl
    cases digit

theorem scanSign_numeral (n : Numeral) (rest : List Char) : scanSign (n.text ++ rest) = (1, n.text ++ rest) := by
  obtain ⟨text, digits, nonempty⟩ := n
  cases text with
  | nil => exact absurd rfl nonempty
  | cons c text =>
    obtain ⟨space, minus, plus⟩ := digit_plain (digits c (by simp))
    have skipped : (c :: (text ++ rest)).dropWhile isSpace = c :: (text ++ rest) :=
      List.dropWhile_cons_of_neg (by simp [space])
    simp only [scanSign, List.cons_append, skipped]
    split
    · rename_i same
      exact absurd (List.cons.inj same).1 minus
    · rename_i same
      exact absurd (List.cons.inj same).1 plus
    · rfl

theorem scanInt_numeral (n : Numeral) {rest : List Char} (ends : Ends rest) :
    scanInt (n.text ++ rest) = some ((n.value : Int), rest) := by
  simp only [scanInt, scanSign_numeral, digitRun_numeral n ends]
  rw [if_neg n.nonempty, Int.one_mul]
  rfl

theorem scanSign_integer (z : Integer) (rest : List Char) :
    scanSign (z.text ++ rest) = (z.sign.factor, z.numeral.text ++ rest) := by
  obtain ⟨sign, n⟩ := z
  cases sign with
  | absent => exact scanSign_numeral n rest
  | minus => rfl
  | plus => rfl

/-- A `%lf` reads an integer that no point follows, and nothing behind it. -/
theorem scanDouble_integer (z : Integer) {rest : List Char} (ends : Ends rest) (point : rest.head? ≠ some '.') :
    scanDouble (z.text ++ rest) = some (z.value : ℚ) := by
  have fraction : scanFraction rest = [] := by
    unfold scanFraction
    split
    · exact absurd rfl point
    · rfl
  simp only [scanDouble, scanSign_integer, digitRun_numeral z.numeral ends, fraction, List.append_nil]
  rw [if_neg z.numeral.nonempty, List.length_nil, pow_zero, div_one, Integer.value, Int.cast_mul]
  rfl

/-- Integers begin with a digit or a sign. -/
theorem integer_head (z : Integer) (rest : List Char) :
    ∃ c text, z.text ++ rest = c :: text ∧ (c.isDigit = true ∨ c = '-' ∨ c = '+') := by
  obtain ⟨sign, ⟨text, digits, nonempty⟩⟩ := z
  cases sign with
  | absent =>
    obtain ⟨c, text, rfl⟩ := List.exists_cons_of_ne_nil nonempty
    exact ⟨c, text ++ rest, rfl, .inl (digits c (by simp))⟩
  | minus => exact ⟨'-', text ++ rest, rfl, .inr (.inl rfl)⟩
  | plus => exact ⟨'+', text ++ rest, rfl, .inr (.inr rfl)⟩

end Scanning
