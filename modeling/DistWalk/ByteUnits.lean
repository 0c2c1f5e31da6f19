import DistWalk.ReplySizes
import DistWalk.Scanning

/-!
# Units of byte specifications

`pd_parse_bytes` takes a `b` off the end of the whole specification and leaves the rest to
the common parser, which reads the multiplier of a parameter off its last character. So
the parser sees `kb`, `mb` or `gb` as the suffix of the last parameter only: behind an
earlier one the last character is the `b`, which has no multiplier.
-/

namespace ByteUnits

open Message Template Scanning

/-- The variables of the parser that a token can assign a number to. -/
inductive Field
  | val
  | std
  | min
  | max
  | k
  | scale
  | xavg
  | xstd
  | col
  deriving DecidableEq

/-- What the loop does with one token. -/
inductive Store
  | number (field : Field) (value : ℚ)
  | sep (text : List Char)
  | unit (factor : ℚ)
  | fname (text : List Char)
  deriving DecidableEq

/-- The `switch` of `sscanf_unit`, on the last character of the token. -/
def unitFactor (c : Char) : ℚ :=
  if c = 'k' ∨ c = 'K' then 1000
  else if c = 'm' ∨ c = 'M' then 1000000
  else if c = 'g' ∨ c = 'G' then 1000000000
  else 1

/-- `sscanf_unit` with the format of `literal` and `%lf`, where times are not allowed. -/
def sscanfUnit (literal str : List Char) : Except Abort (Option ℚ) :=
  match str.getLast? with
  | none => .ok none
  | some last =>
    match scanAfter literal scanDouble str with
    | none => .ok none
    | some v => if last = 's' then .error .check else .ok (some (v * unitFactor last))

def isSequence (prob : PdType) : Bool := prob = .arithSeq || prob = .geoSeq

/-- The formats that a token is tried with. -/
def unitFormats (prob : PdType) : List (List Char × Field) :=
  [(['m', 'i', 'n', '='], .min), (['m', 'a', 'x', '='], .max), (['s', 't', 'd', '='], .std), (['k', '='], .k),
    (['s', 'c', 'a', 'l', 'e', '='], .scale), (['a', 'v', 'g', '='], .val)] ++
  if isSequence prob then [(['s', 't', 'e', 'p', '='], .std)] else []

/-- The first format that matches. -/
def tryFormats (tok : List Char) : List (List Char × Field) → Except Abort (Option Store)
  | [] => .ok none
  | (literal, field) :: rest =>
    match sscanfUnit literal tok with
    | .error e => .error e
    | .ok (some v) => .ok (some (.number field v))
    | .ok none => tryFormats tok rest

/-- The formats without a unit. -/
def tryPlain (prob : PdType) (tok : List Char) : Option Store :=
  let col := if prob = .sfile then scanAfter ['c', 'o', 'l', '='] scanInt tok else none
  let xavg := if prob = .lognorm then scanAfter ['x', 'a', 'v', 'g', '='] scanDouble tok else none
  let xstd := if prob = .lognorm then scanAfter ['x', 's', 't', 'd', '='] scanDouble tok else none
  (col.map fun n => .number .col n.1).or ((xavg.map (.number .xavg)).or (xstd.map (.number .xstd)))

/-- `unit=` of a file. -/
def fileUnit (text : List Char) : Except Abort ℚ :=
  if text = ['k'] ∨ text = ['K'] then .ok 1000
  else if text = ['m'] ∨ text = ['M'] then .ok 1000000
  else if text = ['g'] ∨ text = ['G'] then .ok 1000000000
  else .error .check

/-- A token of a file that no number is read from. -/
def fileToken (tok : List Char) : Except Abort Store :=
  match tok.dropPrefix? ['s', 'e', 'p', '='] with
  | some sep => if sep = [] then .error .check else .ok (.sep sep)
  | none =>
    match tok.dropPrefix? ['u', 'n', 'i', 't', '='] with
    | some text => (fileUnit text).map .unit
    | none => .ok (.fname tok)

/-- One turn of the loop over the tokens. -/
def pdToken (prob : PdType) (tok : List Char) : Except Abort Store :=
  match tryFormats tok (unitFormats prob) with
  | .error e => .error e
  | .ok (some s) => .ok s
  | .ok none =>
    match tryPlain prob tok with
    | some s => .ok s
    | none =>
      match sscanfUnit [] tok with
      | .error e => .error e
      | .ok (some v) => .ok (.number .val v)
      | .ok none => if prob = .sfile then fileToken tok else .error .exitFailure

def pdTokens (prob : PdType) : List (List Char) → Except Abort (List Store)
  | [] => .ok []
  | tok :: rest =>
    match pdToken prob tok with
    | .error e => .error e
    | .ok s => (pdTokens prob rest).map (s :: ·)

/-- The distributions by their names. -/
def distName : PdType → Option (List Char)
  | .none => some ['n', 'o', 'n', 'e']
  | .unif => some ['u', 'n', 'i', 'f']
  | .expon => some ['e', 'x', 'p']
  | .norm => some ['n', 'o', 'r', 'm']
  | .lognorm => some ['l', 'o', 'g', 'n', 'o', 'r', 'm']
  | .gamma => some ['g', 'a', 'm', 'm', 'a']
  | .arithSeq => some ['a', 's', 'e', 'q']
  | .geoSeq => some ['g', 's', 'e', 'q']
  | .sfile => some ['f', 'i', 'l', 'e']
  | .fixed => none

def namedDists : List PdType := [.none, .unif, .expon, .norm, .lognorm, .gamma, .arithSeq, .geoSeq, .sfile]

/-- The first token: a name, or the value of a fixed specification. -/
def pdHead (tok : List Char) : Except Abort (PdType × List Store) :=
  match namedDists.find? fun prob => distName prob = some tok with
  | some prob => .ok (prob, [])
  | none =>
    match sscanfUnit [] tok with
    | .error e => .error e
    | .ok (some v) => .ok (.fixed, [.number .val v])
    | .ok none => .error .exitFailure

/-- `pd_parse_internal` up to the end of its loop: the distribution and what is stored. -/
def pdParseInternal (s : List Char) : Except Abort (PdType × List Store) :=
  match s.splitOn ':' with
  | [] => .error .check
  | tok :: rest =>
    match pdHead tok with
    | .error e => .error e
    | .ok (prob, first) => (pdTokens prob rest).map fun stores => (prob, first ++ stores)

def stripByte (s : List Char) : List Char :=
  if s.getLast? = some 'b' ∨ s.getLast? = some 'B' then s.dropLast else s

def pdParseBytes (s : List Char) : Except Abort (PdType × List Store) := pdParseInternal (stripByte s)

/-! ## Specifications and their meaning -/

inductive Magnitude
  | kilo
  | mega
  | giga
  deriving DecidableEq

def Magnitude.letter : Magnitude → Bool → Char
  | .kilo, false => 'k'
  | .kilo, true => 'K'
  | .mega, false => 'm'
  | .mega, true => 'M'
  | .giga, false => 'g'
  | .giga, true => 'G'

def Magnitude.factor : Magnitude → ℚ
  | .kilo => 10 ^ 3
  | .mega => 10 ^ 6
  | .giga => 10 ^ 9

/-- A letter of magnitude and a `b`, each of them small or, with `true`, capital. -/
structure Suffix where
  magnitude : Option (Magnitude × Bool)
  byte : Option Bool

def byteLetter : Bool → Char
  | false => 'b'
  | true => 'B'

def Suffix.text (s : Suffix) : List Char :=
  (s.magnitude.map fun m => m.1.letter m.2).toList ++ (s.byte.map byteLetter).toList

def Suffix.factor (s : Suffix) : ℚ := (s.magnitude.map fun m => m.1.factor).getD 1

inductive ParamName
  | value
  | min
  | max
  | std
  | step
  | avg
  deriving DecidableEq

def ParamName.literal : ParamName → List Char
  | .value => []
  | .min => ['m', 'i', 'n', '=']
  | .max => ['m', 'a', 'x', '=']
  | .std => ['s', 't', 'd', '=']
  | .step => ['s', 't', 'e', 'p', '=']
  | .avg => ['a', 'v', 'g', '=']

def ParamName.field : ParamName → Field
  | .value => .val
  | .min => .min
  | .max => .max
  | .std => .std
  | .step => .std
  | .avg => .val

structure Param where
  name : ParamName
  number : Integer
  suffix : Suffix

def Param.text (p : Param) : List Char := p.name.literal ++ (p.number.text ++ p.suffix.text)

/-- The integer times what its own suffix stands for. -/
def Param.store (p : Param) : Store := .number p.name.field (p.number.value * p.suffix.factor)

/-- A distribution that has a name, and parameters. -/
structure ByteSpec where
  dist : PdType
  params : List Param
  named : dist ∈ namedDists

def ByteSpec.text (s : ByteSpec) : List Char :=
  [':'].intercalate ((distName s.dist).getD [] :: s.params.map (·.text))

/-- Every parameter is stored with its own unit. -/
def UnitsApply (s : ByteSpec) : Prop := pdParseBytes s.text = .ok (s.dist, s.params.map (·.store))

/-! ## One parameter -/

/-- What the parser multiplies with for the suffix: it does not look before a `b`. -/
def Suffix.read (s : Suffix) : ℚ := if s.byte.isSome then 1 else s.factor

/-- A character that a token can end with behind its digits. -/
def Letter (c : Char) : Prop := c.isDigit = false ∧ c ≠ '.' ∧ c ≠ 's' ∧ c ≠ ':'

theorem Magnitude.letter_spec (m : Magnitude) (upper : Bool) : Letter (m.letter upper) ∧
    m.letter upper ≠ 'b' ∧ m.letter upper ≠ 'B' := by
  unfold Letter
  cases m <;> cases upper <;> decide

theorem byteLetter_spec (big : Bool) : Letter (byteLetter big) ∧ (byteLetter big = 'b' ∨ byteLetter big = 'B') := by
  unfold Letter
  cases big <;> decide

theorem Magnitude.unitFactor_letter (m : Magnitude) (upper : Bool) : unitFactor (m.letter upper) = m.factor := by
  cases m <;> cases upper <;> decide +kernel

theorem unitFactor_byte (big : Bool) : unitFactor (byteLetter big) = 1 := by
  cases big <;> decide +kernel

theorem unitFactor_digit {c : Char} (digit : c.isDigit = true) : unitFactor c = 1 ∧ c ≠ 's' ∧ c ≠ 'b' ∧ c ≠ 'B' := by
  have apart : ∀ d : Char, d.isDigit = false → c ≠ d := by
    rintro d other rfl
    rw [digit] at other
    cases other
  refine ⟨?_, apart 's' rfl, apart 'b' rfl, apart 'B' rfl⟩
  simp [unitFactor, apart 'k' rfl, apart 'K' rfl, apart 'm' rfl, apart 'M' rfl, apart 'g' rfl, apart 'G' rfl]

theorem Suffix.letters (s : Suffix) : ∀ c ∈ s.text, Letter c := by
  obtain ⟨magnitude, byte⟩ := s
  intro c inside
  rcases List.mem_append.mp inside with first | last
  · cases magnitude with
    | none => cases first
    | some m =>
      rw [List.mem_singleton.mp first]
      exact (m.1.letter_spec m.2).1
  · cases byte with
    | none => cases last
    | some big =>
      rw [List.mem_singleton.mp last]
      exact (byteLetter_spec big).1

theorem Suffix.ends (s : Suffix) : Ends s.text ∧ s.text.head? ≠ some '.' := by
  constructor
  · intro c first
    exact (s.letters c (List.mem_of_mem_head? first)).1
  · intro point
    exact (s.letters '.' (List.mem_of_mem_head? point)).2.1 rfl

theorem last_digit (z : Integer) : ∃ c, z.text.getLast? = some c ∧ c.isDigit = true := by
  have nonempty := z.numeral.nonempty
  refine ⟨z.numeral.text.getLast nonempty, ?_, z.numeral.digits _ (List.getLast_mem nonempty)⟩
  rw [Integer.text, List.getLast?_append_of_ne_nil _ nonempty, List.getLast?_eq_some_getLast nonempty]

theorem Suffix.text_getLast (s : Suffix) (nonempty : s.text ≠ []) : ∃ c, s.text.getLast? = some c ∧
    unitFactor c = s.read ∧ c ≠ 's' ∧ ((c = 'b' ∨ c = 'B') ↔ s.byte.isSome) := by
  obtain ⟨magnitude, _ | big⟩ := s
  · cases magnitude with
    | none => exact absurd rfl nonempty
    | some m =>
      obtain ⟨letter, small, capital⟩ := m.1.letter_spec m.2
      exact ⟨_, rfl, m.1.unitFactor_letter m.2, letter.2.2.1, by simp [small, capital]⟩
  · obtain ⟨letter, byte⟩ := byteLetter_spec big
    exact ⟨byteLetter big, by simp [Suffix.text], unitFactor_byte big, letter.2.2.1, by simp [byte]⟩

/-- The last character of a parameter. -/
theorem Param.last_char (p : Param) : ∃ c, p.text.getLast? = some c ∧ unitFactor c = p.suffix.read ∧ c ≠ 's' ∧
    ((c = 'b' ∨ c = 'B') ↔ p.suffix.byte.isSome) := by
  have number : p.number.text ≠ [] := by
    intro empty
    obtain ⟨c, last, -⟩ := last_digit p.number
    rw [empty] at last
    cases last
  by_cases bare : p.suffix.text = []
  · obtain ⟨c, last, digit⟩ := last_digit p.number
    obtain ⟨factor, second, small, capital⟩ := unitFactor_digit digit
    have parts : p.suffix.magnitude = none ∧ p.suffix.byte = none := by simpa [Suffix.text] using bare
    refine ⟨c, ?_, ?_, second, ?_⟩
    · rw [Param.text, bare, List.append_nil, List.getLast?_append_of_ne_nil _ number, last]
    · simp [factor, Suffix.read, Suffix.factor, parts.1]
    · simp [small, capital, parts.2]
  · obtain ⟨c, last, spec⟩ := p.suffix.text_getLast bare
    refine ⟨c, ?_, spec⟩
    rw [Param.text, List.getLast?_append_of_ne_nil _ (by simp [bare]), List.getLast?_append_of_ne_nil _ bare, last]

/-! ### The formats -/

theorem sscanfUnit_none {literal str : List Char} (h : scanAfter literal scanDouble str = none) :
    sscanfUnit literal str = .ok none := by
  unfold sscanfUnit
  split
  · rfl
  · rw [h]

theorem sscanfUnit_param (p : Param) {literal : List Char}
    (scanned : scanAfter literal scanDouble p.text = some (p.number.value : ℚ)) :
    sscanfUnit literal p.text = .ok (some (p.number.value * p.suffix.read)) := by
  obtain ⟨c, last, factor, second, -⟩ := p.last_char
  simp only [sscanfUnit, last, scanned]
  rw [if_neg second, factor]

theorem scan_own (p : Param) : scanAfter p.name.literal scanDouble p.text = some (p.number.value : ℚ) := by
  obtain ⟨ends, point⟩ := p.suffix.ends
  rw [Param.text, scanAfter_append, scanDouble_integer p.number ends point]

/-- What the parser stores for the parameter where it comes to the suffix as it is written. -/
def Param.readStore (p : Param) : Store := .number p.name.field (p.number.value * p.suffix.read)

theorem tryFormats_skip {literal tok : List Char} {field : Field} {rest : List (List Char × Field)}
    (other : scanAfter literal scanDouble tok = none) :
    tryFormats tok ((literal, field) :: rest) = tryFormats tok rest := by
  rw [tryFormats, sscanfUnit_none other]

theorem tryFormats_own (p : Param) {field : Field} {rest : List (List Char × Field)} :
    tryFormats p.text ((p.name.literal, field) :: rest) =
      .ok (some (.number field (p.number.value * p.suffix.read))) := by
  rw [tryFormats, sscanfUnit_param p (scan_own p)]

/-- A token that begins with a digit or a sign does not match a format with a name. -/
theorem scanAfter_number {p : Param} (bare : p.name = .value) {c : Char} {literal : List Char}
    (letter : c.isDigit = false ∧ c ≠ '-' ∧ c ≠ '+') {α : Type} (scan : List Char → Option α) :
    scanAfter (c :: literal) scan p.text = none := by
  obtain ⟨d, text, split, kind⟩ := integer_head p.number p.suffix.text
  have whole : p.text = d :: text := by
    rw [Param.text, bare, ← split]
    rfl
  rw [whole]
  apply scanAfter_other
  rintro rfl
  rcases kind with digit | minus | plus
  · rw [letter.1] at digit
    cases digit
  · exact letter.2.1 minus
  · exact letter.2.2 plus

theorem tryFormats_param (p : Param) {prob : PdType} (known : p.name = .step → isSequence prob = true) :
    tryFormats p.text (unitFormats prob) = .ok (if p.name = .value then none else some p.readStore) := by
  obtain ⟨name, number, suffix⟩ := p
  cases name with
  | value =>
    have none_ : ∀ {c literal}, c.isDigit = false ∧ c ≠ '-' ∧ c ≠ '+' →
        scanAfter (c :: literal) scanDouble (Param.text ⟨.value, number, suffix⟩) = none :=
      fun letter => scanAfter_number rfl letter scanDouble
    simp only [unitFormats, List.cons_append, List.nil_append]
    iterate 6 rw [tryFormats_skip (none_ (by decide))]
    split
    · rw [tryFormats_skip (none_ (by decide))]
      rfl
    · rfl
  | min => exact tryFormats_own ⟨.min, number, suffix⟩
  | max =>
    simp only [unitFormats, List.cons_append, List.nil_append]
    rw [tryFormats_skip (by rfl)]
    exact tryFormats_own ⟨.max, number, suffix⟩
  | std =>
    simp only [unitFormats, List.cons_append, List.nil_append]
    iterate 2 rw [tryFormats_skip (by rfl)]
    exact tryFormats_own ⟨.std, number, suffix⟩
  | avg =>
    simp only [unitFormats, List.cons_append, List.nil_append]
    iterate 5 rw [tryFormats_skip (by rfl)]
    exact tryFormats_own ⟨.avg, number, suffix⟩
  | step =>
    simp only [unitFormats, List.cons_append, List.nil_append, known rfl, if_true]
    iterate 6 rw [tryFormats_skip (by rfl)]
    exact tryFormats_own ⟨.step, number, suffix⟩

/-- A parameter that the distribution knows is stored, with the unit that the parser sees. -/
theorem pdToken_param (p : Param) {prob : PdType} (known : p.name = .step → isSequence prob = true) :
    pdToken prob p.text = .ok p.readStore := by
  rw [pdToken, tryFormats_param p known]
  by_cases bare : p.name = .value
  · have own : scanAfter [] scanDouble p.text = some (p.number.value : ℚ) := by
      have own := scan_own p
      rwa [bare] at own
    have read := sscanfUnit_param p own
    have plain : tryPlain prob p.text = none := by
      simp [tryPlain, scanAfter_number bare (show 'c'.isDigit = false ∧ 'c' ≠ '-' ∧ 'c' ≠ '+' by decide),
        scanAfter_number bare (show 'x'.isDigit = false ∧ 'x' ≠ '-' ∧ 'x' ≠ '+' by decide)]
    simp only [if_pos bare, plain, read]
    rw [Param.readStore, bare]
    rfl
  · simp only [if_neg bare]

/-- `step=` is no number for a distribution that is no sequence. -/
theorem pdToken_step (p : Param) {prob : PdType} (step : p.name = .step) (other : isSequence prob = false)
    (field : Field) (v : ℚ) : pdToken prob p.text ≠ .ok (.number field v) := by
  obtain ⟨name, number, suffix⟩ := p
  cases step
  have formats : tryFormats (Param.text ⟨.step, number, suffix⟩) (unitFormats prob) = .ok none := by
    simp only [unitFormats, List.cons_append, List.nil_append, other]
    iterate 6 rw [tryFormats_skip (by rfl)]
    rfl
  have plain : tryPlain prob (Param.text ⟨.step, number, suffix⟩) = none := by
    have col : scanAfter ['c', 'o', 'l', '='] scanInt (Param.text ⟨.step, number, suffix⟩) = none := rfl
    have xavg : scanAfter ['x', 'a', 'v', 'g', '='] scanDouble (Param.text ⟨.step, number, suffix⟩) = none := rfl
    have xstd : scanAfter ['x', 's', 't', 'd', '='] scanDouble (Param.text ⟨.step, number, suffix⟩) = none := rfl
    simp [tryPlain, col, xavg, xstd]
  have bare : sscanfUnit [] (Param.text ⟨.step, number, suffix⟩) = .ok none := sscanfUnit_none (by rfl)
  rw [pdToken, formats]
  simp only [plain, bare]
  split
  · have named : fileToken (Param.text ⟨.step, number, suffix⟩) = .ok (.fname (Param.text ⟨.step, number, suffix⟩)) :=
      rfl
    rw [named]
    simp
  · simp

/-! ## The whole specification -/

theorem pdTokens_iff {prob : PdType} {toks : List (List Char)} {stores : List Store} :
    pdTokens prob toks = .ok stores ↔ List.Forall₂ (fun tok s => pdToken prob tok = .ok s) toks stores := by
  induction toks generalizing stores with
  | nil => simp [pdTokens, eq_comm]
  | cons tok rest ih =>
    rw [List.forall₂_cons_left_iff, pdTokens]
    cases first : pdToken prob tok with
    | error e => simp
    | ok s =>
      simp only [Except.ok.injEq]
      cases later : pdTokens prob rest with
      | error e =>
        constructor
        · intro h
          cases h
        · rintro ⟨t, ts, -, all, rfl⟩
          rw [← ih, later] at all
          cases all
      | ok ss =>
        constructor
        · intro h
          cases h
          exact ⟨s, ss, rfl, ih.mp later, rfl⟩
        · rintro ⟨t, ts, rfl, all, rfl⟩
          rw [← ih, later] at all
          cases all
          rfl

/-- A parameter without its `b`. -/
def Param.strip (p : Param) : Param := { p with suffix := { p.suffix with byte := none } }

def stripLast : List Param → List Param
  | [] => []
  | [p] => [p.strip]
  | p :: q :: rest => p :: stripLast (q :: rest)

theorem stripByte_append (front : List Char) {back : List Char} (nonempty : back ≠ []) :
    stripByte (front ++ back) = front ++ stripByte back := by
  simp only [stripByte, List.getLast?_append_of_ne_nil _ nonempty]
  split
  · exact List.dropLast_append_of_ne_nil nonempty
  · rfl

theorem Param.text_ne (p : Param) : p.text ≠ [] := by
  obtain ⟨c, last, -⟩ := p.last_char
  rintro empty
  rw [empty] at last
  cases last

theorem stripByte_param (p : Param) : stripByte p.text = p.strip.text := by
  obtain ⟨c, last, -, -, byte⟩ := p.last_char
  obtain ⟨name, number, ⟨magnitude, _ | big⟩⟩ := p
  · have plain : ¬ (c = 'b' ∨ c = 'B') := by simpa using byte
    rw [stripByte, last, if_neg (by simpa using plain)]
    rfl
  · have letter : c = 'b' ∨ c = 'B' := by simpa using byte
    rw [stripByte, last, if_pos (by simpa using letter)]
    simp [Param.text, Param.strip, Suffix.text, ← List.append_assoc]

theorem intercalate_ne {text : List Char} (nonempty : text ≠ []) (rest : List (List Char)) :
    [':'].intercalate (text :: rest) ≠ [] := by
  cases rest with
  | nil => simpa using nonempty
  | cons next rest => simp

theorem stripLast_cons (p : Param) {rest : List Param} (nonempty : rest ≠ []) :
    stripLast (p :: rest) = p :: stripLast rest := by
  cases rest with
  | nil => exact absurd rfl nonempty
  | cons q rest => rfl

/-- The `b` that is taken off belongs to the last parameter. -/
theorem stripByte_params (head : List Char) {params : List Param} (nonempty : params ≠ []) :
    stripByte ([':'].intercalate (head :: params.map (·.text))) =
      [':'].intercalate (head :: (stripLast params).map (·.text)) := by
  induction params generalizing head with
  | nil => exact absurd rfl nonempty
  | cons p rest ih =>
    rw [List.map_cons, List.intercalate_cons_cons, stripByte_append _ (intercalate_ne p.text_ne _)]
    by_cases last : rest = []
    · subst last
      simp [stripLast, stripByte_param]
    · rw [ih p.text last, stripLast_cons p last, List.map_cons, List.intercalate_cons_cons]

theorem stripByte_name {prob : PdType} (named : prob ∈ namedDists) :
    stripByte ((distName prob).getD []) = (distName prob).getD [] := by
  revert prob
  decide

theorem pdHead_name {prob : PdType} (named : prob ∈ namedDists) :
    pdHead ((distName prob).getD []) = .ok (prob, []) := by
  revert prob
  decide

theorem colon_notMem (p : Param) : ':' ∉ p.text := by
  intro inside
  rcases List.mem_append.mp inside with literal | inside
  · revert literal
    cases p.name <;> decide
  rcases List.mem_append.mp inside with number | suffix
  · rcases List.mem_append.mp number with sign | digit
    · revert sign
      cases p.number.sign <;> decide
    · cases p.number.numeral.digits ':' digit
  · exact (p.suffix.letters ':' suffix).2.2.2 rfl

theorem colon_name {prob : PdType} (named : prob ∈ namedDists) : ':' ∉ (distName prob).getD [] := by
  revert prob
  decide

/-- What is parsed are the parameters, the last one without its `b`. -/
theorem pdParseBytes_eq (s : ByteSpec) :
    pdParseBytes s.text = (pdTokens s.dist ((stripLast s.params).map (·.text))).map fun stores => (s.dist, stores) := by
  have stripped : stripByte s.text =
      [':'].intercalate ((distName s.dist).getD [] :: (stripLast s.params).map (·.text)) := by
    by_cases bare : s.params = []
    · simpa [ByteSpec.text, bare, stripLast] using stripByte_name s.named
    · exact stripByte_params _ bare
  have split : (stripByte s.text).splitOn ':' = (distName s.dist).getD [] :: (stripLast s.params).map (·.text) := by
    rw [stripped]
    apply List.splitOn_intercalate
    · intro text inside
      rcases List.mem_cons.mp inside with rfl | inside
      · exact colon_name s.named
      · obtain ⟨p, -, rfl⟩ := List.mem_map.mp inside
        exact colon_notMem p
    · simp
  simp only [pdParseBytes, pdParseInternal, split, pdHead_name s.named, List.nil_append]

/-! ### When the units apply -/

/-- The parser reads the factor off the suffix, unless there is a letter before the `b`. -/
theorem read_eq_iff (s : Suffix) : s.read = s.factor ↔ ¬ (s.magnitude.isSome ∧ s.byte.isSome) := by
  obtain ⟨_ | ⟨m, upper⟩, _ | big⟩ := s
  · simp [Suffix.read, Suffix.factor]
  · simp [Suffix.read, Suffix.factor]
  · simp [Suffix.read, Suffix.factor]
  · cases m with
    | kilo => norm_num [Suffix.read, Suffix.factor, Magnitude.factor]
    | mega => norm_num [Suffix.read, Suffix.factor, Magnitude.factor]
    | giga => norm_num [Suffix.read, Suffix.factor, Magnitude.factor]

theorem pdToken_store_iff (p : Param) {prob : PdType} : pdToken prob p.text = .ok p.store ↔
    (p.name = .step → isSequence prob = true) ∧
      (p.suffix.magnitude.isSome → p.suffix.byte.isSome → p.number.value = 0) := by
  by_cases known : p.name = .step → isSequence prob = true
  · have same : p.readStore = p.store ↔ (p.number.value = 0 ∨ p.suffix.read = p.suffix.factor) := by
      simp only [Param.readStore, Param.store, Store.number.injEq, true_and]
      rw [mul_eq_mul_left_iff, Int.cast_eq_zero, or_comm]
    rw [pdToken_param p known, Except.ok.injEq, same, read_eq_iff]
    tauto
  · obtain ⟨step, other⟩ := Classical.not_imp.mp known
    constructor
    · intro stored
      exact absurd stored (pdToken_step p step (by simpa using other) _ _)
    · rintro ⟨known', -⟩
      exact absurd known' known

theorem stores_iff {prob : PdType} (params : List Param) :
    List.Forall₂ (fun tok s => pdToken prob tok = .ok s) ((stripLast params).map (·.text))
      (params.map (·.store)) ↔
    (∀ p ∈ params, p.name = .step → isSequence prob = true) ∧
      ∀ p ∈ params.dropLast, p.suffix.magnitude.isSome → p.suffix.byte.isSome → p.number.value = 0 := by
  induction params with
  | nil => simp [stripLast]
  | cons p rest ih =>
    by_cases last : rest = []
    · subst last
      have alone : pdToken prob p.strip.text = .ok p.strip.store ↔ _ := pdToken_store_iff p.strip
      simp only [Param.strip, Option.isSome_none, Bool.false_eq_true, false_implies, implies_true, and_true] at alone
      simp only [stripLast, List.map_cons, List.map_nil, List.forall₂_cons, List.Forall₂.nil, and_true,
        List.dropLast_singleton, List.not_mem_nil, false_implies, implies_true, List.mem_singleton, forall_eq]
      exact alone
    · rw [stripLast_cons p last, List.map_cons, List.map_cons, List.forall₂_cons, ih, pdToken_store_iff,
        List.dropLast_cons_of_ne_nil last]
      simp only [List.mem_cons, forall_eq_or_imp]
      tauto

/-- The units apply exactly if `step=` is given to sequences only and no parameter before
the last one has a letter before its `b`, unless it is 0. -/
theorem units_apply_iff (s : ByteSpec) : UnitsApply s ↔
    (∀ p ∈ s.params, p.name = .step → isSequence s.dist = true) ∧
      ∀ p ∈ s.params.dropLast, p.suffix.magnitude.isSome → p.suffix.byte.isSome → p.number.value = 0 := by
  rw [← stores_iff, ← pdTokens_iff, UnitsApply, pdParseBytes_eq]
  cases pdTokens s.dist ((stripLast s.params).map (·.text)) with
  | error e => simp [Except.map]
  | ok stores => simp [Except.map]

/-- `unif:min=1kb:max=9kb`. -/
def kilobytes : ByteSpec where
  dist := .unif
  params := [⟨.min, ⟨.absent, oneDigit '1' rfl⟩, ⟨some (.kilo, false), some false⟩⟩,
    ⟨.max, ⟨.absent, oneDigit '9' rfl⟩, ⟨some (.kilo, false), some false⟩⟩]
  named := List.mem_cons_of_mem _ (List.mem_cons_self ..)

/-- The lower limit is 1 byte, the upper one 9000. -/
theorem first_limit_in_bytes : kilobytes.text = "unif:min=1kb:max=9kb".toList ∧
    pdParseBytes "unif:min=1kb:max=9kb".toList = .ok (.unif, [.number .min 1, .number .max 9000]) ∧
    ¬ UnitsApply kilobytes := by
  have text : kilobytes.text = "unif:min=1kb:max=9kb".toList := by rfl
  have parsed : pdParseBytes "unif:min=1kb:max=9kb".toList = .ok (.unif, [.number .min 1, .number .max 9000]) := by
    decide +kernel
  refine ⟨text, parsed, ?_⟩
  rw [UnitsApply, text, parsed]
  decide +kernel

/-! ## The specification that is stored -/

/-- A number that is stored, as a token of `ReplySizes`. -/
def Store.token : Store → Option ReplySizes.PdToken
  | .number .val v => some (.value (some v))
  | .number .std v => some (.std (some v))
  | .number .min v => some (.min (some v))
  | .number .max v => some (.max (some v))
  | .number .k v => some (.k (some v))
  | .number .scale v => some (.scale (some v))
  | _ => none

/-- The parameter as a token, with its own unit. -/
def Param.token (p : Param) : ReplySizes.PdToken :=
  let v := some (p.number.value * p.suffix.factor)
  match p.name with
  | .value => .value v
  | .min => .min v
  | .max => .max v
  | .std => .std v
  | .step => .step v
  | .avg => .avg v

/-- A token of a parameter changes the specification as what is stored for it. -/
theorem token_store (p : Param) {t : PdSpec × ℚ} (known : p.name = .step → ReplySizes.isSeq t.1 = true) :
    ∃ token, p.store.token = some token ∧ ReplySizes.pdToken t p.token = ReplySizes.pdToken t token := by
  obtain ⟨name, number, suffix⟩ := p
  cases name with
  | step => exact ⟨_, rfl, if_pos (known rfl)⟩
  | _ => exact ⟨_, rfl, rfl⟩

theorem tokens_stores (params : List Param) {t : PdSpec × ℚ}
    (known : ∀ p ∈ params, p.name = .step → ReplySizes.isSeq t.1 = true) :
    ((params.map (·.store)).filterMap (·.token)).foldlM ReplySizes.pdToken t =
      (params.map (·.token)).foldlM ReplySizes.pdToken t := by
  induction params generalizing t with
  | nil => rfl
  | cons p rest ih =>
    obtain ⟨token, stored, same⟩ := token_store p (known p (List.mem_cons_self ..))
    rw [List.map_cons, List.filterMap_cons_some stored, List.map_cons, List.foldlM_cons, List.foldlM_cons, same]
    cases first : ReplySizes.pdToken t token with
    | none => rfl
    | some u =>
      apply ih
      intro q inside step
      have kept := (ReplySizes.pdToken_frame first).1
      have before := known q (List.mem_cons_of_mem _ inside) step
      rwa [ReplySizes.isSeq, kept]

/-- The distributions of `ReplySizes` that have a name and no file. -/
def specHead : PdType → Option ReplySizes.PdHead
  | .none => some .none
  | .unif => some .unif
  | .arithSeq => some .aseq
  | .geoSeq => some .gseq
  | _ => none

/-- What the parser makes of its argument in the end. -/
def pdSpec (text : List Char) : Option PdSpec :=
  match pdParseBytes text with
  | .error _ => none
  | .ok (prob, stores) => (specHead prob).bind fun head => ReplySizes.pdParseBytes head (stores.filterMap (·.token))

/-- Where the units apply, the specification is the one of the parameters with their
own units. -/
theorem pdSpec_eq {s : ByteSpec} (units : UnitsApply s)
    (known : ∀ p ∈ s.params, p.name = .step → isSequence s.dist = true) :
    pdSpec s.text = (specHead s.dist).bind fun head => ReplySizes.pdParseBytes head (s.params.map (·.token)) := by
  simp only [pdSpec, show pdParseBytes s.text = _ from units]
  cases head : specHead s.dist with
  | none => rfl
  | some h =>
    have kind : isSequence s.dist = ReplySizes.isSeq (ReplySizes.pdStart h).1 := by
      revert head
      cases s.dist <;> intro head <;> cases head <;> rfl
    simp only [Option.bind_some, ReplySizes.pdParseBytes]
    rw [tokens_stores s.params fun p inside step => by rw [← kind]; exact known p inside step]

end ByteUnits
