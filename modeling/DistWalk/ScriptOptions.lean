import DistWalk.PairReader
import DistWalk.Scanning

/-!
# Options from a script

`script_parse` splits the lines of a script at spaces and at hyphens, so what it sees of
an option are the pieces of its name and its value. It looks a piece up by the names that
it begins with, and hands the next piece over as the argument, whether the option has one
or not. What is left of the options of the command line are those whose name is one
piece and whose value is the next one.
-/

namespace ScriptOptions

open Scanning PairReader

inductive OptionKey
  | help
  | usage
  | numPkts
  | period
  | rate
  | compTime
  | storeData
  | loadData
  | storeOffset
  | loadOffset
  | skipCmd
  | forwardCmd
  | replyCmd
  | scriptFilename
  | bindAddr
  | interactivePso
  | outputFile
  | waitSpin
  | rateStepSecs
  | sendRequestSize
  | noDelay
  | numThreads
  | numSessions
  | perSessionOutput
  | toOptArg
  | connRetryNum
  | connRetryPeriod
  | connTimes
  | connNonblock
  | stagSend
  | seed
  | sslCertFile
  | sslKeyFile
  | sslCaFile
  | sslCiphers
  | sslCaPath
  | sslVerify
  | nanoOutput
  | dpdkTxCpu
  | dpdkRxCpu
  deriving DecidableEq

/-- The keys that are characters. The others are numbers beyond them. -/
def OptionKey.char : OptionKey → Option Char
  | .help => some 'h'
  | .numPkts => some 'n'
  | .period => some 'p'
  | .rate => some 'r'
  | .compTime => some 'C'
  | .storeData => some 'S'
  | .loadData => some 'L'
  | .skipCmd => some 's'
  | .forwardCmd => some 'F'
  | .replyCmd => some 'R'
  | .scriptFilename => some 'f'
  | .bindAddr => some 'b'
  | .interactivePso => some 'i'
  | .outputFile => some 'o'
  | _ => none

/-- Whether the option has an argument, and whether that is optional. -/
inductive ArgKind
  | none
  | required
  | optional
  deriving DecidableEq

structure ArgpOption where
  name : String
  key : OptionKey
  arg : ArgKind
  deriving DecidableEq

def argpClientOptions : List ArgpOption := [
  ⟨"bind-addr", .bindAddr, .required⟩,
  ⟨"to", .toOptArg, .required⟩,
  ⟨"num-pkts", .numPkts, .required⟩,
  ⟨"period", .period, .required⟩,
  ⟨"rate", .rate, .required⟩,
  ⟨"wait-spin", .waitSpin, .none⟩,
  ⟨"ws", .waitSpin, .none⟩,
  ⟨"rate-step-secs", .rateStepSecs, .required⟩,
  ⟨"rss", .rateStepSecs, .required⟩,
  ⟨"comp-time", .compTime, .required⟩,
  ⟨"store-offset", .storeOffset, .required⟩,
  ⟨"store-data", .storeData, .required⟩,
  ⟨"load-offset", .loadOffset, .required⟩,
  ⟨"load-data", .loadData, .required⟩,
  ⟨"skip", .skipCmd, .required⟩,
  ⟨"forward", .forwardCmd, .required⟩,
  ⟨"ps", .sendRequestSize, .required⟩,
  ⟨"rs", .replyCmd, .optional⟩,
  ⟨"num-threads", .numThreads, .required⟩,
  ⟨"nt", .numThreads, .required⟩,
  ⟨"num-sessions", .numSessions, .required⟩,
  ⟨"ns", .numSessions, .required⟩,
  ⟨"retry-num", .connRetryNum, .required⟩,
  ⟨"retry-period", .connRetryPeriod, .required⟩,
  ⟨"conn-times", .connTimes, .none⟩,
  ⟨"non-block", .connNonblock, .none⟩,
  ⟨"no-delay", .noDelay, .required⟩,
  ⟨"nd", .noDelay, .required⟩,
  ⟨"stag-send", .stagSend, .none⟩,
  ⟨"pso", .perSessionOutput, .none⟩,
  ⟨"per-session-output", .perSessionOutput, .none⟩,
  ⟨"i", .interactivePso, .none⟩,
  ⟨"interactive-pso", .interactivePso, .none⟩,
  ⟨"script-filename", .scriptFilename, .required⟩,
  ⟨"help", .help, .none⟩,
  ⟨"usage", .usage, .none⟩,
  ⟨"seed", .seed, .required⟩,
  ⟨"ssl-cert", .sslCertFile, .required⟩,
  ⟨"ssl-key", .sslKeyFile, .required⟩,
  ⟨"ssl-ca", .sslCaFile, .required⟩,
  ⟨"ssl-ciphers", .sslCiphers, .required⟩,
  ⟨"ssl-ca-path", .sslCaPath, .required⟩,
  ⟨"ssl-verify", .sslVerify, .none⟩,
  ⟨"nano", .nanoOutput, .none⟩,
  ⟨"dpdk-tx-cpu", .dpdkTxCpu, .required⟩,
  ⟨"dpdk-rx-cpu", .dpdkRxCpu, .required⟩,
  ⟨"output", .outputFile, .required⟩,
  ⟨"output-file", .outputFile, .required⟩]

/-! ## The script -/

/-- The delimiters of `strsep`. -/
def isDelim (c : Char) : Bool := c = ' ' || c = '-' || c = '\n'

/-- The size of the buffer for a line. -/
def lineSize : Nat := 1024

/-- `fgets`: up to a newline, which belongs to the line, or until the buffer is full. -/
def fgets (s : List Char) : List Char × List Char :=
  s.splitAt (min ((s.takeWhile (· ≠ '\n')).length + 1) (lineSize - 1))

/-- The tokens of a line. One that begins with `#` ends it. -/
def lineTokens (line : List Char) : List (List Char) :=
  (fields isDelim line).takeWhile fun tok => tok.head? ≠ some '#'

/-- The tokens of a file; every line that is read is shorter than `fuel`. -/
def fileTokens : Nat → List Char → List (List Char)
  | 0, _ => []
  | fuel + 1, s => if s = [] then [] else lineTokens (fgets s).1 ++ fileTokens fuel (fgets s).2

/-- The option whose name the token begins with or whose key it is, the first one in the
table. -/
def findOption (tok : List Char) : Option ArgpOption :=
  argpClientOptions.find? fun o => o.name.toList.isPrefixOf tok || o.key.char.any fun c => tok = [c]

/-- The key of a token and whether the loop steps over the argument. -/
def findKey (tok : List Char) : Option (OptionKey × Bool) :=
  (findOption tok).map fun o => (o.key, decide (o.arg ≠ .none))

/-- A call of `argp_client_parse_opt`. -/
abbrev Call := OptionKey × Option (List Char)

/-- The calls that `script_parse` makes for a file. -/
def scriptParse (file : List Char) : List Call :=
  (readPairs findKey (fileTokens (file.length + 1) file)).map fun c => (c.1, some c.2)

/-! ## Scripts and the command line -/

/-- An argument in the word of the option or in the next word. -/
inductive Argument
  | absent
  | separate (value : List Char)
  | attached (value : List Char)

/-- What stands in one word. -/
def Word (w : List Char) : Prop := ∀ c ∈ w, c ≠ ' ' ∧ c ≠ '\n'

/-- The option is accepted on the command line by the one-character name or by the long
one. In a script a word that begins with `#` is a comment. -/
structure Item where
  option : ArgpOption
  known : option ∈ argpClientOptions
  short : Option Char
  named : ∀ c ∈ short, option.key.char = some c
  arg : Argument
  accepted : match arg with
    | .absent => option.arg ≠ .required
    | .separate v => option.arg = .required ∧ v ≠ [] ∧ v.head? ≠ some '#' ∧ Word v
    | .attached v => option.arg ≠ .none ∧ short = none ∧ Word v

/-- The word that names the option. -/
def Item.flag (e : Item) : List Char :=
  match e.short with
  | some c => ['-', c]
  | none => '-' :: '-' :: e.option.name.toList

def Item.words (e : Item) : List (List Char) :=
  match e.arg with
  | .absent => [e.flag]
  | .separate v => [e.flag, v]
  | .attached v => [e.flag ++ '=' :: v]

/-- The call that `argp` makes for the words of the option. -/
def Item.call (e : Item) : Call :=
  (e.option.key, match e.arg with
    | .absent => none
    | .separate v => some v
    | .attached v => some v)

/-- Options and a comment behind them. -/
structure Line where
  items : List Item
  comment : Option (List Char)
  single : ∀ text ∈ comment, '\n' ∉ text

def Line.text (l : Line) : List Char :=
  [' '].intercalate (l.items.flatMap (·.words) ++ (l.comment.map ('#' :: ·)).toList)

/-- The lines of a file. The last one may be empty, behind a final newline. -/
def scriptText (script : List Line) : List Char := ['\n'].intercalate (script.map (·.text))

def scriptItems (script : List Line) : List Item := script.flatMap (·.items)

/-- The script makes the calls of the same options on the command line. -/
def LikeCommandLine (script : List Line) : Prop :=
  scriptParse (scriptText script) = (scriptItems script).map (·.call)

/-- The value is in its own word and has no hyphen, and the name is a character or has no
hyphen. (What becomes of `--output-file file` is `--output file`.) -/
def Item.Plain (e : Item) : Prop :=
  ∃ v, e.arg = .separate v ∧ '-' ∉ v ∧
    (e.short ≠ none ∨ '-' ∉ e.option.name.toList ∨ e.option.name = "output-file" ∧ v = "file".toList)

/-- The lines fit in the buffer. -/
def Fits (script : List Line) : Prop := ∀ l ∈ script, l.text.length < lineSize

/-! ## The table -/

/-- The pieces of a name. -/
def ArgpOption.parts (o : ArgpOption) : List (List Char) := fields isDelim o.name.toList

theorem name_joined {o : ArgpOption} (known : o ∈ argpClientOptions) : ['-'].intercalate o.parts = o.name.toList := by
  revert o
  decide +kernel

/-- Options with one key have all an argument or none. -/
theorem same_kind {o o' : ArgpOption} (known : o ∈ argpClientOptions) (known' : o' ∈ argpClientOptions)
    (same : o'.key = o.key) (takes : o.arg ≠ .none) : o'.arg ≠ .none := by
  have all : ∀ o ∈ argpClientOptions, ∀ o' ∈ argpClientOptions, o'.key = o.key → o.arg ≠ .none → o'.arg ≠ .none := by
    decide +kernel
  exact all o known o' known' same takes

/-- A name of one piece is found as itself. -/
theorem found_name {o : ArgpOption} (known : o ∈ argpClientOptions) (takes : o.arg = .required)
    (whole : '-' ∉ o.name.toList) : o.parts = [o.name.toList] ∧ findKey o.name.toList = some (o.key, true) := by
  revert o
  decide +kernel

theorem found_char {o : ArgpOption} (known : o ∈ argpClientOptions) (takes : o.arg = .required) {c : Char}
    (short : o.key.char = some c) : findKey [c] = some (o.key, true) := by
  have all : ∀ o ∈ argpClientOptions, o.arg = .required →
      o.key.char.all (fun c => findKey [c] = some (o.key, true)) = true := by decide +kernel
  have here := all o known takes
  rw [short] at here
  simpa using here

/-- No piece of a name but the first is found as the option. -/
theorem inner_part {o : ArgpOption} (known : o ∈ argpClientOptions) (takes : o.arg ≠ .none) {t : List Char}
    (inside : t ∈ o.parts.tail) (b : Bool) : findKey t ≠ some (o.key, b) := by
  have all : ∀ o ∈ argpClientOptions, o.arg ≠ .none → ∀ t ∈ o.parts.tail, ∀ b, findKey t ≠ some (o.key, b) := by
    decide +kernel
  exact all o known takes t inside b

/-- The first of several pieces is found as the option only for `output-file`. -/
theorem first_part {o : ArgpOption} (known : o ∈ argpClientOptions) (takes : o.arg ≠ .none) {t t' : List Char}
    {rest : List (List Char)} (parts : o.parts = t :: t' :: rest) {b : Bool} (found : findKey t = some (o.key, b)) :
    o.name = "output-file" ∧ o.parts = ["output".toList, "file".toList] := by
  have all : ∀ o ∈ argpClientOptions, o.arg ≠ .none → 1 < o.parts.length →
      ∀ t ∈ o.parts.head?, ∀ b, findKey t = some (o.key, b) →
        o.name = "output-file" ∧ o.parts = ["output".toList, "file".toList] := by decide +kernel
  apply all o known takes _ t _ b found
  · rw [parts]
    simp
  · rw [parts]
    rfl

theorem parts_plain {o : ArgpOption} (known : o ∈ argpClientOptions) :
    o.parts ≠ [] ∧ ∀ t ∈ o.parts, t.head? ≠ some '#' := by
  revert o
  decide +kernel

theorem char_plain {o : ArgpOption} (known : o ∈ argpClientOptions) {c : Char} (short : o.key.char = some c) :
    isDelim c = false ∧ c ≠ '#' := by
  have all : ∀ o ∈ argpClientOptions, o.key.char.all (fun c => isDelim c = false ∧ c ≠ '#') = true := by decide +kernel
  have here := all o known
  rw [short] at here
  simpa using here

/-! ## The tokens of an option -/

def Item.toks (e : Item) : List (List Char) := e.words.flatMap (fields isDelim)

/-- The value, or nothing. -/
def Item.value (e : Item) : List Char :=
  match e.arg with
  | .absent => []
  | .separate v => v
  | .attached v => v

def Item.pair (e : Item) : OptionKey × List Char := (e.option.key, e.value)

/-- There is a value, and it is one piece. -/
structure Item.Simple (e : Item) : Prop where
  present : e.arg ≠ .absent
  nonempty : e.value ≠ []
  whole : '-' ∉ e.value

/-- What the pieces of the name leave before the last token. -/
def Item.front (e : Item) : List (List Char) :=
  match e.arg, e.short with
  | .attached _, _ => e.option.parts.dropLast
  | _, some c => [[c]]
  | _, none => e.option.parts

/-- The last token: the value, or the last piece of the name with it. -/
def Item.last (e : Item) : List Char :=
  match e.arg with
  | .attached v => e.option.parts.getLastD [] ++ '=' :: v
  | _ => e.value

theorem delim_free {w : List Char} (word : Word w) (whole : '-' ∉ w) : ∀ c ∈ w, isDelim c = false := by
  intro c inside
  obtain ⟨space, newline⟩ := word c inside
  have hyphen : c ≠ '-' := by
    rintro rfl
    exact whole inside
  simp [isDelim, space, newline, hyphen]

theorem part_clean {o : ArgpOption} {t : List Char} (inside : t ∈ o.parts) : t ≠ [] ∧ ∀ c ∈ t, isDelim c = false :=
  mem_fields inside

/-- Text without a delimiter lengthens the last field. -/
theorem fields_longer {ps : List (List Char)} {q w : List Char} (clean : ∀ t ∈ ps ++ [q], t ≠ [] ∧ ∀ c ∈ t, isDelim c = false)
    (longer : ∀ c ∈ w, isDelim c = false) :
    fields isDelim (['-'].intercalate (ps ++ [q]) ++ w) = ps ++ [q ++ w] := by
  induction ps with
  | nil =>
    obtain ⟨nonempty, whole⟩ := clean q (by simp)
    have word : ∀ c ∈ q ++ w, isDelim c = false := by
      intro c inside
      rcases List.mem_append.mp inside with first | second
      · exact whole c first
      · exact longer c second
    simpa using fields_word (by simp [nonempty]) word
  | cons p ps ih =>
    obtain ⟨nonempty, whole⟩ := clean p (by simp)
    have later := ih fun t inside => clean t (List.mem_cons_of_mem _ inside)
    obtain ⟨first, rest, split⟩ := List.exists_cons_of_ne_nil (show ps ++ [q] ≠ [] by simp)
    rw [List.cons_append, split, List.intercalate_cons_cons, ← split, List.append_assoc, List.append_assoc,
      List.singleton_append, fields_append_cons (c := '-') rfl, fields_word nonempty whole, later]
    rfl

theorem fields_flag (e : Item) :
    fields isDelim e.flag = match e.short with | some c => [[c]] | none => e.option.parts := by
  unfold Item.flag
  cases short : e.short with
  | none =>
    simp only
    rw [fields_cons rfl, fields_cons rfl]
    rfl
  | some c =>
    simp only
    have whole := (char_plain e.known (e.named c short)).1
    rw [fields_cons rfl, fields_word (by simp) (by simpa using whole)]

theorem toks_eq {e : Item} (simple : e.Simple) : e.toks = e.front ++ [e.last] := by
  obtain ⟨present, nonempty, whole⟩ := simple
  have flag := fields_flag e
  obtain ⟨option, known, short, named, arg, accepted⟩ := e
  cases arg with
  | absent => exact absurd rfl present
  | separate v =>
    have value : fields isDelim v = [v] := fields_word nonempty (delim_free accepted.2.2.2 whole)
    simp only [Item.toks, Item.words, List.flatMap_cons, List.flatMap_nil, List.append_nil, flag, value]
    cases short with
    | none => rfl
    | some c => rfl
  | attached v =>
    have hyphens : '-' ∉ v := whole
    have long : short = none := accepted.2.1
    have word : Word v := accepted.2.2
    subst long
    obtain ⟨some_, -⟩ := parts_plain known
    have parts : option.parts = option.parts.dropLast ++ [option.parts.getLastD []] := by
      rw [List.getLastD_eq_getLast?, List.getLast?_eq_some_getLast some_]
      exact (List.dropLast_append_getLast some_).symm
    have clean : ∀ t ∈ option.parts.dropLast ++ [option.parts.getLastD []], t ≠ [] ∧ ∀ c ∈ t, isDelim c = false := by
      rw [← parts]
      exact fun t inside => part_clean inside
    have suffix : ∀ c ∈ '=' :: v, isDelim c = false := by
      intro c inside
      rcases List.mem_cons.mp inside with rfl | inside
      · rfl
      · exact delim_free word hyphens c inside
    have longer := fields_longer clean suffix
    rw [← parts, name_joined known] at longer
    simp only [Item.toks, Item.words, Item.flag, List.flatMap_cons, List.flatMap_nil, List.append_nil]
    rw [List.cons_append, List.cons_append, fields_cons rfl, fields_cons rfl, longer]
    rfl

/-- In front of the last token no further piece is found as the option. -/
theorem front_tail {e : Item} (simple : e.Simple) {t : List Char} (inside : t ∈ e.front.tail) (b : Bool) :
    findKey t ≠ some (e.option.key, b) := by
  obtain ⟨present, -, -⟩ := simple
  obtain ⟨option, known, short, named, arg, accepted⟩ := e
  cases arg with
  | absent => exact absurd rfl present
  | separate v =>
    cases short with
    | none => exact inner_part known (by rw [accepted.1]; decide) inside b
    | some c => cases inside
  | attached v =>
    apply inner_part known accepted.1 _ b
    have shorter : option.parts.dropLast.tail = option.parts.tail.dropLast := List.tail_dropLast
    have there : t ∈ option.parts.tail.dropLast := shorter ▸ inside
    exact List.dropLast_subset _ there

theorem takes_argument {e : Item} (simple : e.Simple) : e.option.arg ≠ .none := by
  obtain ⟨present, -, -⟩ := simple
  obtain ⟨option, known, short, named, arg, accepted⟩ := e
  cases arg with
  | absent => exact absurd rfl present
  | separate v =>
    rw [accepted.1]
    decide
  | attached v => exact accepted.1

theorem simple_spoken {e : Item} (simple : e.Simple) : Spoken findKey Item.toks Item.pair e where
  nonempty := by
    rw [toks_eq simple]
    simp
  inner := by
    intro front t t' back tokens started b
    rw [toks_eq simple] at tokens
    have shorter := congrArg List.dropLast tokens
    rw [List.dropLast_concat, List.dropLast_append_of_ne_nil (by simp), List.dropLast_cons_of_ne_nil (by simp)] at shorter
    apply front_tail simple _ b
    rw [shorter, List.tail_append_of_ne_nil started]
    simp
  takes := by
    intro t b found
    simp only [findKey, Option.map_eq_some_iff, Prod.mk.injEq] at found
    obtain ⟨o, first, same, rfl⟩ := found
    have kind := same_kind e.known (List.mem_of_find?_eq_some first) same (takes_argument simple)
    simpa using kind

theorem plain_heard {e : Item} (simple : e.Simple) (plain : e.Plain) : Heard findKey Item.toks Item.pair e := by
  obtain ⟨v, separate, -, name⟩ := plain
  have accepted := e.accepted
  simp only [separate] at accepted
  have value : e.value = v := by simp only [Item.value, separate]
  have last : e.last = v := by simp only [Item.last, separate, value]
  have tokens : e.toks = e.front ++ [v] := by rw [toks_eq simple, last]
  have pair : e.pair = (e.option.key, v) := by rw [Item.pair, value]
  cases short : e.short with
  | some c =>
    have front : e.front = [[c]] := by simp only [Item.front, separate, short]
    refine ⟨[c], [], ?_, ?_, by simp⟩
    · rw [tokens, front, pair]
      rfl
    · rw [pair]
      exact found_char e.known accepted.1 (e.named c short)
  | none =>
    have front : e.front = e.option.parts := by simp only [Item.front, separate, short]
    rcases name with absurdly | whole | ⟨name, rfl⟩
    · exact absurd short absurdly
    · obtain ⟨parts, found⟩ := found_name e.known accepted.1 whole
      refine ⟨e.option.name.toList, [], ?_, ?_, by simp⟩
      · rw [tokens, front, parts, pair]
        rfl
      · rw [pair]
        exact found
    · -- the pieces of the name are `output` and the value
      have parts : e.option.parts = ["output".toList, "file".toList] ∧ findKey "output".toList = some (e.option.key, true) := by
        have all : ∀ o ∈ argpClientOptions, o.name = "output-file" →
            o.parts = ["output".toList, "file".toList] ∧ findKey "output".toList = some (o.key, true) := by
          decide +kernel
        exact all e.option e.known name
      refine ⟨"output".toList, ["file".toList], ?_, ?_, ?_⟩
      · rw [tokens, front, parts.1, pair]
        rfl
      · rw [pair]
        exact parts.2
      · intro x inside
        rw [List.mem_singleton.mp inside]
        decide +kernel

theorem not_plain_unheard {e : Item} (simple : e.Simple) (plain : ¬ e.Plain) :
    Unheard findKey Item.toks Item.pair e := by
  intro t back tokens found
  rw [toks_eq simple] at tokens
  have takes := takes_argument simple
  obtain ⟨present, nonempty, whole⟩ := simple
  obtain ⟨option, known, short, named, arg, accepted⟩ := e
  cases arg with
  | absent => exact absurd rfl present
  | separate v =>
    cases short with
    | some c => exact plain ⟨v, rfl, whole, .inl (by simp)⟩
    | none =>
      have tokens : option.parts ++ [v] = t :: v :: back := tokens
      have joined := name_joined known
      cases parts : option.parts with
      | nil =>
        rw [parts] at tokens
        cases tokens
      | cons first rest =>
        rw [parts, List.cons_append, List.cons.injEq] at tokens
        obtain ⟨rfl, tokens⟩ := tokens
        cases rest with
        | nil =>
          -- a name of one piece has no hyphen
          have single : '-' ∉ option.name.toList := by
            have piece := (part_clean (o := option) (t := first) (by rw [parts]; simp)).2
            rw [← joined, parts]
            simp only [List.intercalate_singleton]
            intro hyphen
            cases piece '-' hyphen
          exact plain ⟨v, rfl, whole, .inr (.inl single)⟩
        | cons second rest =>
          rw [List.cons_append, List.cons.injEq] at tokens
          obtain ⟨name, pieces⟩ := first_part known takes parts found
          rw [parts, List.cons.injEq, List.cons.injEq] at pieces
          exact plain ⟨v, rfl, whole, .inr (.inr ⟨name, by rw [← tokens.1, pieces.2.1]⟩)⟩
  | attached v =>
    have tokens : option.parts.dropLast ++ [option.parts.getLastD [] ++ '=' :: v] = t :: v :: back := tokens
    cases parts : option.parts with
    | nil =>
      rw [parts] at tokens
      cases tokens
    | cons first rest =>
      cases rest with
      | nil =>
        rw [parts] at tokens
        cases tokens
      | cons second rest =>
        have same : first = t := by
          rw [parts] at tokens
          exact (List.cons.inj tokens).1
        subst same
        obtain ⟨name, pieces⟩ := first_part known takes parts found
        rw [pieces] at tokens
        have longer := congrArg List.length (List.cons.inj (List.cons.inj tokens).2).1
        simp at longer
        omega

/-! ## The tokens of a script -/

theorem takeWhile_line {line : List Char} (newline : '\n' ∉ line) (rest : List Char) :
    (line ++ rest).takeWhile (· ≠ '\n') = line ++ rest.takeWhile (· ≠ '\n') := by
  apply List.takeWhile_append_of_pos
  intro c inside
  have other : c ≠ '\n' := by
    rintro rfl
    exact newline inside
  simpa using other

theorem fgets_line {line rest : List Char} (newline : '\n' ∉ line) (fits : line.length + 1 < lineSize) :
    fgets (line ++ '\n' :: rest) = (line ++ ['\n'], rest) := by
  have upTo : (line ++ '\n' :: rest).takeWhile (· ≠ '\n') = line := by
    rw [takeWhile_line newline, List.takeWhile_cons_of_neg (by simp), List.append_nil]
  have count : min (line.length + 1) (lineSize - 1) = (line ++ ['\n']).length := by
    rw [List.length_append, List.length_singleton]
    omega
  have split : line ++ '\n' :: rest = (line ++ ['\n']) ++ rest := by simp
  rw [fgets, upTo, count, split, List.splitAt_eq, List.take_left, List.drop_left]

/-- A line that fills the buffer is read without its newline. -/
theorem fgets_full {line : List Char} (newline : '\n' ∉ line) (full : line.length + 1 = lineSize) (rest : List Char) :
    fgets (line ++ rest) = (line, rest) := by
  have count : min ((line ++ rest.takeWhile (· ≠ '\n')).length + 1) (lineSize - 1) = line.length := by
    rw [List.length_append]
    omega
  rw [fgets, takeWhile_line newline, count, List.splitAt_eq, List.take_left, List.drop_left]

theorem fgets_last {line : List Char} (newline : '\n' ∉ line) (fits : line.length < lineSize) :
    fgets line = (line, []) := by
  have upTo : line.takeWhile (· ≠ '\n') = line := by
    have whole := takeWhile_line newline []
    rwa [List.append_nil, List.takeWhile_nil, List.append_nil] at whole
  have count : line.length ≤ min (line.length + 1) (lineSize - 1) := by omega
  rw [fgets, upTo, List.splitAt_eq, List.take_of_length_le count, List.drop_of_length_le count]

theorem lineTokens_newline (line : List Char) : lineTokens (line ++ ['\n']) = lineTokens line := by
  rw [lineTokens, fields_append_cons (c := '\n') rfl, fields_nil, List.append_nil]
  rfl

theorem fileTokens_nil (fuel : Nat) : fileTokens fuel [] = [] := by
  cases fuel with
  | zero => rfl
  | succ fuel => exact if_pos rfl

theorem fileTokens_succ {fuel : Nat} {s line rest : List Char} (some_ : s ≠ []) (read : fgets s = (line, rest)) :
    fileTokens (fuel + 1) s = lineTokens line ++ fileTokens fuel rest := by
  rw [fileTokens, if_neg some_, read]

/-- A line that fits in the buffer is read with its newline or before it. -/
theorem fileTokens_line {fuel : Nat} {line rest : List Char} (newline : '\n' ∉ line) (fits : line.length < lineSize)
    (enough : line.length + 1 + rest.length < fuel) : ∃ fuel', rest.length < fuel' ∧
      fileTokens fuel (line ++ '\n' :: rest) = lineTokens line ++ fileTokens fuel' rest := by
  obtain ⟨fuel, rfl⟩ : ∃ n, fuel = n + 1 := ⟨fuel - 1, by omega⟩
  by_cases shorter : line.length + 1 < lineSize
  · refine ⟨fuel, by omega, ?_⟩
    rw [fileTokens_succ (by simp) (fgets_line newline shorter), lineTokens_newline]
  · have full : line.length + 1 = lineSize := by omega
    have long : 1 < lineSize := by decide
    obtain ⟨fuel, rfl⟩ : ∃ n, fuel = n + 1 := ⟨fuel - 1, by omega⟩
    refine ⟨fuel, by omega, ?_⟩
    have empty : ([] : List Char).length + 1 < lineSize := long
    have alone : fgets ('\n' :: rest) = ([] ++ ['\n'], rest) := fgets_line List.not_mem_nil empty
    rw [fileTokens_succ (by simp) (fgets_full newline full ('\n' :: rest)),
      fileTokens_succ (by simp) alone, lineTokens_newline]
    simp [lineTokens]

/-- The lines of a file that fit in the buffer are read one by one. -/
theorem fileTokens_lines {fuel : Nat} {lines : List (List Char)}
    (fits : ∀ line ∈ lines, '\n' ∉ line ∧ line.length < lineSize) (enough : (['\n'].intercalate lines).length < fuel) :
    fileTokens fuel (['\n'].intercalate lines) = lines.flatMap lineTokens := by
  induction lines generalizing fuel with
  | nil => exact fileTokens_nil fuel
  | cons line lines ih =>
    obtain ⟨newline, short⟩ := fits line (List.mem_cons_self ..)
    cases lines with
    | nil =>
      rw [List.intercalate_singleton] at enough ⊢
      by_cases empty : line = []
      · rw [empty, fileTokens_nil]
        simp [lineTokens]
      · obtain ⟨fuel, rfl⟩ : ∃ n, fuel = n + 1 := ⟨fuel - 1, by omega⟩
        rw [fileTokens_succ empty (fgets_last newline short), fileTokens_nil]
        simp
    | cons next lines =>
      have text : ['\n'].intercalate (line :: next :: lines) = line ++ '\n' :: ['\n'].intercalate (next :: lines) := by
        simp
      rw [text] at enough ⊢
      rw [List.length_append, List.length_cons] at enough
      have enough' : line.length + 1 + (['\n'].intercalate (next :: lines)).length < fuel := by omega
      obtain ⟨fuel', enough', read⟩ := fileTokens_line newline short enough'
      rw [read, ih (fun l inside => fits l (List.mem_cons_of_mem _ inside)) enough']
      rfl

theorem notMem_intercalate {c d : Char} (other : c ≠ d) {ws : List (List Char)} (absent : ∀ w ∈ ws, c ∉ w) :
    c ∉ [d].intercalate ws := by
  induction ws with
  | nil => simp
  | cons w ws ih =>
    have first := absent w (List.mem_cons_self ..)
    have later := ih fun w' inside => absent w' (List.mem_cons_of_mem _ inside)
    cases ws with
    | nil => simpa using first
    | cons w' ws =>
      rw [List.intercalate_cons_cons]
      simp [first, other, later]

theorem flag_newline (e : Item) : '\n' ∉ e.flag := by
  unfold Item.flag
  cases short : e.short with
  | none =>
    have names : ∀ o ∈ argpClientOptions, '\n' ∉ o.name.toList := by decide +kernel
    simpa using names e.option e.known
  | some c =>
    have plain := (char_plain e.known (e.named c short)).1
    have other : '\n' ≠ c := by
      rintro rfl
      cases plain
    simp [other]

theorem words_newline (e : Item) : ∀ w ∈ e.words, '\n' ∉ w := by
  have flag := flag_newline e
  have accepted := e.accepted
  intro w inside
  unfold Item.words at inside
  cases arg : e.arg with
  | absent =>
    simp only [arg, List.mem_singleton] at inside
    rwa [inside]
  | separate v =>
    simp only [arg] at accepted inside
    simp only [List.mem_cons, List.not_mem_nil, or_false] at inside
    rcases inside with rfl | rfl
    · exact flag
    · exact fun there => (accepted.2.2.2 _ there).2 rfl
  | attached v =>
    simp only [arg] at accepted inside
    rw [List.mem_singleton.mp inside]
    simp only [List.mem_append, List.mem_cons, not_or]
    exact ⟨flag, by decide, fun there => (accepted.2.2 _ there).2 rfl⟩

theorem text_newline (l : Line) : '\n' ∉ l.text := by
  apply notMem_intercalate (by decide)
  intro w inside
  rcases List.mem_append.mp inside with word | comment
  · obtain ⟨e, -, there⟩ := List.mem_flatMap.mp word
    exact words_newline e w there
  · simp only [Option.mem_toList, Option.map_eq_some_iff] at comment
    obtain ⟨text, here, rfl⟩ := comment
    simpa using l.single text here

/-- A token of an option with a simple value does not begin a comment. -/
theorem toks_plain {e : Item} (simple : e.Simple) : ∀ t ∈ e.toks, t.head? ≠ some '#' := by
  rw [toks_eq simple]
  obtain ⟨present, -, -⟩ := simple
  obtain ⟨option, known, short, named, arg, accepted⟩ := e
  obtain ⟨some_, pieces⟩ := parts_plain known
  intro t inside
  cases arg with
  | absent => exact absurd rfl present
  | separate v =>
    rcases List.mem_append.mp inside with front | last
    · cases short with
      | none => exact pieces t front
      | some c =>
        rw [List.mem_singleton.mp front]
        have other := (char_plain known (named c rfl)).2
        simpa using other
    · rw [List.mem_singleton.mp last]
      exact accepted.2.2.1
  | attached v =>
    rcases List.mem_append.mp inside with front | last
    · exact pieces t (List.dropLast_subset _ front)
    · have piece : option.parts.getLastD [] ∈ option.parts := by
        rw [List.getLastD_eq_getLast?, List.getLast?_eq_some_getLast some_]
        exact List.getLast_mem some_
      have whole : t = option.parts.getLastD [] ++ '=' :: v := List.mem_singleton.mp last
      rw [whole, List.head?_append_of_ne_nil _ (part_clean piece).1]
      exact pieces _ piece

theorem lineTokens_text {l : Line} (simple : ∀ e ∈ l.items, e.Simple) :
    lineTokens l.text = l.items.flatMap (·.toks) := by
  have options : ∀ t ∈ l.items.flatMap (·.toks), t.head? ≠ some '#' := by
    intro t inside
    obtain ⟨e, there, token⟩ := List.mem_flatMap.mp inside
    exact toks_plain (simple e there) t token
  have cut : (((l.comment.map ('#' :: ·)).toList).flatMap (fields isDelim)).takeWhile (fun tok => tok.head? ≠ some '#') =
      [] := by
    cases l.comment with
    | none => rfl
    | some text =>
      obtain ⟨w, rest, first⟩ := fields_head (show isDelim '#' = false from rfl) text
      simp [first]
  rw [lineTokens, Line.text, fields_intercalate (c := ' ') rfl, List.flatMap_append, List.flatMap_assoc,
    List.takeWhile_append_of_pos fun t inside => by simpa using options t inside, cut, List.append_nil]
  rfl

theorem fileTokens_script {script : List Line} (fits : Fits script) (simple : ∀ e ∈ scriptItems script, e.Simple) :
    fileTokens ((scriptText script).length + 1) (scriptText script) = (scriptItems script).flatMap (·.toks) := by
  have lines : ∀ line ∈ script.map (·.text), '\n' ∉ line ∧ line.length < lineSize := by
    intro line inside
    obtain ⟨l, there, rfl⟩ := List.mem_map.mp inside
    exact ⟨text_newline l, fits l there⟩
  rw [scriptText, fileTokens_lines lines (Nat.lt_succ_self _), List.flatMap_map, scriptItems, List.flatMap_assoc]
  apply List.flatMap_congr
  intro l inside
  exact lineTokens_text fun e there => simple e (List.mem_flatMap.mpr ⟨l, inside, there⟩)

/-! ## The calls -/

theorem fileTokens_clean {fuel : Nat} {s t : List Char} (inside : t ∈ fileTokens fuel s) :
    t ≠ [] ∧ ∀ c ∈ t, isDelim c = false := by
  induction fuel generalizing s with
  | zero => cases inside
  | succ fuel ih =>
    rw [fileTokens] at inside
    split at inside
    · cases inside
    · rcases List.mem_append.mp inside with here | later
      · exact mem_fields (List.takeWhile_subset _ here)
      · exact ih later

/-- What the script hands over is never absent, and it is one piece. -/
theorem simple_of_like {script : List Line} (like : LikeCommandLine script) : ∀ e ∈ scriptItems script, e.Simple := by
  intro e inside
  have made : e.call ∈ scriptParse (scriptText script) := by
    rw [show scriptParse (scriptText script) = _ from like]
    exact List.mem_map_of_mem inside
  obtain ⟨c, read, same⟩ := List.mem_map.mp made
  obtain ⟨nonempty, clean⟩ := fileTokens_clean (argument_mem read)
  have whole : '-' ∉ c.2 := by
    intro hyphen
    cases clean '-' hyphen
  have value := congrArg Prod.snd same
  unfold Item.call at value
  cases arg : e.arg with
  | absent =>
    simp only [arg] at value
    cases value
  | separate v =>
    simp only [arg, Option.some.injEq] at value
    rw [value] at nonempty whole
    exact ⟨by simp [arg], by simpa [Item.value, arg] using nonempty, by simpa [Item.value, arg] using whole⟩
  | attached v =>
    simp only [arg, Option.some.injEq] at value
    rw [value] at nonempty whole
    exact ⟨by simp [arg], by simpa [Item.value, arg] using nonempty, by simpa [Item.value, arg] using whole⟩

theorem simple_of_plain {e : Item} (plain : e.Plain) : e.Simple := by
  obtain ⟨v, separate, whole, -⟩ := plain
  have accepted := e.accepted
  simp only [separate] at accepted
  exact ⟨by simp [separate], by simpa [Item.value, separate] using accepted.2.1, by simpa [Item.value, separate] using whole⟩

theorem call_pair {e : Item} (simple : e.Simple) : e.call = (e.pair.1, some e.pair.2) := by
  have present := simple.present
  unfold Item.call Item.pair Item.value
  cases arg : e.arg with
  | absent => exact absurd arg present
  | separate v => rfl
  | attached v => rfl

theorem like_iff_heard {script : List Line} (fits : Fits script) (simple : ∀ e ∈ scriptItems script, e.Simple) :
    LikeCommandLine script ↔ ∀ e ∈ scriptItems script, Heard findKey Item.toks Item.pair e := by
  have calls : (scriptItems script).map (·.call) =
      ((scriptItems script).map Item.pair).map fun c => (c.1, some c.2) := by
    rw [List.map_map]
    exact List.map_congr_left fun e inside => call_pair (simple e inside)
  have same : Function.Injective fun c : OptionKey × List Char => (c.1, some c.2) := by
    rintro ⟨k, v⟩ ⟨k', v'⟩ h
    simpa using h
  rw [LikeCommandLine, scriptParse, fileTokens_script fits simple, calls, (List.map_injective_iff.mpr same).eq_iff]
  apply readPairs_iff
  · exact fun e inside => simple_spoken (simple e inside)
  · intro e inside
    by_cases plain : e.Plain
    · exact .inl (plain_heard (simple e inside) plain)
    · exact .inr (not_plain_unheard (simple e inside) plain)

theorem like_iff_plain {script : List Line} (fits : Fits script) :
    LikeCommandLine script ↔ ∀ e ∈ scriptItems script, e.Plain := by
  constructor
  · intro like e inside
    have simple := simple_of_like like
    by_contra plain
    obtain ⟨t, back, tokens, found, -⟩ := (like_iff_heard fits simple).mp like e inside
    exact not_plain_unheard (simple e inside) plain t back tokens found
  · intro plain
    have simple : ∀ e ∈ scriptItems script, e.Simple := fun e inside => simple_of_plain (plain e inside)
    exact (like_iff_heard fits simple).mpr fun e inside => plain_heard (simple e inside) (plain e inside)

/-- Scripts of plain options whose lines fit in the buffer are read like the command line,
and of those that fit no others are. -/
theorem like_command_line (script : List Line) :
    (Fits script ∧ (∀ e ∈ scriptItems script, e.Plain) → LikeCommandLine script) ∧
    (Fits script ∧ LikeCommandLine script → ∀ e ∈ scriptItems script, e.Plain) :=
  ⟨fun ⟨fits, plain⟩ => (like_iff_plain fits).mpr plain, fun ⟨fits, like⟩ => (like_iff_plain fits).mp like⟩

theorem word_of_all {w : List Char} (all : w.all (fun c => c ≠ ' ' ∧ c ≠ '\n') = true) : Word w := by
  intro c inside
  simpa using List.all_eq_true.mp all c inside

/-- `--ps 256 -n 10`, `-C 10000`. -/
def plainScript : List Line := [
  ⟨[⟨⟨"ps", .sendRequestSize, .required⟩, by decide, none, by simp, .separate "256".toList,
    ⟨rfl, by decide, by decide, word_of_all (by decide)⟩⟩,
   ⟨⟨"num-pkts", .numPkts, .required⟩, by decide, some 'n', by simp [OptionKey.char], .separate "10".toList,
    ⟨rfl, by decide, by decide, word_of_all (by decide)⟩⟩], none, by simp⟩,
  ⟨[⟨⟨"comp-time", .compTime, .required⟩, by decide, some 'C', by simp [OptionKey.char], .separate "10000".toList,
    ⟨rfl, by decide, by decide, word_of_all (by decide)⟩⟩], none, by simp⟩]

theorem like_command_line_plain : LikeCommandLine plainScript := by
  refine (like_command_line plainScript).1 ⟨?_, ?_⟩
  · unfold Fits
    decide +kernel
  · simp only [plainScript, scriptItems, List.flatMap_cons, List.flatMap_nil, List.forall_mem_append,
      List.forall_mem_cons]
    have nothing : ∀ e ∈ ([] : List Item), e.Plain := fun e inside => absurd inside List.not_mem_nil
    have ps : '-' ∉ "ps".toList := by decide
    exact ⟨⟨⟨_, rfl, by decide, Or.inr (Or.inl ps)⟩, ⟨_, rfl, by decide, Or.inl (Option.some_ne_none 'n')⟩, nothing⟩,
      ⟨⟨_, rfl, by decide, Or.inl (Option.some_ne_none 'C')⟩, nothing⟩, nothing⟩

/-- `--ps 256`, `-n 10`, `-C 10000`, `--rs=1024`. -/
def testScript : List Line := [
  ⟨[⟨⟨"ps", .sendRequestSize, .required⟩, by decide, none, by simp, .separate "256".toList,
    ⟨rfl, by decide, by decide, word_of_all (by decide)⟩⟩], none, by simp⟩,
  ⟨[⟨⟨"num-pkts", .numPkts, .required⟩, by decide, some 'n', by simp [OptionKey.char], .separate "10".toList,
    ⟨rfl, by decide, by decide, word_of_all (by decide)⟩⟩], none, by simp⟩,
  ⟨[⟨⟨"comp-time", .compTime, .required⟩, by decide, some 'C', by simp [OptionKey.char], .separate "10000".toList,
    ⟨rfl, by decide, by decide, word_of_all (by decide)⟩⟩], none, by simp⟩,
  ⟨[⟨⟨"rs", .replyCmd, .optional⟩, by decide, none, by simp, .attached "1024".toList,
    ⟨by decide, rfl, word_of_all (by decide)⟩⟩], none, by simp⟩]

/-- The last option of the test script is lost. -/
theorem last_option_lost : scriptText testScript = "--ps 256\n-n 10\n-C 10000\n--rs=1024".toList ∧
    scriptParse "--ps 256\n-n 10\n-C 10000\n--rs=1024".toList =
      [(.sendRequestSize, some "256".toList), (.numPkts, some "10".toList), (.compTime, some "10000".toList)] ∧
    Fits testScript ∧ ¬ LikeCommandLine testScript := by
  have text : scriptText testScript = "--ps 256\n-n 10\n-C 10000\n--rs=1024".toList := by decide +kernel
  have calls : scriptParse "--ps 256\n-n 10\n-C 10000\n--rs=1024".toList =
      [(.sendRequestSize, some "256".toList), (.numPkts, some "10".toList), (.compTime, some "10000".toList)] := by
    decide +kernel
  refine ⟨text, calls, ?_, ?_⟩
  · unfold Fits
    decide +kernel
  · rw [LikeCommandLine, text, calls]
    decide +kernel

end ScriptOptions
