import DistWalk.ForwardSteps

/-!
# The acknowledgements that a FORWARD asks for

The forwards of one context are parsed one option at a time. The first of them
writes `n_ack` into the FORWARD_BEGIN; the further branches do not, so the
destinations they add are never counted, and a `nack=` of the first branch is
neither checked against the total nor against the eight bits it is stored in.
Where `branch` comes before the first destination there is no FORWARD_BEGIN at
all. A plain forward of fewer than 256 destinations is counted right.
-/

namespace AckCounts

open Message ContextGrammar Template FullChain ForwardSteps
open ClientOptions (Opt FwdToken dests branches branchesBefore needsClose continuesContext toUInt8)

/-! ## Contexts -/

/-- One `-F` with the options behind it, up to the next. -/
structure Branch where
  tokens : List FwdToken
  rest : List Opt
  own : ∀ opt ∈ rest, isForward opt = false

/-- The forwards of one context: a plain one, or branched ones. -/
structure Context where
  first : Branch
  others : List Branch
  kind : (branches first.tokens = 0 ∧ others = []) ∨ ∀ b ∈ first :: others, 0 < branches b.tokens

def branchOpts (bs : List Branch) : List Opt := bs.flatMap fun b => .forward b.tokens :: b.rest

def Context.opts (c : Context) : List Opt := branchOpts (c.first :: c.others)

/-- The destinations of the whole context. -/
def Context.total (c : Context) : Nat :=
  ((c.first :: c.others).map fun b => (dests b.tokens).length).sum

/-- Some `nack=` is given. -/
def Context.nacked (c : Context) : Prop := ∃ b ∈ c.first :: c.others, lastNack b.tokens ≠ none

instance (c : Context) : Decidable c.nacked :=
  inferInstanceAs (Decidable (∃ b ∈ c.first :: c.others, lastNack b.tokens ≠ none))

/-- `n` acknowledgements are as documented. -/
def Documented (c : Context) (n : Nat) : Prop :=
  (¬ c.nacked → n = c.total) ∧ (c.nacked → 1 ≤ n ∧ n ≤ c.total)

/-- The node at `p` is the FORWARD_BEGIN and asks for them. -/
def AsksFor (c : Context) (chain : List CcmdNode) (p : Nat) : Prop :=
  ∃ node, chain[p]? = some node ∧ node.cmd = .forwardBegin ∧ Documented c node.fwd.nAck

/-- The first forward has a destination. If it is a branch, no branched forward is open
before it and it says `branch` once, behind its first destination. A `nack=` of its own
that counts ends, in eight bits, within the total. Otherwise its destinations are no
multiple of 256 if a `nack=` is given somewhere; and if none is, they are less than 256
and the only ones. -/
def Counted (s : Builder) (c : Context) : Prop :=
  dests c.first.tokens ≠ [] ∧
    (branches c.first.tokens = 0 ∨
      s.branchingDegree = 0 ∧ branchesBefore c.first.tokens = 0 ∧ branches c.first.tokens = 1) ∧
    match ownNack c.first.tokens with
    | some n => 1 ≤ n % 256 ∧ n % 256 ≤ c.total
    | none =>
      if c.nacked then (dests c.first.tokens).length % 256 ≠ 0
      else (dests c.first.tokens).length < 256 ∧ ∀ b ∈ c.others, dests b.tokens = []

/-- Every forward of the options finds the branch before it closable. -/
def EachClosable : Builder → List Opt → Prop
  | _, [] => True
  | s, opt :: rest =>
    (isForward opt = true → Closable s) ∧ ∀ s', parseOpt s opt = .ok s' → EachClosable s' rest

/-! ## The rest of the context -/

/-- A branch and what follows it, one after the other. -/
theorem parseMany_branch (b : Branch) (opts : List Opt) (s : Builder) :
    parseMany s (.forward b.tokens :: b.rest ++ opts) = match parseForward s b.tokens with
      | .error e => .error e
      | .ok t =>
        match parseMany t b.rest with
        | .error e => .error e
        | .ok u => parseMany u opts := by
  cases forwarded : parseForward s b.tokens with
  | error e => simp only [List.cons_append, parseMany, parseOpt, forwarded]
  | ok t =>
    simp only [List.cons_append, parseMany, parseOpt, forwarded]
    exact parseMany_append t b.rest opts

theorem branchOpts_cons (b : Branch) (bs : List Branch) :
    branchOpts (b :: bs) = .forward b.tokens :: b.rest ++ branchOpts bs := rfl

/-- The further branches go on in the context. -/
theorem others_continued {bs : List Branch} {s s' : Builder} (p : Parsed s)
    (branched : ∀ b ∈ bs, 0 < branches b.tokens) (degree : 1 ≤ s.branchingDegree)
    (h : parseMany s (branchOpts bs) = .ok s') : Continued s s' := by
  induction bs generalizing s with
  | nil =>
    cases h
    exact Continued.refl _
  | cons b bs ih =>
    rw [branchOpts_cons, parseMany_branch] at h
    cases forwarded : parseForward s b.tokens with
    | error e =>
      simp only [forwarded] at h
      cases h
    | ok t =>
      obtain ⟨u, rested⟩ := parseMany_own b.own t
      simp only [forwarded, rested] at h
      have f := parseForward_steps p forwarded
      have pt := f.parsed p
      have first := f.continued p (branched b (List.mem_cons_self ..)) degree
      have both := first.trans (rest_continued pt b.own rested)
      refine both.trans (ih (pt.many rested) ?_ (degree.trans both.degree) h)
      exact fun o member => branched o (List.mem_cons_of_mem _ member)

theorem eachClosable_of_parsed {opts : List Opt} {s s' : Builder} (p : Parsed s)
    (h : parseMany s opts = .ok s') : EachClosable s opts := by
  induction opts generalizing s with
  | nil => trivial
  | cons opt rest ih =>
    simp only [parseMany] at h
    cases parsed : parseOpt s opt with
    | error e =>
      simp only [parsed] at h
      cases h
    | ok t =>
      simp only [parsed] at h
      refine ⟨fun forward => ?_, fun u same => ?_⟩
      · cases opt with
        | forward tokens => exact (parseForward_steps p parsed).closable
        | _ => cases forward
      · cases parsed.symm.trans same
        exact ih (p.opt parsed) h

theorem EachClosable.behind {a b : List Opt} {s u : Builder} (each : EachClosable s (a ++ b))
    (h : parseMany s a = .ok u) : EachClosable u b := by
  induction a generalizing s with
  | nil =>
    cases h
    exact each
  | cons opt a ih =>
    simp only [parseMany] at h
    cases parsed : parseOpt s opt with
    | error e =>
      simp only [parsed] at h
      cases h
    | ok t =>
      simp only [parsed] at h
      exact ih (each.2 t parsed) h

/-- The further branches of a context that has begun go through. -/
theorem others_ok {bs : List Branch} {s : Builder} (p : Parsed s)
    (branched : ∀ b ∈ bs, 0 < branches b.tokens) (degree : 1 ≤ s.branchingDegree)
    (begun : s.currForwardBegin ≠ none) (each : EachClosable s (branchOpts bs)) :
    ∃ s', parseMany s (branchOpts bs) = .ok s' := by
  induction bs generalizing s with
  | nil => exact ⟨s, rfl⟩
  | cons b bs ih =>
    have first := branched b (List.mem_cons_self ..)
    rw [branchOpts_cons] at each ⊢
    obtain ⟨t, forwarded⟩ := parseForward_ok p (each.1 rfl) (Or.inr ⟨first, begun⟩)
    obtain ⟨u, rested⟩ := parseMany_own b.own t
    rw [parseMany_branch]
    simp only [forwarded, rested]
    have f := parseForward_steps p forwarded
    have pt := f.parsed p
    have both := (f.continued p first degree).trans (rest_continued pt b.own rested)
    obtain ⟨q, here⟩ := Option.ne_none_iff_exists'.mp begun
    refine ih (pt.many rested) (fun o member => branched o (List.mem_cons_of_mem _ member))
      (degree.trans both.degree) ?_ (EachClosable.behind (each.2 t forwarded) rested)
    rw [(both.kept q here).1]
    exact Option.some_ne_none q

/-! ## Counting the destinations -/

theorem Context.total_eq (c : Context) : c.total = (dests c.first.tokens).length +
    (c.others.map fun b => (dests b.tokens).length).sum := rfl

theorem others_none (bs : List Branch) :
    (bs.map fun b => (dests b.tokens).length).sum = 0 ↔ ∀ b ∈ bs, dests b.tokens = [] := by
  simp [List.sum_eq_zero_iff]

theorem asked_documented (c : Context) (some_dest : 0 < (dests c.first.tokens).length) :
    Documented c (toUInt8 (asked c.first.tokens)) ↔
      match ownNack c.first.tokens with
      | some n => 1 ≤ n % 256 ∧ n % 256 ≤ c.total
      | none =>
        if c.nacked then (dests c.first.tokens).length % 256 ≠ 0
        else (dests c.first.tokens).length < 256 ∧ ∀ b ∈ c.others, dests b.tokens = [] := by
  have total := c.total_eq
  simp only [Documented, asked, toUInt8]
  cases own : ownNack c.first.tokens with
  | some n =>
    have nacked : c.nacked := by
      refine ⟨c.first, List.mem_cons_self .., fun unset => ?_⟩
      rw [ownNack, unset] at own
      cases own
    simp only [nacked, not_true_eq_false, false_imp_iff, true_and, true_imp_iff, Option.getD_some]
    omega
  | none =>
    simp only [Option.getD_none]
    rw [← others_none c.others]
    by_cases nacked : c.nacked
    · simp only [nacked, not_true_eq_false, false_imp_iff, true_and, true_imp_iff, if_true]
      omega
    · simp only [nacked, not_false_eq_true, true_imp_iff, false_imp_iff, and_true, if_false]
      omega

/-- What the first forward asks for where it begins its context. -/
theorem documented_iff (c : Context) {s : Builder} (degree : 0 ≤ s.branchingDegree)
    (begins : Begins s c.first.tokens) :
    Documented c (if branches c.first.tokens = 0 ∨ s.branchingDegree + branches c.first.tokens ≤ 1 then
      toUInt8 (asked c.first.tokens) else 0) ↔ Counted s c := by
  obtain ⟨some_dest, fresh⟩ := begins
  have positive := List.length_pos_iff.mpr some_dest
  have total := c.total_eq
  rw [Counted, ← asked_documented c positive]
  simp only [continuesContext, decide_eq_false_iff_not] at fresh
  by_cases plain : branches c.first.tokens = 0
  · simp [plain, some_dest]
  · have start : s.branchingDegree = 0 ∧ branchesBefore c.first.tokens = 0 := by
      by_contra other
      exact fresh ⟨some_dest, by omega, by omega⟩
    by_cases once : branches c.first.tokens = 1
    · simp [start, once, some_dest]
    · rw [if_neg (by omega)]
      constructor
      · rintro ⟨whole, some_asked⟩
        exfalso
        by_cases nacked : c.nacked
        · have := (some_asked nacked).1
          omega
        · have := whole nacked
          omega
      · rintro ⟨-, unbranched | ⟨-, -, single⟩, -⟩
        · exact absurd unbranched plain
        · exact absurd single once

/-! ## The whole context -/

theorem asksFor_iff {c : Context} {s : Builder} (p : Parsed s) (i : Nat) :
    AsksFor c s.linked i ↔ ∃ n, (marks s)[i]? = some (.forwardBegin, n) ∧ Documented c n := by
  constructor
  · rintro ⟨node, here, cmd, documented⟩
    refine ⟨node.fwd.nAck, ?_, documented⟩
    rw [Builder.linked, List.getElem?_append] at here
    split at here
    · simp [marks, here, mark, cmd]
    · have behind := List.mem_of_getElem? here
      rw [Option.mem_toList] at behind
      exact absurd cmd (p.behind node behind)
  · rintro ⟨n, here, documented⟩
    rw [marks, List.getElem?_map, Option.map_eq_some_iff] at here
    obtain ⟨node, there, e⟩ := here
    obtain ⟨cmd, rfl⟩ := Prod.mk.inj e
    refine ⟨node, ?_, cmd, documented⟩
    rw [Builder.linked, List.getElem?_append_left, there]
    exact (List.getElem?_eq_some_iff.mp there).1

theorem Counted.begins {s : Builder} {c : Context} (counted : Counted s c) : Begins s c.first.tokens := by
  refine ⟨counted.1, ?_⟩
  simp only [continuesContext, decide_eq_false_iff_not]
  rintro ⟨-, branched, later⟩
  rcases counted.2.1 with plain | ⟨fresh, behind, -⟩ <;> omega

/-- Behind the first forward the context goes on to its end. -/
theorem context_continued {c : Context} {s t u s' : Builder} (p : Parsed s)
    (f : Steps s c.first.tokens t) (rested : parseMany t c.first.rest = .ok u)
    (done : parseMany u (branchOpts c.others) = .ok s') : Continued t s' := by
  have pt := f.parsed p
  have first := rest_continued pt c.first.own rested
  refine first.trans ?_
  rcases c.kind with ⟨-, alone⟩ | all
  · rw [alone] at done
    cases done
    exact Continued.refl _
  · have branched := all c.first (List.mem_cons_self ..)
    refine others_continued (pt.many rested) (fun b member => all b (List.mem_cons_of_mem _ member)) ?_ done
    have := p.degree
    have := first.degree
    have degree := f.degree
    rw [if_neg (by omega)] at degree
    omega

/-- The acknowledgements asked for are those documented in just the contexts that the
parser gets through, whose FORWARD_BEGIN the queue takes and whose destinations are
counted. -/
theorem acks_counted_iff {before : List Opt} {s : Builder} (parsed : parseMany .init before = .ok s)
    (c : Context) :
    (∃ s', parseMany s c.opts = .ok s' ∧ AsksFor c s'.linked (contextStart s)) ↔
      EachClosable s c.opts ∧ contextStart s < chainCapacity ∧ Counted s c := by
  have p := parsed_init.many parsed
  have opts : c.opts = .forward c.first.tokens :: c.first.rest ++ branchOpts c.others := rfl
  constructor
  · rintro ⟨s', done, asks⟩
    obtain ⟨n, here, documented⟩ := (asksFor_iff (p.many done) _).mp asks
    have each := eachClosable_of_parsed p done
    rw [opts, parseMany_branch] at done
    cases forwarded : parseForward s c.first.tokens with
    | error e =>
      simp only [forwarded] at done
      cases done
    | ok t =>
      obtain ⟨u, rested⟩ := parseMany_own c.first.own t
      simp only [forwarded, rested] at done
      have f := parseForward_steps p forwarded
      have whole := context_continued p f rested done
      have new : ¬ Begun s (contextStart s) := by
        rintro ⟨m, old⟩
        have inside := (List.getElem?_eq_some_iff.mp old).1
        rw [length_marks, contextStart] at inside
        omega
      obtain ⟨-, room, begins⟩ := (f.begun p (whole.begun _ ⟨n, here⟩)).resolve_left new
      obtain ⟨curr, first⟩ := f.first begins room
      rw [(whole.kept _ curr).2, first] at here
      cases here
      exact ⟨each, room, (documented_iff c p.degree begins).mp documented⟩
  · rintro ⟨each, room, counted⟩
    have begins := counted.begins
    rw [opts] at each ⊢
    obtain ⟨t, forwarded⟩ := parseForward_ok p (each.1 rfl) (Or.inl begins)
    obtain ⟨u, rested⟩ := parseMany_own c.first.own t
    have f := parseForward_steps p forwarded
    obtain ⟨curr, first⟩ := f.first begins room
    obtain ⟨s', done⟩ : ∃ s', parseMany u (branchOpts c.others) = .ok s' := by
      rcases c.kind with ⟨-, alone⟩ | all
      · rw [alone]
        exact ⟨u, rfl⟩
      · have branched := all c.first (List.mem_cons_self ..)
        have behind := rest_continued (f.parsed p) c.first.own rested
        apply others_ok ((f.parsed p).many rested) (fun b member => all b (List.mem_cons_of_mem _ member))
        · have := p.degree
          have := behind.degree
          have degree := f.degree
          rw [if_neg (by omega)] at degree
          omega
        · rw [(behind.kept _ curr).1]
          exact Option.some_ne_none _
        · exact EachClosable.behind (each.2 t forwarded) rested
    have whole : parseMany s (.forward c.first.tokens :: c.first.rest ++ branchOpts c.others) = .ok s' := by
      rw [parseMany_branch]
      simp only [forwarded, rested, done]
    refine ⟨s', whole, (asksFor_iff (p.many whole) _).mpr ⟨_, ?_, (documented_iff c p.degree begins).mpr counted⟩⟩
    rw [((context_continued p f rested done).kept _ curr).2]
    exact first

/-- One `-F` with nothing behind it. -/
def Branch.bare (tokens : List FwdToken) : Branch where
  tokens := tokens
  rest := []
  own := by
    intro opt member
    cases member

/-- Two branches to three destinations with `nack=2` in the first. -/
def threeDests : Context where
  first := .bare [.dest .tcp [127, 0, 0, 1, 31, 65], .branch, .nack 2]
  others := [.bare [.dest .tcp [127, 0, 0, 1, 31, 66], .dest .tcp [127, 0, 0, 1, 31, 67], .branch]]
  kind := Or.inr (by decide)

theorem acks_counted_two_branches : ∃ s', parseMany .init threeDests.opts = .ok s' ∧
    AsksFor threeDests s'.linked 0 := by
  refine (acks_counted_iff (show parseMany .init [] = .ok .init from rfl) threeDests).mpr ⟨?_, ?_, ?_⟩
  · exact eachClosable_of_parsed parsed_init rfl
  · decide
  · have own : ownNack threeDests.first.tokens = some 2 := rfl
    refine ⟨by decide, Or.inr ⟨rfl, rfl, rfl⟩, ?_⟩
    rw [own]
    decide

/-- Two branches to one destination each. -/
def twoDests : Context where
  first := .bare [.dest .tcp [127, 0, 0, 1, 31, 65], .branch]
  others := [.bare [.dest .tcp [127, 0, 0, 1, 31, 66], .branch]]
  kind := Or.inr (by decide)

/-- The second branch is not counted: one acknowledgement is asked for, of two. -/
theorem second_branch_uncounted : ¬ ∃ s', parseMany .init twoDests.opts = .ok s' ∧
    AsksFor twoDests s'.linked 0 := by
  rintro ⟨s', parsed, node, here, -, whole, -⟩
  cases parsed
  cases here
  have counted := whole (by decide)
  revert counted
  decide

end AckCounts
