import Mathlib

/-!
# Scopes opened, continued and closed

A sequence of items of four kinds: plain ones, and ones that open, continue or
close a scope. A scope is closed by an item of its own, and right after that it
may be continued with another branch. The grammar is given twice, as a derivation
and as a scanner that reads the items from left to right with the number of open
scopes; the two accept the same sequences. Nothing below depends on what the items
stand for.
-/

namespace ContextGrammar

universe u

inductive Kind
  | simple
  | opens
  | continues
  | closes
  deriving DecidableEq, Repr

/-- What is derived: one context, what follows the opening item of a scope, or
any number of contexts. -/
inductive Part
  | context
  | branches
  | contexts
  deriving DecidableEq, Repr

variable {α : Type u} (kind : α → Kind)

/-- `Ctx ::= simple | opens continues* Ctx* closes (continues+ Ctx* closes)*`. -/
inductive Derives : Part → List α → Prop
  | simple {x : α} (plain : kind x = .simple) : Derives .context [x]
  | scope {x : α} {l : List α} (opening : kind x = .opens) (rest : Derives .branches l) :
      Derives .context (x :: l)
  | last {heads body : List α} {r : α} (continued : ∀ c ∈ heads, kind c = .continues)
      (inside : Derives .contexts body) (closing : kind r = .closes) :
      Derives .branches (heads ++ body ++ [r])
  | more {heads body rest : List α} {r c : α} (continued : ∀ c ∈ heads, kind c = .continues)
      (inside : Derives .contexts body) (closing : kind r = .closes)
      (again : kind c = .continues) (others : Derives .branches rest) :
      Derives .branches (heads ++ body ++ r :: c :: rest)
  | nil : Derives .contexts []
  | cons {a b : List α} (first : Derives .context a) (rest : Derives .contexts b) :
      Derives .contexts (a ++ b)

/-- `Chain ::= (Ctx | closes)* closes`. -/
inductive Chain : List α → Prop
  | last {r : α} (closing : kind r = .closes) : Chain [r]
  | context {a b : List α} (first : Derives kind .context a) (rest : Chain b) : Chain (a ++ b)
  | reply {r : α} {b : List α} (closing : kind r = .closes) (rest : Chain b) : Chain (r :: b)

/-- What stands right before the next item, as far as it matters to it: the head
of a scope, the close of a scope, a close outside any scope, anything else. -/
inductive Spot
  | header
  | closed
  | top
  | other
  deriving DecidableEq, Repr

/-- Read one item, with the number of open scopes. -/
def scanItem : Nat × Spot → Kind → Option (Nat × Spot)
  | (d, _), .simple => some (d, .other)
  | (d, _), .opens => some (d + 1, .header)
  | (d, .header), .continues => some (d, .header)
  | (d, .closed), .continues => some (d + 1, .header)
  | (_, .top), .continues => none
  | (_, .other), .continues => none
  | (0, _), .closes => some (0, .top)
  | (d + 1, _), .closes => some (d, .closed)

def scan : Nat × Spot → List α → Option (Nat × Spot)
  | s, [] => some s
  | s, x :: l => (scanItem s (kind x)).bind (scan · l)

def start : Nat × Spot := (0, .other)

/-- Everything is closed and the last item closes no scope. -/
def accepted : Nat × Spot := (0, .top)

/-! ## Scanning -/

theorem scan_append (s : Nat × Spot) (a b : List α) :
    scan kind s (a ++ b) = (scan kind s a).bind (scan kind · b) := by
  induction a generalizing s with
  | nil => rfl
  | cons x a ih => simp only [List.cons_append, scan, ih, Option.bind_assoc]

/-- Reading the images of items is reading the items by the kinds of their images. -/
theorem scan_map {β : Type*} (f : β → α) (s : Nat × Spot) (l : List β) :
    scan kind s (l.map f) = scan (kind ∘ f) s l := by
  induction l generalizing s with
  | nil => rfl
  | cons x l ih => simp only [List.map_cons, scan, ih, Function.comp_apply]

variable {kind}

theorem scan_cons {s t : Nat × Spot} {x : α} {l : List α} (h : scanItem s (kind x) = some t) :
    scan kind s (x :: l) = scan kind t l := by
  simp only [scan, h, Option.bind_some]

theorem scanItem_simple (d : Nat) (spot : Spot) : scanItem (d, spot) .simple = some (d, .other) := by
  cases spot <;> rfl

theorem scanItem_opens (d : Nat) (spot : Spot) :
    scanItem (d, spot) .opens = some (d + 1, .header) := by
  cases spot <;> rfl

theorem scanItem_closes (d : Nat) (spot : Spot) :
    scanItem (d + 1, spot) .closes = some (d, .closed) := by
  cases spot <;> rfl

theorem scanItem_closes_top (spot : Spot) : scanItem (0, spot) .closes = some (0, .top) := by
  cases spot <;> rfl

/-- Only a continuing item looks at the spot it stands at. -/
theorem scan_spot (d : Nat) (a b : Spot) {l : List α} (nonempty : l ≠ [])
    (head : ∀ x, l.head? = some x → kind x ≠ .continues) :
    scan kind (d, a) l = scan kind (d, b) l := by
  cases l with
  | nil => exact absurd rfl nonempty
  | cons x l =>
    have notCont := head x rfl
    simp only [scan]
    cases hk : kind x with
    | simple => simp only [scanItem_simple]
    | opens => simp only [scanItem_opens]
    | continues => exact absurd hk notCont
    | closes =>
      cases d with
      | zero => simp only [scanItem_closes_top]
      | succ d => simp only [scanItem_closes]

theorem scan_continues (d : Nat) {heads : List α} (continued : ∀ c ∈ heads, kind c = .continues)
    (l : List α) : scan kind (d, .header) (heads ++ l) = scan kind (d, .header) l := by
  induction heads with
  | nil => rfl
  | cons c heads ih =>
    have this : scanItem (d, .header) (kind c) = some (d, .header) := by
      rw [continued c (List.mem_cons_self)]
      rfl
    rw [List.cons_append, scan_cons this]
    exact ih fun c' mem => continued c' (List.mem_cons_of_mem c mem)

/-! ## From derivations to scans -/

/-- How each part of a derivation is read. -/
def Part.Scans (kind : α → Kind) : Part → List α → Prop
  | .context, l => ∀ d spot, ∃ spot', scan kind (d, spot) l = some (d, spot')
  | .branches, l => ∀ d, scan kind (d + 1, .header) l = some (d, .closed)
  | .contexts, l => ∀ d spot, ∃ spot', scan kind (d, spot) l = some (d, spot')

theorem Derives.scans {p : Part} {l : List α} (h : Derives kind p l) : p.Scans kind l := by
  induction h with
  | simple plain =>
    intro d spot
    exact ⟨.other, by rw [scan_cons (by rw [plain]; exact scanItem_simple d spot)]; rfl⟩
  | scope opening _ ih =>
    intro d spot
    exact ⟨.closed, by rw [scan_cons (by rw [opening]; exact scanItem_opens d spot)]; exact ih d⟩
  | last continued _ closing ih =>
    intro d
    obtain ⟨spot, body⟩ := ih (d + 1) .header
    rw [List.append_assoc, scan_continues (d + 1) continued, scan_append, body, Option.bind_some,
      scan_cons (by rw [closing]; exact scanItem_closes d spot)]
    rfl
  | more continued _ closing again _ ih others =>
    intro d
    obtain ⟨spot, body⟩ := ih (d + 1) .header
    rw [List.append_assoc, scan_continues (d + 1) continued, scan_append, body, Option.bind_some,
      scan_cons (by rw [closing]; exact scanItem_closes d spot), scan_cons (by rw [again]; rfl)]
    exact others d
  | nil => exact fun d spot => ⟨spot, rfl⟩
  | cons _ _ first rest =>
    intro d spot
    obtain ⟨spot', one⟩ := first d spot
    obtain ⟨spot'', others⟩ := rest d spot'
    exact ⟨spot'', by rw [scan_append, one, Option.bind_some, others]⟩

theorem Chain.scan {l : List α} (h : Chain kind l) (spot : Spot) :
    scan kind (0, spot) l = some accepted := by
  induction h generalizing spot with
  | last closing =>
    rw [scan_cons (by rw [closing]; exact scanItem_closes_top spot)]
    rfl
  | context first _ ih =>
    obtain ⟨spot', one⟩ := first.scans 0 spot
    rw [scan_append, one, Option.bind_some, ih]
  | reply closing _ ih =>
    rw [scan_cons (by rw [closing]; exact scanItem_closes_top spot), ih]

/-! ## From scans to derivations -/

/-- The continuing items at the front. -/
theorem exists_heads (kind : α → Kind) (l : List α) : ∃ heads rest, l = heads ++ rest ∧
    (∀ c ∈ heads, kind c = .continues) ∧ ∀ x, rest.head? = some x → kind x ≠ .continues := by
  induction l with
  | nil => exact ⟨[], [], rfl, by simp, by simp⟩
  | cons x l ih =>
    by_cases hx : kind x = .continues
    · obtain ⟨heads, rest, e, continued, head⟩ := ih
      refine ⟨x :: heads, rest, by rw [e]; rfl, ?_, head⟩
      rintro c mem
      rcases List.mem_cons.mp mem with rfl | mem
      · exact hx
      · exact continued c mem
    · refine ⟨[], x :: l, rfl, by simp, ?_⟩
      rintro y h
      cases h
      exact hx

/-- A list that the scanner takes to acceptance from inside a scope starts with the
contexts of that scope and the item that closes it. -/
def Closes (kind : α → Kind) (l : List α) : Prop :=
  ∀ d, scan kind (d + 1, .other) l = some accepted → ∃ body r rest, l = body ++ r :: rest ∧
    Derives kind .contexts body ∧ kind r = .closes ∧ scan kind (d, .closed) rest = some accepted

/-- A list taken to acceptance from the head of a scope starts with the branches
of that scope, and what follows does not continue it. -/
def Branches (kind : α → Kind) (l : List α) : Prop :=
  ∀ d, scan kind (d + 1, .header) l = some accepted → ∃ a rest, l = a ++ rest ∧
    Derives kind .branches a ∧ scan kind (d, .other) rest = some accepted

/-- A list that ends accepted inside a scope or right after one is not empty. -/
theorem ne_nil_of_scan {d : Nat} {spot : Spot} {l : List α} (unfinished : spot ≠ .top)
    (h : scan kind (d, spot) l = some accepted) : l ≠ [] := by
  rintro rfl
  simp only [scan, accepted, Option.some.injEq, Prod.mk.injEq] at h
  exact unfinished h.2

theorem branches_of_closes {l : List α} (shorter : ∀ l' : List α, l'.length < l.length → Branches kind l')
    (here : ∀ l' : List α, l'.length ≤ l.length → Closes kind l') : Branches kind l := by
  intro d h
  obtain ⟨heads, rest, rfl, continued, head⟩ := exists_heads kind l
  rw [scan_continues (d + 1) continued] at h
  rw [scan_spot (d + 1) .header .other (ne_nil_of_scan (by simp) h) head] at h
  obtain ⟨body, r, tail, rfl, inside, closing, done⟩ := here rest (by simp) d h
  cases tail with
  | nil => exact absurd rfl (ne_nil_of_scan (by simp) done)
  | cons c tail =>
    by_cases again : kind c = .continues
    · rw [scan_cons (by rw [again]; rfl)] at done
      obtain ⟨others, tail', rfl, branches, done'⟩ := shorter tail (by simp; omega) d done
      refine ⟨heads ++ body ++ r :: c :: others, tail', by simp, ?_, done'⟩
      exact .more continued inside closing again branches
    · refine ⟨heads ++ body ++ [r], c :: tail, by simp, .last continued inside closing, ?_⟩
      rw [← done]
      refine scan_spot d .other .closed (by simp) ?_
      rintro x hx
      cases hx
      exact again

theorem closes_of_shorter {l : List α}
    (shorter : ∀ l' : List α, l'.length < l.length → Closes kind l' ∧ Branches kind l') :
    Closes kind l := by
  intro d h
  cases l with
  | nil => exact absurd rfl (ne_nil_of_scan (by simp) h)
  | cons x l =>
    cases hk : kind x with
    | simple =>
      rw [scan_cons (by rw [hk]; exact scanItem_simple (d + 1) .other)] at h
      obtain ⟨body, r, rest, rfl, inside, closing, done⟩ := (shorter l (by simp)).1 d h
      exact ⟨x :: body, r, rest, by simp, .cons (.simple hk) inside, closing, done⟩
    | opens =>
      rw [scan_cons (by rw [hk]; exact scanItem_opens (d + 1) .other)] at h
      obtain ⟨a, tail, rfl, branches, after⟩ := (shorter l (by simp)).2 (d + 1) h
      have less : tail.length < (x :: (a ++ tail)).length := by simp
      obtain ⟨body, r, rest, rfl, inside, closing, done⟩ := (shorter tail less).1 d after
      exact ⟨x :: a ++ body, r, rest, by simp, .cons (.scope hk branches) inside, closing, done⟩
    | continues =>
      simp only [scan, hk, scanItem, Option.bind_none, reduceCtorEq] at h
    | closes =>
      rw [scan_cons (by rw [hk]; exact scanItem_closes d .other)] at h
      exact ⟨[], x, l, rfl, .nil, hk, h⟩

theorem closes_and_branches (n : Nat) (l : List α) (bound : l.length ≤ n) :
    Closes kind l ∧ Branches kind l := by
  induction n generalizing l with
  | zero =>
    have empty : l = [] := List.length_eq_zero_iff.mp (by omega)
    subst empty
    exact ⟨closes_of_shorter (by simp), fun d h => absurd rfl (ne_nil_of_scan (by simp) h)⟩
  | succ n ih =>
    have closes : ∀ l' : List α, l'.length ≤ l.length → Closes kind l' := by
      intro l' le
      exact closes_of_shorter fun l'' less => ih l'' (by omega)
    exact ⟨closes l le_rfl, branches_of_closes (fun l' less => (ih l' (by omega)).2) closes⟩

theorem closes_scope (l : List α) : Closes kind l := (closes_and_branches _ l le_rfl).1

theorem branches_scope (l : List α) : Branches kind l := (closes_and_branches _ l le_rfl).2

theorem chain_of_scan_le (n : Nat) {l : List α} (bound : l.length ≤ n)
    (h : scan kind start l = some accepted) : Chain kind l := by
  induction n generalizing l with
  | zero =>
    have empty : l = [] := List.length_eq_zero_iff.mp (by omega)
    exact absurd empty (ne_nil_of_scan (by simp) h)
  | succ n ih =>
    cases l with
    | nil => exact absurd rfl (ne_nil_of_scan (by simp) h)
    | cons x l =>
      simp only [List.length_cons] at bound
      cases hk : kind x with
      | simple =>
        rw [start, scan_cons (by rw [hk]; exact scanItem_simple 0 .other)] at h
        exact .context (.simple hk) (ih (by omega) h)
      | opens =>
        rw [start, scan_cons (by rw [hk]; exact scanItem_opens 0 .other)] at h
        obtain ⟨a, rest, rfl, branches, done⟩ := branches_scope l 0 h
        simp only [List.length_append] at bound
        exact .context (.scope hk branches) (ih (by omega) done)
      | continues => simp only [start, scan, hk, scanItem, Option.bind_none, reduceCtorEq] at h
      | closes =>
        rw [start, scan_cons (by rw [hk]; exact scanItem_closes_top .other)] at h
        cases l with
        | nil => exact .last hk
        | cons y l =>
          refine .reply hk (ih (by simpa using bound) ?_)
          -- a continuing item is refused after a close outside any scope
          by_cases cont : kind y = .continues
          · simp only [scan, cont, scanItem, Option.bind_none, reduceCtorEq] at h
          · rw [← h]
            refine scan_spot 0 .other .top (by simp) ?_
            rintro z hz
            cases hz
            exact cont

theorem chain_iff_scan {l : List α} : Chain kind l ↔ scan kind start l = some accepted :=
  ⟨fun h => h.scan .other, fun h => chain_of_scan_le l.length le_rfl h⟩

theorem chain_map {β : Type*} (f : β → α) {l : List β} :
    Chain kind (l.map f) ↔ Chain (kind ∘ f) l := by
  rw [chain_iff_scan, chain_iff_scan, scan_map]

/-- Any number of contexts is a list of them. -/
theorem Derives.flatten {l : List α} (h : Derives kind .contexts l) :
    ∃ contexts : List (List α), l = contexts.flatten ∧ ∀ a ∈ contexts, Derives kind .context a := by
  generalize e : Part.contexts = p at h
  induction h with
  | simple => cases e
  | scope => cases e
  | last => cases e
  | more => cases e
  | nil => exact ⟨[], rfl, by simp⟩
  | @cons a b first _ _ ih =>
    obtain ⟨contexts, rfl, each⟩ := ih rfl
    refine ⟨a :: contexts, rfl, ?_⟩
    rintro c mem
    rcases List.mem_cons.mp mem with rfl | mem
    · exact first
    · exact each c mem

theorem Derives.of_flatten {contexts : List (List α)} (each : ∀ a ∈ contexts, Derives kind .context a) :
    Derives kind .contexts contexts.flatten := by
  induction contexts with
  | nil => exact .nil
  | cons a contexts ih =>
    exact .cons (each a (by simp)) (ih fun c mem => each c (List.mem_cons_of_mem a mem))

/-! ## Branches -/

/-- What follows the head of a branch: more heads, the contexts of the branch, and
the item that closes it. -/
structure Branch (kind : α → Kind) (l heads body : List α) (r : α) (rest : List α) : Prop where
  split : l = heads ++ body ++ r :: rest
  continued : ∀ c ∈ heads, kind c = .continues
  inside : Derives kind .contexts body
  closing : kind r = .closes

/-- Right after the head of a scope there is an open scope. -/
theorem scan_header {s t : Nat × Spot} {l : List α} (before : s.2 = .header → 1 ≤ s.1)
    (h : scan kind s l = some t) : t.2 = .header → 1 ≤ t.1 := by
  induction l generalizing s with
  | nil =>
    cases h
    exact before
  | cons x l ih =>
    obtain ⟨u, item, rest⟩ := Option.bind_eq_some_iff.mp h
    refine ih ?_ rest
    obtain ⟨d, spot⟩ := s
    cases hk : kind x with
    | simple =>
      rw [hk, scanItem_simple] at item
      cases item
      simp
    | opens =>
      rw [hk, scanItem_opens] at item
      cases item
      simp
    | continues =>
      rw [hk] at item
      cases spot with
      | header =>
        cases item
        exact before
      | closed =>
        cases item
        simp
      | top => cases item
      | other => cases item
    | closes =>
      cases d with
      | zero =>
        rw [hk, scanItem_closes_top] at item
        cases item
        simp
      | succ d =>
        rw [hk, scanItem_closes] at item
        cases item
        simp

/-- Every head of a branch in a chain is followed by its branch. -/
theorem exists_branch {before after : List α} {f : α} (chain : Chain kind (before ++ f :: after))
    (head : kind f = .opens ∨ kind f = .continues) :
    ∃ heads body r rest, Branch kind after heads body r rest := by
  rw [chain_iff_scan, scan_append] at chain
  obtain ⟨⟨d, spot⟩, read, chain⟩ := Option.bind_eq_some_iff.mp chain
  have opened : ∃ e, scan kind (e + 1, .header) after = some accepted := by
    obtain ⟨u, item, chain⟩ := Option.bind_eq_some_iff.mp chain
    rcases head with opens | continues
    · rw [opens, scanItem_opens] at item
      cases item
      exact ⟨d, chain⟩
    · rw [continues] at item
      cases spot with
      | header =>
        have positive := scan_header (by simp [start]) read rfl
        cases item
        obtain ⟨e, rfl⟩ := Nat.exists_eq_add_of_le' positive
        exact ⟨e, chain⟩
      | closed =>
        cases item
        exact ⟨d, chain⟩
      | top => cases item
      | other => cases item
  obtain ⟨e, inside⟩ := opened
  obtain ⟨heads, rest, rfl, continued, fresh⟩ := exists_heads kind after
  rw [scan_continues (e + 1) continued] at inside
  rw [scan_spot (e + 1) .header .other (ne_nil_of_scan (by simp) inside) fresh] at inside
  obtain ⟨body, r, tail, rfl, derives, closing, -⟩ := closes_scope rest e inside
  exact ⟨heads, body, r, tail, by simp, continued, derives, closing⟩

instance (l : List α) : Decidable (Chain kind l) := decidable_of_iff _ chain_iff_scan.symm

/-! ## The items of a scope itself -/

/-- What follows the opening item of a scope, with the continuing items that belong
to it and the items of the contexts inside, both in order. -/
inductive Owned (kind : α → Kind) : List α → List α → List α → Prop
  | last {heads body : List α} {r : α} (continued : ∀ c ∈ heads, kind c = .continues)
      (inside : Derives kind .contexts body) (closing : kind r = .closes) :
      Owned kind (heads ++ body ++ [r]) heads body
  | more {heads body rest own nested : List α} {r c : α}
      (continued : ∀ c ∈ heads, kind c = .continues) (inside : Derives kind .contexts body)
      (closing : kind r = .closes) (again : kind c = .continues) (others : Owned kind rest own nested) :
      Owned kind (heads ++ body ++ r :: c :: rest) (heads ++ c :: own) (body ++ nested)

theorem Derives.owned {l : List α} (h : Derives kind .branches l) : ∃ own nested, Owned kind l own nested := by
  generalize e : Part.branches = p at h
  induction h with
  | simple => cases e
  | scope => cases e
  | last continued inside closing => exact ⟨_, _, .last continued inside closing⟩
  | more continued inside closing again _ _ ih =>
    obtain ⟨own, nested, others⟩ := ih e
    exact ⟨_, _, .more continued inside closing again others⟩
  | nil => cases e
  | cons => cases e

theorem Owned.derives {l own nested : List α} (h : Owned kind l own nested) : Derives kind .branches l := by
  induction h with
  | last continued inside closing => exact .last continued inside closing
  | more continued inside closing again _ ih => exact .more continued inside closing again ih

theorem Owned.continues {l own nested : List α} (h : Owned kind l own nested) :
    ∀ c ∈ own, kind c = .continues := by
  induction h with
  | last continued _ _ => exact continued
  | more continued _ _ again _ ih =>
    intro c mem
    rcases List.mem_append.mp mem with mem | mem
    · exact continued c mem
    · rcases List.mem_cons.mp mem with rfl | mem
      · exact again
      · exact ih c mem

theorem Owned.sublist {l own nested : List α} (h : Owned kind l own nested) : own.Sublist l := by
  induction h with
  | @last heads body r _ _ _ =>
    rw [List.append_assoc]
    exact List.sublist_append_left heads _
  | @more heads body rest own nested r c _ _ _ _ _ ih =>
    rw [List.append_assoc]
    refine (List.Sublist.refl heads).append ?_
    exact ((ih.cons_cons c).cons r).trans (List.sublist_append_right body _)

/-- Besides them there are only the items that close the branches. -/
theorem Owned.perm {l own nested : List α} (h : Owned kind l own nested) :
    ∃ closers, (∀ r ∈ closers, kind r = .closes) ∧ (own ++ nested ++ closers).Perm l := by
  classical
  induction h with
  | @last heads body r _ _ closing => exact ⟨[r], by simpa using closing, .refl _⟩
  | @more heads body rest own nested r c _ _ closing _ _ ih =>
    obtain ⟨closers, closes, perm⟩ := ih
    refine ⟨r :: closers, by simpa using ⟨closing, closes⟩, List.perm_iff_count.mpr fun x => ?_⟩
    have same := List.perm_iff_count.mp perm x
    simp only [List.count_append, List.count_cons] at same ⊢
    omega

/-! ## Skipping contexts -/

/-- A rest that goes on and does not continue a scope. -/
structure Onward (kind : α → Kind) (l : List α) : Prop where
  nonempty : l ≠ []
  fresh : ∀ x, l.head? = some x → kind x ≠ .continues

theorem Onward.append {a l : List α} (h : Onward kind l)
    (head : ∀ x, a.head? = some x → kind x ≠ .continues) : Onward kind (a ++ l) := by
  cases a with
  | nil => exact h
  | cons x a => exact ⟨by simp, fun y hy => head y (by simpa using hy)⟩

/-- A context starts with a plain item or one that opens a scope. -/
theorem context_head {l : List α} (h : Derives kind .context l) :
    ∃ x rest, l = x :: rest ∧ (kind x = .simple ∨ kind x = .opens) := by
  cases h with
  | simple plain => exact ⟨_, [], rfl, Or.inl plain⟩
  | scope opening rest => exact ⟨_, _, rfl, Or.inr opening⟩

theorem onward_context {a : List α} (h : Derives kind .context a) (l : List α) :
    Onward kind (a ++ l) := by
  obtain ⟨x, rest, rfl, head⟩ := context_head h
  refine ⟨by simp, ?_⟩
  rintro y hy
  cases hy
  rcases head with simple | opens
  · simp [simple]
  · simp [opens]

theorem onward_contexts {a l : List α} (h : Derives kind .contexts a) (onward : Onward kind l) :
    Onward kind (a ++ l) := by
  cases h with
  | nil => exact onward
  | cons first rest =>
    rw [List.append_assoc]
    exact onward_context first _

theorem onward_close {r : α} (closing : kind r = .closes) (l : List α) : Onward kind (r :: l) := by
  refine ⟨by simp, ?_⟩
  rintro x hx
  cases hx
  simp [closing]

/-- A procedure that reads on with a count of open scopes, item by item, until the
scope it started in has none open any more. `ok` are the lists it is used on. -/
structure Skipper {β : Type*} (kind : α → Kind) (ok : List α → Prop) (skip : List α → Nat → β)
    (done : List α → β) : Prop where
  tail : ∀ {x l}, ok (x :: l) → ok l
  simple : ∀ {x l}, ok (x :: l) → l ≠ [] → kind x = .simple → skip (x :: l) 0 = done l
  pass : ∀ {x l} (k : Nat), ok (x :: l) → l ≠ [] → kind x = .simple ∨ kind x = .continues →
    skip (x :: l) (k + 1) = skip l (k + 1)
  opens : ∀ {x l} (k : Nat), ok (x :: l) → l ≠ [] → kind x = .opens → skip (x :: l) k = skip l (k + 1)
  again : ∀ {x c l} (k : Nat), ok (x :: c :: l) → kind x = .closes → kind c = .continues →
    skip (x :: c :: l) (k + 1) = skip (c :: l) (k + 1)
  close : ∀ {x l} (k : Nat), ok (x :: l) → Onward kind l → kind x = .closes →
    skip (x :: l) (k + 1) = if 0 < k then skip l k else done l

section Skipping

variable {β : Type*} {ok : List α → Prop} {skip : List α → Nat → β} {done : List α → β}

theorem Skipper.drop (h : Skipper kind ok skip done) {a l : List α} (good : ok (a ++ l)) : ok l := by
  induction a with
  | nil => exact good
  | cons x a ih => exact ih (h.tail good)

theorem Skipper.heads (h : Skipper kind ok skip done) {heads l : List α} (k : Nat)
    (good : ok (heads ++ l)) (nonempty : l ≠ []) (continued : ∀ c ∈ heads, kind c = .continues) :
    skip (heads ++ l) (k + 1) = skip l (k + 1) := by
  induction heads with
  | nil => rfl
  | cons c heads ih =>
    rw [List.cons_append] at good ⊢
    rw [h.pass k good (by simp [nonempty]) (Or.inr (continued c List.mem_cons_self))]
    exact ih (h.tail good) fun c' mem => continued c' (List.mem_cons_of_mem c mem)

/-- How the parts of a derivation are passed, with `k` scopes open around them. -/
def Skipped (kind : α → Kind) (ok : List α → Prop) (skip : List α → Nat → β) (done : List α → β) :
    Part → List α → Prop
  | .context, a => ∀ k l, ok (a ++ l) → Onward kind l → skip (a ++ l) (k + 1) = skip l (k + 1)
  | .branches, a => ∀ k l, ok (a ++ l) → Onward kind l →
    skip (a ++ l) (k + 1) = if 0 < k then skip l k else done l
  | .contexts, a => ∀ k l, ok (a ++ l) → Onward kind l → skip (a ++ l) (k + 1) = skip l (k + 1)

theorem Skipper.skipped (h : Skipper kind ok skip done) {p : Part} {a : List α}
    (derives : Derives kind p a) : Skipped kind ok skip done p a := by
  induction derives with
  | simple plain =>
    intro k l good onward
    exact h.pass k good onward.nonempty (Or.inl plain)
  | scope opening rest ih =>
    intro k l good onward
    rw [List.cons_append] at good ⊢
    rw [h.opens (k + 1) good (by simp [onward.nonempty]) opening,
      ih (k + 1) l (h.tail good) onward, if_pos (Nat.succ_pos k)]
  | @last heads body r continued inside closing ih =>
    intro k l good onward
    have close := onward_close closing l
    rw [List.append_assoc, List.append_assoc, List.singleton_append] at good ⊢
    have good' := h.drop good
    rw [h.heads k good (by simp) continued, ih k _ good' close,
      h.close k (h.drop good') onward closing]
  | @more heads body rest r c continued inside closing again others ih ih' =>
    intro k l good onward
    have close := onward_close closing (c :: (rest ++ l))
    rw [List.append_assoc, List.append_assoc, List.cons_append, List.cons_append] at good ⊢
    have good' := h.drop good
    have good'' := h.drop good'
    rw [h.heads k good (by simp) continued, ih k _ good' close, h.again k good'' closing again,
      h.pass k (h.tail good'') (by simp [onward.nonempty]) (Or.inr again),
      ih' k l (h.tail (h.tail good'')) onward]
  | nil => exact fun k l _ _ => rfl
  | cons first rest ih ih' =>
    intro k l good onward
    rw [List.append_assoc] at good ⊢
    rw [ih k _ good (onward_contexts rest onward), ih' k l (h.drop good) onward]

/-- One context is skipped as a whole. -/
theorem Skipper.context (h : Skipper kind ok skip done) {a l : List α}
    (derives : Derives kind .context a) (good : ok (a ++ l)) (onward : Onward kind l) :
    skip (a ++ l) 0 = done l := by
  cases derives with
  | simple plain => exact h.simple good onward.nonempty plain
  | scope opening rest =>
    rw [List.cons_append] at good ⊢
    rw [h.opens 0 good (by simp [onward.nonempty]) opening,
      h.skipped rest 0 l (h.tail good) onward, if_neg (Nat.lt_irrefl 0)]

end Skipping

end ContextGrammar
