import Mathlib.Data.List.Basic

/-!
# Reading calls off a stream of tokens

A stream is written item by item, and each item stands for a call: a key and an argument.
The reader knows the keys of some tokens. Where it finds one it makes a call with the
token behind it, which it may then take or read again.

Once the reader has passed the beginning of an item without the call of the item, it has
always passed more items than it has made calls of, so it never makes all the calls.
-/

namespace PairReader

universe u v w
variable {τ : Type u} {κ : Type v} {ι : Type w}

/-- `find` gives the key of a token and whether the reader takes the argument. The last
token is not looked up. -/
def readPairs (find : τ → Option (κ × Bool)) : List τ → List (κ × τ)
  | [] => []
  | [_] => []
  | t :: t' :: rest =>
    match find t with
    | none => readPairs find (t' :: rest)
    | some (k, true) => (k, t') :: readPairs find rest
    | some (k, false) => (k, t') :: readPairs find (t' :: rest)

variable {find : τ → Option (κ × Bool)} {toks : ι → List τ} {call : ι → κ × τ}

/-- Inside the item no further token is read as its key, and its key takes an argument. -/
structure Spoken (find : τ → Option (κ × Bool)) (toks : ι → List τ) (call : ι → κ × τ) (e : ι) : Prop where
  nonempty : toks e ≠ []
  inner : ∀ front t t' back, toks e = front ++ t :: t' :: back → front ≠ [] → ∀ b, find t ≠ some ((call e).1, b)
  takes : ∀ t b, find t = some ((call e).1, b) → b = true

/-- The first two tokens are the call, and the others are not known. -/
def Heard (find : τ → Option (κ × Bool)) (toks : ι → List τ) (call : ι → κ × τ) (e : ι) : Prop :=
  ∃ t back, toks e = t :: (call e).2 :: back ∧ find t = some ((call e).1, true) ∧ ∀ x ∈ back, find x = none

/-- The first two tokens are not the call. -/
def Unheard (find : τ → Option (κ × Bool)) (toks : ι → List τ) (call : ι → κ × τ) (e : ι) : Prop :=
  ∀ t back, toks e = t :: (call e).2 :: back → find t ≠ some ((call e).1, true)

/-- The argument of a call is a token. -/
theorem argument_mem {tokens : List τ} {c : κ × τ} (read : c ∈ readPairs find tokens) : c.2 ∈ tokens := by
  fun_induction readPairs find tokens with
  | case1 => cases read
  | case2 => cases read
  | case3 t t' rest unknown ih => exact List.mem_cons_of_mem _ (ih read)
  | case4 t t' rest k known ih =>
    rcases List.mem_cons.mp read with rfl | later
    · exact List.mem_cons_of_mem _ (List.mem_cons_self ..)
    · exact List.mem_cons_of_mem _ (List.mem_cons_of_mem _ (ih later))
  | case5 t t' rest k known ih =>
    rcases List.mem_cons.mp read with rfl | later
    · exact List.mem_cons_of_mem _ (List.mem_cons_self ..)
    · exact List.mem_cons_of_mem _ (ih later)

theorem readPairs_skip {back rest : List τ} (unknown : ∀ x ∈ back, find x = none) :
    readPairs find (back ++ rest) = readPairs find rest := by
  induction back with
  | nil => rfl
  | cons x back ih =>
    have later := ih fun y inside => unknown y (List.mem_cons_of_mem _ inside)
    rw [← later, List.cons_append]
    cases back ++ rest with
    | nil => rfl
    | cons y rest => simp only [readPairs, unknown x (List.mem_cons_self ..)]

theorem readPairs_heard {e : ι} (heard : Heard find toks call e) (rest : List τ) :
    readPairs find (toks e ++ rest) = call e :: readPairs find rest := by
  obtain ⟨t, back, tokens, key, unknown⟩ := heard
  rw [tokens]
  simp only [List.cons_append, readPairs, key, readPairs_skip unknown]

/-- The first call that is read is the first one that is owed. -/
theorem readPairs_cons {t t' : τ} {rest : List τ} {c : κ × τ} {calls : List (κ × τ)}
    (read : readPairs find (t :: t' :: rest) = c :: calls) :
    (find t = none ∧ readPairs find (t' :: rest) = c :: calls) ∨
    (find t = some (c.1, true) ∧ t' = c.2 ∧ readPairs find rest = calls) ∨
    (find t = some (c.1, false) ∧ readPairs find (t' :: rest) = calls) := by
  rw [readPairs] at read
  cases known : find t with
  | none =>
    simp only [known] at read
    exact .inl ⟨rfl, read⟩
  | some found =>
    obtain ⟨k, _ | _⟩ := found
    · simp only [known, List.cons.injEq] at read
      obtain ⟨rfl, later⟩ := read
      exact .inr (.inr ⟨rfl, later⟩)
    · simp only [known, List.cons.injEq] at read
      obtain ⟨rfl, later⟩ := read
      exact .inr (.inl ⟨rfl, rfl, later⟩)

/-- The next token belongs to the item, or it is the first one of the next item. -/
theorem next_token {L : List ι} {rest later : List τ} {t : τ}
    (nonempty : ∀ i ∈ L, toks i ≠ []) (stream : rest ++ L.flatMap toks = t :: later) :
    (∃ rest', rest = t :: rest' ∧ later = rest' ++ L.flatMap toks) ∨
    (rest = [] ∧ ∃ e L' rest', L = e :: L' ∧ toks e = t :: rest' ∧ later = rest' ++ L'.flatMap toks) := by
  cases rest with
  | cons t' rest =>
    rw [List.cons_append, List.cons.injEq] at stream
    obtain ⟨rfl, rfl⟩ := stream
    exact .inl ⟨rest, rfl, rfl⟩
  | nil =>
    cases L with
    | nil => cases stream
    | cons e L =>
      obtain ⟨t', rest, tokens⟩ := List.exists_cons_of_ne_nil (nonempty e (List.mem_cons_self ..))
      rw [List.nil_append, List.flatMap_cons, tokens, List.cons_append, List.cons.injEq] at stream
      obtain ⟨rfl, rfl⟩ := stream
      exact .inr ⟨rfl, e, L, rest, rfl, tokens, rfl⟩

/-- The reader stands behind the beginning of the item `e` and has not made its call,
or it has not made a call of an item before: `owed` are the calls of those. -/
theorem readPairs_behind {n : Nat} {e : ι} {L : List ι} (owed : List (κ × τ)) (front : List τ)
    {rest : List τ} (spoken : ∀ i ∈ e :: L, Spoken find toks call i) (tokens : toks e = front ++ rest)
    (behind : front ≠ [] ∨ owed ≠ []) (size : (rest ++ L.flatMap toks).length ≤ n) :
    readPairs find (rest ++ L.flatMap toks) ≠ owed ++ call e :: L.map call := by
  induction n generalizing e L owed front rest with
  | zero =>
    have empty : rest ++ L.flatMap toks = [] := List.length_eq_zero_iff.mp (Nat.le_zero.mp size)
    rw [empty]
    simp [readPairs]
  | succ n ih =>
    -- at a token of the item
    have inside : ∀ (e : ι) (L : List ι) (owed : List (κ × τ)) (front rest : List τ) (t : τ),
        (∀ i ∈ e :: L, Spoken find toks call i) → toks e = front ++ t :: rest → (front ≠ [] ∨ owed ≠ []) →
        (rest ++ L.flatMap toks).length ≤ n →
        readPairs find (t :: (rest ++ L.flatMap toks)) ≠ owed ++ call e :: L.map call := by
      intro e L owed front rest t spoken tokens behind size read
      have next : toks e = (front ++ [t]) ++ rest := by rw [tokens, List.append_assoc, List.singleton_append]
      have here := spoken e (List.mem_cons_self ..)
      cases stream : rest ++ L.flatMap toks with
      | nil =>
        rw [stream] at read
        cases owed <;> cases read
      | cons t' later =>
        rw [stream] at read size
        obtain ⟨c, calls, owing⟩ : ∃ c calls, owed ++ call e :: L.map call = c :: calls :=
          List.exists_cons_of_ne_nil (by simp)
        rw [owing] at read
        have split := readPairs_cons read
        clear read
        rcases split with ⟨-, read⟩ | ⟨known, -, read⟩ | ⟨known, read⟩
        · rw [← owing, ← stream] at read
          exact ih _ _ spoken next (.inl (by simp)) (by rw [stream]; exact size) read
        · -- a call with the next token, which is read over
          have less : later.length ≤ n := by
            rw [List.length_cons] at size
            omega
          have some_ : ∀ i ∈ L, toks i ≠ [] := fun i there => (spoken i (List.mem_cons_of_mem _ there)).nonempty
          rcases next_token some_ stream with ⟨rest', rfl, rfl⟩ | ⟨rfl, e', L', rest', rfl, first', rfl⟩
          · cases owed with
            | nil =>
              cases owing
              have started : front ≠ [] := by simpa using behind
              exact here.inner front t _ rest' tokens started true known
            | cons first owed =>
              cases owing
              have further : toks e = (front ++ [t, t']) ++ rest' := by simp [tokens]
              exact ih _ _ spoken further (.inl (by simp)) less read
          · -- the token that is read over begins the next item
            have spoken' : ∀ i ∈ e' :: L', Spoken find toks call i :=
              fun i there => spoken i (List.mem_cons_of_mem _ there)
            cases owed with
            | nil =>
              cases owing
              exact ih [] [t'] spoken' first' (.inl (by simp)) less read
            | cons first owed =>
              cases owing
              refine ih (owed ++ [call e]) [t'] spoken' first' (.inl (by simp)) less ?_
              rw [read, List.append_assoc]
              rfl
        · cases owed with
          | nil =>
            cases owing
            exact absurd (here.takes t false known) (by simp)
          | cons first owed =>
            cases owing
            rw [← stream] at read
            exact ih _ _ spoken next (.inl (by simp)) (by rw [stream]; exact size) read
    cases rest with
    | cons t rest => exact inside e L owed front rest t spoken tokens behind (by simpa using size)
    | nil =>
      cases L with
      | nil =>
        intro read
        cases owed <;> cases read
      | cons e' L =>
        -- at the beginning of the next item, with the call of this one owed
        have spoken' : ∀ i ∈ e' :: L, Spoken find toks call i :=
          fun i there => spoken i (List.mem_cons_of_mem _ there)
        obtain ⟨t, rest, first⟩ := List.exists_cons_of_ne_nil (spoken' e' (List.mem_cons_self ..)).nonempty
        have less : (rest ++ L.flatMap toks).length ≤ n := by
          simp only [List.nil_append, List.flatMap_cons, first, List.cons_append, List.length_cons] at size
          omega
        have read := inside e' L (owed ++ [call e]) [] rest t spoken' first (.inr (by simp)) less
        simpa [List.flatMap_cons, first] using read

/-- At the beginning of an item with nothing owed: if its first tokens are not its call,
its call is not read. -/
theorem readPairs_unheard {e : ι} {L : List ι} (spoken : ∀ i ∈ e :: L, Spoken find toks call i)
    (unheard : Unheard find toks call e) : readPairs find (toks e ++ L.flatMap toks) ≠ call e :: L.map call := by
  have here := spoken e (List.mem_cons_self ..)
  have some_ : ∀ i ∈ L, toks i ≠ [] := fun i there => (spoken i (List.mem_cons_of_mem _ there)).nonempty
  obtain ⟨t, rest, tokens⟩ := List.exists_cons_of_ne_nil here.nonempty
  intro read
  rw [tokens, List.cons_append] at read
  cases stream : rest ++ L.flatMap toks with
  | nil =>
    rw [stream] at read
    cases read
  | cons t' later =>
    rw [stream] at read
    have split := readPairs_cons read
    clear read
    rcases split with ⟨-, read⟩ | ⟨known, rfl, read⟩ | ⟨known, read⟩
    · rw [← stream] at read
      exact readPairs_behind [] [t] spoken tokens (.inl (by simp)) (Nat.le_refl _) read
    · rcases next_token some_ stream with ⟨rest', rfl, rfl⟩ | ⟨rfl, e', L', rest', rfl, first', rfl⟩
      · exact unheard t rest' tokens known
      · have spoken' : ∀ i ∈ e' :: L', Spoken find toks call i :=
          fun i there => spoken i (List.mem_cons_of_mem _ there)
        exact readPairs_behind [] [(call e).2] spoken' first' (.inl (by simp)) (Nat.le_refl _) read
    · exact absurd (here.takes t false known) (by simp)

/-- All calls are read, in order, exactly if every item is heard. -/
theorem readPairs_iff {L : List ι} (spoken : ∀ i ∈ L, Spoken find toks call i)
    (either : ∀ i ∈ L, Heard find toks call i ∨ Unheard find toks call i) :
    readPairs find (L.flatMap toks) = L.map call ↔ ∀ i ∈ L, Heard find toks call i := by
  induction L with
  | nil => simp [readPairs]
  | cons e L ih =>
    have later := ih (fun i there => spoken i (List.mem_cons_of_mem _ there))
      fun i there => either i (List.mem_cons_of_mem _ there)
    rw [List.flatMap_cons, List.map_cons, List.forall_mem_cons]
    rcases either e (List.mem_cons_self ..) with heard | unheard
    · rw [readPairs_heard heard, List.cons.injEq, later]
      simp [heard]
    · constructor
      · intro read
        exact absurd read (readPairs_unheard spoken unheard)
      · rintro ⟨⟨t, back, tokens, known, -⟩, -⟩
        exact absurd known (unheard t back tokens)

end PairReader
