import Mathlib.Logic.Relation

/-!
# Traces of calls

A run is a sequence of labelled steps. Its trace has the steps that are calls, each with the
state in which it was made; the quiet steps between them are left out. Runs compose with
their traces, and a condition that holds of every call of the trace holds of every step
of the run, if it holds of the quiet steps anyhow.
-/

namespace CallTraces

universe u v

variable {σ : Type u} {ℓ : Type v} (step : σ → ℓ → σ → Prop) (quiet : ℓ → Prop)

/-- Steps that are no calls. -/
def Quietly : σ → σ → Prop := Relation.ReflTransGen fun s s' => ∃ l, quiet l ∧ step s l s'

/-- The steps from `s` to `s'` and their trace. -/
inductive Path : σ → List (σ × ℓ) → σ → Prop
  | refl (s : σ) : Path s [] s
  | quiet {s u s' : σ} {l : ℓ} {calls : List (σ × ℓ)} (silent : quiet l) (first : step s l u)
      (rest : Path u calls s') : Path s calls s'
  | call {s u s' : σ} {l : ℓ} {calls : List (σ × ℓ)} (first : step s l u) (rest : Path u calls s') :
      Path s ((s, l) :: calls) s'

section Path

variable {step quiet} {s u s' : σ} {calls later : List (σ × ℓ)}

theorem Quietly.refl (s : σ) : Quietly step quiet s s := Relation.ReflTransGen.refl

theorem Quietly.one {l : ℓ} (silent : quiet l) (h : step s l s') : Quietly step quiet s s' :=
  Relation.ReflTransGen.single ⟨l, silent, h⟩

theorem Quietly.trans (h : Quietly step quiet s u) (h' : Quietly step quiet u s') : Quietly step quiet s s' :=
  Relation.ReflTransGen.trans h h'

/-- Quiet steps before a run leave its trace as it is. -/
theorem Quietly.path (h : Quietly step quiet s u) (rest : Path step quiet u calls s') :
    Path step quiet s calls s' := by
  induction h using Relation.ReflTransGen.head_induction_on with
  | refl => exact rest
  | head first _ ih =>
    obtain ⟨l, silent, taken⟩ := first
    exact .quiet silent taken ih

theorem Quietly.toPath (h : Quietly step quiet s s') : Path step quiet s [] s' := h.path (.refl s')

theorem Path.one {l : ℓ} (h : step s l s') : Path step quiet s [(s, l)] s' := .call h (.refl s')

theorem Path.trans (h : Path step quiet s calls u) (h' : Path step quiet u later s') :
    Path step quiet s (calls ++ later) s' := by
  induction h with
  | refl => exact h'
  | quiet silent first _ ih => exact .quiet silent first (ih h')
  | call first _ ih => exact .call first (ih h')

/-- Quiet steps behind a run leave its trace as it is. -/
theorem Path.quietly (h : Path step quiet s calls u) (h' : Quietly step quiet u s') :
    Path step quiet s calls s' := by
  have whole := h.trans h'.toPath
  rwa [List.append_nil] at whole

/-- A condition on the calls of a run, on all of its steps. -/
theorem Path.reaches {ok : σ → ℓ → Prop} (h : Path step quiet s calls s') (silent : ∀ s l, quiet l → ok s l)
    (allowed : ∀ call ∈ calls, ok call.1 call.2) :
    Relation.ReflTransGen (fun s s' => ∃ l, ok s l ∧ step s l s') s s' := by
  induction h with
  | refl => exact .refl
  | quiet still first _ ih => exact .head ⟨_, silent _ _ still, first⟩ (ih allowed)
  | call first _ ih =>
    exact .head ⟨_, allowed _ List.mem_cons_self, first⟩ (ih fun call mem => allowed call (List.mem_cons_of_mem _ mem))

/-- The run up to one of its calls. -/
theorem Path.upTo {state : σ} {l : ℓ} (h : Path step quiet s (calls ++ (state, l) :: later) s') :
    ∃ next, Path step quiet s calls state ∧ step state l next ∧ Path step quiet next later s' := by
  generalize whole : calls ++ (state, l) :: later = trace at h
  induction h generalizing calls with
  | refl => simp at whole
  | quiet silent first _ ih =>
    obtain ⟨next, before, taken, behind⟩ := ih whole
    exact ⟨next, .quiet silent first before, taken, behind⟩
  | call first rest ih =>
    cases calls with
    | nil =>
      cases whole
      exact ⟨_, .refl _, first, rest⟩
    | cons c calls =>
      rw [List.cons_append, List.cons.injEq] at whole
      obtain ⟨next, before, taken, behind⟩ := ih whole.2
      rw [whole.1]
      exact ⟨next, .call first before, taken, behind⟩

/-- The run up to the call at a position of its trace. -/
theorem Path.before {state : σ} {l : ℓ} {k : Nat} (h : Path step quiet s calls s')
    (made : calls[k]? = some (state, l)) : Path step quiet s (calls.take k) state := by
  obtain ⟨inside, here⟩ := List.getElem?_eq_some_iff.mp made
  have split : calls.take k ++ (state, l) :: calls.drop (k + 1) = calls := by
    rw [← here, ← List.drop_eq_getElem_cons inside, List.take_append_drop]
  rw [← split] at h
  obtain ⟨next, first, -, -⟩ := h.upTo
  exact first

end Path

end CallTraces
