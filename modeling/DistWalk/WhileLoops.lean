/-!
# Loops that may not end

A loop makes rounds until one of them leaves it. It is run with fuel, and a run that
has used up its fuel is still pending: the loop ends if some fuel is enough. A round may
fail, which ends the loop too.
-/

namespace WhileLoops

universe u
variable {ε σ ρ : Type u}

/-- A computation that comes to a value or a failure, or is pending. -/
abbrev Run (ε : Type u) := ExceptT ε Option

def pending : Run ε ρ := ExceptT.mk none

/-- A round goes on with a new state or leaves the loop with a result. -/
def loop (round : σ → Run ε (σ ⊕ ρ)) : Nat → σ → Run ε ρ
  | 0, _ => pending
  | fuel + 1, s => do
    match ← round s with
    | .inl s' => loop round fuel s'
    | .inr r => return r

variable {round : σ → Run ε (σ ⊕ ρ)}

theorem loop_goes {s s' : σ} (goes : round s = pure (.inl s')) (fuel : Nat) :
    loop round (fuel + 1) s = loop round fuel s' := by
  rw [loop, goes, pure_bind]

theorem loop_leaves {s : σ} {r : ρ} (leaves : round s = pure (.inr r)) (fuel : Nat) :
    loop round (fuel + 1) s = pure r := by
  rw [loop, leaves, pure_bind]

theorem loop_fails {s : σ} {e : ε} (fails : round s = throw e) (fuel : Nat) :
    loop round (fuel + 1) s = throw e := by
  rw [loop, fails]
  rfl

theorem loop_pending {s : σ} (waits : round s = pending) (fuel : Nat) : loop round (fuel + 1) s = pending := by
  rw [loop, waits]
  rfl

/-- What a round can come to. -/
theorem round_cases (round : σ → Run ε (σ ⊕ ρ)) (s : σ) : round s = pending ∨ (∃ e, round s = throw e) ∨
    (∃ s', round s = pure (.inl s')) ∨ ∃ r, round s = pure (.inr r) := by
  rcases came : (round s).run with _ | e | s' | r
  · exact Or.inl came
  · exact Or.inr (Or.inl ⟨e, came⟩)
  · exact Or.inr (Or.inr (Or.inl ⟨s', came⟩))
  · exact Or.inr (Or.inr (Or.inr ⟨r, came⟩))

/-- A loop comes to a good result if every round keeps an invariant and makes a measure
smaller, or leaves with a good result. -/
theorem loop_ends (round : σ → Run ε (σ ⊕ ρ)) (inv : σ → Prop) (post : ρ → Prop) (μ : σ → Nat)
    (rounds : ∀ s, inv s → (∃ s', round s = pure (.inl s') ∧ inv s' ∧ μ s' < μ s) ∨
      ∃ r, round s = pure (.inr r) ∧ post r)
    {fuel : Nat} {s : σ} (start : inv s) (enough : μ s < fuel) :
    ∃ r, loop round fuel s = pure r ∧ post r := by
  induction fuel generalizing s with
  | zero => exact absurd enough (Nat.not_lt_zero _)
  | succ fuel ih =>
    rcases rounds s start with ⟨s', goes, kept, smaller⟩ | ⟨r, leaves, good⟩
    · rw [loop_goes goes]
      exact ih kept (Nat.lt_of_lt_of_le smaller (Nat.le_of_lt_succ enough))
    · exact ⟨r, loop_leaves leaves fuel, good⟩

/-- What a loop returns is good if every round keeps an invariant as long as it goes on,
and leaves with a good result. -/
theorem loop_returns (round : σ → Run ε (σ ⊕ ρ)) (inv : σ → Prop) (post : ρ → Prop)
    (goes : ∀ s s', inv s → round s = pure (.inl s') → inv s')
    (leaves : ∀ s r, inv s → round s = pure (.inr r) → post r)
    {fuel : Nat} {s : σ} {r : ρ} (start : inv s) (returned : loop round fuel s = pure r) : post r := by
  induction fuel generalizing s with
  | zero => cases returned
  | succ fuel ih =>
    rcases round_cases round s with waits | ⟨e, fails⟩ | ⟨s', went⟩ | ⟨r', left⟩
    · rw [loop_pending waits] at returned
      cases returned
    · rw [loop_fails fails] at returned
      cases returned
    · rw [loop_goes went] at returned
      exact ih (goes s s' start went) returned
    · rw [loop_leaves left] at returned
      cases returned
      exact leaves s r start left

/-- A loop and what follows it compute a function whose value the rounds keep. -/
theorem loop_computes_then {τ : Type u} (round : σ → Run ε (σ ⊕ ρ)) (last : ρ → Run ε τ) (inv : σ → Prop)
    (f : σ → τ) (μ : σ → Nat)
    (rounds : ∀ s, inv s → (∃ s', round s = pure (.inl s') ∧ inv s' ∧ μ s' < μ s ∧ f s' = f s) ∨
      ∃ r, round s = pure (.inr r) ∧ last r = pure (f s))
    {fuel : Nat} {s : σ} (start : inv s) (enough : μ s < fuel) : (loop round fuel s >>= last) = pure (f s) := by
  have kept : ∀ t, inv t ∧ f t = f s → (∃ t', round t = pure (.inl t') ∧ (inv t' ∧ f t' = f s) ∧ μ t' < μ t) ∨
      ∃ r, round t = pure (.inr r) ∧ last r = pure (f s) := by
    rintro t ⟨here, same⟩
    rcases rounds t here with ⟨t', goes, there, smaller, value⟩ | ⟨r, leaves, value⟩
    · exact Or.inl ⟨t', goes, ⟨there, value.trans same⟩, smaller⟩
    · exact Or.inr ⟨r, leaves, same ▸ value⟩
  obtain ⟨r, ended, value⟩ :=
    loop_ends round (fun t => inv t ∧ f t = f s) (fun r => last r = pure (f s)) μ kept ⟨start, rfl⟩ enough
  rw [ended, pure_bind, value]

/-- A loop computes a function whose value its rounds keep, and with which they leave. -/
theorem loop_computes (round : σ → Run ε (σ ⊕ ρ)) (inv : σ → Prop) (f : σ → ρ) (μ : σ → Nat)
    (rounds : ∀ s, inv s → (∃ s', round s = pure (.inl s') ∧ inv s' ∧ μ s' < μ s ∧ f s' = f s) ∨
      round s = pure (.inr (f s)))
    {fuel : Nat} {s : σ} (start : inv s) (enough : μ s < fuel) : loop round fuel s = pure (f s) := by
  have whole : (loop round fuel s >>= pure) = pure (f s) :=
    loop_computes_then round pure inv f μ (fun t here => (rounds t here).imp id fun leaves => ⟨f t, leaves, rfl⟩)
      start enough
  rwa [bind_pure] at whole

/-- A loop whose rounds all go on never ends. -/
theorem loop_endless (round : σ → Run ε (σ ⊕ ρ)) (inv : σ → Prop)
    (rounds : ∀ s, inv s → ∃ s', round s = pure (.inl s') ∧ inv s')
    {s : σ} (start : inv s) (fuel : Nat) : loop round fuel s = pending := by
  induction fuel generalizing s with
  | zero => rfl
  | succ fuel ih =>
    obtain ⟨s', goes, kept⟩ := rounds s start
    rw [loop_goes goes]
    exact ih kept

end WhileLoops
