/-!
# Runs of events

A machine takes an event in a state, or refuses it. What a run reaches when its events
meet a condition keeps every invariant that such events keep.
-/

namespace EventRuns

universe u v
variable {σ : Type u} {ε : Type v} (step : σ → ε → Option σ)

/-- The state after the events, if none of them is refused. -/
def run : σ → List ε → Option σ
  | w, [] => some w
  | w, e :: events => (step w e).bind fun w' => run w' events

theorem run_cons {w w' : σ} {e : ε} (taken : step w e = some w') (events : List ε) :
    run step w (e :: events) = run step w' events := by
  rw [run, taken, Option.bind_some]

theorem run_append (w : σ) (events events' : List ε) :
    run step w (events ++ events') = (run step w events).bind fun w' => run step w' events' := by
  induction events generalizing w with
  | nil => rfl
  | cons e events ih =>
    rw [List.cons_append, run, run]
    cases step w e with
    | none => rfl
    | some w' => exact ih w'

/-- The states that events lead to from `start`, when each meets a condition on the state
before it. -/
inductive Reaches (start : σ) (ok : σ → ε → Prop) : σ → Prop
  | init : Reaches start ok start
  | step {w w' : σ} (e : ε) (before : Reaches start ok w) (meets : ok w e) (taken : step w e = some w') :
      Reaches start ok w'

variable {step} {start w w' : σ} {ok : σ → ε → Prop}

/-- What holds at the start and is kept by the events that meet the condition holds in
every state that they reach. -/
theorem Reaches.invariant {inv : σ → Prop} (h : Reaches step start ok w) (first : inv start)
    (kept : ∀ w w' e, inv w → ok w e → step w e = some w' → inv w') : inv w := by
  induction h with
  | init => exact first
  | step e before meets taken ih => exact kept _ _ e ih meets taken

theorem Reaches.run (h : Reaches step start ok w) (free : ∀ w e, ok w e) {events : List ε}
    (done : run step w events = some w') : Reaches step start ok w' := by
  induction events generalizing w with
  | nil =>
    cases done
    exact h
  | cons e events ih =>
    obtain ⟨w₁, taken, later⟩ := Option.bind_eq_some_iff.mp done
    exact ih (h.step e (free w e) taken) later

end EventRuns
