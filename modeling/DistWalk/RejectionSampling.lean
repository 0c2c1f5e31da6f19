import Mathlib.Logic.Function.Iterate
import Mathlib.Tactic.Common

/-!
# Drawing again until a value is accepted

A generator makes a value out of its state and moves on; a drawing repeats it until
a value is accepted, which may never happen. What can be drawn from a state, over
every number of drawings, are just the accepted values that lie ahead of it.
-/

namespace RejectionSampling

universe u v
variable {σ : Type u} {α : Type v} (step : σ → α × σ) (accept : σ → α → Bool)

/-- Draw within `fuel` attempts. The value is judged by the state it comes from. -/
def retry : Nat → σ → Option (α × σ)
  | 0, _ => none
  | fuel + 1, s => if accept s (step s).1 then some (step s) else retry fuel (step s).2

/-- Up to `n` drawings in a row. -/
def drawMany (fuel : Nat) : Nat → σ → List α
  | 0, _ => []
  | n + 1, s =>
    match retry step accept fuel s with
    | none => []
    | some (a, s') => a :: drawMany fuel n s'

/-- The state after `k` steps of the generator. -/
def ahead (k : Nat) (s : σ) : σ := (fun s => (step s).2)^[k] s

theorem ahead_succ (k : Nat) (s : σ) : ahead step (k + 1) s = ahead step k (step s).2 :=
  Function.iterate_succ_apply _ k s

theorem ahead_succ' (k : Nat) (s : σ) : ahead step (k + 1) s = (step (ahead step k s)).2 :=
  Function.iterate_succ_apply' _ k s

theorem ahead_add (j k : Nat) (s : σ) : ahead step j (ahead step k s) = ahead step (j + k) s :=
  (Function.iterate_add_apply _ j k s).symm

variable {step accept}

/-- A drawing gives an accepted value that lies ahead, and stops right behind it. -/
theorem retry_ahead {fuel : Nat} {s s' : σ} {a : α} (h : retry step accept fuel s = some (a, s')) :
    ∃ k, (step (ahead step k s)).1 = a ∧ accept (ahead step k s) a = true ∧
      s' = ahead step (k + 1) s := by
  induction fuel generalizing s with
  | zero => cases h
  | succ fuel ih =>
    simp only [retry] at h
    split at h
    · rename_i accepted
      simp only [Option.some.injEq] at h
      have value : (step s).1 = a := congrArg Prod.fst h
      have state : (step s).2 = s' := congrArg Prod.snd h
      refine ⟨0, value, ?_, state.symm⟩
      rw [← value]
      exact accepted
    · obtain ⟨k, value, accepted, state⟩ := ih h
      rw [← ahead_succ] at value accepted state
      exact ⟨k + 1, value, accepted, state⟩

theorem retry_mono {fuel more : Nat} {s : σ} {r : α × σ} (le : fuel ≤ more)
    (h : retry step accept fuel s = some r) : retry step accept more s = some r := by
  induction fuel generalizing s more with
  | zero => cases h
  | succ fuel ih =>
    obtain ⟨more, rfl⟩ := Nat.exists_eq_add_of_lt (Nat.lt_of_succ_le le)
    simp only [retry] at h ⊢
    split
    · rename_i accepted
      rw [if_pos accepted] at h
      exact h
    · rename_i rejected
      rw [if_neg rejected] at h
      exact ih (by omega) h

theorem drawMany_mono {fuel more n : Nat} {s : σ} {a : α} (le : fuel ≤ more)
    (h : a ∈ drawMany step accept fuel n s) : a ∈ drawMany step accept more n s := by
  induction n generalizing s with
  | zero => cases h
  | succ n ih =>
    cases drawn : retry step accept fuel s with
    | none =>
      simp only [drawMany, drawn] at h
      cases h
    | some r =>
      obtain ⟨b, s'⟩ := r
      simp only [drawMany, drawn, retry_mono le drawn, List.mem_cons] at h ⊢
      exact h.imp_right ih

/-- What is drawn lies ahead and has been accepted. -/
theorem drawMany_sound {fuel n : Nat} {s : σ} {a : α} (h : a ∈ drawMany step accept fuel n s) :
    ∃ k, (step (ahead step k s)).1 = a ∧ accept (ahead step k s) a = true := by
  induction n generalizing s with
  | zero => cases h
  | succ n ih =>
    cases drawn : retry step accept fuel s with
    | none =>
      simp only [drawMany, drawn] at h
      cases h
    | some r =>
      obtain ⟨b, s'⟩ := r
      obtain ⟨k, value, accepted, state⟩ := retry_ahead drawn
      simp only [drawMany, drawn, List.mem_cons] at h
      rcases h with rfl | later
      · exact ⟨k, value, accepted⟩
      · obtain ⟨j, found⟩ := ih later
        rw [state, ahead_add] at found
        exact ⟨j + (k + 1), found⟩

/-- Every accepted value ahead can be drawn. -/
theorem drawMany_complete {k : Nat} {s : σ}
    (accepted : accept (ahead step k s) (step (ahead step k s)).1 = true) :
    ∃ fuel n, (step (ahead step k s)).1 ∈ drawMany step accept fuel n s := by
  induction k generalizing s with
  | zero =>
    have accepted : accept s (step s).1 = true := accepted
    refine ⟨1, 1, ?_⟩
    simp [drawMany, retry, accepted, ahead]
  | succ k ih =>
    rw [ahead_succ] at accepted ⊢
    obtain ⟨fuel, n, member⟩ := ih accepted
    by_cases first : accept s (step s).1 = true
    · refine ⟨fuel + 1, n + 1, ?_⟩
      simp only [drawMany, retry, first, if_true, List.mem_cons]
      exact Or.inr (drawMany_mono (Nat.le_succ fuel) member)
    · -- the first attempt is rejected, so the first drawing begins one step ahead
      refine ⟨fuel + 1, n, ?_⟩
      cases n with
      | zero => cases member
      | succ n =>
        cases drawn : retry step accept fuel (step s).2 with
        | none =>
          simp only [drawMany, drawn] at member
          cases member
        | some r =>
          obtain ⟨b, s'⟩ := r
          simp only [drawMany, drawn, List.mem_cons] at member
          have same : retry step accept (fuel + 1) s = some (b, s') := by
            simp only [retry, if_neg first]
            exact drawn
          simp only [drawMany, same, List.mem_cons]
          exact member.imp_right (drawMany_mono (Nat.le_succ fuel))

/-- What all drawings satisfy is what all accepted values ahead satisfy. -/
theorem forall_drawMany {P : α → Prop} (s : σ) :
    (∀ fuel n, ∀ a ∈ drawMany step accept fuel n s, P a) ↔
      ∀ k, accept (ahead step k s) (step (ahead step k s)).1 = true → P (step (ahead step k s)).1 := by
  constructor
  · intro all k accepted
    obtain ⟨fuel, n, member⟩ := drawMany_complete accepted
    exact all fuel n _ member
  · intro all fuel n a member
    obtain ⟨k, rfl, accepted⟩ := drawMany_sound member
    exact all k accepted

end RejectionSampling
