import Mathlib.Data.Finset.Card
import Mathlib.Data.Finset.Image

/-!
# Collecting a quorum with a bounded number of expirations

Members of a finite set are asked and answer in any order, any number of times;
strangers may answer too. A deadline expires again and again. The collection ends
when enough distinct members have answered or the deadline has expired once more
than it may. What has been collected is a function of the events alone.
-/

namespace Quorum

universe u
variable {A : Type u} [DecidableEq A]

structure Config (A : Type u) where
  members : Finset A
  need : Nat
  retries : Nat

inductive Event (A : Type u)
  | reply (a : A)
  | expire
  | pass

structure Tally (A : Type u) where
  replied : Finset A
  expired : Nat

def Tally.start : Tally A := ⟨∅, 0⟩

def Tally.after (K : Config A) (t : Tally A) : Event A → Tally A
  | .reply a => { t with replied := if a ∈ K.members then insert a t.replied else t.replied }
  | .expire => { t with expired := t.expired + 1 }
  | .pass => t

def tally (K : Config A) (events : List (Event A)) : Tally A :=
  events.foldl (Tally.after K) .start

def Ended (K : Config A) (t : Tally A) : Prop := K.need ≤ t.replied.card ∨ K.retries < t.expired

instance (K : Config A) (t : Tally A) : Decidable (Ended K t) :=
  inferInstanceAs (Decidable (_ ∨ _))

variable (K : Config A)

theorem tally_concat (events : List (Event A)) (e : Event A) :
    tally K (events ++ [e]) = (tally K events).after K e := by
  simp [tally, List.foldl_append]

theorem replied_subset_after (t : Tally A) (e : Event A) :
    t.replied ⊆ (t.after K e).replied := by
  cases e with
  | reply a =>
    simp only [Tally.after]
    split
    · exact Finset.subset_insert a t.replied
    · exact Finset.Subset.refl _
  | expire => exact Finset.Subset.refl _
  | pass => exact Finset.Subset.refl _

/-- An end is not undone. -/
theorem Ended.after {t : Tally A} (h : Ended K t) (e : Event A) : Ended K (t.after K e) := by
  rcases h with answered | expired
  · exact Or.inl (answered.trans (Finset.card_le_card (replied_subset_after K t e)))
  · refine Or.inr ?_
    cases e with
    | reply a => exact expired
    | expire => exact Nat.lt_succ_of_lt expired
    | pass => exact expired

/-- The events that end a collection: the last answer that is needed, or one
expiration too many. -/
theorem ending_event {t : Tally A} (open_ : ¬ Ended K t) {e : Event A}
    (ended : Ended K (t.after K e)) :
    (∃ a, e = .reply a ∧ a ∈ K.members ∧ a ∉ t.replied ∧ t.replied.card + 1 = K.need) ∨
      (e = .expire ∧ t.expired = K.retries) := by
  have few : t.replied.card < K.need := not_le.mp fun enough => open_ (Or.inl enough)
  have early : t.expired ≤ K.retries := not_lt.mp fun late => open_ (Or.inr late)
  cases e with
  | reply a =>
    refine Or.inl ⟨a, rfl, ?_⟩
    rcases ended with enough | late
    · simp only [Tally.after] at enough
      split at enough
      · rename_i member
        by_cases known : a ∈ t.replied
        · rw [Finset.insert_eq_self.mpr known] at enough
          omega
        · rw [Finset.card_insert_of_notMem known] at enough
          exact ⟨member, known, by omega⟩
      · omega
    · exact absurd late (not_lt.mpr early)
  | expire =>
    refine Or.inr ⟨rfl, ?_⟩
    rcases ended with enough | late
    · exact absurd few (not_lt.mpr enough)
    · have more : K.retries < t.expired + 1 := late
      omega
  | pass => exact absurd ended open_

end Quorum
