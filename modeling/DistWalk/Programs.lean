import Mathlib.Data.List.Infix

/-!
# Programs of tasks and waits

A program is a list of instructions: tasks, some of which are waited for, and waits for
somebody else, one of which may be given up together with what follows it. `Goes` says
what a machine that is somewhere in its program may have done to get somewhere else.
-/

namespace Programs

universe u

variable {τ : Type u}

inductive Instr (τ : Type u)
  | task (t : τ) (waits : Bool)
  | forward
  | reply
  | finish
  | stray
  deriving DecidableEq

def Instr.asked : Instr τ → Option τ
  | .task t _ => some t
  | _ => none

/-- The machine goes past the instruction at once. -/
def Instr.passes : Instr τ → Bool
  | .task _ waits => !waits
  | _ => false

/-- All that a program asks for. -/
def tasks (p : List (Instr τ)) : List τ := p.filterMap Instr.asked

/-- No instruction is out of place, and the machine does not go past one that is the last. -/
def Proper : List (Instr τ) → Prop
  | [] => True
  | i :: p => i ≠ .stray ∧ (i.passes = true → ∃ j ∈ p.head?, j ≠ .finish) ∧ Proper p

instance decidableProper [DecidableEq τ] : (p : List (Instr τ)) → Decidable (Proper p)
  | [] => isTrue trivial
  | i :: p =>
    have := decidableProper p
    inferInstanceAs (Decidable (i ≠ .stray ∧ (i.passes = true → ∃ j ∈ p.head?, j ≠ .finish) ∧ Proper p))

/-- What one step does; only where it is `lossy` may a wait be given up. -/
inductive Move (lossy : Prop) : List (Instr τ) → List τ → List (Instr τ) → Prop
  | work (t : τ) (waits : Bool) (p : List (Instr τ)) : Move lossy (.task t waits :: p) [t] p
  | answered (p : List (Instr τ)) : Move lossy (.forward :: p) [] p
  | givenUp (p : List (Instr τ)) (k : Nat) (allowed : lossy) : Move lossy (.forward :: p) [] (p.drop k)

inductive Goes (lossy : Prop) : List (Instr τ) → List τ → List (Instr τ) → Prop
  | refl (p : List (Instr τ)) : Goes lossy p [] p
  | step {p q r : List (Instr τ)} {ts us : List τ} (first : Move lossy p ts q) (rest : Goes lossy q us r) :
      Goes lossy p (ts ++ us) r

section Goes

variable {lossy : Prop} {p q r : List (Instr τ)} {ts us : List τ}

theorem Goes.one (h : Move lossy p ts q) : Goes lossy p ts q := by
  have whole := Goes.step h (.refl q)
  rwa [List.append_nil] at whole

theorem Goes.trans (h : Goes lossy p ts q) (h' : Goes lossy q us r) : Goes lossy p (ts ++ us) r := by
  induction h with
  | refl p => exact h'
  | step first rest ih =>
    rw [List.append_assoc]
    exact .step first (ih h')

/-- Going past a task and on. -/
theorem Goes.task {t : τ} {waits : Bool} (h : Goes lossy p ts q) :
    Goes lossy (.task t waits :: p) (t :: ts) q := .step (.work t waits p) h

theorem Move.suffix (h : Move lossy p ts q) : q <:+ p := by
  cases h with
  | work t waits q => exact List.suffix_cons _ _
  | answered q => exact List.suffix_cons _ _
  | givenUp q k allowed => exact (List.drop_suffix k q).trans (List.suffix_cons _ _)

theorem Goes.suffix (h : Goes lossy p ts q) : q <:+ p := by
  induction h with
  | refl p => exact List.suffix_rfl
  | step first rest ih => exact ih.trans first.suffix

theorem Move.accounts (h : Move lossy p ts q) : List.Sublist (ts ++ tasks q) (tasks p) := by
  cases h with
  | work t waits q => exact .refl _
  | answered q => exact .refl _
  | givenUp q k allowed => exact (List.drop_sublist k q).filterMap _

/-- What has been done and what is still to be done is asked for, in this order and no
task of it twice. -/
theorem Goes.accounts (h : Goes lossy p ts q) : List.Sublist (ts ++ tasks q) (tasks p) := by
  induction h with
  | refl p => exact .refl _
  | step first rest ih =>
    rw [List.append_assoc]
    exact ((List.Sublist.refl _).append ih).trans first.accounts

/-- Nothing is left out where no wait is given up. -/
theorem Goes.exact (h : Goes lossy p ts q) (patient : ¬ lossy) : tasks p = ts ++ tasks q := by
  induction h with
  | refl p => rfl
  | step first rest ih =>
    rw [List.append_assoc, ← ih]
    cases first with
    | work t waits q => rfl
    | answered q => rfl
    | givenUp q k allowed => exact absurd allowed patient

theorem Proper.suffix (h : Proper p) (part : q <:+ p) : Proper q := by
  induction p with
  | nil =>
    rw [List.suffix_nil.mp part]
    trivial
  | cons i p ih =>
    rcases List.suffix_cons_iff.mp part with rfl | later
    · exact h
    · exact ih h.2.2 later

end Goes

end Programs
