import Mathlib.Data.List.Basic

/-!
# Runs of a transition function

`run step s as` is the state that the actions `as` lead to from `s`. `Along step C s as` says that
every action of the run meets the condition `C` in the state it is taken in; it serves both as the
hypothesis of a result about restricted runs and as the conclusion of a result about every step.

`run_induction` is the invariant rule, `Along.of_invariant` the rule that derives a property of every
step from an invariant of the states.
-/

namespace Transition

variable {σ α : Type*} {step : σ → α → σ} {I : σ → Prop} {C P : σ → α → Prop} {s : σ} {as : List α}

/-- The state after the actions. -/
def run (step : σ → α → σ) (s : σ) (as : List α) : σ := as.foldl step s

@[simp] theorem run_cons (a : α) : run step s (a :: as) = run step (step s a) as := rfl

/-- Every action of the run meets `C` in the state it is taken in. -/
def Along (step : σ → α → σ) (C : σ → α → Prop) : σ → List α → Prop
  | _, [] => True
  | s, a :: as => C s a ∧ Along step C (step s a) as

@[simp] theorem along_nil : Along step C s [] := trivial

@[simp] theorem along_cons (a : α) : Along step C s (a :: as) ↔ C s a ∧ Along step C (step s a) as := Iff.rfl

instance decidableAlong [∀ s a, Decidable (C s a)] : ∀ s as, Decidable (Along step C s as)
  | _, [] => isTrue trivial
  | s, a :: as =>
    have := decidableAlong (step s a) as
    inferInstanceAs (Decidable (C s a ∧ Along step C (step s a) as))

/-- The invariant rule: what holds at the start and survives every action that meets `C` holds after
every run that meets `C`. -/
theorem run_induction (hstep : ∀ s a, I s → C s a → I (step s a)) (hs : I s)
    (hC : Along step C s as) : I (run step s as) := by
  induction as generalizing s with
  | nil => exact hs
  | cons a as ih => exact ih (hstep s a hs hC.1) hC.2

theorem run_invariant (hstep : ∀ s a, I s → I (step s a)) (hs : I s) : I (run step s as) := by
  induction as generalizing s with
  | nil => exact hs
  | cons a as ih => exact ih (hstep s a hs)

theorem Along.and_mem {Q : α → Prop} (hC : Along step C s as) (hQ : ∀ a ∈ as, Q a) :
    Along step (fun s a => C s a ∧ Q a) s as := by
  induction as generalizing s with
  | nil => trivial
  | cons a as ih =>
    exact ⟨⟨hC.1, hQ a (.head _)⟩, ih hC.2 fun b hb => hQ b (.tail _ hb)⟩

theorem Along.of_invariant (hstep : ∀ s a, I s → C s a → I (step s a))
    (hP : ∀ s a, I s → C s a → P s a) (hs : I s) (hC : Along step C s as) : Along step P s as := by
  induction as generalizing s with
  | nil => trivial
  | cons a as ih => exact ⟨hP s a hs hC.1, ih (hstep s a hs hC.1) hC.2⟩

theorem Along.of_run_invariant (hstep : ∀ s a, I s → I (step s a)) (hP : ∀ s a, I s → P s a) (hs : I s) :
    Along step P s as := by
  induction as generalizing s with
  | nil => trivial
  | cons a as ih => exact ⟨hP s a hs, ih (hstep s a hs)⟩

end Transition
