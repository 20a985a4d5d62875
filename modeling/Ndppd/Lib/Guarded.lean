import Mathlib.Data.List.Basic

/-!
# Guarded runs

The runs of a transition function whose events satisfy a guard, each one in the
state it happens in. A guard says what the outside may do, or under what condition
something is claimed; what a step keeps under the guard holds in every state of
such a run (`All.invariant`).
-/

namespace Guarded

variable {σ ε : Type*} {step : σ → ε → σ} {P Q : σ → ε → Prop} {s : σ} {x : ε} {xs : List ε}

/-- Every event satisfies `P` in the state it happens in. -/
def All (step : σ → ε → σ) (P : σ → ε → Prop) : σ → List ε → Prop
  | _, [] => True
  | s, x :: xs => P s x ∧ All step P (step s x) xs

/-- A guard that can be evaluated can be evaluated along a run. -/
def decidableAll [∀ s x, Decidable (P s x)] : ∀ s xs, Decidable (All step P s xs)
  | _, [] => inferInstanceAs (Decidable True)
  | s, x :: xs =>
    have := decidableAll (step s x) xs
    inferInstanceAs (Decidable (P s x ∧ All step P (step s x) xs))

instance [∀ s x, Decidable (P s x)] : Decidable (All step P s xs) := decidableAll s xs

theorem all_concat : All step P s (xs ++ [x]) ↔ All step P s xs ∧ P (xs.foldl step s) x := by
  induction xs generalizing s with
  | nil => simp [All]
  | cons y xs ih => rw [List.cons_append, All, All, ih, List.foldl_cons, and_assoc]

/-- What holds at first and is kept by the steps under the guard holds at the end. -/
theorem All.invariant {I : σ → Prop} (h : All step P s xs) (hs : I s)
    (hstep : ∀ s x, I s → P s x → I (step s x)) : I (xs.foldl step s) := by
  induction xs generalizing s with
  | nil => exact hs
  | cons x xs ih => exact ih h.2 (hstep s x hs h.1)

end Guarded
