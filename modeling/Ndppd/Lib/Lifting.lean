import Mathlib.Data.Option.Defs

/-!
# One program in two monads

A program that is written over any monad can be run in two of them, and the two runs
should go together. A `Lifting` says when two computations do, given when two results
do. It has a rule for each way of building a computation, so that a proof that two runs
go together follows the program.
-/

/-- A relation between the computations of two monads, for any relation between their
    results. -/
structure Lifting (m n : Type → Type) [Monad m] [Monad n] where
  Rel : {α β : Type} → (α → β → Prop) → m α → n β → Prop
  rel_pure : ∀ {α β : Type} {R : α → β → Prop} {a : α} {b : β}, R a b → Rel R (pure a) (pure b)
  rel_bind : ∀ {α β γ δ : Type} {R : α → β → Prop} {T : γ → δ → Prop} {x : m α} {y : n β}
    {f : α → m γ} {g : β → n δ}, Rel R x y → (∀ a b, R a b → Rel T (f a) (g b)) →
    Rel T (x >>= f) (y >>= g)
  rel_mono : ∀ {α β : Type} {R T : α → β → Prop} {x : m α} {y : n β}, Rel R x y →
    (∀ a b, R a b → T a b) → Rel T x y

namespace Lifting

variable {m n : Type → Type} [Monad m] [Monad n] (L : Lifting m n) {α β γ δ : Type}

/-- A computation goes with the value `a`. -/
def Gives (R : α → β → Prop) (a : α) (y : n β) : Prop :=
  L.Rel (fun x b => x = a ∧ R x b) (pure a) y

variable {L} {R : α → β → Prop} {T : γ → δ → Prop}

theorem gives_pure {a : α} {b : β} (h : R a b) : L.Gives R a (pure b) := L.rel_pure ⟨rfl, h⟩

/-- The rule for a value on the one side, and a computation on the other. -/
theorem Gives.bind {a : α} {y : n β} {f : α → m γ} {g : β → n δ} (h : L.Gives R a y)
    (hf : ∀ b, R a b → L.Rel T (f a) (g b)) : L.Rel T (pure a >>= f) (y >>= g) := by
  refine L.rel_bind h ?_
  rintro _ b ⟨rfl, hb⟩
  exact hf b hb

end Lifting

/-- Both are results, or both are errors. -/
inductive ExceptRel {ε ε' α β : Type} (E : ε → ε' → Prop) (R : α → β → Prop) :
    Except ε α → Except ε' β → Prop
  | error {e : ε} {e' : ε'} (h : E e e') : ExceptRel E R (.error e) (.error e')
  | ok {a : α} {b : β} (h : R a b) : ExceptRel E R (.ok a) (.ok b)

/-- Computations that may fail, without their errors. -/
def Lifting.toOption (ε : Type) : Lifting (Except ε) Option where
  Rel R x y := Option.Rel R x.toOption y
  rel_pure h := .some h
  rel_bind := by
    intro α β γ δ R T x y f g h hf
    cases x with
    | error e =>
      cases h
      exact .none
    | ok a =>
      cases h with
      | some h => exact hf _ _ h
  rel_mono := by
    intro α β R T x y h hRT
    generalize x.toOption = z at h ⊢
    cases h with
    | none => exact .none
    | some h => exact .some (hRT _ _ h)
