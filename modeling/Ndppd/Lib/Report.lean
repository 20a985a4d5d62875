import Mathlib.Logic.Basic
import Ndppd.Lib.Lifting

/-!
# Computations that report what they do

A computation that may fail, and that reports events on its way: what it reads, what
it writes, what it calls. `Yields P x r` says all there is to know of one: its result
is `r`, and each of its events satisfies `P`. There is one rule for each way of
building a computation, so that a proof follows the program. A program that is also
run without events goes together with this run (`lifting`).
-/

/-- A computation: its result, or why it stopped, and its events in order. -/
structure Report (ε σ α : Type) where
  val : Except σ α
  trace : List ε

namespace Report

variable {ε σ α β : Type}

/-- Stops. -/
def fail (s : σ) : Report ε σ α := ⟨.error s, []⟩

/-- Reports an event. -/
def emit (e : ε) : Report ε σ Unit := ⟨.ok (), [e]⟩

/-- Goes on with the result. -/
protected def bind (x : Report ε σ α) (f : α → Report ε σ β) : Report ε σ β :=
  match x.val with
  | .error s => ⟨.error s, x.trace⟩
  | .ok a => ⟨(f a).val, x.trace ++ (f a).trace⟩

instance : Monad (Report ε σ) where
  pure a := ⟨.ok a, []⟩
  bind := Report.bind

/-- The result is `r`, and every event satisfies `P`. -/
structure Yields (P : ε → Prop) (x : Report ε σ α) (r : Except σ α) : Prop where
  val : x.val = r
  trace : ∀ e ∈ x.trace, P e

section Rules

variable {P : ε → Prop} {x : Report ε σ α} {f : α → Report ε σ β} {r : Except σ α}

theorem yields_pure (a : α) : Yields P (pure a : Report ε σ α) (.ok a) :=
  ⟨rfl, fun _ he => absurd he List.not_mem_nil⟩

theorem yields_fail (s : σ) : Yields P (fail s : Report ε σ α) (.error s) :=
  ⟨rfl, fun _ he => absurd he List.not_mem_nil⟩

theorem yields_emit {e : ε} (h : P e) : Yields P (emit e : Report ε σ Unit) (.ok ()) :=
  ⟨rfl, fun _ he => List.mem_singleton.1 he ▸ h⟩

theorem Yields.mono {Q : ε → Prop} (hx : Yields P x r) (h : ∀ e, P e → Q e) : Yields Q x r :=
  ⟨hx.val, fun e he => h e (hx.trace e he)⟩

/-- A computation, then the one that its result gives. -/
theorem Yields.bind {g : α → Except σ β} (hx : Yields P x r)
    (hf : ∀ a, r = .ok a → Yields P (f a) (g a)) : Yields P (x >>= f) (r >>= g) := by
  obtain ⟨rfl, htrace⟩ := hx
  change Yields P (Report.bind x f) _
  rw [Report.bind]
  cases hval : x.val with
  | error s => exact ⟨rfl, htrace⟩
  | ok a =>
    have ha := hf a hval
    exact ⟨ha.val, fun e he => (List.mem_append.1 he).elim (htrace e) (ha.trace e)⟩

/-- The rule for a computation that does not fail. -/
theorem Yields.andThen {a : α} {s : Except σ β} (hx : Yields P x (.ok a))
    (hf : Yields P (f a) s) : Yields P (x >>= f) s :=
  hx.bind (g := fun _ => s) fun _ h => Except.ok.inj h ▸ hf

/-- The rule for a computation that fails. -/
theorem Yields.stop {e : σ} (hx : Yields P x (.error e)) : Yields P (x >>= f) (.error e) :=
  hx.bind (g := fun _ => .error e) fun _ h => nomatch h

end Rules

/-- The result of a computation that always has one. -/
def getD (x : Report ε σ α) (d : α) : α := x.val.toOption.getD d

theorem Yields.getD_eq {P : ε → Prop} {x : Report ε σ α} {a : α} (h : Yields P x (.ok a))
    (d : α) : x.getD d = a := by
  rw [getD, h.val]
  rfl

/-- Computations that report their events, and those that do not, given how the errors of
    these are reported: every event satisfies `P`. -/
def lifting {τ : Type} (P : ε → Prop) (stop : τ → σ) : Lifting (Except τ) (Report ε σ) where
  Rel R x y := ∃ r, Yields P y r ∧ ExceptRel (fun e e' => e' = stop e) R x r
  rel_pure h := ⟨_, yields_pure _, .ok h⟩
  rel_bind := by
    rintro α β γ δ R T x y f g ⟨r, hy, hr⟩ hf
    cases hr with
    | error he => exact ⟨_, hy.stop, .error he⟩
    | ok hab =>
      obtain ⟨r', hg, hr'⟩ := hf _ _ hab
      exact ⟨r', hy.andThen hg, hr'⟩
  rel_mono := by
    rintro α β R T x y ⟨r, hy, hr⟩ hRT
    cases hr with
    | error he => exact ⟨_, hy, .error he⟩
    | ok hab => exact ⟨_, hy, .ok (hRT _ _ hab)⟩

section Lifting

variable {τ : Type} {P : ε → Prop} {stop : τ → σ} {R : α → β → Prop}

theorem rel_fail {e : τ} :
    (lifting P stop).Rel R (.error e) (fail (stop e) : Report ε σ β) :=
  ⟨_, yields_fail _, .error rfl⟩

/-- An event before a computation. -/
theorem rel_emit {e : ε} (he : P e) {x : Except τ α} {y : Report ε σ β}
    (h : (lifting P stop).Rel R x y) : (lifting P stop).Rel R x (emit e >>= fun _ => y) := by
  obtain ⟨r, hy, hr⟩ := h
  exact ⟨r, (yields_emit he).andThen hy, hr⟩

theorem gives_of_yields {a : α} {b : β} {y : Report ε σ β} (hy : Yields P y (.ok b))
    (h : R a b) : (lifting P stop).Gives R a y :=
  ⟨_, hy, .ok ⟨rfl, h⟩⟩

end Lifting

end Report
