import Mathlib.Data.List.Perm.Basic

/-!
# Partial functions over lists

A list is mapped by a partial function (`List.mapM` in `Option`) if all its
elements are. What is known of the elements and their order is known of the
values (`mapM_eq_some_iff`, `mapM_perm`), and a loop that reads its elements may
as well read them all first (`foldlM_read`).
-/

namespace Traverse

variable {α β γ δ σ : Type*} {f : α → Option β}

theorem mapM_cons (f : α → Option β) (x : α) (xs : List α) :
    (x :: xs).mapM f = (f x).bind fun y => (xs.mapM f).map (y :: ·) := by
  rw [List.mapM_cons]
  cases f x with
  | none => rfl
  | some y => cases xs.mapM f <;> rfl

theorem mapM_append (f : α → Option β) (xs ys : List α) :
    (xs ++ ys).mapM f = (xs.mapM f).bind fun as => (ys.mapM f).map (as ++ ·) := by
  rw [List.mapM_append]
  cases xs.mapM f with
  | none => rfl
  | some as => cases ys.mapM f <;> rfl

theorem mapM_eq_some_iff {xs : List α} {ys : List β} :
    xs.mapM f = some ys ↔ List.Forall₂ (fun x y => f x = some y) xs ys := by
  induction xs generalizing ys with
  | nil =>
    rw [List.forall₂_nil_left_iff]
    exact Option.some_inj.trans eq_comm
  | cons x xs ih =>
    rw [mapM_cons, List.forall₂_cons_left_iff]
    simp only [Option.bind_eq_some_iff, Option.map_eq_some_iff, ih]
    constructor
    · rintro ⟨y, hy, zs, hzs, rfl⟩
      exact ⟨y, zs, hy, hzs, rfl⟩
    · rintro ⟨y, zs, hy, hzs, rfl⟩
      exact ⟨y, hy, zs, hzs, rfl⟩

theorem length_of_mapM {xs : List α} {ys : List β} (h : xs.mapM f = some ys) :
    ys.length = xs.length :=
  (mapM_eq_some_iff.1 h).length_eq.symm

/-- What follows for the second list. -/
theorem forall_right {R : α → β → Prop} {P : β → Prop} {xs : List α} {ys : List β}
    (h : List.Forall₂ R xs ys) (hP : ∀ x y, R x y → P y) : ∀ y ∈ ys, P y := by
  induction h with
  | nil => exact fun _ h => absurd h List.not_mem_nil
  | cons hxy _ ih => exact List.forall_mem_cons.2 ⟨hP _ _ hxy, ih⟩

/-- The values, in another order. -/
theorem mapM_perm {xs xs' : List α} {ys : List β} (hperm : xs.Perm xs')
    (h : xs.mapM f = some ys) : ∃ ys', xs'.mapM f = some ys' ∧ ys.Perm ys' := by
  obtain ⟨ys', hys', hperm'⟩ := List.perm_comp_forall₂ hperm.symm (mapM_eq_some_iff.1 h)
  exact ⟨ys', mapM_eq_some_iff.2 hys', hperm'.symm⟩

/-- The values of related elements. -/
theorem mapM_related {R : α → γ → Prop} {S : β → δ → Prop} {f' : γ → Option δ}
    (hf : ∀ x x' y, R x x' → f x = some y → ∃ y', f' x' = some y' ∧ S y y') {xs : List α}
    {xs' : List γ} {ys : List β} (hxs : List.Forall₂ R xs xs') (h : xs.mapM f = some ys) :
    ∃ ys', xs'.mapM f' = some ys' ∧ List.Forall₂ S ys ys' := by
  induction hxs generalizing ys with
  | nil =>
    obtain rfl := Option.some.inj h
    exact ⟨[], rfl, .nil⟩
  | cons hx _ ih =>
    rw [mapM_cons] at h
    obtain ⟨y, hy, h⟩ := Option.bind_eq_some_iff.1 h
    obtain ⟨ys, hys, rfl⟩ := Option.map_eq_some_iff.1 h
    obtain ⟨y', hy', hS⟩ := hf _ _ _ hx hy
    obtain ⟨ys', hys', hSs⟩ := ih hys
    refine ⟨y' :: ys', ?_, .cons hS hSs⟩
    rw [mapM_cons, hy', hys']
    rfl

/-- A loop whose rounds read something first: it may all be read before. -/
theorem foldlM_read {read : α → Option β} {apply : β → σ → Option σ} {step : σ → α → Option σ}
    (hstep : ∀ x s, step s x = (read x).bind fun d => apply d s) (xs : List α) (s : σ) :
    xs.foldlM step s = (xs.mapM read).bind fun ds => ds.foldlM (fun s d => apply d s) s := by
  induction xs generalizing s with
  | nil => rfl
  | cons x xs ih =>
    rw [List.foldlM_cons, hstep, mapM_cons]
    cases read x with
    | none => rfl
    | some d =>
      change (apply d s).bind (fun s => xs.foldlM step s) = _
      dsimp only [Option.bind_some]
      rw [Option.bind_map, show (fun s => xs.foldlM step s) = fun s => _ from funext ih]
      exact Option.bind_comm ..

end Traverse
