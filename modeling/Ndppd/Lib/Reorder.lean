import Mathlib.Data.List.Nodup
import Mathlib.Data.List.Pairwise

/-!
# Loops in another order

A loop over distinct elements, whose rounds commute up to a relation, reaches
related states in any order (`foldl_reorder`). So does a loop that may stop, if
the rounds of its elements commute (`foldlM_reorder`).
-/

namespace Reorder

variable {σ ι : Type*} {R : σ → σ → Prop} {op op' : σ → ι → σ}

/-- Two loops over the same elements, whose rounds keep the relation. -/
theorem foldl_congr (hop : ∀ s t i, R s t → R (op s i) (op' t i)) {s t : σ} (h : R s t)
    (l : List ι) : R (l.foldl op s) (l.foldl op' t) := by
  induction l generalizing s t with
  | nil => exact h
  | cons i l ih => exact ih (hop s t i h)

/-- A loop in another order. -/
theorem foldl_reorder (hrefl : ∀ s, R s s) (htrans : ∀ s t u, R s t → R t u → R s u)
    (hop : ∀ s t i, R s t → R (op s i) (op t i))
    (hswap : ∀ s i j, i ≠ j → R (op (op s i) j) (op (op s j) i)) {l l' : List ι}
    (hperm : l.Perm l') (hl : l.Nodup) (s : σ) : R (l.foldl op s) (l'.foldl op s) := by
  induction hperm generalizing s with
  | nil => exact hrefl s
  | cons i _ ih => exact ih (List.nodup_cons.1 hl).2 (op s i)
  | swap i j l =>
    have hne : j ≠ i := fun h => (List.nodup_cons.1 hl).1 (h ▸ List.mem_cons_self)
    exact foldl_congr hop (hswap s j i hne) l
  | trans hperm _ ih ih' => exact htrans _ _ _ (ih hl s) (ih' (hperm.nodup hl) s)

/-- A loop over elements with different keys, whose rounds commute then. -/
theorem foldl_reorder_keys {κ : Type*} {key : ι → κ}
    (hcomm : ∀ i j, key i ≠ key j → ∀ s, op (op s i) j = op (op s j) i) {l l' : List ι}
    (hperm : l.Perm l') (hkeys : (l.map key).Nodup) (s : σ) : l.foldl op s = l'.foldl op s := by
  let R : ι → ι → Prop := fun i j => ∀ s, op (op s i) j = op (op s j) i
  have hsymm : Std.Symm R := ⟨fun _ _ h s => (h s).symm⟩
  have hpair : l.Pairwise R := (List.pairwise_map.1 hkeys).imp fun hne => hcomm _ _ hne
  refine hperm.foldl_eq' (fun i hi j hj s => ?_) s
  exact hpair.forall_of_forall (fun _ _ _ => rfl) hi hj s

/-- A loop that may stop, in another order. -/
theorem foldlM_reorder {f : σ → ι → Option σ} {l l' : List ι} (hperm : l.Perm l')
    (hswap : l.Pairwise fun i j => ∀ s, (f s i).bind (f · j) = (f s j).bind (f · i)) (s : σ) :
    l.foldlM f s = l'.foldlM f s := by
  induction hperm generalizing s with
  | nil => rfl
  | cons i _ ih =>
    rw [List.foldlM_cons, List.foldlM_cons]
    exact congrArg _ (funext (ih (List.pairwise_cons.1 hswap).2))
  | swap i j l =>
    have hij := (List.pairwise_cons.1 hswap).1 i List.mem_cons_self s
    have hassoc : ∀ a b, (a :: b :: l).foldlM f s =
        ((f s a).bind (f · b)).bind fun s => l.foldlM f s := fun a b => by
      rw [List.foldlM_cons, Option.bind_assoc]
      rfl
    rw [hassoc, hassoc, hij]
  | trans hperm _ ih ih' =>
    have hsymm : ∀ {i j : ι}, (∀ s, (f s i).bind (f · j) = (f s j).bind (f · i)) →
        ∀ s, (f s j).bind (f · i) = (f s i).bind (f · j) := fun h s => (h s).symm
    exact (ih hswap s).trans (ih' (hperm.pairwise hswap hsymm) s)

end Reorder
