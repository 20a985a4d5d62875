import Mathlib.Data.Nat.ModEq

/-!
# Ones' complement sums

Addition with an end-around carry, of numbers up to `m`: a sum is that of the
integers modulo `m`, and since it is positive as soon as a term is, it is the
only number from 1 to `m` that is congruent to it. So two sums of which a term is
positive are equal iff they are congruent (`sum_eq_iff`).
-/

namespace OnesComplement

variable {m a b s t : ℕ} {ws vs : List ℕ}

/-- Addition with an end-around carry. -/
def add (m a b : ℕ) : ℕ := if a + b > m then a + b - m else a + b

/-- The sum of two numbers of the width has the width. -/
theorem add_le (ha : a ≤ m) (hb : b ≤ m) : add m a b ≤ m := by
  rw [add]
  split_ifs with h <;> omega

/-- A sum is `0` only if both numbers are: the other zero, `m`, is not. -/
theorem add_pos (h : 0 < a ∨ 0 < b) : 0 < add m a b := by
  rw [add]
  split_ifs with hm <;> omega

/-- The end-around carry is arithmetic modulo `m`. -/
theorem add_modEq (m a b : ℕ) : add m a b ≡ a + b [MOD m] := by
  rw [add]
  split_ifs with h
  · have hback : a + b - m + m = a + b := by omega
    have hself : a + b - m + m ≡ a + b - m [MOD m] := Nat.add_mod_right ..
    rw [hback] at hself
    exact hself.symm
  · rfl

/-- Adds some terms to `s`. -/
def sum (m s : ℕ) (ws : List ℕ) : ℕ := ws.foldl (add m) s

theorem sum_append : sum m s (ws ++ vs) = sum m (sum m s ws) vs := List.foldl_append ..

/-- A sum of numbers of the width has the width. -/
theorem sum_le (hs : s ≤ m) (hws : ∀ w ∈ ws, w ≤ m) : sum m s ws ≤ m := by
  induction ws generalizing s with
  | nil => exact hs
  | cons w ws ih =>
    exact ih (add_le hs (hws w List.mem_cons_self)) fun v hv => hws v (List.mem_cons_of_mem _ hv)

theorem sum_pos (h : 0 < s ∨ ∃ w ∈ ws, 0 < w) : 0 < sum m s ws := by
  induction ws generalizing s with
  | nil => simpa [sum] using h
  | cons w ws ih =>
    refine ih ?_
    rcases h with hs | ⟨v, hv, hpos⟩
    · exact .inl (add_pos (.inl hs))
    · rcases List.mem_cons.1 hv with rfl | hv
      · exact .inl (add_pos (.inr hpos))
      · exact .inr ⟨v, hv, hpos⟩

/-- A sum is that of the numbers, modulo `m`. -/
theorem sum_modEq (m s : ℕ) (ws : List ℕ) : sum m s ws ≡ s + ws.sum [MOD m] := by
  induction ws generalizing s with
  | nil => rfl
  | cons w ws ih =>
    rw [List.sum_cons, ← Nat.add_assoc]
    exact (ih (add m s w)).trans ((add_modEq m s w).add_right _)

/-- Two numbers from 1 to `m` are equal if they are congruent. -/
theorem eq_of_modEq (ha : 0 < a) (ham : a ≤ m) (hb : 0 < b) (hbm : b ≤ m) (h : a ≡ b [MOD m]) :
    a = b := by
  have hpred : a - 1 ≡ b - 1 [MOD m] := by
    refine Nat.ModEq.add_right_cancel' 1 ?_
    rwa [Nat.sub_add_cancel ha, Nat.sub_add_cancel hb]
  have heq := hpred.eq_of_lt_of_lt (by omega) (by omega)
  omega

/-- Two sums, of which a term is positive. -/
theorem sum_eq_iff (hs : s ≤ m) (hws : ∀ w ∈ ws, w ≤ m) (hspos : 0 < s ∨ ∃ w ∈ ws, 0 < w)
    (ht : t ≤ m) (hvs : ∀ v ∈ vs, v ≤ m) (htpos : 0 < t ∨ ∃ v ∈ vs, 0 < v) :
    sum m s ws = sum m t vs ↔ s + ws.sum ≡ t + vs.sum [MOD m] := by
  constructor
  · intro h
    exact (sum_modEq m s ws).symm.trans (h ▸ sum_modEq m t vs)
  · intro h
    exact eq_of_modEq (sum_pos hspos) (sum_le hs hws) (sum_pos htpos) (sum_le ht hvs)
      ((sum_modEq m s ws).trans (h.trans (sum_modEq m t vs).symm))

end OnesComplement
