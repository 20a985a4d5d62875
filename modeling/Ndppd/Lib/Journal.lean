import Mathlib.Logic.Function.Basic

/-!
# Journals

A map that is changed by the entries of a journal, the newest entry first: an
entry writes one key, or nothing (`replay`). If all writes of a key agree, its
value is the old one or theirs (`replay_eq_or`), and it is theirs if there is any
(`replay_of_mem`).
-/

namespace Journal

variable {ε κ σ : Type*} [DecidableEq κ] {write : ε → Option (κ × σ)} {l : List ε} {t : κ → σ}
  {k : κ} {v : σ}

/-- The map after the entries of the journal. -/
def replay (write : ε → Option (κ × σ)) (l : List ε) (t : κ → σ) : κ → σ :=
  l.foldr (fun x t => (write x).elim t fun kv => Function.update t kv.1 kv.2) t

/-- An entry that does not write the key. -/
theorem replay_cons_of_ne {x : ε} (h : ∀ v, write x ≠ some (k, v)) :
    replay write (x :: l) t k = replay write l t k := by
  rw [replay, List.foldr_cons]
  cases hx : write x with
  | none => rfl
  | some kv =>
    obtain ⟨k', v⟩ := kv
    have hk : k ≠ k' := fun hk => h v (hk ▸ hx)
    exact Function.update_of_ne hk ..

/-- An entry that writes the key. -/
theorem replay_cons_self {x : ε} (h : write x = some (k, v)) :
    replay write (x :: l) t k = v := by
  rw [replay, List.foldr_cons, h]
  exact Function.update_self ..

/-- If all writes of a key agree, its value is the old one or theirs. -/
theorem replay_eq_or (h : ∀ x ∈ l, ∀ v', write x = some (k, v') → v' = v) :
    replay write l t k = t k ∨ replay write l t k = v := by
  induction l with
  | nil => exact .inl rfl
  | cons x l ih =>
    by_cases hx : ∃ v', write x = some (k, v')
    · obtain ⟨v', hx⟩ := hx
      rw [replay_cons_self hx]
      exact .inr (h x List.mem_cons_self v' hx)
    · rw [replay_cons_of_ne fun v' hv' => hx ⟨v', hv'⟩]
      exact ih fun y hy => h y (List.mem_cons_of_mem x hy)

/-- If all writes of a key agree, and there is one, its value is theirs. -/
theorem replay_of_mem (h : ∀ x ∈ l, ∀ v', write x = some (k, v') → v' = v) {x : ε} (hx : x ∈ l)
    (hv : write x = some (k, v)) : replay write l t k = v := by
  induction l with
  | nil => exact absurd hx List.not_mem_nil
  | cons y l ih =>
    by_cases hy : ∃ v', write y = some (k, v')
    · obtain ⟨v', hy⟩ := hy
      rw [replay_cons_self hy]
      exact h y List.mem_cons_self v' hy
    · rw [replay_cons_of_ne fun v' hv' => hy ⟨v', hv'⟩]
      rcases List.mem_cons.1 hx with rfl | hx
      · exact absurd ⟨v, hv⟩ hy
      · exact ih (fun z hz => h z (List.mem_cons_of_mem y hz)) hx

end Journal
