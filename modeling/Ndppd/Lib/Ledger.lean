import Mathlib.Data.List.Count
import Mathlib.Data.List.Perm.Subperm
import Mathlib.Logic.Function.Basic

/-!
# Ledgers

A history, the newest entry first, some entries of which are *inputs* and some
*outputs*, both with keys. It is *solvent* if at every point of it there have
been at least as many inputs as outputs of each key (`Solvent`). Then each output
can be matched with an input of the same key before it, no two of them with the
same input (`Solvent.exists_matching`).

Entries are numbered from the oldest one on, so that a number stays that of the
same entry as the history grows.
-/

namespace Ledger

variable {α κ : Type*} {out inp : α → Option κ} {l l' : List α}

/-- At every point of the history, the keys of the outputs are among those of the
    inputs, with their multiplicities. -/
inductive Solvent (out inp : α → Option κ) : List α → Prop
  | nil : Solvent out inp []
  | cons {x : α} {l : List α} : Solvent out inp l →
      ((x :: l).filterMap out).Subperm ((x :: l).filterMap inp) → Solvent out inp (x :: l)

namespace Solvent

theorem subperm (h : Solvent out inp l) : (l.filterMap out).Subperm (l.filterMap inp) := by
  cases h with
  | nil => exact List.Subperm.refl _
  | cons _ h => exact h

/-- There are at most as many outputs as inputs. -/
theorem length_le (h : Solvent out inp l) :
    (l.filterMap out).length ≤ (l.filterMap inp).length :=
  h.subperm.length_le

/-- An entry which is not an output. -/
theorem input (h : Solvent out inp l) {x : α} (hx : out x = none) : Solvent out inp (x :: l) := by
  refine .cons h ?_
  rw [List.filterMap_cons_none hx]
  exact h.subperm.trans ((List.sublist_cons_self x l).filterMap inp).subperm

/-- Outputs that are covered by the inputs before them. -/
theorem append (h : Solvent out inp l) (hinp : ∀ x ∈ l', inp x = none)
    (hout : ((l' ++ l).filterMap out).Subperm (l.filterMap inp)) : Solvent out inp (l' ++ l) := by
  induction l' with
  | nil => exact h
  | cons x l' ih =>
    rw [List.cons_append] at hout ⊢
    have hcover : ((l' ++ l).filterMap out).Subperm (l.filterMap inp) :=
      ((List.sublist_cons_self x (l' ++ l)).filterMap out).subperm.trans hout
    refine .cons (ih (fun y hy => hinp y (List.mem_cons_of_mem x hy)) hcover) ?_
    have hnone : (x :: (l' ++ l)).filterMap inp = l.filterMap inp := by
      rw [← List.cons_append, List.filterMap_append, List.filterMap_eq_nil_iff.2 hinp,
        List.nil_append]
    rw [hnone]
    exact hout

end Solvent

/-! ## Matchings -/

/-- The entry number `n`, the oldest one being number `0`. -/
def entry (l : List α) (n : ℕ) : Option α := l.reverse[n]?

theorem entry_cons_self (x : α) (l : List α) : entry (x :: l) l.length = some x := by
  simp [entry]

theorem entry_lt {n : ℕ} {x : α} (h : entry l n = some x) : n < l.length := by
  rw [← List.length_reverse]
  exact (List.getElem?_eq_some_iff.1 h).1

theorem entry_cons_of_lt {n : ℕ} (x : α) (h : n < l.length) : entry (x :: l) n = entry l n := by
  rw [entry, List.reverse_cons, List.getElem?_append_left (by rwa [List.length_reverse]), entry]

theorem entry_cons {n : ℕ} {x y : α} (h : entry (x :: l) n = some y) :
    (n = l.length ∧ y = x) ∨ (n < l.length ∧ entry l n = some y) := by
  rcases Nat.lt_or_eq_of_le (Nat.lt_succ_iff.1 (entry_lt h)) with hn | rfl
  · exact .inr ⟨hn, entry_cons_of_lt x hn ▸ h⟩
  · rw [entry_cons_self] at h
    exact .inl ⟨rfl, (Option.some.inj h).symm⟩

theorem mem_of_entry {n : ℕ} {x : α} (h : entry l n = some x) : x ∈ l :=
  List.mem_reverse.1 (List.mem_of_getElem? h)

theorem exists_entry {x : α} (h : x ∈ l) : ∃ n, entry l n = some x :=
  List.mem_iff_getElem?.1 (List.mem_reverse.2 h)

/-- Each output is matched with an input of the same key before it, and no two
    outputs with the same one. -/
structure Matching (out inp : α → Option κ) (l : List α) (φ : ℕ → ℕ) : Prop where
  input : ∀ n x k, entry l n = some x → out x = some k →
    φ n < n ∧ ∃ y, entry l (φ n) = some y ∧ inp y = some k
  injective : ∀ n n' x x', entry l n = some x → entry l n' = some x' → (out x).isSome →
    (out x').isSome → φ n = φ n' → n = n'

variable [DecidableEq κ]

/-- A matching, and the inputs that are left, by their keys. -/
structure Assignment (out inp : α → Option κ) (l : List α) (φ : ℕ → ℕ) (free : κ → List ℕ) :
    Prop extends Matching out inp l φ where
  nodup : ∀ k, (free k).Nodup
  free_input : ∀ k, ∀ j ∈ free k, ∃ y, entry l j = some y ∧ inp y = some k
  unused : ∀ k, ∀ j ∈ free k, ∀ n x, entry l n = some x → (out x).isSome → φ n ≠ j
  length_eq : ∀ k, (free k).length + (l.filterMap out).count k = (l.filterMap inp).count k

namespace Assignment

variable {φ : ℕ → ℕ} {free : κ → List ℕ} {x : α} {k : κ}

theorem nil (out inp : α → Option κ) : Assignment out inp [] id fun _ => [] where
  input n x k h := absurd h (by simp [entry])
  injective n n' x x' h := absurd h (by simp [entry])
  nodup _ := List.nodup_nil
  free_input k j h := absurd h List.not_mem_nil
  unused k j h := absurd h List.not_mem_nil
  length_eq _ := rfl

/-- An entry which is not an output leaves the matching as it is. -/
theorem matching_cons (h : Assignment out inp l φ free) (hx : out x = none) :
    Matching out inp (x :: l) φ := by
  have hold : ∀ n y, entry (x :: l) n = some y → (out y).isSome → entry l n = some y := by
    intro n y hy hout
    rcases entry_cons hy with ⟨-, rfl⟩ | ⟨-, hy⟩
    · rw [hx] at hout
      exact absurd hout (by simp)
    · exact hy
  constructor
  · intro n y k hy hk
    obtain ⟨hlt, z, hz, hzk⟩ := h.input n y k (hold n y hy (by simp [hk])) hk
    exact ⟨hlt, z, (entry_cons_of_lt x (entry_lt hz)).trans hz, hzk⟩
  · intro n n' y y' hy hy' hout hout'
    exact h.injective n n' y y' (hold n y hy hout) (hold n' y' hy' hout') hout hout'

/-- An entry which is neither an input nor an output. -/
theorem other (h : Assignment out inp l φ free) (hout : out x = none) (hinp : inp x = none) :
    Assignment out inp (x :: l) φ free where
  toMatching := h.matching_cons hout
  nodup := h.nodup
  free_input k j hj := by
    obtain ⟨y, hy, hk⟩ := h.free_input k j hj
    exact ⟨y, (entry_cons_of_lt x (entry_lt hy)).trans hy, hk⟩
  unused k j hj n y hy hsome := by
    rcases entry_cons hy with ⟨-, rfl⟩ | ⟨-, hy⟩
    · rw [hout] at hsome
      exact absurd hsome (by simp)
    · exact h.unused k j hj n y hy hsome
  length_eq k := by
    rw [List.filterMap_cons_none hout, List.filterMap_cons_none hinp]
    exact h.length_eq k

/-- A new input is free. -/
theorem newInput (h : Assignment out inp l φ free) (hout : out x = none) (hinp : inp x = some k) :
    Assignment out inp (x :: l) φ (Function.update free k (l.length :: free k)) := by
  have hlt : ∀ k, ∀ j ∈ free k, j < l.length := fun k j hj =>
    let ⟨_, hy, _⟩ := h.free_input k j hj
    entry_lt hy
  have hmem : ∀ k', ∀ j ∈ Function.update free k (l.length :: free k) k',
      (j = l.length ∧ k' = k) ∨ j ∈ free k' := by
    intro k' j hj
    by_cases hk : k' = k
    · subst hk
      rw [Function.update_self, List.mem_cons] at hj
      exact hj.imp (fun hj => ⟨hj, rfl⟩) id
    · rw [Function.update_of_ne hk] at hj
      exact .inr hj
  refine ⟨h.matching_cons hout, fun k' => ?_, fun k' j hj => ?_, fun k' j hj n y hy hsome => ?_,
    fun k' => ?_⟩
  · by_cases hk : k' = k
    · subst hk
      rw [Function.update_self]
      exact List.nodup_cons.2 ⟨fun hj => Nat.lt_irrefl _ (hlt k' _ hj), h.nodup k'⟩
    · rw [Function.update_of_ne hk]
      exact h.nodup k'
  · rcases hmem k' j hj with ⟨rfl, rfl⟩ | hj
    · exact ⟨x, entry_cons_self x l, hinp⟩
    · obtain ⟨y, hy, hk⟩ := h.free_input k' j hj
      exact ⟨y, (entry_cons_of_lt x (entry_lt hy)).trans hy, hk⟩
  · rcases entry_cons hy with ⟨-, rfl⟩ | ⟨hn, hy⟩
    · rw [hout] at hsome
      exact absurd hsome (by simp)
    · rcases hmem k' j hj with ⟨rfl, -⟩ | hj
      · -- The outputs so far were matched before the new input.
        obtain ⟨k'', hk''⟩ := Option.isSome_iff_exists.1 hsome
        exact Nat.ne_of_lt (Nat.lt_trans (h.input n y k'' hy hk'').1 hn)
      · exact h.unused k' j hj n y hy hsome
  · rw [List.filterMap_cons_none hout, List.filterMap_cons_some hinp]
    by_cases hk : k' = k
    · subst hk
      rw [Function.update_self, List.length_cons, List.count_cons_self, ← h.length_eq k']
      omega
    · rw [Function.update_of_ne hk, List.count_cons_of_ne (Ne.symm hk)]
      exact h.length_eq k'

/-- A new output takes one of the inputs that are free. -/
theorem newOutput {j : ℕ} {js : List ℕ} (h : Assignment out inp l φ free) (hout : out x = some k)
    (hinp : inp x = none) (hfree : free k = j :: js) :
    Assignment out inp (x :: l) (Function.update φ l.length j) (Function.update free k js) := by
  obtain ⟨y₀, hy₀, hk₀⟩ := h.free_input k j (hfree ▸ List.mem_cons_self)
  have hnodup := h.nodup k
  rw [hfree, List.nodup_cons] at hnodup
  have hmem : ∀ k', ∀ i ∈ Function.update free k js k', i ∈ free k' ∧ i ≠ j := by
    intro k' i hi
    by_cases hk : k' = k
    · subst hk
      rw [Function.update_self] at hi
      rw [hfree]
      exact ⟨List.mem_cons_of_mem j hi, fun hij => hnodup.1 (hij ▸ hi)⟩
    · rw [Function.update_of_ne hk] at hi
      refine ⟨hi, fun hij => hk ?_⟩
      -- An input has one key.
      obtain ⟨y, hy, hyk⟩ := h.free_input k' i hi
      rw [hij, hy₀] at hy
      rw [← Option.some.inj hy, hk₀] at hyk
      exact (Option.some.inj hyk).symm
  have hnew : ∀ n, n < l.length → Function.update φ l.length j n = φ n := fun n hn =>
    Function.update_of_ne (Nat.ne_of_lt hn) ..
  refine ⟨⟨fun n y k' hy hk' => ?_, fun n n' y y' hy hy' hs hs' heq => ?_⟩, fun k' => ?_,
    fun k' i hi => ?_, fun k' i hi n y hy hsome => ?_, fun k' => ?_⟩
  · rcases entry_cons hy with ⟨rfl, rfl⟩ | ⟨hn, hy⟩
    · rw [Function.update_self]
      obtain rfl : k = k' := Option.some.inj (hout.symm.trans hk')
      exact ⟨entry_lt hy₀, y₀, (entry_cons_of_lt y (entry_lt hy₀)).trans hy₀, hk₀⟩
    · rw [hnew n hn]
      obtain ⟨hlt, z, hz, hzk⟩ := h.input n y k' hy hk'
      exact ⟨hlt, z, (entry_cons_of_lt x (entry_lt hz)).trans hz, hzk⟩
  · have hj : j ∈ free k := hfree ▸ List.mem_cons_self
    rcases entry_cons hy with ⟨rfl, -⟩ | ⟨hn, hy⟩
    · rcases entry_cons hy' with ⟨rfl, -⟩ | ⟨hn', hy'⟩
      · rfl
      · rw [Function.update_self, hnew n' hn'] at heq
        exact absurd heq.symm (h.unused k j hj n' y' hy' hs')
    · rcases entry_cons hy' with ⟨rfl, -⟩ | ⟨hn', hy'⟩
      · rw [Function.update_self, hnew n hn] at heq
        exact absurd heq (h.unused k j hj n y hy hs)
      · rw [hnew n hn, hnew n' hn'] at heq
        exact h.injective n n' y y' hy hy' hs hs' heq
  · by_cases hk : k' = k
    · subst hk
      rw [Function.update_self]
      exact hnodup.2
    · rw [Function.update_of_ne hk]
      exact h.nodup k'
  · obtain ⟨y, hy, hk⟩ := h.free_input k' i (hmem k' i hi).1
    exact ⟨y, (entry_cons_of_lt x (entry_lt hy)).trans hy, hk⟩
  · rcases entry_cons hy with ⟨rfl, -⟩ | ⟨hn, hy⟩
    · rw [Function.update_self]
      exact (hmem k' i hi).2.symm
    · rw [hnew n hn]
      exact h.unused k' i (hmem k' i hi).1 n y hy hsome
  · have hlen := h.length_eq k'
    rw [List.filterMap_cons_some hout, List.filterMap_cons_none hinp]
    by_cases hk : k' = k
    · subst hk
      rw [hfree, List.length_cons] at hlen
      rw [Function.update_self, List.count_cons_self]
      omega
    · rw [Function.update_of_ne hk, List.count_cons_of_ne (Ne.symm hk)]
      exact hlen

end Assignment

/-- In a solvent history, each output has an input before it of its own. -/
theorem Solvent.exists_matching (hdisj : ∀ x, out x = none ∨ inp x = none)
    (h : Solvent out inp l) : ∃ φ, Matching out inp l φ := by
  have hassign : ∃ φ free, Assignment out inp l φ free := by
    induction h with
    | nil => exact ⟨_, _, .nil out inp⟩
    | @cons x l hl hsub ih =>
      obtain ⟨φ, free, ha⟩ := ih
      cases hout : out x with
      | none =>
        cases hinp : inp x with
        | none => exact ⟨_, _, ha.other hout hinp⟩
        | some k => exact ⟨_, _, ha.newInput hout hinp⟩
      | some k =>
        have hinp : inp x = none := (hdisj x).resolve_left (by simp [hout])
        -- There is an input that is free, as there are more inputs than outputs so far.
        have hcount := hsub.count_le k
        rw [List.filterMap_cons_some hout, List.filterMap_cons_none hinp,
          List.count_cons_self, ← ha.length_eq k] at hcount
        cases hfree : free k with
        | nil =>
          rw [hfree, List.length_nil] at hcount
          omega
        | cons j js => exact ⟨_, _, ha.newOutput hout hinp hfree⟩
  obtain ⟨φ, free, ha⟩ := hassign
  exact ⟨φ, ha.toMatching⟩

end Ledger
