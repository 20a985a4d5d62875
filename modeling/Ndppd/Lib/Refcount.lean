import Mathlib.Algebra.Order.Group.Nat
import Mathlib.Data.List.Nodup
import Mathlib.Logic.Function.Basic

/-!
# Reference counts

Objects in a list, each with a counter. The counters are *exact* for a number of
references to each object (`Exact`) if they are these numbers, and the list
holds the objects that are referred to, once each. Taking, making and dropping a
reference keep this (`Exact.take`, `Exact.alloc`, `Exact.drop`); dropping one
frees the object when it was the last one (`Exact.drop_frees_iff`).

The references are those of some holders, each of which has a pointer to at most
one object (`refsOf`); `refsOf_change` says how their numbers change when one
pointer does.
-/

namespace Refcount

variable {ι : Type*} [DecidableEq ι] {objs : List ι} {count : ι → ℤ} {refs : ι → ℕ} {x : ι}

/-- The counters are the numbers of references, and the list holds the objects
    with references. -/
structure Exact (objs : List ι) (count : ι → ℤ) (refs : ι → ℕ) : Prop where
  nodup : objs.Nodup
  mem_iff : ∀ x, x ∈ objs ↔ 0 < refs x
  count_eq : ∀ x ∈ objs, count x = refs x

namespace Exact

omit [DecidableEq ι] in
theorem empty (count : ι → ℤ) : Exact [] count fun _ => 0 :=
  ⟨List.nodup_nil, by simp, by simp⟩

/-- One more reference to an object of the list. -/
theorem take (h : Exact objs count refs) (hx : x ∈ objs) :
    Exact objs (Function.update count x (count x + 1)) (Function.update refs x (refs x + 1)) := by
  refine ⟨h.nodup, fun y => ?_, fun y hy => ?_⟩
  · by_cases hyx : y = x
    · subst hyx
      simpa using hx
    · rw [Function.update_of_ne hyx, h.mem_iff]
  · by_cases hyx : y = x
    · subst hyx
      rw [Function.update_self, Function.update_self, h.count_eq y hx]
      rfl
    · rw [Function.update_of_ne hyx, Function.update_of_ne hyx, h.count_eq y hy]

/-- The first reference to a new object. -/
theorem alloc (h : Exact objs count refs) (hx : x ∉ objs) :
    Exact (x :: objs) (Function.update count x 1) (Function.update refs x (refs x + 1)) := by
  have hzero : refs x = 0 := Nat.eq_zero_of_not_pos fun hpos => hx ((h.mem_iff x).2 hpos)
  refine ⟨List.nodup_cons.2 ⟨hx, h.nodup⟩, fun y => ?_, fun y hy => ?_⟩
  · by_cases hyx : y = x
    · subst hyx
      simp
    · rw [Function.update_of_ne hyx, List.mem_cons, or_iff_right hyx, h.mem_iff]
  · by_cases hyx : y = x
    · subst hyx
      simp [hzero]
    · rw [Function.update_of_ne hyx, Function.update_of_ne hyx]
      exact h.count_eq y ((List.mem_cons.1 hy).resolve_left hyx)

omit [DecidableEq ι] in
/-- The object is freed when its last reference is dropped. -/
theorem drop_frees_iff (h : Exact objs count refs) (hx : 0 < refs x) :
    ¬count x - 1 > 0 ↔ refs x = 1 := by
  rw [h.count_eq x ((h.mem_iff x).2 hx)]
  omega

/-- One reference less; an object without references leaves the list. -/
theorem drop (h : Exact objs count refs) (hx : 0 < refs x) :
    Exact (if count x - 1 > 0 then objs else objs.erase x)
      (Function.update count x (count x - 1)) (Function.update refs x (refs x - 1)) := by
  have hmem : x ∈ objs := (h.mem_iff x).2 hx
  have hother : ∀ y, y ≠ x → (y ∈ (if count x - 1 > 0 then objs else objs.erase x) ↔ y ∈ objs) := by
    intro y hyx
    split_ifs
    · rfl
    · exact List.mem_erase_of_ne hyx
  have hself : x ∈ (if count x - 1 > 0 then objs else objs.erase x) ↔ 0 < refs x - 1 := by
    have hfree := h.drop_frees_iff hx
    split_ifs with hpos
    · exact iff_of_true hmem (by omega)
    · exact iff_of_false h.nodup.not_mem_erase (by omega)
  refine ⟨?_, fun y => ?_, fun y hy => ?_⟩
  · split_ifs
    · exact h.nodup
    · exact h.nodup.erase x
  · by_cases hyx : y = x
    · subst hyx
      rw [Function.update_self, hself]
    · rw [Function.update_of_ne hyx, hother y hyx, h.mem_iff]
  · by_cases hyx : y = x
    · subst hyx
      rw [Function.update_self, Function.update_self, h.count_eq y hmem]
      omega
    · rw [Function.update_of_ne hyx, Function.update_of_ne hyx]
      exact h.count_eq y ((hother y hyx).1 hy)

end Exact

/-! ## Holders -/

section Holders

variable {κ : Type*} {l : List κ} {ptr ptr' : κ → Option ι} {k : κ}

/-- The number of holders in `l` whose pointer is to `x`. -/
def refsOf (l : List κ) (ptr : κ → Option ι) (x : ι) : ℕ := l.countP fun k => ptr k == some x

/-- The references when the pointer of one holder changes. -/
theorem refsOf_change (hl : l.Nodup) (hk : k ∈ l) (h : ∀ j, j ≠ k → ptr' j = ptr j) (x : ι) :
    refsOf l ptr' x + (ptr k == some x).toNat = refsOf l ptr x + (ptr' k == some x).toNat := by
  induction l with
  | nil => exact absurd hk List.not_mem_nil
  | cons j l ih =>
    obtain ⟨hj, hl⟩ := List.nodup_cons.1 hl
    rw [refsOf, refsOf, List.countP_cons, List.countP_cons]
    rcases List.mem_cons.1 hk with rfl | hk
    · have hrest : refsOf l ptr' x = refsOf l ptr x :=
        List.countP_congr fun i hi => by rw [h i fun hik => hj (hik ▸ hi)]
      rw [refsOf, refsOf] at hrest
      rw [hrest]
      cases ptr k == some x <;> cases ptr' k == some x <;> rfl
    · have hjk : j ≠ k := fun hjk => hj (hjk ▸ hk)
      have := ih hl hk
      rw [refsOf, refsOf] at this
      rw [h j hjk]
      omega

/-- A holder without a reference takes one. -/
theorem refsOf_take (hl : l.Nodup) (hk : k ∈ l) (h : ∀ j, j ≠ k → ptr' j = ptr j)
    (hnone : ptr k = none) (hsome : ptr' k = some x) :
    refsOf l ptr' = Function.update (refsOf l ptr) x (refsOf l ptr x + 1) := by
  funext y
  have hchange := refsOf_change hl hk h y
  rw [hnone, hsome] at hchange
  by_cases hyx : y = x
  · subst hyx
    rw [Function.update_self]
    simpa using hchange
  · rw [Function.update_of_ne hyx]
    have hne : (some x == some y) = false := beq_false_of_ne fun h => hyx (Option.some.inj h).symm
    rw [hne] at hchange
    exact hchange

theorem refsOf_pos_iff {l : List κ} {ptr : κ → Option ι} {x : ι} :
    0 < refsOf l ptr x ↔ ∃ k ∈ l, ptr k = some x := by
  rw [refsOf, List.countP_pos_iff]
  simp only [beq_iff_eq]

end Holders

end Refcount
