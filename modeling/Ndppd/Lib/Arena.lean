import Mathlib.Data.List.TakeWhile
import Ndppd.Lib.Intrusive

/-!
# Objects in a list

Objects that are allocated one after the other, and linked in one list. The operations
are loops along the pointers, which remember the object before the one they look at;
they do what the corresponding functions on lists do to the objects of the list
(`Arena.contents`):

* `Arena.find` is `List.find?`;
* `Arena.prepend` is `List.cons`;
* `Arena.insert`, which puts an object before the first one satisfying a test, splits
  the list there (`Arena.Holds.insert`);
* `Arena.erase`, which takes out the first object satisfying a test, is `List.eraseP`.
-/

namespace Intrusive

/-- The objects, their pointers, and the object that will be allocated next. -/
structure Arena (α : Type*) where
  obj : ℕ → α
  links : Single ℕ
  fresh : ℕ

namespace Arena

variable {α : Type*} {t : Arena α} {l : List ℕ}

/-- No objects; `a` is what memory holds before they are written. -/
def empty (a : α) : Arena α where
  obj _ := a
  links := { head := none, next := fun _ => none }
  fresh := 0

/-- The first object that satisfies `p`. The objects in the list are allocated, so
    there are at most `fresh` rounds. -/
def find (p : α → Bool) (t : Arena α) : Option α :=
  (search t.links.next (fun x => p (t.obj x)) t.fresh t.links.head).map t.obj

/-- Allocates an object and puts it in front. -/
def prepend (a : α) (t : Arena α) : Arena α where
  obj := Function.update t.obj t.fresh a
  links := t.links.insertAfter none t.fresh
  fresh := t.fresh + 1

/-- Allocates an object and puts it before the first one that satisfies `p`. -/
def insert (p : α → Bool) (a : α) (t : Arena α) : Arena α :=
  let (prev, _) := seek t.links.next (fun x => p (t.obj x)) t.fresh none t.links.head
  { obj := Function.update t.obj t.fresh a
    links := t.links.insertAfter prev t.fresh
    fresh := t.fresh + 1 }

/-- Takes out the first object that satisfies `p`. -/
def erase (p : α → Bool) (t : Arena α) : Arena α :=
  match seek t.links.next (fun x => p (t.obj x)) t.fresh none t.links.head with
  | (_, none) => t
  | (prev, some x) => { t with links := t.links.removeAfter prev x }

/-- The list visits the objects `l`, which are allocated. -/
structure Holds (t : Arena α) (l : List ℕ) : Prop where
  links : t.links.Holds l
  lt_fresh : ∀ x ∈ l, x < t.fresh

/-- What the objects `l` are. -/
def contents (t : Arena α) (l : List ℕ) : List α := l.map t.obj

theorem holds_empty (a : α) : (empty a).Holds [] := ⟨rfl, by simp⟩

theorem Holds.length_le (h : t.Holds l) : l.length ≤ t.fresh :=
  length_le_of_lt (Chain.nodup h.links) h.lt_fresh

theorem Holds.find_eq (h : t.Holds l) (p : α → Bool) : t.find p = (t.contents l).find? p := by
  rw [find, Chain.search_eq h.links _ h.length_le, contents, List.find?_map]
  rfl

theorem Holds.seek_eq (h : t.Holds l) (p : ℕ → Bool) :
    seek t.links.next p t.fresh none t.links.head =
      ((l.takeWhile fun x => !p x).getLast?, (l.dropWhile fun x => !p x).head?) := by
  rw [Chain.seek_eq h.links p h.length_le, Option.or_none]

/-- A new object, between two parts of the list. -/
theorem Holds.insertAfter {l₁ l₂ : List ℕ} (h : t.Holds (l₁ ++ l₂)) (a : α) :
    let t' : Arena α :=
      { obj := Function.update t.obj t.fresh a
        links := t.links.insertAfter l₁.getLast? t.fresh
        fresh := t.fresh + 1 }
    t'.Holds (l₁ ++ t.fresh :: l₂) ∧
      t'.contents (l₁ ++ t.fresh :: l₂) = t.contents l₁ ++ a :: t.contents l₂ := by
  have hold : ∀ l' ⊆ l₁ ++ l₂, l'.map (Function.update t.obj t.fresh a) = l'.map t.obj :=
    fun l' hl' => List.map_congr_left fun x hx =>
      Function.update_of_ne (h.lt_fresh x (hl' hx)).ne ..
  refine ⟨⟨h.links.insertAfter fun hmem => (h.lt_fresh _ hmem).false, fun x hx => ?_⟩, ?_⟩
  · rcases List.mem_append.1 hx with hx | hx
    · exact (h.lt_fresh x (List.mem_append_left _ hx)).trans (Nat.lt_succ_self _)
    · rcases List.mem_cons.1 hx with rfl | hx
      · exact Nat.lt_succ_self _
      · exact (h.lt_fresh x (List.mem_append_right _ hx)).trans (Nat.lt_succ_self _)
  · simp only [contents, List.map_append, List.map_cons, Function.update_self]
    rw [hold l₁ (List.subset_append_left ..), hold l₂ (List.subset_append_right ..)]

theorem Holds.prepend (h : t.Holds l) (a : α) :
    ∃ l', (t.prepend a).Holds l' ∧ (t.prepend a).contents l' = a :: t.contents l := by
  have hnil : t.Holds ([] ++ l) := h
  exact ⟨_, hnil.insertAfter a⟩

theorem Holds.insert (h : t.Holds l) (p : α → Bool) (a : α) :
    ∃ l', (t.insert p a).Holds l' ∧ (t.insert p a).contents l' =
      ((t.contents l).takeWhile fun b => !p b) ++ a :: (t.contents l).dropWhile fun b => !p b := by
  have hsplit : t.Holds ((l.takeWhile fun x => !p (t.obj x)) ++
      l.dropWhile fun x => !p (t.obj x)) := by
    rw [List.takeWhile_append_dropWhile]
    exact h
  rw [Arena.insert, h.seek_eq]
  refine ⟨_, (hsplit.insertAfter a).1, (hsplit.insertAfter a).2.trans ?_⟩
  rw [contents, contents, contents, List.takeWhile_map, List.dropWhile_map]
  rfl

theorem Holds.erase (h : t.Holds l) (p : α → Bool) :
    ∃ l', (t.erase p).Holds l' ∧ (t.erase p).contents l' = (t.contents l).eraseP p := by
  have hnot : ∀ x ∈ l.takeWhile fun x => !p (t.obj x), p (t.obj x) = false := fun x hx => by
    simpa using List.mem_takeWhile_imp hx
  have hsplit := (List.takeWhile_append_dropWhile (p := fun x => !p (t.obj x)) (l := l)).symm
  rw [Arena.erase, h.seek_eq]
  cases hdrop : l.dropWhile fun x => !p (t.obj x) with
  | nil =>
    -- The loop ends without a match.
    rw [hdrop, List.append_nil] at hsplit
    refine ⟨l, h, (List.eraseP_of_forall_not fun a ha => ?_).symm⟩
    obtain ⟨x, hx, rfl⟩ := List.mem_map.1 ha
    exact Bool.eq_false_iff.1 (hnot x (hsplit ▸ hx))
  | cons x l₂ =>
    have hx : p (t.obj x) = true := by
      have hhead := List.head?_dropWhile_not (fun x => !p (t.obj x)) l
      rw [hdrop] at hhead
      simpa using hhead
    rw [hdrop] at hsplit
    generalize l.takeWhile (fun x => !p (t.obj x)) = l₁ at hnot hsplit
    subst hsplit
    refine ⟨l₁ ++ l₂, ⟨h.links.removeAfter, fun y hy => h.lt_fresh y ?_⟩, ?_⟩
    · simp only [List.mem_append, List.mem_cons] at hy ⊢
      tauto
    · change t.contents (l₁ ++ l₂) = (t.contents (l₁ ++ x :: l₂)).eraseP p
      rw [contents, contents, List.map_append, List.map_append, List.map_cons,
        List.eraseP_append_right, List.eraseP_cons_of_pos hx]
      intro a ha
      obtain ⟨y, hy, rfl⟩ := List.mem_map.1 ha
      exact Bool.eq_false_iff.1 (hnot y hy)

end Arena

end Intrusive
