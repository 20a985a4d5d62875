import Mathlib.Data.List.Nodup
import Mathlib.Data.List.Perm.Subperm
import Mathlib.Logic.Function.Basic

/-!
# Intrusive linked lists

Singly linked lists threaded through the objects themselves: an object has a
field `next`, a list is a pointer `head` to its first object, and the lists of
a table share one field, so that an object is in at most one of them. The
field is a map from objects to pointers, as in a memory with one map per
field of a record.

* `Chain next h l`: following `next` from `h` visits the objects `l`, in order,
  and ends. A chain is determined by its start (`Chain.unique`) and visits no
  object twice (`Chain.nodup`).
* `search`, `foreach` and `foreachS` are loops along the pointers. They are
  given a bound on the number of rounds; on a chain no longer than the bound
  they are `List.find?` and `List.foldl` on the objects of the chain
  (`Chain.search_eq`, `foreach_eq_foldl`, `foreachS_eq_foldl`). The loop of
  `foreachS` reads the pointer to the next object before running its body,
  which may thus unlink the object it is run on.
* `Table.prepend` and `Table.delete` keep a table of lists well formed
  (`Table.Holds`): they put an object in front of a list and take it out of it,
  wherever it is in it.
* `seek` looks for an object and remembers the one before it, after which
  `Single.insertAfter` puts another one and `Single.removeAfter` takes it out
  (`Chain.insertAfter`, `Chain.removeAfter`).
-/

namespace Intrusive

variable {ι β σ : Type*}

/-! ## Chains -/

/-- Following `next` from `h` visits the objects `l`, in order, and ends. -/
def Chain (next : ι → Option ι) : Option ι → List ι → Prop
  | h, [] => h = none
  | h, x :: l => h = some x ∧ Chain next (next x) l

namespace Chain

variable {next next' : ι → Option ι} {h : Option ι} {l l' : List ι} {x : ι}

theorem head_eq (hl : Chain next h l) : h = l.head? := by
  cases l with
  | nil => exact hl
  | cons x l => exact hl.1

theorem unique (hl : Chain next h l) (hl' : Chain next h l') : l = l' := by
  induction l generalizing h l' with
  | nil =>
    cases l' with
    | nil => rfl
    | cons y l' => exact absurd (hl.symm.trans hl'.1) (by simp)
  | cons x l ih =>
    cases l' with
    | nil => exact absurd (hl'.symm.trans hl.1) (by simp)
    | cons y l' =>
      have hxy : x = y := Option.some.inj (hl.1.symm.trans hl'.1)
      rw [hxy, ih hl.2 (hxy ▸ hl'.2)]

theorem suffix {l₁ l₂ : List ι} (hl : Chain next h (l₁ ++ l₂)) : Chain next l₂.head? l₂ := by
  induction l₁ generalizing h with
  | nil => exact hl.head_eq ▸ hl
  | cons x l₁ ih => exact ih hl.2

/-- A chain ends, so it does not come back to an object. -/
theorem nodup (hl : Chain next h l) : l.Nodup := by
  induction l generalizing h with
  | nil => exact List.nodup_nil
  | cons x l ih =>
    refine List.nodup_cons.2 ⟨fun hx => ?_, ih hl.2⟩
    -- The chain from the second `x` would be the chain from the first one.
    obtain ⟨l₁, l₂, rfl⟩ := List.append_of_mem hx
    have h₁ : Chain next (some x) (x :: (l₁ ++ x :: l₂)) := ⟨rfl, hl.2⟩
    have h₂ : Chain next (some x) (x :: l₂) := hl.2.suffix
    have := congrArg List.length (unique h₁ h₂)
    simp only [List.length_cons, List.length_append] at this
    omega

theorem congr (hl : Chain next h l) (hn : ∀ x ∈ l, next' x = next x) : Chain next' h l := by
  induction l generalizing h with
  | nil => exact hl
  | cons x l ih =>
    refine ⟨hl.1, ?_⟩
    rw [hn x List.mem_cons_self]
    exact ih hl.2 fun y hy => hn y (List.mem_cons_of_mem _ hy)

/-- Nothing in a chain points to its first object. -/
theorem next_ne_head (hl : Chain next h (x :: l)) : ∀ y ∈ x :: l, next y ≠ some x := by
  intro y hy hyx
  obtain ⟨l₁, l₂, e⟩ := List.append_of_mem hy
  have hs : Chain next (some y) (y :: l₂) := (e ▸ hl).suffix
  have hx : x ∈ l₂ := by
    cases l₂ with
    | nil => exact absurd (hyx.symm.trans hs.2) (by simp)
    | cons z l₂ => rw [Option.some.inj (hyx.symm.trans hs.2.1)]; exact List.mem_cons_self
  have hnd : (l₁ ++ y :: l₂).Nodup := e ▸ hl.nodup
  cases l₁ with
  | nil => exact (List.nodup_cons.1 hnd).1 ((List.cons.inj e).1 ▸ hx)
  | cons z l₁ =>
    refine (List.nodup_cons.1 hnd).1 ?_
    rw [← (List.cons.inj e).1]
    exact List.mem_append_right _ (List.mem_cons_of_mem _ hx)

end Chain

/-- The objects below `n` bound the length of a list of them. -/
theorem length_le_of_lt {l : List ℕ} {n : ℕ} (hl : l.Nodup) (h : ∀ i ∈ l, i < n) :
    l.length ≤ n := by
  have := (hl.subperm fun i hi => List.mem_range.2 (h i hi)).length_le
  rwa [List.length_range] at this

/-- The objects visited from `h`, at most `n` of them. -/
def walk (next : ι → Option ι) : ℕ → Option ι → List ι
  | 0, _ => []
  | _ + 1, none => []
  | n + 1, some x => x :: walk next n (next x)

theorem Chain.walk_eq {next : ι → Option ι} {h : Option ι} {l : List ι} (hl : Chain next h l)
    {n : ℕ} (hn : l.length ≤ n) : walk next n h = l := by
  induction l generalizing h n with
  | nil => cases n <;> simp [walk, show h = none from hl]
  | cons x l ih =>
    obtain ⟨rfl, hl⟩ := hl
    cases n with
    | zero => simp at hn
    | succ n => rw [walk, ih hl (Nat.le_of_succ_le_succ hn)]

/-! ## Loops -/

/-- The first object satisfying `p`, in at most `n` rounds. -/
def search (next : ι → Option ι) (p : ι → Bool) : ℕ → Option ι → Option ι
  | 0, _ => none
  | _ + 1, none => none
  | n + 1, some x => if p x then some x else search next p n (next x)

theorem Chain.search_eq {next : ι → Option ι} {h : Option ι} {l : List ι} (hl : Chain next h l)
    (p : ι → Bool) {n : ℕ} (hn : l.length ≤ n) : search next p n h = l.find? p := by
  induction l generalizing h n with
  | nil => cases n <;> simp [search, show h = none from hl]
  | cons x l ih =>
    obtain ⟨rfl, hl⟩ := hl
    cases n with
    | zero => simp at hn
    | succ n =>
      rw [search, List.find?_cons, ih hl (Nat.le_of_succ_le_succ hn)]
      cases p x <;> rfl

theorem of_search_eq_some {next : ι → Option ι} {p : ι → Bool} {n : ℕ} {h : Option ι} {x : ι}
    (hx : search next p n h = some x) : p x = true := by
  induction n generalizing h with
  | zero => simp [search] at hx
  | succ n ih =>
    cases h with
    | none => simp [search] at hx
    | some y =>
      rw [search] at hx
      split_ifs at hx with hy
      · rwa [← Option.some.inj hx]
      · exact ih hx

/-- Runs `body` on the objects from `el` on: the pointer to the next object is
    read after the body. -/
def foreach (next : σ → ι → Option ι) (body : ι → σ → σ) : ℕ → Option ι → σ → σ
  | 0, _, s => s
  | _ + 1, none, s => s
  | n + 1, some el, s =>
    let s := body el s
    foreach next body n (next s el) s

/-- Runs `body` on the objects from `el` on: the pointer `tmp` to the next
    object is read before the body, which may unlink `el`. -/
def foreachS (next : σ → ι → Option ι) (body : ι → σ → σ) : ℕ → Option ι → Option ι → σ → σ
  | 0, _, _, s => s
  | _ + 1, none, _, s => s
  | n + 1, some el, tmp, s =>
    let s := body el s
    foreachS next body n tmp (tmp.bind (next s)) s

/-- What every round keeps is kept by the loop, whatever the links are. -/
theorem foreach_invariant {next : σ → ι → Option ι} {body : ι → σ → σ} {I : σ → Prop}
    (hbody : ∀ x s, I s → I (body x s)) (n : ℕ) (h : Option ι) {s : σ} (hs : I s) :
    I (foreach next body n h s) := by
  induction n generalizing h s with
  | zero => exact hs
  | succ n ih =>
    cases h with
    | none => exact hs
    | some x => exact ih _ (hbody x s hs)

theorem foreachS_invariant {next : σ → ι → Option ι} {body : ι → σ → σ} {I : σ → Prop}
    (hbody : ∀ x s, I s → I (body x s)) (n : ℕ) (h tmp : Option ι) {s : σ} (hs : I s) :
    I (foreachS next body n h tmp s) := by
  induction n generalizing h tmp s with
  | zero => exact hs
  | succ n ih =>
    cases h with
    | none => exact hs
    | some x => exact ih _ _ (hbody x s hs)

/-- A loop over more than the state, seen on the state. -/
theorem foreach_map {τ : Type*} (π : τ → σ) (next : σ → ι → Option ι) {body : ι → σ → σ}
    {body' : ι → τ → τ} (hbody : ∀ x t, π (body' x t) = body x (π t)) (n : ℕ) (h : Option ι)
    (t : τ) :
    π (foreach (fun t => next (π t)) body' n h t) = foreach next body n h (π t) := by
  induction n generalizing h t with
  | zero => rfl
  | succ n ih =>
    cases h with
    | none => rfl
    | some x => rw [foreach, foreach, ih, hbody]

theorem foreachS_map {τ : Type*} (π : τ → σ) (next : σ → ι → Option ι) {body : ι → σ → σ}
    {body' : ι → τ → τ} (hbody : ∀ x t, π (body' x t) = body x (π t)) (n : ℕ)
    (h tmp : Option ι) (t : τ) :
    π (foreachS (fun t => next (π t)) body' n h tmp t) = foreachS next body n h tmp (π t) := by
  induction n generalizing h tmp t with
  | zero => rfl
  | succ n ih =>
    cases h with
    | none => rfl
    | some x => rw [foreachS, foreachS, ih, hbody]

section Loops

variable {next : σ → ι → Option ι} {body : ι → σ → σ} {P : σ → List ι → Prop}

/-- If the body keeps the links of the rest of the chain, the loop runs it on
    the objects that were in the chain when it started, once each. -/
theorem foreachS_eq_foldl (hchain : ∀ s l, P s l → Chain (next s) l.head? l)
    (hbody : ∀ s x l, P s (x :: l) → P (body x s) l) {l : List ι} {s : σ} (hs : P s l) {n : ℕ}
    (hn : l.length ≤ n) :
    foreachS next body n l.head? (l.head?.bind (next s)) s = l.foldl (fun s x => body x s) s := by
  induction l generalizing s n with
  | nil => cases n <;> rfl
  | cons x l ih =>
    cases n with
    | zero => simp at hn
    | succ n =>
      have hx : next s x = l.head? := (hchain s (x :: l) hs).2.head_eq
      simp only [List.head?_cons, Option.bind_some, foreachS, List.foldl_cons]
      rw [hx]
      exact ih (hbody s x l hs) (Nat.le_of_succ_le_succ hn)

/-- The same for the loop reading the pointer after the body, if the body keeps
    the links of the object it is run on, too. -/
theorem foreach_eq_foldl (hchain : ∀ s l, P s l → Chain (next s) l.head? l)
    (hbody : ∀ s x l, P s (x :: l) → P (body x s) l)
    (hnext : ∀ s x l, P s (x :: l) → next (body x s) x = next s x) {l : List ι} {s : σ}
    (hs : P s l) {n : ℕ} (hn : l.length ≤ n) :
    foreach next body n l.head? s = l.foldl (fun s x => body x s) s := by
  induction l generalizing s n with
  | nil => cases n <;> rfl
  | cons x l ih =>
    cases n with
    | zero => simp at hn
    | succ n =>
      have hx : next s x = l.head? := (hchain s (x :: l) hs).2.head_eq
      simp only [List.head?_cons, foreach, List.foldl_cons]
      rw [hnext s x l hs, hx]
      exact ih (hbody s x l hs) (Nat.le_of_succ_le_succ hn)

end Loops

/-! ## Tables -/

/-- Lists sharing one `next` field: the list `b` starts at `head b`. -/
structure Table (β ι : Type*) where
  head : β → Option ι
  next : ι → Option ι

namespace Table

variable [DecidableEq ι] [DecidableEq β]

/-- The table of empty lists. -/
def empty : Table β ι where
  head _ := none
  next _ := none

/-- Puts `x` in front of the list `b`. -/
def prepend (t : Table β ι) (b : β) (x : ι) : Table β ι where
  head := Function.update t.head b (some x)
  next := Function.update t.next x (t.head b)

/-- Takes `x` out of the list `b`: looks, in at most `n` rounds, for the object
    pointing to it and makes it point past it; then moves the head if it is `x`. -/
def delete (t : Table β ι) (n : ℕ) (b : β) (x : ι) : Table β ι :=
  let next := match search t.next (fun y => t.next y = some x) n (t.head b) with
    | some y => Function.update t.next y (t.next x)
    | none => t.next
  { head := if t.head b = some x then Function.update t.head b (next x) else t.head
    next := next }

/-- The lists of the table are `L`, and no object is in two of them. -/
structure Holds (t : Table β ι) (L : β → List ι) : Prop where
  chain : ∀ b, Chain t.next (t.head b) (L b)
  disjoint : ∀ {b b' x}, x ∈ L b → x ∈ L b' → b = b'

omit [DecidableEq ι] [DecidableEq β] in
theorem holds_empty : (empty : Table β ι).Holds fun _ => [] where
  chain _ := rfl
  disjoint h := absurd h List.not_mem_nil

variable {t : Table β ι} {L : β → List ι} {b : β} {x : ι} {n : ℕ}

theorem Holds.prepend (ht : t.Holds L) (hx : ∀ b, x ∉ L b) :
    (t.prepend b x).Holds (Function.update L b (x :: L b)) where
  chain b' := by
    have hc : ∀ b', Chain (t.prepend b x).next (t.head b') (L b') := fun b' =>
      (ht.chain b').congr fun y hy =>
        Function.update_of_ne (fun e : y = x => hx b' (e ▸ hy)) _ _
    by_cases hb : b' = b
    · subst hb
      simp only [Function.update_self]
      exact ⟨Function.update_self .., by simpa [Table.prepend] using hc b'⟩
    · simpa [Table.prepend, Function.update_of_ne hb] using hc b'
  disjoint := by
    intro b₁ b₂ y h₁ h₂
    by_cases e₁ : b₁ = b <;> by_cases e₂ : b₂ = b
    · rw [e₁, e₂]
    · subst e₁
      rw [Function.update_self, List.mem_cons] at h₁
      rw [Function.update_of_ne e₂] at h₂
      rcases h₁ with rfl | h₁
      · exact absurd h₂ (hx _)
      · exact ht.disjoint h₁ h₂
    · subst e₂
      rw [Function.update_self, List.mem_cons] at h₂
      rw [Function.update_of_ne e₁] at h₁
      rcases h₂ with rfl | h₂
      · exact absurd h₁ (hx _)
      · exact ht.disjoint h₁ h₂
    · rw [Function.update_of_ne e₁] at h₁
      rw [Function.update_of_ne e₂] at h₂
      exact ht.disjoint h₁ h₂

/-- The pointers after taking `x` out of a chain `l`. -/
def unlink (next : ι → Option ι) (l : List ι) (x : ι) : ι → Option ι :=
  match l.find? (fun y => next y = some x) with
  | some y => Function.update next y (next x)
  | none => next

omit [DecidableEq β] in
theorem unlink_of_not_mem (next : ι → Option ι) {l : List ι} (x : ι) {y : ι} (hy : y ∉ l) :
    unlink next l x y = next y := by
  cases hz : l.find? (fun y => next y = some x) with
  | none => simp only [unlink, hz]
  | some z =>
    have hyz : y ≠ z := fun e => hy (e ▸ List.mem_of_find?_eq_some hz)
    simp only [unlink, hz, Function.update_of_ne hyz]

omit [DecidableEq β] in
/-- Unlinking `x` takes it out of the chain, at the head, in the middle or at the end. -/
theorem chain_unlink {next : ι → Option ι} {h : Option ι} {l : List ι} (hl : Chain next h l)
    (hx : x ∈ l) :
    Chain (unlink next l x) (if h = some x then unlink next l x x else h) (l.erase x) := by
  induction l generalizing h with
  | nil => exact absurd hx List.not_mem_nil
  | cons a l ih =>
    have hl' : Chain next (next a) l := hl.2
    obtain rfl : h = some a := hl.1
    by_cases hax : a = x
    · -- `x` is the head: nobody points to it, and the head moves past it.
      subst hax
      have hu : unlink next (a :: l) a = next := by
        have : (a :: l).find? (fun y => next y = some a) = none :=
          List.find?_eq_none.2 fun y hy => by simpa using hl.next_ne_head y hy
        rw [unlink, this]
      rw [hu, if_pos rfl, List.erase_cons_head]
      exact hl'
    · have hxl : x ∈ l := (List.mem_cons.1 hx).resolve_left (Ne.symm hax)
      have ha : a ∉ l := (List.nodup_cons.1 hl.nodup).1
      rw [if_neg (fun e => hax (Option.some.inj e)), List.erase_cons_tail (by simpa using hax)]
      by_cases hnx : next a = some x
      · -- `a` points to `x`, which is thus the head of the rest.
        have hu : unlink next (a :: l) x = Function.update next a (next x) := by
          rw [unlink, List.find?_cons_of_pos (by simpa using hnx)]
        rw [hu]
        refine ⟨rfl, ?_⟩
        rw [Function.update_self]
        cases l with
        | nil => exact absurd hxl List.not_mem_nil
        | cons z l =>
          obtain rfl : z = x := Option.some.inj (hl'.1.symm.trans hnx)
          rw [List.erase_cons_head]
          exact hl'.2.congr fun y hy =>
            Function.update_of_ne (fun e : y = a => ha (e ▸ List.mem_cons_of_mem _ hy)) _ _
      · have hu : unlink next (a :: l) x = unlink next l x := by
          rw [unlink, List.find?_cons_of_neg (by simpa using hnx)]; rfl
        rw [hu]
        refine ⟨rfl, ?_⟩
        rw [unlink_of_not_mem next x ha]
        have := ih hl' hxl
        rwa [if_neg hnx] at this

theorem delete_eq (ht : t.Holds L) (hn : (L b).length ≤ n) : t.delete n b x =
    { head := if t.head b = some x then Function.update t.head b (unlink t.next (L b) x x)
        else t.head
      next := unlink t.next (L b) x } := by
  simp only [delete, (ht.chain b).search_eq _ hn, unlink]

theorem Holds.delete (ht : t.Holds L) (hx : x ∈ L b) (hn : (L b).length ≤ n) :
    (t.delete n b x).Holds (Function.update L b ((L b).erase x)) where
  chain b' := by
    rw [delete_eq ht hn]
    by_cases hb : b' = b
    · subst hb
      have := chain_unlink (ht.chain b') hx
      rw [Function.update_self]
      dsimp only
      split_ifs at this ⊢ with hh
      · rwa [Function.update_self]
      · exact this
    · have hhead : (if t.head b = some x then Function.update t.head b (unlink t.next (L b) x x)
          else t.head) b' = t.head b' := by
        split_ifs
        · exact Function.update_of_ne hb _ _
        · rfl
      rw [Function.update_of_ne hb]
      dsimp only
      rw [hhead]
      exact (ht.chain b').congr fun y hy =>
        unlink_of_not_mem _ _ fun hy' => hb (ht.disjoint hy hy')
  disjoint := by
    have hsub : ∀ b', Function.update L b ((L b).erase x) b' ⊆ L b' := by
      intro b'
      by_cases hb : b' = b
      · subst hb
        rw [Function.update_self]
        exact List.erase_subset
      · rw [Function.update_of_ne hb]
        exact List.Subset.refl _
    intro b₁ b₂ y h₁ h₂
    exact ht.disjoint (hsub b₁ h₁) (hsub b₂ h₂)

end Table

/-! ## The object before -/

/-- The first object satisfying `p`, in at most `n` rounds, with the object before it;
    `prev` is the one before `h`. -/
def seek (next : ι → Option ι) (p : ι → Bool) : ℕ → Option ι → Option ι → Option ι × Option ι
  | 0, prev, _ => (prev, none)
  | _ + 1, prev, none => (prev, none)
  | n + 1, prev, some x => if p x then (prev, some x) else seek next p n (some x) (next x)

theorem Chain.seek_eq {next : ι → Option ι} {h : Option ι} {l : List ι} (hl : Chain next h l)
    (p : ι → Bool) {n : ℕ} (hn : l.length ≤ n) (prev : Option ι) : seek next p n prev h =
      ((l.takeWhile fun x => !p x).getLast?.or prev, (l.dropWhile fun x => !p x).head?) := by
  induction l generalizing h n prev with
  | nil => cases n <;> simp [seek, show h = none from hl]
  | cons x l ih =>
    obtain ⟨rfl, hl⟩ := hl
    cases n with
    | zero => simp at hn
    | succ n =>
      rw [seek, ih hl (Nat.le_of_succ_le_succ hn), List.takeWhile_cons, List.dropWhile_cons]
      cases p x with
      | true => rfl
      | false =>
        simp only [Bool.not_false, Bool.false_eq_true, if_true, if_false, List.getLast?_cons]
        cases (l.takeWhile fun x => !p x).getLast? <;> rfl

/-- The end of a chain, after `y`, may be another one. -/
theorem Chain.splice {next next' : ι → Option ι} {h : Option ι} {l₁ l₂ l₂' : List ι} {y : ι}
    (hl : Chain next h (l₁ ++ y :: l₂)) (hn : ∀ z ∈ l₁, next' z = next z)
    (hl' : Chain next' (next' y) l₂') : Chain next' h (l₁ ++ y :: l₂') := by
  induction l₁ generalizing h with
  | nil => exact ⟨hl.1, hl'⟩
  | cons z l₁ ih =>
    refine ⟨hl.1, ?_⟩
    rw [hn z List.mem_cons_self]
    exact ih hl.2 fun z' hz' => hn z' (List.mem_cons_of_mem z hz')

/-- A list by itself. -/
structure Single (ι : Type*) where
  head : Option ι
  next : ι → Option ι

namespace Single

variable [DecidableEq ι] {t : Single ι} {l₁ l₂ : List ι} {x : ι}

/-- Puts `x` after the object `prev`, or in front. -/
def insertAfter (t : Single ι) (prev : Option ι) (x : ι) : Single ι :=
  match prev with
  | some y => { t with next := Function.update (Function.update t.next x (t.next y)) y (some x) }
  | none => { head := some x, next := Function.update t.next x t.head }

/-- Takes `x` out, which is after the object `prev`, or the first one. -/
def removeAfter (t : Single ι) (prev : Option ι) (x : ι) : Single ι :=
  match prev with
  | some y => { t with next := Function.update t.next y (t.next x) }
  | none => { t with head := t.next x }

/-- The list visits the objects `l`, in order. -/
def Holds (t : Single ι) (l : List ι) : Prop := Chain t.next t.head l

theorem Holds.insertAfter (h : t.Holds (l₁ ++ l₂)) (hx : x ∉ l₁ ++ l₂) :
    (t.insertAfter l₁.getLast? x).Holds (l₁ ++ x :: l₂) := by
  have hne : ∀ z ∈ l₁ ++ l₂, z ≠ x := fun z hz hzx => hx (hzx ▸ hz)
  rcases l₁.eq_nil_or_concat with rfl | ⟨l₁, y, rfl⟩
  · refine ⟨rfl, ?_⟩
    have hnext : (t.insertAfter none x).next x = t.head := Function.update_self ..
    rw [List.getLast?_nil, hnext]
    exact Chain.congr h fun z hz => Function.update_of_ne (hne z hz) ..
  · rw [List.concat_eq_append] at h hne ⊢
    have hnd := Chain.nodup h
    rw [List.append_assoc, List.singleton_append] at h hnd ⊢
    obtain ⟨-, hy, hdisj⟩ := List.nodup_append.1 hnd
    have hyx : y ≠ x := hne y (by simp)
    -- The pointers of the other objects are kept.
    have hkeep : ∀ z ∈ l₁ ++ l₂, z ≠ y → (t.insertAfter (some y) x).next z = t.next z := by
      intro z hz hzy
      have hzx : z ≠ x := hne z (by simpa using List.mem_append.1 hz |>.imp_right .inr)
      exact (Function.update_of_ne hzy ..).trans (Function.update_of_ne hzx ..)
    rw [List.getLast?_concat]
    refine Chain.splice h (fun z hz => hkeep z (List.mem_append_left _ hz) ?_) ⟨?_, ?_⟩
    · exact hdisj z hz y List.mem_cons_self
    · exact Function.update_self ..
    · have hnext : (t.insertAfter (some y) x).next x = t.next y :=
        (Function.update_of_ne hyx.symm ..).trans (Function.update_self ..)
      have hl₂ : Chain t.next (t.next y) l₂ := (Chain.suffix h).2
      rw [hnext]
      refine hl₂.congr fun z hz => hkeep z (List.mem_append_right _ hz) fun hzy => ?_
      exact (List.nodup_cons.1 hy).1 (hzy ▸ hz)

theorem Holds.removeAfter (h : t.Holds (l₁ ++ x :: l₂)) :
    (t.removeAfter l₁.getLast? x).Holds (l₁ ++ l₂) := by
  rcases l₁.eq_nil_or_concat with rfl | ⟨l₁, y, rfl⟩
  · exact h.2
  · rw [List.concat_eq_append] at h ⊢
    have hnd := Chain.nodup h
    rw [List.append_assoc, List.singleton_append] at h hnd ⊢
    obtain ⟨-, hy, hdisj⟩ := List.nodup_append.1 hnd
    have hkeep : ∀ z, z ≠ y → (t.removeAfter (some y) x).next z = t.next z := fun z hzy =>
      Function.update_of_ne hzy ..
    have hl₂ : Chain t.next (t.next x) l₂ := (Chain.suffix h).2.2
    rw [List.getLast?_concat]
    refine Chain.splice h (fun z hz => hkeep z (hdisj z hz y List.mem_cons_self)) ?_
    have hnext : (t.removeAfter (some y) x).next y = t.next x := Function.update_self ..
    rw [hnext]
    refine hl₂.congr fun z hz => hkeep z fun hzy => ?_
    exact (List.nodup_cons.1 hy).1 (hzy ▸ List.mem_cons_of_mem x hz)

end Single

end Intrusive
