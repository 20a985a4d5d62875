import Mathlib.Algebra.Order.Group.Int
import Mathlib.Data.List.Basic
import Ndppd.Lib.Report

/-!
# Records that hold their length

A buffer of records, one after the other: each starts with a header, which holds the length of
the record, and the next one starts at the next aligned place. A loop over them (`walk`) goes on
while there is a whole record.

* `walk_ends`: whatever is in the buffer, the loop ends, and looks at records within it only.
* `walk_pack`: if the buffer has been filled with records (`pack`), the body sees them in order,
  up to the one it stops at.
-/

namespace Framing

variable {α β ε σ τ : Type}

/-! ## The loop -/

/-- The format: the size of a header, and where a record of some length ends. -/
structure Format where
  header : ℕ
  align : ℕ → ℕ
  header_pos : 0 < header

/-- The loop over the records from `o` on, if there are `left` bytes, in less than `n` rounds.
    The body says whether it stops. -/
def walk (f : Format) (out : σ) (length : ℕ → Report ε σ ℕ)
    (body : τ → ℕ → ℕ → Report ε σ (τ × Bool)) : ℕ → ℕ → ℤ → τ → Report ε σ τ
  | 0, _, _, _ => .fail out
  | n + 1, o, left, t =>
    if left < f.header then return t
    else do
      let len ← length o
      if ¬(f.header ≤ len ∧ len ≤ left) then return t
      else do
        let r ← body t o len
        if r.2 then return r.1
        else walk f out length body n (o + f.align len) (left - f.align len) r.1

variable {f : Format} {out : σ} {P : ε → Prop} {length : ℕ → Report ε σ ℕ}
  {body : τ → ℕ → ℕ → Report ε σ (τ × Bool)} {limit n o : ℕ} {left : ℤ}

/-- The loop ends, and the records that it runs the body on end before `limit`. What the body
    keeps is kept. -/
theorem walk_ends {I : τ → Prop} (halign : ∀ k ≤ limit, k ≤ f.align k)
    (hlength : ∀ o' ≥ o, o' + f.header ≤ limit →
      ∃ len, Report.Yields P (length o') (.ok len))
    (hbody : ∀ t, I t → ∀ o' ≥ o, ∀ len, f.header ≤ len → o' + len ≤ limit →
      ∃ r, Report.Yields P (body t o' len) (.ok r) ∧ I r.1)
    (hn : limit - o < n) {t : τ} (ht : I t) (hleft : left = limit - o) :
    ∃ t', Report.Yields P (walk f out length body n o left t) (.ok t') ∧ I t' := by
  induction n generalizing o left t with
  | zero => omega
  | succ n ih =>
    rw [walk]
    by_cases hend : left < f.header
    · rw [if_pos hend]
      exact ⟨t, Report.yields_pure t, ht⟩
    rw [if_neg hend]
    obtain ⟨len, hlen⟩ := hlength o le_rfl (by omega)
    by_cases hbad : ¬(f.header ≤ len ∧ len ≤ left)
    · refine ⟨t, hlen.andThen ?_, ht⟩
      rw [if_pos hbad]
      exact Report.yields_pure t
    obtain ⟨hge, hle⟩ := not_not.1 hbad
    obtain ⟨r, hr, hIr⟩ := hbody t ht o le_rfl len hge (by omega)
    cases hstop : r.2 with
    | true =>
      refine ⟨r.1, hlen.andThen ?_, hIr⟩
      rw [if_neg hbad]
      refine hr.andThen ?_
      rw [hstop, if_pos rfl]
      exact Report.yields_pure _
    | false =>
      -- The next record is later by a header at least.
      have hpos := f.header_pos
      have hstep := halign len (by omega)
      have hnext : left - f.align len = limit - (o + f.align len : ℕ) := by omega
      obtain ⟨t', ht', hIt'⟩ := ih (fun o' ho' => hlength o' (by omega))
        (fun t hIt o' ho' => hbody t hIt o' (by omega)) (by omega) hIr hnext
      refine ⟨t', hlen.andThen ?_, hIt'⟩
      rw [if_neg hbad]
      refine hr.andThen ?_
      rw [hstop, if_neg Bool.false_ne_true]
      exact ht'

/-! ## Buffers that have been filled -/

/-- The buffer has the bytes `l` at `o`. -/
def At (buf : ℕ → β) (o : ℕ) (l : List β) : Prop := ∀ i (h : i < l.length), buf (o + i) = l[i]

theorem at_append {buf : ℕ → β} {o : ℕ} {l l' : List β} :
    At buf o (l ++ l') ↔ At buf o l ∧ At buf (o + l.length) l' := by
  constructor
  · intro h
    refine ⟨fun i hi => ?_, fun i hi => ?_⟩
    · rw [h i (by rw [List.length_append]; omega), List.getElem_append_left hi]
    · rw [Nat.add_assoc, h (l.length + i) (by rw [List.length_append]; omega),
        List.getElem_append_right (Nat.le_add_right ..)]
      simp only [Nat.add_sub_cancel_left]
  · rintro ⟨h, h'⟩ i hi
    by_cases hlt : i < l.length
    · rw [h i hlt, List.getElem_append_left hlt]
    · have heq : o + i = o + l.length + (i - l.length) := by omega
      rw [List.length_append] at hi
      rw [heq, h' (i - l.length) (by omega), List.getElem_append_right (by omega)]

/-- Records, each with its padding. -/
def pack (f : Format) (pad : β) (frames : List (List β)) : List β :=
  frames.flatMap fun l => l ++ List.replicate (f.align l.length - l.length) pad

/-- A record that needs no padding. -/
theorem pack_cons_of_aligned {pad : β} {l : List β} (ls : List (List β))
    (h : f.align l.length = l.length) : pack f pad (l :: ls) = l ++ pack f pad ls := by
  rw [pack, List.flatMap_cons, h, Nat.sub_self, List.replicate_zero, List.append_nil]
  rfl

theorem length_pack_cons {pad : β} {l : List β} (ls : List (List β))
    (h : l.length ≤ f.align l.length) :
    (pack f pad (l :: ls)).length = f.align l.length + (pack f pad ls).length := by
  simp only [pack, List.flatMap_cons, List.length_append, List.length_replicate]
  omega

theorem at_pack_cons {buf : ℕ → β} {pad : β} {l : List β} {ls : List (List β)}
    (hle : l.length ≤ f.align l.length) (h : At buf o (pack f pad (l :: ls))) :
    At buf o l ∧ At buf (o + f.align l.length) (pack f pad ls) := by
  rw [pack, List.flatMap_cons, at_append, at_append] at h
  obtain ⟨⟨hl, -⟩, hls⟩ := h
  rw [List.length_append, List.length_replicate, Nat.add_sub_cancel' hle] at hls
  exact ⟨hl, hls⟩

/-- Runs the body on the elements of a list, until it says to stop. -/
def scan (body : σ → α → σ × Bool) : List α → σ → σ
  | [], s => s
  | x :: xs, s => if (body s x).2 then (body s x).1 else scan body xs (body s x).1

theorem scan_eq_foldl {body : σ → α → σ × Bool} (h : ∀ s x, (body s x).2 = false) (xs : List α)
    (s : σ) : scan body xs s = xs.foldl (fun s x => (body s x).1) s := by
  induction xs generalizing s with
  | nil => rfl
  | cons x xs ih => rw [scan, h s x, if_neg Bool.false_ne_true, ih, List.foldl_cons]

/-- The loop runs the body on the records that the buffer has been filled with: if the body does
    to its state what `g` does to another one (by `R`), so does the loop. -/
theorem walk_pack {γ : Type} {buf : ℕ → β} {pad : β} {frame : α → List β} {g : γ → α → γ × Bool}
    {R : τ → γ → Prop} (halign : ∀ k ≤ limit, k ≤ f.align k) {xs : List α}
    (hlength : ∀ x ∈ xs, ∀ o, At buf o (frame x) → f.header ≤ (frame x).length ∧
      (o + (frame x).length ≤ limit → Report.Yields P (length o) (.ok (frame x).length)))
    (hbody : ∀ x ∈ xs, ∀ t s o, R t s → At buf o (frame x) → o + (frame x).length ≤ limit →
      ∃ r, Report.Yields P (body t o (frame x).length) (.ok r) ∧ R r.1 (g s x).1 ∧
        r.2 = (g s x).2)
    (h : At buf o (pack f pad (xs.map frame)))
    (hleft : left = (pack f pad (xs.map frame)).length)
    (hlimit : o + (pack f pad (xs.map frame)).length ≤ limit)
    (hn : (pack f pad (xs.map frame)).length < n) {t : τ} {s : γ} (ht : R t s) :
    ∃ t', Report.Yields P (walk f out length body n o left t) (.ok t') ∧ R t' (scan g xs s) := by
  have hpos := f.header_pos
  induction xs generalizing n o left t s with
  | nil =>
    obtain ⟨n, rfl⟩ : ∃ k, n = k + 1 := ⟨n - 1, by omega⟩
    have hend : left < f.header := by
      rw [hleft, List.map_nil, pack, List.flatMap_nil, List.length_nil]
      exact Int.natCast_pos.2 hpos
    rw [walk, if_pos hend]
    exact ⟨t, Report.yields_pure t, ht⟩
  | cons x xs ih =>
    obtain ⟨hlengthx, hlengthxs⟩ := List.forall_mem_cons.1 hlength
    obtain ⟨hbodyx, hbodyxs⟩ := List.forall_mem_cons.1 hbody
    rw [List.map_cons] at h hleft hlimit hn
    have hle : (frame x).length ≤ f.align (frame x).length := by
      refine halign _ ?_
      simp only [pack, List.flatMap_cons, List.length_append] at hlimit
      omega
    obtain ⟨hx, hxs⟩ := at_pack_cons hle h
    rw [length_pack_cons _ hle] at hleft hlimit hn
    obtain ⟨hheader, hlen⟩ := hlengthx o hx
    obtain ⟨r, hr, hRr, hstop⟩ := hbodyx t s o ht hx (by omega)
    obtain ⟨n, rfl⟩ : ∃ k, n = k + 1 := ⟨n - 1, by omega⟩
    rw [walk, if_neg (by omega), scan]
    cases hg : (g s x).2 with
    | true =>
      refine ⟨r.1, (hlen (by omega)).andThen ?_, hRr⟩
      rw [if_neg (by omega)]
      refine hr.andThen ?_
      rw [hstop, hg]
      exact Report.yields_pure _
    | false =>
      have hnext : left - f.align (frame x).length = (pack f pad (xs.map frame)).length := by omega
      obtain ⟨t', ht', hRt'⟩ := ih hlengthxs hbodyxs hxs hnext (by omega) (show _ < n by omega) hRr
      refine ⟨t', (hlen (by omega)).andThen ?_, hRt'⟩
      rw [if_neg (by omega)]
      refine hr.andThen ?_
      rw [hstop, hg]
      exact ht'

end Framing
