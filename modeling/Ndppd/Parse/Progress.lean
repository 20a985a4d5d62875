import Ndppd.Parse

/-!
# The parser moves on

No function that reads a token goes back (`Cursor.Reaches`), and a name or a byte that is
accepted has been left to read before (`Cursor.Passes`). This is what ends the loop of
`ndL_parse_block`: after each of its rounds, less is left to read.
-/

namespace Ndppd

variable {libc : Libc} {s s' s₁ s₂ : Cursor}

namespace Cursor

/-- `s'` is at `s`, or further on. -/
structure Reaches (s s' : Cursor) : Prop where
  data : s'.data = s.data
  offset : s.offset ≤ s'.offset

/-- `s'` is after a byte that was left to read at `s`. -/
structure Passes (s s' : Cursor) : Prop where
  data : s'.data = s.data
  offset : s.offset < s'.offset
  rest_ne : s.rest ≠ []

/-- To advance is to drop bytes of what is left. -/
theorem rest_advance (s : Cursor) (n : ℕ) : (s.advance n).rest = s.rest.drop n := by
  rw [Cursor.rest, Cursor.rest, List.drop_drop]
  rfl

/-- A new line is one byte further on. -/
theorem rest_newline (s : Cursor) : s.newline.rest = s.rest.drop 1 := by
  rw [Cursor.rest, Cursor.rest, List.drop_drop]
  rfl

/-- What is left is what has not been read. -/
theorem length_rest (s : Cursor) : s.rest.length = s.data.length - s.offset := List.length_drop ..

theorem advance_advance (s : Cursor) (m n : ℕ) : (s.advance m).advance n = s.advance (m + n) := by
  simp only [Cursor.advance, Nat.add_assoc]

namespace Reaches

/-- A position reaches itself: a token function may read nothing. -/
theorem refl (s : Cursor) : s.Reaches s := ⟨rfl, le_rfl⟩

/-- What is read in turn goes on and on. -/
theorem trans (h : s.Reaches s₁) (h' : s₁.Reaches s₂) : s.Reaches s₂ :=
  ⟨h'.data.trans h.data, h.offset.trans h'.offset⟩

theorem advance (s : Cursor) (n : ℕ) : s.Reaches (s.advance n) := ⟨rfl, Nat.le_add_right ..⟩

theorem newline (s : Cursor) : s.Reaches s.newline := ⟨rfl, Nat.le_succ _⟩

/-- Further on, no more is left to read. -/
theorem length_rest_le (h : s.Reaches s') : s'.rest.length ≤ s.rest.length := by
  rw [length_rest, length_rest, h.data]
  exact Nat.sub_le_sub_left h.offset _

end Reaches

namespace Passes

/-- Whatever is read afterwards, the byte has been passed. -/
theorem trans (h : s.Passes s₁) (h' : s₁.Reaches s₂) : s.Passes s₂ :=
  ⟨h'.data.trans h.data, h.offset.trans_le h'.offset, h.rest_ne⟩

/-- Whatever is read before, the byte was left to read. -/
theorem of_reaches (h : s.Reaches s₁) (h' : s₁.Passes s₂) : s.Passes s₂ where
  data := h'.data.trans h.data
  offset := h.offset.trans_lt h'.offset
  rest_ne hnil := by
    have hle := h.length_rest_le
    rw [hnil, List.length_nil, Nat.le_zero, List.length_eq_zero_iff] at hle
    exact h'.rest_ne hle

theorem reaches (h : s.Passes s') : s.Reaches s' := ⟨h.data, h.offset.le⟩

/-- After a byte, less is left to read: this bounds the rounds of the loop. -/
theorem length_rest_lt (h : s.Passes s') : s'.rest.length < s.rest.length := by
  have hpos := List.length_pos_iff.2 h.rest_ne
  have hoffset := h.offset
  rw [length_rest] at hpos
  rw [length_rest, length_rest, h.data]
  omega

end Passes

end Cursor

/-! ## Tokens -/

/-- Blanks and comments are skipped forwards. -/
theorem reaches_ndLSkip (s : Cursor) : s.Reaches (ndLSkip s) := .advance ..

/-- A byte that is not accepted leaves the position as it is. -/
theorem reaches_ndLAccept (s : Cursor) (valid : List U8) : s.Reaches (ndLAccept s valid).2 := by
  rw [ndLAccept]
  cases s.rest with
  | nil => exact .refl s
  | cons c t =>
    dsimp only
    split_ifs
    · exact .refl s
    · exact .newline s
    · exact .advance s 1

/-- A byte that is accepted, and not NUL, was left to read. -/
theorem passes_ndLAccept {valid : List U8} (h : (ndLAccept s valid).1 ≠ 0) :
    s.Passes (ndLAccept s valid).2 := by
  rw [ndLAccept] at h ⊢
  revert h
  cases hs : s.rest with
  | nil => exact fun h => absurd rfl h
  | cons c t =>
    have hne : s.rest ≠ [] := hs ▸ List.cons_ne_nil c t
    dsimp only
    split_ifs
    · exact fun h => absurd rfl h
    · exact fun _ => ⟨rfl, Nat.lt_succ_self _, hne⟩
    · exact fun _ => ⟨rfl, Nat.lt_succ_self _, hne⟩

/-- A number is the token that was left to read. -/
theorem reaches_ndLAcceptInt {min max v : ℤ} (h : ndLAcceptInt s min max = some (v, s')) :
    s.Reaches s' := by
  rw [ndLAcceptInt] at h
  split at h
  · cases h
  · split at h
    · cases h
    · split_ifs at h
      cases h
      exact .advance ..

/-- So is an address, of either kind. -/
theorem reaches_acceptWith {α : Type} {p : U8 → Bool} {convert : List U8 → Option α}
    {error : String} {a : α} (h : acceptWith p convert error s = .ok (a, s')) : s.Reaches s' := by
  rw [acceptWith] at h
  split at h
  · cases h
  · split at h
    · cases h
    · cases h
      exact .advance ..

/-- The bytes of a name are bytes of the text. -/
theorem nameScan_sublist (n : ℕ) (t : List U8) : (nameScan n t).Sublist (t.take n) := by
  rw [nameScan]
  cases t.take n with
  | nil => exact List.Sublist.refl _
  | cons c t =>
    dsimp only
    split_ifs
    · exact (List.takeWhile_sublist _).cons_cons c
    · exact List.nil_sublist _

/-- A name has a byte. -/
theorem passes_ndLAcceptName {size : ℕ} {name : List U8}
    (h : ndLAcceptName s size = some (name, s')) : s.Passes s' := by
  rw [ndLAcceptName] at h
  split at h
  · cases h
  · rename_i buf hbuf
    cases h
    rw [nameToken] at hbuf
    split_ifs at hbuf with hnil
    cases hbuf
    refine ⟨rfl, Nat.lt_add_of_pos_right (List.length_pos_iff.2 hnil), fun hs => hnil ?_⟩
    rw [hs, nameScan, List.take_nil]

/-- A truth value may be left out, and then nothing is read. -/
theorem reaches_ndLAcceptBool {v : Bool} (h : ndLAcceptBool s = some (v, s')) : s.Reaches s' := by
  rw [ndLAcceptBool] at h
  split at h
  · cases h
    exact .refl s
  · rename_i hname
    split_ifs at h
    · cases h
      exact (passes_ndLAcceptName hname).reaches
    · cases h
      exact (passes_ndLAcceptName hname).reaches

end Ndppd
