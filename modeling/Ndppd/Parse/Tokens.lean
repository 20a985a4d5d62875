import Mathlib.Data.List.TakeWhile
import Ndppd.Lib.Report
import Ndppd.Parse.Progress

/-!
# Tokens, byte by byte

The functions of `conf.c` that read a token, with all that they touch. They are given a
pointer to the position of the parser (`ndL_state_t *state`), work on a copy of it, and
store the copy only if they succeed, all but `ndL_accept`, which moves the position
itself: each of them returns its result and `*state`. The data is memory, of which the
first bytes are those of the file, and the buffers for the tokens are arrays of a fixed
size: nothing keeps the functions from going past their ends, or from a loop that does not
end. Every byte that is read or written is an event.

In rounds that are more than the bytes of the file they do what the model of the parser
says, and stay within the file and their buffers (`ndLSkip_does` to `ndLAcceptBool_does`).

The grammar relies on functions that fail without moving (`InPlace.Atomic`). `strchr` finds
a NUL in every set of characters, so that `ndL_accept` moves past one while it returns zero,
and a name may contain one, which ends the string that is stored. `InPlace.atomic_iff` says
that this is all that can go wrong.
-/

namespace Ndppd

namespace Touching

open Report

/-! ## What the parser touches -/

/-- The parser reads a byte of the data, writes a byte of a buffer of some size, or enters
    a block. -/
inductive Touch
  | read (offset : ℕ)
  | write (size i : ℕ)
  | block (depth : ℕ)
  deriving DecidableEq

/-- The byte is one of the data, or of the buffer, and the block is not too deep. -/
def Touch.Within (length : ℕ) : Touch → Prop
  | .read offset => offset < length
  | .write size i => i < size
  | .block depth => depth ≤ 3

/-- Why the parser stops: a loop has no rounds left, there are no levels left for a block,
    or the file is rejected. -/
inductive Stop
  | outOfRounds
  | outOfLevels
  | rejected (log : List Message)

/-- A function of the parser, with what it touches. -/
abbrev Touches := Report Touch Stop

/-! ## The functions -/

section Functions

variable (mem : ℕ → U8) (rounds : ℕ) (libc : Libc)

/-- `state->data[state->offset]`. -/
def fetch (s : Cursor) : Touches U8 := do
  emit (.read s.offset)
  return mem s.offset

/-- The loop of `ndL_skip`, in less than `n` rounds. -/
def skipLoop : ℕ → Bool → Cursor → Touches Cursor
  | 0, _, _ => fail .outOfRounds
  | n + 1, comment, s =>
    if s.offset < s.data.length then do
      let c ← fetch mem s
      let comment := comment || c == ch '#'
      if c = ch '\n' ∨ (!comment ∧ !isspace c) then return s
      else skipLoop n comment (s.advance 1)
    else return s

/-- `ndL_skip` -/
def ndLSkip (s : Cursor) : Touches Cursor := skipLoop mem rounds false s

/-- `ndL_accept`: the byte that is compared is fetched, unless the file has ended. -/
def ndLAccept (state : Cursor) (valid : List U8) : Touches (U8 × Cursor) :=
  if state.offset ≥ state.data.length then return (0, state)
  else do
    let c ← fetch mem state
    if !strchr valid c then return (0, state)
    else if c = ch '\n' then return (c, state.newline)
    else return (c, state.advance 1)

/-- The loops of the other functions, in less than `n` rounds: `buf` has been copied to a
    buffer of `size` bytes, and the bytes that are `ok` there follow, up to `room`. -/
def copyLoop (size room : ℕ) (ok : ℕ → U8 → Bool) :
    ℕ → Cursor → List U8 → Touches (List U8 × Cursor)
  | 0, _, _ => fail .outOfRounds
  | n + 1, tmp, buf =>
    if buf.length < room ∧ tmp.offset < tmp.data.length then do
      let c ← fetch mem tmp
      -- The byte stays in the data, and ends the token.
      if !ok buf.length c then return (buf, tmp)
      else do
        emit (.write size buf.length)
        copyLoop size room ok n (tmp.advance 1) (buf ++ [c])
    else return (buf, tmp)

/-- What `ndL_accept_int`, `ndL_accept_addr` and `ndL_accept_lladdr` begin with: the bytes
    of a class, and a NUL. -/
def acceptToken (p : U8 → Bool) (state : Cursor) : Touches (Option (List U8 × Cursor)) := do
  let (buf, tmp) ← copyLoop mem 64 64 (fun _ => p) rounds state []
  -- There is no room left for the NUL, or there is no token.
  if buf.length = 64 ∨ tmp.offset = state.offset then return none
  else do
    emit (.write 64 buf.length)
    return some (buf, tmp)

/-- `ndL_accept_int`: what has been copied is converted, and has to be in the range. -/
def ndLAcceptInt (state : Cursor) (min max : ℤ) : Touches (Option ℤ × Cursor) := do
  match ← acceptToken mem rounds (fun c => isdigit c || c == ch '-') state with
  | none => return (none, state)
  | some (buf, tmp) =>
    match strtoll buf with
    | none => return (none, state)
    | some value =>
      if value > max ∨ value < min then return (none, state) else return (some value, tmp)

/-- `ndL_accept_addr` and `ndL_accept_lladdr`: the bytes of a class are converted, and it is
    an error if they cannot be. -/
def acceptWith {α : Type} (p : U8 → Bool) (convert : List U8 → Option α) (error : String)
    (state : Cursor) : Touches (Parse α × Cursor) := do
  match ← acceptToken mem rounds p state with
  | none => return (.error [], state)
  | some (buf, tmp) =>
    match convert buf with
    | none => return (.error (ndLError state (quoted error buf)), state)
    | some addr => return (.ok addr, tmp)

/-- `ndL_accept_addr` -/
def ndLAcceptAddr (state : Cursor) : Touches (Parse Addr × Cursor) :=
  acceptWith mem rounds (fun c => isxdigit c || c == ch '.' || c == ch ':') libc.inetPton
    "Invalid IPv6 address" state

/-- `ndL_accept_lladdr` -/
def ndLAcceptLladdr (state : Cursor) : Touches (Parse LlAddr × Cursor) :=
  acceptWith mem rounds (fun c => isxdigit c || c == ch ':') libc.etherAton
    "Invalid link-layer address" state

/-- The first byte of a name is a letter. -/
def okName (i : ℕ) (c : U8) : Bool := if i = 0 then isalpha c else isNameChar c

/-- Whether a name goes on after a buffer that is full. -/
def goesOn (full : Bool) (tmp : Cursor) : Touches Bool :=
  if full ∧ tmp.offset < tmp.data.length then do
    let c ← fetch mem tmp
    return isNameChar c
  else return false

/-- `ndL_accept_name`: the C string that it stores, in a buffer of `size` bytes. (The loop
    counts `size` down to one, which is room for the NUL.) -/
def ndLAcceptName (state : Cursor) (size : ℕ) : Touches (Option (List U8) × Cursor) := do
  let (buf, tmp) ← copyLoop mem size (size - 1) okName rounds state []
  if tmp.offset = state.offset then return (none, state)
  else do
    if ← goesOn mem (buf.length ≥ size - 1) tmp then return (none, state)
    else do
      emit (.write size buf.length)
      return (some (cString buf), tmp)

/-- `ndL_accept_bool`: the four words, compared with a name. -/
def ndLAcceptBool (state : Cursor) : Touches (Option Bool × Cursor) := do
  let (name, tmp) ← ndLAcceptName mem rounds state 16
  match name with
  -- The buffer is not read.
  | none => return (some true, tmp)
  | some buf =>
    if buf = bytes "yes" ∨ buf = bytes "true" then return (some true, tmp)
    else if buf = bytes "no" ∨ buf = bytes "false" then return (some false, tmp)
    else return (none, state)

end Functions

/-! ## They do what the model does -/

/-- The result of the model, and the position that it leaves. -/
def stored {α : Type} (s : Cursor) : Option (α × Cursor) → Option α × Cursor
  | none => (none, s)
  | some (a, s') => (some a, s')

/-- The result of the model, or its errors, and the position that it leaves. -/
def storedParse {α : Type} (s : Cursor) : Parse (α × Cursor) → Parse α × Cursor
  | .error log => (.error log, s)
  | .ok (a, s') => (.ok a, s')

/-- A function of the parser returns `a`, and stays within the data and its buffers. -/
abbrev Does {α : Type} (data : List U8) (x : Touches α) (a : α) : Prop :=
  Yields (Touch.Within data.length) x (.ok a)

/-- Memory that begins with the data, and rounds enough for it. -/
structure Holds (mem : ℕ → U8) (rounds : ℕ) (data : List U8) : Prop where
  mem : ∀ i < data.length, data[i]? = some (mem i)
  rounds : data.length < rounds

theorem does_pure {α : Type} {data : List U8} (a : α) : Does data (pure a) a := yields_pure a

variable {mem : ℕ → U8} {rounds : ℕ} {libc : Libc} {data : List U8} {s : Cursor}

/-- The bytes that are copied, from the `i`-th one on. -/
def copied (ok : ℕ → U8 → Bool) : ℕ → List U8 → List U8
  | _, [] => []
  | i, c :: t => if ok i c then c :: copied ok (i + 1) t else []

/-- Where a byte is accepted by what it is, the run of such bytes is copied. -/
theorem copied_class (p : U8 → Bool) (i : ℕ) (t : List U8) :
    copied (fun _ => p) i t = t.takeWhile p := by
  induction t generalizing i with
  | nil => rfl
  | cons c t ih =>
    rw [copied, ih, List.takeWhile_cons]

/-- The first byte of a name has to be a letter, which is why a place is given. -/
theorem copied_name (n : ℕ) (t : List U8) : copied okName 0 (t.take n) = nameScan n t := by
  have htail : ∀ i t, copied okName (i + 1) t = t.takeWhile isNameChar := by
    intro i t
    induction t generalizing i with
    | nil => rfl
    | cons c t ih => rw [copied, ih, List.takeWhile_cons, okName, if_neg (Nat.succ_ne_zero i)]
  rw [nameScan]
  cases t.take n with
  | nil => rfl
  | cons c t => rw [copied, htail, okName, if_pos rfl]

section Tokens

variable (h : Holds mem rounds data) (hs : s.data = data)

include h hs

/-- The byte in memory is the next one of the text. -/
theorem Holds.rest_eq (hlt : s.offset < s.data.length) :
    s.rest = mem s.offset :: (s.advance 1).rest := by
  have hget := h.mem s.offset (hs ▸ hlt)
  rw [← hs, List.getElem?_eq_getElem hlt] at hget
  rw [Cursor.rest, List.drop_eq_getElem_cons hlt, Option.some.inj hget]
  rfl

omit h in
/-- Before the end of the file, a fetch is within the file. -/
theorem fetch_does (hlt : s.offset < s.data.length) :
    Does data (fetch mem s) (mem s.offset) := by
  have hin : Touch.Within data.length (.read s.offset) := hs ▸ hlt
  exact (yields_emit hin).andThen (yields_pure _)

/-- The loop of `ndL_skip` fetches bytes of the file only, and ends. -/
theorem skipLoop_does {n : ℕ} (hn : s.rest.length < n) (comment : Bool) :
    Does data (skipLoop mem n comment s) (s.advance (skipped comment s.rest)) := by
  induction n generalizing s comment with
  | zero => exact absurd hn (Nat.not_lt_zero _)
  | succ n ih =>
    rw [skipLoop]
    by_cases hlt : s.offset < s.data.length
    · rw [if_pos hlt]
      have hrest := h.rest_eq hs hlt
      refine (fetch_does hs hlt).andThen ?_
      rw [hrest, List.length_cons] at hn
      rw [hrest, skipped]
      dsimp only
      split_ifs
      · exact does_pure _
      · have hnext := ih (s := s.advance 1) hs (Nat.lt_of_succ_lt_succ hn)
          (comment || mem s.offset == ch '#')
        rwa [s.advance_advance, Nat.add_comm] at hnext
    · rw [if_neg hlt]
      have hnil : s.rest = [] := List.drop_eq_nil_of_le (Nat.not_lt.1 hlt)
      rw [hnil, skipped]
      exact does_pure _

omit h in
/-- There are rounds enough for what is left, wherever the cursor stands. -/
theorem length_rest_lt_rounds (hrounds : data.length < rounds) : s.rest.length < rounds := by
  rw [Cursor.length_rest, hs]
  omega

theorem ndLSkip_does : Does data (ndLSkip mem rounds s) (Ndppd.ndLSkip s) :=
  skipLoop_does h hs (length_rest_lt_rounds hs h.rounds) false

theorem ndLAccept_does (valid : List U8) :
    Does data (ndLAccept mem s valid) (Ndppd.ndLAccept s valid) := by
  rw [ndLAccept, Ndppd.ndLAccept]
  by_cases hlt : s.offset < s.data.length
  · rw [if_neg (Nat.not_le.2 hlt), h.rest_eq hs hlt]
    refine (fetch_does hs hlt).andThen ?_
    dsimp only
    split_ifs
    · exact does_pure _
    · exact does_pure _
    · exact does_pure _
  · have hle := Nat.not_lt.1 hlt
    rw [if_pos hle, show s.rest = [] from List.drop_eq_nil_of_le hle]
    exact does_pure _

/-- The copying loop writes within the buffer: it stops where no room is left. -/
theorem copyLoop_does {size room : ℕ} (hroom : room ≤ size) (ok : ℕ → U8 → Bool) {n : ℕ}
    (hn : s.rest.length < n) (buf : List U8) :
    Does data (copyLoop mem size room ok n s buf)
      (buf ++ copied ok buf.length (s.rest.take (room - buf.length)),
        s.advance (copied ok buf.length (s.rest.take (room - buf.length))).length) := by
  induction n generalizing s buf with
  | zero => exact absurd hn (Nat.not_lt_zero _)
  | succ n ih =>
    rw [copyLoop]
    by_cases hgo : buf.length < room ∧ s.offset < s.data.length
    · rw [if_pos hgo]
      obtain ⟨hfit, hlt⟩ := hgo
      have hrest := h.rest_eq hs hlt
      have htake : room - buf.length = room - (buf.length + 1) + 1 := by omega
      refine (fetch_does hs hlt).andThen ?_
      rw [hrest, List.length_cons] at hn
      rw [hrest, htake, List.take_succ_cons, copied]
      by_cases hok : ok buf.length (mem s.offset) = true
      · rw [if_neg (by simp [hok]), if_pos hok]
        have hin : Touch.Within data.length (.write size buf.length) := hfit.trans_le hroom
        have hnext := ih (s := s.advance 1) hs (Nat.lt_of_succ_lt_succ hn)
          (buf ++ [mem s.offset])
        rw [s.advance_advance, List.length_append, List.length_singleton, List.append_assoc,
          List.singleton_append, Nat.add_comm 1] at hnext
        exact (yields_emit hin).andThen hnext
      · rw [if_pos (by simpa using hok), if_neg hok, List.append_nil]
        exact does_pure _
    · have hnil : copied ok buf.length (s.rest.take (room - buf.length)) = [] := by
        have : s.rest.take (room - buf.length) = [] := by
          rw [List.take_eq_nil_iff, Nat.sub_eq_zero_iff_le, Cursor.rest, List.drop_eq_nil_iff]
          omega
        rw [this, copied]
      rw [if_neg hgo, hnil, List.append_nil]
      exact does_pure _

omit h hs in
/-- The position tells whether something has been read. -/
theorem advance_offset_eq_iff (buf : List U8) :
    (s.advance buf.length).offset = s.offset ↔ buf = [] := by
  rw [← List.length_eq_zero_iff]
  exact Nat.add_eq_left

/-- A token, and where it ends. -/
theorem acceptToken_does (p : U8 → Bool) : Does data (acceptToken mem rounds p s)
    ((token p s.rest).map fun buf => (buf, s.advance buf.length)) := by
  have hcopy := copyLoop_does h hs (Nat.le_refl 64) (fun _ => p)
    (length_rest_lt_rounds hs h.rounds) []
  rw [copied_class, List.nil_append, List.length_nil, Nat.sub_zero] at hcopy
  rw [acceptToken, token]
  refine hcopy.andThen ?_
  dsimp only
  have hlen : ((s.rest.take 64).takeWhile p).length ≤ 64 :=
    ((List.takeWhile_sublist p).length_le).trans (List.length_take_le ..)
  generalize (s.rest.take 64).takeWhile p = buf at hlen
  have hoffset := advance_offset_eq_iff (s := s) buf
  by_cases hbad : buf.length = 64 ∨ buf = []
  · rw [if_pos (hbad.imp_right hoffset.2), if_pos hbad]
    exact does_pure _
  · have hin : Touch.Within data.length (.write 64 buf.length) :=
      Nat.lt_of_le_of_ne hlen fun hfull => hbad (.inl hfull)
    rw [if_neg fun hstop => hbad (hstop.imp_right hoffset.1), if_neg hbad]
    exact (yields_emit hin).andThen (does_pure _)

theorem ndLAcceptInt_does (min max : ℤ) : Does data (ndLAcceptInt mem rounds s min max)
    (stored s (Ndppd.ndLAcceptInt s min max)) := by
  rw [Ndppd.ndLAcceptInt]
  refine (acceptToken_does h hs _).andThen ?_
  cases token (fun c => isdigit c || c == ch '-') s.rest with
  | none => exact does_pure _
  | some buf =>
    dsimp only [Option.map_some]
    cases strtoll buf with
    | none => exact does_pure _
    | some value =>
      dsimp only
      split_ifs
      · exact does_pure _
      · exact does_pure _

/-- An address is copied, then converted: the cursor is stored last. -/
theorem acceptWith_does {α : Type} (p : U8 → Bool) (convert : List U8 → Option α)
    (error : String) : Does data (acceptWith mem rounds p convert error s)
      (storedParse s (Ndppd.acceptWith p convert error s)) := by
  rw [Ndppd.acceptWith]
  refine (acceptToken_does h hs p).andThen ?_
  cases token p s.rest with
  | none => exact does_pure _
  | some buf =>
    dsimp only [Option.map_some]
    cases convert buf with
    | none => exact does_pure _
    | some addr => exact does_pure _

/-- A full buffer is not the end of a name: the next byte tells. -/
theorem goesOn_does (full : Bool) :
    Does data (goesOn mem full s) (full && s.rest.head?.any isNameChar) := by
  rw [goesOn]
  by_cases hlt : s.offset < s.data.length
  · rw [h.rest_eq hs hlt]
    cases full with
    | true =>
      rw [if_pos ⟨rfl, hlt⟩]
      exact (fetch_does hs hlt).andThen (does_pure _)
    | false => exact does_pure _
  · rw [if_neg fun hand => hlt hand.2, show s.rest = [] from List.drop_eq_nil_of_le (by omega),
      List.head?_nil, Option.any_none, Bool.and_false]
    exact does_pure _

/-- A name, and where it ends: there is room for the NUL. -/
theorem ndLAcceptName_does (size : ℕ) :
    Does data (ndLAcceptName mem rounds s size) (stored s (Ndppd.ndLAcceptName s size)) := by
  have hcopy := copyLoop_does h hs (Nat.sub_le size 1) okName (length_rest_lt_rounds hs h.rounds) []
  rw [List.nil_append, List.length_nil, Nat.sub_zero, copied_name] at hcopy
  rw [ndLAcceptName, Ndppd.ndLAcceptName, nameToken]
  refine hcopy.andThen ?_
  dsimp only
  have hlen : (nameScan (size - 1) s.rest).length ≤ size - 1 :=
    (nameScan_sublist (size - 1) s.rest).length_le.trans (List.length_take_le ..)
  generalize nameScan (size - 1) s.rest = buf at hlen
  have hoffset := advance_offset_eq_iff (s := s) buf
  by_cases hnil : buf = []
  · rw [if_pos (hoffset.2 hnil), if_pos hnil]
    exact does_pure _
  · rw [if_neg (mt hoffset.1 hnil), if_neg hnil, ← s.rest_advance]
    refine (goesOn_does h (s := s.advance buf.length) hs (buf.length ≥ size - 1)).andThen ?_
    by_cases hlong : buf.length ≥ size - 1 ∧ (s.advance buf.length).rest.head?.any isNameChar
    · rw [if_pos (by simpa using hlong), if_pos hlong]
      exact does_pure _
    · -- A name is not empty, so that the loop has left a byte of the buffer.
      have hpos := List.length_pos_iff.2 hnil
      have hin : Touch.Within data.length (.write size buf.length) := by
        change buf.length < size
        omega
      rw [if_neg (by simpa using hlong), if_neg hlong]
      exact (yields_emit hin).andThen (does_pure _)

theorem ndLAcceptBool_does :
    Does data (ndLAcceptBool mem rounds s) (stored s (Ndppd.ndLAcceptBool s)) := by
  rw [Ndppd.ndLAcceptBool]
  refine (ndLAcceptName_does h hs 16).andThen ?_
  cases Ndppd.ndLAcceptName s 16 with
  | none => exact does_pure _
  | some x =>
    dsimp only [stored]
    split_ifs
    · exact does_pure _
    · exact does_pure _
    · exact does_pure _

end Tokens

end Touching

namespace InPlace

open Touching (stored storedParse Holds)

/-! ## The functions on their own

The data is all the memory there is, and there are rounds for all of it. -/

/-- The memory of a cursor by itself: its text, and NUL behind it. -/
def memory (state : Cursor) (i : ℕ) : U8 := state.data.getD i 0

def ndLAccept (state : Cursor) (valid : List U8) : U8 × Cursor :=
  (Touching.ndLAccept (memory state) state valid).getD (0, state)

def ndLAcceptInt (state : Cursor) (min max : ℤ) : Option ℤ × Cursor :=
  (Touching.ndLAcceptInt (memory state) (state.data.length + 1) state min max).getD (none, state)

def ndLAcceptAddr (libc : Libc) (state : Cursor) : Parse Addr × Cursor :=
  (Touching.ndLAcceptAddr (memory state) (state.data.length + 1) libc state).getD
    (.error [], state)

def ndLAcceptLladdr (libc : Libc) (state : Cursor) : Parse LlAddr × Cursor :=
  (Touching.ndLAcceptLladdr (memory state) (state.data.length + 1) libc state).getD
    (.error [], state)

def ndLAcceptName (state : Cursor) (size : ℕ) : Option (List U8) × Cursor :=
  (Touching.ndLAcceptName (memory state) (state.data.length + 1) state size).getD (none, state)

def ndLAcceptBool (state : Cursor) : Option Bool × Cursor :=
  (Touching.ndLAcceptBool (memory state) (state.data.length + 1) state).getD (none, state)

variable {s : Cursor}

/-- It holds the text. -/
theorem holds_memory (s : Cursor) : Holds (memory s) (s.data.length + 1) s.data where
  mem i hi := by rw [memory, List.getD, List.getElem?_eq_getElem hi, Option.getD_some]
  rounds := Nat.lt_succ_self _

/-- In place, the cursor is where the model says. -/
theorem ndLAccept_eq (valid : List U8) : ndLAccept s valid = Ndppd.ndLAccept s valid :=
  (Touching.ndLAccept_does (holds_memory s) rfl valid).getD_eq _

/-- In place, the cursor moves with the number that is read, or not at all. -/
theorem ndLAcceptInt_eq (min max : ℤ) :
    ndLAcceptInt s min max = stored s (Ndppd.ndLAcceptInt s min max) :=
  (Touching.ndLAcceptInt_does (holds_memory s) rfl min max).getD_eq _

theorem ndLAcceptAddr_eq (libc : Libc) :
    ndLAcceptAddr libc s = storedParse s (Ndppd.ndLAcceptAddr libc s) :=
  (Touching.acceptWith_does (holds_memory s) rfl ..).getD_eq _

theorem ndLAcceptLladdr_eq (libc : Libc) :
    ndLAcceptLladdr libc s = storedParse s (Ndppd.ndLAcceptLladdr libc s) :=
  (Touching.acceptWith_does (holds_memory s) rfl ..).getD_eq _

theorem ndLAcceptName_eq (size : ℕ) :
    ndLAcceptName s size = stored s (Ndppd.ndLAcceptName s size) :=
  (Touching.ndLAcceptName_does (holds_memory s) rfl size).getD_eq _

theorem ndLAcceptBool_eq : ndLAcceptBool s = stored s (Ndppd.ndLAcceptBool s) :=
  (Touching.ndLAcceptBool_does (holds_memory s) rfl).getD_eq _

/-! ## They fail without moving -/

/-- The names that `ndL_accept_name` is for: a letter, then letters, digits and the
    characters of `valid`. -/
def IsName (str : List U8) : Prop :=
  ∃ c t, str = c :: t ∧ isalpha c = true ∧ ∀ b ∈ t, isalnum b = true ∨ b ∈ bytes "$-_."

/-- What the grammar relies on, at a position. -/
structure Atomic (libc : Libc) (s : Cursor) : Prop where
  accept : ∀ valid s', ndLAccept s valid = (0, s') → s' = s
  int : ∀ min max s', ndLAcceptInt s min max = (none, s') → s' = s
  addr : ∀ log s', ndLAcceptAddr libc s = (.error log, s') → s' = s
  lladdr : ∀ log s', ndLAcceptLladdr libc s = (.error log, s') → s' = s
  name : ∀ size s', ndLAcceptName s size = (none, s') → s' = s
  bool : ∀ s', ndLAcceptBool s = (none, s') → s' = s
  /-- The string that is stored is what has been consumed, and it is a name. -/
  exact : ∀ size str s', ndLAcceptName s size = (some str, s') →
    s' = s.advance str.length ∧ str = s.rest.take str.length ∧ IsName str

/-- There is no NUL at the position, nor in the name that begins there. -/
def NoNul (s : Cursor) : Prop := 0 ∉ s.rest.take 1 ∧ 0 ∉ nameScan s.rest.length s.rest

/-- Where nothing is read, the cursor has not been stored. -/
theorem stored_none {α : Type} {r : Option (α × Cursor)} {s' : Cursor}
    (h : stored s r = (none, s')) : s' = s := by
  cases r with
  | none => exact (congrArg Prod.snd h).symm
  | some x => exact absurd (congrArg Prod.fst h) (Option.some_ne_none _)

/-- Nor has it where an error is logged. -/
theorem storedParse_error {α : Type} {r : Parse (α × Cursor)} {log : List Message} {s' : Cursor}
    (h : storedParse s r = (.error log, s')) : s' = s := by
  cases r with
  | error log' => exact (congrArg Prod.snd h).symm
  | ok x => exact absurd (congrArg Prod.fst h) (by simp [storedParse])

theorem takeWhile_isPrefix {p : U8 → Bool} {t k : List U8} (h : t <+: k) :
    t.takeWhile p <+: k.takeWhile p := by
  obtain ⟨d, rfl⟩ := h
  rw [List.takeWhile_append]
  split_ifs
  · exact (List.takeWhile_prefix p).trans (List.prefix_append ..)
  · exact List.prefix_rfl

/-- A shorter buffer gets the beginning of the name. -/
theorem nameScan_isPrefix (n : ℕ) (t : List U8) : nameScan n t <+: nameScan t.length t := by
  rw [nameScan, nameScan, List.take_length]
  cases n with
  | zero => exact List.nil_prefix
  | succ n =>
    cases t with
    | nil => exact List.nil_prefix
    | cons c t =>
      rw [List.take_succ_cons]
      dsimp only
      split_ifs
      · exact List.cons_prefix_cons.2 ⟨rfl, takeWhile_isPrefix (List.take_prefix n t)⟩
      · exact List.prefix_rfl

theorem nameScan_length_isPrefix (t : List U8) : nameScan t.length t <+: t := by
  rw [nameScan, List.take_length]
  cases t with
  | nil => exact List.nil_prefix
  | cons c t =>
    dsimp only
    split_ifs
    · exact List.cons_prefix_cons.2 ⟨rfl, List.takeWhile_prefix _⟩
    · exact List.nil_prefix

theorem isName_nameScan {n : ℕ} {t : List U8} (hne : nameScan n t ≠ [])
    (hnul : 0 ∉ nameScan n t) : IsName (nameScan n t) := by
  rw [nameScan] at hne hnul ⊢
  cases ht : t.take n with
  | nil => exact absurd (by rw [ht]) hne
  | cons c k =>
    rw [ht] at hne hnul
    dsimp only at hne hnul ⊢
    by_cases hc : isalpha c = true
    · rw [if_pos hc] at hnul ⊢
      refine ⟨c, _, rfl, hc, fun b hb => ?_⟩
      have hname : isNameChar b = true := List.mem_takeWhile_imp hb
      have hb0 : b ≠ 0 := fun h => hnul (List.mem_cons_of_mem _ (h ▸ hb))
      rcases Bool.or_eq_true_iff.1 hname with halnum | hvalid
      · exact .inl halnum
      · rw [strchr, Bool.or_eq_true_iff, beq_iff_eq, or_iff_left hb0] at hvalid
        exact .inr (List.contains_iff_mem.1 hvalid)
    · rw [if_neg hc] at hne
      exact absurd rfl hne

/-- A string ends where its bytes do if none of them is NUL. -/
theorem cString_eq_self_iff {buf : List U8} : cString buf = buf ↔ 0 ∉ buf := by
  rw [cString, List.takeWhile_eq_self_iff]
  exact ⟨fun h h0 => absurd (h 0 h0) (by decide),
    fun h c hc => bne_iff_ne.2 fun h0 => h (h0 ▸ hc)⟩

/-- At the end of a name there is more to read only if the buffer is full. -/
theorem ndLAcceptName_whole (hne : nameScan s.rest.length s.rest ≠ []) :
    ndLAcceptName s (s.rest.length + 1) = (some (cString (nameScan s.rest.length s.rest)),
      s.advance (nameScan s.rest.length s.rest).length) := by
  have hfits : ¬((nameScan s.rest.length s.rest).length ≥ s.rest.length ∧
      (s.rest.drop (nameScan s.rest.length s.rest).length).head?.any isNameChar = true) := by
    rintro ⟨hfull, hany⟩
    rw [List.drop_eq_nil_of_le hfull] at hany
    exact absurd hany (by decide)
  rw [ndLAcceptName_eq, Ndppd.ndLAcceptName, nameToken, Nat.add_sub_cancel, if_neg hne,
    if_neg hfits]
  rfl

/-- `strchr` finds a NUL in every set of characters, the empty one as well. -/
theorem ndLAccept_nul (h0 : 0 ∈ s.rest.take 1) : ndLAccept s [] = (0, s.advance 1) := by
  cases hrest : s.rest with
  | nil =>
    rw [hrest] at h0
    exact absurd h0 List.not_mem_nil
  | cons c t =>
    rw [hrest, List.take_succ_cons, List.take_zero, List.mem_singleton] at h0
    rw [ndLAccept_eq, Ndppd.ndLAccept, hrest, ← h0]
    rfl

/-- At any other byte, `ndL_accept` fails without moving. -/
theorem ndLAccept_fails (hhead : 0 ∉ s.rest.take 1) {valid : List U8} {s' : Cursor}
    (h : ndLAccept s valid = (0, s')) : s' = s := by
  rw [ndLAccept_eq, Ndppd.ndLAccept] at h
  cases hrest : s.rest with
  | nil =>
    rw [hrest] at h
    exact (congrArg Prod.snd h).symm
  | cons c t =>
    rw [hrest] at h hhead
    dsimp only at h
    split_ifs at h with hvalid hnl
    · exact (congrArg Prod.snd h).symm
    · have hzero : 0 = ch '\n' := (congrArg Prod.fst h).symm.trans hnl
      exact absurd hzero (by decide)
    · refine absurd ?_ hhead
      rw [List.take_succ_cons]
      exact List.mem_cons.2 (.inl (congrArg Prod.fst h).symm)

/-- A name without a NUL is stored as it has been consumed. -/
theorem ndLAcceptName_exact (hname : 0 ∉ nameScan s.rest.length s.rest) {size : ℕ}
    {str : List U8} {s' : Cursor} (h : ndLAcceptName s size = (some str, s')) :
    s' = s.advance str.length ∧ str = s.rest.take str.length ∧ IsName str := by
  have hnul : 0 ∉ nameScan (size - 1) s.rest :=
    fun h0 => hname ((nameScan_isPrefix _ _).subset h0)
  have hprefix : nameScan (size - 1) s.rest <+: s.rest :=
    (nameScan_isPrefix _ _).trans (nameScan_length_isPrefix _)
  rw [ndLAcceptName_eq, Ndppd.ndLAcceptName, nameToken] at h
  split_ifs at h with hempty hfull
  · exact absurd (congrArg Prod.fst h).symm (Option.some_ne_none _)
  · exact absurd (congrArg Prod.fst h).symm (Option.some_ne_none _)
  · dsimp only [stored] at h
    rw [cString_eq_self_iff.2 hnul] at h
    obtain rfl := Option.some.inj (congrArg Prod.fst h)
    obtain rfl := congrArg Prod.snd h
    exact ⟨rfl, List.prefix_iff_eq_take.1 hprefix, isName_nameScan hempty hnul⟩

/-- The functions that read a token leave the position alone when they fail, and
    `ndL_accept_name` stores what it has consumed, unless there is a NUL. -/
theorem atomic_iff (libc : Libc) (s : Cursor) : Atomic libc s ↔ NoNul s := by
  constructor
  · intro h
    constructor
    · intro h0
      have hoffset := congrArg Cursor.offset (h.accept _ _ (ndLAccept_nul h0))
      exact absurd hoffset (Nat.succ_ne_self _)
    · intro h0
      have hne : nameScan s.rest.length s.rest ≠ [] := List.ne_nil_of_mem h0
      obtain ⟨hs', -, -⟩ := h.exact _ _ _ (ndLAcceptName_whole hne)
      have hlength : (nameScan s.rest.length s.rest).length =
          (cString (nameScan s.rest.length s.rest)).length :=
        Nat.add_left_cancel (congrArg Cursor.offset hs')
      have hsame := (List.takeWhile_sublist _).eq_of_length hlength.symm
      exact cString_eq_self_iff.1 hsame h0
  · rintro ⟨hhead, hname⟩
    refine ⟨?_, ?_, ?_, ?_, ?_, ?_, ?_⟩
    · exact fun valid s' h => ndLAccept_fails hhead h
    · exact fun min max s' h => stored_none (ndLAcceptInt_eq min max ▸ h)
    · exact fun log s' h => storedParse_error (ndLAcceptAddr_eq libc ▸ h)
    · exact fun log s' h => storedParse_error (ndLAcceptLladdr_eq libc ▸ h)
    · exact fun size s' h => stored_none (ndLAcceptName_eq size ▸ h)
    · exact fun s' h => stored_none (ndLAcceptBool_eq ▸ h)
    · exact fun size str s' h => ndLAcceptName_exact hname h

/-- At a NUL, `ndL_accept` fails and moves. -/
theorem Small.nul_not_atomic : ¬Atomic Small.loopback { data := [0] } := by
  intro h
  have hmoved := h.accept [] { data := [0], offset := 1, column := 1 } rfl
  exact absurd (congrArg Cursor.offset hmoved) (by decide)

end InPlace

end Ndppd
