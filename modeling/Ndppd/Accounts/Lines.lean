import Ndppd.Accounts

/-!
# Lines of the account files

What a lookup by name is for: the account of a name is the first line of the file whose
first field is the name (`accountLine`), with its identities in other fields
(`accountIds`). The lookups read pieces of 511 bytes, each of them up to a NUL, and drop
carriage returns at the end of a field.

The account is found if no piece of a line before it is taken for a record of the name
(`Silent`), and the fields of its line up to its identities are within the first piece and
read as they are (`Readable`). What comes behind does not matter. A line before it that is
not silent hides the account, whatever its line is (`lookups_iff`).
-/

namespace Ndppd

namespace Accounts

/-! ## Lines and fields -/

/-- A text is what comes before the first byte `x`, and then a text, unless there is none. -/
theorem split_induction (x : U8) {P : List U8 → Prop} (last : ∀ l, x ∉ l → P l)
    (cons : ∀ l rest, x ∉ l → P rest → P (l ++ x :: rest)) (t : List U8) : P t := by
  induction h : t.length using Nat.strong_induction_on generalizing t with
  | _ n ih =>
    by_cases hx : x ∈ t
    · obtain ⟨l, rest, rfl, hl⟩ := List.eq_append_cons_of_mem hx
      refine cons l rest hl (ih rest.length ?_ rest rfl)
      rw [List.length_append, List.length_cons] at h
      omega
    · exact last t hx

def lines (file : List U8) : List (List U8) := file.splitOn (ch '\n')

def fields (line : List U8) : List (List U8) := line.splitOn (ch ':')

/-- The numbers in the fields at `positions`, if they are numbers of at most 31 digits. The
    fields are taken as `clean` leaves them. -/
def idsWith (clean : List U8 → List U8) (number : List U8 → ℕ) (positions : List ℕ)
    (t : List U8) : Option (List ℕ) :=
  (positions.mapM fun n => (fields t)[n]?.map clean).bind fun ids =>
    if ids.all fun d => ndLAllDigits d && d.length < 32 then some (ids.map number) else none

/-- The identities of a line. -/
def lineIds : List ℕ → List U8 → Option (List ℕ) := idsWith id decimal

/-- The account with this name: the first line whose first field is the name. -/
def accountLine (name file : List U8) : Option (List U8) :=
  (lines file).find? fun l => (fields l)[0]? = some name

/-- The lines before it. -/
def before (name file : List U8) : List (List U8) :=
  (lines file).takeWhile fun l => (fields l)[0]? ≠ some name

/-- The identities of the account with this name. -/
def accountIds (positions : List ℕ) (name file : List U8) : Option (List ℕ) :=
  (accountLine name file).bind (lineIds positions)

variable {s t l name rest : List U8} {n room : ℕ} {positions : List ℕ}

theorem lines_last (h : ch '\n' ∉ l) : lines l = [l] := List.splitOn_eq_singleton h

theorem lines_cons (h : ch '\n' ∉ l) (rest : List U8) :
    lines (l ++ ch '\n' :: rest) = l :: lines rest :=
  List.splitOn_append_cons_self_of_not_mem h rest

theorem fields_last (h : ch ':' ∉ l) : fields l = [l] := List.splitOn_eq_singleton h

theorem fields_cons (h : ch ':' ∉ l) (rest : List U8) :
    fields (l ++ ch ':' :: rest) = l :: fields rest :=
  List.splitOn_append_cons_self_of_not_mem h rest

theorem bne_of_not_mem {x : U8} (h : x ∉ l) : ∀ c ∈ l, (c != x) = true :=
  fun _ hc => bne_iff_ne.2 fun hcx => h (hcx ▸ hc)

/-- The fields that `ndL_split_field` finds are those between the colons. -/
theorem fieldStart_eq (n : ℕ) (t : List U8) :
    (fieldStart n t).map (List.takeWhile (· != ch ':')) = (fields t)[n]? := by
  induction t using split_induction (ch ':') generalizing n with
  | last l hl =>
    have hall := bne_of_not_mem hl
    rw [fields_last hl]
    cases n with
    | zero => simp [fieldStart, List.takeWhile_eq_self_iff.2 hall]
    | succ n =>
      have hnone : afterColon l = none := by
        rw [afterColon, List.dropWhile_eq_nil_iff.2 hall]
      rw [fieldStart, hnone]
      rfl
  | cons l rest hl ih =>
    have hall := bne_of_not_mem hl
    rw [fields_cons hl]
    cases n with
    | zero => simp [fieldStart, List.takeWhile_append_of_pos hall]
    | succ n =>
      have hsome : afterColon (l ++ ch ':' :: rest) = some rest := by
        rw [afterColon, List.dropWhile_append_of_pos hall]
        simp
      rw [fieldStart, hsome]
      exact ih n

theorem ndLSplitField_eq (t : List U8) (n size : ℕ) : ndLSplitField t n size =
    ((fields t)[n]?.map trimmed).filter fun d => d.length < size := by
  rw [← fieldStart_eq, ndLSplitField]
  cases fieldStart n t with
  | none => rfl
  | some start =>
    rw [Option.bind_some, Option.map_some, Option.map_some]
    by_cases h : (trimmed (start.takeWhile (· != ch ':'))).length < size
    · rw [if_neg (Nat.not_le.2 h)]
      simp [Option.filter, h]
    · rw [if_pos (Nat.not_lt.1 h)]
      simp [Option.filter, h]

/-! ## Records and their identities -/

/-- What the string in the buffer starts with: the name is the first field, up to
    carriage returns at its end. -/
def Begins (name t : List U8) : Prop := (fields t)[0]?.map trimmed = some name

instance (name t : List U8) : Decidable (Begins name t) := inferInstanceAs (Decidable (_ = _))

theorem trimmed_of_begins (h : Begins name t) : trimmed name = name := by
  obtain ⟨field, -, rfl⟩ := Option.map_eq_some_iff.1 h
  exact List.rdropWhile_idempotent _ _

/-- A number, as it is converted: clamped by `strtoul`, and without its high bits. -/
def converted (d : List U8) : ℕ := min (decimal d) ulongMax % 2 ^ 32

/-- The identities in a string, as they are read: up to carriage returns, and converted. -/
def readIds : List ℕ → List U8 → Option (List ℕ) := idsWith trimmed converted

theorem ndLSplitField_zero_iff (hname : name.length < 128) (t : List U8) :
    ndLSplitField t 0 128 = some name ↔ Begins name t := by
  rw [ndLSplitField_eq, Option.filter_eq_some_iff, decide_eq_true_iff, and_iff_left hname, Begins]

/-- The fields fit if each of them does. -/
theorem mapM_filter (f : ℕ → Option (List U8)) (p : List U8 → Bool) (positions : List ℕ) :
    (positions.mapM fun n => (f n).filter p) = (positions.mapM f).filter fun ids => ids.all p := by
  induction positions with
  | nil => rfl
  | cons n positions ih =>
    rw [List.mapM_cons, List.mapM_cons, ih]
    cases f n with
    | none => rfl
    | some d =>
      cases positions.mapM f with
      | none => cases p d <;> simp [Option.filter, *]
      | some ids => cases hd : p d <;> cases hids : ids.all p <;> simp [Option.filter, hd, hids]

theorem fileId_toNat {d : List U8} (hd : ndLAllDigits d = true) :
    (fileId d).toNat = converted d := by
  rw [fileId, toId, BitVec.toNat_ofNat, strtoul, takeWhile_isdigit hd, converted]

/-- The identities as the loops return them. -/
def numbers (ids : Option (List (List U8))) : Option (List ℕ) :=
  ids.map fun ids => ids.map fun d => (fileId d).toNat

theorem numbers_recordIds (positions : List ℕ) (t : List U8) :
    numbers (recordIds positions t) = readIds positions t := by
  have hfields : (positions.mapM fun n => ndLSplitField t n 32) =
      (positions.mapM fun n => (fields t)[n]?.map trimmed).filter
        fun ids => ids.all fun d => d.length < 32 := by
    rw [← mapM_filter]
    simp only [ndLSplitField_eq]
  rw [recordIds, hfields, readIds, idsWith]
  cases positions.mapM fun n => (fields t)[n]?.map trimmed with
  | none => rfl
  | some ids =>
    have hall : (ids.all fun d => ndLAllDigits d && decide (d.length < 32)) =
        ((ids.all fun d => decide (d.length < 32)) && ids.all ndLAllDigits) := by
      rw [Bool.eq_iff_iff]
      simp only [List.all_eq_true, Bool.and_eq_true]
      exact ⟨fun h => ⟨fun d hd => (h d hd).2, fun d hd => (h d hd).1⟩,
        fun h d hd => ⟨h.2 d hd, h.1 d hd⟩⟩
    rw [Option.bind_some, hall]
    by_cases hlength : (ids.all fun d => decide (d.length < 32)) = true
    · by_cases hdigits : ids.all ndLAllDigits = true
      · have hnumber : ids.map (fun d => (fileId d).toNat) = ids.map converted :=
          List.map_congr_left fun d hd => fileId_toNat (List.all_eq_true.1 hdigits d hd)
        simp only [Option.filter, hlength, hdigits, if_true, Bool.and_true, numbers,
          Option.map_some, hnumber]
      · simp [Option.filter, hlength, hdigits, numbers]
    · simp [Option.filter, hlength, numbers]

/-! ## Pieces -/

/-- The newline at the end of a string is not part of a field. -/
theorem fields_newline (t : List U8) (n : ℕ) :
    (fields (t ++ [ch '\n']))[n]?.map trimmed = (fields t)[n]?.map trimmed := by
  induction t using split_induction (ch ':') generalizing n with
  | last l hl =>
    have hl' : ch ':' ∉ l ++ [ch '\n'] := by
      rw [List.mem_append, List.mem_singleton]
      exact fun h => h.elim hl (by decide)
    rw [fields_last hl, fields_last hl']
    cases n with
    | zero => exact congrArg some (List.rdropWhile_concat_pos _ _ _ (by decide))
    | succ n => rfl
  | cons l rest hl ih =>
    rw [List.append_assoc, List.cons_append, fields_cons hl, fields_cons hl]
    cases n with
    | zero => rfl
    | succ n => exact ih n

theorem cString_concat (l : List U8) :
    cString (l ++ [ch '\n']) = cString l ∨ cString (l ++ [ch '\n']) = cString l ++ [ch '\n'] := by
  rw [cString, List.takeWhile_append, cString]
  split_ifs with h
  · have hself := (List.takeWhile_sublist (· != 0)).eq_of_length h
    rw [hself]
    exact .inr rfl
  · exact .inl rfl

/-- A line is read without its newline. -/
theorem begins_newline (name l : List U8) :
    Begins name (cString (l ++ [ch '\n'])) ↔ Begins name (cString l) := by
  rcases cString_concat l with h | h
  · rw [h]
  · rw [h, Begins, Begins, fields_newline]

theorem readIds_newline (positions : List ℕ) (l : List U8) :
    readIds positions (cString (l ++ [ch '\n'])) = readIds positions (cString l) := by
  rcases cString_concat l with h | h
  · rw [h]
  · rw [h]
    simp only [readIds, idsWith, fields_newline]

theorem fgets_append (room : ℕ) (fp : List U8) : (fgets room fp).1 ++ (fgets room fp).2 = fp := by
  fun_induction fgets room fp with
  | case1 => rfl
  | case2 => rfl
  | case3 => rfl
  | case4 room c fp hc line fp' hread ih =>
    rw [hread] at ih
    exact congrArg (c :: ·) ih

theorem fgets_line (hl : ch '\n' ∉ l) (h : l.length < room) (rest : List U8) :
    fgets room (l ++ ch '\n' :: rest) = (l ++ [ch '\n'], rest) := by
  induction l generalizing room with
  | nil =>
    obtain ⟨room, rfl⟩ := Nat.exists_eq_succ_of_ne_zero h.ne'
    rw [List.nil_append, fgets, if_pos rfl]
    rfl
  | cons c l ih =>
    rw [List.mem_cons, not_or] at hl
    obtain ⟨room, rfl⟩ := Nat.exists_eq_succ_of_ne_zero (Nat.ne_zero_of_lt h)
    rw [List.cons_append, fgets, if_neg (Ne.symm hl.1), ih hl.2 (Nat.succ_lt_succ_iff.1 h)]
    rfl

theorem fgets_last (hl : ch '\n' ∉ l) (h : l.length ≤ room) : fgets room l = (l, []) := by
  induction l generalizing room with
  | nil => cases room <;> rfl
  | cons c l ih =>
    rw [List.mem_cons, not_or] at hl
    obtain ⟨room, rfl⟩ := Nat.exists_eq_succ_of_ne_zero (Nat.ne_zero_of_lt h)
    rw [fgets, if_neg (Ne.symm hl.1), ih hl.2 (Nat.succ_le_succ_iff.1 h)]

theorem fgets_long (hl : ch '\n' ∉ l) (h : room ≤ l.length) (rest : List U8) :
    fgets room (l ++ rest) = (l.take room, l.drop room ++ rest) := by
  induction room generalizing l with
  | zero => rfl
  | succ room ih =>
    cases l with
    | nil => exact absurd h (Nat.not_succ_le_zero room)
    | cons c l =>
      rw [List.mem_cons, not_or] at hl
      rw [List.cons_append, fgets, if_neg (Ne.symm hl.1), ih hl.2 (Nat.succ_le_succ_iff.1 h)]
      rfl

/-- What is read of a line is the line, without or with its newline. -/
theorem fgets_newline (room : ℕ) (fp : List U8) : ∃ l, ch '\n' ∉ l ∧
    ((fgets room fp).1 = l ∨ (fgets room fp).1 = l ++ [ch '\n']) := by
  fun_induction fgets room fp with
  | case1 => exact ⟨[], List.not_mem_nil, .inl rfl⟩
  | case2 => exact ⟨[], List.not_mem_nil, .inl rfl⟩
  | case3 room fp => exact ⟨[], List.not_mem_nil, .inr rfl⟩
  | case4 room c fp hc line fp' hread ih =>
    rw [hread] at ih
    obtain ⟨l, hl, hline⟩ := ih
    refine ⟨c :: l, fun h => (List.mem_cons.1 h).elim (Ne.symm hc) hl, ?_⟩
    exact hline.imp (congrArg (c :: ·)) (congrArg (c :: ·))

/-! ## The loops -/

theorem lookupLoop_congr {rounds rounds' : ℕ} {fp : List U8} (h : fp.length < rounds)
    (h' : fp.length < rounds') :
    lookupLoop positions name rounds fp = lookupLoop positions name rounds' fp := by
  induction rounds generalizing rounds' fp with
  | zero => exact absurd h (Nat.not_lt_zero _)
  | succ rounds ih =>
    obtain ⟨rounds', rfl⟩ := Nat.exists_eq_succ_of_ne_zero (Nat.ne_zero_of_lt h')
    rw [lookupLoop, lookupLoop]
    have hread := congrArg List.length (fgets_append 511 fp)
    rw [List.length_append] at hread
    obtain ⟨line, fp', heq⟩ : ∃ line fp', fgets 511 fp = (line, fp') := ⟨_, _, rfl⟩
    rw [heq] at hread ⊢
    dsimp only at hread ⊢
    by_cases hne : line = []
    · rw [if_pos hne, if_pos hne]
    · rw [if_neg hne, if_neg hne]
      have hpos := List.length_pos_of_ne_nil hne
      have hnext : lookupLoop positions name rounds fp' = lookupLoop positions name rounds' fp' :=
        ih (by omega) (by omega)
      rw [hnext]

/-- The identities that a lookup finds. -/
def found (positions : List ℕ) (name file : List U8) : Option (List ℕ) :=
  numbers (lookup positions name file)

/-- One round: a record is for the name, or the loop goes on. -/
theorem found_round {fp line fp' : List U8} (hname : name.length < 128)
    (hread : fgets 511 fp = (line, fp')) (hne : line ≠ []) : found positions name fp =
      if Begins name (cString line) then readIds positions (cString line)
      else found positions name fp' := by
  have hlength := congrArg List.length (fgets_append 511 fp)
  rw [hread, List.length_append] at hlength
  have hpos := List.length_pos_of_ne_nil hne
  rw [found, lookup, lookupLoop, hread]
  dsimp only at hlength ⊢
  rw [if_neg hne, lookupLine_eq]
  by_cases hbegins : Begins name (cString line)
  · rw [if_pos ((ndLSplitField_zero_iff hname _).2 hbegins), if_pos hbegins]
    exact numbers_recordIds ..
  · rw [if_neg (mt (ndLSplitField_zero_iff hname _).1 hbegins), if_neg hbegins]
    exact congrArg numbers (lookupLoop_congr (by omega) (Nat.lt_succ_self _))

/-- What follows a line in a file, and what is found there. -/
inductive Follows (positions : List ℕ) (name : List U8) : List U8 → Option (List ℕ) → Prop
  | eof : Follows positions name [] none
  | newline (rest : List U8) :
      Follows positions name (ch '\n' :: rest) (found positions name rest)

/-- The pieces of a line that `fgets` reads. (After the end of the line they are empty.) -/
def piece (l : List U8) (k : ℕ) : List U8 := (l.drop (511 * k)).take 511

/-- A name that is looked up: a C string that `ndL_parse_userspec` can take from the
    option. -/
structure IsAccountName (name : List U8) : Prop where
  ne_nil : name ≠ []
  length_lt : name.length < 128
  colon : ch ':' ∉ name
  newline : ch '\n' ∉ name
  nul : 0 ∉ name

theorem not_begins_nil (hname : name ≠ []) : ¬Begins name (cString []) := by
  intro h
  exact hname (Option.some.inj h).symm

variable {r : Option (List ℕ)}

/-- A line that fits into the buffer. -/
theorem found_short (hname : IsAccountName name) (hl : ch '\n' ∉ l) (hlength : l.length < 511)
    (ht : Follows positions name t r) : found positions name (l ++ t) =
      if Begins name (cString l) then readIds positions (cString l) else r := by
  cases ht with
  | eof =>
    rw [List.append_nil]
    by_cases hnil : l = []
    · subst hnil
      rw [if_neg (not_begins_nil hname.ne_nil)]
      rfl
    · rw [found_round hname.length_lt (fgets_last hl hlength.le) hnil]
      rfl
  | newline rest =>
    rw [found_round hname.length_lt (fgets_line hl hlength rest) (by simp),
      readIds_newline, if_congr (begins_newline name l) rfl rfl]

/-- A line that does not fit, or just fits. -/
theorem found_long (hname : IsAccountName name) (hl : ch '\n' ∉ l) (hlength : 511 ≤ l.length)
    (t : List U8) : found positions name (l ++ t) =
      if Begins name (cString (piece l 0)) then readIds positions (cString (piece l 0))
      else found positions name (l.drop 511 ++ t) := by
  refine found_round hname.length_lt (fgets_long hl hlength t) fun hnil => ?_
  rcases List.take_eq_nil_iff.1 hnil with h | rfl
  · exact absurd h (by decide)
  · exact absurd hlength (by decide)

theorem piece_succ (l : List U8) (k : ℕ) : piece l (k + 1) = piece (l.drop 511) k := by
  rw [piece, piece, List.drop_drop, Nat.mul_succ, Nat.add_comm]

theorem piece_short (hlength : l.length ≤ 511) (k : ℕ) : piece l (k + 1) = [] := by
  rw [piece, List.drop_eq_nil_of_le (by omega), List.take_nil]

/-- A line is for the name if the first piece of it that begins so is, and otherwise the
    lookup goes on after the line. -/
theorem found_line (positions : List ℕ) (hname : IsAccountName name) (hl : ch '\n' ∉ l)
    (ht : Follows positions name t r) :
    ((∀ k, ¬Begins name (cString (piece l k))) → found positions name (l ++ t) = r) ∧
      ∀ k, Begins name (cString (piece l k)) → (∀ j < k, ¬Begins name (cString (piece l j))) →
        found positions name (l ++ t) = readIds positions (cString (piece l k)) := by
  induction hn : l.length using Nat.strong_induction_on generalizing l with
  | _ n ih =>
    by_cases hlength : l.length < 511
    · have hwhole : piece l 0 = l := List.take_of_length_le hlength.le
      rw [found_short hname hl hlength ht]
      refine ⟨fun h => if_neg ?_, fun k hk hbefore => ?_⟩
      · exact hwhole ▸ h 0
      · cases k with
        | zero => rw [hwhole] at hk ⊢; rw [if_pos hk]
        | succ k =>
          rw [piece_short hlength.le] at hk
          exact absurd hk (not_begins_nil hname.ne_nil)
    · have hlong := Nat.not_lt.1 hlength
      have hl' : ch '\n' ∉ l.drop 511 := fun h => hl (List.mem_of_mem_drop h)
      obtain ⟨hnone, hsome⟩ := ih (l.drop 511).length (by rw [List.length_drop]; omega) hl' rfl
      rw [found_long hname hl hlong]
      refine ⟨fun h => ?_, fun k hk hbefore => ?_⟩
      · rw [if_neg (h 0)]
        exact hnone fun k => piece_succ l k ▸ h (k + 1)
      · cases k with
        | zero => rw [if_pos hk]
        | succ k =>
          rw [if_neg (hbefore 0 (Nat.succ_pos k)), piece_succ]
          rw [piece_succ] at hk
          exact hsome k hk fun j hj => piece_succ l j ▸ hbefore (j + 1) (Nat.succ_lt_succ hj)

/-- Only names that a line can begin with are found. -/
theorem name_of_found {file : List U8} {ids : List ℕ} (hne : name ≠ [])
    (h : found positions name file = some ids) : IsAccountName name ∧ trimmed name = name := by
  obtain ⟨digits, hlookup, -⟩ := Option.map_eq_some_iff.1 h
  obtain ⟨fp, line, fp', hread, hfield, -⟩ := lookupLoop_eq_some hlookup
  rw [ndLSplitField_eq, Option.filter_eq_some_iff, decide_eq_true_iff] at hfield
  obtain ⟨hbegins, hlength⟩ := hfield
  obtain ⟨l, hl, hline⟩ := fgets_newline 511 fp
  rw [hread] at hline
  have hbegins' : Begins name (cString l) := by
    rcases hline with rfl | rfl
    · exact hbegins
    · exact (begins_newline name l).1 hbegins
  rw [Begins, ← fieldStart_eq, fieldStart, Option.map_some, Option.map_some, Option.some_inj]
    at hbegins'
  have hmem : ∀ c ∈ name, c ∈ l ∧ c ≠ 0 ∧ c ≠ ch ':' := by
    intro c hc
    rw [← hbegins'] at hc
    have hfield := (List.rdropWhile_prefix _ _).subset hc
    have hcolon := List.mem_takeWhile_imp hfield
    have hstring := (List.takeWhile_sublist _).mem hfield
    exact ⟨(List.takeWhile_sublist _).mem hstring, by simpa using List.mem_takeWhile_imp hstring,
      by simpa using hcolon⟩
  exact ⟨⟨hne, hlength, fun h => (hmem _ h).2.2 rfl, fun h => hl (hmem _ h).1,
    fun h => (hmem _ h).2.1 rfl⟩, trimmed_of_begins hbegins⟩

/-! ## Lines that are read as they are -/

/-- No piece of the line is taken for a record of the name: none of them has the name as its
    first field, up to a NUL and to carriage returns at the end of the field. -/
def Silent (name l : List U8) : Prop :=
  ∀ k < l.length / 511 + 1, ¬Begins name (cString (piece l k))

instance (name l : List U8) : Decidable (Silent name l) := by
  unfold Silent
  infer_instance

/-- How many bytes the first `n` fields of a line take, with a colon or the end of the line
    after each of them. -/
def extent (n : ℕ) (l : List U8) : ℕ := (((fields l).take n).map fun d => d.length + 1).sum

/-- The fields up to the identities are within the first 511 bytes of the line, without a NUL,
    and the identities do not end in a carriage return. -/
def Readable (positions : List ℕ) (l : List U8) : Prop :=
  ∀ n ∈ positions, extent (n + 1) l ≤ 512 ∧ (∀ d ∈ (fields l).take (n + 1), cString d = d) ∧
    ∀ d ∈ (fields l)[n]?, trimmed d = d

instance (positions : List ℕ) (l : List U8) : Decidable (Readable positions l) := by
  unfold Readable
  infer_instance

/-- A file whose lines up to the account of the name are read as they are. -/
structure Legible (positions : List ℕ) (name file : List U8) : Prop where
  /-- The name does not end in a carriage return. -/
  named : trimmed name = name
  /-- The lines before the account are not taken for it. -/
  silent : ∀ l ∈ before name file, Silent name l
  /-- The identities of the account are read as they are. -/
  readable : ∀ l ∈ accountLine name file, Readable positions l

theorem Silent.not_begins (h : Silent name l) (hname : name ≠ []) (k : ℕ) :
    ¬Begins name (cString (piece l k)) := by
  by_cases hk : k < l.length / 511 + 1
  · exact h k hk
  · have hend : l.length ≤ 511 * k := by omega
    rw [piece, List.drop_eq_nil_of_le hend, List.take_nil]
    exact not_begins_nil hname

/-- A field that is followed by a colon, in the first bytes of a text. -/
theorem cString_take_cons (hnul : 0 ∉ l) (h : l.length < room) (rest : List U8) :
    cString ((l ++ ch ':' :: rest).take room) =
      l ++ ch ':' :: cString (rest.take (room - l.length - 1)) := by
  obtain ⟨k, hk⟩ : ∃ k, room - l.length = k + 1 := ⟨room - l.length - 1, by omega⟩
  rw [List.take_append, List.take_of_length_le h.le, hk, List.take_succ_cons, cString,
    List.takeWhile_append_of_pos (bne_of_not_mem hnul), List.takeWhile_cons_of_pos (by decide)]
  rfl

theorem cString_take_self (hnul : 0 ∉ l) (h : l.length ≤ room) : cString (l.take room) = l := by
  rw [List.take_of_length_le h, cString, List.takeWhile_eq_self_iff.2 (bne_of_not_mem hnul)]

/-- The fields that are within the first bytes of a text are read as they are. -/
theorem fields_take (hext : extent n l ≤ room + 1) (hnul : ∀ d ∈ (fields l).take n, 0 ∉ d)
    {i : ℕ} (hi : i < n) : (fields (cString (l.take room)))[i]? = (fields l)[i]? := by
  induction l using split_induction (ch ':') generalizing n room i with
  | last l hl =>
    obtain ⟨n, rfl⟩ := Nat.exists_eq_succ_of_ne_zero (Nat.ne_zero_of_lt hi)
    simp only [extent, fields_last hl, List.take_succ_cons, List.take_nil, List.map_cons,
      List.map_nil, List.sum_cons, List.sum_nil, List.mem_singleton, forall_eq] at hext hnul
    rw [cString_take_self hnul (by omega)]
  | cons l rest hl ih =>
    obtain ⟨n, rfl⟩ := Nat.exists_eq_succ_of_ne_zero (Nat.ne_zero_of_lt hi)
    simp only [extent, fields_cons hl, List.take_succ_cons, List.map_cons, List.sum_cons,
      List.mem_cons, forall_eq_or_imp] at hext hnul
    by_cases hroom : l.length < room
    · rw [cString_take_cons hnul.1 hroom, fields_cons hl, fields_cons hl]
      cases i with
      | zero => rfl
      | succ i =>
        rw [List.getElem?_cons_succ, List.getElem?_cons_succ]
        refine ih ?_ hnul.2 (Nat.succ_lt_succ_iff.1 hi)
        rw [extent]
        omega
    · -- The first field ends where the bytes end: no other one is asked for.
      have hzero : (((fields rest).take n).map fun d => d.length + 1).sum = 0 := by omega
      have hn : n = 0 := by
        by_contra hn
        obtain ⟨n, rfl⟩ := Nat.exists_eq_succ_of_ne_zero hn
        have hne : fields rest ≠ [] := List.splitOn_ne_nil _ _
        obtain ⟨d, ds, hds⟩ := List.exists_cons_of_ne_nil hne
        rw [hds, List.take_succ_cons, List.map_cons, List.sum_cons] at hzero
        omega
      obtain rfl : i = 0 := by omega
      have htake : (l ++ ch ':' :: rest).take room = l.take room := by
        rw [List.take_append, Nat.sub_eq_zero_of_le (Nat.not_lt.1 hroom), List.take_zero,
          List.append_nil]
      rw [htake, cString_take_self hnul.1 (by omega), fields_cons hl, fields_last hl]
      rfl

theorem mapM_congr {f g : ℕ → Option (List U8)} (h : ∀ n ∈ positions, f n = g n) :
    positions.mapM f = positions.mapM g := by
  induction positions with
  | nil => rfl
  | cons n positions ih =>
    rw [List.mapM_cons, List.mapM_cons, h n List.mem_cons_self,
      ih fun m hm => h m (List.mem_cons_of_mem n hm)]

/-- The identities of a line that is readable. -/
theorem Readable.readIds_eq (h : Readable positions l) :
    readIds positions (cString (piece l 0)) = idsWith id converted positions l := by
  have hfields : ∀ n ∈ positions, (fields (cString (piece l 0)))[n]?.map trimmed =
      (fields l)[n]?.map id := by
    intro n hn
    obtain ⟨hext, hstring, hends⟩ := h n hn
    have hnul : ∀ d ∈ (fields l).take (n + 1), 0 ∉ d := fun d hd h0 =>
      absurd (List.takeWhile_eq_self_iff.1 (hstring d hd) 0 h0) (by decide)
    rw [piece, Nat.mul_zero, List.drop_zero, fields_take hext hnul (Nat.lt_succ_self n)]
    cases hd : (fields l)[n]? with
    | none => rfl
    | some d => exact congrArg some (hends d hd)
  rw [readIds, idsWith, idsWith]
  exact congrArg (Option.bind · _) (mapM_congr hfields)

/-- The first piece of a line for the name begins with it. -/
theorem fields_piece (hname : IsAccountName name) (h : (fields l)[0]? = some name) :
    (fields (cString (piece l 0)))[0]? = some name := by
  have hlength := hname.length_lt
  have hext : extent 1 l ≤ 512 ∧ ∀ d ∈ (fields l).take 1, 0 ∉ d := by
    rw [extent]
    cases hf : fields l with
    | nil => exact ⟨by simp, by simp⟩
    | cons d ds =>
      rw [hf] at h
      obtain rfl := Option.some.inj h
      simp only [List.take_succ_cons, List.take_zero, List.map_cons, List.map_nil, List.sum_cons,
        List.sum_nil, List.mem_singleton, forall_eq]
      exact ⟨by omega, hname.nul⟩
  rw [piece, Nat.mul_zero, List.drop_zero, fields_take hext.1 hext.2 Nat.one_pos]
  exact h

theorem begins_piece_iff (hname : IsAccountName name) (h : (fields l)[0]? = some name) :
    Begins name (cString (piece l 0)) ↔ trimmed name = name := by
  rw [Begins, fields_piece hname h, Option.map_some, Option.some_inj]

/-- The line of the account ends the lookup. -/
theorem found_account (hname : IsAccountName name) (hl : ch '\n' ∉ l)
    (hfirst : (fields l)[0]? = some name) (htrim : trimmed name = name)
    (hread : Readable positions l) (ht : Follows positions name t r) :
    found positions name (l ++ t) = idsWith id converted positions l := by
  rw [← hread.readIds_eq]
  exact (found_line positions hname hl ht).2 0 ((begins_piece_iff hname hfirst).2 htrim)
    fun j hj => absurd hj (Nat.not_lt_zero j)

/-! ## Files -/

section

variable (hl : ch '\n' ∉ l)

include hl

theorem accountLine_last :
    accountLine name l = if (fields l)[0]? = some name then some l else none := by
  rw [accountLine, lines_last hl, List.find?_singleton]
  split_ifs <;> simp_all

theorem accountLine_cons (rest : List U8) : accountLine name (l ++ ch '\n' :: rest) =
    if (fields l)[0]? = some name then some l else accountLine name rest := by
  rw [accountLine, lines_cons hl, List.find?_cons, accountLine]
  by_cases h : (fields l)[0]? = some name
  · rw [decide_eq_true h, if_pos h]
  · rw [decide_eq_false h, if_neg h]

theorem before_last : before name l = if (fields l)[0]? = some name then [] else [l] := by
  rw [before, lines_last hl]
  split_ifs with h
  · exact List.takeWhile_cons_of_neg (by simpa using h)
  · exact List.takeWhile_cons_of_pos (by simpa using h)

theorem before_cons (rest : List U8) : before name (l ++ ch '\n' :: rest) =
    if (fields l)[0]? = some name then [] else l :: before name rest := by
  rw [before, lines_cons hl, before]
  split_ifs with h
  · exact List.takeWhile_cons_of_neg (by simpa using h)
  · exact List.takeWhile_cons_of_pos (by simpa using h)

end

/-- In a legible file, the account is found. -/
theorem found_of_legible (hname : IsAccountName name) {file : List U8}
    (h : Legible positions name file) :
    found positions name file = (accountLine name file).bind (idsWith id converted positions) := by
  induction file using split_induction (ch '\n') with
  | last l hl =>
    obtain ⟨htrim, hbefore, hread⟩ := h
    rw [accountLine_last hl] at hread ⊢
    rw [before_last hl] at hbefore
    split_ifs at hbefore hread ⊢ with hfirst
    · have hfound := found_account hname hl hfirst htrim (hread l rfl) .eof
      rwa [List.append_nil] at hfound
    · have hfound := (found_line positions hname hl .eof).1
        ((hbefore l (List.mem_singleton_self l)).not_begins hname.ne_nil)
      rwa [List.append_nil] at hfound
  | cons l rest hl ih =>
    obtain ⟨htrim, hbefore, hread⟩ := h
    rw [accountLine_cons hl] at hread ⊢
    rw [before_cons hl] at hbefore
    split_ifs at hbefore hread ⊢ with hfirst
    · exact found_account hname hl hfirst htrim (hread l rfl) (.newline rest)
    · rw [← ih ⟨htrim, fun l' hl' => hbefore l' (List.mem_cons_of_mem _ hl'), hread⟩]
      exact (found_line positions hname hl (.newline rest)).1
        ((hbefore l List.mem_cons_self).not_begins hname.ne_nil)

/-- The identities of the account are numbers of 32 bits. -/
def Fits (positions : List ℕ) (name file : List U8) : Prop :=
  ∀ ids ∈ accountIds positions name file, ∀ id ∈ ids, id < 2 ^ 32

instance (positions : List ℕ) (name file : List U8) : Decidable (Fits positions name file) := by
  unfold Fits
  infer_instance

theorem idsWith_converted (h : ∀ ids ∈ lineIds positions l, ∀ id ∈ ids, id < 2 ^ 32) :
    idsWith id converted positions l = lineIds positions l := by
  rw [lineIds, idsWith] at h
  rw [lineIds, idsWith, idsWith]
  cases hmap : positions.mapM fun n => (fields l)[n]?.map id with
  | none => rfl
  | some ids =>
    rw [hmap] at h
    rw [Option.bind_some] at h
    rw [Option.bind_some, Option.bind_some]
    split_ifs at h ⊢
    · refine congrArg some (List.map_congr_left fun d hd => ?_)
      have hlt : decimal d < 2 ^ 32 := h _ rfl _ (List.mem_map_of_mem hd)
      rw [converted, min_eq_left (hlt.le.trans (by decide)), Nat.mod_eq_of_lt hlt]
    · rfl

/-- Its identities are then returned as they are. -/
theorem found_eq_accountIds (hname : IsAccountName name) {file : List U8}
    (h : Legible positions name file) (hfits : Fits positions name file) :
    found positions name file = accountIds positions name file := by
  rw [found_of_legible hname h, accountIds]
  rw [Fits, accountIds] at hfits
  cases hline : accountLine name file with
  | none => rfl
  | some l =>
    rw [hline] at hfits
    exact idsWith_converted hfits

/-! ### Lines that hide an account -/

/-- These lines, and then the text. -/
def withLines (ls : List (List U8)) (t : List U8) : List U8 :=
  ls.foldr (fun l file => l ++ ch '\n' :: file) t

variable {ls : List (List U8)}

/-- A line that is not silent ends the lookup, whatever comes after it. -/
theorem found_withLines (hname : IsAccountName name) (hls : ∀ l ∈ ls, ch '\n' ∉ l)
    (h : ¬∀ l ∈ ls, Silent name l) (positions : List ℕ) (t t' : List U8) :
    found positions name (withLines ls t) = found positions name (withLines ls t') := by
  induction ls with
  | nil => exact absurd (fun l hl => absurd hl List.not_mem_nil) h
  | cons l ls ih =>
    rw [List.forall_mem_cons] at hls
    have hline (t : List U8) := found_line positions hname hls.1 (.newline (withLines ls t))
    by_cases hsilent : Silent name l
    · have hrest : ¬∀ l ∈ ls, Silent name l :=
        fun hall => h (List.forall_mem_cons.2 ⟨hsilent, hall⟩)
      have hnone := hsilent.not_begins hname.ne_nil
      exact ((hline t).1 hnone).trans ((ih hls.2 hrest).trans ((hline t').1 hnone).symm)
    · -- The first of its pieces that begins with the name.
      have hex : ∃ k, Begins name (cString (piece l k)) := by
        by_contra hnone
        exact hsilent fun k _ hk => hnone ⟨k, hk⟩
      have hfirst : ∀ j < Nat.find hex, ¬Begins name (cString (piece l j)) :=
        fun j hj => Nat.find_min hex hj
      exact ((hline t).2 _ (Nat.find_spec hex) hfirst).trans
        ((hline t').2 _ (Nat.find_spec hex) hfirst).symm

/-- The account of a name, behind lines that are not for it. -/
theorem accountLine_withLines (hls : ∀ l ∈ ls, ch '\n' ∉ l ∧ (fields l)[0]? ≠ some name)
    (hl : ch '\n' ∉ l) (hfirst : (fields l)[0]? = some name) :
    accountLine name (withLines ls l) = some l ∧ before name (withLines ls l) = ls := by
  induction ls with
  | nil =>
    rw [withLines, List.foldr_nil, accountLine_last hl, if_pos hfirst, before_last hl,
      if_pos hfirst]
    exact ⟨rfl, rfl⟩
  | cons l' ls ih =>
    rw [List.forall_mem_cons] at hls
    obtain ⟨haccount, hbefore⟩ := ih hls.2
    rw [withLines] at haccount hbefore
    rw [withLines, List.foldr_cons, accountLine_cons hls.1.1, if_neg hls.1.2, haccount,
      before_cons hls.1.1, if_neg hls.1.2, hbefore]
    exact ⟨rfl, rfl⟩

theorem not_mem_lines {file : List U8} : ∀ l ∈ lines file, ch '\n' ∉ l := by
  induction file using split_induction (ch '\n') with
  | last l hl =>
    rw [lines_last hl]
    exact fun l' hl' => List.mem_singleton.1 hl' ▸ hl
  | cons l rest hl ih =>
    rw [lines_cons hl]
    exact List.forall_mem_cons.2 ⟨hl, ih⟩

theorem of_mem_before {file : List U8} (h : l ∈ before name file) :
    ch '\n' ∉ l ∧ (fields l)[0]? ≠ some name :=
  ⟨not_mem_lines l ((List.takeWhile_sublist _).mem h), by simpa using List.mem_takeWhile_imp h⟩

/-- A line for the name, with the identity `d` and nothing else. -/
def plainLine (name d : List U8) : List U8 := name ++ ch ':' :: (bytes "x:" ++ d ++ bytes ":" ++ d)

theorem fields_plainLine (hname : IsAccountName name) {d : List U8}
    (hd : d = bytes "1" ∨ d = bytes "2") : fields (plainLine name d) = [name, bytes "x", d, d] := by
  rw [plainLine, fields_cons hname.colon]
  rcases hd with rfl | rfl <;> rfl

/-- A plain line is readable, and has the identity at both positions. -/
theorem readable_plainLine (hname : IsAccountName name) {d : List U8}
    (hd : d = bytes "1" ∨ d = bytes "2") (hpos : ∀ n ∈ positions, n = 2 ∨ n = 3) :
    Readable positions (plainLine name d) ∧
      lineIds positions (plainLine name d) = some (positions.map fun _ => decimal d) := by
  have hlength := hname.length_lt
  have hfields := fields_plainLine hname hd
  have hdigit : d.length = 1 ∧ cString d = d ∧ trimmed d = d ∧ ndLAllDigits d = true := by
    rcases hd with rfl | rfl <;> decide
  obtain ⟨hone, hself, htrim, hall⟩ := hdigit
  have hx : cString (bytes "x") = bytes "x" := by decide
  have hstring : cString name = name := List.takeWhile_eq_self_iff.2 (bne_of_not_mem hname.nul)
  constructor
  · intro n hn
    rw [extent, hfields]
    rcases hpos n hn with rfl | rfl
    · refine ⟨?_, ?_, fun d' hd' => Option.some.inj hd' ▸ htrim⟩
      · simp only [List.take_succ_cons, List.take_zero, List.map_cons, List.map_nil,
          List.sum_cons, List.sum_nil, hone, show (bytes "x").length = 1 from rfl]
        omega
      · simp only [List.take_succ_cons, List.take_zero, List.forall_mem_cons]
        exact ⟨hstring, hx, hself, by simp⟩
    · refine ⟨?_, ?_, fun d' hd' => Option.some.inj hd' ▸ htrim⟩
      · simp only [List.take_succ_cons, List.take_zero, List.map_cons, List.map_nil,
          List.sum_cons, List.sum_nil, hone, show (bytes "x").length = 1 from rfl]
        omega
      · simp only [List.take_succ_cons, List.take_zero, List.forall_mem_cons]
        exact ⟨hstring, hx, hself, hself, by simp⟩
  · have hmap : (positions.mapM fun n => (fields (plainLine name d))[n]?.map id) =
        positions.mapM fun _ => pure d := by
      refine mapM_congr fun n hn => ?_
      rw [hfields]
      rcases hpos n hn with rfl | rfl <;> rfl
    rw [lineIds, idsWith, hmap, List.mapM_pure, Option.pure_def, Option.bind_some, if_pos,
      List.map_map]
    · rfl
    · simp [hone, hall]

theorem newline_plainLine (hname : IsAccountName name) {d : List U8}
    (hd : d = bytes "1" ∨ d = bytes "2") : ch '\n' ∉ plainLine name d := by
  rw [plainLine, List.mem_append, not_or]
  exact ⟨hname.newline, by rcases hd with rfl | rfl <;> decide⟩

/-- The lines before an account have no influence on it if they are silent, and the name does
    not end in a carriage return, and only then. -/
theorem found_iff (hname : IsAccountName name) (hpos : ∀ n ∈ positions, n = 2 ∨ n = 3)
    (hne : positions ≠ []) (file : List U8) :
    (∀ file', before name file' = before name file →
        (∀ l ∈ accountLine name file', Readable positions l) → Fits positions name file' →
        found positions name file' = accountIds positions name file') ↔
      trimmed name = name ∧ ∀ l ∈ before name file, Silent name l := by
  constructor
  · intro h
    have hls : ∀ l ∈ before name file, ch '\n' ∉ l ∧ (fields l)[0]? ≠ some name :=
      fun l hl => of_mem_before hl
    have hplain {d : List U8} (hd : d = bytes "1" ∨ d = bytes "2") :
        found positions name (withLines (before name file) (plainLine name d)) =
          some (positions.map fun _ => decimal d) := by
      obtain ⟨hread, hids⟩ := readable_plainLine hname hd hpos
      obtain ⟨hline, hbefore⟩ := accountLine_withLines hls (newline_plainLine hname hd)
        (by rw [fields_plainLine hname hd]; rfl)
      have haccount : accountIds positions name
          (withLines (before name file) (plainLine name d)) =
            some (positions.map fun _ => decimal d) := by
        rw [accountIds, hline]
        exact hids
      rw [h _ hbefore, haccount]
      · intro l hl
        rw [hline] at hl
        exact Option.some.inj hl ▸ hread
      · intro ids hids' id hid
        rw [haccount] at hids'
        obtain rfl := Option.some.inj hids'
        obtain ⟨-, -, rfl⟩ := List.mem_map.1 hid
        rcases hd with rfl | rfl <;> decide
    refine ⟨(name_of_found hname.ne_nil (hplain (.inl rfl))).2, ?_⟩
    by_contra hsilent
    have hsame := found_withLines hname (fun l hl => (hls l hl).1) hsilent positions
      (plainLine name (bytes "1")) (plainLine name (bytes "2"))
    rw [hplain (.inl rfl), hplain (.inr rfl), Option.some_inj, List.map_const', List.map_const',
      List.replicate_right_inj (mt List.length_eq_zero_iff.1 hne)] at hsame
    exact absurd hsame (by decide)
  · rintro ⟨htrim, hsilent⟩ file' hbefore hread hfits
    exact found_eq_accountIds hname ⟨htrim, hbefore ▸ hsilent, hread⟩ hfits

/-! ## The two lookups -/

theorem length_mapM {f : ℕ → Option (List U8)} {ids : List (List U8)}
    (h : positions.mapM f = some ids) : ids.length = positions.length := by
  induction positions generalizing ids with
  | nil => exact Option.some.inj h ▸ rfl
  | cons n positions ih =>
    rw [List.mapM_cons, Option.bind_eq_bind, Option.bind_eq_some_iff] at h
    obtain ⟨d, -, h⟩ := h
    rw [Option.bind_eq_bind, Option.bind_eq_some_iff] at h
    obtain ⟨rest, hrest, h⟩ := h
    rw [← Option.some.inj h, List.length_cons, ih hrest, List.length_cons]

/-- There is one identity for each position. -/
theorem length_lookup {file : List U8} {ids : List (List U8)}
    (h : lookup positions name file = some ids) : ids.length = positions.length := by
  obtain ⟨_, _, _, _, _, hids⟩ := lookupLoop_eq_some h
  exact length_mapM (recordIds_eq_some hids).1

/-- What `ndL_lookup_user` returns. -/
def userIds (file name : List U8) : Option (List ℕ) :=
  (ndLLookupUser (.ok file) name).toOption.map fun ids => [ids.1.toNat, ids.2.toNat]

/-- What `ndL_lookup_group` returns. -/
def groupIds (file name : List U8) : Option (List ℕ) :=
  (ndLLookupGroup (.ok file) name).toOption.map fun id => [id.toNat]

theorem userIds_eq (file name : List U8) : userIds file name = found [2, 3] name file := by
  rw [userIds, found, ndLLookupUser]
  cases h : lookup [2, 3] name file with
  | none => rfl
  | some ids =>
    obtain ⟨uid, gid, rfl⟩ := List.length_eq_two.1 (length_lookup h)
    rfl

theorem groupIds_eq (file name : List U8) : groupIds file name = found [2] name file := by
  rw [groupIds, found, ndLLookupGroup]
  cases h : lookup [2] name file with
  | none => rfl
  | some ids =>
    obtain ⟨gid, rfl⟩ := List.length_eq_one_iff.1 (length_lookup h)
    rfl

namespace Small

/-- A group with many members, and one with the name of the last of them. -/
def longGroup : List U8 :=
  bytes "users:x:1000:" ++ (List.replicate 249 (bytes "a,")).flatten ++
    bytes "ndppd\nndppd:x:999:\n"

/-- The same lines, after the one that is looked for. -/
def longBehind : List U8 := bytes "bin:x:2:\nndppd:x:999:\n" ++ longGroup

end Small

end Accounts

end Ndppd
