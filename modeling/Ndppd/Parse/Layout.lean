import Ndppd.Parse.Text

/-!
# Layouts

How the text of a configuration is laid out: words, with blanks between them,
one directive per line, comments and blank lines anywhere (`Filler`, `Body`). The
layout does not matter: a token is read up to the end of its word
(`readEntry_append`), and a block is read one directive after the other, whatever
is between them (`readLoop_body`).
-/

namespace Ndppd

/-! ## Words -/

/-- A blank: it ends a word, but not a line. -/
def isBlank (c : U8) : Bool := isspace c && c != ch '\n'

/-- What ends a word: a blank, a newline, a comment or a brace. -/
def isStop (c : U8) : Bool := isspace c || c == ch '#' || c == ch '{' || c == ch '}'

/-- A byte of a word: none of those that end it, and no NUL. -/
def isWordChar (c : U8) : Bool := !isStop c && c != 0

/-- Only blanks. -/
def IsBlank (w : List U8) : Prop := ∀ c ∈ w, isBlank c = true

/-- A word, or none. -/
def IsWord (v : List U8) : Prop := ∀ c ∈ v, isWordChar c = true

/-- A text at which a word ends. -/
def Stops (k : List U8) : Prop := ∀ c ∈ k.head?, isStop c = true

theorem Stops.nil : Stops [] := fun _ h => absurd h (by simp)

theorem Stops.cons {c : U8} (h : isStop c = true) (k : List U8) : Stops (c :: k) :=
  fun _ hc => Option.some.inj hc ▸ h

/-! ### Skipping -/

theorem length_skipText_le (t : List U8) : (skipText t).length ≤ t.length :=
  (List.drop_sublist ..).length_le

/-- A byte which is neither skipped nor starts a comment. -/
theorem skipText_cons {c : U8} {t : List U8} (h : isspace c = false) (h' : c ≠ ch '#') :
    skipText (c :: t) = c :: t := by
  have : (c == ch '#') = false := beq_eq_false_iff_ne.2 h'
  simp [skipText, skipped, h, this]

/-- A newline is not skipped: it ends a directive. -/
theorem skipText_newline (t : List U8) : skipText (ch '\n' :: t) = ch '\n' :: t := by
  simp [skipText, skipped]

theorem skipText_blank {c : U8} (h : isBlank c = true) (t : List U8) :
    skipText (c :: t) = skipText t := by
  obtain ⟨hs, hn⟩ := Bool.and_eq_true_iff.1 h
  have hn : c ≠ ch '\n' := bne_iff_ne.1 hn
  have hc : (c == ch '#') = false := by
    rw [beq_eq_false_iff_ne]
    rintro rfl
    exact absurd hs (by decide)
  simp [skipText, skipped, hs, hn, hc]

/-- Blanks before a text are skipped. -/
theorem skipText_blanks {w : List U8} (h : IsBlank w) (t : List U8) :
    skipText (w ++ t) = skipText t := by
  induction w with
  | nil => rfl
  | cons c w ih =>
    rw [List.cons_append, skipText_blank (h c List.mem_cons_self),
      ih fun c hc => h c (List.mem_cons_of_mem _ hc)]

/-- A comment, without the newline after it, or none. -/
def IsComment (c : List U8) : Prop := c = [] ∨ ∃ t, c = ch '#' :: t ∧ ch '\n' ∉ t

/-- A comment is skipped up to the end of its line. -/
theorem skipped_comment {t k : List U8} (h : ch '\n' ∉ t) :
    (t ++ k).drop (skipped true (t ++ k)) = k.drop (skipped true k) := by
  induction t with
  | nil => rfl
  | cons c t ih =>
    obtain ⟨hc, ht⟩ := not_or.1 (List.mem_cons.not.1 h)
    simp [skipped, Ne.symm hc, ih ht]

/-- A comment goes up to a newline, or the end of the text. -/
theorem skipText_comment {c k : List U8} (hc : IsComment c)
    (hk : k = [] ∨ k.head? = some (ch '\n')) : skipText (c ++ k) = k := by
  have hnewline : ∀ b, k.drop (skipped b k) = k := by
    intro b
    rcases hk with rfl | hk
    · rfl
    · obtain ⟨t, rfl⟩ := List.head?_eq_some_iff.1 hk
      simp [skipped]
  rcases hc with rfl | ⟨t, rfl, ht⟩
  · exact hnewline false
  · have : ch '#' ≠ ch '\n' := by decide
    rw [List.cons_append, skipText, skipped]
    simp [this, skipped_comment ht, hnewline]

/-- A word has no NUL and nothing that stops one. -/
theorem isWordChar_iff {c : U8} : isWordChar c = true ↔ isStop c = false ∧ c ≠ 0 := by
  rw [isWordChar, Bool.and_eq_true, Bool.not_eq_true', bne_iff_ne]

/-- A word is not skipped, nor any of it. -/
theorem skipText_word {v : List U8} (hv : IsWord v) (hne : v ≠ []) (k : List U8) :
    skipText (v ++ k) = v ++ k := by
  obtain ⟨c, v, rfl⟩ := List.exists_cons_of_ne_nil hne
  have hstop := (isWordChar_iff.1 (hv c List.mem_cons_self)).1
  simp only [isStop, Bool.or_eq_false_iff, beq_eq_false_iff_ne] at hstop
  exact skipText_cons hstop.1.1.1 hstop.1.1.2

/-! ### Tokens end with their word -/

/-- A class of bytes which ends with the word. -/
def InWord (p : U8 → Bool) : Prop := ∀ c, isStop c = true → p c = false

/-- A run of bytes ends where the word does, whatever follows. -/
theorem takeWhile_take_append {p : U8 → Bool} (hp : InWord p) {k : List U8} (hk : Stops k)
    (v : List U8) (n : ℕ) : ((v ++ k).take n).takeWhile p = (v.take n).takeWhile p := by
  induction v generalizing n with
  | nil =>
    cases k with
    | nil => simp
    | cons c k =>
      cases n with
      | zero => rfl
      | succ n => simp [hp c (hk c rfl)]
  | cons c v ih =>
    cases n with
    | zero => rfl
    | succ n => simp only [List.cons_append, List.take_succ_cons, List.takeWhile_cons, ih]

theorem length_takeWhile_take_le (p : U8 → Bool) (v : List U8) (n : ℕ) :
    ((v.take n).takeWhile p).length ≤ v.length :=
  ((List.takeWhile_sublist p).trans (List.take_sublist n v)).length_le

/-- So does a token. -/
theorem token_append {p : U8 → Bool} (hp : InWord p) {k : List U8} (hk : Stops k) (v : List U8) :
    token p (v ++ k) = token p v := by
  simp only [token, takeWhile_take_append hp hk]

theorem length_token_le {p : U8 → Bool} {v buf : List U8} (h : token p v = some buf) :
    buf.length ≤ v.length := by
  rw [token] at h
  split_ifs at h
  rw [← Option.some.inj h]
  exact length_takeWhile_take_le ..

theorem inWord_int : InWord fun c => isdigit c || c == ch '-' := by
  unfold InWord
  decide +kernel

theorem inWord_addr : InWord fun c => isxdigit c || c == ch '.' || c == ch ':' := by
  unfold InWord
  decide +kernel

theorem inWord_lladdr : InWord fun c => isxdigit c || c == ch ':' := by
  unfold InWord
  decide +kernel

/-- A token function that reads no further than the word, and leaves what it
    does not read. -/
structure EndsInWord {α : Type} (read : List U8 → Option (α × List U8)) : Prop where
  append : ∀ {v k}, IsWord v → Stops k → read (v ++ k) = (read v).map fun x => (x.1, x.2 ++ k)
  suffix : ∀ {v a r}, read v = some (a, r) → r <:+ v

theorem IsWord.of_suffix {v r : List U8} (hv : IsWord v) (h : r <:+ v) : IsWord r :=
  fun c hc => hv c (h.mem hc)

namespace EndsInWord

/-- One token after another, in the same word. -/
theorem bind {α β : Type} {read : List U8 → Option (α × List U8)}
    {next : α → List U8 → Option (β × List U8)} (h : EndsInWord read)
    (hnext : ∀ a, EndsInWord (next a)) :
    EndsInWord fun t => (read t).bind fun x => next x.1 x.2 where
  append {v k} hv hk := by
    rw [h.append hv hk]
    cases hr : read v with
    | none => rfl
    | some x => exact (hnext x.1).append (hv.of_suffix (h.suffix hr)) hk
  suffix {v b r} hr := by
    obtain ⟨x, hx, hr⟩ := Option.bind_eq_some_iff.1 hr
    exact ((hnext x.1).suffix hr).trans (h.suffix hx)

theorem map {α β : Type} {read : List U8 → Option (α × List U8)} (h : EndsInWord read)
    (f : α → β) : EndsInWord fun t => (read t).map fun x => (f x.1, x.2) where
  append {v k} hv hk := by
    rw [h.append hv hk]
    cases read v <;> rfl
  suffix {v b r} hr := by
    obtain ⟨x, hx, hr⟩ := Option.map_eq_some_iff.1 hr
    exact (Prod.mk.inj hr).2 ▸ h.suffix hx

/-- A token that is given by its bytes. -/
theorem of_token {α : Type} {tok : List U8 → Option (List U8)} {f : List U8 → Option α}
    (happend : ∀ {v k}, IsWord v → Stops k → tok (v ++ k) = tok v)
    (hle : ∀ {v buf}, tok v = some buf → buf.length ≤ v.length) :
    EndsInWord fun t => (tok t).bind fun buf => (f buf).map fun a => (a, t.drop buf.length) where
  append {v k} hv hk := by
    rw [happend hv hk]
    cases ht : tok v with
    | none => rfl
    | some buf =>
      dsimp only [Option.bind_some]
      cases f buf with
      | none => rfl
      | some a =>
        simp only [Option.map_some, List.drop_append_of_le_length (hle ht)]
  suffix {v a r} hr := by
    obtain ⟨buf, -, hr⟩ := Option.bind_eq_some_iff.1 hr
    obtain ⟨a, -, hr⟩ := Option.map_eq_some_iff.1 hr
    exact (Prod.mk.inj hr).2 ▸ List.drop_suffix ..

end EndsInWord

/-- An address is read from its word alone. -/
theorem endsInWord_readAddr (libc : Libc) : EndsInWord (readAddr libc) := by
  rw [show readAddr libc = _ from funext readAddr_eq]
  exact .of_token (fun _ hk => token_append inWord_addr hk _) length_token_le

theorem endsInWord_readLladdr (libc : Libc) : EndsInWord (readLladdr libc) := by
  rw [show readLladdr libc = _ from funext readLladdr_eq]
  exact .of_token (fun _ hk => token_append inWord_lladdr hk _) length_token_le

/-- A number is read from its word alone. -/
theorem endsInWord_readInt (min max : ℤ) : EndsInWord (readInt min max) := by
  have h := EndsInWord.of_token (f := fun buf => (strtoll buf).bind fun value =>
    if value > max ∨ value < min then none else some value)
    (fun {v k} _ hk => token_append inWord_int hk v) length_token_le
  convert h using 2 with t
  rw [readInt_eq]
  refine congrArg _ (funext fun buf => ?_)
  cases strtoll buf with
  | none => rfl
  | some value =>
    dsimp only [Option.bind_some]
    split_ifs <;> rfl

theorem inWord_name : InWord isNameChar := by
  unfold InWord
  decide +kernel

theorem isNameChar_of_isalpha {c : U8} (h : isalpha c = true) : isNameChar c = true := by
  rw [isNameChar, isalnum, h]
  rfl

/-- A name ends where its word does. -/
theorem nameScan_append {k : List U8} (hk : Stops k) (v : List U8) (n : ℕ) :
    nameScan n (v ++ k) = nameScan n v := by
  cases v with
  | nil =>
    cases k with
    | nil => rfl
    | cons c k =>
      cases n with
      | zero => rfl
      | succ n =>
        have hc : isalpha c = false := by
          have := inWord_name c (hk c rfl)
          rw [← Bool.not_eq_true] at this ⊢
          exact mt isNameChar_of_isalpha this
        simp [nameScan, hc]
  | cons c v =>
    cases n with
    | zero => rfl
    | succ n =>
      simp only [nameScan, List.cons_append, List.take_succ_cons,
        takeWhile_take_append inWord_name hk]

theorem length_nameScan_le (n : ℕ) (v : List U8) : (nameScan n v).length ≤ v.length :=
  ((nameScan_sublist n v).trans (List.take_sublist n v)).length_le

/-- Whether a name fits is seen from its word. -/
theorem nameToken_append {k : List U8} (hk : Stops k) (size : ℕ) (v : List U8) :
    nameToken size (v ++ k) = nameToken size v := by
  have hnext : (((v ++ k).drop (nameScan (size - 1) v).length).head?.any isNameChar) =
      ((v.drop (nameScan (size - 1) v).length).head?.any isNameChar) := by
    rw [List.drop_append_of_le_length (length_nameScan_le ..)]
    cases v.drop (nameScan (size - 1) v).length with
    | cons c t => rfl
    | nil =>
      cases k with
      | nil => rfl
      | cons c k => exact inWord_name c (hk c rfl)
  simp only [nameToken, nameScan_append hk, hnext]

theorem length_nameToken_le {size : ℕ} {v buf : List U8} (h : nameToken size v = some buf) :
    buf.length ≤ v.length := by
  rw [nameToken] at h
  split_ifs at h
  rw [← Option.some.inj h]
  exact length_nameScan_le ..

/-- A name is read from its word alone. -/
theorem endsInWord_readName (size : ℕ) : EndsInWord (readName size) := by
  have h := EndsInWord.of_token (f := fun buf => some (cString buf))
    (fun {v k} _ hk => nameToken_append hk size v) length_nameToken_le
  convert h using 2 with t
  rw [readName_eq, Option.map_eq_bind]
  rfl

/-- A truth value is read from its word alone, and an empty word is one. -/
theorem endsInWord_readBool : EndsInWord readBool where
  append {v k} hv hk := by
    rw [readBool_eq, readBool_eq, (endsInWord_readName 16).append hv hk]
    cases readName 16 v with
    | none => rfl
    | some x =>
      dsimp only [Option.map_some, Option.elim_some]
      split_ifs <;> rfl
  suffix {v a r} hr := by
    rw [readBool_eq] at hr
    cases hname : readName 16 v with
    | none =>
      rw [hname] at hr
      exact (Prod.mk.inj (Option.some.inj hr)).2 ▸ List.suffix_refl v
    | some x =>
      rw [hname] at hr
      have hx := (endsInWord_readName 16).suffix hname
      dsimp only [Option.elim_some] at hr
      split_ifs at hr
      · exact (Prod.mk.inj (Option.some.inj hr)).2 ▸ hx
      · exact (Prod.mk.inj (Option.some.inj hr)).2 ▸ hx

/-- The slash of a prefix is a byte of its word. -/
theorem readByte_append {k : List U8} (hk : Stops k) (v : List U8) :
    readByte [ch '/'] (v ++ k) =
      ((readByte [ch '/'] v).1, (readByte [ch '/'] v).2 ++ k) := by
  cases v with
  | cons c v =>
    rw [List.cons_append, readByte_cons, readByte_cons]
    split_ifs <;> rfl
  | nil =>
    cases k with
    | nil => rfl
    | cons c k =>
      have hstop : ∀ c, isStop c = true → strchr [ch '/'] c = false := by decide +kernel
      simp [readByte_nil, readByte_cons, hstop c (hk c rfl)]

theorem suffix_readByte (valid v : List U8) : (readByte valid v).2 <:+ v := by
  cases v with
  | nil => exact List.suffix_refl _
  | cons c v =>
    rw [readByte_cons]
    split_ifs
    · exact List.suffix_cons ..
    · exact List.suffix_refl _

/-- The length of a prefix, with its slash, is read from its word alone. -/
theorem endsInWord_readPflen (libc : Libc) : EndsInWord (readPflen libc) where
  append {v k} hv hk := by
    rw [readPflen_eq, readByte_append hk, readPflen_eq]
    have hsuffix := suffix_readByte [ch '/'] v
    generalize readByte [ch '/'] v = x at hsuffix
    dsimp only
    split_ifs
    · rfl
    · rw [(endsInWord_readInt 0 128).append (hv.of_suffix hsuffix) hk]
      cases readInt 0 128 x.2 <;> rfl
  suffix {v a r} hr := by
    rw [readPflen_eq] at hr
    have hsuffix := suffix_readByte [ch '/'] v
    generalize readByte [ch '/'] v = x at hsuffix hr
    split_ifs at hr
    · exact (Prod.mk.inj (Option.some.inj hr)).2 ▸ hsuffix
    · obtain ⟨y, hy, hr⟩ := Option.map_eq_some_iff.1 hr
      exact (Prod.mk.inj hr).2 ▸ ((endsInWord_readInt 0 128).suffix hy).trans hsuffix

/-- A prefix is one word. -/
theorem endsInWord_readPrefixed (libc : Libc) : EndsInWord (readPrefixed libc) := by
  rw [show readPrefixed libc = _ from funext (parsePrefixed_eq [])]
  exact (endsInWord_readAddr libc).bind fun addr =>
    (endsInWord_readPflen libc).map fun pflen => (addr, pflen)

/-! ## Directives -/

/-- To skip twice is to skip once. -/
theorem skipText_skipText (t : List U8) : skipText (skipText t) = skipText t := by
  have h : ∀ b, skipped false (t.drop (skipped b t)) = 0 := by
    induction t with
    | nil => exact fun _ => rfl
    | cons c t ih =>
      intro b
      rw [skipped]
      split_ifs with hc
      · rw [List.drop_zero, skipped]
        refine if_pos (hc.imp_right fun hc => ⟨?_, hc.2⟩)
        simp only [Bool.not_eq_true', Bool.or_eq_false_iff] at hc ⊢
        exact ⟨trivial, hc.1.2⟩
      · exact ih _
  rw [skipText, skipText, h false, List.drop_zero]

/-- A directive may end here. -/
def Ends (k : List U8) : Prop :=
  Stops k ∧ (skipText k = [] ∨ (skipText k).head? = some (ch '}') ∨
    (skipText k).head? = some (ch '\n'))

/-- What ends a directive ends a word, once blanks are skipped. -/
theorem Ends.stops_skipText {k : List U8} (h : Ends k) : Stops (skipText k) := by
  intro c hc
  rcases h.2 with h | h | h
  · rw [h] at hc
    exact absurd hc (by simp)
  · rw [h] at hc
    exact Option.some.inj hc ▸ (by decide)
  · rw [h] at hc
    exact Option.some.inj hc ▸ (by decide)

theorem Stops.blanks {w k : List U8} (hw : IsBlank w) (hne : w ≠ []) : Stops (w ++ k) := by
  obtain ⟨c, w, rfl⟩ := List.exists_cons_of_ne_nil hne
  refine .cons ?_ _
  have := (Bool.and_eq_true_iff.1 (hw c List.mem_cons_self)).1
  simp [isStop, this]

/-- A word which is left over is not the end of a directive. -/
theorem readEnd_append {libc : Libc} {r k : List U8} (hr : IsWord r) (hk : Ends k) :
    readEnd libc (r ++ k) = if r = [] then some (skipText k) else none := by
  rw [readEnd_eq]
  split_ifs with hend hnil hnil
  · rw [hnil, List.nil_append]
  · rw [skipText_word hr hnil] at hend
    obtain ⟨c, r, rfl⟩ := List.exists_cons_of_ne_nil hnil
    have hword : ∀ c, isWordChar c = true → c ≠ ch '}' ∧ c ≠ ch '\n' := by decide +kernel
    have hc := hword c (hr c List.mem_cons_self)
    simp [hc.1, hc.2] at hend
  · rw [hnil] at hend
    exact absurd hk.2 hend
  · rfl

section Block

variable {libc : Libc} {sc : Scope} {ptr : sc.Ptr}
  {call : CfInfo sc → Callback sc → List U8 → Loaded → Option (List U8 × Loaded)}
  {info : CfInfo sc} {v k sep : List U8}

/-- A reader of a directive, which reads a value up to the end of its word. -/
structure ReadsWord (read : List U8 → Loaded → Option (List U8 × Loaded)) : Prop where
  append : ∀ {v k g}, IsWord v → Stops k →
    read (v ++ k) g = (read v g).map fun x => (x.1 ++ k, x.2)
  suffix : ∀ {v g r g'}, read v g = some (r, g') → r <:+ v

/-- A token that is stored is a value. -/
theorem ReadsWord.of_token {α : Type} {read : List U8 → Option (α × List U8)}
    (h : EndsInWord read) (f : α → Loaded → Loaded) :
    ReadsWord fun t g => (read t).map fun x => (x.2, f x.1 g) where
  append {v k g} hv hk := by
    rw [h.append hv hk]
    cases read v <;> rfl
  suffix {v g r g'} hr := by
    obtain ⟨x, hx, hr⟩ := Option.map_eq_some_iff.1 hr
    exact (Prod.mk.inj hr).1 ▸ h.suffix hx

/-- A value is read from its word alone, whatever its type. -/
theorem readsWord_readValue (info : CfInfo sc) : ReadsWord (readValue libc sc ptr info) := by
  cases htype : info.type with
  | none =>
    rw [show readValue libc sc ptr info = _ from funext₂ (readValue_none htype)]
    exact ⟨fun _ _ => rfl, fun hr => (Prod.mk.inj (Option.some.inj hr)).1 ▸ List.suffix_refl _⟩
  | bool field =>
    rw [show readValue libc sc ptr info = _ from funext₂ (readValue_bool field htype)]
    exact .of_token endsInWord_readBool fun v g => field.set ptr v g
  | int field min max =>
    rw [show readValue libc sc ptr info = _ from funext₂ (readValue_int field htype)]
    exact .of_token (endsInWord_readInt min max) fun v g => field.set ptr v g
  | lladdr field =>
    rw [show readValue libc sc ptr info = _ from funext₂ (readValue_lladdr field htype)]
    exact .of_token (endsInWord_readLladdr libc) fun v g => field.set ptr v g

/-- A key of the table whose value is a word: it is read by its type, or by its
    function. -/
def HasValue (info : CfInfo sc)
    (call : CfInfo sc → Callback sc → List U8 → Loaded → Option (List U8 × Loaded)) : Prop :=
  info.cb = none ∨ info.type = .none ∧ ∀ cb ∈ info.cb, ReadsWord (call info cb)

theorem skipText_of_word (hv : IsWord v) : skipText v = v := by
  by_cases hne : v = []
  · rw [hne]
    rfl
  · have := skipText_word hv hne []
    rwa [List.append_nil] at this

/-- What follows the word of a directive is left to read. -/
theorem readEntry_append (hinfo : HasValue info call) (hv : IsWord v) (hk : Stops k)
    (hskip : v = [] → skipText k = k) (g : Loaded) :
    readEntry libc sc ptr call info (v ++ k) g =
      (readEntry libc sc ptr call info v g).map fun x => (x.1 ++ k, x.2) := by
  rw [readEntry_eq, readEntry_eq, (readsWord_readValue info).append hv hk]
  rcases hinfo with hcb | ⟨htype, hcb⟩
  · rw [hcb]
    cases readValue libc sc ptr info v g <;> rfl
  · rw [readValue_none htype]
    dsimp only [Option.map_some, Option.bind_some]
    cases hinfo : info.cb with
    | none => rfl
    | some cb =>
      have happend : skipText (v ++ k) = v ++ k := by
        by_cases hne : v = []
        · rw [hne, List.nil_append, hskip hne]
        · exact skipText_word hv hne k
      dsimp only [Option.elim_some]
      rw [happend, skipText_of_word hv, (hcb cb hinfo).append hv hk]

/-- What is left of the word of a directive is an end of it. -/
theorem suffix_readEntry (hinfo : HasValue info call) (hv : IsWord v) {g g' : Loaded}
    {r : List U8} (hr : readEntry libc sc ptr call info v g = some (r, g')) : r <:+ v := by
  rw [readEntry_eq] at hr
  obtain ⟨x, hx, hr⟩ := Option.bind_eq_some_iff.1 hr
  have hsuffix := (readsWord_readValue info).suffix hx
  rcases hinfo with hcb | ⟨htype, hcb⟩
  · rw [hcb] at hr
    exact (Prod.mk.inj (Option.some.inj hr)).1 ▸ hsuffix
  · cases hinfo : info.cb with
    | none =>
      rw [hinfo] at hr
      exact (Prod.mk.inj (Option.some.inj hr)).1 ▸ hsuffix
    | some cb =>
      rw [hinfo] at hr
      refine ((hcb cb hinfo).suffix hr).trans ?_
      rw [skipText_of_word (hv.of_suffix hsuffix)]
      exact hsuffix

/-- What a directive does with a value: it has to read it to its end. -/
def evalEntry (libc : Libc) (ptr : sc.Ptr)
    (call : CfInfo sc → Callback sc → List U8 → Loaded → Option (List U8 × Loaded))
    (info : CfInfo sc) (v : List U8) (g : Loaded) : Option Loaded :=
  (readEntry libc sc ptr call info v g).bind fun y => if y.1 = [] then some y.2 else none

/-- The keys of the table are names, which differ. -/
theorem table_key (h : info ∈ ndLCfinfoTable sc) : IsWord info.key ∧
    readName 32 info.key = some (info.key, []) ∧
    ((ndLCfinfoTable sc).find? fun t => t.key == info.key) = some info := by
  have hword : ∀ v : List U8, (v.all isWordChar) = true → IsWord v := fun v hv =>
    List.all_eq_true.1 hv
  cases sc with
  | default =>
    simp only [ndLCfinfoTable, List.mem_cons, List.not_mem_nil, or_false] at h
    rcases h with rfl | rfl | rfl | rfl | rfl | rfl | rfl <;>
      exact ⟨hword _ (by decide), by decide, rfl⟩
  | proxy =>
    simp only [ndLCfinfoTable, List.mem_cons, List.not_mem_nil, or_false] at h
    rcases h with rfl | rfl | rfl | rfl <;> exact ⟨hword _ (by decide), by decide, rfl⟩
  | rule =>
    simp only [ndLCfinfoTable, List.mem_cons, List.not_mem_nil, or_false] at h
    rcases h with rfl | rfl | rfl | rfl | rfl | rfl | rfl <;>
      exact ⟨hword _ (by decide), by decide, rfl⟩

/-- What is read after a key of the table. -/
theorem readDirective_key (h : info ∈ ndLCfinfoTable sc) (hk : Stops k) (g : Loaded) :
    readDirective libc sc ptr call (info.key ++ k) g =
      (readEntry libc sc ptr call info (skipText k) g).bind fun x =>
        (readEnd libc x.1).map fun t => (t, x.2) := by
  obtain ⟨hword, hname, hfind⟩ := table_key h
  rw [readDirective_eq, (endsInWord_readName 32).append hword hk, hname]
  dsimp only [Option.map_some, Option.bind_some]
  rw [hfind, List.nil_append]
  rfl

/-- A directive does the same wherever it is. -/
theorem readDirective_value (h : info ∈ ndLCfinfoTable sc) (hinfo : HasValue info call)
    (hv : IsWord v) (hsep : IsBlank sep) (hne : sep = [] → v = []) (hk : Ends k) (g : Loaded) :
    readDirective libc sc ptr call (info.key ++ (sep ++ (v ++ k))) g =
      (evalEntry libc ptr call info v g).map fun g' => (skipText k, g') := by
  have hstops : Stops (sep ++ (v ++ k)) := by
    by_cases hnil : sep = []
    · rw [hnil, hne hnil]
      exact hk.1
    · exact .blanks hsep hnil
  -- Where the value starts, if there is none, is where the directive ends.
  obtain ⟨k', hk', hskip, hvk, hvskip⟩ : ∃ k', Ends k' ∧ skipText k' = skipText k ∧
      skipText (v ++ k) = v ++ k' ∧ (v = [] → skipText k' = k') := by
    by_cases hnil : v = []
    · refine ⟨skipText k, ⟨hk.stops_skipText, ?_⟩, skipText_skipText k, ?_, fun _ => ?_⟩
      · rw [skipText_skipText]
        exact hk.2
      · rw [hnil, List.nil_append, List.nil_append]
      · exact skipText_skipText k
    · exact ⟨k, hk, rfl, skipText_word hv hnil k, fun h => absurd h hnil⟩
  rw [readDirective_key h hstops, skipText_blanks hsep, hvk,
    readEntry_append hinfo hv hk'.1 hvskip, evalEntry]
  cases hentry : readEntry libc sc ptr call info v g with
  | none => rfl
  | some x =>
    dsimp only [Option.map_some, Option.bind_some]
    rw [readEnd_append (hv.of_suffix (suffix_readEntry hinfo hv hentry)) hk', hskip]
    split_ifs <;> rfl

end Block

/-! ## Blocks -/

/-- Blank lines and comments, up to the blanks before a directive. -/
inductive Filler : List U8 → Prop
  | blanks {w : List U8} : IsBlank w → Filler w
  | line {w c f : List U8} : IsBlank w → IsComment c → Filler f →
      Filler (w ++ (c ++ ch '\n' :: f))

/-- The text of a block, from that of its directives: each is in a line of its own,
    except that the braces may be in the same line. -/
inductive Body : List (List U8) → List U8 → Prop
  | nil {f : List U8} : Filler f → Body [] f
  | last {f d w : List U8} : Filler f → IsBlank w → Body [d] (f ++ (d ++ w))
  | cons {f d w c b : List U8} {ds : List (List U8)} : Filler f → IsBlank w → IsComment c →
      Body ds b → Body (d :: ds) (f ++ (d ++ (w ++ (c ++ ch '\n' :: b))))

/-- The end of a block, before the text `k`: a brace, or the end of the file, maybe
    after a comment. -/
inductive Closes : Scope → List U8 → List U8 → Prop
  | brace {sc : Scope} {k : List U8} : sc ≠ .default → Closes sc (ch '}' :: k) k
  | eof {c : List U8} : IsComment c → Closes .default c []

theorem IsComment.stops {c k : List U8} (hc : IsComment c) (hk : Stops k) : Stops (c ++ k) := by
  rcases hc with rfl | ⟨t, rfl, -⟩
  · exact hk
  · exact .cons (by decide) _

theorem Stops.append_blanks {w k : List U8} (hw : IsBlank w) (hk : Stops k) : Stops (w ++ k) := by
  by_cases hne : w = []
  · rw [hne]
    exact hk
  · exact .blanks hw hne

/-- The end of a line. -/
theorem ends_line {w c : List U8} (hw : IsBlank w) (hc : IsComment c) (k : List U8) :
    Ends (w ++ (c ++ ch '\n' :: k)) ∧ skipText (w ++ (c ++ ch '\n' :: k)) = ch '\n' :: k := by
  have hskip : skipText (w ++ (c ++ ch '\n' :: k)) = ch '\n' :: k := by
    rw [skipText_blanks hw, skipText_comment hc (.inr rfl)]
  refine ⟨⟨.append_blanks hw (hc.stops (.cons (by decide) k)), ?_⟩, hskip⟩
  rw [hskip]
  exact .inr (.inr rfl)

section Loop

variable {libc : Libc} {sc : Scope} {ptr : sc.Ptr}
  {call : CfInfo sc → Callback sc → List U8 → Loaded → Option (List U8 × Loaded)}
  {w c f d b k cl : List U8} {g : Loaded} {n : ℕ} {m : Loaded → Option Loaded}

theorem Closes.skipText_eq (h : Closes sc cl k) :
    skipText cl = [] ∨ skipText cl = ch '}' :: k := by
  cases h with
  | brace => exact .inr (skipText_cons (by decide) (by decide))
  | eof hc =>
    have := skipText_comment hc (.inl rfl)
    rw [List.append_nil] at this
    exact .inl this

/-- The end of a body ends its last directive as well. -/
theorem Closes.ends (h : Closes sc cl k) (hw : IsBlank w) : Ends (w ++ cl) := by
  refine ⟨.append_blanks hw ?_, ?_⟩
  · cases h with
    | brace => exact .cons (by decide) _
    | eof hc =>
      have := hc.stops .nil
      rwa [List.append_nil] at this
  · rw [skipText_blanks hw]
    rcases h.skipText_eq with h | h
    · exact .inl h
    · rw [h]
      exact .inr (.inl rfl)

/-- A round of the loop starts by skipping. -/
theorem readLoop_congr {t t' : List U8} (h : skipText t = skipText t') (n : ℕ) (g : Loaded) :
    readLoop libc sc ptr call n t g = readLoop libc sc ptr call n t' g := by
  cases n with
  | zero => rfl
  | succ n => rw [readLoop_succ, readLoop_succ, h]

/-- A round for an empty line. -/
theorem readLoop_newline (n : ℕ) (t : List U8) (g : Loaded) :
    readLoop libc sc ptr call (n + 1) (ch '\n' :: t) g = readLoop libc sc ptr call n t g := by
  rw [readLoop_succ, skipText_newline, readByte_of_valid (by decide)]
  dsimp only
  exact (if_neg (by decide)).trans (if_pos rfl)

/-- The last round. -/
theorem readLoop_closes (h : Closes sc cl k) (n : ℕ) (g : Loaded) :
    readLoop libc sc ptr call (n + 1) cl g = some (k, g) := by
  cases h with
  | brace hsc =>
    rw [readLoop_succ, skipText_cons (by decide) (by decide), readByte_of_valid (by decide)]
    exact (if_pos rfl).trans (if_neg hsc)
  | eof hc =>
    have hskip := skipText_comment hc (.inl rfl)
    rw [List.append_nil] at hskip
    rw [readLoop_succ, hskip]
    rfl

variable (libc ptr call g) in
/-- The loop passes over blank lines and comments. -/
theorem readLoop_filler (hf : Filler f) (hn : (skipText (f ++ k)).length < n) :
    ∃ n', (skipText k).length < n' ∧
      readLoop libc sc ptr call n (f ++ k) g = readLoop libc sc ptr call n' k g := by
  induction hf generalizing n with
  | blanks hw =>
    rw [skipText_blanks hw] at hn
    exact ⟨n, hn, readLoop_congr (skipText_blanks hw k) n g⟩
  | @line w c f hw hc _ ih =>
    obtain ⟨n, rfl⟩ : ∃ n', n = n' + 1 := ⟨n - 1, by omega⟩
    have hline : w ++ (c ++ ch '\n' :: f) ++ k = w ++ (c ++ ch '\n' :: (f ++ k)) := by simp
    rw [hline, (ends_line hw hc _).2, List.length_cons] at hn
    rw [hline, readLoop_congr ((ends_line hw hc _).2.trans (skipText_newline _).symm),
      readLoop_newline]
    have := length_skipText_le (f ++ k)
    exact ih (by omega)

/-- The text `d` is a directive, which does `m` wherever it is. -/
structure IsItem (libc : Libc) (sc : Scope) (ptr : sc.Ptr)
    (call : CfInfo sc → Callback sc → List U8 → Loaded → Option (List U8 × Loaded))
    (d : List U8) (m : Loaded → Option Loaded) : Prop where
  head : ∃ c ∈ d.head?, isalpha c = true
  read : ∀ k g, Ends k →
    readDirective libc sc ptr call (d ++ k) g = (m g).map fun g' => (skipText k, g')

theorem IsItem.skipText_eq (hd : IsItem libc sc ptr call d m) (k : List U8) :
    skipText (d ++ k) = d ++ k := by
  obtain ⟨c, hc, halpha⟩ := hd.head
  obtain ⟨d', rfl⟩ := List.head?_eq_some_iff.1 hc
  have halphas : ∀ c, isalpha c = true → isspace c = false ∧ c ≠ ch '#' := by decide +kernel
  exact skipText_cons (halphas c halpha).1 (halphas c halpha).2

theorem IsItem.length_pos (hd : IsItem libc sc ptr call d m) : 0 < d.length := by
  obtain ⟨c, hc, -⟩ := hd.head
  obtain ⟨d', rfl⟩ := List.head?_eq_some_iff.1 hc
  exact Nat.succ_pos _

/-- A round for a directive: it does what it does, and its end is left. -/
theorem readLoop_item (hd : IsItem libc sc ptr call d m) (hk : Ends k) (n : ℕ) (g : Loaded) :
    readLoop libc sc ptr call (n + 1) (d ++ k) g =
      (m g).bind fun g' => readLoop libc sc ptr call n (skipText k) g' := by
  have hread := hd.read k g hk
  rw [readLoop_succ, hd.skipText_eq]
  obtain ⟨c, hc, halpha⟩ := hd.head
  obtain ⟨d', rfl⟩ := List.head?_eq_some_iff.1 hc
  have halphas : ∀ c, isalpha c = true → strchr [ch '\n', ch '}'] c = false := by decide +kernel
  rw [List.cons_append] at hread ⊢
  rw [readByte_of_invalid (halphas c halpha)]
  dsimp only
  refine ((if_neg (by decide)).trans ((if_neg (by decide)).trans (if_neg (by simp)))).trans ?_
  rw [hread]
  cases m g <;> rfl

/-- One directive after the other. -/
def inTurn (ms : List (Loaded → Option Loaded)) (g : Loaded) : Option Loaded :=
  ms.foldlM (fun g m => m g) g

/-- The first of them is done first. -/
theorem inTurn_cons (m : Loaded → Option Loaded) (ms : List (Loaded → Option Loaded))
    (g : Loaded) : inTurn (m :: ms) g = (m g).bind (inTurn ms) := rfl

/-- A block does what its directives do, one after the other. -/
theorem readLoop_body {ds : List (List U8)} {ms : List (Loaded → Option Loaded)} (hb : Body ds b)
    (hds : List.Forall₂ (IsItem libc sc ptr call) ds ms) (hcl : Closes sc cl k)
    (hn : (skipText (b ++ cl)).length < n) : readLoop libc sc ptr call n (b ++ cl) g =
      (inTurn ms g).map fun g' => (k, g') := by
  induction hb generalizing ms n g with
  | nil hf =>
    cases hds
    obtain ⟨n', hn', heq⟩ := readLoop_filler libc ptr call g hf hn
    obtain ⟨n, rfl⟩ : ∃ n, n' = n + 1 := ⟨n' - 1, by omega⟩
    rw [heq, readLoop_closes hcl]
    rfl
  | @last f d w hf hw =>
    cases hds with
    | @cons _ m _ _ hd hds =>
      cases hds
      rw [List.append_assoc, List.append_assoc] at hn ⊢
      obtain ⟨n', hn', heq⟩ := readLoop_filler libc ptr call g hf hn
      have hpos := hd.length_pos
      rw [hd.skipText_eq, List.length_append] at hn'
      obtain ⟨n, rfl⟩ : ∃ n, n' = n + 2 := ⟨n' - 2, by omega⟩
      rw [heq, readLoop_item hd (hcl.ends hw), inTurn_cons]
      cases m g with
      | none => rfl
      | some g' =>
        dsimp only [Option.bind_some]
        rw [readLoop_congr ((skipText_skipText _).trans (skipText_blanks hw cl)),
          readLoop_closes hcl]
        rfl
  | @cons f d w c b ds hf hw hc hb ih =>
    cases hds with
    | @cons _ m _ ms hd hds =>
      have hassoc : f ++ (d ++ (w ++ (c ++ ch '\n' :: b))) ++ cl =
          f ++ (d ++ (w ++ (c ++ ch '\n' :: (b ++ cl)))) := by simp
      rw [hassoc] at hn ⊢
      obtain ⟨n', hn', heq⟩ := readLoop_filler libc ptr call g hf hn
      have hpos := hd.length_pos
      have hskip_le := length_skipText_le (b ++ cl)
      rw [hd.skipText_eq] at hn'
      simp only [List.length_append, List.length_cons] at hn' hskip_le
      obtain ⟨n, rfl⟩ : ∃ n, n' = n + 2 := ⟨n' - 2, by omega⟩
      obtain ⟨hends, hskip⟩ := ends_line hw hc (b ++ cl)
      rw [heq, readLoop_item hd hends, inTurn_cons]
      cases m g with
      | none => rfl
      | some g' =>
        dsimp only [Option.bind_some]
        rw [hskip, readLoop_newline, ih hds (by omega)]

/-- A block in braces. What is left of the word before it is an error. -/
theorem readBlock_braces {ds : List (List U8)} {ms : List (Loaded → Option Loaded)} {r : List U8}
    (hsc : sc ≠ .default) (hr : IsWord r) (hb : Body ds b)
    (hds : List.Forall₂ (IsItem libc sc ptr call) ds ms)
    (hskip : skipText c = ch '{' :: (b ++ ch '}' :: k)) :
    readBlock libc sc ptr call (r ++ c) g =
      if r = [] then (inTurn ms g).map fun g' => (k, g') else none := by
  rw [readBlock_eq, if_neg hsc]
  by_cases hnil : r = []
  · have hopen : readByte [ch '{'] (ch '{' :: (b ++ ch '}' :: k)) = (ch '{', b ++ ch '}' :: k) :=
      readByte_of_valid (by decide) _
    have hbrace : ch '{' ≠ 0 := by decide
    have hle := length_skipText_le (b ++ ch '}' :: k)
    rw [if_pos hnil, hnil, List.nil_append, hskip, hopen]
    dsimp only
    rw [if_neg hbrace]
    exact readLoop_body hb hds (.brace hsc) (by omega)
  · rw [if_neg hnil, skipText_word hr hnil]
    obtain ⟨c', r, rfl⟩ := List.exists_cons_of_ne_nil hnil
    have hword : ∀ c, isWordChar c = true → strchr [ch '{'] c = false := by decide +kernel
    rw [List.cons_append, readByte_of_invalid (hword c' (hr c' List.mem_cons_self))]
    rfl

/-- The text of a file. -/
theorem readBlock_file {ds : List (List U8)} {ms : List (Loaded → Option Loaded)}
    {call : CfInfo .default → Callback .default → List U8 → Loaded → Option (List U8 × Loaded)}
    (hb : Body ds b) (hds : List.Forall₂ (IsItem libc .default () call) ds ms)
    (hc : IsComment c) :
    readBlock libc .default () call (b ++ c) g = (inTurn ms g).map fun g' => ([], g') := by
  rw [readBlock_eq, if_pos rfl, readLoop_congr (skipText_skipText _)]
  exact readLoop_body hb hds (.eof hc) (Nat.lt_succ_self _)

end Loop

end Ndppd
