import Ndppd.Parse.Simulation

/-!
# The parser as a function of the text

The positions of the parser are for its error messages: what it accepts, and what
it reads, depends on the rest of the text only. Here is the parser without them, and
without the messages: the same grammar, over functions that read a token of a text
(`textScanner`). They are those of the daemon at the beginning of a file, and wherever it
is in a file, the daemon does the same (`textScanner_simulates`): `outcome_ndConfParse`
says so for a whole file.
-/

namespace Ndppd

/-! ## Tokens -/

/-- What a token function returns, and what is left to read. -/
abbrev afterToken {α : Type} (x : α × Cursor) : α × List U8 := (x.1, x.2.rest)

/-- The text after blanks and a comment. -/
def skipText (t : List U8) : List U8 := t.drop (skipped false t)

/-- A byte of `valid`, or `0`, which may be in the text as well. -/
def readByte (valid t : List U8) : U8 × List U8 := afterToken (ndLAccept { data := t } valid)

/-- A number in a range. -/
def readInt (min max : ℤ) (t : List U8) : Option (ℤ × List U8) :=
  (ndLAcceptInt { data := t } min max).map afterToken

/-- An address that `inet_pton` takes. -/
def readAddr (libc : Libc) (t : List U8) : Option (Addr × List U8) :=
  (ndLAcceptAddr libc { data := t }).toOption.map afterToken

/-- A link-layer address that `ether_aton_r` takes. -/
def readLladdr (libc : Libc) (t : List U8) : Option (LlAddr × List U8) :=
  (ndLAcceptLladdr libc { data := t }).toOption.map afterToken

/-- A name that fits into `size` bytes, up to a NUL. -/
def readName (size : ℕ) (t : List U8) : Option (List U8 × List U8) :=
  (ndLAcceptName { data := t } size).map afterToken

/-- One of the four words, or nothing, which is `true`. -/
def readBool (t : List U8) : Option (Bool × List U8) :=
  (ndLAcceptBool { data := t }).map afterToken

/-- The functions that read a token, without positions: an error is no result. -/
@[simps]
def textScanner (libc : Libc) : Scanner Option (List U8) where
  skip t := some (skipText t)
  accept t valid := some (readByte valid t)
  acceptInt t min max := some (readInt min max t)
  acceptBool t := some (readBool t)
  acceptAddr t := some ((ndLAcceptAddr libc { data := t }).map afterToken)
  acceptLladdr t := some ((ndLAcceptLladdr libc { data := t }).map afterToken)
  acceptName t size := some (readName size t)
  eof t := t.isEmpty
  byte t := some (t.headD 0)
  error _ _ := []
  fail _ := none
  rounds t := t.length + 1
  outOfRounds := none

/-! ### Tokens depend on the rest of the text -/

section Tokens

variable (libc : Libc) (s : Cursor)

/-- `ndL_skip` leaves the same text, wherever it stands. -/
theorem rest_ndLSkip : (ndLSkip s).rest = skipText s.rest := s.rest_advance _

variable {s} in
/-- The end of the file is where nothing is left. -/
theorem ndLEof_iff : ndLEof s = true ↔ s.rest = [] := by
  rw [ndLEof, decide_eq_true_iff, Cursor.rest, List.drop_eq_nil_iff]

theorem readByte_nil (valid : List U8) : readByte valid [] = (0, []) := rfl

/-- The byte is taken if it is one of `valid`, a newline as well: only the line count differs. -/
theorem readByte_cons (valid : List U8) (c : U8) (t : List U8) :
    readByte valid (c :: t) = if strchr valid c then (c, t) else (0, c :: t) := by
  change afterToken (if !strchr valid c then _ else _) = _
  by_cases hv : strchr valid c = true
  · rw [if_pos hv, if_neg (by simp [hv])]
    split_ifs <;> rfl
  · rw [if_neg hv, if_pos (by simpa using hv)]
    rfl

theorem readByte_of_valid {valid : List U8} {c : U8} (h : strchr valid c = true) (t : List U8) :
    readByte valid (c :: t) = (c, t) := by
  rw [readByte_cons, if_pos h]

theorem readByte_of_invalid {valid : List U8} {c : U8} (h : strchr valid c = false)
    (t : List U8) : readByte valid (c :: t) = (0, c :: t) := by
  rw [readByte_cons, h]
  rfl

/-- `ndL_accept` reads the same byte, wherever it stands. -/
theorem afterToken_ndLAccept (valid : List U8) :
    afterToken (ndLAccept s valid) = readByte valid s.rest := by
  rw [ndLAccept]
  cases hs : s.rest with
  | nil => simp only [afterToken, hs, readByte_nil]
  | cons c t =>
    rw [readByte_cons]
    dsimp only
    by_cases hv : strchr valid c = true
    · rw [if_pos hv, if_neg (by simp [hv])]
      split_ifs
      · rw [afterToken, Cursor.rest_newline, hs, List.drop_one, List.tail_cons]
      · rw [afterToken, Cursor.rest_advance, hs, List.drop_one, List.tail_cons]
    · rw [if_neg hv, if_pos (by simpa using hv), afterToken, hs]

/-- A number is a token that `strtoll` converts, in a range. -/
theorem map_ndLAcceptInt (min max : ℤ) : (ndLAcceptInt s min max).map afterToken =
    (token (fun c => isdigit c || c == ch '-') s.rest).bind fun buf =>
      (strtoll buf).bind fun value =>
        if value > max ∨ value < min then none else some (value, s.rest.drop buf.length) := by
  rw [ndLAcceptInt]
  cases token (fun c => isdigit c || c == ch '-') s.rest with
  | none => rfl
  | some buf =>
    dsimp only [Option.bind_some]
    cases strtoll buf with
    | none => rfl
    | some value =>
      dsimp only [Option.bind_some]
      split_ifs
      · rfl
      · rw [Option.map_some, afterToken, Cursor.rest_advance]

/-- An address is a token that a function of the C library converts. -/
theorem map_acceptWith {α : Type} (p : U8 → Bool) (convert : List U8 → Option α)
    (error : String) : (acceptWith p convert error s).toOption.map afterToken =
      (token p s.rest).bind fun buf => (convert buf).map fun a => (a, s.rest.drop buf.length) := by
  rw [acceptWith]
  cases token p s.rest with
  | none => rfl
  | some buf =>
    dsimp only [Option.bind_some]
    cases convert buf with
    | none => rfl
    | some a => simp [Except.toOption, afterToken, Cursor.rest_advance]

/-- A name is a token, and what is returned of it ends at a NUL. -/
theorem map_ndLAcceptName (size : ℕ) : (ndLAcceptName s size).map afterToken =
    (nameToken size s.rest).map fun buf => (cString buf, s.rest.drop buf.length) := by
  rw [ndLAcceptName]
  cases nameToken size s.rest with
  | none => rfl
  | some buf => rw [Option.map_some, Option.map_some, afterToken, Cursor.rest_advance]

/-- What a name means as a boolean, if it is there. -/
theorem map_ndLAcceptBool : (ndLAcceptBool s).map afterToken =
    ((ndLAcceptName s 16).map afterToken).elim (some (true, s.rest)) fun x =>
      if x.1 = bytes "yes" ∨ x.1 = bytes "true" then some (true, x.2)
      else if x.1 = bytes "no" ∨ x.1 = bytes "false" then some (false, x.2)
      else none := by
  rw [ndLAcceptBool]
  cases ndLAcceptName s 16 with
  | none => rfl
  | some x =>
    dsimp only [Option.map_some, Option.elim_some]
    split_ifs <;> rfl

/-- A number is the same wherever it stands, and so are the other tokens. -/
theorem afterToken_ndLAcceptInt (min max : ℤ) :
    (ndLAcceptInt s min max).map afterToken = readInt min max s.rest :=
  (map_ndLAcceptInt s min max).trans (map_ndLAcceptInt { data := s.rest } min max).symm

theorem afterToken_ndLAcceptAddr :
    (ndLAcceptAddr libc s).toOption.map afterToken = readAddr libc s.rest :=
  (map_acceptWith s ..).trans (map_acceptWith { data := s.rest } ..).symm

theorem afterToken_ndLAcceptLladdr :
    (ndLAcceptLladdr libc s).toOption.map afterToken = readLladdr libc s.rest :=
  (map_acceptWith s ..).trans (map_acceptWith { data := s.rest } ..).symm

theorem afterToken_ndLAcceptName (size : ℕ) :
    (ndLAcceptName s size).map afterToken = readName size s.rest :=
  (map_ndLAcceptName s size).trans (map_ndLAcceptName { data := s.rest } size).symm

/-- A word for a truth value is a name, of less than 16 bytes. -/
theorem afterToken_ndLAcceptBool : (ndLAcceptBool s).map afterToken = readBool s.rest := by
  rw [map_ndLAcceptBool, afterToken_ndLAcceptName]
  exact (map_ndLAcceptBool { data := s.rest }).symm

end Tokens

/-! ## The daemon reads the text -/

/-- A position in a file, and what is left of it. -/
abbrev LeftOver (s : Cursor) (t : List U8) : Prop := s.rest = t

/-- A token function and its text, as the simulation compares them. -/
theorem rel_afterToken {α : Type} (x : Option (α × Cursor)) :
    Option.Rel (Scanner.OnToken LeftOver) x (x.map afterToken) := by
  cases x with
  | none => exact .none
  | some x => exact .some ⟨x.1, rfl⟩

/-- The errors are not compared. -/
theorem exceptRel_afterToken {α : Type} {x : Parse (α × Cursor)} {y : Parse (α × List U8)}
    (h : x.toOption.map afterToken = y.toOption) :
    ExceptRel (fun _ _ => True) (Scanner.OnToken LeftOver) x y := by
  cases x with
  | error log =>
    cases y with
    | error log' => exact .error trivial
    | ok y => cases h
  | ok x =>
    cases y with
    | error log' => cases h
    | ok y =>
      cases h
      exact .ok ⟨x.1, rfl⟩

theorem toOption_map_afterToken {α : Type} (x : Parse (α × Cursor)) :
    (x.map afterToken).toOption = x.toOption.map afterToken := by
  cases x with
  | error log => rfl
  | ok x => rfl

open Lifting in
/-- Wherever it is in a file, the daemon reads the tokens of what is left of it. -/
theorem textScanner_simulates (libc : Libc) : (textScanner libc).Simulates libc
    (Lifting.toOption (List Message)) LeftOver fun _ _ => True where
  skip := by
    rintro s _ rfl
    exact gives_pure (rest_ndLSkip s)
  accept := by
    rintro s _ rfl valid
    refine gives_pure ?_
    rw [← afterToken_ndLAccept]
    exact ⟨_, rfl⟩
  acceptInt := by
    rintro s _ rfl min max
    refine gives_pure ?_
    rw [← afterToken_ndLAcceptInt]
    exact rel_afterToken _
  acceptBool := by
    rintro s _ rfl
    refine gives_pure ?_
    rw [← afterToken_ndLAcceptBool]
    exact rel_afterToken _
  acceptAddr := by
    rintro s _ rfl
    refine gives_pure (exceptRel_afterToken ?_)
    rw [toOption_map_afterToken]
    exact afterToken_ndLAcceptAddr libc s
  acceptLladdr := by
    rintro s _ rfl
    refine gives_pure (exceptRel_afterToken ?_)
    rw [toOption_map_afterToken]
    exact afterToken_ndLAcceptLladdr libc s
  acceptName := by
    rintro s _ rfl size
    refine gives_pure ?_
    rw [← afterToken_ndLAcceptName]
    exact rel_afterToken _
  eof := by
    rintro s _ rfl
    exact Bool.eq_iff_iff.2 (ndLEof_iff.trans List.isEmpty_iff.symm)
  byte := by
    rintro s _ rfl -
    refine gives_pure ?_
    rw [List.headD_eq_head?_getD, List.getD_eq_getElem?_getD, Cursor.rest, List.head?_drop]
  rounds := by
    rintro s _ rfl
    exact Nat.lt_succ_self _
  fail _ := .none
  error _ _ := trivial
  refl _ := trivial
  append _ _ := trivial

/-- What is left to read, and what was written. -/
def outcome : Parse (Cursor × Loaded) → Option (List U8 × Loaded)
  | .ok (s, g) => some (s.rest, g)
  | .error _ => none

/-- Two computations that go together have the same outcome. -/
theorem outcome_eq_of_rel {s : Cursor} {x : Parse (Cursor × Loaded)}
    {y : Option (List U8 × Loaded)}
    (h : (Lifting.toOption (List Message)).Rel (Scanner.After LeftOver s) x y) :
    outcome x = y := by
  cases x with
  | error log =>
    cases h
    rfl
  | ok x =>
    cases h with
    | some h =>
      obtain ⟨g, -, hs⟩ := h
      rw [outcome, hs]

/-! ## The grammar on a text -/

section Grammar

variable (libc : Libc)

/-- `ndL_parse_block` at the value of a directive. -/
abbrev readValue := (textScanner libc).parseValue

/-- The value of a directive, and what its callback reads. -/
abbrev readEntry := (textScanner libc).parseEntry

/-- The end of a directive: a newline, a brace or the end of the text. -/
abbrev readEnd := (textScanner libc).parseEnd

/-- One directive, from its key. -/
abbrev readDirective := (textScanner libc).parseDirective

/-- The loop of `ndL_parse_block`. -/
abbrev readLoop := (textScanner libc).parseLoop

/-- `ndL_parse_block`, with its braces. -/
abbrev readBlock := (textScanner libc).ndLParseBlock

/-- The length of a prefix, `128` where none is given. -/
abbrev readPflen := (textScanner libc).parsePflen

/-- It does not matter which error is logged. -/
abbrev readPrefixed := (textScanner libc).parsePrefixed []

/-- `ndL_parse_rewrite` -/
abbrev readRewrite := (textScanner libc).ndLParseRewrite

/-- `ndL_parse_mode` -/
abbrev readMode := (textScanner libc).ndLParseMode

/-- The callback of a directive of a `rule` block. -/
abbrev readCallRule := (textScanner libc).callRule

/-- `ndL_parse_rule` -/
abbrev readRule := (textScanner libc).ndLParseRule (textScanner libc).ruleBlock

/-- The callback of a directive of a `proxy` block. -/
abbrev readCallProxy := (textScanner libc).callProxy (textScanner libc).ruleBlock

/-- `ndL_parse_proxy` -/
abbrev readProxy := (textScanner libc).ndLParseProxy (textScanner libc).proxyBlock

/-- The callback of a directive outside all blocks. -/
abbrev readCallDefault := (textScanner libc).callDefault (textScanner libc).proxyBlock

/-- A whole file, from the settings `conf`. -/
abbrev readFile (conf : Conf) (data : List U8) : Option (List U8 × Loaded) :=
  (textScanner libc).file data { conf := conf }

end Grammar

/-! ### Its functions, one by one -/

section Equations

variable {libc : Libc}

theorem readInt_eq (min max : ℤ) (t : List U8) : readInt min max t =
    (token (fun c => isdigit c || c == ch '-') t).bind fun buf => (strtoll buf).bind fun value =>
      if value > max ∨ value < min then none else some (value, t.drop buf.length) :=
  map_ndLAcceptInt { data := t } min max

theorem readAddr_eq (t : List U8) : readAddr libc t =
    (token (fun c => isxdigit c || c == ch '.' || c == ch ':') t).bind fun buf =>
      (libc.inetPton buf).map fun addr => (addr, t.drop buf.length) :=
  map_acceptWith { data := t } ..

theorem readLladdr_eq (t : List U8) : readLladdr libc t =
    (token (fun c => isxdigit c || c == ch ':') t).bind fun buf =>
      (libc.etherAton buf).map fun addr => (addr, t.drop buf.length) :=
  map_acceptWith { data := t } ..

theorem readName_eq (size : ℕ) (t : List U8) : readName size t =
    (nameToken size t).map fun buf => (cString buf, t.drop buf.length) :=
  map_ndLAcceptName { data := t } size

theorem readBool_eq (t : List U8) : readBool t =
    (readName 16 t).elim (some (true, t)) fun x =>
      if x.1 = bytes "yes" ∨ x.1 = bytes "true" then some (true, x.2)
      else if x.1 = bytes "no" ∨ x.1 = bytes "false" then some (false, x.2)
      else none :=
  map_ndLAcceptBool { data := t }

/-- A slash has to be followed by a length that is in range. -/
theorem readPflen_eq (t : List U8) : readPflen libc t =
    if (readByte [ch '/'] t).1 = 0 then some (128, (readByte [ch '/'] t).2)
    else (readInt 0 128 (readByte [ch '/'] t).2).map fun x => (x.1.toNat, x.2) := by
  simp only [Scanner.parsePflen, textScanner_accept, textScanner_acceptInt, Option.bind_eq_bind,
    Option.bind_some]
  cases readInt 0 128 (readByte [ch '/'] t).2 <;> rfl

/-- Which errors are logged does not matter. -/
theorem parsePrefixed_eq (expected : List Message) (t : List U8) :
    (textScanner libc).parsePrefixed expected t = (readAddr libc t).bind fun x =>
      (readPflen libc x.2).map fun y => ((x.1, y.1), y.2) := by
  simp only [Scanner.parsePrefixed, textScanner_acceptAddr, Option.bind_eq_bind,
    Option.bind_some, readAddr]
  cases ndLAcceptAddr libc { data := t } with
  | error => rfl
  | ok x => exact (Option.map_eq_bind ..).symm

section Block

variable {sc : Scope} {ptr : sc.Ptr}
  {call : CfInfo sc → Callback sc → List U8 → Loaded → Option (List U8 × Loaded)}

/-- A directive that has no value, only a callback. -/
theorem readValue_none {t : CfInfo sc} (h : t.type = .none) (text : List U8) (g : Loaded) :
    readValue libc sc ptr t text g = some (text, g) := by
  rw [readValue, Scanner.parseValue, h]
  rfl

theorem readValue_bool {t : CfInfo sc} (field : BoolField sc) (h : t.type = .bool field)
    (text : List U8) (g : Loaded) : readValue libc sc ptr t text g =
      (readBool text).map fun x => (x.2, field.set ptr x.1 g) := by
  simp only [Scanner.parseValue, h, textScanner_acceptBool, Option.bind_eq_bind, Option.bind_some]
  cases readBool text <;> rfl

theorem readValue_int {t : CfInfo sc} (field : IntField sc) {min max : ℤ}
    (h : t.type = .int field min max) (text : List U8) (g : Loaded) :
    readValue libc sc ptr t text g =
      (readInt min max text).map fun x => (x.2, field.set ptr x.1 g) := by
  simp only [Scanner.parseValue, h, textScanner_acceptInt, Option.bind_eq_bind, Option.bind_some]
  cases readInt min max text <;> rfl

theorem readValue_lladdr {t : CfInfo sc} (field : LladdrField sc) (h : t.type = .lladdr field)
    (text : List U8) (g : Loaded) : readValue libc sc ptr t text g =
      (readLladdr libc text).map fun x => (x.2, field.set ptr x.1 g) := by
  simp only [Scanner.parseValue, h, textScanner_acceptLladdr, Option.bind_eq_bind,
    Option.bind_some, readLladdr]
  cases ndLAcceptLladdr libc { data := text } <;> rfl

/-- The callback reads what is left after the value. -/
theorem readEntry_eq (t : CfInfo sc) (text : List U8) (g : Loaded) :
    readEntry libc sc ptr call t text g = (readValue libc sc ptr t text g).bind fun x =>
      t.cb.elim (some x) fun cb => call t cb (skipText x.1) x.2 := by
  simp only [Scanner.parseEntry, textScanner_skip, Option.bind_eq_bind, Option.bind_some]
  cases t.cb <;> rfl

/-- Nothing else may follow a directive on its line. -/
theorem readEnd_eq (t : List U8) : readEnd libc t =
    if skipText t = [] ∨ (skipText t).head? = some (ch '}') ∨ (skipText t).head? = some (ch '\n')
    then some (skipText t) else none := by
  simp only [Scanner.parseEnd, Scanner.atEnd, textScanner_skip, textScanner_byte,
    textScanner_eof, textScanner_fail, Option.bind_eq_bind, Option.bind_some]
  cases skipText t with
  | nil => rfl
  | cons c k =>
    by_cases hbrace : c = ch '}'
    · simp [hbrace]
    · simp [hbrace]

/-- The key has to be one of the table of the block, and is looked up as a whole. -/
theorem readDirective_eq (t : List U8) (g : Loaded) : readDirective libc sc ptr call t g =
    (readName 32 t).bind fun x =>
      ((ndLCfinfoTable sc).find? fun info => info.key == x.1).bind fun info =>
        (readEntry libc sc ptr call info (skipText x.2) g).bind fun y =>
          (readEnd libc y.1).map fun t => (t, y.2) := by
  simp only [Scanner.parseDirective, textScanner_acceptName, textScanner_skip,
    Option.bind_eq_bind, Option.bind_some]
  cases readName 32 t with
  | none => rfl
  | some x =>
    dsimp only [Option.bind_some]
    cases (ndLCfinfoTable sc).find? fun info => info.key == x.1 with
    | none => rfl
    | some info =>
      dsimp only [Option.bind_some]
      refine congrArg _ (funext fun y => ?_)
      exact (Option.map_eq_bind ..).symm

/-- One round: the brace that closes a block, an empty line, the end, or a directive. -/
theorem readLoop_succ (n : ℕ) (t : List U8) (g : Loaded) :
    readLoop libc sc ptr call (n + 1) t g =
      if (readByte [ch '\n', ch '}'] (skipText t)).1 = ch '}' then
        if sc = .default then none
        else some ((readByte [ch '\n', ch '}'] (skipText t)).2, g)
      else if (readByte [ch '\n', ch '}'] (skipText t)).1 = ch '\n' then
        readLoop libc sc ptr call n (readByte [ch '\n', ch '}'] (skipText t)).2 g
      else if (readByte [ch '\n', ch '}'] (skipText t)).2 = [] then
        if sc = .default then some ((readByte [ch '\n', ch '}'] (skipText t)).2, g) else none
      else (readDirective libc sc ptr call (readByte [ch '\n', ch '}'] (skipText t)).2 g).bind
        fun x => readLoop libc sc ptr call n x.1 x.2 := by
  simp only [Scanner.parseLoop, textScanner_skip, textScanner_accept, textScanner_eof,
    textScanner_fail, Option.bind_eq_bind, Option.bind_some, List.isEmpty_iff]
  rfl

/-- A block is in braces, the file is not. -/
theorem readBlock_eq (t : List U8) (g : Loaded) : readBlock libc sc ptr call t g =
    if sc = .default then readLoop libc sc ptr call ((skipText t).length + 1) (skipText t) g
    else if (readByte [ch '{'] (skipText t)).1 = 0 then none
    else readLoop libc sc ptr call ((readByte [ch '{'] (skipText t)).2.length + 1)
      (readByte [ch '{'] (skipText t)).2 g := rfl

end Block

theorem readRewrite_eq (r : RuleId) (t : List U8) (g : Loaded) : readRewrite libc r t g =
    (readPrefixed libc t).map fun x =>
      (x.2, g.setRule r { g.cfg.rule r with rewriteTgt := x.1.1, rewritePflen := x.1.2 }) :=
  (Option.map_eq_bind ..).symm

/-- A rule has one mode, and a second directive for it is an error. -/
theorem readMode_eq (info : CfInfo .rule) (r : RuleId) (t : List U8) (g : Loaded) :
    readMode libc info r t g =
      if (g.cfg.rule r).mode ≠ .unknown then none
      else if info.key = bytes "auto" then
        some (t, g.setRule r { g.cfg.rule r with mode := .auto })
      else if info.key = bytes "static" then
        some (t, g.setRule r { g.cfg.rule r with mode := .static })
      else (readName ifNamesize t).map fun x =>
        (x.2, g.setRule r { g.cfg.rule r with ifname := x.1, mode := .iface }) := by
  simp only [Scanner.ndLParseMode, textScanner_acceptName, textScanner_fail, Option.bind_eq_bind,
    Option.bind_some]
  cases readName ifNamesize t <;> rfl

/-- A rule as `ndL_parse_rule` creates it, before its block. -/
def newRule (g : Loaded) (p : ProxyId) (addr : Addr) (pflen : ℕ) : RuleId × Loaded :=
  let (r, cfg) := ndRuleCreate g.cfg p
  (r, ({ g with cfg := cfg } : Loaded).setRule r
    { cfg.rule r with addr := addr, pflen := pflen, table := mainTable })

/-- What is checked at the end of a rule. -/
def Rule.complete (rule : Rule) : Bool :=
  rule.mode ≠ .unknown && (!rule.autowire || rule.mode = .iface)

/-- The rule is created before its block is read, and is checked after it. -/
theorem readRule_eq (p : ProxyId) (t : List U8) (g : Loaded) : readRule libc p t g =
    (readPrefixed libc t).bind fun x =>
      (readBlock libc .rule (newRule g p x.1.1 x.1.2).1
        (readCallRule libc (newRule g p x.1.1 x.1.2).1) x.2 (newRule g p x.1.1 x.1.2).2).bind
        fun y => if (y.2.cfg.rule (newRule g p x.1.1 x.1.2).1).complete then some y else none := by
  simp only [Scanner.ndLParseRule, parsePrefixed_eq, textScanner_fail, Option.bind_eq_bind]
  refine congrArg _ (funext fun x => congrArg _ (funext fun y => ?_))
  rw [Rule.complete]
  dsimp only [newRule]
  split_ifs <;> simp_all

/-- The proxy is created before its block is read: its name must be a new one. -/
theorem readProxy_eq (t : List U8) (g : Loaded) : readProxy libc t g =
    (readName ifNamesize t).bind fun x => (ndProxyCreate g.cfg x.1).bind fun y =>
      readBlock libc .proxy y.1 (readCallProxy libc y.1) x.2 { g with cfg := y.2 } := by
  simp only [Scanner.ndLParseProxy, textScanner_acceptName, Option.bind_eq_bind,
    Option.bind_some]
  cases readName ifNamesize t with
  | none => rfl
  | some x =>
    dsimp only [Option.bind_some]
    cases ndProxyCreate g.cfg x.1 <;> rfl

end Equations

/-! ## What the daemon reads -/

section Outcome

variable {libc : Libc}

/-- A `proxy` block is read in the same way, wherever it stands. -/
theorem outcome_ndLParseProxy (s : Cursor) (g : Loaded) :
    outcome (ndLParseProxy libc s g) = readProxy libc s.rest g :=
  outcome_eq_of_rel ((textScanner_simulates libc).ndLParseProxy
    (textScanner_simulates libc).proxyBlock rfl)

/-- The loop of the file, in however many rounds. -/
theorem outcome_parseLoop (n : ℕ) (s : Cursor) (g : Loaded) :
    outcome (parseLoop libc .default () (callDefault libc) n s g) =
      readLoop libc .default () (readCallDefault libc) n s.rest g :=
  outcome_eq_of_rel ((textScanner_simulates libc).parseLoop_same
    ((textScanner_simulates libc).callDefault (textScanner_simulates libc).proxyBlock) rfl
    .none n)

/-- Positions do not matter: a file is accepted by its text, and read by it. -/
theorem outcome_ndConfParse (conf : Conf) (data : List U8) :
    outcome (ndConfParse libc conf data) = readFile libc conf data :=
  outcome_eq_of_rel ((textScanner_simulates libc).file rfl)

end Outcome

end Ndppd
