import Ndppd.Parse.Simulation
import Ndppd.Parse.Tokens

/-!
# The parser stays in bounds

The grammar, run with the functions that read a token byte by byte (`scanner`), and with
blocks in blocks of any depth: nothing keeps the parser from a loop that does not end, or
from a recursion that does not. Every byte that it reads or writes is an event, and so is
every call of `ndL_parse_block`, with its depth.

`ndConfLoad_yields` says that it does what the parser of the model does, for any number
of rounds that its loops are given, if it is larger than the file, and for any number of
levels from three on; that all that it reads is in the file, and all that it writes in
its buffer; and that no block is deeper than three.
-/

namespace Ndppd

namespace Touching

open Report

/-! ## The parser -/

/-- The position and the result of a token that has been stored. -/
def moved {α : Type} (x : Option α × Cursor) : Option (α × Cursor) := x.1.map fun a => (a, x.2)

/-- The same for a function that logs its error. -/
def movedParse {α : Type} (x : Parse α × Cursor) : Parse (α × Cursor) := x.1.map fun a => (a, x.2)

section Parser

variable (mem : ℕ → U8) (rounds : ℕ) (libc : Libc)

/-- The functions that read a token, with what they touch. -/
def scanner : Scanner Touches Cursor where
  skip s := ndLSkip mem rounds s
  accept s valid := ndLAccept mem s valid
  acceptInt s min max := do return moved (← ndLAcceptInt mem rounds s min max)
  acceptBool s := do return moved (← ndLAcceptBool mem rounds s)
  acceptAddr s := do return movedParse (← ndLAcceptAddr mem rounds libc s)
  acceptLladdr s := do return movedParse (← ndLAcceptLladdr mem rounds libc s)
  acceptName s size := do return moved (← ndLAcceptName mem rounds s size)
  eof := ndLEof
  byte s := fetch mem s
  error := ndLError
  fail log := fail (.rejected log)
  rounds _ := rounds
  outOfRounds := fail .outOfRounds

/-- The functions of the table, given `ndL_parse_block`. -/
def call (block : (sc : Scope) → sc.Ptr → Cursor → Loaded → Touches (Cursor × Loaded)) :
    (sc : Scope) → sc.Ptr → CfInfo sc → Callback sc → Cursor → Loaded → Touches (Cursor × Loaded)
  | .rule, r => (scanner mem rounds libc).callRule r
  | .proxy, p => (scanner mem rounds libc).callProxy (block .rule) p
  | .default, _ => (scanner mem rounds libc).callDefault (block .proxy)

/-- `ndL_parse_block`, at a depth, if there are levels left. -/
def ndLParseBlock : ℕ → ℕ → (sc : Scope) → sc.Ptr → Cursor → Loaded → Touches (Cursor × Loaded)
  | 0, _, _, _, _, _ => fail .outOfLevels
  | levels + 1, depth, sc, ptr, s, g => do
    emit (.block depth)
    (scanner mem rounds libc).ndLParseBlock sc ptr
      (call mem rounds libc (ndLParseBlock levels (depth + 1)) sc ptr) s g

/-- The call in `nd_conf_load`, for a file of `data`. -/
def ndConfLoad (levels : ℕ) (conf : Conf) (data : List U8) : Touches (Cursor × Loaded) :=
  ndLParseBlock mem rounds libc levels 1 .default () { data := data } { conf := conf }

end Parser

/-- The result of the model. -/
def result {α : Type} : Parse α → Except Stop α
  | .ok a => .ok a
  | .error log => .error (.rejected log)

/-! ## The parser does what the model does -/

variable {mem : ℕ → U8} {rounds : ℕ} {libc : Libc} {data : List U8}

/-- The same position in the file. -/
def SamePos (data : List U8) (s s' : Cursor) : Prop := s = s' ∧ s.data = data

/-- The parser and the model: the events are within the data and the buffers, and the
    errors are those of the model. -/
def withModel (data : List U8) : Lifting Parse Touches :=
  Report.lifting (Touch.Within data.length) Stop.rejected

section Tokens

variable {α : Type} {s : Cursor}

/-- A token function that does what the model does goes together with it. -/
theorem gives_moved {x : Touches (Option α × Cursor)} {m : Option (α × Cursor)}
    (hx : Does data x (stored s m)) (hm : ∀ a, m = some a → a.2.data = data) :
    (withModel data).Gives (Option.Rel (Scanner.OnToken (SamePos data))) m
      (do return moved (← x)) := by
  refine gives_of_yields (hx.andThen (yields_pure _)) ?_
  cases m with
  | none => exact .none
  | some a => exact .some ⟨a.1, rfl, hm a rfl⟩

theorem gives_movedParse {x : Touches (Parse α × Cursor)} {m : Parse (α × Cursor)}
    (hx : Does data x (storedParse s m)) (hm : ∀ a, m = .ok a → a.2.data = data) :
    (withModel data).Gives (ExceptRel Eq (Scanner.OnToken (SamePos data))) m
      (do return movedParse (← x)) := by
  refine gives_of_yields (hx.andThen (yields_pure _)) ?_
  cases m with
  | error log => exact .error rfl
  | ok a => exact .ok ⟨a.1, rfl, hm a rfl⟩

end Tokens

/-- The functions that read a token do what the model says, within the file. -/
theorem scanner_simulates (h : Holds mem rounds data) (libc : Libc) :
    (scanner mem rounds libc).Simulates libc (withModel data) (SamePos data) Eq where
  skip := by
    rintro s _ ⟨rfl, hs⟩
    exact gives_of_yields (ndLSkip_does h hs) ⟨rfl, (reaches_ndLSkip s).data.trans hs⟩
  accept := by
    rintro s _ ⟨rfl, hs⟩ valid
    exact gives_of_yields (ndLAccept_does h hs valid)
      ⟨_, rfl, (reaches_ndLAccept s valid).data.trans hs⟩
  acceptInt := by
    rintro s _ ⟨rfl, hs⟩ min max
    exact gives_moved (ndLAcceptInt_does h hs min max)
      fun a ha => (reaches_ndLAcceptInt ha).data.trans hs
  acceptBool := by
    rintro s _ ⟨rfl, hs⟩
    exact gives_moved (ndLAcceptBool_does h hs) fun a ha => (reaches_ndLAcceptBool ha).data.trans hs
  acceptAddr := by
    rintro s _ ⟨rfl, hs⟩
    exact gives_movedParse (acceptWith_does h hs ..)
      fun a ha => (reaches_acceptWith ha).data.trans hs
  acceptLladdr := by
    rintro s _ ⟨rfl, hs⟩
    exact gives_movedParse (acceptWith_does h hs ..)
      fun a ha => (reaches_acceptWith ha).data.trans hs
  acceptName := by
    rintro s _ ⟨rfl, hs⟩ size
    exact gives_moved (ndLAcceptName_does h hs size)
      fun a ha => (passes_ndLAcceptName ha).data.trans hs
  eof := by
    rintro s _ ⟨rfl, -⟩
    rfl
  byte := by
    rintro s _ ⟨rfl, hs⟩ heof
    have hlt : s.offset < s.data.length := by simpa [scanner, ndLEof] using heof
    refine gives_of_yields (fetch_does hs hlt) ?_
    have hget := h.mem s.offset (hs ▸ hlt)
    rw [List.getD_eq_getElem?_getD, hs, hget, Option.getD_some]
  rounds := by
    rintro s _ ⟨rfl, hs⟩
    exact length_rest_lt_rounds hs h.rounds
  fail := by
    rintro α β R log _ rfl
    exact rel_fail
  error := by
    rintro s _ ⟨rfl, -⟩ text
    rfl
  refl _ := rfl
  append := by
    rintro log _ more _ rfl rfl
    rfl

/-! ### Levels -/

section Levels

variable (h : Holds mem rounds data) (levels : ℕ)

include h

/-- One block, at a depth that there is room for. -/
theorem ndLParseBlock_rel {depth : ℕ} (hdepth : depth ≤ 3) {sc : Scope} {ptr : sc.Ptr}
    {call' : CfInfo sc → Callback sc → Cursor → Loaded → Parse (Cursor × Loaded)}
    (hcall : ∀ t cb {s s'} g, SamePos data s s' →
      (withModel data).Rel (Scanner.After (SamePos data) s) (call' t cb s g)
        (call mem rounds libc (ndLParseBlock mem rounds libc levels (depth + 1)) sc ptr t cb s' g))
    {s s' : Cursor} (g : Loaded) (hs : SamePos data s s') :
    (withModel data).Rel (Scanner.After (SamePos data) s)
      ((Ndppd.scanner libc).ndLParseBlock sc ptr call' s g)
      (ndLParseBlock mem rounds libc (levels + 1) depth sc ptr s' g) := by
  have hin : Touch.Within data.length (.block depth) := hdepth
  exact rel_emit hin ((scanner_simulates h libc).ndLParseBlock hcall hs)

/-- The block of a rule is the last level. -/
theorem ruleBlock_rel (r : RuleId) {s s' : Cursor} (g : Loaded) (hs : SamePos data s s') :
    (withModel data).Rel (Scanner.After (SamePos data) s) ((Ndppd.scanner libc).ruleBlock r s g)
      (ndLParseBlock mem rounds libc (levels + 1) 3 .rule r s' g) :=
  ndLParseBlock_rel h levels (Nat.le_refl 3) ((scanner_simulates h libc).callRule r) g hs

theorem proxyBlock_rel (p : ProxyId) {s s' : Cursor} (g : Loaded) (hs : SamePos data s s') :
    (withModel data).Rel (Scanner.After (SamePos data) s) ((Ndppd.scanner libc).proxyBlock p s g)
      (ndLParseBlock mem rounds libc (levels + 2) 2 .proxy p s' g) :=
  ndLParseBlock_rel h (levels + 1) (by decide)
    ((scanner_simulates h libc).callProxy (ruleBlock_rel h levels) p) g hs

theorem file_rel {s s' : Cursor} (g : Loaded) (hs : SamePos data s s') :
    (withModel data).Rel (Scanner.After (SamePos data) s) ((Ndppd.scanner libc).file s g)
      (ndLParseBlock mem rounds libc (levels + 3) 1 .default () s' g) :=
  ndLParseBlock_rel h (levels + 2) (by decide)
    ((scanner_simulates h libc).callDefault (proxyBlock_rel h levels)) g hs

end Levels

/-- The result of the parser is that of the model. -/
theorem yields_of_rel {s : Cursor} {x : Parse (Cursor × Loaded)} {y : Touches (Cursor × Loaded)}
    (h : (withModel data).Rel (Scanner.After (SamePos data) s) x y) :
    Yields (Touch.Within data.length) y (result x) := by
  obtain ⟨r, hy, hr⟩ := h
  cases hr with
  | error he =>
    rw [he] at hy
    exact hy
  | ok hab =>
    obtain ⟨g, -, rfl, -⟩ := hab
    exact hy

/-- The parser ends, and stays in bounds, whatever is in the file: it does what the model
    does with any number of rounds larger than the file, and with three levels or more. It
    reads bytes of the file only, writes within its buffers, and no block is deeper than
    three. -/
theorem ndConfLoad_yields (libc : Libc) (conf : Conf) (data : List U8) (mem : ℕ → U8)
    (rounds levels : ℕ) (hmem : ∀ i < data.length, data[i]? = some (mem i))
    (hrounds : data.length < rounds) (hlevels : 3 ≤ levels) :
    Yields (Touch.Within data.length) (ndConfLoad mem rounds libc levels conf data)
      (result (ndConfParse libc conf data)) := by
  obtain ⟨levels, rfl⟩ := Nat.exists_eq_add_of_le' hlevels
  exact yields_of_rel (file_rel ⟨hmem, hrounds⟩ levels { conf := conf } ⟨rfl, rfl⟩)

end Touching

namespace Small

/-- A file that ends in a comment in a block, with a NUL before a key. -/
def openBlock : List U8 := bytes "proxy a \x7b\n" ++ 0 :: bytes "rule ::1 \x7b\nauto # end"

/-- The parser, in memory where zeros follow. -/
def openBlockRun : Touching.Touches (Cursor × Loaded) :=
  Touching.ndConfLoad (openBlock.getD · 0) 40 loopback 3
    { byteOrder := .little, hashSeed := 0 } openBlock

/-- The file is rejected, in the third block. -/
theorem openBlock_yields :
    (openBlockRun.trace.filter fun e => e matches .block _) = [.block 1, .block 2, .block 3] ∧
    Report.Yields (Touching.Touch.Within openBlock.length) openBlockRun
      (Touching.result (ndConfParse loopback { byteOrder := .little, hashSeed := 0 } openBlock)) :=
  ⟨by decide +kernel,
    Touching.ndConfLoad_yields loopback _ openBlock _ 40 3 (by decide) (by decide) le_rfl⟩

end Small

end Ndppd
