import Ndppd.Parse.Order

/-!
# Spelling

The words that stand for a value: numerals, the words for booleans, names of
interfaces, and addresses as the C library reads them. The parser reads them as
that value (`whole_*`), so that words that spell a directive are read as that
(`FileItem.read_of_spelled`).
-/

namespace Ndppd

/-! ## Words -/

/-- The name of an interface: a letter, and at most 14 other characters. -/
structure IfaceName where
  first : U8
  others : List U8
  first_alpha : isalpha first = true
  others_mem : ∀ c ∈ others, isalnum c = true ∨ c ∈ bytes "$-_."
  length_le : others.length ≤ 14

def IfaceName.text (n : IfaceName) : IfName := n.first :: n.others

/-- The digits of a number. -/
structure Numeral (n : ℤ) (w : List U8) : Prop where
  digits : ∀ c ∈ w, isdigit c = true
  ne_nil : w ≠ []
  length_lt : w.length < 64
  value : (decimal w : ℤ) = n

/-- The words for a boolean. A key without a value is true. -/
inductive BoolWord : Bool → List U8 → Prop
  | yes : BoolWord true (bytes "yes")
  | true : BoolWord true (bytes "true")
  | no : BoolWord false (bytes "no")
  | false : BoolWord false (bytes "false")
  | omitted : BoolWord true []

/-- The characters of an IPv6 address. -/
def isAddrChar (c : U8) : Bool := isxdigit c || c == ch '.' || c == ch ':'

/-- The characters of a link-layer address. -/
def isLladdrChar (c : U8) : Bool := isxdigit c || c == ch ':'

section Libc

variable (libc : Libc)

/-- A text of an IPv6 address: the C library reads it as such. -/
structure AddrWord (addr : Addr) (w : List U8) : Prop where
  chars : ∀ c ∈ w, isAddrChar c = true
  ne_nil : w ≠ []
  length_lt : w.length < 64
  value : libc.inetPton w = some addr

/-- A text of a link-layer address: the C library reads it as such. -/
structure LladdrWord (lladdr : LlAddr) (w : List U8) : Prop where
  chars : ∀ c ∈ w, isLladdrChar c = true
  ne_nil : w ≠ []
  length_lt : w.length < 64
  value : libc.etherAton w = some lladdr

/-- An address, with its prefix length, which may be omitted if it is 128. -/
inductive PrefixedWord (addr : Addr) : ℕ → List U8 → Prop
  | omitted {w : List U8} : AddrWord libc addr w → PrefixedWord addr 128 w
  | slash {n : ℕ} {w d : List U8} : AddrWord libc addr w → Numeral n d →
      PrefixedWord addr n (w ++ ch '/' :: d)

end Libc

/-! ### Reading them -/

variable {libc : Libc}

theorem takeWhile_of_all {p : U8 → Bool} {w k : List U8} (hw : ∀ c ∈ w, p c = true)
    (hk : ∀ c ∈ k.head?, p c = false) : (w ++ k).takeWhile p = w := by
  rw [List.takeWhile_append_of_pos hw]
  cases k with
  | nil => simp
  | cons c k => simp [hk c rfl]

theorem takeWhile_eq_self {p : U8 → Bool} {w : List U8} (hw : ∀ c ∈ w, p c = true) :
    w.takeWhile p = w := by
  have := takeWhile_of_all hw (k := []) fun _ h => absurd h (by simp)
  rwa [List.append_nil] at this

/-- A token up to the first byte that is not of its class. -/
theorem token_of_all {p : U8 → Bool} {w k : List U8} (hw : ∀ c ∈ w, p c = true) (hne : w ≠ [])
    (hlen : w.length < 64) (hk : ∀ c ∈ k.head?, p c = false) : token p (w ++ k) = some w := by
  have htake : (w ++ k).take 64 = w ++ k.take (64 - w.length) := by
    rw [List.take_append, List.take_of_length_le hlen.le]
  have hhead : ∀ c ∈ (k.take (64 - w.length)).head?, p c = false := by
    intro c hc
    refine hk c ?_
    rwa [List.head?_take, if_neg (by omega)] at hc
  rw [token, htake, takeWhile_of_all hw hhead, if_neg (by simp [hlen.ne, hne])]

theorem head_not_mem_nil {p : U8 → Bool} : ∀ c ∈ ([] : List U8).head?, p c = false :=
  fun _ h => absurd h (by simp)

theorem strtoll_of_digits {n : ℤ} {w : List U8} (h : Numeral n w) (hn : n < 2 ^ 63) :
    strtoll w = some n := by
  have hsign : w.head? ≠ some (ch '-') := by
    intro hc
    obtain ⟨t, rfl⟩ := List.head?_eq_some_iff.1 hc
    exact absurd (h.digits _ List.mem_cons_self) (by decide)
  have hall : w.all isdigit = true := List.all_eq_true.2 h.digits
  rw [strtoll]
  simp only [if_neg hsign, h.ne_nil, hall, Bool.not_true, Bool.false_eq_true, or_self, if_false,
    h.value]
  have hnonneg : 0 ≤ n := h.value ▸ Int.natCast_nonneg _
  rw [min_eq_right (by omega), max_eq_right (by omega)]

theorem readInt_numeral {n min max : ℤ} {w : List U8} (h : Numeral n w) (hmin : min ≤ n)
    (hmax : n ≤ max) (hn : n < 2 ^ 63) : readInt min max w = some (n, []) := by
  have htoken := token_of_all (p := fun c => isdigit c || c == ch '-')
    (fun c hc => by simp [h.digits c hc]) h.ne_nil h.length_lt head_not_mem_nil
  rw [List.append_nil] at htoken
  rw [readInt_eq, htoken, Option.bind_some, strtoll_of_digits h hn, Option.bind_some,
    if_neg (by omega), List.drop_length]

theorem whole_of_eq {α : Type} {read : List U8 → Option (α × List U8)} {v : List U8} {a : α}
    (h : read v = some (a, [])) : whole read v = some a := by
  rw [whole, h]
  rfl

theorem whole_readInt {n min max : ℤ} {w : List U8} (h : Numeral n w) (hn : min ≤ n ∧ n ≤ max)
    (hmax : max < 2 ^ 63) : whole (readInt min max) w = some n :=
  whole_of_eq (readInt_numeral h hn.1 hn.2 (hn.2.trans_lt hmax))

theorem whole_readBool {b : Bool} {w : List U8} (h : BoolWord b w) : whole readBool w = some b := by
  cases h <;> decide +kernel

theorem readAddr_word {addr : Addr} {w k : List U8} (h : AddrWord libc addr w)
    (hk : ∀ c ∈ k.head?, isAddrChar c = false) : readAddr libc (w ++ k) = some (addr, k) := by
  have htoken := token_of_all h.chars h.ne_nil h.length_lt hk
  rw [readAddr_eq]
  change (token isAddrChar (w ++ k)).bind _ = _
  rw [htoken, Option.bind_some, h.value]
  simp

theorem whole_readLladdr {lladdr : LlAddr} {w : List U8} (h : LladdrWord libc lladdr w) :
    whole (readLladdr libc) w = some lladdr := by
  have htoken := token_of_all h.chars h.ne_nil h.length_lt head_not_mem_nil
  rw [List.append_nil] at htoken
  refine whole_of_eq ?_
  rw [readLladdr_eq]
  change (token isLladdrChar w).bind _ = _
  rw [htoken, Option.bind_some, h.value]
  simp

theorem whole_readPrefixed {addr : Addr} {n : ℕ} {w : List U8} (h : PrefixedWord libc addr n w)
    (hn : n ≤ 128) : whole (readPrefixed libc) w = some (addr, n) := by
  refine whole_of_eq ?_
  cases h with
  | omitted h =>
    have haddr := readAddr_word h (k := []) head_not_mem_nil
    rw [List.append_nil] at haddr
    rw [readPrefixed, parsePrefixed_eq, haddr]
    rfl
  | @slash _ w d h hd =>
    have haddr := readAddr_word h (k := ch '/' :: d) fun c hc => by
      rw [← Option.some.inj hc]
      decide
    have hslash : readByte [ch '/'] (ch '/' :: d) = (ch '/', d) :=
      readByte_of_valid (by decide) d
    have hne : ch '/' ≠ 0 := by decide
    have hpflen : readPflen libc (ch '/' :: d) = some (n, []) := by
      simp only [readPflen_eq, hslash, if_neg hne]
      rw [readInt_numeral hd (by omega) (by omega) (by omega)]
      rfl
    rw [readPrefixed, parsePrefixed_eq, haddr, Option.bind_some]
    dsimp only
    rw [hpflen]
    rfl

theorem isNameChar_of_mem {c : U8} (h : isalnum c = true ∨ c ∈ bytes "$-_.") :
    isNameChar c = true ∧ c ≠ 0 := by
  have hchars : ∀ c, isalnum c = true ∨ c ∈ bytes "$-_." → isNameChar c = true ∧ c ≠ 0 := by
    decide +kernel
  exact hchars c h

theorem whole_readName (n : IfaceName) : whole (readName ifNamesize) n.text = some n.text := by
  have hothers : ∀ c ∈ n.others, isNameChar c = true :=
    fun c hc => (isNameChar_of_mem (n.others_mem c hc)).1
  have hscan : nameScan (ifNamesize - 1) n.text = n.text := by
    have htake : n.text.take (ifNamesize - 1) = n.text :=
      List.take_of_length_le (Nat.succ_le_succ n.length_le)
    rw [nameScan, htake, IfaceName.text]
    dsimp only
    rw [if_pos n.first_alpha]
    rw [takeWhile_eq_self hothers]
  have htoken : nameToken ifNamesize n.text = some n.text := by
    rw [nameToken, hscan, if_neg (by simp [IfaceName.text]), List.drop_length, if_neg (by simp)]
  have hstring : cString n.text = n.text := by
    refine takeWhile_eq_self fun c hc => ?_
    rw [bne_iff_ne]
    rcases List.mem_cons.1 hc with rfl | hc
    · exact (isNameChar_of_mem (.inl (by rw [isalnum, n.first_alpha, Bool.true_or]))).2
    · exact (isNameChar_of_mem (n.others_mem c hc)).2
  refine whole_of_eq ?_
  rw [readName_eq, htoken, Option.map_some, hstring, List.drop_length]

/-! ## Directives -/

section Spelled

variable (libc : Libc)

/-- A word for the value of a directive. -/
def RuleDir.Value : RuleDir → List U8 → Prop
  | .rewrite addr n, w => PrefixedWord libc addr n w
  | .auto, w => w = []
  | .static, w => w = []
  | .iface ifname, w => w = ifname
  | .autowire b, w => BoolWord b w
  | .target lladdr, w => LladdrWord libc lladdr w
  | .table n, w => Numeral n w

/-- A directive of a rule, in words. -/
structure RuleDir.Spelled (d : RuleDir) (x : Setting .rule) : Prop where
  key : x.info.key = d.key.text
  value : d.Value libc x.value

/-- A rule, in words. -/
structure RuleDef.Spelled (d : RuleDef) (b : RuleBlock) : Prop where
  header : PrefixedWord libc d.addr d.pflen b.header
  dirs : List.Forall₂ (RuleDir.Spelled libc) d.dirs b.settings

/-- A word for the value of a setting. -/
def ProxyDir.Value : ProxyDir → List U8 → Prop
  | .router b, w => BoolWord b w
  | .promiscuous b, w => BoolWord b w
  | .target lladdr, w => LladdrWord libc lladdr w
  | .rule _, _ => False

/-- A directive of a proxy, in words. -/
inductive ProxyDir.Spelled : ProxyDir → ProxyItem → Prop
  | setting {d : ProxyDir} {x : Setting .proxy} : x.info.key = d.key.text → d.Value libc x.value →
      ProxyDir.Spelled d (.setting x)
  | rule {d : RuleDef} {b : RuleBlock} : d.Spelled libc b → ProxyDir.Spelled (.rule d) (.rule b)

/-- A proxy, in words. -/
structure ProxyDef.Spelled (d : ProxyDef) (b : ProxyBlock) : Prop where
  name : b.name = d.ifname
  dirs : List.Forall₂ (ProxyDir.Spelled libc) d.dirs b.items

/-- A word for the value of a setting. -/
def ConfDir.Value : ConfDir → List U8 → Prop
  | .invalidTtl n, w => Numeral n w
  | .validTtl n, w => Numeral n w
  | .renew n, w => Numeral n w
  | .retransLimit n, w => Numeral n w
  | .retransTime n, w => Numeral n w
  | .keepalive b, w => BoolWord b w
  | .proxy _, _ => False

/-- A directive of the file, in words. -/
inductive ConfDir.Spelled : ConfDir → FileItem → Prop
  | setting {d : ConfDir} {x : Setting .default} : x.info.key = d.key.text → d.Value x.value →
      ConfDir.Spelled d (.setting x)
  | proxy {d : ProxyDef} {b : ProxyBlock} : d.Spelled libc b →
      ConfDir.Spelled (.proxy d) (.proxy b)

end Spelled

/-! ### Values in their ranges -/

def RuleDir.InRange : RuleDir → Prop
  | .rewrite _ n => n ≤ 128
  | .iface ifname => ∃ n : IfaceName, ifname = n.text
  | .table n => n ≤ 255
  | _ => True

structure RuleDef.InRange (d : RuleDef) : Prop where
  pflen : d.pflen ≤ 128
  dirs : ∀ x ∈ d.dirs, x.InRange

def ProxyDir.InRange : ProxyDir → Prop
  | .rule d => d.InRange
  | _ => True

structure ProxyDef.InRange (d : ProxyDef) : Prop where
  ifname : ∃ n : IfaceName, d.ifname = n.text
  dirs : ∀ x ∈ d.dirs, x.InRange

def ConfDir.InRange : ConfDir → Prop
  | .invalidTtl n => 1000 ≤ n ∧ n ≤ 3600000
  | .validTtl n => 10000 ≤ n ∧ n ≤ 3600000
  | .renew n => 0 ≤ n ∧ n ≤ 0
  | .retransLimit n => 0 ≤ n ∧ n ≤ 10
  | .retransTime n => 0 ≤ n ∧ n ≤ 60000
  | .keepalive _ => True
  | .proxy d => d.InRange

/-! ### Reading directives -/

/-- An entry of the table is known by its key. -/
theorem Setting.info_eq {sc : Scope} (x : Setting sc) (info : CfInfo sc)
    (h : info ∈ ndLCfinfoTable sc) (hkey : x.info.key = info.key) : x.info = info := by
  have hfind := (table_key x.mem).2.2
  rw [hkey, (table_key h).2.2] at hfind
  exact (Option.some.inj hfind).symm

/-- Values that are read from all words, if they are from each. -/
theorem mapM_of_spelled {α δ : Type} {Spelled : δ → α → Prop} {InRange : δ → Prop}
    {read : α → Option δ} {ds : List δ} {xs : List α} (h : List.Forall₂ Spelled ds xs)
    (hrange : ∀ d ∈ ds, InRange d) (hread : ∀ d x, InRange d → Spelled d x → read x = some d) :
    xs.mapM read = some ds := by
  have hboth := (List.forall₂_and_left _ _).2 ⟨hrange, h⟩
  exact Traverse.mapM_eq_some_iff.2 (hboth.flip.imp fun x d hd => hread d x hd.1 hd.2)

theorem Setting.readRuleDir_of_spelled {d : RuleDir} {x : Setting .rule} (hrange : d.InRange)
    (h : d.Spelled libc x) : x.readRuleDir libc = some d := by
  obtain ⟨hkey, hvalue⟩ := h
  have hinfo := fun info hmem => x.info_eq info hmem
  simp only [ndLCfinfoTable, List.forall_mem_cons] at hinfo
  obtain ⟨hrewrite, hauto, hstatic, hautowire, hiface, htarget, htable, -⟩ := hinfo
  cases d with
  | rewrite addr n =>
    rw [Setting.readRuleDir, hrewrite hkey, whole_readPrefixed hvalue hrange]
    rfl
  | auto =>
    rw [Setting.readRuleDir, hauto hkey]
    exact if_pos hvalue
  | static =>
    rw [Setting.readRuleDir, hstatic hkey]
    exact if_pos hvalue
  | iface ifname =>
    obtain ⟨n, rfl⟩ := hrange
    rw [Setting.readRuleDir, hiface hkey, show x.value = n.text from hvalue, whole_readName]
    rfl
  | autowire b =>
    rw [Setting.readRuleDir, hautowire hkey, whole_readBool hvalue]
    rfl
  | target lladdr =>
    rw [Setting.readRuleDir, htarget hkey, whole_readLladdr hvalue]
    rfl
  | table n =>
    have hn : n ≤ 255 := hrange
    rw [Setting.readRuleDir, htable hkey]
    exact congrArg (Option.map _) (whole_readInt hvalue (by omega) (by decide))

theorem RuleBlock.read_of_spelled {d : RuleDef} {b : RuleBlock} (hrange : d.InRange)
    (h : d.Spelled libc b) : b.read libc = some d := by
  have hdirs : b.settings.mapM (Setting.readRuleDir libc) = some d.dirs :=
    mapM_of_spelled h.dirs hrange.dirs fun _ _ => Setting.readRuleDir_of_spelled
  rw [RuleBlock.read, whole_readPrefixed h.header hrange.pflen, hdirs]
  rfl

theorem ProxyItem.read_of_spelled {d : ProxyDir} {x : ProxyItem} (hrange : d.InRange)
    (h : d.Spelled libc x) : x.read libc = some d := by
  cases h with
  | rule h =>
    rw [ProxyItem.read, RuleBlock.read_of_spelled hrange h]
    rfl
  | @setting d x hkey hvalue =>
    have hinfo := fun info hmem => x.info_eq info hmem
    simp only [ndLCfinfoTable, List.forall_mem_cons] at hinfo
    obtain ⟨-, hrouter, hpromiscuous, htarget, -⟩ := hinfo
    cases d with
    | router b =>
      rw [ProxyItem.read, hrouter hkey, whole_readBool hvalue]
      rfl
    | promiscuous b =>
      rw [ProxyItem.read, hpromiscuous hkey, whole_readBool hvalue]
      rfl
    | target lladdr =>
      rw [ProxyItem.read, htarget hkey, whole_readLladdr hvalue]
      rfl
    | rule d => exact hvalue.elim

theorem ProxyBlock.read_of_spelled {d : ProxyDef} {b : ProxyBlock} (hrange : d.InRange)
    (h : d.Spelled libc b) : b.read libc = some d := by
  obtain ⟨n, hn⟩ := hrange.ifname
  have hdirs : b.items.mapM (ProxyItem.read libc) = some d.dirs :=
    mapM_of_spelled h.dirs hrange.dirs fun _ _ => ProxyItem.read_of_spelled
  rw [ProxyBlock.read, h.name, hn, whole_readName, hdirs, ← hn]
  rfl

/-- Words that spell a directive are read as that. -/
theorem FileItem.read_of_spelled {d : ConfDir} {x : FileItem} (hrange : d.InRange)
    (h : d.Spelled libc x) : x.read libc = some d := by
  cases h with
  | proxy h =>
    rw [FileItem.read, ProxyBlock.read_of_spelled hrange h]
    rfl
  | @setting d x hkey hvalue =>
    have hinfo := fun info hmem => x.info_eq info hmem
    simp only [ndLCfinfoTable, List.forall_mem_cons] at hinfo
    obtain ⟨-, hinvalid, hvalid, hrenew, hlimit, htime, hkeepalive, -⟩ := hinfo
    cases d with
    | invalidTtl n =>
      rw [FileItem.read, hinvalid hkey]
      exact congrArg (Option.map _) (whole_readInt hvalue hrange (by decide))
    | validTtl n =>
      rw [FileItem.read, hvalid hkey]
      exact congrArg (Option.map _) (whole_readInt hvalue hrange (by decide))
    | renew n =>
      rw [FileItem.read, hrenew hkey]
      exact congrArg (Option.map _) (whole_readInt hvalue hrange (by decide))
    | retransLimit n =>
      rw [FileItem.read, hlimit hkey]
      exact congrArg (Option.map _) (whole_readInt hvalue hrange (by decide))
    | retransTime n =>
      rw [FileItem.read, htime hkey]
      exact congrArg (Option.map _) (whole_readInt hvalue hrange (by decide))
    | keepalive b =>
      rw [FileItem.read, hkeepalive hkey, whole_readBool hvalue]
      rfl
    | proxy d => exact hvalue.elim

end Ndppd
