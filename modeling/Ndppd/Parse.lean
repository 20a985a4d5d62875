import Ndppd.Proxy

/-!
# The configuration file

The parser of the configuration (`conf.c`). A file is a sequence of directives,
one per line: a key, and a value or a block of other directives in braces. The
keys and the types of their values are in one table (`ndLCfinfoTable`), and one
function parses a block, of whatever scope (`ndLParseBlock`): the file itself, a
proxy, or a rule.

The parser writes what it reads to the global settings, the proxies and the
rules as it goes (`Loaded`). If it fails, the daemon logs why and does not start.

The functions that read a token are here as functions of what is left of the file, and
the grammar is written over them (`Scanner`): `Ndppd.Parse.Text` and
`Ndppd.Parse.Bounds` run the same grammar without positions, and byte by byte.
-/

namespace Ndppd

/-! ## Characters -/

/-- The byte of an ASCII character. -/
def ch (c : Char) : U8 := BitVec.ofNat 8 c.toNat

/-- The bytes of an ASCII text. -/
def bytes (s : String) : List U8 := s.toList.map ch

/-- A byte between those of two characters. -/
def inRange (lo hi : Char) (c : U8) : Bool := ch lo ≤ c && c ≤ ch hi

/-! The daemon sets no locale: a byte above 127 is in no class. -/

def isdigit (c : U8) : Bool := inRange '0' '9' c

def isxdigit (c : U8) : Bool := isdigit c || inRange 'a' 'f' c || inRange 'A' 'F' c

def isalpha (c : U8) : Bool := inRange 'a' 'z' c || inRange 'A' 'Z' c

def isalnum (c : U8) : Bool := isalpha c || isdigit c

def isspace (c : U8) : Bool := c == ch ' ' || inRange '\t' '\r' c

/-- `strchr(valid, c) != NULL`: it finds the NUL at the end of `valid`, too. -/
def strchr (valid : List U8) (c : U8) : Bool := valid.contains c || c == 0

/-- What the C string in a buffer is: it ends before the first NUL. -/
def cString (buf : List U8) : List U8 := buf.takeWhile (· != 0)

/-- The functions of the C library that read addresses, from a string. -/
structure Libc where
  inetPton : List U8 → Option Addr
  etherAton : List U8 → Option LlAddr

/-- The functions of the C library, for one address. -/
def Small.loopback : Libc where
  inetPton w := if w = bytes "::1" then some 1 else none
  etherAton _ := none

/-- The number a buffer starts with: `0` or more digits. -/
def decimal (buf : List U8) : ℕ := buf.foldl (fun n c => 10 * n + (c.toNat - 48)) 0

/-- `strtoll(buf, &endptr, 10)` for a buffer of digits and minus signs, or `none`
    if `endptr` is not at its end. Numbers that are too large are clamped. -/
def strtoll (buf : List U8) : Option ℤ :=
  let digits := if buf.head? = some (ch '-') then buf.tail else buf
  if digits = [] ∨ !digits.all isdigit then none
  else
    let value : ℤ := if buf.head? = some (ch '-') then -decimal digits else decimal digits
    some (max (-2 ^ 63) (min (2 ^ 63 - 1) value))

/-! ## Positions -/

/-- `ndL_state_t`. The length is that of the data. -/
structure Cursor where
  data : List U8
  offset : ℕ := 0
  line : ℕ := 1
  column : ℕ := 0

namespace Cursor

/-- What is left to read. -/
def rest (s : Cursor) : List U8 := s.data.drop s.offset

/-- Moves on by `n` bytes, in the same line. -/
def advance (s : Cursor) (n : ℕ) : Cursor :=
  { s with offset := s.offset + n, column := s.column + n }

/-- Moves on by a newline. -/
def newline (s : Cursor) : Cursor :=
  { s with offset := s.offset + 1, line := s.line + 1, column := 1 }

end Cursor

/-- A line of the log: the position and the text of an error. -/
structure Message where
  position : Option (ℕ × ℕ)
  text : String

/-- The result of a parser, or the errors it logs. -/
abbrev Parse := Except (List Message)

def ndLError (s : Cursor) (text : String) : List Message := [⟨some (s.line, s.column), text⟩]

def ndLEof (s : Cursor) : Bool := s.offset ≥ s.data.length

/-- The number of bytes `ndL_skip` skips: blanks, and comments up to their newline. -/
def skipped : Bool → List U8 → ℕ
  | _, [] => 0
  | comment, c :: t =>
    let comment := comment || c == ch '#'
    if c = ch '\n' ∨ (!comment ∧ !isspace c) then 0 else skipped comment t + 1

def ndLSkip (s : Cursor) : Cursor := s.advance (skipped false s.rest)

/-! ## Tokens -/

/-- `ndL_accept`: the byte that is accepted, or `0`. A NUL is skipped, as `strchr`
    finds it. -/
def ndLAccept (s : Cursor) (valid : List U8) : U8 × Cursor :=
  match s.rest with
  | [] => (0, s)
  | c :: _ =>
    if !strchr valid c then (0, s)
    else if c = ch '\n' then (c, s.newline)
    else (c, s.advance 1)

/-- The loops of `ndL_accept_int`, `ndL_accept_addr` and `ndL_accept_lladdr`: the
    bytes of a class, unless there is none, or they do not fit into the buffer. -/
def token (p : U8 → Bool) (t : List U8) : Option (List U8) :=
  let buf := (t.take 64).takeWhile p
  if buf.length = 64 ∨ buf = [] then none else some buf

def ndLAcceptInt (s : Cursor) (min max : ℤ) : Option (ℤ × Cursor) :=
  match token (fun c => isdigit c || c == ch '-') s.rest with
  | none => none
  | some buf =>
    match strtoll buf with
    | none => none
    | some value =>
      if value > max ∨ value < min then none else some (value, s.advance buf.length)

/-- A text with an argument in quotes. -/
def quoted (text : String) (arg : List U8) : String :=
  text ++ " \"" ++ String.ofList (arg.map fun c => Char.ofNat c.toNat) ++ "\""

/-- `ndL_accept_addr` and `ndL_accept_lladdr`: the bytes of a class are converted, and it is
    an error if they cannot be. -/
def acceptWith {α : Type} (p : U8 → Bool) (convert : List U8 → Option α) (error : String)
    (s : Cursor) : Parse (α × Cursor) :=
  match token p s.rest with
  | none => .error []
  | some buf =>
    match convert buf with
    | none => .error (ndLError s (quoted error buf))
    | some addr => .ok (addr, s.advance buf.length)

def ndLAcceptAddr (libc : Libc) (s : Cursor) : Parse (Addr × Cursor) :=
  acceptWith (fun c => isxdigit c || c == ch '.' || c == ch ':') libc.inetPton
    "Invalid IPv6 address" s

def ndLAcceptLladdr (libc : Libc) (s : Cursor) : Parse (LlAddr × Cursor) :=
  acceptWith (fun c => isxdigit c || c == ch ':') libc.etherAton "Invalid link-layer address" s

/-- The bytes of a name, after the first one. -/
def isNameChar (c : U8) : Bool := isalnum c || strchr (bytes "$-_.") c

/-- The loop of `ndL_accept_name`: at most `n` bytes of a name. -/
def nameScan (n : ℕ) (t : List U8) : List U8 :=
  match t.take n with
  | [] => []
  | c :: t => if isalpha c then c :: t.takeWhile isNameChar else []

/-- The bytes `ndL_accept_name` accepts into a buffer of `size` bytes. -/
def nameToken (size : ℕ) (t : List U8) : Option (List U8) :=
  let buf := nameScan (size - 1) t
  if buf = [] then none
  -- The buffer is full, and the name goes on.
  else if buf.length ≥ size - 1 ∧ (t.drop buf.length).head?.any isNameChar then none
  else some buf

def ndLAcceptName (s : Cursor) (size : ℕ) : Option (List U8 × Cursor) :=
  match nameToken size s.rest with
  | none => none
  | some buf => some (cString buf, s.advance buf.length)

def ndLAcceptBool (s : Cursor) : Option (Bool × Cursor) :=
  match ndLAcceptName s 16 with
  -- A key without a value.
  | none => some (true, s)
  | some (buf, s') =>
    if buf = bytes "yes" ∨ buf = bytes "true" then some (true, s')
    else if buf = bytes "no" ∨ buf = bytes "false" then some (false, s')
    else none

/-! ## The table of keys -/

/-- The scopes of directives. -/
inductive Scope
  | default
  | proxy
  | rule
  deriving DecidableEq

/-- What a block of a scope is for. -/
abbrev Scope.Ptr : Scope → Type
  | .default => Unit
  | .proxy => ProxyId
  | .rule => RuleId

/-- What the parser writes. -/
structure Loaded where
  conf : Conf
  /-- `nd_conf_renew`. -/
  renew : ℤ := 5000
  cfg : Config := .empty

/-- Writes a proxy. -/
def Loaded.setProxy (g : Loaded) (p : ProxyId) (f : Proxy) : Loaded :=
  { g with cfg := g.cfg.setProxy p f }

/-- Writes a rule. -/
def Loaded.setRule (g : Loaded) (r : RuleId) (f : Rule) : Loaded :=
  { g with cfg := g.cfg.setRule r f }

/-- The integers of a scope. -/
inductive IntField : Scope → Type
  | invalidTtl : IntField .default
  | validTtl : IntField .default
  | renew : IntField .default
  | retransLimit : IntField .default
  | retransTime : IntField .default
  | table : IntField .rule

/-- The booleans of a scope. -/
inductive BoolField : Scope → Type
  | keepalive : BoolField .default
  | router : BoolField .proxy
  | promiscuous : BoolField .proxy
  | autowire : BoolField .rule

/-- The link-layer addresses of a scope. -/
inductive LladdrField : Scope → Type
  | proxyTarget : LladdrField .proxy
  | ruleTarget : LladdrField .rule

def IntField.set : {sc : Scope} → IntField sc → sc.Ptr → ℤ → Loaded → Loaded
  | _, .invalidTtl, _, v, g => { g with conf := { g.conf with invalidTtl := v } }
  | _, .validTtl, _, v, g => { g with conf := { g.conf with validTtl := v } }
  | _, .renew, _, v, g => { g with renew := v }
  | _, .retransLimit, _, v, g => { g with conf := { g.conf with retransLimit := v } }
  | _, .retransTime, _, v, g => { g with conf := { g.conf with retransTime := v } }
  | _, .table, r, v, g => g.setRule r { g.cfg.rule r with table := v.toNat }

def BoolField.set : {sc : Scope} → BoolField sc → sc.Ptr → Bool → Loaded → Loaded
  | _, .keepalive, _, v, g => { g with conf := { g.conf with keepalive := v } }
  | _, .router, p, v, g => g.setProxy p { g.cfg.proxy p with router := v }
  | _, .promiscuous, p, v, g => g.setProxy p { g.cfg.proxy p with promiscuous := v }
  | _, .autowire, r, v, g => g.setRule r { g.cfg.rule r with autowire := v }

def LladdrField.set : {sc : Scope} → LladdrField sc → sc.Ptr → LlAddr → Loaded → Loaded
  | _, .proxyTarget, p, v, g => g.setProxy p { g.cfg.proxy p with target := v }
  | _, .ruleTarget, r, v, g => g.setRule r { g.cfg.rule r with target := v }

/-- The type of a value, and where it is written. (No key has a value of the types
    `NDL_ADDR` and `NDL_NAME`.) -/
inductive CfType (sc : Scope)
  | none
  | int (field : IntField sc) (min max : ℤ)
  | bool (field : BoolField sc)
  | lladdr (field : LladdrField sc)

/-- The functions of the table. -/
inductive Callback : Scope → Type
  | parseProxy : Callback .default
  | parseRule : Callback .proxy
  | parseRewrite : Callback .rule
  | parseMode : Callback .rule

/-- `ndL_cfinfo_t`. -/
structure CfInfo (sc : Scope) where
  key : List U8
  type : CfType sc
  cb : Option (Callback sc) := none

/-- `ndL_cfinfo_table`, by scope: a key is looked up among those of its scope. -/
def ndLCfinfoTable : (sc : Scope) → List (CfInfo sc)
  | .default => [
    { key := bytes "proxy", type := .none, cb := some .parseProxy },
    { key := bytes "invalid-ttl", type := .int .invalidTtl 1000 3600000 },
    { key := bytes "valid-ttl", type := .int .validTtl 10000 3600000 },
    { key := bytes "renew", type := .int .renew 0 0 },
    { key := bytes "retrans-limit", type := .int .retransLimit 0 10 },
    { key := bytes "retrans-time", type := .int .retransTime 0 60000 },
    { key := bytes "keepalive", type := .bool .keepalive }]
  | .proxy => [
    { key := bytes "rule", type := .none, cb := some .parseRule },
    { key := bytes "router", type := .bool .router },
    { key := bytes "promiscuous", type := .bool .promiscuous },
    { key := bytes "target", type := .lladdr .proxyTarget }]
  | .rule => [
    { key := bytes "rewrite", type := .none, cb := some .parseRewrite },
    { key := bytes "auto", type := .none, cb := some .parseMode },
    { key := bytes "static", type := .none, cb := some .parseMode },
    { key := bytes "autowire", type := .bool .autowire },
    { key := bytes "iface", type := .none, cb := some .parseMode },
    { key := bytes "target", type := .lladdr .ruleTarget },
    { key := bytes "table", type := .int .table 0 255 }]

/-- `IF_NAMESIZE`. -/
def ifNamesize : ℕ := 16

/-- `rule->table` of a new rule, on Linux. -/
def mainTable : ℕ := 254

/-! ## Scanners

The grammar is written once, over the functions that read the tokens: for the parser of
the daemon (`scanner`), and for those that are compared with it. -/

/-- What the grammar needs at a position of type `σ`: the functions that read a token
    there, with effects in `m`, and those that log an error. -/
structure Scanner (m : Type → Type) (σ : Type) where
  skip : σ → m σ
  accept : σ → List U8 → m (U8 × σ)
  acceptInt : σ → ℤ → ℤ → m (Option (ℤ × σ))
  acceptBool : σ → m (Option (Bool × σ))
  /-- It logs what it could not convert. -/
  acceptAddr : σ → m (Parse (Addr × σ))
  acceptLladdr : σ → m (Parse (LlAddr × σ))
  acceptName : σ → ℕ → m (Option (List U8 × σ))
  eof : σ → Bool
  /-- `state->data[state->offset]`, before the end. -/
  byte : σ → m U8
  error : σ → String → List Message
  /-- Gives up, with the errors. -/
  fail : {α : Type} → List Message → m α
  /-- The rounds that the loop of a block is given. -/
  rounds : σ → ℕ
  /-- What the loop does after them. -/
  outOfRounds : {α : Type} → m α

/-- The functions of `conf.c` at a position in the file. -/
def scanner (libc : Libc) : Scanner Parse Cursor where
  skip s := pure (ndLSkip s)
  accept s valid := pure (ndLAccept s valid)
  acceptInt s min max := pure (ndLAcceptInt s min max)
  acceptBool s := pure (ndLAcceptBool s)
  acceptAddr s := pure (ndLAcceptAddr libc s)
  acceptLladdr s := pure (ndLAcceptLladdr libc s)
  acceptName s size := pure (ndLAcceptName s size)
  eof := ndLEof
  byte s := pure (s.data.getD s.offset 0)
  error := ndLError
  fail log := .error log
  -- Each round reads something, so that there are enough of them.
  rounds s := s.rest.length + 1
  outOfRounds := .error []

namespace Scanner

variable {m : Type → Type} [Monad m] {σ : Type} (S : Scanner m σ)

/-! ## Blocks -/

section Block

variable (sc : Scope) (ptr : sc.Ptr)
  (call : CfInfo sc → Callback sc → σ → Loaded → m (σ × Loaded))

/-- The value of a directive, by its type. -/
def parseValue (t : CfInfo sc) (s : σ) (g : Loaded) : m (σ × Loaded) :=
  match t.type with
  | .none => return (s, g)
  | .bool field => do
    match ← S.acceptBool s with
    | none => S.fail (S.error s "Expected boolean value")
    | some (v, s) => return (s, field.set ptr v g)
  | .int field min max => do
    match ← S.acceptInt s min max with
    | none => S.fail (S.error s "Expected an integer")
    | some (v, s) => return (s, field.set ptr v g)
  | .lladdr field => do
    match ← S.acceptLladdr s with
    | .error log => S.fail (log ++ S.error s "Expected a link-layer address")
    | .ok (v, s) => return (s, field.set ptr v g)

/-- What follows the key of a directive: its value, and what its function reads. -/
def parseEntry (t : CfInfo sc) (s : σ) (g : Loaded) : m (σ × Loaded) := do
  let (s, g) ← S.parseValue sc ptr t s g
  match t.cb with
  | none => return (s, g)
  | some cb => do
    let s ← S.skip s
    call t cb s g

/-- Whether a directive ends: the byte is read again if it is no brace. -/
def atEnd (s : σ) : m Bool :=
  if S.eof s then return true
  else do
    let c ← S.byte s
    if c = ch '}' then return true
    else do
      let c ← S.byte s
      return c = ch '\n'

/-- The end of a directive. -/
def parseEnd (s : σ) : m σ := do
  let s ← S.skip s
  if ← S.atEnd s then return s
  else S.fail (S.error s "Expected newline, end-of-block, or end-of-line")

/-- A directive of a block, up to the end of its line. -/
def parseDirective (s : σ) (g : Loaded) : m (σ × Loaded) := do
  match ← S.acceptName s 32 with
  | none => S.fail [⟨none, "Expected key"⟩]
  | some (key, s) => do
    let s ← S.skip s
    match (ndLCfinfoTable sc).find? fun t => t.key == key with
    | none => S.fail (S.error s "Invalid configuration")
    | some t => do
      let (s, g) ← S.parseEntry sc ptr call t s g
      let s ← S.parseEnd s
      return (s, g)

/-- The loop of `ndL_parse_block`, in less than `n` rounds. -/
def parseLoop : ℕ → σ → Loaded → m (σ × Loaded)
  | 0, _, _ => S.outOfRounds
  | n + 1, s, g => do
    let s ← S.skip s
    let (c, s) ← S.accept s [ch '\n', ch '}']
    if c = ch '}' then
      if sc = .default then S.fail (S.error s "Unexpected end-of-block") else return (s, g)
    else if c = ch '\n' then parseLoop n s g
    else if S.eof s then
      if sc = .default then return (s, g)
      else S.fail (S.error s "Expected end-of-block '\x7d'")
    else do
      let (s, g) ← S.parseDirective sc ptr call s g
      parseLoop n s g

/-- `ndL_parse_block`, given the functions of the table for its scope. -/
def ndLParseBlock (s : σ) (g : Loaded) : m (σ × Loaded) := do
  let s ← S.skip s
  if sc = .default then S.parseLoop sc ptr call (S.rounds s) s g
  else do
    let (c, s) ← S.accept s [ch '{']
    if c = 0 then S.fail (S.error s "Expected start-of-block '\x7b'")
    else S.parseLoop sc ptr call (S.rounds s) s g

end Block

/-! ## Rules -/

/-- A prefix length: `128` if there is none. -/
def parsePflen (s : σ) : m (ℕ × σ) := do
  let (c, s) ← S.accept s [ch '/']
  if c = 0 then return (128, s)
  else
    match ← S.acceptInt s 0 128 with
    | none => S.fail (S.error s "Expected prefix")
    | some (v, s) => return (v.toNat, s)

/-- An address, which is expected, and its prefix length. -/
def parsePrefixed (expected : List Message) (s : σ) : m ((Addr × ℕ) × σ) := do
  match ← S.acceptAddr s with
  | .error log => S.fail (log ++ expected)
  | .ok (addr, s) => do
    let (pflen, s) ← S.parsePflen s
    return ((addr, pflen), s)

def ndLParseRewrite (r : RuleId) (s : σ) (g : Loaded) : m (σ × Loaded) := do
  let ((addr, pflen), s) ← S.parsePrefixed [] s
  return (s, g.setRule r { g.cfg.rule r with rewriteTgt := addr, rewritePflen := pflen })

def ndLParseMode (info : CfInfo .rule) (r : RuleId) (s : σ) (g : Loaded) : m (σ × Loaded) :=
  let rule := g.cfg.rule r
  if rule.mode ≠ .unknown then
    S.fail (S.error s "\"static\", \"auto\" and \"iface\" are mutually exclusive")
  else if info.key = bytes "auto" then return (s, g.setRule r { rule with mode := .auto })
  else if info.key = bytes "static" then return (s, g.setRule r { rule with mode := .static })
  else do
    match ← S.acceptName s ifNamesize with
    | none => S.fail (S.error s "Expected interface name")
    | some (ifname, s) => return (s, g.setRule r { rule with ifname := ifname, mode := .iface })

/-- The functions of the table for a rule. -/
def callRule (r : RuleId) (info : CfInfo .rule) :
    Callback .rule → σ → Loaded → m (σ × Loaded)
  | .parseRewrite => S.ndLParseRewrite r
  | .parseMode => S.ndLParseMode info r

/-- `ndL_parse_rule`, given `ndL_parse_block` for the block of the rule. -/
def ndLParseRule (block : RuleId → σ → Loaded → m (σ × Loaded)) (p : ProxyId) (s : σ)
    (g : Loaded) : m (σ × Loaded) := do
  let (r, cfg) := ndRuleCreate g.cfg p
  let ((addr, pflen), s) ← S.parsePrefixed (S.error s "Expected IPv6 address") s
  let g := ({ g with cfg := cfg } : Loaded).setRule r
    { cfg.rule r with addr := addr, pflen := pflen, table := mainTable }
  let (s, g) ← block r s g
  let rule := g.cfg.rule r
  if rule.mode = .unknown then
    S.fail (S.error s "\"static\", \"auto\", or \"iface\" need to be specified")
  else if rule.autowire ∧ rule.mode ≠ .iface then
    S.fail (S.error s "\"autowire\" may only be used in combination with \"iface\"")
  else return (s, g)

/-! ## Proxies -/

/-- The functions of the table for a proxy. -/
def callProxy (block : RuleId → σ → Loaded → m (σ × Loaded)) (p : ProxyId)
    (_ : CfInfo .proxy) : Callback .proxy → σ → Loaded → m (σ × Loaded)
  | .parseRule => S.ndLParseRule block p

/-- `ndL_parse_proxy`, given `ndL_parse_block` for the block of the proxy. -/
def ndLParseProxy (block : ProxyId → σ → Loaded → m (σ × Loaded)) (s : σ) (g : Loaded) :
    m (σ × Loaded) := do
  match ← S.acceptName s ifNamesize with
  | none => S.fail (S.error s "Expected interface name")
  | some (ifname, s) =>
    match ndProxyCreate g.cfg ifname with
    | none => S.fail [⟨none, quoted "Proxy already exists for interface" ifname⟩]
    | some (p, cfg) => block p s { g with cfg := cfg }

/-- The functions of the table for the file. -/
def callDefault (block : ProxyId → σ → Loaded → m (σ × Loaded)) (_ : CfInfo .default) :
    Callback .default → σ → Loaded → m (σ × Loaded)
  | .parseProxy => S.ndLParseProxy block

/-! ## The file

`ndL_parse_block` calls itself, for the blocks of the rules in those of the proxies in
the file. -/

def ruleBlock (r : RuleId) : σ → Loaded → m (σ × Loaded) :=
  S.ndLParseBlock .rule r (S.callRule r)

def proxyBlock (p : ProxyId) : σ → Loaded → m (σ × Loaded) :=
  S.ndLParseBlock .proxy p (S.callProxy S.ruleBlock p)

def file : σ → Loaded → m (σ × Loaded) :=
  S.ndLParseBlock .default () (S.callDefault S.proxyBlock)

end Scanner

/-! The parser of the daemon. -/

abbrev ndLParseProxy (libc : Libc) : Cursor → Loaded → Parse (Cursor × Loaded) :=
  (scanner libc).ndLParseProxy (scanner libc).proxyBlock

abbrev callDefault (libc : Libc) :
    CfInfo .default → Callback .default → Cursor → Loaded → Parse (Cursor × Loaded) :=
  (scanner libc).callDefault (scanner libc).proxyBlock

/-- The loop of `ndL_parse_block`. -/
abbrev parseLoop (libc : Libc) := (scanner libc).parseLoop

/-- The call of `ndL_parse_block` in `nd_conf_load`, for the data of the file. -/
def ndConfParse (libc : Libc) (conf : Conf) (data : List U8) : Parse (Cursor × Loaded) :=
  (scanner libc).file { data := data } { conf := conf }

end Ndppd
