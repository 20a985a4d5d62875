import Ndppd.Lib.Traverse
import Ndppd.Parse.Document

/-!
# What a document means

The values of a document are words. Once they are read (`FileItem.read`), a
document is a list of directives, with the values themselves: settings and
proxies (`ConfDir`), whose blocks have settings and rules (`ProxyDir`), whose
blocks have settings (`RuleDir`).

A directive sets something in the rule, proxy or file it is for, or adds to it
(`RuleDir.apply`, `ProxyDir.apply`, `ConfDir.apply`). This is stated for the rules
and proxies themselves, without the identifiers the parser gives to them:
`Loaded.view` are the settings, and the proxies with their rules.

* `evalFile_view`: the parser writes what the directives set and add;
* `parsed_text`: so what it makes of a text is what the directives of the document
  do, whatever the layout.
-/

namespace Ndppd

/-! ## Directives -/

/-- A directive of a rule. -/
inductive RuleDir
  | rewrite (addr : Addr) (pflen : ℕ)
  | auto
  | static
  | iface (ifname : IfName)
  | autowire (b : Bool)
  | target (lladdr : LlAddr)
  | table (n : ℕ)

/-- A rule: its address and prefix length, and its directives. -/
structure RuleDef where
  addr : Addr
  pflen : ℕ
  dirs : List RuleDir

/-- A directive of a proxy. -/
inductive ProxyDir
  | router (b : Bool)
  | promiscuous (b : Bool)
  | target (lladdr : LlAddr)
  | rule (d : RuleDef)

/-- A proxy: the name of its interface, and its directives. -/
structure ProxyDef where
  ifname : IfName
  dirs : List ProxyDir

/-- A directive of the file. -/
inductive ConfDir
  | invalidTtl (n : ℤ)
  | validTtl (n : ℤ)
  | renew (n : ℤ)
  | retransLimit (n : ℤ)
  | retransTime (n : ℤ)
  | keepalive (b : Bool)
  | proxy (d : ProxyDef)

/-! ## Reading the values -/

/-- A value which is read to its end. -/
def whole {α : Type} (read : List U8 → Option (α × List U8)) (v : List U8) : Option α :=
  (read v).bind fun x => if x.2 = [] then some x.1 else none

section Read

variable (libc : Libc)

def Setting.readRuleDir (x : Setting .rule) : Option RuleDir :=
  match x.info.type with
  | .int .table min max => (whole (readInt min max) x.value).map fun n => .table n.toNat
  | .bool .autowire => (whole readBool x.value).map .autowire
  | .lladdr .ruleTarget => (whole (readLladdr libc) x.value).map .target
  | .none =>
    match x.info.cb with
    | some .parseRewrite => (whole (readPrefixed libc) x.value).map fun y => .rewrite y.1 y.2
    | some .parseMode =>
      if x.info.key = bytes "auto" then if x.value = [] then some .auto else none
      else if x.info.key = bytes "static" then if x.value = [] then some .static else none
      else (whole (readName ifNamesize) x.value).map .iface
    | none => none

def RuleBlock.read (b : RuleBlock) : Option RuleDef :=
  (whole (readPrefixed libc) b.header).bind fun x =>
    (b.settings.mapM (Setting.readRuleDir libc)).map fun dirs => ⟨x.1, x.2, dirs⟩

def ProxyItem.read : ProxyItem → Option ProxyDir
  | .setting x =>
    match x.info.type with
    | .bool .router => (whole readBool x.value).map .router
    | .bool .promiscuous => (whole readBool x.value).map .promiscuous
    | .lladdr .proxyTarget => (whole (readLladdr libc) x.value).map .target
    | .none => none
  | .rule b => (b.read libc).map .rule

def ProxyBlock.read (b : ProxyBlock) : Option ProxyDef :=
  (whole (readName ifNamesize) b.name).bind fun ifname =>
    (b.items.mapM (ProxyItem.read libc)).map fun dirs => ⟨ifname, dirs⟩

def FileItem.read : FileItem → Option ConfDir
  | .setting x =>
    match x.info.type with
    | .int .invalidTtl min max => (whole (readInt min max) x.value).map .invalidTtl
    | .int .validTtl min max => (whole (readInt min max) x.value).map .validTtl
    | .int .renew min max => (whole (readInt min max) x.value).map .renew
    | .int .retransLimit min max => (whole (readInt min max) x.value).map .retransLimit
    | .int .retransTime min max => (whole (readInt min max) x.value).map .retransTime
    | .bool .keepalive => (whole readBool x.value).map .keepalive
    | .none => none
  | .proxy b => (b.read libc).map .proxy

end Read

/-! ## What directives do -/

/-- The modes are mutually exclusive. -/
def Rule.setMode (rule : Rule) (mode : Mode) : Option Rule :=
  if rule.mode = .unknown then some { rule with mode := mode } else none

def RuleDir.apply (d : RuleDir) (rule : Rule) : Option Rule :=
  match d with
  | .rewrite addr pflen => some { rule with rewriteTgt := addr, rewritePflen := pflen }
  | .auto => rule.setMode .auto
  | .static => rule.setMode .static
  | .iface ifname => ({ rule with ifname := ifname }).setMode .iface
  | .autowire b => some { rule with autowire := b }
  | .target lladdr => some { rule with target := lladdr }
  | .table n => some { rule with table := n }

/-- A rule as it is created, with the link-layer address of its proxy. -/
def startRule (p : ProxyId) (target : LlAddr) (addr : Addr) (pflen : ℕ) : Rule :=
  { proxy := p, target := target, addr := addr, pflen := pflen, table := mainTable }

/-- The directives of a rule, one after the other. -/
def applyRuleDirs (dirs : List RuleDir) (rule : Rule) : Option Rule :=
  dirs.foldlM (fun rule d => d.apply rule) rule

/-- The rule that is defined, in a proxy with this link-layer address. -/
def RuleDef.rule (p : ProxyId) (target : LlAddr) (d : RuleDef) : Option Rule :=
  (applyRuleDirs d.dirs (startRule p target d.addr d.pflen)).bind fun rule =>
    if rule.complete then some rule else none

/-- What a directive sets in a proxy. -/
def ProxyDir.set (d : ProxyDir) (proxy : Proxy) : Proxy :=
  match d with
  | .router b => { proxy with router := b }
  | .promiscuous b => { proxy with promiscuous := b }
  | .target lladdr => { proxy with target := lladdr }
  | .rule _ => proxy

/-- What a directive adds to a proxy and its rules, the newest rule first. -/
def ProxyDir.apply (p : ProxyId) (d : ProxyDir) (s : Proxy × List Rule) :
    Option (Proxy × List Rule) :=
  match d with
  | .rule d => (d.rule p s.1.target).map fun rule => (s.1, rule :: s.2)
  | d => some (d.set s.1, s.2)

def applyProxyDirs (p : ProxyId) (dirs : List ProxyDir) (s : Proxy × List Rule) :
    Option (Proxy × List Rule) :=
  dirs.foldlM (fun s d => d.apply p s) s

/-- The settings, and the proxies with their rules. -/
structure View where
  settings : Conf × ℤ
  proxies : List (Proxy × List Rule)

/-- What a directive sets: the settings, and what was read for `renew`. -/
def ConfDir.set (d : ConfDir) (s : Conf × ℤ) : Conf × ℤ :=
  match d with
  | .invalidTtl n => ({ s.1 with invalidTtl := n }, s.2)
  | .validTtl n => ({ s.1 with validTtl := n }, s.2)
  | .renew n => (s.1, n)
  | .retransLimit n => ({ s.1 with retransLimit := n }, s.2)
  | .retransTime n => ({ s.1 with retransTime := n }, s.2)
  | .keepalive b => ({ s.1 with keepalive := b }, s.2)
  | .proxy _ => s

/-- What a directive adds to the settings and proxies, the newest proxy first. -/
def ConfDir.apply (d : ConfDir) (s : View) : Option View :=
  match d with
  | .proxy d =>
    if s.proxies.any fun other => other.1.ifname == d.ifname then none
    else (applyProxyDirs s.proxies.length d.dirs ({ ifname := d.ifname }, [])).map fun block =>
      { s with proxies := block :: s.proxies }
  | d => some { s with settings := d.set s.settings }

def applyConfDirs (dirs : List ConfDir) (s : View) : Option View :=
  dirs.foldlM (fun s d => d.apply s) s

/-! ## What the parser writes -/

theorem Config.ext_fields {c c' : Config} (h₁ : c.proxies = c'.proxies) (h₂ : c.proxy = c'.proxy)
    (h₃ : c.rule = c'.rule) (h₄ : c.freshProxy = c'.freshProxy) (h₅ : c.freshRule = c'.freshRule) :
    c = c' := by
  obtain ⟨⟩ := c
  obtain ⟨⟩ := c'
  subst h₁ h₂ h₃ h₄ h₅
  rfl

variable {libc : Libc} {g g' : Loaded} {p q : ProxyId} {r : RuleId}

section Entry

variable {sc : Scope} {ptr : sc.Ptr} {info : CfInfo sc} {v : List U8} {α : Type}
  {call : CfInfo sc → Callback sc → List U8 → Loaded → Option (List U8 × Loaded)}
  {read : List U8 → Option (α × List U8)} {f : α → Loaded}

theorem whole_bind {o : Option (List U8 × Loaded)} (h : o = (read v).map fun x => (x.2, f x.1)) :
    (o.bind fun x => if x.1 = [] then some x.2 else none) = (whole read v).map f := by
  rw [h, whole]
  cases read v with
  | none => rfl
  | some x =>
    dsimp only [Option.map_some, Option.bind_some]
    split_ifs <;> rfl

variable (read) in
/-- A value that is read by its type. -/
theorem evalEntry_of_value (hcb : info.cb = none)
    (h : readValue libc sc ptr info v g = (read v).map fun x => (x.2, f x.1)) :
    evalEntry libc ptr call info v g = (whole read v).map f := by
  have hentry : readEntry libc sc ptr call info v g = readValue libc sc ptr info v g := by
    rw [readEntry_eq, hcb]
    cases readValue libc sc ptr info v g <;> rfl
  rw [evalEntry, hentry]
  exact whole_bind h

/-- A value that is read by a function. -/
theorem evalEntry_of_call {cb : Callback sc} (hv : IsWord v) (htype : info.type = .none)
    (hcb : info.cb = some cb) : evalEntry libc ptr call info v g =
      (call info cb v g).bind fun x => if x.1 = [] then some x.2 else none := by
  rw [evalEntry, readEntry_eq, readValue_none htype, hcb]
  dsimp only [Option.bind_some, Option.elim_some]
  rw [skipText_of_word hv]

end Entry

/-! ### Rules -/

theorem Loaded.setRule_setRule (g : Loaded) (r : RuleId) (f f' : Rule) :
    (g.setRule r f).setRule r f' = g.setRule r f' := by
  have : (g.cfg.setRule r f).setRule r f' = g.cfg.setRule r f' := by
    refine Config.ext_fields rfl rfl ?_ rfl rfl
    simp only [Config.setRule, Function.update_self, Function.update_idem]
  rw [Loaded.setRule, Loaded.setRule, this]
  rfl

theorem Loaded.setRule_self (g : Loaded) (r : RuleId) : g.setRule r (g.cfg.rule r) = g := by
  have : g.cfg.setRule r (g.cfg.rule r) = g.cfg :=
    Config.ext_fields rfl rfl (Function.update_eq_self ..) rfl rfl
  rw [Loaded.setRule, this]

theorem Loaded.setRule_rule (g : Loaded) (r : RuleId) {f : Rule}
    (hf : f.proxy = (g.cfg.rule r).proxy) : (g.setRule r f).cfg.rule r = f := by
  rw [Loaded.setRule, Config.setRule_rule_self, ← hf]

theorem RuleDir.apply_proxy {d : RuleDir} {rule rule' : Rule} (h : d.apply rule = some rule') :
    rule'.proxy = rule.proxy := by
  cases d <;> simp only [RuleDir.apply, Rule.setMode, Option.ite_none_right_eq_some,
    Option.some.injEq] at h
  case auto | static | iface => exact h.2 ▸ rfl
  all_goals exact h ▸ rfl

theorem readMode_readRuleDir {x : Setting .rule} (htype : x.info.type = .none)
    (hcb : x.info.cb = some .parseMode) (r : RuleId) (g : Loaded) :
    ((readMode libc x.info r x.value g).bind fun y => if y.1 = [] then some y.2 else none) =
      ((x.readRuleDir libc).bind fun d => d.apply (g.cfg.rule r)).map (g.setRule r) := by
  rw [readMode_eq, Setting.readRuleDir, htype, hcb]
  by_cases hmode : (g.cfg.rule r).mode = .unknown
  · simp only [if_neg (not_not.2 hmode)]
    split_ifs
    · simp [*, RuleDir.apply, Rule.setMode]
    · simp [*]
    · simp [*, RuleDir.apply, Rule.setMode]
    · simp [*]
    · rw [whole]
      cases readName ifNamesize x.value with
      | none => rfl
      | some y =>
        dsimp only [Option.map_some, Option.bind_some]
        split_ifs
        · simp [RuleDir.apply, Rule.setMode, hmode]
        · rfl
  · simp only [if_pos hmode, Option.bind_none]
    split_ifs
    · simp [RuleDir.apply, Rule.setMode, hmode]
    · rfl
    · simp [RuleDir.apply, Rule.setMode, hmode]
    · rfl
    · cases whole (readName ifNamesize) x.value with
      | none => rfl
      | some y => simp [RuleDir.apply, Rule.setMode, hmode]

/-- A directive of a rule is read, and sets something in the rule. -/
theorem Setting.evalRule_eq (x : Setting .rule) (r : RuleId) (g : Loaded) :
    x.evalRule libc r g =
      ((x.readRuleDir libc).bind fun d => d.apply (g.cfg.rule r)).map (g.setRule r) := by
  have hmode : x.info.type = .none → x.info.cb = some .parseMode → x.evalRule libc r g =
      ((x.readRuleDir libc).bind fun d => d.apply (g.cfg.rule r)).map (g.setRule r) :=
    fun htype hcb => (evalEntry_of_call x.word htype hcb).trans (readMode_readRuleDir htype hcb r g)
  have hset : ∀ {α : Type} (o : Option α) (d : α → RuleDir) (f : α → Rule),
      (∀ a, (d a).apply (g.cfg.rule r) = some (f a)) →
      o.map (fun a => g.setRule r (f a)) =
        ((o.map d).bind fun d => d.apply (g.cfg.rule r)).map (g.setRule r) := by
    intro α o d f h
    cases o with
    | none => rfl
    | some a => simp [h]
  obtain ⟨info, v, hmem, hb, hv⟩ := x
  have htable := hmem
  simp only [ndLCfinfoTable, List.mem_cons, List.not_mem_nil, or_false] at htable
  rcases htable with rfl | rfl | rfl | rfl | rfl | rfl | rfl
  · exact ((evalEntry_of_call hv rfl rfl).trans (whole_bind (readRewrite_eq r v g))).trans
      (hset (whole (readPrefixed libc) v) (fun y => .rewrite y.1 y.2) _ fun _ => rfl)
  · exact hmode rfl rfl
  · exact hmode rfl rfl
  · exact (evalEntry_of_value readBool rfl (readValue_bool .autowire rfl v g)).trans
      (hset _ .autowire _ fun _ => rfl)
  · exact hmode rfl rfl
  · exact (evalEntry_of_value (readLladdr libc) rfl (readValue_lladdr .ruleTarget rfl v g)).trans
      (hset _ .target _ fun _ => rfl)
  · exact (evalEntry_of_value (readInt 0 255) rfl (readValue_int .table rfl v g)).trans
      (hset (whole (readInt 0 255) v) (fun n => .table n.toNat) _ fun _ => rfl)

/-- The directives of a rule, one after the other. -/
theorem inTurn_evalRule (xs : List (Setting .rule)) (r : RuleId) (g : Loaded) :
    inTurn (xs.map (Setting.evalRule libc r)) g =
      ((xs.mapM (Setting.readRuleDir libc)).bind fun dirs =>
        applyRuleDirs dirs (g.cfg.rule r)).map (g.setRule r) := by
  have hfold : inTurn (xs.map (Setting.evalRule libc r)) g =
      (xs.foldlM (fun rule x => (Setting.readRuleDir libc x).bind fun d => d.apply rule)
        (g.cfg.rule r)).map (g.setRule r) := by
    induction xs generalizing g with
    | nil => exact congrArg some (g.setRule_self r).symm
    | cons x xs ih =>
      rw [List.map_cons, inTurn_cons, Setting.evalRule_eq, List.foldlM_cons]
      cases hx : (x.readRuleDir libc).bind fun d => d.apply (g.cfg.rule r) with
      | none => rfl
      | some rule =>
        obtain ⟨d, -, hd⟩ := Option.bind_eq_some_iff.1 hx
        dsimp only [Option.map_some, Option.bind_some]
        rw [ih, g.setRule_rule r (RuleDir.apply_proxy hd)]
        rw [show (g.setRule r rule).setRule r = g.setRule r from
          funext fun _ => g.setRule_setRule ..]
        rfl
  rw [hfold]
  exact congrArg _ (Traverse.foldlM_read (fun _ _ => rfl) xs _)

/-- A rule in front of the rules of a proxy, as `nd_rule_create` adds it. -/
def Loaded.addRule (g : Loaded) (p : ProxyId) (rule : Rule) : Loaded :=
  ({ g with cfg := (ndRuleCreate g.cfg p).2 } : Loaded).setRule g.cfg.freshRule rule

theorem Loaded.addRule_setRule (g : Loaded) (p : ProxyId) (f f' : Rule) :
    (g.addRule p f).setRule g.cfg.freshRule f' = g.addRule p f' :=
  Loaded.setRule_setRule ..

theorem Loaded.addRule_rule (g : Loaded) {p : ProxyId} {f : Rule} (hf : f.proxy = p) :
    (g.addRule p f).cfg.rule g.cfg.freshRule = f := by
  refine Loaded.setRule_rule _ _ (hf.trans ?_)
  simp [ndRuleCreate]

theorem newRule_eq (g : Loaded) (p : ProxyId) (addr : Addr) (pflen : ℕ) :
    newRule g p addr pflen = (g.cfg.freshRule,
      g.addRule p (startRule p (g.cfg.proxy p).target addr pflen)) := by
  rw [newRule, Loaded.addRule, startRule]
  simp [ndRuleCreate]

theorem applyRuleDirs_proxy {dirs : List RuleDir} {rule rule' : Rule}
    (h : applyRuleDirs dirs rule = some rule') : rule'.proxy = rule.proxy := by
  induction dirs generalizing rule with
  | nil => exact Option.some.inj h ▸ rfl
  | cons d dirs ih =>
    rw [applyRuleDirs, List.foldlM_cons] at h
    obtain ⟨mid, hmid, h⟩ := Option.bind_eq_some_iff.1 h
    exact (ih h).trans (RuleDir.apply_proxy hmid)

theorem RuleDef.rule_proxy {d : RuleDef} {target : LlAddr} {rule : Rule}
    (h : d.rule p target = some rule) : rule.proxy = p := by
  obtain ⟨rule', h, hc⟩ := Option.bind_eq_some_iff.1 h
  obtain ⟨-, hc⟩ := Option.ite_none_right_eq_some.1 hc
  exact Option.some.inj hc ▸ applyRuleDirs_proxy h

/-- The block of a rule adds the rule. -/
theorem RuleBlock.eval_eq (b : RuleBlock) (p : ProxyId) (g : Loaded) :
    b.eval libc p g =
      ((b.read libc).bind fun d => d.rule p (g.cfg.proxy p).target).map (g.addRule p) := by
  rw [RuleBlock.eval, RuleBlock.read, whole]
  cases readPrefixed libc b.header with
  | none => rfl
  | some x =>
    obtain ⟨⟨addr, pflen⟩, t⟩ := x
    dsimp only [Option.bind_some]
    split_ifs
    · rw [newRule_eq]
      dsimp only [Option.bind_some]
      have hstart : (g.addRule p (startRule p (g.cfg.proxy p).target addr pflen)).cfg.rule
          g.cfg.freshRule = startRule p (g.cfg.proxy p).target addr pflen := g.addRule_rule rfl
      rw [inTurn_evalRule, hstart]
      cases b.settings.mapM (Setting.readRuleDir libc) with
      | none => rfl
      | some dirs =>
        dsimp only [Option.map_some, Option.bind_some, RuleDef.rule]
        cases h : applyRuleDirs dirs (startRule p (g.cfg.proxy p).target addr pflen) with
        | none => rfl
        | some rule =>
          dsimp only [Option.map_some, Option.bind_some]
          have hproxy : rule.proxy = p := applyRuleDirs_proxy h
          rw [g.addRule_setRule, g.addRule_rule hproxy]
          split_ifs <;> rfl
    · rfl

/-! ### Proxies -/

/-- A proxy and its rules. -/
def Loaded.block (g : Loaded) (p : ProxyId) : Proxy × List Rule :=
  ({ g.cfg.proxy p with rules := [] }, (g.cfg.proxy p).rules.map g.cfg.rule)

/-- What is written is in the block of one proxy. -/
structure Loaded.Within (p : ProxyId) (g g' : Loaded) : Prop where
  conf : g'.conf = g.conf
  renew : g'.renew = g.renew
  proxies : g'.cfg.proxies = g.cfg.proxies
  freshProxy : g'.cfg.freshProxy = g.cfg.freshProxy
  block : ∀ q ≠ p, g'.block q = g.block q

theorem Loaded.Within.refl (p : ProxyId) (g : Loaded) : Loaded.Within p g g :=
  ⟨rfl, rfl, rfl, rfl, fun _ _ => rfl⟩

theorem Loaded.Within.trans {g'' : Loaded} (h : Loaded.Within p g g')
    (h' : Loaded.Within p g' g'') : Loaded.Within p g g'' :=
  ⟨h'.conf.trans h.conf, h'.renew.trans h.renew, h'.proxies.trans h.proxies,
    h'.freshProxy.trans h.freshProxy, fun q hq => (h'.block q hq).trans (h.block q hq)⟩

theorem Loaded.setProxy_within (g : Loaded) (p : ProxyId) (f : Proxy) :
    Loaded.Within p g (g.setProxy p f) :=
  ⟨rfl, rfl, rfl, rfl, fun q hq => by
    rw [Loaded.block, Loaded.block, Loaded.setProxy]
    dsimp only
    rw [g.cfg.setProxy_proxy_of_ne f hq]
    rfl⟩

theorem Loaded.setProxy_block (g : Loaded) (p : ProxyId) (f : Proxy) :
    (g.setProxy p f).block p = ({ f with rules := [] }, (g.block p).2) := by
  rw [Loaded.block, Loaded.setProxy]
  dsimp only
  rw [Config.setProxy_proxy_self]
  rfl

/-- The rules there are keep their contents when one is added. -/
theorem Loaded.addRule_map (g : Loaded) (p q : ProxyId) (f : Rule) :
    (g.cfg.proxy q).rules.map (g.addRule p f).cfg.rule = (g.cfg.proxy q).rules.map g.cfg.rule := by
  refine List.map_congr_left fun r hr => ?_
  have hne : r ≠ g.cfg.freshRule := (g.cfg.rules_lt q r hr).ne
  exact (Config.setRule_rule_of_ne _ _ hne).trans (Function.update_of_ne hne ..)

theorem Loaded.addRule_within (g : Loaded) (p : ProxyId) (f : Rule) :
    Loaded.Within p g (g.addRule p f) := by
  refine ⟨rfl, rfl, rfl, rfl, fun q hq => ?_⟩
  have hproxy : (g.addRule p f).cfg.proxy q = g.cfg.proxy q := Function.update_of_ne hq ..
  rw [Loaded.block, hproxy, g.addRule_map, Loaded.block]

theorem Loaded.addRule_block (g : Loaded) {p : ProxyId} {f : Rule} (hf : f.proxy = p) :
    (g.addRule p f).block p = ((g.block p).1, f :: (g.block p).2) := by
  have hproxy : (g.addRule p f).cfg.proxy p =
      { g.cfg.proxy p with rules := g.cfg.freshRule :: (g.cfg.proxy p).rules } :=
    Function.update_self ..
  rw [Loaded.block, hproxy]
  dsimp only
  rw [List.map_cons, g.addRule_map, g.addRule_rule hf]
  rfl

/-- A setting of a proxy is read, and set in the proxy. -/
theorem ProxyItem.eval_setting (x : Setting .proxy) (p : ProxyId) (g : Loaded) :
    (ProxyItem.setting x).eval libc p g =
      ((ProxyItem.setting x).read libc).map fun d => g.setProxy p (d.set (g.cfg.proxy p)) := by
  obtain ⟨info, v, hmem, hb, hv⟩ := x
  have htable := hmem
  simp only [ndLCfinfoTable, List.mem_cons, List.not_mem_nil, or_false] at htable
  rcases htable with rfl | rfl | rfl | rfl
  · exact absurd (hb _ rfl) (by decide)
  · exact (evalEntry_of_value readBool rfl (readValue_bool .router rfl v g)).trans
      (Option.map_map ..).symm
  · exact (evalEntry_of_value readBool rfl (readValue_bool .promiscuous rfl v g)).trans
      (Option.map_map ..).symm
  · exact (evalEntry_of_value (readLladdr libc) rfl
      (readValue_lladdr .proxyTarget rfl v g)).trans (Option.map_map ..).symm

theorem ProxyItem.read_setting {x : Setting .proxy} {d : ProxyDir}
    (h : (ProxyItem.setting x).read libc = some d) (s : Proxy × List Rule) :
    d.apply p s = some (d.set s.1, s.2) := by
  rw [ProxyItem.read] at h
  split at h
  · obtain ⟨b, -, rfl⟩ := Option.map_eq_some_iff.1 h
    rfl
  · obtain ⟨b, -, rfl⟩ := Option.map_eq_some_iff.1 h
    rfl
  · obtain ⟨b, -, rfl⟩ := Option.map_eq_some_iff.1 h
    rfl
  · exact nomatch h

/-- A directive of a proxy is read, and changes the block of the proxy. -/
theorem ProxyItem.eval_block (x : ProxyItem) (p : ProxyId) (g : Loaded) :
    (x.eval libc p g).map (·.block p) = (x.read libc).bind fun d => d.apply p (g.block p) := by
  cases x with
  | setting x =>
    rw [ProxyItem.eval_setting]
    cases h : (ProxyItem.setting x).read libc with
    | none => rfl
    | some d =>
      dsimp only [Option.map_some, Option.bind_some]
      rw [ProxyItem.read_setting h, g.setProxy_block]
      cases d <;> rfl
  | rule b =>
    dsimp only [ProxyItem.eval, ProxyItem.read]
    rw [RuleBlock.eval_eq]
    cases b.read libc with
    | none => rfl
    | some d =>
      dsimp only [Option.bind_some, Option.map_some, ProxyDir.apply]
      change _ = (d.rule p (g.cfg.proxy p).target).map _
      cases h : d.rule p (g.cfg.proxy p).target with
      | none => rfl
      | some rule => exact congrArg some (g.addRule_block (RuleDef.rule_proxy h))

theorem ProxyItem.eval_within {x : ProxyItem} (h : x.eval libc p g = some g') :
    Loaded.Within p g g' := by
  cases x with
  | setting x =>
    rw [ProxyItem.eval_setting] at h
    obtain ⟨d, -, rfl⟩ := Option.map_eq_some_iff.1 h
    exact g.setProxy_within p _
  | rule b =>
    rw [ProxyItem.eval, RuleBlock.eval_eq] at h
    obtain ⟨rule, -, rfl⟩ := Option.map_eq_some_iff.1 h
    exact g.addRule_within p rule

theorem inTurn_within {xs : List ProxyItem}
    (h : inTurn (xs.map (ProxyItem.eval libc p)) g = some g') : Loaded.Within p g g' := by
  induction xs generalizing g with
  | nil => exact Option.some.inj h ▸ .refl p g
  | cons x xs ih =>
    rw [List.map_cons, inTurn_cons] at h
    obtain ⟨mid, hmid, h⟩ := Option.bind_eq_some_iff.1 h
    exact (ProxyItem.eval_within hmid).trans (ih h)

/-- The directives of a proxy, one after the other. -/
theorem inTurn_block (xs : List ProxyItem) (p : ProxyId) (g : Loaded) :
    (inTurn (xs.map (ProxyItem.eval libc p)) g).map (·.block p) =
      (xs.mapM (ProxyItem.read libc)).bind fun dirs => applyProxyDirs p dirs (g.block p) := by
  have hfold : (inTurn (xs.map (ProxyItem.eval libc p)) g).map (·.block p) =
      xs.foldlM (fun s x => (ProxyItem.read libc x).bind fun d => d.apply p s) (g.block p) := by
    induction xs generalizing g with
    | nil => rfl
    | cons x xs ih =>
      rw [List.map_cons, inTurn_cons, List.foldlM_cons, ← ProxyItem.eval_block]
      cases x.eval libc p g with
      | none => rfl
      | some g' => exact ih g'
  rw [hfold]
  exact Traverse.foldlM_read (fun _ _ => rfl) xs _

/-! ### The file -/

/-- The settings and the proxies. -/
def Loaded.view (g : Loaded) : View where
  settings := (g.conf, g.renew)
  proxies := g.cfg.proxies.map g.block

/-- The identifiers of proxies are given one after the other. -/
def Loaded.Numbered (g : Loaded) : Prop := g.cfg.freshProxy = g.cfg.proxies.length

/-- A proxy with no rules, in front of the proxies. -/
theorem ndProxyCreate_block {ifname : IfName} {pc : ProxyId × Config}
    (h : ndProxyCreate g.cfg ifname = some pc) :
    pc.1 = g.cfg.freshProxy ∧ pc.2.proxies = pc.1 :: g.cfg.proxies ∧
      pc.2.freshProxy = g.cfg.freshProxy + 1 ∧
      ({ g with cfg := pc.2 } : Loaded).block pc.1 = ({ ifname := ifname }, []) ∧
      ∀ q ≠ pc.1, ({ g with cfg := pc.2 } : Loaded).block q = g.block q := by
  rw [ndProxyCreate, Option.ite_none_left_eq_some] at h
  obtain rfl := Option.some.inj h.2
  refine ⟨rfl, rfl, rfl, ?_, fun q hq => ?_⟩
  · simp [Loaded.block]
  · simp [Loaded.block, Function.update_of_ne hq]

theorem ndProxyCreate_eq_none {ifname : IfName} :
    ndProxyCreate g.cfg ifname = none ↔
      (g.view.proxies.any fun other => other.1.ifname == ifname) = true := by
  rw [Loaded.view, List.any_map, ndProxyCreate]
  split_ifs with h
  · exact iff_of_true rfl h
  · exact iff_of_false (by simp) h

/-- What is written in the block of the proxy created last is all that changes. -/
theorem Loaded.Within.view (h : Loaded.Within p g g') {ps : List ProxyId}
    (hps : g.cfg.proxies = p :: ps) (hp : p ∉ ps) :
    g'.view = { g.view with proxies := g'.block p :: ps.map g.block } := by
  have hothers : ps.map g'.block = ps.map g.block :=
    List.map_congr_left fun q hq => h.block q fun heq => hp (heq ▸ hq)
  rw [Loaded.view, Loaded.view, h.conf, h.renew, h.proxies, hps, List.map_cons, hothers]

/-- The directives of a proxy that was just created. -/
theorem inTurn_view {ifname : IfName} {pc : ProxyId × Config} (xs : List ProxyItem)
    (hpc : ndProxyCreate g.cfg ifname = some pc) :
    (inTurn (xs.map (ProxyItem.eval libc pc.1)) { g with cfg := pc.2 }).map Loaded.view =
      (xs.mapM (ProxyItem.read libc)).bind fun dirs =>
        (applyProxyDirs pc.1 dirs ({ ifname := ifname }, [])).map fun block =>
          { g.view with proxies := block :: g.view.proxies } := by
  obtain ⟨hid, hproxies, -, hblock, hothers⟩ := ndProxyCreate_block hpc
  have hnew : pc.1 ∉ g.cfg.proxies := fun hmem =>
    absurd (g.cfg.proxies_lt _ hmem) (hid ▸ lt_irrefl _)
  have hold : g.cfg.proxies.map ({ g with cfg := pc.2 } : Loaded).block =
      g.cfg.proxies.map g.block :=
    List.map_congr_left fun q hq => hothers q fun heq => hnew (heq ▸ hq)
  have hview : ∀ g', inTurn (xs.map (ProxyItem.eval libc pc.1)) { g with cfg := pc.2 } = some g' →
      g'.view = { g.view with proxies := g'.block pc.1 :: g.view.proxies } := by
    intro g' h
    rw [(inTurn_within h).view hproxies hnew, hold]
    rfl
  have hrun : (inTurn (xs.map (ProxyItem.eval libc pc.1)) { g with cfg := pc.2 }).map
      (·.block pc.1) = _ := inTurn_block xs pc.1 _
  rw [hblock] at hrun
  have hadd := congrArg
    (Option.map fun block => { g.view with proxies := block :: g.view.proxies }) hrun
  rw [Option.map_map, Option.map_bind] at hadd
  exact (Option.map_congr hview).trans hadd

theorem ProxyBlock.eval_view (b : ProxyBlock) (hg : g.Numbered) :
    (b.eval libc g).map Loaded.view =
      (b.read libc).bind fun d => (ConfDir.proxy d).apply g.view := by
  rw [ProxyBlock.eval, ProxyBlock.read, whole]
  cases readName ifNamesize b.name with
  | none => rfl
  | some x =>
    obtain ⟨ifname, t⟩ := x
    dsimp only [Option.bind_some]
    split_ifs
    · dsimp only [Option.bind_some]
      rw [Option.bind_map]
      cases hpc : ndProxyCreate g.cfg ifname with
      | none =>
        have hany := ndProxyCreate_eq_none.1 hpc
        simp [ConfDir.apply, hany]
      | some pc =>
        have hany : ¬ (g.view.proxies.any fun other => other.1.ifname == ifname) = true :=
          mt ndProxyCreate_eq_none.2 (by simp [hpc])
        have hlen : g.view.proxies.length = pc.1 := by
          rw [Loaded.view, List.length_map, ← hg, (ndProxyCreate_block hpc).1]
        dsimp only [Option.bind_some]
        rw [inTurn_view b.items hpc]
        simp [ConfDir.apply, hany, hlen]
    · rfl

theorem ProxyBlock.eval_numbered {b : ProxyBlock} (hg : g.Numbered)
    (h : b.eval libc g = some g') : g'.Numbered := by
  rw [ProxyBlock.eval] at h
  obtain ⟨x, -, h⟩ := Option.bind_eq_some_iff.1 h
  obtain ⟨-, h⟩ := Option.ite_none_right_eq_some.1 h
  obtain ⟨pc, hpc, h⟩ := Option.bind_eq_some_iff.1 h
  obtain ⟨-, hproxies, hfresh, -⟩ := ndProxyCreate_block hpc
  have hwithin := inTurn_within h
  rw [Loaded.Numbered, hwithin.freshProxy, hwithin.proxies]
  dsimp only
  rw [hfresh, hproxies, List.length_cons, hg]

/-- A setting of the file is read, and set. -/
theorem FileItem.eval_setting (x : Setting .default) (g : Loaded) :
    (FileItem.setting x).eval libc g = ((FileItem.setting x).read libc).map fun d =>
      { g with conf := (d.set (g.conf, g.renew)).1, renew := (d.set (g.conf, g.renew)).2 } := by
  obtain ⟨info, v, hmem, hb, hv⟩ := x
  have htable := hmem
  simp only [ndLCfinfoTable, List.mem_cons, List.not_mem_nil, or_false] at htable
  rcases htable with rfl | rfl | rfl | rfl | rfl | rfl | rfl
  · exact absurd (hb _ rfl) (by decide)
  · exact (evalEntry_of_value _ rfl (readValue_int .invalidTtl rfl v g)).trans
      (Option.map_map ..).symm
  · exact (evalEntry_of_value _ rfl (readValue_int .validTtl rfl v g)).trans
      (Option.map_map ..).symm
  · exact (evalEntry_of_value _ rfl (readValue_int .renew rfl v g)).trans
      (Option.map_map ..).symm
  · exact (evalEntry_of_value _ rfl (readValue_int .retransLimit rfl v g)).trans
      (Option.map_map ..).symm
  · exact (evalEntry_of_value _ rfl (readValue_int .retransTime rfl v g)).trans
      (Option.map_map ..).symm
  · exact (evalEntry_of_value _ rfl (readValue_bool .keepalive rfl v g)).trans
      (Option.map_map ..).symm

theorem FileItem.read_setting {x : Setting .default} {d : ConfDir}
    (h : (FileItem.setting x).read libc = some d) (s : View) :
    d.apply s = some { s with settings := d.set s.settings } := by
  rw [FileItem.read] at h
  split at h
  case h_7 => exact nomatch h
  all_goals
    obtain ⟨n, -, rfl⟩ := Option.map_eq_some_iff.1 h
    rfl

/-- A directive of the file is read, and changes the settings or the proxies. -/
theorem FileItem.eval_view (x : FileItem) (hg : g.Numbered) :
    (x.eval libc g).map Loaded.view = (x.read libc).bind fun d => d.apply g.view := by
  cases x with
  | setting x =>
    rw [FileItem.eval_setting]
    cases h : (FileItem.setting x).read libc with
    | none => rfl
    | some d =>
      dsimp only [Option.map_some, Option.bind_some]
      rw [FileItem.read_setting h]
      rfl
  | proxy b =>
    dsimp only [FileItem.eval, FileItem.read]
    rw [ProxyBlock.eval_view b hg, Option.bind_map]
    rfl

theorem FileItem.eval_numbered {x : FileItem} (hg : g.Numbered) (h : x.eval libc g = some g') :
    g'.Numbered := by
  cases x with
  | setting x =>
    rw [FileItem.eval_setting] at h
    obtain ⟨d, -, rfl⟩ := Option.map_eq_some_iff.1 h
    exact hg
  | proxy b => exact ProxyBlock.eval_numbered hg h

/-- What a document does is what its directives do, one after the other. -/
theorem evalFile_view (items : List FileItem) (hg : g.Numbered) :
    (evalFile libc items g).map Loaded.view =
      (items.mapM (FileItem.read libc)).bind fun dirs => applyConfDirs dirs g.view := by
  have hfold : (evalFile libc items g).map Loaded.view =
      items.foldlM (fun s x => (FileItem.read libc x).bind fun d => d.apply s) g.view := by
    induction items generalizing g with
    | nil => rfl
    | cons x items ih =>
      rw [evalFile, List.map_cons, inTurn_cons, List.foldlM_cons, ← FileItem.eval_view x hg]
      cases h : x.eval libc g with
      | none => rfl
      | some g' => exact ih (FileItem.eval_numbered hg h)
  rw [hfold]
  exact Traverse.foldlM_read (fun _ _ => rfl) items _

/-- What the parser makes of a text, if it accepts it. -/
def parsed (libc : Libc) (conf : Conf) (t : List U8) : Option View :=
  (outcome (ndConfParse libc conf t)).map fun x => x.2.view

theorem parsed_eq_some_iff {conf : Conf} {t : List U8} {s : View} : parsed libc conf t = some s ↔
    ∃ c g, ndConfParse libc conf t = .ok (c, g) ∧ g.view = s := by
  rw [parsed]
  cases ndConfParse libc conf t with
  | error log => simp [outcome]
  | ok x => simp [outcome, Prod.ext_iff]

/-- The settings before the file is read, and no proxies. -/
def View.start (conf : Conf) : View := ⟨(conf, 5000), []⟩

/-- The parser makes of a text what the directives of the document do. -/
theorem parsed_text {items : List FileItem} {t : List U8} (ht : FileText items t) (conf : Conf) :
    parsed libc conf t =
      (items.mapM (FileItem.read libc)).bind fun dirs => applyConfDirs dirs (.start conf) := by
  rw [parsed, ndConfParse_text ht, Option.map_map]
  exact evalFile_view items rfl

end Ndppd
