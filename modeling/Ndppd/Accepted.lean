import Ndppd.Expiry
import Ndppd.Parse.Text

/-!
# Accepted configurations

What the daemon may rely on once the parser has accepted a file, whatever is in
it (`Loaded.WellFormed`). The checks are spread over the parser: the tokens have
ranges and lengths, a rule gets its mode once, and some of it is checked at the
end of a rule only, so that a rule whose block is open may violate it.

* `readBlock_rel`: what holds of every value and of every call of a block holds
  of the block, in whatever order they are, and as often as they are repeated.
* `Config.Checked`: what holds of the proxies and the rules, but for the rule
  that is being read.
* `ndConfParse_parsed`: an accepted configuration is one as the daemon expects it
  at start-up.
-/

namespace Ndppd

variable {libc : Libc} {t t' : List U8} {g g' : Loaded}

/-! ## Tokens -/

/-- A number is in the range of its directive. -/
theorem readInt_range {min max v : ℤ} (h : readInt min max t = some (v, t')) :
    min ≤ v ∧ v ≤ max := by
  rw [readInt_eq] at h
  obtain ⟨buf, -, h⟩ := Option.bind_eq_some_iff.1 h
  obtain ⟨value, -, h⟩ := Option.bind_eq_some_iff.1 h
  by_cases hout : value > max ∨ value < min
  · rw [if_pos hout] at h
    cases h
  · rw [if_neg hout] at h
    cases h
    omega

/-- A prefix is no longer than an address. -/
theorem readPflen_le {n : ℕ} (h : readPflen libc t = some (n, t')) : n ≤ 128 := by
  rw [readPflen_eq] at h
  split_ifs at h
  · cases h
    exact le_rfl
  · obtain ⟨x, hx, h⟩ := Option.map_eq_some_iff.1 h
    cases h
    have := readInt_range hx
    omega

theorem readPrefixed_le {x : Addr × ℕ} (h : readPrefixed libc t = some (x, t')) : x.2 ≤ 128 := by
  rw [readPrefixed, parsePrefixed_eq] at h
  obtain ⟨y, -, h⟩ := Option.bind_eq_some_iff.1 h
  obtain ⟨z, hz, h⟩ := Option.map_eq_some_iff.1 h
  cases h
  exact readPflen_le hz

/-- A name that fits into its buffer. -/
structure FitsName (size : ℕ) (name : List U8) : Prop where
  ne_nil : name ≠ []
  length_lt : name.length < size

/-- A name may contain a NUL, which ends it, but not at its start. -/
theorem cString_nameScan_ne_nil {n : ℕ} (h : nameScan n t ≠ []) : cString (nameScan n t) ≠ [] := by
  rw [nameScan] at h ⊢
  revert h
  cases t.take n with
  | nil => exact fun h => absurd rfl h
  | cons c k =>
    dsimp only
    intro h
    by_cases hc : isalpha c = true
    · have hc0 : c ≠ 0 := by
        rintro rfl
        exact absurd hc (by decide)
      rw [if_pos hc, cString, List.takeWhile_cons_of_pos (by simpa using hc0)]
      exact List.cons_ne_nil _ _
    · rw [if_neg hc] at h
      exact absurd rfl h

theorem fitsName_readName {size : ℕ} {name : List U8} (h : readName size t = some (name, t')) :
    FitsName size name := by
  rw [readName_eq] at h
  obtain ⟨buf, hbuf, h⟩ := Option.map_eq_some_iff.1 h
  cases h
  rw [nameToken] at hbuf
  split_ifs at hbuf with hnil
  cases hbuf
  have hne := cString_nameScan_ne_nil hnil
  have hpos := List.length_pos_iff.2 hne
  have hlen := (nameScan_sublist (size - 1) t).length_le.trans (List.length_take_le ..)
  have hstring : (cString (nameScan (size - 1) t)).length ≤ (nameScan (size - 1) t).length :=
    (List.takeWhile_sublist _).length_le
  exact ⟨hne, by omega⟩

/-! ## Blocks -/

section Block

variable {sc : Scope} {ptr : sc.Ptr}
  {call : CfInfo sc → Callback sc → List U8 → Loaded → Option (List U8 × Loaded)}
  {info : CfInfo sc}

/-- What the value of a directive does. -/
inductive CfInfo.Writes (ptr : sc.Ptr) (info : CfInfo sc) (g : Loaded) : Loaded → Prop
  | none : info.type = .none → CfInfo.Writes ptr info g g
  | int {field : IntField sc} {min max v : ℤ} : info.type = .int field min max → min ≤ v →
      v ≤ max → CfInfo.Writes ptr info g (field.set ptr v g)
  | bool {field : BoolField sc} (v : Bool) : info.type = .bool field →
      CfInfo.Writes ptr info g (field.set ptr v g)
  | lladdr {field : LladdrField sc} (v : LlAddr) : info.type = .lladdr field →
      CfInfo.Writes ptr info g (field.set ptr v g)

/-- A value is written to the field of its directive, in range. -/
theorem readValue_writes (h : readValue libc sc ptr info t g = some (t', g')) :
    info.Writes ptr g g' := by
  cases htype : info.type with
  | none =>
    rw [readValue_none htype] at h
    cases h
    exact .none htype
  | int field min max =>
    rw [readValue_int field htype] at h
    obtain ⟨x, hx, h⟩ := Option.map_eq_some_iff.1 h
    cases h
    exact .int htype (readInt_range hx).1 (readInt_range hx).2
  | bool field =>
    rw [readValue_bool field htype] at h
    obtain ⟨x, -, h⟩ := Option.map_eq_some_iff.1 h
    cases h
    exact .bool x.1 htype
  | lladdr field =>
    rw [readValue_lladdr field htype] at h
    obtain ⟨x, -, h⟩ := Option.map_eq_some_iff.1 h
    cases h
    exact .lladdr x.1 htype

variable {R : Loaded → Loaded → Prop} (hrefl : ∀ g, R g g)
  (htrans : ∀ g₁ g₂ g₃, R g₁ g₂ → R g₂ g₃ → R g₁ g₃)
  (hvalue : ∀ info ∈ ndLCfinfoTable sc, ∀ g g', info.Writes ptr g g' → R g g')
  (hcall : ∀ info cb t g t' g', call info cb t g = some (t', g') → R g g')

include htrans hvalue hcall

/-- One directive relates the states as its value and its callback do. -/
theorem readDirective_rel (h : readDirective libc sc ptr call t g = some (t', g')) : R g g' := by
  rw [readDirective_eq] at h
  obtain ⟨name, -, h⟩ := Option.bind_eq_some_iff.1 h
  obtain ⟨info, hinfo, h⟩ := Option.bind_eq_some_iff.1 h
  obtain ⟨x, hentry, h⟩ := Option.bind_eq_some_iff.1 h
  obtain ⟨k, -, h⟩ := Option.map_eq_some_iff.1 h
  cases h
  rw [readEntry_eq] at hentry
  obtain ⟨y, hread, hcb⟩ := Option.bind_eq_some_iff.1 hentry
  have hy : R g y.2 := hvalue info (List.mem_of_find?_eq_some hinfo) _ _ (readValue_writes hread)
  cases hfun : info.cb with
  | none =>
    rw [hfun] at hcb
    cases hcb
    exact hy
  | some cb =>
    rw [hfun] at hcb
    exact htrans _ _ _ hy (hcall info cb _ _ _ _ hcb)

include hrefl

/-- So does the loop, round by round. -/
theorem readLoop_rel {n : ℕ} (h : readLoop libc sc ptr call n t g = some (t', g')) : R g g' := by
  induction n generalizing t g with
  | zero => cases h
  | succ n ih =>
    rw [readLoop_succ] at h
    split_ifs at h
    · cases h
      exact hrefl _
    · exact ih h
    · cases h
      exact hrefl _
    · obtain ⟨x, hx, h⟩ := Option.bind_eq_some_iff.1 h
      exact htrans _ _ _ (readDirective_rel htrans hvalue hcall hx) (ih h)

/-- A block does what its directives do, one after the other. -/
theorem readBlock_rel (h : readBlock libc sc ptr call t g = some (t', g')) : R g g' := by
  rw [readBlock_eq] at h
  split_ifs at h <;> exact readLoop_rel hrefl htrans hvalue hcall h

end Block

/-! ## Rules -/

/-- What holds of a rule from the start, also while its block is being read. -/
structure Rule.Bounded (rule : Rule) : Prop where
  pflen : rule.pflen ≤ 128
  rewritePflen : rule.rewritePflen ≤ 128
  table : rule.table ≤ 255
  ifname_iff : rule.ifname ≠ [] ↔ rule.mode = .iface
  length_ifname : rule.ifname.length < ifNamesize
  iface : rule.iface = none

/-- A rule as it is after its block. -/
structure Rule.WellFormed (rule : Rule) : Prop extends rule.Bounded where
  mode_ne : rule.mode ≠ .unknown
  autowire : rule.autowire = true → rule.mode = .iface

/-- A rule that is complete in the end is well formed. -/
theorem Rule.Bounded.wellFormed {rule : Rule} (h : rule.Bounded) (hc : rule.complete = true) :
    rule.WellFormed where
  toBounded := h
  mode_ne := by
    rw [Rule.complete, Bool.and_eq_true] at hc
    exact of_decide_eq_true hc.1
  autowire ha := by
    rw [Rule.complete, Bool.and_eq_true, ha] at hc
    exact of_decide_eq_true hc.2

/-! ## Writing to the configuration -/

namespace Config

variable {c c' : Config} {p q : ProxyId} {r r' : RuleId}

theorem setRule_rule_proxy (c : Config) (r r' : RuleId) (f : Rule) :
    ((c.setRule r f).rule r').proxy = (c.rule r').proxy := by
  by_cases h : r' = r
  · rw [h, setRule_rule_self]
  · rw [setRule_rule_of_ne _ _ h]

theorem setProxy_rules (c : Config) (p q : ProxyId) (f : Proxy) :
    ((c.setProxy p f).proxy q).rules = (c.proxy q).rules := by
  by_cases h : q = p
  · rw [h, setProxy_proxy_self]
  · rw [setProxy_proxy_of_ne _ _ h]

theorem setProxy_ifname {f : Proxy} (hf : f.ifname = (c.proxy p).ifname) (q : ProxyId) :
    ((c.setProxy p f).proxy q).ifname = (c.proxy q).ifname := by
  by_cases h : q = p
  · rw [h, setProxy_proxy_self]
    exact hf
  · rw [setProxy_proxy_of_ne _ _ h]

/-- What `nd_rule_create` does to the proxies: the rule is in the list of its own. -/
theorem ndRuleCreate_proxy (c : Config) (p q : ProxyId) : ((ndRuleCreate c p).2.proxy q) =
    if q = p then { c.proxy p with rules := c.freshRule :: (c.proxy p).rules } else c.proxy q :=
  Function.update_apply ..

/-- A new rule has the target of its proxy, and the other rules are as before. -/
theorem ndRuleCreate_rule (c : Config) (p : ProxyId) (r : RuleId) : ((ndRuleCreate c p).2.rule r) =
    if r = c.freshRule then { proxy := p, target := (c.proxy p).target } else c.rule r :=
  Function.update_apply ..

/-- A new rule is listed at its proxy, and nowhere else. -/
theorem mem_ndRuleCreate_rules (c : Config) (p q : ProxyId) (r : RuleId) :
    r ∈ ((ndRuleCreate c p).2.proxy q).rules ↔
      (q = p ∧ r = c.freshRule) ∨ r ∈ (c.proxy q).rules := by
  rw [ndRuleCreate_proxy]
  by_cases h : q = p
  · rw [if_pos h, h]
    simp
  · rw [if_neg h]
    simp [h]

theorem ndRuleCreate_ifname (c : Config) (p q : ProxyId) :
    ((ndRuleCreate c p).2.proxy q).ifname = (c.proxy q).ifname := by
  rw [ndRuleCreate_proxy]
  split_ifs with h
  · rw [h]
  · rfl

/-- What `nd_proxy_create` does. -/
structure ProxyAdded (c : Config) (ifname : IfName) (p : ProxyId) (c' : Config) : Prop where
  new : ∀ q ∈ c.proxies, (c.proxy q).ifname ≠ ifname
  id : p = c.freshProxy
  proxies : c'.proxies = p :: c.proxies
  proxy_self : c'.proxy p = { ifname := ifname }
  proxy_of_ne : ∀ q, q ≠ p → c'.proxy q = c.proxy q
  rule : c'.rule = c.rule
  freshProxy : c'.freshProxy = c.freshProxy + 1
  freshRule : c'.freshRule = c.freshRule

/-- What `nd_proxy_create` adds, if the name is a new one. -/
theorem proxyAdded {ifname : IfName} (h : ndProxyCreate c ifname = some (p, c')) :
    c.ProxyAdded ifname p c' := by
  rw [ndProxyCreate] at h
  split_ifs at h with hany
  cases h
  refine ⟨fun q hq heq => hany ?_, rfl, rfl, Function.update_self .., fun q hq => ?_, rfl, rfl, rfl⟩
  · exact List.any_eq_true.2 ⟨q, hq, beq_iff_eq.2 heq⟩
  · exact Function.update_of_ne hq ..

end Config

/-! ### Growth

Blocks add proxies and rules, and neither rename a proxy nor move a rule. -/

/-- `c'` has what `c` has. -/
structure Config.Grows (c c' : Config) : Prop where
  freshProxy : c.freshProxy ≤ c'.freshProxy
  freshRule : c.freshRule ≤ c'.freshRule
  proxies : c.proxies ⊆ c'.proxies
  ifname : ∀ p < c.freshProxy, (c'.proxy p).ifname = (c.proxy p).ifname
  rules : ∀ p < c.freshProxy, (c.proxy p).rules ⊆ (c'.proxy p).rules

namespace Config.Grows

variable {c c₁ c₂ : Config} {p : ProxyId} {r : RuleId}

theorem refl (c : Config) : c.Grows c :=
  ⟨le_rfl, le_rfl, List.Subset.refl _, fun _ _ => rfl, fun _ _ => List.Subset.refl _⟩

theorem trans (h : c.Grows c₁) (h' : c₁.Grows c₂) : c.Grows c₂ where
  freshProxy := h.freshProxy.trans h'.freshProxy
  freshRule := h.freshRule.trans h'.freshRule
  proxies := List.Subset.trans h.proxies h'.proxies
  ifname p hp := (h'.ifname p (hp.trans_le h.freshProxy)).trans (h.ifname p hp)
  rules p hp := List.Subset.trans (h.rules p hp) (h'.rules p (hp.trans_le h.freshProxy))

theorem setRule (c : Config) (r : RuleId) (f : Rule) : c.Grows (c.setRule r f) :=
  ⟨le_rfl, le_rfl, List.Subset.refl _, fun _ _ => rfl, fun _ _ => List.Subset.refl _⟩

theorem setProxy {f : Proxy} (hf : f.ifname = (c.proxy p).ifname) : c.Grows (c.setProxy p f) where
  freshProxy := le_rfl
  freshRule := le_rfl
  proxies := List.Subset.refl _
  ifname q _ := setProxy_ifname hf q
  rules q _ := by
    rw [setProxy_rules]
    exact List.Subset.refl _

/-- To create a rule only adds. -/
theorem ndRuleCreate (c : Config) (p : ProxyId) : c.Grows (ndRuleCreate c p).2 where
  freshProxy := le_rfl
  freshRule := Nat.le_succ _
  proxies := List.Subset.refl _
  ifname q _ := c.ndRuleCreate_ifname p q
  rules q _ r hr := (c.mem_ndRuleCreate_rules p q r).2 (.inr hr)

theorem proxyAdded {ifname : IfName} (h : c.ProxyAdded ifname p c₁) : c.Grows c₁ where
  freshProxy := h.freshProxy ▸ Nat.le_succ _
  freshRule := h.freshRule.ge
  proxies := h.proxies ▸ List.subset_cons_self _ _
  ifname q hq := by rw [h.proxy_of_ne q (h.id ▸ hq.ne)]
  rules q hq := by
    rw [h.proxy_of_ne q (h.id ▸ hq.ne)]
    exact List.Subset.refl _

end Config.Grows

/-! ### What is checked -/

/-- What holds of the proxies and the rules: a rule that is being read may lack
    its mode, or have `autowire` in another mode. -/
structure Config.Checked (pending : Option RuleId) (c : Config) : Prop where
  iface : ∀ p, (c.proxy p).iface = none
  ifname : ∀ p ∈ c.proxies, FitsName ifNamesize (c.proxy p).ifname
  unique : ∀ p ∈ c.proxies, ∀ q ∈ c.proxies, (c.proxy p).ifname = (c.proxy q).ifname → p = q
  listed : ∀ r < c.freshRule, (c.rule r).proxy ∈ c.proxies ∧ r ∈ (c.proxy (c.rule r).proxy).rules
  rule : ∀ r, (c.rule r).Bounded
  complete : ∀ r < c.freshRule, pending ≠ some r → (c.rule r).complete = true

/-- A new rule is within its bounds. -/
theorem Rule.bounded_new (p : ProxyId) (target : LlAddr) :
    ({ proxy := p, target := target } : Rule).Bounded where
  pflen := Nat.zero_le _
  rewritePflen := Nat.zero_le _
  table := Nat.zero_le _
  ifname_iff := by simp
  length_ifname := Nat.zero_lt_succ _
  iface := rfl

namespace Config.Checked

variable {c c' : Config} {o : Option RuleId} {p : ProxyId} {r : RuleId}

/-- There is nothing to check in an empty configuration. -/
theorem empty : Config.empty.Checked none where
  iface _ := rfl
  ifname _ hp := absurd hp List.not_mem_nil
  unique _ hp := absurd hp List.not_mem_nil
  listed _ hr := absurd hr (Nat.not_lt_zero _)
  rule _ := Rule.bounded_new ..
  complete _ hr := absurd hr (Nat.not_lt_zero _)

/-- The rule that is being read may be written to. -/
theorem setRule {f : Rule} (h : c.Checked (some r)) (hf : f.Bounded) :
    (c.setRule r f).Checked (some r) where
  iface := h.iface
  ifname := h.ifname
  unique := h.unique
  listed q hq := by
    rw [setRule_rule_proxy]
    exact h.listed q hq
  rule q := by
    by_cases hqr : q = r
    · rw [hqr, Config.setRule_rule_self]
      exact { hf with }
    · rw [Config.setRule_rule_of_ne _ _ hqr]
      exact h.rule q
  complete q hq hne := by
    have hqr : q ≠ r := fun hqr => hne (congrArg some hqr.symm)
    rw [Config.setRule_rule_of_ne _ _ hqr]
    exact h.complete q hq hne

/-- A proxy may be written to, but for its name and its interface. -/
theorem setProxy {f : Proxy} (h : c.Checked o) (hname : f.ifname = (c.proxy p).ifname)
    (hiface : f.iface = none) : (c.setProxy p f).Checked o where
  iface q := by
    by_cases hq : q = p
    · rw [hq, Config.setProxy_proxy_self]
      exact hiface
    · rw [Config.setProxy_proxy_of_ne _ _ hq]
      exact h.iface q
  ifname q hq := by
    rw [setProxy_ifname hname]
    exact h.ifname q hq
  unique q hq q' hq' heq := by
    rw [setProxy_ifname hname, setProxy_ifname hname] at heq
    exact h.unique q hq q' hq' heq
  listed r hr := by
    rw [setProxy_rules]
    exact h.listed r hr
  rule := h.rule
  complete := h.complete

/-- `nd_rule_create`: the rule is pending until its block has been read. -/
theorem ndRuleCreate (h : c.Checked none) (hp : p ∈ c.proxies) :
    (ndRuleCreate c p).2.Checked (some c.freshRule) where
  iface q := by
    rw [ndRuleCreate_proxy]
    split_ifs
    · exact h.iface p
    · exact h.iface q
  ifname q hq := by
    rw [ndRuleCreate_ifname]
    exact h.ifname q hq
  unique q hq q' hq' heq := by
    rw [ndRuleCreate_ifname, ndRuleCreate_ifname] at heq
    exact h.unique q hq q' hq' heq
  listed r hr := by
    rw [mem_ndRuleCreate_rules, ndRuleCreate_rule]
    by_cases hnew : r = c.freshRule
    · rw [if_pos hnew]
      exact ⟨hp, .inl ⟨rfl, hnew⟩⟩
    · rw [if_neg hnew]
      have hold := h.listed r (Nat.lt_of_le_of_ne (Nat.le_of_lt_succ hr) hnew)
      exact ⟨hold.1, .inr hold.2⟩
  rule r := by
    rw [ndRuleCreate_rule]
    split_ifs
    · exact Rule.bounded_new ..
    · exact h.rule r
  complete r hr hne := by
    have hnew : r ≠ c.freshRule := fun hr => hne (congrArg some hr.symm)
    rw [ndRuleCreate_rule, if_neg hnew]
    exact h.complete r (Nat.lt_of_le_of_ne (Nat.le_of_lt_succ hr) hnew) nofun

/-- A new proxy has a name that fits, and no rules. -/
theorem proxyAdded {ifname : IfName} (h : c.Checked none) (hp : c.ProxyAdded ifname p c')
    (hname : FitsName ifNamesize ifname) : c'.Checked none := by
  have hne : ∀ q ∈ c.proxies, q ≠ p := fun q hq => hp.id ▸ (c.proxies_lt q hq).ne
  have hself : (c'.proxy p).ifname = ifname := congrArg Proxy.ifname hp.proxy_self
  refine ⟨fun q => ?_, ?_, ?_, fun r hr => ?_, fun r => ?_, fun r hr _ => ?_⟩
  · by_cases hq : q = p
    · rw [hq, hp.proxy_self]
    · rw [hp.proxy_of_ne q hq]
      exact h.iface q
  · rw [hp.proxies, List.forall_mem_cons]
    refine ⟨hself ▸ hname, fun q hq => ?_⟩
    rw [hp.proxy_of_ne q (hne q hq)]
    exact h.ifname q hq
  · -- Two proxies are the new one twice, the new one and an old one, or two old ones.
    rw [hp.proxies, List.forall_mem_cons]
    constructor
    · rw [List.forall_mem_cons]
      refine ⟨fun _ => rfl, fun q hq heq => ?_⟩
      rw [hself, hp.proxy_of_ne q (hne q hq)] at heq
      exact absurd heq.symm (hp.new q hq)
    · intro q hq
      rw [List.forall_mem_cons]
      refine ⟨fun heq => ?_, fun q' hq' heq => ?_⟩
      · rw [hself, hp.proxy_of_ne q (hne q hq)] at heq
        exact absurd heq (hp.new q hq)
      · rw [hp.proxy_of_ne q (hne q hq), hp.proxy_of_ne q' (hne q' hq')] at heq
        exact h.unique q hq q' hq' heq
  · have hold := h.listed r (hp.freshRule ▸ hr)
    rw [hp.rule, hp.proxy_of_ne _ (hne _ hold.1), hp.proxies]
    exact ⟨List.mem_cons_of_mem _ hold.1, hold.2⟩
  · exact hp.rule ▸ h.rule r
  · exact hp.rule ▸ h.complete r (hp.freshRule ▸ hr) nofun

/-- The end of a rule. -/
theorem close (h : c.Checked (some r)) (hr : (c.rule r).complete = true) : c.Checked none where
  iface := h.iface
  ifname := h.ifname
  unique := h.unique
  listed := h.listed
  rule := h.rule
  complete q hq _ := by
    by_cases hqr : q = r
    · exact hqr ▸ hr
    · exact h.complete q hq fun heq => hqr (Option.some.inj heq).symm

end Config.Checked

/-! ## The block of a rule -/

/-- What the block of the rule `r` does. -/
structure Loaded.WritesRule (r : RuleId) (g g' : Loaded) : Prop where
  conf : g'.conf = g.conf
  grows : g.cfg.Grows g'.cfg
  freshRule : g'.cfg.freshRule = g.cfg.freshRule
  checked : g.cfg.Checked (some r) → g'.cfg.Checked (some r)

namespace Loaded.WritesRule

variable {r : RuleId} {g₁ g₂ g₃ : Loaded}

theorem refl (g : Loaded) : g.WritesRule r g := ⟨rfl, .refl _, rfl, id⟩

theorem trans (h : g₁.WritesRule r g₂) (h' : g₂.WritesRule r g₃) : g₁.WritesRule r g₃ where
  conf := h'.conf.trans h.conf
  grows := h.grows.trans h'.grows
  freshRule := h'.freshRule.trans h.freshRule
  checked := h'.checked ∘ h.checked

/-- A directive writes to the rule what keeps it within its bounds. -/
theorem setRule {f : Rule} (hf : (g.cfg.rule r).Bounded → f.Bounded) :
    g.WritesRule r (g.setRule r f) :=
  ⟨rfl, .setRule .., rfl, fun h => h.setRule (hf (h.rule r))⟩

end Loaded.WritesRule

/-- The only number of a rule is its table, from 0 to 255. -/
theorem table_rule {info : CfInfo .rule} (h : info ∈ ndLCfinfoTable .rule) {field : IntField .rule}
    {min max : ℤ} (htype : info.type = .int field min max) :
    field = .table ∧ min = 0 ∧ max = 255 := by
  simp only [ndLCfinfoTable, List.mem_cons, List.not_mem_nil, or_false] at h
  rcases h with rfl | rfl | rfl | rfl | rfl | rfl | rfl <;> cases htype
  exact ⟨rfl, rfl, rfl⟩

/-- A value of a `rule` block is written to its rule. -/
theorem CfInfo.Writes.writesRule {r : RuleId} {info : CfInfo .rule}
    (h : info.Writes r g g') (hinfo : info ∈ ndLCfinfoTable .rule) :
    g.WritesRule r g' := by
  cases h with
  | none => exact .refl g
  | @int field min max v htype hmin hmax =>
    obtain ⟨rfl, rfl, rfl⟩ := table_rule hinfo htype
    exact .setRule fun h => { h with table := Int.toNat_le.2 hmax }
  | @bool field v htype =>
    cases field with
    | autowire =>
      exact .setRule fun h => { h with }
  | @lladdr field v htype =>
    cases field with
    | ruleTarget =>
      exact .setRule fun h => { h with }

/-- `rewrite` writes to its rule only. -/
theorem readRewrite_writesRule {r : RuleId} (h : readRewrite libc r t g = some (t', g')) :
    g.WritesRule r g' := by
  rw [readRewrite_eq] at h
  obtain ⟨x, hx, h⟩ := Option.map_eq_some_iff.1 h
  cases h
  exact .setRule fun h => { h with rewritePflen := readPrefixed_le hx }

/-- A mode without an interface. -/
theorem Rule.Bounded.setMode {rule : Rule} {mode : Mode} (h : rule.Bounded)
    (hold : rule.mode = .unknown) (hnew : mode ≠ .iface) :
    ({ rule with mode := mode } : Rule).Bounded := by
  have hname : ¬rule.ifname ≠ [] := by
    rw [h.ifname_iff, hold]
    decide
  exact { h with ifname_iff := iff_of_false hname hnew }

/-- The mode is written once, and the name of the interface with it. -/
theorem readMode_writesRule {info : CfInfo .rule} {r : RuleId}
    (h : readMode libc info r t g = some (t', g')) : g.WritesRule r g' := by
  rw [readMode_eq] at h
  -- A mode that is there already is an error, which leaves three cases.
  split_ifs at h with hmode hauto hstatic
  · cases h
    exact .setRule fun h => h.setMode (not_not.1 hmode) (by decide)
  · cases h
    exact .setRule fun h => h.setMode (not_not.1 hmode) (by decide)
  · obtain ⟨x, hx, h⟩ := Option.map_eq_some_iff.1 h
    cases h
    have hname := fitsName_readName hx
    exact .setRule fun h =>
      { h with
        ifname_iff := ⟨fun _ => rfl, fun _ => hname.ne_nil⟩
        length_ifname := hname.length_lt }

/-- A callback of a `rule` block writes to its rule only. -/
theorem readCallRule_writesRule {r : RuleId} {info : CfInfo .rule} {cb : Callback .rule}
    (h : readCallRule libc r info cb t g = some (t', g')) : g.WritesRule r g' := by
  cases cb with
  | parseRewrite => exact readRewrite_writesRule h
  | parseMode => exact readMode_writesRule h

/-- The block of a rule writes to its rule only. -/
theorem readBlock_writesRule {r : RuleId}
    (h : readBlock libc .rule r (readCallRule libc r) t g = some (t', g')) : g.WritesRule r g' :=
  readBlock_rel .refl (fun _ _ _ => .trans) (fun _ hinfo _ _ h => h.writesRule hinfo)
    (fun _ _ _ _ _ _ => readCallRule_writesRule) h

/-! ## The block of a proxy -/

/-- What the block of the proxy `p` does: the rules it adds are in the list of `p`. -/
structure Loaded.WritesProxy (p : ProxyId) (g g' : Loaded) : Prop where
  conf : g'.conf = g.conf
  grows : g.cfg.Grows g'.cfg
  new : p < g.cfg.freshProxy →
    ∀ r, g.cfg.freshRule ≤ r → r < g'.cfg.freshRule → r ∈ (g'.cfg.proxy p).rules
  checked : p ∈ g.cfg.proxies → g.cfg.Checked none → g'.cfg.Checked none

namespace Loaded.WritesProxy

variable {p : ProxyId} {g₁ g₂ g₃ : Loaded}

theorem refl (g : Loaded) : g.WritesProxy p g :=
  ⟨rfl, .refl _, fun _ _ hr hr' => absurd hr' (Nat.not_lt.2 hr), fun _ => id⟩

theorem trans (h : g₁.WritesProxy p g₂) (h' : g₂.WritesProxy p g₃) : g₁.WritesProxy p g₃ where
  conf := h'.conf.trans h.conf
  grows := h.grows.trans h'.grows
  new hp r hr hr' := by
    have hp₂ := hp.trans_le h.grows.freshProxy
    by_cases hlt : r < g₂.cfg.freshRule
    · exact h'.grows.rules p hp₂ (h.new hp r hr hlt)
    · exact h'.new hp₂ r (Nat.not_lt.1 hlt) hr'
  checked hp := h'.checked (h.grows.proxies hp) ∘ h.checked hp

/-- A directive writes to the proxy, but neither its name nor its interface. -/
theorem setProxy {f : Proxy} (hname : f.ifname = (g.cfg.proxy p).ifname)
    (hiface : f.iface = (g.cfg.proxy p).iface) : g.WritesProxy p (g.setProxy p f) where
  conf := rfl
  grows := .setProxy hname
  new _ _ hr hr' := absurd hr' (Nat.not_lt.2 hr)
  checked _ h := h.setProxy hname (hiface.trans (h.iface p))

end Loaded.WritesProxy

/-- A value of a `proxy` block is written to its proxy. -/
theorem CfInfo.Writes.writesProxy {p : ProxyId} {info : CfInfo .proxy}
    (h : info.Writes p g g') : g.WritesProxy p g' := by
  cases h with
  | none => exact .refl g
  | @int field => cases field
  | @bool field =>
    cases field with
    | router => exact .setProxy rfl rfl
    | promiscuous => exact .setProxy rfl rfl
  | @lladdr field =>
    cases field with
    | proxyTarget => exact .setProxy rfl rfl

/-- A rule, before its block. -/
theorem newRule_grows (g : Loaded) (p : ProxyId) (addr : Addr) (pflen : ℕ) :
    g.cfg.Grows (newRule g p addr pflen).2.cfg :=
  (Config.Grows.ndRuleCreate g.cfg p).trans (.setRule ..)

/-- The rule is open from here on: what has been read before is checked. -/
theorem newRule_checked {p : ProxyId} {addr : Addr} {pflen : ℕ} (h : g.cfg.Checked none)
    (hp : p ∈ g.cfg.proxies) (hlen : pflen ≤ 128) :
    (newRule g p addr pflen).2.cfg.Checked (some g.cfg.freshRule) := by
  have hnew := h.ndRuleCreate hp
  have hf := hnew.rule g.cfg.freshRule
  have htable : mainTable ≤ 255 := by decide
  exact hnew.setRule { hf with pflen := hlen, table := htable }

/-- A rule that is accepted closes, well formed. -/
theorem readRule_writesProxy {p : ProxyId} (h : readRule libc p t g = some (t', g')) :
    g.WritesProxy p g' := by
  rw [readRule_eq] at h
  obtain ⟨x, hx, h⟩ := Option.bind_eq_some_iff.1 h
  obtain ⟨y, hy, h⟩ := Option.bind_eq_some_iff.1 h
  split_ifs at h with hcomplete
  cases h
  have hblock := readBlock_writesRule hy
  have hgrows := newRule_grows g p x.1.1 x.1.2
  refine ⟨hblock.conf, hgrows.trans hblock.grows, fun hp r hr hr' => ?_, fun hp hg => ?_⟩
  · -- The block adds no rule, so that the only one is that created before it.
    rw [hblock.freshRule] at hr'
    have hr : r = g.cfg.freshRule := Nat.le_antisymm (Nat.le_of_lt_succ hr') hr
    refine hblock.grows.rules p (hp.trans_le hgrows.freshProxy) ?_
    exact (g.cfg.mem_ndRuleCreate_rules p p r).2 (.inl ⟨rfl, hr⟩)
  · exact (hblock.checked (newRule_checked hg hp (readPrefixed_le hx))).close hcomplete

/-- The block of a proxy writes to the proxy, and adds its rules. -/
theorem readBlock_writesProxy {p : ProxyId}
    (h : readBlock libc .proxy p (readCallProxy libc p) t g = some (t', g')) :
    g.WritesProxy p g' :=
  readBlock_rel .refl (fun _ _ _ => .trans) (fun _ _ _ _ h => h.writesProxy)
    (fun _ cb _ _ _ _ h => by cases cb; exact readRule_writesProxy h) h

/-! ## The file -/

/-- What the file does. -/
structure Loaded.WritesFile (g g' : Loaded) : Prop where
  conf : g.conf.Parsed → g'.conf.Parsed
  grows : g.cfg.Grows g'.cfg
  checked : g.cfg.Checked none → g'.cfg.Checked none

namespace Loaded.WritesFile

variable {g₁ g₂ g₃ : Loaded}

theorem refl (g : Loaded) : g.WritesFile g := ⟨id, .refl _, id⟩

theorem trans (h : g₁.WritesFile g₂) (h' : g₂.WritesFile g₃) : g₁.WritesFile g₃ :=
  ⟨h'.conf ∘ h.conf, h.grows.trans h'.grows, h'.checked ∘ h.checked⟩

theorem setConf (hconf : g.conf.Parsed → g'.conf.Parsed) (hcfg : g'.cfg = g.cfg) :
    g.WritesFile g' :=
  ⟨hconf, hcfg ▸ .refl _, fun h => hcfg ▸ h⟩

end Loaded.WritesFile

/-- The settings are in the ranges of the table. -/
theorem CfInfo.Writes.writesFile {info : CfInfo .default}
    (h : info.Writes () g g') (hinfo : info ∈ ndLCfinfoTable .default) :
    g.WritesFile g' := by
  cases h with
  | none => exact .refl g
  | int htype hmin hmax =>
    simp only [ndLCfinfoTable, List.mem_cons, List.not_mem_nil, or_false] at hinfo
    rcases hinfo with rfl | rfl | rfl | rfl | rfl | rfl | rfl <;> cases htype
    · exact .setConf (fun h => { h with invalidTtl := ⟨hmin, hmax⟩ }) rfl
    · exact .setConf (fun h => { h with validTtl := ⟨hmin, hmax⟩ }) rfl
    · exact .setConf id rfl
    · exact .setConf (fun h => { h with retransLimit := ⟨hmin, hmax⟩ }) rfl
    · exact .setConf (fun h => { h with retransTime := ⟨hmin, hmax⟩ }) rfl
  | @bool field v =>
    cases field with
    | keepalive => exact .setConf (fun h => { h with }) rfl
  | @lladdr field => cases field

/-- A proxy that is accepted adds to the file what its block wrote. -/
theorem readProxy_writesFile (h : readProxy libc t g = some (t', g')) : g.WritesFile g' := by
  rw [readProxy_eq] at h
  obtain ⟨x, hx, h⟩ := Option.bind_eq_some_iff.1 h
  obtain ⟨y, hy, h⟩ := Option.bind_eq_some_iff.1 h
  have hadded := Config.proxyAdded hy
  have hblock := readBlock_writesProxy h
  refine ⟨fun hc => hblock.conf ▸ hc, (Config.Grows.proxyAdded hadded).trans hblock.grows, ?_⟩
  intro hg
  refine hblock.checked ?_ (hg.proxyAdded hadded (fitsName_readName hx))
  exact hadded.proxies ▸ List.mem_cons_self

theorem readCallDefault_writesFile {info : CfInfo .default} {cb : Callback .default}
    (h : readCallDefault libc info cb t g = some (t', g')) : g.WritesFile g' := by
  cases cb with
  | parseProxy => exact readProxy_writesFile h

/-- The directives of a file, from any state. -/
theorem readLoop_writesFile {n : ℕ}
    (h : readLoop libc .default () (readCallDefault libc) n t g = some (t', g')) :
    g.WritesFile g' :=
  readLoop_rel .refl (fun _ _ _ => .trans) (fun _ hinfo _ _ h => h.writesFile hinfo)
    (fun _ _ _ _ _ _ => readCallDefault_writesFile) h

/-- A whole file, from its first byte. -/
theorem readFile_writesFile {conf : Conf} {data : List U8}
    (h : readFile libc conf data = some (t', g')) : Loaded.WritesFile { conf := conf } g' :=
  readBlock_rel .refl (fun _ _ _ => .trans) (fun _ hinfo _ _ h => h.writesFile hinfo)
    (fun _ _ _ _ _ _ => readCallDefault_writesFile) h

theorem outcome_ok {x : Parse (Cursor × Loaded)} {s : Cursor} (h : x = .ok (s, g)) :
    outcome x = some (s.rest, g) := by rw [h, outcome]

/-- The defaults are in the ranges of their directives. -/
theorem Conf.parsed_default (bo : ByteOrder) (seed : U32) :
    ({ byteOrder := bo, hashSeed := seed } : Conf).Parsed where
  invalidTtl := by simp
  validTtl := by simp
  staleTtl := rfl
  retransLimit := by simp
  retransTime := by simp

section File

variable {bo : ByteOrder} {seed : U32} {data : List U8} {s : Cursor}

/-- What has been read from a file is checked. -/
theorem ndConfParse_checked
    (h : ndConfParse libc { byteOrder := bo, hashSeed := seed } data = .ok (s, g)) :
    g.cfg.Checked none ∧ g.conf.Parsed := by
  have hread := (outcome_ndConfParse _ data).symm.trans (outcome_ok h)
  have hfile := readFile_writesFile hread
  exact ⟨hfile.checked .empty, hfile.conf (Conf.parsed_default bo seed)⟩

/-- An accepted configuration is one as the daemon expects it at start-up. -/
theorem ndConfParse_parsed
    (h : ndConfParse libc { byteOrder := bo, hashSeed := seed } data = .ok (s, g)) :
    g.cfg.Parsed ∧ g.conf.Parsed := by
  obtain ⟨hcfg, hconf⟩ := ndConfParse_checked h
  have hclosed : g.cfg.Closed := ⟨hcfg.iface, fun r => (hcfg.rule r).iface⟩
  refine ⟨hclosed.parsed fun r hr => ?_, hconf⟩
  have hrule := (hcfg.rule r).wellFormed (hcfg.complete r hr nofun)
  exact ⟨(hcfg.listed r hr).1, hrule.mode_ne, hrule.ifname_iff⟩

end File

/-- A well-formed configuration. The default settings are in the ranges of the
    settings, too. -/
structure Loaded.WellFormed (g : Loaded) : Prop where
  ifname : ∀ p ∈ g.cfg.proxies, FitsName ifNamesize (g.cfg.proxy p).ifname
  unique : ∀ p ∈ g.cfg.proxies, ∀ q ∈ g.cfg.proxies,
    (g.cfg.proxy p).ifname = (g.cfg.proxy q).ifname → p = q
  rule : ∀ r < g.cfg.freshRule, (g.cfg.rule r).WellFormed
  listed : ∀ r < g.cfg.freshRule,
    (g.cfg.rule r).proxy ∈ g.cfg.proxies ∧ r ∈ (g.cfg.proxy (g.cfg.rule r).proxy).rules
  settings : g.conf.Parsed

/-- The block of a proxy, with its name at `s`, which was read from `g` to `g₁`, as
    it is in `g'`: a proxy of that name, and the rules written in the block. -/
structure Loaded.HasBlock (s : Cursor) (g g₁ g' : Loaded) : Prop where
  mem : g.cfg.freshProxy ∈ g'.cfg.proxies
  ifname : ∃ s', ndLAcceptName s ifNamesize = some ((g'.cfg.proxy g.cfg.freshProxy).ifname, s')
  proxy : ∀ r, g.cfg.freshRule ≤ r → r < g₁.cfg.freshRule →
    (g'.cfg.rule r).proxy = g.cfg.freshProxy

theorem ndLParseProxy_hasBlock {s s' : Cursor} (h : ndLParseProxy libc s g = .ok (s', g')) :
    g.HasBlock s g' g' ∧ g.cfg.freshProxy < g'.cfg.freshProxy ∧ ∀ r, g.cfg.freshRule ≤ r →
      r < g'.cfg.freshRule → r ∈ (g'.cfg.proxy g.cfg.freshProxy).rules := by
  have hread := (outcome_ndLParseProxy s g).symm.trans (outcome_ok h)
  rw [readProxy_eq] at hread
  obtain ⟨x, hx, hread⟩ := Option.bind_eq_some_iff.1 hread
  obtain ⟨y, hy, hread⟩ := Option.bind_eq_some_iff.1 hread
  have hadded := Config.proxyAdded hy
  have hblock := readBlock_writesProxy hread
  have hlt : y.1 < y.2.freshProxy := by rw [hadded.freshProxy, hadded.id]; exact Nat.lt_succ_self _
  have hnew : ∀ r, g.cfg.freshRule ≤ r → r < g'.cfg.freshRule → r ∈ (g'.cfg.proxy y.1).rules :=
    fun r hr => hblock.new hlt r (hadded.freshRule.trans_le hr)
  rw [← hadded.id]
  refine ⟨⟨?_, ?_, fun r hr hr' => ?_⟩, hlt.trans_le hblock.grows.freshProxy, hnew⟩
  · rw [← hadded.id]
    exact hblock.grows.proxies (hadded.proxies ▸ List.mem_cons_self)
  · obtain ⟨z, hz, hzx⟩ := Option.map_eq_some_iff.1 ((afterToken_ndLAcceptName s _).trans hx)
    refine ⟨z.2, hz.trans (congrArg some (Prod.ext ?_ rfl))⟩
    rw [← hadded.id, hblock.grows.ifname _ hlt, hadded.proxy_self]
    exact (congrArg Prod.fst hzx : (afterToken z).1 = x.1)
  · rw [← hadded.id]
    exact g'.cfg.linked _ _ (hnew r hr hr')

/-- Every configuration that is accepted is well-formed, and the rules in the block
    of a proxy belong to it when the whole file has been read. -/
theorem ndConfParse_wellFormed (libc : Libc) (bo : ByteOrder) (seed : U32) :
    (∀ data s g, ndConfParse libc { byteOrder := bo, hashSeed := seed } data = .ok (s, g) →
      g.WellFormed) ∧
    ∀ s g s₁ g₁ s₂ n s' g', ndLParseProxy libc s g = .ok (s₁, g₁) →
      parseLoop libc .default () (callDefault libc) n s₂ g₁ = .ok (s', g') →
      g.HasBlock s g₁ g' := by
  refine ⟨fun data s g h => ?_, fun s g s₁ g₁ s₂ n s' g' h h' => ?_⟩
  · obtain ⟨hcfg, hconf⟩ := ndConfParse_checked h
    refine ⟨hcfg.ifname, hcfg.unique, fun r hr => ?_, hcfg.listed, hconf⟩
    exact (hcfg.rule r).wellFormed (hcfg.complete r hr nofun)
  · obtain ⟨hblock, hlt, hnew⟩ := ndLParseProxy_hasBlock h
    have hgrows : g₁.cfg.Grows g'.cfg :=
      (readLoop_writesFile ((outcome_parseLoop n s₂ g₁).symm.trans (outcome_ok h'))).grows
    refine ⟨hgrows.proxies hblock.mem, ?_, fun r hr hr' => ?_⟩
    · rw [hgrows.ifname _ hlt]
      exact hblock.ifname
    · exact g'.cfg.linked _ _ (hgrows.rules _ hlt (hnew r hr hr'))

namespace Small

/-- The block of a proxy, with a comment, and what follows the key `proxy`. -/
def blockText : List U8 := bytes "a \x7b\nrule ::1/64 \x7b # ok\niface b\nautowire\n\x7d\n\x7d\n"

theorem blockText_wellFormed :
    (∃ s g, ndConfParse loopback conf (bytes "proxy " ++ blockText) = .ok (s, g) ∧
      g.cfg.freshRule = 1 ∧ g.WellFormed) ∧
    ∃ s₁ g₁ s' g', ndLParseProxy loopback { data := blockText } { conf := conf } = .ok (s₁, g₁) ∧
      g₁.cfg.freshRule = 1 ∧
      parseLoop loopback .default () (callDefault loopback) 2 s₁ g₁ = .ok (s', g') ∧
      Loaded.HasBlock { data := blockText } { conf := conf } g₁ g' := by
  obtain ⟨hfile, hblock⟩ := ndConfParse_wellFormed loopback .little 0
  constructor
  · have hrun : ((ndConfParse loopback conf (bytes "proxy " ++ blockText)).toOption.map
        (·.2.cfg.freshRule)) = some 1 := by decide +kernel
    cases h : ndConfParse loopback conf (bytes "proxy " ++ blockText) with
    | error => rw [h] at hrun; cases hrun
    | ok x =>
      rw [h] at hrun
      exact ⟨x.1, x.2, rfl, Option.some.inj hrun, hfile _ _ _ h⟩
  · have hrun : ((ndLParseProxy loopback { data := blockText } { conf := conf }).toOption.map
        fun x => (x.2.cfg.freshRule,
          (parseLoop loopback .default () (callDefault loopback) 2 x.1 x.2).isOk)) =
        some (1, true) := by decide +kernel
    cases h : ndLParseProxy loopback { data := blockText } { conf := conf } with
    | error => rw [h] at hrun; cases hrun
    | ok x =>
      rw [h] at hrun
      obtain ⟨hfresh, hok⟩ := Prod.mk.inj (Option.some.inj hrun)
      cases h' : parseLoop loopback .default () (callDefault loopback) 2 x.1 x.2 with
      | error => rw [h'] at hok; cases hok
      | ok y => exact ⟨x.1, x.2, y.1, y.2, rfl, hfresh, h', hblock _ _ _ _ _ _ _ _ h h'⟩

end Small

end Ndppd
