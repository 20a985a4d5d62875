import Ndppd.Session

/-!
# Proxies

Building the configuration, opening its interfaces at start-up, and handing
solicitations over to the sessions (`proxy.c`, `rule.c`).
-/

namespace Ndppd

/-! ## Building the configuration -/

namespace Config

/-- No proxy. -/
def empty : Config where
  proxies := []
  proxy _ := {}
  rule _ := { proxy := 0 }
  freshProxy := 0
  freshRule := 0
  proxies_lt _ h := absurd h List.not_mem_nil
  proxies_nodup := List.nodup_nil
  rules_lt _ _ h := absurd h List.not_mem_nil
  rules_nodup _ := List.nodup_nil
  linked _ _ h := absurd h List.not_mem_nil

/-- Writes fields of the proxy `p`, other than its list of rules. -/
def setProxy (c : Config) (p : ProxyId) (f : Proxy) : Config :=
  let proxy := Function.update c.proxy p { f with rules := (c.proxy p).rules }
  have hrules : ∀ q, (proxy q).rules = (c.proxy q).rules := by
    intro q
    by_cases hq : q = p
    · subst hq; simp [proxy]
    · simp [proxy, Function.update_of_ne hq]
  { c with
    proxy := proxy
    rules_lt := fun q r hr => c.rules_lt q r (hrules q ▸ hr)
    rules_nodup := fun q => hrules q ▸ c.rules_nodup q
    linked := fun q r hr => c.linked q r (hrules q ▸ hr) }

/-- Writes fields of the rule `r`, other than its proxy. -/
def setRule (c : Config) (r : RuleId) (f : Rule) : Config :=
  { c with
    rule := Function.update c.rule r { f with proxy := (c.rule r).proxy }
    linked := by
      intro p r' hr'
      by_cases h : r' = r
      · subst h; simpa using c.linked p r' hr'
      · simpa [Function.update_of_ne h] using c.linked p r' hr' }

@[simp] theorem setProxy_proxy_self (c : Config) (p : ProxyId) (f : Proxy) :
    (c.setProxy p f).proxy p = { f with rules := (c.proxy p).rules } := Function.update_self ..

theorem setProxy_proxy_of_ne (c : Config) {p q : ProxyId} (f : Proxy) (h : q ≠ p) :
    (c.setProxy p f).proxy q = c.proxy q := Function.update_of_ne h ..

@[simp] theorem setRule_rule_self (c : Config) (r : RuleId) (f : Rule) :
    (c.setRule r f).rule r = { f with proxy := (c.rule r).proxy } := Function.update_self ..

theorem setRule_rule_of_ne (c : Config) {r q : RuleId} (f : Rule) (h : q ≠ r) :
    (c.setRule r f).rule q = c.rule q := Function.update_of_ne h ..

end Config

/-- `nd_proxy_create`: fails if there is a proxy for this interface already. -/
def ndProxyCreate (c : Config) (ifname : IfName) : Option (ProxyId × Config) :=
  if c.proxies.any fun p => (c.proxy p).ifname == ifname then none
  else
    let proxy := Function.update c.proxy c.freshProxy { ifname := ifname }
    have hrules : ∀ q, ∀ r ∈ (proxy q).rules, r ∈ (c.proxy q).rules := by
      intro q r hr
      by_cases hq : q = c.freshProxy
      · subst hq; simp [proxy] at hr
      · simpa [proxy, Function.update_of_ne hq] using hr
    some (c.freshProxy,
      { c with
        proxies := c.freshProxy :: c.proxies
        proxy := proxy
        freshProxy := c.freshProxy + 1
        proxies_lt := by
          intro p hp
          rcases List.mem_cons.1 hp with rfl | hp
          · exact Nat.lt_succ_self _
          · exact Nat.lt_succ_of_lt (c.proxies_lt p hp)
        proxies_nodup := List.nodup_cons.2
          ⟨fun h => absurd (c.proxies_lt _ h) (Nat.lt_irrefl _), c.proxies_nodup⟩
        rules_lt := fun q r hr => c.rules_lt q r (hrules q r hr)
        rules_nodup := by
          intro q
          by_cases hq : q = c.freshProxy
          · subst hq; simp [proxy]
          · simpa [proxy, Function.update_of_ne hq] using c.rules_nodup q
        linked := fun q r hr => c.linked q r (hrules q r hr) })

/-- `nd_rule_create`: a rule in front of the list of its proxy, with the
    link-layer address of the proxy. -/
def ndRuleCreate (c : Config) (p : ProxyId) : RuleId × Config :=
  let r := c.freshRule
  let proxy := Function.update c.proxy p { c.proxy p with rules := r :: (c.proxy p).rules }
  have hrules : ∀ q, ∀ r' ∈ (proxy q).rules, (r' = r ∧ q = p) ∨ r' ∈ (c.proxy q).rules := by
    intro q r' hr'
    by_cases hq : q = p
    · subst hq
      simp only [proxy, Function.update_self, List.mem_cons] at hr'
      exact hr'.imp (fun h => ⟨h, rfl⟩) id
    · exact .inr (by simpa [proxy, Function.update_of_ne hq] using hr')
  (r,
    { c with
      proxy := proxy
      rule := Function.update c.rule r { proxy := p, target := (c.proxy p).target }
      freshRule := c.freshRule + 1
      rules_lt := by
        intro q r' hr'
        rcases hrules q r' hr' with ⟨rfl, -⟩ | hr'
        · exact Nat.lt_succ_self _
        · exact Nat.lt_succ_of_lt (c.rules_lt q r' hr')
      rules_nodup := by
        intro q
        by_cases hq : q = p
        · subst hq
          simpa [proxy] using
            ⟨fun h => absurd (c.rules_lt q _ h) (Nat.lt_irrefl _), c.rules_nodup q⟩
        · simpa [proxy, Function.update_of_ne hq] using c.rules_nodup q
      linked := by
        intro q r' hr'
        rcases hrules q r' hr' with ⟨rfl, rfl⟩ | hr'
        · simp
        · have hne : r' ≠ r := Nat.ne_of_lt (c.rules_lt q r' hr')
          simpa [Function.update_of_ne hne] using c.linked q r' hr' })

/-! ## Start-up -/

/-- Opens the interface of a rule, if it names one. -/
def openRule (e : Env) (cw : Config × World) (r : RuleId) : Option (Config × World) :=
  let (c, w) := cw
  let rule := c.rule r
  if rule.ifname = [] then some (c, w)
  else
    match ndIfaceOpen e (some rule.ifname) 0 false w with
    | (none, _) => none
    | (some f, w) => some (c.setRule r { rule with iface := some f }, w)

/-- Opens the interface of a proxy, and those of its rules. -/
def openProxy (e : Env) (cw : Config × World) (p : ProxyId) : Option (Config × World) :=
  let (c, w) := cw
  let proxy := c.proxy p
  if proxy.rules = [] then none
  else
    match ndIfaceOpen e (some proxy.ifname) 0 proxy.promiscuous w with
    | (none, _) => none
    | (some f, w) =>
      let c := c.setProxy p { proxy with iface := some f }
      let w := { w with net := w.net.set f { w.net.iface f with proxy := some p } }
      proxy.rules.foldlM (openRule e) (c, w)

/-- `nd_proxy_startup`: the configuration with its interfaces, unless it fails. -/
def ndProxyStartup (e : Env) (c : Config) (w : World) : Option (Config × World) :=
  if c.proxies = [] then none else c.proxies.foldlM (openProxy e) (c, w)

/-! ## Solicitations -/

/-- The rule for a target: the first one it matches. -/
def Env.findRule (e : Env) (p : ProxyId) (tgt : Addr) : Option RuleId :=
  (e.cfg.proxy p).rules.find? fun r =>
    ndAddrMatch e.conf.byteOrder (e.cfg.rule r).addr tgt (e.cfg.rule r).pflen

def ndProxyHandleNs (e : Env) (p : ProxyId) (src tgt : Addr) (srcLl : Option LlAddr) (m : Mem) :
    Mem :=
  match ndSessionFind e tgt p m.store with
  | some i => m.withSession i (ndSessionHandleNs e i src srcLl)
  | none =>
    match e.findRule p tgt with
    | none => m
    | some r =>
      match ndSessionCreate e r tgt m with
      | (none, m) => m
      | (some i, m) => m.withSession i (ndSessionHandleNs e i src srcLl)

end Ndppd
