import Ndppd.Daemon.Packets

/-!
# Start-up

What the parser ensures of the configuration (`Config.Parsed`), and what a
successful start-up adds to it (`Config.Started`): every proxy has an interface,
and so have the rules in the mode `iface`, and no others.
-/

namespace Ndppd

/-- A configuration as it is after parsing: each rule has a mode, and names an
    interface if its mode is `iface`. No interface is open. -/
structure Config.Parsed (c : Config) : Prop where
  mem_proxies : ∀ p, ∀ r ∈ (c.proxy p).rules, p ∈ c.proxies
  mode_ne : ∀ p, ∀ r ∈ (c.proxy p).rules, (c.rule r).mode ≠ .unknown
  ifname_iff : ∀ p, ∀ r ∈ (c.proxy p).rules, (c.rule r).ifname ≠ [] ↔ (c.rule r).mode = .iface
  proxy_iface : ∀ p, (c.proxy p).iface = none
  rule_iface : ∀ r, (c.rule r).iface = none

/-- No interface is open. -/
structure Config.Closed (c : Config) : Prop where
  proxy : ∀ p, (c.proxy p).iface = none
  rule : ∀ r, (c.rule r).iface = none

namespace Config.Closed

variable {c : Config}

theorem empty : Config.empty.Closed := ⟨fun _ => rfl, fun _ => rfl⟩

/-- `nd_proxy_create` opens no interface. -/
theorem ndProxyCreate (h : c.Closed) {ifname : IfName} {pc : ProxyId × Config}
    (hpc : ndProxyCreate c ifname = some pc) : pc.2.Closed := by
  unfold Ndppd.ndProxyCreate at hpc
  split_ifs at hpc
  obtain rfl := Option.some.inj hpc
  exact ⟨(Function.forall_update_iff _ fun _ (q : Proxy) => q.iface = none).2
    ⟨rfl, fun p _ => h.proxy p⟩, h.rule⟩

/-- `nd_rule_create` opens no interface. -/
theorem ndRuleCreate (h : c.Closed) (p : ProxyId) : (ndRuleCreate c p).2.Closed :=
  ⟨(Function.forall_update_iff _ fun _ (q : Proxy) => q.iface = none).2
      ⟨h.proxy p, fun q _ => h.proxy q⟩,
    (Function.forall_update_iff _ fun _ (r : Rule) => r.iface = none).2
      ⟨rfl, fun r _ => h.rule r⟩⟩

theorem setRule (h : c.Closed) (r : RuleId) {rule : Rule} (hr : rule.iface = none) :
    (c.setRule r rule).Closed :=
  ⟨h.proxy, (Function.forall_update_iff _ fun _ (r : Rule) => r.iface = none).2
    ⟨hr, fun r _ => h.rule r⟩⟩

/-- What is left to check after parsing is a property of the rules. -/
theorem parsed (h : c.Closed) (hrules : ∀ r < c.freshRule, (c.rule r).proxy ∈ c.proxies ∧
    (c.rule r).mode ≠ .unknown ∧ ((c.rule r).ifname ≠ [] ↔ (c.rule r).mode = .iface)) :
    c.Parsed where
  mem_proxies p r hr := c.linked p r hr ▸ (hrules r (c.rules_lt p r hr)).1
  mode_ne p r hr := (hrules r (c.rules_lt p r hr)).2.1
  ifname_iff p r hr := (hrules r (c.rules_lt p r hr)).2.2
  proxy_iface := h.proxy
  rule_iface := h.rule

end Config.Closed

theorem Small.addProxy_closed {c : Config} (h : c.Closed) (ifname : IfName) {rule : Rule → Rule}
    (hrule : ∀ r, (rule r).iface = r.iface) : (addProxy ifname rule c).Closed := by
  unfold addProxy
  cases hpc : ndProxyCreate c ifname with
  | none => exact h
  | some pc =>
    have hc := (h.ndProxyCreate hpc).ndRuleCreate pc.1
    exact hc.setRule _ ((hrule _).trans (hc.rule _))

theorem Small.config_closed {rule : Rule → Rule} (hrule : ∀ r, (rule r).iface = r.iface) :
    (config rule).Closed :=
  addProxy_closed (addProxy_closed .empty _ hrule) _ hrule

/-- A configuration whose interfaces are open. -/
structure Config.Started (c : Config) : Prop where
  mode_ne : ∀ p, ∀ r ∈ (c.proxy p).rules, (c.rule r).mode ≠ .unknown
  proxy_iface : ∀ p, ∀ r ∈ (c.proxy p).rules, (c.proxy p).iface.isSome
  rule_iface : ∀ p, ∀ r ∈ (c.proxy p).rules, (c.rule r).iface.isSome ↔ (c.rule r).mode = .iface

/-- A rule that is neither automatic nor static has an interface. -/
theorem Config.Started.iface_ne_none {c : Config} (h : c.Started) {p : ProxyId} {r : RuleId}
    (hr : r ∈ (c.proxy p).rules) (hauto : (c.rule r).mode ≠ .auto)
    (hstatic : (c.rule r).mode ≠ .static) : (c.rule r).iface ≠ none := by
  rw [← Option.isSome_iff_ne_none, h.rule_iface p r hr]
  cases hm : (c.rule r).mode with
  | unknown => exact absurd hm (h.mode_ne p r hr)
  | static => exact absurd hm hstatic
  | iface => rfl
  | auto => exact absurd hm hauto

/-- `c'` is `c` with more interfaces open. -/
structure Config.Opens (c c' : Config) : Prop where
  proxies : c'.proxies = c.proxies
  proxy : ∀ p, ∃ o, c'.proxy p = { c.proxy p with iface := o } ∧
    ((c.proxy p).iface.isSome → o.isSome)
  rule : ∀ r, ∃ o, c'.rule r = { c.rule r with iface := o } ∧
    ((c.rule r).iface.isSome → o.isSome) ∧ ((c.rule r).ifname = [] → o = (c.rule r).iface)

namespace Config.Opens

variable {c c' c'' : Config}

theorem refl (c : Config) : c.Opens c :=
  ⟨rfl, fun _ => ⟨_, rfl, id⟩, fun _ => ⟨_, rfl, id, fun _ => rfl⟩⟩

theorem trans (h : c.Opens c') (h' : c'.Opens c'') : c.Opens c'' := by
  refine ⟨h'.proxies.trans h.proxies, fun p => ?_, fun r => ?_⟩
  · obtain ⟨o, ho, hsome⟩ := h.proxy p
    obtain ⟨o', ho', hsome'⟩ := h'.proxy p
    rw [ho] at ho' hsome'
    exact ⟨o', ho', fun hp => hsome' (hsome hp)⟩
  · obtain ⟨o, ho, hsome, hnone⟩ := h.rule r
    obtain ⟨o', ho', hsome', hnone'⟩ := h'.rule r
    rw [ho] at ho' hsome' hnone'
    exact ⟨o', ho', fun hr => hsome' (hsome hr), fun hr => (hnone' hr).trans (hnone hr)⟩

theorem rules_eq (h : c.Opens c') (p : ProxyId) : (c'.proxy p).rules = (c.proxy p).rules := by
  obtain ⟨o, ho, -⟩ := h.proxy p
  rw [ho]

theorem mode_eq (h : c.Opens c') (r : RuleId) : (c'.rule r).mode = (c.rule r).mode := by
  obtain ⟨o, ho, -⟩ := h.rule r
  rw [ho]

theorem ifname_eq (h : c.Opens c') (r : RuleId) : (c'.rule r).ifname = (c.rule r).ifname := by
  obtain ⟨o, ho, -⟩ := h.rule r
  rw [ho]

theorem proxy_isSome (h : c.Opens c') {p : ProxyId} (hp : (c.proxy p).iface.isSome) :
    (c'.proxy p).iface.isSome := by
  obtain ⟨o, ho, hsome⟩ := h.proxy p
  rw [ho]
  exact hsome hp

theorem rule_isSome (h : c.Opens c') {r : RuleId} (hr : (c.rule r).iface.isSome) :
    (c'.rule r).iface.isSome := by
  obtain ⟨o, ho, hsome, -⟩ := h.rule r
  rw [ho]
  exact hsome hr

theorem rule_iface_eq (h : c.Opens c') {r : RuleId} (hr : (c.rule r).ifname = []) :
    (c'.rule r).iface = (c.rule r).iface := by
  obtain ⟨o, ho, -, hnone⟩ := h.rule r
  rw [ho]
  exact hnone hr

/-- The proxies with rules are in the list. -/
theorem mem_proxies (h : c.Opens c') (hc : c.Parsed) (p : ProxyId) (r : RuleId)
    (hr : r ∈ (c'.proxy p).rules) : p ∈ c'.proxies := by
  rw [h.rules_eq] at hr
  rw [h.proxies]
  exact hc.mem_proxies p r hr

theorem setProxy (c : Config) (p : ProxyId) (f : IfaceId) :
    c.Opens (c.setProxy p { c.proxy p with iface := some f }) := by
  refine ⟨rfl, fun q => ?_, fun _ => ⟨_, rfl, id, fun _ => rfl⟩⟩
  by_cases hq : q = p
  · subst hq
    exact ⟨some f, c.setProxy_proxy_self .., fun _ => rfl⟩
  · exact ⟨(c.proxy q).iface, c.setProxy_proxy_of_ne _ hq, id⟩

theorem setRule (c : Config) {r : RuleId} (f : IfaceId) (hr : (c.rule r).ifname ≠ []) :
    c.Opens (c.setRule r { c.rule r with iface := some f }) := by
  refine ⟨rfl, fun _ => ⟨_, rfl, id⟩, fun q => ?_⟩
  by_cases hq : q = r
  · subst hq
    exact ⟨some f, c.setRule_rule_self .., fun _ => rfl, fun h => absurd h hr⟩
  · exact ⟨(c.rule q).iface, c.setRule_rule_of_ne _ hq, id, fun _ => rfl⟩

end Config.Opens

/-! ## Opening the interfaces -/

/-- What the rounds of a loop that may fail add up to: `P l b` after the rounds on `l`. -/
theorem foldlM_induction {α β : Type*} {f : β → α → Option β} {P : List α → β → Prop}
    {l : List α} {b b' : β} (h : l.foldlM f b = some b') (h₀ : P [] b)
    (hf : ∀ l' x b b', l' ++ [x] <+: l → P l' b → f b x = some b' → P (l' ++ [x]) b') :
    P l b' := by
  -- From any point of the loop on.
  have hfrom : ∀ (l₂ l₁ : List α) (b : β), l = l₁ ++ l₂ → P l₁ b → l₂.foldlM f b = some b' →
      P l b' := by
    intro l₂
    induction l₂ with
    | nil =>
      intro l₁ b hl hP h
      rw [hl, List.append_nil, ← Option.some.inj h]
      exact hP
    | cons x l₂ ih =>
      intro l₁ b hl hP h
      rw [List.foldlM_cons, Option.bind_eq_bind, Option.bind_eq_some_iff] at h
      obtain ⟨b₁, hb₁, h⟩ := h
      have hl' : l = l₁ ++ [x] ++ l₂ := by simp [hl]
      exact ih (l₁ ++ [x]) b₁ hl' (hf l₁ x b b₁ ⟨l₂, hl'.symm⟩ hP hb₁) h
  exact hfrom l [] b rfl h₀ h

section Opening

variable {e : Env} {cw cw' : Config × World} {r : RuleId} {p : ProxyId}

/-- A rule that names no interface is left alone; otherwise its interface is opened. -/
theorem openRule_cases (h : openRule e cw r = some cw') :
    ((cw.1.rule r).ifname = [] ∧ cw' = cw) ∨
      (cw.1.rule r).ifname ≠ [] ∧ ∃ f w', ndIfaceOpen e (some (cw.1.rule r).ifname) 0 false cw.2 =
        (some f, w') ∧ cw' = (cw.1.setRule r { cw.1.rule r with iface := some f }, w') := by
  unfold openRule at h
  dsimp only at h
  split_ifs at h with hn
  · exact .inl ⟨hn, (Option.some.inj h).symm⟩
  · obtain ⟨o, w', ho⟩ : ∃ o w', ndIfaceOpen e (some (cw.1.rule r).ifname) 0 false cw.2 = (o, w') :=
      ⟨_, _, rfl⟩
    rw [ho] at h
    cases o with
    | none => exact absurd h (by simp)
    | some f => exact .inr ⟨hn, f, w', ho, (Option.some.inj h).symm⟩

/-- The configuration and the interfaces once the interface of a proxy is open. -/
def bindProxy (c : Config) (p : ProxyId) (f : IfaceId) (w : World) : Config × World :=
  (c.setProxy p { c.proxy p with iface := some f },
    { w with net := w.net.set f { w.net.iface f with proxy := some p } })

theorem openProxy_cases (h : openProxy e cw p = some cw') :
    ∃ f w', ndIfaceOpen e (some (cw.1.proxy p).ifname) 0 (cw.1.proxy p).promiscuous cw.2 =
        (some f, w') ∧
      (cw.1.proxy p).rules.foldlM (openRule e) (bindProxy cw.1 p f w') = some cw' := by
  unfold openProxy at h
  dsimp only at h
  split_ifs at h with hn
  obtain ⟨o, w', ho⟩ : ∃ o w', ndIfaceOpen e (some (cw.1.proxy p).ifname) 0
      (cw.1.proxy p).promiscuous cw.2 = (o, w') := ⟨_, _, rfl⟩
  rw [ho] at h
  cases o with
  | none => exact absurd h (by simp)
  | some f => exact ⟨f, w', ho, h⟩

theorem openRule_opens (h : openRule e cw r = some cw') : cw.1.Opens cw'.1 := by
  rcases openRule_cases h with ⟨-, rfl⟩ | ⟨hn, f, w', -, rfl⟩
  · exact .refl _
  · exact .setRule _ f hn

theorem openRule_isSome (h : openRule e cw r = some cw') (hn : (cw.1.rule r).ifname ≠ []) :
    (cw'.1.rule r).iface.isSome := by
  rcases openRule_cases h with ⟨hn', -⟩ | ⟨-, f, w', -, rfl⟩
  · exact absurd hn' hn
  · rw [Config.setRule_rule_self]
    rfl

/-- Opening a proxy opens its interface and those of its rules. -/
theorem openProxy_opens (h : openProxy e cw p = some cw') :
    cw.1.Opens cw'.1 ∧ (cw'.1.proxy p).iface.isSome ∧
      ∀ r ∈ (cw.1.proxy p).rules, (cw.1.rule r).ifname ≠ [] → (cw'.1.rule r).iface.isSome := by
  obtain ⟨f, w', -, hrules⟩ := openProxy_cases h
  have hbind : cw.1.Opens (bindProxy cw.1 p f w').1 := .setProxy cw.1 p f
  have hp : ((bindProxy cw.1 p f w').1.proxy p).iface.isSome := by
    rw [bindProxy, Config.setProxy_proxy_self]
    rfl
  -- After the rules of a part of the list.
  let P (l : List RuleId) (cw' : Config × World) : Prop := cw.1.Opens cw'.1 ∧
    (cw'.1.proxy p).iface.isSome ∧ ∀ r ∈ l, (cw.1.rule r).ifname ≠ [] → (cw'.1.rule r).iface.isSome
  refine foldlM_induction (P := P) hrules ⟨hbind, hp, by simp⟩ ?_
  rintro l r cw₁ cw₂ - ⟨ho, hp, hl⟩ h₂
  have ho₂ := openRule_opens h₂
  refine ⟨ho.trans ho₂, ho₂.proxy_isSome hp, fun r' hr' hn => ?_⟩
  rcases List.mem_append.1 hr' with hr' | hr'
  · exact ho₂.rule_isSome (hl r' hr' hn)
  · rw [List.mem_singleton.1 hr'] at hn ⊢
    rw [← ho.ifname_eq] at hn
    exact openRule_isSome h₂ hn

/-- After start-up, the interfaces are open. -/
theorem ndProxyStartup_opens {c : Config} {w : World} (h : ndProxyStartup e c w = some cw') :
    c.Opens cw'.1 ∧ ∀ p ∈ c.proxies, (cw'.1.proxy p).iface.isSome ∧
      ∀ r ∈ (c.proxy p).rules, (c.rule r).ifname ≠ [] → (cw'.1.rule r).iface.isSome := by
  unfold ndProxyStartup at h
  split_ifs at h
  let P (l : List ProxyId) (cw' : Config × World) : Prop := c.Opens cw'.1 ∧ ∀ p ∈ l,
    (cw'.1.proxy p).iface.isSome ∧
      ∀ r ∈ (c.proxy p).rules, (c.rule r).ifname ≠ [] → (cw'.1.rule r).iface.isSome
  refine foldlM_induction (P := P) h ⟨.refl c, by simp⟩ ?_
  rintro l p cw₁ cw₂ - ⟨ho, hl⟩ h₂
  obtain ⟨ho₂, hp, hr⟩ := openProxy_opens h₂
  refine ⟨ho.trans ho₂, fun q hq => ?_⟩
  rcases List.mem_append.1 hq with hq | hq
  · exact ⟨ho₂.proxy_isSome (hl q hq).1, fun r hr hn => ho₂.rule_isSome ((hl q hq).2 r hr hn)⟩
  · rw [List.mem_singleton.1 hq]
    refine ⟨hp, fun r hrp hn => hr r ?_ ?_⟩
    · rw [ho.rules_eq]
      exact hrp
    · rw [ho.ifname_eq]
      exact hn

theorem openRule_packets (h : openRule e cw r = some cw') : cw'.2.packets = cw.2.packets := by
  rcases openRule_cases h with ⟨-, rfl⟩ | ⟨-, f, w', ho, rfl⟩
  · rfl
  · exact (congrArg (fun x => x.2.packets) ho).symm.trans (packets_ndIfaceOpen ..)

theorem openProxy_packets (h : openProxy e cw p = some cw') : cw'.2.packets = cw.2.packets := by
  obtain ⟨f, w', ho, hrules⟩ := openProxy_cases h
  refine foldlM_induction (P := fun _ cw' => cw'.2.packets = cw.2.packets) hrules ?_ ?_
  · exact (congrArg (fun x => x.2.packets) ho).symm.trans (packets_ndIfaceOpen ..)
  · rintro l r cw₁ cw₂ - h₁ h₂
    exact (openRule_packets h₂).trans h₁

/-- Start-up sends no packet. -/
theorem ndProxyStartup_packets {c : Config} {w : World} (h : ndProxyStartup e c w = some cw') :
    cw'.2.packets = w.packets := by
  unfold ndProxyStartup at h
  split_ifs at h
  refine foldlM_induction (P := fun _ cw' => cw'.2.packets = w.packets) h rfl ?_
  rintro l p cw₁ cw₂ - h₁ h₂
  exact (openProxy_packets h₂).trans h₁

/-- A start-up that succeeds opens the interfaces the configuration names. -/
theorem started_of_ndProxyStartup {c : Config} {w : World} (hc : c.Parsed)
    (h : ndProxyStartup e c w = some cw') : cw'.1.Started := by
  obtain ⟨ho, hopen⟩ := ndProxyStartup_opens h
  constructor
  · intro p r hr
    rw [ho.rules_eq] at hr
    rw [ho.mode_eq]
    exact hc.mode_ne p r hr
  · intro p r hr
    rw [ho.rules_eq] at hr
    exact (hopen p (hc.mem_proxies p r hr)).1
  · intro p r hr
    rw [ho.rules_eq] at hr
    rw [ho.mode_eq, ← hc.ifname_iff p r hr]
    constructor
    · intro hsome hn
      rw [ho.rule_iface_eq hn, hc.rule_iface] at hsome
      exact absurd hsome (by simp)
    · exact (hopen p (hc.mem_proxies p r hr)).2 r hr

end Opening

/-! ## The small network -/

theorem Small.parsed : (config ifaceRule).Parsed := by
  have hc : (config ifaceRule).Closed := config_closed fun _ => rfl
  exact hc.parsed (by decide +kernel)

theorem Small.start_of_isSome {rule : Rule → Rule}
    (h : (Daemon.start { kernel, conf, cfg := config rule, rt := {}, now := 0 }
      (config rule)).isSome) :
    Daemon.start { kernel, conf, cfg := config rule, rt := {}, now := 0 } (config rule) =
      some (daemon rule) := by
  rw [daemon, ← Option.some_get h, Option.getD_some]

theorem Small.start_daemon :
    Daemon.start { kernel, conf, cfg := config ifaceRule, rt := {}, now := 0 }
      (config ifaceRule) = some (daemon ifaceRule) :=
  start_of_isSome (by decide +kernel)

/-- The small network starts, with any settings. -/
theorem Small.start_eq (c : Conf) :
    Daemon.start { kernel, conf := c, cfg := config ifaceRule, rt := {}, now := 0 }
      (config ifaceRule) =
        some (.init c (daemon ifaceRule).cfg (daemon ifaceRule).mem.world) := by
  obtain ⟨cw, hcw, hd⟩ := Option.map_eq_some_iff.1 start_daemon
  -- Start-up does not read the settings.
  have hstart : ndProxyStartup { kernel, conf := c, cfg := config ifaceRule, rt := {}, now := 0 }
      (config ifaceRule) { net := .empty, log := [] } = some cw := hcw
  rw [Daemon.start, hstart, ← hd]
  rfl

end Ndppd
