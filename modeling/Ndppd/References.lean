import Ndppd.Daemon.Links
import Ndppd.Lib.Refcount
import Ndppd.Startup

/-!
# References to interface objects

An interface object is referred to by proxies, by rules and by sessions. After
start-up, its counter is the number of these references, and it is in the list
of interfaces as long as there are any (`Daemon.run_references`).

* `Change.counts`: a change of a session takes or drops a reference when the
  interface of the session changes;
* `ndProxyStartup_counted`: start-up counts the references of the configuration.
-/

namespace Ndppd

open Refcount

variable {e : Env} {n n' : Net} {refs : IfaceId → ℕ} {f : IfaceId} {w w' : World}

/-- The counters of the objects are the numbers of references to them. -/
structure Net.Counts (n : Net) (refs : IfaceId → ℕ) : Prop where
  exact : Exact n.ifaces (fun f => (n.iface f).refcount) refs
  lt_fresh : ∀ f ∈ n.ifaces, f < n.fresh

/-! ## Taking and dropping references -/

theorem refcount_set (n : Net) (f : IfaceId) (g : Iface) :
    (fun j => ((n.set f g).iface j).refcount) =
      Function.update (fun j => (n.iface j).refcount) f g.refcount := by
  funext j
  by_cases hj : j = f
  · subst hj
    rw [Function.update_self, Net.set_iface_self]
  · rw [Function.update_of_ne hj, n.set_iface_of_ne g hj]

namespace Net.Counts

theorem addRef (h : n.Counts refs) (hf : f ∈ n.ifaces) :
    (n.addRef f).Counts (Function.update refs f (refs f + 1)) := by
  refine ⟨?_, h.lt_fresh⟩
  rw [Net.addRef, refcount_set]
  exact h.exact.take hf

theorem alloc (h : n.Counts refs) {g : Iface} (hg : g.refcount = 1) :
    (n.alloc g).Counts (Function.update refs n.fresh (refs n.fresh + 1)) := by
  have hnew : n.fresh ∉ n.ifaces := fun hf => Nat.lt_irrefl _ (h.lt_fresh _ hf)
  constructor
  · have hcount : (fun j => ((n.alloc g).iface j).refcount) =
        Function.update (fun j => (n.iface j).refcount) n.fresh 1 := by
      rw [← hg]
      exact refcount_set n n.fresh g
    rw [hcount]
    exact h.exact.alloc hnew
  · intro f hf
    rcases List.mem_cons.1 hf with rfl | hf
    · exact Nat.lt_succ_self _
    · exact Nat.lt_succ_of_lt (h.lt_fresh f hf)

theorem takes (h : n.Counts refs) (ht : n.Takes f n') :
    n'.Counts (Function.update refs f (refs f + 1)) := by
  rcases ht with ⟨hf, rfl⟩ | ⟨g, hg, -, rfl, rfl⟩
  · exact h.addRef hf
  · exact h.alloc hg

/-- Writing an object without its counter. -/
theorem set (h : n.Counts refs) {g : Iface} (hg : g.refcount = (n.iface f).refcount) :
    (n.set f g).Counts refs := by
  refine ⟨?_, h.lt_fresh⟩
  rw [refcount_set, hg, Function.update_eq_self]
  exact h.exact

theorem close (h : w.net.Counts refs) (hf : 0 < refs f) :
    (ndIfaceClose e f w).net.Counts (Function.update refs f (refs f - 1)) := by
  have hdrop := h.exact.drop hf
  rw [← refcount_set w.net f
    { w.net.iface f with refcount := (w.net.iface f).refcount - 1 }] at hdrop
  unfold ndIfaceClose
  dsimp only at hdrop ⊢
  split_ifs at hdrop ⊢ with hpos hup
  · exact ⟨hdrop, h.lt_fresh⟩
  · exact ⟨hdrop, fun f hf => h.lt_fresh f (List.mem_of_mem_erase hf)⟩
  · exact ⟨hdrop, fun f hf => h.lt_fresh f (List.mem_of_mem_erase hf)⟩

end Net.Counts

/-! ## References of sessions -/

section Sessions

variable {st st' : Store} {i : SessionId} {s s' : Session} {o o' : Option Session} {a : Action}
  {src : Addr} {srcLl : Option LlAddr}

/-- The interface of the session, if there is a session. -/
def ifaceOf (o : Option Session) : Option IfaceId := o.bind Session.iface

/-- The number of sessions that refer to the object `f`. -/
def Store.ifaceRefs (st : Store) (f : IfaceId) : ℕ :=
  refsOf (List.range st.fresh) (fun i => ifaceOf (st.session i)) f

theorem Store.ifaceRefs_eq (hb : Before st.fresh st.session) {k : ℕ} (hk : st.fresh ≤ k)
    (f : IfaceId) : refsOf (List.range k) (fun i => ifaceOf (st.session i)) f = st.ifaceRefs f := by
  obtain ⟨k, rfl⟩ := Nat.exists_eq_add_of_le hk
  rw [refsOf, List.range_add, List.countP_append, Store.ifaceRefs, refsOf, Nat.add_eq_left,
    List.countP_eq_zero]
  intro i hi href
  obtain ⟨j, -, rfl⟩ := List.mem_map.1 hi
  obtain ⟨s, hs, -⟩ := Option.bind_eq_some_iff.1 (beq_iff_eq.1 href)
  exact Nat.not_lt.2 (Nat.le_add_right _ j) (hb _ s hs)

/-- The number of references, when one session changes. -/
theorem Store.Writes.ifaceRefs (h : st.Writes e i o st') (hb : Before st.fresh st.session)
    (f : IfaceId) : st'.ifaceRefs f + (ifaceOf (st.session i) == some f).toNat =
      st.ifaceRefs f + (ifaceOf o == some f).toNat := by
  rw [← Store.ifaceRefs_eq hb h.fresh_le, ← h.self, Store.ifaceRefs]
  exact refsOf_change (k := i) List.nodup_range (List.mem_range.2 h.lt_fresh)
    (fun j hj => congrArg ifaceOf (h.of_ne hj)) f

/-- The references when the session `o` becomes `o'`. -/
def Moves (refs refs' : IfaceId → ℕ) (o o' : Option Session) : Prop :=
  ∀ f, refs' f + (ifaceOf o == some f).toNat = refs f + (ifaceOf o' == some f).toNat

theorem moves_of_eq (h : ifaceOf o' = ifaceOf o) : Moves refs refs o o' := by
  intro f
  rw [h]

theorem moves_take (ho : ifaceOf o = none) (ho' : ifaceOf o' = some f) :
    Moves refs (Function.update refs f (refs f + 1)) o o' := by
  intro g
  rw [ho, ho']
  by_cases hg : g = f
  · subst hg
    simp
  · rw [Function.update_of_ne hg]
    simp [Ne.symm hg]

theorem moves_drop (ho : ifaceOf o = some f) (ho' : ifaceOf o' = none) (hf : 0 < refs f) :
    Moves refs (Function.update refs f (refs f - 1)) o o' := by
  intro g
  rw [ho, ho']
  by_cases hg : g = f
  · subst hg
    simp [Nat.sub_add_cancel hf]
  · rw [Function.update_of_ne hg]
    simp [Ne.symm hg]

/-- A change of a session takes or drops a reference when its interface changes. -/
theorem Change.counts (h : Change e i w a o o' w') (hcount : w.net.Counts refs)
    (ho : ∀ f, ifaceOf o = some f → 0 < refs f)
    (hrule : ∀ p, ∀ r ∈ (e.cfg.proxy p).rules, ∀ f, (e.cfg.rule r).iface = some f → 0 < refs f) :
    ∃ refs', w'.net.Counts refs' ∧ Moves refs refs' o o' := by
  cases h with
  | @created _ p src tgt srcLl r s s' w₀ w₁ w' hsol hr hstart hns =>
    have hnet : w₀.net.Counts refs := hsol.net_eq ▸ hcount
    have hmem : ∀ f, (e.cfg.rule r).iface = some f → f ∈ w₀.net.ifaces := fun f hf =>
      (hnet.exact.mem_iff f).2 (hrule p r (of_findRule_eq_some hr).1 f hf)
    rcases hstart.net_cases rfl hmem with ⟨hs, hw⟩ | ⟨f, hs, ht⟩
    · rw [← hw] at hnet
      rcases hns.net_cases with ⟨hf, hw'⟩ | ⟨-, f, hf', ht⟩
      · exact ⟨refs, hw' ▸ hnet, moves_of_eq (hf.trans hs)⟩
      · exact ⟨_, hnet.takes ht, moves_take rfl hf'⟩
    · -- A session with an interface does not open another one.
      rcases hns.net_cases with ⟨hf, hw'⟩ | ⟨hf, -⟩
      · exact ⟨_, hw' ▸ hnet.takes ht, moves_take rfl (hf.trans hs)⟩
      · exact absurd (hf.symm.trans hs) (by simp)
  | solicited hsol hns =>
    rw [← hsol.net_eq] at hcount
    rcases hns.net_cases with ⟨hf, hw⟩ | ⟨hf, f, hf', ht⟩
    · exact ⟨refs, hw ▸ hcount, moves_of_eq hf⟩
    · exact ⟨_, hcount.takes ht, moves_take hf hf'⟩
  | advertised _ _ hna => exact ⟨refs, hna.net_eq ▸ hcount, moves_of_eq hna.iface⟩
  | updated hu => exact ⟨refs, hu.net_eq.2 ▸ hcount, moves_of_eq hu.net_eq.1⟩
  | deleted hu =>
    rcases hu.net_deleted with ⟨hf, hw⟩ | ⟨f, w₀, hf, hw, rfl⟩
    · exact ⟨refs, hw ▸ hcount, moves_of_eq hf.symm⟩
    · rw [← hw] at hcount
      exact ⟨_, hcount.close (ho f hf), moves_drop hf rfl (ho f hf)⟩
  | forgotten => exact ⟨refs, hcount, moves_of_eq rfl⟩
  | @rewired s _ =>
    obtain ⟨b, hb⟩ := ndLUp_fst e i s w
    refine ⟨refs, ndLUp_net e i s w ▸ hcount, moves_of_eq ?_⟩
    rw [hb]
    rfl

end Sessions

/-! ## References of the configuration -/

section Config

variable {c c' : Config} {p : ProxyId} {r : RuleId}

/-- The rules of all proxies. -/
def Config.ruleIds (c : Config) : List RuleId := c.proxies.flatMap fun p => (c.proxy p).rules

/-- The number of proxies and rules that refer to the object `f`. -/
def Config.ifaceRefs (c : Config) (f : IfaceId) : ℕ :=
  refsOf c.proxies (fun p => (c.proxy p).iface) f + refsOf c.ruleIds (fun r => (c.rule r).iface) f

theorem Config.nodup_ruleIds (c : Config) : c.ruleIds.Nodup := by
  rw [Config.ruleIds, List.nodup_flatMap]
  refine ⟨fun p _ => c.rules_nodup p, c.proxies_nodup.imp fun {p q} hpq r hr hr' => hpq ?_⟩
  rw [← c.linked p r hr, ← c.linked q r hr']

theorem Config.mem_ruleIds (hp : p ∈ c.proxies) (hr : r ∈ (c.proxy p).rules) : r ∈ c.ruleIds :=
  List.mem_flatMap.2 ⟨p, hp, hr⟩

theorem Config.Opens.ruleIds_eq (h : c.Opens c') : c'.ruleIds = c.ruleIds := by
  rw [Config.ruleIds, h.proxies]
  exact List.flatMap_congr fun p _ => h.rules_eq p

/-- A proxy gets an interface. -/
theorem Config.ifaceRefs_setProxy (hp : p ∈ c.proxies) (hnone : (c.proxy p).iface = none)
    (f : IfaceId) : (c.setProxy p { c.proxy p with iface := some f }).ifaceRefs =
      Function.update c.ifaceRefs f (c.ifaceRefs f + 1) := by
  have htake : refsOf c.proxies (fun q =>
      ((c.setProxy p { c.proxy p with iface := some f }).proxy q).iface) =
      Function.update (refsOf c.proxies fun q => (c.proxy q).iface) f _ :=
    refsOf_take c.proxies_nodup hp (fun q hq => by rw [c.setProxy_proxy_of_ne _ hq]) hnone
      (by rw [c.setProxy_proxy_self])
  have hrules := (Config.Opens.setProxy c p f).ruleIds_eq
  funext g
  rw [Config.ifaceRefs, hrules]
  change refsOf c.proxies (fun q =>
    ((c.setProxy p { c.proxy p with iface := some f }).proxy q).iface) g + _ = _
  rw [htake]
  by_cases hg : g = f
  · subst hg
    rw [Function.update_self, Function.update_self, Config.ifaceRefs, Nat.add_right_comm]
    rfl
  · rw [Function.update_of_ne hg, Function.update_of_ne hg]
    rfl

/-- A rule gets an interface. -/
theorem Config.ifaceRefs_setRule (hr : r ∈ c.ruleIds) (hnone : (c.rule r).iface = none)
    (f : IfaceId) : (c.setRule r { c.rule r with iface := some f }).ifaceRefs =
      Function.update c.ifaceRefs f (c.ifaceRefs f + 1) := by
  have htake : refsOf c.ruleIds (fun q =>
      ((c.setRule r { c.rule r with iface := some f }).rule q).iface) =
      Function.update (refsOf c.ruleIds fun q => (c.rule q).iface) f _ :=
    refsOf_take c.nodup_ruleIds hr (fun q hq => by rw [c.setRule_rule_of_ne _ hq]) hnone
      (by rw [c.setRule_rule_self])
  funext g
  change refsOf c.proxies (fun q => (c.proxy q).iface) g + refsOf c.ruleIds (fun q =>
    ((c.setRule r { c.rule r with iface := some f }).rule q).iface) g = _
  rw [htake]
  by_cases hg : g = f
  · subst hg
    rw [Function.update_self, Function.update_self, Config.ifaceRefs, Nat.add_assoc]
  · rw [Function.update_of_ne hg, Function.update_of_ne hg]
    rfl

end Config

/-! ## Start-up -/

section Startup

variable {cw cw' : Config × World} {p : ProxyId} {r : RuleId}

/-- The counters are those of the references of the configuration. -/
def Counted (cw : Config × World) : Prop := cw.2.net.Counts cw.1.ifaceRefs

theorem openRule_counted (h : openRule e cw r = some cw') (hr : r ∈ cw.1.ruleIds)
    (hnone : (cw.1.rule r).iface = none) (hc : Counted cw) : Counted cw' := by
  rcases openRule_cases h with ⟨-, rfl⟩ | ⟨-, f, w', ho, rfl⟩
  · exact hc
  · rw [Counted, Config.ifaceRefs_setRule hr hnone]
    exact Net.Counts.takes hc (takes_of_ndIfaceOpen ho)

theorem openRule_frame (h : openRule e cw r = some cw') :
    cw'.1.proxy = cw.1.proxy ∧ ∀ q, q ≠ r → cw'.1.rule q = cw.1.rule q := by
  rcases openRule_cases h with ⟨-, rfl⟩ | ⟨-, f, w', -, rfl⟩
  · exact ⟨rfl, fun _ _ => rfl⟩
  · exact ⟨rfl, fun q hq => cw.1.setRule_rule_of_ne _ hq⟩

theorem bindProxy_counted {c : Config} {w w' : World} (hp : p ∈ c.proxies)
    (hnone : (c.proxy p).iface = none) (hc : Counted (c, w)) (ht : w.net.Takes f w'.net) :
    Counted (bindProxy c p f w') := by
  rw [Counted, bindProxy, Config.ifaceRefs_setProxy hp hnone]
  exact (Net.Counts.takes hc ht).set rfl

/-- Opening a proxy whose interface and whose rules' interfaces are not open yet. -/
theorem openProxy_counted (h : openProxy e cw p = some cw') (hp : p ∈ cw.1.proxies)
    (hnone : (cw.1.proxy p).iface = none)
    (hrules : ∀ r ∈ (cw.1.proxy p).rules, (cw.1.rule r).iface = none) (hc : Counted cw) :
    Counted cw' ∧ (∀ q, q ≠ p → cw'.1.proxy q = cw.1.proxy q) ∧
      ∀ r, r ∉ (cw.1.proxy p).rules → cw'.1.rule r = cw.1.rule r := by
  obtain ⟨f, w', ho, hloop⟩ := openProxy_cases h
  have hbind := bindProxy_counted hp hnone hc (takes_of_ndIfaceOpen ho)
  -- After the rules `l`, those that are left are not open.
  let P (l : List RuleId) (cw' : Config × World) : Prop := Counted cw' ∧ cw.1.Opens cw'.1 ∧
    (∀ q, q ≠ p → cw'.1.proxy q = cw.1.proxy q) ∧ ∀ r, r ∉ l → cw'.1.rule r = cw.1.rule r
  have hP : P (cw.1.proxy p).rules cw' := by
    refine foldlM_induction (P := P) hloop ⟨hbind, .setProxy _ _ _, ?_, fun _ _ => rfl⟩ ?_
    · exact fun q hq => cw.1.setProxy_proxy_of_ne _ hq
    · rintro l r cw₁ cw₂ hl ⟨hc₁, ho₁, hp₁, hr₁⟩ h₂
      have hmem : r ∈ (cw.1.proxy p).rules := hl.subset (by simp)
      have hnew : r ∉ l := by
        have := (cw.1.rules_nodup p).sublist hl.sublist
        exact fun hr => List.disjoint_of_nodup_append this hr List.mem_cons_self
      obtain ⟨hproxy, hrule⟩ := openRule_frame h₂
      refine ⟨openRule_counted h₂ ?_ ?_ hc₁, ho₁.trans (openRule_opens h₂), ?_, ?_⟩
      · rw [ho₁.ruleIds_eq]
        exact Config.mem_ruleIds hp hmem
      · rw [hr₁ r hnew]
        exact hrules r hmem
      · intro q hq
        rw [hproxy, hp₁ q hq]
      · intro q hq
        rw [List.mem_append, not_or, List.mem_singleton] at hq
        rw [hrule q hq.2, hr₁ q hq.1]
  exact ⟨hP.1, hP.2.2.1, hP.2.2.2⟩

/-- Start-up counts the references of the configuration. -/
theorem ndProxyStartup_counted {c : Config} {w : World} (hparsed : c.Parsed)
    (hw : w.net = .empty) (h : ndProxyStartup e c w = some cw') : Counted cw' := by
  unfold ndProxyStartup at h
  split_ifs at h
  have hempty : Counted (c, w) := by
    have hrefs : c.ifaceRefs = fun _ => 0 := by
      funext f
      have hp : refsOf c.proxies (fun p => (c.proxy p).iface) f = 0 := by
        rw [refsOf, List.countP_eq_zero]
        exact fun p _ => by simp [hparsed.proxy_iface]
      have hr : refsOf c.ruleIds (fun r => (c.rule r).iface) f = 0 := by
        rw [refsOf, List.countP_eq_zero]
        exact fun r _ => by simp [hparsed.rule_iface]
      rw [Config.ifaceRefs, hp, hr]
    rw [Counted, hrefs, hw]
    exact ⟨.empty _, by simp [Net.empty]⟩
  -- After the proxies `l`, those that are left are not open.
  let P (l : List ProxyId) (cw' : Config × World) : Prop := Counted cw' ∧ c.Opens cw'.1 ∧
    ∀ p, p ∉ l → (cw'.1.proxy p).iface = none ∧
      ∀ r ∈ (c.proxy p).rules, (cw'.1.rule r).iface = none
  have hP : P c.proxies cw' := by
    refine foldlM_induction (P := P) h ⟨hempty, .refl c, fun p _ => ?_⟩ ?_
    · exact ⟨hparsed.proxy_iface p, fun r _ => hparsed.rule_iface r⟩
    · rintro l p cw₁ cw₂ hl ⟨hc₁, ho₁, hleft⟩ h₂
      have hmem : p ∈ c.proxies := hl.subset (by simp)
      have hnew : p ∉ l := by
        have := c.proxies_nodup.sublist hl.sublist
        exact fun hp => List.disjoint_of_nodup_append this hp List.mem_cons_self
      have hrules := ho₁.rules_eq p
      obtain ⟨hc₂, hp₂, hr₂⟩ := openProxy_counted h₂ (ho₁.proxies ▸ hmem) (hleft p hnew).1
        (hrules ▸ (hleft p hnew).2) hc₁
      refine ⟨hc₂, ho₁.trans (openProxy_opens h₂).1, fun q hq => ?_⟩
      rw [List.mem_append, not_or, List.mem_singleton] at hq
      refine ⟨by rw [hp₂ q hq.2, (hleft q hq.1).1], fun r hr => ?_⟩
      rw [hr₂ r ?_, (hleft q hq.1).2 r hr]
      -- A rule is a rule of one proxy.
      rw [hrules]
      exact fun hr' => hq.2 ((c.linked q r hr).symm.trans (c.linked p r hr'))
  exact hP.1

end Startup

/-! ## Runs -/

section Runs

open Relation

variable {c : Config} {a : Action} {m m' : Mem}

/-- A proxy, a rule or a session refers to the object `f`. -/
def Refers (c : Config) (st : Store) (f : IfaceId) : Prop :=
  (∃ p ∈ c.proxies, (c.proxy p).iface = some f) ∨ (∃ r ∈ c.ruleIds, (c.rule r).iface = some f) ∨
    ∃ i s, st.session i = some s ∧ s.iface = some f

/-- The number of proxies, rules and sessions that refer to the object `f`. -/
def totalRefs (c : Config) (st : Store) (f : IfaceId) : ℕ := c.ifaceRefs f + st.ifaceRefs f

theorem ifaceOf_eq_some {o : Option Session} :
    ifaceOf o = some f ↔ ∃ s, o = some s ∧ s.iface = some f := Option.bind_eq_some_iff

theorem totalRefs_pos_iff {st : Store} (hb : Before st.fresh st.session) :
    0 < totalRefs c st f ↔ Refers c st f := by
  rw [totalRefs, Nat.add_pos_iff_pos_or_pos, Config.ifaceRefs, Nat.add_pos_iff_pos_or_pos,
    refsOf_pos_iff, refsOf_pos_iff, Store.ifaceRefs, refsOf_pos_iff, or_assoc]
  refine or_congr_right (or_congr_right ⟨?_, ?_⟩)
  · rintro ⟨i, -, hi⟩
    exact ⟨i, ifaceOf_eq_some.1 hi⟩
  · rintro ⟨i, s, hs, hf⟩
    exact ⟨i, List.mem_range.2 (hb i s hs), ifaceOf_eq_some.2 ⟨s, hs, hf⟩⟩

/-- The counters are those of all references. -/
def Mem.Counted (c : Config) (m : Mem) : Prop := m.world.net.Counts (totalRefs c m.store)

theorem Effect.counts {w w' : World} (h : Effect e w a w') (hc : w.net.Counts refs) :
    w'.net.Counts refs := by
  cases h with
  | ignored hsol => exact hsol.net_eq ▸ hc
  | rebound f g hg => exact hc.set hg.refcount
  | joined => exact hc
  | left => exact hc
  | purged => exact hc

/-- A move takes and drops references as the sessions do. -/
theorem Move.counted (h : Move e a m m') (hcfg : e.cfg = c) (hok : e.Ok m.store)
    (hlist : ∀ p, ∀ r ∈ (c.proxy p).rules, p ∈ c.proxies) (hc : m.Counted c) :
    m'.Counted c := by
  subst hcfg
  cases h with
  | session i o o' st' w' ho hchange hw =>
    have hpos : ∀ f, Refers e.cfg m.store f → 0 < totalRefs e.cfg m.store f := fun f =>
      (totalRefs_pos_iff hok.before).2
    obtain ⟨refs', hc', hmoves⟩ := hchange.counts hc
      (fun f hf => by
        obtain ⟨s, hs, hsf⟩ := ifaceOf_eq_some.1 hf
        exact hpos f (.inr (.inr ⟨i, s, ho.trans hs, hsf⟩)))
      (fun p r hr f hf => hpos f (.inr (.inl ⟨r, Config.mem_ruleIds (hlist p r hr) hr, hf⟩)))
    have hrefs : refs' = totalRefs e.cfg st' := by
      funext f
      have hm := hmoves f
      have hs := hw.ifaceRefs hok.before f
      rw [ho] at hs
      rw [totalRefs] at hm ⊢
      omega
    rw [hrefs] at hc'
    exact hc'
  | world w' he => exact he.counts hc

/-- During an event, the counters are those of all references. -/
theorem moves_counted (h : ReflTransGen (Move e a) m m') (hcfg : e.cfg = c) (hok : e.Ok m.store)
    (hlist : ∀ p, ∀ r ∈ (c.proxy p).rules, p ∈ c.proxies) (hc : m.Counted c) :
    e.Ok m'.store ∧ m'.Counted c := by
  induction h with
  | refl => exact ⟨hok, hc⟩
  | tail _ hm ih => exact ⟨hm.ok ih.1, hm.counted hcfg ih.1 hlist ih.2⟩

theorem Mem.counted_empty {w : World} (hc : w.net.Counts c.ifaceRefs) :
    Mem.Counted c { store := .empty, world := w } := by
  have hrefs : totalRefs c Store.empty = c.ifaceRefs := by
    funext f
    exact Nat.add_zero _
  rw [Mem.Counted, hrefs]
  exact hc

/-- The references during any event, of any run after start-up. -/
theorem Daemon.start_counted {d : Daemon} {ev : Event} (hparsed : c.Parsed)
    (h : start e c = some d) (es : List Event)
    (hm : ReflTransGen (Move ((d.run es).env ev) ev.action) (d.run es).mem m) :
    ((d.run es).env ev).Ok m.store ∧ m.Counted d.cfg := by
  obtain ⟨cw, hcw, rfl⟩ := Option.map_eq_some_iff.1 h
  have hopens := (ndProxyStartup_opens hcw).1
  have hlist := hopens.mem_proxies hparsed
  have hrun : ((init e.conf cw.1 cw.2).run es).mem.Counted cw.1 :=
    run_induction (P := fun m => m.Counted cw.1)
      (Mem.counted_empty (ndProxyStartup_counted hparsed rfl hcw))
      (fun e a m m' _ hcfg hok hm hc => hm.counted hcfg hok hlist hc) es
  exact moves_counted hm (by simp) (run_ok e.conf cw.1 cw.2 es ev) hlist hrun

/-- What the daemon keeps in every state reached after start-up. -/
theorem Daemon.run_counted {d : Daemon} (hparsed : c.Parsed) (h : start e c = some d)
    (es : List Event) (ev : Event) : ((d.run es).env ev).Ok (d.run es).mem.store ∧
      (d.run es).mem.Counted d.cfg ∧ ∀ p, ∀ r ∈ (d.cfg.proxy p).rules, p ∈ d.cfg.proxies := by
  obtain ⟨hok, hcount⟩ := start_counted hparsed h es
    (ReflTransGen.refl (r := Move ((d.run es).env ev) ev.action))
  obtain ⟨cw, hcw, rfl⟩ := Option.map_eq_some_iff.1 h
  exact ⟨hok, hcount, (ndProxyStartup_opens hcw).1.mem_proxies hparsed⟩

/-- After start-up, at any point of any event of any run: the counter of an
    object in the list is the number of proxies, rules and sessions that refer to
    it; the objects that are referred to are in the list, once; an object that
    leaves the list is referred to by nothing. -/
theorem Daemon.run_references {d : Daemon} (hc : c.Parsed) (h : start e c = some d)
    (es : List Event) (ev : Event) (m : Mem)
    (hm : ReflTransGen (Move ((d.run es).env ev) ev.action) (d.run es).mem m) :
    (∀ f ∈ m.world.net.ifaces, (m.world.net.iface f).refcount =
      refsOf d.cfg.proxies (fun p => (d.cfg.proxy p).iface) f +
        refsOf d.cfg.ruleIds (fun r => (d.cfg.rule r).iface) f +
        refsOf (List.range m.store.fresh) (fun i => ifaceOf (m.store.session i)) f) ∧
    (∀ i s, m.store.session i = some s → i < m.store.fresh) ∧
    (∀ f, Refers d.cfg m.store f → m.world.net.ifaces.count f = 1) ∧
    ∀ m', Move ((d.run es).env ev) ev.action m m' → ∀ f ∈ m.world.net.ifaces,
      f ∉ m'.world.net.ifaces → ¬Refers d.cfg m'.store f := by
  obtain ⟨hok, hcount⟩ := start_counted hc h es hm
  refine ⟨fun f hf => ?_, hok.before, fun f hf => ?_, fun m' hm' f _ hf hrefers => hf ?_⟩
  · rw [hcount.exact.count_eq f hf, totalRefs, Config.ifaceRefs, Store.ifaceRefs]
    push_cast
    rfl
  · rw [← totalRefs_pos_iff hok.before, ← hcount.exact.mem_iff] at hf
    exact List.count_eq_one_of_mem hcount.exact.nodup hf
  · obtain ⟨hok', hcount'⟩ := start_counted hc h es (hm.tail hm')
    rw [hcount'.exact.mem_iff, totalRefs_pos_iff hok'.before]
    exact hrefers

/-- In the small network, two rules and, after a solicitation, a session refer to
    the third interface. -/
theorem Daemon.run_references_small :
    (((Small.daemon Small.ifaceRule).run
      [Small.event 0 (.ns 0 1 2 (some 3))]).mem.world.net.iface 1).refcount = 3 ∧
    refsOf (Small.daemon Small.ifaceRule).cfg.ruleIds
      (fun r => ((Small.daemon Small.ifaceRule).cfg.rule r).iface) 1 = 2 ∧
    ∀ f, Refers (Small.daemon Small.ifaceRule).cfg ((Small.daemon Small.ifaceRule).run
        [Small.event 0 (.ns 0 1 2 (some 3))]).mem.store f →
      ((Small.daemon Small.ifaceRule).run
        [Small.event 0 (.ns 0 1 2 (some 3))]).mem.world.net.ifaces.count f = 1 :=
  ⟨by decide +kernel, by decide +kernel,
    (run_references Small.parsed Small.start_daemon _ (Small.event 1 .tick) _ .refl).2.2.1⟩

end Runs

end Ndppd
